import Splora.NewIndex.Rows

/-!
# What the rows of a block are

Every key except that of an address row names the block or one of its transactions, so blocks of
one chain have no such key in common.
-/

namespace Splora
namespace NewIndex

open Foundation

/-!
## Block entries of a chain
-/

def blockEntryAt (b : Block) (height : Nat) : BlockEntry where
  block := b
  entry := b.entryAt height
  size := b.size

@[simp] theorem blockEntryAt_block (b : Block) (height : Nat) :
    (blockEntryAt b height).block = b := rfl

def blockEntriesFrom : Nat -> List Block -> List BlockEntry
  | _, [] => []
  | height, b :: rest =>
    blockEntryAt b height :: blockEntriesFrom (height + 1) rest

def chainEntries (blocks : List Block) : List BlockEntry :=
  blockEntriesFrom 0 blocks

theorem blockEntriesFrom_append (height : Nat) (c d : List Block) :
    blockEntriesFrom height (c ++ d) =
      blockEntriesFrom height c ++ blockEntriesFrom (height + c.length) d := by
  induction c generalizing height with
  | nil => rfl
  | cons b rest ih =>
    simp only [List.cons_append, blockEntriesFrom, ih, List.length_cons]
    rw [Nat.add_assoc, Nat.add_comm 1]

theorem chainEntries_append (q n : List Block) :
    chainEntries (q ++ n) = chainEntries q ++ blockEntriesFrom q.length n := by
  rw [chainEntries, blockEntriesFrom_append, Nat.zero_add, chainEntries]

theorem map_entry_blockEntriesFrom (height : Nat) (c : List Block) :
    (blockEntriesFrom height c).map BlockEntry.entry =
      entriesFrom height c := by
  induction c generalizing height with
  | nil => rfl
  | cons b rest ih =>
    simp only [blockEntriesFrom, List.map_cons, entriesFrom, ih]
    rfl

theorem map_block_blockEntriesFrom (height : Nat) (c : List Block) :
    (blockEntriesFrom height c).map BlockEntry.block = c := by
  induction c generalizing height with
  | nil => rfl
  | cons b rest ih =>
    simp only [blockEntriesFrom, List.map_cons, ih]
    rfl

variable {blocks : List Block} {be : BlockEntry}

theorem mem_blockEntriesFrom {height : Nat} :
    be ∈ blockEntriesFrom height blocks <->
      exists (i : Nat) (b : Block), blocks[i]? = some b ∧ be = blockEntryAt b (height + i) := by
  induction blocks generalizing height with
  | nil => simp [blockEntriesFrom]
  | cons b rest ih =>
    rw [blockEntriesFrom, List.mem_cons, ih]
    constructor
    · rintro (rfl | ⟨i, b', hb', rfl⟩)
      · exact ⟨0, b, rfl, rfl⟩
      · refine ⟨i + 1, b', hb', ?_⟩
        rw [Nat.add_assoc, Nat.add_comm 1]
    · rintro ⟨i, b', hb', rfl⟩
      cases i with
      | zero =>
        left
        rw [Option.some.inj hb']
        rfl
      | succ i =>
        right
        refine ⟨i, b', hb', ?_⟩
        rw [Nat.add_assoc, Nat.add_comm 1]

theorem mem_chainEntries :
    be ∈ chainEntries blocks <->
      exists (i : Nat) (b : Block), blocks[i]? = some b ∧ be = blockEntryAt b i := by
  rw [chainEntries, mem_blockEntriesFrom]
  simp only [Nat.zero_add]

theorem block_mem_of_mem_blockEntriesFrom {height : Nat} (h : be ∈ blockEntriesFrom height blocks) :
    be.block ∈ blocks := by
  rw [← map_block_blockEntriesFrom height blocks]
  exact List.mem_map_of_mem h

theorem hash_of_mem_blockEntriesFrom {height : Nat} (h : be ∈ blockEntriesFrom height blocks) :
    be.entry.hash = be.block.hash := by
  rcases mem_blockEntriesFrom.mp h with ⟨i, b, _, rfl⟩
  rfl

/-!
## The relations
-/

inductive AddRow (cfg : IndexerConfig) (b : BlockEntry) :
    TxstoreKey -> TxstoreValue -> Prop where
  | conf {tx : Transaction} (htx : tx ∈ b.block.txdata) :
      AddRow cfg b (.conf tx.txid b.entry.hash) .empty
  | tx {tx : Transaction} (hfull : cfg.lightMode = false)
      (htx : tx ∈ b.block.txdata) :
      AddRow cfg b (.tx tx.txid) (.rawTx tx.raw)
  | txout {tx : Transaction} {i : Nat} {txo : TxOut}
      (htx : tx ∈ b.block.txdata) (htxo : tx.output[i]? = some txo)
      (hspendable : cfg.isSpendable txo = true) :
      AddRow cfg b (.txout { txid := tx.txid, vout := i.toUInt32 }) (.txOut txo)
  | txids (hfull : cfg.lightMode = false) :
      AddRow cfg b (.txids b.entry.hash) (.txids (b.block.txdata.map Transaction.txid))
  | blockMeta (hfull : cfg.lightMode = false) :
      AddRow cfg b (.blockMeta b.entry.hash) (.blockMeta (BlockMeta.ofEntry b))
  | header :
      AddRow cfg b (.header b.entry.hash) (.header b.block.header)
  | done :
      AddRow cfg b (.done b.entry.hash) .empty

inductive IndexRow (T : BlockTree) (cfg : IndexerConfig) (b : BlockEntry) :
    HistoryKey -> Prop where
  | funding {tx : Transaction} {idx i : Nat} {txo : TxOut}
      (htx : b.block.txdata[idx]? = some tx)
      (htxo : tx.output[i]? = some txo) (hindexed : cfg.isIndexed txo = true) :
      IndexRow T cfg b (historyRow cfg txo.scriptPubkey b.entry.height.toUInt32 idx.toUInt16
          (.funding {
            txid := tx.txid
            vout := i.toUInt32
            value := txo.value })).1
  | addr {tx : Transaction} {txo : TxOut} {address : Bytes}
      (htx : tx ∈ b.block.txdata) (htxo : txo ∈ tx.output)
      (hindexed : cfg.isIndexed txo = true)
      (hsearch : cfg.addressSearch = true)
      (haddress :
        cfg.externals.toAddressStr cfg.network txo.scriptPubkey = some address) :
      IndexRow T cfg b (.addr address)
  | spending {tx : Transaction} {idx i : Nat} {txi : TxIn} {txo : TxOut}
      (htx : b.block.txdata[idx]? = some tx)
      (htxi : tx.input[i]? = some txi) (hprevout : hasPrevout txi = true)
      (htxo : T.HasTxo txi.previousOutput txo) :
      IndexRow T cfg b (historyRow cfg txo.scriptPubkey b.entry.height.toUInt32 idx.toUInt16
          (.spending {
            txid := tx.txid
            vin := i.toUInt32
            prevTxid := txi.previousOutput.txid
            prevVout := txi.previousOutput.vout
            value := txo.value })).1
  | edge {tx : Transaction} {i : Nat} {txi : TxIn}
      (htx : tx ∈ b.block.txdata)
      (htxi : tx.input[i]? = some txi) (hprevout : hasPrevout txi = true) :
      IndexRow T cfg b
        (.edge {
          fundingTxid := txi.previousOutput.txid
          fundingVout := txi.previousOutput.vout
          spendingTxid := tx.txid
          spendingVin := i.toUInt32 })
  | done :
      IndexRow T cfg b (.done b.entry.hash)

section Membership

variable {T : BlockTree} {cfg : IndexerConfig} {b : BlockEntry}

variable {tx : Transaction}

theorem mem_addTransaction {blockhash : BlockHash} {row : TxstoreRow} :
    row ∈ addTransaction cfg tx blockhash <->
      row = (.conf tx.txid blockhash, .empty) ∨
      (cfg.lightMode = false ∧ row = (.tx tx.txid, .rawTx tx.raw)) ∨
      exists (i : Nat) (txo : TxOut), tx.output[i]? = some txo ∧ cfg.isSpendable txo = true ∧
        row = (.txout { txid := tx.txid, vout := i.toUInt32 }, .txOut txo) := by
  simp only [addTransaction, List.mem_cons, List.mem_append, List.mem_filterMap,
    Prod.exists, List.mk_mem_zipIdx_iff_getElem?]
  constructor
  · rintro (h | h | ⟨txo, i, htxo, h⟩)
    · exact Or.inl h
    · right
      left
      cases hlight : cfg.lightMode with
      | true => simp [hlight] at h
      | false => simpa [hlight] using h
    · right
      right
      split at h
      · rename_i hspendable
        exact ⟨i, txo, htxo, hspendable, (Option.some.inj h).symm⟩
      · cases h
  · rintro (h | ⟨hlight, h⟩ | ⟨i, txo, htxo, hspendable, h⟩)
    · exact Or.inl h
    · right
      left
      simp [hlight, h]
    · right
      right
      exact ⟨txo, i, htxo, by simp [hspendable, h]⟩

theorem mem_addBlock {k : TxstoreKey} {v : TxstoreValue} :
    (k, v) ∈ addBlock cfg b <-> AddRow cfg b k v := by
  simp only [addBlock, List.mem_append, List.mem_flatMap, mem_addTransaction]
  constructor
  · rintro (⟨tx, htx, h | ⟨hfull, h⟩ | ⟨i, txo, htxo, hspendable, h⟩⟩ | h | h)
    · cases h
      exact .conf htx
    · cases h
      exact .tx hfull htx
    · cases h
      exact .txout htx htxo hspendable
    · cases hlight : cfg.lightMode with
      | true => simp [hlight] at h
      | false =>
        simp only [hlight, Bool.false_eq_true, if_false, List.mem_cons,
          List.not_mem_nil, or_false] at h
        rcases h with h | h
        · cases h
          exact .txids hlight
        · cases h
          exact .blockMeta hlight
    · simp only [List.mem_cons, List.not_mem_nil, or_false] at h
      rcases h with h | h
      · cases h
        exact .header
      · cases h
        exact .done
  · intro h
    cases h with
    | conf htx => exact Or.inl ⟨_, htx, Or.inl rfl⟩
    | tx hfull htx => exact Or.inl ⟨_, htx, Or.inr (Or.inl ⟨hfull, rfl⟩)⟩
    | txout htx htxo hspendable =>
      exact Or.inl ⟨_, htx, Or.inr (Or.inr ⟨_, _, htxo, hspendable, rfl⟩)⟩
    | txids hfull => simp [hfull]
    | blockMeta hfull => simp [hfull]
    | header => simp
    | done => simp

variable {height : UInt32} {pos : UInt16}

theorem mem_indexOutput {txo : TxOut} {i : Nat} {row : HistoryRow} :
    row ∈ indexOutput cfg tx height pos txo i <->
      cfg.isIndexed txo = true ∧ (row = historyRow cfg txo.scriptPubkey height pos
            (.funding {
              txid := tx.txid
              vout := i.toUInt32
              value := txo.value }) ∨
          cfg.addressSearch = true ∧ exists address,
              cfg.externals.toAddressStr cfg.network txo.scriptPubkey = some address ∧
              row = (.addr address, [])) := by
  unfold indexOutput
  by_cases hindexed : cfg.isIndexed txo = true
  · by_cases hsearch : cfg.addressSearch = true
    · simp [hindexed, hsearch, addrSearchRow, eq_comm]
    · simp [hindexed, hsearch]
  · simp [hindexed]

def inputRows (cfg : IndexerConfig) (tx : Transaction) (height : UInt32)
    (pos : UInt16) (txi : TxIn) (i : Nat) (prevTxo : TxOut) :
    List HistoryRow :=
  [historyRow cfg prevTxo.scriptPubkey height pos
      (.spending {
        txid := tx.txid
        vin := i.toUInt32
        prevTxid := txi.previousOutput.txid
        prevVout := txi.previousOutput.vout
        value := prevTxo.value }),
    (.edge {
      fundingTxid := txi.previousOutput.txid
      fundingVout := txi.previousOutput.vout
      spendingTxid := tx.txid
      spendingVin := i.toUInt32 }, [])]

variable {txos : TxoMap} {rows : List HistoryRow}

theorem indexInput_eq_ok {txi : TxIn} {i : Nat} :
    indexInput cfg tx height pos txos txi i = .ok rows <->
      (hasPrevout txi = false ∧ rows = []) ∨ (hasPrevout txi = true ∧
          exists txo, txos txi.previousOutput = some txo ∧
            rows = inputRows cfg tx height pos txi i txo) := by
  unfold indexInput
  cases hprev : hasPrevout txi with
  | false => simp [eq_comm]
  | true =>
    simp only [Bool.not_true, Bool.false_eq_true, if_false, bind_eq_ok,
      expect_eq_ok, pure_eq_ok, true_and]
    constructor
    · rintro ⟨txo, htxo, h⟩
      exact Or.inr ⟨txo, htxo, h.symm⟩
    · rintro (⟨hfalse, _⟩ | ⟨txo, htxo, h⟩)
      · cases hfalse
      · exact ⟨txo, htxo, h.symm⟩

theorem mem_indexTransaction {row : HistoryRow}
    (h : indexTransaction cfg tx height pos txos = .ok rows) :
    row ∈ rows <->
      (exists (i : Nat) (txo : TxOut), tx.output[i]? = some txo ∧
        row ∈ indexOutput cfg tx height pos txo i) ∨
      (exists (i : Nat) (txi : TxIn) (txo : TxOut),
        tx.input[i]? = some txi ∧ hasPrevout txi = true ∧
        txos txi.previousOutput = some txo ∧
        row ∈ inputRows cfg tx height pos txi i txo) := by
  rcases bind_eq_ok.mp h with ⟨rss, hrss, hpure⟩
  rw [← pure_eq_ok.mp hpure, List.mem_append, List.mem_flatMap, mem_flatten_of_mapM hrss]
  simp only [Prod.exists, List.mk_mem_zipIdx_iff_getElem?, indexInput_eq_ok]
  apply or_congr
  · constructor
    · rintro ⟨txo, i, htxo, hrow⟩
      exact ⟨i, txo, htxo, hrow⟩
    · rintro ⟨i, txo, htxo, hrow⟩
      exact ⟨txo, i, htxo, hrow⟩
  · constructor
    · rintro ⟨txi, i, htxi, r, (⟨_, rfl⟩ | ⟨hprev, txo, htxo, rfl⟩), hrow⟩
      · cases hrow
      · exact ⟨i, txi, txo, htxi, hprev, htxo, hrow⟩
    · rintro ⟨i, txi, txo, htxi, hprev, htxo, hrow⟩
      exact ⟨txi, i, htxi, _, Or.inr ⟨hprev, txo, htxo, rfl⟩, hrow⟩

def Truthful (T : BlockTree) (txos : TxoMap) : Prop :=
  forall outpoint txo, txos outpoint = some txo -> T.HasTxo outpoint txo

theorem prevout_of_indexTransaction
    (h : indexTransaction cfg tx height pos txos = .ok rows) {txi : TxIn}
    (htxi : txi ∈ tx.input) (hprev : hasPrevout txi = true) :
    exists txo, txos txi.previousOutput = some txo := by
  rcases bind_eq_ok.mp h with ⟨rss, hrss, _⟩
  rcases List.getElem?_of_mem htxi with ⟨i, hi⟩
  have hmem : (txi, i) ∈ tx.input.zipIdx :=
    List.mk_mem_zipIdx_iff_getElem?.mpr hi
  rcases ok_of_mapM hrss hmem with ⟨r, hok⟩
  rcases indexInput_eq_ok.mp hok with ⟨hfalse, _⟩ | ⟨_, txo, htxo, _⟩
  · rw [hprev] at hfalse
    cases hfalse
  · exact ⟨txo, htxo⟩

theorem mem_indexBlock (htruthful : Truthful T txos)
    (h : indexBlock cfg txos b = .ok rows) {k : HistoryKey} {v : Bytes} :
    (k, v) ∈ rows <-> v = [] ∧ IndexRow T cfg b k := by
  rcases bind_eq_ok.mp h with ⟨rss, hrss, hpure⟩
  rw [← pure_eq_ok.mp hpure, List.mem_append, mem_flatten_of_mapM hrss]
  simp only [Prod.exists, List.mk_mem_zipIdx_iff_getElem?]
  constructor
  · rintro (⟨tx, idx, htx, r, hr, hrow⟩ | hrow)
    · rcases (mem_indexTransaction hr).mp hrow with
        ⟨i, txo, htxo, hout⟩ | ⟨i, txi, txo, htxi, hprev, htxo, hin⟩
      · rcases mem_indexOutput.mp hout with ⟨hindexed, heq | ⟨hsearch, address, haddress, heq⟩⟩
        · cases heq
          exact ⟨rfl, .funding htx htxo hindexed⟩
        · cases heq
          exact ⟨rfl, .addr (List.mem_of_getElem? htx)
            (List.mem_of_getElem? htxo) hindexed hsearch haddress⟩
      · simp only [inputRows, List.mem_cons, List.not_mem_nil, or_false] at hin
        rcases hin with heq | heq
        · cases heq
          exact ⟨rfl, .spending htx htxi hprev (htruthful _ _ htxo)⟩
        · cases heq
          exact ⟨rfl, .edge (List.mem_of_getElem? htx) htxi hprev⟩
    · have heq : (k, v) = (.done b.entry.hash, []) := by simpa using hrow
      cases heq
      exact ⟨rfl, .done⟩
  · rintro ⟨rfl, hrow⟩
    have hok : forall {tx : Transaction} {idx : Nat}, b.block.txdata[idx]? = some tx ->
          exists r, indexTransaction cfg tx b.entry.height.toUInt32 idx.toUInt16 txos = .ok r := by
      intro tx idx htx
      exact ok_of_mapM hrss (List.mk_mem_zipIdx_iff_getElem?.mpr htx)
    cases hrow with
    | funding htx htxo hindexed =>
      rcases hok htx with ⟨r, hr⟩
      refine Or.inl ⟨_, _, htx, r, hr, (mem_indexTransaction hr).mpr ?_⟩
      exact Or.inl ⟨_, _, htxo, mem_indexOutput.mpr ⟨hindexed, Or.inl rfl⟩⟩
    | addr htx htxo hindexed hsearch haddress =>
      rcases List.getElem?_of_mem htx with ⟨idx, hidx⟩
      rcases List.getElem?_of_mem htxo with ⟨i, hi⟩
      rcases hok hidx with ⟨r, hr⟩
      refine Or.inl ⟨_, _, hidx, r, hr, (mem_indexTransaction hr).mpr ?_⟩
      exact Or.inl ⟨_, _, hi, mem_indexOutput.mpr ⟨hindexed, Or.inr ⟨hsearch, _, haddress, rfl⟩⟩⟩
    | spending htx htxi hprev htxo =>
      rcases hok htx with ⟨r, hr⟩
      rcases prevout_of_indexTransaction hr (List.mem_of_getElem? htxi) hprev with ⟨txo, hfound⟩
      have htxo' := (htruthful _ _ hfound).unique htxo
      subst htxo'
      refine Or.inl ⟨_, _, htx, r, hr, (mem_indexTransaction hr).mpr ?_⟩
      exact Or.inr ⟨_, _, _, htxi, hprev, hfound, List.mem_cons_self⟩
    | edge htx htxi hprev =>
      rcases List.getElem?_of_mem htx with ⟨idx, hidx⟩
      rcases hok hidx with ⟨r, hr⟩
      rcases prevout_of_indexTransaction hr (List.mem_of_getElem? htxi) hprev with ⟨txo, hfound⟩
      refine Or.inl ⟨_, _, hidx, r, hr, (mem_indexTransaction hr).mpr ?_⟩
      exact Or.inr ⟨_, _, _, htxi, hprev, hfound, by simp [inputRows]⟩
    | done => simp

end Membership

/-!
## Rows of one chain
-/

section Chain

variable {T : BlockTree} {cfg : IndexerConfig} {blocks : List Block}
  {be be' : BlockEntry}

theorem entry_eq_of_hash_eq (hchain : IsChain T blocks)
    (hbe : be ∈ chainEntries blocks) (hbe' : be' ∈ chainEntries blocks)
    (h : be.entry.hash = be'.entry.hash) : be = be' := by
  rcases mem_chainEntries.mp hbe with ⟨i, b, hb, rfl⟩
  rcases mem_chainEntries.mp hbe' with ⟨j, b', hb', rfl⟩
  have hij : i = j := by
    have hlt : i < (blocks.map Block.hash).length := by
      simpa using (List.getElem?_eq_some_iff.mp hb).1
    apply (List.getElem?_inj hlt hchain.hashes_nodup).mp
    rw [List.getElem?_map, List.getElem?_map, hb, hb']
    exact congrArg some h
  subst hij
  rw [hb] at hb'
  rw [Option.some.inj hb']

variable {tx : Transaction}

theorem tx_unique (hnodup : (chainTxids blocks).Nodup) (hbe : be ∈ chainEntries blocks)
    (hbe' : be' ∈ chainEntries blocks) {tx' : Transaction} (htx : tx ∈ be.block.txdata)
    (htx' : tx' ∈ be'.block.txdata) (h : tx.txid = tx'.txid) :
    be = be' ∧ tx = tx' := by
  rcases mem_chainEntries.mp hbe with ⟨i, b, hb, rfl⟩
  rcases mem_chainEntries.mp hbe' with ⟨j, b', hb', rfl⟩
  rw [blockEntryAt_block] at htx htx'
  rcases List.nodup_flatMap.mp hnodup with ⟨hblock, hpairwise⟩
  rcases List.getElem?_eq_some_iff.mp hb with ⟨hi, hbi⟩
  rcases List.getElem?_eq_some_iff.mp hb' with ⟨hj, hbj⟩
  have hmem := List.mem_map_of_mem (f := Transaction.txid) htx
  have hmem' := List.mem_map_of_mem (f := Transaction.txid) htx'
  rw [← h] at hmem'
  have hdisjoint := List.pairwise_iff_getElem.mp hpairwise
  rcases Nat.lt_trichotomy i j with hlt | rfl | hlt
  · have hd := hdisjoint i j hi hj hlt
    rw [hbi, hbj] at hd
    exact absurd hmem' (hd hmem)
  · rw [hb] at hb'
    have hbb := Option.some.inj hb'
    subst hbb
    have hinj := List.inj_on_of_nodup_map (hblock b (List.mem_of_getElem? hb)) htx htx' h
    exact ⟨rfl, hinj⟩
  · have hd := hdisjoint j i hj hi hlt
    rw [hbi, hbj] at hd
    exact absurd hmem (hd hmem')

theorem toNat_toUInt32 {n : Nat} (h : n < 2 ^ 32) : n.toUInt32.toNat = n :=
  Nat.mod_eq_of_lt h

theorem toNat_toUInt16 {n : Nat} (h : n < 2 ^ 16) : n.toUInt16.toNat = n :=
  Nat.mod_eq_of_lt h

theorem toUInt32_inj {i j : Nat} (hi : i < 2 ^ 32) (hj : j < 2 ^ 32)
    (h : i.toUInt32 = j.toUInt32) : i = j := by
  have hnat : i % 2 ^ 32 = j % 2 ^ 32 := congrArg UInt32.toNat h
  rwa [Nat.mod_eq_of_lt hi, Nat.mod_eq_of_lt hj] at hnat

theorem pairwise_index {α : Type} {l : List α} (hlength : l.length < 2 ^ 32) :
    l.zipIdx.Pairwise fun item item' => item.2.toUInt32 ≠ item'.2.toUInt32 := by
  refine (List.pairwise_map.mp (List.nodup_zipIdx_map_snd l)).imp_of_mem ?_
  intro item item' hitem hitem' hne heq
  have hlt := List.snd_lt_of_mem_zipIdx hitem
  have hlt' := List.snd_lt_of_mem_zipIdx hitem'
  exact hne (toUInt32_inj (by omega) (by omega) heq)

theorem output_index_lt {i : Nat} {txo : TxOut} (h : tx.output[i]? = some txo) : i < 2 ^ 32 :=
  Nat.lt_trans (List.getElem?_eq_some_iff.mp h).1 tx.output_lt

theorem input_index_lt {i : Nat} {txi : TxIn} (h : tx.input[i]? = some txi) : i < 2 ^ 32 :=
  Nat.lt_trans (List.getElem?_eq_some_iff.mp h).1 tx.input_lt

theorem addRow_unique (hchain : ValidChain T blocks)
    (hbe : be ∈ chainEntries blocks) (hbe' : be' ∈ chainEntries blocks)
    {k k' : TxstoreKey} {v v' : TxstoreValue} (h : AddRow cfg be k v)
    (h' : AddRow cfg be' k' v') (hk : k = k') : be = be' ∧ v = v' := by
  have hsame := entry_eq_of_hash_eq hchain.toIsChain hbe hbe'
  cases h with
  | conf htx =>
    cases h' with
    | conf htx' =>
      injection hk with _ hhash
      exact ⟨hsame hhash, rfl⟩
    | _ => cases hk
  | tx _ htx =>
    cases h' with
    | tx _ htx' =>
      injection hk with htxid
      rcases tx_unique hchain.txids_nodup hbe hbe' htx htx' htxid with ⟨hbb, htt⟩
      exact ⟨hbb, by rw [htt]⟩
    | _ => cases hk
  | txout htx htxo _ =>
    cases h' with
    | txout htx' htxo' _ =>
      injection hk with houtpoint
      injection houtpoint with htxid hvout
      rcases tx_unique hchain.txids_nodup hbe hbe' htx htx' htxid with ⟨hbb, htt⟩
      subst htt
      have hi := toUInt32_inj (output_index_lt htxo) (output_index_lt htxo') hvout
      rw [hi, htxo'] at htxo
      exact ⟨hbb, congrArg _ (Option.some.inj htxo).symm⟩
    | _ => cases hk
  | txids _ =>
    cases h' with
    | txids _ =>
      injection hk with hhash
      have hbb := hsame hhash
      exact ⟨hbb, by rw [hbb]⟩
    | _ => cases hk
  | blockMeta _ =>
    cases h' with
    | blockMeta _ =>
      injection hk with hhash
      have hbb := hsame hhash
      exact ⟨hbb, by rw [hbb]⟩
    | _ => cases hk
  | header =>
    cases h' with
    | header =>
      injection hk with hhash
      have hbb := hsame hhash
      exact ⟨hbb, by rw [hbb]⟩
    | _ => cases hk
  | done =>
    cases h' with
    | done =>
      injection hk with hhash
      exact ⟨hsame hhash, rfl⟩
    | _ => cases hk

def IsAddr (k : HistoryKey) : Prop :=
  exists address, k = .addr address

inductive KeyOwner where
  | block (hash : BlockHash)
  | tx (txid : Txid)

def historyOwner : HistoryKey -> Option KeyOwner
  | .history key => some (.tx key.getTxid)
  | .edge key => some (.tx key.spendingTxid)
  | .done hash => some (.block hash)
  | _ => none

theorem indexRow_owner {k : HistoryKey} (h : IndexRow T cfg be k) :
    IsAddr k ∨ historyOwner k = some (.block be.entry.hash) ∨
      exists tx, tx ∈ be.block.txdata ∧ historyOwner k = some (.tx tx.txid) := by
  cases h with
  | funding htx _ _ =>
    exact Or.inr (Or.inr ⟨_, List.mem_of_getElem? htx, rfl⟩)
  | addr _ _ _ _ _ => exact Or.inl ⟨_, rfl⟩
  | spending htx _ _ _ =>
    exact Or.inr (Or.inr ⟨_, List.mem_of_getElem? htx, rfl⟩)
  | edge htx _ _ => exact Or.inr (Or.inr ⟨_, htx, rfl⟩)
  | done => exact Or.inr (Or.inl rfl)

theorem indexRow_unique (hchain : ValidChain T blocks)
    (hbe : be ∈ chainEntries blocks) (hbe' : be' ∈ chainEntries blocks)
    {k : HistoryKey} (haddr : ¬ IsAddr k) (h : IndexRow T cfg be k)
    (h' : IndexRow T cfg be' k) : be = be' := by
  rcases indexRow_owner h with ha | hown | ⟨tx, htx, hown⟩
  · exact absurd ha haddr
  · rcases indexRow_owner h' with ha | hown' | ⟨tx', _, hown'⟩
    · exact absurd ha haddr
    · rw [hown] at hown'
      injection hown' with howner
      injection howner with hhash
      exact entry_eq_of_hash_eq hchain.toIsChain hbe hbe' hhash
    · rw [hown] at hown'
      cases hown'
  · rcases indexRow_owner h' with ha | hown' | ⟨tx', htx', hown'⟩
    · exact absurd ha haddr
    · rw [hown] at hown'
      cases hown'
    · rw [hown] at hown'
      injection hown' with howner
      injection howner with htxid
      exact (tx_unique hchain.txids_nodup hbe hbe' htx htx' htxid).left

end Chain

end NewIndex
end Splora
