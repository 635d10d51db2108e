import Splora.NewIndex.Session
import Splora.NewIndex.Prevouts

/-!
# What is left unspent

A spend comes after its output, so the loop leaves exactly the unspent outputs.  The bound on
rows is a product of machine words that wraps for limits from about `2 ^ 64 / 500` on.
-/

namespace Splora
namespace NewIndex

open Foundation

def SpendsEarlierTxs (blocks : List Block) : Prop :=
  forall (i : Nat) (tx : Transaction), (chainTxs blocks)[i]? = some tx ->
    forall txi, txi ∈ tx.input -> hasPrevout txi = true ->
      exists (j : Nat) (prev : Transaction), j < i ∧ (chainTxs blocks)[j]? = some prev ∧
        prev.txid = txi.previousOutput.txid

theorem SpendsEarlier.spendsEarlierTxs {cfg : IndexerConfig}
    {blocks : List Block} (h : SpendsEarlier cfg blocks) :
    SpendsEarlierTxs blocks := by
  intro i tx htx txi htxi hprevout
  rcases h i tx htx txi htxi hprevout with ⟨j, prev, txo, hlt, hprev, htxid, _, _⟩
  exact ⟨j, prev, hlt, hprev, htxid⟩

def Spent (blocks : List Block) (outpoint : OutPoint) : Prop :=
  exists b tx txi, b ∈ blocks ∧ tx ∈ b.txdata ∧ txi ∈ tx.input ∧
    hasPrevout txi = true ∧ txi.previousOutput = outpoint

def Unspent (cfg : IndexerConfig) (scripthash : FullHash) (blocks : List Block)
    (outpoint : OutPoint) (utxo : BlockId × UInt64) : Prop :=
  exists (be : BlockEntry) (tx : Transaction) (i : Nat) (txo : TxOut),
    be ∈ chainEntries blocks ∧ tx ∈ be.block.txdata ∧
    tx.output[i]? = some txo ∧ cfg.isIndexed txo = true ∧
    cfg.computeScriptHash txo.scriptPubkey = scripthash ∧
    outpoint = { txid := tx.txid, vout := i.toUInt32 } ∧
    utxo = (BlockId.ofEntry be.entry, txo.value) ∧ ¬ Spent blocks outpoint

/-!
## The order of transactions
-/

section Order

variable {T : BlockTree} {blocks : List Block} {b b' : Block}
  {tx tx' : Transaction} {height height' idx idx' : Nat}

def txsBelow (blocks : List Block) (height : Nat) : Nat :=
  (chainTxs (blocks.take height)).length

theorem txsBelow_succ (hb : blocks[height]? = some b) :
    txsBelow blocks (height + 1) = txsBelow blocks height + b.txdata.length := by
  simp [txsBelow, chainTxs, List.take_add_one, hb]

theorem txsBelow_le (h : height ≤ height') : txsBelow blocks height ≤ txsBelow blocks height' := by
  have hsub : blocks.take height <+: blocks.take height' :=
    List.take_prefix_take_left h
  rcases hsub with ⟨rest, hrest⟩
  rw [txsBelow, txsBelow, ← hrest]
  simp [chainTxs]

theorem getElem?_chainTxs (hb : blocks[height]? = some b) (htx : b.txdata[idx]? = some tx) :
    (chainTxs blocks)[txsBelow blocks height + idx]? = some tx := by
  have hsplit : blocks = blocks.take height ++ b :: blocks.drop (height + 1) := by
    rcases List.getElem?_eq_some_iff.mp hb with ⟨hlt, rfl⟩
    rw [List.cons_getElem_drop_succ, List.take_append_drop]
  have hlt := (List.getElem?_eq_some_iff.mp htx).1
  rw [chainTxs]
  nth_rewrite 1 [hsplit]
  rw [List.flatMap_append, List.flatMap_cons, txsBelow, chainTxs,
    List.getElem?_append_right (by omega), Nat.add_sub_cancel_left,
    List.getElem?_append_left hlt, htx]

theorem position_lt (hb' : blocks[height']? = some b') (htx' : b'.txdata[idx']? = some tx')
    (h : txsBelow blocks height + idx < txsBelow blocks height' + idx') :
    height < height' ∨ height = height' ∧ idx < idx' := by
  rcases Nat.lt_trichotomy height height' with hlt | rfl | hlt
  · exact Or.inl hlt
  · exact Or.inr ⟨rfl, by omega⟩
  · have hidx := (List.getElem?_eq_some_iff.mp htx').1
    have hbelow : txsBelow blocks (height' + 1) ≤ txsBelow blocks height :=
      txsBelow_le (Nat.succ_le_of_lt hlt)
    rw [txsBelow_succ hb'] at hbelow
    omega

theorem chainTxs_index_unique (hnodup : (chainTxids blocks).Nodup) {i j : Nat}
    (hi : (chainTxs blocks)[i]? = some tx) (hj : (chainTxs blocks)[j]? = some tx')
    (htxid : tx.txid = tx'.txid) : i = j := by
  have hmap : (chainTxs blocks).map Transaction.txid = chainTxids blocks := by
    simp [chainTxs, chainTxids, List.map_flatMap]
  rw [← hmap] at hnodup
  have hlt : i < ((chainTxs blocks).map Transaction.txid).length := by
    simpa using (List.getElem?_eq_some_iff.mp hi).1
  apply (List.getElem?_inj hlt hnodup).mp
  rw [List.getElem?_map, List.getElem?_map, hi, hj]
  exact congrArg some htxid

theorem SpendsEarlierTxs.position_lt (hspends : SpendsEarlierTxs blocks)
    (hnodup : (chainTxids blocks).Nodup) (hb : blocks[height]? = some b)
    (htx : b.txdata[idx]? = some tx) (hb' : blocks[height']? = some b')
    (htx' : b'.txdata[idx']? = some tx') {txi : TxIn} (htxi : txi ∈ tx'.input)
    (hprevout : hasPrevout txi = true)
    (htxid : tx.txid = txi.previousOutput.txid) :
    height < height' ∨ height = height' ∧ idx < idx' := by
  have hplace := getElem?_chainTxs hb htx
  have hplace' := getElem?_chainTxs hb' htx'
  rcases hspends _ _ hplace' txi htxi hprevout with ⟨j, prev, hlt, hj, hprev⟩
  rw [chainTxs_index_unique hnodup hj hplace (hprev.trans htxid.symm)] at hlt
  exact NewIndex.position_lt hb' htx' hlt

end Order

/-!
## The rows of an outpoint
-/

section Rows

variable {T : BlockTree} {cfg : IndexerConfig} {scripthash : FullHash}
  {blocks : List Block} {rows : List (TxHistoryKey × BlockId)}
  {outpoint : OutPoint}

variable {row : TxHistoryKey × BlockId} {info : FundingInfo}

theorem scriptRow_funding (h : ScriptRow T cfg scripthash blocks row)
    (hinfo : row.1.txinfo = .funding info) :
    exists (be : BlockEntry) (idx : Nat) (tx : Transaction) (i : Nat) (txo : TxOut),
      be ∈ chainEntries blocks ∧ be.block.txdata[idx]? = some tx ∧
      tx.output[i]? = some txo ∧ cfg.isIndexed txo = true ∧
      cfg.computeScriptHash txo.scriptPubkey = scripthash ∧
      info = { txid := tx.txid, vout := i.toUInt32, value := txo.value } ∧
      row.2 = BlockId.ofEntry be.entry ∧
      row.1.confirmedHeight = be.entry.height.toUInt32 ∧
      row.1.txPosition = idx.toUInt16 := by
  rcases row with ⟨k, blockid⟩
  rcases h with ⟨hhash, be, hbe, hindex, hblock⟩
  cases hindex with
  | funding htx htxo hindexed =>
    cases hinfo
    exact ⟨be, _, _, _, _, hbe, htx, htxo, hindexed, hhash, rfl, hblock, rfl,
      rfl⟩
  | spending => cases hinfo

theorem scriptRow_spending {info : SpendingInfo}
    (h : ScriptRow T cfg scripthash blocks row) (hinfo : row.1.txinfo = .spending info)
    :
    exists (be : BlockEntry) (idx : Nat) (tx : Transaction) (txi : TxIn),
      be ∈ chainEntries blocks ∧ be.block.txdata[idx]? = some tx ∧
      txi ∈ tx.input ∧ hasPrevout txi = true ∧
      row.1.getFundedOutpoint = txi.previousOutput ∧
      row.1.confirmedHeight = be.entry.height.toUInt32 ∧
      row.1.txPosition = idx.toUInt16 := by
  rcases row with ⟨k, blockid⟩
  rcases h with ⟨hhash, be, hbe, hindex, hblock⟩
  cases hindex with
  | funding => cases hinfo
  | spending htx htxi hprevout htxo =>
    exact ⟨be, _, _, _, hbe, htx, List.mem_of_getElem? htxi, hprevout, rfl, rfl,
      rfl⟩

variable {row' : TxHistoryKey × BlockId}

theorem funding_before_spending (hvalid : ValidChain T blocks)
    (hspends : SpendsEarlierTxs blocks) {info' : SpendingInfo}
    (h : ScriptRow T cfg scripthash blocks row) (hinfo : row.1.txinfo = .funding info)
    (h' : ScriptRow T cfg scripthash blocks row')
    (hinfo' : row'.1.txinfo = .spending info')
    (houtpoint : row.1.getFundedOutpoint = row'.1.getFundedOutpoint) :
    row.1.Before row'.1 := by
  have hsame := And.intro h.left h'.left
  have hcode : row.1.code = row'.1.code := by
    rcases h with ⟨_, _, _, hindex, _⟩
    rcases h' with ⟨_, _, _, hindex', _⟩
    rw [(indexRow_history hindex).left, (indexRow_history hindex').left]
  rcases scriptRow_funding h hinfo with
    ⟨be, idx, tx, i, txo, hbe, htx, _, _, _, rfl, _, hheight, hpos⟩
  rcases scriptRow_spending h' hinfo' with
    ⟨be', idx', tx', txi, hbe', htx', htxi, hprevout, hprev, hheight', hpos'⟩
  have htxid : tx.txid = txi.previousOutput.txid := by
    rw [← hprev, ← houtpoint, TxHistoryKey.getFundedOutpoint, hinfo]
    rfl
  have hlength := hvalid.length_lt
  have hlt := height_lt_of_mem_chainEntries hbe
  have hlt' := height_lt_of_mem_chainEntries hbe'
  have hidx := Nat.lt_trans (List.getElem?_eq_some_iff.mp htx).1 be.block.txdata_lt
  have hidx' := Nat.lt_trans (List.getElem?_eq_some_iff.mp htx').1 be'.block.txdata_lt
  refine TxHistoryKey.before_of_position hcode (hsame.left.trans hsame.right.symm) ?_
  rw [hheight, hheight', hpos, hpos', toNat_toUInt32 (by omega),
    toNat_toUInt32 (by omega), toNat_toUInt16 hidx, toNat_toUInt16 hidx']
  rcases mem_chainEntries.mp hbe with ⟨j, b, hb, rfl⟩
  rcases mem_chainEntries.mp hbe' with ⟨j', b', hb', rfl⟩
  exact hspends.position_lt hvalid.txids_nodup hb htx hb' htx' htxi hprevout htxid

theorem funding_unique (hvalid : ValidChain T blocks) {info' : FundingInfo}
    (h : ScriptRow T cfg scripthash blocks row) (hinfo : row.1.txinfo = .funding info)
    (h' : ScriptRow T cfg scripthash blocks row')
    (hinfo' : row'.1.txinfo = .funding info')
    (houtpoint : row.1.getFundedOutpoint = row'.1.getFundedOutpoint) :
    row = row' := by
  rw [TxHistoryKey.getFundedOutpoint, hinfo, TxHistoryKey.getFundedOutpoint, hinfo'] at houtpoint
  refine ScriptRow.eq_of_txinfo hvalid h h' ?_
  rcases scriptRow_funding h hinfo with ⟨be, idx, tx, i, txo, hbe, htx, htxo, _, _, rfl, _⟩
  rcases scriptRow_funding h' hinfo' with
    ⟨be', idx', tx', i', txo', hbe', htx', htxo', _, _, rfl, _⟩
  injection houtpoint with htxid hvout
  rcases tx_unique hvalid.txids_nodup hbe hbe' (List.mem_of_getElem? htx)
    (List.mem_of_getElem? htx') htxid with ⟨_, rfl⟩
  have hi := toUInt32_inj (output_index_lt htxo) (output_index_lt htxo') hvout
  rw [hi, htxo'] at htxo
  rw [hinfo, hinfo', hi, Option.some.inj htxo]

theorem exists_spending_row (hvalid : ValidChain T blocks) {be : BlockEntry}
    {tx : Transaction} {i : Nat} {txo : TxOut} (hbe : be ∈ chainEntries blocks)
    (htx : tx ∈ be.block.txdata) (htxo : tx.output[i]? = some txo)
    (hhash : cfg.computeScriptHash txo.scriptPubkey = scripthash)
    (hspent : Spent blocks { txid := tx.txid, vout := i.toUInt32 }) :
    exists row info, ScriptRow T cfg scripthash blocks row ∧ row.1.txinfo = .spending info ∧
      row.1.getFundedOutpoint = { txid := tx.txid, vout := i.toUInt32 } := by
  rcases hspent with ⟨b, tx', txi, hb, htx', htxi, hprevout, houtpoint⟩
  have hstored : T.HasTxo txi.previousOutput txo := by
    rw [houtpoint]
    refine ⟨be.entry.hash, be.block, tx, stored_of_mem_entrySet hvalid.toIsChain hbe, htx, rfl, ?_⟩
    rw [toNat_toUInt32 (output_index_lt htxo), htxo]
  rcases List.getElem?_of_mem hb with ⟨j, hj⟩
  rcases List.getElem?_of_mem htx' with ⟨idx, hidx⟩
  rcases List.getElem?_of_mem htxi with ⟨vin, hvin⟩
  exact ⟨(_, _), _, ⟨hhash, blockEntryAt b j, mem_chainEntries.mpr ⟨j, b, hj, rfl⟩,
    .spending hidx hvin hprevout hstored, rfl⟩, rfl, houtpoint⟩

theorem spent_of_scriptRow {info : SpendingInfo}
    (h : ScriptRow T cfg scripthash blocks row) (hinfo : row.1.txinfo = .spending info)
    :
    Spent blocks row.1.getFundedOutpoint := by
  rcases scriptRow_spending h hinfo with ⟨be, idx, tx, txi, hbe, htx, htxi, hprevout, hprev, _⟩
  exact ⟨be.block, tx, txi, block_mem_of_mem_blockEntriesFrom hbe,
    List.mem_of_getElem? htx, htxi, hprevout, hprev.symm⟩

theorem ScriptHistory.unspent_iff (h : ScriptHistory T cfg scripthash blocks rows)
    (hvalid : ValidChain T blocks) (hspends : SpendsEarlierTxs blocks)
    {utxo : BlockId × UInt64} :
    (ChainQuery.applyUtxoRows ∅ rows)[outpoint]? = some utxo <->
      Unspent cfg scripthash blocks outpoint utxo := by
  rw [ChainQuery.getElem?_applyUtxoRows]
  have htouching : forall row, row ∈ (rows.filter fun row => row.1.getFundedOutpoint = outpoint) <->
        ScriptRow T cfg scripthash blocks row ∧ row.1.getFundedOutpoint = outpoint := by
    intro row
    rw [List.mem_filter, h.mem_iff, decide_eq_true_eq]
  have hsorted : ChainQuery.Sorted (rows.filter fun row => row.1.getFundedOutpoint = outpoint) :=
    List.Pairwise.filter _ h.sorted
  generalize (rows.filter fun row => row.1.getFundedOutpoint = outpoint) =
    touching at htouching hsorted
  constructor
  · intro hsome
    rcases Option.bind_eq_some_iff.mp hsome with ⟨last, hlast, hmap⟩
    rcases Option.map_eq_some_iff.mp hmap with ⟨info, hfunding, rfl⟩
    rw [TxHistoryInfo.funding?_eq_some] at hfunding
    rcases (htouching last).mp (List.mem_of_getLast? hlast) with ⟨hscript, houtpoint⟩
    rcases scriptRow_funding hscript hfunding with
      ⟨be, idx, tx, i, txo, hbe, htx, htxo, hindexed, hhash, rfl, hblock, _⟩
    have hpoint : outpoint = { txid := tx.txid, vout := i.toUInt32 } := by
      rw [← houtpoint, TxHistoryKey.getFundedOutpoint, hfunding]
      rfl
    refine ⟨be, tx, i, txo, hbe, List.mem_of_getElem? htx, htxo, hindexed, hhash,
      hpoint, by rw [hblock], ?_⟩
    -- the row of a spend would come after the last row
    intro hspent
    rw [hpoint] at hspent
    rcases exists_spending_row (T := T) hvalid hbe (List.mem_of_getElem? htx)
      htxo hhash hspent with ⟨row, info, hrow, hspending, hrowpoint⟩
    have hbefore : last.1.Before row.1 :=
      funding_before_spending hvalid hspends hscript hfunding hrow hspending
        (houtpoint.trans (hpoint.trans hrowpoint.symm))
    have hmem := (htouching row).mpr ⟨hrow, hrowpoint.trans hpoint.symm⟩
    rcases List.getLast?_eq_some_iff.mp hlast with ⟨front, rfl⟩
    rcases List.mem_append.mp hmem with hfront | heq
    · have hafter := (List.pairwise_append.mp hsorted).right.right row hfront last (by simp)
      exact TxHistoryKey.Before.irrefl _ (hbefore.trans hafter)
    · rw [List.mem_singleton.mp heq] at hbefore
      exact TxHistoryKey.Before.irrefl _ hbefore
  · rintro ⟨be, tx, i, txo, hbe, htx, htxo, hindexed, hhash, rfl, rfl, hspent⟩
    rcases List.getElem?_of_mem htx with ⟨idx, hidx⟩
    have hrow : exists row, ScriptRow T cfg scripthash blocks row ∧
        row.1.txinfo = .funding {
          txid := tx.txid, vout := i.toUInt32, value := txo.value } ∧
        row.2 = BlockId.ofEntry be.entry :=
      ⟨(_, _), ⟨hhash, be, hbe, .funding hidx htxo hindexed, rfl⟩, rfl, rfl⟩
    rcases hrow with ⟨row, hscript, hinfo, hblock⟩
    have hpoint : row.1.getFundedOutpoint = { txid := tx.txid, vout := i.toUInt32 } := by
      rw [TxHistoryKey.getFundedOutpoint, hinfo]
      rfl
    have hmem := (htouching row).mpr ⟨hscript, hpoint⟩
    rcases Option.ne_none_iff_exists'.mp (mt List.getLast?_eq_none_iff.mp
      (List.ne_nil_of_mem hmem)) with ⟨last, hlast⟩
    rcases (htouching last).mp (List.mem_of_getLast? hlast) with ⟨hscript', hpoint'⟩
    rw [hlast, Option.bind_some]
    cases hinfo' : last.1.txinfo with
    | spending info =>
      have := spent_of_scriptRow hscript' hinfo'
      rw [hpoint'] at this
      exact absurd this hspent
    | funding info =>
      have heq : row = last := funding_unique hvalid hscript hinfo hscript'
        hinfo' (hpoint.trans hpoint'.symm)
      rw [← heq, hinfo] at hinfo'
      rw [← heq, hblock, ← hinfo']
      rfl

end Rows

/-!
## The limits
-/

section Limits

variable {T : BlockTree} {cfg : IndexerConfig} {store : Store}
  {blocks : List Block} {limit : UInt64}
  {rows : List (TxHistoryKey × BlockId)}

open ChainQuery

theorem toNat_txHistoryLimit (limit : UInt64) :
    (txHistoryLimit limit).toNat = 500 * limit.toNat % 2 ^ 64 := by
  rw [txHistoryLimit, UInt64.toNat_mul, Nat.mul_comm]
  rfl

theorem ChainQuery.WithinLimits.mono {limit bound bound' : Nat} {i : Nat}
    (h : WithinLimits limit bound ∅ 0 rows i) (hbound : bound ≤ bound') :
    WithinLimits limit bound' ∅ 0 rows i :=
  ⟨h.left, Nat.le_trans h.right hbound⟩

theorem applyUtxoDelta_end_iff :
    LoopEnd limit.toNat (500 * limit.toNat) ∅ none 0 rows (applyUtxoDelta ∅ rows limit) <->
      500 * limit.toNat < 2 ^ 64 ∨
      rows.length ≤ 500 * limit.toNat % 2 ^ 64 ∨
      exists i, i < rows.length ∧ i ≤ 500 * limit.toNat % 2 ^ 64 ∧
        limit.toNat < sizeAfter ∅ rows i := by
  have hcode := applyUtxoLoop_end limit ∅ none 0 rows
  rw [toNat_txHistoryLimit] at hcode
  unfold applyUtxoDelta
  generalize applyUtxoLoop limit ∅ none 0 rows = result at hcode
  have hbound : 500 * limit.toNat % 2 ^ 64 ≤ 500 * limit.toNat := Nat.mod_le _ _
  constructor
  · intro hspec
    cases hcode with
    | @tooManyUtxos i n hi hbefore hsize _ =>
      refine Or.inr (Or.inr ⟨i, hi, ?_, hsize⟩)
      cases i with
      | zero => exact Nat.zero_le _
      | succ j =>
        have := (hbefore j (Nat.lt_succ_self j)).right
        omega
    | tooManyTxs _ _ _ _ hn =>
      left
      cases hspec with
      | tooManyTxs _ _ _ _ hn' =>
        have := Nat.mod_lt (500 * limit.toNat) (show 2 ^ 64 > 0 by decide)
        omega
    | done hall =>
      refine Or.inr (Or.inl ?_)
      by_contra hlt
      have := (hall (rows.length - 1) (by omega)).right
      omega
  · rintro (hfits | hshort | ⟨i, hi, hle, hsize⟩)
    · rwa [Nat.mod_eq_of_lt hfits] at hcode
    · cases hcode with
      | tooManyUtxos hi hbefore hsize hn =>
        exact .tooManyUtxos hi (fun j hj => (hbefore j hj).mono hbound) hsize hn
      | tooManyTxs hi _ _ hprocessed _ => omega
      | done hall => exact .done fun j hj => (hall j hj).mono hbound
    · cases hcode with
      | tooManyUtxos hi' hbefore hsize' hn =>
        exact .tooManyUtxos hi' (fun j hj => (hbefore j hj).mono hbound) hsize' hn
      | @tooManyTxs i' n hi' hbefore hsize' hprocessed _ =>
        rcases Nat.lt_or_ge i i' with hlt | hge
        · exact absurd (hbefore i hlt).left (Nat.not_le.mpr hsize)
        · have heq : i = i' := by omega
          rw [heq] at hsize
          exact absurd hsize' (Nat.not_le.mpr hsize)
      | done hall => exact absurd (hall i hi).left (Nat.not_le.mpr hsize)

/-- The loop ends at the first row with more than `limit` entries or more than `500 * limit` rows,
and leaves exactly the unspent outputs. -/
structure UtxosAsSpecified (cfg : IndexerConfig) (scripthash : FullHash)
    (blocks : List Block) (limit : UInt64)
    (rows : List (TxHistoryKey × BlockId))
    (result : Except Abort (UtxoMap × Option BlockHash × Nat)) : Prop where
  loopEnd : LoopEnd limit.toNat (500 * limit.toNat) ∅ none 0 rows result
  unspent_iff : forall (outpoint : OutPoint) (utxo : BlockId × UInt64),
    (applyUtxoRows ∅ rows)[outpoint]? = some utxo <->
      Unspent cfg scripthash blocks outpoint utxo

/-- Computed as specified exactly if the product of the limit does not wrap, or the wrapped bound
is not reached before there are too many outputs or no more rows. -/
theorem utxoDelta_asSpecified_iff (hexact : Exact T cfg store blocks)
    (hspends : SpendsEarlierTxs blocks) (scripthash : FullHash)
    (limit : UInt64) :
    UtxosAsSpecified cfg scripthash blocks limit (confirmedHistory store scripthash 0)
        (utxoDelta store scripthash ∅ 0 limit) <->
      500 * limit.toNat < 2 ^ 64 ∨
      (confirmedHistory store scripthash 0).length ≤ 500 * limit.toNat % 2 ^ 64 ∨
      exists i, i < (confirmedHistory store scripthash 0).length ∧ i ≤ 500 * limit.toNat % 2 ^ 64 ∧
        limit.toNat < sizeAfter ∅ (confirmedHistory store scripthash 0) i := by
  rw [← applyUtxoDelta_end_iff]
  refine ⟨UtxosAsSpecified.loopEnd, fun hend => ⟨hend, ?_⟩⟩
  intro outpoint utxo
  exact (hexact.scriptHistory scripthash).unspent_iff hexact.valid hspends

end Limits

namespace Sample

/-- A limit of `2 ^ 62` gives the bound zero, which the first row exceeds. -/
theorem tooManyTxs_after_one_row :
    exists store, run config [.update .bitcoind daemonA] = .ok store ∧
      (ChainQuery.confirmedHistory store 3 0).length = 1 ∧
      ChainQuery.utxoDelta store 3 ∅ 0 0x4000000000000000 = .error (.tooManyTxs 0) ∧
      ¬ UtxosAsSpecified config 3 [genesis, blockA] 0x4000000000000000
        (ChainQuery.confirmedHistory store 3 0)
        (ChainQuery.utxoDelta store 3 ∅ 0 0x4000000000000000) := by
  have heval : exists store, run config [.update .bitcoind daemonA] = .ok store ∧
      (ChainQuery.confirmedHistory store 3 0).length = 1 ∧
      ChainQuery.utxoDelta store 3 ∅ 0 0x4000000000000000 = .error (.tooManyTxs 0) := by
    decide +kernel
  rcases heval with ⟨store, hrun, hlength, herror⟩
  refine ⟨store, hrun, hlength, herror, ?_⟩
  intro hspec
  have hend := hspec.loopEnd
  rw [herror] at hend
  cases hend with
  | tooManyTxs _ _ _ _ hn => simp at hn

theorem utxos_after_reorg :
    exists store, run config reorg = .ok store ∧ UtxosAsSpecified config 1 [genesis, blockB] 10
        (ChainQuery.confirmedHistory store 1 0)
        (ChainQuery.utxoDelta store 1 ∅ 0 10) := by
  rcases exists_run_reorg with ⟨store, hrun⟩
  have hexact := (wholeInv_of_noReturn hrun noReturn_reorg).inv.exact
  have hspends : SpendsEarlier config daemonB.best.blocks := spendsEarlier_coinbases (by decide)
  exact ⟨store, hrun, (utxoDelta_asSpecified_iff hexact hspends.spendsEarlierTxs 1 10).mpr
    (Or.inl (by decide))⟩

end Sample

end NewIndex
end Splora
