import Splora.Foundation.Merge
import Splora.Foundation.Paging
import Splora.NewIndex.HistoryScan
import Splora.NewIndex.RawBlock

/-!
# Pages of confirmed transactions

`ChainQuery::history` and `history_group` walk downwards through the rows, keep each txid at its
first row and skip to the cursor.  Transactions are fetched in parallel: the order of the
answers is an argument.
-/

namespace Splora
namespace NewIndex

open Foundation

structure ChainReader (T : BlockTree) where
  cfg : IndexerConfig
  daemon : Daemon T
  deserialize : Bytes -> Option Transaction
  store : Store

inductive QueryError where
  | missingTx
  | failedToParse
  | wrongTxid
  | afterTxidNotFound
  | aborted (abort : Abort)
deriving DecidableEq, Repr

structure LookupOrder where
  visit : List (Txid × BlockId × UInt16) -> List (Txid × BlockId × UInt16)
  perm : forall entries, (visit entries).Perm entries

def LookupOrder.sequential : LookupOrder where
  visit entries := entries
  perm entries := List.Perm.refl entries

namespace ChainQuery

variable {T : BlockTree}

def lookupTxn (reader : ChainReader T) (txid : Txid)
    (blockhash : Option BlockHash) : Except QueryError (Option Transaction) :=
  match lookupRawTxn reader.cfg reader.daemon reader.store txid blockhash with
  | none => .ok none
  | some rawtx => do
      let tx <- expect (reader.deserialize rawtx) .failedToParse
      ensure (txid = tx.txid) .wrongTxid
      return some tx

def lookupTxns (reader : ChainReader T) (order : LookupOrder)
    (txids : List (Txid × BlockId × UInt16)) (take : Nat) :
    Except QueryError (List (Transaction × BlockId × UInt16)) :=
  (order.visit (txids.take take)).mapM fun entry => do
    let found <- lookupTxn reader entry.1 (some entry.2.1.hash)
    let tx <- expect found .missingTx
    return (tx, entry.2)

def scanOrder : TxHistoryKey -> TxHistoryKey -> Ordering :=
  compareOn fun k => k.bytes.drop 33

def historyIterScanGroupReverse (store : Store) (code : HistoryCode)
    (hashes : List FullHash) (startHeight : Option UInt32) : List TxHistoryKey :=
  mergeRows scanOrder (hashes.map fun hash => historyIterScanReverse store code hash startHeight)

def rowEntry (store : Store) (row : TxHistoryKey) :
    Option (Txid × BlockId × UInt16) :=
  (txConfirmingBlock store row.getTxid).map fun blockid =>
    (row.getTxid, blockid, row.txPosition)

def confirmedTxids (store : Store) (rows : List TxHistoryKey)
    (lastSeenTxid : Option Txid) : List (Txid × BlockId × UInt16) :=
  (after TxHistoryKey.getTxid lastSeenTxid
    (uniqueBy TxHistoryKey.getTxid rows)).filterMap (rowEntry store)

def history (reader : ChainReader T) (order : LookupOrder) (scripthash : FullHash)
    (lastSeenTxid : Option Txid) (startHeight : Option UInt32) (limit : Nat) :
    Except QueryError (List (Transaction × BlockId × UInt16)) :=
  lookupTxns reader order (confirmedTxids reader.store
      (historyIterScanReverse reader.store .script scripthash startHeight)
      lastSeenTxid) limit

def historyGroup (reader : ChainReader T) (order : LookupOrder)
    (scripthashes : List FullHash) (lastSeenTxid : Option Txid)
    (startHeight : Option UInt32) (limit : Nat) :
    Except QueryError (List (Transaction × BlockId × UInt16)) :=
  lookupTxns reader order (confirmedTxids reader.store
      (historyIterScanGroupReverse reader.store .script scripthashes startHeight)
      lastSeenTxid) limit

theorem historyGroup_singleton (reader : ChainReader T) (order : LookupOrder)
    (scripthash : FullHash) (lastSeenTxid : Option Txid)
    (startHeight : Option UInt32) (limit : Nat) :
    historyGroup reader order [scripthash] lastSeenTxid startHeight limit =
      history reader order scripthash lastSeenTxid startHeight limit := by
  unfold historyGroup historyIterScanGroupReverse
  rw [List.map_singleton, mergeRows_singleton]
  rfl

/-!
## The rows of some scripts
-/

section Rows

variable {k k' : TxHistoryKey}

instance : Std.TransCmp scanOrder :=
  inferInstanceAs (Std.TransCmp (compareOn fun k : TxHistoryKey => k.bytes.drop 33))

theorem scanOrder_eq (k k' : TxHistoryKey) :
    scanOrder k k' = (compare k.confirmedHeight.toNat k'.confirmedHeight.toNat).then
        ((compare k.txPosition.toNat k'.txPosition.toNat).then
          (compare k.txinfo.bytes k'.txinfo.bytes)) := by
  have hdrop : forall k : TxHistoryKey, k.bytes.drop 33 =
      u32Big k.confirmedHeight ++ (u16Big k.txPosition ++ k.txinfo.bytes) := by
    intro k
    rw [TxHistoryKey.bytes, List.drop_succ_cons, List.drop_left' (length_hashBytes k.hash)]
  have hheight :
      compare (u32Big k.confirmedHeight) (u32Big k'.confirmedHeight) =
        compare k.confirmedHeight.toNat k'.confirmedHeight.toNat :=
    compare_bigEndian k.confirmedHeight.toNat_lt k'.confirmedHeight.toNat_lt
  have hpos : compare (u16Big k.txPosition) (u16Big k'.txPosition) =
      compare k.txPosition.toNat k'.txPosition.toNat :=
    compare_bigEndian k.txPosition.toNat_lt k'.txPosition.toNat_lt
  rw [scanOrder, compareOn, hdrop, hdrop, compare_append (by simp),
    compare_append (by simp), hheight, hpos]

theorem position_le_of_scanOrder (h : scanOrder k' k ≠ .gt) :
    k'.confirmedHeight.toNat < k.confirmedHeight.toNat ∨
      k'.confirmedHeight.toNat = k.confirmedHeight.toNat ∧
        k'.txPosition.toNat ≤ k.txPosition.toNat := by
  rw [scanOrder_eq] at h
  rcases Nat.lt_trichotomy k'.confirmedHeight.toNat k.confirmedHeight.toNat with hlt | heq | hgt
  · exact Or.inl hlt
  · refine Or.inr ⟨heq, Nat.le_of_not_lt ?_⟩
    intro hpos
    rw [Nat.compare_eq_eq.mpr heq, Nat.compare_eq_gt.mpr hpos] at h
    exact h rfl
  · rw [Nat.compare_eq_gt.mpr hgt] at h
    exact absurd rfl h

structure RowsOf (store : Store) (hashes : List FullHash)
    (startHeight : Option UInt32) (rows : List TxHistoryKey) : Prop where
  mem_iff : forall k, k ∈ rows <->
    (HistoryKey.history k ∈ store.disk.history ∧ k.code = .script ∧ k.hash ∈ hashes) ∧
      forall height, startHeight = some height -> k.confirmedHeight ≤ height
  descending : Descending scanOrder rows

variable {store : Store} {code : HistoryCode} {hash : FullHash}
  {startHeight : Option UInt32}

theorem historyIterScanReverse_descending :
    Descending scanOrder (historyIterScanReverse store code hash startHeight) := by
  refine historyIterScanReverse_sorted.imp_of_mem ?_
  intro k k' hk hk' hbefore
  rcases (mem_historyIterScanReverse.mp hk).left with ⟨_, hcode, hhash⟩
  rcases (mem_historyIterScanReverse.mp hk').left with ⟨_, hcode', hhash'⟩
  have hlt : scanOrder k' k = .lt := by
    rw [scanOrder_eq, <- TxHistoryKey.compare_bytes (hcode'.trans hcode.symm)
      (hhash'.trans hhash.symm)]
    exact hbefore
  rw [hlt]
  decide

theorem historyIterScanGroupReverse_descending (store : Store) (code : HistoryCode)
    (hashes : List FullHash) (startHeight : Option UInt32) :
    Descending scanOrder (historyIterScanGroupReverse store code hashes startHeight) := by
  refine mergeRows_descending ?_
  intro iter hiter
  rcases List.mem_map.mp hiter with ⟨hash, _, heq⟩
  rw [<- heq]
  exact historyIterScanReverse_descending

theorem rowsOf_historyIterScanGroupReverse (hrange : InRange store)
    (hashes : List FullHash) (startHeight : Option UInt32) :
    RowsOf store hashes startHeight
      (historyIterScanGroupReverse store .script hashes startHeight) where
  mem_iff := by
    intro k
    rw [historyIterScanGroupReverse, mem_mergeRows]
    simp only [List.mem_map, exists_exists_and_eq_and, mem_historyIterScanReverse_of_inRange hrange]
    constructor
    · intro h
      rcases h with ⟨hash, hmem, ⟨hk, hcode, hhash⟩, hheight⟩
      exact ⟨⟨hk, hcode, hhash ▸ hmem⟩, hheight⟩
    · intro h
      rcases h with ⟨⟨hk, hcode, hmem⟩, hheight⟩
      exact ⟨k.hash, hmem, ⟨hk, hcode, rfl⟩, hheight⟩
  descending := historyIterScanGroupReverse_descending store .script hashes startHeight

end Rows

end ChainQuery

/-!
## The confirmed transactions of some scripts
-/

def Touches (T : BlockTree) (cfg : IndexerConfig) (scripts : List FullHash)
    (tx : Transaction) : Prop :=
  (exists txo, txo ∈ tx.output ∧ cfg.isIndexed txo = true ∧
    cfg.computeScriptHash txo.scriptPubkey ∈ scripts) ∨
  exists txi, txi ∈ tx.input ∧ hasPrevout txi = true ∧ exists txo, T.HasTxo txi.previousOutput txo ∧
      cfg.computeScriptHash txo.scriptPubkey ∈ scripts

def ConfirmedTx (T : BlockTree) (cfg : IndexerConfig) (scripts : List FullHash)
    (blocks : List Block) (item : Transaction × BlockId × UInt16) : Prop :=
  exists (be : BlockEntry) (idx : Nat), be ∈ chainEntries blocks ∧
    be.block.txdata[idx]? = some item.1 ∧
    item.2 = (BlockId.ofEntry be.entry, idx.toUInt16) ∧
    Touches T cfg scripts item.1

def Above (a b : BlockId × UInt16) : Prop :=
  b.1.height < a.1.height ∨ b.1.height = a.1.height ∧ b.2 < a.2

instance (a b : BlockId × UInt16) : Decidable (Above a b) :=
  inferInstanceAs (Decidable (_ ∨ _))

section Above

variable {a b c : BlockId × UInt16}

theorem Above.irrefl (a : BlockId × UInt16) : ¬ Above a a := by
  intro h
  rcases h with hlt | ⟨_, hlt⟩
  · exact Nat.lt_irrefl _ hlt
  · exact UInt16.lt_irrefl _ hlt

theorem Above.trans (h : Above a b) (h' : Above b c) : Above a c := by
  rcases h with hlt | ⟨heq, hlt⟩
  · rcases h' with hlt' | ⟨heq', _⟩
    · exact Or.inl (Nat.lt_trans hlt' hlt)
    · exact Or.inl (heq' ▸ hlt)
  · rcases h' with hlt' | ⟨heq', hlt'⟩
    · exact Or.inl (heq ▸ hlt')
    · exact Or.inr ⟨heq'.trans heq, UInt16.lt_trans hlt' hlt⟩

theorem Above.not_gt (h : Above a b) : ¬ Above b a :=
  fun h' => Above.irrefl a (h.trans h')

end Above

section Confirmed

variable {T : BlockTree} {cfg : IndexerConfig} {store : Store}
  {blocks : List Block} {scripts : List FullHash} {be be' : BlockEntry}
  {idx idx' : Nat} {tx tx' : Transaction}

theorem position_unique (hnodup : (chainTxids blocks).Nodup)
    (hbe : be ∈ chainEntries blocks) (hbe' : be' ∈ chainEntries blocks)
    (htx : be.block.txdata[idx]? = some tx)
    (htx' : be'.block.txdata[idx']? = some tx') (h : tx.txid = tx'.txid) :
    be = be' ∧ idx = idx' ∧ tx = tx' := by
  rcases tx_unique hnodup hbe hbe' (List.mem_of_getElem? htx)
    (List.mem_of_getElem? htx') h with ⟨hblock, htxeq⟩
  subst hblock
  refine ⟨rfl, ?_, htxeq⟩
  rcases mem_chainEntries.mp hbe with ⟨i, b, hb, heq⟩
  have hblock : (be.block.txdata.map Transaction.txid).Nodup := by
    rw [heq]
    exact (List.nodup_flatMap.mp hnodup).left b (List.mem_of_getElem? hb)
  have hlt : idx < (be.block.txdata.map Transaction.txid).length := by
    rw [List.length_map]
    exact (List.getElem?_eq_some_iff.mp htx).1
  apply (List.getElem?_inj hlt hblock).mp
  rw [List.getElem?_map, List.getElem?_map, htx, htx', htxeq]

theorem tx_of_position (hbe : be ∈ chainEntries blocks) (hbe' : be' ∈ chainEntries blocks)
    (hheight : be.entry.height = be'.entry.height)
    (htx : be.block.txdata[idx]? = some tx)
    (htx' : be'.block.txdata[idx]? = some tx') : tx = tx' := by
  rcases mem_chainEntries.mp hbe with ⟨i, b, hb, heq⟩
  rcases mem_chainEntries.mp hbe' with ⟨j, b', hb', heq'⟩
  rw [heq, heq'] at hheight
  change i = j at hheight
  rw [hheight, hb'] at hb
  cases hb
  rw [heq] at htx
  rw [heq'] at htx'
  exact Option.some.inj (htx.symm.trans htx')

theorem idx_lt_of_mem_chainEntries (hbe : be ∈ chainEntries blocks)
    (htx : be.block.txdata[idx]? = some tx) : idx < 0xffff := by
  rcases mem_chainEntries.mp hbe with ⟨i, b, _, heq⟩
  rw [heq] at htx
  have hlt := (List.getElem?_eq_some_iff.mp htx).1
  have hlength := b.txdata_lt
  change idx < b.txdata.length at hlt
  omega

theorem exists_row_of_touches (hbe : be.block.txdata[idx]? = some tx)
    (h : Touches T cfg scripts tx) :
    exists k, IndexRow T cfg be (.history k) ∧ k.hash ∈ scripts ∧ k.getTxid = tx.txid := by
  rcases h with ⟨txo, htxo, hindexed, hscript⟩ | ⟨txi, htxi, hprevout, txo, htxo, hscript⟩
  · rcases List.getElem?_of_mem htxo with ⟨i, hi⟩
    exact ⟨_, .funding hbe hi hindexed, hscript, rfl⟩
  · rcases List.getElem?_of_mem htxi with ⟨i, hi⟩
    exact ⟨_, .spending hbe hi hprevout htxo, hscript, rfl⟩

theorem touches_of_row {k : TxHistoryKey} (h : IndexRow T cfg be (.history k))
    (hscript : k.hash ∈ scripts) :
    exists (idx : Nat) (tx : Transaction), be.block.txdata[idx]? = some tx ∧
      k.txPosition = idx.toUInt16 ∧ k.getTxid = tx.txid ∧
      Touches T cfg scripts tx := by
  cases h with
  | funding htx htxo hindexed =>
    exact ⟨_, _, htx, rfl, rfl, Or.inl ⟨_, List.mem_of_getElem? htxo, hindexed, hscript⟩⟩
  | spending htx htxi hprevout htxo =>
    exact ⟨_, _, htx, rfl, rfl, Or.inr ⟨_, List.mem_of_getElem? htxi, hprevout, _, htxo, hscript⟩⟩

namespace Exact

open ChainQuery

variable (h : Exact T cfg store blocks)

include h

theorem inRange : ChainQuery.InRange store := by
  intro k hk
  rcases h.history_mem_iff.mp hk with ⟨be, hbe, hindex⟩
  rcases indexRow_history hindex with ⟨_, hheight, idx, tx, htx, hpos, _⟩
  have hlt := height_lt_of_mem_chainEntries hbe
  have hidx := idx_lt_of_mem_chainEntries hbe htx
  have hlength := h.valid.length_lt
  constructor
  · rw [hheight, UInt32.lt_iff_toNat_lt, toNat_toUInt32 (by omega)]
    change be.entry.height < 4294967295
    omega
  · rw [hpos, UInt16.lt_iff_toNat_lt, toNat_toUInt16 (by omega)]
    exact hidx

theorem txConfirmingBlock_of_position (hbe : be ∈ chainEntries blocks)
    (htx : be.block.txdata[idx]? = some tx) :
    ChainQuery.txConfirmingBlock store tx.txid = some (BlockId.ofEntry be.entry) :=
  (ChainQuery.txConfirmingBlock_eq_some h.headers h.valid h.confirms).mpr
    ⟨be, hbe, List.mem_map_of_mem (List.mem_of_getElem? htx), rfl⟩

theorem confirmedTx_of_row {k : TxHistoryKey} (hk : HistoryKey.history k ∈ store.disk.history)
    (hscript : k.hash ∈ scripts) :
    exists item, ConfirmedTx T cfg scripts blocks item ∧
      k.getTxid = item.1.txid ∧ k.txPosition = item.2.2 ∧
      k.confirmedHeight.toNat = item.2.1.height ∧
      rowEntry store k = some (item.1.txid, item.2) := by
  rcases h.history_mem_iff.mp hk with ⟨be, hbe, hindex⟩
  rcases touches_of_row hindex hscript with ⟨idx, tx, htx, hpos, htxid, htouches⟩
  have hheight := (indexRow_history hindex).right.left
  have hlt := height_lt_of_mem_chainEntries hbe
  have hlength := h.valid.length_lt
  refine ⟨(tx, BlockId.ofEntry be.entry, idx.toUInt16),
    ⟨be, idx, hbe, htx, rfl, htouches⟩, htxid, hpos, ?_, ?_⟩
  · rw [hheight, toNat_toUInt32 (by omega)]
    rfl
  · rw [rowEntry, htxid, h.txConfirmingBlock_of_position hbe htx, hpos]
    rfl

variable {item item' : Transaction × BlockId × UInt16}

theorem confirmedTx_unique (hitem : ConfirmedTx T cfg scripts blocks item)
    (hitem' : ConfirmedTx T cfg scripts blocks item')
    (htxid : item.1.txid = item'.1.txid) : item = item' := by
  rcases hitem with ⟨be, idx, hbe, htx, hpos, _⟩
  rcases hitem' with ⟨be', idx', hbe', htx', hpos', _⟩
  rcases position_unique h.valid.txids_nodup hbe hbe' htx htx' htxid with ⟨hblock, hidx, htxeq⟩
  refine Prod.ext htxeq ?_
  rw [hpos, hpos', hblock, hidx]

omit h in
theorem confirmedTx_eq_of_position (hitem : ConfirmedTx T cfg scripts blocks item)
    (hitem' : ConfirmedTx T cfg scripts blocks item')
    (hheight : item.2.1.height = item'.2.1.height) (hpos : item.2.2 = item'.2.2) :
    item.1 = item'.1 := by
  rcases hitem with ⟨be, idx, hbe, htx, heq, _⟩
  rcases hitem' with ⟨be', idx', hbe', htx', heq', _⟩
  have hlt := idx_lt_of_mem_chainEntries hbe htx
  have hlt' := idx_lt_of_mem_chainEntries hbe' htx'
  rw [heq, heq'] at hheight hpos
  have hidx := congrArg UInt16.toNat hpos
  change idx.toUInt16.toNat = idx'.toUInt16.toNat at hidx
  rw [toNat_toUInt16 (by omega), toNat_toUInt16 (by omega)] at hidx
  rw [<- hidx] at htx'
  exact tx_of_position hbe hbe' hheight htx htx'

section Entries

variable {startHeight : Option UInt32} {rows : List TxHistoryKey}
  (hrows : RowsOf store scripts startHeight rows)

include hrows

theorem confirmedTx_of_mem_rows {k : TxHistoryKey} (hk : k ∈ rows) :
    exists item, ConfirmedTx T cfg scripts blocks item ∧
      k.getTxid = item.1.txid ∧ k.txPosition = item.2.2 ∧
      k.confirmedHeight.toNat = item.2.1.height ∧
      rowEntry store k = some (item.1.txid, item.2) := by
  rcases ((hrows.mem_iff k).mp hk).left with ⟨hmem, _, hscript⟩
  exact h.confirmedTx_of_row hmem hscript

theorem confirmedTxids_eq_after (lastSeenTxid : Option Txid) :
    confirmedTxids store rows lastSeenTxid =
      after Prod.fst lastSeenTxid (confirmedTxids store rows none) := by
  refine (after_filterMap ?_ lastSeenTxid).symm
  intro k hk
  rcases h.confirmedTx_of_mem_rows hrows ((uniqueBy_sublist _ _).subset hk) with
    ⟨item, _, htxid, _, _, hentry⟩
  exact ⟨_, hentry, htxid.symm⟩

theorem pairwise_confirmedTxids :
    (confirmedTxids store rows none).Pairwise fun e e' => Above e.2 e'.2 := by
  have hdescending := hrows.descending.sublist (uniqueBy_sublist TxHistoryKey.getTxid rows)
  have hdistinct := List.pairwise_map.mp (nodup_map_uniqueBy TxHistoryKey.getTxid rows)
  unfold confirmedTxids
  rw [after_none, List.pairwise_filterMap]
  refine (hdescending.and hdistinct).imp_of_mem ?_
  intro k k' hk hk' horder e he e' he'
  rcases horder with ⟨hle, hne⟩
  rcases h.confirmedTx_of_mem_rows hrows ((uniqueBy_sublist _ _).subset hk) with
    ⟨item, hitem, htxid, hpos, hheight, hentry⟩
  rcases h.confirmedTx_of_mem_rows hrows ((uniqueBy_sublist _ _).subset hk') with
    ⟨item', hitem', htxid', hpos', hheight', hentry'⟩
  rw [hentry] at he
  rw [hentry'] at he'
  cases he
  cases he'
  rcases position_le_of_scanOrder hle with hlt | ⟨heq, hposle⟩
  · rw [hheight, hheight'] at hlt
    exact Or.inl hlt
  · rw [hheight, hheight'] at heq
    refine Or.inr ⟨heq, ?_⟩
    rw [<- hpos, <- hpos', UInt16.lt_iff_toNat_lt]
    refine Nat.lt_of_le_of_ne hposle ?_
    intro hsame
    have htx := confirmedTx_eq_of_position hitem hitem' heq.symm
      (hpos.symm.trans ((UInt16.toNat_inj.mp hsame).symm.trans hpos'))
    exact hne (htxid.trans ((congrArg Transaction.txid htx).trans htxid'.symm))

theorem mem_confirmedTxids {e : Txid × BlockId × UInt16} :
    e ∈ confirmedTxids store rows none <->
      exists item, ConfirmedTx T cfg scripts blocks item ∧ e = (item.1.txid, item.2) ∧
        forall height, startHeight = some height -> item.2.1.height ≤ height.toNat := by
  unfold confirmedTxids
  rw [after_none, List.mem_filterMap]
  constructor
  · intro hmem
    rcases hmem with ⟨k, hk, hentry⟩
    have hrow := (uniqueBy_sublist _ _).subset hk
    rcases h.confirmedTx_of_mem_rows hrows hrow with ⟨item, hitem, _, _, hheight, hentry'⟩
    refine ⟨item, hitem, Option.some.inj (hentry.symm.trans hentry'), ?_⟩
    intro height heq
    rw [<- hheight]
    exact UInt32.le_iff_toNat_le.mp (((hrows.mem_iff k).mp hrow).right height heq)
  · intro hmem
    rcases hmem with ⟨item, hitem, heq, hstart⟩
    have hitem' := hitem
    rcases hitem' with ⟨be, idx, hbe, htx, hpos, htouches⟩
    rcases exists_row_of_touches htx htouches with ⟨k, hindex, hscript, htxid⟩
    have hstored := h.history_mem_iff.mpr ⟨be, hbe, hindex⟩
    rcases h.confirmedTx_of_row hstored hscript with ⟨found, hfound, hfoundTxid, _, hheight, _⟩
    have hfoundEq := h.confirmedTx_unique hfound hitem (hfoundTxid.symm.trans htxid)
    have hrow : k ∈ rows := by
      refine (hrows.mem_iff k).mpr ⟨⟨hstored, (indexRow_history hindex).left, hscript⟩, ?_⟩
      intro height hsome
      rw [UInt32.le_iff_toNat_le, hheight, hfoundEq]
      exact hstart height hsome
    -- The first row of the txid need not be the row of this input or output.
    have hkey : item.1.txid ∈ (uniqueBy TxHistoryKey.getTxid rows).map TxHistoryKey.getTxid := by
      rw [mem_map_uniqueBy, <- htxid]
      exact List.mem_map_of_mem hrow
    rcases List.mem_map.mp hkey with ⟨k', hk', htxid'⟩
    rcases h.confirmedTx_of_mem_rows hrows ((uniqueBy_sublist _ _).subset hk') with
      ⟨first, hfirst, hfirstTxid, _, _, hentry⟩
    have hfirstEq := h.confirmedTx_unique hfirst hitem (hfirstTxid.symm.trans htxid')
    refine ⟨k', hk', ?_⟩
    rw [hentry, hfirstEq, heq]

end Entries

theorem confirmedTxids_start {rows rows' : List TxHistoryKey} {height : UInt32}
    (hrows : RowsOf store scripts none rows)
    (hrows' : RowsOf store scripts (some height) rows')
    (hitem : ConfirmedTx T cfg scripts blocks item)
    (hheight : item.2.1.height ≤ height.toNat) :
    confirmedTxids store rows' (some item.1.txid) =
      confirmedTxids store rows (some item.1.txid) := by
  rw [h.confirmedTxids_eq_after hrows, h.confirmedTxids_eq_after hrows']
  have hpairwise := h.pairwise_confirmedTxids hrows
  have hsplit : confirmedTxids store rows none = (confirmedTxids store rows none).filter
        (fun e => height.toNat < e.2.1.height) ++
      confirmedTxids store rows' none := by
    refine eq_of_pairwise_of_mem_iff (fun e => Above.irrefl e.2)
      (fun _ _ _ hab hbc => hab.trans hbc) hpairwise ?_ ?_
    · refine List.pairwise_append.mpr
        ⟨List.Pairwise.filter _ hpairwise, h.pairwise_confirmedTxids hrows', ?_⟩
      intro e he e' he'
      rcases (h.mem_confirmedTxids hrows').mp he' with ⟨item', _, heq, hle⟩
      have hlt : height.toNat < e.2.1.height :=
        of_decide_eq_true (List.mem_filter.mp he).right
      rw [heq]
      exact Or.inl (Nat.lt_of_le_of_lt (hle height rfl) hlt)
    · intro e
      rw [List.mem_append, List.mem_filter, h.mem_confirmedTxids hrows,
        h.mem_confirmedTxids hrows', decide_eq_true_eq]
      constructor
      · intro hmem
        rcases hmem with ⟨item', hitem', heq, _⟩
        rcases Nat.lt_or_ge height.toNat item'.2.1.height with hlt | hge
        · exact Or.inl ⟨⟨item', hitem', heq, nofun⟩, heq ▸ hlt⟩
        · refine Or.inr ⟨item', hitem', heq, ?_⟩
          intro height' hsome
          rw [<- Option.some.inj hsome]
          exact hge
      · intro hmem
        rcases hmem with hmem | hmem
        · exact hmem.left
        · rcases hmem with ⟨item', hitem', heq, _⟩
          exact ⟨item', hitem', heq, nofun⟩
  have hfresh : item.1.txid ∉ ((confirmedTxids store rows none).filter
      (fun e => height.toNat < e.2.1.height)).map Prod.fst := by
    intro hmem
    rcases List.mem_map.mp hmem with ⟨e, he, htxid⟩
    rcases List.mem_filter.mp he with ⟨hmem, hlt⟩
    rcases (h.mem_confirmedTxids hrows).mp hmem with ⟨item', hitem', heq, _⟩
    have hsame : item' = item := by
      refine h.confirmedTx_unique hitem' hitem ?_
      rw [<- htxid, heq]
    have hlt' : height.toNat < e.2.1.height := of_decide_eq_true hlt
    rw [heq, hsame] at hlt'
    exact absurd hheight (Nat.not_le_of_gt hlt')
  conv_rhs => rw [hsplit]
  rw [after_some_append hfresh]

theorem exists_confirmed {rows : List TxHistoryKey} (hrows : RowsOf store scripts none rows) :
    exists confirmed : List (Transaction × BlockId × UInt16),
      confirmed.Pairwise (fun item item' => Above item.2 item'.2) ∧
      (forall item, item ∈ confirmed <-> ConfirmedTx T cfg scripts blocks item) ∧
      confirmedTxids store rows none = confirmed.map fun item => (item.1.txid, item.2) := by
  let entryOf : { item // ConfirmedTx T cfg scripts blocks item } ->
      Txid × BlockId × UInt16 := fun item => (item.val.1.txid, item.val.2)
  have hrange : confirmedTxids store rows none ∈ Set.range (List.map entryOf) := by
    rw [Set.range_list_map]
    intro e he
    rcases (h.mem_confirmedTxids hrows).mp he with ⟨item, hitem, heq, _⟩
    exact ⟨⟨item, hitem⟩, heq.symm⟩
  rcases hrange with ⟨items, hitems⟩
  have hmap : confirmedTxids store rows none =
      (items.map Subtype.val).map fun item => (item.1.txid, item.2) := by
    rw [<- hitems, List.map_map]
    rfl
  refine ⟨items.map Subtype.val, ?_, ?_, hmap⟩
  · have hpairwise := h.pairwise_confirmedTxids hrows
    rw [hmap, List.pairwise_map] at hpairwise
    exact hpairwise
  · intro item
    constructor
    · intro hmem
      rcases List.mem_map.mp hmem with ⟨item', _, heq⟩
      rw [<- heq]
      exact item'.property
    · intro hitem
      have hmem : (item.1.txid, item.2) ∈ confirmedTxids store rows none :=
        (h.mem_confirmedTxids hrows).mpr ⟨item, hitem, rfl, nofun⟩
      rw [hmap] at hmem
      rcases List.mem_map.mp hmem with ⟨item', hmem', heq⟩
      rcases List.mem_map.mp hmem' with ⟨found, _, hfound⟩
      have hconfirmed : ConfirmedTx T cfg scripts blocks item' := by
        rw [<- hfound]
        exact found.property
      rw [<- h.confirmedTx_unique hconfirmed hitem (congrArg Prod.fst heq)]
      exact hmem'

end Exact

end Confirmed

/-!
## Fetching the transactions
-/

section Fetch

variable {T : BlockTree} {reader : ChainReader T} {blocks : List Block}
  {scripts : List FullHash}

def Decodes (reader : ChainReader T) (blocks : List Block) : Prop :=
  forall b, b ∈ blocks -> forall tx, tx ∈ b.txdata -> reader.deserialize tx.raw = some tx

theorem lookupTxn_of_mem
    (hrows : Materializes IsStoreKey (AddRow reader.cfg) reader.store.disk.txstore
      (entrySet blocks))
    (hvalid : ValidChain T blocks) (hdecodes : Decodes reader blocks) {b : Block}
    (hb : b ∈ blocks) {tx : Transaction} (htx : tx ∈ b.txdata) :
    ChainQuery.lookupTxn reader tx.txid (some b.hash) = .ok (some tx) := by
  have hraw : ChainQuery.lookupRawTxn reader.cfg reader.daemon reader.store
      tx.txid (some b.hash) = some tx.raw := by
    cases hlight : reader.cfg.lightMode with
    | false =>
      rcases List.getElem?_of_mem hb with ⟨i, hi⟩
      have hentry : blockEntryAt b i ∈ entrySet blocks :=
        mem_chainEntries.mpr ⟨i, b, hi, rfl⟩
      have hrow : reader.store.disk.txstore[TxstoreKey.tx tx.txid]? = some (.rawTx tx.raw) :=
        hrows.getElem? (by simp [IsStoreKey]) hentry (.tx hlight htx)
      simp [ChainQuery.lookupRawTxn, hlight, hrow]
    | true =>
      have hblock : reader.daemon.getblock b.hash = .ok b :=
        Daemon.getblock_eq hvalid.toIsChain hb
      have hnodup : (b.txdata.map Transaction.txid).Nodup :=
        (List.nodup_flatMap.mp hvalid.txids_nodup).left b hb
      have hfind : b.txdata.find? (fun tx' => tx'.txid = tx.txid) = some tx := by
        have hsome : (b.txdata.find? fun tx' => tx'.txid = tx.txid).isSome := by
          rw [List.find?_isSome]
          exact ⟨tx, htx, decide_eq_true rfl⟩
        rcases Option.isSome_iff_exists.mp hsome with ⟨tx', hfound⟩
        have hpred := List.find?_some hfound
        have hsame : tx'.txid = tx.txid := of_decide_eq_true hpred
        rw [hfound, List.inj_on_of_nodup_map hnodup (List.mem_of_find?_eq_some hfound) htx hsame]
      simp [ChainQuery.lookupRawTxn, hlight, hblock, hfind, Except.toOption]
  unfold ChainQuery.lookupTxn
  rw [hraw]
  refine bind_eq_ok.mpr ⟨tx, expect_eq_ok.mpr (hdecodes b hb tx htx), ?_⟩
  exact bind_eq_ok.mpr ⟨(), ensure_of _ rfl, rfl⟩

theorem lookupTxn_eq (h : Exact T reader.cfg reader.store blocks)
    (hdecodes : Decodes reader blocks) {item : Transaction × BlockId × UInt16}
    (hitem : ConfirmedTx T reader.cfg scripts blocks item) :
    ChainQuery.lookupTxn reader item.1.txid (some item.2.1.hash) = .ok (some item.1) := by
  rcases hitem with ⟨be, idx, hbe, htx, hpos, _⟩
  rcases mem_chainEntries.mp hbe with ⟨i, b, hb, heq⟩
  have hmem := List.mem_of_getElem? htx
  rw [heq, blockEntryAt_block] at hmem
  have hhash : item.2.1.hash = b.hash := by
    rw [hpos, heq]
    rfl
  rw [hhash]
  exact lookupTxn_of_mem h.txstore h.valid hdecodes (List.mem_of_getElem? hb) hmem

theorem lookupTxns_perm (h : Exact T reader.cfg reader.store blocks)
    (hdecodes : Decodes reader blocks) (order : LookupOrder)
    {items : List (Transaction × BlockId × UInt16)}
    (hitems : forall item, item ∈ items ->
      ConfirmedTx T reader.cfg scripts blocks item) (limit : Nat) :
    exists found, ChainQuery.lookupTxns reader order
        (items.map fun item => (item.1.txid, item.2)) limit = .ok found ∧
      found.Perm (items.take limit) := by
  let fetch : Txid × BlockId × UInt16 ->
      Except QueryError (Transaction × BlockId × UInt16) := fun entry => do
    let found <- ChainQuery.lookupTxn reader entry.1 (some entry.2.1.hash)
    let tx <- expect found .missingTx
    return (tx, entry.2)
  have hfetch : forall item, item ∈ items -> fetch (item.1.txid, item.2) = .ok item := by
    intro item hitem
    show (ChainQuery.lookupTxn reader item.1.txid (some item.2.1.hash) >>= _) = _
    rw [lookupTxn_eq h hdecodes (hitems item hitem)]
    rfl
  have hperm := order.perm ((items.map fun item => (item.1.txid, item.2)).take limit)
  rw [<- List.map_take] at hperm
  refine ⟨_, mapM_eq_ok_filterMap (g := fun entry => (fetch entry).toOption) ?_, ?_⟩
  · intro entry hentry
    rw [<- List.map_take] at hentry
    rcases List.mem_map.mp (hperm.mem_iff.mp hentry) with ⟨item, hitem, heq⟩
    have hok := hfetch item (List.mem_of_mem_take hitem)
    rw [heq] at hok
    refine ⟨item, hok, ?_⟩
    rw [hok]
    rfl
  · rw [<- List.map_take]
    refine (hperm.filterMap _).trans (List.Perm.of_eq ?_)
    rw [List.filterMap_map]
    refine (List.filterMap_congr ?_).trans List.filterMap_some
    intro item hitem
    show (fetch (item.1.txid, item.2)).toOption = some item
    rw [hfetch item (List.mem_of_mem_take hitem)]
    rfl

end Fetch

end NewIndex
end Splora
