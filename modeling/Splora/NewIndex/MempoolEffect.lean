import Splora.NewIndex.Mempool
import Splora.NewIndex.RowSpec

/-!
# What an add and a remove do to the mempool index

`Mempool::add` stores all its transactions and indexes the new ones whose previous outputs are
found; it never fails.  `Mempool::remove` succeeds exactly if all its txids are stored.
-/

namespace Splora
namespace NewIndex

open Foundation

/-!
## Previous outputs
-/

section Prevouts

variable {tx : Transaction} {txos txos' : TxoMap}
  {prevouts : List (UInt32 × TxOut)}

theorem mem_of_extractTxPrevouts (h : extractTxPrevouts tx txos = .ok prevouts)
    {prevout : UInt32 × TxOut} :
    prevout ∈ prevouts <->
      exists (i : Nat) (txi : TxIn), tx.input[i]? = some txi ∧
        hasPrevout txi = true ∧ prevout.1 = i.toUInt32 ∧
        txos txi.previousOutput = some prevout.2 := by
  rw [mem_of_mapM h]
  constructor
  · intro hsource
    rcases hsource with ⟨input, hinput, heq⟩
    rcases bind_eq_ok.mp heq with ⟨txo, htxo, hpair⟩
    rcases List.mem_filter.mp hinput with ⟨hmem, hprevout⟩
    cases pure_eq_ok.mp hpair
    exact ⟨input.2, input.1, List.mem_zipIdx_iff_getElem?.mp hmem, hprevout, rfl,
      expect_eq_ok.mp htxo⟩
  · intro hsource
    rcases hsource with ⟨i, txi, htxi, hprevout, hindex, htxo⟩
    refine ⟨(txi, i), List.mem_filter.mpr ⟨?_, hprevout⟩, ?_⟩
    · exact List.mk_mem_zipIdx_iff_getElem?.mpr htxi
    · exact bind_eq_ok.mpr ⟨prevout.2, expect_eq_ok.mpr htxo,
        pure_eq_ok.mpr (Prod.ext hindex.symm rfl)⟩

theorem nodup_of_extractTxPrevouts (h : extractTxPrevouts tx txos = .ok prevouts) :
    (prevouts.map Prod.fst).Nodup := by
  have hkeys : prevouts.map Prod.fst = (tx.input.zipIdx.filter fun input => hasPrevout input.1).map
        fun input => input.2.toUInt32 := by
    apply map_eq_map_of_mapM h
    intro input prevout heq
    rcases bind_eq_ok.mp heq with ⟨txo, _, hpair⟩
    cases pure_eq_ok.mp hpair
    rfl
  rw [hkeys]
  exact List.pairwise_map.mpr ((pairwise_index tx.input_lt).filter _)

def Resolvable (txos : TxoMap) (tx : Transaction) : Prop :=
  forall txi, txi ∈ tx.input -> hasPrevout txi = true ->
    exists txo, txos txi.previousOutput = some txo

theorem exists_extractTxPrevouts_iff :
    (exists prevouts, extractTxPrevouts tx txos = .ok prevouts) <->
      Resolvable txos tx := by
  constructor
  · intro h txi htxi hprevout
    rcases h with ⟨prevouts, h⟩
    rcases List.getElem?_of_mem htxi with ⟨i, hi⟩
    have hinput : (txi, i) ∈ tx.input.zipIdx.filter fun input => hasPrevout input.1 :=
      List.mem_filter.mpr ⟨List.mk_mem_zipIdx_iff_getElem?.mpr hi, hprevout⟩
    rcases ok_of_mapM h hinput with ⟨prevout, heq⟩
    rcases bind_eq_ok.mp heq with ⟨txo, htxo, _⟩
    exact ⟨txo, expect_eq_ok.mp htxo⟩
  · intro h
    apply mapM_ok_of_forall
    intro input hinput
    rcases List.mem_filter.mp hinput with ⟨hmem, hprevout⟩
    have htxi : input.1 ∈ tx.input :=
      List.mem_of_getElem? (List.mem_zipIdx_iff_getElem?.mp hmem)
    rcases h input.1 htxi hprevout with ⟨txo, htxo⟩
    exact ⟨_, bind_eq_ok.mpr ⟨txo, expect_eq_ok.mpr htxo, rfl⟩⟩

theorem extractTxPrevouts_congr (h : forall txi, txi ∈ tx.input -> hasPrevout txi = true ->
      txos txi.previousOutput = txos' txi.previousOutput) :
    extractTxPrevouts tx txos = extractTxPrevouts tx txos' := by
  apply mapM_ok_congr
  intro input hinput
  rcases List.mem_filter.mp hinput with ⟨hmem, hprevout⟩
  have htxi : input.1 ∈ tx.input :=
    List.mem_of_getElem? (List.mem_zipIdx_iff_getElem?.mp hmem)
  rw [h input.1 htxi hprevout]

end Prevouts

/-!
## Indexed transactions
-/

structure IndexedTx where
  tx : Transaction
  prevouts : List (UInt32 × TxOut)

def TxHistoryInfo.slot : TxHistoryInfo -> Txid × Bool × UInt32
  | funding info => (info.txid, true, info.vout)
  | spending info => (info.txid, false, info.vin)

theorem TxHistoryInfo.slot_fst (entry : TxHistoryInfo) : entry.slot.1 = entry.getTxid := by
  cases entry with
  | funding info => rfl
  | spending info => rfl

namespace IndexedTx

def txid (r : IndexedTx) : Txid :=
  r.tx.txid

def feeinfo (r : IndexedTx) : TxFeeInfo :=
  TxFeeInfo.new r.tx r.prevouts

def overview (r : IndexedTx) : TxOverview where
  txid := r.txid
  fee := r.feeinfo.fee
  vsize := r.feeinfo.vsize
  value := (r.prevouts.map fun prevout => prevout.2.value).sum

def spendings (cfg : Config) (r : IndexedTx) :
    List (FullHash × TxHistoryInfo) :=
  r.prevouts.filterMap fun prevout =>
    r.tx.input[prevout.1.toNat]?.map fun txi =>
      Mempool.spendingEntry cfg r.tx prevout.1 txi prevout.2

def entries (cfg : Config) (r : IndexedTx) : List (FullHash × TxHistoryInfo) :=
  Mempool.fundingEntries cfg r.tx ++ r.spendings cfg

def FoundIn (r : IndexedTx) (txos : TxoMap) : Prop :=
  exists prevouts, extractTxPrevouts r.tx txos = .ok prevouts ∧ r.prevouts.Perm prevouts

section Entries

variable {cfg : Config} {r : IndexedTx} {txos : TxoMap}

theorem FoundIn.mem_prevouts (h : r.FoundIn txos) {prevout : UInt32 × TxOut} :
    prevout ∈ r.prevouts <->
      exists (i : Nat) (txi : TxIn), r.tx.input[i]? = some txi ∧
        hasPrevout txi = true ∧ prevout.1 = i.toUInt32 ∧
        txos txi.previousOutput = some prevout.2 := by
  rcases h with ⟨prevouts, hextract, hperm⟩
  rw [hperm.mem_iff, mem_of_extractTxPrevouts hextract]

theorem FoundIn.getElem?_input (h : r.FoundIn txos) {prevout : UInt32 × TxOut}
    (hmem : prevout ∈ r.prevouts) :
    exists txi, r.tx.input[prevout.1.toNat]? = some txi ∧
      hasPrevout txi = true ∧ txos txi.previousOutput = some prevout.2 := by
  rcases h.mem_prevouts.mp hmem with ⟨i, txi, htxi, hprevout, hindex, htxo⟩
  rw [hindex, toNat_toUInt32 (input_index_lt htxi)]
  exact ⟨txi, htxi, hprevout, htxo⟩

variable {row : FullHash × TxHistoryInfo}

theorem mem_fundingEntries {tx : Transaction} :
    row ∈ Mempool.fundingEntries cfg tx <->
      exists (i : Nat) (txo : TxOut), tx.output[i]? = some txo ∧ cfg.isIndexed txo = true ∧
        row = (cfg.computeScriptHash txo.scriptPubkey,
          .funding {
            txid := tx.txid
            vout := i.toUInt32
            value := txo.value }) := by
  rw [Mempool.fundingEntries, List.mem_map]
  constructor
  · intro h
    rcases h with ⟨output, houtput, heq⟩
    rcases List.mem_filter.mp houtput with ⟨hmem, hindexed⟩
    exact ⟨output.2, output.1, List.mem_zipIdx_iff_getElem?.mp hmem, hindexed, heq.symm⟩
  · intro h
    rcases h with ⟨i, txo, htxo, hindexed, heq⟩
    exact ⟨(txo, i), List.mem_filter.mpr
      ⟨List.mk_mem_zipIdx_iff_getElem?.mpr htxo, hindexed⟩, heq.symm⟩

theorem FoundIn.mem_spendings (h : r.FoundIn txos) :
    row ∈ r.spendings cfg <->
      exists (i : Nat) (txi : TxIn) (txo : TxOut), r.tx.input[i]? = some txi ∧
        hasPrevout txi = true ∧ txos txi.previousOutput = some txo ∧
        row = Mempool.spendingEntry cfg r.tx i.toUInt32 txi txo := by
  rw [spendings, List.mem_filterMap]
  constructor
  · intro hrow
    rcases hrow with ⟨prevout, hmem, heq⟩
    rcases h.mem_prevouts.mp hmem with ⟨i, txi, htxi, hprevout, hindex, htxo⟩
    rw [hindex, toNat_toUInt32 (input_index_lt htxi), htxi] at heq
    exact ⟨i, txi, prevout.2, htxi, hprevout, htxo, (Option.some.inj heq).symm⟩
  · intro hrow
    rcases hrow with ⟨i, txi, txo, htxi, hprevout, htxo, heq⟩
    refine ⟨(i.toUInt32, txo), ?_, ?_⟩
    · exact h.mem_prevouts.mpr ⟨i, txi, htxi, hprevout, rfl, htxo⟩
    · rw [toNat_toUInt32 (input_index_lt htxi), htxi, heq]
      rfl

theorem getTxid_of_mem_entries (h : row ∈ r.entries cfg) : row.2.getTxid = r.txid := by
  rcases List.mem_append.mp h with h | h
  · rcases mem_fundingEntries.mp h with ⟨i, txo, _, _, heq⟩
    rw [heq]
    rfl
  · rcases List.mem_filterMap.mp h with ⟨prevout, _, heq⟩
    rcases Option.map_eq_some_iff.mp heq with ⟨txi, _, heq⟩
    rw [← heq]
    rfl

theorem FoundIn.nodup_slots (h : r.FoundIn txos) :
    ((r.entries cfg).map fun row => row.2.slot).Nodup := by
  have hfunding : ((Mempool.fundingEntries cfg r.tx).map fun row => row.2.slot).Nodup := by
    rw [Mempool.fundingEntries, List.map_map]
    apply List.pairwise_map.mpr
    apply ((pairwise_index r.tx.output_lt).filter _).imp
    intro output output' hne heq
    exact hne (congrArg (fun slot : Txid × Bool × UInt32 => slot.2.2) heq)
  have hspending : ((r.spendings cfg).map fun row => row.2.slot).Nodup := by
    rcases h with ⟨prevouts, hextract, hperm⟩
    have hkeys : (r.prevouts.map Prod.fst).Nodup :=
      (hperm.map Prod.fst).nodup_iff.mpr (nodup_of_extractTxPrevouts hextract)
    apply List.pairwise_map.mpr
    apply List.Pairwise.filterMap _ ?_ (List.pairwise_map.mp hkeys)
    intro prevout prevout' hne row hrow row' hrow' heq
    rcases Option.map_eq_some_iff.mp hrow with ⟨txi, _, hrow⟩
    rcases Option.map_eq_some_iff.mp hrow' with ⟨txi', _, hrow'⟩
    rw [← hrow, ← hrow'] at heq
    exact hne (congrArg (fun slot : Txid × Bool × UInt32 => slot.2.2) heq)
  rw [entries, List.map_append]
  apply List.Nodup.append hfunding hspending
  intro slot hslot hslot'
  rcases List.mem_map.mp hslot with ⟨row, hrow, hrowslot⟩
  rcases List.mem_map.mp hslot' with ⟨row', hrow', hrowslot'⟩
  rcases mem_fundingEntries.mp hrow with ⟨i, txo, _, _, heq⟩
  rcases List.mem_filterMap.mp hrow' with ⟨prevout, _, heq'⟩
  rcases Option.map_eq_some_iff.mp heq' with ⟨txi, _, heq'⟩
  rw [heq] at hrowslot
  rw [← heq', ← hrowslot] at hrowslot'
  cases hrowslot'

end Entries

end IndexedTx

/-!
## What an add does
-/

namespace Mempool

def storeTxs (m : Mempool) (txs : List Transaction) : Mempool :=
  { m with txstore := writeRows m.txstore (txs.map fun tx => (tx.txid, tx)) }

def available (store : Store) (m : Mempool) : TxoMap := fun outpoint =>
  (lookupTxo store.disk.txstore outpoint).or (m.lookupMempoolTxo outpoint)

def index (cfg : Config) (m : Mempool) (r : IndexedTx) : Mempool :=
  { m with
    recent := pushFrontCapped m.recent cfg.mempoolRecentTxsSize r.overview
    feeinfo := m.feeinfo.insert r.txid r.feeinfo
    history := (r.entries cfg).foldl push m.history
    edges := writeRows m.edges (edgeRows r.tx) }

structure Added (store : Store) (m : Mempool) (txs : List Transaction)
    (records : List IndexedTx) : Prop where
  new : forall r, r ∈ records -> r.txid ∉ m.txstore
  stored : forall r, r ∈ records -> (m.storeTxs txs).txstore[r.txid]? = some r.tx
  nodup : (records.map IndexedTx.txid).Nodup
  found : forall r, r ∈ records -> r.FoundIn (available store (m.storeTxs txs))
  complete : forall txid tx, txid ∉ m.txstore -> (m.storeTxs txs).txstore[txid]? = some tx ->
    Resolvable (available store (m.storeTxs txs)) tx ->
    exists r, r ∈ records ∧ r.txid = txid ∧ r.tx = tx

section Add

variable {cfg : Config} {store : Store} {order : HashOrder} {m : Mempool}
  {txs : List Transaction} {records : List IndexedTx} {txos : TxoMap}

variable {txid : Txid} {tx : Transaction}

theorem storeTxs_source (h : (m.storeTxs txs).txstore[txid]? = some tx) :
    m.txstore[txid]? = some tx ∨ tx ∈ txs ∧ tx.txid = txid := by
  rcases getElem?_writeRows_source h with hold | hnew
  · exact Or.inl hold
  · rcases List.mem_map.mp hnew with ⟨tx', htx', heq⟩
    cases heq
    exact Or.inr ⟨htx', rfl⟩

variable {r : IndexedTx}

theorem Added.mem (h : Added store m txs records) (hr : r ∈ records) : r.tx ∈ txs := by
  rcases storeTxs_source (h.stored r hr) with hold | hnew
  · exact absurd (mem_of_getElem? hold) (h.new r hr)
  · exact hnew.left

theorem foldl_insertTx_fst (m : Mempool) (txids : List Txid) (txs : List Transaction) :
    (txs.foldl insertTx (m, txids)).1 = m.storeTxs txs := by
  induction txs generalizing m txids with
  | nil => rfl
  | cons tx rest ih => exact ih _ _

theorem mem_foldl_insertTx (m : Mempool) (txids : List Txid) (txs : List Transaction) :
    txid ∈ (txs.foldl insertTx (m, txids)).2 <->
      txid ∈ txids ∨ txid ∉ m.txstore ∧ txid ∈ txs.map Transaction.txid := by
  induction txs generalizing m txids with
  | nil => simp
  | cons tx rest ih =>
    rw [List.foldl_cons, insertTx, ih, mem_insert_iff, List.map_cons, List.mem_cons, eq_comm]
    by_cases hmem : tx.txid ∈ m.txstore
    · rw [if_pos hmem]
      grind
    · rw [if_neg hmem, List.mem_append, List.mem_singleton]
      grind

variable {txids : List Txid}

theorem nodup_foldl_insertTx (m : Mempool) (txs : List Transaction)
    (hnodup : txids.Nodup) (hstored : forall txid, txid ∈ txids -> txid ∈ m.txstore) :
    ((txs.foldl insertTx (m, txids)).2).Nodup := by
  induction txs generalizing m txids with
  | nil => exact hnodup
  | cons tx rest ih =>
    rw [List.foldl_cons, insertTx]
    by_cases hmem : tx.txid ∈ m.txstore
    · rw [if_pos hmem]
      apply ih _ hnodup
      intro txid htxid
      exact mem_insert_iff.mpr (Or.inr (hstored txid htxid))
    · rw [if_neg hmem]
      apply ih
      · rw [← List.concat_eq_append]
        apply hnodup.concat
        intro htxid
        exact hmem (hstored _ htxid)
      · intro txid htxid
        rcases List.mem_append.mp htxid with htxid | htxid
        · exact mem_insert_iff.mpr (Or.inr (hstored txid htxid))
        · exact mem_insert_iff.mpr (Or.inl (List.mem_singleton.mp htxid).symm)

@[simp] theorem foldl_index_txstore (m : Mempool) (records : List IndexedTx) :
    (records.foldl (index cfg) m).txstore = m.txstore := by
  induction records generalizing m with
  | nil => rfl
  | cons r rest ih => exact ih _

theorem foldl_index_feeinfo (m : Mempool) (records : List IndexedTx) :
    (records.foldl (index cfg) m).feeinfo =
      writeRows m.feeinfo (records.map fun r => (r.txid, r.feeinfo)) := by
  induction records generalizing m with
  | nil => rfl
  | cons r rest ih => exact ih _

theorem foldl_index_history (m : Mempool) (records : List IndexedTx) :
    (records.foldl (index cfg) m).history =
      (records.flatMap (IndexedTx.entries cfg)).foldl push m.history := by
  induction records generalizing m with
  | nil => rfl
  | cons r rest ih =>
    rw [List.foldl_cons, ih, List.flatMap_cons]
    exact (List.foldl_append).symm

theorem foldl_index_edges (m : Mempool) (records : List IndexedTx) :
    (records.foldl (index cfg) m).edges =
      writeRows m.edges (records.flatMap fun r => edgeRows r.tx) := by
  induction records generalizing m with
  | nil => rfl
  | cons r rest ih =>
    rw [List.foldl_cons, ih, List.flatMap_cons]
    exact (List.foldl_append).symm

theorem mem_edgeRows {outpoint : OutPoint} {edge : Txid × UInt32} :
    (outpoint, edge) ∈ edgeRows tx <->
      exists (i : Nat) (txi : TxIn), tx.input[i]? = some txi ∧
        txi.previousOutput = outpoint ∧ edge = (tx.txid, i.toUInt32) := by
  rw [edgeRows, List.mem_map]
  constructor
  · intro h
    rcases h with ⟨input, hinput, heq⟩
    cases heq
    exact ⟨input.2, input.1, List.mem_zipIdx_iff_getElem?.mp hinput, rfl, rfl⟩
  · intro h
    rcases h with ⟨i, txi, htxi, houtpoint, hedge⟩
    refine ⟨(txi, i), List.mk_mem_zipIdx_iff_getElem?.mpr htxi, ?_⟩
    rw [houtpoint, hedge]

theorem indexTx_eq (h : r.FoundIn txos) (m : Mempool) :
    indexTx cfg m r.tx r.prevouts = .ok (m.index cfg r) := by
  have hspending : spendingEntries cfg r.tx r.prevouts = .ok (r.spendings cfg) := by
    apply mapM_eq_ok_filterMap
    intro prevout hmem
    rcases h.getElem?_input hmem with ⟨txi, htxi, _⟩
    refine ⟨_, bind_eq_ok.mpr ⟨txi, expect_eq_ok.mpr htxi, rfl⟩, ?_⟩
    rw [htxi]
    rfl
  exact bind_eq_ok.mpr ⟨_, hspending, rfl⟩

def found? (order : HashOrder) (txos : TxoMap) (m : Mempool) (txid : Txid) :
    Option IndexedTx :=
  m.txstore[txid]?.bind fun tx =>
    (extractTxPrevouts tx txos).toOption.map fun prevouts =>
      { tx := tx, prevouts := order.visit txid prevouts }

theorem processTx_eq {n : Nat} (htx : m.txstore[txid]? = some tx) :
    processTx cfg order txos (m, n) txid = .ok (match found? order txos m txid with
        | some r => (m.index cfg r, n + 1)
        | none => (m, n)) := by
  rw [processTx, expect_eq_ok.mpr htx, ok_bind, found?, htx, Option.bind_some]
  cases hextract : extractTxPrevouts tx txos with
  | error outpoint => rfl
  | ok prevouts =>
    have hfound : IndexedTx.FoundIn { tx := tx, prevouts := order.visit txid prevouts } txos :=
      ⟨prevouts, hextract, order.perm txid prevouts⟩
    exact bind_eq_ok.mpr ⟨_, indexTx_eq hfound m, rfl⟩

theorem foldlM_processTx (cfg : Config) (order : HashOrder) (txos : TxoMap)
    (m : Mempool) (n : Nat) (hstored : forall txid, txid ∈ txids -> txid ∈ m.txstore) :
    txids.foldlM (processTx cfg order txos) (m, n) =
      .ok ((txids.filterMap (found? order txos m)).foldl (index cfg) m,
        n + (txids.filterMap (found? order txos m)).length) := by
  induction txids generalizing m n with
  | nil => rfl
  | cons txid rest ih =>
    rcases mem_iff_exists.mp (hstored txid List.mem_cons_self) with ⟨tx, htx⟩
    have hrest : forall txid, txid ∈ rest -> txid ∈ m.txstore := by
      intro txid' htxid'
      exact hstored txid' (List.mem_cons_of_mem _ htxid')
    rw [List.foldlM_cons, processTx_eq htx, ok_bind]
    cases hfound : found? order txos m txid with
    | none =>
      rw [List.filterMap_cons_none hfound]
      exact ih m n hrest
    | some r =>
      rw [List.filterMap_cons_some hfound, List.foldl_cons, List.length_cons]
      -- indexing a transaction does not change what later ones find
      have hsame : found? order txos (m.index cfg r) = found? order txos m := rfl
      have hnext := ih (m.index cfg r) (n + 1) hrest
      rw [hsame] at hnext
      rw [hnext, Nat.add_assoc, Nat.add_comm 1]

theorem exists_getPrevouts (hstored : forall txid, txid ∈ txids -> txid ∈ m.txstore) :
    exists outpoints, getPrevouts m txids = .ok outpoints ∧
      forall txid tx, txid ∈ txids -> m.txstore[txid]? = some tx ->
        forall txi, txi ∈ tx.input -> hasPrevout txi = true -> txi.previousOutput ∈ outpoints := by
  have htxs : exists txs, (txids.mapM fun txid =>
      (expect m.txstore[txid]? (.missingMempoolTx txid) :
        Except Abort Transaction)) = .ok txs := by
    apply mapM_ok_of_forall
    intro txid htxid
    rcases mem_iff_exists.mp (hstored txid htxid) with ⟨tx, htx⟩
    exact ⟨tx, expect_eq_ok.mpr htx⟩
  rcases htxs with ⟨txs, htxs⟩
  refine ⟨_, bind_eq_ok.mpr ⟨txs, htxs, rfl⟩, ?_⟩
  intro txid tx htxid htx txi htxi hprevout
  have hmem : tx ∈ txs :=
    (mem_of_mapM htxs).mpr ⟨txid, htxid, expect_eq_ok.mpr htx⟩
  exact List.mem_flatMap.mpr ⟨tx, hmem, List.mem_map.mpr
    ⟨txi, List.mem_filter.mpr ⟨htxi, hprevout⟩, rfl⟩⟩

theorem exists_lookupTxos (store : Store) (m : Mempool) (outpoints : List OutPoint) :
    exists txos, lookupTxos store m outpoints = .ok txos ∧ forall outpoint, outpoint ∈ outpoints ->
        txos outpoint = available store m outpoint := by
  have hconfirmed : ChainQuery.lookupAvailTxos store outpoints = .ok fun outpoint =>
        if outpoint ∈ outpoints then
          lookupTxo store.disk.txstore outpoint
        else
          none := by
    refine bind_eq_ok.mpr ⟨(), forM_eq_ok.mpr ?_, rfl⟩
    intro outpoint _
    exact ensure_of _ rfl
  refine ⟨_, bind_eq_ok.mpr ⟨_, hconfirmed, rfl⟩, ?_⟩
  intro outpoint hmem
  simp only [if_pos hmem, available]

omit m in
theorem map_filterMap_sublist {f : α -> Option β} {g : β -> α} {l : List α}
    (h : forall a, a ∈ l -> forall b, f a = some b -> g b = a) :
    ((l.filterMap f).map g).Sublist l := by
  induction l with
  | nil => exact List.Sublist.slnil
  | cons a rest ih =>
    have hrest := ih fun a' ha' => h a' (List.mem_cons_of_mem _ ha')
    cases hfa : f a with
    | none =>
      rw [List.filterMap_cons_none hfa]
      exact hrest.cons a
    | some b =>
      rw [List.filterMap_cons_some hfa, List.map_cons, h a List.mem_cons_self b hfa]
      exact hrest.cons_cons a

theorem found?_eq_some :
    found? order txos m txid = some r <->
      exists tx prevouts, m.txstore[txid]? = some tx ∧ extractTxPrevouts tx txos = .ok prevouts ∧
        r = { tx := tx, prevouts := order.visit txid prevouts } := by
  constructor
  · intro h
    rcases Option.bind_eq_some_iff.mp h with ⟨tx, htx, h⟩
    rcases Option.map_eq_some_iff.mp h with ⟨prevouts, hprevouts, heq⟩
    cases hextract : extractTxPrevouts tx txos with
    | error outpoint =>
      rw [hextract] at hprevouts
      cases hprevouts
    | ok prevouts' =>
      rw [hextract] at hprevouts
      cases hprevouts
      exact ⟨tx, prevouts, htx, hextract, heq.symm⟩
  · intro h
    rcases h with ⟨tx, prevouts, htx, hextract, heq⟩
    rw [found?, htx, Option.bind_some, hextract, heq]
    rfl

theorem added_filterMap_found? (store : Store) (order : HashOrder)
    (hnodup : txids.Nodup) (hmem : forall txid, txid ∈ txids <->
      txid ∉ m.txstore ∧ txid ∈ txs.map Transaction.txid) :
    Added store m txs (txids.filterMap
      (found? order (available store (m.storeTxs txs)) (m.storeTxs txs))) := by
  have hsource : forall {txid tx}, txid ∈ txids ->
      (m.storeTxs txs).txstore[txid]? = some tx -> tx.txid = txid := by
    intro txid tx htxid htx
    rcases storeTxs_source htx with hold | hnew
    · exact absurd (mem_of_getElem? hold) ((hmem txid).mp htxid).left
    · exact hnew.right
  have hrecord : forall {txid r}, txid ∈ txids ->
      found? order (available store (m.storeTxs txs)) (m.storeTxs txs) txid = some r ->
      r.txid = txid ∧ (m.storeTxs txs).txstore[r.txid]? = some r.tx ∧
        r.FoundIn (available store (m.storeTxs txs)) := by
    intro txid r htxid hfound
    rcases found?_eq_some.mp hfound with ⟨tx, prevouts, htx, hextract, heq⟩
    rw [heq]
    have heqid : tx.txid = txid := hsource htxid htx
    refine ⟨heqid, ?_, prevouts, hextract, order.perm txid prevouts⟩
    rw [IndexedTx.txid, heqid, htx]
  exact {
    new := by
      intro r hr
      rcases List.mem_filterMap.mp hr with ⟨txid, htxid, hfound⟩
      rw [(hrecord htxid hfound).left]
      exact ((hmem txid).mp htxid).left
    stored := by
      intro r hr
      rcases List.mem_filterMap.mp hr with ⟨txid, htxid, hfound⟩
      exact (hrecord htxid hfound).right.left
    nodup := by
      apply List.Nodup.sublist ?_ hnodup
      apply map_filterMap_sublist
      intro txid htxid r hfound
      exact (hrecord htxid hfound).left
    found := by
      intro r hr
      rcases List.mem_filterMap.mp hr with ⟨txid, htxid, hfound⟩
      exact (hrecord htxid hfound).right.right
    complete := by
      intro txid tx hnew htx hresolvable
      have htxid : txid ∈ txids := by
        rcases storeTxs_source htx with hold | hadded
        · exact absurd (mem_of_getElem? hold) hnew
        · exact (hmem txid).mpr ⟨hnew, List.mem_map.mpr ⟨tx, hadded⟩⟩
      rcases exists_extractTxPrevouts_iff.mpr hresolvable with ⟨prevouts, hextract⟩
      have hfound : found? order (available store (m.storeTxs txs)) (m.storeTxs txs) txid =
            some { tx := tx, prevouts := order.visit txid prevouts } :=
        found?_eq_some.mpr ⟨tx, prevouts, htx, hextract, rfl⟩
      exact ⟨_, List.mem_filterMap.mpr ⟨txid, htxid, hfound⟩,
        (hrecord htxid hfound).left, rfl⟩ }

theorem added_nil (store : Store) (m : Mempool) : Added store m [] [] where
  new := by
    intro r hr
    cases hr
  stored := by
    intro r hr
    cases hr
  nodup := List.nodup_nil
  found := by
    intro r hr
    cases hr
  complete := by
    intro txid tx hnew htx
    exact absurd (mem_of_getElem? htx) hnew

theorem exists_added (cfg : Config) (store : Store) (order : HashOrder)
    (m : Mempool) (txs : List Transaction) :
    exists records, add cfg store order m txs =
        .ok (records.foldl (index cfg) (m.storeTxs txs), records.length) ∧
      Added store m txs records := by
  cases txs with
  | nil => exact ⟨[], rfl, added_nil store m⟩
  | cons tx rest =>
    have hmem : forall txid, txid ∈ ((tx :: rest).foldl insertTx (m, [])).2 <->
          txid ∉ m.txstore ∧ txid ∈ (tx :: rest).map Transaction.txid := by
      intro txid
      rw [mem_foldl_insertTx, or_iff_right List.not_mem_nil]
    have hnodup : (((tx :: rest).foldl insertTx (m, [])).2).Nodup :=
      nodup_foldl_insertTx m _ List.nodup_nil fun txid htxid => absurd htxid List.not_mem_nil
    have hfst := foldl_insertTx_fst m [] (tx :: rest)
    rw [add, if_neg (by simp)]
    generalize (tx :: rest).foldl insertTx (m, []) = st at hmem hnodup hfst
    rcases st with ⟨m1, txids⟩
    cases hfst
    have hstored : forall txid, txid ∈ txids -> txid ∈ (m.storeTxs (tx :: rest)).txstore := by
      intro txid htxid
      apply mem_writeRows.mpr
      right
      rw [List.map_map]
      exact ((hmem txid).mp htxid).right
    rcases exists_getPrevouts hstored with ⟨outpoints, hprevouts, houtpoints⟩
    rcases exists_lookupTxos store (m.storeTxs (tx :: rest)) outpoints with ⟨txos, htxos, hsame⟩
    have hfound : txids.filterMap (found? order txos (m.storeTxs (tx :: rest))) =
        txids.filterMap (found? order (available store (m.storeTxs (tx :: rest)))
          (m.storeTxs (tx :: rest))) := by
      apply List.filterMap_congr
      intro txid htxid
      rcases mem_iff_exists.mp (hstored txid htxid) with ⟨tx', htx'⟩
      rw [found?, found?, htx', Option.bind_some, Option.bind_some]
      rw [extractTxPrevouts_congr]
      intro txi htxi hprevout
      exact hsame _ (houtpoints txid tx' htxid htx' txi htxi hprevout)
    have hfold := foldlM_processTx cfg order txos (m.storeTxs (tx :: rest)) 0 hstored
    rw [hfound, Nat.zero_add] at hfold
    refine ⟨_, ?_, added_filterMap_found? store order hnodup hmem⟩
    exact bind_eq_ok.mpr ⟨outpoints, hprevouts, bind_eq_ok.mpr ⟨txos, htxos, hfold⟩⟩

theorem addByTxid_cases (cfg : Config) (store : Store) (order : HashOrder) (rpc : MempoolRpc)
    (m : Mempool) (txid : Txid) :
    (addByTxid cfg store order rpc m txid = .ok (m, .ok ()) ∧
      forall tx, txid ∉ m.txstore -> rpc.getmempooltx txid ≠ some tx) ∨
    exists tx records result, txid ∉ m.txstore ∧ rpc.getmempooltx txid = some tx ∧
      Added store m [tx] records ∧ addByTxid cfg store order rpc m txid =
        .ok (records.foldl (index cfg) (m.storeTxs [tx]), result) := by
  rw [addByTxid]
  by_cases hmem : txid ∈ m.txstore
  · rw [if_pos hmem]
    exact Or.inl ⟨rfl, fun tx hnew => absurd hmem hnew⟩
  · rw [if_neg hmem]
    cases hreply : rpc.getmempooltx txid with
    | none => exact Or.inl ⟨rfl, fun tx _ => nofun⟩
    | some tx =>
      rcases exists_added cfg store order m [tx] with ⟨records, hadd, hadded⟩
      cases records with
      | nil => exact Or.inr ⟨tx, _, _, hmem, rfl, hadded, bind_eq_ok.mpr ⟨_, hadd, rfl⟩⟩
      | cons r rest => exact Or.inr ⟨tx, _, _, hmem, rfl, hadded, bind_eq_ok.mpr ⟨_, hadd, rfl⟩⟩

end Add

/-!
## What a remove does
-/

def dropTxids (m : Mempool) (toRemove : List Txid) : Mempool :=
  { m with
    txstore := m.txstore.filter fun txid _ => txid ∉ toRemove
    feeinfo := m.feeinfo.filter fun txid _ => txid ∉ toRemove
    history := retain (fun entry => entry.getTxid ∉ toRemove) m.history
    edges := m.edges.filter fun _ edge => edge.1 ∉ toRemove }

section Remove

variable {m m' : Mempool} {toRemove : List Txid}

theorem getElem?_filter_key {V : Type} (t : Std.ExtTreeMap Txid V)
    (toRemove : List Txid) (txid : Txid) :
    (t.filter fun txid _ => txid ∉ toRemove)[txid]? =
      if txid ∈ toRemove then none else t[txid]? := by
  rw [Std.ExtTreeMap.getElem?_filter']
  cases ht : t[txid]? with
  | none => simp
  | some v => simp [Option.filter]

theorem filter_key_nil {V : Type} (t : Std.ExtTreeMap Txid V) :
    (t.filter fun txid _ => txid ∉ ([] : List Txid)) = t := by
  apply Std.ExtTreeMap.ext_getElem?
  intro txid
  rw [getElem?_filter_key, if_neg List.not_mem_nil]

theorem erase_filter_key {V : Type} (t : Std.ExtTreeMap Txid V)
    (toRemove : List Txid) (txid : Txid) :
    (t.erase txid).filter (fun txid _ => txid ∉ toRemove) =
      t.filter fun txid' _ => txid' ∉ txid :: toRemove := by
  apply Std.ExtTreeMap.ext_getElem?
  intro txid'
  rw [getElem?_filter_key, getElem?_filter_key]
  by_cases heq : txid' = txid
  · rw [heq, getElem?_erase_self]
    simp
  · rw [getElem?_erase_of_ne _ fun h => heq h.symm]
    simp [heq]

theorem foldlM_removeTx_eq_ok :
    toRemove.foldlM removeTx m = .ok m' <->
      toRemove.Nodup ∧ (forall txid, txid ∈ toRemove -> txid ∈ m.txstore) ∧
        m' = { m with
          txstore := m.txstore.filter fun txid _ => txid ∉ toRemove
          feeinfo := m.feeinfo.filter fun txid _ => txid ∉ toRemove } := by
  induction toRemove generalizing m with
  | nil =>
    rw [List.foldlM_nil, pure_eq_ok, filter_key_nil, filter_key_nil]
    simp [eq_comm]
  | cons txid rest ih =>
    rw [List.foldlM_cons, bind_eq_ok]
    constructor
    · intro h
      rcases h with ⟨m1, hm1, hrest⟩
      rcases bind_eq_ok.mp hm1 with ⟨_, hmem, heq⟩
      cases pure_eq_ok.mp heq
      rcases ih.mp hrest with ⟨hnodup, hstored, heq⟩
      refine ⟨List.nodup_cons.mpr ⟨?_, hnodup⟩, ?_, ?_⟩
      · intro htxid
        exact (mem_erase_iff.mp (hstored txid htxid)).left rfl
      · intro txid' htxid'
        rcases List.mem_cons.mp htxid' with htxid' | htxid'
        · rw [htxid']
          exact (ensure_eq_ok.mp hmem)
        · exact (mem_erase_iff.mp (hstored txid' htxid')).right
      · rw [heq, erase_filter_key, erase_filter_key]
    · intro h
      rcases h with ⟨hnodup, hstored, heq⟩
      rcases List.nodup_cons.mp hnodup with ⟨hnot, hnodup⟩
      refine ⟨_, bind_eq_ok.mpr ⟨(), ensure_of _ (hstored txid List.mem_cons_self), rfl⟩, ?_⟩
      refine ih.mpr ⟨hnodup, ?_, ?_⟩
      · intro txid' htxid'
        refine mem_erase_iff.mpr ⟨?_, hstored txid' (List.mem_cons_of_mem _ htxid')⟩
        intro hsame
        rw [hsame] at hnot
        exact hnot htxid'
      · rw [heq, erase_filter_key, erase_filter_key]

theorem remove_eq_ok :
    remove m toRemove = .ok m' <->
      toRemove.Nodup ∧ (forall txid, txid ∈ toRemove -> txid ∈ m.txstore) ∧
        m' = m.dropTxids toRemove := by
  constructor
  · intro h
    rcases bind_eq_ok.mp h with ⟨m1, hfold, heq⟩
    rcases foldlM_removeTx_eq_ok.mp hfold with ⟨hnodup, hstored, hm1⟩
    rw [hm1] at heq
    exact ⟨hnodup, hstored, (pure_eq_ok.mp heq).symm⟩
  · intro h
    rcases h with ⟨hnodup, hstored, heq⟩
    rw [heq]
    exact bind_eq_ok.mpr ⟨_, foldlM_removeTx_eq_ok.mpr ⟨hnodup, hstored, rfl⟩, rfl⟩

theorem getElem?_dropTxids_txstore (m : Mempool) (toRemove : List Txid) (txid : Txid) :
    (m.dropTxids toRemove).txstore[txid]? =
      if txid ∈ toRemove then none else m.txstore[txid]? :=
  getElem?_filter_key _ _ _

theorem getElem?_dropTxids_feeinfo (m : Mempool) (toRemove : List Txid) (txid : Txid) :
    (m.dropTxids toRemove).feeinfo[txid]? =
      if txid ∈ toRemove then none else m.feeinfo[txid]? :=
  getElem?_filter_key _ _ _

theorem getElem?_dropTxids_edges (m : Mempool) (toRemove : List Txid) (outpoint : OutPoint) :
    (m.dropTxids toRemove).edges[outpoint]? =
      m.edges[outpoint]?.filter fun edge => edge.1 ∉ toRemove :=
  Std.ExtTreeMap.getElem?_filter'

end Remove

end Mempool

end NewIndex
end Splora
