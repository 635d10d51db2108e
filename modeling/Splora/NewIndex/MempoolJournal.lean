import Splora.NewIndex.MempoolEffect

/-!
# The journal of the mempool

The transactions that were indexed and not removed since, in order and with the outputs that
were found, describe fees and history.  An edge belongs to the one indexed last.
-/

namespace Splora
namespace NewIndex

open Foundation

namespace Mempool

structure Indexes (cfg : Config) (m : Mempool) (journal : List IndexedTx) :
    Prop where
  feeinfo : forall (txid : Txid) (info : TxFeeInfo), m.feeinfo[txid]? = some info <->
      exists r, r ∈ journal ∧ r.txid = txid ∧ r.feeinfo = info
  history : HoldsBuckets m.history (journal.flatMap (IndexedTx.entries cfg))
  stored : forall r, r ∈ journal -> r.txid ∈ m.txstore
  nodup : (journal.map IndexedTx.txid).Nodup
  resolved : forall r, r ∈ journal -> exists txos, r.FoundIn txos
  edges : forall (outpoint : OutPoint) (edge : Txid × UInt32), m.edges[outpoint]? = some edge ->
      exists r, r ∈ journal ∧ (outpoint, edge) ∈ edgeRows r.tx

namespace Indexes

variable {cfg : Config} {store : Store} {m : Mempool} {txs : List Transaction}
  {journal records : List IndexedTx} {r : IndexedTx}

theorem new (cfg : Config) : Indexes cfg Mempool.new [] where
  feeinfo := by
    intro txid info
    simp [Mempool.new]
  history := HoldsBuckets.empty
  stored := by
    intro r hr
    cases hr
  nodup := List.nodup_nil
  resolved := by
    intro r hr
    cases hr
  edges := by
    intro outpoint edge h
    simp [Mempool.new] at h

section

variable (h : Indexes cfg m journal)

include h

theorem mem_feeinfo {txid : Txid} : txid ∈ m.feeinfo <-> exists r, r ∈ journal ∧ r.txid = txid := by
  constructor
  · intro hmem
    rcases mem_iff_exists.mp hmem with ⟨info, hinfo⟩
    rcases (h.feeinfo txid info).mp hinfo with ⟨r, hr, htxid, _⟩
    exact ⟨r, hr, htxid⟩
  · intro hmem
    rcases hmem with ⟨r, hr, htxid⟩
    exact mem_of_getElem? ((h.feeinfo txid r.feeinfo).mpr ⟨r, hr, htxid, rfl⟩)

theorem storeTxs (txs : List Transaction) : Indexes cfg (m.storeTxs txs) journal where
  feeinfo := h.feeinfo
  history := h.history
  stored := by
    intro r hr
    exact mem_writeRows.mpr (Or.inl (h.stored r hr))
  nodup := h.nodup
  resolved := h.resolved
  edges := h.edges

theorem index (hstored : r.txid ∈ m.txstore) (hnew : r.txid ∉ journal.map IndexedTx.txid)
    {txos : TxoMap} (hfound : r.FoundIn txos) : Indexes cfg (m.index cfg r) (journal ++ [r]) where
  feeinfo := by
    intro txid info
    have hget : (m.index cfg r).feeinfo[txid]? = (m.feeinfo.insert r.txid r.feeinfo)[txid]? := rfl
    simp only [List.mem_append, List.mem_singleton, or_and_right, exists_or, exists_eq_left]
    by_cases heq : r.txid = txid
    · rw [hget, heq, getElem?_insert_self, Option.some.injEq]
      constructor
      · intro hinfo
        exact Or.inr ⟨rfl, hinfo⟩
      · intro hsource
        rcases hsource with ⟨r', hr', htxid, _⟩ | ⟨_, hinfo⟩
        · rw [heq, ← htxid] at hnew
          exact absurd (List.mem_map_of_mem hr') hnew
        · exact hinfo
    · rw [hget, getElem?_insert_of_ne _ _ heq, h.feeinfo]
      simp [heq]
  history := by
    rw [List.flatMap_append, List.flatMap_singleton]
    exact h.history.foldl_push (r.entries cfg)
  stored := by
    intro r' hr'
    rcases List.mem_append.mp hr' with hr' | hr'
    · exact h.stored r' hr'
    · rw [List.mem_singleton.mp hr']
      exact hstored
  nodup := by
    rw [List.map_append, List.map_singleton, ← List.concat_eq_append]
    exact h.nodup.concat hnew
  resolved := by
    intro r' hr'
    rcases List.mem_append.mp hr' with hr' | hr'
    · exact h.resolved r' hr'
    · rw [List.mem_singleton.mp hr']
      exact ⟨txos, hfound⟩
  edges := by
    intro outpoint edge hedge
    rcases getElem?_writeRows_source hedge with hold | hnew
    · rcases h.edges outpoint edge hold with ⟨r', hr', hrow⟩
      exact ⟨r', List.mem_append_left _ hr', hrow⟩
    · exact ⟨r, List.mem_append_right _ (List.mem_singleton.mpr rfl), hnew⟩

theorem foldl_index (hstored : forall r, r ∈ records -> r.txid ∈ m.txstore)
    (hnodup : (records.map IndexedTx.txid).Nodup)
    (hnew : forall r, r ∈ records -> r.txid ∉ journal.map IndexedTx.txid) {txos : TxoMap}
    (hfound : forall r, r ∈ records -> r.FoundIn txos) :
    Indexes cfg (records.foldl (Mempool.index cfg) m) (journal ++ records) := by
  induction records generalizing m journal with
  | nil => simpa using h
  | cons r rest ih =>
    rcases List.nodup_cons.mp hnodup with ⟨hnot, hrest⟩
    have hr : r ∈ r :: rest := List.mem_cons_self
    have hnext := ih (h.index (hstored r hr) (hnew r hr) (hfound r hr))
      (fun r' hr' => hstored r' (List.mem_cons_of_mem _ hr')) hrest
      (by
        intro r' hr'
        rw [List.map_append, List.mem_append, not_or]
        refine ⟨hnew r' (List.mem_cons_of_mem _ hr'), ?_⟩
        intro hsame
        have heq : r'.txid = r.txid := by simpa using hsame
        exact hnot (heq ▸ List.mem_map_of_mem hr'))
      (fun r' hr' => hfound r' (List.mem_cons_of_mem _ hr'))
    rw [List.append_assoc] at hnext
    exact hnext

theorem add (hadded : Added store m txs records) :
    Indexes cfg (records.foldl (Mempool.index cfg) (m.storeTxs txs)) (journal ++ records) := by
  apply (h.storeTxs txs).foldl_index ?_ hadded.nodup ?_ hadded.found
  · intro r hr
    exact mem_of_getElem? (hadded.stored r hr)
  · intro r hr hold
    rcases List.mem_map.mp hold with ⟨r', hr', heq⟩
    apply hadded.new r hr
    rw [← heq]
    exact h.stored r' hr'

end

theorem flatMap_filter_entries (cfg : Config) (journal : List IndexedTx) (toRemove : List Txid) :
    (journal.filter fun r => r.txid ∉ toRemove).flatMap (IndexedTx.entries cfg) =
      (journal.flatMap (IndexedTx.entries cfg)).filter fun row => row.2.getTxid ∉ toRemove := by
  induction journal with
  | nil => rfl
  | cons r rest ih =>
    rw [List.flatMap_cons, List.filter_append, List.filter_cons]
    have hsame : forall row, row ∈ r.entries cfg ->
        decide (row.2.getTxid ∉ toRemove) = decide (r.txid ∉ toRemove) := by
      intro row hrow
      rw [IndexedTx.getTxid_of_mem_entries hrow]
    rw [List.filter_congr hsame]
    cases decide (r.txid ∉ toRemove) with
    | true => rw [if_pos rfl, List.flatMap_cons, List.filter_true, ih]
    | false =>
      rw [if_neg Bool.false_ne_true, List.filter_false, List.nil_append, ih]

section

variable (h : Indexes cfg m journal)

include h

theorem dropTxids (toRemove : List Txid) :
    Indexes cfg (m.dropTxids toRemove) (journal.filter fun r => r.txid ∉ toRemove) where
  feeinfo := by
    intro txid info
    rw [getElem?_dropTxids_feeinfo]
    by_cases hmem : txid ∈ toRemove
    · rw [if_pos hmem]
      constructor
      · intro hnone
        cases hnone
      · intro hsource
        rcases hsource with ⟨r, hr, htxid, _⟩
        have hnot := (List.mem_filter.mp hr).right
        rw [htxid] at hnot
        exact absurd hmem (of_decide_eq_true hnot)
    · rw [if_neg hmem, h.feeinfo]
      constructor
      · intro hsource
        rcases hsource with ⟨r, hr, htxid, hinfo⟩
        refine ⟨r, List.mem_filter.mpr ⟨hr, ?_⟩, htxid, hinfo⟩
        rw [htxid]
        exact decide_eq_true hmem
      · intro hsource
        rcases hsource with ⟨r, hr, htxid, hinfo⟩
        exact ⟨r, (List.mem_filter.mp hr).left, htxid, hinfo⟩
  history := by
    rw [flatMap_filter_entries]
    exact h.history.retain _
  stored := by
    intro r hr
    rcases List.mem_filter.mp hr with ⟨hr, hnot⟩
    rcases mem_iff_exists.mp (h.stored r hr) with ⟨tx, htx⟩
    apply mem_of_getElem? (v := tx)
    rw [getElem?_dropTxids_txstore, if_neg (of_decide_eq_true hnot), htx]
  nodup := (List.filter_sublist.map _).nodup h.nodup
  resolved := by
    intro r hr
    exact h.resolved r (List.mem_filter.mp hr).left
  edges := by
    intro outpoint edge hedge
    rw [getElem?_dropTxids_edges, Option.filter_eq_some_iff] at hedge
    rcases h.edges outpoint edge hedge.left with ⟨r, hr, hrow⟩
    refine ⟨r, List.mem_filter.mpr ⟨hr, ?_⟩, hrow⟩
    rcases mem_edgeRows.mp hrow with ⟨_, _, _, _, htxid⟩
    have hkept := hedge.right
    rw [htxid] at hkept
    exact hkept

theorem nodup_slots :
    ((journal.flatMap (IndexedTx.entries cfg)).map fun row => row.2.slot).Nodup := by
  rw [List.map_flatMap, List.nodup_flatMap]
  constructor
  · intro r hr
    rcases h.resolved r hr with ⟨txos, hfound⟩
    exact hfound.nodup_slots
  · apply (List.pairwise_map.mp h.nodup).imp
    intro r r' hne slot hslot hslot'
    rcases List.mem_map.mp hslot with ⟨row, hrow, heq⟩
    rcases List.mem_map.mp hslot' with ⟨row', hrow', heq'⟩
    apply hne
    rw [← IndexedTx.getTxid_of_mem_entries hrow,
      ← IndexedTx.getTxid_of_mem_entries hrow', ← TxHistoryInfo.slot_fst,
      ← TxHistoryInfo.slot_fst, heq, heq']

theorem getTxid_mem {scripthash : FullHash} {entry : TxHistoryInfo}
    (hentry : entry ∈ m.history[scripthash]?.getD []) : entry.getTxid ∈ m.txstore := by
  rcases List.mem_flatMap.mp (h.history.mem_iff.mp hentry) with ⟨r, hr, hrow⟩
  rw [IndexedTx.getTxid_of_mem_entries hrow]
  exact h.stored r hr

theorem eq_of_slot_eq {scripthash scripthash' : FullHash} {entry entry' : TxHistoryInfo}
    (hentry : entry ∈ m.history[scripthash]?.getD [])
    (hentry' : entry' ∈ m.history[scripthash']?.getD []) (hslot : entry.slot = entry'.slot) :
    scripthash = scripthash' ∧ entry = entry' := by
  have heq := List.inj_on_of_nodup_map h.nodup_slots
    (h.history.mem_iff.mp hentry) (h.history.mem_iff.mp hentry') hslot
  exact Prod.mk.inj heq

theorem nodup_bucket (scripthash : FullHash) :
    ((m.history[scripthash]?.getD []).map TxHistoryInfo.slot).Nodup := by
  rw [h.history.getD_eq, bucket, List.map_map]
  exact (List.filter_sublist.map _).nodup h.nodup_slots

end

end Indexes

/-!
## Commitments
-/

end Mempool

structure TxCommitments where
  input : Txid -> List TxIn
  output : Txid -> List TxOut

namespace TxCommitments

def Has (L : TxCommitments) (tx : Transaction) : Prop :=
  tx.input = L.input tx.txid ∧ tx.output = L.output tx.txid

def txo (L : TxCommitments) : TxoMap := fun outpoint =>
  (L.output outpoint.txid)[outpoint.vout.toNat]?

end TxCommitments

namespace Mempool

structure Committed (L : TxCommitments) (m : Mempool)
    (journal : List IndexedTx) : Prop where
  txstore : forall (txid : Txid) (tx : Transaction),
    m.txstore[txid]? = some tx -> tx.txid = txid ∧ L.Has tx
  journal : forall r, r ∈ journal -> L.Has r.tx

namespace Committed

variable {L : TxCommitments} {cfg : Config} {store : Store} {m : Mempool}
  {txs : List Transaction} {journal records : List IndexedTx}

theorem new (L : TxCommitments) : Committed L Mempool.new [] where
  txstore := by
    intro txid tx h
    simp [Mempool.new] at h
  journal := by
    intro r hr
    cases hr

theorem storeTxs_txstore (h : Committed L m journal)
    (htxs : forall tx, tx ∈ txs -> L.Has tx) (txid : Txid) (tx : Transaction)
    (htx : (m.storeTxs txs).txstore[txid]? = some tx) :
    tx.txid = txid ∧ L.Has tx := by
  rcases storeTxs_source htx with hold | ⟨hmem, htxid⟩
  · exact h.txstore txid tx hold
  · exact ⟨htxid, htxs tx hmem⟩

theorem add (h : Committed L m journal) (htxs : forall tx, tx ∈ txs -> L.Has tx)
    (hadded : Added store m txs records) :
    Committed L (records.foldl (index cfg) (m.storeTxs txs)) (journal ++ records) where
  txstore := by
    intro txid tx htx
    rw [foldl_index_txstore] at htx
    exact h.storeTxs_txstore htxs txid tx htx
  journal := by
    intro r hr
    rcases List.mem_append.mp hr with hr | hr
    · exact h.journal r hr
    · exact (h.storeTxs_txstore htxs _ _ (hadded.stored r hr)).right

theorem dropTxids (h : Committed L m journal) (toRemove : List Txid) :
    Committed L (m.dropTxids toRemove) (journal.filter fun r => r.txid ∉ toRemove) where
  txstore := by
    intro txid tx htx
    rw [getElem?_dropTxids_txstore] at htx
    by_cases hmem : txid ∈ toRemove
    · rw [if_pos hmem] at htx
      cases htx
    · rw [if_neg hmem] at htx
      exact h.txstore txid tx htx
  journal := by
    intro r hr
    exact h.journal r (List.mem_filter.mp hr).left

theorem input_eq (h : Committed L m journal) {r : IndexedTx} (hr : r ∈ journal) {tx : Transaction}
    (htx : m.txstore[r.txid]? = some tx) : tx.input = r.tx.input := by
  rcases h.txstore r.txid tx htx with ⟨htxid, htxhas⟩
  rw [htxhas.left, htxid]
  exact (h.journal r hr).left.symm

end Committed

/-!
## Readers
-/

section Readers

variable {cfg : Config} {m : Mempool} {journal : List IndexedTx}

theorem mem_of_mem_afterLastSeen {lastSeenTxid : Option Txid} {txids : List Txid} {txid : Txid}
    (h : txid ∈ afterLastSeen lastSeenTxid txids) : txid ∈ txids := by
  cases lastSeenTxid with
  | none => exact h
  | some lastSeen =>
    exact (List.dropWhile_suffix _).subset (List.mem_of_mem_drop h)

theorem exists_historyTxs {entries : List TxHistoryInfo}
    (h : forall entry, entry ∈ entries -> entry.getTxid ∈ m.txstore)
    (lastSeenTxid : Option Txid) (limit : Nat) :
    exists txs, historyTxs m entries lastSeenTxid limit = .ok txs := by
  apply mapM_ok_of_forall
  intro txid htxid
  have hmem := mem_of_mem_afterLastSeen (List.mem_of_mem_take htxid)
  rcases List.mem_map.mp (List.mem_eraseDups.mp hmem) with ⟨entry, hentry, heq⟩
  have hstored := h entry hentry
  rw [heq] at hstored
  rcases mem_iff_exists.mp hstored with ⟨tx, htx⟩
  exact ⟨tx, expect_eq_ok.mpr htx⟩

theorem Indexes.exists_historyOf (h : Indexes cfg m journal)
    (scripthash : FullHash) (lastSeenTxid : Option Txid) (limit : Nat) :
    exists txs, historyOf m scripthash lastSeenTxid limit = .ok txs := by
  unfold historyOf
  cases hentries : m.history[scripthash]? with
  | none => exact ⟨[], rfl⟩
  | some entries =>
    apply exists_historyTxs
    intro entry hentry
    have hmem : entry ∈ m.history[scripthash]?.getD [] := by
      rw [hentries]
      exact hentry
    exact h.getTxid_mem hmem

theorem Indexes.exists_historyGroup (h : Indexes cfg m journal)
    (scripthashes : List FullHash) (lastSeenTxid : Option Txid) (limit : Nat) :
    exists txs, historyGroup m scripthashes lastSeenTxid limit = .ok txs := by
  apply exists_historyTxs
  intro entry hentry
  rcases List.mem_flatten.mp hentry with ⟨entries, hentries, hmem⟩
  rcases List.mem_filterMap.mp hentries with ⟨scripthash, _, hget⟩
  have hstored : entry ∈ m.history[scripthash]?.getD [] := by
    rw [hget]
    exact hmem
  exact h.getTxid_mem hstored

end Readers

end Mempool

end NewIndex
end Splora
