import Splora.NewIndex.MempoolUpdater

/-!
# Sequences of calls

The index is complete after every call exactly if every new transaction finds its previous
outputs and spends none that another one spends: one that misses a parent is stored but never
indexed later.
-/

namespace Splora
namespace NewIndex

open Foundation

namespace Mempool

/-!
## Adding and removing the same transactions
-/

structure Batch where
  store : Store
  order : HashOrder
  txs : List Transaction

def addBatches (cfg : Config) (m : Mempool) (batches : List Batch) :
    Except Abort Mempool :=
  batches.foldlM (fun m batch => do
    let (m, _) <- add cfg batch.store batch.order m batch.txs
    return m) m

structure Consistent (m : Mempool) : Prop where
  feeinfo : forall txid, txid ∈ m.feeinfo -> txid ∈ m.txstore
  history : forall (scripthash : FullHash) (entry : TxHistoryInfo),
    entry ∈ m.history[scripthash]?.getD [] -> entry.getTxid ∈ m.txstore
  no_empty_list : NoEmptyList m.history
  edges : forall (outpoint : OutPoint) (edge : Txid × UInt32),
    m.edges[outpoint]? = some edge -> edge.1 ∈ m.txstore

theorem Indexes.consistent {cfg : Config} {m : Mempool}
    {journal : List IndexedTx} (h : Indexes cfg m journal) : Consistent m where
  feeinfo := by
    intro txid hfee
    rcases h.mem_feeinfo.mp hfee with ⟨r, hr, htxid⟩
    rw [← htxid]
    exact h.stored r hr
  history := fun _ _ hentry => h.getTxid_mem hentry
  no_empty_list := h.history.noEmptyList
  edges := by
    intro outpoint edge hedge
    rcases h.edges outpoint edge hedge with ⟨r, hr, hrow⟩
    rcases mem_edgeRows.mp hrow with ⟨_, _, _, _, heq⟩
    rw [heq]
    exact h.stored r hr

structure Extends (m m' : Mempool) (added : List Transaction) : Prop where
  stored : forall tx, tx ∈ added -> tx.txid ∈ m'.txstore
  txstore : forall txid, txid ∉ added.map Transaction.txid -> m'.txstore[txid]? = m.txstore[txid]?
  feeinfo : forall txid, txid ∉ added.map Transaction.txid -> m'.feeinfo[txid]? = m.feeinfo[txid]?
  history : exists rows : List (FullHash × TxHistoryInfo), m'.history = rows.foldl push m.history ∧
    forall row, row ∈ rows -> row.2.getTxid ∈ added.map Transaction.txid
  edges : exists rows : List (OutPoint × (Txid × UInt32)), m'.edges = writeRows m.edges rows ∧
    forall row, row ∈ rows -> exists tx, tx ∈ added ∧ row ∈ edgeRows tx

section Frame

variable {cfg : Config} {store : Store} {m m' : Mempool}
  {added txs : List Transaction} {records : List IndexedTx}

theorem Extends.refl (m : Mempool) : Extends m m [] where
  stored := by
    intro tx h
    cases h
  txstore := fun _ _ => rfl
  feeinfo := fun _ _ => rfl
  history := ⟨[], rfl, fun _ h => absurd h List.not_mem_nil⟩
  edges := ⟨[], rfl, fun _ h => absurd h List.not_mem_nil⟩

theorem Extends.add (h : Extends m m' added) (hadded : Added store m' txs records) :
    Extends m (records.foldl (index cfg) (m'.storeTxs txs)) (added ++ txs) where
  stored := by
    intro tx htx
    rw [foldl_index_txstore]
    apply mem_writeRows.mpr
    rcases List.mem_append.mp htx with htx | htx
    · exact Or.inl (h.stored tx htx)
    · right
      rw [List.map_map]
      exact List.mem_map.mpr ⟨tx, htx, rfl⟩
  txstore := by
    intro txid htxid
    rw [List.map_append, List.mem_append, not_or] at htxid
    rw [foldl_index_txstore, storeTxs, getElem?_writeRows_of_not_mem, h.txstore txid htxid.left]
    rw [List.map_map]
    exact htxid.right
  feeinfo := by
    intro txid htxid
    rw [List.map_append, List.mem_append, not_or] at htxid
    rw [foldl_index_feeinfo, getElem?_writeRows_of_not_mem]
    · exact h.feeinfo txid htxid.left
    · rw [List.map_map]
      intro hmem
      rcases List.mem_map.mp hmem with ⟨r, hr, heq⟩
      apply htxid.right
      exact List.mem_map.mpr ⟨r.tx, hadded.mem hr, heq⟩
  history := by
    rcases h.history with ⟨rows, hhistory, hrows⟩
    refine ⟨rows ++ records.flatMap (IndexedTx.entries cfg), ?_, ?_⟩
    · rw [foldl_index_history, List.foldl_append, ← hhistory]
      rfl
    · intro row hrow
      rw [List.map_append, List.mem_append]
      rcases List.mem_append.mp hrow with hrow | hrow
      · exact Or.inl (hrows row hrow)
      · rcases List.mem_flatMap.mp hrow with ⟨r, hr, hrow⟩
        right
        rw [IndexedTx.getTxid_of_mem_entries hrow]
        exact List.mem_map.mpr ⟨r.tx, hadded.mem hr, rfl⟩
  edges := by
    rcases h.edges with ⟨rows, hedges, hrows⟩
    refine ⟨rows ++ records.flatMap fun r => edgeRows r.tx, ?_, ?_⟩
    · rw [foldl_index_edges, writeRows, writeRows, List.foldl_append]
      change _ = List.foldl _ (writeRows m.edges rows) _
      rw [← hedges]
      rfl
    · intro row hrow
      rcases List.mem_append.mp hrow with hrow | hrow
      · rcases hrows row hrow with ⟨tx, htx, hmem⟩
        exact ⟨tx, List.mem_append_left _ htx, hmem⟩
      · rcases List.mem_flatMap.mp hrow with ⟨r, hr, hmem⟩
        exact ⟨r.tx, List.mem_append_right _ (hadded.mem hr), hmem⟩

theorem exists_addBatches (cfg : Config) (h : Extends m m' added) (batches : List Batch) :
    exists m'', addBatches cfg m' batches = .ok m'' ∧
      Extends m m'' (added ++ batches.flatMap Batch.txs) := by
  induction batches generalizing m' added with
  | nil => exact ⟨m', rfl, by simpa using h⟩
  | cons batch rest ih =>
    rcases exists_added cfg batch.store batch.order m' batch.txs with ⟨records, hadd, hadded⟩
    rcases ih (h.add hadded) with ⟨m'', hrest, hextends⟩
    refine ⟨m'', ?_, ?_⟩
    · rw [addBatches, List.foldlM_cons, hadd]
      exact hrest
    · rw [List.flatMap_cons, ← List.append_assoc]
      exact hextends

theorem Extends.dropTxids_eq (h : Extends m m' added) (hm : Consistent m)
    (hnew : forall tx, tx ∈ added -> tx.txid ∉ m.txstore)
    (hunspent : forall tx, tx ∈ added -> forall txi, txi ∈ tx.input -> txi.previousOutput ∉ m.edges)
    {txids : List Txid}
    (htxids : forall txid, txid ∈ txids <-> txid ∈ added.map Transaction.txid) :
    (m'.dropTxids txids).txstore = m.txstore ∧ (m'.dropTxids txids).feeinfo = m.feeinfo ∧
      (m'.dropTxids txids).history = m.history ∧
      (m'.dropTxids txids).edges = m.edges := by
  have hnot : forall txid, txid ∈ txids -> txid ∉ m.txstore := by
    intro txid htxid
    rcases List.mem_map.mp ((htxids txid).mp htxid) with ⟨tx, htx, heq⟩
    rw [← heq]
    exact hnew tx htx
  refine ⟨?_, ?_, ?_, ?_⟩
  · apply Std.ExtTreeMap.ext_getElem?
    intro txid
    rw [getElem?_dropTxids_txstore]
    by_cases htxid : txid ∈ txids
    · rw [if_pos htxid, not_mem_iff.mp (hnot txid htxid)]
    · rw [if_neg htxid, h.txstore txid fun hmem => htxid ((htxids txid).mpr hmem)]
  · apply Std.ExtTreeMap.ext_getElem?
    intro txid
    rw [getElem?_dropTxids_feeinfo]
    by_cases htxid : txid ∈ txids
    · rw [if_pos htxid, not_mem_iff.mp fun hfee => hnot txid htxid (hm.feeinfo txid hfee)]
    · rw [if_neg htxid, h.feeinfo txid fun hmem => htxid ((htxids txid).mpr hmem)]
  · rcases h.history with ⟨rows, hhistory, hrows⟩
    change retain _ m'.history = m.history
    rw [hhistory]
    apply retain_foldl_push hm.no_empty_list
    · intro scripthash entry hentry
      apply decide_eq_true
      intro htxid
      exact hnot _ htxid (hm.history scripthash entry hentry)
    · intro row hrow
      apply decide_eq_false
      intro hkept
      exact hkept ((htxids _).mpr (hrows row hrow))
  · rcases h.edges with ⟨rows, hedges, hrows⟩
    apply Std.ExtTreeMap.ext_getElem?
    intro outpoint
    rw [getElem?_dropTxids_edges, hedges]
    by_cases hkey : outpoint ∈ rows.map Prod.fst
    · -- the output is spent by an added transaction only
      have hnone : m.edges[outpoint]? = none := by
        rcases List.mem_map.mp hkey with ⟨row, hrow, hfst⟩
        rcases hrows row hrow with ⟨tx, htx, hmem⟩
        rcases mem_edgeRows.mp hmem with ⟨i, txi, htxi, hsame, _⟩
        rw [← hfst, ← hsame]
        exact not_mem_iff.mp (hunspent tx htx txi (List.mem_of_getElem? htxi))
      rw [hnone, Option.filter_eq_none_iff]
      intro edge hedge
      rcases getElem?_writeRows_source hedge with hold | hrow
      · rw [hnone] at hold
        cases hold
      · rcases hrows _ hrow with ⟨tx, htx, hmem⟩
        rcases mem_edgeRows.mp hmem with ⟨_, _, _, _, heq⟩
        rw [decide_eq_true_iff, not_not, heq]
        exact (htxids _).mpr (List.mem_map.mpr ⟨tx, htx, rfl⟩)
    · rw [getElem?_writeRows_of_not_mem _ hkey]
      cases hedge : m.edges[outpoint]? with
      | none => rfl
      | some edge =>
        apply Option.filter_eq_some_iff.mpr
        refine ⟨rfl, decide_eq_true ?_⟩
        intro htxid
        exact hnot _ htxid (hm.edges outpoint edge hedge)

/-- Transactions added in any order and any split into calls, and then removed, leave no trace. -/
theorem add_remove_frame (cfg : Config) (hm : Consistent m) {batches : List Batch}
    (hnew : forall tx, tx ∈ batches.flatMap Batch.txs -> tx.txid ∉ m.txstore)
    (hunspent : forall tx, tx ∈ batches.flatMap Batch.txs ->
      forall txi, txi ∈ tx.input -> txi.previousOutput ∉ m.edges)
    {txids : List Txid} (hnodup : txids.Nodup)
    (htxids : forall txid, txid ∈ txids <->
      txid ∈ (batches.flatMap Batch.txs).map Transaction.txid) :
    exists m' m'', addBatches cfg m batches = .ok m' ∧
      remove m' txids = .ok m'' ∧ m''.txstore = m.txstore ∧
      m''.feeinfo = m.feeinfo ∧ m''.history = m.history ∧
      m''.edges = m.edges := by
  rcases exists_addBatches cfg (Extends.refl m) batches with ⟨m', hadd, hextends⟩
  rw [List.nil_append] at hextends
  have hstored : forall txid, txid ∈ txids -> txid ∈ m'.txstore := by
    intro txid htxid
    rcases List.mem_map.mp ((htxids txid).mp htxid) with ⟨tx, htx, heq⟩
    rw [← heq]
    exact hextends.stored tx htx
  exact ⟨m', _, hadd, remove_eq_ok.mpr ⟨hnodup, hstored, rfl⟩,
    hextends.dropTxids_eq hm hnew hunspent htxids⟩

end Frame

/-!
## Completeness
-/

/-- One history entry is in the place of the given one: this entry, under the given script. -/
def OneEntry (m : Mempool) (scripthash : FullHash) (entry : TxHistoryInfo) :
    Prop :=
  forall scripthash' : FullHash,
    ((m.history[scripthash']?.getD []).filter fun e => e.slot = entry.slot) =
      if scripthash' = scripthash then [entry] else []

structure TxComplete (L : TxCommitments) (cfg : Config) (m : Mempool)
    (tx : Transaction) : Prop where
  feeinfo : tx.txid ∈ m.feeinfo
  funding : forall (i : Nat) (txo : TxOut), tx.output[i]? = some txo ->
    cfg.isSpendable txo = true ->
    OneEntry m (cfg.computeScriptHash txo.scriptPubkey) (.funding {
      txid := tx.txid
      vout := i.toUInt32
      value := txo.value })
  spending : forall (i : Nat) (txi : TxIn), tx.input[i]? = some txi -> hasPrevout txi = true ->
    exists txo, L.txo txi.previousOutput = some txo ∧
      OneEntry m (cfg.computeScriptHash txo.scriptPubkey) (.spending {
        txid := tx.txid
        vin := i.toUInt32
        prevTxid := txi.previousOutput.txid
        prevVout := txi.previousOutput.vout
        value := txo.value }) ∧
      m.edges[txi.previousOutput]? = some (tx.txid, i.toUInt32)

def Complete (L : TxCommitments) (cfg : Config) (m : Mempool) : Prop :=
  forall (txid : Txid) (tx : Transaction), m.txstore[txid]? = some tx -> TxComplete L cfg m tx

def Honest (L : TxCommitments) (store : Store) : Prop :=
  forall outpoint txo, lookupTxo store.disk.txstore outpoint = some txo -> L.txo outpoint = some txo

structure Known (L : TxCommitments) (cfg : Config) (m : Mempool)
    (journal : List IndexedTx) : Prop where
  indexes : Indexes cfg m journal
  committed : Committed L m journal
  found : forall r, r ∈ journal -> r.FoundIn L.txo

section Complete

variable {L : TxCommitments} {cfg : Config} {store : Store} {m : Mempool}
  {txs : List Transaction} {journal records : List IndexedTx}

theorem Indexes.oneEntry (h : Indexes cfg m journal) {scripthash : FullHash}
    {entry : TxHistoryInfo} {r : IndexedTx} (hr : r ∈ journal)
    (hentry : (scripthash, entry) ∈ r.entries cfg) :
    OneEntry m scripthash entry := by
  intro scripthash'
  have hmem : (scripthash, entry) ∈ journal.flatMap (IndexedTx.entries cfg) :=
    List.mem_flatMap.mpr ⟨r, hr, hentry⟩
  have hone := filter_eq_singleton h.nodup_slots hmem
  rw [h.history.getD_eq, ← bucket_filter, hone]
  by_cases heq : scripthash' = scripthash
  · rw [if_pos heq, heq]
    simp [bucket]
  · rw [if_neg heq]
    have hne : scripthash ≠ scripthash' := fun h => heq h.symm
    simp [bucket, hne]

theorem known_new (L : TxCommitments) (cfg : Config) :
    Known L cfg Mempool.new [] where
  indexes := Indexes.new cfg
  committed := Committed.new L
  found := by
    intro r hr
    cases hr

theorem Known.dropTxids (h : Known L cfg m journal) (toRemove : List Txid) :
    Known L cfg (m.dropTxids toRemove) (journal.filter fun r => r.txid ∉ toRemove) where
  indexes := h.indexes.dropTxids toRemove
  committed := h.committed.dropTxids toRemove
  found := by
    intro r hr
    exact h.found r (List.mem_filter.mp hr).left

theorem Committed.txo_of_available (h : Committed L m journal)
    (htxs : forall tx, tx ∈ txs -> L.Has tx) (hstore : Honest L store)
    {outpoint : OutPoint} {txo : TxOut}
    (htxo : available store (m.storeTxs txs) outpoint = some txo) :
    L.txo outpoint = some txo := by
  rcases Option.or_eq_some_iff.mp htxo with hconfirmed | ⟨_, hmempool⟩
  · exact hstore outpoint txo hconfirmed
  · rcases Option.bind_eq_some_iff.mp hmempool with ⟨tx, htx, hout⟩
    rcases h.storeTxs_txstore htxs _ tx htx with ⟨htxid, hhas⟩
    rw [TxCommitments.txo, ← htxid, ← hhas.right]
    exact hout

theorem Known.add (h : Known L cfg m journal)
    (htxs : forall tx, tx ∈ txs -> L.Has tx) (hstore : Honest L store)
    (hadded : Added store m txs records) :
    Known L cfg (records.foldl (index cfg) (m.storeTxs txs)) (journal ++ records) where
  indexes := h.indexes.add hadded
  committed := h.committed.add htxs hadded
  found := by
    intro r hr
    rcases List.mem_append.mp hr with hr | hr
    · exact h.found r hr
    · rcases hadded.found r hr with ⟨prevouts, hextract, hperm⟩
      refine ⟨prevouts, ?_, hperm⟩
      rw [← hextract]
      apply extractTxPrevouts_congr
      intro txi htxi hprevout
      rcases exists_extractTxPrevouts_iff.mp ⟨prevouts, hextract⟩ txi htxi hprevout with ⟨txo, htxo⟩
      rw [htxo]
      exact h.committed.txo_of_available htxs hstore htxo

def OwnEdges (m : Mempool) (journal : List IndexedTx) : Prop :=
  forall r, r ∈ journal -> forall (i : Nat) (txi : TxIn),
    r.tx.input[i]? = some txi -> hasPrevout txi = true ->
      m.edges[txi.previousOutput]? = some (r.txid, i.toUInt32)

theorem Known.complete_iff (h : Known L cfg m journal) :
    Complete L cfg m <->
      (forall txid, txid ∈ m.txstore -> txid ∈ m.feeinfo) ∧
        OwnEdges m journal := by
  constructor
  · intro hcomplete
    refine ⟨?_, ?_⟩
    · intro txid htxid
      rcases mem_iff_exists.mp htxid with ⟨tx, htx⟩
      rw [← (h.committed.txstore txid tx htx).left]
      exact (hcomplete txid tx htx).feeinfo
    · intro r hr i txi htxi hprevout
      rcases mem_iff_exists.mp (h.indexes.stored r hr) with ⟨tx, htx⟩
      rw [← h.committed.input_eq hr htx] at htxi
      rcases (hcomplete r.txid tx htx).spending i txi htxi hprevout with ⟨txo, _, _, hedge⟩
      rw [hedge, (h.committed.txstore _ tx htx).left]
  · intro hparts txid tx htx
    rcases hparts with ⟨hfees, hedges⟩
    have hfee := hfees txid (mem_of_getElem? htx)
    rcases h.indexes.mem_feeinfo.mp hfee with ⟨r, hr, hrtxid⟩
    have htxid := (h.committed.txstore txid tx htx).left
    have hinput : tx.input = r.tx.input := by
      rw [← hrtxid] at htx
      exact h.committed.input_eq hr htx
    have houtput : tx.output = r.tx.output := by
      rw [(h.committed.txstore txid tx htx).right.right,
        (h.committed.journal r hr).right, htxid, ← hrtxid]
      rfl
    have hsame : tx.txid = r.tx.txid := htxid.trans hrtxid.symm
    exact {
      feeinfo := by
        rw [htxid]
        exact hfee
      funding := by
        intro i txo htxo hspendable
        apply h.indexes.oneEntry hr
        apply List.mem_append_left
        rw [houtput] at htxo
        refine IndexedTx.mem_fundingEntries.mpr ⟨i, txo, htxo, ?_, ?_⟩
        · rw [IndexerConfig.isIndexed, hspendable, Bool.true_or]
        · rw [hsame]
      spending := by
        intro i txi htxi hprevout
        rw [hinput] at htxi
        rcases h.found r hr with ⟨prevouts, hextract, hperm⟩
        rcases exists_extractTxPrevouts_iff.mp ⟨prevouts, hextract⟩ txi
          (List.mem_of_getElem? htxi) hprevout with ⟨txo, htxo⟩
        refine ⟨txo, htxo, ?_, ?_⟩
        · apply h.indexes.oneEntry hr
          apply List.mem_append_right
          refine (h.found r hr).mem_spendings.mpr ⟨i, txi, txo, htxi, hprevout, htxo, ?_⟩
          rw [spendingEntry, hsame]
        · rw [hedges r hr i txi htxi hprevout, hsame]
          rfl }

theorem Known.complete_dropTxids (h : Known L cfg m journal)
    (hcomplete : Complete L cfg m) (toRemove : List Txid) :
    Complete L cfg (m.dropTxids toRemove) := by
  rcases h.complete_iff.mp hcomplete with ⟨hfees, hedges⟩
  apply (h.dropTxids toRemove).complete_iff.mpr
  refine ⟨?_, ?_⟩
  · intro txid htxid
    rcases mem_iff_exists.mp htxid with ⟨tx, htx⟩
    rw [getElem?_dropTxids_txstore] at htx
    by_cases hmem : txid ∈ toRemove
    · rw [if_pos hmem] at htx
      cases htx
    · rw [if_neg hmem] at htx
      rcases mem_iff_exists.mp (hfees txid (mem_of_getElem? htx)) with ⟨info, hinfo⟩
      apply mem_of_getElem? (v := info)
      rw [getElem?_dropTxids_feeinfo, if_neg hmem, hinfo]
  · intro r hr i txi htxi hprevout
    rcases List.mem_filter.mp hr with ⟨hr, hstays⟩
    rw [getElem?_dropTxids_edges, hedges r hr i txi htxi hprevout]
    exact Option.filter_eq_some_iff.mpr ⟨rfl, hstays⟩

def SpendsAlone (m : Mempool) (tx : Transaction) : Prop :=
  forall (i : Nat) (txi : TxIn), tx.input[i]? = some txi -> hasPrevout txi = true ->
    forall (txid' : Txid) (tx' : Transaction), m.txstore[txid']? = some tx' ->
      forall (j : Nat) (txi' : TxIn), tx'.input[j]? = some txi' ->
        txi'.previousOutput = txi.previousOutput -> txid' = tx.txid ∧ j = i

/--
Every new transaction finds its previous outputs and spends no output that another
input spends.
-/
def CleanAdd (store : Store) (m : Mempool) (txs : List Transaction) : Prop :=
  forall tx, tx ∈ txs -> tx.txid ∉ m.txstore -> Resolvable (available store (m.storeTxs txs)) tx ∧
      SpendsAlone (m.storeTxs txs) tx

theorem Known.ownEdges_add (h : Known L cfg m journal)
    (hedges : OwnEdges m journal) (htxs : forall tx, tx ∈ txs -> L.Has tx)
    (hstore : Honest L store) (hadded : Added store m txs records)
    (hclean : CleanAdd store m txs) :
    OwnEdges (records.foldl (index cfg) (m.storeTxs txs)) (journal ++ records) := by
  have hknown := h.add htxs hstore hadded
  -- an input of a new transaction shares its output with no other input
  have halone : forall r r', r ∈ journal ++ records -> r' ∈ records ->
      forall (i j : Nat) (txi txi' : TxIn), r.tx.input[i]? = some txi ->
        r'.tx.input[j]? = some txi' -> hasPrevout txi' = true ->
        txi.previousOutput = txi'.previousOutput ->
        r.txid = r'.txid ∧ i = j := by
    intro r r' hr hr' i j txi txi' htxi htxi' hprevout hsame
    rcases mem_iff_exists.mp (hknown.indexes.stored r hr) with ⟨tx, htx⟩
    rw [← hknown.committed.input_eq hr htx] at htxi
    rw [foldl_index_txstore] at htx
    exact (hclean r'.tx (hadded.mem hr') (hadded.new r' hr')).right j txi'
      htxi' hprevout r.txid tx htx i txi htxi hsame
  intro r hr i txi htxi hprevout
  have hmem : txi.previousOutput ∈ (records.foldl (index cfg) (m.storeTxs txs)).edges := by
    rw [foldl_index_edges]
    apply mem_writeRows.mpr
    rcases List.mem_append.mp hr with hr | hr
    · exact Or.inl (mem_of_getElem? (hedges r hr i txi htxi hprevout))
    · right
      have hrow : (txi.previousOutput, (r.tx.txid, i.toUInt32)) ∈
          records.flatMap fun r => edgeRows r.tx :=
        List.mem_flatMap.mpr ⟨r, hr, mem_edgeRows.mpr ⟨i, txi, htxi, rfl, rfl⟩⟩
      exact List.mem_map_of_mem hrow
  rcases mem_iff_exists.mp hmem with ⟨edge, hedge⟩
  rw [hedge]
  rw [foldl_index_edges] at hedge
  rcases getElem?_writeRows_source hedge with hold | hnew
  · change m.edges[txi.previousOutput]? = some edge at hold
    rcases List.mem_append.mp hr with hr | hr
    · rw [← hold]
      exact hedges r hr i txi htxi hprevout
    · rcases h.indexes.edges _ edge hold with ⟨r', hr', hrow⟩
      rcases mem_edgeRows.mp hrow with ⟨j, txi', htxi', hsame, _⟩
      rcases halone r' r (List.mem_append_left _ hr') hr j i txi' txi htxi'
        htxi hprevout hsame with ⟨htxid, _⟩
      exact absurd (htxid ▸ h.indexes.stored r' hr') (hadded.new r hr)
  · rcases List.mem_flatMap.mp hnew with ⟨r', hr', hrow⟩
    rcases mem_edgeRows.mp hrow with ⟨j, txi', htxi', hsame, heq⟩
    have hprevout' : hasPrevout txi' = true := by
      rw [hasPrevout, hsame]
      exact hprevout
    rcases halone r r' hr hr' i j txi txi' htxi htxi' hprevout' hsame.symm with ⟨htxid, hindex⟩
    rw [heq, htxid, hindex]
    rfl

theorem Known.complete_add_iff (h : Known L cfg m journal)
    (hcomplete : Complete L cfg m) (htxs : forall tx, tx ∈ txs -> L.Has tx)
    (hstore : Honest L store) (hadded : Added store m txs records) :
    Complete L cfg (records.foldl (index cfg) (m.storeTxs txs)) <->
      CleanAdd store m txs := by
  have hknown := h.add htxs hstore hadded
  rcases h.complete_iff.mp hcomplete with ⟨hfees, hedges⟩
  constructor
  · intro hafter tx htx hnew
    have hstored : tx.txid ∈ (m.storeTxs txs).txstore := by
      apply mem_writeRows.mpr
      right
      rw [List.map_map]
      exact List.mem_map.mpr ⟨tx, htx, rfl⟩
    have hafterfees := (hknown.complete_iff.mp hafter).left
    rw [foldl_index_txstore] at hafterfees
    rcases hknown.indexes.mem_feeinfo.mp (hafterfees tx.txid hstored) with ⟨r, hr, htxid⟩
    have hinput : tx.input = r.tx.input := by
      rw [(htxs tx htx).left, (hknown.committed.journal r hr).left, ← htxid]
      rfl
    refine ⟨?_, ?_⟩
    · rcases List.mem_append.mp hr with hr | hr
      · rw [← htxid] at hnew
        exact absurd (h.indexes.stored r hr) hnew
      · rcases hadded.found r hr with ⟨prevouts, hextract, _⟩
        intro txi htxi
        rw [hinput] at htxi
        exact exists_extractTxPrevouts_iff.mp ⟨prevouts, hextract⟩ txi htxi
    · intro i txi htxi hprevout txid' tx' htx' j txi' htxi' hsame
      rw [hinput] at htxi
      have hedge := (hknown.complete_iff.mp hafter).right r hr i txi htxi hprevout
      have hprevout' : hasPrevout txi' = true := by
        rw [hasPrevout, hsame]
        exact hprevout
      have htxid' := (h.committed.storeTxs_txstore htxs txid' tx' htx').left
      have hkept : (records.foldl (index cfg) (m.storeTxs txs)).txstore =
          (m.storeTxs txs).txstore := foldl_index_txstore _ _
      rw [← hkept] at htx'
      rcases (hafter txid' tx' htx').spending j txi' htxi' hprevout' with ⟨_, _, _, hedge'⟩
      rw [hsame, hedge, Option.some.injEq, Prod.mk.injEq, htxid, htxid'] at hedge'
      exact ⟨hedge'.left.symm, toUInt32_inj (input_index_lt htxi')
        (input_index_lt htxi) hedge'.right.symm⟩
  · intro hclean
    apply hknown.complete_iff.mpr
    refine ⟨?_, h.ownEdges_add hedges htxs hstore hadded hclean⟩
    intro txid htxid
    rw [foldl_index_txstore] at htxid
    apply hknown.indexes.mem_feeinfo.mpr
    by_cases hold : txid ∈ m.txstore
    · rcases h.indexes.mem_feeinfo.mp (hfees txid hold) with ⟨r, hr, heq⟩
      exact ⟨r, List.mem_append_left _ hr, heq⟩
    · rcases mem_iff_exists.mp htxid with ⟨tx, htx⟩
      rcases storeTxs_source htx with hsource | ⟨hmem, heq⟩
      · exact absurd (mem_of_getElem? hsource) hold
      · rw [← heq] at hold
        rcases hadded.complete txid tx (heq ▸ hold) htx
          (hclean tx hmem hold).left with ⟨r, hr, hrtxid, _⟩
        exact ⟨r, List.mem_append_right _ hr, hrtxid⟩

end Complete

/-!
## Calls
-/

inductive Call where
  | update (store : Store) (order : HashOrder) (rpc : MempoolRpc)
  | addByTxid (store : Store) (order : HashOrder) (rpc : MempoolRpc)
      (txid : Txid)
  | add (store : Store) (order : HashOrder) (txs : List Transaction)
  | remove (toRemove : List Txid)

def call (cfg : Config) (m : Mempool) : Call -> Except Abort Mempool
  | .update store order rpc => do
      let (m, _) <- update cfg store order rpc m
      return m
  | .addByTxid store order rpc txid => do
      let (m, _) <- addByTxid cfg store order rpc m txid
      return m
  | .add store order txs => do
      let (m, _) <- add cfg store order m txs
      return m
  | .remove toRemove => remove m toRemove

def runCalls (cfg : Config) (calls : List Call) : Except Abort Mempool :=
  calls.foldlM (call cfg) Mempool.new

def Call.Genuine (L : TxCommitments) : Call -> Prop
  | update store _ rpc =>
    Honest L store ∧ forall txids txs, rpc.gettransactions txids = some txs ->
      forall tx, tx ∈ txs -> L.Has tx
  | addByTxid store _ rpc txid =>
    Honest L store ∧ forall tx, rpc.getmempooltx txid = some tx -> L.Has tx
  | add store _ txs => Honest L store ∧ forall tx, tx ∈ txs -> L.Has tx
  | remove _ => True

def CleanCall (m : Mempool) : Call -> Prop
  | .update store _ rpc =>
    forall allTxids m' txs, rpc.getmempooltxids = some allTxids ->
      remove m (txidsToRemove m.uniqueTxids allTxids) = .ok m' ->
      rpc.gettransactions (txidsToAdd m.uniqueTxids allTxids) = some txs ->
      CleanAdd store m' txs
  | .addByTxid store _ rpc txid =>
    forall tx, txid ∉ m.txstore -> rpc.getmempooltx txid = some tx -> CleanAdd store m [tx]
  | .add store _ txs => CleanAdd store m txs
  | .remove _ => True

section Calls

variable {L : TxCommitments} {cfg : Config} {m m' : Mempool}
  {journal : List IndexedTx}

inductive CallEffect (L : TxCommitments) (cfg : Config) (m : Mempool)
    (c : Call) : Mempool -> Prop where
  | removed {m1 : Mempool}
      (hremoved : m1 = m ∨ exists toRemove, m1 = m.dropTxids toRemove)
      (hclean : CleanCall m c) : CallEffect L cfg m c m1
  | added {m1 : Mempool} {store : Store} {txs : List Transaction}
      {records : List IndexedTx}
      (hremoved : m1 = m ∨ exists toRemove, m1 = m.dropTxids toRemove)
      (hstore : Honest L store) (htxs : forall tx, tx ∈ txs -> L.Has tx)
      (hadded : Added store m1 txs records)
      (hclean : CleanCall m c <-> CleanAdd store m1 txs) :
      CallEffect L cfg m c (records.foldl (index cfg) (m1.storeTxs txs))

theorem call_effect {c : Call} (hgenuine : c.Genuine L)
    (hcall : call cfg m c = .ok m') : CallEffect L cfg m c m' := by
  cases c with
  | add store order txs =>
    rcases exists_added cfg store order m txs with ⟨records, hadd, hadded⟩
    rw [call, hadd] at hcall
    cases hcall
    exact .added (Or.inl rfl) hgenuine.left hgenuine.right hadded Iff.rfl
  | remove toRemove =>
    rcases remove_eq_ok.mp hcall with ⟨_, _, heq⟩
    exact .removed (Or.inr ⟨toRemove, heq⟩) trivial
  | addByTxid store order rpc txid =>
    rcases bind_eq_ok.mp hcall with ⟨result, hresult, heq⟩
    cases pure_eq_ok.mp heq
    rcases addByTxid_cases cfg store order rpc m txid with
      ⟨hsame, hnone⟩ | ⟨tx, records, _, hmem, hreply, hadded, hadd⟩
    · cases hsame.symm.trans hresult
      exact .removed (Or.inl rfl) fun tx hnew hsome => absurd hsome (hnone tx hnew)
    · cases hadd.symm.trans hresult
      refine .added (Or.inl rfl) hgenuine.left ?_ hadded ?_
      · intro tx' htx'
        rw [List.mem_singleton.mp htx']
        exact hgenuine.right tx hreply
      · constructor
        · intro hclean
          exact hclean tx hmem hreply
        · intro hclean tx' _ hsome
          cases hreply.symm.trans hsome
          exact hclean
  | update store order rpc =>
    rcases bind_eq_ok.mp hcall with ⟨result, hresult, heq⟩
    cases pure_eq_ok.mp heq
    rw [update] at hresult
    cases hall : rpc.getmempooltxids with
    | none =>
      rw [hall] at hresult
      cases hresult
      refine .removed (Or.inl rfl) ?_
      intro allTxids m1 txs hsome
      cases hall.symm.trans hsome
    | some allTxids =>
      rw [hall] at hresult
      rcases bind_eq_ok.mp hresult with ⟨m1, hremove, hresult⟩
      rcases remove_eq_ok.mp hremove with ⟨_, _, hdrop⟩
      cases hreply : rpc.gettransactions (txidsToAdd m.uniqueTxids allTxids) with
      | none =>
        simp only [hreply] at hresult
        cases hresult
        refine .removed (Or.inr ⟨_, hdrop⟩) ?_
        intro allTxids' m2 txs hsome _ hsome'
        cases hall.symm.trans hsome
        cases hreply.symm.trans hsome'
      | some txs =>
        simp only [hreply] at hresult
        rcases exists_added cfg store order m1 txs with ⟨records, hadd, hadded⟩
        simp only [hadd, ok_bind] at hresult
        cases hresult
        refine .added (Or.inr ⟨_, hdrop⟩) hgenuine.left (hgenuine.right _ txs hreply) hadded ?_
        constructor
        · intro hclean
          exact hclean allTxids m1 txs hall hremove hreply
        · intro hclean allTxids' m2 txs' hsome hremove' hsome'
          cases hall.symm.trans hsome
          cases hremove.symm.trans hremove'
          cases hreply.symm.trans hsome'
          exact hclean

theorem Known.removed (h : Known L cfg m journal) {m1 : Mempool}
    (hremoved : m1 = m ∨ exists toRemove, m1 = m.dropTxids toRemove) :
    (exists journal1, Known L cfg m1 journal1) ∧ (Complete L cfg m -> Complete L cfg m1) := by
  rcases hremoved with heq | ⟨toRemove, heq⟩
  · rw [heq]
    exact ⟨⟨journal, h⟩, id⟩
  · rw [heq]
    exact ⟨⟨_, h.dropTxids toRemove⟩, fun hcomplete => h.complete_dropTxids hcomplete toRemove⟩

theorem Known.call (h : Known L cfg m journal) {c : Call}
    (hgenuine : c.Genuine L) (hcall : call cfg m c = .ok m') :
    (exists journal', Known L cfg m' journal') ∧
      (Complete L cfg m -> (Complete L cfg m' <-> CleanCall m c)) := by
  cases call_effect hgenuine hcall with
  | removed hremoved hclean =>
    rcases h.removed hremoved with ⟨hknown, hkeeps⟩
    exact ⟨hknown, fun hcomplete =>
      iff_of_true (hkeeps hcomplete) hclean⟩
  | added hremoved hstore htxs hadded hclean =>
    rcases h.removed hremoved with ⟨⟨journal1, hknown⟩, hkeeps⟩
    refine ⟨⟨_, hknown.add htxs hstore hadded⟩, ?_⟩
    intro hcomplete
    rw [hclean]
    exact hknown.complete_add_iff (hkeeps hcomplete) htxs hstore hadded

end Calls

def CompleteThroughout (L : TxCommitments) (cfg : Config) (calls : List Call) : Prop :=
  forall front, front <+: calls -> forall m, runCalls cfg front = .ok m -> Complete L cfg m

def CleanThroughout (cfg : Config) (calls : List Call) : Prop :=
  forall front c, front ++ [c] <+: calls ->
    forall m m', runCalls cfg front = .ok m -> call cfg m c = .ok m' -> CleanCall m c

/-- The index is complete after every call exactly if every add is clean. -/
theorem completeThroughout_iff {L : TxCommitments} {cfg : Config}
    {calls : List Call} (hgenuine : forall c, c ∈ calls -> c.Genuine L) :
    CompleteThroughout L cfg calls <-> CleanThroughout cfg calls := by
  apply throughout_iff (I := fun m => exists journal, Known L cfg m journal) ⟨[], known_new L cfg⟩
  · intro txid tx htx
    simp [Mempool.new] at htx
  · intro m c m' hc hknown hcall
    rcases hknown with ⟨journal, hknown⟩
    exact hknown.call (hgenuine c hc) hcall

end Mempool

namespace Sample

def child : Transaction :=
  payment 203 201 [9]

def grandchild : Transaction :=
  payment 204 203 [9]

def family : TxCommitments :=
  commitmentsOf [coinbase 101 [1], original, child, grandchild]

def descendants : List Mempool.Batch :=
  [{ store := confirmedStore, order := .ascending, txs := [child] },
    { store := confirmedStore, order := .ascending, txs := [grandchild] }]

theorem descendants_leave_no_trace :
    exists m m' m'', Mempool.runCalls mempoolConfig
        [.add confirmedStore .ascending [original]] = .ok m ∧
      m.uniqueTxids = [201] ∧
      Mempool.addBatches mempoolConfig m descendants = .ok m' ∧
      Mempool.remove m' [204, 203] = .ok m'' ∧ m''.txstore = m.txstore ∧
      m''.feeinfo = m.feeinfo ∧ m''.history = m.history ∧
      m''.edges = m.edges := by
  have heval : exists m, Mempool.runCalls mempoolConfig
      [.add confirmedStore .ascending [original]] = .ok m ∧ m.uniqueTxids = [201] ∧
      forall tx, tx ∈ descendants.flatMap Mempool.Batch.txs -> tx.txid ∉ m.txstore ∧
        forall txi, txi ∈ tx.input -> txi.previousOutput ∉ m.edges := by
    decide +kernel
  rcases heval with ⟨m, hrun, htxids, hfresh⟩
  rcases bind_eq_ok.mp hrun with ⟨_, hadd, hpure⟩
  rcases Mempool.exists_added mempoolConfig confirmedStore .ascending
    Mempool.new [original] with ⟨records, hadd', hadded⟩
  have hindexes : Mempool.Indexes mempoolConfig m ([] ++ records) := by
    rw [Mempool.call, hadd'] at hadd
    cases hadd
    cases hpure
    exact (Mempool.Indexes.new mempoolConfig).add hadded
  rcases Mempool.add_remove_frame mempoolConfig hindexes.consistent
    (fun tx htx => (hfresh tx htx).left) (fun tx htx => (hfresh tx htx).right)
    (show [(204 : Txid), 203].Nodup by decide)
    (by simp [descendants, child, grandchild, payment, or_comm])
    with ⟨m', m'', hadd, hremove, hrest⟩
  exact ⟨m, m', m'', hrun, htxids, hadd, hremove, hrest⟩

def pollOf (allTxids : List Txid) (txs : List Transaction) : Mempool.Call :=
  .update confirmedStore .ascending
    { getmempooltxids := some allTxids
      gettransactions := fun _ => some txs
      getmempooltx := fun _ => none }

def latePolls : List Mempool.Call :=
  [pollOf [201, 203] [child], pollOf [201, 203] [original]]

/-- The child stays in the store without fee, history and edge. -/
theorem child_not_indexed_after_late_parent :
    exists m, Mempool.runCalls mempoolConfig latePolls = .ok m ∧
      m.uniqueTxids = [201, 203] ∧ (201 : Txid) ∈ m.feeinfo ∧
      (203 : Txid) ∉ m.feeinfo ∧
      m.hasSpend { txid := 201, vout := 0 } = false ∧
      ¬ Mempool.Complete family mempoolConfig m := by
  have heval : exists m, Mempool.runCalls mempoolConfig latePolls = .ok m ∧
      m.uniqueTxids = [201, 203] ∧ (201 : Txid) ∈ m.feeinfo ∧
      (203 : Txid) ∉ m.feeinfo ∧ m.hasSpend { txid := 201, vout := 0 } = false ∧
      m.txstore[(203 : Txid)]? = some child := by
    decide +kernel
  rcases heval with ⟨m, hrun, htxids, hparent, hchild, hspend, htx⟩
  refine ⟨m, hrun, htxids, hparent, hchild, hspend, ?_⟩
  intro hcomplete
  exact hchild (hcomplete 203 child htx).feeinfo

theorem honest_confirmedStore : Mempool.Honest family confirmedStore := by
  intro outpoint txo htxo
  have hwritten : (writeRows (∅ : TxstoreTable) [(TxstoreKey.txout { txid := 101, vout := 0 },
        TxstoreValue.txOut { value := 50, scriptPubkey := [1] })])[
          TxstoreKey.txout outpoint]? = some (.txOut txo) :=
    lookupTxo_eq_some.mp htxo
  rcases getElem?_writeRows_source hwritten with hempty | hrow
  · simp at hempty
  · cases List.mem_singleton.mp hrow
    rfl

def onePoll : List Mempool.Call :=
  [pollOf [201, 203] [original, child]]

theorem complete_after_one_poll :
    Mempool.CleanThroughout mempoolConfig onePoll ∧
      Mempool.CompleteThroughout family mempoolConfig onePoll := by
  have hgenuine : forall c, c ∈ onePoll -> c.Genuine family := by
    intro c hc
    rw [List.mem_singleton.mp hc]
    refine ⟨honest_confirmedStore, ?_⟩
    intro _ txs htxs tx htx
    cases htxs
    simp only [List.mem_cons, List.not_mem_nil, or_false] at htx
    rcases htx with heq | heq
    · rw [heq]
      exact ⟨rfl, rfl⟩
    · rw [heq]
      exact ⟨rfl, rfl⟩
  have halone : forall tx, tx ∈ [original, child] -> forall tx', tx' ∈ [original, child] ->
      forall txi, txi ∈ tx.input -> forall txi', txi' ∈ tx'.input ->
        txi'.previousOutput = txi.previousOutput -> tx'.txid = tx.txid := by
    decide
  have hlength : forall tx, tx ∈ [original, child] -> tx.input.length = 1 := by
    decide
  have hresolvable : forall tx, tx ∈ [original, child] ->
      forall txi, txi ∈ tx.input -> (Mempool.available confirmedStore
        (Mempool.new.storeTxs [original, child]) txi.previousOutput).isSome := by
    decide +kernel
  have hclean : Mempool.CleanThroughout mempoolConfig onePoll := by
    intro front c hfront m _ hrun _
    have hfirst : front = [] ∧ c = pollOf [201, 203] [original, child] := by
      cases front with
      | nil => exact ⟨rfl, (List.cons_prefix_cons.mp hfront).left⟩
      | cons c' front =>
        have hlen := hfront.length_le
        simp [onePoll] at hlen
    rw [hfirst.left] at hrun
    rw [hfirst.right]
    cases hrun
    intro allTxids m' txs hall hremove htxs
    cases hall
    cases htxs
    have hm' : m' = Mempool.new := by
      cases hremove
      rfl
    rw [hm']
    intro tx htx _
    refine ⟨?_, ?_⟩
    · intro txi htxi _
      exact Option.isSome_iff_exists.mp (hresolvable tx htx txi htxi)
    · intro i txi htxi _ txid' tx' htx' j txi' htxi' hsame
      rcases Mempool.storeTxs_source htx' with hempty | ⟨hmem, htxid⟩
      · simp [Mempool.new] at hempty
      · have heq := halone tx htx tx' hmem txi (List.mem_of_getElem? htxi) txi'
          (List.mem_of_getElem? htxi') hsame
        have hi := (List.getElem?_eq_some_iff.mp htxi).fst
        have hj := (List.getElem?_eq_some_iff.mp htxi').fst
        rw [hlength tx htx] at hi
        rw [hlength tx' hmem] at hj
        rw [← htxid]
        exact ⟨heq, by omega⟩
  exact ⟨hclean, (Mempool.completeThroughout_iff hgenuine).mpr hclean⟩

end Sample

end NewIndex
end Splora
