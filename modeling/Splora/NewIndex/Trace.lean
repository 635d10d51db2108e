import Splora.NewIndex.Indexer

/-!
# What an update does

A successful update finds the fork, deletes the rows of the old side, writes those of unmarked
blocks of the new side, and moves the tip.  `Trace` lists the operations in order; all later
results start from it.
-/

namespace Splora
namespace NewIndex

open Foundation

/-!
## Executions
-/

namespace Exec

variable (x : Exec)

@[simp] theorem emit_nil : x.emit [] = x := by
  simp [emit]

theorem emit_emit (ops ops' : List DbOp) : (x.emit ops).emit ops' = x.emit (ops ++ ops') := by
  simp [emit, Disk.replay_append]

theorem send_send (scripts scripts' : List FullHash) :
    (x.send scripts).send scripts' = x.send (scripts ++ scripts') := by
  simp [send]

@[simp] theorem emit_disk (ops : List DbOp) :
    (x.emit ops).store.disk = x.store.disk.replay ops := rfl

@[simp] theorem emit_log (ops : List DbOp) :
    (x.emit ops).log = x.log ++ ops := rfl

end Exec

def deleteTxstoreRow (row : TxstoreRow) : DbOp :=
  .txstore (.delete row.1)

def deleteHistoryRow (row : HistoryRow) : DbOp :=
  .history (.delete row.1)

/-!
The operations of a log on one of the databases.
-/

section Projections

variable (rows : List HistoryRow) (trows : List TxstoreRow)

@[simp] theorem filterMap_txstore?_deleteHistoryRow :
    (rows.map deleteHistoryRow).filterMap DbOp.txstore? = [] := by
  simp [List.filterMap_map, deleteHistoryRow, DbOp.txstore?, Function.comp_def]

@[simp] theorem filterMap_history?_deleteHistoryRow :
    (rows.map deleteHistoryRow).filterMap DbOp.history? =
      (rows.map Prod.fst).map TableOp.delete := by
  simp [List.filterMap_map, deleteHistoryRow, DbOp.history?, Function.comp_def]

@[simp] theorem filterMap_txstore?_deleteTxstoreRow :
    (trows.map deleteTxstoreRow).filterMap DbOp.txstore? =
      (trows.map Prod.fst).map TableOp.delete := by
  simp [List.filterMap_map, deleteTxstoreRow, DbOp.txstore?, Function.comp_def]

@[simp] theorem filterMap_history?_deleteTxstoreRow :
    (trows.map deleteTxstoreRow).filterMap DbOp.history? = [] := by
  simp [List.filterMap_map, deleteTxstoreRow, DbOp.history?, Function.comp_def]

@[simp] theorem filterMap_txstore?_writes (f : α -> List TxstoreRow) (l : List α) :
    (l.map fun a => DbOp.txstore (.write (f a))).filterMap DbOp.txstore? =
      l.map fun a => .write (f a) := by
  simp [List.filterMap_map, DbOp.txstore?, Function.comp_def]

@[simp] theorem filterMap_history?_txstoreWrites (f : α -> List TxstoreRow) (l : List α) :
    (l.map fun a => DbOp.txstore (.write (f a))).filterMap DbOp.history? = [] := by
  simp [List.filterMap_map, DbOp.history?, Function.comp_def]

@[simp] theorem filterMap_txstore?_historyWrites (l : List (List HistoryRow)) :
    (l.map fun rows => DbOp.history (.write rows)).filterMap DbOp.txstore? = [] := by
  simp [List.filterMap_map, DbOp.txstore?, Function.comp_def]

@[simp] theorem filterMap_history?_writes (l : List (List HistoryRow)) :
    (l.map fun rows => DbOp.history (.write rows)).filterMap DbOp.history? =
      l.map TableOp.write := by
  simp [List.filterMap_map, DbOp.history?, Function.comp_def]

end Projections

section Folds

variable {T : BlockTree} {cfg : IndexerConfig}

theorem blockhashes_append (bs bs' : List BlockEntry) :
    blockhashes (bs ++ bs') = blockhashes bs ∪ blockhashes bs' := by
  simp [blockhashes]

theorem foldl_add_addBlocks (batches : List (List BlockEntry)) (x : Exec) :
    batches.foldl (add cfg .addBlocks) x = (x.emit (batches.map fun blocks =>
        .txstore (.write (addBlocks cfg blocks)))).setAdded
          (x.store.addedBlockhashes ∪ blockhashes batches.flatten) := by
  induction batches generalizing x with
  | nil => simp [blockhashes, Exec.setAdded]
  | cons blocks rest ih =>
    rw [List.foldl_cons, ih, List.flatten_cons, blockhashes_append,
      ← Finset.union_assoc, List.map_cons, ← List.singleton_append,
      ← Exec.emit_emit]
    rfl

theorem foldl_add_deleteBlocks (batches : List (List BlockEntry)) (x : Exec) :
    batches.foldl (add cfg .deleteBlocks) x =
      (x.emit ((addBlocks cfg batches.flatten).map deleteTxstoreRow)).setAdded
        (x.store.addedBlockhashes \ blockhashes batches.flatten) := by
  induction batches generalizing x with
  | nil => simp [blockhashes, addBlocks, Exec.setAdded]
  | cons blocks rest ih =>
    have hrows : addBlocks cfg (blocks ++ rest.flatten) =
        addBlocks cfg blocks ++ addBlocks cfg rest.flatten := by
      simp [addBlocks]
    have hsdiff : forall s s' s'' : Finset BlockHash,
        s \ (s' ∪ s'') = (s \ s') \ s'' := fun _ _ _ => sdiff_sdiff_left.symm
    rw [List.foldl_cons, ih, List.flatten_cons, blockhashes_append, hrows,
      hsdiff, List.map_append, ← Exec.emit_emit]
    rfl

def IndexRows (T : BlockTree) (cfg : IndexerConfig) (be : BlockEntry)
    (rows : List HistoryRow) : Prop :=
  exists txos, Truthful T txos ∧ indexBlock cfg txos be = .ok rows

variable {be : BlockEntry} {k : HistoryKey}

theorem mem_indexRows {rows : List HistoryRow} (h : IndexRows T cfg be rows) {v : Bytes} :
    (k, v) ∈ rows <-> v = [] ∧ IndexRow T cfg be k := by
  rcases h with ⟨txos, htruthful, hok⟩
  exact mem_indexBlock htruthful hok

def BatchRows (T : BlockTree) (cfg : IndexerConfig) (batch : List BlockEntry)
    (rows : List HistoryRow) : Prop :=
  exists rss, List.Forall₂ (IndexRows T cfg) batch rss ∧ rows = rss.flatten

variable {rss : List (List HistoryRow)}

theorem mem_flatten_of_forall₂ {batch : List BlockEntry}
    (h : List.Forall₂ (IndexRows T cfg) batch rss) {v : Bytes} :
    (k, v) ∈ rss.flatten <-> v = [] ∧ exists be, be ∈ batch ∧ IndexRow T cfg be k := by
  induction h with
  | nil => simp
  | cons hrows hrest ih =>
    rename_i be rows batch rss
    rw [List.flatten_cons, List.mem_append, mem_indexRows hrows]
    refine (or_congr_right ih).trans ?_
    simp only [List.mem_cons, or_and_right, exists_or, exists_eq_left, and_or_left]

variable {batches : List (List BlockEntry)} {rowss : List (List HistoryRow)}

theorem mem_flatten_of_batchRows (h : List.Forall₂ (BatchRows T cfg) batches rowss) {v : Bytes} :
    (k, v) ∈ rowss.flatten <-> v = [] ∧ exists be, be ∈ batches.flatten ∧ IndexRow T cfg be k := by
  induction h with
  | nil => simp
  | cons hrows hrest ih =>
    rcases hrows with ⟨rss, hrss, rfl⟩
    rw [List.flatten_cons, List.flatten_cons, List.mem_append, mem_flatten_of_forall₂ hrss]
    refine (or_congr_right ih).trans ?_
    simp only [List.mem_append, or_and_right, exists_or, and_or_left]

theorem functional_batchRows (h : List.Forall₂ (BatchRows T cfg) batches rowss) :
    Functional rowss.flatten := by
  intro k v v' hv hv'
  rw [((mem_flatten_of_batchRows h).mp hv).left, ((mem_flatten_of_batchRows h).mp hv').left]

theorem indexRows_of_forall₂ {batch : List BlockEntry}
    (h : List.Forall₂ (IndexRows T cfg) batch rss) (hbe : be ∈ batch) :
    exists rows, IndexRows T cfg be rows := by
  induction h with
  | nil => cases hbe
  | cons hrows hrest ih =>
    rcases List.mem_cons.mp hbe with rfl | hbe
    · exact ⟨_, hrows⟩
    · exact ih hbe

theorem indexRows_of_batchRows (h : List.Forall₂ (BatchRows T cfg) batches rowss)
    (hbe : be ∈ batches.flatten) : exists rows, IndexRows T cfg be rows := by
  induction h with
  | nil => cases hbe
  | cons hrows hrest ih =>
    rcases List.mem_append.mp hbe with hbe | hbe
    · rcases hrows with ⟨rss, hrss, _⟩
      exact indexRows_of_forall₂ hrss hbe
    · exact ih hbe

theorem truthful_lookupTxos {txstore : TxstoreTable}
    {outpoints : List OutPoint} {allowMissing : Bool} {txos : TxoMap}
    (htruthful : Truthful T (lookupTxo txstore))
    (h : lookupTxos txstore outpoints allowMissing = .ok txos) :
    Truthful T txos := by
  rcases bind_eq_ok.mp h with ⟨_, _, hpure⟩
  rw [← pure_eq_ok.mp hpure]
  intro outpoint txo htxo
  simp only at htxo
  split at htxo
  · exact htruthful outpoint txo htxo
  · cases htxo

theorem index_ok {op : Operation} {x x' : Exec} {blocks : List BlockEntry}
    (htruthful : Truthful T (lookupTxo x.store.disk.txstore))
    (h : index cfg op x blocks = .ok x') :
    exists rows, BatchRows T cfg blocks rows ∧ x' = indexEffect op x rows := by
  unfold index at h
  rcases bind_eq_ok.mp h with ⟨txos, htxos, h⟩
  rcases bind_eq_ok.mp h with ⟨_, _, h⟩
  rcases bind_eq_ok.mp h with ⟨rows, hrows, hpure⟩
  have htxosTruthful := truthful_lookupTxos htruthful htxos
  rcases bind_eq_ok.mp hrows with ⟨rss, hrss, hflatten⟩
  refine ⟨rows, ⟨rss, ?_, (pure_eq_ok.mp hflatten).symm⟩, (pure_eq_ok.mp hpure).symm⟩
  exact (mapM_eq_ok.mp hrss).imp fun be rows hok => ⟨txos, htxosTruthful, hok⟩

theorem foldlM_index_delete {x x' : Exec} (htruthful : Truthful T (lookupTxo x.store.disk.txstore))
    (h : batches.foldlM (index cfg .deleteBlocksWithHistory) x = .ok x') :
    exists rss, List.Forall₂ (IndexRows T cfg) batches.flatten rss ∧
      x' = (x.emit (rss.flatten.map deleteHistoryRow)).send (scriptHashes rss.flatten) := by
  induction batches generalizing x with
  | nil =>
    refine ⟨[], List.Forall₂.nil, ?_⟩
    rw [← pure_eq_ok.mp h]
    simp [Exec.send, scriptHashes]
  | cons blocks rest ih =>
    rw [List.foldlM_cons] at h
    rcases bind_eq_ok.mp h with ⟨x1, hindex, hrest⟩
    rcases index_ok htruthful hindex with ⟨rows, ⟨rss, hrss, rfl⟩, rfl⟩
    have htxstore : (indexEffect .deleteBlocksWithHistory x
        rss.flatten).store.disk.txstore = x.store.disk.txstore := by
      change (x.store.disk.replay (rss.flatten.map deleteHistoryRow)).txstore = _
      rw [Disk.txstore_replay, filterMap_txstore?_deleteHistoryRow]
      rfl
    rw [← htxstore] at htruthful
    rcases ih htruthful hrest with ⟨rss', hrss', rfl⟩
    refine ⟨rss ++ rss', List.rel_append hrss hrss', ?_⟩
    have hscripts : scriptHashes (rss ++ rss').flatten =
        scriptHashes rss.flatten ++ scriptHashes rss'.flatten := by
      simp [scriptHashes]
    rw [hscripts, ← Exec.send_send, List.flatten_append, List.map_append, ← Exec.emit_emit]
    rfl

theorem foldlM_index_add {x x' : Exec} (htruthful : Truthful T (lookupTxo x.store.disk.txstore))
    (h : batches.foldlM (index cfg .addBlocks) x = .ok x') :
    exists rowss, List.Forall₂ (BatchRows T cfg) batches rowss ∧
      x' = x.emit (rowss.map fun rows => .history (.write rows)) := by
  induction batches generalizing x with
  | nil =>
    refine ⟨[], List.Forall₂.nil, ?_⟩
    rw [← pure_eq_ok.mp h]
    simp
  | cons blocks rest ih =>
    rw [List.foldlM_cons] at h
    rcases bind_eq_ok.mp h with ⟨x1, hindex, hrest⟩
    rcases index_ok htruthful hindex with ⟨rows, hrows, rfl⟩
    have htruthful' : Truthful T (lookupTxo
        (indexEffect .addBlocks x rows).store.disk.txstore) := htruthful
    rcases ih htruthful' hrest with ⟨rowss, hrowss, rfl⟩
    refine ⟨rows :: rowss, List.Forall₂.cons hrows hrowss, ?_⟩
    rw [List.map_cons, ← List.singleton_append, ← Exec.emit_emit]
    rfl

theorem hasTxo_of_addRow {outpoint : OutPoint} {txo : TxOut}
    (hstored : T.block be.entry.hash = some be.block)
    (h : AddRow cfg be (.txout outpoint) (.txOut txo)) :
    T.HasTxo outpoint txo := by
  cases h with
  | txout htx htxo hspendable =>
    rename_i tx i
    refine ⟨_, _, _, hstored, htx, rfl, ?_⟩
    have hlt := output_index_lt htxo
    rw [show (i.toUInt32).toNat = i from Nat.mod_eq_of_lt hlt]
    exact htxo

theorem mem_addBlocks {blocks : List BlockEntry} {k : TxstoreKey} {v : TxstoreValue} :
    (k, v) ∈ addBlocks cfg blocks <-> exists be, be ∈ blocks ∧ AddRow cfg be k v := by
  simp only [addBlocks, List.mem_flatMap, mem_addBlock]

end Folds

/-!
## The trace of an update
-/

def removedEntries (q a : List Block) : List BlockEntry :=
  (blockEntriesFrom q.length a).reverse

def unmarkedEntries (q n : List Block) (marked : Finset BlockHash) :
    List BlockEntry :=
  (blockEntriesFrom q.length n).filter fun be => be.entry.hash ∉ marked

def rollbackOps (q a : List Block) : List DbOp :=
  if a.isEmpty then [] else [rollbackOp (q.getLast?.map Block.hash)]

def cacheDeletes (scripts : List FullHash) : List DbOp :=
  scripts.dedup.flatMap fun script =>
    [.cache (.delete (.stats script)), .cache (.delete (.utxo script))]

def MarkOps (mark : DbOp) (ops : List DbOp) : Prop :=
  ops = [] ∨ ops = [mark]

theorem MarkOps.eq_of_mem {mark op : DbOp} {ops : List DbOp} (h : MarkOps mark ops)
    (hop : op ∈ ops) : op = mark := by
  rcases h with rfl | rfl
  · cases hop
  · exact List.mem_singleton.mp hop

/-- The operations of an update from the chain `c` and the state after it. -/
structure Trace {T : BlockTree} (cfg : IndexerConfig) (store : Store)
    (c : List Block) (daemon : Daemon T) (x : Exec) where
  q : List Block
  a : List Block
  n : List Block
  fork : Fork c daemon.best.blocks q a n
  advances : n = [] -> a = []
  removedRows : List (List HistoryRow)
  removedRows_spec :
    List.Forall₂ (IndexRows T cfg) (removedEntries q a) removedRows
  addBatches : List (List BlockEntry)
  addBatches_perm : addBatches.flatten.Perm (unmarkedEntries q n
      (store.addedBlockhashes \ blockhashes (removedEntries q a)))
  indexBatches : List (List BlockEntry)
  indexBatches_perm : indexBatches.flatten.Perm (unmarkedEntries q n store.indexedBlockhashes)
  indexRows : List (List HistoryRow)
  indexRows_spec : List.Forall₂ (BatchRows T cfg) indexBatches indexRows
  txstoreMark : List DbOp
  txstoreMark_spec : MarkOps (.txstore (.put .compacted .empty)) txstoreMark
  otherMarks : List DbOp
  otherMarks_spec : exists historyMark cacheMark,
    MarkOps (.history (.put .compacted [])) historyMark ∧
    MarkOps (.cache (.put .compacted .empty)) cacheMark ∧
    otherMarks = historyMark ++ cacheMark
  log_eq : x.log = rollbackOps q a ++ removedRows.flatten.map deleteHistoryRow ++
    (addBlocks cfg (removedEntries q a)).map deleteTxstoreRow ++
    cacheDeletes (scriptHashes removedRows.flatten) ++
    (addBatches.map fun blocks => .txstore (.write (addBlocks cfg blocks))) ++
    txstoreMark ++
    (indexRows.map fun rows => .history (.write rows)) ++
    otherMarks ++
    [.txstore (.put .tip (.blockhash (tipHash daemon.best.blocks)))]
  headers : x.store.indexedHeaders.Represents daemon.best.blocks
  added_eq : x.store.addedBlockhashes =
    (store.addedBlockhashes \ blockhashes (removedEntries q a)) ∪ blockhashes addBatches.flatten
  indexed_eq : x.store.indexedBlockhashes = store.indexedBlockhashes
  disk_eq : x.store.disk = store.disk.replay x.log

namespace Trace

variable {cfg : IndexerConfig}

theorem filterMap_mark_of_none {mark : DbOp} {ops : List DbOp}
    {f : DbOp -> Option β} (h : MarkOps mark ops) (hnone : f mark = none) :
    ops.filterMap f = [] := by
  apply List.filterMap_eq_nil_iff.mpr
  intro op hop
  rw [h.eq_of_mem hop, hnone]

theorem filterMap_cacheDeletes_of_none {f : DbOp -> Option β}
    (hnone : forall op, f (.cache op) = none) (scripts : List FullHash) :
    (cacheDeletes scripts).filterMap f = [] := by
  apply List.filterMap_eq_nil_iff.mpr
  intro op hop
  rcases List.mem_flatMap.mp hop with ⟨script, _, hscript⟩
  simp only [List.mem_cons, List.not_mem_nil, or_false] at hscript
  rcases hscript with rfl | rfl
  · exact hnone _
  · exact hnone _

def tipOps (q a : List Block) : List (TableOp TxstoreKey TxstoreValue) :=
  (rollbackOps q a).filterMap DbOp.txstore?

theorem rollbackOp_eq (tip : Option BlockHash) :
    exists op : TableOp TxstoreKey TxstoreValue, rollbackOp tip = .txstore op ∧
      op.keys = [.tip] := by
  cases tip with
  | none => exact ⟨_, rfl, rfl⟩
  | some hash => exact ⟨_, rfl, rfl⟩

theorem mem_rollbackOps {q a : List Block} {op : DbOp} (h : op ∈ rollbackOps q a) :
    exists tipOp : TableOp TxstoreKey TxstoreValue, op = .txstore tipOp ∧
      tipOp.keys = [.tip] := by
  unfold rollbackOps at h
  split at h
  · cases h
  · rw [List.mem_singleton.mp h]
    exact rollbackOp_eq _

theorem keys_of_mem_tipOps {q a : List Block}
    {op : TableOp TxstoreKey TxstoreValue} (h : op ∈ tipOps q a) :
    op.keys = [.tip] := by
  rcases mem_rollbackOps (DbOp.mem_filterMap_txstore?.mp h) with ⟨_, heq, hkeys⟩
  cases heq
  exact hkeys

theorem filterMap_history?_rollbackOps (q a : List Block) :
    (rollbackOps q a).filterMap DbOp.history? = [] := by
  apply List.filterMap_eq_nil_iff.mpr
  intro op hop
  rcases mem_rollbackOps hop with ⟨_, rfl, _⟩
  rfl

theorem txstore_rollbackOps (disk : Disk) (q a : List Block)
    (rows : List HistoryRow) (scripts : List FullHash) :
    (disk.replay (rollbackOps q a ++ rows.map deleteHistoryRow ++
      (addBlocks cfg (removedEntries q a)).map deleteTxstoreRow ++
      cacheDeletes scripts)).txstore =
      replay (replay disk.txstore (tipOps q a))
        (((addBlocks cfg (removedEntries q a)).map Prod.fst).map TableOp.delete) := by
  have hcache := filterMap_cacheDeletes_of_none (f := DbOp.txstore?) (fun _ => rfl) scripts
  rw [Disk.txstore_replay]
  simp only [List.filterMap_append, filterMap_txstore?_deleteHistoryRow,
    filterMap_txstore?_deleteTxstoreRow, hcache, List.append_nil,
    replay_append, tipOps]

theorem replay_addBlocks (t : TxstoreTable) (batches : List (List BlockEntry)) :
    replay t (batches.map fun blocks => .write (addBlocks cfg blocks)) =
      writeRows t (addBlocks cfg batches.flatten) := by
  have hwrites : addBlocks cfg batches.flatten = (batches.map (addBlocks cfg)).flatten := by
    rw [addBlocks, List.flatMap_def, List.map_flatten, List.flatten_flatten, List.map_map]
    rfl
  rw [hwrites, ← replay_writes, List.map_map]
  rfl

theorem txstore_writes (disk : Disk) (batches : List (List BlockEntry)) (mark : List DbOp) :
    (disk.replay ((batches.map fun blocks =>
      .txstore (.write (addBlocks cfg blocks))) ++ mark)).txstore =
      replay (writeRows disk.txstore (addBlocks cfg batches.flatten))
        (mark.filterMap DbOp.txstore?) := by
  rw [Disk.txstore_replay, List.filterMap_append, filterMap_txstore?_writes,
    replay_append, replay_addBlocks]

theorem getElem?_tipOps {k : TxstoreKey} (t : TxstoreTable) (q a : List Block) (hk : k ≠ .tip) :
    (replay t (tipOps q a))[k]? = t[k]? := by
  apply getElem?_replay_of_untouched
  intro op hop
  rw [keys_of_mem_tipOps hop, List.mem_singleton]
  exact hk

end Trace

section Phases

variable {T : BlockTree} {cfg : IndexerConfig} {daemon : Daemon T}
  {store : Store} {c q a n : List Block} {x x' : Exec}

theorem map_entry_removedEntries (q a : List Block) :
    (removedEntries q a).map BlockEntry.entry = (entriesFrom q.length a).reverse := by
  rw [removedEntries, List.map_reverse, map_entry_blockEntriesFrom]

theorem fetchable_removedEntries (hchain : IsChain T (q ++ a)) : Fetchable T (removedEntries q a) :=
  (Fetchable.of_chain hchain).perm (List.reverse_perm _)

variable {fetchFrom : FetchFrom}

theorem update_of_headers {newHeaders reorged : List HeaderEntry} {headers : HeaderList}
    {rollbackTip : Option BlockHash} {headersTip : BlockHash}
    (hheaders : getNewHeaders daemon store.indexedHeaders daemon.getbestblockhash = .ok newHeaders)
    (happly : store.indexedHeaders.apply newHeaders =
      .ok (headers, reorged, rollbackTip)) (htip : headers.getTip = .ok headersTip) :
    update cfg fetchFrom daemon store =
      (ensure (daemon.getbestblockhash = headersTip) .tipMismatch >>= fun _ =>
        rollback cfg daemon reorged rollbackTip
          { store := { store with indexedHeaders := headers }
            log := []
            scripts := [] } >>=
          rollForward cfg fetchFrom daemon newHeaders) := by
  unfold update
  simp only [hheaders, happly, htip, ok_bind]

theorem getNewHeaders_eq (hrep : store.indexedHeaders.Represents c) (hc : IsChain T c)
    (hfork : Fork c daemon.best.blocks q a n) :
    getNewHeaders daemon store.indexedHeaders daemon.getbestblockhash =
      .ok (entriesFrom q.length n) := by
  have hd := daemon.best.valid.toIsChain
  refine bind_eq_ok.mpr ⟨_, Daemon.getNewHeaders_eq hrep hc hfork, ?_⟩
  rw [hfork.left_eq] at hrep
  rw [hfork.right_eq] at hd
  exact hrep.order_eq hd

theorem exists_apply {d : List Block} (hrep : store.indexedHeaders.Represents c)
    (hd : IsChain T d) (hfork : Fork c d q a n) (hadvances : n = [] -> a = []) :
    exists headers, store.indexedHeaders.apply (entriesFrom q.length n) =
        .ok (headers, (removedEntries q a).map BlockEntry.entry,
          if a.isEmpty then none else q.getLast?.map Block.hash) ∧
      headers.Represents d := by
  rw [hfork.left_eq] at hrep
  rw [hfork.right_eq] at hd ⊢
  cases n with
  | nil =>
    rw [hadvances rfl] at hrep ⊢
    exact ⟨_, rfl, hrep⟩
  | cons b rest =>
    rw [map_entry_removedEntries]
    exact hrep.apply_eq hd

theorem update_eq (hrep : store.indexedHeaders.Represents c) (hc : IsChain T c) :
    (update cfg fetchFrom daemon store = .error .tipMismatch ∧
      daemon.best.blocks <+: c ∧ daemon.best.blocks ≠ c) ∨
    exists q a n headers, Fork c daemon.best.blocks q a n ∧ (n = [] -> a = []) ∧
      headers.Represents daemon.best.blocks ∧
      update cfg fetchFrom daemon store =
        (rollback cfg daemon ((removedEntries q a).map BlockEntry.entry)
          (if a.isEmpty then none else q.getLast?.map Block.hash)
          { store := { store with indexedHeaders := headers }
            log := []
            scripts := [] } >>=
          rollForward cfg fetchFrom daemon (entriesFrom q.length n)) := by
  have hd := daemon.best.valid.toIsChain
  rcases exists_fork hc hd with ⟨q, a, n, hfork⟩
  have hheaders := getNewHeaders_eq hrep hc hfork
  by_cases hadvances : n = [] -> a = []
  · rcases exists_apply hrep hd hfork hadvances with ⟨headers, happly, hrepd⟩
    have hsame : daemon.getbestblockhash = tipHash daemon.best.blocks := rfl
    rw [update_of_headers hheaders happly hrepd.getTip_eq, ensure_of _ hsame, ok_bind]
    exact Or.inr ⟨q, a, n, headers, hfork, hadvances, hrepd, rfl⟩
  · rcases Classical.not_imp.mp hadvances with ⟨rfl, ha⟩
    have hbest : daemon.best.blocks = q := by
      rw [hfork.right_eq, List.append_nil]
    have hne : daemon.best.blocks ≠ c := by
      rw [hbest, hfork.left_eq]
      intro heq
      exact ha (List.append_right_eq_self.mp heq.symm)
    have htip : daemon.getbestblockhash ≠ tipHash c :=
      fun hsame => hne (hd.eq_of_tipHash_eq hc hsame)
    rw [update_of_headers hheaders rfl hrep.getTip_eq, ensure_eq_error.mpr ⟨htip, rfl⟩]
    refine Or.inl ⟨rfl, ?_, hne⟩
    rw [hbest, hfork.left_eq]
    exact List.prefix_append q a

theorem lookupTxo_rollbackOp (tip : Option BlockHash) (outpoint : OutPoint) :
    lookupTxo (x.emit [rollbackOp tip]).store.disk.txstore outpoint =
      lookupTxo x.store.disk.txstore outpoint := by
  have hrow : (x.emit [rollbackOp tip]).store.disk.txstore[TxstoreKey.txout
      outpoint]? = x.store.disk.txstore[TxstoreKey.txout outpoint]? := by
    cases tip with
    | none => exact getElem?_erase_of_ne _ (by simp)
    | some hash => exact getElem?_insert_of_ne _ _ (by simp)
  unfold lookupTxo
  rw [hrow]

theorem rollback_phase (htruthful : Truthful T (lookupTxo x.store.disk.txstore))
    (hchain : IsChain T (q ++ a)) (hscripts : x.scripts = [])
    (h : rollback cfg daemon ((removedEntries q a).map BlockEntry.entry)
      (if a.isEmpty then none else q.getLast?.map Block.hash) x = .ok x') :
    exists rss, List.Forall₂ (IndexRows T cfg) (removedEntries q a) rss ∧
      x' = ((x.emit (rollbackOps q a ++ rss.flatten.map deleteHistoryRow ++
          (addBlocks cfg (removedEntries q a)).map deleteTxstoreRow ++
          cacheDeletes (scriptHashes rss.flatten))).send (scriptHashes rss.flatten)).setAdded
          (x.store.addedBlockhashes \ blockhashes (removedEntries q a)) := by
  cases a with
  | nil =>
    refine ⟨[], List.Forall₂.nil, ?_⟩
    cases h
    simp [rollbackOps, removedEntries, blockEntriesFrom, addBlocks,
      cacheDeletes, scriptHashes, blockhashes, Exec.send, Exec.setAdded]
  | cons b rest =>
    have hfetch : bitcoindSequentialFetcher daemon
        ((removedEntries q (b :: rest)).map BlockEntry.entry) =
          .ok (chunks 100 (removedEntries q (b :: rest))) :=
      (fetchable_removedEntries hchain).bitcoindSequentialFetcher_eq
    have hflatten : (chunks 100 (removedEntries q (b :: rest))).flatten =
        removedEntries q (b :: rest) := flatten_chunks (by decide) _
    have hne : ((removedEntries q (b :: rest)).map BlockEntry.entry).isEmpty = false := by
      simp [removedEntries, blockEntriesFrom]
    unfold rollback at h
    rw [hne, if_neg (by simp)] at h
    unfold reorg at h
    rw [hfetch] at h
    rcases bind_eq_ok.mp h with ⟨batches, hbatches, h⟩
    cases hbatches
    rcases bind_eq_ok.mp h with ⟨x1, hdelete, h⟩
    rcases bind_eq_ok.mp h with ⟨batches, hbatches, hpure⟩
    cases hbatches
    have hrolled (tip : Option BlockHash) :
        Truthful T (lookupTxo (x.emit [rollbackOp tip]).store.disk.txstore) := by
      rw [funext (lookupTxo_rollbackOp tip)]
      exact htruthful
    rcases foldlM_index_delete (hrolled _) hdelete with ⟨rss, hrss, rfl⟩
    rw [hflatten] at hrss
    refine ⟨rss, hrss, ?_⟩
    rw [← pure_eq_ok.mp hpure, foldl_add_deleteBlocks, hflatten,
      ← Exec.emit_emit, ← Exec.emit_emit, ← Exec.emit_emit]
    simp [Exec.send, Exec.setAdded, Exec.emit, hscripts, rollbackOps, cacheDeletes]

theorem map_entry_unmarkedEntries (q n : List Block) (marked : Finset BlockHash) :
    (unmarkedEntries q n marked).map BlockEntry.entry =
      (entriesFrom q.length n).filter fun e => e.hash ∉ marked := by
  rw [unmarkedEntries, ← map_entry_blockEntriesFrom, List.filter_map]
  rfl

theorem fetchable_unmarkedEntries (hchain : IsChain T (q ++ n)) (marked : Finset BlockHash) :
    Fetchable T (unmarkedEntries q n marked) :=
  (Fetchable.of_chain hchain).sublist List.filter_sublist

theorem startAutoCompactions_eq (x : Exec) (compacted : Bool) (mark : DbOp) :
    exists ops, MarkOps mark ops ∧ startAutoCompactions x compacted mark = x.emit ops := by
  cases compacted with
  | true => exact ⟨[], Or.inl rfl, by simp [startAutoCompactions]⟩
  | false => exact ⟨[mark], Or.inr rfl, rfl⟩

theorem compactTxstore_eq (x : Exec) :
    exists ops, MarkOps (.txstore (.put .compacted .empty)) ops ∧ compactTxstore x = x.emit ops :=
  startAutoCompactions_eq x _ _

theorem compactHistory_eq (x : Exec) :
    exists ops, MarkOps (.history (.put .compacted [])) ops ∧ compactHistory x = x.emit ops :=
  startAutoCompactions_eq x _ _

theorem compactCache_eq (x : Exec) :
    exists ops, MarkOps (.cache (.put .compacted .empty)) ops ∧ compactCache x = x.emit ops :=
  startAutoCompactions_eq x _ _

theorem truthful_addBatches {batches : List (List BlockEntry)}
    (htruthful : Truthful T (lookupTxo x.store.disk.txstore))
    (hfetch : Fetchable T batches.flatten) {mark : List DbOp}
    (hmark : MarkOps (.txstore (.put .compacted .empty)) mark) :
    Truthful T (lookupTxo (x.emit ((batches.map fun blocks =>
      .txstore (.write (addBlocks cfg blocks))) ++ mark)).store.disk.txstore) := by
  intro outpoint txo htxo
  rw [lookupTxo_eq_some, Exec.emit_disk, Disk.txstore_replay] at htxo
  rcases getElem?_replay_source htxo with hold | ⟨op, hop, hmem⟩
  · exact htruthful outpoint txo (lookupTxo_eq_some.mpr hold)
  rcases List.mem_append.mp (DbOp.mem_filterMap_txstore?.mp hop) with hwrite | hput
  · rcases List.mem_map.mp hwrite with ⟨blocks, hblocks, heq⟩
    cases heq
    rcases mem_addBlocks.mp hmem with ⟨be, hbe, hrow⟩
    apply hasTxo_of_addRow _ hrow
    exact hfetch.stored be (List.mem_flatten.mpr ⟨blocks, hblocks, hbe⟩)
  · cases hmark.eq_of_mem hput
    simp [TableOp.rows] at hmem

theorem rollForward_phase (htruthful : Truthful T (lookupTxo x.store.disk.txstore))
    (hchain : IsChain T (q ++ n))
    (h : rollForward cfg fetchFrom daemon (entriesFrom q.length n) x = .ok x') :
    exists (addBatches indexBatches : List (List BlockEntry)) (indexRows : List (List HistoryRow))
      (txstoreMark historyMark cacheMark : List DbOp),
      addBatches.flatten.Perm (unmarkedEntries q n x.store.addedBlockhashes) ∧
      indexBatches.flatten.Perm (unmarkedEntries q n x.store.indexedBlockhashes) ∧
      List.Forall₂ (BatchRows T cfg) indexBatches indexRows ∧
      MarkOps (.txstore (.put .compacted .empty)) txstoreMark ∧
      MarkOps (.history (.put .compacted [])) historyMark ∧
      MarkOps (.cache (.put .compacted .empty)) cacheMark ∧
      x' = (x.emit ( (addBatches.map fun blocks =>
          .txstore (.write (addBlocks cfg blocks))) ++ txstoreMark ++
        (indexRows.map fun rows => .history (.write rows)) ++
        (historyMark ++ cacheMark) ++
        [.txstore (.put .tip (.blockhash (tipHash daemon.best.blocks)))])).setAdded
        (x.store.addedBlockhashes ∪ blockhashes addBatches.flatten) := by
  simp only [rollForward, headersToAdd, headersToIndex, ← map_entry_unmarkedEntries] at h
  rcases bind_eq_ok.mp h with ⟨addBatches, hadd, h⟩
  have haddFetch := fetchable_unmarkedEntries hchain x.store.addedBlockhashes
  have haddPerm := haddFetch.startFetcher_perm hadd
  rcases compactTxstore_eq (addBatches.foldl (add cfg .addBlocks) x)
    with ⟨txstoreMark, htxMark, htxEq⟩
  rw [htxEq, foldl_add_addBlocks] at h
  rcases bind_eq_ok.mp h with ⟨indexBatches, hindex, h⟩
  have hindexPerm := (fetchable_unmarkedEntries hchain _).startFetcher_perm hindex
  rcases bind_eq_ok.mp h with ⟨x1, hfold, hpure⟩
  have htruthful' : Truthful T (lookupTxo (x.emit ((addBatches.map
      fun blocks => .txstore (.write (addBlocks cfg blocks))) ++
        txstoreMark)).store.disk.txstore) :=
    truthful_addBatches htruthful (haddFetch.perm haddPerm) htxMark
  rw [← Exec.emit_emit] at htruthful'
  have hindexed := fun htruthful => foldlM_index_add (T := T) htruthful hfold
  rcases hindexed htruthful' with ⟨indexRows, hrows, hx1⟩
  rcases compactHistory_eq x1 with ⟨historyMark, hhMark, hhEq⟩
  rcases compactCache_eq (x1.emit historyMark) with ⟨cacheMark, hcMark, hcEq⟩
  refine ⟨addBatches, indexBatches, indexRows, txstoreMark, historyMark,
    cacheMark, haddPerm, hindexPerm, hrows, htxMark, hhMark, hcMark, ?_⟩
  rw [← pure_eq_ok.mp hpure, hhEq, hcEq, hx1]
  simp only [← Exec.emit_emit]
  rfl

theorem exists_trace (hrep : store.indexedHeaders.Represents c) (hc : IsChain T c)
    (htruthful : Truthful T (lookupTxo store.disk.txstore))
    (h : update cfg fetchFrom daemon store = .ok x) :
    Nonempty (Trace cfg store c daemon x) := by
  rcases update_eq hrep hc with ⟨hmismatch, _⟩ | ⟨q, a, n, headers, hfork, hadvances, hheaders, heq⟩
  · rw [hmismatch] at h
    cases h
  rw [heq] at h
  rcases bind_eq_ok.mp h with ⟨x1, hrollback, hforward⟩
  have hqa : IsChain T (q ++ a) := hfork.left_eq ▸ hc
  have hqn : IsChain T (q ++ n) := hfork.right_eq ▸ daemon.best.valid.toIsChain
  rcases rollback_phase htruthful hqa rfl hrollback with ⟨rss, hrss, hx1⟩
  have htruthful1 : Truthful T (lookupTxo x1.store.disk.txstore) := by
    rw [hx1]
    intro outpoint txo htxo
    rw [lookupTxo_eq_some] at htxo
    change (store.disk.replay _).txstore[_]? = _ at htxo
    rw [Trace.txstore_rollbackOps] at htxo
    rcases getElem?_replay_source htxo with hold | ⟨op, hop, hmem⟩
    · rw [Trace.getElem?_tipOps _ _ _ (by simp)] at hold
      exact htruthful outpoint txo (lookupTxo_eq_some.mpr hold)
    · rcases List.mem_map.mp hop with ⟨k, _, rfl⟩
      cases hmem
  rcases rollForward_phase htruthful1 hqn hforward with
    ⟨addBatches, indexBatches, indexRows, txstoreMark, historyMark, cacheMark,
      haddPerm, hindexPerm, hrows, htxMark, hhMark, hcMark, hx⟩
  rw [hx1] at hx haddPerm hindexPerm
  constructor
  exact {
    q := q
    a := a
    n := n
    fork := hfork
    advances := hadvances
    removedRows := rss
    removedRows_spec := hrss
    addBatches := addBatches
    addBatches_perm := haddPerm
    indexBatches := indexBatches
    indexBatches_perm := hindexPerm
    indexRows := indexRows
    indexRows_spec := hrows
    txstoreMark := txstoreMark
    txstoreMark_spec := htxMark
    otherMarks := historyMark ++ cacheMark
    otherMarks_spec := ⟨historyMark, cacheMark, hhMark, hcMark, rfl⟩
    log_eq := by
      rw [hx]
      simp [Exec.setAdded, Exec.send]
    headers := by
      rw [hx]
      exact hheaders
    added_eq := by
      rw [hx]
      rfl
    indexed_eq := by
      rw [hx]
      rfl
    disk_eq := by
      rw [hx]
      simp [Exec.setAdded, Exec.send, Disk.replay_append] }

end Phases

/-!
## The tables after an update
-/

namespace Trace

variable {T : BlockTree} {cfg : IndexerConfig} {daemon : Daemon T}
  {store : Store} {c : List Block} {x : Exec}

theorem txstoreOps_eq (tr : Trace cfg store c daemon x) :
    x.log.filterMap DbOp.txstore? = tipOps tr.q tr.a ++
      ((addBlocks cfg (removedEntries tr.q tr.a)).map Prod.fst).map TableOp.delete ++
      (tr.addBatches.map fun blocks => .write (addBlocks cfg blocks)) ++
      (tr.txstoreMark.filterMap DbOp.txstore? ++
        [.put .tip (.blockhash (tipHash daemon.best.blocks))]) := by
  rcases tr.otherMarks_spec with ⟨historyMark, cacheMark, hhMark, hcMark, hmarks⟩
  have hcache := filterMap_cacheDeletes_of_none (f := DbOp.txstore?)
    (fun _ => rfl) (scriptHashes tr.removedRows.flatten)
  have hhistory := filterMap_mark_of_none (f := DbOp.txstore?) hhMark rfl
  have hcompacted := filterMap_mark_of_none (f := DbOp.txstore?) hcMark rfl
  rw [tr.log_eq, hmarks]
  simp only [List.filterMap_append, filterMap_txstore?_deleteHistoryRow,
    filterMap_txstore?_deleteTxstoreRow, filterMap_txstore?_writes,
    filterMap_txstore?_historyWrites, hcache, hhistory, hcompacted,
    List.append_assoc, tipOps]
  rfl

theorem historyOps_eq (tr : Trace cfg store c daemon x) :
    exists mark : List (TableOp HistoryKey Bytes), (mark = [] ∨ mark = [.put .compacted []]) ∧
      x.log.filterMap DbOp.history? = (tr.removedRows.flatten.map Prod.fst).map TableOp.delete ++
        tr.indexRows.map TableOp.write ++ mark := by
  rcases tr.otherMarks_spec with ⟨historyMark, cacheMark, hhMark, hcMark, hmarks⟩
  have hcache := filterMap_cacheDeletes_of_none (f := DbOp.history?)
    (fun _ => rfl) (scriptHashes tr.removedRows.flatten)
  have htxstore :=
    filterMap_mark_of_none (f := DbOp.history?) tr.txstoreMark_spec rfl
  have hcompacted := filterMap_mark_of_none (f := DbOp.history?) hcMark rfl
  have htip : [DbOp.txstore (.put .tip (.blockhash
      (tipHash daemon.best.blocks)))].filterMap DbOp.history? = [] := rfl
  refine ⟨historyMark.filterMap DbOp.history?, ?_, ?_⟩
  · rcases hhMark with rfl | rfl
    · exact Or.inl rfl
    · exact Or.inr rfl
  · rw [tr.log_eq, hmarks]
    simp only [List.filterMap_append, filterMap_history?_deleteHistoryRow,
      filterMap_history?_deleteTxstoreRow, filterMap_history?_txstoreWrites,
      filterMap_history?_writes, hcache, htxstore, hcompacted, htip,
      filterMap_history?_rollbackOps, List.append_nil, List.nil_append,
      List.append_assoc]

theorem txstore_eq (tr : Trace cfg store c daemon x) :
    x.store.disk.txstore = replay (writeRows (replay (replay store.disk.txstore (tipOps tr.q tr.a))
            (((addBlocks cfg (removedEntries tr.q tr.a)).map Prod.fst).map TableOp.delete))
          (addBlocks cfg tr.addBatches.flatten))
        (tr.txstoreMark.filterMap DbOp.txstore? ++
          [.put .tip (.blockhash (tipHash daemon.best.blocks))]) := by
  rw [tr.disk_eq, Disk.txstore_replay, tr.txstoreOps_eq, ← replay_addBlocks]
  simp only [replay_append]

theorem history_eq (tr : Trace cfg store c daemon x) :
    exists mark : List (TableOp HistoryKey Bytes), (mark = [] ∨ mark = [.put .compacted []]) ∧
      x.store.disk.history = replay (writeRows (replay store.disk.history
              ((tr.removedRows.flatten.map Prod.fst).map TableOp.delete))
            tr.indexRows.flatten)
          mark := by
  rcases tr.historyOps_eq with ⟨mark, hmark, hops⟩
  refine ⟨mark, hmark, ?_⟩
  rw [tr.disk_eq, Disk.history_replay, hops, replay_append, replay_append, replay_writes]

variable {k : TxstoreKey}

theorem getElem?_txstore (tr : Trace cfg store c daemon x) (htip : k ≠ .tip)
    (hcompacted : k ≠ .compacted) :
    x.store.disk.txstore[k]? = (writeRows (replay (replay store.disk.txstore (tipOps tr.q tr.a))
          (((addBlocks cfg (removedEntries tr.q tr.a)).map Prod.fst).map TableOp.delete))
        (addBlocks cfg tr.addBatches.flatten))[k]? := by
  rw [tr.txstore_eq]
  apply getElem?_replay_of_untouched
  intro op hop
  rcases List.mem_append.mp hop with hmark | hlast
  · cases tr.txstoreMark_spec.eq_of_mem (DbOp.mem_filterMap_txstore?.mp hmark)
    simpa [TableOp.keys] using hcompacted
  · rw [List.mem_singleton.mp hlast]
    simpa [TableOp.keys] using htip

theorem getElem?_history (tr : Trace cfg store c daemon x) {k : HistoryKey}
    (hcompacted : k ≠ .compacted) :
    x.store.disk.history[k]? = (writeRows (replay store.disk.history
          ((tr.removedRows.flatten.map Prod.fst).map TableOp.delete))
        tr.indexRows.flatten)[k]? := by
  rcases tr.history_eq with ⟨mark, hmark, heq⟩
  rw [heq]
  apply getElem?_replay_of_untouched
  intro op hop
  rcases hmark with rfl | rfl
  · cases hop
  · rw [List.mem_singleton.mp hop]
    simpa [TableOp.keys] using hcompacted

theorem mem_removedRows_keys (tr : Trace cfg store c daemon x) {k : HistoryKey} :
    k ∈ tr.removedRows.flatten.map Prod.fst <->
      exists be, be ∈ removedEntries tr.q tr.a ∧ IndexRow T cfg be k := by
  rw [List.mem_map]
  constructor
  · rintro ⟨⟨k', v⟩, hrow, rfl⟩
    exact ((mem_flatten_of_forall₂ tr.removedRows_spec).mp hrow).right
  · intro h
    exact ⟨(k, []), (mem_flatten_of_forall₂ tr.removedRows_spec).mpr ⟨rfl, h⟩, rfl⟩

theorem mem_addBlocks_keys {bes : List BlockEntry} :
    k ∈ (addBlocks cfg bes).map Prod.fst <-> exists be, be ∈ bes ∧ exists v, AddRow cfg be k v := by
  rw [List.mem_map]
  constructor
  · rintro ⟨⟨k', v⟩, hrow, rfl⟩
    rcases mem_addBlocks.mp hrow with ⟨be, hbe, hadd⟩
    exact ⟨be, hbe, v, hadd⟩
  · rintro ⟨be, hbe, v, hadd⟩
    exact ⟨(k, v), mem_addBlocks.mpr ⟨be, hbe, hadd⟩, rfl⟩

theorem txstore_mem_log (tr : Trace cfg store c daemon x) {op : TableOp TxstoreKey TxstoreValue}
    (h : DbOp.txstore op ∈ x.log) :
    op.keys = [.tip] ∨
    (exists k, op = .delete k ∧ exists be, be ∈ removedEntries tr.q tr.a ∧
      exists v, AddRow cfg be k v) ∨
    (exists blocks, blocks ∈ tr.addBatches ∧ op = .write (addBlocks cfg blocks)) ∨
    op = .put .compacted .empty := by
  rw [← DbOp.mem_filterMap_txstore?, tr.txstoreOps_eq] at h
  simp only [List.mem_append] at h
  rcases h with ((htip | hdelete) | hwrite) | hmark | hlast
  · exact Or.inl (keys_of_mem_tipOps htip)
  · rcases List.mem_map.mp hdelete with ⟨k, hk, rfl⟩
    exact Or.inr (Or.inl ⟨k, rfl, mem_addBlocks_keys.mp hk⟩)
  · rcases List.mem_map.mp hwrite with ⟨blocks, hblocks, rfl⟩
    exact Or.inr (Or.inr (Or.inl ⟨blocks, hblocks, rfl⟩))
  · cases tr.txstoreMark_spec.eq_of_mem (DbOp.mem_filterMap_txstore?.mp hmark)
    exact Or.inr (Or.inr (Or.inr rfl))
  · cases List.mem_singleton.mp hlast
    exact Or.inl rfl

theorem history_mem_log (tr : Trace cfg store c daemon x) {op : TableOp HistoryKey Bytes}
    (h : DbOp.history op ∈ x.log) :
    (exists k, op = .delete k ∧ exists be, be ∈ removedEntries tr.q tr.a ∧ IndexRow T cfg be k) ∨
    (exists rows, rows ∈ tr.indexRows ∧ op = .write rows) ∨ op = .put .compacted [] := by
  rcases tr.historyOps_eq with ⟨mark, hmark, heq⟩
  rw [← DbOp.mem_filterMap_history?, heq] at h
  simp only [List.mem_append] at h
  rcases h with (hdelete | hwrite) | hlast
  · rcases List.mem_map.mp hdelete with ⟨k, hk, rfl⟩
    exact Or.inl ⟨k, rfl, tr.mem_removedRows_keys.mp hk⟩
  · rcases List.mem_map.mp hwrite with ⟨rows, hrows, rfl⟩
    exact Or.inr (Or.inl ⟨rows, hrows, rfl⟩)
  · rcases hmark with rfl | rfl
    · cases hlast
    · exact Or.inr (Or.inr (List.mem_singleton.mp hlast))

theorem cache_mem_log (tr : Trace cfg store c daemon x) {op : TableOp CacheKey CacheValue}
    (h : DbOp.cache op ∈ x.log) :
    (exists k, op = .delete k ∧ k ≠ .version) ∨ op = .put .compacted .empty := by
  rcases tr.otherMarks_spec with ⟨historyMark, cacheMark, hhMark, hcMark, hmarks⟩
  rw [tr.log_eq, hmarks] at h
  simp only [List.mem_append, List.mem_map, deleteHistoryRow, deleteTxstoreRow,
    List.mem_singleton, reduceCtorEq, and_false, exists_false, or_false] at h
  rcases h with ((hroll | hdelete) | hmark) | hmark | hmark
  · rcases mem_rollbackOps hroll with ⟨_, heq, _⟩
    cases heq
  · rcases List.mem_flatMap.mp hdelete with ⟨script, _, hscript⟩
    simp only [List.mem_cons, List.not_mem_nil, or_false, DbOp.cache.injEq] at hscript
    rcases hscript with rfl | rfl
    · exact Or.inl ⟨_, rfl, by simp⟩
    · exact Or.inl ⟨_, rfl, by simp⟩
  · cases tr.txstoreMark_spec.eq_of_mem hmark
  · cases hhMark.eq_of_mem hmark
  · cases hcMark.eq_of_mem hmark
    exact Or.inr rfl

def KeepsVersion : DbOp -> Prop
  | .txstore op => .version ∉ op.keys
  | .history op => .version ∉ op.keys
  | .cache op => .version ∉ op.keys

theorem keepsVersion (tr : Trace cfg store c daemon x) {op : DbOp}
    (hop : op ∈ x.log) : KeepsVersion op := by
  cases op with
  | txstore op =>
    intro hversion
    rcases tr.txstore_mem_log hop with hkeys | ⟨k, rfl, be, _, v, hrow⟩ | ⟨blocks, _, rfl⟩ | rfl
    · rw [hkeys] at hversion
      cases List.mem_singleton.mp hversion
    · cases List.mem_singleton.mp hversion
      cases hrow
    · rcases mem_addBlocks_keys.mp hversion with ⟨be, _, v, hrow⟩
      cases hrow
    · cases List.mem_singleton.mp hversion
  | history op =>
    intro hversion
    rcases tr.history_mem_log hop with ⟨k, rfl, be, _, hrow⟩ | ⟨rows, hrows, rfl⟩ | rfl
    · cases List.mem_singleton.mp hversion
      cases hrow
    · rcases List.mem_map.mp hversion with ⟨⟨k, v⟩, hrow, hk⟩
      have hmem := List.mem_flatten.mpr ⟨rows, hrows, hrow⟩
      rcases (mem_flatten_of_batchRows tr.indexRows_spec).mp hmem with ⟨_, be, _, hindex⟩
      cases hk
      cases hindex
    · cases List.mem_singleton.mp hversion
  | cache op =>
    intro hversion
    rcases tr.cache_mem_log hop with ⟨k, rfl, hk⟩ | rfl
    · exact hk (List.mem_singleton.mp hversion).symm
    · cases List.mem_singleton.mp hversion

theorem cache_source (tr : Trace cfg store c daemon x) {key : CacheKey}
    {value : CacheValue} (hkey : key ≠ .compacted)
    (h : x.store.disk.cache[key]? = some value) :
    store.disk.cache[key]? = some value := by
  rw [tr.disk_eq, Disk.cache_replay] at h
  rcases getElem?_replay_source h with hold | ⟨op, hop, hrow⟩
  · exact hold
  · rcases tr.cache_mem_log (DbOp.mem_filterMap_cache?.mp hop) with ⟨k, rfl, _⟩ | rfl
    · cases hrow
    · cases List.mem_singleton.mp hrow
      exact absurd rfl hkey

end Trace

theorem Disk.Verified.replay {cfg : IndexerConfig} {disk : Disk}
    {ops : List DbOp} (h : disk.Verified cfg)
    (hops : forall op, op ∈ ops -> Trace.KeepsVersion op) :
    (disk.replay ops).Verified cfg := by
  refine ⟨?_, ?_, ?_⟩
  · rw [Disk.txstore_replay, getElem?_replay_of_untouched]
    · exact h.txstore
    · intro op hop
      exact hops _ (DbOp.mem_filterMap_txstore?.mp hop)
  · rw [Disk.history_replay, getElem?_replay_of_untouched]
    · exact h.history
    · intro op hop
      exact hops _ (DbOp.mem_filterMap_history?.mp hop)
  · rw [Disk.cache_replay, getElem?_replay_of_untouched]
    · exact h.cache
    · intro op hop
      exact hops _ (DbOp.mem_filterMap_cache?.mp hop)

end NewIndex
end Splora
