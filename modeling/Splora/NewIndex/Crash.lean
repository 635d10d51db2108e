import Splora.NewIndex.Recovery

/-!
# Crashes during an update

A crash leaves a prefix of the operations of an update.  It can be recovered from, except in the
middle of the deletes of a block: its mark, the last of its rows, is still there, and the block
is taken for whole if it returns.
-/

namespace Splora
namespace NewIndex

open Foundation

def PartlyDeleted (T : BlockTree) (cfg : IndexerConfig) (ops : List DbOp)
    (be : BlockEntry) : Prop :=
  ((exists k, ¬ IsAddr k ∧ IndexRow T cfg be k ∧ DbOp.history (.delete k) ∈ ops) ∧
    DbOp.history (.delete (.done be.entry.hash)) ∉ ops) ∨
  ((exists k v, AddRow cfg be k v ∧ DbOp.txstore (.delete k) ∈ ops) ∧
    DbOp.txstore (.delete (.done be.entry.hash)) ∉ ops)

/-!
## Disks that hold whole blocks
-/

section Whole

variable {T : BlockTree} {cfg : IndexerConfig} {disk : Disk}
  {r e d : List Block} {added indexed : Set BlockEntry}

structure HoldsWhole (T : BlockTree) (cfg : IndexerConfig) (disk : Disk)
    (e : List Block) (added indexed : Set BlockEntry) : Prop where
  valid : ValidChain T e
  txstore : Materializes IsStoreKey (AddRow cfg) disk.txstore added
  history : Materializes IsHistoryKey (HistoryRows T cfg) disk.history indexed
  added_sub : added ⊆ entrySet e
  indexed_sub : indexed ⊆ entrySet e

namespace HoldsWhole

theorem recoverable (h : HoldsWhole T cfg disk e added indexed)
    (hverified : disk.Verified cfg) (hkept : r <+: e)
    (htip : disk.txstore[TxstoreKey.tip]? =
      if r.isEmpty then none else some (.blockhash (tipHash r)))
    (hadded : entrySet r ⊆ added) (hindexed : entrySet r ⊆ indexed)
    (hproduced : forall be, be ∈ entrySet e -> exists rows, IndexRows T cfg be rows) :
    Recoverable T cfg disk r e where
  verified := hverified
  valid := h.valid
  kept := hkept
  tip_eq := htip
  truthful :=
    truthful_of_materializes h.valid.toIsChain h.txstore h.added_sub
  kept_txstore := by
    intro be hbe k v hrow
    exact h.txstore.getElem? (isStoreKey_of_addRow hrow) (hadded hbe) hrow
  kept_history := by
    intro be hbe k haddr hrow
    exact h.history.getElem? (isHistoryKey_of_indexRow hrow haddr) (hindexed hbe) ⟨rfl, hrow⟩
  marked_txstore := by
    intro hash hmarked
    rcases (stored_done_iff h.txstore).mp hmarked with ⟨be, hbe, rfl⟩
    exact hash_mem_of_mem_entrySet (h.added_sub hbe)
  marked_history := by
    intro hash hmarked
    rcases (indexed_done_iff h.history).mp hmarked with ⟨be, hbe, rfl⟩
    exact hash_mem_of_mem_entrySet (h.indexed_sub hbe)
  produced := hproduced

theorem markedWhole (h : HoldsWhole T cfg disk e added indexed)
    (hd : IsChain T d) {be : BlockEntry} (hbe : be ∈ entrySet d) :
    MarkedWhole T cfg disk be := by
  have hsame : forall be', be' ∈ entrySet e -> be'.entry.hash = be.entry.hash -> be' = be := by
    intro be' hbe' hhash
    have hmem := mem_entrySet_of_shared hd h.valid.toIsChain hbe
      (hhash ▸ hash_mem_of_mem_entrySet hbe')
    exact entry_eq_of_hash_eq h.valid.toIsChain hbe' hmem hhash
  constructor
  · intro hmarked k v hrow
    rcases (stored_done_iff h.txstore).mp hmarked with ⟨be', hbe', hhash⟩
    rw [hsame be' (h.added_sub hbe') hhash] at hbe'
    exact h.txstore.getElem? (isStoreKey_of_addRow hrow) hbe' hrow
  · intro hmarked k haddr hrow
    rcases (indexed_done_iff h.history).mp hmarked with ⟨be', hbe', hhash⟩
    rw [hsame be' (h.indexed_sub hbe') hhash] at hbe'
    exact h.history.getElem? (isHistoryKey_of_indexRow hrow haddr) hbe' ⟨rfl, hrow⟩

end HoldsWhole

theorem Inv.holdsWhole {store : Store} {c : List Block} {s : Set BlockEntry}
    (h : Inv T cfg store c s) :
    HoldsWhole T cfg store.disk c (entrySet c) s where
  valid := h.valid
  txstore := h.txstore
  history := h.history
  added_sub := Set.Subset.rfl
  indexed_sub := h.indexed_sub

end Whole

/-!
## The parts of the log
-/

namespace Trace

variable {T : BlockTree} {cfg : IndexerConfig} {store : Store}
  {c : List Block} {daemon : Daemon T} {x : Exec}

def deletePart (tr : Trace cfg store c daemon x) : List DbOp :=
  tr.removedRows.flatten.map deleteHistoryRow ++
    (addBlocks cfg (removedEntries tr.q tr.a)).map deleteTxstoreRow ++
    cacheDeletes (scriptHashes tr.removedRows.flatten)

def writePart (tr : Trace cfg store c daemon x) : List DbOp :=
  (tr.addBatches.map fun blocks => .txstore (.write (addBlocks cfg blocks))) ++ (tr.txstoreMark ++
      ((tr.indexRows.map fun rows => .history (.write rows)) ++ tr.otherMarks))

theorem log_eq_parts (tr : Trace cfg store c daemon x) :
    x.log = rollbackOps tr.q tr.a ++ (tr.deletePart ++ (tr.writePart ++
      [.txstore (.put .tip (.blockhash (tipHash daemon.best.blocks)))])) := by
  rw [tr.log_eq, deletePart, writePart]
  simp only [List.append_assoc]

theorem history_mem_deletePart (tr : Trace cfg store c daemon x) {op : TableOp HistoryKey Bytes} :
    DbOp.history op ∈ tr.deletePart <->
      exists k, op = .delete k ∧
        exists be, be ∈ removedEntries tr.q tr.a ∧ IndexRow T cfg be k := by
  simp only [deletePart, List.mem_append, List.mem_map, deleteHistoryRow,
    deleteTxstoreRow, cacheDeletes, List.mem_flatMap, List.mem_cons,
    List.not_mem_nil, reduceCtorEq, and_false, exists_false, or_false,
    DbOp.history.injEq]
  constructor
  · rintro ⟨⟨k, v⟩, hrow, rfl⟩
    exact ⟨k, rfl, tr.mem_removedRows_keys.mp (List.mem_map_of_mem hrow)⟩
  · rintro ⟨k, rfl, h⟩
    rcases List.mem_map.mp (tr.mem_removedRows_keys.mpr h) with ⟨⟨k', v⟩, hrow, hk⟩
    exact ⟨(k', v), hrow, congrArg TableOp.delete hk⟩

variable {op : TableOp TxstoreKey TxstoreValue}

section

variable (tr : Trace cfg store c daemon x)

include tr

theorem txstore_mem_deletePart :
    DbOp.txstore op ∈ tr.deletePart <->
      exists k, op = .delete k ∧ exists be, be ∈ removedEntries tr.q tr.a ∧
          exists v, AddRow cfg be k v := by
  simp only [deletePart, List.mem_append, List.mem_map, deleteHistoryRow,
    deleteTxstoreRow, cacheDeletes, List.mem_flatMap, List.mem_cons,
    List.not_mem_nil, reduceCtorEq, and_false, exists_false, or_false,
    false_or, DbOp.txstore.injEq]
  constructor
  · rintro ⟨⟨k, v⟩, hrow, rfl⟩
    exact ⟨k, rfl, mem_addBlocks_keys.mp (List.mem_map_of_mem hrow)⟩
  · rintro ⟨k, rfl, h⟩
    rcases List.mem_map.mp (mem_addBlocks_keys.mpr h) with ⟨⟨k', v⟩, hrow, hk⟩
    exact ⟨(k', v), hrow, congrArg TableOp.delete hk⟩

theorem history_delete_mem_log {k : HistoryKey} (h : DbOp.history (.delete k) ∈ x.log) :
    exists be, be ∈ removedEntries tr.q tr.a ∧ IndexRow T cfg be k := by
  rcases tr.history_mem_log h with ⟨k', heq, hrow⟩ | ⟨_, _, heq⟩ | heq
  · cases heq
    exact hrow
  · cases heq
  · cases heq

theorem txstore_delete_mem_log {k : TxstoreKey} (htip : k ≠ .tip)
    (h : DbOp.txstore (.delete k) ∈ x.log) :
    exists be, be ∈ removedEntries tr.q tr.a ∧ exists v, AddRow cfg be k v := by
  rcases tr.txstore_mem_log h with hkeys | ⟨k', heq, hrow⟩ | ⟨_, _, heq⟩ | heq
  · exact absurd (List.cons.inj hkeys).left htip
  · cases heq
    exact hrow
  · cases heq
  · cases heq

theorem mem_of_removed {be : BlockEntry} (h : be ∈ removedEntries tr.q tr.a) : be ∈ entrySet c :=
  (entrySet_left tr.fork).mpr (Or.inr (mem_removedEntries.mp h))

theorem not_partlyDeleted (hc : ValidChain T c) {ops : List DbOp}
    (hdeletes : forall op, op ∈ tr.deletePart -> op ∈ ops)
    (hlog : forall op, op ∈ ops -> op ∈ x.log) {be : BlockEntry} (hbe : be ∈ entrySet c) :
    ¬ PartlyDeleted T cfg ops be := by
  rintro (⟨⟨k, haddr, hrow, hmem⟩, hmark⟩ | ⟨⟨k, v, hrow, hmem⟩, hmark⟩)
  · rcases tr.history_delete_mem_log (hlog _ hmem) with ⟨be', hbe', hrow'⟩
    have heq := indexRow_unique hc (tr.mem_of_removed hbe') hbe haddr hrow' hrow
    apply hmark
    apply hdeletes
    rw [heq] at hbe'
    exact tr.history_mem_deletePart.mpr ⟨_, rfl, be, hbe', IndexRow.done⟩
  · rcases tr.txstore_delete_mem_log (isStoreKey_of_addRow hrow).left
      (hlog _ hmem) with ⟨be', hbe', v', hrow'⟩
    have heq := (addRow_unique hc (tr.mem_of_removed hbe') hbe hrow' hrow rfl).left
    apply hmark
    apply hdeletes
    rw [heq] at hbe'
    exact tr.txstore_mem_deletePart.mpr ⟨_, rfl, be, hbe', _, AddRow.done⟩

theorem txstore_mem_writePart (h : DbOp.txstore op ∈ tr.writePart) :
    (exists blocks, blocks ∈ tr.addBatches ∧
      op = .write (addBlocks cfg blocks)) ∨ op = .put .compacted .empty := by
  rcases tr.otherMarks_spec with ⟨historyMark, cacheMark, hhMark, hcMark, hmarks⟩
  rw [writePart, hmarks] at h
  simp only [List.mem_append] at h
  rcases h with h | h | h | h | h
  · rcases List.mem_map.mp h with ⟨blocks, hblocks, heq⟩
    cases heq
    exact Or.inl ⟨blocks, hblocks, rfl⟩
  · cases tr.txstoreMark_spec.eq_of_mem h
    exact Or.inr rfl
  · rcases List.mem_map.mp h with ⟨rows, _, heq⟩
    cases heq
  · cases hhMark.eq_of_mem h
  · cases hcMark.eq_of_mem h

theorem tip_untouched (disk : Disk) {ops : List DbOp}
    (hops : forall op, op ∈ ops -> op ∈ tr.deletePart ∨ op ∈ tr.writePart) :
    (disk.replay ops).txstore[TxstoreKey.tip]? = disk.txstore[TxstoreKey.tip]? := by
  rw [Disk.txstore_replay]
  apply getElem?_replay_of_untouched
  intro op hop
  rcases hops _ (DbOp.mem_filterMap_txstore?.mp hop) with hdelete | hwrite
  · rcases tr.txstore_mem_deletePart.mp hdelete with ⟨k, rfl, be, _, v, hrow⟩
    intro htip
    exact (isStoreKey_of_addRow hrow).left (List.mem_singleton.mp htip).symm
  · rcases tr.txstore_mem_writePart hwrite with ⟨blocks, _, rfl⟩ | rfl
    · intro htip
      rcases mem_addBlocks_keys.mp htip with ⟨be, _, v, hrow⟩
      exact (isStoreKey_of_addRow hrow).left rfl
    · simp [TableOp.keys]

end

end Trace

theorem Inv.tip_rolled {T : BlockTree} {cfg : IndexerConfig} {store : Store}
    {c q a : List Block} {s : Set BlockEntry} (h : Inv T cfg store c s)
    (hleft : c = q ++ a) :
    (store.disk.replay (rollbackOps q a)).txstore[TxstoreKey.tip]? =
      if q.isEmpty then none else some (.blockhash (tipHash q)) := by
  cases a with
  | nil =>
    rw [List.append_nil] at hleft
    rw [← hleft]
    exact h.tip_eq
  | cons b rest =>
    rcases List.eq_nil_or_concat q with rfl | ⟨front, last, rfl⟩
    · exact getElem?_erase_self _ _
    · rw [List.concat_eq_append]
      have hops : rollbackOps (front ++ [last]) (b :: rest) =
          [.txstore (.put .tip (.blockhash last.hash))] := by
        simp [rollbackOps, rollbackOp]
      rw [hops, tipHash_append_singleton]
      rw [if_neg (by simp)]
      exact getElem?_insert_self _ _ _

/-!
## A crash among the deletes
-/

section Deletes

variable {T : BlockTree} {cfg : IndexerConfig} {store : Store}
  {c d : List Block} {daemon : Daemon T} {x : Exec} {ops : List DbOp}

theorem Trace.txstore_deletes (tr : Trace cfg store c daemon x)
    (hops : forall op, op ∈ ops -> op ∈ tr.deletePart) {k : TxstoreKey}
    (htip : k ≠ .tip) {v : TxstoreValue} :
    (store.disk.replay (rollbackOps tr.q tr.a ++ ops)).txstore[k]? = some v <->
      DbOp.txstore (.delete k) ∉ rollbackOps tr.q tr.a ++ ops ∧
        store.disk.txstore[k]? = some v := by
  rw [Disk.txstore_replay, ← DbOp.mem_filterMap_txstore?]
  apply getElem?_replay_deletes
  intro op hop hkey
  rw [List.filterMap_append] at hop
  rcases List.mem_append.mp hop with hroll | hdelete
  · rw [Trace.keys_of_mem_tipOps hroll] at hkey
    exact absurd (List.mem_singleton.mp hkey) htip
  · have hmem := hops _ (DbOp.mem_filterMap_txstore?.mp hdelete)
    rcases tr.txstore_mem_deletePart.mp hmem with ⟨k', rfl, _⟩
    rw [List.mem_singleton.mp hkey]

theorem Trace.history_deletes_of_mem (tr : Trace cfg store c daemon x)
    (hops : forall op, op ∈ ops -> op ∈ rollbackOps tr.q tr.a ∨ op ∈ tr.deletePart)
    {k : HistoryKey} {v : Bytes} :
    (store.disk.replay ops).history[k]? = some v <->
      DbOp.history (.delete k) ∉ ops ∧ store.disk.history[k]? = some v := by
  rw [Disk.history_replay, ← DbOp.mem_filterMap_history?]
  apply getElem?_replay_deletes
  intro op hop hkey
  rcases hops _ (DbOp.mem_filterMap_history?.mp hop) with hroll | hdelete
  · rcases Trace.mem_rollbackOps hroll with ⟨_, heq, _⟩
    cases heq
  · rcases tr.history_mem_deletePart.mp hdelete with ⟨k', rfl, _⟩
    rw [List.mem_singleton.mp hkey]

theorem Trace.history_deletes (tr : Trace cfg store c daemon x)
    (hops : forall op, op ∈ ops -> op ∈ tr.deletePart) {k : HistoryKey} {v : Bytes} :
    (store.disk.replay (rollbackOps tr.q tr.a ++ ops)).history[k]? = some v <->
      DbOp.history (.delete k) ∉ rollbackOps tr.q tr.a ++ ops ∧
        store.disk.history[k]? = some v :=
  tr.history_deletes_of_mem fun op hop => (List.mem_append.mp hop).imp_right (hops op)

theorem Trace.kept_not_deleted (tr : Trace cfg store c daemon x)
    (hc : ValidChain T c) {be : BlockEntry} (hbe : be ∈ entrySet tr.q) :
    (forall k, ¬ IsAddr k -> IndexRow T cfg be k -> DbOp.history (.delete k) ∉ x.log) ∧
    (forall k v, AddRow cfg be k v -> DbOp.txstore (.delete k) ∉ x.log) := by
  rcases (mem_entrySet_sdiff tr.fork hc.toIsChain).mpr hbe with ⟨hbec, hnot⟩
  constructor
  · intro k haddr hrow hmem
    rcases tr.history_delete_mem_log hmem with ⟨be', hbe', hrow'⟩
    rw [indexRow_unique hc (tr.mem_of_removed hbe') hbec haddr hrow' hrow] at hbe'
    exact hnot (mem_removedEntries.mp hbe')
  · intro k v hrow hmem
    rcases tr.txstore_delete_mem_log (isStoreKey_of_addRow hrow).left hmem
      with ⟨be', hbe', v', hrow'⟩
    rw [(addRow_unique hc (tr.mem_of_removed hbe') hbec hrow' hrow rfl).left] at hbe'
    exact hnot (mem_removedEntries.mp hbe')

theorem Trace.mem_log_of_deletes (tr : Trace cfg store c daemon x)
    (hops : forall op, op ∈ ops -> op ∈ tr.deletePart) {op : DbOp}
    (hop : op ∈ rollbackOps tr.q tr.a ++ ops) : op ∈ x.log := by
  rw [tr.log_eq_parts]
  rcases List.mem_append.mp hop with hroll | hdelete
  · exact List.mem_append_left _ hroll
  · exact List.mem_append_right _ (List.mem_append_left _ (hops op hdelete))

section

variable (h : Inv T cfg store c (entrySet c)) (tr : Trace cfg store c daemon x)
  (hops : forall op, op ∈ ops -> op ∈ tr.deletePart)

include h tr hops

theorem Inv.recoverable_deletes :
    Recoverable T cfg (store.disk.replay (rollbackOps tr.q tr.a ++ ops)) tr.q c where
  verified := h.verified.replay fun op hop =>
    tr.keepsVersion (tr.mem_log_of_deletes hops hop)
  valid := h.valid
  kept := ⟨tr.a, tr.fork.left_eq.symm⟩
  tip_eq := by
    rw [Disk.replay_append, tr.tip_untouched _ fun op hop =>
      Or.inl (hops op hop)]
    exact h.tip_rolled tr.fork.left_eq
  truthful := by
    intro outpoint txo htxo
    rw [lookupTxo_eq_some, tr.txstore_deletes hops (by simp)] at htxo
    exact h.truthful outpoint txo (lookupTxo_eq_some.mpr htxo.right)
  kept_txstore := by
    intro be hbe k v hrow
    have hk := isStoreKey_of_addRow hrow
    have hbec := ((mem_entrySet_sdiff tr.fork h.valid.toIsChain).mpr hbe).left
    refine (tr.txstore_deletes hops hk.left).mpr ⟨fun hmem => ?_, h.txstore.getElem? hk hbec hrow⟩
    exact (tr.kept_not_deleted h.valid hbe).right k v hrow (tr.mem_log_of_deletes hops hmem)
  kept_history := by
    intro be hbe k haddr hrow
    have hbec := ((mem_entrySet_sdiff tr.fork h.valid.toIsChain).mpr hbe).left
    refine (tr.history_deletes hops).mpr ⟨fun hmem => ?_,
      h.history.getElem? (isHistoryKey_of_indexRow hrow haddr) hbec ⟨rfl, hrow⟩⟩
    exact (tr.kept_not_deleted h.valid hbe).left k haddr hrow (tr.mem_log_of_deletes hops hmem)
  marked_txstore := by
    intro hash hmarked
    rcases mem_iff_exists.mp hmarked with ⟨v, hv⟩
    have hold := mem_of_getElem? ((tr.txstore_deletes hops (by simp)).mp hv).right
    rcases (stored_done_iff h.txstore).mp hold with ⟨be, hbe, rfl⟩
    exact hash_mem_of_mem_entrySet hbe
  marked_history := by
    intro hash hmarked
    rcases mem_iff_exists.mp hmarked with ⟨v, hv⟩
    have hold := mem_of_getElem? ((tr.history_deletes hops).mp hv).right
    rcases (indexed_done_iff h.history).mp hold with ⟨be, hbe, rfl⟩
    exact hash_mem_of_mem_entrySet hbe
  produced := h.produced

theorem Inv.markedWhole_iff (hd : IsChain T d) {be : BlockEntry} (hbe : be ∈ entrySet d) :
    MarkedWhole T cfg (store.disk.replay (rollbackOps tr.q tr.a ++ ops)) be <->
      (be ∈ entrySet c -> ¬ PartlyDeleted T cfg (rollbackOps tr.q tr.a ++ ops) be) := by
  have hrecoverable := h.recoverable_deletes tr hops
  have hstored := fun hbec k v (hrow : AddRow cfg be k v) =>
    h.txstore.getElem? (isStoreKey_of_addRow hrow) hbec hrow
  have hindexed := fun hbec k haddr (hrow : IndexRow T cfg be k) =>
    h.history.getElem? (isHistoryKey_of_indexRow hrow haddr) hbec (And.intro rfl hrow)
  constructor
  · rintro hwhole hbec (⟨⟨k, haddr, hrow, hmem⟩, hnot⟩ | ⟨⟨k, v, hrow, hmem⟩, hnot⟩)
    · have hmarked := mem_of_getElem? ((tr.history_deletes hops).mpr
        ⟨hnot, hindexed hbec _ (by simp [IsAddr]) IndexRow.done⟩)
      exact ((tr.history_deletes hops).mp (hwhole.history hmarked k haddr hrow)).left hmem
    · have hmarked := mem_of_getElem? ((tr.txstore_deletes hops (by simp)).mpr
        ⟨hnot, hstored hbec _ _ AddRow.done⟩)
      exact ((tr.txstore_deletes hops (isStoreKey_of_addRow hrow).left).mp
        (hwhole.txstore hmarked k v hrow)).left hmem
  · intro hnot
    refine ⟨fun hmarked k v hrow => ?_, fun hmarked k haddr hrow => ?_⟩
    · have hbec := mem_entrySet_of_shared hd h.valid.toIsChain hbe
        (hrecoverable.marked_txstore _ hmarked)
      rcases mem_iff_exists.mp hmarked with ⟨mark, hmark⟩
      have hkept := ((tr.txstore_deletes hops (by simp)).mp hmark).left
      refine (tr.txstore_deletes hops (isStoreKey_of_addRow hrow).left).mpr
        ⟨fun hmem => ?_, hstored hbec k v hrow⟩
      exact hnot hbec (Or.inr ⟨⟨k, v, hrow, hmem⟩, hkept⟩)
    · have hbec := mem_entrySet_of_shared hd h.valid.toIsChain hbe
        (hrecoverable.marked_history _ hmarked)
      rcases mem_iff_exists.mp hmarked with ⟨mark, hmark⟩
      have hkept := ((tr.history_deletes hops).mp hmark).left
      refine (tr.history_deletes hops).mpr ⟨fun hmem => ?_, hindexed hbec k haddr hrow⟩
      exact hnot hbec (Or.inl ⟨⟨k, haddr, hrow, hmem⟩, hkept⟩)

end

end Deletes

/-!
## A crash among the writes
-/

section Writes

variable {T : BlockTree} {cfg : IndexerConfig} {store : Store}
  {c : List Block} {daemon : Daemon T} {x : Exec}

theorem Trace.replay_deletePart_txstore (tr : Trace cfg store c daemon x) :
    (store.disk.replay (rollbackOps tr.q tr.a ++ tr.deletePart)).txstore =
      replay (replay store.disk.txstore (tipOps tr.q tr.a))
        (((addBlocks cfg (removedEntries tr.q tr.a)).map Prod.fst).map TableOp.delete) := by
  rw [deletePart, ← List.append_assoc, ← List.append_assoc]
  exact txstore_rollbackOps store.disk tr.q tr.a _ _

theorem Trace.replay_deletePart_history (tr : Trace cfg store c daemon x) :
    (store.disk.replay (rollbackOps tr.q tr.a ++ tr.deletePart)).history = replay store.disk.history
        ((tr.removedRows.flatten.map Prod.fst).map TableOp.delete) := by
  have hcache := filterMap_cacheDeletes_of_none (f := DbOp.history?)
    (fun _ => rfl) (scriptHashes tr.removedRows.flatten)
  rw [Disk.history_replay, deletePart]
  simp only [List.filterMap_append, filterMap_history?_rollbackOps,
    filterMap_history?_deleteHistoryRow, filterMap_history?_deleteTxstoreRow,
    hcache, List.append_nil, List.nil_append]

theorem Trace.take_writePart (tr : Trace cfg store c daemon x) (j : Nat) :
    exists i mark mark', (forall op, op ∈ mark -> op = TableOp.put .compacted .empty) ∧
      (forall op, op ∈ mark' -> op = TableOp.put .compacted []) ∧
      (tr.writePart.take j).filterMap DbOp.txstore? = ((tr.addBatches.take j).map fun blocks =>
          .write (addBlocks cfg blocks)) ++ mark ∧
      (tr.writePart.take j).filterMap DbOp.history? =
        (tr.indexRows.take i).map TableOp.write ++ mark' := by
  rcases tr.otherMarks_spec with ⟨historyMark, cacheMark, hhMark, hcMark, hmarks⟩
  have hother : forall op, op ∈ tr.otherMarks -> op = .history (.put .compacted []) ∨
        op = .cache (.put .compacted .empty) := by
    intro op hop
    rw [hmarks] at hop
    exact (List.mem_append.mp hop).imp hhMark.eq_of_mem hcMark.eq_of_mem
  have hsplit : forall j, exists j' i i', tr.writePart.take j =
      ((tr.addBatches.take j).map fun blocks =>
        .txstore (.write (addBlocks cfg blocks))) ++
      (tr.txstoreMark.take j' ++ (((tr.indexRows.take i).map fun rows => .history (.write rows)) ++
          tr.otherMarks.take i')) := by
    intro j
    rw [writePart, List.take_append, List.take_append, List.take_append,
      ← List.map_take, ← List.map_take]
    exact ⟨_, _, _, rfl⟩
  rcases hsplit j with ⟨j', i, i', heq⟩
  refine ⟨i, (tr.txstoreMark.take j').filterMap DbOp.txstore?,
    (tr.otherMarks.take i').filterMap DbOp.history?, ?_, ?_, ?_, ?_⟩
  · intro op hop
    have hmem := List.mem_of_mem_take (DbOp.mem_filterMap_txstore?.mp hop)
    exact DbOp.txstore.inj (tr.txstoreMark_spec.eq_of_mem hmem)
  · intro op hop
    have hmem := List.mem_of_mem_take (DbOp.mem_filterMap_history?.mp hop)
    rcases hother _ hmem with hput | hput
    · exact DbOp.history.inj hput
    · cases hput
  · have hnone : (tr.otherMarks.take i').filterMap DbOp.txstore? = [] := by
      apply List.filterMap_eq_nil_iff.mpr
      intro op hop
      rcases hother op (List.mem_of_mem_take hop) with rfl | rfl <;> rfl
    rw [heq]
    simp only [List.filterMap_append, filterMap_txstore?_writes,
      filterMap_txstore?_historyWrites, hnone, List.append_nil]
  · have hnone : (tr.txstoreMark.take j').filterMap DbOp.history? = [] := by
      apply List.filterMap_eq_nil_iff.mpr
      intro op hop
      rw [tr.txstoreMark_spec.eq_of_mem (List.mem_of_mem_take hop)]
      rfl
    rw [heq]
    simp only [List.filterMap_append, filterMap_history?_txstoreWrites,
      filterMap_history?_writes, hnone, List.nil_append]

theorem Inv.holdsWhole_writes (h : Inv T cfg store c (entrySet c))
    (tr : Trace cfg store c daemon x) (j : Nat) :
    exists added indexed, entrySet tr.q ⊆ added ∧ entrySet tr.q ⊆ indexed ∧
      HoldsWhole T cfg (store.disk.replay
        (rollbackOps tr.q tr.a ++ (tr.deletePart ++ tr.writePart.take j)))
        daemon.best.blocks added indexed := by
  rcases tr.take_writePart j with ⟨i, mark, mark', hmark, hmark', htx, hhist⟩
  have haddMem : forall be, be ∈ (tr.addBatches.take j).flatten ->
      be ∈ blockEntriesFrom tr.q.length tr.n := by
    intro be hbe
    exact (h.mem_addBatches tr).mp ((List.take_sublist _ _).flatten.subset hbe)
  have hindexMem : forall be, be ∈ (tr.indexBatches.take i).flatten ->
      be ∈ blockEntriesFrom tr.q.length tr.n := by
    intro be hbe
    exact List.mem_of_mem_filter ((Inv.mem_indexBatches tr).mp
      ((List.take_sublist _ _).flatten.subset hbe))
  have hnew : forall {bes : List BlockEntry},
      (forall be, be ∈ bes -> be ∈ blockEntriesFrom tr.q.length tr.n) ->
        entrySet tr.q ∪ {be | be ∈ bes} ⊆ entrySet daemon.best.blocks := by
    rintro bes hbes be (hq | hn)
    · exact (entrySet_right tr.fork).mpr (Or.inl hq)
    · exact (entrySet_right tr.fork).mpr (Or.inr (hbes be hn))
  have htxstore := h.txstore_rolled tr.fork daemon.best.valid haddMem
  have hhistory := h.history_rolled tr (List.forall₂_take i tr.indexRows_spec) hindexMem
  have hkept : forall be, be ∈ (entrySet c \ {be | be ∈ blockEntriesFrom tr.q.length tr.a}) ∪
          {be | be ∈ (tr.indexBatches.take i).flatten} <->
        be ∈ entrySet tr.q ∪ {be | be ∈ (tr.indexBatches.take i).flatten} := by
    intro be
    exact or_congr_left (mem_entrySet_sdiff tr.fork h.valid.toIsChain)
  refine ⟨_, _, Set.subset_union_left, Set.subset_union_left,
    daemon.best.valid, htxstore.of_agree ?_,
    (hhistory.congr hkept).of_agree ?_, hnew haddMem, hnew hindexMem⟩
  · intro k hk
    rw [← List.append_assoc, Disk.replay_append, Disk.txstore_replay, htx,
      replay_append, tr.replay_deletePart_txstore, Trace.replay_addBlocks]
    apply getElem?_replay_of_untouched
    intro op hop
    rw [hmark op hop]
    simpa [TableOp.keys] using hk.right.left
  · intro k hk
    rw [← List.append_assoc, Disk.replay_append, Disk.history_replay, hhist,
      replay_append, tr.replay_deletePart_history, replay_writes]
    apply getElem?_replay_of_untouched
    intro op hop
    rw [hmark' op hop]
    simpa [TableOp.keys] using hk.right.left

end Writes

/-!
## Any crash
-/

section Crash

variable {T : BlockTree} {cfg : IndexerConfig} {store : Store}
  {c : List Block} {daemon : Daemon T} {x : Exec}

theorem Trace.take_log (tr : Trace cfg store c daemon x) (k : Nat) :
    x.log.take k = [] ∨
    (exists j, x.log.take k = rollbackOps tr.q tr.a ++ tr.deletePart.take j) ∨
    (exists j, x.log.take k = rollbackOps tr.q tr.a ++ (tr.deletePart ++ tr.writePart.take j)) ∨
    x.log.take k = x.log := by
  have hlen : (rollbackOps tr.q tr.a).length ≤ 1 := by
    unfold rollbackOps
    split <;> simp
  by_cases hroll : k < (rollbackOps tr.q tr.a).length
  · left
    rw [show k = 0 by omega]
    rfl
  right
  rw [tr.log_eq_parts, List.take_append, List.take_of_length_le (by omega), List.take_append]
  generalize k - (rollbackOps tr.q tr.a).length = j
  by_cases hdelete : j ≤ tr.deletePart.length
  · left
    refine ⟨j, ?_⟩
    rw [Nat.sub_eq_zero_of_le hdelete, List.take_zero, List.append_nil]
  right
  rw [List.take_of_length_le (by omega), List.take_append]
  generalize j - tr.deletePart.length = j'
  by_cases hwrite : j' ≤ tr.writePart.length
  · left
    refine ⟨j', ?_⟩
    rw [Nat.sub_eq_zero_of_le hwrite, List.take_zero, List.append_nil]
  right
  rw [List.take_of_length_le (by omega), List.take_of_length_le (by simp; omega)]

theorem Inv.recoverable_crash (h : Inv T cfg store c (entrySet c)) (tr : Trace cfg store c daemon x)
    (h' : Inv T cfg x.store daemon.best.blocks (entrySet daemon.best.blocks))
    (k : Nat) :
    exists r e, Recoverable T cfg (store.disk.replay (x.log.take k)) r e ∧ forall d, IsChain T d ->
        ((forall be, be ∈ entrySet d -> MarkedWhole T cfg (store.disk.replay (x.log.take k)) be) <->
        ¬ exists be, be ∈ entrySet c ∧ be ∈ entrySet d ∧
          PartlyDeleted T cfg (x.log.take k) be) := by
  have hlog : forall op, op ∈ x.log.take k -> op ∈ x.log := by
    intro op hop
    exact List.mem_of_mem_take hop
  rcases tr.take_log k with heq | ⟨j, heq⟩ | ⟨j, heq⟩ | heq <;> rw [heq]
  · refine ⟨c, c, h.holdsWhole.recoverable h.verified (List.prefix_refl c)
      h.tip_eq Set.Subset.rfl Set.Subset.rfl h.produced, ?_⟩
    intro d hd
    refine iff_of_true (fun be hbe => h.holdsWhole.markedWhole hd hbe) ?_
    rintro ⟨be, _, _, hpartly⟩
    simp [PartlyDeleted] at hpartly
  · have hops : forall op, op ∈ tr.deletePart.take j -> op ∈ tr.deletePart :=
      fun op hop => List.mem_of_mem_take hop
    refine ⟨tr.q, c, h.recoverable_deletes tr hops, ?_⟩
    intro d hd
    constructor
    · rintro hwhole ⟨be, hbec, hbed, hpartly⟩
      exact (h.markedWhole_iff tr hops hd hbed).mp (hwhole be hbed) hbec hpartly
    · intro hnot be hbed
      refine (h.markedWhole_iff tr hops hd hbed).mpr fun hbec hpartly => ?_
      exact hnot ⟨be, hbec, hbed, hpartly⟩
  · rcases h.holdsWhole_writes tr j with ⟨added, indexed, hadded, hindexed, hwhole⟩
    have hverified : (store.disk.replay (x.log.take k)).Verified cfg :=
      h.verified.replay fun op hop => tr.keepsVersion (hlog op hop)
    rw [heq] at hverified hlog
    refine ⟨tr.q, daemon.best.blocks, hwhole.recoverable hverified
      ⟨tr.n, tr.fork.right_eq.symm⟩ ?_ hadded hindexed h'.produced, ?_⟩
    · rw [Disk.replay_append, tr.tip_untouched]
      · exact h.tip_rolled tr.fork.left_eq
      · intro op hop
        exact (List.mem_append.mp hop).imp_right List.mem_of_mem_take
    · intro d hd
      refine iff_of_true (fun be hbe => hwhole.markedWhole hd hbe) ?_
      rintro ⟨be, hbec, _, hpartly⟩
      refine tr.not_partlyDeleted h.valid (fun op hop => ?_) hlog hbec hpartly
      exact List.mem_append_right _ (List.mem_append_left _ hop)
  · rw [← tr.disk_eq]
    refine ⟨daemon.best.blocks, daemon.best.blocks, h'.holdsWhole.recoverable
      h'.verified (List.prefix_refl _) h'.tip_eq Set.Subset.rfl Set.Subset.rfl
      h'.produced, ?_⟩
    intro d hd
    refine iff_of_true (fun be hbe => h'.holdsWhole.markedWhole hd hbe) ?_
    rintro ⟨be, hbec, _, hpartly⟩
    refine tr.not_partlyDeleted h.valid (fun op hop => ?_) (fun op hop => hop) hbec hpartly
    rw [tr.log_eq_parts]
    exact List.mem_append_right _ (List.mem_append_left _ hop)

end Crash

end NewIndex
end Splora
