import Splora.NewIndex.Completeness

/-!
# Recovery from a partly updated disk

A disk can be opened and updated if it has all rows of the chain of its tip, and its marks are
of one chain that extends it.  Marked blocks are neither added nor indexed again.
-/

namespace Splora
namespace NewIndex

open Foundation

structure MarkedWhole (T : BlockTree) (cfg : IndexerConfig) (disk : Disk)
    (be : BlockEntry) : Prop where
  txstore : TxstoreKey.done be.entry.hash ∈ disk.txstore ->
    forall k v, AddRow cfg be k v -> disk.txstore[k]? = some v
  history : HistoryKey.done be.entry.hash ∈ disk.history ->
    forall k, ¬ IsAddr k -> IndexRow T cfg be k -> disk.history[k]? = some []

/-- The rows of the chain `r` are whole, and all marks are on the chain `e`. -/
structure Recoverable (T : BlockTree) (cfg : IndexerConfig) (disk : Disk)
    (r e : List Block) : Prop where
  verified : disk.Verified cfg
  valid : ValidChain T e
  kept : r <+: e
  tip_eq : disk.txstore[TxstoreKey.tip]? =
    if r.isEmpty then none else some (.blockhash (tipHash r))
  truthful : Truthful T (lookupTxo disk.txstore)
  kept_txstore : forall be, be ∈ entrySet r -> forall k v,
    AddRow cfg be k v -> disk.txstore[k]? = some v
  kept_history : forall be, be ∈ entrySet r -> forall k, ¬ IsAddr k ->
    IndexRow T cfg be k -> disk.history[k]? = some []
  marked_txstore : forall hash, TxstoreKey.done hash ∈ disk.txstore -> hash ∈ e.map Block.hash
  marked_history : forall hash, HistoryKey.done hash ∈ disk.history -> hash ∈ e.map Block.hash
  produced : forall be, be ∈ entrySet e -> exists rows, IndexRows T cfg be rows

section SharedEntries

variable {T : BlockTree} {d e r : List Block} {be : BlockEntry}

theorem mem_entrySet_of_shared (hd : IsChain T d) (he : IsChain T e)
    (hbe : be ∈ entrySet d) (hhash : be.entry.hash ∈ e.map Block.hash) :
    be ∈ entrySet e := by
  rcases mem_chainEntries.mp hbe with ⟨i, b, hb, rfl⟩
  rcases List.mem_map.mp hhash with ⟨b', hb', heq⟩
  have hbb : b' = b :=
    he.eq_of_hash_eq hd hb' (List.mem_of_getElem? hb) heq
  rw [hbb] at hb'
  exact mem_chainEntries.mpr ⟨i, b, hd.getElem?_of_shared he hb hb', rfl⟩

theorem prefix_of_shared (hd : IsChain T d) (he : IsChain T e) (hr : r <+: e)
    (hbe : be ∈ entrySet d) (hbe' : be ∈ entrySet e) (hnot : be ∉ entrySet r) :
    r <+: d := by
  rcases mem_chainEntries.mp hbe' with ⟨i, b, hb, rfl⟩
  have hlen : r.length ≤ i := by
    by_contra hlt
    apply hnot
    refine mem_chainEntries.mpr ⟨i, b, ?_, rfl⟩
    rw [List.prefix_iff_eq_take.mp hr, List.getElem?_take_of_lt (by omega)]
    exact hb
  have htake := he.take_eq_of_shared hd hb (block_mem_of_mem_blockEntriesFrom hbe)
  have heq : r = d.take r.length := by
    calc r = e.take r.length := List.prefix_iff_eq_take.mp hr
      _ = (e.take (i + 1)).take r.length := by
          rw [List.take_take, Nat.min_eq_left (by omega)]
      _ = (d.take (i + 1)).take r.length := by rw [htake]
      _ = d.take r.length := by
          rw [List.take_take, Nat.min_eq_left (by omega)]
  rw [heq]
  exact List.take_prefix _ _

end SharedEntries

namespace Recoverable

variable {T : BlockTree} {cfg : IndexerConfig} {disk : Disk}
  {r e : List Block}

theorem isChain (h : Recoverable T cfg disk r e) : IsChain T r := by
  rcases h.kept with ⟨rest, hrest⟩
  have hchain := h.valid.toIsChain
  rw [← hrest] at hchain
  exact hchain.left

theorem valid_left (h : Recoverable T cfg disk r e) : ValidChain T r := by
  rcases h.kept with ⟨rest, hrest⟩
  have hvalid := h.valid
  rw [← hrest] at hvalid
  exact hvalid.left

theorem openStore_eq (h : Recoverable T cfg disk r e) :
    exists headers, headers.Represents r ∧
      Store.openStore cfg disk = .ok {
        disk := disk
        addedBlockhashes := loadAddedBlockhashes disk.txstore
        indexedBlockhashes := loadIndexedBlockhashes disk.history
        indexedHeaders := headers } := by
  apply NewIndex.openStore_eq h.verified h.isChain h.tip_eq
  intro b hb
  rcases List.getElem?_of_mem hb with ⟨i, hi⟩
  exact h.kept_txstore (blockEntryAt b i) (mem_chainEntries.mpr ⟨i, b, hi, rfl⟩) _ _ AddRow.header

variable {headers : HeaderList} {daemon : Daemon T} {x : Exec}

abbrev opened (disk : Disk) (headers : HeaderList) : Store where
  disk := disk
  addedBlockhashes := loadAddedBlockhashes disk.txstore
  indexedBlockhashes := loadIndexedBlockhashes disk.history
  indexedHeaders := headers

variable {be : BlockEntry}

section

variable (h : Recoverable T cfg disk r e) (tr : Trace cfg (opened disk headers) r daemon x)
  (hbe : be ∈ blockEntriesFrom tr.q.length tr.n)

include h tr hbe

theorem removed_eq_nil (hhash : be.entry.hash ∈ e.map Block.hash) : tr.a = [] := by
  have hd := daemon.best.valid.toIsChain
  have hbed : be ∈ entrySet daemon.best.blocks :=
    (entrySet_right tr.fork).mpr (Or.inr hbe)
  have hbee := mem_entrySet_of_shared hd h.valid.toIsChain hbed hhash
  have hnot : be ∉ entrySet r := by
    intro hmem
    exact tr.fork.added be.block (block_mem_of_mem_blockEntriesFrom hbe)
      (block_mem_of_mem_blockEntriesFrom hmem)
  have hstart := prefix_of_shared hd h.valid.toIsChain h.kept hbed hbee hnot
  apply List.eq_nil_iff_forall_not_mem.mpr
  intro b hb
  exact tr.fork.removed b hb (hstart.subset (tr.fork.mem_left.mpr (Or.inr hb)))

theorem mem_addBatches :
    be ∈ tr.addBatches.flatten <-> TxstoreKey.done be.entry.hash ∉ disk.txstore := by
  have hnot : be.entry.hash ∉ blockhashes (removedEntries tr.q tr.a) := by
    intro hmem
    apply new_hash_not_mem tr.fork h.isChain daemon.best.valid.toIsChain hbe
    rcases mem_blockhashes.mp hmem with ⟨be', hbe', heq⟩
    rw [← heq, hash_of_mem_blockEntriesFrom (mem_removedEntries.mp hbe')]
    apply List.mem_map_of_mem
    exact tr.fork.mem_left.mpr (Or.inr
      (block_mem_of_mem_blockEntriesFrom (mem_removedEntries.mp hbe')))
  rw [tr.addBatches_perm.mem_iff, unmarkedEntries, List.mem_filter,
    decide_eq_true_eq, Finset.mem_sdiff, mem_loadAddedBlockhashes]
  simp [hbe, hnot]

end

theorem mem_indexBatches (tr : Trace cfg (opened disk headers) r daemon x)
    (hbe : be ∈ blockEntriesFrom tr.q.length tr.n) :
    be ∈ tr.indexBatches.flatten <-> HistoryKey.done be.entry.hash ∉ disk.history := by
  rw [tr.indexBatches_perm.mem_iff, unmarkedEntries, List.mem_filter,
    decide_eq_true_eq, mem_loadIndexedBlockhashes]
  simp [hbe]

section

variable (h : Recoverable T cfg disk r e) (tr : Trace cfg (opened disk headers) r daemon x)
  (hbe : be ∈ entrySet daemon.best.blocks)

include h tr hbe

theorem not_removed
    (hmarked : be ∈ blockEntriesFrom tr.q.length tr.n -> be.entry.hash ∈ e.map Block.hash) :
    forall be', be' ∈ removedEntries tr.q tr.a ->
      be' ≠ be ∧ be' ∈ entrySet r ∧ be ∈ entrySet r := by
  intro be' hbe'
  rw [mem_removedEntries] at hbe'
  rcases (entrySet_right tr.fork).mp hbe with hq | hn
  · have hr := (mem_entrySet_sdiff tr.fork h.isChain).mpr hq
    refine ⟨?_, (entrySet_left tr.fork).mpr (Or.inr hbe'), hr.left⟩
    intro heq
    rw [heq] at hbe'
    exact hr.right hbe'
  · rw [h.removed_eq_nil tr hn (hmarked hn)] at hbe'
    cases hbe'

theorem getElem?_txstore_iff {k : TxstoreKey} {v : TxstoreValue} (hrow : AddRow cfg be k v) :
    x.store.disk.txstore[k]? = some v <->
      be ∈ tr.addBatches.flatten ∨ disk.txstore[k]? = some v := by
  have hd := daemon.best.valid
  have hk := isStoreKey_of_addRow hrow
  have hsub := new_subset tr.fork fun be' hbe' =>
    List.mem_of_mem_filter (tr.addBatches_perm.mem_iff.mp hbe')
  rw [tr.getElem?_txstore hk.left hk.right.left, getElem?_delete_write (separated_addRow hd) hsub
      (functional_addBlocks hd fun be hbe => hsub hbe)
      (fun k _ v => mem_addBlocks) hk hbe hrow, Trace.getElem?_tipOps _ _ _ hk.left]
  · rfl
  intro hadded hmem
  rcases Trace.mem_addBlocks_keys.mp hmem with ⟨be', hbe', v', hrow'⟩
  rcases h.not_removed tr hbe (fun hn => h.marked_txstore _
    (not_not.mp fun hnot => hadded ((h.mem_addBatches tr hn).mpr hnot)))
    be' hbe' with ⟨hne, hr', hr⟩
  exact hne (addRow_unique h.valid_left hr' hr hrow' hrow rfl).left

theorem getElem?_history_iff {k : HistoryKey} (haddr : ¬ IsAddr k) (hrow : IndexRow T cfg be k) :
    x.store.disk.history[k]? = some [] <->
      be ∈ tr.indexBatches.flatten ∨ disk.history[k]? = some [] := by
  have hd := daemon.best.valid
  have hk := isHistoryKey_of_indexRow hrow haddr
  have hsub := new_subset tr.fork fun be' hbe' =>
    List.mem_of_mem_filter (tr.indexBatches_perm.mem_iff.mp hbe')
  have hrow' : HistoryRows T cfg be k [] := ⟨rfl, hrow⟩
  rw [tr.getElem?_history hk.right.left, getElem?_delete_write (separated_historyRows hd) hsub
      (functional_batchRows tr.indexRows_spec)
      (fun k _ v => mem_batchRows tr.indexRows_spec) hk hbe hrow']
  · rfl
  intro hindexed hmem
  rcases tr.mem_removedRows_keys.mp hmem with ⟨be', hbe', hrow''⟩
  rcases h.not_removed tr hbe (fun hn => h.marked_history _
    (not_not.mp fun hnot => hindexed ((mem_indexBatches tr hn).mpr hnot)))
    be' hbe' with ⟨hne, hr', hr⟩
  exact hne (indexRow_unique h.valid_left hr' hr haddr hrow'' hrow)

end

theorem complete_iff (h : Recoverable T cfg disk r e)
    (tr : Trace cfg (opened disk headers) r daemon x) :
    Complete T cfg x.store <->
      forall be, be ∈ entrySet daemon.best.blocks ->
        MarkedWhole T cfg disk be := by
  have hd := daemon.best.valid.toIsChain
  rw [complete_iff_forall tr.headers hd]
  constructor
  · intro hfull be hbe
    have hrows := hfull be hbe
    refine ⟨?_, ?_⟩
    · intro hmarked k v hrow
      have hpresent := hrows.txstore (k, v) (mem_addBlock.mpr hrow)
      rcases (h.getElem?_txstore_iff tr hbe hrow).mp hpresent with hadded | hold
      · have hn := List.mem_of_mem_filter (tr.addBatches_perm.mem_iff.mp hadded)
        exact absurd hmarked ((h.mem_addBatches tr hn).mp hadded)
      · exact hold
    · intro hmarked k haddr hrow
      rcases hrows.history with ⟨rows, hindex, hpresent⟩
      have hmem := (mem_indexRows hindex).mpr ⟨rfl, hrow⟩
      rcases (h.getElem?_history_iff tr hbe haddr hrow).mp
        (hpresent _ hmem haddr) with hindexed | hold
      · have hn :=
          List.mem_of_mem_filter (tr.indexBatches_perm.mem_iff.mp hindexed)
        exact absurd hmarked ((mem_indexBatches tr hn).mp hindexed)
      · exact hold
  · intro hwhole be hbe
    have hindexed : be ∈ tr.indexBatches.flatten ∨ (be.entry.hash ∈ e.map Block.hash ∧
          forall k, ¬ IsAddr k -> IndexRow T cfg be k -> disk.history[k]? = some []) := by
      rcases (entrySet_right tr.fork).mp hbe with hq | hn
      · have hr := (entrySet_left tr.fork).mpr (Or.inl hq)
        refine Or.inr ⟨?_, fun k => h.kept_history be hr k⟩
        rw [hash_of_mem_blockEntriesFrom hr]
        exact List.mem_map_of_mem (h.kept.subset (block_mem_of_mem_blockEntriesFrom hr))
      · by_cases hmarked : HistoryKey.done be.entry.hash ∈ disk.history
        · exact Or.inr ⟨h.marked_history _ hmarked, (hwhole be hbe).history hmarked⟩
        · exact Or.inl ((mem_indexBatches tr hn).mpr hmarked)
    refine ⟨?_, ?_⟩
    · have hproduced : exists rows, IndexRows T cfg be rows := by
        rcases hindexed with hindexed | ⟨hhash, _⟩
        · exact indexRows_of_batchRows tr.indexRows_spec hindexed
        · exact h.produced be (mem_entrySet_of_shared hd h.valid.toIsChain hbe hhash)
      rcases hproduced with ⟨rows, hrows⟩
      refine ⟨rows, hrows, ?_⟩
      rintro ⟨k, v⟩ hrow haddr
      rcases (mem_indexRows hrows).mp hrow with ⟨rfl, hindex⟩
      apply (h.getElem?_history_iff tr hbe haddr hindex).mpr
      exact hindexed.imp_right fun hold => hold.right k haddr hindex
    · rintro ⟨k, v⟩ hrow
      have hadd := mem_addBlock.mp hrow
      apply (h.getElem?_txstore_iff tr hbe hadd).mpr
      rcases (entrySet_right tr.fork).mp hbe with hq | hn
      · have hr := (entrySet_left tr.fork).mpr (Or.inl hq)
        exact Or.inr (h.kept_txstore be hr k v hadd)
      · by_cases hmarked : TxstoreKey.done be.entry.hash ∈ disk.txstore
        · exact Or.inr ((hwhole be hbe).txstore hmarked k v hadd)
        · exact Or.inl ((h.mem_addBatches tr hn).mpr hmarked)

end Recoverable

end NewIndex
end Splora
