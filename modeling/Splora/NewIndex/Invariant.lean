import Splora.Foundation.Materialized
import Splora.NewIndex.Trace

/-!
# The index invariant

Between updates the transaction store materializes the blocks of the header list, and the
history a part of them: blocks taken for indexed are not indexed again.  Address rows are left
out, since blocks share them.
-/

namespace Splora
namespace NewIndex

open Foundation

def IsStoreKey (k : TxstoreKey) : Prop :=
  k ≠ .tip ∧ k ≠ .compacted ∧ k ≠ .version

def IsHistoryKey (k : HistoryKey) : Prop :=
  ¬ IsAddr k ∧ k ≠ .compacted ∧ k ≠ .version

def HistoryRows (T : BlockTree) (cfg : IndexerConfig) (be : BlockEntry)
    (k : HistoryKey) (v : Bytes) : Prop :=
  v = [] ∧ IndexRow T cfg be k

def entrySet (blocks : List Block) : Set BlockEntry :=
  fun be => be ∈ chainEntries blocks

variable {blocks : List Block} {be : BlockEntry}

@[simp] theorem mem_entrySet :
    be ∈ entrySet blocks <-> be ∈ chainEntries blocks := Iff.rfl

theorem entrySet_append {q n : List Block} :
    be ∈ entrySet (q ++ n) <-> be ∈ entrySet q ∨ be ∈ blockEntriesFrom q.length n := by
  rw [mem_entrySet, chainEntries_append, List.mem_append]
  rfl

theorem stored_of_mem_entrySet {T : BlockTree} (h : IsChain T blocks) (hbe : be ∈ entrySet blocks) :
    T.block be.entry.hash = some be.block := by
  rcases mem_chainEntries.mp hbe with ⟨i, b, hb, rfl⟩
  exact h.stored b (List.mem_of_getElem? hb)

theorem hash_mem_of_mem_entrySet (hbe : be ∈ entrySet blocks) :
    be.entry.hash ∈ blocks.map Block.hash := by
  rw [hash_of_mem_blockEntriesFrom hbe]
  exact List.mem_map_of_mem (block_mem_of_mem_blockEntriesFrom hbe)

section Separation

variable {T : BlockTree} {cfg : IndexerConfig} {blocks : List Block}

theorem separated_addRow (h : ValidChain T blocks) :
    Separated IsStoreKey (AddRow cfg) (entrySet blocks) := by
  intro k _ be be' v v' hbe hbe' hrow hrow'
  exact addRow_unique h hbe hbe' hrow hrow' rfl

theorem separated_historyRows (h : ValidChain T blocks) :
    Separated IsHistoryKey (HistoryRows T cfg) (entrySet blocks) := by
  intro k hk be be' v v' hbe hbe' hrow hrow'
  refine ⟨indexRow_unique h hbe hbe' hk.left hrow.right hrow'.right, ?_⟩
  rw [hrow.left, hrow'.left]

theorem isStoreKey_of_addRow {be : BlockEntry} {k : TxstoreKey}
    {v : TxstoreValue} (h : AddRow cfg be k v) : IsStoreKey k := by
  cases h <;> simp [IsStoreKey]

theorem isHistoryKey_of_indexRow {be : BlockEntry} {k : HistoryKey}
    (h : IndexRow T cfg be k) (haddr : ¬ IsAddr k) : IsHistoryKey k := by
  refine ⟨haddr, ?_, ?_⟩
  · rintro rfl
    cases h
  · rintro rfl
    cases h

theorem mem_batchRows {batches : List (List BlockEntry)} {rowss : List (List HistoryRow)}
    (hspec : List.Forall₂ (BatchRows T cfg) batches rowss) {k : HistoryKey}
    {v : Bytes} :
    (k, v) ∈ rowss.flatten <->
      exists be, be ∈ {be | be ∈ batches.flatten} ∧
        HistoryRows T cfg be k v := by
  rw [mem_flatten_of_batchRows hspec]
  constructor
  · rintro ⟨hv, be, hbe, hindex⟩
    exact ⟨be, hbe, hv, hindex⟩
  · rintro ⟨be, hbe, hv, hindex⟩
    exact ⟨hv, be, hbe, hindex⟩

theorem truthful_of_materializes (h : IsChain T blocks)
    {txstore : TxstoreTable} {s : Set BlockEntry}
    (hrows : Materializes IsStoreKey (AddRow cfg) txstore s)
    (hsub : s ⊆ entrySet blocks) : Truthful T (lookupTxo txstore) := by
  intro outpoint txo htxo
  rcases (hrows _ (by simp [IsStoreKey]) _).mp (lookupTxo_eq_some.mp htxo) with ⟨be, hbe, hadd⟩
  exact hasTxo_of_addRow (stored_of_mem_entrySet h (hsub hbe)) hadd

theorem functional_addBlocks (h : ValidChain T blocks) {bes : List BlockEntry}
    (hsub : forall be, be ∈ bes -> be ∈ entrySet blocks) :
    Functional (addBlocks cfg bes) := by
  intro k v v' hv hv'
  rcases mem_addBlocks.mp hv with ⟨be, hbe, hrow⟩
  rcases mem_addBlocks.mp hv' with ⟨be', hbe', hrow'⟩
  exact (addRow_unique h (hsub be hbe) (hsub be' hbe') hrow hrow' rfl).right

theorem stored_done_iff {txstore : TxstoreTable} {s : Set BlockEntry}
    (h : Materializes IsStoreKey (AddRow cfg) txstore s) {hash : BlockHash} :
    TxstoreKey.done hash ∈ txstore <-> exists be, be ∈ s ∧ be.entry.hash = hash := by
  rw [mem_iff_exists]
  constructor
  · rintro ⟨v, hv⟩
    rcases (h _ (by simp [IsStoreKey]) _).mp hv with ⟨be, hbe, hrow⟩
    refine ⟨be, hbe, ?_⟩
    cases hrow
    rfl
  · rintro ⟨be, hbe, rfl⟩
    exact ⟨_, h.getElem? (by simp [IsStoreKey]) hbe AddRow.done⟩

theorem indexed_done_iff {history : HistoryTable} {s : Set BlockEntry}
    (h : Materializes IsHistoryKey (HistoryRows T cfg) history s) {hash : BlockHash} :
    HistoryKey.done hash ∈ history <-> exists be, be ∈ s ∧ be.entry.hash = hash := by
  rw [mem_iff_exists]
  constructor
  · rintro ⟨v, hv⟩
    rcases (h _ (by simp [IsHistoryKey, IsAddr]) _).mp hv with ⟨be, hbe, hrow⟩
    refine ⟨be, hbe, ?_⟩
    cases hrow.right
    rfl
  · rintro ⟨be, hbe, rfl⟩
    exact ⟨[], h.getElem? (by simp [IsHistoryKey, IsAddr]) hbe ⟨rfl, IndexRow.done⟩⟩

end Separation

/-- The state between updates; `s` is the part of the chain that is indexed. -/
structure Inv (T : BlockTree) (cfg : IndexerConfig) (store : Store)
    (c : List Block) (s : Set BlockEntry) : Prop where
  headers : store.indexedHeaders.Represents c
  valid : ValidChain T c
  txstore : Materializes IsStoreKey (AddRow cfg) store.disk.txstore (entrySet c)
  history :
    Materializes IsHistoryKey (HistoryRows T cfg) store.disk.history s
  indexed_sub : s ⊆ entrySet c
  produced : forall be, be ∈ s -> exists rows, IndexRows T cfg be rows
  added_eq : store.addedBlockhashes = blockhashes (chainEntries c)
  tip_eq : store.disk.txstore[TxstoreKey.tip]? =
    if c.isEmpty then none else some (.blockhash (tipHash c))
  verified : store.disk.Verified cfg

namespace Inv

variable {T : BlockTree} {cfg : IndexerConfig} {store : Store}
  {c : List Block} {s : Set BlockEntry}

theorem truthful (h : Inv T cfg store c s) : Truthful T (lookupTxo store.disk.txstore) :=
  truthful_of_materializes h.valid.toIsChain h.txstore Set.Subset.rfl

end Inv

theorem mem_blockhashes {bes : List BlockEntry} {hash : BlockHash} :
    hash ∈ blockhashes bes <-> exists be, be ∈ bes ∧ be.entry.hash = hash := by
  simp [blockhashes]

theorem mem_blockhashes_blockEntriesFrom (height : Nat) {hash : BlockHash} :
    hash ∈ blockhashes (blockEntriesFrom height blocks) <-> hash ∈ blocks.map Block.hash := by
  rw [← map_hash_entriesFrom height, ← map_entry_blockEntriesFrom, List.map_map]
  simp [blockhashes]

theorem mem_removedEntries {q a : List Block} :
    be ∈ removedEntries q a <-> be ∈ blockEntriesFrom q.length a :=
  List.mem_reverse

section Fork

variable {T : BlockTree} {c d q a n : List Block} {be : BlockEntry}

section

variable (hfork : Fork c d q a n)

include hfork

theorem new_hash_not_mem (hc : IsChain T c) (hd : IsChain T d)
    (hbe : be ∈ blockEntriesFrom q.length n) : be.entry.hash ∉ c.map Block.hash := by
  intro hmem
  rcases List.mem_map.mp hmem with ⟨b, hb, hhash⟩
  rw [hash_of_mem_blockEntriesFrom hbe] at hhash
  have hn := block_mem_of_mem_blockEntriesFrom hbe
  have hbd : be.block ∈ d := by
    rw [hfork.right_eq]
    exact List.mem_append_right q hn
  have heq := hc.eq_of_hash_eq hd hb hbd hhash
  rw [heq] at hb
  exact hfork.added be.block hn hb

theorem entrySet_left : be ∈ entrySet c <-> be ∈ entrySet q ∨ be ∈ blockEntriesFrom q.length a := by
  rw [hfork.left_eq, entrySet_append]

theorem entrySet_right :
    be ∈ entrySet d <-> be ∈ entrySet q ∨ be ∈ blockEntriesFrom q.length n := by
  rw [hfork.right_eq, entrySet_append]

theorem new_subset {bes : List BlockEntry}
    (hbes : forall be, be ∈ bes -> be ∈ blockEntriesFrom q.length n) :
    {be | be ∈ bes} ⊆ entrySet d := by
  intro be hbe
  exact (entrySet_right hfork).mpr (Or.inr (hbes be hbe))

theorem mem_blockhashes_left {hash : BlockHash} :
    hash ∈ blockhashes (chainEntries c) <-> hash ∈ q.map Block.hash ∨ hash ∈ a.map Block.hash := by
  rw [chainEntries, mem_blockhashes_blockEntriesFrom, hfork.left_eq,
    List.map_append, List.mem_append]

theorem mem_blockhashes_right {hash : BlockHash} :
    hash ∈ blockhashes (chainEntries d) <-> hash ∈ q.map Block.hash ∨ hash ∈ n.map Block.hash := by
  rw [chainEntries, mem_blockhashes_blockEntriesFrom, hfork.right_eq,
    List.map_append, List.mem_append]

theorem mem_entrySet_sdiff (hc : IsChain T c) :
    be ∈ entrySet c ∧ be ∉ blockEntriesFrom q.length a <-> be ∈ entrySet q := by
  rw [entrySet_left hfork]
  rw [hfork.left_eq] at hc
  constructor
  · rintro ⟨hq | ha, hnot⟩
    · exact hq
    · exact absurd ha hnot
  · intro hq
    refine ⟨Or.inl hq, ?_⟩
    intro ha
    have hnodup := hc.hashes_nodup
    rw [List.map_append, List.nodup_append] at hnodup
    have hqb := block_mem_of_mem_blockEntriesFrom hq
    have hab := block_mem_of_mem_blockEntriesFrom ha
    exact hnodup.2.2 _ (List.mem_map_of_mem hqb) _ (List.mem_map_of_mem hab) rfl

end

end Fork

def nextIndexed (s : Set BlockEntry) (q a n : List Block)
    (indexed : Finset BlockHash) : Set BlockEntry :=
  fun be => (be ∈ s ∧ be ∉ blockEntriesFrom q.length a) ∨ be ∈ unmarkedEntries q n indexed

namespace Inv

variable {T : BlockTree} {cfg : IndexerConfig} {store : Store}
  {c : List Block} {s : Set BlockEntry} {daemon : Daemon T} {x : Exec}

variable {be : BlockEntry}

theorem mem_unmarkedEntries (h : Inv T cfg store c s) {d q a n : List Block}
    (hfork : Fork c d q a n) (hd : IsChain T d) :
    be ∈ unmarkedEntries q n (store.addedBlockhashes \ blockhashes (removedEntries q a)) <->
      be ∈ blockEntriesFrom q.length n := by
  rw [unmarkedEntries, List.mem_filter]
  constructor
  · intro hbe
    exact hbe.left
  · intro hbe
    refine ⟨hbe, decide_eq_true ?_⟩
    intro hmem
    rw [h.added_eq, Finset.mem_sdiff] at hmem
    apply new_hash_not_mem hfork h.valid.toIsChain hd hbe
    exact (mem_blockhashes_blockEntriesFrom 0).mp hmem.left

theorem mem_addBatches (h : Inv T cfg store c s) (tr : Trace cfg store c daemon x) :
    be ∈ tr.addBatches.flatten <-> be ∈ blockEntriesFrom tr.q.length tr.n := by
  rw [tr.addBatches_perm.mem_iff]
  exact h.mem_unmarkedEntries tr.fork daemon.best.valid.toIsChain

theorem mem_indexBatches (tr : Trace cfg store c daemon x) :
    be ∈ tr.indexBatches.flatten <-> be ∈ unmarkedEntries tr.q tr.n store.indexedBlockhashes :=
  tr.indexBatches_perm.mem_iff

section

variable (h : Inv T cfg store c s)

include h

theorem txstore_rolled {d q a n : List Block} (hfork : Fork c d q a n) (hd : ValidChain T d)
    {bes : List BlockEntry} (hbes : forall be, be ∈ bes -> be ∈ blockEntriesFrom q.length n) :
    Materializes IsStoreKey (AddRow cfg) (writeRows
        (replay (replay store.disk.txstore (Trace.tipOps q a))
          (((addBlocks cfg (removedEntries q a)).map Prod.fst).map TableOp.delete))
        (addBlocks cfg bes)) (entrySet q ∪ {be | be ∈ bes}) := by
  -- the tip moves first, which touches no block row
  have h1 : Materializes IsStoreKey (AddRow cfg)
      (replay store.disk.txstore (Trace.tipOps q a)) (entrySet c) :=
    h.txstore.of_agree fun k hk => Trace.getElem?_tipOps _ q a hk.left
  -- then the rows of the removed blocks go
  have h2 : Materializes IsStoreKey (AddRow cfg)
      (replay (replay store.disk.txstore (Trace.tipOps q a))
        (((addBlocks cfg (removedEntries q a)).map Prod.fst).map TableOp.delete))
      (entrySet q) := by
    have hsub : {be | be ∈ blockEntriesFrom q.length a} ⊆ entrySet c := by
      intro be hbe
      exact (entrySet_left hfork).mpr (Or.inr hbe)
    apply (h1.delete (separated_addRow h.valid) (fun _ hbe => hbe) hsub ?_).congr
    · intro be
      exact mem_entrySet_sdiff hfork h.valid.toIsChain
    · intro k _
      rw [Trace.mem_addBlocks_keys]
      simp only [mem_removedEntries]
      rfl
  -- and the rows of new blocks come
  have hsubq : entrySet q ⊆ entrySet d := by
    intro be hbe
    exact (entrySet_right hfork).mpr (Or.inl hbe)
  have hsubn := new_subset hfork hbes
  exact h2.write (separated_addRow hd) hsubq hsubn (functional_addBlocks hd fun be hbe => hsubn hbe)
    (fun k _ v => mem_addBlocks)

section

variable (tr : Trace cfg store c daemon x)

include tr

theorem txstore_update :
    Materializes IsStoreKey (AddRow cfg) x.store.disk.txstore (entrySet daemon.best.blocks) := by
  have hrolled := h.txstore_rolled tr.fork daemon.best.valid
    (fun be hbe => (h.mem_addBatches tr).mp hbe)
  apply (hrolled.congr ?_).of_agree
  · intro k hk
    exact tr.getElem?_txstore hk.left hk.right.left
  · intro be
    rw [entrySet_right tr.fork]
    exact or_congr_right (h.mem_addBatches tr)

theorem history_rolled {batches : List (List BlockEntry)} {rowss : List (List HistoryRow)}
    (hspec : List.Forall₂ (BatchRows T cfg) batches rowss)
    (hbatches : forall be, be ∈ batches.flatten -> be ∈ blockEntriesFrom tr.q.length tr.n) :
    Materializes IsHistoryKey (HistoryRows T cfg) (writeRows (replay store.disk.history
          ((tr.removedRows.flatten.map Prod.fst).map TableOp.delete))
        rowss.flatten)
      ((s \ {be | be ∈ blockEntriesFrom tr.q.length tr.a}) ∪ {be | be ∈ batches.flatten}) := by
  have hsuba : {be | be ∈ blockEntriesFrom tr.q.length tr.a} ⊆ entrySet c := by
    intro be hbe
    exact (entrySet_left tr.fork).mpr (Or.inr hbe)
  have hkeys : forall k, IsHistoryKey k -> (k ∈ tr.removedRows.flatten.map Prod.fst <->
        exists be, be ∈ {be | be ∈ blockEntriesFrom tr.q.length tr.a} ∧
          exists v, HistoryRows T cfg be k v) := by
    intro k _
    rw [tr.mem_removedRows_keys]
    simp only [mem_removedEntries, HistoryRows, exists_eq_left]
    rfl
  have h1 := h.history.delete (separated_historyRows h.valid) h.indexed_sub hsuba hkeys
  have hsubq : s \ {be | be ∈ blockEntriesFrom tr.q.length tr.a} ⊆ entrySet daemon.best.blocks := by
    intro be hbe
    have hq := (mem_entrySet_sdiff tr.fork h.valid.toIsChain).mp ⟨h.indexed_sub hbe.left, hbe.right⟩
    exact (entrySet_right tr.fork).mpr (Or.inl hq)
  have hsubn := new_subset tr.fork hbatches
  exact h1.write (separated_historyRows daemon.best.valid) hsubq hsubn
    (functional_batchRows hspec) (fun k _ v => mem_batchRows hspec)

theorem history_update :
    Materializes IsHistoryKey (HistoryRows T cfg) x.store.disk.history
      (nextIndexed s tr.q tr.a tr.n store.indexedBlockhashes) := by
  have hrolled := h.history_rolled tr tr.indexRows_spec
    (fun be hbe => List.mem_of_mem_filter ((mem_indexBatches tr).mp hbe))
  apply (hrolled.congr ?_).of_agree
  · intro k hk
    exact tr.getElem?_history hk.right.left
  · intro be
    exact or_congr_right (mem_indexBatches tr)

theorem added_update :
    x.store.addedBlockhashes = blockhashes (chainEntries daemon.best.blocks) := by
  have hnodup := h.valid.toIsChain.hashes_nodup
  rw [tr.fork.left_eq, List.map_append, List.nodup_append] at hnodup
  ext hash
  rw [tr.added_eq, h.added_eq, Finset.mem_union, Finset.mem_sdiff,
    mem_blockhashes_left tr.fork, mem_blockhashes_right tr.fork]
  have hremoved : hash ∈ blockhashes (removedEntries tr.q tr.a) <-> hash ∈ tr.a.map Block.hash := by
    rw [← mem_blockhashes_blockEntriesFrom tr.q.length]
    simp only [mem_blockhashes, mem_removedEntries]
  have hnew : hash ∈ blockhashes tr.addBatches.flatten <-> hash ∈ tr.n.map Block.hash := by
    rw [← mem_blockhashes_blockEntriesFrom tr.q.length]
    simp only [mem_blockhashes, h.mem_addBatches tr]
  rw [hremoved, hnew]
  constructor
  · rintro (⟨hq | ha, hnot⟩ | hn)
    · exact Or.inl hq
    · exact absurd ha hnot
    · exact Or.inr hn
  · rintro (hq | hn)
    · exact Or.inl ⟨Or.inl hq, fun ha => hnodup.2.2 hash hq hash ha rfl⟩
    · exact Or.inr hn

theorem update :
    Inv T cfg x.store daemon.best.blocks
      (nextIndexed s tr.q tr.a tr.n store.indexedBlockhashes) where
  headers := tr.headers
  valid := daemon.best.valid
  txstore := h.txstore_update tr
  history := h.history_update tr
  indexed_sub := by
    rintro be (⟨hs, hnot⟩ | hn)
    · have hq := (mem_entrySet_sdiff tr.fork h.valid.toIsChain).mp ⟨h.indexed_sub hs, hnot⟩
      exact (entrySet_right tr.fork).mpr (Or.inl hq)
    · exact (entrySet_right tr.fork).mpr (Or.inr (List.mem_of_mem_filter hn))
  produced := by
    rintro be (⟨hs, _⟩ | hn)
    · exact h.produced be hs
    · exact indexRows_of_batchRows tr.indexRows_spec ((mem_indexBatches tr).mpr hn)
  added_eq := h.added_update tr
  tip_eq := by
    rw [tr.txstore_eq, replay_append]
    have hne : daemon.best.blocks.isEmpty = false := by
      simpa using daemon.best.nonempty
    rw [hne]
    exact getElem?_insert_self _ _ _
  verified := by
    rw [tr.disk_eq]
    exact h.verified.replay fun op hop => tr.keepsVersion hop

end

end

end Inv

/-!
## Opening
-/

section Open

variable {T : BlockTree} {cfg : IndexerConfig} {store : Store}
  {c : List Block} {s : Set BlockEntry}

structure NoRows (store : Store) : Prop where
  txstore : forall k, k ≠ TxstoreKey.version -> store.disk.txstore[k]? = none
  history : forall k, k ≠ HistoryKey.version -> store.disk.history[k]? = none
  cache : forall k, k ≠ CacheKey.version -> store.disk.cache[k]? = none

theorem openStore_empty_eq_ok (h : Store.openStore cfg Disk.empty = .ok store) :
    Inv T cfg store [] ∅ ∧ store.indexedBlockhashes = ∅ ∧ NoRows store := by
  unfold Store.openStore at h
  rcases bind_eq_ok.mp h with ⟨disk, hdisk, h⟩
  rcases bind_eq_ok.mp h with ⟨headers, hheaders, h⟩
  rcases Disk.verify_ok hdisk with ⟨hverified, hsame⟩
  have htxstore : forall k, k ≠ TxstoreKey.version -> disk.txstore[k]? = none := by
    intro k hk
    rw [hsame.txstore k hk]
    exact Std.ExtTreeMap.getElem?_empty
  have hhistory : forall k, k ≠ HistoryKey.version -> disk.history[k]? = none := by
    intro k hk
    rw [hsame.history k hk]
    exact Std.ExtTreeMap.getElem?_empty
  have hcache : forall k, k ≠ CacheKey.version -> disk.cache[k]? = none := by
    intro k hk
    rw [hsame.cache k hk]
    exact Std.ExtTreeMap.getElem?_empty
  rw [← pure_eq_ok.mp h]
  refine ⟨?_, ?_, htxstore, hhistory, hcache⟩
  · refine {
      headers := ?_
      valid := ValidChain.nil T
      txstore := ?_
      history := ?_
      indexed_sub := Set.empty_subset _
      produced := by
        intro be hbe
        cases hbe
      added_eq := ?_
      tip_eq := htxstore _ (by simp)
      verified := hverified }
    · unfold Store.loadHeaders at hheaders
      rw [htxstore _ (by simp)] at hheaders
      cases hheaders
      exact HeaderList.represents_empty
    · intro k hk v
      simp only [htxstore k hk.right.right]
      simp [chainEntries, blockEntriesFrom]
    · intro k hk v
      simp only [hhistory k hk.right.right]
      simp
    · ext hash
      rw [mem_loadAddedBlockhashes, mem_iff_exists]
      simp [htxstore, blockhashes, chainEntries, blockEntriesFrom]
  · ext hash
    rw [mem_loadIndexedBlockhashes, mem_iff_exists]
    simp [hhistory]

theorem openStore_eq {disk : Disk} (hverified : disk.Verified cfg) (hc : IsChain T c)
    (htip : disk.txstore[TxstoreKey.tip]? =
      if c.isEmpty then none else some (.blockhash (tipHash c)))
    (hheader : forall b, b ∈ c ->
      disk.txstore[TxstoreKey.header b.hash]? = some (.header b.header)) :
    exists headers, headers.Represents c ∧
      Store.openStore cfg disk = .ok {
        disk := disk
        addedBlockhashes := loadAddedBlockhashes disk.txstore
        indexedBlockhashes := loadIndexedBlockhashes disk.history
        indexedHeaders := headers } := by
  have hload : exists headers, headers.Represents c ∧
      Store.loadHeaders disk.txstore = .ok headers := by
    unfold Store.loadHeaders
    rw [htip]
    cases c with
    | nil => exact ⟨_, HeaderList.represents_empty, rfl⟩
    | cons b rest =>
      rcases HeaderList.new_eq hc (fun b hb => getElem?_loadBlockheaders (hheader b hb)) with
        ⟨headers, hnew, hrep⟩
      exact ⟨headers, hrep, hnew⟩
  rcases hload with ⟨headers, hrep, hload⟩
  refine ⟨headers, hrep, ?_⟩
  refine bind_eq_ok.mpr ⟨disk, hverified.verify_eq, ?_⟩
  exact bind_eq_ok.mpr ⟨headers, hload, rfl⟩

theorem Inv.restart (h : Inv T cfg store c s) :
    exists store', Store.openStore cfg store.disk = .ok store' ∧ Inv T cfg store' c s ∧
      forall hash, hash ∈ store'.indexedBlockhashes <->
        exists be, be ∈ s ∧ be.entry.hash = hash := by
  have hheader : forall b, b ∈ c -> store.disk.txstore[TxstoreKey.header b.hash]? =
        some (.header b.header) := by
    intro b hb
    rcases List.mem_iff_getElem?.mp hb with ⟨i, hi⟩
    have hbe : blockEntryAt b i ∈ entrySet c := mem_chainEntries.mpr ⟨i, b, hi, rfl⟩
    exact h.txstore.getElem? (by simp [IsStoreKey]) hbe AddRow.header
  rcases openStore_eq h.verified h.valid.toIsChain h.tip_eq hheader with ⟨headers, hrep, hopen⟩
  refine ⟨_, hopen, { h with headers := hrep, added_eq := ?_ }, ?_⟩
  · ext hash
    rw [mem_loadAddedBlockhashes, mem_blockhashes, stored_done_iff h.txstore]
    rfl
  · intro hash
    rw [mem_loadIndexedBlockhashes, indexed_done_iff h.history]

theorem Inv.restart_step {store' : Store} (h : Inv T cfg store c s)
    (hstep : step cfg store (.restart : Event T) = .ok store') :
    Inv T cfg store' c s ∧ forall hash, hash ∈ store'.indexedBlockhashes <->
      exists be, be ∈ s ∧ be.entry.hash = hash := by
  rcases h.restart with ⟨store'', hopen, hinv⟩
  cases hopen.symm.trans hstep
  exact hinv

end Open

/-!
## Runs
-/

section Runs

variable {T : BlockTree} {cfg : IndexerConfig} {store : Store}
  {events : List (Event T)}

theorem run_concat (event : Event T) :
    run cfg (events ++ [event]) = run cfg events >>= fun store => step cfg store event := by
  simp [run, List.foldlM_append]

theorem run_nil : run cfg ([] : List (Event T)) = Store.openStore cfg Disk.empty := by
  simp [run]

theorem run_append_singleton {event : Event T} :
    run cfg (events ++ [event]) = .ok store <->
      exists store', run cfg events = .ok store' ∧ step cfg store' event = .ok store := by
  rw [run_concat, bind_eq_ok]

theorem run_append_singleton_eq_error {event : Event T} {e : Abort} :
    run cfg (events ++ [event]) = .error e <->
      run cfg events = .error e ∨
      exists store, run cfg events = .ok store ∧ step cfg store event = .error e := by
  rw [run_concat, bind_eq_error]

def lastBest (events : List (Event T)) : List Block :=
  events.foldl (fun blocks event =>
    match event with
    | .update _ daemon => daemon.best.blocks
    | .restart => blocks) []

@[simp] theorem lastBest_nil : lastBest ([] : List (Event T)) = [] := rfl

@[simp] theorem lastBest_update (fetchFrom : FetchFrom) (daemon : Daemon T) :
    lastBest (events ++ [.update fetchFrom daemon]) = daemon.best.blocks := by
  simp [lastBest]

@[simp] theorem lastBest_restart : lastBest (events ++ [.restart]) = lastBest events := by
  simp [lastBest]

theorem Inv.exists_trace {c : List Block} {s : Set BlockEntry}
    {fetchFrom : FetchFrom} {daemon : Daemon T} {store' : Store}
    (h : Inv T cfg store c s)
    (hstep : step cfg store (.update fetchFrom daemon) = .ok store') :
    exists x, x.store = store' ∧ Nonempty (Trace cfg store c daemon x) := by
  rcases bind_eq_ok.mp hstep with ⟨x, hupdate, hpure⟩
  exact ⟨x, pure_eq_ok.mp hpure,
    NewIndex.exists_trace h.headers h.valid.toIsChain h.truthful hupdate⟩

theorem exists_inv (hrun : run cfg events = .ok store) :
    exists s, Inv T cfg store (lastBest events) s := by
  induction events using List.reverseRecOn generalizing store with
  | nil =>
    rw [run_nil] at hrun
    exact ⟨∅, (openStore_empty_eq_ok hrun).left⟩
  | append_singleton events event ih =>
    rcases run_append_singleton.mp hrun with ⟨store', hrun', hstep⟩
    rcases ih hrun' with ⟨s, hinv⟩
    cases event with
    | update fetchFrom daemon =>
      rcases hinv.exists_trace hstep with ⟨x, rfl, ⟨tr⟩⟩
      rw [lastBest_update]
      exact ⟨_, hinv.update tr⟩
    | restart =>
      rw [lastBest_restart]
      exact ⟨s, (hinv.restart_step hstep).left⟩

theorem validChain_lastBest (events : List (Event T)) : ValidChain T (lastBest events) := by
  induction events using List.reverseRecOn with
  | nil => exact ValidChain.nil T
  | append_singleton events event ih =>
    cases event with
    | update fetchFrom daemon =>
      rw [lastBest_update]
      exact daemon.best.valid
    | restart =>
      rw [lastBest_restart]
      exact ih

def AtEveryUpdate (P : List (Event T) -> FetchFrom -> Daemon T -> Prop)
    (events : List (Event T)) : Prop :=
  forall pre fetchFrom daemon,
    pre ++ [.update fetchFrom daemon] <+: events -> P pre fetchFrom daemon

section AtEveryUpdate

variable {P : List (Event T) -> FetchFrom -> Daemon T -> Prop}

theorem atEveryUpdate_nil : AtEveryUpdate P [] := by
  intro pre fetchFrom daemon hpre
  simp at hpre

theorem atEveryUpdate_update {fetchFrom : FetchFrom} {daemon : Daemon T} :
    AtEveryUpdate P (events ++ [.update fetchFrom daemon]) <->
      AtEveryUpdate P events ∧ P events fetchFrom daemon := by
  constructor
  · intro h
    refine ⟨?_, h events fetchFrom daemon (List.prefix_refl _)⟩
    intro pre fetchFrom' daemon' hpre
    exact h pre fetchFrom' daemon' (hpre.trans (List.prefix_append _ _))
  · rintro ⟨h, hlast⟩ pre fetchFrom' daemon' hpre
    rcases List.prefix_concat_iff.mp hpre with heq | hpre
    · rcases List.append_inj' heq rfl with ⟨rfl, hevent⟩
      cases hevent
      exact hlast
    · exact h pre fetchFrom' daemon' hpre

theorem atEveryUpdate_restart :
    AtEveryUpdate P (events ++ [.restart]) <-> AtEveryUpdate P events := by
  constructor
  · intro h pre fetchFrom daemon hpre
    exact h pre fetchFrom daemon (hpre.trans (List.prefix_append _ _))
  · intro h pre fetchFrom daemon hpre
    rcases List.prefix_concat_iff.mp hpre with heq | hpre
    · rcases List.append_inj' heq rfl with ⟨_, hevent⟩
      cases hevent
    · exact h pre fetchFrom daemon hpre

end AtEveryUpdate

end Runs

end NewIndex
end Splora
