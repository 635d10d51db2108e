import Splora.NewIndex.AddressSearch
import Splora.NewIndex.Crash

/-!
# All rows after a crash

The rows of a block come back at the next update, unless only its mark has survived.  A shared
address row comes back only with a block that is indexed again.
-/

namespace Splora
namespace NewIndex

open Foundation

structure WhollyIndexed (T : BlockTree) (cfg : IndexerConfig) (disk : Disk)
    (be : BlockEntry) : Prop where
  history : exists rows, IndexRows T cfg be rows ∧ forall row, row ∈ rows ->
    disk.history[row.1]? = some row.2
  txstore : forall row, row ∈ addBlock cfg be -> disk.txstore[row.1]? = some row.2

def WhollyComplete (T : BlockTree) (cfg : IndexerConfig) (store : Store) : Prop :=
  forall e, e ∈ store.indexedHeaders.headers -> exists block, T.block e.hash = some block ∧
    WhollyIndexed T cfg store.disk { block := block, entry := e, size := block.size }

def WrittenRow (ops : List DbOp) (k : HistoryKey) : Prop :=
  exists rows, DbOp.history (.write rows) ∈ ops ∧ k ∈ rows.map Prod.fst

/-- The row of an address of the new chain was deleted before the crash and not written after, or
goes with a block that leaves the chain; and all blocks that pay it are marked. -/
structure AddressLost (T : BlockTree) (cfg : IndexerConfig) (ops : List DbOp) (store : Store)
    (blocks : List Block) (address : Bytes) : Prop where
  paid : exists b, b ∈ blocks ∧ Pays cfg b address
  deleted : DbOp.history (.delete (.addr address)) ∈ ops ∧ ¬ WrittenRow ops (.addr address) ∨
    exists b, T.block b.hash = some b ∧
      b.hash ∈ store.indexedHeaders.headers.map HeaderEntry.hash ∧ b ∉ blocks ∧
      Pays cfg b address
  marked : forall b, b ∈ blocks -> Pays cfg b address -> b.hash ∈ store.indexedBlockhashes

section Whole

variable {T : BlockTree} {cfg : IndexerConfig} {disk : Disk} {store : Store} {be : BlockEntry}

theorem whollyIndexed_iff :
    WhollyIndexed T cfg disk be <->
      FullyIndexed T cfg disk be ∧ forall address, IndexRow T cfg be (.addr address) ->
        disk.history[HistoryKey.addr address]? = some [] := by
  constructor
  · intro h
    rcases h.history with ⟨rows, hrows, hdisk⟩
    refine ⟨⟨⟨rows, hrows, fun row hrow _ => hdisk row hrow⟩, h.txstore⟩, ?_⟩
    intro address hrow
    exact hdisk (.addr address, []) ((mem_indexRows hrows).mpr ⟨rfl, hrow⟩)
  · intro h
    rcases h.left.history with ⟨rows, hrows, hdisk⟩
    refine ⟨⟨rows, hrows, ?_⟩, h.left.txstore⟩
    intro row hrow
    by_cases haddr : IsAddr row.1
    · rcases haddr with ⟨address, heq⟩
      have hmem := (mem_indexRows hrows (k := row.1) (v := row.2)).mp hrow
      rw [heq] at hmem ⊢
      rw [hmem.left]
      exact h.right address hmem.right
    · exact hdisk row hrow haddr

theorem whollyComplete_iff {c : List Block} (hrep : store.indexedHeaders.Represents c)
    (hc : IsChain T c) :
    WhollyComplete T cfg store <->
      Complete T cfg store ∧ (cfg.addressSearch = true -> forall address,
        (exists b, b ∈ c ∧ Pays cfg b address) ->
          store.disk.history[HistoryKey.addr address]? = some []) := by
  have hentry : forall e block, e ∈ store.indexedHeaders.headers ->
      T.block e.hash = some block -> block ∈ c := by
    intro e block he hblock
    have hhash := List.mem_map_of_mem (f := HeaderEntry.hash) he
    rw [hrep.headers_eq, map_hash_entriesFrom] at hhash
    rcases List.mem_map.mp hhash with ⟨b, hb, heq⟩
    rw [← heq, hc.stored b hb] at hblock
    rw [← Option.some.inj hblock]
    exact hb
  constructor
  · intro h
    constructor
    · intro e he
      rcases h e he with ⟨block, hblock, hindexed⟩
      exact ⟨block, hblock, (whollyIndexed_iff.mp hindexed).left⟩
    · intro hsearch address hpaid
      rcases hpaid with ⟨b, hb, hpays⟩
      have hhash := List.mem_map_of_mem (f := Block.hash) hb
      rw [← map_hash_entriesFrom 0, ← hrep.headers_eq] at hhash
      rcases List.mem_map.mp hhash with ⟨e, he, heq⟩
      rcases h e he with ⟨block, hblock, hindexed⟩
      rw [heq, hc.stored b hb] at hblock
      rw [← Option.some.inj hblock] at hindexed
      exact (whollyIndexed_iff.mp hindexed).right address
        (indexRow_addr_iff.mpr ⟨hsearch, hpays⟩)
  · intro h e he
    rcases h.left e he with ⟨block, hblock, hindexed⟩
    refine ⟨block, hblock, whollyIndexed_iff.mpr ⟨hindexed, ?_⟩⟩
    intro address hrow
    rcases indexRow_addr_iff.mp hrow with ⟨hsearch, hpays⟩
    exact h.right hsearch address ⟨block, hentry e block he hblock, hpays⟩

end Whole

/-!
## Address rows before the crash
-/

def AddrHeld (cfg : IndexerConfig) (disk : Disk) (blocks : List Block) : Prop :=
  forall address, disk.history[HistoryKey.addr address]? = some [] <->
    exists b, b ∈ blocks ∧ Pays cfg b address

section Held

variable {T : BlockTree} {cfg : IndexerConfig} {store : Store} {events : List (Event T)}

theorem disk_of_openStore {disk : Disk} (hverified : disk.Verified cfg)
    (h : Store.openStore cfg disk = .ok store) : store.disk = disk := by
  rcases bind_eq_ok.mp h with ⟨disk', hverify, h⟩
  rcases bind_eq_ok.mp h with ⟨headers, _, h⟩
  rw [hverified.verify_eq] at hverify
  cases hverify
  cases h
  rfl

theorem WholeInv.mem_indexBatches {daemon : Daemon T} {x : Exec} (h : WholeInv T cfg store events)
    (tr : Trace cfg store (lastBest events) daemon x)
    (hreturn : forall b, b ∈ daemon.best.blocks -> b ∈ restartBest events -> b ∈ lastBest events)
    (be : BlockEntry) :
    be ∈ tr.indexBatches.flatten <-> be ∈ blockEntriesFrom tr.q.length tr.n := by
  constructor
  · intro hmem
    exact List.mem_of_mem_filter (tr.indexBatches_perm.mem_iff.mp hmem)
  · intro hn
    have hbe : be ∈ entrySet daemon.best.blocks := (entrySet_right tr.fork).mpr (Or.inr hn)
    rw [← (h.nextIndexed_eq_iff tr).mpr hreturn] at hbe
    rcases hbe with ⟨hold, _⟩ | hnew
    · exact absurd (block_mem_of_mem_blockEntriesFrom hold)
        (tr.fork.added _ (block_mem_of_mem_blockEntriesFrom hn))
    · exact tr.indexBatches_perm.mem_iff.mpr hnew

theorem addrHeld_of_run (hsearch : cfg.addressSearch = true) (hrun : run cfg events = .ok store)
    (hreturn : NoReturn events)
    (hrepaid : AtEveryUpdate (fun pre _ daemon =>
      SharedRepaid cfg (lastBest pre) daemon.best.blocks) events) :
    AddrHeld cfg store.disk (lastBest events) := by
  induction events using List.reverseRecOn generalizing store with
  | nil =>
    rw [run_nil] at hrun
    rcases openStore_empty_eq_ok (T := T) hrun with ⟨_, _, hnone⟩
    intro address
    rw [hnone.history _ (by simp)]
    simp
  | append_singleton events event ih =>
    rcases run_append_singleton.mp hrun with ⟨store', hrun', hstep⟩
    cases event with
    | update fetchFrom daemon =>
      rcases atEveryUpdate_update.mp hreturn with ⟨hpre, hlast⟩
      rcases atEveryUpdate_update.mp hrepaid with ⟨hpre', hlast'⟩
      have hwhole := wholeInv_of_noReturn hrun' hpre
      rcases hwhole.inv.exists_trace hstep with ⟨x, rfl, ⟨tr⟩⟩
      rw [lastBest_update]
      exact (sharedRepaid_iff hsearch tr (hwhole.mem_indexBatches tr hlast)
        (P := fun v => v = some []) rfl (by simp) (ih hrun' hpre hpre')).mpr hlast'
    | restart =>
      have hpre := atEveryUpdate_restart.mp hreturn
      have hverified := (wholeInv_of_noReturn hrun' hpre).inv.verified
      rw [lastBest_restart, disk_of_openStore hverified hstep]
      exact ih hrun' hpre (atEveryUpdate_restart.mp hrepaid)

end Held

/-!
## Rows after the crash
-/

section Crash

variable {T : BlockTree} {cfg : IndexerConfig} {store : Store}
  {c : List Block} {daemon : Daemon T} {x : Exec} {k : HistoryKey}

theorem Trace.history_write_mem_log (tr : Trace cfg store c daemon x) {rows : List HistoryRow}
    (h : DbOp.history (.write rows) ∈ x.log) : rows ∈ tr.indexRows := by
  rcases tr.history_mem_log h with ⟨_, heq, _⟩ | ⟨rows', hrows', heq⟩ | heq
  · cases heq
  · cases heq
    exact hrows'
  · cases heq

theorem Trace.history_mem_writePart (tr : Trace cfg store c daemon x)
    {op : TableOp HistoryKey Bytes} (h : DbOp.history op ∈ tr.writePart) :
    (exists rows, rows ∈ tr.indexRows ∧ op = .write rows) ∨ op = .put .compacted [] := by
  rcases tr.take_writePart tr.writePart.length with ⟨i, _, mark, _, hmark, _, hops⟩
  rw [List.take_length] at hops
  rw [← DbOp.mem_filterMap_history?, hops] at h
  rcases List.mem_append.mp h with hwrite | hput
  · rcases List.mem_map.mp hwrite with ⟨rows, hrows, heq⟩
    exact Or.inl ⟨rows, List.mem_of_mem_take hrows, heq.symm⟩
  · exact Or.inr (hmark op hput)

theorem Trace.history_deletes_writes (tr : Trace cfg store c daemon x) {first later : List DbOp}
    (hdeletes : forall op, op ∈ first -> op ∈ rollbackOps tr.q tr.a ∨ op ∈ tr.deletePart)
    (hwrites : forall op, DbOp.history op ∈ later ->
      (exists rows, rows ∈ tr.indexRows ∧ op = .write rows) ∨ op = .put .compacted [])
    (hk : k ≠ .compacted) :
    (store.disk.replay (first ++ later)).history[k]? = some [] <->
      WrittenRow (first ++ later) k ∨
        (DbOp.history (.delete k) ∉ first ++ later ∧ store.disk.history[k]? = some []) := by
  have hvalue : forall op, op ∈ later.filterMap DbOp.history? -> forall row, row ∈ op.rows ->
      row.1 = k -> row.2 = [] := by
    intro op hop row hrow _
    rcases hwrites op (DbOp.mem_filterMap_history?.mp hop) with ⟨rows, hrows, rfl⟩ | rfl
    · exact ((mem_flatten_of_batchRows tr.indexRows_spec).mp
        (List.mem_flatten.mpr ⟨rows, hrows, hrow⟩)).left
    · rw [List.mem_singleton.mp hrow]
  have hdelete : DbOp.history (.delete k) ∉ later := by
    intro hmem
    rcases hwrites _ hmem with ⟨_, _, heq⟩ | heq
    · cases heq
    · cases heq
  have hwritten : WrittenRow (first ++ later) k <->
      exists op, op ∈ later.filterMap DbOp.history? ∧ k ∈ op.rows.map Prod.fst := by
    constructor
    · rintro ⟨rows, hrows, hmem⟩
      rcases List.mem_append.mp hrows with hfirst | hlater
      · rcases hdeletes _ hfirst with hroll | hdelete
        · rcases Trace.mem_rollbackOps hroll with ⟨_, heq, _⟩
          cases heq
        · rcases tr.history_mem_deletePart.mp hdelete with ⟨_, heq, _⟩
          cases heq
      · exact ⟨.write rows, DbOp.mem_filterMap_history?.mpr hlater, hmem⟩
    · rintro ⟨op, hop, hmem⟩
      rw [DbOp.mem_filterMap_history?] at hop
      rcases hwrites op hop with ⟨rows, _, rfl⟩ | rfl
      · exact ⟨rows, List.mem_append_right _ hop, hmem⟩
      · exact absurd (by simpa [TableOp.rows] using hmem) hk
  have hkept : .delete k ∉ later.filterMap DbOp.history? := fun hmem =>
    hdelete (DbOp.mem_filterMap_history?.mp hmem)
  rw [hwritten, Disk.replay_append, Disk.history_replay, getElem?_replay_writes hvalue hkept,
    tr.history_deletes_of_mem hdeletes, List.mem_append, not_or, and_iff_left hdelete]

theorem Trace.history_crash (tr : Trace cfg store c daemon x) (n : Nat) (hk : k ≠ .compacted) :
    (store.disk.replay (x.log.take n)).history[k]? = some [] <->
      WrittenRow (x.log.take n) k ∨
        (DbOp.history (.delete k) ∉ x.log.take n ∧ store.disk.history[k]? = some []) := by
  have hlog : x.log = (rollbackOps tr.q tr.a ++ tr.deletePart) ++ (tr.writePart ++
      [.txstore (.put .tip (.blockhash (tipHash daemon.best.blocks)))]) := by
    rw [tr.log_eq_parts]
    simp only [List.append_assoc]
  rw [hlog, List.take_append]
  refine tr.history_deletes_writes ?_ ?_ hk
  · intro op hop
    exact List.mem_append.mp (List.mem_of_mem_take hop)
  · intro op hop
    rcases List.mem_append.mp (List.mem_of_mem_take hop) with hwrite | htip
    · exact tr.history_mem_writePart hwrite
    · cases List.mem_singleton.mp htip

theorem Trace.history_value (tr : Trace cfg store c daemon x) {s : Set BlockEntry}
    (h : Inv T cfg store c s) (n : Nat) {hash : BlockHash} {v : Bytes}
    (hv : (store.disk.replay (x.log.take n)).history[HistoryKey.done hash]? = some v) :
    v = [] := by
  rw [Disk.history_replay] at hv
  rcases getElem?_replay_source hv with hold | ⟨op, hop, hrow⟩
  · rcases (h.history _ (by simp [IsHistoryKey, IsAddr]) _).mp hold with ⟨_, _, hrow⟩
    exact hrow.left
  · have hlog := List.mem_of_mem_take (DbOp.mem_filterMap_history?.mp hop)
    rcases tr.history_mem_log hlog with ⟨_, rfl, _⟩ | ⟨rows, hrows, rfl⟩ | rfl
    · cases hrow
    · exact ((mem_flatten_of_batchRows tr.indexRows_spec).mp
        (List.mem_flatten.mpr ⟨rows, hrows, hrow⟩)).left
    · cases List.mem_singleton.mp hrow

theorem writtenRow_of_entry (tr : Trace cfg store c daemon x) {ops : List DbOp}
    (hops : forall op, op ∈ ops -> op ∈ x.log) {hash : BlockHash}
    (h : WrittenRow ops (.done hash)) :
    exists be, be ∈ entrySet daemon.best.blocks ∧ be.entry.hash = hash ∧
      forall k, IndexRow T cfg be k -> WrittenRow ops k := by
  rcases h with ⟨rows, hrows, hmem⟩
  rcases List.mem_iff_getElem?.mp (tr.history_write_mem_log (hops _ hrows)) with ⟨i, hi⟩
  rcases (List.forall₂_iff_get.mp tr.indexRows_spec) with ⟨hlength, hspec⟩
  rcases List.getElem?_eq_some_iff.mp hi with ⟨hlt, hget⟩
  rcases hspec i (hlength ▸ hlt) hlt with ⟨rss, hrss, hflatten⟩
  rw [List.get_eq_getElem, hget] at hflatten
  rcases List.mem_map.mp hmem with ⟨⟨k, v⟩, hrow, hk⟩
  rw [hflatten] at hrow
  rcases (mem_flatten_of_forall₂ hrss).mp hrow with ⟨_, be, hbe, hindex⟩
  have hnew : be ∈ blockEntriesFrom tr.q.length tr.n := by
    refine List.mem_of_mem_filter (tr.indexBatches_perm.mem_iff.mp ?_)
    exact List.mem_flatten.mpr ⟨_, List.get_mem _ _, hbe⟩
  refine ⟨be, (entrySet_right tr.fork).mpr (Or.inr hnew), ?_, ?_⟩
  · rw [show k = .done hash from hk] at hindex
    cases hindex
    rfl
  · intro k' hindex'
    refine ⟨rows, hrows, List.mem_map.mpr ⟨(k', []), ?_, rfl⟩⟩
    rw [hflatten]
    exact (mem_flatten_of_forall₂ hrss).mpr ⟨rfl, be, hbe, hindex'⟩

theorem block_eq_of_hash {d : List Block} (hc : IsChain T c) (hd : IsChain T d) {be : BlockEntry}
    (hbe : be ∈ entrySet c) {b : Block} (hb : b ∈ d) (hhash : be.entry.hash = b.hash) :
    be.block = b := by
  refine hc.eq_of_hash_eq hd (block_mem_of_mem_blockEntriesFrom hbe) hb ?_
  rw [← hash_of_mem_blockEntriesFrom hbe, hhash]

theorem Inv.held_of_marked (h : Inv T cfg store c (entrySet c))
    (hheld : AddrHeld cfg store.disk c) (hsearch : cfg.addressSearch = true)
    (tr : Trace cfg store c daemon x) (n : Nat) {d : List Block} (hd : IsChain T d) {b : Block}
    (hb : b ∈ d) {address : Bytes} (hpays : Pays cfg b address)
    (hmarked : (store.disk.replay (x.log.take n)).history[HistoryKey.done b.hash]? = some []) :
    WrittenRow (x.log.take n) (.addr address) ∨
      store.disk.history[HistoryKey.addr address]? = some [] := by
  rcases (tr.history_crash n (by simp)).mp hmarked with hwritten | ⟨_, hold⟩
  · left
    rcases writtenRow_of_entry tr (fun op hop => List.mem_of_mem_take hop) hwritten with
      ⟨be, hbe, hhash, hrows⟩
    have hblock := block_eq_of_hash daemon.best.valid.toIsChain hd hbe hb hhash
    exact hrows _ (indexRow_addr_iff.mpr ⟨hsearch, hblock ▸ hpays⟩)
  · right
    rcases (indexed_done_iff h.history).mp (mem_of_getElem? hold) with ⟨be, hbe, hhash⟩
    have hblock := block_eq_of_hash h.valid.toIsChain hd hbe hb hhash
    exact (hheld address).mpr ⟨b, hblock ▸ block_mem_of_mem_blockEntriesFrom hbe, hpays⟩

end Crash

/-!
## The update after the crash
-/

section Recovered

variable {T : BlockTree} {cfg : IndexerConfig} {disk : Disk} {r e : List Block}
  {headers : HeaderList} {daemon : Daemon T} {x : Exec} {address : Bytes}

theorem Recoverable.marked_of_mem (h : Recoverable T cfg disk r e) {b : Block} (hb : b ∈ r) :
    disk.history[HistoryKey.done b.hash]? = some [] := by
  rcases List.getElem?_of_mem hb with ⟨i, hi⟩
  exact h.kept_history (blockEntryAt b i) (mem_chainEntries.mpr ⟨i, b, hi, rfl⟩) _
    (by simp [IsAddr]) IndexRow.done

section Update

variable (h : Recoverable T cfg disk r e) (hsearch : cfg.addressSearch = true)
  (tr : Trace cfg (Recoverable.opened disk headers) r daemon x)

include h hsearch tr

theorem Recoverable.indexed_pays_iff :
    (exists be, be ∈ tr.indexBatches.flatten ∧ IndexRow T cfg be (.addr address)) <->
      exists b, b ∈ daemon.best.blocks ∧
        b.hash ∉ (Recoverable.opened disk headers).indexedBlockhashes ∧ Pays cfg b address := by
  constructor
  · rintro ⟨be, hbe, hrow⟩
    have hn := List.mem_of_mem_filter (tr.indexBatches_perm.mem_iff.mp hbe)
    have hmarked := (Recoverable.mem_indexBatches tr hn).mp hbe
    rw [hash_of_mem_blockEntriesFrom hn] at hmarked
    exact ⟨be.block, tr.fork.mem_right.mpr (Or.inr (block_mem_of_mem_blockEntriesFrom hn)),
      fun hmem => hmarked (mem_loadIndexedBlockhashes.mp hmem),
      (indexRow_addr_iff.mp hrow).right⟩
  · rintro ⟨b, hb, hmarked, hpays⟩
    have hnot : b ∉ r := fun hr =>
      hmarked (mem_loadIndexedBlockhashes.mpr (mem_of_getElem? (h.marked_of_mem hr)))
    rcases List.getElem?_of_mem (tr.fork.added_iff.mp ⟨hb, hnot⟩) with ⟨i, hi⟩
    have hbe : blockEntryAt b (tr.q.length + i) ∈ blockEntriesFrom tr.q.length tr.n :=
      mem_blockEntriesFrom.mpr ⟨i, b, hi, rfl⟩
    refine ⟨_, (Recoverable.mem_indexBatches tr hbe).mpr fun hmem => ?_,
      indexRow_addr_iff.mpr ⟨hsearch, hpays⟩⟩
    exact hmarked (mem_loadIndexedBlockhashes.mpr hmem)

theorem Recoverable.removed_pays_iff (hrep : headers.Represents r) :
    (exists be, be ∈ removedEntries tr.q tr.a ∧ IndexRow T cfg be (.addr address)) <->
      exists b, T.block b.hash = some b ∧ b.hash ∈ headers.headers.map HeaderEntry.hash ∧
        b ∉ daemon.best.blocks ∧ Pays cfg b address := by
  simp only [mem_removedEntries, exists_entry_pays_iff hsearch, ← tr.fork.removed_iff]
  rw [hrep.headers_eq, map_hash_entriesFrom]
  constructor
  · rintro ⟨b, ⟨hr, hnot⟩, hpays⟩
    exact ⟨b, h.isChain.stored b hr, List.mem_map_of_mem hr, hnot, hpays⟩
  · rintro ⟨b, hstored, hhash, hnot, hpays⟩
    rcases List.mem_map.mp hhash with ⟨b', hb', heq⟩
    rw [← heq, h.isChain.stored b' hb'] at hstored
    cases hstored
    exact ⟨b, ⟨hb', hnot⟩, hpays⟩

theorem Recoverable.addr_after_update (hrep : headers.Represents r) :
    x.store.disk.history[HistoryKey.addr address]? = some [] <->
      (exists b, b ∈ daemon.best.blocks ∧
        b.hash ∉ (Recoverable.opened disk headers).indexedBlockhashes ∧ Pays cfg b address) ∨
      (disk.history[HistoryKey.addr address]? = some [] ∧
        ¬ exists b, T.block b.hash = some b ∧
          b.hash ∈ headers.headers.map HeaderEntry.hash ∧ b ∉ daemon.best.blocks ∧
          Pays cfg b address) := by
  rw [tr.history_update_iff (by simp) (P := fun v => v = some []) rfl (by simp),
    h.indexed_pays_iff hsearch tr, h.removed_pays_iff hsearch tr hrep]

end Update

end Recovered

section Recovery

variable {T : BlockTree} {cfg : IndexerConfig} {store : Store} {daemon : Daemon T} {x : Exec}

/-- After a crash at any point of an update the store can be opened.  The next update brings all
rows back exactly if the crash left no block that both chains share partly deleted, and no address
is lost. -/
theorem crash_recovery_iff {events : List (Event T)} {fetchFrom : FetchFrom}
    (hrun : run cfg events = .ok store)
    (hreturn : NoReturn (events ++ [.update fetchFrom daemon]))
    (hrepaid : cfg.addressSearch = true -> AtEveryUpdate (fun pre _ daemon =>
      SharedRepaid cfg (lastBest pre) daemon.best.blocks) events)
    (hupdate : update cfg fetchFrom daemon store = .ok x) (n : Nat) :
    exists store', Store.openStore cfg (store.disk.replay (x.log.take n)) = .ok store' ∧
      forall (fetchFrom' : FetchFrom) (daemon' : Daemon T) (x' : Exec),
        update cfg fetchFrom' daemon' store' = .ok x' ->
          (WhollyComplete T cfg x'.store <->
            (¬ exists be, be ∈ chainEntries (lastBest events) ∧
              be ∈ chainEntries daemon'.best.blocks ∧ PartlyDeleted T cfg (x.log.take n) be) ∧
            (cfg.addressSearch = true -> forall address,
              ¬ AddressLost T cfg (x.log.take n) store' daemon'.best.blocks address)) := by
  have hrun' : run cfg (events ++ [.update fetchFrom daemon]) = .ok x.store :=
    run_append_singleton.mpr ⟨store, hrun, bind_eq_ok.mpr ⟨x, hupdate, rfl⟩⟩
  have hpre := (atEveryUpdate_update.mp hreturn).left
  have hinv := (wholeInv_of_noReturn hrun hpre).inv
  have hinv' := (wholeInv_of_noReturn hrun' hreturn).inv
  rw [lastBest_update] at hinv'
  rcases exists_trace hinv.headers hinv.valid.toIsChain hinv.truthful hupdate with ⟨tr⟩
  rcases hinv.recoverable_crash tr hinv' n with ⟨r, e, hrecoverable, hwhole⟩
  rcases hrecoverable.openStore_eq with ⟨headers, hrep, hopen⟩
  refine ⟨_, hopen, ?_⟩
  intro fetchFrom' daemon' x' hupdate'
  rcases exists_trace hrep hrecoverable.isChain hrecoverable.truthful hupdate' with ⟨tr'⟩
  have hd := daemon'.best.valid.toIsChain
  rw [whollyComplete_iff tr'.headers hd, hrecoverable.complete_iff tr', hwhole _ hd]
  refine and_congr_right fun _ => forall_congr' fun hsearch => forall_congr' fun address => ?_
  rw [hrecoverable.addr_after_update hsearch tr' hrep, tr.history_crash n (by simp)]
  have hheld := addrHeld_of_run hsearch hrun hpre (hrepaid hsearch)
  constructor
  · rintro hpresent ⟨hpaid, hdeleted, hmarked⟩
    rcases hpresent hpaid with ⟨b, hb, hnot, hpays⟩ | ⟨hdisk, hkept⟩
    · exact hnot (hmarked b hb hpays)
    · rcases hdeleted with ⟨hdeleted, hnot⟩ | hgone
      · rcases hdisk with hwritten | ⟨hkept', _⟩
        · exact hnot hwritten
        · exact hkept' hdeleted
      · exact hkept hgone
  · intro hlost hpaid
    by_contra hnot
    rw [not_or] at hnot
    have hmarked : forall b, b ∈ daemon'.best.blocks -> Pays cfg b address ->
        b.hash ∈ (Recoverable.opened (store.disk.replay (x.log.take n))
          headers).indexedBlockhashes := by
      intro b hb hpays
      by_contra hunmarked
      exact hnot.left ⟨b, hb, hunmarked, hpays⟩
    refine hlost ⟨hpaid, ?_, hmarked⟩
    by_contra hkept
    rw [not_or] at hkept
    refine hnot.right ⟨?_, hkept.right⟩
    rcases hpaid with ⟨b, hb, hpays⟩
    rcases mem_iff_exists.mp (mem_loadIndexedBlockhashes.mp (hmarked b hb hpays)) with ⟨v, hv⟩
    by_cases hwritten : WrittenRow (x.log.take n) (.addr address)
    · exact Or.inl hwritten
    · refine Or.inr ⟨fun hdeleted => hkept.left ⟨hdeleted, hwritten⟩, ?_⟩
      rcases hinv.held_of_marked hheld hsearch tr n hd hb hpays
        (tr.history_value hinv n hv ▸ hv) with hwritten' | hold
      · exact absurd hwritten' hwritten
      · exact hold

end Recovery

namespace Sample

def fundingA : HistoryKey :=
  (historyRow config [1] 1 0 (.funding { txid := 102, vout := 0, value := 50 })).1

theorem indexRow_fundingA : IndexRow tree config (blockEntryAt blockA 1) fundingA :=
  @IndexRow.funding _ _ (blockEntryAt blockA 1) _ 0 0 _ rfl rfl (by decide)

/-- The first row of block `A` was deleted before the crash.  It is not written again when the
daemon returns to the branch. -/
theorem row_lost_after_crash :
    exists store x store' x', run config [.update .bitcoind daemonA] = .ok store ∧
      update config .bitcoind daemonB store = .ok x ∧
      Store.openStore config (store.disk.replay (x.log.take 2)) = .ok store' ∧
      update config .bitcoind daemonA' store' = .ok x' ∧
      store.disk.history[fundingA]? = some [] ∧
      x'.store.disk.history[fundingA]? = none ∧
      ¬ WhollyComplete tree config x'.store := by
  have heval : exists store, run config [.update .bitcoind daemonA] = .ok store ∧
      store.disk.history[fundingA]? = some [] ∧
      exists x, update config .bitcoind daemonB store = .ok x ∧
      exists store', Store.openStore config (store.disk.replay (x.log.take 2)) = .ok store' ∧
      exists x', update config .bitcoind daemonA' store' = .ok x' ∧
        x'.store.disk.history[fundingA]? = none ∧
        blockA.entryAt 1 ∈ x'.store.indexedHeaders.headers := by
    decide +kernel
  rcases heval with
    ⟨store, hrun, hbefore, x, hupdate, store', hopen, x', hupdate', hafter, hheader⟩
  refine ⟨store, x, store', x', hrun, hupdate, hopen, hupdate', hbefore, hafter, ?_⟩
  intro hcomplete
  rcases hcomplete _ hheader with ⟨block, hblock, hindexed⟩
  cases hblock
  rcases hindexed.history with ⟨rows, hrows, hstored⟩
  have hpresent := hstored (fundingA, []) ((mem_indexRows hrows).mpr ⟨rfl, indexRow_fundingA⟩)
  rw [hafter] at hpresent
  cases hpresent

theorem complete_after_crash :
    exists store x store' x', run config [.update .bitcoind daemonA] = .ok store ∧
      update config .bitcoind daemonB store = .ok x ∧
      Store.openStore config (store.disk.replay (x.log.take 2)) = .ok store' ∧
      store'.disk.history[fundingA]? = none ∧
      update config .bitcoind daemonB store' = .ok x' ∧
      WhollyComplete tree config x'.store := by
  have heval : exists store, run config [.update .bitcoind daemonA] = .ok store ∧
      exists x, update config .bitcoind daemonB store = .ok x ∧
      ((x.log.take 2).filterMap DbOp.history?).map TableOp.keys = [[fundingA]] ∧
      ((x.log.take 2).filterMap DbOp.txstore?).map TableOp.keys = [[.tip]] ∧
      exists store', Store.openStore config (store.disk.replay (x.log.take 2)) = .ok store' ∧
      store'.disk.history[fundingA]? = none ∧
      store'.indexedHeaders.headers.map HeaderEntry.hash = [genesis.hash] ∧
      exists x', update config .bitcoind daemonB store' = .ok x' := by
    decide +kernel
  rcases heval with ⟨store, hrun, x, hupdate, hhistory, htxstore, store', hopen, hgone, hheaders,
    x', hupdate'⟩
  refine ⟨store, x, store', x', hrun, hupdate, hopen, hgone, hupdate', ?_⟩
  have hreturn : NoReturn ([.update .bitcoind daemonA] ++
      [.update .bitcoind daemonB] : List (Event tree)) :=
    atEveryUpdate_update.mpr ⟨atEveryUpdate_update.mpr ⟨atEveryUpdate_nil, by decide⟩, by decide⟩
  have hrepaid : AtEveryUpdate (fun pre _ daemon =>
      SharedRepaid config (lastBest pre) daemon.best.blocks)
        ([] ++ [.update .bitcoind daemonA] : List (Event tree)) := by
    refine atEveryUpdate_update.mpr ⟨atEveryUpdate_nil, ?_⟩
    rintro address ⟨b, hb, _⟩
    cases hb
  rcases crash_recovery_iff hrun hreturn (fun _ => hrepaid) hupdate 2 with ⟨opened, hopen', hiff⟩
  rw [hopen] at hopen'
  cases hopen'
  have hdelete : forall k, DbOp.history (.delete k) ∈ x.log.take 2 -> k = fundingA := by
    intro k hmem
    have hkeys := List.mem_map_of_mem (f := TableOp.keys) (DbOp.mem_filterMap_history?.mpr hmem)
    rw [hhistory] at hkeys
    exact (List.cons.inj (List.mem_singleton.mp hkeys)).left
  refine (hiff .bitcoind daemonB x' hupdate').mpr ⟨?_, fun _ address hlost => ?_⟩
  · rintro ⟨be, hold, hnew, ⟨⟨k, haddr, hrow, hmem⟩, _⟩ | ⟨⟨k, v, hrow, hmem⟩, _⟩⟩
    · rw [hdelete k hmem] at hrow haddr
      have hbe : be = blockEntryAt blockA 1 := indexRow_unique daemonA.best.valid hold
        (mem_chainEntries.mpr ⟨1, blockA, rfl, rfl⟩) haddr hrow indexRow_fundingA
      have hblock := block_mem_of_mem_blockEntriesFrom hnew
      rw [hbe] at hblock
      exact absurd hblock (by decide)
    · have hkeys := List.mem_map_of_mem (f := TableOp.keys) (DbOp.mem_filterMap_txstore?.mpr hmem)
      rw [htxstore] at hkeys
      exact (isStoreKey_of_addRow hrow).left (List.cons.inj (List.mem_singleton.mp hkeys)).left
  · rcases hlost.deleted with ⟨hmem, _⟩ | ⟨b, hstored, hhash, hnot, _⟩
    · have hkey := hdelete _ hmem
      cases hkey
    · rw [hheaders, List.mem_singleton] at hhash
      rw [hhash] at hstored
      cases hstored
      exact hnot (by decide)

end Sample

end NewIndex
end Splora
