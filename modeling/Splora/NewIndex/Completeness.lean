import Splora.NewIndex.Invariant

/-!
# Completeness and staleness of the index

No row of an abandoned block is left.  But the indexed hashes are loaded at a restart only, so a
block that was on the best chain then, left it and comes back is taken for indexed.
-/

namespace Splora
namespace NewIndex

open Foundation

structure FullyIndexed (T : BlockTree) (cfg : IndexerConfig) (disk : Disk)
    (be : BlockEntry) : Prop where
  history : exists rows, IndexRows T cfg be rows ∧ forall row, row ∈ rows -> ¬ IsAddr row.1 ->
      disk.history[row.1]? = some row.2
  txstore : forall row, row ∈ addBlock cfg be -> disk.txstore[row.1]? = some row.2

def Complete (T : BlockTree) (cfg : IndexerConfig) (store : Store) : Prop :=
  forall e, e ∈ store.indexedHeaders.headers -> exists block, T.block e.hash = some block ∧
      FullyIndexed T cfg store.disk { block := block, entry := e, size := block.size }

section Complete

variable {T : BlockTree} {cfg : IndexerConfig} {store : Store}
  {c : List Block} {s : Set BlockEntry}

variable {be : BlockEntry}

theorem FullyIndexed.done {disk : Disk} (h : FullyIndexed T cfg disk be) :
    disk.history[HistoryKey.done be.entry.hash]? = some [] := by
  rcases h.history with ⟨rows, hrows, hdisk⟩
  exact hdisk (.done be.entry.hash, [])
    ((mem_indexRows hrows).mpr ⟨rfl, IndexRow.done⟩) (by simp [IsAddr])

theorem Inv.fullyIndexed (h : Inv T cfg store c s) (hbe : be ∈ s) :
    FullyIndexed T cfg store.disk be := by
  rcases h.produced be hbe with ⟨rows, hrows⟩
  refine ⟨⟨rows, hrows, ?_⟩, ?_⟩
  · rintro ⟨k, v⟩ hrow haddr
    have hindex := (mem_indexRows hrows).mp hrow
    exact h.history.getElem? (isHistoryKey_of_indexRow hindex.right haddr) hbe hindex
  · rintro ⟨k, v⟩ hrow
    have hadd := mem_addBlock.mp hrow
    exact h.txstore.getElem? (isStoreKey_of_addRow hadd) (h.indexed_sub hbe) hadd

theorem complete_iff_forall (hrep : store.indexedHeaders.Represents c) (hc : IsChain T c) :
    Complete T cfg store <-> forall be, be ∈ entrySet c -> FullyIndexed T cfg store.disk be := by
  have hentry : forall be, be ∈ entrySet c ->
      T.block be.entry.hash = some be.block ∧ be.size = be.block.size := by
    intro be hbe
    refine ⟨stored_of_mem_entrySet hc hbe, ?_⟩
    rcases mem_chainEntries.mp hbe with ⟨i, b, hb, rfl⟩
    rfl
  unfold Complete
  rw [hrep.headers_eq, ← map_entry_blockEntriesFrom]
  constructor
  · intro h be hbe
    rcases h be.entry (List.mem_map_of_mem hbe) with ⟨block, hblock, hfull⟩
    rcases hentry be hbe with ⟨hstored, hsize⟩
    rw [hstored] at hblock
    rw [← Option.some.inj hblock, ← hsize] at hfull
    exact hfull
  · intro h e he
    rcases List.mem_map.mp he with ⟨be, hbe, rfl⟩
    rcases hentry be hbe with ⟨hstored, hsize⟩
    refine ⟨be.block, hstored, ?_⟩
    rw [← hsize]
    exact h be hbe

theorem Inv.mem_of_done (h : Inv T cfg store c s) (hbe : be ∈ entrySet c) {v : Bytes}
    (hdone : store.disk.history[HistoryKey.done be.entry.hash]? = some v) :
    be ∈ s := by
  rcases (indexed_done_iff h.history).mp (mem_of_getElem? hdone) with ⟨be', hbe', hhash⟩
  have heq : be' = be :=
    entry_eq_of_hash_eq h.valid.toIsChain (h.indexed_sub hbe') hbe hhash
  rw [← heq]
  exact hbe'

theorem Inv.complete_iff (h : Inv T cfg store c s) : Complete T cfg store <-> s = entrySet c := by
  rw [complete_iff_forall h.headers h.valid.toIsChain]
  constructor
  · intro hfull
    apply Set.Subset.antisymm h.indexed_sub
    intro be hbe
    exact h.mem_of_done hbe (hfull be hbe).done
  · intro hs be hbe
    exact h.fullyIndexed (hs ▸ hbe)

end Complete

/-!
## Completeness along runs
-/

section Runs

variable {T : BlockTree} {cfg : IndexerConfig} {store : Store}
  {events : List (Event T)}

def Event.isUpdate : Event T -> Bool
  | .update _ _ => true
  | .restart => false

def restartBest (events : List (Event T)) : List Block :=
  lastBest (events.rdropWhile Event.isUpdate)

@[simp] theorem restartBest_nil : restartBest ([] : List (Event T)) = [] := rfl

@[simp] theorem restartBest_update (fetchFrom : FetchFrom) (daemon : Daemon T) :
    restartBest (events ++ [.update fetchFrom daemon]) =
      restartBest events := by
  rw [restartBest, List.rdropWhile_concat_pos _ _ _ rfl, restartBest]

@[simp] theorem restartBest_restart : restartBest (events ++ [.restart]) = lastBest events := by
  rw [restartBest, List.rdropWhile_concat_neg _ _ _ Bool.false_ne_true, lastBest_restart]

theorem isChain_restartBest (events : List (Event T)) : IsChain T (restartBest events) :=
  (validChain_lastBest _).toIsChain

def CompleteAfterUpdates (cfg : IndexerConfig) (events : List (Event T)) :
    Prop :=
  AtEveryUpdate (fun pre fetchFrom daemon =>
    forall store, run cfg (pre ++ [.update fetchFrom daemon]) = .ok store ->
      Complete T cfg store) events

/--
No update brings back a block that was on the best chain at the last restart and
has left it since.
-/
def NoReturn (events : List (Event T)) : Prop :=
  AtEveryUpdate (fun pre _ daemon =>
    forall b, b ∈ daemon.best.blocks -> b ∈ restartBest pre -> b ∈ lastBest pre) events

structure WholeInv (T : BlockTree) (cfg : IndexerConfig) (store : Store)
    (events : List (Event T)) : Prop where
  inv : Inv T cfg store (lastBest events) (entrySet (lastBest events))
  indexed_eq : forall hash, hash ∈ store.indexedBlockhashes <->
    hash ∈ (restartBest events).map Block.hash

theorem WholeInv.nextIndexed_eq_iff {daemon : Daemon T} {x : Exec} (h : WholeInv T cfg store events)
    (tr : Trace cfg store (lastBest events) daemon x) :
    nextIndexed (entrySet (lastBest events)) tr.q tr.a tr.n
        store.indexedBlockhashes = entrySet daemon.best.blocks <->
      forall b, b ∈ daemon.best.blocks -> b ∈ restartBest events -> b ∈ lastBest events := by
  have hd := daemon.best.valid.toIsChain
  constructor
  · intro heq b hb hrestart
    by_contra hnot
    rcases List.mem_iff_getElem?.mp hb with ⟨i, hi⟩
    have hbe : blockEntryAt b i ∈ entrySet daemon.best.blocks :=
      mem_chainEntries.mpr ⟨i, b, hi, rfl⟩
    rw [← heq] at hbe
    rcases hbe with ⟨hold, _⟩ | hnew
    · exact hnot (block_mem_of_mem_blockEntriesFrom hold)
    · have hmarked := of_decide_eq_true (List.mem_filter.mp hnew).right
      apply hmarked
      rw [h.indexed_eq]
      exact List.mem_map_of_mem hrestart
  · intro hreturn
    ext be
    rw [entrySet_right tr.fork, ← mem_entrySet_sdiff tr.fork h.inv.valid.toIsChain]
    refine or_congr_right ?_
    rw [unmarkedEntries, List.mem_filter]
    refine ⟨And.left, fun hn => ⟨hn, decide_eq_true ?_⟩⟩
    intro hmarked
    rw [h.indexed_eq] at hmarked
    rcases List.mem_map.mp hmarked with ⟨b, hb, hhash⟩
    have hbd : be.block ∈ daemon.best.blocks := by
      rw [tr.fork.right_eq]
      exact List.mem_append_right _ (block_mem_of_mem_blockEntriesFrom hn)
    rw [hash_of_mem_blockEntriesFrom hn] at hhash
    have heq : b = be.block :=
      (isChain_restartBest events).eq_of_hash_eq hd hb hbd hhash
    rw [heq] at hb
    exact tr.fork.added be.block (block_mem_of_mem_blockEntriesFrom hn) (hreturn be.block hbd hb)

theorem wholeInv_open (hopen : Store.openStore cfg Disk.empty = .ok store) :
    WholeInv T cfg store [] := by
  have hempty : entrySet [] = ∅ := Set.eq_empty_of_forall_notMem (by
    intro be hbe
    cases hbe)
  rcases openStore_empty_eq_ok hopen with ⟨hinv, hindexed, _⟩
  refine ⟨?_, ?_⟩
  · rw [lastBest_nil, hempty]
    exact hinv
  · simp [hindexed]

theorem WholeInv.update {fetchFrom : FetchFrom} {daemon : Daemon T}
    {store' : Store} (h : WholeInv T cfg store events)
    (hstep : step cfg store (.update fetchFrom daemon) = .ok store')
    (hreturn : forall b, b ∈ daemon.best.blocks -> b ∈ restartBest events -> b ∈ lastBest events) :
    WholeInv T cfg store' (events ++ [.update fetchFrom daemon]) := by
  rcases h.inv.exists_trace hstep with ⟨x, rfl, ⟨tr⟩⟩
  have hinv := h.inv.update tr
  rw [(h.nextIndexed_eq_iff tr).mpr hreturn] at hinv
  refine ⟨?_, ?_⟩
  · rw [lastBest_update]
    exact hinv
  · rw [restartBest_update, tr.indexed_eq]
    exact h.indexed_eq

theorem WholeInv.restart {store' : Store} (h : WholeInv T cfg store events)
    (hstep : step cfg store (.restart : Event T) = .ok store') :
    WholeInv T cfg store' (events ++ [.restart]) := by
  rcases h.inv.restart_step hstep with ⟨hinv, hindexed⟩
  refine ⟨?_, ?_⟩
  · rw [lastBest_restart]
    exact hinv
  · intro hash
    rw [hindexed, restartBest_restart, ← mem_blockhashes_blockEntriesFrom 0, mem_blockhashes]
    rfl

theorem wholeInv_of_noReturn (hrun : run cfg events = .ok store)
    (hreturn : NoReturn events) : WholeInv T cfg store events := by
  induction events using List.reverseRecOn generalizing store with
  | nil =>
    rw [run_nil] at hrun
    exact wholeInv_open hrun
  | append_singleton events event ih =>
    rcases run_append_singleton.mp hrun with ⟨store', hrun', hstep⟩
    cases event with
    | update fetchFrom daemon =>
      rcases atEveryUpdate_update.mp hreturn with ⟨hpre, hlast⟩
      exact (ih hrun' hpre).update hstep hlast
    | restart =>
      exact (ih hrun' (atEveryUpdate_restart.mp hreturn)).restart hstep

theorem noReturn_of_complete (hrun : run cfg events = .ok store)
    (hcomplete : CompleteAfterUpdates cfg events) : NoReturn events := by
  induction events using List.reverseRecOn generalizing store with
  | nil => exact atEveryUpdate_nil
  | append_singleton events event ih =>
    rcases run_append_singleton.mp hrun with ⟨store', hrun', hstep⟩
    cases event with
    | update fetchFrom daemon =>
      rcases atEveryUpdate_update.mp hcomplete with ⟨hpre, hlast⟩
      have hreturn := ih hrun' hpre
      refine atEveryUpdate_update.mpr ⟨hreturn, ?_⟩
      have hwhole := wholeInv_of_noReturn hrun' hreturn
      rcases hwhole.inv.exists_trace hstep with ⟨x, rfl, ⟨tr⟩⟩
      apply (hwhole.nextIndexed_eq_iff tr).mp
      exact (hwhole.inv.update tr).complete_iff.mp (hlast _ hrun)
    | restart =>
      exact atEveryUpdate_restart.mpr (ih hrun' (atEveryUpdate_restart.mp hcomplete))

theorem completeAfterUpdates_iff (hrun : run cfg events = .ok store) :
    CompleteAfterUpdates cfg events <-> NoReturn events := by
  refine ⟨noReturn_of_complete hrun, ?_⟩
  intro hreturn pre fetchFrom daemon hpre store' hrun'
  have hpreturn : NoReturn (pre ++ [.update fetchFrom daemon]) := by
    intro pre' fetchFrom' daemon' hpre'
    exact hreturn pre' fetchFrom' daemon' (hpre'.trans hpre)
  exact (wholeInv_of_noReturn hrun' hpreturn).inv.complete_iff.mpr rfl

end Runs

/-!
## A branch that returns
-/

namespace Sample

def config : IndexerConfig where
  lightMode := false
  addressSearch := true
  indexUnspendables := false
  network := .regtest
  externals := {
    classify := fun op => if op = 0x6a then .returnOp else .other
    sha256 := fun script =>
      BitVec.ofNat 256 (script.foldl (fun n byte => 256 * n + byte.toNat) 0)
    toAddressStr := fun _ script => some script }

def coinbase (txid : Txid) (script : Script) : Transaction where
  txid := txid
  input := [{ previousOutput := OutPoint.null }]
  output := [{ value := 50, scriptPubkey := script }]
  raw := []
  weight := 400
  output_lt := by simp

def payment (txid prevTxid : Txid) (script : Script) : Transaction where
  txid := txid
  input := [{ previousOutput := { txid := prevTxid, vout := 0 } }]
  output := [{ value := 40, scriptPubkey := script }]
  raw := []
  weight := 400
  input_lt := by simp
  output_lt := by simp

def header (hash prevBlockhash : BlockHash) : BlockHeader where
  hash := hash
  version := 1
  prevBlockhash := prevBlockhash
  merkleRoot := 0
  time := 0
  bits := 0
  nonce := 0

def genesis : Block where
  header := header 1 nullHash
  txdata := [coinbase 101 [1]]
  size := 200
  weight := 800

def blockA : Block where
  header := header 2 1
  txdata := [coinbase 102 [1], payment 103 101 [3]]
  size := 300
  weight := 1200

def blockA' : Block where
  header := header 3 2
  txdata := [coinbase 104 [4]]
  size := 200
  weight := 800

def blockB : Block where
  header := header 4 1
  txdata := [coinbase 105 [5]]
  size := 200
  weight := 800

def tree : BlockTree :=
  BlockTree.ofList [genesis, blockA, blockA', blockB] (by decide) (by decide)

def daemonOf {T : BlockTree} (first : Block) (rest : List Block)
    (hvalid : ValidChain T (first :: rest)) : Daemon T where
  best := { blocks := first :: rest, valid := hvalid, nonempty := List.cons_ne_nil first rest }
  blkFiles := []
  blkFiles_stored := by
    intro file hfile
    cases hfile

def daemonA : Daemon tree :=
  daemonOf genesis [blockA] ⟨⟨by decide, by decide⟩, by decide, by decide⟩

def daemonA' : Daemon tree :=
  daemonOf genesis [blockA, blockA'] ⟨⟨by decide, by decide⟩, by decide, by decide⟩

def daemonB : Daemon tree :=
  daemonOf genesis [blockB] ⟨⟨by decide, by decide⟩, by decide, by decide⟩

def flip : List (Event tree) :=
  [.update .bitcoind daemonA, .restart, .update .bitcoind daemonB, .update .bitcoind daemonA']

theorem not_complete_after_flip :
    exists store, run config flip = .ok store ∧
      store.disk.history[HistoryKey.history {
        code := .script
        hash := 3
        confirmedHeight := 1
        txPosition := 1
        txinfo := .funding { txid := 103, vout := 0, value := 40 } }]? = none ∧
      ¬ Complete tree config store := by
  have heval : exists store, run config flip = .ok store ∧
      blockA.entryAt 1 ∈ store.indexedHeaders.headers ∧
      store.disk.history[HistoryKey.done blockA.hash]? = none ∧
      store.disk.history[HistoryKey.history {
        code := .script
        hash := 3
        confirmedHeight := 1
        txPosition := 1
        txinfo := .funding { txid := 103, vout := 0, value := 40 } }]? = none := by
    decide +kernel
  rcases heval with ⟨store, hrun, hheader, hdone, hfunding⟩
  refine ⟨store, hrun, hfunding, ?_⟩
  intro hcomplete
  rcases hcomplete _ hheader with ⟨block, _, hfull⟩
  have hpresent := hfull.done
  rw [Block.entryAt_hash, hdone] at hpresent
  cases hpresent

def reorg : List (Event tree) :=
  [.update .bitcoind daemonA, .restart, .update .bitcoind daemonB]

theorem exists_run_reorg : exists store, run config reorg = .ok store := by
  decide +kernel

theorem noReturn_reorg : NoReturn reorg := by
  refine atEveryUpdate_update.mpr ⟨atEveryUpdate_restart.mpr
    (atEveryUpdate_update.mpr ⟨atEveryUpdate_nil, ?_⟩), ?_⟩
  · decide
  · decide

theorem completeAfterUpdates_reorg : CompleteAfterUpdates config reorg := by
  rcases exists_run_reorg with ⟨store, hrun⟩
  exact (completeAfterUpdates_iff hrun).mpr noReturn_reorg

end Sample

/-!
## No stale rows
-/

section Stale

variable {T : BlockTree} {cfg : IndexerConfig} {store : Store}
  {events : List (Event T)} {fetchFrom : FetchFrom} {daemon : Daemon T}

/-- After an update every block row is a row of a block of the best chain. -/
theorem rows_of_best_chain (hrun : run cfg (events ++ [.update fetchFrom daemon]) = .ok store) :
    (forall k v, IsHistoryKey k -> store.disk.history[k]? = some v ->
      exists be, be ∈ chainEntries daemon.best.blocks ∧
        exists rows, IndexRows T cfg be rows ∧ (k, v) ∈ rows) ∧
    (forall k v, IsStoreKey k -> store.disk.txstore[k]? = some v ->
      exists be, be ∈ chainEntries daemon.best.blocks ∧ (k, v) ∈ addBlock cfg be) := by
  rcases exists_inv hrun with ⟨s, hinv⟩
  rw [lastBest_update] at hinv
  constructor
  · intro k v hk hv
    rcases (hinv.history k hk v).mp hv with ⟨be, hbe, hrow⟩
    rcases hinv.produced be hbe with ⟨rows, hrows⟩
    exact ⟨be, hinv.indexed_sub hbe, rows, hrows, (mem_indexRows hrows).mpr hrow⟩
  · intro k v hk hv
    rcases (hinv.txstore k hk v).mp hv with ⟨be, hbe, hrow⟩
    exact ⟨be, hbe, mem_addBlock.mpr hrow⟩

theorem rows_of_best_chain_reorg :
    exists store, run Sample.config Sample.reorg = .ok store ∧
      forall k v, IsHistoryKey k -> store.disk.history[k]? = some v ->
        exists be, be ∈ chainEntries [Sample.genesis, Sample.blockB] ∧
          exists rows, IndexRows Sample.tree Sample.config be rows ∧ (k, v) ∈ rows := by
  rcases Sample.exists_run_reorg with ⟨store, hrun⟩
  have hrun' : run Sample.config ([.update .bitcoind Sample.daemonA, .restart] ++
      [.update .bitcoind Sample.daemonB]) = .ok store := hrun
  exact ⟨store, hrun, (rows_of_best_chain hrun').left⟩

end Stale

end NewIndex
end Splora
