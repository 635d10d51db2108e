import Splora.NewIndex.Completeness

/-!
# Previous outputs are always found

History rows of removed blocks go while the transaction store has all rows of the old chain; new
blocks are all stored before the first is indexed.  So an update fails only before it changes
anything, or because the `blk*.dat` files lack a block.
-/

namespace Splora
namespace NewIndex

open Foundation

def chainTxs (blocks : List Block) : List Transaction :=
  blocks.flatMap Block.txdata

/-- Every input spends an output of an earlier transaction, whose script can succeed. -/
def SpendsEarlier (cfg : IndexerConfig) (blocks : List Block) : Prop :=
  forall (i : Nat) (tx : Transaction), (chainTxs blocks)[i]? = some tx ->
    forall txi, txi ∈ tx.input -> hasPrevout txi = true ->
      exists (j : Nat) (prev : Transaction) (txo : TxOut),
        j < i ∧ (chainTxs blocks)[j]? = some prev ∧
        prev.txid = txi.previousOutput.txid ∧
        prev.output[txi.previousOutput.vout.toNat]? = some txo ∧
        cfg.isSpendable txo = true

def Resolves (txstore : TxstoreTable) (bes : List BlockEntry) : Prop :=
  forall be, be ∈ bes -> forall tx, tx ∈ be.block.txdata ->
    forall txi, txi ∈ tx.input -> hasPrevout txi = true ->
      exists txo, lookupTxo txstore txi.previousOutput = some txo

section Index

variable {T : BlockTree} {cfg : IndexerConfig} {x : Exec}
  {bes : List BlockEntry} {txstore : TxstoreTable}

theorem resolves_of_materializes {blocks : List Block}
    (hrows : Materializes IsStoreKey (AddRow cfg) txstore (entrySet blocks))
    (hspends : SpendsEarlier cfg blocks)
    (hbes : forall be, be ∈ bes -> be ∈ entrySet blocks) :
    Resolves txstore bes := by
  intro be hbe tx htx txi htxi hprevout
  have hblock := block_mem_of_mem_blockEntriesFrom (hbes be hbe)
  have htxs : tx ∈ chainTxs blocks :=
    List.mem_flatMap.mpr ⟨be.block, hblock, htx⟩
  rcases List.getElem?_of_mem htxs with ⟨i, hi⟩
  rcases hspends i tx hi txi htxi hprevout with ⟨j, prev, txo, _, hj, htxid, htxo, hspendable⟩
  rcases List.mem_flatMap.mp (List.mem_of_getElem? hj) with ⟨b, hb, hprev⟩
  rcases List.getElem?_of_mem hb with ⟨height, hheight⟩
  have hmem : blockEntryAt b height ∈ entrySet blocks :=
    mem_chainEntries.mpr ⟨height, b, hheight, rfl⟩
  have hrow := hrows.getElem? (by simp [IsStoreKey]) hmem (AddRow.txout hprev htxo hspendable)
  refine ⟨txo, lookupTxo_eq_some.mpr ?_⟩
  have hkey : ({ txid := prev.txid
                 vout := (txi.previousOutput.vout.toNat).toUInt32 } : OutPoint) =
      txi.previousOutput := by
    rw [htxid]
    simp
  rw [← hkey]
  exact hrow

theorem indexTransaction_succeeds {tx : Transaction} {height : UInt32}
    {pos : UInt16} {txos : TxoMap}
    (h : forall txi, txi ∈ tx.input -> hasPrevout txi = true ->
      exists txo, txos txi.previousOutput = some txo) :
    exists rows, indexTransaction cfg tx height pos txos = .ok rows := by
  have hinputs : exists rss, (tx.input.zipIdx.mapM fun p =>
      indexInput cfg tx height pos txos p.1 p.2) = .ok rss := by
    apply mapM_ok_of_forall
    rintro ⟨txi, i⟩ hmem
    have htxi : txi ∈ tx.input :=
      List.mem_of_getElem? (List.mk_mem_zipIdx_iff_getElem?.mp hmem)
    cases hprevout : hasPrevout txi with
    | false => exact ⟨[], indexInput_eq_ok.mpr (Or.inl ⟨hprevout, rfl⟩)⟩
    | true =>
      rcases h txi htxi hprevout with ⟨txo, htxo⟩
      exact ⟨_, indexInput_eq_ok.mpr (Or.inr ⟨hprevout, txo, htxo, rfl⟩)⟩
  rcases hinputs with ⟨rss, hrss⟩
  exact ⟨_, bind_eq_ok.mpr ⟨rss, hrss, rfl⟩⟩

theorem lookupTxos_succeeds (h : Resolves txstore bes) :
    exists txos, lookupTxos txstore (getPreviousTxos bes) false = .ok txos ∧
      forall be, be ∈ bes -> forall tx, tx ∈ be.block.txdata ->
        forall txi, txi ∈ tx.input -> hasPrevout txi = true ->
          exists txo, txos txi.previousOutput = some txo := by
  refine ⟨_, bind_eq_ok.mpr ⟨(), forM_eq_ok.mpr ?_, rfl⟩, ?_⟩
  · intro outpoint hmem
    simp only [getPreviousTxos, List.mem_flatMap, List.mem_map, List.mem_filter] at hmem
    rcases hmem with ⟨be, hbe, tx, htx, txi, ⟨htxi, hprevout⟩, rfl⟩
    rcases h be hbe tx htx txi htxi hprevout with ⟨txo, htxo⟩
    exact ensure_of _ (by simp [htxo])
  · intro be hbe tx htx txi htxi hprevout
    rcases h be hbe tx htx txi htxi hprevout with ⟨txo, htxo⟩
    refine ⟨txo, ?_⟩
    rw [if_pos, htxo]
    simp only [getPreviousTxos, List.mem_flatMap, List.mem_map, List.mem_filter]
    exact ⟨be, hbe, tx, htx, txi, ⟨htxi, hprevout⟩, rfl⟩

theorem index_succeeds {op : Operation} (hresolves : Resolves x.store.disk.txstore bes)
    (hadded : op = .addBlocks -> forall be, be ∈ bes -> be.entry.hash ∈ x.store.addedBlockhashes) :
    exists rows, index cfg op x bes = .ok (indexEffect op x rows) := by
  rcases lookupTxos_succeeds hresolves with ⟨txos, htxos, hfound⟩
  have hblocks : exists rows, indexBlocks cfg txos bes = .ok rows := by
    have hrss : exists rss, bes.mapM (indexBlock cfg txos) = .ok rss := by
      apply mapM_ok_of_forall
      intro be hbe
      have htxs : exists rss, (be.block.txdata.zipIdx.mapM fun p =>
          indexTransaction cfg p.1 be.entry.height.toUInt32 p.2.toUInt16 txos) =
            .ok rss := by
        apply mapM_ok_of_forall
        rintro ⟨tx, idx⟩ hmem
        apply indexTransaction_succeeds
        exact hfound be hbe tx (List.mem_of_getElem? (List.mk_mem_zipIdx_iff_getElem?.mp hmem))
      rcases htxs with ⟨rss, hrss⟩
      exact ⟨_, bind_eq_ok.mpr ⟨rss, hrss, rfl⟩⟩
    rcases hrss with ⟨rss, hrss⟩
    exact ⟨_, bind_eq_ok.mpr ⟨rss, hrss, rfl⟩⟩
  rcases hblocks with ⟨rows, hrows⟩
  refine ⟨rows, bind_eq_ok.mpr ⟨txos, htxos, bind_eq_ok.mpr ⟨(), ?_, ?_⟩⟩⟩
  · apply forM_eq_ok.mpr
    intro be hbe
    exact ensure_of _ fun hop => hadded hop be hbe
  · exact bind_eq_ok.mpr ⟨rows, hrows, rfl⟩

@[simp] theorem indexEffect_txstore (op : Operation) (x : Exec) (rows : List HistoryRow) :
    (indexEffect op x rows).store.disk.txstore = x.store.disk.txstore := by
  have hdelete : (x.store.disk.replay (rows.map deleteHistoryRow)).txstore =
      x.store.disk.txstore := by
    rw [Disk.txstore_replay, filterMap_txstore?_deleteHistoryRow]
    rfl
  cases op with
  | addBlocks => rfl
  | deleteBlocks => exact hdelete
  | deleteBlocksWithHistory => exact hdelete

@[simp] theorem indexEffect_addedBlockhashes (op : Operation) (x : Exec) (rows : List HistoryRow) :
    (indexEffect op x rows).store.addedBlockhashes =
      x.store.addedBlockhashes := by
  cases op <;> rfl

theorem foldlM_index_succeeds {op : Operation} {batches : List (List BlockEntry)}
    (hresolves : Resolves x.store.disk.txstore batches.flatten)
    (hadded : op = .addBlocks -> forall be, be ∈ batches.flatten ->
      be.entry.hash ∈ x.store.addedBlockhashes) :
    exists x', batches.foldlM (index cfg op) x = .ok x' := by
  induction batches generalizing x with
  | nil => exact ⟨x, rfl⟩
  | cons blocks rest ih =>
    have hblocks : forall be, be ∈ blocks -> be ∈ (blocks :: rest).flatten := by
      intro be hbe
      exact List.mem_append_left _ hbe
    have hrest : forall be, be ∈ rest.flatten -> be ∈ (blocks :: rest).flatten := by
      intro be hbe
      exact List.mem_append_right _ hbe
    have hindex : exists rows, index cfg op x blocks = .ok (indexEffect op x rows) :=
      index_succeeds (fun be hbe => hresolves be (hblocks be hbe))
        (fun hop be hbe => hadded hop be (hblocks be hbe))
    rcases hindex with ⟨rows, hindex⟩
    have hfold : exists x', rest.foldlM (index cfg op) (indexEffect op x rows) = .ok x' := by
      apply ih
      · rw [indexEffect_txstore]
        exact fun be hbe => hresolves be (hrest be hbe)
      · rw [indexEffect_addedBlockhashes]
        exact fun hop be hbe => hadded hop be (hrest be hbe)
    rcases hfold with ⟨x', hx'⟩
    rw [List.foldlM_cons]
    exact ⟨x', bind_eq_ok.mpr ⟨_, hindex, hx'⟩⟩

end Index

/-!
## Updates
-/

section Update

variable {T : BlockTree} {cfg : IndexerConfig} {daemon : Daemon T}
  {store : Store} {c q a n : List Block} {s : Set BlockEntry} {x : Exec}

theorem rollback_succeeds (hchain : IsChain T (q ++ a))
    (hresolves : Resolves x.store.disk.txstore (removedEntries q a))
    (tip : Option BlockHash) :
    exists x', rollback cfg daemon ((removedEntries q a).map BlockEntry.entry) tip x = .ok x' := by
  have hfetch : bitcoindSequentialFetcher daemon ((removedEntries q a).map BlockEntry.entry) =
        .ok (chunks 100 (removedEntries q a)) :=
    (fetchable_removedEntries hchain).bitcoindSequentialFetcher_eq
  have hfold : exists x', (chunks 100 (removedEntries q a)).foldlM
      (index cfg .deleteBlocksWithHistory) (x.emit [rollbackOp tip]) =
        .ok x' := by
    apply foldlM_index_succeeds
    · rw [flatten_chunks (by decide)]
      intro be hbe tx htx txi htxi hprevout
      rw [lookupTxo_rollbackOp]
      exact hresolves be hbe tx htx txi htxi hprevout
    · intro hop
      cases hop
  rcases hfold with ⟨x1, hx1⟩
  unfold rollback
  split
  · exact ⟨x, rfl⟩
  · exact ⟨_, bind_eq_ok.mpr ⟨_, hfetch, bind_eq_ok.mpr ⟨x1, hx1, bind_eq_ok.mpr ⟨_, hfetch, rfl⟩⟩⟩⟩

variable {fetchFrom : FetchFrom} {e : Abort}

theorem Fetchable.startFetcher_eq_error {bes : List BlockEntry} (h : Fetchable T bes)
    (herror : startFetcher fetchFrom daemon (bes.map BlockEntry.entry) =
      .error e) : fetchFrom = .blkFiles ∧ exists count, e = .missingFromBlkFiles count := by
  cases fetchFrom with
  | bitcoind =>
    have hok : startFetcher .bitcoind daemon (bes.map BlockEntry.entry) =
        .ok (chunks 100 bes) := h.bitcoind_eq
    rw [hok] at herror
    cases herror
  | blkFiles =>
    rcases bind_eq_error.mp herror with hensure | ⟨_, _, hpure⟩
    · exact ⟨rfl, _, (ensure_eq_error.mp hensure).right.symm⟩
    · cases hpure

theorem added_of_perm {addBatches indexBatches : List (List BlockEntry)}
    {added indexed : Finset BlockHash}
    (hadd : addBatches.flatten.Perm (unmarkedEntries q n added))
    (hindex : indexBatches.flatten.Perm (unmarkedEntries q n indexed))
    {be : BlockEntry} (hbe : be ∈ indexBatches.flatten) :
    be.entry.hash ∈ added ∪ blockhashes addBatches.flatten := by
  by_cases hold : be.entry.hash ∈ added
  · exact Finset.mem_union_left _ hold
  · apply Finset.mem_union_right
    refine mem_blockhashes.mpr ⟨be, hadd.mem_iff.mpr ?_, rfl⟩
    apply List.mem_filter.mpr
    exact ⟨List.mem_of_mem_filter (hindex.mem_iff.mp hbe), decide_eq_true hold⟩

theorem rollForward_error_cases (hchain : IsChain T (q ++ n))
    (herror : rollForward cfg fetchFrom daemon (entriesFrom q.length n) x = .error e) :
    (fetchFrom = .blkFiles ∧ exists count, e = .missingFromBlkFiles count) ∨
    exists (addBatches indexBatches : List (List BlockEntry)) (mark : List DbOp),
      addBatches.flatten.Perm (unmarkedEntries q n x.store.addedBlockhashes) ∧
      indexBatches.flatten.Perm (unmarkedEntries q n x.store.indexedBlockhashes) ∧
      MarkOps (.txstore (.put .compacted .empty)) mark ∧
      indexBatches.foldlM (index cfg .addBlocks) (((x.emit (addBatches.map fun blocks =>
          .txstore (.write (addBlocks cfg blocks)))).setAdded
            (x.store.addedBlockhashes ∪ blockhashes addBatches.flatten)).emit
          mark) = .error e := by
  have haddFetch := fetchable_unmarkedEntries hchain x.store.addedBlockhashes
  have hindexFetch :=
    fetchable_unmarkedEntries hchain x.store.indexedBlockhashes
  simp only [rollForward, headersToAdd, headersToIndex, ← map_entry_unmarkedEntries] at herror
  rcases bind_eq_error.mp herror with hadd | ⟨addBatches, hadd, herror⟩
  · exact Or.inl (haddFetch.startFetcher_eq_error hadd)
  rcases compactTxstore_eq (addBatches.foldl (add cfg .addBlocks) x) with ⟨mark, hmark, hcompact⟩
  rw [hcompact, foldl_add_addBlocks] at herror
  rcases bind_eq_error.mp herror with hindex | ⟨indexBatches, hindex, herror⟩
  · exact Or.inl (hindexFetch.startFetcher_eq_error hindex)
  rcases bind_eq_error.mp herror with hfold | ⟨_, _, hpure⟩
  · exact Or.inr ⟨addBatches, indexBatches, mark,
      haddFetch.startFetcher_perm hadd, hindexFetch.startFetcher_perm hindex,
      hmark, hfold⟩
  · cases hpure

theorem rollForward_eq_error (hchain : IsChain T (q ++ n))
    (hresolves : forall (batches : List (List BlockEntry)) (mark : List DbOp),
      batches.flatten.Perm (unmarkedEntries q n x.store.addedBlockhashes) ->
      MarkOps (.txstore (.put .compacted .empty)) mark ->
      Resolves (x.emit ((batches.map fun blocks =>
        .txstore (.write (addBlocks cfg blocks))) ++ mark)).store.disk.txstore
        (blockEntriesFrom q.length n))
    (herror : rollForward cfg fetchFrom daemon (entriesFrom q.length n) x =
      .error e) : fetchFrom = .blkFiles ∧ exists count, e = .missingFromBlkFiles count := by
  rcases rollForward_error_cases hchain herror with
    hfiles | ⟨addBatches, indexBatches, mark, hadd, hindex, hmark, hfold⟩
  · exact hfiles
  have hstored := hresolves addBatches mark hadd hmark
  rw [← Exec.emit_emit] at hstored
  have hok : exists x', indexBatches.foldlM (index cfg .addBlocks)
      (((x.emit (addBatches.map fun blocks =>
        .txstore (.write (addBlocks cfg blocks)))).setAdded
          (x.store.addedBlockhashes ∪ blockhashes addBatches.flatten)).emit
        mark) = .ok x' := by
    apply foldlM_index_succeeds
    · intro be hbe
      exact hstored be (List.mem_of_mem_filter (hindex.mem_iff.mp hbe))
    · exact fun _ be hbe => added_of_perm hadd hindex hbe
  rcases hok with ⟨x', hx'⟩
  rw [hfold] at hx'
  cases hx'

theorem update_eq_error (h : Inv T cfg store c s) (hc : SpendsEarlier cfg c)
    (hd : SpendsEarlier cfg daemon.best.blocks)
    (herror : update cfg fetchFrom daemon store = .error e) :
    (e = .tipMismatch ∧ daemon.best.blocks <+: c ∧ daemon.best.blocks ≠ c) ∨
      (fetchFrom = .blkFiles ∧ exists count, e = .missingFromBlkFiles count) := by
  rcases update_eq h.headers h.valid.toIsChain with
    ⟨hmismatch, hshorter⟩ | ⟨q, a, n, headers, hfork, _, _, heq⟩
  · rw [hmismatch] at herror
    exact Or.inl ⟨(Except.error.inj herror).symm, hshorter⟩
  right
  have hqa : IsChain T (q ++ a) := hfork.left_eq ▸ h.valid.toIsChain
  have hqn : IsChain T (q ++ n) := hfork.right_eq ▸ daemon.best.valid.toIsChain
  have hresolves : Resolves store.disk.txstore (removedEntries q a) := by
    apply resolves_of_materializes h.txstore hc
    intro be hbe
    exact (entrySet_left hfork).mpr (Or.inr (mem_removedEntries.mp hbe))
  rw [heq] at herror
  rcases bind_eq_error.mp herror with hrollback | ⟨x1, hrollback, hforward⟩
  · rcases rollback_succeeds (x := {
      store := { store with indexedHeaders := headers }
      log := []
      scripts := [] }) hqa hresolves _ with ⟨x1, hx1⟩
    rw [hx1] at hrollback
    cases hrollback
  rcases rollback_phase h.truthful hqa rfl hrollback with ⟨rss, _, hx1⟩
  refine rollForward_eq_error hqn ?_ hforward
  intro batches mark hperm hmark
  have hbes : forall be, be ∈ batches.flatten <-> be ∈ blockEntriesFrom q.length n := by
    intro be
    rw [hperm.mem_iff, hx1]
    exact h.mem_unmarkedEntries hfork daemon.best.valid.toIsChain
  have hrolled := h.txstore_rolled hfork daemon.best.valid (fun be hbe => (hbes be).mp hbe)
  apply resolves_of_materializes _ hd
  · intro be hbe
    exact (entrySet_right hfork).mpr (Or.inr hbe)
  apply (hrolled.congr ?_).of_agree
  rotate_left
  · intro be
    rw [entrySet_right hfork]
    exact or_congr_right (hbes be)
  intro k hk
  have htable : (x1.emit ((batches.map fun blocks =>
      .txstore (.write (addBlocks cfg blocks))) ++ mark)).store.disk.txstore =
      replay (writeRows (replay (replay store.disk.txstore (Trace.tipOps q a))
          (((addBlocks cfg (removedEntries q a)).map Prod.fst).map TableOp.delete))
        (addBlocks cfg batches.flatten)) (mark.filterMap DbOp.txstore?) := by
    rw [hx1]
    refine (Trace.txstore_writes _ batches mark).trans ?_
    rw [← Trace.txstore_rollbackOps store.disk q a rss.flatten (scriptHashes rss.flatten)]
    rfl
  rw [htable]
  apply getElem?_replay_of_untouched
  intro op hop
  cases hmark.eq_of_mem (DbOp.mem_filterMap_txstore?.mp hop)
  simpa [TableOp.keys] using hk.right.left

theorem exists_update (h : Inv T cfg store c s) (hc : SpendsEarlier cfg c)
    (hd : SpendsEarlier cfg daemon.best.blocks)
    (hshorter : daemon.best.blocks <+: c -> daemon.best.blocks = c) :
    exists store', step cfg store (.update .bitcoind daemon) = .ok store' := by
  cases hupdate : update cfg .bitcoind daemon store with
  | ok x => exact ⟨x.store, bind_eq_ok.mpr ⟨x, hupdate, rfl⟩⟩
  | error e =>
    rcases update_eq_error h hc hd hupdate with ⟨_, hpre, hne⟩ | ⟨hfiles, _⟩
    · exact absurd (hshorter hpre) hne
    · cases hfiles

end Update

/-!
## Runs
-/

section Runs

variable {T : BlockTree} {cfg : IndexerConfig}

theorem openStore_empty_succeeds (cfg : IndexerConfig) :
    exists store, Store.openStore cfg Disk.empty = .ok store :=
  ⟨_, rfl⟩

theorem spendsEarlier_lastBest {events : List (Event T)}
    (hvalid : forall fetchFrom daemon, .update fetchFrom daemon ∈ events ->
      SpendsEarlier cfg daemon.best.blocks) :
    SpendsEarlier cfg (lastBest events) := by
  induction events using List.reverseRecOn with
  | nil =>
    intro i tx htx
    simp [chainTxs] at htx
  | append_singleton events event ih =>
    cases event with
    | update fetchFrom daemon =>
      rw [lastBest_update]
      exact hvalid fetchFrom daemon (by simp)
    | restart =>
      rw [lastBest_restart]
      apply ih
      intro fetchFrom daemon hmem
      exact hvalid fetchFrom daemon (List.mem_append_left _ hmem)

theorem run_eq_error {events : List (Event T)} {e : Abort}
    (hvalid : forall fetchFrom daemon, .update fetchFrom daemon ∈ events ->
      SpendsEarlier cfg daemon.best.blocks)
    (herror : run cfg events = .error e) :
    e = .tipMismatch ∨ exists count, e = .missingFromBlkFiles count := by
  induction events using List.reverseRecOn with
  | nil =>
    rcases openStore_empty_succeeds cfg with ⟨store, hopen⟩
    unfold run at herror
    rw [hopen] at herror
    cases herror
  | append_singleton events event ih =>
    have hvalid' : forall fetchFrom daemon, .update fetchFrom daemon ∈ events ->
          SpendsEarlier cfg daemon.best.blocks := by
      intro fetchFrom daemon hmem
      exact hvalid fetchFrom daemon (List.mem_append_left _ hmem)
    rcases run_append_singleton_eq_error.mp herror with herror | ⟨store, hrun, hstep⟩
    · exact ih hvalid' herror
    · rcases exists_inv hrun with ⟨s, hinv⟩
      cases event with
      | update fetchFrom daemon =>
        rcases bind_eq_error.mp hstep with hupdate | ⟨_, _, hpure⟩
        · exact (update_eq_error hinv (spendsEarlier_lastBest hvalid')
            (hvalid fetchFrom daemon (by simp)) hupdate).imp And.left And.right
        · cases hpure
      | restart =>
        rcases hinv.restart with ⟨store', hopen, _⟩
        have hopen' : Store.openStore cfg store.disk = .error e := hstep
        rw [hopen] at hopen'
        cases hopen'

/-- On valid chains `index` never misses a previous output or a block. -/
theorem prevouts_found {events : List (Event T)}
    (hvalid : forall fetchFrom daemon, .update fetchFrom daemon ∈ events ->
      SpendsEarlier cfg daemon.best.blocks) :
    (forall outpoint, run cfg events ≠ .error (.missingTxo outpoint)) ∧
    (forall outpoint, run cfg events ≠ .error (.missingPreviousTxo outpoint)) ∧
    (forall hash, run cfg events ≠ .error (.missingFromStore hash)) := by
  refine ⟨?_, ?_, ?_⟩
  · intro outpoint herror
    rcases run_eq_error hvalid herror with h | ⟨count, h⟩ <;> cases h
  · intro outpoint herror
    rcases run_eq_error hvalid herror with h | ⟨count, h⟩ <;> cases h
  · intro hash herror
    rcases run_eq_error hvalid herror with h | ⟨count, h⟩ <;> cases h

end Runs

namespace Sample

theorem spendsEarlier_daemonA : SpendsEarlier config daemonA.best.blocks := by
  intro i tx htx txi htxi hprevout
  rcases i with _ | _ | _ | i
  · cases htx
    rw [List.mem_singleton.mp htxi] at hprevout
    cases hprevout
  · cases htx
    rw [List.mem_singleton.mp htxi] at hprevout
    cases hprevout
  · cases htx
    rw [List.mem_singleton.mp htxi]
    exact ⟨0, coinbase 101 [1], _, by decide, rfl, rfl, rfl, by decide⟩
  · cases htx

theorem spendsEarlier_coinbases {cfg : IndexerConfig} {blocks : List Block}
    (h : forall tx, tx ∈ chainTxs blocks -> forall txi, txi ∈ tx.input ->
      hasPrevout txi = false) : SpendsEarlier cfg blocks := by
  intro i tx htx txi htxi hprevout
  rw [h tx (List.mem_of_getElem? htx) txi htxi] at hprevout
  cases hprevout

theorem prevouts_found_reorg :
    SpendsEarlier config daemonA.best.blocks ∧ forall outpoint,
        run config [.update .bitcoind daemonA, .update .bitcoind daemonB] ≠
          .error (.missingTxo outpoint) := by
  have hvalid : forall fetchFrom daemon, Event.update fetchFrom daemon ∈
      [.update .bitcoind daemonA, .update .bitcoind daemonB] ->
        SpendsEarlier config daemon.best.blocks := by
    intro fetchFrom daemon hmem
    simp only [List.mem_cons, List.not_mem_nil, or_false, Event.update.injEq] at hmem
    rcases hmem with ⟨_, rfl⟩ | ⟨_, rfl⟩
    · exact spendsEarlier_daemonA
    · exact spendsEarlier_coinbases (by decide)
  exact ⟨spendsEarlier_daemonA, (prevouts_found hvalid).left⟩

end Sample

end NewIndex
end Splora
