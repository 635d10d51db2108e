import Splora.NewIndex.Prevouts
import Splora.Util.HeaderChain

/-!
# Following the daemon's tip

`Store::open` gets the header list back whatever stale headers there are.  An update moves it to
the best chain of the daemon, except to a strict ancestor: then nothing is rolled back, and the
assertion on the tip ends the process.
-/

namespace Splora
namespace NewIndex

open Foundation

/-!
## Reloading the header list
-/

structure HoldsHeaders (txstore : TxstoreTable) (hl : HeaderList) : Prop where
  headers : forall e, e ∈ hl.headers -> txstore[TxstoreKey.header e.hash]? = some (.header e.header)
  tip : txstore[TxstoreKey.tip]? = some (.blockhash hl.tip)

theorem loadHeaders_eq {txstore : TxstoreTable} {hl : HeaderList}
    (hcoherent : hl.Coherent) (hrows : HoldsHeaders txstore hl) :
    exists hl', Store.loadHeaders txstore = .ok hl' ∧ hl'.SameList hl := by
  have hmap : forall h, h ∈ hl.headers.map HeaderEntry.header ->
      (loadBlockheaders txstore)[h.hash]? = some h := by
    intro h hh
    rcases List.mem_map.mp hh with ⟨e, he, heq⟩
    rcases List.getElem?_of_mem he with ⟨i, hi⟩
    rw [← heq, ← (hcoherent.entry i e hi).right]
    exact getElem?_loadBlockheaders (hrows.headers e he)
  rcases HeaderList.exists_new hcoherent.isHeaderChain hmap with ⟨hl', hnew, hcoherent', hheaders⟩
  have htip : hl.tip = ((hl.headers.map HeaderEntry.header).getLast?.map
      BlockHeader.hash).getD nullHash := by
    rw [hcoherent.tip_eq, List.getLast?_map, Option.map_map]
    cases hlast : hl.headers.getLast? with
    | none => rfl
    | some e =>
      rcases List.getElem?_of_mem (List.mem_of_getLast? hlast) with ⟨i, hi⟩
      exact (hcoherent.entry i e hi).right
  refine ⟨hl', ?_, hcoherent'.sameList hcoherent hheaders⟩
  unfold Store.loadHeaders
  rw [hrows.tip, htip]
  exact hnew

theorem openStore_sameList {cfg : IndexerConfig} {disk : Disk} {hl : HeaderList}
    (hverified : disk.Verified cfg) (hcoherent : hl.Coherent)
    (hrows : HoldsHeaders disk.txstore hl) :
    exists store, Store.openStore cfg disk = .ok store ∧
      store.indexedHeaders.SameList hl := by
  rcases loadHeaders_eq hcoherent hrows with ⟨hl', hload, hsame⟩
  exact ⟨_, bind_eq_ok.mpr ⟨disk, hverified.verify_eq, bind_eq_ok.mpr ⟨hl', hload, rfl⟩⟩, hsame⟩

/-- A map with the chain of a tip gives the list of the chain, and so does a disk with its header
rows and tip, in particular after any run. -/
theorem headers_reload :
    (forall (headersMap : Std.ExtTreeMap BlockHash BlockHeader)
      (headers : List BlockHeader), HeaderList.IsHeaderChain headers ->
      (forall h, h ∈ headers -> headersMap[h.hash]? = some h) ->
      exists hl, HeaderList.new headersMap
          ((headers.getLast?.map BlockHeader.hash).getD nullHash) = .ok hl ∧
        hl.Coherent ∧ hl.headers.map HeaderEntry.header = headers) ∧
    (forall (cfg : IndexerConfig) (disk : Disk) (hl : HeaderList),
      disk.Verified cfg -> hl.Coherent -> HoldsHeaders disk.txstore hl ->
      exists store, Store.openStore cfg disk = .ok store ∧ store.indexedHeaders.SameList hl) ∧
    (forall (T : BlockTree) (cfg : IndexerConfig) (events : List (Event T))
      (store : Store), run cfg events = .ok store ->
      HoldsHeaders store.disk.txstore store.indexedHeaders ->
      exists store', Store.openStore cfg store.disk = .ok store' ∧
        store'.indexedHeaders.SameList store.indexedHeaders) := by
  refine ⟨?_, ?_, ?_⟩
  · intro headersMap headers hchain hmap
    exact HeaderList.exists_new hchain hmap
  · intro cfg disk hl hverified hcoherent hrows
    exact openStore_sameList hverified hcoherent hrows
  · intro T cfg events store hrun hrows
    rcases exists_inv hrun with ⟨s, hinv⟩
    exact openStore_sameList hinv.verified (hinv.headers.coherent hinv.valid.toIsChain) hrows

/-!
## Failures of an update
-/

def isAssertion : Abort -> Bool
  | .badHeaders => true
  | .notPartOfBlockchain _ => true
  | .tipMismatch => true
  | .missingFromStore _ => true
  | _ => false

section Update

variable {T : BlockTree} {cfg : IndexerConfig} {daemon : Daemon T}
  {store : Store} {c q a n : List Block} {x x' : Exec}

variable {e : Abort}

theorem indexInput_eq_error {tx : Transaction} {confirmedHeight : UInt32}
    {txPosition : UInt16} {previousTxos : TxoMap} {txi : TxIn} {txiIndex : Nat}
    (herror : indexInput cfg tx confirmedHeight txPosition previousTxos txi
      txiIndex = .error e) : isAssertion e = false := by
  unfold indexInput at herror
  split at herror
  · cases herror
  · rcases bind_eq_error.mp herror with hexpect | ⟨_, _, hpure⟩
    · rw [← (expect_eq_error.mp hexpect).right]
      rfl
    · cases hpure

variable {blocks : List BlockEntry}

theorem indexBlocks_eq_error {previousTxos : TxoMap}
    (herror : indexBlocks cfg previousTxos blocks = .error e) :
    isAssertion e = false := by
  rcases bind_eq_error.mp herror with hblocks | ⟨_, _, hpure⟩
  · rcases mapM_eq_error hblocks with ⟨b, _, hblock⟩
    rcases bind_eq_error.mp hblock with htxs | ⟨_, _, hpure⟩
    · rcases mapM_eq_error htxs with ⟨p, _, htx⟩
      rcases bind_eq_error.mp htx with hinputs | ⟨_, _, hpure⟩
      · rcases mapM_eq_error hinputs with ⟨p', _, hinput⟩
        exact indexInput_eq_error hinput
      · cases hpure
    · cases hpure
  · cases hpure

variable {op : Operation}

theorem index_eq_error (hadded : op = .addBlocks -> forall be, be ∈ blocks ->
      be.entry.hash ∈ x.store.addedBlockhashes)
    (herror : index cfg op x blocks = .error e) : isAssertion e = false := by
  unfold index at herror
  rcases bind_eq_error.mp herror with htxos | ⟨txos, _, herror⟩
  · rcases bind_eq_error.mp htxos with hfor | ⟨_, _, hpure⟩
    · rcases forM_eq_error hfor with ⟨outpoint, _, hensure⟩
      rw [← (ensure_eq_error.mp hensure).right]
      rfl
    · cases hpure
  rcases bind_eq_error.mp herror with hfor | ⟨_, _, herror⟩
  · rcases forM_eq_error hfor with ⟨be, hbe, hensure⟩
    exact absurd (fun hop => hadded hop be hbe) (ensure_eq_error.mp hensure).left
  rcases bind_eq_error.mp herror with hrows | ⟨_, _, hpure⟩
  · exact indexBlocks_eq_error hrows
  · cases hpure

theorem index_eq_ok (h : index cfg op x blocks = .ok x') :
    exists rows, x' = indexEffect op x rows := by
  unfold index at h
  rcases bind_eq_ok.mp h with ⟨_, _, h⟩
  rcases bind_eq_ok.mp h with ⟨_, _, h⟩
  rcases bind_eq_ok.mp h with ⟨rows, _, hpure⟩
  exact ⟨rows, (pure_eq_ok.mp hpure).symm⟩

variable {batches : List (List BlockEntry)}

theorem foldlM_index_eq_error (hadded : op = .addBlocks -> forall be, be ∈ batches.flatten ->
      be.entry.hash ∈ x.store.addedBlockhashes)
    (herror : batches.foldlM (index cfg op) x = .error e) :
    isAssertion e = false := by
  have hfirst : exists x1 blocks rest,
      (op = .addBlocks -> forall be, be ∈ (blocks :: rest).flatten ->
        be.entry.hash ∈ x1.store.addedBlockhashes) ∧
      index cfg op x1 blocks = .error e := by
    apply foldlM_error_induct (P := fun x batches => op = .addBlocks ->
      forall be, be ∈ batches.flatten -> be.entry.hash ∈ x.store.addedBlockhashes) herror hadded
    intro x blocks rest x1 hadded hindex hop be hbe
    rcases index_eq_ok hindex with ⟨rows, heq⟩
    rw [heq, indexEffect_addedBlockhashes]
    exact hadded hop be (List.mem_append_right _ hbe)
  rcases hfirst with ⟨x1, blocks, rest, hadded1, hindex⟩
  apply index_eq_error _ hindex
  intro hop be hbe
  exact hadded1 hop be (List.mem_append_left _ hbe)

theorem rollback_eq_error {tip : Option BlockHash} (hchain : IsChain T (q ++ a))
    (herror : rollback cfg daemon ((removedEntries q a).map BlockEntry.entry)
      tip x = .error e) : isAssertion e = false := by
  have hfetch : bitcoindSequentialFetcher daemon ((removedEntries q a).map BlockEntry.entry) =
        .ok (chunks 100 (removedEntries q a)) :=
    (fetchable_removedEntries hchain).bitcoindSequentialFetcher_eq
  unfold rollback at herror
  split at herror
  · cases herror
  unfold reorg at herror
  rw [hfetch, ok_bind] at herror
  rcases bind_eq_error.mp herror with hindex | ⟨_, _, hrest⟩
  · apply foldlM_index_eq_error _ hindex
    intro hop
    cases hop
  · cases hrest

variable {fetchFrom : FetchFrom}

theorem rollForward_not_assertion (hchain : IsChain T (q ++ n))
    (herror : rollForward cfg fetchFrom daemon (entriesFrom q.length n) x =
      .error e) : isAssertion e = false := by
  rcases rollForward_error_cases hchain herror with
    ⟨_, count, heq⟩ | ⟨addBatches, indexBatches, mark, hadd, hindex, _, hfold⟩
  · rw [heq]
    rfl
  · apply foldlM_index_eq_error _ hfold
    intro _ be hbe
    exact added_of_perm hadd hindex hbe

/-!
## The header list after an update
-/

theorem foldlM_index_indexedHeaders (h : batches.foldlM (index cfg op) x = .ok x') :
    x'.store.indexedHeaders = x.store.indexedHeaders := by
  apply foldlM_ok_induct (P := fun x1 _ =>
    x1.store.indexedHeaders = x.store.indexedHeaders) h rfl
  intro x1 blocks rest x2 heq hindex
  rcases index_eq_ok hindex with ⟨rows, hx2⟩
  rw [hx2, ← heq]
  cases op <;> rfl

theorem foldl_add_indexedHeaders (op : Operation) (batches : List (List BlockEntry)) (x : Exec) :
    (batches.foldl (add cfg op) x).store.indexedHeaders =
      x.store.indexedHeaders := by
  induction batches generalizing x with
  | nil => rfl
  | cons blocks rest ih =>
    rw [List.foldl_cons, ih]
    cases op <;> rfl

theorem rollback_indexedHeaders {reorged : List HeaderEntry} {tip : Option BlockHash}
    (h : rollback cfg daemon reorged tip x = .ok x') :
    x'.store.indexedHeaders = x.store.indexedHeaders := by
  unfold rollback at h
  split at h
  · cases h
    rfl
  · unfold reorg at h
    rcases bind_eq_ok.mp h with ⟨batches, _, h⟩
    rcases bind_eq_ok.mp h with ⟨x1, hindex, h⟩
    rcases bind_eq_ok.mp h with ⟨batches', _, hpure⟩
    rw [← pure_eq_ok.mp hpure]
    change (batches'.foldl (add cfg .deleteBlocks) x1).store.indexedHeaders = _
    rw [foldl_add_indexedHeaders, foldlM_index_indexedHeaders hindex]
    rfl

theorem rollForward_indexedHeaders {newHeaders : List HeaderEntry}
    (h : rollForward cfg fetchFrom daemon newHeaders x = .ok x') :
    x'.store.indexedHeaders = x.store.indexedHeaders := by
  unfold rollForward at h
  rcases bind_eq_ok.mp h with ⟨addBatches, _, h⟩
  rcases compactTxstore_eq (addBatches.foldl (add cfg .addBlocks) x) with ⟨mark, _, hcompact⟩
  rw [hcompact] at h
  rcases bind_eq_ok.mp h with ⟨indexBatches, _, h⟩
  rcases bind_eq_ok.mp h with ⟨x1, hindex, hpure⟩
  rcases compactHistory_eq x1 with ⟨historyMark, _, hhistory⟩
  rcases compactCache_eq (x1.emit historyMark) with ⟨cacheMark, _, hcache⟩
  rw [← pure_eq_ok.mp hpure, hhistory, hcache]
  have hx1 := foldlM_index_indexedHeaders hindex
  exact hx1.trans (foldl_add_indexedHeaders .addBlocks addBatches x)

/-- No assertion fails, and after a success the header list is the best chain of the daemon. -/
structure Follows (cfg : IndexerConfig) (fetchFrom : FetchFrom)
    (daemon : Daemon T) (store : Store) : Prop where
  no_assertion : forall e, update cfg fetchFrom daemon store = .error e -> isAssertion e = false
  headers : forall x, update cfg fetchFrom daemon store = .ok x ->
    x.store.indexedHeaders.headers = entriesFrom 0 daemon.best.blocks ∧
      x.store.indexedHeaders.tip = daemon.getbestblockhash

theorem update_to_ancestor (hrep : store.indexedHeaders.Represents c) (hc : IsChain T c)
    (hancestor : daemon.best.blocks <+: c ∧ daemon.best.blocks ≠ c) :
    update cfg fetchFrom daemon store = .error .tipMismatch := by
  rcases update_eq hrep hc with ⟨hmismatch, _⟩ | ⟨q, a, n, headers, hfork, hadvances, _, _⟩
  · exact hmismatch
  · -- the best chain has no block of its own, so the fork has no old part
    have hn : n = [] := by
      apply List.eq_nil_iff_forall_not_mem.mpr
      intro b hb
      have hbest : b ∈ daemon.best.blocks := hfork.mem_right.mpr (Or.inr hb)
      exact hfork.added b hb (hancestor.left.subset hbest)
    apply absurd _ hancestor.right
    rw [hfork.left_eq, hfork.right_eq, hn, hadvances hn]

/-- An update follows the daemon to any best chain but a strict ancestor of the indexed tip. -/
theorem follows_iff {fetchFrom : FetchFrom}
    (hrep : store.indexedHeaders.Represents c) (hc : IsChain T c) :
    Follows cfg fetchFrom daemon store <->
      ¬ (daemon.best.blocks <+: c ∧ daemon.best.blocks ≠ c) := by
  constructor
  · intro hfollows hancestor
    cases hfollows.no_assertion _ (update_to_ancestor hrep hc hancestor)
  · intro hnot
    rcases update_eq hrep hc with ⟨_, hancestor⟩ | ⟨q, a, n, headers, hfork, _, hheaders, heq⟩
    · exact absurd hancestor hnot
    · refine ⟨?_, ?_⟩
      · intro e herror
        rw [heq] at herror
        rcases bind_eq_error.mp herror with hrollback | ⟨x1, _, hforward⟩
        · exact rollback_eq_error (hfork.left_eq ▸ hc) hrollback
        · apply rollForward_not_assertion _ hforward
          rw [← hfork.right_eq]
          exact daemon.best.valid.toIsChain
      · intro x hupdate
        rw [heq] at hupdate
        rcases bind_eq_ok.mp hupdate with ⟨x1, hrollback, hforward⟩
        rw [rollForward_indexedHeaders hforward, rollback_indexedHeaders hrollback]
        exact ⟨hheaders.headers_eq, hheaders.tip_eq⟩

end Update

namespace Sample

def staleMap : Std.ExtTreeMap BlockHash BlockHeader :=
  (((∅ : Std.ExtTreeMap BlockHash BlockHeader).insert 4 (header 4 1)).insert 2
    (header 2 1)).insert 1 (header 1 nullHash)

theorem headers_reload_reorg :
    (exists hl, HeaderList.new staleMap 2 = .ok hl ∧ hl.Coherent ∧
      hl.headers.map HeaderEntry.header = [header 1 nullHash, header 2 1]) ∧
    exists store store', run config reorg = .ok store ∧
      HoldsHeaders store.disk.txstore store.indexedHeaders ∧
      Store.openStore config store.disk = .ok store' ∧
      store'.indexedHeaders.SameList store.indexedHeaders := by
  constructor
  · apply headers_reload.left staleMap [header 1 nullHash, header 2 1]
    · exact ⟨by decide +kernel, by decide +kernel, by decide +kernel⟩
    · decide +kernel
  · have heval : exists store, run config reorg = .ok store ∧
        (forall e, e ∈ store.indexedHeaders.headers ->
          store.disk.txstore[TxstoreKey.header e.hash]? = some (.header e.header)) ∧
        store.disk.txstore[TxstoreKey.tip]? = some (.blockhash store.indexedHeaders.tip) := by
      decide +kernel
    rcases heval with ⟨store, hrun, htest⟩
    have hrows : HoldsHeaders store.disk.txstore store.indexedHeaders :=
      ⟨htest.left, htest.right⟩
    rcases headers_reload.right.right tree config reorg store hrun hrows with ⟨store', hopen, hsame⟩
    exact ⟨store, store', hrun, hrows, hopen, hsame⟩

theorem update_to_ancestor_aborts :
    exists store, run config [.update .bitcoind daemonA'] = .ok store ∧
      store.indexedHeaders.headers.map HeaderEntry.hash = [1, 2, 3] ∧
      daemonA.best.blocks.map Block.hash = [1, 2] ∧
      update config .bitcoind daemonA store = .error .tipMismatch ∧
      ¬ Follows config .bitcoind daemonA store := by
  have heval : exists store, run config [.update .bitcoind daemonA'] = .ok store ∧
      store.indexedHeaders.headers.map HeaderEntry.hash = [1, 2, 3] := by
    decide +kernel
  rcases heval with ⟨store, hrun, hheaders⟩
  rcases exists_inv hrun with ⟨s, hinv⟩
  have hmismatch : update config .bitcoind daemonA store = .error .tipMismatch :=
    update_to_ancestor hinv.headers hinv.valid.toIsChain (by decide)
  refine ⟨store, hrun, hheaders, rfl, hmismatch, ?_⟩
  intro hfollows
  cases hfollows.no_assertion _ hmismatch

theorem update_follows_shorter_branch :
    exists store x, run config [.update .bitcoind daemonA'] = .ok store ∧
      update config .bitcoind daemonB store = .ok x ∧
      Follows config .bitcoind daemonB store ∧
      x.store.indexedHeaders.headers.map HeaderEntry.hash = [1, 4] := by
  have heval : exists store, run config [.update .bitcoind daemonA'] = .ok store ∧
      exists x, update config .bitcoind daemonB store = .ok x ∧
        x.store.indexedHeaders.headers.map HeaderEntry.hash = [1, 4] := by
    decide +kernel
  rcases heval with ⟨store, hrun, x, hupdate, hheaders⟩
  rcases exists_inv hrun with ⟨s, hinv⟩
  have hfollows : Follows config .bitcoind daemonB store := by
    apply (follows_iff hinv.headers hinv.valid.toIsChain).mpr
    decide
  exact ⟨store, x, hrun, hupdate, hfollows, hheaders⟩

end Sample

end NewIndex
end Splora
