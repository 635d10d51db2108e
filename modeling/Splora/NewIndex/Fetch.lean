import Splora.Daemon
import Splora.NewIndex.RowSpec

/-!
# Fetching blocks

The fetchers of `src/new_index/fetch.rs` hand out blocks in chunks from bitcoind, or file by
file.  Together the batches are a permutation of the entries asked for.
-/

namespace Splora
namespace NewIndex

open Foundation

inductive FetchFrom where
  | bitcoind
  | blkFiles
deriving DecidableEq, Repr

variable {T : BlockTree}

def fetchChunk (daemon : Daemon T) (entries : List HeaderEntry) :
    Except Abort (List BlockEntry) := do
  let blocks <- daemon.getblocks (entries.map HeaderEntry.hash)
  return (blocks.zip entries).map fun (block, entry) =>
    { block := block, entry := entry, size := block.size }

def bitcoindSequentialFetcher (daemon : Daemon T)
    (newHeaders : List HeaderEntry) : Except Abort (List (List BlockEntry)) :=
  (chunks 100 newHeaders).mapM (fetchChunk daemon)

def bitcoindFetcher (daemon : Daemon T) (newHeaders : List HeaderEntry) :
    Except Abort (List (List BlockEntry)) :=
  (chunks 100 newHeaders).mapM (fetchChunk daemon)

abbrev EntryMap := Std.ExtTreeMap BlockHash HeaderEntry

def takeEntries (entryMap : EntryMap) : List Block -> List BlockEntry × EntryMap
  | [] => ([], entryMap)
  | block :: rest =>
    match entryMap[block.hash]? with
    | some entry =>
      let (found, left) := takeEntries (entryMap.erase block.hash) rest
      ({ block := block, entry := entry, size := block.size } :: found,
        left)
    | none => takeEntries entryMap rest

def takeFiles (entryMap : EntryMap) :
    List (List Block) -> List (List BlockEntry) × EntryMap
  | [] => ([], entryMap)
  | file :: files =>
    let (found, left) := takeEntries entryMap file
    let (batches, left) := takeFiles left files
    (found :: batches, left)

def entryMapOf (newHeaders : List HeaderEntry) : EntryMap :=
  newHeaders.foldl (fun m entry => m.insert entry.hash entry) ∅

def blkfilesFetcher (daemon : Daemon T) (newHeaders : List HeaderEntry) :
    Except Abort (List (List BlockEntry)) := do
  let (batches, left) := takeFiles (entryMapOf newHeaders) daemon.blkFiles
  ensure (left.isEmpty = true) (.missingFromBlkFiles left.size)
  return batches

def startFetcher (fetchFrom : FetchFrom) (daemon : Daemon T)
    (newHeaders : List HeaderEntry) : Except Abort (List (List BlockEntry)) :=
  match fetchFrom with
  | .bitcoind => bitcoindFetcher daemon newHeaders
  | .blkFiles => blkfilesFetcher daemon newHeaders

/-!
## What the batches are
-/

structure Fetchable (T : BlockTree) (bes : List BlockEntry) : Prop where
  stored : forall be, be ∈ bes -> T.block be.entry.hash = some be.block
  size_eq : forall be, be ∈ bes -> be.size = be.block.size
  hashes_nodup : (bes.map fun be => be.entry.hash).Nodup

namespace Fetchable

variable {daemon : Daemon T} {bes : List BlockEntry}

theorem sublist {bes' : List BlockEntry} (h : Fetchable T bes)
    (hsub : List.Sublist bes' bes) : Fetchable T bes' where
  stored := fun be hbe => h.stored be (hsub.subset hbe)
  size_eq := fun be hbe => h.size_eq be (hsub.subset hbe)
  hashes_nodup := (hsub.map _).nodup h.hashes_nodup

theorem perm {bes' : List BlockEntry} (h : Fetchable T bes)
    (hperm : bes'.Perm bes) : Fetchable T bes' where
  stored := fun be hbe => h.stored be (hperm.mem_iff.mp hbe)
  size_eq := fun be hbe => h.size_eq be (hperm.mem_iff.mp hbe)
  hashes_nodup := (hperm.map _).nodup_iff.mpr h.hashes_nodup

theorem of_chain {height : Nat} {q n : List Block} (hchain : IsChain T (q ++ n)) :
    Fetchable T (blockEntriesFrom height n) where
  stored := by
    intro be hbe
    rw [hash_of_mem_blockEntriesFrom hbe]
    apply hchain.stored
    exact List.mem_append_right q (block_mem_of_mem_blockEntriesFrom hbe)
  size_eq := by
    intro be hbe
    rcases mem_blockEntriesFrom.mp hbe with ⟨i, b, _, rfl⟩
    rfl
  hashes_nodup := by
    have hmap : (blockEntriesFrom height n).map (fun be => be.entry.hash) = n.map Block.hash := by
      rw [← map_hash_entriesFrom height, ← map_entry_blockEntriesFrom, List.map_map]
      rfl
    have hnodup := hchain.hashes_nodup
    rw [List.map_append, List.nodup_append] at hnodup
    rw [hmap]
    exact hnodup.right.left

theorem fetchChunk_eq (hstored : forall be, be ∈ bes -> T.block be.entry.hash = some be.block)
    (hsize : forall be, be ∈ bes -> be.size = be.block.size) :
    fetchChunk daemon (bes.map BlockEntry.entry) = .ok bes := by
  have hblocks : daemon.getblocks ((bes.map BlockEntry.entry).map HeaderEntry.hash) =
        .ok (bes.map BlockEntry.block) := by
    unfold Daemon.getblocks
    rw [List.map_map, mapM_eq_ok, List.forall₂_map_left_iff,
      List.forall₂_map_right_iff, List.forall₂_same]
    intro be hbe
    exact expect_eq_ok.mpr (hstored be hbe)
  unfold fetchChunk
  refine bind_eq_ok.mpr ⟨_, hblocks, ?_⟩
  rw [pure_eq_ok, List.zip_map', List.map_map]
  refine (List.map_congr_left ?_).trans (List.map_id bes)
  intro be hbe
  change BlockEntry.mk be.block be.entry be.block.size = be
  rw [← hsize be hbe]

theorem bitcoind_eq (h : Fetchable T bes) :
    (chunks 100 (bes.map BlockEntry.entry)).mapM (fetchChunk daemon) = .ok (chunks 100 bes) := by
  rw [chunks_map, mapM_eq_ok, List.forall₂_map_left_iff, List.forall₂_same]
  intro chunk hchunk
  have hmem : forall be, be ∈ chunk -> be ∈ bes := by
    intro be hbe
    rw [← flatten_chunks (by decide : 0 < 100) bes]
    exact List.mem_flatten.mpr ⟨chunk, hchunk, hbe⟩
  apply fetchChunk_eq
  · intro be hbe
    exact h.stored be (hmem be hbe)
  · intro be hbe
    exact h.size_eq be (hmem be hbe)

theorem bitcoindSequentialFetcher_eq (h : Fetchable T bes) :
    bitcoindSequentialFetcher daemon (bes.map BlockEntry.entry) = .ok (chunks 100 bes) :=
  h.bitcoind_eq

/-!
The `blk*.dat` files are read against the map of the entries that are still to
be found; found and remaining entries together are always the entries asked for.
-/

def Holds (m : EntryMap) (bes : List BlockEntry) : Prop :=
  forall hash entry, m[hash]? = some entry <->
    exists be, be ∈ bes ∧ be.entry.hash = hash ∧ be.entry = entry

theorem holds_entryMapOf (hnodup : (bes.map fun be => be.entry.hash).Nodup) :
    Holds (entryMapOf (bes.map BlockEntry.entry)) bes := by
  induction bes using List.reverseRecOn with
  | nil =>
    intro hash entry
    simp [entryMapOf]
  | append_singleton front be ih =>
    rw [List.map_append, List.nodup_append] at hnodup
    have hfront := ih hnodup.left
    intro hash entry
    have hinsert :
        entryMapOf ((front ++ [be]).map BlockEntry.entry) =
          (entryMapOf (front.map BlockEntry.entry)).insert be.entry.hash
            be.entry := by
      simp [entryMapOf, List.foldl_append]
    rw [hinsert, Std.ExtTreeMap.getElem?_insert]
    by_cases hhash : be.entry.hash = hash
    · rw [if_pos (by simp [hhash])]
      constructor
      · intro heq
        exact ⟨be, by simp, hhash, Option.some.inj heq⟩
      · rintro ⟨be', hbe', hhash', rfl⟩
        rcases List.mem_append.mp hbe' with hmem | hmem
        · have hne := hnodup.2.2 _ (List.mem_map_of_mem (f := fun be => be.entry.hash) hmem)
            be.entry.hash (by simp)
          exact absurd (hhash'.trans hhash.symm) hne
        · have heq : be' = be := by simpa using hmem
          rw [heq]
    · rw [if_neg (by simpa using hhash), hfront hash entry]
      constructor
      · rintro ⟨be', hbe', hrest⟩
        exact ⟨be', List.mem_append_left _ hbe', hrest⟩
      · rintro ⟨be', hbe', hhash', hentry⟩
        rcases List.mem_append.mp hbe' with hmem | hmem
        · exact ⟨be', hmem, hhash', hentry⟩
        · have heq : be' = be := by simpa using hmem
          rw [heq] at hhash'
          exact absurd hhash' hhash

theorem eq_of_hash_eq (h : Fetchable T bes) {be be' : BlockEntry}
    (hbe : be ∈ bes) (hbe' : be' ∈ bes)
    (hhash : be.entry.hash = be'.entry.hash) : be = be' :=
  List.inj_on_of_nodup_map h.hashes_nodup hbe hbe' hhash

theorem holds_erase (h : Fetchable T bes) {m : EntryMap} (hm : Holds m bes)
    {be : BlockEntry} (hbe : be ∈ bes) :
    Holds (m.erase be.entry.hash) (bes.erase be) := by
  have hnodup : bes.Nodup := List.Nodup.of_map _ h.hashes_nodup
  intro hash entry
  rw [Std.ExtTreeMap.getElem?_erase]
  by_cases hhash : be.entry.hash = hash
  · rw [if_pos (by simp [hhash])]
    constructor
    · intro hnone
      cases hnone
    · rintro ⟨be', hbe', hhash', _⟩
      rcases hnodup.mem_erase_iff.mp hbe' with ⟨hne, hmem⟩
      exact absurd (h.eq_of_hash_eq hmem hbe (hhash'.trans hhash.symm)) hne
  · rw [if_neg (by simpa using hhash), hm hash entry]
    constructor
    · rintro ⟨be', hmem, hhash', hentry⟩
      have hne : be' ≠ be := by
        intro heq
        rw [heq] at hhash'
        exact hhash hhash'
      exact ⟨be', hnodup.mem_erase_iff.mpr ⟨hne, hmem⟩, hhash', hentry⟩
    · rintro ⟨be', hmem, hrest⟩
      exact ⟨be', List.mem_of_mem_erase hmem, hrest⟩

theorem takeEntries_perm (h : Fetchable T bes) {m : EntryMap} (hm : Holds m bes) {file : List Block}
    (hfile : forall b, b ∈ file -> T.block b.hash = some b) :
    exists left, ((takeEntries m file).1 ++ left).Perm bes ∧ Holds (takeEntries m file).2 left := by
  induction file generalizing m bes with
  | nil => exact ⟨bes, by simp [takeEntries], hm⟩
  | cons b rest ih =>
    have hrest : forall b, b ∈ rest -> T.block b.hash = some b := by
      intro b' hb'
      exact hfile b' (List.mem_cons_of_mem _ hb')
    cases hentry : m[b.hash]? with
    | none =>
      simp only [takeEntries, hentry]
      exact ih h hm hrest
    | some entry =>
      simp only [takeEntries, hentry]
      rcases (hm b.hash entry).mp hentry with ⟨be, hbe, hhash, rfl⟩
      have hblock : be.block = b := by
        have hstored := h.stored be hbe
        rw [hhash, hfile b List.mem_cons_self] at hstored
        exact (Option.some.inj hstored).symm
      have heq : BlockEntry.mk b be.entry b.size = be := by
        rw [← hblock, ← h.size_eq be hbe]
      rcases ih (h.sublist List.erase_sublist) (h.holds_erase hm hbe) hrest
        with ⟨left, hperm, hleft⟩
      rw [hhash] at hperm hleft
      refine ⟨left, ?_, hleft⟩
      rw [heq]
      exact (hperm.cons be).trans (List.perm_cons_erase hbe).symm

theorem takeFiles_perm (h : Fetchable T bes) {m : EntryMap}
    (hm : Holds m bes) {files : List (List Block)}
    (hfiles : forall file, file ∈ files -> forall b, b ∈ file -> T.block b.hash = some b) :
    exists left, ((takeFiles m files).1.flatten ++ left).Perm bes ∧
      Holds (takeFiles m files).2 left := by
  induction files generalizing m bes with
  | nil => exact ⟨bes, by simp [takeFiles], hm⟩
  | cons file rest ih =>
    rcases h.takeEntries_perm hm (hfiles file List.mem_cons_self) with ⟨left, hperm, hleft⟩
    have hsub : Fetchable T left :=
      (h.perm hperm).sublist (List.sublist_append_right _ _)
    rcases ih hsub hleft (fun file' hfile' => hfiles file' (List.mem_cons_of_mem _ hfile'))
      with ⟨left', hperm', hleft'⟩
    refine ⟨left', ?_, hleft'⟩
    simp only [takeFiles, List.flatten_cons, List.append_assoc]
    exact (hperm'.append_left _).trans hperm

theorem startFetcher_perm (h : Fetchable T bes) {fetchFrom : FetchFrom}
    {batches : List (List BlockEntry)}
    (hok : startFetcher fetchFrom daemon (bes.map BlockEntry.entry) = .ok batches) :
    batches.flatten.Perm bes := by
  cases fetchFrom with
  | bitcoind =>
    have heq : batches = chunks 100 bes :=
      (Except.ok.inj (h.bitcoind_eq.symm.trans hok)).symm
    rw [heq, flatten_chunks (by decide)]
  | blkFiles =>
    rcases h.takeFiles_perm (holds_entryMapOf h.hashes_nodup)
      daemon.blkFiles_stored with ⟨left, hperm, hleft⟩
    rcases bind_eq_ok.mp hok with ⟨_, hempty, hpure⟩
    have hnil : left = [] := by
      apply List.eq_nil_iff_forall_not_mem.mpr
      intro be hbe
      have hsome := (hleft be.entry.hash be.entry).mpr ⟨be, hbe, rfl, rfl⟩
      rw [Std.ExtTreeMap.isEmpty_iff.mp (ensure_eq_ok.mp hempty)] at hsome
      simp at hsome
    rw [← pure_eq_ok.mp hpure]
    simpa [hnil] using hperm

end Fetchable

end NewIndex
end Splora
