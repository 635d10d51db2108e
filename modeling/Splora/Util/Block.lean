import Splora.BlockTree
import Splora.Errors
import Splora.Foundation.Result

/-!
# The header list

`HeaderList` of `src/util/block.rs`.  The map of heights is never shrunk; lookups check the hash
of the entry they reach.  A header list represents blocks when its entries are their headers
from height zero on.
-/

namespace Splora

open Foundation

structure HeaderEntry where
  height : Nat
  hash : BlockHash
  header : BlockHeader
deriving DecidableEq, Repr

structure BlockId where
  height : Nat
  hash : BlockHash
  time : UInt32
deriving DecidableEq, Repr

def BlockId.ofEntry (e : HeaderEntry) : BlockId where
  height := e.height
  hash := e.hash
  time := e.header.time

structure HeaderList where
  headers : List HeaderEntry
  heights : Std.ExtTreeMap BlockHash Nat
  tip : BlockHash

namespace HeaderList

def empty : HeaderList where
  headers := []
  heights := ∅
  tip := nullHash

def headerByBlockhash (hl : HeaderList) (blockhash : BlockHash) :
    Option HeaderEntry := do
  let height <- hl.heights[blockhash]?
  let header <- hl.headers[height]?
  if blockhash = header.hash then some header else none

def headerByHeight (hl : HeaderList) (height : Nat) :
    Except Abort (Option HeaderEntry) :=
  match hl.headers[height]? with
  | none => .ok none
  | some entry => do
      ensure (entry.height = height) .badHeaders
      return some entry

def getTip (hl : HeaderList) : Except Abort BlockHash := do
  ensure (hl.tip = (hl.headers.getLast?.map HeaderEntry.hash).getD nullHash) .badHeaders
  return hl.tip

def heightAfter (hl : HeaderList) (prevBlockhash : BlockHash) :
    Except Abort Nat :=
  if prevBlockhash = nullHash then
    pure 0
  else do
    let entry <- expect (hl.headerByBlockhash prevBlockhash) (.notPartOfBlockchain prevBlockhash)
    return entry.height + 1

def order (hl : HeaderList) (newHeaders : List BlockHeader) :
    Except Abort (List HeaderEntry) := do
  ensure (List.IsChain (fun prev next => next.prevBlockhash = prev.hash) newHeaders) .badHeaders
  match newHeaders with
  | [] => return []
  | first :: _ =>
    let newHeight <- hl.heightAfter first.prevBlockhash
    return (newHeaders.zipIdx newHeight).map fun (header, height) =>
      { height := height, hash := header.hash, header := header }

def expectedPrevBlockhash (hl : HeaderList) (height : Nat) :
    Except Abort BlockHash :=
  if height > 0 then do
    let entry <- expect hl.headers[height - 1]? .badHeaders
    return entry.hash
  else
    pure nullHash

def push (hl : HeaderList) (entry : HeaderEntry) : Except Abort HeaderList := do
  ensure (entry.height = hl.headers.length) .badHeaders
  return {
    headers := hl.headers ++ [entry]
    heights := hl.heights.insert entry.hash entry.height
    tip := entry.hash }

/-- Returns also the removed entries, old tip first, and the tip after the rollback. -/
def apply (hl : HeaderList) (newHeaders : List HeaderEntry) :
    Except Abort (HeaderList × List HeaderEntry × Option BlockHash) := do
  ensure (List.IsChain (fun prev next => prev.height + 1 = next.height ∧
        prev.hash = next.header.prevBlockhash)
      newHeaders)
    .badHeaders
  match newHeaders with
  | [] => return (hl, [], none)
  | first :: _ =>
    let newHeight := first.height
    let expected <- hl.expectedPrevBlockhash newHeight
    ensure (first.header.prevBlockhash = expected) .badHeaders
    let kept := hl.headers.take newHeight
    let removed := hl.headers.drop newHeight
    let reorgedTip :=
      if removed.isEmpty then none
      else kept.getLast?.map HeaderEntry.hash
    let hl' <- newHeaders.foldlM push { hl with headers := kept }
    return (hl', removed.reverse, reorgedTip)

/-- The walk of `new` back to the genesis block; each step removes a header from the map. -/
def walkBack (fuel : Nat) (headersMap : Std.ExtTreeMap BlockHash BlockHeader)
    (blockhash : BlockHash) : Except Abort (List BlockHeader) :=
  if blockhash = nullHash then
    .ok []
  else
    match fuel with
    | 0 => .error (.missingHeader blockhash)
    | fuel + 1 => do
        let header <- expect headersMap[blockhash]? (.missingHeader blockhash)
        let rest <-
          walkBack fuel (headersMap.erase blockhash) header.prevBlockhash
        return header :: rest

def new (headersMap : Std.ExtTreeMap BlockHash BlockHeader)
    (tipHash : BlockHash) : Except Abort HeaderList := do
  let headersChain <- walkBack headersMap.size headersMap tipHash
  let entries <- empty.order headersChain.reverse
  let (headers, _) <- empty.apply entries
  return headers

end HeaderList

/-!
## Entries of a chain
-/

def Block.entryAt (b : Block) (height : Nat) : HeaderEntry where
  height := height
  hash := b.hash
  header := b.header

@[simp] theorem Block.entryAt_height (b : Block) (height : Nat) :
    (b.entryAt height).height = height := rfl

@[simp] theorem Block.entryAt_hash (b : Block) (height : Nat) :
    (b.entryAt height).hash = b.hash := rfl

@[simp] theorem Block.entryAt_header (b : Block) (height : Nat) :
    (b.entryAt height).header = b.header := rfl

def entriesFrom : Nat -> List Block -> List HeaderEntry
  | _, [] => []
  | height, b :: rest => b.entryAt height :: entriesFrom (height + 1) rest

@[simp] theorem length_entriesFrom (height : Nat) (c : List Block) :
    (entriesFrom height c).length = c.length := by
  induction c generalizing height with
  | nil => rfl
  | cons b rest ih => simp [entriesFrom, ih]

theorem entriesFrom_append (height : Nat) (c d : List Block) :
    entriesFrom height (c ++ d) = entriesFrom height c ++ entriesFrom (height + c.length) d := by
  induction c generalizing height with
  | nil => rfl
  | cons b rest ih =>
    simp only [List.cons_append, entriesFrom, ih, List.length_cons]
    rw [Nat.add_assoc, Nat.add_comm 1]

theorem getElem?_entriesFrom (height : Nat) (blocks : List Block) (i : Nat) :
    (entriesFrom height blocks)[i]? = blocks[i]?.map fun b => b.entryAt (height + i) := by
  induction blocks generalizing height i with
  | nil => simp [entriesFrom]
  | cons b rest ih =>
    cases i with
    | zero => simp [entriesFrom]
    | succ i =>
      simp only [entriesFrom, List.getElem?_cons_succ, ih]
      rw [Nat.add_assoc, Nat.add_comm 1]

theorem map_hash_entriesFrom (height : Nat) (c : List Block) :
    (entriesFrom height c).map HeaderEntry.hash = c.map Block.hash := by
  induction c generalizing height with
  | nil => rfl
  | cons b rest ih => simp [entriesFrom, ih]

theorem getLast?_hash_entriesFrom (height : Nat) (c : List Block) :
    (entriesFrom height c).getLast?.map HeaderEntry.hash = c.getLast?.map Block.hash := by
  rw [← List.getLast?_map, ← List.getLast?_map, map_hash_entriesFrom]

theorem zipIdx_headers (height : Nat) (c : List Block) :
    ((c.map Block.header).zipIdx height).map (fun (header, height) =>
      ({ height := height, hash := header.hash, header := header } :
        HeaderEntry)) =
      entriesFrom height c := by
  induction c generalizing height with
  | nil => rfl
  | cons b rest ih =>
    simp only [List.map_cons, List.zipIdx_cons, entriesFrom, ih]
    rfl

/-!
## Representation
-/

namespace HeaderList

structure Lists (hl : HeaderList) (blocks : List Block) : Prop where
  headers_eq : hl.headers = entriesFrom 0 blocks
  heights_eq : forall (i : Nat) (b : Block), blocks[i]? = some b -> hl.heights[b.hash]? = some i

structure Represents (hl : HeaderList) (blocks : List Block) : Prop
    extends Lists hl blocks where
  tip_eq : hl.tip = tipHash blocks

variable {hl : HeaderList} {T : BlockTree} {blocks q a n : List Block}

theorem represents_empty : empty.Represents [] where
  headers_eq := rfl
  heights_eq := by
    intro i b hb
    simp at hb
  tip_eq := rfl

namespace Represents

section

variable (h : hl.Represents blocks)

include h

theorem length_headers : hl.headers.length = blocks.length := by
  rw [h.headers_eq, length_entriesFrom]

theorem getTip_eq : hl.getTip = .ok (tipHash blocks) := by
  have htip : hl.tip = (hl.headers.getLast?.map HeaderEntry.hash).getD nullHash := by
    rw [h.headers_eq, getLast?_hash_entriesFrom, h.tip_eq]
    rfl
  unfold getTip
  rw [ensure_of _ htip, h.tip_eq]
  rfl

theorem headerByHeight_eq (height : Nat) :
    hl.headerByHeight height = .ok (blocks[height]?.map fun b => b.entryAt height) := by
  unfold headerByHeight
  rw [h.headers_eq, getElem?_entriesFrom]
  cases hb : blocks[height]? with
  | none => rfl
  | some b => simp [ensure]

theorem headerByBlockhash_of_getElem? {i : Nat} {b : Block} (hb : blocks[i]? = some b) :
    hl.headerByBlockhash b.hash = some (b.entryAt i) := by
  simp [headerByBlockhash, h.heights_eq i b hb, h.headers_eq, getElem?_entriesFrom, hb]

theorem exists_of_headerByBlockhash {blockhash : BlockHash} {entry : HeaderEntry}
    (hentry : hl.headerByBlockhash blockhash = some entry) :
    exists (i : Nat) (b : Block),
      blocks[i]? = some b ∧ b.hash = blockhash ∧ entry = b.entryAt i := by
  unfold headerByBlockhash at hentry
  rcases Option.bind_eq_some_iff.mp hentry with ⟨i, _, hrest⟩
  rcases Option.bind_eq_some_iff.mp hrest with ⟨header, hheader, hcheck⟩
  rw [h.headers_eq, getElem?_entriesFrom] at hheader
  rcases Option.map_eq_some_iff.mp hheader with ⟨b, hb, rfl⟩
  by_cases hhash : blockhash = b.hash
  · refine ⟨i, b, hb, hhash.symm, ?_⟩
    simpa [hhash, eq_comm] using hcheck
  · simp [hhash] at hcheck

theorem headerByBlockhash_eq_none {blockhash : BlockHash}
    (hnot : blockhash ∉ blocks.map Block.hash) :
    hl.headerByBlockhash blockhash = none := by
  cases hentry : hl.headerByBlockhash blockhash with
  | none => rfl
  | some entry =>
    rcases h.exists_of_headerByBlockhash hentry with ⟨i, b, hb, hhash, _⟩
    apply absurd _ hnot
    rw [← hhash]
    exact List.mem_map_of_mem (List.mem_of_getElem? hb)

end

end Represents

/-!
## Ordering and applying new headers
-/

theorem isChain_headers {prev : BlockHash} {blocks : List Block} (h : LinkedFrom prev blocks) :
    List.IsChain (fun prev next => next.prevBlockhash = prev.hash) (blocks.map Block.header) := by
  induction blocks generalizing prev with
  | nil => exact List.IsChain.nil
  | cons b rest ih =>
    cases rest with
    | nil => exact List.IsChain.singleton _
    | cons b' rest' =>
      exact List.IsChain.cons_cons h.right.left (ih h.right)

theorem isChain_entriesFrom {prev : BlockHash} {blocks : List Block}
    (height : Nat) (h : LinkedFrom prev blocks) :
    List.IsChain (fun prev next => prev.height + 1 = next.height ∧
        prev.hash = next.header.prevBlockhash)
      (entriesFrom height blocks) := by
  induction blocks generalizing prev height with
  | nil => exact List.IsChain.nil
  | cons b rest ih =>
    cases rest with
    | nil => exact List.IsChain.singleton _
    | cons b' rest' =>
      refine List.IsChain.cons_cons ⟨rfl, ?_⟩ (ih (height + 1) h.right)
      exact h.right.left.symm

theorem linkedFrom_tipHash (h : IsChain T (q ++ n)) : LinkedFrom (tipHash q) n :=
  linkedFrom_append_right h.linked

theorem Represents.heightAfter_eq (h : hl.Represents (q ++ a)) (hq : IsChain T q) :
    hl.heightAfter (tipHash q) = .ok q.length := by
  unfold heightAfter
  rcases List.eq_nil_or_concat q with rfl | ⟨front, last, rfl⟩
  · rw [if_pos tipHash_nil]
    rfl
  · rw [List.concat_eq_append] at h hq ⊢
    have hget : (front ++ [last] ++ a)[front.length]? = some last := by
      simp
    rw [if_neg (hq.tipHash_ne_null (by simp)), tipHash_append_singleton,
      h.headerByBlockhash_of_getElem? hget]
    simp [expect]

theorem Represents.order_eq (h : hl.Represents (q ++ a)) (hchain : IsChain T (q ++ n)) :
    hl.order (n.map Block.header) = .ok (entriesFrom q.length n) := by
  have hlinked := linkedFrom_tipHash hchain
  unfold order
  rw [ensure_of _ (isChain_headers hlinked)]
  cases n with
  | nil => rfl
  | cons b rest =>
    have hheight := h.heightAfter_eq hchain.left
    rw [← hlinked.left] at hheight
    rw [← zipIdx_headers]
    exact bind_eq_ok.mpr ⟨(), rfl, bind_eq_ok.mpr ⟨_, hheight, rfl⟩⟩

theorem Lists.expectedPrevBlockhash_eq (h : hl.Lists (q ++ a)) :
    hl.expectedPrevBlockhash q.length = .ok (tipHash q) := by
  unfold expectedPrevBlockhash
  rcases List.eq_nil_or_concat q with rfl | ⟨front, last, rfl⟩
  · rfl
  · rw [List.concat_eq_append] at h ⊢
    have hget : hl.headers[front.length]? = some (last.entryAt front.length) := by
      rw [h.headers_eq, getElem?_entriesFrom]
      simp
    have hlen : (front ++ [last]).length - 1 = front.length := by simp
    rw [if_pos (by simp), hlen, hget, tipHash_append_singleton]
    rfl

theorem Lists.take (h : hl.Lists (q ++ a)) :
    ({ hl with headers := hl.headers.take q.length } : HeaderList).Lists q where
  headers_eq := by
    simp [h.headers_eq, entriesFrom_append]
  heights_eq := by
    intro i b hb
    apply h.heights_eq i b
    rw [List.getElem?_append_left (List.getElem?_eq_some_iff.mp hb).1]
    exact hb

theorem Lists.push_eq {b : Block} (h : hl.Lists q) (hchain : IsChain T (q ++ [b])) :
    exists hl', hl.push (b.entryAt q.length) = .ok hl' ∧ hl'.Represents (q ++ [b]) := by
  have hlen : (b.entryAt q.length).height = hl.headers.length := by
    rw [h.headers_eq, length_entriesFrom]
    rfl
  refine ⟨_, bind_eq_ok.mpr ⟨(), ensure_of _ hlen, rfl⟩, ?_⟩
  refine ⟨⟨?_, ?_⟩, ?_⟩
  · simp [h.headers_eq, entriesFrom_append, entriesFrom]
  · intro i b' hb'
    have hnodup := hchain.hashes_nodup
    by_cases hi : i < q.length
    · rw [List.getElem?_append_left hi] at hb'
      have hne : b.hash ≠ b'.hash := by
        rw [List.map_append, List.nodup_append] at hnodup
        have hmem := List.mem_map_of_mem (f := Block.hash) (List.mem_of_getElem? hb')
        exact fun heq => hnodup.2.2 _ hmem _ (by simp) heq.symm
      rw [Std.ExtTreeMap.getElem?_insert, if_neg]
      · exact h.heights_eq i b' hb'
      · simpa using hne
    · have hi' : i = q.length := by
        have hlt := (List.getElem?_eq_some_iff.mp hb').1
        rw [List.length_append, List.length_singleton] at hlt
        omega
      subst hi'
      have hbb : b = b' := by simpa using hb'
      rw [hbb, Std.ExtTreeMap.getElem?_insert]
      simp
  · simp

theorem Lists.foldlM_push {b : Block} {rest : List Block} (h : hl.Lists q)
    (hchain : IsChain T (q ++ b :: rest)) :
    exists hl', (entriesFrom q.length (b :: rest)).foldlM push hl = .ok hl' ∧
      hl'.Represents (q ++ b :: rest) := by
  induction rest generalizing hl q b with
  | nil =>
    rcases h.push_eq hchain with ⟨hl', hpush, hrep⟩
    exact ⟨hl', bind_eq_ok.mpr ⟨hl', hpush, rfl⟩, hrep⟩
  | cons b' rest ih =>
    rw [List.append_cons] at hchain ⊢
    rcases h.push_eq hchain.left with ⟨hl', hpush, hrep⟩
    rcases ih hrep.toLists hchain with ⟨hl'', hfold, hrep'⟩
    rw [List.length_append, List.length_singleton] at hfold
    exact ⟨hl'', bind_eq_ok.mpr ⟨hl', hpush, hfold⟩, hrep'⟩

theorem Represents.apply_eq {b : Block} {rest : List Block}
    (h : hl.Represents (q ++ a)) (hchain : IsChain T (q ++ b :: rest)) :
    exists hl', hl.apply (entriesFrom q.length (b :: rest)) =
        .ok (hl', (entriesFrom q.length a).reverse,
          if a.isEmpty then none else q.getLast?.map Block.hash) ∧
      hl'.Represents (q ++ b :: rest) := by
  have hlinked := linkedFrom_tipHash hchain
  rcases h.toLists.take.foldlM_push hchain with ⟨hl', hfold, hrep⟩
  refine ⟨hl', ?_, hrep⟩
  have hremoved : hl.headers.drop q.length = entriesFrom q.length a := by
    simp [h.headers_eq, entriesFrom_append]
  have hkept : (hl.headers.take q.length).getLast?.map HeaderEntry.hash =
      q.getLast?.map Block.hash := by
    rw [← getLast?_hash_entriesFrom 0 q, ← h.toLists.take.headers_eq]
  have hempty : (entriesFrom q.length a).isEmpty = a.isEmpty := by
    cases a with
    | nil => rfl
    | cons _ _ => rfl
  unfold apply
  refine bind_eq_ok.mpr ⟨(), ensure_of _ (isChain_entriesFrom _ hlinked), ?_⟩
  refine bind_eq_ok.mpr ⟨_, h.toLists.expectedPrevBlockhash_eq, ?_⟩
  refine bind_eq_ok.mpr ⟨(), ensure_of _ hlinked.left, ?_⟩
  refine bind_eq_ok.mpr ⟨hl', hfold, ?_⟩
  change Except.ok (hl', (hl.headers.drop q.length).reverse,
    if (hl.headers.drop q.length).isEmpty then none
    else (hl.headers.take q.length).getLast?.map HeaderEntry.hash) = _
  rw [hremoved, hkept, hempty]

/-!
## Reloading
-/

variable {headersMap : Std.ExtTreeMap BlockHash BlockHeader}

/--
A map with the headers of a chain, whatever else it holds, gives back the chain
from its tip.
-/
theorem walkBack_eq {fuel : Nat} {blocks : List Block} (hchain : IsChain T blocks)
    (hfuel : blocks.length ≤ fuel)
    (hmap : forall b, b ∈ blocks -> headersMap[b.hash]? = some b.header) :
    walkBack fuel headersMap (tipHash blocks) = .ok (blocks.map Block.header).reverse := by
  induction blocks using List.reverseRecOn generalizing fuel headersMap with
  | nil =>
    unfold walkBack
    rw [if_pos tipHash_nil]
    rfl
  | append_singleton front last ih =>
    rw [List.length_append, List.length_singleton] at hfuel
    rcases Nat.exists_eq_add_of_le' hfuel with ⟨k, rfl⟩
    have hne := hchain.tipHash_ne_null (by simp)
    have hfront : walkBack (k + front.length) (headersMap.erase last.hash)
        (tipHash front) = .ok (front.map Block.header).reverse := by
      apply ih hchain.left (by omega)
      intro b hb
      have hnodup := hchain.hashes_nodup
      rw [List.map_append, List.nodup_append] at hnodup
      have hbl : last.hash ≠ b.hash := by
        have hmem := List.mem_map_of_mem (f := Block.hash) hb
        exact fun heq => hnodup.2.2 _ hmem _ (by simp) heq.symm
      rw [Std.ExtTreeMap.getElem?_erase, if_neg (by simpa using hbl)]
      exact hmap b (List.mem_append_left _ hb)
    rw [← hchain.prev_eq_tipHash] at hfront
    unfold walkBack
    rw [if_neg hne, tipHash_append_singleton]
    refine bind_eq_ok.mpr ⟨last.header, ?_, ?_⟩
    · exact expect_eq_ok.mpr (hmap last (by simp))
    · refine bind_eq_ok.mpr ⟨_, hfront, ?_⟩
      simp [pure_eq_ok]

section

variable {blocks : List Block} (hchain : IsChain T blocks)
  (hmap : forall b, b ∈ blocks -> headersMap[b.hash]? = some b.header)

include hchain hmap

theorem length_le_size : blocks.length ≤ headersMap.size := by
  have hsub : blocks.map Block.hash ⊆ headersMap.keys := by
    intro x hx
    rcases List.mem_map.mp hx with ⟨b, hb, rfl⟩
    rw [Std.ExtTreeMap.mem_keys, Std.ExtTreeMap.mem_iff_isSome_getElem?, hmap b hb]
    rfl
  have hle := (List.subperm_of_subset hchain.hashes_nodup hsub).length_le
  rw [List.length_map, Std.ExtTreeMap.length_keys] at hle
  exact hle

theorem new_eq :
    exists hl, new headersMap (tipHash blocks) = .ok hl ∧
      hl.Represents blocks := by
  have hwalk := walkBack_eq hchain (length_le_size hchain hmap) hmap
  have horder : empty.order (blocks.map Block.header) = .ok (entriesFrom 0 blocks) :=
    Represents.order_eq (q := []) (a := []) represents_empty hchain
  unfold new
  cases blocks with
  | nil =>
    refine ⟨empty, ?_, represents_empty⟩
    refine bind_eq_ok.mpr ⟨_, hwalk, ?_⟩
    rfl
  | cons b rest =>
    rcases Represents.apply_eq (q := []) (a := []) represents_empty hchain with ⟨hl, happly, hrep⟩
    refine ⟨hl, ?_, hrep⟩
    refine bind_eq_ok.mpr ⟨_, hwalk, ?_⟩
    rw [List.reverse_reverse]
    refine bind_eq_ok.mpr ⟨_, horder, ?_⟩
    exact bind_eq_ok.mpr ⟨_, happly, rfl⟩

end

end HeaderList

/-!
## The median time past
-/

def HeaderEntry.time (e : HeaderEntry) : UInt32 :=
  e.header.time

/-- `GetMedianTimePast` of Bitcoin Core: an array is filled from its end, and sorted. -/
def medianTimePast (newestFirst : List UInt32) : Option UInt32 :=
  let array := (newestFirst.take 11).foldl (fun array time => time :: array) []
  array.mergeSort[array.length / 2]?

namespace HeaderList

def mtpSpan : Nat := 11

/-- No result is a panic: an index outside the list, or `len() - 1` of an empty list. -/
def getMtp (hl : HeaderList) (height : Nat) : Option UInt32 :=
  if height = 0 then
    hl.headers.head?.map HeaderEntry.time
  else if hl.headers.isEmpty then
    none
  else if height > hl.headers.length - 1 then
    some 0
  else do
    let start := height - (mtpSpan - 1)
    let timestamps <- (List.range' start (height + 1 - start)).mapM fun pHeight =>
      hl.headers[pHeight]?.map HeaderEntry.time
    timestamps.mergeSort[timestamps.length / 2]?

section Median

variable {hl : HeaderList} {height : Nat}

theorem mapM_range'_getElem? {α : Type} {items : List α} {start n : Nat}
    (h : start + n ≤ items.length) :
    (List.range' start n).mapM (fun i => items[i]?) = some ((items.drop start).take n) := by
  induction n generalizing start with
  | zero => rfl
  | succ n ih =>
    have hlt : start < items.length := by omega
    rw [List.range'_succ, List.mapM_cons, ih (by omega), List.getElem?_eq_getElem hlt,
      List.drop_eq_getElem_cons hlt]
    rfl

theorem mergeSort_eq {times sorted : List UInt32} (hperm : sorted.Perm times)
    (hsorted : sorted.Pairwise (· ≤ ·)) : times.mergeSort = sorted := by
  have hmerge : times.mergeSort.Pairwise (· ≤ ·) := by
    refine (List.pairwise_mergeSort ?_ ?_ times).imp of_decide_eq_true
    · intro a b c hab hbc
      exact decide_eq_true (UInt32.le_trans (of_decide_eq_true hab) (of_decide_eq_true hbc))
    · intro a b
      simpa using UInt32.le_total a b
  exact ((List.mergeSort_perm times _).trans hperm.symm).eq_of_pairwise
    (fun _ _ _ _ => UInt32.le_antisymm) hmerge hsorted

def window (hl : HeaderList) (height : Nat) : List UInt32 :=
  ((hl.headers.map HeaderEntry.time).take (height + 1)).rtake mtpSpan

theorem window_eq (h : height < hl.headers.length) :
    hl.window height = ((hl.headers.map HeaderEntry.time).drop (height - (mtpSpan - 1))).take
      (height + 1 - (height - (mtpSpan - 1))) := by
  have hstart : height + 1 - mtpSpan = height - (mtpSpan - 1) := by
    rw [mtpSpan]
    omega
  rw [window, List.rtake, List.length_take_of_le (by simpa using h), List.drop_take, hstart]

theorem length_window (h : height < hl.headers.length) :
    (hl.window height).length = min 11 (height + 1) := by
  rw [window_eq h, List.length_take, List.length_drop, List.length_map, mtpSpan]
  omega

theorem getMtp_eq (h : height < hl.headers.length) :
    hl.getMtp height = (hl.window height).mergeSort[(hl.window height).length / 2]? := by
  have hmap : (fun i : Nat => hl.headers[i]?.map HeaderEntry.time) =
      fun i => (hl.headers.map HeaderEntry.time)[i]? := by
    funext i
    exact List.getElem?_map.symm
  have hempty : hl.headers.isEmpty = false := by
    cases hheaders : hl.headers with
    | nil => simp [hheaders] at h
    | cons e rest => rfl
  rw [getMtp, hempty]
  by_cases hzero : height = 0
  · subst hzero
    cases hheaders : hl.headers with
    | nil => simp [hheaders] at h
    | cons e rest => simp [window, hheaders, mtpSpan, List.rtake]
  · rw [if_neg hzero, if_neg Bool.false_ne_true, if_neg (by omega)]
    dsimp only
    rw [hmap, mapM_range'_getElem? (by rw [List.length_map]; omega), <- window_eq h]
    rfl

/-- The middle one of the last timestamps when they are sorted, as in Bitcoin Core. -/
theorem getMtp_median (hl : HeaderList) (height : Fin hl.headers.length) :
    (exists time, hl.getMtp height = some time ∧
      forall sorted : List UInt32, sorted.Perm (hl.window height) -> sorted.Pairwise (· ≤ ·) ->
        sorted.length = min 11 (height.val + 1) ∧
          sorted[min 11 (height.val + 1) / 2]? = some time) ∧
    hl.getMtp height =
      medianTimePast ((hl.headers.map HeaderEntry.time).take (height + 1)).reverse := by
  have hlength := length_window height.isLt
  refine ⟨?_, ?_⟩
  · have hlt : (hl.window height).length / 2 < (hl.window height).mergeSort.length := by
      rw [List.length_mergeSort]
      omega
    refine ⟨_, (getMtp_eq height.isLt).trans (List.getElem?_eq_getElem hlt), ?_⟩
    intro sorted hperm hsorted
    rw [<- hlength]
    refine ⟨hperm.length_eq, ?_⟩
    rw [<- List.getElem?_eq_getElem hlt, mergeSort_eq hperm hsorted]
  · have harray : (((hl.headers.map HeaderEntry.time).take (height + 1)).reverse.take 11).foldl
        (fun array time => time :: array) [] = hl.window height := by
      rw [List.foldl_flip_cons_eq_append', List.append_nil, <- List.rtake_eq_reverse_take_reverse]
      rfl
    rw [getMtp_eq height.isLt, medianTimePast, harray]

end Median

end HeaderList
end Splora
