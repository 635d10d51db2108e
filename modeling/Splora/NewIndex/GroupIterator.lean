import Splora.Foundation.Groups
import Splora.NewIndex.HistoryPages
import Splora.NewIndex.Session

/-!
# The iterators of a group of scripts

`ReverseScanIterator` and `ReverseScanGroupIterator` of `src/new_index/db.rs`, call by call:
what is still handed out is the merge of what the iterators still yield.
-/

namespace Splora
namespace NewIndex

open Foundation

structure ReverseScanIterator where
  keyPrefix : Bytes
  iter : List DBRow
  done : Bool

namespace ReverseScanIterator

def next (it : ReverseScanIterator) : Option DBRow × ReverseScanIterator :=
  if it.done then
    (none, it)
  else
    match it.iter with
    | [] => (none, it)
    | row :: rest =>
      if it.keyPrefix.isPrefixOf row.key then
        (some row, { it with iter := rest })
      else
        (none, { it with done := true })

end ReverseScanIterator

structure ReverseScanGroupIterator where
  iters : List ReverseScanIterator
  nextRows : List (Option DBRow)
  valueOffset : Nat
  done : Bool

namespace ReverseScanGroupIterator

def new (iters : List ReverseScanIterator) (valueOffset : Nat) :
    ReverseScanGroupIterator where
  iters := iters.map fun it => it.next.2
  nextRows := iters.map fun it => it.next.1
  valueOffset := valueOffset
  done := (iters.map fun it => it.next.1).all Option.isNone

def compareKeys (valueOffset : Nat) (a b : DBRow) : Option Ordering :=
  if valueOffset ≤ a.key.length ∧ valueOffset ≤ b.key.length then
    some (compare (a.key.drop valueOffset) (b.key.drop valueOffset))
  else
    none

def compareRows (valueOffset : Nat) (a b : Nat × Option DBRow) : Option Ordering :=
  match a.2, b.2 with
  | none, none => some (compare a.1 b.1)
  | some _, none => some .gt
  | none, some _ => some .lt
  | some row, some row' => compareKeys valueOffset row row'

/-- `max_by` keeps the later one of two maxima. -/
def maxBy (valueOffset : Nat) :
    List (Nat × Option DBRow) -> Option (Option (Nat × Option DBRow))
  | [] => some none
  | first :: rest => do
      let best <- rest.foldlM (fun best row => do
        let order <- compareRows valueOffset best row
        return if order = .gt then best else row) first
      return some best

/-- One call; nothing if it panics. -/
def next (group : ReverseScanGroupIterator) :
    Option (Option DBRow × ReverseScanGroupIterator) :=
  if group.done then
    some (none, group)
  else do
    let best <- maxBy group.valueOffset (group.nextRows.zipIdx.map fun row => (row.2, row.1))
    let bestIndex := (best.map Prod.fst).getD 0
    let row <- group.nextRows[bestIndex]?
    match group.iters[bestIndex]? with
    | none => return (none, { group with nextRows := group.nextRows.set bestIndex none })
    | some it =>
      let nextRows := group.nextRows.set bestIndex it.next.1
      return (row, { group with
        iters := group.iters.set bestIndex it.next.2
        nextRows := nextRows
        done := nextRows.all Option.isNone })

def collect : Nat -> ReverseScanGroupIterator -> Option (List DBRow)
  | 0, _ => none
  | fuel + 1, group => do
      match <- group.next with
      | (none, _) => return []
      | (some row, group) =>
        let rows <- collect fuel group
        return row :: rows

end ReverseScanGroupIterator

/-!
## Scans of a database
-/

namespace DB

def seekForPrev (rows : List DBRow) (limit : Bytes) : List DBRow :=
  rows.reverse.dropWhile fun row => compare row.key limit == .gt

def iterScanGroupReverse (rows : List DBRow) (prefixes : List (Bytes × Bytes))
    (valueOffset : Nat) : ReverseScanGroupIterator :=
  ReverseScanGroupIterator.new (prefixes.map fun (keyPrefix, prefixMax) =>
    { keyPrefix := keyPrefix, iter := seekForPrev rows prefixMax, done := false })
    valueOffset

end DB

def historyRows (store : Store) : List DBRow :=
  store.disk.history.toList.map fun row => { key := row.1.bytes, value := row.2 }

namespace ChainQuery

def historyGroupIterator (store : Store) (code : HistoryCode) (hashes : List FullHash)
    (startHeight : Option UInt32) : ReverseScanGroupIterator :=
  DB.iterScanGroupReverse (historyRows store) (hashes.map fun hash =>
    (TxHistoryKey.filter code hash, TxHistoryKey.prefixMax code hash startHeight)) 33

end ChainQuery

/-!
## What the iterators still yield
-/

namespace ReverseScanIterator

def rest (it : ReverseScanIterator) : List DBRow :=
  if it.done then []
  else it.iter.takeWhile fun row => it.keyPrefix.isPrefixOf row.key

theorem next_fst (it : ReverseScanIterator) : it.next.1 = it.rest.head? := by
  unfold next rest
  split
  · rfl
  · cases it.iter with
    | nil => rfl
    | cons row rows =>
      by_cases hstarts : it.keyPrefix.isPrefixOf row.key
      · simp [hstarts]
      · simp [hstarts]

theorem rest_next (it : ReverseScanIterator) : it.next.2.rest = it.rest.tail := by
  by_cases hdone : it.done
  · simp [next, rest, hdone]
  · cases hiter : it.iter with
    | nil => simp [next, rest, hdone, hiter]
    | cons row rows =>
      by_cases hstarts : it.keyPrefix.isPrefixOf row.key
      · simp [next, rest, hdone, hiter, hstarts]
      · simp [next, rest, hdone, hiter, hstarts]

theorem toList_next_append_rest (it : ReverseScanIterator) :
    it.next.1.toList ++ it.next.2.rest = it.rest := by
  rw [next_fst, rest_next]
  cases it.rest with
  | nil => rfl
  | cons row rows => rfl

end ReverseScanIterator

namespace ReverseScanGroupIterator

def suffixOrder (valueOffset : Nat) : DBRow -> DBRow -> Ordering :=
  compareOn fun row => row.key.drop valueOffset

instance (valueOffset : Nat) : Std.TransCmp (suffixOrder valueOffset) :=
  inferInstanceAs (Std.TransCmp (compareOn fun row : DBRow => row.key.drop valueOffset))

def pending (group : ReverseScanGroupIterator) : List (List DBRow) :=
  List.zipWith (fun row it => row.toList ++ it.rest) group.nextRows group.iters

structure Prepared (group : ReverseScanGroupIterator) : Prop where
  length_eq : group.nextRows.length = group.iters.length
  exhausted : forall (i : Nat) (it : ReverseScanIterator), group.iters[i]? = some it ->
    group.nextRows[i]? = some none -> it.rest = []
  done_eq : group.done = group.nextRows.all Option.isNone
  long : forall row, row ∈ group.pending.flatten -> group.valueOffset ≤ row.key.length

section Prepared

variable {group : ReverseScanGroupIterator} {i : Nat} {it : ReverseScanIterator}

theorem getElem?_pending (hit : group.iters[i]? = some it) {row : Option DBRow}
    (hrow : group.nextRows[i]? = some row) :
    group.pending[i]? = some (row.toList ++ it.rest) := by
  rw [pending, List.getElem?_zipWith, hrow, hit]

theorem head?_pending (h : Prepared group) (i : Nat) :
    group.pending[i]?.map List.head? = group.nextRows[i]? := by
  cases hit : group.iters[i]? with
  | none =>
    have hlength := List.getElem?_eq_none_iff.mp hit
    have hrow : group.nextRows[i]? = none :=
      List.getElem?_eq_none (h.length_eq ▸ hlength)
    rw [pending, List.getElem?_zipWith, hrow]
    rfl
  | some it =>
    have hlt := (List.getElem?_eq_some_iff.mp hit).fst
    rw [<- h.length_eq] at hlt
    have hrow := List.getElem?_eq_getElem hlt
    rw [getElem?_pending hit hrow, hrow]
    cases hheld : group.nextRows[i] with
    | none =>
      rw [hheld] at hrow
      rw [h.exhausted i it hit hrow]
      rfl
    | some row => rfl

theorem nextRows_pending (h : Prepared group) :
    Foundation.nextRows group.pending = group.nextRows.zipIdx.map fun row => (row.2, row.1) := by
  refine List.ext_getElem? fun i => ?_
  rw [Foundation.nextRows, List.getElem?_map, List.getElem?_map, List.getElem?_zipIdx,
    List.getElem?_zipIdx, <- head?_pending h i, Option.map_map, Option.map_map,
    Option.map_map, Nat.zero_add]
  rfl

theorem compareRows_eq {valueOffset : Nat} {a b : Nat × Option DBRow}
    (ha : forall row, a.2 = some row -> valueOffset ≤ row.key.length)
    (hb : forall row, b.2 = some row -> valueOffset ≤ row.key.length) :
    compareRows valueOffset a b = some (compareNext (suffixOrder valueOffset) a b) := by
  rcases a with ⟨i, held⟩
  rcases b with ⟨j, held'⟩
  cases held with
  | none =>
    cases held' with
    | none => rfl
    | some row' => rfl
  | some row =>
    cases held' with
    | none => rfl
    | some row' =>
      have hlong := ha row rfl
      have hlong' := hb row' rfl
      simp only [compareRows, compareKeys, if_pos (And.intro hlong hlong')]
      rfl

theorem maxBy_eq {valueOffset : Nat} {first : Nat × Option DBRow} {rest : List (Nat × Option DBRow)}
    (hlong : forall held, held ∈ first :: rest ->
      forall row, held.2 = some row -> valueOffset ≤ row.key.length) :
    maxBy valueOffset (first :: rest) =
      some (some (rest.foldl (keepMax (suffixOrder valueOffset)) first)) := by
  rw [maxBy]
  induction rest generalizing first with
  | nil => rfl
  | cons held rest ih =>
    have hfirst := hlong first List.mem_cons_self
    have hheld := hlong held (List.mem_cons_of_mem _ List.mem_cons_self)
    rw [List.foldlM_cons, compareRows_eq hfirst hheld]
    refine ih ?_
    intro held' hmem
    rcases List.mem_cons.mp hmem with heq | hrest
    · rw [heq]
      split
      · exact hfirst
      · exact hheld
    · exact hlong held' (List.mem_cons_of_mem _ (List.mem_cons_of_mem _ hrest))

theorem zipWith_set {α β γ : Type} (f : α -> β -> γ) (l : List α) (l' : List β) (i : Nat)
    (a : α) (b : β) :
    List.zipWith f (l.set i a) (l'.set i b) = (List.zipWith f l l').set i (f a b) := by
  induction l generalizing l' i with
  | nil => simp
  | cons x l ih =>
    cases l' with
    | nil => simp
    | cons y l' =>
      cases i with
      | zero => rfl
      | succ i =>
        rw [List.set_cons_succ, List.set_cons_succ, List.zipWith_cons_cons,
          List.zipWith_cons_cons, List.set_cons_succ, ih]

def advance (group : ReverseScanGroupIterator) (i : Nat) (it : ReverseScanIterator) :
    ReverseScanGroupIterator :=
  { group with
    iters := group.iters.set i it.next.2
    nextRows := group.nextRows.set i it.next.1
    done := (group.nextRows.set i it.next.1).all Option.isNone }

theorem pending_advance (group : ReverseScanGroupIterator) (i : Nat) (it : ReverseScanIterator) :
    (group.advance i it).pending = group.pending.set i it.rest := by
  rw [pending, advance, zipWith_set, it.toList_next_append_rest]
  rfl

theorem Prepared.advance (h : Prepared group) (hit : group.iters[i]? = some it)
    {row : DBRow} (hrow : group.nextRows[i]? = some (some row)) :
    Prepared (group.advance i it) where
  length_eq := by
    show (group.nextRows.set i _).length = (group.iters.set i _).length
    rw [List.length_set, List.length_set, h.length_eq]
  exhausted := by
    intro j it' hit' hrow'
    by_cases hij : i = j
    · subst hij
      have hlt := (List.getElem?_eq_some_iff.mp hit).fst
      have hlt' := (List.getElem?_eq_some_iff.mp hrow).fst
      change (group.iters.set i it.next.2)[i]? = some it' at hit'
      change (group.nextRows.set i it.next.1)[i]? = some none at hrow'
      rw [List.getElem?_set_self hlt, Option.some.injEq] at hit'
      rw [List.getElem?_set_self hlt', Option.some.injEq, it.next_fst,
        List.head?_eq_none_iff] at hrow'
      rw [<- hit', it.rest_next, hrow']
      rfl
    · change (group.iters.set i it.next.2)[j]? = some it' at hit'
      change (group.nextRows.set i it.next.1)[j]? = some none at hrow'
      rw [List.getElem?_set_ne hij] at hit' hrow'
      exact h.exhausted j it' hit' hrow'
  done_eq := rfl
  long := by
    intro row' hrow'
    rw [pending_advance] at hrow'
    have hperm := flatten_perm_of_set (getElem?_pending hit hrow)
    exact h.long row' (hperm.mem_iff.mpr (List.mem_cons_of_mem _ hrow'))

theorem Prepared.long_held (h : Prepared group) {held : Nat × Option DBRow}
    (hheld : held ∈ Foundation.nextRows group.pending) {row : DBRow}
    (hrow : held.2 = some row) : group.valueOffset ≤ row.key.length := by
  rcases mem_nextRows.mp hheld with ⟨rows, hrows, hhead⟩
  rw [hrow] at hhead
  refine h.long row (List.mem_flatten.mpr ⟨rows, List.mem_of_getElem? hrows, ?_⟩)
  exact List.mem_of_head? hhead.symm

theorem Prepared.maxBy_eq (h : Prepared group) (hne : group.nextRows ≠ []) :
    exists best, maxBy group.valueOffset
        (group.nextRows.zipIdx.map fun row => (row.2, row.1)) = some (some best) ∧
      best.1 = bestIndex (suffixOrder group.valueOffset) group.pending := by
  unfold bestIndex
  rw [<- nextRows_pending h]
  cases hrows : Foundation.nextRows group.pending with
  | nil =>
    rw [nextRows_pending h, List.map_eq_nil_iff, List.zipIdx_eq_nil_iff] at hrows
    exact absurd hrows hne
  | cons first rest =>
    refine ⟨_, ReverseScanGroupIterator.maxBy_eq ?_, rfl⟩
    intro held hheld row hrow
    rw [<- hrows] at hheld
    exact h.long_held hheld hrow

theorem next_of_done (hdone : group.done = true) : group.next = some (none, group) := by
  rw [next, if_pos hdone]

theorem Prepared.flatten_eq_nil (h : Prepared group) (hdone : group.done = true) :
    group.pending.flatten = [] := by
  rw [List.flatten_eq_nil_iff]
  intro rows hrows
  rcases List.getElem?_of_mem hrows with ⟨i, hi⟩
  have hhead := head?_pending h i
  rw [hi, Option.map_some] at hhead
  rw [h.done_eq, List.all_eq_true] at hdone
  have hnone := hdone _ (List.mem_of_getElem? hhead.symm)
  rw [Option.isNone_iff_eq_none, List.head?_eq_none_iff] at hnone
  exact hnone

theorem Prepared.exists_held (h : Prepared group) (hdone : group.done = false) :
    group.pending.flatten ≠ [] ∧ group.nextRows ≠ [] := by
  rw [h.done_eq, List.all_eq_false] at hdone
  rcases hdone with ⟨held, hheld, hsome⟩
  rcases List.getElem?_of_mem hheld with ⟨i, hi⟩
  have hhead := head?_pending h i
  rw [hi] at hhead
  rcases Option.map_eq_some_iff.mp hhead with ⟨rows, hrows, hfirst⟩
  refine ⟨?_, List.ne_nil_of_mem hheld⟩
  intro hnil
  have hempty := List.flatten_eq_nil_iff.mp hnil rows (List.mem_of_getElem? hrows)
  rw [hempty] at hfirst
  rw [<- hfirst] at hsome
  exact hsome rfl

theorem next_eq_advance (hdone : group.done = false) {best : Nat × Option DBRow}
    (hbest : maxBy group.valueOffset
      (group.nextRows.zipIdx.map fun row => (row.2, row.1)) = some (some best))
    {held : Option DBRow} (hheld : group.nextRows[best.1]? = some held)
    (hit : group.iters[best.1]? = some it) :
    group.next = some (held, group.advance best.1 it) := by
  unfold next
  rw [if_neg (ne_true_of_eq_false hdone), hbest]
  simp only [Option.bind_eq_bind, Option.bind_some, Option.map_some, Option.getD_some, hheld, hit]
  rfl

theorem Prepared.exists_next (h : Prepared group) (hdone : group.done = false) :
    exists row group', group.next = some (some row, group') ∧
      mergeNext (suffixOrder group.valueOffset) group.pending = some (row, group'.pending) ∧
      group'.valueOffset = group.valueOffset ∧ Prepared group' := by
  rcases h.exists_held hdone with ⟨hpending, hheld⟩
  rcases h.maxBy_eq hheld with ⟨best, hbest, hindex⟩
  cases hmerge : mergeNext (suffixOrder group.valueOffset) group.pending with
  | none => exact absurd (mergeNext_eq_none hmerge) hpending
  | some step =>
    rcases step with ⟨row, pending'⟩
    unfold mergeNext at hmerge
    split at hmerge
    case h_2 => cases hmerge
    case h_1 row' rest hrows =>
      cases hmerge
      rw [<- hindex] at hrows
      have hrow := head?_pending h best.1
      rw [hrows] at hrow
      have hlt := (List.getElem?_eq_some_iff.mp hrow.symm).fst
      rw [h.length_eq] at hlt
      have hit := List.getElem?_eq_getElem hlt
      have hsame := getElem?_pending hit hrow.symm
      rw [hrows, Option.some.injEq] at hsame
      have hrest : rest = group.iters[best.1].rest := (List.cons.inj hsame).right
      refine ⟨row, group.advance best.1 group.iters[best.1], ?_, ?_, rfl, h.advance hit hrow.symm⟩
      · exact next_eq_advance hdone hbest hrow.symm hit
      · rw [pending_advance, <- hindex, hrest]

theorem Prepared.collect_eq (h : Prepared group) {fuel : Nat}
    (hfuel : group.pending.flatten.length = fuel) :
    collect (fuel + 1) group =
      some (mergeFrom (suffixOrder group.valueOffset) fuel group.pending) := by
  induction fuel generalizing group with
  | zero =>
    have hdone : group.done = true := by
      by_contra hnot
      have hheld := h.exists_held (Bool.eq_false_of_not_eq_true hnot)
      exact hheld.left (List.length_eq_zero_iff.mp hfuel)
    rw [collect, next_of_done hdone]
    rfl
  | succ fuel ih =>
    have hdone : group.done = false := by
      by_contra hnot
      rw [h.flatten_eq_nil (Bool.eq_true_of_not_eq_false hnot)] at hfuel
      cases hfuel
    rcases h.exists_next hdone with ⟨row, group', hnext, hmerge, hoffset, h'⟩
    rcases mergeNext_eq_some hmerge with ⟨i, rest, hi, hset, _⟩
    have hlength := (flatten_perm_of_set hi).length_eq
    rw [List.length_cons, <- hset, hfuel] at hlength
    have hrest := ih h' (Nat.succ.inj hlength).symm
    rw [collect, hnext, mergeFrom, hmerge]
    rw [hoffset] at hrest
    simp only [Option.bind_eq_bind, Option.bind_some, hrest]
    rfl

end Prepared

theorem prepared_new {iters : List ReverseScanIterator} {valueOffset : Nat}
    (hlong : forall it, it ∈ iters -> valueOffset ≤ it.keyPrefix.length) :
    Prepared (new iters valueOffset) ∧
      (new iters valueOffset).pending = iters.map ReverseScanIterator.rest := by
  have hpending : (new iters valueOffset).pending = iters.map ReverseScanIterator.rest := by
    rw [pending, new, List.zipWith_map]
    simp only [ReverseScanIterator.toList_next_append_rest, List.zipWith_self]
  refine ⟨⟨?_, ?_, rfl, ?_⟩, hpending⟩
  · simp [new]
  · intro i it hit hrow
    change (iters.map fun it => it.next.2)[i]? = some it at hit
    change (iters.map fun it => it.next.1)[i]? = some none at hrow
    rw [List.getElem?_map] at hit hrow
    rcases Option.map_eq_some_iff.mp hit with ⟨it₀, hit₀, heq⟩
    rw [hit₀, Option.map_some, Option.some.injEq, it₀.next_fst, List.head?_eq_none_iff] at hrow
    rw [<- heq, it₀.rest_next, hrow]
    rfl
  · intro row hrow
    rw [hpending] at hrow
    rcases List.mem_flatten.mp hrow with ⟨rows, hrows, hmem⟩
    rcases List.mem_map.mp hrows with ⟨it, hit, rfl⟩
    have hstarts : it.keyPrefix.isPrefixOf row.key = true := by
      unfold ReverseScanIterator.rest at hmem
      split at hmem
      · cases hmem
      · exact List.mem_takeWhile_imp (p := fun row : DBRow =>
          it.keyPrefix.isPrefixOf row.key) hmem
    exact (hlong it hit).trans (List.isPrefixOf_iff_prefix.mp hstarts).length_le

end ReverseScanGroupIterator

/-!
## The rows of a group of scripts
-/

namespace ChainQuery

open ReverseScanGroupIterator

variable {store : Store} {code : HistoryCode} {hashes : List FullHash} {hash : FullHash}
  {startHeight : Option UInt32}

def toDBRow (row : HistoryKey × Bytes) : DBRow where
  key := row.1.bytes
  value := row.2

theorem rest_scan (store : Store) (limit keyPrefix : Bytes) :
    ReverseScanIterator.rest
        { keyPrefix := keyPrefix
          iter := DB.seekForPrev (historyRows store) limit
          done := false } =
      (scanReverse HistoryKey.bytes store.disk.history limit keyPrefix).map toDBRow := by
  rw [ReverseScanIterator.rest, if_neg Bool.false_ne_true, DB.seekForPrev, historyRows,
    <- List.map_reverse, List.dropWhile_map, List.takeWhile_map]
  rfl

def scanned (store : Store) (code : HistoryCode) (startHeight : Option UInt32)
    (hash : FullHash) : List DBRow :=
  (scanReverse HistoryKey.bytes store.disk.history (TxHistoryKey.prefixMax code hash startHeight)
    (TxHistoryKey.filter code hash)).map toDBRow

theorem pending_historyGroupIterator (store : Store) (code : HistoryCode)
    (hashes : List FullHash) (startHeight : Option UInt32) :
    Prepared (historyGroupIterator store code hashes startHeight) ∧
      (historyGroupIterator store code hashes startHeight).pending =
        hashes.map (scanned store code startHeight) := by
  unfold historyGroupIterator DB.iterScanGroupReverse
  have hlong : forall it, it ∈ (hashes.map fun hash =>
      (TxHistoryKey.filter code hash, TxHistoryKey.prefixMax code hash startHeight)).map
        (fun (keyPrefix, prefixMax) => ({
          keyPrefix := keyPrefix
          iter := DB.seekForPrev (historyRows store) prefixMax
          done := false } : ReverseScanIterator)) ->
      33 ≤ it.keyPrefix.length := by
    intro it hit
    rcases List.mem_map.mp hit with ⟨limits, hlimits, heq⟩
    rcases List.mem_map.mp hlimits with ⟨hash, _, heq'⟩
    rw [<- heq, <- heq']
    simp [TxHistoryKey.filter]
  rcases prepared_new hlong with ⟨hprepared, hpending⟩
  refine ⟨hprepared, hpending.trans ?_⟩
  rw [List.map_map, List.map_map]
  refine List.map_congr_left fun hash _ => ?_
  exact rest_scan store _ _

def rowsWithin (store : Store) (code : HistoryCode) (startHeight : Option UInt32)
    (hash : FullHash) : List DBRow :=
  (historyRows store).filter fun row =>
    (TxHistoryKey.filter code hash).isPrefixOf row.key &&
      !(compare row.key (TxHistoryKey.prefixMax code hash startHeight) == .gt)

theorem scanned_perm (store : Store) (code : HistoryCode) (startHeight : Option UInt32)
    (hash : FullHash) :
    (scanned store code startHeight hash).Perm (rowsWithin store code startHeight hash) := by
  rw [scanned, scanReverse_eq_filter _ (filter_isPrefixOf_prefixMax code hash startHeight),
    rowsWithin, historyRows, List.filter_map, List.filter_filter, List.map_reverse]
  exact List.reverse_perm _

theorem map_bytes_historyIterScanReverse (store : Store) (code : HistoryCode)
    (hash : FullHash) (startHeight : Option UInt32) :
    (historyIterScanReverse store code hash startHeight).map TxHistoryKey.bytes =
      (scanned store code startHeight hash).map DBRow.key := by
  rw [historyIterScanReverse, scanned, List.map_map, List.map_filterMap, <- List.filterMap_eq_map]
  refine List.filterMap_congr fun row hrow => ?_
  have hstarts : (TxHistoryKey.filter code hash).isPrefixOf row.1.bytes = true :=
    List.mem_takeWhile_imp (p := fun row : HistoryKey × Bytes =>
      (TxHistoryKey.filter code hash).isPrefixOf row.1.bytes) hrow
  rcases filter_isPrefixOf_iff.mp hstarts with ⟨k, hk, _⟩
  rcases row with ⟨key, value⟩
  change key = .history k at hk
  subst hk
  rfl

def position (k : TxHistoryKey) : Nat × Nat :=
  (k.confirmedHeight.toNat, k.txPosition.toNat)

theorem position_between {a b c : TxHistoryKey} (hab : scanOrder b a ≠ .gt)
    (hbc : scanOrder c b ≠ .gt) (hac : position a = position c) :
    position b = position a := by
  have hheight : a.confirmedHeight.toNat = c.confirmedHeight.toNat := congrArg Prod.fst hac
  have hpos : a.txPosition.toNat = c.txPosition.toNat := congrArg Prod.snd hac
  have hle := position_le_of_scanOrder hab
  have hle' := position_le_of_scanOrder hbc
  refine Prod.ext ?_ ?_
  · show b.confirmedHeight.toNat = a.confirmedHeight.toNat
    omega
  · show b.txPosition.toNat = a.txPosition.toNat
    omega

theorem contiguous_position (store : Store) (code : HistoryCode) (hashes : List FullHash)
    (startHeight : Option UInt32) :
    Contiguous position (historyIterScanGroupReverse store code hashes startHeight) :=
  Contiguous.of_between (historyIterScanGroupReverse_descending store code hashes startHeight)
    fun _ _ _ _ _ _ hab hbc hac => position_between hab hbc hac

theorem contiguous_getTxid {T : BlockTree} {cfg : IndexerConfig} {blocks : List Block}
    (h : Exact T cfg store blocks) {hashes : List FullHash}
    {startHeight : Option UInt32} {rows : List TxHistoryKey}
    (hrows : RowsOf store hashes startHeight rows) :
    Contiguous TxHistoryKey.getTxid rows := by
  refine Contiguous.of_between hrows.descending ?_
  intro a b c ha hb hc hab hbc htxid
  rcases h.confirmedTx_of_mem_rows hrows ha with ⟨item, hitem, htxidA, hposA, hheightA, _⟩
  rcases h.confirmedTx_of_mem_rows hrows hb with ⟨item', hitem', htxidB, hposB, hheightB, _⟩
  rcases h.confirmedTx_of_mem_rows hrows hc with ⟨item'', hitem'', htxidC, hposC, hheightC, _⟩
  have hsame : item = item'' := by
    refine h.confirmedTx_unique hitem hitem'' ?_
    rw [<- htxidA, <- htxidC, htxid]
  have hac : position a = position c := by
    rw [position, position, hposA, hposC, hheightA, hheightC, hsame]
  have hb' := position_between hab hbc hac
  have hheight : item'.2.1.height = item.2.1.height := by
    rw [<- hheightA, <- hheightB]
    exact congrArg Prod.fst hb'
  have hpos : item'.2.2 = item.2.2 := by
    rw [<- hposA, <- hposB]
    exact UInt16.toNat_inj.mp (congrArg Prod.snd hb')
  rw [htxidA, htxidB, Exact.confirmedTx_eq_of_position hitem' hitem hheight hpos]

theorem collect_historyGroupIterator (store : Store) (code : HistoryCode)
    (hashes : List FullHash) (startHeight : Option UInt32) :
    (historyGroupIterator store code hashes startHeight).collect ((mergeRows (suffixOrder 33)
          (hashes.map (scanned store code startHeight))).length + 1) =
      some (mergeRows (suffixOrder 33) (hashes.map (scanned store code startHeight))) := by
  rcases pending_historyGroupIterator store code hashes startHeight with ⟨hprepared, hpending⟩
  have hperm : (mergeRows (suffixOrder 33) (hashes.map (scanned store code startHeight))).Perm _ :=
    mergeFrom_perm (Nat.le_refl _)
  have hcollect := hprepared.collect_eq rfl
  rw [hpending] at hcollect
  rw [hperm.length_eq]
  exact hcollect

theorem map_key_mergeRows (store : Store) (code : HistoryCode)
    (hashes : List FullHash) (startHeight : Option UInt32) :
    (mergeRows (suffixOrder 33) (hashes.map (scanned store code startHeight))).map DBRow.key =
      (historyIterScanGroupReverse store code hashes startHeight).map
        TxHistoryKey.bytes := by
  have hkeys : mergeRows (compareOn fun key : Bytes => key.drop 33)
      ((hashes.map (scanned store code startHeight)).map (List.map DBRow.key)) =
        (mergeRows (suffixOrder 33) (hashes.map (scanned store code startHeight))).map
          DBRow.key :=
    mergeRows_map (fun _ _ => rfl) _
  have htyped : mergeRows (compareOn fun key : Bytes => key.drop 33)
      ((hashes.map fun hash => historyIterScanReverse store code hash startHeight).map
        (List.map TxHistoryKey.bytes)) =
        (historyIterScanGroupReverse store code hashes startHeight).map
          TxHistoryKey.bytes :=
    mergeRows_map (fun _ _ => rfl) _
  rw [<- hkeys, <- htyped, List.map_map, List.map_map]
  refine congrArg (mergeRows _) (List.map_congr_left fun hash _ => ?_)
  exact (map_bytes_historyIterScanReverse store code hash startHeight).symm

/-- The iterator ends after one call more than it has rows: those of all scripts within their
limits, each as often as its script is in the group, downwards in the key after the script hash.
The rows of a transaction are contiguous. -/
theorem group_rows_exact (store : Store) (code : HistoryCode) (hashes : List FullHash)
    (startHeight : Option UInt32) :
    (exists rows, (historyGroupIterator store code hashes startHeight).collect (rows.length + 1) =
        some rows ∧
      rows.Perm (hashes.flatMap (rowsWithin store code startHeight)) ∧
      rows.Pairwise (fun row row' =>
        compare (row'.key.drop 33) (row.key.drop 33) ≠ .gt) ∧
      rows.map DBRow.key = (historyIterScanGroupReverse store code hashes startHeight).map
          TxHistoryKey.bytes) ∧
    Contiguous position (historyIterScanGroupReverse store code hashes startHeight) ∧
    forall (T : BlockTree) (cfg : IndexerConfig) (blocks : List Block), Exact T cfg store blocks ->
      Contiguous TxHistoryKey.getTxid
        (historyIterScanGroupReverse store .script hashes startHeight) := by
  have hkeys := map_key_mergeRows store code hashes startHeight
  refine ⟨⟨_, collect_historyGroupIterator store code hashes startHeight, ?_, ?_, hkeys⟩,
    contiguous_position store code hashes startHeight,
    fun T cfg blocks h => contiguous_getTxid h
      (rowsOf_historyIterScanGroupReverse h.inRange hashes startHeight)⟩
  · rw [List.flatMap_def]
    refine (mergeFrom_perm (Nat.le_refl _)).trans ?_
    rw [<- List.flatMap_def, <- List.flatMap_def]
    exact List.Perm.flatMap_left hashes fun hash _ =>
      scanned_perm store code startHeight hash
  · have hdescending := historyIterScanGroupReverse_descending store code hashes startHeight
    have hbytes : ((historyIterScanGroupReverse store code hashes startHeight).map
        TxHistoryKey.bytes).Pairwise fun key key' =>
          compare (key'.drop 33) (key.drop 33) ≠ .gt :=
      List.pairwise_map.mpr hdescending
    rw [<- hkeys, List.pairwise_map] at hbytes
    exact hbytes

end ChainQuery

namespace Sample

theorem group_rows_after_reorg :
    exists store, Exact tree config store [genesis, blockB] ∧ Contiguous TxHistoryKey.getTxid
        (ChainQuery.historyIterScanGroupReverse store .script [1, 3, 1] none) := by
  rcases exists_inv_session with ⟨store, hinv⟩
  exact ⟨store, hinv.exact,
    (ChainQuery.group_rows_exact store .script [1, 3, 1] none).right.right tree config
      [genesis, blockB] hinv.exact⟩

end Sample

end NewIndex
end Splora
