import Splora.Foundation.Table

/-!
# Merging descending iterators

Iterators that yield rows downwards, as lists, are merged by taking the largest next row.
-/

namespace Splora
namespace Foundation

section Merge

variable {α : Type} (cmp : α -> α -> Ordering)

def compareNext (a b : Nat × Option α) : Ordering :=
  match a.2, b.2 with
  | none, none => compare a.1 b.1
  | some _, none => .gt
  | none, some _ => .lt
  | some row, some row' => cmp row row'

def keepMax (a b : Nat × Option α) : Nat × Option α :=
  if compareNext cmp a b = .gt then a else b

def nextRows (iters : List (List α)) : List (Nat × Option α) :=
  iters.zipIdx.map fun iter => (iter.2, iter.1.head?)

def bestIndex (iters : List (List α)) : Nat :=
  match nextRows iters with
  | [] => 0
  | first :: rest => (rest.foldl (keepMax cmp) first).1

def mergeNext (iters : List (List α)) : Option (α × List (List α)) :=
  match iters[bestIndex cmp iters]? with
  | some (row :: rest) => some (row, iters.set (bestIndex cmp iters) rest)
  | _ => none

def mergeFrom : Nat -> List (List α) -> List α
  | 0, _ => []
  | fuel + 1, iters =>
    match mergeNext cmp iters with
    | none => []
    | some (row, iters) => row :: mergeFrom fuel iters

def mergeRows (iters : List (List α)) : List α :=
  mergeFrom cmp iters.flatten.length iters

end Merge

/-!
## The largest next row
-/

theorem foldl_upper {α : Type} {R : α -> α -> Prop} {f : α -> α -> α}
    (hrefl : forall a, R a a) (htrans : forall a b c, R a b -> R b c -> R a c)
    (hleft : forall a b, R a (f a b)) (hright : forall a b, R b (f a b))
    (rest : List α) (first : α) :
    R first (rest.foldl f first) ∧ forall a, a ∈ rest -> R a (rest.foldl f first) := by
  induction rest generalizing first with
  | nil => exact ⟨hrefl first, nofun⟩
  | cons next rest ih =>
    rcases ih (f first next) with ⟨hfirst, hrest⟩
    refine ⟨htrans _ _ _ (hleft first next) hfirst, ?_⟩
    intro a ha
    cases ha with
    | head => exact htrans _ _ _ (hright first next) hfirst
    | tail _ ha => exact hrest a ha

theorem foldl_mem {α : Type} {f : α -> α -> α}
    (hf : forall a b, f a b = a ∨ f a b = b) (rest : List α) (first : α) :
    rest.foldl f first ∈ first :: rest := by
  induction rest generalizing first with
  | nil => exact List.mem_cons_self
  | cons next rest ih =>
    have hmem := ih (f first next)
    rw [List.foldl_cons]
    rcases List.mem_cons.mp hmem with heq | hmem
    · rw [heq]
      rcases hf first next with hkeep | hkeep
      · rw [hkeep]
        exact List.mem_cons_self
      · rw [hkeep]
        exact List.mem_cons_of_mem _ List.mem_cons_self
    · exact List.mem_cons_of_mem _ (List.mem_cons_of_mem _ hmem)

section Largest

variable {α : Type} {cmp : α -> α -> Ordering}

def NextLe (cmp : α -> α -> Ordering) (a b : Nat × Option α) : Prop :=
  forall row, a.2 = some row -> exists row', b.2 = some row' ∧ cmp row row' ≠ .gt

theorem NextLe.trans [Std.TransCmp cmp] {a b c : Nat × Option α}
    (h : NextLe cmp a b) (h' : NextLe cmp b c) : NextLe cmp a c := by
  intro row hrow
  rcases h row hrow with ⟨row', hrow', hle⟩
  rcases h' row' hrow' with ⟨row'', hrow'', hle'⟩
  refine ⟨row'', hrow'', ?_⟩
  have hisLE := Std.TransCmp.isLE_trans (Ordering.isLE_iff_ne_gt.mpr hle)
    (Ordering.isLE_iff_ne_gt.mpr hle')
  exact Ordering.isLE_iff_ne_gt.mp hisLE

theorem nextLe_refl [Std.ReflCmp cmp] (a : Nat × Option α) : NextLe cmp a a := by
  intro row hrow
  have hself : cmp row row = .eq := Std.ReflCmp.compare_self
  refine ⟨row, hrow, ?_⟩
  rw [hself]
  decide

theorem keepMax_cases (a b : Nat × Option α) : keepMax cmp a b = a ∨ keepMax cmp a b = b := by
  unfold keepMax
  split
  · exact Or.inl rfl
  · exact Or.inr rfl

theorem nextLe_keepMax_left [Std.ReflCmp cmp] (a b : Nat × Option α) :
    NextLe cmp a (keepMax cmp a b) := by
  unfold keepMax
  split
  case isTrue => exact nextLe_refl a
  case isFalse hle =>
    rcases a with ⟨i, next⟩
    rcases b with ⟨j, next'⟩
    intro row hrow
    cases hrow
    cases next' with
    | none => exact absurd rfl hle
    | some row' => exact ⟨row', rfl, hle⟩

theorem nextLe_keepMax_right [Std.TransCmp cmp] (a b : Nat × Option α) :
    NextLe cmp b (keepMax cmp a b) := by
  unfold keepMax
  split
  case isTrue hgt =>
    rcases a with ⟨i, next⟩
    rcases b with ⟨j, next'⟩
    intro row' hrow'
    cases hrow'
    cases next with
    | none => cases hgt
    | some row =>
      have hlt : cmp row' row = .lt := Std.OrientedCmp.gt_iff_lt.mp hgt
      refine ⟨row, rfl, ?_⟩
      rw [hlt]
      decide
  case isFalse => exact nextLe_refl b

variable {iters : List (List α)}

theorem mem_nextRows {next : Nat × Option α} :
    next ∈ nextRows iters <-> exists iter, iters[next.1]? = some iter ∧ next.2 = iter.head? := by
  rw [nextRows, List.mem_map]
  constructor
  · intro h
    rcases h with ⟨entry, hentry, heq⟩
    rcases entry with ⟨iter, i⟩
    rw [<- heq]
    exact ⟨iter, List.mk_mem_zipIdx_iff_getElem?.mp hentry, rfl⟩
  · intro h
    rcases h with ⟨iter, hiter, hhead⟩
    refine ⟨(iter, next.1), List.mk_mem_zipIdx_iff_getElem?.mpr hiter, ?_⟩
    rw [<- hhead]

theorem bestIndex_spec (cmp : α -> α -> Ordering) [Std.TransCmp cmp] (hne : iters ≠ []) :
    exists iter, iters[bestIndex cmp iters]? = some iter ∧
      forall iter', iter' ∈ iters -> forall row', iter'.head? = some row' ->
        exists row, iter.head? = some row ∧ cmp row' row ≠ .gt := by
  unfold bestIndex
  cases hnext : nextRows iters with
  | nil =>
    have hlength := congrArg List.length hnext
    rw [nextRows, List.length_map, List.length_zipIdx] at hlength
    exact absurd (List.length_eq_zero_iff.mp hlength) hne
  | cons first rest =>
    have hbest : rest.foldl (keepMax cmp) first ∈ nextRows iters := by
      rw [hnext]
      exact foldl_mem keepMax_cases rest first
    rcases mem_nextRows.mp hbest with ⟨iter, hiter, hhead⟩
    refine ⟨iter, hiter, ?_⟩
    intro iter' hmem row' hrow'
    rcases List.getElem?_of_mem hmem with ⟨i, hi⟩
    have hentry : (i, iter'.head?) ∈ first :: rest := by
      rw [<- hnext]
      exact mem_nextRows.mpr ⟨iter', hi, rfl⟩
    rcases foldl_upper (R := NextLe cmp) nextLe_refl
      (fun _ _ _ h h' => h.trans h') nextLe_keepMax_left nextLe_keepMax_right
      rest first with ⟨hfirst, hrest⟩
    rw [<- hhead]
    rcases List.mem_cons.mp hentry with heq | hentry
    · exact hfirst row' (heq ▸ hrow')
    · exact hrest _ hentry row' hrow'

/-!
## A step of the merge
-/

theorem mergeNext_eq_none [Std.TransCmp cmp] (h : mergeNext cmp iters = none) :
    iters.flatten = [] := by
  rw [List.flatten_eq_nil_iff]
  intro iter' hmem
  rcases bestIndex_spec cmp (List.ne_nil_of_mem hmem) with ⟨iter, hiter, hbest⟩
  cases iter with
  | nil =>
    cases iter' with
    | nil => rfl
    | cons row' rest =>
      rcases hbest _ hmem row' rfl with ⟨row, hrow, _⟩
      cases hrow
  | cons row rest =>
    rw [mergeNext, hiter] at h
    cases h

theorem mergeNext_eq_some [Std.TransCmp cmp] {iters' : List (List α)} {row : α}
    (h : mergeNext cmp iters = some (row, iters')) :
    exists i rest, iters[i]? = some (row :: rest) ∧ iters' = iters.set i rest ∧
      forall iter', iter' ∈ iters -> forall row', iter'.head? = some row' ->
        cmp row' row ≠ .gt := by
  have hne : iters ≠ [] := by
    intro hnil
    rw [hnil] at h
    cases h
  rcases bestIndex_spec cmp hne with ⟨iter, hiter, hbest⟩
  rw [mergeNext, hiter] at h
  cases iter with
  | nil => cases h
  | cons row rest =>
    cases h
    refine ⟨bestIndex cmp iters, rest, hiter, rfl, ?_⟩
    intro iter' hmem row' hrow'
    rcases hbest iter' hmem row' hrow' with ⟨_, hhead, hle⟩
    cases hhead
    exact hle

theorem flatten_perm_of_set {i : Nat} {row : α} {rest : List α}
    (h : iters[i]? = some (row :: rest)) :
    iters.flatten.Perm (row :: (iters.set i rest).flatten) := by
  induction iters generalizing i with
  | nil => cases h
  | cons iter iters ih =>
    cases i with
    | zero =>
      cases h
      exact List.Perm.refl _
    | succ i =>
      have hrest := (ih h).append_left iter
      rw [List.set_cons_succ, List.flatten_cons, List.flatten_cons]
      exact hrest.trans List.perm_middle

/-!
## The merged rows
-/

def Descending (cmp : α -> α -> Ordering) (rows : List α) : Prop :=
  rows.Pairwise fun row row' => cmp row' row ≠ .gt

theorem Descending.le_head [Std.TransCmp cmp] {rows : List α} {first row : α}
    (h : Descending cmp rows) (hfirst : rows.head? = some first)
    (hrow : row ∈ rows) : cmp row first ≠ .gt := by
  cases rows with
  | nil => cases hfirst
  | cons next rest =>
    cases hfirst
    cases hrow with
    | head =>
      have hself : cmp first first = .eq := Std.ReflCmp.compare_self
      rw [hself]
      decide
    | tail _ hrow => exact (List.pairwise_cons.mp h).left row hrow

theorem mergeFrom_perm [Std.TransCmp cmp] {fuel : Nat} (hfuel : iters.flatten.length ≤ fuel) :
    (mergeFrom cmp fuel iters).Perm iters.flatten := by
  induction fuel generalizing iters with
  | zero =>
    rw [List.length_eq_zero_iff.mp (Nat.le_zero.mp hfuel)]
    exact List.Perm.refl _
  | succ fuel ih =>
    rw [mergeFrom]
    cases hnext : mergeNext cmp iters with
    | none =>
      rw [mergeNext_eq_none hnext]
    | some step =>
      rcases step with ⟨row, iters'⟩
      rcases mergeNext_eq_some hnext with ⟨i, rest, hi, hset, _⟩
      have hperm := flatten_perm_of_set hi
      have hlength := hperm.length_eq
      rw [List.length_cons] at hlength
      rw [hset]
      exact ((ih (by omega)).cons row).trans hperm.symm

theorem mergeFrom_descending [Std.TransCmp cmp] {fuel : Nat} (hfuel : iters.flatten.length ≤ fuel)
    (hiters : forall iter, iter ∈ iters -> Descending cmp iter) :
    Descending cmp (mergeFrom cmp fuel iters) := by
  induction fuel generalizing iters with
  | zero => exact List.Pairwise.nil
  | succ fuel ih =>
    rw [mergeFrom]
    cases hnext : mergeNext cmp iters with
    | none => exact List.Pairwise.nil
    | some step =>
      rcases step with ⟨row, iters'⟩
      rcases mergeNext_eq_some hnext with ⟨i, rest, hi, hset, hbest⟩
      have hperm := flatten_perm_of_set hi
      have hlength := hperm.length_eq
      rw [List.length_cons] at hlength
      have hrest : Descending cmp rest :=
        (List.pairwise_cons.mp (hiters _ (List.mem_of_getElem? hi))).right
      have hfuel' : iters'.flatten.length ≤ fuel := by
        rw [hset]
        omega
      refine List.pairwise_cons.mpr ⟨?_, ih hfuel' ?_⟩
      · intro row' hrow'
        have hmem : row' ∈ iters.flatten := by
          refine hperm.mem_iff.mpr (List.mem_cons_of_mem _ ?_)
          rw [<- hset]
          exact (mergeFrom_perm hfuel').mem_iff.mp hrow'
        rcases List.mem_flatten.mp hmem with ⟨iter, hiter, hin⟩
        rcases List.exists_cons_of_ne_nil (List.ne_nil_of_mem hin) with ⟨first, tail, heq⟩
        have hhead : iter.head? = some first := by
          rw [heq]
          rfl
        have hle := (hiters iter hiter).le_head hhead hin
        have hle' := hbest iter hiter first hhead
        exact Ordering.isLE_iff_ne_gt.mp (Std.TransCmp.isLE_trans
          (Ordering.isLE_iff_ne_gt.mpr hle) (Ordering.isLE_iff_ne_gt.mpr hle'))
      · intro iter hiter
        rw [hset] at hiter
        rcases List.mem_or_eq_of_mem_set hiter with hold | heq
        · exact hiters iter hold
        · rw [heq]
          exact hrest

theorem mem_mergeRows [Std.TransCmp cmp] {row : α} :
    row ∈ mergeRows cmp iters <-> exists iter, iter ∈ iters ∧ row ∈ iter := by
  rw [mergeRows, (mergeFrom_perm (Nat.le_refl _)).mem_iff, List.mem_flatten]

theorem mergeRows_descending [Std.TransCmp cmp]
    (hiters : forall iter, iter ∈ iters -> Descending cmp iter) :
    Descending cmp (mergeRows cmp iters) :=
  mergeFrom_descending (Nat.le_refl _) hiters

theorem mergeRows_singleton (rows : List α) : mergeRows cmp [rows] = rows := by
  unfold mergeRows
  rw [List.flatten_singleton]
  induction rows with
  | nil => rfl
  | cons row rest ih =>
    show row :: mergeFrom cmp rest.length [rest] = row :: rest
    rw [ih]

end Largest

/-!
## Renamed rows
-/

section Rename

variable {α β : Type} {cmp : α -> α -> Ordering} {cmp' : β -> β -> Ordering} {f : α -> β}

def renameNext (f : α -> β) (next : Nat × Option α) : Nat × Option β :=
  (next.1, next.2.map f)

theorem keepMax_rename (hcmp : forall a b, cmp' (f a) (f b) = cmp a b) (a b : Nat × Option α) :
    keepMax cmp' (renameNext f a) (renameNext f b) = renameNext f (keepMax cmp a b) := by
  have hcompare : compareNext cmp' (renameNext f a) (renameNext f b) =
      compareNext cmp a b := by
    rcases a with ⟨i, next⟩
    rcases b with ⟨j, next'⟩
    cases next with
    | none =>
      cases next' with
      | none => rfl
      | some row' => rfl
    | some row =>
      cases next' with
      | none => rfl
      | some row' => exact hcmp row row'
  unfold keepMax
  rw [hcompare]
  split
  · rfl
  · rfl

theorem nextRows_map (f : α -> β) (iters : List (List α)) :
    nextRows (iters.map (List.map f)) = (nextRows iters).map (renameNext f) := by
  rw [nextRows, nextRows, List.zipIdx_map, List.map_map, List.map_map]
  refine List.map_congr_left fun iter _ => ?_
  exact Prod.ext rfl List.head?_map

section

variable (hcmp : forall a b, cmp' (f a) (f b) = cmp a b) (iters : List (List α))

include hcmp iters

theorem bestIndex_map : bestIndex cmp' (iters.map (List.map f)) = bestIndex cmp iters := by
  unfold bestIndex
  rw [nextRows_map]
  cases nextRows iters with
  | nil => rfl
  | cons first rest =>
    have hfold : forall first : Nat × Option α,
        (rest.map (renameNext f)).foldl (keepMax cmp') (renameNext f first) =
          renameNext f (rest.foldl (keepMax cmp) first) := by
      induction rest with
      | nil => exact fun _ => rfl
      | cons next rest ih =>
        intro first
        rw [List.map_cons, List.foldl_cons, keepMax_rename hcmp, ih]
        rfl
    exact congrArg Prod.fst (hfold first)

theorem mergeNext_map :
    mergeNext cmp' (iters.map (List.map f)) =
      (mergeNext cmp iters).map fun step => (f step.1, step.2.map (List.map f)) := by
  unfold mergeNext
  rw [bestIndex_map hcmp, List.getElem?_map]
  cases iters[bestIndex cmp iters]? with
  | none => rfl
  | some iter =>
    cases iter with
    | nil => rfl
    | cons row rest =>
      refine congrArg some (Prod.ext rfl ?_)
      exact List.map_set.symm

theorem mergeRows_map : mergeRows cmp' (iters.map (List.map f)) = (mergeRows cmp iters).map f := by
  have hfrom : forall (fuel : Nat) (iters : List (List α)),
      mergeFrom cmp' fuel (iters.map (List.map f)) = (mergeFrom cmp fuel iters).map f := by
    intro fuel
    induction fuel with
    | zero => exact fun _ => rfl
    | succ fuel ih =>
      intro iters
      rw [mergeFrom, mergeFrom, mergeNext_map hcmp]
      cases mergeNext cmp iters with
      | none => rfl
      | some step => exact congrArg (f step.1 :: ·) (ih step.2)
  rw [mergeRows, mergeRows, hfrom, <- List.map_flatten, List.length_map]

end

end Rename

end Foundation
end Splora
