import Splora.Foundation.Table

/-!
# Buckets

A map from keys to lists is described by the pushes that were not dropped since: a key has its
pushes in order, and a key without any is absent.
-/

namespace Splora
namespace Foundation

def unlessEmpty (l : List E) : Option (List E) :=
  if l.isEmpty then none else some l

@[simp] theorem unlessEmpty_nil : unlessEmpty ([] : List E) = none := rfl

theorem unlessEmpty_of_ne_nil {l : List E} (h : l ≠ []) : unlessEmpty l = some l := by
  simp [unlessEmpty, h]

@[simp] theorem unlessEmpty_getD (l : List E) : (unlessEmpty l).getD [] = l := by
  cases l with
  | nil => rfl
  | cons e rest => rfl

variable {K E : Type} {cmp : K -> K -> Ordering} [Std.TransCmp cmp]

/-- `entry(key).or_default().push(entry)` -/
def push (t : Table K (List E) cmp) (row : K × E) : Table K (List E) cmp :=
  t.insert row.1 (t[row.1]?.getD [] ++ [row.2])

def retain (keep : E -> Bool) (t : Table K (List E) cmp) :
    Table K (List E) cmp :=
  t.filterMap fun _ entries => unlessEmpty (entries.filter keep)

theorem getElem?_retain (keep : E -> Bool) (t : Table K (List E) cmp) (k : K) :
    (retain keep t)[k]? = t[k]?.bind fun entries => unlessEmpty (entries.filter keep) := by
  rw [retain, Std.ExtTreeMap.getElem?_filterMap, Option.pbind_eq_bind]

def bucket [DecidableEq K] (rows : List (K × E)) (k : K) : List E :=
  (rows.filter fun row => row.1 = k).map Prod.snd

theorem filter_eq_singleton {α β : Type} [DecidableEq β] {g : α -> β}
    {l : List α} {a : α} (hnodup : (l.map g).Nodup) (ha : a ∈ l) :
    (l.filter fun b => g b = g a) = [a] := by
  induction l with
  | nil => cases ha
  | cons b rest ih =>
    rcases List.nodup_cons.mp hnodup with ⟨hnot, hrest⟩
    rcases List.mem_cons.mp ha with heq | ha
    · have hnone : (rest.filter fun c => g c = g a) = [] := by
        rw [List.filter_eq_nil_iff]
        intro c hc hsame
        rw [← heq, ← of_decide_eq_true hsame] at hnot
        exact hnot (List.mem_map_of_mem hc)
      rw [heq] at hnone ⊢
      rw [List.filter_cons_of_pos (by simp), hnone]
    · have hne : ¬ g b = g a := by
        intro hsame
        rw [hsame] at hnot
        exact hnot (List.mem_map_of_mem ha)
      rw [List.filter_cons_of_neg (by simpa using hne), ih hrest ha]

section Bucket

variable [DecidableEq K]

@[simp] theorem bucket_nil (k : K) : bucket ([] : List (K × E)) k = [] := rfl

@[simp] theorem bucket_append (rows rows' : List (K × E)) (k : K) :
    bucket (rows ++ rows') k = bucket rows k ++ bucket rows' k := by
  simp [bucket]

theorem mem_bucket {rows : List (K × E)} {k : K} {e : E} : e ∈ bucket rows k <-> (k, e) ∈ rows := by
  simp [bucket]

theorem bucket_filter (keep : E -> Bool) (rows : List (K × E)) (k : K) :
    bucket (rows.filter fun row => keep row.2) k = (bucket rows k).filter keep := by
  simp only [bucket, List.filter_map, List.filter_filter]
  congr 1
  apply List.filter_congr
  intro row _
  rw [Bool.and_comm]
  rfl

variable [Std.LawfulEqCmp cmp]

theorem push_getD (t : Table K (List E) cmp) (row : K × E) (k : K) :
    (push t row)[k]?.getD [] = t[k]?.getD [] ++ bucket [row] k := by
  by_cases hk : row.1 = k
  · have hrow : bucket [row] k = [row.2] := by
      simp [bucket, hk]
    rw [push, hk, getElem?_insert_self, hrow]
    rfl
  · have hrow : bucket [row] k = [] := by
      simp [bucket, hk]
    rw [push, getElem?_insert_of_ne _ _ hk, hrow, List.append_nil]

omit [DecidableEq K] in
theorem getElem?_push_of_ne (t : Table K (List E) cmp) {row : K × E} {k : K}
    (hk : row.1 ≠ k) : (push t row)[k]? = t[k]? :=
  getElem?_insert_of_ne _ _ hk

theorem foldl_push_getD (t : Table K (List E) cmp) (rows : List (K × E)) (k : K) :
    (rows.foldl push t)[k]?.getD [] = t[k]?.getD [] ++ bucket rows k := by
  induction rows generalizing t with
  | nil => simp
  | cons row rest ih =>
    rw [List.foldl_cons, ih, push_getD, List.append_assoc, ← bucket_append]
    rfl

def NoEmptyList (t : Table K (List E) cmp) : Prop :=
  forall k : K, t[k]? = unlessEmpty (t[k]?.getD [])

variable {t : Table K (List E) cmp}

omit [DecidableEq K] in
theorem NoEmptyList.push (h : NoEmptyList t) (row : K × E) : NoEmptyList (push t row) := by
  intro k
  by_cases hk : row.1 = k
  · rw [Foundation.push, hk, getElem?_insert_self]
    exact (unlessEmpty_of_ne_nil (by simp)).symm
  · rw [getElem?_push_of_ne t hk]
    exact h k

omit [DecidableEq K] in
theorem NoEmptyList.foldl_push (h : NoEmptyList t) (rows : List (K × E)) :
    NoEmptyList (rows.foldl Foundation.push t) := by
  induction rows generalizing t with
  | nil => exact h
  | cons row rest ih => exact ih (h.push row)

theorem retain_foldl_push {rows : List (K × E)} {keep : E -> Bool} (hne : NoEmptyList t)
    (hold : forall k : K, forall e, e ∈ t[k]?.getD [] -> keep e = true)
    (hnew : forall row, row ∈ rows -> keep row.2 = false) :
    retain keep (rows.foldl push t) = t := by
  apply Std.ExtTreeMap.ext_getElem?
  intro k
  have hdropped : (bucket rows k).filter keep = [] := by
    rw [List.filter_eq_nil_iff]
    intro e he
    rw [hnew _ (mem_bucket.mp he)]
    exact Bool.false_ne_true
  have hkept : (t[k]?.getD []).filter keep = t[k]?.getD [] :=
    List.filter_eq_self.mpr (hold k)
  have hget := foldl_push_getD t rows k
  rw [getElem?_retain, hne.foldl_push rows k, hget]
  cases hall : t[k]?.getD [] ++ bucket rows k with
  | nil =>
    have hnil := (List.append_eq_nil_iff.mp hall).left
    rw [hne k, hnil]
    rfl
  | cons e rest =>
    rw [← hall, unlessEmpty_of_ne_nil (by simp [hall]), Option.bind_some,
      List.filter_append, hdropped, List.append_nil, hkept, ← hne k]

end Bucket

def HoldsBuckets [DecidableEq K] (t : Table K (List E) cmp) (rows : List (K × E)) : Prop :=
  forall k, t[k]? = unlessEmpty (bucket rows k)

namespace HoldsBuckets

variable [DecidableEq K] {t t' : Table K (List E) cmp}
  {rows rows' : List (K × E)}

theorem empty : HoldsBuckets (∅ : Table K (List E) cmp) [] := by
  intro k
  simp

theorem getD_eq (h : HoldsBuckets t rows) (k : K) : t[k]?.getD [] = bucket rows k := by
  rw [h k, unlessEmpty_getD]

theorem mem_iff (h : HoldsBuckets t rows) {k : K} {e : E} :
    e ∈ t[k]?.getD [] <-> (k, e) ∈ rows := by
  rw [h.getD_eq, mem_bucket]

theorem noEmptyList (h : HoldsBuckets t rows) : NoEmptyList t := by
  intro k
  rw [h.getD_eq]
  exact h k

theorem retain (h : HoldsBuckets t rows) (keep : E -> Bool) :
    HoldsBuckets (retain keep t) (rows.filter fun row => keep row.2) := by
  intro k
  rw [bucket_filter, getElem?_retain, h k]
  cases hb : bucket rows k with
  | nil => rfl
  | cons e rest => rfl

theorem foldl_push [Std.LawfulEqCmp cmp] (h : HoldsBuckets t rows) (new : List (K × E)) :
    HoldsBuckets (new.foldl Foundation.push t) (rows ++ new) := by
  intro k
  rw [h.noEmptyList.foldl_push new k, foldl_push_getD, h.getD_eq, bucket_append]

end HoldsBuckets

end Foundation
end Splora
