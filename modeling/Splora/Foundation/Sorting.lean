import Mathlib

/-!
# Sorting with a comparison

A sort that keeps the order of items that compare as equal.  Without such items the result
does not depend on the order before the sort.
-/

namespace Splora
namespace Foundation

variable {α : Type} {cmp : α -> α -> Ordering} [Std.TransCmp cmp] {l l' : List α}

def sortBy (cmp : α -> α -> Ordering) (l : List α) : List α :=
  l.mergeSort fun a b => (cmp a b).isLE

theorem isLE_total (a b : α) : ((cmp a b).isLE || (cmp b a).isLE) = true := by
  rw [@Std.OrientedCmp.eq_swap α cmp _ b a]
  cases cmp a b <;> rfl

theorem sortBy_pairwise (l : List α) :
    (sortBy cmp l).Pairwise fun a b => (cmp a b).isLE = true :=
  List.pairwise_mergeSort (fun _ _ _ => Std.TransCmp.isLE_trans) isLE_total l

theorem sortBy_eq_of_perm (hties : forall a b, a ∈ l -> b ∈ l -> cmp a b = .eq -> a = b)
    (hperm : l.Perm l') : sortBy cmp l = sortBy cmp l' := by
  have hsort := List.mergeSort_perm l fun a b => (cmp a b).isLE
  have hsort' := List.mergeSort_perm l' fun a b => (cmp a b).isLE
  have hsame : (sortBy cmp l).Perm (sortBy cmp l') := hsort.trans (hperm.trans hsort'.symm)
  refine hsame.eq_of_pairwise ?_ (sortBy_pairwise l) (sortBy_pairwise l')
  intro a b ha hb hab hba
  refine hties a b (hsort.mem_iff.mp ha) (hperm.mem_iff.mpr (hsort'.mem_iff.mp hb)) ?_
  exact Std.OrientedCmp.isLE_antisymm hab hba

theorem not_pair_sublist {a b : α} (hnodup : l.Nodup) (hab : [a, b].Sublist l) :
    ¬ [b, a].Sublist l := by
  induction l with
  | nil => cases hab
  | cons x l ih =>
    intro hba
    rcases List.nodup_cons.mp hnodup with ⟨hx, hnodup⟩
    cases hab with
    | cons _ hab =>
      cases hba with
      | cons _ hba => exact ih hnodup hab hba
      | cons_cons _ _ => exact hx (hab.subset (by simp))
    | cons_cons _ hb =>
      cases hba with
      | cons _ hba => exact hx (hba.subset (by simp))
      | cons_cons _ _ => exact hx (hb.subset (by simp))

theorem sortBy_swap_ne {a b : α} {rest : List α} (hnodup : (a :: b :: rest).Nodup)
    (htie : cmp a b = .eq) : sortBy cmp (a :: b :: rest) ≠ sortBy cmp (b :: a :: rest) := by
  intro heq
  have hpair (a b : α) (htie : cmp a b = .eq) :
      [a, b].Sublist (sortBy cmp (a :: b :: rest)) := by
    refine List.pair_sublist_mergeSort (fun _ _ _ => Std.TransCmp.isLE_trans) isLE_total ?_
      (List.Sublist.cons_cons a (List.Sublist.cons_cons b (List.nil_sublist rest)))
    rw [htie]
    rfl
  have hsorted : (sortBy cmp (a :: b :: rest)).Nodup :=
    (List.mergeSort_perm _ _).nodup_iff.mpr hnodup
  refine not_pair_sublist hsorted (hpair a b htie) ?_
  rw [heq]
  exact hpair b a (Std.OrientedCmp.eq_symm htie)

theorem flatMap_pages (limit : Nat) (l : List α) (n : Nat) :
    ((List.range n).flatMap fun page => (l.drop (page * limit)).take limit) =
      l.take (n * limit) := by
  induction n with
  | zero => simp
  | succ n ih =>
    rw [List.range_succ, List.flatMap_append, ih, List.flatMap_singleton, Nat.succ_mul,
      List.take_add]

end Foundation
end Splora
