import Splora.Foundation.Paging

/-!
# Lists with contiguous keys

If the items with one key come one after another, a list is the concatenation of its
groups, in the order of their first items.  Skipping to a cursor and past it then skips
whole groups.
-/

namespace Splora
namespace Foundation

section Contiguous

variable {α K : Type} {key : α -> K} {items : List α}

def Contiguous (key : α -> K) (items : List α) : Prop :=
  forall (i j k : Nat) (a b c : α), i < j -> j < k -> items[i]? = some a ->
    items[j]? = some b -> items[k]? = some c -> key a = key c -> key b = key a

theorem Contiguous.of_between {R : α -> α -> Prop} (hitems : items.Pairwise R)
    (hbetween : forall a b c, a ∈ items -> b ∈ items -> c ∈ items -> R a b -> R b c ->
      key a = key c -> key b = key a) : Contiguous key items := by
  intro i j k a b c hij hjk ha hb hc hkey
  have hR : forall {i j : Nat} {a b : α}, i < j -> items[i]? = some a ->
      items[j]? = some b -> R a b := by
    intro i j a b hij ha hb
    rcases List.getElem?_eq_some_iff.mp ha with ⟨hi, rfl⟩
    rcases List.getElem?_eq_some_iff.mp hb with ⟨hj, rfl⟩
    exact List.pairwise_iff_getElem.mp hitems i j hi hj hij
  exact hbetween a b c (List.mem_of_getElem? ha) (List.mem_of_getElem? hb)
    (List.mem_of_getElem? hc) (hR hij ha hb) (hR hjk hb hc) hkey

theorem Contiguous.pairwise {first : α} (h : Contiguous key (first :: items)) :
    (first :: items).Pairwise fun a b => key b = key first -> key a = key first := by
  refine List.pairwise_iff_getElem.mpr ?_
  intro i j hi hj hij hkey
  cases i with
  | zero => rfl
  | succ i =>
    exact h 0 (i + 1) j first _ _ (by omega) hij rfl (List.getElem?_eq_getElem hi)
      (List.getElem?_eq_getElem hj) hkey.symm

end Contiguous

section Groups

variable {α K : Type} [DecidableEq K] {key : α -> K} {items : List α}

def group (key : α -> K) (items : List α) (k : K) : List α :=
  items.filter fun item => key item = k

theorem mem_group {k : K} {item : α} :
    item ∈ group key items k <-> item ∈ items ∧ key item = k := by
  rw [group, List.mem_filter, decide_eq_true_eq]

theorem Contiguous.split {first : α} (h : Contiguous key (first :: items)) :
    first :: items = group key (first :: items) (key first) ++
      items.filter fun item => key item ≠ key first := by
  have hpairwise : (first :: items).Pairwise fun a b =>
      decide (key b = key first) = true -> decide (key a = key first) = true := by
    refine h.pairwise.imp ?_
    intro a b hab hb
    exact decide_eq_true (hab (of_decide_eq_true hb))
  have htake := takeWhile_eq_filter_of_pairwise hpairwise
  have hdrop := dropWhile_eq_filter_of_pairwise hpairwise
  have hsplit := List.takeWhile_append_dropWhile
    (p := fun item => decide (key item = key first)) (l := first :: items)
  rw [htake, hdrop] at hsplit
  rw [group]
  refine hsplit.symm.trans (congrArg _ ?_)
  rw [List.filter_cons_of_neg (by simp)]
  simp

theorem Contiguous.filter_ne {first : α} (h : Contiguous key (first :: items)) :
    Contiguous key (items.filter fun item => key item ≠ key first) := by
  have hsplit := h.split
  intro i j k a b c hij hjk ha hb hc hkey
  have hget : forall {i : Nat} {a : α},
      (items.filter fun item => key item ≠ key first)[i]? = some a ->
      (first :: items)[(group key (first :: items) (key first)).length + i]? = some a := by
    intro i a ha
    refine (congrArg (fun list : List α => list[_]?) hsplit).trans ?_
    rw [List.getElem?_append_right (Nat.le_add_right _ _), Nat.add_sub_cancel_left]
    exact ha
  exact h _ _ _ a b c (Nat.add_lt_add_left hij _) (Nat.add_lt_add_left hjk _) (hget ha)
    (hget hb) (hget hc) hkey

theorem Contiguous.eq_flatMap (h : Contiguous key items) :
    items = (uniqueBy key items).flatMap fun item => group key items (key item) := by
  induction items using uniqueBy_induction key with
  | hnil => rfl
  | hcons first items ih =>
    rw [uniqueBy_cons, List.flatMap_cons]
    refine h.split.trans (congrArg _ ((ih h.filter_ne).trans ?_))
    refine List.flatMap_congr fun item hitem => ?_
    have hmem := (uniqueBy_sublist _ _).subset hitem
    have hne : key item ≠ key first := of_decide_eq_true (List.mem_filter.mp hmem).right
    rw [group, group, List.filter_filter, List.filter_cons_of_neg]
    · refine List.filter_congr fun item' _ => ?_
      by_cases heq : key item' = key item
      · simp [heq, hne]
      · simp [heq]
    · simpa using fun heq : key first = key item => hne heq.symm

theorem skip_groups {f : α -> List α} {firsts : List α} {last : K} (hnodup : (firsts.map key).Nodup)
    (hne : forall a, a ∈ firsts -> f a ≠ [])
    (hkey : forall a, a ∈ firsts -> forall item, item ∈ f a -> key item = key a) :
    ((firsts.flatMap f).dropWhile fun item => last ≠ key item).dropWhile
        (fun item => last = key item) =
      (after key (some last) firsts).flatMap f := by
  induction firsts with
  | nil => rfl
  | cons first firsts ih =>
    rw [List.map_cons, List.nodup_cons] at hnodup
    have hrest := ih hnodup.right (fun a ha => hne a (List.mem_cons_of_mem _ ha))
      (fun a ha => hkey a (List.mem_cons_of_mem _ ha))
    have hfirst := hkey first List.mem_cons_self
    rw [List.flatMap_cons]
    by_cases heq : last = key first
    · subst heq
      rw [after_some_cons]
      have hstop : (f first ++ firsts.flatMap f).dropWhile
          (fun item => key first ≠ key item) = f first ++ firsts.flatMap f := by
        rcases List.exists_cons_of_ne_nil (hne first List.mem_cons_self) with ⟨item, rest, hitems⟩
        rw [hitems, List.cons_append, List.dropWhile_cons_of_neg]
        rw [hfirst item (hitems ▸ List.mem_cons_self)]
        simp
      have hpast : (firsts.flatMap f).dropWhile (fun item => key first = key item) =
          firsts.flatMap f := by
        cases hitems : firsts.flatMap f with
        | nil => rfl
        | cons item rest =>
          have hmem : item ∈ firsts.flatMap f := hitems ▸ List.mem_cons_self
          rcases List.mem_flatMap.mp hmem with ⟨a, ha, hitem⟩
          rw [List.dropWhile_cons_of_neg]
          rw [hkey a (List.mem_cons_of_mem _ ha) item hitem, decide_eq_true_eq]
          intro hsame
          exact hnodup.left (hsame ▸ List.mem_map_of_mem ha)
      rw [hstop, List.dropWhile_append_of_pos, hpast]
      intro item hitem
      rw [hfirst item hitem]
      simp
    · rw [after_some_cons_of_ne heq, List.dropWhile_append_of_pos, hrest]
      intro item hitem
      rw [hfirst item hitem]
      simpa using heq

end Groups

end Foundation
end Splora
