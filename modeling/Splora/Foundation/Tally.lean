import Mathlib.Data.List.Basic

/-!
# Counting the holders of a key

Each of some parties holds one slot of a key, or none.  A table of counters tells for
each key how many hold a slot of it, and has no entry for a key that nobody holds.
-/

namespace Splora
namespace Foundation

variable {K : Type} [DecidableEq K]

def tally (slots : List (Option K)) (key : K) : Option Nat :=
  if slots.count (some key) = 0 then none else some (slots.count (some key))

section Tally

variable {slots : List (Option K)} {i : Nat} {key key' : K}

theorem getD_tally : (tally slots key).getD 0 = slots.count (some key) := by
  unfold tally
  split
  · rename_i hzero
    exact hzero.symm
  · rfl

theorem tally_ne_zero : tally slots key ≠ some 0 := by
  unfold tally
  split
  · intro heq
    cases heq
  · rename_i hne
    intro heq
    exact hne (Option.some.inj heq)

theorem tally_congr {slots' : List (Option K)}
    (h : slots'.count (some key) = slots.count (some key)) :
    tally slots' key = tally slots key := by
  rw [tally, tally, h]

theorem tally_concat_none : tally (slots ++ [none]) = tally slots := by
  funext key
  refine tally_congr ?_
  rw [List.count_append, List.count_singleton]
  rfl

theorem set_of_getElem? {α : Type} {items : List α} {item : α}
    (h : items[i]? = some item) : items.set i item = items := by
  rcases List.getElem?_eq_some_iff.mp h with ⟨hi, hget⟩
  rw [<- hget, List.set_getElem_self]

theorem count_set {slot : Option K} (h : slots[i]? = some slot) (slot' : Option K) (key : K) :
    (slots.set i slot').count (some key) + (if slot = some key then 1 else 0) =
      slots.count (some key) + if slot' = some key then 1 else 0 := by
  rcases List.getElem?_eq_some_iff.mp h with ⟨hi, hget⟩
  rw [List.count_set hi, hget]
  by_cases hslot : slot = some key
  · have hmem : some key ∈ slots := by
      rw [<- hslot, <- hget]
      exact List.getElem_mem hi
    have hpos := List.count_pos_iff.mpr hmem
    simp only [hslot, beq_self_eq_true, if_true, beq_iff_eq]
    omega
  · simp only [hslot, beq_iff_eq, if_false]
    omega

theorem tally_set_of_ne {slot slot' : Option K} (h : slots[i]? = some slot)
    (hne : slot ≠ some key) (hne' : slot' ≠ some key) :
    tally (slots.set i slot') key = tally slots key := by
  refine tally_congr ?_
  have hcount := count_set h slot' key
  rw [if_neg hne, if_neg hne'] at hcount
  exact hcount

theorem count_acquire (h : slots[i]? = some none) :
    (slots.set i (some key)).count (some key) = slots.count (some key) + 1 := by
  have hcount := count_set h (some key) key
  rw [if_pos rfl, if_neg (Option.some_ne_none key).symm] at hcount
  exact hcount

theorem count_release (h : slots[i]? = some (some key)) :
    (slots.set i none).count (some key) = slots.count (some key) - 1 := by
  have hcount := count_set h none key
  rw [if_pos rfl, if_neg (Option.some_ne_none key).symm] at hcount
  exact Nat.eq_sub_of_add_eq hcount

theorem tally_acquire (h : slots[i]? = some none) :
    tally (slots.set i (some key)) =
      Function.update (tally slots) key (some (slots.count (some key) + 1)) := by
  funext key'
  by_cases heq : key' = key
  · rw [heq, Function.update_self, tally, count_acquire h, if_neg (Nat.succ_ne_zero _)]
  · rw [Function.update_of_ne heq]
    exact tally_set_of_ne h (Option.some_ne_none key').symm fun h => heq (Option.some.inj h).symm

theorem tally_release (h : slots[i]? = some (some key)) :
    tally (slots.set i none) = Function.update (tally slots) key
        (if slots.count (some key) - 1 = 0 then none
          else some (slots.count (some key) - 1)) := by
  funext key'
  by_cases heq : key' = key
  · rw [heq, Function.update_self, tally, count_release h]
  · rw [Function.update_of_ne heq]
    exact tally_set_of_ne h (fun h => heq (Option.some.inj h).symm) (Option.some_ne_none key').symm

end Tally

end Foundation
end Splora
