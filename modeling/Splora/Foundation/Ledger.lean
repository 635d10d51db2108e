import Splora.Foundation.Table

/-!
# Ledgers of spent and unspent items

Items are created and spent at most once.  The value created is the value spent and the value
left, also after a restriction to some of the items.
-/

namespace Splora
namespace Foundation

structure Ledger (K : Type) where
  created : List K
  spent : List K
  created_nodup : created.Nodup
  spent_nodup : spent.Nodup
  spent_created : forall k, k ∈ spent -> k ∈ created

def total {K : Type} (value : K -> Nat) (items : List K) : Nat :=
  (items.map value).sum

section Total

variable {K : Type} {value : K -> Nat} {items items' : List K}

@[simp] theorem total_nil (value : K -> Nat) : total value [] = 0 :=
  rfl

theorem total_append : total value (items ++ items') = total value items + total value items' := by
  rw [total, List.map_append, List.sum_append]
  rfl

theorem total_perm (h : items.Perm items') : total value items = total value items' :=
  (h.map value).sum_eq

theorem total_filter_le (p : K -> Bool) : total value (items.filter p) ≤ total value items := by
  induction items with
  | nil => exact Nat.le_refl _
  | cons k items ih =>
    rw [List.filter_cons]
    split
    · exact Nat.add_le_add_left ih (value k)
    · exact Nat.le_trans ih (Nat.le_add_left _ _)

theorem total_flatMap {α : Type} {f : α -> List K} {parts : List α} :
    total value (parts.flatMap f) = (parts.map fun part => total value (f part)).sum := by
  induction parts with
  | nil => rfl
  | cons part parts ih =>
    rw [List.flatMap_cons, total_append, ih, List.map_cons, List.sum_cons]

end Total

theorem source_unique {α K : Type} {f : α -> List K} {parts : List α}
    (h : (parts.flatMap f).Nodup) {part part' : α} (hpart : part ∈ parts)
    (hpart' : part' ∈ parts) {k : K} (hk : k ∈ f part) (hk' : k ∈ f part') :
    part = part' := by
  induction parts with
  | nil => cases hpart
  | cons first parts ih =>
    rw [List.flatMap_cons] at h
    have hdisjoint := List.disjoint_of_nodup_append h
    have hrest : (parts.flatMap f).Nodup := (List.nodup_append.mp h).right.left
    rcases List.mem_cons.mp hpart with hfirst | hlater
    · rcases List.mem_cons.mp hpart' with hfirst' | hlater'
      · exact hfirst.trans hfirst'.symm
      · rw [hfirst] at hk
        exact absurd (List.mem_flatMap.mpr ⟨part', hlater', hk'⟩) (hdisjoint hk)
    · rcases List.mem_cons.mp hpart' with hfirst' | hlater'
      · rw [hfirst'] at hk'
        exact absurd (List.mem_flatMap.mpr ⟨part, hlater, hk⟩) (hdisjoint hk')
      · exact ih hrest hlater hlater'

namespace Ledger

variable {K : Type} [DecidableEq K]

def unspent (l : Ledger K) : List K :=
  l.created.filter fun k => k ∉ l.spent

theorem unspent_nodup (l : Ledger K) : l.unspent.Nodup :=
  l.created_nodup.filter _

theorem mem_unspent {l : Ledger K} {k : K} : k ∈ l.unspent <-> k ∈ l.created ∧ k ∉ l.spent := by
  rw [unspent, List.mem_filter, decide_eq_true_eq]

theorem perm_created (l : Ledger K) : (l.spent ++ l.unspent).Perm l.created := by
  have hnodup : (l.spent ++ l.unspent).Nodup := by
    refine List.nodup_append.mpr ⟨l.spent_nodup, l.unspent_nodup, ?_⟩
    intro k hspent k' hunspent heq
    exact (mem_unspent.mp hunspent).right (heq ▸ hspent)
  refine (List.perm_ext_iff_of_nodup hnodup l.created_nodup).mpr ?_
  intro k
  rw [List.mem_append, mem_unspent]
  constructor
  · intro h
    rcases h with hspent | hunspent
    · exact l.spent_created k hspent
    · exact hunspent.left
  · intro hcreated
    by_cases hspent : k ∈ l.spent
    · exact Or.inl hspent
    · exact Or.inr ⟨hcreated, hspent⟩

theorem total_created (l : Ledger K) (value : K -> Nat) :
    total value l.created = total value l.spent + total value l.unspent := by
  rw [<- total_perm l.perm_created, total_append]

theorem total_unspent_le {l : Ledger K} {value : K -> Nat} {supply : Nat}
    (h : total value l.created ≤ supply + total value l.spent) :
    total value l.unspent ≤ supply := by
  have hcreated := l.total_created value
  omega

def restrict (l : Ledger K) (p : K -> Bool) : Ledger K where
  created := l.created.filter p
  spent := l.spent.filter p
  created_nodup := l.created_nodup.filter p
  spent_nodup := l.spent_nodup.filter p
  spent_created := by
    intro k hk
    rcases List.mem_filter.mp hk with ⟨hspent, hp⟩
    exact List.mem_filter.mpr ⟨l.spent_created k hspent, hp⟩

theorem restrict_unspent (l : Ledger K) (p : K -> Bool) :
    (l.restrict p).unspent = l.unspent.filter p := by
  have hcongr : forall k, k ∈ l.created.filter p ->
      decide (k ∉ l.spent.filter p) = decide (k ∉ l.spent) := by
    intro k hk
    simp [List.mem_filter, (List.mem_filter.mp hk).right]
  rw [unspent, unspent, List.filter_filter]
  show (l.created.filter p).filter (fun k => k ∉ l.spent.filter p) = _
  rw [List.filter_congr hcongr, List.filter_filter]
  refine List.filter_congr ?_
  intro k _
  exact Bool.and_comm _ _

end Ledger

end Foundation
end Splora
