import Splora.Foundation.Table

/-!
# Materialized rows

A table materializes a set of items when its rows are exactly theirs.  Items without a common
key are taken out and put in by their rows.
-/

namespace Splora
namespace Foundation

section Materialized

variable {I K V : Type} {cmp : K -> K -> Ordering} [Std.TransCmp cmp]
  {P : K -> Prop} {R : I -> K -> V -> Prop} {t t' : Table K V cmp}
  {s u a n : Set I}

/-- On the keys `P` the table holds exactly the rows of the items. -/
def Materializes (P : K -> Prop) (R : I -> K -> V -> Prop) (t : Table K V cmp) (s : Set I) : Prop :=
  forall k, P k -> forall v, t[k]? = some v <-> exists i, i ∈ s ∧ R i k v

/-- A key `P` belongs to one of the items and has one value. -/
def Separated (P : K -> Prop) (R : I -> K -> V -> Prop) (u : Set I) : Prop :=
  forall k, P k -> forall i j v v', i ∈ u -> j ∈ u -> R i k v -> R j k v' -> i = j ∧ v = v'

theorem Materializes.of_agree (h : Materializes P R t s)
    (hagree : forall k, P k -> t'[k]? = t[k]?) : Materializes P R t' s := by
  intro k hk v
  rw [hagree k hk]
  exact h k hk v

theorem Materializes.congr (h : Materializes P R t s)
    (hset : forall i, i ∈ s <-> i ∈ u) : Materializes P R t u := by
  intro k hk v
  rw [h k hk v]
  simp only [hset]

theorem Materializes.getElem? (h : Materializes P R t s) {i : I} {k : K}
    {v : V} (hk : P k) (hi : i ∈ s) (hrow : R i k v) : t[k]? = some v :=
  (h k hk v).mpr ⟨i, hi, hrow⟩

variable [Std.LawfulEqCmp cmp]

theorem Materializes.delete (h : Materializes P R t s)
    (hsep : Separated P R u) (hs : s ⊆ u) (ha : a ⊆ u) {keys : List K}
    (hkeys : forall k, P k -> (k ∈ keys <-> exists i, i ∈ a ∧ exists v, R i k v)) :
    Materializes P R (replay t (keys.map TableOp.delete)) (s \ a) := by
  intro k hk v
  by_cases hmem : k ∈ keys
  · rw [getElem?_replay_delete_of_mem t hmem]
    rcases (hkeys k hk).mp hmem with ⟨j, hj, v', hrow'⟩
    constructor
    · intro hnone
      cases hnone
    · rintro ⟨i, ⟨hi, hnot⟩, hrow⟩
      have heq := hsep k hk i j v v' (hs hi) (ha hj) hrow hrow'
      rw [heq.left] at hnot
      exact absurd hj hnot
  · rw [getElem?_replay_delete_of_not_mem t hmem, h k hk v]
    constructor
    · rintro ⟨i, hi, hrow⟩
      refine ⟨i, ⟨hi, ?_⟩, hrow⟩
      intro hia
      exact hmem ((hkeys k hk).mpr ⟨i, hia, v, hrow⟩)
    · rintro ⟨i, ⟨hi, _⟩, hrow⟩
      exact ⟨i, hi, hrow⟩

theorem Materializes.write (h : Materializes P R t s)
    (hsep : Separated P R u) (hs : s ⊆ u) (hn : n ⊆ u)
    {rows : List (K × V)} (hfun : Functional rows)
    (hrows : forall k, P k -> forall v, ((k, v) ∈ rows <-> exists i, i ∈ n ∧ R i k v)) :
    Materializes P R (writeRows t rows) (s ∪ n) := by
  intro k hk v
  by_cases hmem : k ∈ rows.map Prod.fst
  · rcases List.mem_map.mp hmem with ⟨⟨k', v'⟩, hrow', hkk⟩
    change k' = k at hkk
    subst hkk
    rcases (hrows k' hk v').mp hrow' with ⟨j, hj, hrowj⟩
    rw [getElem?_writeRows_of_mem t hfun hrow']
    constructor
    · intro hv
      exact ⟨j, Or.inr hj, (Option.some.inj hv) ▸ hrowj⟩
    · rintro ⟨i, hi, hrow⟩
      have hiu : i ∈ u := hi.elim (fun h => hs h) (fun h => hn h)
      rw [(hsep k' hk j i v' v (hn hj) hiu hrowj hrow).right]
  · rw [getElem?_writeRows_of_not_mem t hmem, h k hk v]
    constructor
    · rintro ⟨i, hi, hrow⟩
      exact ⟨i, Or.inl hi, hrow⟩
    · rintro ⟨i, hi | hi, hrow⟩
      · exact ⟨i, hi, hrow⟩
      · have hrow' := (hrows k hk v).mpr ⟨i, hi, hrow⟩
        exact absurd (List.mem_map_of_mem (f := Prod.fst) hrow') hmem

theorem getElem?_delete_write (hsep : Separated P R u) (hn : n ⊆ u)
    {keys : List K} {rows : List (K × V)} (hfun : Functional rows)
    (hrows : forall k, P k -> forall v, ((k, v) ∈ rows <-> exists i, i ∈ n ∧ R i k v))
    {i : I} {k : K} {v : V} (hk : P k) (hi : i ∈ u) (hrow : R i k v)
    (hkept : i ∉ n -> k ∉ keys) :
    (writeRows (replay t (keys.map TableOp.delete)) rows)[k]? = some v <->
      i ∈ n ∨ t[k]? = some v := by
  by_cases hin : i ∈ n
  · have hmem := (hrows k hk v).mpr ⟨i, hin, hrow⟩
    rw [getElem?_writeRows_of_mem _ hfun hmem]
    exact ⟨fun _ => Or.inl hin, fun _ => rfl⟩
  · have hnot : k ∉ rows.map Prod.fst := by
      intro hmem
      rcases List.mem_map.mp hmem with ⟨⟨k', v'⟩, hrow', rfl⟩
      rcases (hrows k' hk v').mp hrow' with ⟨j, hj, hrowj⟩
      have heq := hsep k' hk i j v v' hi (hn hj) hrow hrowj
      rw [heq.left] at hin
      exact hin hj
    rw [getElem?_writeRows_of_not_mem _ hnot, getElem?_replay_delete_of_not_mem _ (hkept hin)]
    simp [hin]

end Materialized

end Foundation
end Splora
