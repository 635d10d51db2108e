import Splora.Foundation.Table

/-!
# A final segment of a list in a table

A table holds a list from some position on.  Where the list is replaced, the rows that differ
are taken out and the new ones written.
-/

namespace Splora
namespace Foundation

/-!
## Rows at positions
-/

def rowsAt (l : List α) (positions : List Nat) : List (Nat × α) :=
  positions.filterMap fun i => l[i]?.map fun a => (i, a)

section Rows

variable {l : List α} {positions : List Nat} {i m n : Nat} {a : α}

theorem mem_rowsAt : (i, a) ∈ rowsAt l positions <-> i ∈ positions ∧ l[i]? = some a := by
  rw [rowsAt, List.mem_filterMap]
  constructor
  · intro h
    rcases h with ⟨j, hj, hrow⟩
    rcases Option.map_eq_some_iff.mp hrow with ⟨b, hb, heq⟩
    cases heq
    exact ⟨hj, hb⟩
  · intro h
    refine ⟨i, h.left, ?_⟩
    rw [h.right]
    rfl

theorem functional_rowsAt (l : List α) (positions : List Nat) :
    Functional (rowsAt l positions) := by
  intro i a a' h h'
  have hsame := (mem_rowsAt.mp h).right.symm.trans (mem_rowsAt.mp h').right
  exact Option.some.inj hsame

theorem rowsAt_append (l : List α) (positions positions' : List Nat) :
    rowsAt l (positions ++ positions') = rowsAt l positions ++ rowsAt l positions' :=
  List.filterMap_append

theorem pairwise_rowsAt (h : positions.Pairwise fun i j => i < j) :
    (rowsAt l positions).Pairwise fun row row' => row.1 < row'.1 := by
  refine h.filterMap _ ?_
  intro i j hlt row hrow row' hrow'
  rcases Option.map_eq_some_iff.mp hrow with ⟨_, _, heq⟩
  rcases Option.map_eq_some_iff.mp hrow' with ⟨_, _, heq'⟩
  rw [<- heq, <- heq']
  exact hlt

theorem map_snd_rowsAt (l : List α) (m n : Nat) :
    (rowsAt l (List.range' m n)).map Prod.snd = (l.drop m).take n := by
  induction n generalizing m with
  | zero => rfl
  | succ n ih =>
    rw [List.range'_succ, rowsAt, List.filterMap_cons]
    cases hget : l[m]? with
    | none =>
      have hlen : l.length ≤ m := List.getElem?_eq_none_iff.mp hget
      have hrest := ih (m + 1)
      rw [List.drop_of_length_le (Nat.le_succ_of_le hlen), List.take_nil] at hrest
      rw [List.drop_of_length_le hlen, List.take_nil]
      exact hrest
    | some a =>
      rcases List.getElem?_eq_some_iff.mp hget with ⟨hlt, heq⟩
      rw [List.drop_eq_getElem_cons hlt, List.take_succ_cons, heq]
      exact congrArg (List.cons a) (ih (m + 1))

theorem map_snd_rowsAt_of_length_le (h : l.length ≤ m + n) :
    (rowsAt l (List.range' m n)).map Prod.snd = l.drop m := by
  rw [map_snd_rowsAt, List.take_of_length_le]
  rw [List.length_drop]
  omega

theorem rowsAt_range'_append {k : Nat} (h : m ≤ k) :
    rowsAt l (List.range' m (k - m)) ++ rowsAt l (List.range' k n) =
      rowsAt l (List.range' m (k - m + n)) := by
  rw [<- rowsAt_append, <- List.range'_append_1, Nat.add_sub_cancel' h]

end Rows

/-!
## Tables
-/

structure HoldsFrom (t : Table Nat α compare) (l : List α) (first : Nat) : Prop where
  getElem? : forall i, t[i]? = if first ≤ i then l[i]? else none

theorem toList_eq_rowsAt {t : Table Nat α compare} {l : List α} {positions : List Nat}
    (h : positions.Pairwise fun i j => i < j)
    (hmem : forall i a, t[i]? = some a <-> (i, a) ∈ rowsAt l positions) :
    t.toList = rowsAt l positions := by
  refine eq_of_pairwise_of_mem_iff (R := fun row row' => row.1 < row'.1)
    (fun row => Nat.lt_irrefl _) (fun _ _ _ => Nat.lt_trans) ?_ (pairwise_rowsAt h) ?_
  · exact Std.ExtTreeMap.ordered_keys_toList.imp Nat.compare_eq_lt.mp
  · intro row
    rw [Std.ExtTreeMap.mem_toList_iff_getElem?_eq_some]
    exact hmem row.1 row.2

theorem toList_writeRows_rowsAt {l : List α} {positions : List Nat}
    (h : positions.Pairwise fun i j => i < j) :
    (writeRows (∅ : Table Nat α compare) (rowsAt l positions)).toList =
      rowsAt l positions := by
  refine toList_eq_rowsAt h fun i a => ⟨?_, ?_⟩
  · intro hget
    rcases getElem?_writeRows_source hget with hold | hrow
    · rw [Std.ExtTreeMap.getElem?_empty] at hold
      cases hold
    · exact hrow
  · intro hrow
    exact getElem?_writeRows_of_mem _ (functional_rowsAt l positions) hrow

namespace HoldsFrom

variable {t : Table Nat α compare} {l l' : List α} {first i m : Nat}

theorem empty (l : List α) : HoldsFrom ∅ l l.length where
  getElem? := by
    intro i
    rw [Std.ExtTreeMap.getElem?_empty]
    split
    · rename_i hle
      exact (List.getElem?_eq_none hle).symm
    · rfl

section

variable (h : HoldsFrom t l first)

include h

theorem mem_iff : i ∈ t <-> first ≤ i ∧ i < l.length := by
  rw [Std.ExtTreeMap.mem_iff_isSome_getElem?, h.getElem?]
  split
  · rename_i hle
    simp [hle]
  · rename_i hle
    simp [hle]

theorem toList_eq : t.toList = rowsAt l (List.range' first (l.length - first)) := by
  refine toList_eq_rowsAt (List.pairwise_lt_range' 1) fun i a => ?_
  rw [mem_rowsAt, h.getElem?, List.mem_range'_1]
  constructor
  · intro hrow
    rcases Option.ite_none_right_eq_some.mp hrow with ⟨hle, hget⟩
    have hlt := (List.getElem?_eq_some_iff.mp hget).choose
    exact ⟨⟨hle, by omega⟩, hget⟩
  · intro hrow
    rw [if_pos hrow.left.left]
    exact hrow.right

theorem filterMap_getElem? (hfirst : first ≤ m) :
    ((List.range' m (l.length - m)).filterMap fun i => t[i]?) = l.drop m := by
  rw [<- map_snd_rowsAt_of_length_le (n := l.length - m) (by omega), rowsAt, List.map_filterMap]
  refine List.filterMap_congr ?_
  intro i hi
  have hle := Nat.le_trans hfirst (List.mem_range'_1.mp hi).left
  rw [h.getElem?, if_pos hle, Option.map_map]
  exact Option.map_id'.symm

theorem lt_length_of_mem_replay (stale : List Nat) (hi : i ∈ replay t (stale.map TableOp.delete)) :
    i < l.length := by
  rcases mem_iff_exists.mp hi with ⟨a, ha⟩
  by_cases hmem : i ∈ stale
  · rw [getElem?_replay_delete_of_mem _ hmem] at ha
    cases ha
  · rw [getElem?_replay_delete_of_not_mem _ hmem] at ha
    exact (h.mem_iff.mp (mem_of_getElem? ha)).right

theorem replace (hfirst : first ≤ m) (hagree : forall i, first ≤ i -> i < m -> l[i]? = l'[i]?)
    {stale : List Nat} (hstale : forall i, i ∈ stale <-> m ≤ i ∧ i < l.length)
    {rows : List (Nat × α)} (hfun : Functional rows)
    (hrows : forall i a, (i, a) ∈ rows <-> m ≤ i ∧ l'[i]? = some a) :
    HoldsFrom (writeRows (replay t (stale.map TableOp.delete)) rows) l' (min first l'.length) where
  getElem? := by
    intro i
    have hmin : (if min first l'.length ≤ i then l'[i]? else none) =
        if first ≤ i then l'[i]? else none := by
      by_cases hle : first ≤ i
      · rw [if_pos (Nat.le_trans (Nat.min_le_left _ _) hle), if_pos hle]
      · rw [if_neg hle]
        split
        · rename_i hle'
          exact List.getElem?_eq_none (by omega)
        · rfl
    have hkeys : i ∈ rows.map Prod.fst -> m ≤ i ∧ exists a, l'[i]? = some a := by
      intro hmem
      rcases List.mem_map.mp hmem with ⟨⟨j, a⟩, hrow, heq⟩
      cases heq
      rcases (hrows j a).mp hrow with ⟨hle, hget⟩
      exact ⟨hle, a, hget⟩
    rw [hmin]
    by_cases hm : m ≤ i
    · rw [if_pos (Nat.le_trans hfirst hm)]
      cases hget : l'[i]? with
      | some a => exact getElem?_writeRows_of_mem _ hfun ((hrows i a).mpr ⟨hm, hget⟩)
      | none =>
        have hnot : i ∉ rows.map Prod.fst := by
          intro hmem
          rcases (hkeys hmem).right with ⟨a, ha⟩
          rw [hget] at ha
          cases ha
        rw [getElem?_writeRows_of_not_mem _ hnot]
        by_cases hlt : i < l.length
        · exact getElem?_replay_delete_of_mem _ ((hstale i).mpr ⟨hm, hlt⟩)
        · have hkept : i ∉ stale := fun hmem => hlt ((hstale i).mp hmem).right
          rw [getElem?_replay_delete_of_not_mem _ hkept, h.getElem?,
            List.getElem?_eq_none (Nat.le_of_not_lt hlt)]
          exact ite_self _
    · have hnot : i ∉ rows.map Prod.fst := fun hmem => hm (hkeys hmem).left
      have hkept : i ∉ stale := fun hmem => hm ((hstale i).mp hmem).left
      rw [getElem?_writeRows_of_not_mem _ hnot,
        getElem?_replay_delete_of_not_mem _ hkept, h.getElem?]
      split
      · rename_i hle
        exact hagree i hle (Nat.lt_of_not_le hm)
      · rfl

theorem retain (k : Nat) : HoldsFrom (t.filter fun i _ => decide (k ≤ i)) l (max first k) where
  getElem? := by
    intro i
    rw [Std.ExtTreeMap.getElem?_filter', h.getElem?]
    by_cases hk : k ≤ i
    · have hiff : max first k ≤ i <-> first ≤ i := by omega
      rw [if_congr hiff rfl rfl]
      cases (if first ≤ i then l[i]? else none) with
      | none => rfl
      | some a => simp [hk]
    · have hmax : ¬ max first k ≤ i := by omega
      simp [hk, hmax]

end

end HoldsFrom

end Foundation
end Splora
