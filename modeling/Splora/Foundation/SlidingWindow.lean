import Mathlib

/-!
# Sliding windows

A limiter admits a request if it has admitted fewer than the maximum within the last window.  If
time does not run backwards, no window at any position holds more.
-/

namespace Splora
namespace Foundation
namespace SlidingWindow

def recent (window now : Nat) (hits : List Nat) : List Nat :=
  hits.filter fun t => now - t < window

def answer (window max : Nat) (hits : List Nat) (now : Nat) : Bool × List Nat :=
  let kept := recent window now hits
  if max ≤ kept.length then (false, kept) else (true, kept ++ [now])

def countIn (window t : Nat) (times : List Nat) : Nat :=
  times.countP fun time => t ≤ time ∧ time < t + window

/-- No later request can tell the kept times from all admitted ones; `seen` are all so far. -/
structure Tracks (window max : Nat) (seen hits admitted : List Nat) : Prop where
  length_le : hits.length ≤ max
  recent_eq : forall now, (forall time, time ∈ seen -> time ≤ now) ->
    recent window now hits = recent window now admitted
  bounded : forall t, countIn window t admitted ≤ max

variable {window max now t : Nat} {seen hits admitted times : List Nat}

theorem tracks_nil (window max : Nat) : Tracks window max [] [] [] where
  length_le := Nat.zero_le max
  recent_eq _ _ := rfl
  bounded _ := Nat.zero_le max

theorem recent_recent {later : Nat} (h : now ≤ later) (hits : List Nat) :
    recent window later (recent window now hits) = recent window later hits := by
  unfold recent
  rw [List.filter_filter]
  apply List.filter_congr
  intro time _
  rw [Bool.and_eq_left_iff_imp, decide_eq_true_eq, decide_eq_true_eq]
  intro hlater
  omega

theorem recent_append (hits times : List Nat) :
    recent window now (hits ++ times) = recent window now hits ++ recent window now times :=
  List.filter_append _ _

theorem countIn_append (times times' : List Nat) :
    countIn window t (times ++ times') = countIn window t times + countIn window t times' :=
  List.countP_append

theorem countIn_le_recent (hnow : now < t + window) (times : List Nat) :
    countIn window t times ≤ (recent window now times).length := by
  unfold countIn recent
  rw [<- List.countP_eq_length_filter]
  apply List.countP_mono_left
  intro time _ htime
  rw [decide_eq_true_eq] at htime ⊢
  omega

theorem Tracks.see (h : Tracks window max seen hits admitted) (now : Nat) :
    Tracks window max (seen ++ [now]) hits admitted where
  length_le := h.length_le
  recent_eq later hlater := h.recent_eq later fun time htime =>
    hlater time (List.mem_append_left _ htime)
  bounded := h.bounded

theorem Tracks.answer (h : Tracks window max seen hits admitted)
    (hnow : forall time, time ∈ seen -> time ≤ now) :
    Tracks window max (seen ++ [now]) (SlidingWindow.answer window max hits now).2
      (if (SlidingWindow.answer window max hits now).1 = true then admitted ++ [now]
        else admitted) := by
  have hkept : (recent window now hits).length ≤ max :=
    (List.length_filter_le _ _).trans h.length_le
  have hlater : forall later, (forall time, time ∈ seen ++ [now] -> time ≤ later) ->
      recent window later (recent window now hits) =
        recent window later admitted := by
    intro later hlater
    rw [recent_recent (hlater now (List.mem_append_right _ List.mem_cons_self))]
    exact (h.see now).recent_eq later hlater
  unfold SlidingWindow.answer
  by_cases hfull : max ≤ (recent window now hits).length
  · simp only [if_pos hfull]
    exact ⟨hkept, hlater, h.bounded⟩
  · simp only [if_neg hfull, if_true]
    refine ⟨?_, ?_, ?_⟩
    · rw [List.length_append, List.length_singleton]
      omega
    · intro later hlater'
      rw [recent_append, recent_append, hlater later hlater']
    · intro t
      rw [countIn_append]
      by_cases hin : t ≤ now ∧ now < t + window
      · -- The request falls into this window: what it held was kept.
        have hcount := countIn_le_recent hin.right admitted
        rw [<- h.recent_eq now hnow] at hcount
        have hone : countIn window t [now] ≤ 1 := List.countP_le_length
        omega
      · have hzero : countIn window t [now] = 0 := by
          simp [countIn, hin]
        rw [hzero]
        exact h.bounded t

theorem tracks_update {κ : Type} [DecidableEq κ] {hits admitted : κ -> List Nat}
    (h : forall key, Tracks window max seen (hits key) (admitted key)) (key : κ)
    (hnow : forall time, time ∈ seen -> time ≤ now) (other : κ) :
    Tracks window max (seen ++ [now])
      (Function.update hits key (answer window max (hits key) now).2 other)
      (Function.update admitted key
        (if (answer window max (hits key) now).1 = true then admitted key ++ [now]
          else admitted key) other) := by
  by_cases hother : other = key
  · rw [hother, Function.update_self, Function.update_self]
    exact (h key).answer hnow
  · rw [Function.update_of_ne hother, Function.update_of_ne hother]
    exact (h other).see now

end SlidingWindow
end Foundation
end Splora
