import Mathlib

/-!
# Programs whose operations may fail

A fate for the name of each operation says whether it is done, fails (perhaps half done), or is
the one at which the program dies.
-/

namespace Splora
namespace Foundation

inductive Fate where
  | done
  | failed (progress : Nat)
  | crashed (progress : Nat)
deriving DecidableEq, Repr

def Fate.survives : Fate -> Bool
  | crashed _ => false
  | _ => true

inductive Stop (ε : Type) where
  | error (e : ε)
  | crash

def Faulty (ι σ ε α : Type) : Type :=
  (ι -> Fate) -> σ -> Except (Stop ε) α × σ

namespace Faulty

variable {ι σ ε α β : Type}

protected def pure (a : α) : Faulty ι σ ε α :=
  fun _ s => (.ok a, s)

protected def bind (m : Faulty ι σ ε α) (k : α -> Faulty ι σ ε β) :
    Faulty ι σ ε β :=
  fun fates s =>
    match m fates s with
    | (.ok a, s') => k a fates s'
    | (.error stop, s') => (.error stop, s')

instance : Monad (Faulty ι σ ε) where
  pure := Faulty.pure
  bind := Faulty.bind

def lift (x : Except ε α) : Faulty ι σ ε α :=
  fun _ s =>
    match x with
    | .ok a => (.ok a, s)
    | .error e => (.error (.error e), s)

def attempt (op : ι) (act : σ -> Except ε α × σ) (failure : ε)
    (torn : Nat -> σ -> σ) : Faulty ι σ ε α :=
  fun fates s =>
    match fates op with
    | .done => lift (act s).1 fates (act s).2
    | .failed progress => (.error (.error failure), torn progress s)
    | .crashed progress => (.error .crash, torn progress s)

def tolerate (m : Faulty ι σ ε Unit) : Faulty ι σ ε Unit :=
  fun fates s =>
    match m fates s with
    | (.error (.error _), s') => (.ok (), s')
    | result => result

section Rules

variable {m : Faulty ι σ ε α} {k : α -> Faulty ι σ ε β} {fates : ι -> Fate}
  {s s' : σ} {a : α} {stop : Stop ε} {op : ι} {act : σ -> Except ε α × σ}
  {failure : ε} {torn : Nat -> σ -> σ}

theorem bind_ok (h : m fates s = (.ok a, s')) : (m >>= k) fates s = k a fates s' := by
  show (match m fates s with
    | (.ok a, s') => k a fates s'
    | (.error stop, s') => (.error stop, s')) = _
  rw [h]

theorem bind_stop (h : m fates s = (.error stop, s')) : (m >>= k) fates s = (.error stop, s') := by
  show (match m fates s with
    | (.ok a, s') => k a fates s'
    | (.error stop, s') => (.error stop, s')) = _
  rw [h]

theorem attempt_done (h : fates op = .done) (hact : act s = (.ok a, s')) :
    attempt op act failure torn fates s = (.ok a, s') := by
  unfold attempt
  rw [h, hact]
  rfl

theorem attempt_not_done (h : fates op ≠ .done) :
    exists stop progress, attempt op act failure torn fates s = (.error stop, torn progress s) := by
  unfold attempt
  cases hfate : fates op with
  | done => exact absurd hfate h
  | failed progress => exact ⟨.error failure, progress, rfl⟩
  | crashed progress => exact ⟨.crash, progress, rfl⟩

end Rules

end Faulty
end Foundation
end Splora
