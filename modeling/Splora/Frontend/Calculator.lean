import Splora.Foundation.Decimal

/-!
# The calculator

A field of whole satoshis drops the decimals of what is typed and rounds half up.
-/

namespace Splora
namespace Frontend

open Foundation
open Text

/-- The carry loop over the digits, last digit first; `none` at a character that is no digit. -/
def carryOne : Text -> Option Text
  | [] => some ['1']
  | digit :: rest =>
    if digit = '9' then (carryOne rest).map ('0' :: ·)
    else if digit.isDigit then some (Char.ofNat (digit.toNat + 1) :: rest)
    else none

def roundsUp (frac : Text) : Bool :=
  frac.head?.any fun c => '5' ≤ c && c ≤ '9'

def stripsDecimalsFromSatoshisInput (input : Text) : Text :=
  match splitOnce '.' input with
  | none => input
  | some (whole, frac) =>
    let wholeDigits := if whole = [] then ['0'] else whole
    if !roundsUp frac then wholeDigits
    else ((carryOne wholeDigits.reverse).map List.reverse).getD wholeDigits

/-!
## Rounding to whole satoshis
-/

theorem carryOne_eq {digits : Text} (h : AllDigits digits) :
    exists next, carryOne digits = some next ∧ AllDigits next ∧
      valueOf next.reverse = valueOf digits.reverse + 1 := by
  induction digits with
  | nil => exact ⟨['1'], rfl, by simp [AllDigits], rfl⟩
  | cons c rest ih =>
    rcases List.forall_mem_cons.mp h with ⟨hc, hrest⟩
    by_cases hnine : c = '9'
    · rcases ih hrest with ⟨next, hnext, hdigits, hvalue⟩
      refine ⟨'0' :: next, by simp [carryOne, hnine, hnext],
        List.forall_mem_cons.mpr ⟨rfl, hdigits⟩, ?_⟩
      rw [List.reverse_cons, List.reverse_cons, valueOf_concat, valueOf_concat, hvalue, hnine]
      rfl
    · have hrange := isDigit_iff.mp hc
      have hlt : c.toNat ≠ 57 := fun h57 => hnine (Char.toNat_inj.mp h57)
      have hnext : (Char.ofNat (c.toNat + 1)).toNat = c.toNat + 1 := by
        rw [Char.toNat_ofNat, if_pos (Or.inl (by omega))]
      refine ⟨Char.ofNat (c.toNat + 1) :: rest, by simp [carryOne, hnine, hc],
        List.forall_mem_cons.mpr ⟨?_, hrest⟩, ?_⟩
      · rw [isDigit_iff, hnext]
        omega
      · rw [List.reverse_cons, List.reverse_cons, valueOf_concat, valueOf_concat, hnext]
        omega

theorem roundsUp_iff {frac : Text} (h : AllDigits frac) :
    roundsUp frac = true <-> 10 ^ frac.length ≤ 2 * valueOf frac := by
  cases frac with
  | nil => simp [roundsUp, valueOf]
  | cons c rest =>
    rcases List.forall_mem_cons.mp h with ⟨hc, hrest⟩
    have hrange := isDigit_iff.mp hc
    have hlt := valueOf_lt hrest
    have hvalue : valueOf (c :: rest) = 10 ^ rest.length * (c.toNat - 48) + valueOf rest := by
      have happend := valueOf_append [c] rest
      simpa [valueOf, Nat.ofDigitChars_cons] using happend
    have hfive : (('5' ≤ c && c ≤ '9') = true) <-> 5 ≤ c.toNat - 48 := by
      rw [Bool.and_eq_true, decide_eq_true_eq, decide_eq_true_eq]
      change (53 ≤ c.toNat ∧ c.toNat ≤ 57) <-> _
      omega
    rw [roundsUp, List.head?_cons, Option.any_some, hfive, hvalue, List.length_cons, Nat.pow_succ]
    constructor
    · intro hle
      have hmul := Nat.mul_le_mul_left (10 ^ rest.length) hle
      omega
    · intro hle
      by_contra hless
      have hmul := Nat.mul_le_mul_left (10 ^ rest.length) (show c.toNat - 48 ≤ 4 by omega)
      omega

theorem floor_half_up {w f p : Nat} (hf : f < p) :
    ⌊((p * w + f : Nat) : ℚ) / p + 1 / 2⌋₊ = w + if p ≤ 2 * f then 1 else 0 := by
  have hhalf : ((p * w + f : Nat) : ℚ) / p + 1 / 2 =
      (2 * p * w + (2 * f + p) : Nat) / (2 * p : Nat) := by
    have hp : (p : ℚ) ≠ 0 := Nat.cast_ne_zero.mpr (by omega)
    push_cast
    field_simp
    ring
  rw [hhalf, Nat.floor_div_eq_div (K := ℚ), Nat.mul_add_div (by omega)]
  congr 1
  split
  · exact Nat.div_eq_of_lt_le (by omega) (by omega)
  · exact Nat.div_eq_of_lt (by omega)

/-- The field is rounded half up to an integer, and stays a text of digits. -/
theorem satoshi_field_rounded {w f : Text} (hw : AllDigits w) (hf : AllDigits f) :
    AllDigits (stripsDecimalsFromSatoshisInput (w ++ '.' :: f)) ∧
      stripsDecimalsFromSatoshisInput (w ++ '.' :: f) ≠ [] ∧
      valueOf (stripsDecimalsFromSatoshisInput (w ++ '.' :: f)) =
        ⌊(valueOf (w ++ f) : ℚ) / 10 ^ f.length + 1 / 2⌋₊ := by
  have hpoint : '.' ∉ w := fun hmem => absurd (hw _ hmem) (by decide)
  have hwhole : exists whole, (if w = [] then ['0'] else w) = whole ∧ AllDigits whole ∧
      whole ≠ [] ∧ valueOf whole = valueOf w := by
    split
    · rename_i hnil
      exact ⟨['0'], rfl, by simp [AllDigits], by simp, by rw [hnil]; rfl⟩
    · rename_i hne
      exact ⟨w, rfl, hw, hne, rfl⟩
  rcases hwhole with ⟨whole, hif, hdigits, hne, hvalue⟩
  have hfloor := floor_half_up (w := valueOf w) (valueOf_lt hf)
  rw [<- valueOf_append] at hfloor
  push_cast at hfloor
  rw [hfloor, <- hvalue, stripsDecimalsFromSatoshisInput, splitOnce_eq_some.mpr ⟨rfl, hpoint⟩]
  dsimp only
  rw [hif]
  cases hround : roundsUp f with
  | false =>
    rw [if_neg (mt (roundsUp_iff hf).mpr (by simp [hround]))]
    exact ⟨hdigits, hne, rfl⟩
  | true =>
    rcases carryOne_eq fun c hc => hdigits c (List.mem_reverse.mp hc) with
      ⟨next, hnext, hnextDigits, hnextValue⟩
    rw [if_pos ((roundsUp_iff hf).mp hround), hnext]
    rw [List.reverse_reverse] at hnextValue
    refine ⟨fun c hc => hnextDigits c (List.mem_reverse.mp hc), ?_, hnextValue⟩
    intro hnil
    rw [show next.reverse = [] from hnil] at hnextValue
    cases hnextValue

theorem satoshi_field_of_nines :
    AllDigits (stripsDecimalsFromSatoshisInput ("99".toList ++ '.' :: ['5'])) ∧
      stripsDecimalsFromSatoshisInput ("99".toList ++ '.' :: ['5']) ≠ [] ∧
      valueOf (stripsDecimalsFromSatoshisInput ("99".toList ++ '.' :: ['5'])) =
        ⌊(valueOf ("99".toList ++ ['5']) : ℚ) / 10 ^ ['5'].length + 1 / 2⌋₊ :=
  satoshi_field_rounded (by simp [AllDigits]) (by simp [AllDigits])

end Frontend
end Splora
