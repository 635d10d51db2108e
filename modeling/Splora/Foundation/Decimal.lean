import Splora.Foundation.Text

/-!
# Decimal texts

Texts of digits and their values, and the split of a text at its point.
-/

namespace Splora
namespace Foundation

namespace Text

def splitOnce (sep : Char) : Text -> Option (Text × Text)
  | [] => none
  | c :: t =>
    if c = sep then some ([], t)
    else (splitOnce sep t).map fun parts => (c :: parts.1, parts.2)

theorem splitOnce_eq_some {sep : Char} {t a b : Text} :
    splitOnce sep t = some (a, b) <-> t = a ++ sep :: b ∧ sep ∉ a := by
  induction t generalizing a with
  | nil => simp [splitOnce]
  | cons c t ih =>
    by_cases hc : c = sep
    · cases a with
      | nil => simp [splitOnce, hc]
      | cons d a => simp +contextual [splitOnce, hc, eq_comm]
    · rw [splitOnce, if_neg hc, Option.map_eq_some_iff]
      cases a with
      | nil => simp [hc]
      | cons d a => grind

end Text

def valueOf (digits : Text) : Nat :=
  Nat.ofDigitChars 10 digits 0

def AllDigits (t : Text) : Prop :=
  forall c, c ∈ t -> c.isDigit = true

theorem valueOf_append (a b : Text) :
    valueOf (a ++ b) = 10 ^ b.length * valueOf a + valueOf b := by
  rw [valueOf, Nat.ofDigitChars_append, Nat.ofDigitChars_eq_ofDigitChars_zero]
  rfl

theorem isDigit_iff {c : Char} : c.isDigit = true <-> 48 ≤ c.toNat ∧ c.toNat ≤ 57 := by
  simp only [Char.isDigit, Bool.and_eq_true, decide_eq_true_eq, UInt32.le_iff_toNat_le]
  exact Iff.rfl

theorem valueOf_concat (digits : Text) (c : Char) :
    valueOf (digits ++ [c]) = 10 * valueOf digits + (c.toNat - 48) := by
  rw [valueOf_append]
  simp [valueOf, Nat.ofDigitChars_cons]

theorem valueOf_lt {digits : Text} (h : AllDigits digits) :
    valueOf digits < 10 ^ digits.length := by
  induction digits using List.reverseRecOn with
  | nil => decide
  | append_singleton digits c ih =>
    have hc := isDigit_iff.mp (h c (by simp))
    have hlt := ih fun c' hc' => h c' (List.mem_append_left _ hc')
    rw [valueOf_concat, List.length_append, List.length_singleton, Nat.pow_succ]
    omega

theorem digitChar_of_isDigit {c : Char} (h : c.isDigit = true) :
    Nat.digitChar (c.toNat - 48) = c := by
  rcases isDigit_iff.mp h with ⟨hlow, hhigh⟩
  rw [<- Char.ofNat_toNat c]
  generalize c.toNat = n at hlow hhigh
  interval_cases n <;> rfl

theorem head?_toDigits {n : Nat} (h : 0 < n) : (Nat.toDigits 10 n).head? ≠ some '0' := by
  induction n using Nat.strongRecOn with
  | ind n ih =>
    rw [Nat.toDigits_eq_if (by decide)]
    split
    · interval_cases n <;> decide
    · rw [List.head?_append_of_ne_nil _ Nat.toDigits_ne_nil]
      exact ih (n / 10) (by omega) (by omega)

def NoLeadingZero (t : Text) : Prop :=
  t = ['0'] ∨ t.head? ≠ some '0'

theorem toDigits_valueOf_iff {t : Text} (hne : t ≠ []) (h : AllDigits t) :
    Nat.toDigits 10 (valueOf t) = t <-> NoLeadingZero t := by
  constructor
  · intro heq
    rcases Nat.eq_zero_or_pos (valueOf t) with hzero | hpos
    · rw [hzero, Nat.toDigits_zero] at heq
      exact Or.inl heq.symm
    · rw [<- heq]
      exact Or.inr (head?_toDigits hpos)
  · rintro (rfl | hhead)
    · rfl
    induction t using List.reverseRecOn with
    | nil => exact absurd rfl hne
    | append_singleton front c ih =>
      have hc := h c (by simp)
      have hdigit : c.toNat - 48 < 10 := by
        have hc' := isDigit_iff.mp hc
        omega
      have hlast : Nat.toDigits 10 (c.toNat - 48) = [c] := by
        rw [Nat.toDigits_of_lt_base hdigit, digitChar_of_isDigit hc]
      rw [valueOf_concat]
      by_cases hnil : front = []
      · rw [hnil]
        exact (congrArg (Nat.toDigits 10) (Nat.zero_add _)).trans hlast
      rw [List.head?_append_of_ne_nil _ hnil] at hhead
      have hfront := ih hnil (fun c' hc' => h c' (List.mem_append_left _ hc')) hhead
      have hpos : 0 < valueOf front := by
        rcases Nat.eq_zero_or_pos (valueOf front) with hzero | hpos
        · rw [hzero, Nat.toDigits_zero] at hfront
          rw [<- hfront] at hhead
          exact absurd rfl hhead
        · exact hpos
      rw [<- Nat.toDigits_append_toDigits (by decide) hpos hdigit, hfront, hlast]

end Foundation
end Splora
