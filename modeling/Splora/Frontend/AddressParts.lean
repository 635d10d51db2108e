import Splora.Foundation.Text

/-!
# Parts of an address that another one resembles

Two addresses are compared from both ends, with one gap allowed.  What matched is cut to sixteen
characters on each side; the cuts may overlap in a short address.
-/

namespace Splora
namespace Frontend

open Foundation

structure FuzzyMatch where
  score : Nat
  matchA : Text
  matchB : Text

def fuzzyLoop (address other : Text) (gap discounted : Bool) (m : FuzzyMatch) :
    FuzzyMatch :=
  match address, other with
  | a :: address, b :: other =>
    if a = b then
      fuzzyLoop address other gap false {
        score := m.score + if discounted then 1 else 2
        matchA := m.matchA ++ [a]
        matchB := m.matchB ++ [b] }
    else if gap then m
    else if address.head?.isSome && address.head? = other.head? then
      fuzzyLoop address other true true
        { m with matchA := m.matchA ++ [a], matchB := m.matchB ++ [b] }
    else if address.head? = some b then
      fuzzyLoop address (b :: other) true true { m with matchA := m.matchA ++ [a] }
    else if other.head? = some a then
      fuzzyLoop (a :: address) other true true { m with matchB := m.matchB ++ [b] }
    else fuzzyLoop address other true true m
  | _, _ => m
termination_by address.length + other.length

def fuzzyPrefixMatch (address other : Text) (rtl : Bool) : FuzzyMatch :=
  let start : FuzzyMatch := { score := 0, matchA := [], matchB := [] }
  if rtl then
    let m := fuzzyLoop address.reverse other.reverse false false start
    { m with matchA := m.matchA.reverse, matchB := m.matchB.reverse }
  else fuzzyLoop address other false false start

structure AddressParts where
  prefixPart : Text
  infixPart : Text
  postfixPart : Text

def displayCap : Nat := 16

def screenParts (address matchPrefix matchPostfix : Text) : AddressParts :=
  let start := min matchPrefix.length displayCap
  let cut := min matchPostfix.length displayCap
  let stop := if cut = 0 then address.length else address.length - cut
  { prefixPart := matchPrefix.take displayCap
    infixPart := if start ≥ stop then [] else (address.take stop).drop start
    postfixPart := matchPostfix.drop (matchPostfix.length - displayCap) }

def AddressParts.text (parts : AddressParts) : Text :=
  parts.prefixPart ++ parts.infixPart ++ parts.postfixPart

/-!
## Matches
-/

theorem fuzzyLoop_stops {address other : Text} {discounted : Bool} {m : FuzzyMatch}
    (h : ¬ (address.head?.isSome && address.head? = other.head?) = true) :
    fuzzyLoop address other true discounted m = m := by
  unfold fuzzyLoop
  cases address with
  | nil => rfl
  | cons a address =>
    cases other with
    | nil => rfl
    | cons b other =>
      have hne : a ≠ b := by simpa using h
      simp [hne]

theorem exists_cons_starts {a : Char} {address read r : Text}
    (h : exists front, front <+: address ∧ r = (read ++ [a]) ++ front) :
    exists front, front <+: a :: address ∧ r = read ++ front := by
  rcases h with ⟨front, hfront, heq⟩
  exact ⟨a :: front, List.cons_prefix_cons.mpr ⟨rfl, hfront⟩, by simpa using heq⟩

theorem exists_matchA (address other : Text) (gap discounted : Bool) (m : FuzzyMatch) :
    exists front, front <+: address ∧
      (fuzzyLoop address other gap discounted m).matchA = m.matchA ++ front := by
  fun_induction fuzzyLoop address other gap discounted m with
  | case1 _ _ _ _ _ _ ih => exact exists_cons_starts ih
  | case3 _ _ _ _ _ _ _ _ _ _ ih => exact exists_cons_starts ih
  | case4 _ _ _ _ _ _ _ _ _ _ _ ih => exact exists_cons_starts ih
  | case5 _ _ _ _ _ _ _ _ _ _ _ _ ih => exact ih
  | case6 _ _ _ _ _ _ _ _ _ hboth _ _ _ =>
    rw [fuzzyLoop_stops hboth]
    exact ⟨[], List.nil_prefix, (List.append_nil _).symm⟩
  | _ => exact ⟨[], List.nil_prefix, (List.append_nil _).symm⟩

theorem matchA_starts (address other : Text) :
    (fuzzyPrefixMatch address other false).matchA <+: address := by
  rcases exists_matchA address other false false { score := 0, matchA := [], matchB := [] }
    with ⟨front, hfront, heq⟩
  exact heq ▸ hfront

theorem matchA_ends (address other : Text) :
    (fuzzyPrefixMatch address other true).matchA <:+ address := by
  rcases exists_matchA address.reverse other.reverse false false
    { score := 0, matchA := [], matchB := [] } with ⟨front, hfront, heq⟩
  rw [← List.reverse_prefix]
  show (fuzzyLoop _ _ _ _ _).matchA.reverse.reverse <+: _
  rw [List.reverse_reverse, heq]
  exact hfront

/-!
## What is shown
-/

theorem take_of_starts {front address : Text} (h : front <+: address) (n : Nat) :
    front.take n = address.take (min front.length n) := by
  rw [List.prefix_iff_eq_take.mp h, List.take_take, List.length_take,
    Nat.min_eq_left h.length_le, Nat.min_comm]

theorem drop_of_ends {back address : Text} (h : back <:+ address) (n : Nat) :
    back.drop (back.length - n) = address.drop (address.length - min back.length n) := by
  rcases h with ⟨start, rfl⟩
  have hsplit : (start ++ back).length - min back.length n = start.length + (back.length - n) := by
    rw [List.length_append]
    omega
  rw [hsplit, List.drop_length_add_append]

theorem take_append_middle {address : Text} {i k : Nat} (h : i + k ≤ address.length) :
    address.take i ++ (address.take (address.length - k)).drop i ++
      address.drop (address.length - k) = address := by
  have htake : address.take i = (address.take (address.length - k)).take i := by
    rw [List.take_take, Nat.min_eq_left (by omega)]
  rw [htake, List.take_append_drop, List.take_append_drop]

theorem text_screenParts_iff {address front back : Text} (hfront : front <+: address)
    (hback : back <:+ address) :
    (screenParts address front back).text = address <->
      min front.length displayCap + min back.length displayCap ≤ address.length := by
  constructor
  · intro h
    have hlength := congrArg List.length h
    simp only [AddressParts.text, screenParts, List.length_append, List.length_take,
      List.length_drop] at hlength
    omega
  · intro h
    simp only [AddressParts.text, screenParts, take_of_starts hfront, drop_of_ends hback]
    generalize min front.length displayCap = i at h ⊢
    generalize min back.length displayCap = k at h ⊢
    have hstop : (if k = 0 then address.length else address.length - k) = address.length - k := by
      split <;> omega
    have hmiddle : (if i ≥ address.length - k then []
        else (address.take (address.length - k)).drop i) =
          (address.take (address.length - k)).drop i := by
      split
      · rw [List.drop_eq_nil_of_le]
        simp only [List.length_take]
        omega
      · rfl
    rw [hstop, hmiddle, take_append_middle h]

/-- What matched is a beginning and an end.  The parts shown make up an address of at least 32
characters; a shorter one exactly if the cuts do not overlap. -/
theorem shown_address_iff (address other : Text) :
    (fuzzyPrefixMatch address other false).matchA <+: address ∧
    (fuzzyPrefixMatch address other true).matchA <:+ address ∧
    (2 * displayCap ≤ address.length ->
      (screenParts address (fuzzyPrefixMatch address other false).matchA
        (fuzzyPrefixMatch address other true).matchA).text = address) ∧
    ((screenParts address (fuzzyPrefixMatch address other false).matchA
        (fuzzyPrefixMatch address other true).matchA).text = address <->
      min (fuzzyPrefixMatch address other false).matchA.length displayCap +
        min (fuzzyPrefixMatch address other true).matchA.length displayCap ≤
          address.length) := by
  have hiff := text_screenParts_iff (matchA_starts address other) (matchA_ends address other)
  refine ⟨matchA_starts address other, matchA_ends address other, ?_, hiff⟩
  intro hlong
  exact hiff.mpr (by omega)

/-- Two texts of 27 characters that differ in the middle one only. -/
theorem shown_address_repeats :
    (screenParts "1BoatSLRHtKNngkdXEeobR76b53".toList
      (fuzzyPrefixMatch "1BoatSLRHtKNngkdXEeobR76b53".toList
        "1BoatSLRHtKNnzkdXEeobR76b53".toList false).matchA
      (fuzzyPrefixMatch "1BoatSLRHtKNngkdXEeobR76b53".toList
        "1BoatSLRHtKNnzkdXEeobR76b53".toList true).matchA).text =
      "1BoatSLRHtKNngkdNngkdXEeobR76b53".toList ∧
    "1BoatSLRHtKNngkdNngkdXEeobR76b53".toList ≠ "1BoatSLRHtKNngkdXEeobR76b53".toList := by
  constructor
  · simp [fuzzyPrefixMatch, fuzzyLoop, screenParts, displayCap, AddressParts.text]
  · decide

end Frontend
end Splora
