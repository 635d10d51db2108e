import Mathlib

/-!
# Fixed-width byte encodings

Lexicographic comparison of concatenated fixed-width fields, encodings of bounded naturals, and
the convexity of the strings that share a prefix.
-/

namespace Splora
namespace Foundation

/-!
## Lexicographic comparison of concatenations
-/

theorem compare_append [Ord α] :
    forall {a a' b b' : List α}, a.length = a'.length ->
      compare (a ++ b) (a' ++ b') = (compare a a').then (compare b b')
  | [], [], _, _, _ => rfl
  | x :: a, y :: a', b, b', h => by
      have htail : a.length = a'.length := by simpa using h
      rw [List.cons_append, List.cons_append, List.compare_cons_cons,
        List.compare_cons_cons, compare_append htail, Ordering.then_assoc]

theorem compare_append_same [Ord α] [Std.ReflOrd α] (a b b' : List α) :
    compare (a ++ b) (a ++ b') = compare b b' := by
  have hrefl : compare a a = .eq := Std.ReflOrd.compare_self
  rw [compare_append rfl, hrefl]
  rfl

theorem isPrefixOf_of_between [Ord α] [BEq α] [LawfulBEq α]
    [Std.OrientedOrd α] [Std.LawfulEqOrd α] :
    forall {p s x y : List α}, p.isPrefixOf s = true ->
      p.isPrefixOf y = true -> compare s x ≠ .gt -> compare x y ≠ .gt ->
      p.isPrefixOf x = true
  | [], _, _, _, _, _, _, _ => rfl
  | a :: p, [], _, _, hs, _, _, _ => by cases hs
  | a :: p, _ :: _, _, [], _, hy, _, _ => by cases hy
  | a :: p, _ :: s, [], _ :: _, _, _, hsx, _ => by
      exact absurd rfl hsx
  | a :: p, c :: s, d :: x, e :: y, hs, hy, hsx, hxy => by
      simp only [List.isPrefixOf, Bool.and_eq_true, beq_iff_eq] at hs hy
      rcases hs with ⟨rfl, hs⟩
      rcases hy with ⟨rfl, hy⟩
      rw [List.compare_cons_cons] at hsx hxy
      have had : a = d := by
        apply Std.LawfulEqOrd.eq_of_compare
        cases hcmp : compare a d with
        | eq => rfl
        | gt => simp [hcmp] at hsx
        | lt =>
          have hgt : compare d a = .gt := Std.OrientedCmp.gt_of_lt hcmp
          simp [hgt] at hxy
      subst had
      have hrefl : compare a a = .eq := Std.ReflOrd.compare_self
      rw [hrefl] at hsx hxy
      simp only [List.isPrefixOf, beq_self_eq_true, Bool.true_and]
      exact isPrefixOf_of_between hs hy hsx hxy

/-!
## Big-endian fields
-/

def bigEndian : Nat -> Nat -> List UInt8
  | 0, _ => []
  | width + 1, n => bigEndian width (n / 256) ++ [UInt8.ofNat n]

@[simp] theorem length_bigEndian (width n : Nat) : (bigEndian width n).length = width := by
  induction width generalizing n with
  | zero => rfl
  | succ width ih =>
    simp [bigEndian, ih]

theorem compare_uint8_ofNat (m n : Nat) :
    compare (UInt8.ofNat m) (UInt8.ofNat n) = compare (m % 256) (n % 256) := by
  have hlt : UInt8.ofNat m < UInt8.ofNat n <-> m % 256 < n % 256 := by
    simp [UInt8.lt_iff_toNat_lt]
  have heq : UInt8.ofNat m = UInt8.ofNat n <-> m % 256 = n % 256 := by
    simp [← UInt8.toNat_inj]
  change compareOfLessAndEq _ _ = compareOfLessAndEq _ _
  simp only [compareOfLessAndEq, hlt, heq]

theorem compare_div_then_mod (m n : Nat) :
    (compare (m / 256) (n / 256)).then (compare (m % 256) (n % 256)) =
      compare m n := by
  have hm := Nat.div_add_mod m 256
  have hn := Nat.div_add_mod n 256
  have hmlt := Nat.mod_lt m (show 256 > 0 by decide)
  have hnlt := Nat.mod_lt n (show 256 > 0 by decide)
  rcases Nat.lt_trichotomy (m / 256) (n / 256) with h | h | h
  · have hmn : m < n := by omega
    rw [Nat.compare_eq_lt.mpr h, Nat.compare_eq_lt.mpr hmn]
    rfl
  · rw [Nat.compare_eq_eq.mpr h]
    rcases Nat.lt_trichotomy (m % 256) (n % 256) with h' | h' | h'
    · have hmn : m < n := by omega
      rw [Nat.compare_eq_lt.mpr h', Nat.compare_eq_lt.mpr hmn]
      rfl
    · have hmn : m = n := by omega
      rw [Nat.compare_eq_eq.mpr h', Nat.compare_eq_eq.mpr hmn]
      rfl
    · have hmn : n < m := by omega
      rw [Nat.compare_eq_gt.mpr h', Nat.compare_eq_gt.mpr hmn]
      rfl
  · have hmn : n < m := by omega
    rw [Nat.compare_eq_gt.mpr h, Nat.compare_eq_gt.mpr hmn]
    rfl

variable {width n : Nat}

theorem div_lt_pow (h : n < 256 ^ (width + 1)) : n / 256 < 256 ^ width := by
  apply Nat.div_lt_of_lt_mul
  rwa [Nat.pow_succ, Nat.mul_comm] at h

theorem compare_bigEndian {m : Nat} (hm : m < 256 ^ width) (hn : n < 256 ^ width) :
    compare (bigEndian width m) (bigEndian width n) = compare m n := by
  induction width generalizing m n with
  | zero =>
    have hm0 : m = 0 := by simpa using hm
    have hn0 : n = 0 := by simpa using hn
    rw [hm0, hn0]
    rfl
  | succ width ih =>
    have hbyte :
        compare [UInt8.ofNat m] [UInt8.ofNat n] = compare (m % 256) (n % 256) := by
      rw [List.compare_cons_cons, compare_uint8_ofNat]
      exact Ordering.then_eq
    rw [bigEndian, bigEndian, compare_append (by simp), ih (div_lt_pow hm) (div_lt_pow hn), hbyte]
    exact compare_div_then_mod m n

def readBigEndian (digits : List UInt8) : Nat :=
  digits.foldl (fun n byte => 256 * n + byte.toNat) 0

theorem readBigEndian_bigEndian (hn : n < 256 ^ width) : readBigEndian (bigEndian width n) = n := by
  induction width generalizing n with
  | zero =>
    have hn0 : n = 0 := by simpa using hn
    rw [hn0]
    rfl
  | succ width ih =>
    have hmod : (UInt8.ofNat n).toNat = n % 256 := by simp
    rw [bigEndian, readBigEndian, List.foldl_append]
    show 256 * readBigEndian (bigEndian width (n / 256)) + (UInt8.ofNat n).toNat = n
    rw [ih (div_lt_pow hn), hmod]
    exact Nat.div_add_mod n 256

theorem bigEndian_inj {m : Nat} (hm : m < 256 ^ width) (hn : n < 256 ^ width)
    (h : bigEndian width m = bigEndian width n) : m = n := by
  rw [<- readBigEndian_bigEndian hm, h, readBigEndian_bigEndian hn]

def readBig (width : Nat) (bytes : List UInt8) : Option (Nat × List UInt8) :=
  if bytes.length < width then
    none
  else
    some (readBigEndian (bytes.take width), bytes.drop width)

@[simp] theorem readBig_append (hn : n < 256 ^ width) (rest : List UInt8) :
    readBig width (bigEndian width n ++ rest) = some (n, rest) := by
  have hlength : ¬ (bigEndian width n ++ rest).length < width := by
    rw [List.length_append, length_bigEndian]
    omega
  rw [readBig, if_neg hlength, List.take_left' (length_bigEndian width n),
    List.drop_left' (length_bigEndian width n), readBigEndian_bigEndian hn]

/-!
## Little-endian fields
-/

def littleEndian : Nat -> Nat -> List UInt8
  | 0, _ => []
  | width + 1, n => UInt8.ofNat n :: littleEndian width (n / 256)

@[simp] theorem length_littleEndian (width n : Nat) : (littleEndian width n).length = width := by
  induction width generalizing n with
  | zero => rfl
  | succ width ih =>
    simp [littleEndian, ih]

def readLittleEndian : List UInt8 -> Nat
  | [] => 0
  | byte :: rest => byte.toNat + 256 * readLittleEndian rest

theorem readLittleEndian_littleEndian (hn : n < 256 ^ width) :
    readLittleEndian (littleEndian width n) = n := by
  induction width generalizing n with
  | zero =>
    have hn0 : n = 0 := by simpa using hn
    rw [hn0]
    rfl
  | succ width ih =>
    have hmod : (UInt8.ofNat n).toNat = n % 256 := by simp
    rw [littleEndian, readLittleEndian, ih (div_lt_pow hn), hmod]
    omega

theorem readLittleEndian_lt (bytes : List UInt8) : readLittleEndian bytes < 256 ^ bytes.length := by
  induction bytes with
  | nil => decide
  | cons byte rest ih =>
    have hbyte := byte.toNat_lt
    rw [readLittleEndian, List.length_cons, Nat.pow_succ]
    omega

theorem littleEndian_readLittleEndian (bytes : List UInt8) :
    littleEndian bytes.length (readLittleEndian bytes) = bytes := by
  induction bytes with
  | nil => rfl
  | cons byte rest ih =>
    have hbyte := byte.toNat_lt
    have hdiv : (byte.toNat + 256 * readLittleEndian rest) / 256 = readLittleEndian rest := by
      omega
    have hmod : UInt8.ofNat (byte.toNat + 256 * readLittleEndian rest) = byte := by
      apply UInt8.toNat_inj.mp
      simp
    rw [List.length_cons, readLittleEndian, littleEndian, hdiv, hmod, ih]

theorem littleEndian_inj {m : Nat} (hm : m < 256 ^ width) (hn : n < 256 ^ width)
    (h : littleEndian width m = littleEndian width n) : m = n := by
  rw [<- readLittleEndian_littleEndian hm, h, readLittleEndian_littleEndian hn]

end Foundation
end Splora
