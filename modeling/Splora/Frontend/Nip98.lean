import Splora.Foundation.Text

/-!
# The header of the NIP-98 builder

The encoder of the front end writes standard base64.  The decoder of RFC 4648 that it is
compared with is strict: bits under the padding are zero.
-/

namespace Splora
namespace Frontend

open Foundation

def base64Alphabet : Text :=
  "ABCDEFGHIJKLMNOPQRSTUVWXYZabcdefghijklmnopqrstuvwxyz0123456789+/".toList

def base64Letter (index : Nat) : Char :=
  base64Alphabet.getD index '='

def pushQuantum (out : Text) (b0 b1 b2 : UInt8) (significant : Nat) : Text :=
  let n := b0.toNat <<< 16 ||| b1.toNat <<< 8 ||| b2.toNat
  let indexes := [n >>> 18 &&& 0x3f, n >>> 12 &&& 0x3f, n >>> 6 &&& 0x3f, n &&& 0x3f]
  out ++ (indexes.take significant).map base64Letter ++ List.replicate (4 - significant) '='

def base64Chunks (out : Text) : List UInt8 -> Text
  | b0 :: b1 :: b2 :: rest => base64Chunks (pushQuantum out b0 b1 b2 4) rest
  | [b0] => pushQuantum out b0 0 0 2
  | [b0, b1] => pushQuantum out b0 b1 0 3
  | [] => out

def standardBase64 (input : List UInt8) : Text :=
  base64Chunks [] input

/-!
## The strict decoder
-/

/-- The table of RFC 4648, section 4. -/
def sextet (c : Char) : Option Nat :=
  if 'A' ≤ c ∧ c ≤ 'Z' then some (c.toNat - 65)
  else if 'a' ≤ c ∧ c ≤ 'z' then some (c.toNat - 97 + 26)
  else if '0' ≤ c ∧ c ≤ '9' then some (c.toNat - 48 + 52)
  else if c = '+' then some 62
  else if c = '/' then some 63
  else none

def decodeBase64 : Text -> Option (List UInt8)
  | [] => some []
  | [c0, c1, '=', '='] => do
    let x <- sextet c0
    let y <- sextet c1
    if y % 16 = 0 then some [UInt8.ofNat (x * 4 + y / 16)] else none
  | [c0, c1, c2, '='] => do
    let x <- sextet c0
    let y <- sextet c1
    let z <- sextet c2
    if z % 4 = 0 then
      some [UInt8.ofNat (x * 4 + y / 16), UInt8.ofNat (y % 16 * 16 + z / 4)]
    else none
  | c0 :: c1 :: c2 :: c3 :: rest => do
    let x <- sextet c0
    let y <- sextet c1
    let z <- sextet c2
    let w <- sextet c3
    let bytes <- decodeBase64 rest
    some (UInt8.ofNat (x * 4 + y / 16) :: UInt8.ofNat (y % 16 * 16 + z / 4) ::
      UInt8.ofNat (z % 4 * 64 + w) :: bytes)
  | _ => none

/-!
## Quanta
-/

theorem base64Letter_spec {i : Nat} (h : i < 64) :
    sextet (base64Letter i) = some i ∧ base64Letter i ∈ base64Alphabet ∧ base64Letter i ≠ '=' := by
  have hall : forall i, i < 64 -> sextet (base64Letter i) = some i ∧
      base64Letter i ∈ base64Alphabet ∧ base64Letter i ≠ '=' := by
    decide +kernel
  exact hall i h

theorem quantum_eq (b0 b1 b2 : UInt8) :
    b0.toNat <<< 16 ||| b1.toNat <<< 8 ||| b2.toNat =
      b0.toNat * 65536 + b1.toNat * 256 + b2.toNat := by
  have h1 := b1.toNat_lt
  have hlow : b1.toNat <<< 8 ||| b2.toNat = b1.toNat * 256 + b2.toNat := by
    rw [← Nat.shiftLeft_add_eq_or_of_lt b2.toNat_lt, Nat.shiftLeft_eq]
  have hlt : b1.toNat * 256 + b2.toNat < 2 ^ 16 := by
    have h2 := b2.toNat_lt
    omega
  rw [Nat.or_assoc, hlow, ← Nat.shiftLeft_add_eq_or_of_lt hlt, Nat.shiftLeft_eq]
  omega

theorem pushQuantum_eq (out : Text) (b0 b1 b2 : UInt8) (significant : Nat) :
    pushQuantum out b0 b1 b2 significant = out ++
      ([b0.toNat / 4, b0.toNat % 4 * 16 + b1.toNat / 16, b1.toNat % 16 * 4 + b2.toNat / 64,
        b2.toNat % 64].take significant).map base64Letter ++
      List.replicate (4 - significant) '=' := by
  have h0 := b0.toNat_lt
  have h1 := b1.toNat_lt
  have h2 := b2.toNat_lt
  have hmask (k : Nat) : k &&& 0x3f = k % 64 := Nat.and_two_pow_sub_one_eq_mod k 6
  have hall : forall n, n = b0.toNat * 65536 + b1.toNat * 256 + b2.toNat ->
      n / 2 ^ 18 % 64 = b0.toNat / 4 ∧
      n / 2 ^ 12 % 64 = b0.toNat % 4 * 16 + b1.toNat / 16 ∧
      n / 2 ^ 6 % 64 = b1.toNat % 16 * 4 + b2.toNat / 64 ∧ n % 64 = b2.toNat % 64 := by
    intro n hn
    omega
  rcases hall _ rfl with ⟨hi, hj, hk, hl⟩
  simp only [pushQuantum, quantum_eq, hmask, Nat.shiftRight_eq_div_pow, hi, hj, hk, hl]

theorem base64Chunks_append (front out : Text) (input : List UInt8) :
    base64Chunks (front ++ out) input = front ++ base64Chunks out input := by
  fun_induction base64Chunks out input <;> simp_all [base64Chunks, pushQuantum_eq]

structure Rfc4648 (text : Text) (bytes : List UInt8) : Prop where
  length_eq : text.length = 4 * ((bytes.length + 2) / 3)
  padded : exists body pad, text = body ++ List.replicate pad '=' ∧ pad ≤ 2 ∧
    forall c, c ∈ body -> c ∈ base64Alphabet
  decodes : decodeBase64 text = some bytes

theorem decodeBase64_two {x y : Nat} (hx : x < 64) (hy : y < 64) (hzero : y % 16 = 0) :
    decodeBase64 [base64Letter x, base64Letter y, '=', '='] =
      some [UInt8.ofNat (x * 4 + y / 16)] := by
  simp only [decodeBase64, base64Letter_spec hx, base64Letter_spec hy, hzero,
    Option.bind_eq_bind, Option.bind_some, if_true]

theorem decodeBase64_three {x y z : Nat} (hx : x < 64) (hy : y < 64) (hz : z < 64)
    (hzero : z % 4 = 0) :
    decodeBase64 [base64Letter x, base64Letter y, base64Letter z, '='] =
      some [UInt8.ofNat (x * 4 + y / 16), UInt8.ofNat (y % 16 * 16 + z / 4)] := by
  rw [decodeBase64.eq_3 _ _ _ fun h => (base64Letter_spec hz).right.right h]
  simp only [base64Letter_spec hx, base64Letter_spec hy, base64Letter_spec hz, hzero,
    Option.bind_eq_bind, Option.bind_some, if_true]

theorem decodeBase64_four {x y z w : Nat} (hx : x < 64) (hy : y < 64) (hz : z < 64)
    (hw : w < 64) {rest : Text} {bytes : List UInt8}
    (hrest : decodeBase64 rest = some bytes) :
    decodeBase64 (base64Letter x :: base64Letter y :: base64Letter z :: base64Letter w ::
      rest) = some (UInt8.ofNat (x * 4 + y / 16) :: UInt8.ofNat (y % 16 * 16 + z / 4) ::
        UInt8.ofNat (z % 4 * 64 + w) :: bytes) := by
  have hpad := (base64Letter_spec hw).right.right
  rw [decodeBase64.eq_4 _ _ _ _ _ (by simp [hpad]) (by simp [hpad])]
  simp only [base64Letter_spec hx, base64Letter_spec hy, base64Letter_spec hz,
    base64Letter_spec hw, hrest, Option.bind_eq_bind, Option.bind_some]

theorem ofNat_eq {b : UInt8} {n : Nat} (h : n = b.toNat) : UInt8.ofNat n = b := by
  rw [h, UInt8.ofNat_toNat]

/-- The output is RFC 4648: its length, its alphabet, its padding and what it decodes to. -/
theorem rfc4648_standardBase64 : forall input, Rfc4648 (standardBase64 input) input
  | [] => ⟨rfl, ⟨[], 0, rfl, by simp, nofun⟩, rfl⟩
  | [b0] => by
    have h0 := b0.toNat_lt
    have hx : b0.toNat / 4 < 64 := by omega
    have hy : b0.toNat % 4 * 16 < 64 := by omega
    have heq : standardBase64 [b0] = [base64Letter (b0.toNat / 4),
        base64Letter (b0.toNat % 4 * 16)] ++ List.replicate 2 '=' := by
      simp [standardBase64, base64Chunks, pushQuantum_eq]
    refine ⟨by simp [heq], ⟨_, 2, heq, Nat.le_refl 2, ?_⟩, ?_⟩
    · simp [base64Letter_spec hx, base64Letter_spec hy]
    · rw [heq]
      exact (decodeBase64_two hx hy (by omega)).trans (by rw [ofNat_eq (b := b0) (by omega)])
  | [b0, b1] => by
    have h0 := b0.toNat_lt
    have h1 := b1.toNat_lt
    have hx : b0.toNat / 4 < 64 := by omega
    have hy : b0.toNat % 4 * 16 + b1.toNat / 16 < 64 := by omega
    have hz : b1.toNat % 16 * 4 < 64 := by omega
    have heq : standardBase64 [b0, b1] = [base64Letter (b0.toNat / 4),
        base64Letter (b0.toNat % 4 * 16 + b1.toNat / 16),
        base64Letter (b1.toNat % 16 * 4)] ++ List.replicate 1 '=' := by
      simp [standardBase64, base64Chunks, pushQuantum_eq]
    refine ⟨by simp [heq], ⟨_, 1, heq, by simp, ?_⟩, ?_⟩
    · simp [base64Letter_spec hx, base64Letter_spec hy, base64Letter_spec hz]
    · rw [heq]
      exact (decodeBase64_three hx hy hz (by omega)).trans
        (by rw [ofNat_eq (b := b0) (by omega), ofNat_eq (b := b1) (by omega)])
  | b0 :: b1 :: b2 :: rest => by
    have ih := rfc4648_standardBase64 rest
    have h0 := b0.toNat_lt
    have h1 := b1.toNat_lt
    have h2 := b2.toNat_lt
    have hx : b0.toNat / 4 < 64 := by omega
    have hy : b0.toNat % 4 * 16 + b1.toNat / 16 < 64 := by omega
    have hz : b1.toNat % 16 * 4 + b2.toNat / 64 < 64 := by omega
    have hw : b2.toNat % 64 < 64 := by omega
    have heq : standardBase64 (b0 :: b1 :: b2 :: rest) = base64Letter (b0.toNat / 4) ::
        base64Letter (b0.toNat % 4 * 16 + b1.toNat / 16) ::
        base64Letter (b1.toNat % 16 * 4 + b2.toNat / 64) ::
        base64Letter (b2.toNat % 64) :: standardBase64 rest := by
      rw [standardBase64, base64Chunks, ← List.append_nil (pushQuantum ..),
        base64Chunks_append, pushQuantum_eq]
      rfl
    rcases ih.padded with ⟨body, pad, hpadded, hpad, hbody⟩
    refine ⟨?_, ⟨_ :: _ :: _ :: _ :: body, pad, by rw [heq, hpadded]; rfl, hpad, ?_⟩, ?_⟩
    · simp only [heq, List.length_cons, ih.length_eq]
      omega
    · simp only [List.forall_mem_cons]
      exact ⟨(base64Letter_spec hx).2.1, (base64Letter_spec hy).2.1,
        (base64Letter_spec hz).2.1, (base64Letter_spec hw).2.1, hbody⟩
    · rw [heq, decodeBase64_four hx hy hz hw ih.decodes, ofNat_eq (b := b0) (by omega),
        ofNat_eq (b := b1) (by omega), ofNat_eq (b := b2) (by omega)]

end Frontend
end Splora
