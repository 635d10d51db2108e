import Splora.Util.ElectrumMerkle

/-!
# `blockchain.block.headers`

A client asks for the headers of a range of heights, with the proof of the last one below
a checkpoint.  The heights are machine numbers, whose sum wraps in a release build.
-/

namespace Splora
namespace Electrum

open Foundation NewIndex ElectrumMerkle
open Mwck (txidText)

def maxHeaders : UInt64 := 2016

def usizeFromValueOr (val : Option Value) (name : Text) (default : UInt64) :
    Except Error UInt64 :=
  if val.isNone then .ok default else usizeFromValue val name

def headerHex (entry : HeaderEntry) : Text :=
  Auth.hexEncode (headerBytes entry.header)

def heightRange (first past : UInt64) : List Nat :=
  List.range' first.toNat (past.toNat - first.toNat)

def headersReply (headers : List Text) (proof : List (Text × Value)) : Value :=
  .obj ([("count".toList, .unsigned headers.length.toUInt64),
    ("hex".toList, .str headers.flatten), ("max".toList, .unsigned maxHeaders)] ++ proof)

def proofFields (branch : List FullHash) (root : FullHash) : List (Text × Value) :=
  [("root".toList, .str (txidText root)),
    ("branch".toList, .arr (branch.map fun hash => .str (txidText hash)))]

def blockchainBlockHeaders (sha256d : Bytes -> FullHash) (store : Store)
    (params : List Value) : Except Failure Value := do
  let startHeight <-
    (usizeFromValue params[0]? "start_height".toList).mapError .message
  let count <- (usizeFromValue params[1]? "count".toList).mapError .message
  let count := min maxHeaders count
  let cpHeight <- (usizeFromValueOr params[2]? "cp_height".toList 0).mapError .message
  let found <- ((heightRange startHeight (startHeight + count)).mapM
    store.indexedHeaders.headerByHeight).mapError .aborted
  let headers := found.filterMap fun entry => entry.map headerHex
  if count = 0 ∨ cpHeight = 0 then
    return headersReply headers []
  else
    let (branch, root) <- getHeaderMerkleProof sha256d store
      (startHeight + (count - 1)).toNat cpHeight.toNat
    return headersReply headers (proofFields branch root)

/-!
## Exact replies
-/

def headersParams (startHeight count : UInt64) (cpHeight : Option UInt64) : List Value :=
  [.unsigned startHeight, .unsigned count] ++ (cpHeight.map Value.unsigned).toList

def headersFrom (blocks : List Block) (first count : Nat) : List Text :=
  ((blocks.drop first).take count).map fun b => Auth.hexEncode (headerBytes b.header)

def HeadersExact (sha256d : Bytes -> FullHash) (blocks : List Block)
    (startHeight count cpHeight : UInt64) (reply : Except Failure Value) : Prop :=
  let headers := headersFrom blocks startHeight.toNat (min count.toNat 2016)
  if count = 0 ∨ cpHeight = 0 then
    reply = .ok (headersReply headers [])
  else
    (exists text, reply = .error (.message text)) ∨
    exists branch root, headers ≠ [] ∧ Merkle.Proves (merklize sha256d)
        ((blocks.take (cpHeight.toNat + 1)).map Block.hash)
        (startHeight.toNat + headers.length - 1) branch root ∧
      reply = .ok (headersReply headers (proofFields branch root))

section Exact

variable {T : BlockTree} {cfg : IndexerConfig} {store : Store} {blocks : List Block}
  {s : Set BlockEntry} {startHeight count : UInt64} {cpHeight : Option UInt64}

theorem filterMap_range' {α : Type} (l : List α) (first count : Nat) :
    (List.range' first count).filterMap (fun i => l[i]?) = (l.drop first).take count := by
  induction count generalizing first with
  | zero => rfl
  | succ count ih =>
    rw [List.range'_succ]
    cases hget : l[first]? with
    | none =>
      have hlength : l.length ≤ first := List.getElem?_eq_none_iff.mp hget
      rw [List.filterMap_cons_none hget, ih, List.drop_eq_nil_of_le hlength,
        List.drop_eq_nil_of_le (by omega)]
      simp
    | some a =>
      rw [List.filterMap_cons_some hget, ih]
      rcases List.getElem?_eq_some_iff.mp hget with ⟨hlt, rfl⟩
      rw [List.drop_eq_getElem_cons hlt, List.take_succ_cons]

theorem exists_found (h : store.indexedHeaders.Represents blocks) (first past : UInt64) :
    exists found, (heightRange first past).mapM store.indexedHeaders.headerByHeight = .ok found ∧
      found.filterMap (fun entry => entry.map headerHex) =
        headersFrom blocks first.toNat (past.toNat - first.toNat) := by
  refine ⟨_, mapM_eq_ok_map fun height _ => h.headerByHeight_eq height, ?_⟩
  rw [List.filterMap_map, headersFrom, <- filterMap_range', List.map_filterMap]
  refine List.filterMap_congr fun height _ => ?_
  rw [Function.comp_apply, Option.map_map]
  rfl

theorem toNat_min_maxHeaders (count : UInt64) :
    (min maxHeaders count).toNat = min count.toNat 2016 := by
  have hmin : min maxHeaders count = if maxHeaders ≤ count then maxHeaders else count :=
    rfl
  rw [hmin]
  split
  case isTrue hle =>
    have hle' : 2016 ≤ count.toNat := UInt64.le_iff_toNat_le.mp hle
    rw [Nat.min_eq_right hle']
    rfl
  case isFalse hlt =>
    have hlt' : count.toNat < 2016 :=
      UInt64.lt_iff_toNat_lt.mp (UInt64.not_le.mp hlt)
    rw [Nat.min_eq_left (Nat.le_of_lt hlt')]

theorem headersFrom_eq_nil {first : Nat} (h : blocks.length ≤ first) (count : Nat) :
    headersFrom blocks first count = [] := by
  rw [headersFrom, List.drop_eq_nil_of_le h]
  simp

theorem length_headersFrom {first count : Nat} (h : first + count ≤ blocks.length) :
    (headersFrom blocks first count).length = count := by
  rw [headersFrom, List.length_map, List.length_take, List.length_drop]
  omega

theorem headersFrom_wrap (hlength : blocks.length < 2 ^ 32) (startHeight count : UInt64) :
    headersFrom blocks startHeight.toNat
        ((startHeight + min maxHeaders count).toNat - startHeight.toNat) =
      headersFrom blocks startHeight.toNat (min count.toNat 2016) := by
  rw [UInt64.toNat_add, toNat_min_maxHeaders]
  by_cases hfits : startHeight.toNat + min count.toNat 2016 < 2 ^ 64
  · rw [Nat.mod_eq_of_lt hfits, Nat.add_sub_cancel_left]
  · -- the range wraps only above all heights
    have hout : blocks.length ≤ startHeight.toNat := by omega
    rw [headersFrom_eq_nil hout, headersFrom_eq_nil hout]

theorem min_maxHeaders_eq_zero : min maxHeaders count = 0 <-> count = 0 := by
  rw [<- UInt64.toNat_inj, <- UInt64.toNat_inj, toNat_min_maxHeaders, UInt64.toNat_zero]
  omega

def lastHeight (startHeight count : UInt64) : Nat :=
  startHeight.toNat + (min count.toNat 2016 - 1)

theorem toNat_lastHeight (hcount : count ≠ 0) :
    (startHeight + (min maxHeaders count - 1)).toNat = lastHeight startHeight count % 2 ^ 64 := by
  have hpos : count.toNat ≠ 0 := fun hzero => hcount (UInt64.toNat_inj.mp hzero)
  have hone : (1 : UInt64) ≤ min maxHeaders count := by
    rw [UInt64.le_iff_toNat_le, toNat_min_maxHeaders, UInt64.toNat_one]
    omega
  rw [UInt64.toNat_add, UInt64.toNat_sub_of_le _ _ hone, toNat_min_maxHeaders,
    UInt64.toNat_one, lastHeight]

section

variable (sha256d : Bytes -> FullHash) (h : Inv T cfg store blocks s)

include sha256d h

theorem blockchainBlockHeaders_eq (startHeight count : UInt64) (cpHeight : Option UInt64) :
    blockchainBlockHeaders sha256d store (headersParams startHeight count cpHeight) =
      let headers := headersFrom blocks startHeight.toNat (min count.toNat 2016)
      if count = 0 ∨ cpHeight.getD 0 = 0 then
        .ok (headersReply headers [])
      else do
        let (branch, root) <- getHeaderMerkleProof sha256d store
          (lastHeight startHeight count % 2 ^ 64) (cpHeight.getD 0).toNat
        return headersReply headers (proofFields branch root) := by
  rcases exists_found h.headers startHeight (startHeight + min maxHeaders count) with
    ⟨found, hfound, hheaders⟩
  rw [headersFrom_wrap h.valid.length_lt] at hheaders
  have hstart : usizeFromValue (headersParams startHeight count cpHeight)[0]?
      "start_height".toList = .ok startHeight := rfl
  have hcount : usizeFromValue (headersParams startHeight count cpHeight)[1]?
      "count".toList = .ok count := rfl
  have hcp : usizeFromValueOr (headersParams startHeight count cpHeight)[2]?
      "cp_height".toList 0 = .ok (cpHeight.getD 0) := by
    cases cpHeight with
    | none => rfl
    | some n => rfl
  unfold blockchainBlockHeaders
  rw [hstart, hcount, hcp]
  simp only [Except.mapError, ok_bind, hfound, hheaders, min_maxHeaders_eq_zero]
  by_cases hnone : count = 0 ∨ cpHeight.getD 0 = 0
  · rw [if_pos hnone, if_pos hnone]
    rfl
  · rw [if_neg hnone, if_neg hnone, toNat_lastHeight fun heq => hnone (Or.inl heq)]

theorem headersExact_of_noProof (startHeight : UInt64) (hnone : count = 0 ∨ cpHeight.getD 0 = 0) :
    HeadersExact sha256d blocks startHeight count (cpHeight.getD 0)
      (blockchainBlockHeaders sha256d store (headersParams startHeight count cpHeight)) := by
  rw [blockchainBlockHeaders_eq sha256d h, HeadersExact]
  dsimp only
  rw [if_pos hnone, if_pos hnone]

theorem headersExact_of_fits (hproof : ¬ (count = 0 ∨ cpHeight.getD 0 = 0))
    (hfits : lastHeight startHeight count < 2 ^ 64) :
    HeadersExact sha256d blocks startHeight count (cpHeight.getD 0)
      (blockchainBlockHeaders sha256d store (headersParams startHeight count cpHeight)) := by
  have hpos : count.toNat ≠ 0 := fun hzero => hproof (Or.inl (UInt64.toNat_inj.mp hzero))
  rcases getHeaderMerkleProof_decides sha256d h.headers (lastHeight startHeight count)
    (cpHeight.getD 0).toNat with ⟨hin, hout⟩
  rw [blockchainBlockHeaders_eq sha256d h, HeadersExact, Nat.mod_eq_of_lt hfits]
  dsimp only
  rw [if_neg hproof, if_neg hproof]
  by_cases hrange : lastHeight startHeight count ≤ (cpHeight.getD 0).toNat ∧
      (cpHeight.getD 0).toNat < blocks.length
  · rcases hin hrange with ⟨⟨branch, root⟩, hok, hproves⟩
    have hlast := hrange.left.trans_lt hrange.right
    rw [lastHeight] at hlast hproves
    -- all headers of the range exist
    have hlength : (headersFrom blocks startHeight.toNat (min count.toNat 2016)).length =
        min count.toNat 2016 :=
      length_headersFrom (by omega)
    refine Or.inr ⟨branch, root, ?_, ?_, ?_⟩
    · refine List.ne_nil_of_length_pos ?_
      rw [hlength]
      omega
    · rw [hlength, Nat.add_sub_assoc (by omega)]
      exact hproves
    · rw [hok]
      rfl
  · rcases hout hrange with ⟨text, htext⟩
    refine Or.inl ⟨text, ?_⟩
    rw [htext]
    rfl

theorem headersExact_wrap_iff (startHeight count : UInt64) (cpHeight : Option UInt64)
    (hproof : ¬ (count = 0 ∨ cpHeight.getD 0 = 0))
    (hwrap : ¬ lastHeight startHeight count < 2 ^ 64) :
    HeadersExact sha256d blocks startHeight count (cpHeight.getD 0)
        (blockchainBlockHeaders sha256d store (headersParams startHeight count cpHeight)) <->
      ¬ (lastHeight startHeight count % 2 ^ 64 ≤ (cpHeight.getD 0).toNat ∧
        (cpHeight.getD 0).toNat < blocks.length) := by
  have hnil : headersFrom blocks startHeight.toNat (min count.toNat 2016) = [] := by
    refine headersFrom_eq_nil ?_ _
    have hlength := h.valid.length_lt
    rw [lastHeight] at hwrap
    omega
  rcases getHeaderMerkleProof_decides sha256d h.headers
    (lastHeight startHeight count % 2 ^ 64) (cpHeight.getD 0).toNat with ⟨hin, hout⟩
  rw [blockchainBlockHeaders_eq sha256d h, HeadersExact]
  dsimp only
  rw [if_neg hproof, if_neg hproof]
  constructor
  · intro hexact hrange
    rcases hin hrange with ⟨⟨branch, root⟩, hok, _⟩
    rw [hok] at hexact
    rcases hexact with ⟨text, htext⟩ | ⟨_, _, hne, _⟩
    · cases htext
    · exact hne hnil
  · intro hrange
    rcases hout hrange with ⟨text, htext⟩
    refine Or.inl ⟨text, ?_⟩
    rw [htext]
    rfl

end

/-- The reply is exact unless the height of the last header wraps to one at or below a checkpoint
that the chain has. -/
theorem block_headers_exact_iff (sha256d : Bytes -> FullHash) (T : BlockTree)
    (cfg : IndexerConfig) (store : Store) (blocks : List Block) (s : Set BlockEntry)
    (h : Inv T cfg store blocks s) (startHeight count : UInt64)
    (cpHeight : Option UInt64) :
    HeadersExact sha256d blocks startHeight count (cpHeight.getD 0)
        (blockchainBlockHeaders sha256d store (headersParams startHeight count cpHeight)) <->
      (count = 0 ∨ cpHeight.getD 0 = 0) ∨ lastHeight startHeight count < 2 ^ 64 ∨
        ¬ (lastHeight startHeight count % 2 ^ 64 ≤ (cpHeight.getD 0).toNat ∧
          (cpHeight.getD 0).toNat < blocks.length) := by
  by_cases hproof : count = 0 ∨ cpHeight.getD 0 = 0
  · exact iff_of_true (headersExact_of_noProof sha256d h startHeight hproof) (Or.inl hproof)
  by_cases hfits : lastHeight startHeight count < 2 ^ 64
  · exact iff_of_true (headersExact_of_fits sha256d h hproof hfits) (Or.inr (Or.inl hfits))
  rw [headersExact_wrap_iff sha256d h startHeight count cpHeight hproof hfits]
  constructor
  · exact fun hout => Or.inr (Or.inr hout)
  · intro hcases
    rcases hcases with hnone | hlt | hout
    · exact absurd hnone hproof
    · exact absurd hlt hfits
    · exact hout

end Exact

namespace Sample

open NewIndex.Sample ElectrumMerkle.Sample

theorem both_headers_exact :
    exists store s, Inv tree config store [genesis, blockB] s ∧
      HeadersExact sumHash [genesis, blockB] 0 2 1
        (blockchainBlockHeaders sumHash store (headersParams 0 2 (some 1))) := by
  rcases exists_inv_session with ⟨store, hinv⟩
  have hfits : lastHeight 0 2 < 2 ^ 64 := by decide
  have hexact := block_headers_exact_iff sumHash tree config store _ _ hinv 0 2 (some 1)
  exact ⟨store, _, hinv, hexact.mpr (Or.inr (Or.inl hfits))⟩

/-- The height of the last header wraps to zero, and the reply proves the genesis header without
returning a header. -/
theorem wrapped_height_proved :
    exists store s, Inv tree config store [genesis, blockB] s ∧
      ¬ HeadersExact sumHash [genesis, blockB] 18446744073709551615 2 1
        (blockchainBlockHeaders sumHash store (headersParams 18446744073709551615 2 (some 1))) := by
  rcases exists_inv_session with ⟨store, hinv⟩
  refine ⟨store, _, hinv, ?_⟩
  intro hexact
  have hwrap : ¬ lastHeight 18446744073709551615 2 < 2 ^ 64 := by decide
  have hiff := headersExact_wrap_iff sumHash hinv 18446744073709551615 2 (some 1) (by decide) hwrap
  exact hiff.mp hexact (by decide)

end Sample

end Electrum
end Splora
