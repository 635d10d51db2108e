import Splora.Foundation.Merkle
import Splora.Mwck.BlockAt

/-!
# Merkle proofs for Electrum clients

`src/util/electrum_merkle.rs`: the branch of a transaction in its block, and of a header below a
checkpoint, as proofs of `Foundation.Merkle`.
-/

namespace Splora
namespace ElectrumMerkle

open Foundation NewIndex
open Mwck (txidText)

inductive Failure where
  | message (text : Text)
  | indexOutOfRange
  | aborted (abort : Abort)
deriving DecidableEq, Repr

section Source

variable {T : BlockTree} (sha256d : Bytes -> FullHash)

def merklize (left right : FullHash) : FullHash :=
  sha256d (hashBytes left ++ hashBytes right)

/-- `chunks(2)`, where the second hash of every chunk is read. -/
def merklizeChunks : List FullHash -> Option (List FullHash)
  | [] => some []
  | [_] => none
  | left :: right :: rest => do
      let hashes <- merklizeChunks rest
      return merklize sha256d left right :: hashes

def pushLast (hashes : List FullHash) : List FullHash :=
  if hashes.length % 2 ≠ 0 then hashes ++ hashes.getLast?.toList else hashes

def siblingIndex (index : Nat) : Nat :=
  if index % 2 = 0 then index + 1 else index - 1

def branchLoop : Nat -> List FullHash -> Nat -> List FullHash -> Option (List FullHash × FullHash)
  | 0, _, _, _ => none
  | fuel + 1, hashes, index, merkle =>
    if hashes.length > 1 then do
      let hashes := pushLast hashes
      let index := siblingIndex index
      let sibling <- hashes[index]?
      let hashes <- merklizeChunks sha256d hashes
      branchLoop fuel hashes (index / 2) (merkle ++ [sibling])
    else do
      let root <- hashes[0]?
      return (merkle, root)

def createMerkleBranchAndRoot (hashes : List FullHash) (index : Nat) :
    Option (List FullHash × FullHash) :=
  branchLoop sha256d hashes.length hashes index []

def number (n : Nat) : Text :=
  (toString n).toList

def getTxMerkleProof (reader : ChainReader T) (txHash : Txid) (blockHash : BlockHash) :
    Except Failure (List FullHash × Nat) := do
  let txids <- expect (ChainQuery.getBlockTxids reader.cfg reader.daemon reader.store blockHash)
    (.message ("missing block txids for #".toList ++ txidText blockHash))
  let pos <- expect (txids.findIdx? fun txid => txid = txHash)
    (.message ("missing txid ".toList ++ txidText txHash))
  let (branch, _) <- expect (createMerkleBranchAndRoot sha256d txids pos) .indexOutOfRange
  return (branch, pos)

def getHeaderMerkleProof (store : Store) (height cpHeight : Nat) :
    Except Failure (List FullHash × FullHash) := do
  ensure (height ≤ cpHeight)
    (.message ("cp_height #".toList ++ number cpHeight ++ " < height #".toList ++ number height))
  let bestHeight := ChainQuery.bestHeight store
  ensure (cpHeight ≤ bestHeight) (.message ("cp_height #".toList ++ number cpHeight ++
      " above best block height #".toList ++ number bestHeight))
  let found <- ((List.range (cpHeight + 1)).mapM fun height =>
    OptionT.mk (ChainQuery.hashByHeight store height)).run.mapError .aborted
  let headerHashes <- expect found (.message "missing block headers".toList)
  expect (createMerkleBranchAndRoot sha256d headerHashes height) .indexOutOfRange

def getIdFromPos (reader : ChainReader T) (height txPos : Nat) (wantMerkle : Bool) :
    Except Failure (Txid × List FullHash) := do
  let found <- (ChainQuery.hashByHeight reader.store height).mapError .aborted
  let headerHash <- expect found (.message ("missing block #".toList ++ number height))
  let txids <- expect (ChainQuery.getBlockTxids reader.cfg reader.daemon reader.store headerHash)
    (.message ("missing block txids #".toList ++ number height))
  let txid <- expect txids[txPos]?
    (.message ("No tx in position #".toList ++ number txPos ++ " in block #".toList ++
      number height))
  if wantMerkle then
    let (branch, _) <-
      expect (createMerkleBranchAndRoot sha256d txids txPos) .indexOutOfRange
    return (txid, branch)
  else
    return (txid, [])

end Source

/-!
## The loop
-/

section Loop

variable {sha256d : Bytes -> FullHash} {hashes : List FullHash} {index : Nat}
  {leaf : FullHash}

open Merkle

theorem merklizeChunks_eq (h : hashes.length % 2 = 0) :
    merklizeChunks sha256d hashes = some (pairs (merklize sha256d) hashes) := by
  induction hashes using merklizeChunks.induct with
  | case1 => rfl
  | case2 a =>
    rw [List.length_singleton] at h
    cases h
  | case3 left right rest ih =>
    rw [List.length_cons, List.length_cons] at h
    rw [merklizeChunks, ih (by omega)]
    rfl

theorem length_pushLast (hashes : List FullHash) : (pushLast hashes).length % 2 = 0 := by
  unfold pushLast
  split
  case isTrue hodd =>
    cases hlast : hashes.getLast? with
    | none =>
      rw [List.getLast?_eq_none_iff.mp hlast] at hodd
      exact absurd rfl hodd
    | some last =>
      rw [Option.toList_some, List.length_append, List.length_singleton]
      omega
  case isFalse heven => omega

theorem pairs_pushLast (node : FullHash -> FullHash -> FullHash) (hashes : List FullHash) :
    pairs node (pushLast hashes) = pairs node hashes := by
  induction hashes using pairs.induct with
  | case1 => rfl
  | case2 a => rfl
  | case3 a b rest ih =>
    have hpush : pushLast (a :: b :: rest) = a :: b :: pushLast rest := by
      cases rest with
      | nil => simp [pushLast]
      | cons c rest =>
        simp only [pushLast, List.length_cons, List.getLast?_cons_cons]
        split <;> split
        case isTrue.isTrue => rfl
        case isFalse.isFalse => rfl
        all_goals omega
    rw [hpush, pairs, pairs, ih]

theorem siblingIndex_half (index : Nat) : siblingIndex index / 2 = index / 2 := by
  unfold siblingIndex
  split <;> omega

theorem exists_sibling (hleaf : hashes[index]? = some leaf) :
    exists sibling, (pushLast hashes)[siblingIndex index]? = some sibling ∧
      (if index % 2 = 0 then some (hashes[index + 1]?.getD leaf)
        else hashes[index - 1]?) = some sibling := by
  have hlt : index < hashes.length := (List.getElem?_eq_some_iff.mp hleaf).fst
  by_cases heven : index % 2 = 0
  · rw [siblingIndex, if_pos heven, if_pos heven]
    by_cases hnext : index + 1 < hashes.length
    · refine ⟨hashes[index + 1], ?_, ?_⟩
      · unfold pushLast
        split
        · rw [List.getElem?_append_left hnext, List.getElem?_eq_getElem hnext]
        · exact List.getElem?_eq_getElem hnext
      · rw [List.getElem?_eq_getElem hnext]
        rfl
    · have hlength : hashes.length = index + 1 := by omega
      have hlast : hashes.getLast? = some leaf := by
        rw [List.getLast?_eq_getElem?, hlength]
        exact hleaf
      refine ⟨leaf, ?_, ?_⟩
      · rw [pushLast, if_pos (by omega), hlast, Option.toList_some, <- hlength,
          List.getElem?_concat_length]
      · rw [List.getElem?_eq_none (by omega)]
        rfl
  · have hprev : index - 1 < hashes.length := by omega
    rw [siblingIndex, if_neg heven, if_neg heven]
    refine ⟨hashes[index - 1], ?_, List.getElem?_eq_getElem hprev⟩
    unfold pushLast
    split
    · rw [List.getElem?_append_left hprev, List.getElem?_eq_getElem hprev]
    · exact List.getElem?_eq_getElem hprev

theorem branchLoop_proves {fuel : Nat} (hfuel : hashes.length ≤ fuel)
    (hindex : index < hashes.length) (merkle : List FullHash) :
    exists branch top, Proves (merklize sha256d) hashes index branch top ∧
      branchLoop sha256d fuel hashes index merkle = some (merkle ++ branch, top) := by
  induction fuel generalizing hashes index merkle with
  | zero => omega
  | succ fuel ih =>
    by_cases hlength : hashes.length > 1
    · have hleaf := List.getElem?_eq_getElem hindex
      rcases exists_sibling hleaf with ⟨sibling, hsibling, hpair⟩
      have hpairs : (pairs (merklize sha256d) hashes).length = (hashes.length + 1) / 2 :=
        length_pairs hashes
      have hfuel' : (pairs (merklize sha256d) hashes).length ≤ fuel := by omega
      have hindex' : index / 2 < (pairs (merklize sha256d) hashes).length := by omega
      rcases ih hfuel' hindex' (merkle ++ [sibling]) with ⟨branch, top, hproves, hloop⟩
      refine ⟨sibling :: branch, top, hproves.cons hlength hleaf hpair, ?_⟩
      rw [List.append_assoc] at hloop
      rw [branchLoop, if_pos hlength]
      dsimp only
      rw [hsibling, siblingIndex_half, merklizeChunks_eq (length_pushLast hashes), pairs_pushLast]
      exact hloop
    · match hashes, hindex with
      | [leaf], hindex =>
        have hzero : index = 0 := by
          rw [List.length_singleton] at hindex
          omega
        subst hzero
        refine ⟨[], leaf, proves_singleton leaf, ?_⟩
        rw [branchLoop, if_neg hlength, List.append_nil]
        rfl
      | a :: b :: rest, _ => simp at hlength

theorem createMerkleBranchAndRoot_proves (sha256d : Bytes -> FullHash)
    (hindex : index < hashes.length) :
    exists branch top, Proves (merklize sha256d) hashes index branch top ∧
      createMerkleBranchAndRoot sha256d hashes index = some (branch, top) :=
  branchLoop_proves (Nat.le_refl _) hindex []

end Loop

/-!
## Requests
-/

section Requests

variable {T : BlockTree} {sha256d : Bytes -> FullHash} {reader : ChainReader T}
  {blocks : List Block} {s : Set BlockEntry}

def Decides {α : Type} (result : Except Failure α) (inRange : Prop) (P : α -> Prop) :
    Prop :=
  (inRange -> exists a, result = .ok a ∧ P a) ∧
  (¬ inRange -> exists text, result = .error (.message text))

def ProvesAt (sha256d : Bytes -> FullHash) (hashes : List FullHash) (index : Nat)
    (branch : List FullHash) : Prop :=
  exists top, Merkle.Proves (merklize sha256d) hashes index branch top

section Rules

variable {α β : Type} {inRange : Prop} {P : α -> Prop} {text : Text}

theorem decides_ok {a : α} (hin : inRange) (ha : P a) : Decides (.ok a) inRange P :=
  ⟨fun _ => ⟨a, rfl, ha⟩, fun hout => absurd hin hout⟩

theorem decides_error (hout : ¬ inRange) : Decides (.error (.message text)) inRange P :=
  ⟨fun hin => absurd hin hout, fun _ => ⟨text, rfl⟩⟩

theorem decides_expect {x : Option β} {f : β -> Except Failure α} (hnone : x = none -> ¬ inRange)
    (hsome : forall b, x = some b -> Decides (f b) inRange P) :
    Decides (expect x (.message text) >>= f) inRange P := by
  cases x with
  | none => exact decides_error (hnone rfl)
  | some b => exact hsome b rfl

theorem decides_ensure {p : Prop} [Decidable p] {f : Unit -> Except Failure α}
    (hfalse : ¬ p -> ¬ inRange) (htrue : p -> Decides (f ()) inRange P) :
    Decides (ensure p (.message text) >>= f) inRange P := by
  by_cases hp : p
  · rw [ensure_of _ hp]
    exact htrue hp
  · rw [ensure, if_neg hp]
    exact decides_error (hfalse hp)

theorem decides_create {hashes : List FullHash} {index : Nat}
    {f : List FullHash × FullHash -> Except Failure α} (hindex : index < hashes.length)
    (hproves : forall branch top, Merkle.Proves (merklize sha256d) hashes index branch top ->
      Decides (f (branch, top)) inRange P) :
    Decides (expect (createMerkleBranchAndRoot sha256d hashes index) .indexOutOfRange >>= f)
      inRange P := by
  rcases createMerkleBranchAndRoot_proves sha256d hindex with ⟨branch, top, hproof, hcreate⟩
  rw [hcreate]
  exact hproves branch top hproof

end Rules

theorem getTxMerkleProof_decides (sha256d : Bytes -> FullHash) (reader : ChainReader T)
    (txHash : Txid) (blockHash : BlockHash) :
    Decides (getTxMerkleProof sha256d reader txHash blockHash)
      (exists txids, ChainQuery.getBlockTxids reader.cfg reader.daemon reader.store
        blockHash = some txids ∧ txHash ∈ txids)
      fun (branch, pos) => exists txids,
        ChainQuery.getBlockTxids reader.cfg reader.daemon reader.store blockHash = some txids ∧
        txids[pos]? = some txHash ∧ ProvesAt sha256d txids pos branch := by
  refine decides_expect ?_ ?_
  · intro hnone hin
    rcases hin with ⟨txids, htxids, _⟩
    rw [hnone] at htxids
    cases htxids
  intro txids htxids
  refine decides_expect ?_ ?_
  · intro hnone hin
    rcases hin with ⟨txids', htxids', hmem⟩
    rw [htxids] at htxids'
    cases htxids'
    exact of_decide_eq_false (List.findIdx?_eq_none_iff.mp hnone txHash hmem) rfl
  intro pos hpos
  rcases List.findIdx?_eq_some_iff_getElem.mp hpos with ⟨hlt, htxid, _⟩
  have hfound : txids[pos]? = some txHash := by
    rw [List.getElem?_eq_getElem hlt]
    exact congrArg some (of_decide_eq_true htxid)
  refine decides_create hlt ?_
  intro branch top hproves
  exact decides_ok ⟨txids, htxids, List.mem_of_getElem? hfound⟩
    ⟨txids, htxids, hfound, top, hproves⟩

theorem hashesByHeight_eq {store : Store} (h : store.indexedHeaders.Represents blocks) (n : Nat) :
    ((List.range n).mapM fun height =>
      OptionT.mk (ChainQuery.hashByHeight store height)).run =
        .ok (if n ≤ blocks.length then some ((blocks.take n).map Block.hash)
          else none) := by
  simp only [Mwck.hashByHeight_eq h]
  induction n with
  | zero => rfl
  | succ n ih =>
    rw [List.range_succ, List.mapM_append, OptionT.run_bind, ih]
    by_cases hle : n ≤ blocks.length
    · rw [if_pos hle]
      by_cases hlt : n + 1 ≤ blocks.length
      · have hb : blocks[n]? = some blocks[n] := List.getElem?_eq_getElem hlt
        rw [if_pos hlt, List.take_add_one, hb, List.map_append]
        simp only [hb, List.mapM_cons, List.mapM_nil]
        rfl
      · have hb : blocks[n]? = none := List.getElem?_eq_none (by omega)
        rw [if_neg hlt]
        simp only [hb, List.mapM_cons, List.mapM_nil]
        rfl
    · rw [if_neg hle, if_neg (by omega)]
      rfl

theorem getHeaderMerkleProof_decides (sha256d : Bytes -> FullHash) {store : Store}
    (h : store.indexedHeaders.Represents blocks) (height cpHeight : Nat) :
    Decides (getHeaderMerkleProof sha256d store height cpHeight)
      (height ≤ cpHeight ∧ cpHeight < blocks.length)
      fun (branch, root) => Merkle.Proves (merklize sha256d)
        ((blocks.take (cpHeight + 1)).map Block.hash) height branch root := by
  refine decides_ensure (fun hlt hin => hlt hin.left) ?_
  intro hheight
  refine decides_ensure ?_ ?_
  · intro hlt hin
    have hne : blocks ≠ [] := List.ne_nil_of_length_pos (Nat.zero_lt_of_lt hin.right)
    rw [Mwck.bestHeight_eq h hne] at hlt
    omega
  intro _
  rw [hashesByHeight_eq h]
  refine decides_expect ?_ ?_
  · intro hnone hin
    rw [if_pos (Nat.succ_le_of_lt hin.right)] at hnone
    cases hnone
  intro hashes hhashes
  by_cases hlength : cpHeight + 1 ≤ blocks.length
  · rw [if_pos hlength, Option.some.injEq] at hhashes
    have hindex : height < hashes.length := by
      rw [<- hhashes, List.length_map, List.length_take]
      omega
    rcases createMerkleBranchAndRoot_proves sha256d hindex with ⟨branch, top, hproof, hcreate⟩
    rw [hcreate]
    refine decides_ok ⟨hheight, Nat.lt_of_succ_le hlength⟩ ?_
    rw [hhashes]
    exact hproof
  · rw [if_neg hlength] at hhashes
    cases hhashes

theorem getIdFromPos_decides (sha256d : Bytes -> FullHash)
    (h : Inv T reader.cfg reader.store blocks s) (height txPos : Nat)
    (wantMerkle : Bool) :
    Decides (getIdFromPos sha256d reader height txPos wantMerkle)
      (exists b tx, blocks[height]? = some b ∧ b.txdata[txPos]? = some tx)
      fun (txid, branch) => exists b tx, blocks[height]? = some b ∧
        b.txdata[txPos]? = some tx ∧ tx.txid = txid ∧
        if wantMerkle then
          ProvesAt sha256d (b.txdata.map Transaction.txid) txPos branch
        else
          branch = [] := by
  unfold getIdFromPos
  rw [Mwck.hashByHeight_eq h.headers]
  refine decides_expect ?_ ?_
  · intro hnone hin
    rcases hin with ⟨b, _, hb, _⟩
    rw [hb] at hnone
    cases hnone
  intro hash hhash
  rcases Option.map_eq_some_iff.mp hhash with ⟨b, hb, rfl⟩
  rw [Mwck.getBlockTxids_eq h hb]
  refine decides_expect ?_ ?_
  · intro hnone _
    cases hnone
  intro txids htxids
  cases htxids
  refine decides_expect ?_ ?_
  · intro hnone hin
    rcases hin with ⟨b', tx, hb', htx⟩
    rw [hb] at hb'
    cases hb'
    rw [List.getElem?_map, htx] at hnone
    cases hnone
  intro txid htxid
  have hlt := (List.getElem?_eq_some_iff.mp htxid).fst
  rw [List.getElem?_map] at htxid
  rcases Option.map_eq_some_iff.mp htxid with ⟨tx, htx, rfl⟩
  cases wantMerkle with
  | false => exact decides_ok ⟨b, tx, hb, htx⟩ ⟨b, tx, hb, htx, rfl, rfl⟩
  | true =>
    refine decides_create hlt ?_
    intro branch top hproves
    exact decides_ok ⟨b, tx, hb, htx⟩ ⟨b, tx, hb, htx, rfl, top, hproves⟩

end Requests

/-- Every request in range is answered by a branch that proves the hash at its index, every other
one by an error. -/
theorem merkle_proofs_verify (sha256d : Bytes -> FullHash) :
    (forall hashes index, index < hashes.length -> exists branch root,
        createMerkleBranchAndRoot sha256d hashes index = some (branch, root) ∧
        Merkle.Proves (merklize sha256d) hashes index branch root) ∧
    forall (T : BlockTree) (reader : ChainReader T) (blocks : List Block)
      (s : Set BlockEntry), Inv T reader.cfg reader.store blocks s ->
      (forall b, b ∈ blocks ->
        ChainQuery.getBlockTxids reader.cfg reader.daemon reader.store b.hash =
          some (b.txdata.map Transaction.txid)) ∧
      (forall txHash blockHash, Decides (getTxMerkleProof sha256d reader txHash blockHash)
          (exists txids, ChainQuery.getBlockTxids reader.cfg reader.daemon reader.store
            blockHash = some txids ∧ txHash ∈ txids)
          fun (branch, pos) => exists txids,
            ChainQuery.getBlockTxids reader.cfg reader.daemon reader.store blockHash = some txids ∧
            txids[pos]? = some txHash ∧ ProvesAt sha256d txids pos branch) ∧
      (forall height cpHeight, Decides (getHeaderMerkleProof sha256d reader.store height cpHeight)
          (height ≤ cpHeight ∧ cpHeight < blocks.length)
          fun (branch, root) => Merkle.Proves (merklize sha256d)
            ((blocks.take (cpHeight + 1)).map Block.hash) height branch root) ∧
      forall height txPos wantMerkle, Decides (getIdFromPos sha256d reader height txPos wantMerkle)
          (exists b tx, blocks[height]? = some b ∧ b.txdata[txPos]? = some tx)
          fun (txid, branch) => exists b tx, blocks[height]? = some b ∧
            b.txdata[txPos]? = some tx ∧ tx.txid = txid ∧
            if wantMerkle then
              ProvesAt sha256d (b.txdata.map Transaction.txid) txPos branch
            else
              branch = [] := by
  constructor
  · intro hashes index hindex
    rcases createMerkleBranchAndRoot_proves sha256d hindex with ⟨branch, root, hproves, hcreate⟩
    exact ⟨branch, root, hcreate, hproves⟩
  · intro T reader blocks s h
    refine ⟨?_, getTxMerkleProof_decides sha256d reader,
      getHeaderMerkleProof_decides sha256d h.headers, getIdFromPos_decides sha256d h⟩
    intro b hb
    rcases List.getElem?_of_mem hb with ⟨height, hheight⟩
    exact Mwck.getBlockTxids_eq h hheight

namespace Sample

open NewIndex.Sample

def sumHash (bytes : Bytes) : FullHash :=
  BitVec.ofNat 256 (bytes.foldl (fun sum byte => 3 * sum + byte.toNat) 0)

def readerOf (store : Store) : ChainReader tree where
  cfg := config
  daemon := daemonB
  deserialize _ := none
  store := store

theorem proofs_of_sample :
    (exists branch root, createMerkleBranchAndRoot sumHash [1, 2, 3] 2 = some (branch, root) ∧
      Merkle.Proves (merklize sumHash) [1, 2, 3] 2 branch root) ∧
    exists store s, Inv tree config store [genesis, blockB] s ∧ exists branch root,
        getHeaderMerkleProof sumHash store 1 1 = .ok (branch, root) ∧
        Merkle.Proves (merklize sumHash) [genesis.hash, blockB.hash] 1 branch root := by
  rcases exists_inv_session with ⟨store, hinv⟩
  have hproofs := merkle_proofs_verify sumHash
  refine ⟨hproofs.left [1, 2, 3] 2 (by decide), store, _, hinv, ?_⟩
  have hheader := (hproofs.right tree (readerOf store) _ _ hinv).right.right.left 1 1
  rcases hheader.left ⟨Nat.le_refl 1, by decide⟩ with ⟨⟨branch, root⟩, hresult, hproves⟩
  exact ⟨branch, root, hresult, hproves⟩

end Sample

end ElectrumMerkle
end Splora
