import Splora.Foundation.Result
import Splora.Util.Script

/-!
# Signature operations

The module `sigops` of `src/util/transaction.rs` against Bitcoin Core's
`GetTransactionSigOpCost`.  The counts differ in three places: the number remembered survives a
signature check, the redeem script is counted although its input does more than push data, and a
nested program is not found behind an opcode that pushes a small number.
-/

namespace Splora
namespace Sigops

open Foundation

structure SignedInput extends TxIn where
  scriptSig : Script
  witness : List Bytes

structure SignedTx where
  input : List SignedInput
  output : List TxOut

def SignedTx.isCoinbase (tx : SignedTx) : Bool :=
  match tx.input with
  | [txi] => txi.previousOutput.isNull
  | _ => false

inductive SigopError where
  | earlyEndOfScript
  | noPushdata
deriving DecidableEq, Repr

/-!
## The code
-/

def decodePushnum (op : UInt8) : Option UInt8 :=
  if 81 ≤ op ∧ op ≤ 96 then some (op - 80) else none

def isChecksig (op : UInt8) : Bool :=
  op == 0xac || op == 0xad

def isCheckmultisig (op : UInt8) : Bool :=
  op == 0xae || op == 0xaf

structure CountState where
  n : Nat
  pushnumCache : Option UInt8

def multisigCount (accurate : Bool) (pushnumCache : Option UInt8) : Nat :=
  match accurate, pushnumCache with
  | true, some pushnum => pushnum.toNat
  | _, _ => 20

def countStep (accurate : Bool) (st : CountState) :
    Except ScriptError Instruction -> CountState
  | .ok (.op opcode) =>
    if isChecksig opcode then
      { st with n := st.n + 1 }
    else if isCheckmultisig opcode then
      { st with n := st.n + multisigCount accurate st.pushnumCache }
    else
      { st with pushnumCache := decodePushnum opcode }
  | _ => { st with pushnumCache := none }

def countSigops (script : Script) (accurate : Bool) : Nat :=
  ((instructions script).foldl (countStep accurate) { n := 0, pushnumCache := none }).n

def getLegacySigopCount (tx : SignedTx) : Nat :=
  (tx.input.map fun input => countSigops input.scriptSig false).sum +
    (tx.output.map fun output => countSigops output.scriptPubkey false).sum

def p2shSigops (scriptPubkey scriptSig : Script) : Nat :=
  if isP2sh scriptPubkey then
    match (instructions scriptSig).getLast? with
    | some (.ok (.pushBytes redeem)) => countSigops redeem true
    | _ => 0
  else
    0

def getP2shSigopCount (tx : SignedTx) (previousOutputs : List TxOut) : Nat :=
  if tx.isCoinbase then
    0
  else
    ((tx.input.zip previousOutputs).map fun pair =>
      p2shSigops pair.2.scriptPubkey pair.1.scriptSig).sum

def isPushOnly (script : Script) : Bool :=
  (instructions script).all fun inst =>
    match inst with
    | .ok (.pushBytes _) => true
    | _ => false

def lastPushdata (script : Script) : Option Bytes :=
  match (instructions script).getLast? with
  | some (.ok (.pushBytes bytes)) => some bytes
  | _ => none

def sigOps (witness : List Bytes) (witnessVersion : UInt8) (witnessProgram : Bytes) :
    Nat :=
  if witnessVersion = 0 ∧ witnessProgram.length = 20 then
    1
  else if witnessVersion = 0 ∧ witnessProgram.length = 32 then
    (witness.getLast?.map fun script => countSigops script true).getD 0
  else
    0

def programSigops (script : Script) (witness : List Bytes) : Nat :=
  if isP2wsh script then
    sigOps witness (script[0]?.getD 0) (script.drop 2)
  else if isP2wpkh script then
    1
  else
    0

def countWithPrevout (scriptPubkey scriptSig : Script) (witness : List Bytes) :
    Except SigopError Nat :=
  if isWitnessProgram scriptPubkey then
    .ok (programSigops scriptPubkey witness)
  else if isP2sh scriptPubkey && isPushOnly scriptSig && !scriptSig.isEmpty then do
    let script <- expect (lastPushdata scriptSig) .noPushdata
    return programSigops script witness
  else
    .ok 0

def getWitnessSigopCount (tx : SignedTx) (previousOutputs : List TxOut) :
    Except SigopError Nat := do
  let counts <- (tx.input.zip previousOutputs).mapM fun pair =>
    countWithPrevout pair.2.scriptPubkey pair.1.scriptSig pair.1.witness
  return counts.sum

def getSigopCost (tx : SignedTx) (previousOutputs : List TxOut)
    (verifyP2sh verifyWitness : Bool) : Except SigopError Nat :=
  let cost := getLegacySigopCount tx * 4
  if tx.isCoinbase then
    .ok cost
  else if tx.input.length ≠ previousOutputs.length then
    .error .earlyEndOfScript
  else if verifyWitness && !verifyP2sh then
    .error .earlyEndOfScript
  else do
    let cost :=
      if verifyP2sh then cost + getP2shSigopCount tx previousOutputs * 4 else cost
    if verifyWitness then
      let n <- getWitnessSigopCount tx previousOutputs
      return cost + n
    else
      return cost

def transactionSigopCount (tx : SignedTx) (prevoutMap : List (UInt32 × TxOut)) :
    Except SigopError Nat := do
  let prevouts <-
    if tx.isCoinbase then
      .ok []
    else
      (List.range tx.input.length).mapM fun idx =>
        expect (prevoutMap.lookup idx.toUInt32) .earlyEndOfScript
  getSigopCost tx prevouts true true

/-!
## The consensus rules
-/

namespace Consensus

def isSmallInt (opcode : UInt8) : Bool :=
  decide (0x51 ≤ opcode ∧ opcode ≤ 0x60)

/-- One turn of `GetSigOpCount`: the count and the last opcode. -/
def sigOpStep (accurate : Bool) (st : Nat × UInt8) (op : Op) : Nat × UInt8 :=
  let n :=
    if isChecksig op.opcode then
      st.1 + 1
    else if isCheckmultisig op.opcode then
      if accurate && isSmallInt st.2 then
        st.1 + (st.2.toNat - 0x50)
      else
        st.1 + 20
    else
      st.1
  (n, op.opcode)

def getSigOpCount (script : Script) (accurate : Bool) : Nat :=
  ((ops script).foldl (sigOpStep accurate) (0, 0xff)).1

def isPushOnly (script : Script) : Bool :=
  complete script && (ops script).all fun op => decide (op.opcode ≤ 0x60)

def lastData (script : Script) : Bytes :=
  ((ops script).getLast?.map Op.data).getD []

def redeemSigOpCount (scriptSig : Script) : Nat :=
  if isPushOnly scriptSig then
    getSigOpCount (lastData scriptSig) true
  else
    0

def getLegacySigOpCount (tx : SignedTx) : Nat :=
  (tx.input.map fun input => getSigOpCount input.scriptSig false).sum +
    (tx.output.map fun output => getSigOpCount output.scriptPubkey false).sum

def getP2SHSigOpCount (tx : SignedTx) (prevouts : List TxOut) : Nat :=
  ((tx.input.zip prevouts).map fun pair =>
    if isP2sh pair.2.scriptPubkey then redeemSigOpCount pair.1.scriptSig else 0).sum

def witnessProgram (script : Script) : Option (Nat × Bytes) :=
  match script with
  | version :: size :: program =>
    if 4 ≤ script.length ∧ script.length ≤ 42 ∧ (version = 0 ∨ isSmallInt version = true) ∧
        size.toNat + 2 = script.length then
      some (if version = 0 then 0 else version.toNat - 0x50, program)
    else
      none
  | _ => none

def witnessSigOps (version : Nat) (program : Bytes) (witness : List Bytes) : Nat :=
  if version = 0 then
    if program.length = 20 then
      1
    else if program.length = 32 then
      match witness.getLast? with
      | some script => getSigOpCount script true
      | none => 0
    else
      0
  else
    0

def programSigOps (script : Script) (witness : List Bytes) : Nat :=
  match witnessProgram script with
  | some (version, program) => witnessSigOps version program witness
  | none => 0

def countWitnessSigOps (scriptSig scriptPubKey : Script) (witness : List Bytes) : Nat :=
  if (witnessProgram scriptPubKey).isSome then
    programSigOps scriptPubKey witness
  else if isP2sh scriptPubKey && isPushOnly scriptSig then
    programSigOps (lastData scriptSig) witness
  else
    0

def getTransactionSigOpCost (tx : SignedTx) (prevouts : List TxOut) : Nat :=
  getLegacySigOpCount tx * 4 + getP2SHSigOpCount tx prevouts * 4 +
    ((tx.input.zip prevouts).map fun pair =>
      countWitnessSigOps pair.1.scriptSig pair.2.scriptPubkey pair.1.witness).sum

end Consensus

/-!
## Counting one script
-/

section Count

open Consensus (Op ops complete getSigOpCount sigOpStep isSmallInt)

def isSigop (op : UInt8) : Bool :=
  isChecksig op || isCheckmultisig op

def nextCache (cache : Option UInt8) (op : UInt8) : Option UInt8 :=
  if isSigop op then cache else decodePushnum op

def opCount (multisig : Nat) (op : UInt8) : Nat :=
  if isChecksig op then 1 else if isCheckmultisig op then multisig else 0

theorem not_sigop_of_push {op : UInt8} (h : op ≤ 0x4e) :
    isChecksig op = false ∧ isCheckmultisig op = false ∧ decodePushnum op = none := by
  revert h
  revert op
  decide +kernel

theorem not_both (op : UInt8) : ¬ (isChecksig op = true ∧ isCheckmultisig op = true) := by
  revert op
  decide +kernel

theorem countStep_instruction (accurate : Bool) (st : CountState) (op : Op) :
    countStep accurate st (.ok op.instruction) = {
      n := st.n + opCount (multisigCount accurate st.pushnumCache) op.opcode
      pushnumCache := nextCache st.pushnumCache op.opcode } := by
  rw [opCount, nextCache, isSigop, Op.instruction]
  by_cases hpush : op.opcode ≤ 0x4e
  · rcases not_sigop_of_push hpush with ⟨hsig, hmulti, hnum⟩
    rw [if_pos hpush, hsig, hmulti, hnum]
    rfl
  · rw [if_neg hpush, countStep]
    cases isChecksig op.opcode with
    | true => rfl
    | false =>
      cases isCheckmultisig op.opcode with
      | true => rfl
      | false => rfl

def codeSum (accurate : Bool) (cache : Option UInt8) : List Op -> Nat
  | [] => 0
  | op :: ops =>
    opCount (multisigCount accurate cache) op.opcode +
      codeSum accurate (nextCache cache op.opcode) ops

def keyCount (accurate : Bool) (last : UInt8) : Nat :=
  if accurate && isSmallInt last then last.toNat - 0x50 else 20

def consensusSum (accurate : Bool) (last : UInt8) : List Op -> Nat
  | [] => 0
  | op :: ops =>
    opCount (keyCount accurate last) op.opcode + consensusSum accurate op.opcode ops

theorem foldl_countStep (accurate : Bool) (st : CountState) (ops : List Op) :
    (ops.foldl (fun st op => countStep accurate st (.ok op.instruction)) st).n =
      st.n + codeSum accurate st.pushnumCache ops := by
  induction ops generalizing st with
  | nil => rfl
  | cons op ops ih =>
    rw [List.foldl_cons, ih, countStep_instruction, codeSum, Nat.add_assoc]

theorem foldl_sigOpStep (accurate : Bool) (n : Nat) (last : UInt8) (ops : List Op) :
    (ops.foldl (sigOpStep accurate) (n, last)).1 = n + consensusSum accurate last ops := by
  induction ops generalizing n last with
  | nil => rfl
  | cons op ops ih =>
    have hstep : sigOpStep accurate (n, last) op =
        (n + opCount (keyCount accurate last) op.opcode, op.opcode) := by
      rw [sigOpStep, opCount, keyCount]
      split
      · rfl
      · split
        · split
          · rfl
          · rfl
        · rfl
    rw [List.foldl_cons, hstep, ih, consensusSum, Nat.add_assoc]

theorem countSigops_eq (script : Script) (accurate : Bool) :
    countSigops script accurate = codeSum accurate none (ops script) := by
  have hops : countSigops script accurate =
      ((ops script).foldl (fun st op => countStep accurate st (.ok op.instruction))
        { n := 0, pushnumCache := none }).n := by
    rw [countSigops, instructions_eq, List.foldl_append, List.foldl_map]
    cases complete script with
    | true => rfl
    | false => rfl
  rw [hops, foldl_countStep, Nat.zero_add]

theorem getSigOpCount_eq (script : Script) (accurate : Bool) :
    getSigOpCount script accurate = consensusSum accurate 0xff (ops script) := by
  rw [getSigOpCount, foldl_sigOpStep, Nat.zero_add]

theorem countSigops_false (script : Script) :
    countSigops script false = getSigOpCount script false := by
  have hsum : forall (ops : List Op) (cache : Option UInt8) (last : UInt8),
      codeSum false cache ops = consensusSum false last ops := by
    intro ops
    induction ops with
    | nil => exact fun cache last => rfl
    | cons op ops ih =>
      intro cache last
      rw [codeSum, consensusSum, ih _ op.opcode]
      rfl
  rw [countSigops_eq, getSigOpCount_eq, hsum _ none 0xff]

def lastOpcode (before : List Op) : UInt8 :=
  (before.head?.map Op.opcode).getD 0xff

/-- The opcode before the signature checks that end some opcodes, read from the last one
back. -/
def opcodeBehind (before : List Op) : UInt8 :=
  lastOpcode (before.dropWhile fun op => isSigop op.opcode)

/-- At each `CHECKMULTISIG` after another signature check, if a number stands before those. -/
def lostKeys : List Op -> List Op -> Nat
  | _, [] => 0
  | before, op :: ops =>
    (if isCheckmultisig op.opcode then
      keyCount true (lastOpcode before) - keyCount true (opcodeBehind before)
    else
      0) + lostKeys (op :: before) ops

def lostSigops (script : Script) : Nat :=
  lostKeys [] (ops script)

theorem multisigCount_decode (op : UInt8) :
    multisigCount true (decodePushnum op) = keyCount true op := by
  revert op
  decide +kernel

theorem keyCount_bounds (last : UInt8) :
    1 ≤ keyCount true last ∧ keyCount true last ≤ 20 ∧
      (keyCount true last < 20 <-> isSmallInt last = true) := by
  revert last
  decide +kernel

theorem keyCount_of_sigop {op : UInt8} (h : isSigop op = true) : keyCount true op = 20 := by
  revert h
  revert op
  decide +kernel

section Behind

variable {op : Op} {before : List Op}

theorem opcodeBehind_of_sigop (h : isSigop op.opcode = true) :
    opcodeBehind (op :: before) = opcodeBehind before := by
  simp [opcodeBehind, h]

theorem opcodeBehind_of_not_sigop (h : isSigop op.opcode = false) :
    opcodeBehind (op :: before) = op.opcode := by
  simp [opcodeBehind, lastOpcode, h]

theorem nextCache_opcodeBehind (op : Op) (before : List Op) :
    nextCache (decodePushnum (opcodeBehind before)) op.opcode =
      decodePushnum (opcodeBehind (op :: before)) := by
  rw [nextCache]
  cases hsig : isSigop op.opcode with
  | true => rw [opcodeBehind_of_sigop hsig, if_pos rfl]
  | false => rw [opcodeBehind_of_not_sigop hsig, if_neg Bool.false_ne_true]

theorem keyCount_behind_le (before : List Op) :
    keyCount true (opcodeBehind before) ≤ keyCount true (lastOpcode before) := by
  cases before with
  | nil => exact Nat.le_refl _
  | cons op before =>
    show _ ≤ keyCount true op.opcode
    cases hsig : isSigop op.opcode with
    | false => rw [opcodeBehind_of_not_sigop hsig]
    | true =>
      rw [keyCount_of_sigop hsig]
      exact (keyCount_bounds _).right.left

end Behind

theorem codeSum_add_lostKeys (before ops : List Op) :
    codeSum true (decodePushnum (opcodeBehind before)) ops + lostKeys before ops =
      consensusSum true (lastOpcode before) ops := by
  induction ops generalizing before with
  | nil => rfl
  | cons op ops ih =>
    have hrest : _ = consensusSum true op.opcode ops := ih (op :: before)
    have hle := keyCount_behind_le before
    rw [codeSum, lostKeys, consensusSum, opCount, opCount, nextCache_opcodeBehind, <- hrest,
      multisigCount_decode]
    cases hsig : isChecksig op.opcode with
    | true =>
      have hmulti : isCheckmultisig op.opcode = false :=
        Bool.eq_false_iff.mpr fun hmulti => not_both op.opcode ⟨hsig, hmulti⟩
      simp only [hmulti, if_true, Bool.false_eq_true, if_false]
      omega
    | false =>
      cases isCheckmultisig op.opcode with
      | true =>
        simp only [if_true, Bool.false_eq_true, if_false]
        omega
      | false =>
        simp only [Bool.false_eq_true, if_false]
        omega

theorem countSigops_true (script : Script) :
    countSigops script true + lostSigops script = getSigOpCount script true := by
  rw [countSigops_eq, getSigOpCount_eq]
  exact codeSum_add_lostKeys [] (ops script)

/-!
### Scripts that are counted right
-/

/-- A `CHECKMULTISIG` after another signature check, and a number before those checks. -/
def Interrupted (script : Script) : Prop :=
  exists before multisig after, ops script = before ++ multisig :: after ∧
    isCheckmultisig multisig.opcode = true ∧ isSigop (lastOpcode before.reverse) = true ∧
    isSmallInt (opcodeBehind before.reverse) = true

theorem keyCount_behind_lt_iff {before : List Op} :
    keyCount true (opcodeBehind before) < keyCount true (lastOpcode before) <->
      isSigop (lastOpcode before) = true ∧ isSmallInt (opcodeBehind before) = true := by
  rw [<- (keyCount_bounds _).right.right]
  cases before with
  | nil => decide
  | cons op before =>
    show _ < keyCount true op.opcode <-> isSigop op.opcode = true ∧ _
    cases hsig : isSigop op.opcode with
    | true => simp [keyCount_of_sigop hsig]
    | false => simp [opcodeBehind_of_not_sigop hsig]

theorem lostKeys_eq_zero_iff {before ops : List Op} :
    lostKeys before ops = 0 <-> forall front multisig after, ops = front ++ multisig :: after ->
      isCheckmultisig multisig.opcode = true ->
        ¬ keyCount true (opcodeBehind (front.reverse ++ before)) <
          keyCount true (lastOpcode (front.reverse ++ before)) := by
  induction ops generalizing before with
  | nil => simp [lostKeys]
  | cons op ops ih =>
    rw [lostKeys, Nat.add_eq_zero_iff, ih]
    constructor
    · intro h front multisig after hops hmulti
      cases front with
      | nil =>
        cases hops
        have hfirst := h.left
        rw [if_pos hmulti] at hfirst
        exact Nat.not_lt.mpr (Nat.sub_eq_zero_iff_le.mp hfirst)
      | cons first front =>
        cases hops
        rw [List.reverse_cons, List.append_assoc]
        exact h.right front multisig after rfl hmulti
    · intro h
      refine ⟨?_, ?_⟩
      · split
        case isTrue hmulti =>
          exact Nat.sub_eq_zero_of_le (Nat.not_lt.mp (h [] op ops rfl hmulti))
        case isFalse => rfl
      · intro front multisig after hops hmulti
        have hlt := h (op :: front) multisig after (by rw [hops]; rfl) hmulti
        rwa [List.reverse_cons, List.append_assoc] at hlt

theorem lostSigops_eq_zero_iff {script : Script} :
    lostSigops script = 0 <-> ¬ Interrupted script := by
  simp only [lostSigops, lostKeys_eq_zero_iff, List.append_nil, keyCount_behind_lt_iff,
    Interrupted, not_exists, not_and]

theorem opCount_eq_zero {n m : Nat} {op : UInt8} (h : 1 ≤ n) (hzero : opCount n op = 0) :
    opCount m op = 0 := by
  rw [opCount] at hzero ⊢
  split at hzero
  · cases hzero
  · split at hzero
    · omega
    · rename_i hsig hmulti
      rw [if_neg hsig, if_neg hmulti]

theorem consensusSum_eq_zero {before ops : List Op} {last : UInt8}
    (h : codeSum true (decodePushnum (opcodeBehind before)) ops = 0) :
    consensusSum true last ops = 0 := by
  induction ops generalizing before last with
  | nil => rfl
  | cons op ops ih =>
    rw [codeSum, Nat.add_eq_zero_iff, multisigCount_decode, nextCache_opcodeBehind] at h
    rw [consensusSum, opCount_eq_zero (keyCount_bounds _).left h.left, ih h.right]

theorem sub_lostSigops_eq_zero_iff {script : Script} :
    getSigOpCount script true - lostSigops script = 0 <-> getSigOpCount script true = 0 := by
  have hcount := countSigops_true script
  constructor
  · intro h
    have hzero : countSigops script true = 0 := by omega
    rw [countSigops_eq] at hzero
    rw [getSigOpCount_eq]
    exact consensusSum_eq_zero
      (show codeSum true (decodePushnum (opcodeBehind [])) (ops script) = 0 from hzero)
  · intro h
    rw [h, Nat.zero_sub]

end Count

/-!
## Redeem scripts
-/

section Redeem

open Consensus (Op ops complete lastData redeemSigOpCount getSigOpCount)

theorem getLast?_instructions (script : Script) :
    (instructions script).getLast? =
      if complete script then
        (ops script).getLast?.map fun op => .ok op.instruction
      else
        some (.error .earlyEndOfScript) := by
  rw [instructions_eq]
  cases complete script with
  | true => rw [if_pos rfl, if_pos rfl, List.append_nil, List.getLast?_map]
  | false =>
    rw [if_neg Bool.false_ne_true, if_neg Bool.false_ne_true, List.getLast?_concat]

variable {script : Script}

theorem lastPushdata_of_not_complete (h : complete script = false) :
    lastPushdata script = none := by
  rw [lastPushdata, getLast?_instructions, h]
  rfl

theorem lastPushdata_of_complete (h : complete script = true) :
    (lastPushdata script).getD [] = lastData script ∧
      forall op, (ops script).getLast? = some op -> op.opcode ≤ 0x4e ->
        lastPushdata script = some op.data := by
  rw [lastPushdata, getLast?_instructions, h, if_pos rfl, lastData]
  cases hlast : (ops script).getLast? with
  | none => exact ⟨rfl, nofun⟩
  | some op =>
    rw [Option.map_some, Op.instruction]
    by_cases hpush : op.opcode ≤ 0x4e
    · rw [if_pos hpush]
      refine ⟨rfl, ?_⟩
      intro op' hop' _
      cases hop'
      rfl
    · rw [if_neg hpush]
      refine ⟨?_, fun op' hop' hle => ?_⟩
      · exact (data_of_mem_readOps (List.mem_of_getLast? hlast) hpush).symm
      · cases hop'
        exact absurd hle hpush

theorem p2shSigops_eq {scriptPubkey scriptSig : Script} (h : isP2sh scriptPubkey = true) :
    p2shSigops scriptPubkey scriptSig =
      if complete scriptSig then countSigops (lastData scriptSig) true else 0 := by
  have hpush : p2shSigops scriptPubkey scriptSig =
      countSigops ((lastPushdata scriptSig).getD []) true := by
    rw [p2shSigops, if_pos h, lastPushdata]
    split
    · rfl
    · rfl
  rw [hpush]
  cases hcomplete : complete scriptSig with
  | true => rw [(lastPushdata_of_complete hcomplete).left, if_pos rfl]
  | false =>
    rw [lastPushdata_of_not_complete hcomplete]
    rfl

def redeemExcess (scriptPubkey scriptSig : Script) : Nat :=
  if isP2sh scriptPubkey && (complete scriptSig && !Consensus.isPushOnly scriptSig) then
    getSigOpCount (lastData scriptSig) true - lostSigops (lastData scriptSig)
  else
    0

def redeemShortfall (scriptPubkey scriptSig : Script) : Nat :=
  if isP2sh scriptPubkey && Consensus.isPushOnly scriptSig then
    lostSigops (lastData scriptSig)
  else
    0

theorem complete_of_isPushOnly (h : Consensus.isPushOnly script = true) : complete script = true :=
  (Bool.and_eq_true_iff.mp h).left

theorem p2shSigops_balance (scriptPubkey scriptSig : Script) :
    p2shSigops scriptPubkey scriptSig + redeemShortfall scriptPubkey scriptSig =
      (if isP2sh scriptPubkey then redeemSigOpCount scriptSig else 0) +
        redeemExcess scriptPubkey scriptSig := by
  rw [redeemShortfall, redeemExcess, redeemSigOpCount]
  cases hp2sh : isP2sh scriptPubkey with
  | false =>
    rw [p2shSigops, hp2sh]
    rfl
  | true =>
    rw [p2shSigops_eq hp2sh]
    have hcount := countSigops_true (lastData scriptSig)
    cases hpush : Consensus.isPushOnly scriptSig with
    | true =>
      simp only [complete_of_isPushOnly hpush, Bool.and_self, if_true, Bool.not_true,
        Bool.and_false, Bool.false_eq_true, if_false]
      omega
    | false =>
      cases complete scriptSig with
      | true =>
        simp only [Bool.not_false, Bool.and_self, if_true, Bool.and_false, Bool.false_eq_true,
          if_false]
        omega
      | false => simp

/-- The last push of a script that does more than push data, with signature checks. -/
def CountedUnpushed (scriptPubkey scriptSig : Script) : Prop :=
  isP2sh scriptPubkey = true ∧ complete scriptSig = true ∧
    Consensus.isPushOnly scriptSig = false ∧ getSigOpCount (lastData scriptSig) true ≠ 0

theorem redeemExcess_eq_zero_iff {scriptPubkey scriptSig : Script} :
    redeemExcess scriptPubkey scriptSig = 0 <-> ¬ CountedUnpushed scriptPubkey scriptSig := by
  rw [redeemExcess, CountedUnpushed]
  split
  case isTrue h =>
    simp only [Bool.and_eq_true, Bool.not_eq_true'] at h
    simp [sub_lostSigops_eq_zero_iff, h]
  case isFalse h =>
    simp only [Bool.and_eq_true, Bool.not_eq_true'] at h
    exact iff_of_true rfl fun hc => h ⟨hc.left, hc.right.left, hc.right.right.left⟩

end Redeem

/-!
## Witness programs
-/

section Witness

open Consensus (Op ops complete lastData witnessProgram witnessSigOps programSigOps
  countWitnessSigOps isSmallInt getSigOpCount)

theorem versionOfOpcode_eq (opcode : UInt8) :
    versionOfOpcode opcode =
      if opcode = 0 ∨ isSmallInt opcode = true then
        some (if opcode = 0 then 0 else opcode.toNat - 0x50)
      else
        none := by
  revert opcode
  decide +kernel

theorem eq_zero_of_version {opcode : UInt8} (h : versionOfOpcode opcode = some 0) : opcode = 0 := by
  revert h
  revert opcode
  decide +kernel

theorem witnessProgram_eq (script : Script) :
    witnessProgram script =
      (witnessVersion script).map fun version => (version, script.drop 2) := by
  match script with
  | [] => rfl
  | [_] => rfl
  | version :: size :: program =>
    rw [witnessProgram, witnessVersion, versionOfOpcode_eq]
    simp only [List.length_cons, UInt8.le_iff_toNat_le]
    change (if 4 ≤ program.length + 1 + 1 ∧ program.length + 1 + 1 ≤ 42 ∧ _ ∧
        size.toNat + 2 = program.length + 1 + 1 then _ else _) =
      Option.map _ (if 4 ≤ program.length + 1 + 1 ∧ program.length + 1 + 1 ≤ 42 ∧
        2 ≤ size.toNat ∧ size.toNat ≤ 40 ∧ program.length = size.toNat then _ else _)
    have hsizes : (4 ≤ program.length + 1 + 1 ∧ program.length + 1 + 1 ≤ 42 ∧
        2 ≤ size.toNat ∧ size.toNat ≤ 40 ∧ program.length = size.toNat) <->
        4 ≤ program.length + 1 + 1 ∧ program.length + 1 + 1 ≤ 42 ∧
          size.toNat + 2 = program.length + 1 + 1 := by omega
    by_cases hversion : version = 0 ∨ isSmallInt version = true
    · by_cases hsize : 4 ≤ program.length + 1 + 1 ∧ program.length + 1 + 1 ≤ 42 ∧
          size.toNat + 2 = program.length + 1 + 1
      · rw [if_pos ⟨hsize.left, hsize.right.left, hversion, hsize.right.right⟩,
          if_pos (hsizes.mpr hsize), if_pos hversion]
        rfl
      · rw [if_neg (fun h => hsize ⟨h.left, h.right.left, h.right.right.right⟩),
          if_neg (fun h => hsize (hsizes.mp h))]
        rfl
    · rw [if_neg (fun h => hversion h.right.right.left), if_neg hversion, ite_self]
      rfl

variable {script : Script}

theorem exists_of_witnessVersion {version : Nat} (h : witnessVersion script = some version) :
    exists opcode size program, script = opcode :: size :: program ∧
      versionOfOpcode opcode = some version ∧ program.length = size.toNat := by
  match script with
  | [] => cases h
  | [_] => cases h
  | opcode :: size :: program =>
    rw [witnessVersion] at h
    split at h
    case isTrue hsize => exact ⟨opcode, size, program, rfl, h, hsize.right.right.right.right⟩
    case isFalse => cases h

def programShortfall (script : Script) (witness : List Bytes) : Nat :=
  if isP2wsh script then (witness.getLast?.map lostSigops).getD 0 else 0

theorem isP2wsh_iff {size : UInt8} {program : Bytes} (hversion : witnessVersion script = some 0)
    (hscript : script = 0 :: size :: program) (hlength : program.length = size.toNat) :
    (isP2wsh script = true <-> program.length = 32) ∧
      (isP2wpkh script = true <-> program.length = 20) := by
  have hsize : forall n : UInt8, size = n <-> program.length = n.toNat := by
    intro n
    rw [<- UInt8.toNat_inj, hlength]
  have hsecond : script[1]? = some size := by
    rw [hscript]
    rfl
  have hscriptLength : script.length = program.length + 2 := by
    rw [hscript]
    rfl
  rw [isP2wsh, isP2wpkh, decide_eq_true_eq, decide_eq_true_eq, hsecond, hscriptLength,
    Option.some.injEq, Option.some.injEq, hsize, hsize]
  change (_ ∧ _ ∧ program.length = 32 <-> _) ∧ (_ ∧ _ ∧ program.length = 20 <-> _)
  simp only [hversion, true_and]
  omega

theorem programSigops_eq (script : Script) (witness : List Bytes) :
    programSigops script witness =
        (if isP2wsh script then (witness.getLast?.map fun last => countSigops last true).getD 0
        else if isP2wpkh script then 1 else 0) ∧
      programSigOps script witness =
        if isP2wsh script then (witness.getLast?.map fun last => getSigOpCount last true).getD 0
        else if isP2wpkh script then 1 else 0 := by
  rw [programSigops, programSigOps, witnessProgram_eq]
  cases hversion : witnessVersion script with
  | none => simp [isP2wsh, isP2wpkh, hversion]
  | some version =>
    rcases exists_of_witnessVersion hversion with ⟨opcode, size, program, hscript, hopcode, hlength⟩
    have hdrop : script.drop 2 = program := by
      rw [hscript]
      rfl
    rw [Option.map_some, hdrop]
    by_cases hzero : version = 0
    · subst hzero
      rw [eq_zero_of_version hopcode] at hscript
      have hfirst : script[0]?.getD 0 = 0 := by
        rw [hscript]
        rfl
      rcases isP2wsh_iff hversion hscript hlength with ⟨hp2wsh, hp2wpkh⟩
      simp only [hp2wsh, hp2wpkh, hfirst, sigOps, witnessSigOps, true_and, if_true]
      by_cases h32 : program.length = 32
      · simp only [h32, if_true]
        cases witness.getLast? with
        | none => exact ⟨rfl, rfl⟩
        | some last => exact ⟨rfl, rfl⟩
      · simp only [h32, if_false, and_self]
    · simp [isP2wsh, isP2wpkh, hversion, hzero, witnessSigOps]

theorem programSigops_balance (script : Script) (witness : List Bytes) :
    programSigops script witness + programShortfall script witness =
      programSigOps script witness := by
  rw [(programSigops_eq script witness).left, (programSigops_eq script witness).right,
    programShortfall]
  split
  case isTrue =>
    cases witness.getLast? with
    | none => rfl
    | some last => exact countSigops_true last
  case isFalse => rfl

theorem isPushOnly_iff (script : Script) :
    isPushOnly script = true <->
      complete script = true ∧ forall op, op ∈ ops script -> op.opcode ≤ 0x4e := by
  rw [isPushOnly, instructions_eq, List.all_append, Bool.and_eq_true, List.all_map,
    List.all_eq_true, and_comm]
  refine and_congr ?_ (forall_congr' fun op => imp_congr_right fun _ => ?_)
  · cases complete script with
    | true => exact iff_of_true rfl rfl
    | false => exact iff_of_false Bool.false_ne_true Bool.false_ne_true
  · rw [Function.comp, Op.instruction]
    by_cases hpush : op.opcode ≤ 0x4e
    · rw [if_pos hpush]
      exact iff_of_true rfl hpush
    · rw [if_neg hpush]
      exact iff_of_false Bool.false_ne_true hpush

def onlyData (script : Script) : Bool :=
  (ops script).all fun op => decide (op.opcode ≤ 0x4e)

/-- Lost in the witness script, or because the program is behind a number opcode. -/
def witnessShortfall (scriptPubkey scriptSig : Script) (witness : List Bytes) : Nat :=
  if isWitnessProgram scriptPubkey then
    programShortfall scriptPubkey witness
  else if isP2sh scriptPubkey && Consensus.isPushOnly scriptSig then
    if onlyData scriptSig then
      programShortfall (lastData scriptSig) witness
    else
      programSigOps (lastData scriptSig) witness
  else
    0

theorem isPushOnly_eq (h : Consensus.isPushOnly script = true) :
    isPushOnly script = onlyData script := by
  rw [Bool.eq_iff_iff, isPushOnly_iff, onlyData, List.all_eq_true]
  simp [complete_of_isPushOnly h]

theorem consensus_isPushOnly (h : isPushOnly script = true) :
    Consensus.isPushOnly script = true := by
  rcases (isPushOnly_iff script).mp h with ⟨hcomplete, hops⟩
  rw [Consensus.isPushOnly, hcomplete, Bool.true_and, List.all_eq_true]
  intro op hop
  exact decide_eq_true (UInt8.le_trans (hops op hop) (by decide))

theorem lastPushdata_of_isPushOnly (h : isPushOnly script = true) (hne : script ≠ []) :
    lastPushdata script = some (lastData script) := by
  rcases (isPushOnly_iff script).mp h with ⟨hcomplete, hops⟩
  rcases lastPushdata_of_complete hcomplete with ⟨_, hlast⟩
  cases hop : (ops script).getLast? with
  | none =>
    rw [List.getLast?_eq_none_iff] at hop
    exact absurd (nil_of_ops hcomplete hop) hne
  | some op =>
    rw [hlast op hop (hops op (List.mem_of_getLast? hop)), lastData, hop]
    rfl

theorem countWithPrevout_balance (scriptPubkey scriptSig : Script) (witness : List Bytes) :
    exists n, countWithPrevout scriptPubkey scriptSig witness = .ok n ∧
      n + witnessShortfall scriptPubkey scriptSig witness =
        countWitnessSigOps scriptSig scriptPubkey witness := by
  have hprogram : (witnessProgram scriptPubkey).isSome = isWitnessProgram scriptPubkey := by
    rw [witnessProgram_eq, Option.isSome_map]
    rfl
  rw [countWithPrevout, witnessShortfall, countWitnessSigOps, hprogram]
  cases isWitnessProgram scriptPubkey with
  | true => exact ⟨_, rfl, programSigops_balance scriptPubkey witness⟩
  | false =>
    cases isP2sh scriptPubkey with
    | false => exact ⟨0, rfl, rfl⟩
    | true =>
      cases hpush : isPushOnly scriptSig with
      | false =>
        refine ⟨0, rfl, ?_⟩
        cases hconsensus : Consensus.isPushOnly scriptSig with
        | true =>
          rw [<- isPushOnly_eq hconsensus, hpush]
          exact Nat.zero_add _
        | false => rfl
      | true =>
        rw [consensus_isPushOnly hpush, <- isPushOnly_eq (consensus_isPushOnly hpush), hpush]
        by_cases hnil : scriptSig = []
        · subst hnil
          exact ⟨0, rfl, rfl⟩
        · refine ⟨programSigops (lastData scriptSig) witness, ?_,
            programSigops_balance (lastData scriptSig) witness⟩
          have hempty : scriptSig.isEmpty = false := by simpa using hnil
          rw [lastPushdata_of_isPushOnly hpush hnil, hempty]
          rfl

/-!
### Inputs that are counted right
-/

def CountedProgram (script : Script) (witness : List Bytes) : Prop :=
  isP2wsh script = true -> forall last, witness.getLast? = some last -> ¬ Interrupted last

/-- No counted script has other signature checks between a number and a `CHECKMULTISIG`.  A P2SH
script only pushes data, and no number if it ends in a witness program that counts; or it is cut
off, or ends in a push without signature checks. -/
def CountedInput (scriptPubkey scriptSig : Script) (witness : List Bytes) : Prop :=
  if isWitnessProgram scriptPubkey then
    CountedProgram scriptPubkey witness
  else if isP2sh scriptPubkey then
    if Consensus.isPushOnly scriptSig then
      ¬ Interrupted (lastData scriptSig) ∧
        if onlyData scriptSig then CountedProgram (lastData scriptSig) witness
        else programSigOps (lastData scriptSig) witness = 0
    else
      complete scriptSig = false ∨ getSigOpCount (lastData scriptSig) true = 0
  else
    True

theorem getD_map_eq_zero_iff {α : Type} {f : α -> Nat} {a : Option α} :
    (a.map f).getD 0 = 0 <-> forall last, a = some last -> f last = 0 := by
  cases a with
  | none => simp
  | some last => simp

theorem programShortfall_eq_zero_iff {witness : List Bytes} :
    programShortfall script witness = 0 <-> CountedProgram script witness := by
  rw [programShortfall, CountedProgram]
  cases isP2wsh script with
  | true => simp [getD_map_eq_zero_iff, lostSigops_eq_zero_iff]
  | false => simp

theorem not_isWitnessProgram_of_isP2sh (h : isP2sh script = true) :
    isWitnessProgram script = false := by
  match script with
  | [] => rfl
  | [_] => rfl
  | opcode :: size :: program =>
    have hopcode : opcode = 0xa9 := by
      simpa using (of_decide_eq_true h).right.left
    rw [isWitnessProgram, witnessVersion, hopcode]
    split
    · rfl
    · rfl

theorem countedInput_iff {scriptPubkey scriptSig : Script} {witness : List Bytes} :
    CountedInput scriptPubkey scriptSig witness <->
      redeemShortfall scriptPubkey scriptSig = 0 ∧
        witnessShortfall scriptPubkey scriptSig witness = 0 ∧
        redeemExcess scriptPubkey scriptSig = 0 := by
  rw [redeemExcess_eq_zero_iff, redeemShortfall, witnessShortfall, CountedInput, CountedUnpushed]
  cases hp2sh : isP2sh scriptPubkey with
  | false =>
    cases isWitnessProgram scriptPubkey with
    | false => simp
    | true => simp [programShortfall_eq_zero_iff]
  | true =>
    rw [not_isWitnessProgram_of_isP2sh hp2sh]
    cases Consensus.isPushOnly scriptSig with
    | false =>
      cases complete scriptSig with
      | false => simp
      | true => simp
    | true =>
      cases onlyData scriptSig with
      | false => simp [lostSigops_eq_zero_iff]
      | true => simp [lostSigops_eq_zero_iff, programShortfall_eq_zero_iff]

end Witness

/-!
## The cost of a transaction
-/

section Cost

open Consensus (getTransactionSigOpCost)

structure KnownPrevouts (tx : SignedTx) (prevoutMap : List (UInt32 × TxOut))
    (prevouts : List TxOut) : Prop where
  length_eq : prevouts.length = tx.input.length
  lookup : forall idx, idx < tx.input.length -> prevoutMap.lookup idx.toUInt32 = prevouts[idx]?

def shortfall (tx : SignedTx) (prevouts : List TxOut) : Nat :=
  ((tx.input.zip prevouts).map fun pair =>
    redeemShortfall pair.2.scriptPubkey pair.1.scriptSig * 4 +
      witnessShortfall pair.2.scriptPubkey pair.1.scriptSig pair.1.witness).sum

def excess (tx : SignedTx) (prevouts : List TxOut) : Nat :=
  ((tx.input.zip prevouts).map fun pair =>
    redeemExcess pair.2.scriptPubkey pair.1.scriptSig * 4).sum

theorem getLegacySigopCount_eq (tx : SignedTx) :
    getLegacySigopCount tx = Consensus.getLegacySigOpCount tx := by
  rw [getLegacySigopCount, Consensus.getLegacySigOpCount]
  simp only [countSigops_false]

theorem inputs_balance (pairs : List (SignedInput × TxOut)) :
    exists counts, pairs.mapM (fun pair =>
        countWithPrevout pair.2.scriptPubkey pair.1.scriptSig pair.1.witness) = .ok counts ∧
      (pairs.map fun pair => p2shSigops pair.2.scriptPubkey pair.1.scriptSig).sum * 4 +
          counts.sum + (pairs.map fun pair =>
            redeemShortfall pair.2.scriptPubkey pair.1.scriptSig * 4 +
              witnessShortfall pair.2.scriptPubkey pair.1.scriptSig pair.1.witness).sum =
        (pairs.map fun pair =>
            if isP2sh pair.2.scriptPubkey then
              Consensus.redeemSigOpCount pair.1.scriptSig
            else
              0).sum * 4 +
          (pairs.map fun pair => Consensus.countWitnessSigOps pair.1.scriptSig
            pair.2.scriptPubkey pair.1.witness).sum +
          (pairs.map fun pair =>
            redeemExcess pair.2.scriptPubkey pair.1.scriptSig * 4).sum := by
  induction pairs with
  | nil => exact ⟨[], rfl, rfl⟩
  | cons pair pairs ih =>
    rcases ih with ⟨counts, hcounts, hbalance⟩
    rcases countWithPrevout_balance pair.2.scriptPubkey pair.1.scriptSig pair.1.witness
      with ⟨n, hn, hwitness⟩
    have hredeem := p2shSigops_balance pair.2.scriptPubkey pair.1.scriptSig
    refine ⟨n :: counts, ?_, ?_⟩
    · rw [List.mapM_cons, hn, hcounts]
      rfl
    · simp only [List.map_cons, List.sum_cons]
      omega

theorem prevouts_of_known {tx : SignedTx} {prevoutMap : List (UInt32 × TxOut)}
    {prevouts : List TxOut} (h : KnownPrevouts tx prevoutMap prevouts) :
    (List.range tx.input.length).mapM (fun idx =>
      expect (prevoutMap.lookup idx.toUInt32) SigopError.earlyEndOfScript) =
        .ok prevouts := by
  rw [mapM_eq_ok, List.forall₂_iff_get]
  refine ⟨by rw [List.length_range, h.length_eq], ?_⟩
  intro idx hidx hidx'
  rw [List.length_range] at hidx
  rw [expect_eq_ok, List.get_eq_getElem, List.getElem_range, h.lookup idx hidx]
  exact List.getElem?_eq_getElem hidx'

theorem counted_iff {tx : SignedTx} {prevouts : List TxOut} :
    (forall pair, pair ∈ tx.input.zip prevouts ->
        CountedInput pair.2.scriptPubkey pair.1.scriptSig pair.1.witness) <->
      shortfall tx prevouts = 0 ∧ excess tx prevouts = 0 := by
  simp only [shortfall, excess, List.sum_eq_zero_iff, List.forall_mem_map, countedInput_iff,
    Nat.add_eq_zero_iff, Nat.mul_eq_zero, OfNat.ofNat_ne_zero, or_false]
  constructor
  · intro h
    exact ⟨fun pair hpair => ⟨(h pair hpair).left, (h pair hpair).right.left⟩,
      fun pair hpair => (h pair hpair).right.right⟩
  · intro h pair hpair
    exact ⟨(h.left pair hpair).left, (h.left pair hpair).right, h.right pair hpair⟩

theorem exists_unpushed {tx : SignedTx} {prevouts : List TxOut}
    (h : excess tx prevouts ≠ 0) : exists pair, pair ∈ tx.input.zip prevouts ∧
      CountedUnpushed pair.2.scriptPubkey pair.1.scriptSig := by
  by_contra hnone
  apply h
  refine List.sum_eq_zero ?_
  intro n hn
  rcases List.mem_map.mp hn with ⟨pair, hpair, rfl⟩
  rw [redeemExcess_eq_zero_iff.mpr fun hunpushed => hnone ⟨pair, hpair, hunpushed⟩,
    Nat.zero_mul]

/-- The cost with known previous outputs is the one of the consensus rules if every input is
counted right, and otherwise only if what some inputs lose is what others, whose scripts do more
than push data, count too much. -/
theorem sigop_cost_iff (tx : SignedTx) (hcoinbase : tx.isCoinbase = false)
    (prevoutMap : List (UInt32 × TxOut)) (prevouts : List TxOut)
    (hknown : KnownPrevouts tx prevoutMap prevouts) :
    (exists cost, transactionSigopCount tx prevoutMap = .ok cost ∧ cost + shortfall tx prevouts =
        getTransactionSigOpCost tx prevouts + excess tx prevouts) ∧
    (transactionSigopCount tx prevoutMap = .ok (getTransactionSigOpCost tx prevouts) <->
      (forall pair, pair ∈ tx.input.zip prevouts ->
        CountedInput pair.2.scriptPubkey pair.1.scriptSig pair.1.witness) ∨
      (exists pair, pair ∈ tx.input.zip prevouts ∧
        CountedUnpushed pair.2.scriptPubkey pair.1.scriptSig) ∧
        shortfall tx prevouts = excess tx prevouts) := by
  rcases inputs_balance (tx.input.zip prevouts) with ⟨counts, hcounts, hbalance⟩
  have hcost : transactionSigopCount tx prevoutMap =
      .ok (getLegacySigopCount tx * 4 + getP2shSigopCount tx prevouts * 4 + counts.sum) := by
    rw [transactionSigopCount, hcoinbase, if_neg Bool.false_ne_true,
      prevouts_of_known hknown, ok_bind]
    show getSigopCost tx prevouts true true = _
    rw [getSigopCost, hcoinbase,
      if_neg Bool.false_ne_true, if_neg (fun h => h hknown.length_eq.symm),
      getWitnessSigopCount, hcounts]
    rfl
  have hidentity : getLegacySigopCount tx * 4 + getP2shSigopCount tx prevouts * 4 +
      counts.sum + shortfall tx prevouts =
        getTransactionSigOpCost tx prevouts + excess tx prevouts := by
    rw [getLegacySigopCount_eq, getP2shSigopCount, hcoinbase, if_neg Bool.false_ne_true,
      getTransactionSigOpCost, Consensus.getP2SHSigOpCount, shortfall, excess]
    omega
  refine ⟨⟨_, hcost, hidentity⟩, ?_⟩
  rw [hcost, Except.ok.injEq, counted_iff]
  constructor
  · intro heq
    by_cases hexcess : excess tx prevouts = 0
    · exact Or.inl ⟨by omega, hexcess⟩
    · exact Or.inr ⟨exists_unpushed hexcess, by omega⟩
  · intro h
    rcases h with ⟨hshortfall, hexcess⟩ | ⟨_, hcancel⟩
    · omega
    · omega

end Cost

namespace Sample

def spendTx (scriptSig : Script) (witness : List Bytes) : SignedTx where
  input := [{
    previousOutput := { txid := 1, vout := 0 }
    scriptSig := scriptSig
    witness := witness }]
  output := []

def prevout (scriptPubkey : Script) : TxOut where
  value := 1000
  scriptPubkey := scriptPubkey

def p2wsh : Script :=
  0x00 :: 0x20 :: List.replicate 32 0x22

def p2sh : Script :=
  0xa9 :: 0x14 :: (List.replicate 20 0x33 ++ [0x87])

theorem knownPrevouts (scriptSig : Script) (witness : List Bytes) (scriptPubkey : Script) :
    KnownPrevouts (spendTx scriptSig witness) [(0, prevout scriptPubkey)]
      [prevout scriptPubkey] where
  length_eq := rfl
  lookup := by
    intro idx hidx
    rw [Nat.lt_one_iff.mp hidx]
    rfl

theorem multisig_cost :
    transactionSigopCount (spendTx [] [[0x52, 0xae]]) [(0, prevout p2wsh)] =
      .ok (Consensus.getTransactionSigOpCost (spendTx [] [[0x52, 0xae]]) [prevout p2wsh]) := by
  refine (sigop_cost_iff (spendTx [] [[0x52, 0xae]]) rfl [(0, prevout p2wsh)] [prevout p2wsh]
    (knownPrevouts _ _ _)).right.mpr (Or.inl ?_)
  intro pair hpair
  rw [List.mem_singleton.mp hpair]
  intro _ last hlast
  cases hlast
  exact lostSigops_eq_zero_iff.mp (by decide)

theorem stale_number_counted :
    KnownPrevouts (spendTx [] [[0x52, 0xac, 0xae]]) [(0, prevout p2wsh)] [prevout p2wsh] ∧
      transactionSigopCount (spendTx [] [[0x52, 0xac, 0xae]]) [(0, prevout p2wsh)] = .ok 3 ∧
      Consensus.getTransactionSigOpCost (spendTx [] [[0x52, 0xac, 0xae]]) [prevout p2wsh] = 21 :=
  ⟨knownPrevouts _ _ _, by decide, by decide⟩

example :
    transactionSigopCount (spendTx [0x61, 0x01, 0xac] []) [(0, prevout p2sh)] = .ok 4 ∧
      Consensus.getTransactionSigOpCost (spendTx [0x61, 0x01, 0xac] []) [prevout p2sh] = 0 := by
  decide

end Sample

end Sigops
end Splora
