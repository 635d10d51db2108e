import Splora.Chain

/-!
# Scripts

What `src/util/transaction.rs` looks at, as the `bitcoin` crate computes it: instructions, up to
the first that is cut off, and patterns of output scripts.
-/

namespace Splora
namespace Sigops

open Foundation

/-!
## Instructions
-/

inductive Instruction where
  | pushBytes (bytes : Bytes)
  | op (opcode : UInt8)
deriving DecidableEq, Repr

inductive ScriptError where
  | earlyEndOfScript
deriving DecidableEq, Repr

def readUint (size : Nat) (data : Bytes) : Option (Nat × Bytes) :=
  if size ≤ data.length then
    some (readLittleEndian (data.take size), data.drop size)
  else
    none

def takeSliceOrKill (len : Nat) (data : Bytes) :
    Except ScriptError Instruction × Bytes :=
  if len ≤ data.length then
    (.ok (.pushBytes (data.take len)), data.drop len)
  else
    (.error .earlyEndOfScript, [])

def nextPushDataLen (size : Nat) (data : Bytes) :
    Except ScriptError Instruction × Bytes :=
  match readUint size data with
  | some (len, data) => takeSliceOrKill len data
  | none => (.error .earlyEndOfScript, [])

def nextInstruction : Bytes -> Option (Except ScriptError Instruction × Bytes)
  | [] => none
  | byte :: data =>
    if byte ≤ 0x4b then
      some (takeSliceOrKill byte.toNat data)
    else if byte = 0x4c then
      some (nextPushDataLen 1 data)
    else if byte = 0x4d then
      some (nextPushDataLen 2 data)
    else if byte = 0x4e then
      some (nextPushDataLen 4 data)
    else
      some (.ok (.op byte), data)

def instructionsFrom : Nat -> Bytes -> List (Except ScriptError Instruction)
  | 0, _ => []
  | fuel + 1, data =>
    match nextInstruction data with
    | none => []
    | some (inst, data) => inst :: instructionsFrom fuel data

def instructions (script : Script) : List (Except ScriptError Instruction) :=
  instructionsFrom script.length script

/-!
## Patterns
-/

def isP2sh (script : Script) : Bool :=
  decide (script.length = 23 ∧ script[0]? = some 0xa9 ∧ script[1]? = some 0x14 ∧
    script[22]? = some 0x87)

def versionOfOpcode (opcode : UInt8) : Option Nat :=
  if opcode = 0 then
    some 0
  else if 0x51 ≤ opcode ∧ opcode ≤ 0x60 then
    some (opcode.toNat - 0x50)
  else
    none

def witnessVersion (script : Script) : Option Nat :=
  match script with
  | verOpcode :: pushOpbyte :: program =>
    if 4 ≤ script.length ∧ script.length ≤ 42 ∧ 2 ≤ pushOpbyte ∧ pushOpbyte ≤ 40 ∧
        program.length = pushOpbyte.toNat then
      versionOfOpcode verOpcode
    else
      none
  | _ => none

def isWitnessProgram (script : Script) : Bool :=
  (witnessVersion script).isSome

def isP2wsh (script : Script) : Bool :=
  decide (script.length = 34 ∧ witnessVersion script = some 0 ∧ script[1]? = some 0x20)

def isP2wpkh (script : Script) : Bool :=
  decide (script.length = 22 ∧ witnessVersion script = some 0 ∧ script[1]? = some 0x14)

/-!
## Opcodes
-/

namespace Consensus

structure Op where
  opcode : UInt8
  data : Bytes
deriving DecidableEq, Repr

def pushSize (opcode : UInt8) (script : Bytes) : Option (Nat × Bytes) :=
  if opcode < 0x4c then
    some (opcode.toNat, script)
  else if opcode = 0x4c then
    readUint 1 script
  else if opcode = 0x4d then
    readUint 2 script
  else
    readUint 4 script

/-- `GetOp`: the next opcode, unless the script ends within it. -/
def getOp : Bytes -> Option (Op × Bytes)
  | [] => none
  | opcode :: script =>
    if opcode ≤ 0x4e then
      match pushSize opcode script with
      | none => none
      | some (size, script) =>
        if script.length < size then
          none
        else
          some ({ opcode := opcode, data := script.take size }, script.drop size)
    else
      some ({ opcode := opcode, data := [] }, script)

/-- The opcodes up to the first that cannot be read, and whether the end was reached. -/
def readOps : Nat -> Bytes -> List Op × Bool
  | 0, script => ([], script.isEmpty)
  | fuel + 1, script =>
    if script.isEmpty then
      ([], true)
    else
      match getOp script with
      | none => ([], false)
      | some (op, script) => (op :: (readOps fuel script).1, (readOps fuel script).2)

def ops (script : Script) : List Op :=
  (readOps script.length script).1

def complete (script : Script) : Bool :=
  (readOps script.length script).2

end Consensus

/-!
## Both read the same opcodes
-/

open Consensus

def Consensus.Op.instruction (op : Op) : Instruction :=
  if op.opcode ≤ 0x4e then
    .pushBytes op.data
  else
    .op op.opcode

theorem takeSliceOrKill_of_le {len : Nat} {data : Bytes} (h : len ≤ data.length) :
    takeSliceOrKill len data = (.ok (.pushBytes (data.take len)), data.drop len) :=
  if_pos h

theorem takeSliceOrKill_of_lt {len : Nat} {data : Bytes} (h : data.length < len) :
    takeSliceOrKill len data = (.error .earlyEndOfScript, []) :=
  if_neg (Nat.not_le_of_gt h)

variable {rest : Bytes}

theorem readUint_length_le {size len : Nat} {data : Bytes}
    (h : readUint size data = some (len, rest)) : rest.length ≤ data.length := by
  rw [readUint] at h
  split at h
  · cases h
    rw [List.length_drop]
    exact Nat.sub_le _ _
  · cases h

variable {script : Bytes}

theorem pushSize_length_le {opcode : UInt8} {size : Nat}
    (h : pushSize opcode script = some (size, rest)) : rest.length ≤ script.length := by
  rw [pushSize] at h
  split at h
  · cases h
    exact Nat.le_refl _
  · split at h
    · exact readUint_length_le h
    · split at h
      · exact readUint_length_le h
      · exact readUint_length_le h

theorem getOp_length_lt {op : Op} (h : getOp script = some (op, rest)) :
    rest.length < script.length := by
  cases script with
  | nil => cases h
  | cons opcode script =>
    rw [getOp] at h
    rw [List.length_cons]
    split at h
    · split at h
      · cases h
      · rename_i size rest' hsize
        split at h
        · cases h
        · cases h
          have hle := pushSize_length_le hsize
          rw [List.length_drop]
          omega
    · cases h
      exact Nat.lt_succ_self _

theorem nextInstruction_cons (byte : UInt8) (data : Bytes) :
    nextInstruction (byte :: data) =
      match getOp (byte :: data) with
      | some (op, rest) => some (.ok op.instruction, rest)
      | none => some (.error .earlyEndOfScript, []) := by
  by_cases hpush : byte ≤ 0x4e
  · have hsize : nextInstruction (byte :: data) =
        match pushSize byte data with
        | some (len, data) => some (takeSliceOrKill len data)
        | none => some (.error .earlyEndOfScript, []) := by
      rw [nextInstruction, pushSize]
      have hlt : byte ≤ 0x4b <-> byte < 0x4c := by
        rw [UInt8.le_iff_toNat_le, UInt8.lt_iff_toNat_lt]
        exact Nat.lt_succ_iff.symm
      by_cases h1 : byte < 0x4c
      · rw [if_pos (hlt.mpr h1), if_pos h1]
      · rw [if_neg (fun h => h1 (hlt.mp h)), if_neg h1]
        by_cases h2 : byte = 0x4c
        · rw [if_pos h2, if_pos h2, nextPushDataLen]
          cases readUint 1 data <;> rfl
        · rw [if_neg h2, if_neg h2]
          by_cases h3 : byte = 0x4d
          · rw [if_pos h3, if_pos h3, nextPushDataLen]
            cases readUint 2 data <;> rfl
          · have h4 : byte = 0x4e := by
              rw [UInt8.lt_iff_toNat_lt] at h1
              rw [<- UInt8.toNat_inj] at h2 h3 ⊢
              rw [UInt8.le_iff_toNat_le] at hpush
              change ¬ byte.toNat < 76 at h1
              change ¬ byte.toNat = 76 at h2
              change ¬ byte.toNat = 77 at h3
              change byte.toNat ≤ 78 at hpush
              change byte.toNat = 78
              omega
            rw [if_neg h3, if_neg h3, if_pos h4, nextPushDataLen]
            cases readUint 4 data <;> rfl
    rw [hsize, getOp, if_pos hpush]
    cases pushSize byte data with
    | none => rfl
    | some field =>
      rcases field with ⟨len, rest⟩
      by_cases hlen : rest.length < len
      · simp only [hlen, if_true, takeSliceOrKill_of_lt]
      · simp only [hlen, if_false, takeSliceOrKill_of_le (Nat.le_of_not_lt hlen)]
        rw [Op.instruction, if_pos hpush]
  · have hne : forall n : UInt8, n ≤ 0x4e -> byte ≠ n := by
      intro n hn heq
      exact hpush (heq ▸ hn)
    rw [nextInstruction, getOp, if_neg hpush,
      if_neg (fun h => hpush (UInt8.le_trans h (by decide))), if_neg (hne _ (by decide)),
      if_neg (hne _ (by decide)), if_neg (hne _ (by decide))]
    simp only [Op.instruction, if_neg hpush]

theorem instructionsFrom_nil (fuel : Nat) : instructionsFrom fuel [] = [] := by
  cases fuel with
  | zero => rfl
  | succ fuel => rfl

theorem instructionsFrom_eq {fuel : Nat} (h : script.length ≤ fuel) :
    instructionsFrom fuel script = (readOps fuel script).1.map (fun op => .ok op.instruction) ++
        (if (readOps fuel script).2 then [] else [.error .earlyEndOfScript]) := by
  induction fuel generalizing script with
  | zero =>
    have hnil : script = [] := List.length_eq_zero_iff.mp (Nat.le_zero.mp h)
    rw [hnil]
    rfl
  | succ fuel ih =>
    cases script with
    | nil => rfl
    | cons byte data =>
      rw [instructionsFrom, nextInstruction_cons, readOps,
        if_neg (by simp : ¬ (byte :: data).isEmpty = true)]
      cases hop : getOp (byte :: data) with
      | none =>
        simp only [instructionsFrom_nil]
        rfl
      | some next =>
        rcases next with ⟨op, rest⟩
        have hlt := getOp_length_lt hop
        have hle : rest.length ≤ fuel := by
          rw [List.length_cons] at h hlt
          omega
        have hrest := ih hle
        simp only [hrest, List.map_cons, List.cons_append]

theorem data_of_getOp {op : Op} (h : getOp script = some (op, rest))
    (hop : ¬ op.opcode ≤ 0x4e) : op.data = [] := by
  cases script with
  | nil => cases h
  | cons opcode script =>
    rw [getOp] at h
    split at h
    case isTrue hpush =>
      split at h
      · cases h
      · split at h
        · cases h
        · cases h
          exact absurd hpush hop
    case isFalse hpush =>
      cases h
      rfl

theorem data_of_mem_readOps {fuel : Nat} {op : Op} (h : op ∈ (readOps fuel script).1)
    (hop : ¬ op.opcode ≤ 0x4e) : op.data = [] := by
  induction fuel generalizing script with
  | zero => cases h
  | succ fuel ih =>
    rw [readOps] at h
    split at h
    · cases h
    · split at h
      · cases h
      · rename_i next rest hnext
        rcases List.mem_cons.mp h with heq | hmem
        · subst heq
          exact data_of_getOp hnext hop
        · exact ih hmem

theorem nil_of_ops {script : Script} (hcomplete : complete script = true)
    (h : ops script = []) : script = [] := by
  cases script with
  | nil => rfl
  | cons byte data =>
    rw [complete, List.length_cons, readOps, if_neg (by simp)] at hcomplete
    rw [ops, List.length_cons, readOps, if_neg (by simp)] at h
    cases hop : getOp (byte :: data) with
    | none =>
      rw [hop] at hcomplete
      cases hcomplete
    | some next =>
      rw [hop] at h
      cases h

theorem instructions_eq (script : Script) :
    instructions script = (ops script).map (fun op => .ok op.instruction) ++
        (if complete script then [] else [.error .earlyEndOfScript]) :=
  instructionsFrom_eq (Nat.le_refl _)

end Sigops
end Splora
