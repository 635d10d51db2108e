import Splora.Foundation.Bytes

/-!
# Chain data

What the indexer reads of transactions, headers and blocks (`src/chain.rs`,
`src/util/transaction.rs`).  Hashes are fields of the values.  The consensus limits on block
sizes are part of the types, so that the casts of positions lose nothing.
-/

namespace Splora

abbrev Bytes := List UInt8

abbrev FullHash := BitVec 256

instance fullHashOrder : Std.TransOrd FullHash :=
  inferInstance

instance fullHashLawful : LawfulBEq FullHash :=
  inferInstance

abbrev Txid := FullHash

abbrev BlockHash := FullHash

abbrev Script := Bytes

def nullHash : BlockHash := 0

@[ext]
structure OutPoint where
  txid : Txid
  vout : UInt32
deriving DecidableEq, Repr

namespace OutPoint

def null : OutPoint where
  txid := 0
  vout := 0xffffffff

def isNull (outpoint : OutPoint) : Bool :=
  decide (outpoint = null)

end OutPoint

structure TxIn where
  previousOutput : OutPoint
deriving DecidableEq, Repr

structure TxOut where
  value : UInt64
  scriptPubkey : Script
deriving DecidableEq, Repr

structure Transaction where
  txid : Txid
  input : List TxIn
  output : List TxOut
  raw : Bytes
  weight : Nat
  input_lt : input.length < 2 ^ 32 := by decide
  output_lt : output.length < 2 ^ 32 := by decide
deriving DecidableEq

structure BlockHeader where
  hash : BlockHash
  version : Int32
  prevBlockhash : BlockHash
  merkleRoot : FullHash
  time : UInt32
  bits : UInt32
  nonce : UInt32
deriving DecidableEq, Repr

structure Block where
  header : BlockHeader
  txdata : List Transaction
  size : UInt32
  weight : UInt32
  txdata_lt : txdata.length < 2 ^ 16 := by decide
deriving DecidableEq

def Block.hash (b : Block) : BlockHash :=
  b.header.hash

def hasPrevout (txin : TxIn) : Bool :=
  !txin.previousOutput.isNull

def Transaction.isCoinbase (tx : Transaction) : Bool :=
  match tx.input with
  | [txi] => txi.previousOutput.isNull
  | _ => false

/-!
## Header links
-/

def LinkedFrom : BlockHash -> List Block -> Prop
  | _, [] => True
  | prev, b :: rest => b.header.prevBlockhash = prev ∧ LinkedFrom b.hash rest

instance decidableLinkedFrom :
    (prev : BlockHash) -> (c : List Block) -> Decidable (LinkedFrom prev c)
  | _, [] => isTrue trivial
  | prev, b :: rest =>
    have := decidableLinkedFrom b.hash rest
    inferInstanceAs (Decidable (b.header.prevBlockhash = prev ∧ LinkedFrom b.hash rest))

def tipHash (c : List Block) : BlockHash :=
  (c.getLast?.map Block.hash).getD nullHash

@[simp] theorem tipHash_nil : tipHash [] = nullHash := rfl

@[simp] theorem tipHash_append_singleton (c : List Block) (b : Block) :
    tipHash (c ++ [b]) = b.hash := by
  simp [tipHash]

variable {prev : BlockHash} {c : List Block}

theorem linkedFrom_append_singleton {b : Block} :
    LinkedFrom prev (c ++ [b]) <->
      LinkedFrom prev c ∧ b.header.prevBlockhash = ((c.getLast?.map Block.hash).getD prev) := by
  induction c generalizing prev with
  | nil =>
    simp [LinkedFrom]
  | cons a rest ih =>
    simp only [List.cons_append, LinkedFrom, ih, and_assoc]
    cases rest with
    | nil => simp [LinkedFrom]
    | cons a' rest' => simp [List.getLast?_cons]

variable {d : List Block}

theorem linkedFrom_append_left (h : LinkedFrom prev (c ++ d)) : LinkedFrom prev c := by
  induction c generalizing prev with
  | nil => trivial
  | cons a rest ih => exact ⟨h.left, ih h.right⟩

theorem linkedFrom_append_right (h : LinkedFrom prev (c ++ d)) :
    LinkedFrom ((c.getLast?.map Block.hash).getD prev) d := by
  induction c generalizing prev with
  | nil => exact h
  | cons a rest ih =>
    have hrest := ih h.right
    cases rest with
    | nil => exact hrest
    | cons a' rest' => simpa [List.getLast?_cons] using hrest

theorem linkedFrom_append (hc : LinkedFrom prev c)
    (hd : LinkedFrom ((c.getLast?.map Block.hash).getD prev) d) :
    LinkedFrom prev (c ++ d) := by
  induction c generalizing prev with
  | nil => exact hd
  | cons a rest ih =>
    refine ⟨hc.left, ih hc.right ?_⟩
    cases rest with
    | nil => exact hd
    | cons a' rest' => simpa [List.getLast?_cons] using hd

end Splora
