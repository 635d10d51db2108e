import Splora.NewIndex.Keys

/-!
# The codec of history keys

`TxHistoryRow::into_row` and `from_row` with `big_cfg` of `src/util/bincode_util.rs`: big-endian
fields, the variant as a `u32`, and any bytes after a complete key.  Byte order is the order of
the fields.
-/

namespace Splora
namespace NewIndex

open Foundation

structure DBRow where
  key : Bytes
  value : Bytes
deriving DecidableEq, Repr

/-!
## Reading fields
-/

def readU8 : Bytes -> Option (UInt8 × Bytes)
  | [] => none
  | byte :: rest => some (byte, rest)

def readU16 (bytes : Bytes) : Option (UInt16 × Bytes) :=
  (readBig 2 bytes).map fun field => (field.1.toUInt16, field.2)

def readU32 (bytes : Bytes) : Option (UInt32 × Bytes) :=
  (readBig 4 bytes).map fun field => (field.1.toUInt32, field.2)

def readU64 (bytes : Bytes) : Option (UInt64 × Bytes) :=
  (readBig 8 bytes).map fun field => (field.1.toUInt64, field.2)

def readHash (bytes : Bytes) : Option (FullHash × Bytes) :=
  (readBig 32 bytes).map fun field => (BitVec.ofNat 256 field.1, field.2)

def readSpendingInfo (bytes : Bytes) : Option (SpendingInfo × Bytes) := do
  let (txid, bytes) <- readHash bytes
  let (vin, bytes) <- readU32 bytes
  let (prevTxid, bytes) <- readHash bytes
  let (prevVout, bytes) <- readU32 bytes
  let (value, bytes) <- readU64 bytes
  return ({ txid, vin, prevTxid, prevVout, value }, bytes)

def readFundingInfo (bytes : Bytes) : Option (FundingInfo × Bytes) := do
  let (txid, bytes) <- readHash bytes
  let (vout, bytes) <- readU32 bytes
  let (value, bytes) <- readU64 bytes
  return ({ txid, vout, value }, bytes)

def readTxHistoryInfo (bytes : Bytes) : Option (TxHistoryInfo × Bytes) := do
  let (variant, bytes) <- readU32 bytes
  if variant = 0 then
    let (info, bytes) <- readSpendingInfo bytes
    return (.spending info, bytes)
  else if variant = 1 then
    let (info, bytes) <- readFundingInfo bytes
    return (.funding info, bytes)
  else
    none

section Fields

variable (rest : Bytes)

@[simp] theorem readU16_append (n : UInt16) : readU16 (u16Big n ++ rest) = some (n, rest) := by
  rw [readU16, u16Big, readBig_append n.toNat_lt, Option.map_some]
  simp

@[simp] theorem readU32_append (n : UInt32) : readU32 (u32Big n ++ rest) = some (n, rest) := by
  rw [readU32, u32Big, readBig_append n.toNat_lt, Option.map_some]
  simp

@[simp] theorem readU64_append (n : UInt64) : readU64 (u64Big n ++ rest) = some (n, rest) := by
  rw [readU64, u64Big, readBig_append n.toNat_lt, Option.map_some]
  simp

@[simp] theorem readHash_append (hash : FullHash) :
    readHash (hashBytes hash ++ rest) = some (hash, rest) := by
  rw [readHash, hashBytes, readBig_append hash.isLt, Option.map_some]
  simp

@[simp] theorem readTxHistoryInfo_append (info : TxHistoryInfo) :
    readTxHistoryInfo (info.bytes ++ rest) = some (info, rest) := by
  cases info with
  | spending info =>
    simp [readTxHistoryInfo, readSpendingInfo, TxHistoryInfo.bytes]
  | funding info =>
    simp [readTxHistoryInfo, readFundingInfo, TxHistoryInfo.bytes]

end Fields

/-!
## Keys
-/

/-- The fields of `TxHistoryKey` as declared, with any byte as the code. -/
@[ext]
structure HistoryRecord where
  code : UInt8
  hash : FullHash
  confirmedHeight : UInt32
  txPosition : UInt16
  txinfo : TxHistoryInfo
deriving DecidableEq, Repr

def TxHistoryKey.record (k : TxHistoryKey) : HistoryRecord where
  code := k.code.byte
  hash := k.hash
  confirmedHeight := k.confirmedHeight
  txPosition := k.txPosition
  txinfo := k.txinfo

namespace HistoryRecord

def serializeBig (k : HistoryRecord) : Bytes :=
  k.code :: (hashBytes k.hash ++ (u32Big k.confirmedHeight ++
    (u16Big k.txPosition ++ k.txinfo.bytes)))

def deserializeBig (bytes : Bytes) : Option HistoryRecord := do
  let (code, bytes) <- readU8 bytes
  let (hash, bytes) <- readHash bytes
  let (confirmedHeight, bytes) <- readU32 bytes
  let (txPosition, bytes) <- readU16 bytes
  let (txinfo, _) <- readTxHistoryInfo bytes
  return { code, hash, confirmedHeight, txPosition, txinfo }

def intoRow (k : HistoryRecord) : DBRow where
  key := k.serializeBig
  value := []

/-- `none` is the panic `failed to deserialize TxHistoryKey`. -/
def fromRow (row : DBRow) : Option HistoryRecord :=
  deserializeBig row.key

theorem serializeBig_record (k : TxHistoryKey) :
    k.record.serializeBig = k.bytes := rfl

theorem deserializeBig_append (k : HistoryRecord) (rest : Bytes) :
    deserializeBig (k.serializeBig ++ rest) = some k := by
  simp [deserializeBig, serializeBig, readU8]

theorem fromRow_intoRow (k : HistoryRecord) : fromRow k.intoRow = some k := by
  have hread := deserializeBig_append k []
  rw [List.append_nil] at hread
  exact hread

end HistoryRecord

/-!
## The order of the fields
-/

section Compare

variable {α : Type}

theorem compare_eq_compare_toNat [LT α] [DecidableLT α] [DecidableEq α]
    {toNat : α -> Nat} (hlt : forall a b, a < b <-> toNat a < toNat b)
    (hinj : forall a b, a = b <-> toNat a = toNat b) (a b : α) :
    compareOfLessAndEq a b = compare (toNat a) (toNat b) := by
  show _ = compareOfLessAndEq (toNat a) (toNat b)
  unfold compareOfLessAndEq
  simp only [hlt, hinj]

theorem compare_u16Big (m n : UInt16) : compare (u16Big m) (u16Big n) = compare m n := by
  rw [u16Big, u16Big, compare_bigEndian m.toNat_lt n.toNat_lt]
  exact (compare_eq_compare_toNat (fun _ _ => UInt16.lt_iff_toNat_lt)
    (fun _ _ => UInt16.toNat_inj.symm) m n).symm

theorem compare_u32Big (m n : UInt32) : compare (u32Big m) (u32Big n) = compare m n := by
  rw [u32Big, u32Big, compare_bigEndian m.toNat_lt n.toNat_lt]
  exact (compare_eq_compare_toNat (fun _ _ => UInt32.lt_iff_toNat_lt)
    (fun _ _ => UInt32.toNat_inj.symm) m n).symm

theorem compare_u64Big (m n : UInt64) : compare (u64Big m) (u64Big n) = compare m n := by
  rw [u64Big, u64Big, compare_bigEndian m.toNat_lt n.toNat_lt]
  exact (compare_eq_compare_toNat (fun _ _ => UInt64.lt_iff_toNat_lt)
    (fun _ _ => UInt64.toNat_inj.symm) m n).symm

theorem compare_hashBytes (h h' : FullHash) :
    compare (hashBytes h) (hashBytes h') = compare h h' := by
  rw [hashBytes, hashBytes, compare_bigEndian h.isLt h'.isLt]
  exact (compare_eq_compare_toNat (fun _ _ => BitVec.lt_def)
    (fun _ _ => BitVec.toNat_inj.symm) h h').symm

end Compare

def SpendingInfo.order (a b : SpendingInfo) : Ordering :=
  (compare a.txid b.txid).then ((compare a.vin b.vin).then
    ((compare a.prevTxid b.prevTxid).then ((compare a.prevVout b.prevVout).then
      (compare a.value b.value))))

def FundingInfo.order (a b : FundingInfo) : Ordering :=
  (compare a.txid b.txid).then ((compare a.vout b.vout).then
    (compare a.value b.value))

def TxHistoryInfo.order : TxHistoryInfo -> TxHistoryInfo -> Ordering
  | .spending a, .spending b => a.order b
  | .spending _, .funding _ => .lt
  | .funding _, .spending _ => .gt
  | .funding a, .funding b => a.order b

def HistoryRecord.order (k k' : HistoryRecord) : Ordering :=
  (compare k.confirmedHeight k'.confirmedHeight).then
    ((compare k.txPosition k'.txPosition).then (k.txinfo.order k'.txinfo))

theorem TxHistoryInfo.compare_bytes (a b : TxHistoryInfo) :
    compare a.bytes b.bytes = a.order b := by
  cases a with
  | spending a =>
    cases b with
    | spending b =>
      rw [bytes, bytes, compare_append_same, compare_append (by simp),
        compare_append (by simp), compare_append (by simp),
        compare_append (by simp), compare_hashBytes, compare_u32Big,
        compare_hashBytes, compare_u32Big, compare_u64Big]
      rfl
    | funding b =>
      rw [bytes, bytes, compare_append (by simp), compare_u32Big]
      rfl
  | funding a =>
    cases b with
    | spending b =>
      rw [bytes, bytes, compare_append (by simp), compare_u32Big]
      rfl
    | funding b =>
      rw [bytes, bytes, compare_append_same, compare_append (by simp),
        compare_append (by simp), compare_hashBytes, compare_u32Big,
        compare_u64Big]
      rfl

theorem HistoryRecord.compare_serializeBig {k k' : HistoryRecord}
    (hcode : k.code = k'.code) (hhash : k.hash = k'.hash) :
    compare k.serializeBig k'.serializeBig = k.order k' := by
  have hbyte : compare k'.code k'.code = .eq := Std.ReflOrd.compare_self
  rw [serializeBig, serializeBig, hcode, hhash, List.compare_cons_cons, hbyte,
    compare_append_same, compare_append (by simp), compare_append (by simp),
    compare_u32Big, compare_u16Big, TxHistoryInfo.compare_bytes]
  rfl

/-- Keys survive the way into a row and back, and rows are ordered as their fields are. -/
theorem history_codec (k k' : HistoryRecord) :
    HistoryRecord.fromRow k.intoRow = some k ∧ (k.code = k'.code -> k.hash = k'.hash ->
        compare k.intoRow.key k'.intoRow.key = k.order k') :=
  ⟨k.fromRow_intoRow, HistoryRecord.compare_serializeBig⟩

namespace Sample

def spendRecord : HistoryRecord where
  code := 'H'.toUInt8
  hash := 1
  confirmedHeight := 0xffffffff
  txPosition := 0xffff
  txinfo := .spending { txid := 9, vin := 0, prevTxid := 4, prevVout := 1, value := 5 }

def fundRecord : HistoryRecord :=
  { spendRecord with txinfo := .funding { txid := 9, vout := 0, value := 5 } }

theorem spend_row_before_fund_row :
    spendRecord.code = fundRecord.code ∧ spendRecord.hash = fundRecord.hash ∧
      HistoryRecord.fromRow spendRecord.intoRow = some spendRecord ∧
      compare spendRecord.intoRow.key fundRecord.intoRow.key = .lt := by
  refine ⟨rfl, rfl, (history_codec spendRecord fundRecord).left, ?_⟩
  rw [(history_codec spendRecord fundRecord).right rfl rfl]
  decide

end Sample

end NewIndex
end Splora
