import Splora.Chain
import Splora.Foundation.Table

/-!
# Database keys

The keys of the databases of `src/new_index/schema.rs`: a code byte and fixed-width fields,
big-endian for history rows.  Tables are ordered by the byte form, which determines the key.
-/

namespace Splora
namespace NewIndex

open Foundation

/-!
## Fields
-/

def hashBytes (hash : FullHash) : Bytes :=
  bigEndian 32 hash.toNat

def u16Big (n : UInt16) : Bytes :=
  bigEndian 2 n.toNat

def u32Big (n : UInt32) : Bytes :=
  bigEndian 4 n.toNat

def u64Big (n : UInt64) : Bytes :=
  bigEndian 8 n.toNat

def u32Little (n : UInt32) : Bytes :=
  littleEndian 4 n.toNat

@[simp] theorem length_hashBytes (hash : FullHash) : (hashBytes hash).length = 32 :=
  length_bigEndian 32 _

@[simp] theorem length_u16Big (n : UInt16) : (u16Big n).length = 2 :=
  length_bigEndian 2 _

@[simp] theorem length_u32Big (n : UInt32) : (u32Big n).length = 4 :=
  length_bigEndian 4 _

@[simp] theorem length_u64Big (n : UInt64) : (u64Big n).length = 8 :=
  length_bigEndian 8 _

@[simp] theorem length_u32Little (n : UInt32) : (u32Little n).length = 4 :=
  length_littleEndian 4 _

@[simp] theorem hashBytes_inj {h h' : FullHash} : hashBytes h = hashBytes h' <-> h = h' := by
  constructor
  · intro heq
    apply BitVec.eq_of_toNat_eq
    exact bigEndian_inj h.isLt h'.isLt heq
  · intro heq
    rw [heq]

@[simp] theorem u16Big_inj {m n : UInt16} : u16Big m = u16Big n <-> m = n := by
  constructor
  · intro heq
    exact UInt16.toNat_inj.mp (bigEndian_inj m.toNat_lt n.toNat_lt heq)
  · intro heq
    rw [heq]

@[simp] theorem u32Big_inj {m n : UInt32} : u32Big m = u32Big n <-> m = n := by
  constructor
  · intro heq
    exact UInt32.toNat_inj.mp (bigEndian_inj m.toNat_lt n.toNat_lt heq)
  · intro heq
    rw [heq]

@[simp] theorem u64Big_inj {m n : UInt64} : u64Big m = u64Big n <-> m = n := by
  constructor
  · intro heq
    exact UInt64.toNat_inj.mp (bigEndian_inj m.toNat_lt n.toNat_lt heq)
  · intro heq
    rw [heq]

@[simp] theorem u32Little_inj {m n : UInt32} : u32Little m = u32Little n <-> m = n := by
  constructor
  · intro heq
    exact UInt32.toNat_inj.mp (littleEndian_inj m.toNat_lt n.toNat_lt heq)
  · intro heq
    rw [heq]

theorem field_append_inj {f g r r' : Bytes} (hlen : f.length = g.length) :
    f ++ r = g ++ r' <-> f = g ∧ r = r' := by
  constructor
  · intro h
    exact List.append_inj h hlen
  · rintro ⟨rfl, rfl⟩
    rfl

theorem field_prefix_iff {f g r : Bytes} (hlen : f.length = g.length) : f <+: g ++ r <-> f = g := by
  constructor
  · rintro ⟨rest, hrest⟩
    exact (List.append_inj hrest hlen).left
  · rintro rfl
    exact List.prefix_append f r

theorem compare_height (code : UInt8) (hash : FullHash) (height height' : UInt32)
    (rest rest' : Bytes) :
    compare (code :: (hashBytes hash ++ (u32Big height ++ rest)))
        (code :: (hashBytes hash ++ (u32Big height' ++ rest'))) =
      (compare height.toNat height'.toNat).then (compare rest rest') := by
  have hbyte : compare code code = .eq := Std.ReflOrd.compare_self
  have hheight : compare (u32Big height) (u32Big height') = compare height.toNat height'.toNat :=
    compare_bigEndian height.toNat_lt height'.toNat_lt
  rw [List.compare_cons_cons, hbyte, compare_append_same, compare_append (by simp), hheight]
  rfl

theorem compare_height_start (code : UInt8) (hash : FullHash) (height start : UInt32)
    (rest : Bytes) :
    compare (code :: (hashBytes hash ++ (u32Big height ++ rest)))
        (code :: (hashBytes hash ++ u32Big start)) = .lt <->
      height.toNat < start.toNat := by
  have hrest : compare rest [] ≠ .lt := by
    cases rest with
    | nil => decide
    | cons byte rest =>
      intro h
      cases h
  have hsplit := compare_height code hash height start rest []
  rw [List.append_nil] at hsplit
  rw [hsplit, <- Nat.compare_eq_lt]
  cases compare height.toNat start.toNat with
  | lt => simp
  | gt => simp
  | eq => simpa using hrest

/-!
## The transaction store
-/

inductive TxstoreKey where
  | conf (txid : Txid) (blockhash : BlockHash)
  | tx (txid : Txid)
  | txout (outpoint : OutPoint)
  | header (hash : BlockHash)
  | txids (hash : BlockHash)
  | blockMeta (hash : BlockHash)
  | done (hash : BlockHash)
  | tip
  | compacted
  | version
deriving DecidableEq, Repr

def TxstoreKey.bytes : TxstoreKey -> Bytes
  | conf txid blockhash =>
    'C'.toUInt8 :: (hashBytes txid ++ hashBytes blockhash)
  | tx txid => 'T'.toUInt8 :: hashBytes txid
  | txout outpoint =>
    'O'.toUInt8 :: (hashBytes outpoint.txid ++ u32Little outpoint.vout)
  | header hash => 'B'.toUInt8 :: hashBytes hash
  | txids hash => 'X'.toUInt8 :: hashBytes hash
  | blockMeta hash => 'M'.toUInt8 :: hashBytes hash
  | done hash => 'D'.toUInt8 :: hashBytes hash
  | tip => ['t'.toUInt8]
  | compacted => ['F'.toUInt8]
  | version => ['V'.toUInt8]

theorem TxstoreKey.bytes_inj {k k' : TxstoreKey} (h : k.bytes = k'.bytes) : k = k' := by
  cases k <;> cases k' <;> first
    | rfl
    | exact absurd (List.cons.inj h).left (by decide)
    | simpa [bytes, field_append_inj, OutPoint.ext_iff] using h

instance txstoreKeyOrder : Std.TransCmp (compareOn TxstoreKey.bytes) :=
  inferInstance

instance : Std.LawfulEqCmp (compareOn TxstoreKey.bytes) where
  eq_of_compare := by
    intro k k' h
    exact TxstoreKey.bytes_inj (Std.LawfulEqOrd.eq_of_compare h)

/-!
## The history
-/

@[ext]
structure FundingInfo where
  txid : Txid
  vout : UInt32
  value : UInt64
deriving DecidableEq, Repr

@[ext]
structure SpendingInfo where
  txid : Txid
  vin : UInt32
  prevTxid : Txid
  prevVout : UInt32
  value : UInt64
deriving DecidableEq, Repr

/-- Spends stand before funds, so that they come first within a transaction. -/
inductive TxHistoryInfo where
  | spending (info : SpendingInfo)
  | funding (info : FundingInfo)
deriving DecidableEq, Repr

namespace TxHistoryInfo

def getTxid : TxHistoryInfo -> Txid
  | spending info => info.txid
  | funding info => info.txid

def getFundedOutpoint : TxHistoryInfo -> OutPoint
  | spending info => { txid := info.prevTxid, vout := info.prevVout }
  | funding info => { txid := info.txid, vout := info.vout }

def bytes : TxHistoryInfo -> Bytes
  | spending info =>
    u32Big 0 ++ (hashBytes info.txid ++ (u32Big info.vin ++
      (hashBytes info.prevTxid ++ (u32Big info.prevVout ++ u64Big info.value))))
  | funding info =>
    u32Big 1 ++ (hashBytes info.txid ++ (u32Big info.vout ++ u64Big info.value))

end TxHistoryInfo

/-- `H` for script history, `I` for asset history. -/
inductive HistoryCode where
  | script
  | asset
deriving DecidableEq, Repr

def HistoryCode.byte : HistoryCode -> UInt8
  | script => 'H'.toUInt8
  | asset => 'I'.toUInt8

@[ext]
structure TxHistoryKey where
  code : HistoryCode
  hash : FullHash
  confirmedHeight : UInt32
  txPosition : UInt16
  txinfo : TxHistoryInfo
deriving DecidableEq, Repr

namespace TxHistoryKey

def bytes (k : TxHistoryKey) : Bytes :=
  k.code.byte :: (hashBytes k.hash ++ (u32Big k.confirmedHeight ++
    (u16Big k.txPosition ++ k.txinfo.bytes)))

def getTxid (k : TxHistoryKey) : Txid :=
  k.txinfo.getTxid

def getFundedOutpoint (k : TxHistoryKey) : OutPoint :=
  k.txinfo.getFundedOutpoint

def filter (code : HistoryCode) (hash : FullHash) : Bytes :=
  code.byte :: hashBytes hash

def prefixHeight (code : HistoryCode) (hash : FullHash) (height : UInt32) :
    Bytes :=
  code.byte :: (hashBytes hash ++ u32Big height)

end TxHistoryKey

@[ext]
structure TxEdgeKey where
  fundingTxid : Txid
  fundingVout : UInt32
  spendingTxid : Txid
  spendingVin : UInt32
deriving DecidableEq, Repr

def TxEdgeKey.bytes (k : TxEdgeKey) : Bytes :=
  'S'.toUInt8 :: (hashBytes k.fundingTxid ++ (u32Little k.fundingVout ++
    (hashBytes k.spendingTxid ++ u32Little k.spendingVin)))

inductive HistoryKey where
  | history (key : TxHistoryKey)
  | edge (key : TxEdgeKey)
  | done (hash : BlockHash)
  | addr (address : Bytes)
  | compacted
  | version
deriving DecidableEq, Repr

def HistoryKey.bytes : HistoryKey -> Bytes
  | history key => key.bytes
  | edge key => key.bytes
  | done hash => 'D'.toUInt8 :: hashBytes hash
  | addr address => 'a'.toUInt8 :: address
  | compacted => ['F'.toUInt8]
  | version => ['V'.toUInt8]

theorem HistoryCode.byte_inj {a b : HistoryCode} : a.byte = b.byte <-> a = b := by
  cases a <;> cases b <;> decide

theorem TxHistoryInfo.bytes_inj {x y : TxHistoryInfo} (h : x.bytes = y.bytes) : x = y := by
  cases x with
  | spending a =>
    cases y with
    | spending b =>
      simpa [bytes, field_append_inj, SpendingInfo.ext_iff] using h
    | funding b => simp [bytes, field_append_inj] at h
  | funding a =>
    cases y with
    | spending b => simp [bytes, field_append_inj] at h
    | funding b =>
      simpa [bytes, field_append_inj, FundingInfo.ext_iff] using h

theorem TxHistoryKey.bytes_inj {k k' : TxHistoryKey} (h : k.bytes = k'.bytes) : k = k' := by
  simp only [bytes, List.cons.injEq, field_append_inj, length_hashBytes,
    length_u32Big, length_u16Big, hashBytes_inj, u32Big_inj, u16Big_inj,
    HistoryCode.byte_inj] at h
  rcases h with ⟨hcode, hhash, hheight, hpos, hinfo⟩
  exact TxHistoryKey.ext hcode hhash hheight hpos (TxHistoryInfo.bytes_inj hinfo)

theorem TxEdgeKey.bytes_inj {k k' : TxEdgeKey} (h : k.bytes = k'.bytes) : k = k' := by
  simpa [bytes, field_append_inj, TxEdgeKey.ext_iff] using h

def HistoryKey.code : HistoryKey -> UInt8
  | history key => key.code.byte
  | edge _ => 'S'.toUInt8
  | done _ => 'D'.toUInt8
  | addr _ => 'a'.toUInt8
  | compacted => 'F'.toUInt8
  | version => 'V'.toUInt8

theorem HistoryKey.head?_bytes (k : HistoryKey) : k.bytes.head? = some k.code := by
  cases k <;> rfl

theorem HistoryKey.bytes_inj {k k' : HistoryKey} (h : k.bytes = k'.bytes) : k = k' := by
  have hcode : k.code = k'.code := by
    have hhead := congrArg List.head? h
    rw [head?_bytes, head?_bytes] at hhead
    exact Option.some.inj hhead
  have hne : forall code : HistoryCode, code.byte ≠ 'S'.toUInt8 ∧ code.byte ≠ 'D'.toUInt8 ∧
        code.byte ≠ 'a'.toUInt8 ∧ code.byte ≠ 'F'.toUInt8 ∧
        code.byte ≠ 'V'.toUInt8 := by
    intro code
    cases code <;> decide
  cases k <;> cases k' <;> simp only [code] at hcode <;> first
    | rfl
    | exact congrArg _ (TxHistoryKey.bytes_inj h)
    | exact congrArg _ (TxEdgeKey.bytes_inj h)
    | exact absurd hcode (by decide)
    | simpa [bytes] using h
    | grind

instance historyKeyOrder : Std.TransCmp (compareOn HistoryKey.bytes) :=
  inferInstance

instance : Std.LawfulEqCmp (compareOn HistoryKey.bytes) where
  eq_of_compare := by
    intro k k' h
    exact HistoryKey.bytes_inj (Std.LawfulEqOrd.eq_of_compare h)

/-!
## The cache
-/

inductive CacheKey where
  | stats (scripthash : FullHash)
  | utxo (scripthash : FullHash)
  | compacted
  | version
deriving DecidableEq, Repr

def CacheKey.bytes : CacheKey -> Bytes
  | stats scripthash => 'A'.toUInt8 :: hashBytes scripthash
  | utxo scripthash => 'U'.toUInt8 :: hashBytes scripthash
  | compacted => ['F'.toUInt8]
  | version => ['V'.toUInt8]

theorem CacheKey.bytes_inj {k k' : CacheKey} (h : k.bytes = k'.bytes) : k = k' := by
  cases k <;> cases k' <;> first
    | rfl
    | exact absurd (List.cons.inj h).left (by decide)
    | simpa [bytes] using h

instance cacheKeyOrder : Std.TransCmp (compareOn CacheKey.bytes) :=
  inferInstance

instance : Std.LawfulEqCmp (compareOn CacheKey.bytes) where
  eq_of_compare := by
    intro k k' h
    exact CacheKey.bytes_inj (Std.LawfulEqOrd.eq_of_compare h)

end NewIndex
end Splora
