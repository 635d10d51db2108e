import Splora.NewIndex.Rows

/-!
# The store

The three databases on disk, the operations that change them, and the state that `Store::open`
of `src/new_index/schema.rs` loads from them.
-/

namespace Splora
namespace NewIndex

open Foundation

/-!
## Cache entries
-/

@[ext]
structure ScriptStats where
  txCount : Nat
  fundedTxoCount : Nat
  spentTxoCount : Nat
  fundedTxoSum : UInt64
  spentTxoSum : UInt64
deriving DecidableEq, Repr

def outPointBytes (outpoint : OutPoint) : Bytes :=
  hashBytes outpoint.txid ++ u32Big outpoint.vout

theorem outPointBytes_inj {o o' : OutPoint} (h : outPointBytes o = outPointBytes o') : o = o' := by
  simpa [outPointBytes, field_append_inj, OutPoint.ext_iff] using h

instance outPointOrder : Std.TransCmp (compareOn outPointBytes) :=
  inferInstance

instance : Std.LawfulEqCmp (compareOn outPointBytes) where
  eq_of_compare := by
    intro o o' h
    exact outPointBytes_inj (Std.LawfulEqOrd.eq_of_compare h)

abbrev UtxoMap := Table OutPoint (BlockId × UInt64) (compareOn outPointBytes)

abbrev CachedUtxoMap :=
  Table OutPoint (UInt32 × UInt64) (compareOn outPointBytes)

inductive CacheValue where
  | empty
  | stats (stats : ScriptStats) (blockhash : BlockHash)
  | utxos (utxos : CachedUtxoMap) (blockhash : BlockHash)
  | version (compatibilityBytes : Bytes)

abbrev CacheTable := Table CacheKey CacheValue (compareOn CacheKey.bytes)

/-!
## Disk and operations
-/

structure Disk where
  txstore : TxstoreTable
  history : HistoryTable
  cache : CacheTable

namespace Disk

def empty : Disk where
  txstore := ∅
  history := ∅
  cache := ∅

end Disk

inductive DbOp where
  | txstore (op : TableOp TxstoreKey TxstoreValue)
  | history (op : TableOp HistoryKey Bytes)
  | cache (op : TableOp CacheKey CacheValue)

namespace DbOp

def apply (disk : Disk) : DbOp -> Disk
  | txstore op => { disk with txstore := op.apply disk.txstore }
  | history op => { disk with history := op.apply disk.history }
  | cache op => { disk with cache := op.apply disk.cache }

def txstore? : DbOp -> Option (TableOp TxstoreKey TxstoreValue)
  | txstore op => some op
  | _ => none

def history? : DbOp -> Option (TableOp HistoryKey Bytes)
  | history op => some op
  | _ => none

def cache? : DbOp -> Option (TableOp CacheKey CacheValue)
  | cache op => some op
  | _ => none

variable {ops : List DbOp}

theorem mem_filterMap_iff {α β : Type} {f : α -> Option β} {g : β -> α}
    (hf : forall a b, f a = some b <-> a = g b) {l : List α} {b : β} :
    b ∈ l.filterMap f <-> g b ∈ l := by
  simp [List.mem_filterMap, hf]

theorem mem_filterMap_txstore? {op : TableOp TxstoreKey TxstoreValue} :
    op ∈ ops.filterMap txstore? <-> DbOp.txstore op ∈ ops :=
  mem_filterMap_iff fun dbop op => by cases dbop <;> simp [txstore?]

theorem mem_filterMap_history? {op : TableOp HistoryKey Bytes} :
    op ∈ ops.filterMap history? <-> DbOp.history op ∈ ops :=
  mem_filterMap_iff fun dbop op => by cases dbop <;> simp [history?]

theorem mem_filterMap_cache? {op : TableOp CacheKey CacheValue} :
    op ∈ ops.filterMap cache? <-> DbOp.cache op ∈ ops :=
  mem_filterMap_iff fun dbop op => by cases dbop <;> simp [cache?]

end DbOp

namespace Disk

def replay (disk : Disk) (ops : List DbOp) : Disk :=
  ops.foldl DbOp.apply disk

@[simp] theorem replay_nil (disk : Disk) : disk.replay [] = disk := rfl

theorem replay_append (disk : Disk) (ops ops' : List DbOp) :
    disk.replay (ops ++ ops') = (disk.replay ops).replay ops' := by
  simp [replay, List.foldl_append]

theorem txstore_replay (disk : Disk) (ops : List DbOp) :
    (disk.replay ops).txstore = Foundation.replay disk.txstore (ops.filterMap DbOp.txstore?) := by
  induction ops generalizing disk with
  | nil => rfl
  | cons op rest ih =>
    change ((op.apply disk).replay rest).txstore = _
    rw [ih]
    cases op <;> rfl

theorem history_replay (disk : Disk) (ops : List DbOp) :
    (disk.replay ops).history = Foundation.replay disk.history (ops.filterMap DbOp.history?) := by
  induction ops generalizing disk with
  | nil => rfl
  | cons op rest ih =>
    change ((op.apply disk).replay rest).history = _
    rw [ih]
    cases op <;> rfl

theorem cache_replay (disk : Disk) (ops : List DbOp) :
    (disk.replay ops).cache = Foundation.replay disk.cache (ops.filterMap DbOp.cache?) := by
  induction ops generalizing disk with
  | nil => rfl
  | cons op rest ih =>
    change ((op.apply disk).replay rest).cache = _
    rw [ih]
    cases op <;> rfl

end Disk

/-!
## Opening
-/

def compatibilityBytes (cfg : IndexerConfig) : Bytes :=
  u32Little 2 ++ (if cfg.lightMode then [1] else [])

def verifyCompatibility {K V : Type} {cmp : K -> K -> Ordering}
    [Std.TransCmp cmp] (db : Table K V cmp) (key : K) (value : V)
    (compatible : V -> Bool) : Except Abort (Table K V cmp) :=
  match db[key]? with
  | none => .ok (db.insert key value)
  | some x => do
      ensure (compatible x = true) .incompatibleDatabase
      return db

namespace Disk

def verify (cfg : IndexerConfig) (disk : Disk) : Except Abort Disk := do
  let bytes := compatibilityBytes cfg
  let txstore <- verifyCompatibility disk.txstore .version (.version bytes)
    fun x => x = .version bytes
  let history <- verifyCompatibility disk.history .version bytes fun x => x = bytes
  let cache <- verifyCompatibility disk.cache .version (.version bytes) fun x => match x with
      | .version bytes' => bytes' = bytes
      | _ => false
  return { txstore := txstore, history := history, cache := cache }

end Disk

def loadAddedBlockhashes (txstore : TxstoreTable) : Finset BlockHash :=
  ((scan TxstoreKey.bytes txstore ['D'.toUInt8]).filterMap fun row =>
    match row.1 with
    | .done hash => some hash
    | _ => none).toFinset

def loadIndexedBlockhashes (history : HistoryTable) : Finset BlockHash :=
  ((scan HistoryKey.bytes history ['D'.toUInt8]).filterMap fun row =>
    match row.1 with
    | .done hash => some hash
    | _ => none).toFinset

def loadBlockheaders (txstore : TxstoreTable) :
    Std.ExtTreeMap BlockHash BlockHeader :=
  writeRows ∅ ((scan TxstoreKey.bytes txstore ['B'.toUInt8]).filterMap fun row =>
    match row with
    | (.header hash, .header header) => some (hash, header)
    | _ => none)

structure Store where
  disk : Disk
  addedBlockhashes : Finset BlockHash
  indexedBlockhashes : Finset BlockHash
  indexedHeaders : HeaderList

namespace Store

def loadHeaders (txstore : TxstoreTable) : Except Abort HeaderList :=
  match txstore[TxstoreKey.tip]? with
  | none => .ok HeaderList.empty
  | some (.blockhash tipHash) =>
    HeaderList.new (loadBlockheaders txstore) tipHash
  | some _ => .error .invalidChainTip

def openStore (cfg : IndexerConfig) (disk : Disk) : Except Abort Store := do
  let disk <- disk.verify cfg
  let headers <- loadHeaders disk.txstore
  return {
    disk := disk
    addedBlockhashes := loadAddedBlockhashes disk.txstore
    indexedBlockhashes := loadIndexedBlockhashes disk.history
    indexedHeaders := headers }

end Store

/-!
## What is loaded
-/

variable {hash : BlockHash}

theorem mem_loadAddedBlockhashes {txstore : TxstoreTable} :
    hash ∈ loadAddedBlockhashes txstore <-> TxstoreKey.done hash ∈ txstore := by
  simp only [loadAddedBlockhashes, List.mem_toFinset, List.mem_filterMap, mem_scan, mem_iff_exists]
  constructor
  · rintro ⟨⟨k, v⟩, ⟨hrow, _⟩, hmatch⟩
    cases k with
    | done hash' =>
      have heq : hash' = hash := Option.some.inj hmatch
      exact ⟨v, heq ▸ hrow⟩
    | _ => cases hmatch
  · rintro ⟨v, hrow⟩
    exact ⟨(.done hash, v), ⟨hrow, by simp [TxstoreKey.bytes]⟩, rfl⟩

theorem mem_loadIndexedBlockhashes {history : HistoryTable} :
    hash ∈ loadIndexedBlockhashes history <-> HistoryKey.done hash ∈ history := by
  simp only [loadIndexedBlockhashes, List.mem_toFinset, List.mem_filterMap, mem_scan,
    mem_iff_exists]
  constructor
  · rintro ⟨⟨k, v⟩, ⟨hrow, _⟩, hmatch⟩
    cases k with
    | done hash' =>
      have heq : hash' = hash := Option.some.inj hmatch
      exact ⟨v, heq ▸ hrow⟩
    | _ => cases hmatch
  · rintro ⟨v, hrow⟩
    exact ⟨(.done hash, v), ⟨hrow, by simp [HistoryKey.bytes]⟩, rfl⟩

theorem getElem?_loadBlockheaders {txstore : TxstoreTable} {header : BlockHeader}
    (h : txstore[TxstoreKey.header hash]? = some (.header header)) :
    (loadBlockheaders txstore)[hash]? = some header := by
  have hmem : forall {hash' header'}, (hash', header') ∈ (scan TxstoreKey.bytes txstore
        ['B'.toUInt8]).filterMap (fun row =>
          match row with
          | (.header hash, .header header) => some (hash, header)
          | _ => none) <->
        txstore[TxstoreKey.header hash']? = some (.header header') := by
    intro hash' header'
    rw [List.mem_filterMap]
    constructor
    · rintro ⟨row, hrow, hmatch⟩
      split at hmatch
      · cases hmatch
        exact (mem_scan.mp hrow).left
      · cases hmatch
    · intro hrow
      refine ⟨(.header hash', .header header'), mem_scan.mpr ⟨hrow, ?_⟩, rfl⟩
      simp [TxstoreKey.bytes]
  apply getElem?_writeRows_of_mem
  · intro k v v' hv hv'
    rw [hmem] at hv hv'
    rw [hv] at hv'
    injection hv' with hvalue
    injection hvalue
  · exact hmem.mpr h

structure Disk.Verified (cfg : IndexerConfig) (disk : Disk) : Prop where
  txstore : disk.txstore[TxstoreKey.version]? = some (.version (compatibilityBytes cfg))
  history : disk.history[HistoryKey.version]? = some (compatibilityBytes cfg)
  cache : disk.cache[CacheKey.version]? = some (.version (compatibilityBytes cfg))

section Verify

variable {K V : Type} {cmp : K -> K -> Ordering} [Std.TransCmp cmp]
  [Std.LawfulEqCmp cmp] {db db' : Table K V cmp} {key : K} {value : V}
  {compatible : V -> Bool}

theorem getElem?_verifyCompatibility_of_ne
    (h : verifyCompatibility db key value compatible = .ok db') {k : K}
    (hk : k ≠ key) : db'[k]? = db[k]? := by
  unfold verifyCompatibility at h
  split at h
  · cases h
    exact getElem?_insert_of_ne db value hk.symm
  · rcases bind_eq_ok.mp h with ⟨_, _, hpure⟩
    rw [pure_eq_ok.mp hpure]

theorem getElem?_verifyCompatibility_self
    (h : verifyCompatibility db key value compatible = .ok db')
    (hcompatible : forall x, compatible x = true -> x = value) :
    db'[key]? = some value := by
  unfold verifyCompatibility at h
  split at h
  · cases h
    exact getElem?_insert_self db key value
  · rename_i x hx
    rcases bind_eq_ok.mp h with ⟨_, hensure, hpure⟩
    rw [← pure_eq_ok.mp hpure, hx, hcompatible x (ensure_eq_ok.mp hensure)]

omit [Std.LawfulEqCmp cmp] in
theorem verifyCompatibility_of_some (h : db[key]? = some value)
    (hcompatible : compatible value = true) :
    verifyCompatibility db key value compatible = .ok db := by
  unfold verifyCompatibility
  rw [h]
  exact bind_eq_ok.mpr ⟨(), ensure_of _ hcompatible, rfl⟩

end Verify

namespace Disk

variable {cfg : IndexerConfig} {disk disk' : Disk}

structure SameRows (disk disk' : Disk) : Prop where
  txstore : forall k, k ≠ TxstoreKey.version -> disk'.txstore[k]? = disk.txstore[k]?
  history : forall k, k ≠ HistoryKey.version -> disk'.history[k]? = disk.history[k]?
  cache : forall k, k ≠ CacheKey.version -> disk'.cache[k]? = disk.cache[k]?

theorem verify_ok (h : disk.verify cfg = .ok disk') : disk'.Verified cfg ∧ SameRows disk disk' := by
  unfold verify at h
  rcases bind_eq_ok.mp h with ⟨txstore, htxstore, h⟩
  rcases bind_eq_ok.mp h with ⟨history, hhistory, h⟩
  rcases bind_eq_ok.mp h with ⟨cache, hcache, h⟩
  rw [← pure_eq_ok.mp h]
  constructor
  · refine ⟨?_, ?_, ?_⟩
    · apply getElem?_verifyCompatibility_self htxstore
      intro x hx
      simpa using hx
    · apply getElem?_verifyCompatibility_self hhistory
      intro x hx
      simpa using hx
    · apply getElem?_verifyCompatibility_self hcache
      intro x hx
      cases x with
      | version bytes =>
        have heq : bytes = compatibilityBytes cfg := by simpa using hx
        rw [heq]
      | _ => cases hx
  · refine ⟨?_, ?_, ?_⟩
    · intro k hk
      exact getElem?_verifyCompatibility_of_ne htxstore hk
    · intro k hk
      exact getElem?_verifyCompatibility_of_ne hhistory hk
    · intro k hk
      exact getElem?_verifyCompatibility_of_ne hcache hk

theorem Verified.verify_eq (h : disk.Verified cfg) : disk.verify cfg = .ok disk := by
  unfold verify
  refine bind_eq_ok.mpr ⟨_, verifyCompatibility_of_some h.txstore ?_, ?_⟩
  · simp
  refine bind_eq_ok.mpr ⟨_, verifyCompatibility_of_some h.history ?_, ?_⟩
  · simp
  exact bind_eq_ok.mpr ⟨_, verifyCompatibility_of_some h.cache (by simp), rfl⟩

end Disk

end NewIndex
end Splora
