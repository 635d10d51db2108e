import Splora.NewIndex.Store

/-!
# Queries

The part of `ChainQuery` that reads the history of a script.  A query that writes to the cache
returns the store with the written cache.  Flush modes are left out.
-/

namespace Splora
namespace NewIndex

open Foundation

def minHistoryItemsToCache : Nat := 100

namespace ChainQuery

def addrSearchFilter (pref : Bytes) : Bytes :=
  'a'.toUInt8 :: pref

def addressSearch (store : Store) (pref : Bytes) (limit : Nat) : List Bytes :=
  ((scan HistoryKey.bytes store.disk.history (addrSearchFilter pref)).take
    limit).map fun row => row.1.bytes.drop 1

def historyIterScan (store : Store) (code : HistoryCode) (hash : FullHash)
    (startHeight : Nat) : List TxHistoryKey :=
  (scanFrom HistoryKey.bytes store.disk.history
    (TxHistoryKey.prefixHeight code hash startHeight.toUInt32)
    (TxHistoryKey.filter code hash)).filterMap fun row =>
      match row.1 with
      | .history key => some key
      | _ => none

def heightByHash (store : Store) (hash : BlockHash) : Option Nat :=
  (store.indexedHeaders.headerByBlockhash hash).map HeaderEntry.height

def blockidByHeight (store : Store) (height : Nat) :
    Except Abort (Option BlockId) := do
  let entry <- store.indexedHeaders.headerByHeight height
  return entry.map BlockId.ofEntry

def txConfirmingBlock (store : Store) (txid : Txid) : Option BlockId :=
  (scan TxstoreKey.bytes store.disk.txstore ('C'.toUInt8 :: hashBytes txid)).findSome? fun row =>
      match row.1 with
      | .conf _ blockhash =>
        (store.indexedHeaders.headerByBlockhash blockhash).map BlockId.ofEntry
      | _ => none

/-- Rows that were confirmed in a reorged block and later at another height are dropped. -/
def confirmedHistory (store : Store) (scripthash : FullHash)
    (startHeight : Nat) : List (TxHistoryKey × BlockId) :=
  (historyIterScan store .script scripthash startHeight).filterMap fun history =>
      ((txConfirmingBlock store history.getTxid).filter fun blockid =>
        blockid.height = history.confirmedHeight.toNat).map fun blockid =>
          (history, blockid)

end ChainQuery

/-!
## Statistics
-/

namespace ScriptStats

def default : ScriptStats where
  txCount := 0
  fundedTxoCount := 0
  spentTxoCount := 0
  fundedTxoSum := 0
  spentTxoSum := 0

def isSane (stats : ScriptStats) : Bool :=
  decide (stats.spentTxoCount ≤ stats.fundedTxoCount) &&
    decide (stats.txCount ≤ stats.spentTxoCount + stats.fundedTxoCount) &&
    decide (stats.spentTxoSum ≤ stats.fundedTxoSum) &&
    (decide (stats.fundedTxoCount = stats.spentTxoCount) ==
      decide (stats.fundedTxoSum = stats.spentTxoSum))

end ScriptStats

structure StatsState where
  stats : ScriptStats
  seenTxids : Finset Txid
  lastblock : Option BlockHash

namespace StatsState

def start (stats : ScriptStats) : StatsState where
  stats := stats
  seenTxids := ∅
  lastblock := none

def countTx (st : StatsState) (txid : Txid) : StatsState :=
  if txid ∈ st.seenTxids then
    st
  else
    { st with
      stats := { st.stats with txCount := st.stats.txCount + 1 }
      seenTxids := insert txid st.seenTxids }

def countTxo (stats : ScriptStats) : TxHistoryInfo -> ScriptStats
  | .funding info =>
    { stats with
      fundedTxoCount := stats.fundedTxoCount + 1
      fundedTxoSum := stats.fundedTxoSum + info.value }
  | .spending info =>
    { stats with
      spentTxoCount := stats.spentTxoCount + 1
      spentTxoSum := stats.spentTxoSum + info.value }

def step (st : StatsState) (row : TxHistoryKey × BlockId) : StatsState :=
  let (history, blockid) := row
  let seenTxids :=
    if st.lastblock = some blockid.hash then st.seenTxids else ∅
  let st := countTx { st with seenTxids := seenTxids } history.getTxid
  { st with
    stats := countTxo st.stats history.txinfo
    lastblock := some blockid.hash }

end StatsState

namespace ChainQuery

def statsDelta (store : Store) (scripthash : FullHash)
    (initStats : ScriptStats) (startHeight : Nat) :
    ScriptStats × Option BlockHash :=
  let st := (confirmedHistory store scripthash startHeight).foldl
    StatsState.step (StatsState.start initStats)
  (st.stats, st.lastblock)

def putCache (store : Store) (key : CacheKey) (value : CacheValue) : Store :=
  { store with
    disk := { store.disk with cache := store.disk.cache.insert key value } }

def statsCache (store : Store) (scripthash : FullHash) :
    Option (ScriptStats × Nat) :=
  match store.disk.cache[CacheKey.stats scripthash]? with
  | some (.stats stats blockhash) =>
    if stats.isSane then
      (heightByHash store blockhash).map fun height => (stats, height)
    else
      none
  | _ => none

def newStats (store : Store) (scripthash : FullHash) :
    ScriptStats × Option BlockHash :=
  match statsCache store scripthash with
  | none => statsDelta store scripthash ScriptStats.default 0
  | some (oldstats, blockheight) =>
    statsDelta store scripthash oldstats (blockheight + 1)

def saveStats (store : Store) (scripthash : FullHash) (newstats : ScriptStats) :
    Option BlockHash -> Store
  | some lastblock =>
    if minHistoryItemsToCache < newstats.fundedTxoCount + newstats.spentTxoCount then
      putCache store (.stats scripthash) (.stats newstats lastblock)
    else
      store
  | none => store

def stats (store : Store) (scripthash : FullHash) : ScriptStats × Store :=
  let (newstats, lastblock) := newStats store scripthash
  (newstats, saveStats store scripthash newstats lastblock)

/-!
## Unspent outputs
-/

def makeUtxoCache (utxos : UtxoMap) : CachedUtxoMap :=
  writeRows ∅ (utxos.toList.map fun (outpoint, blockid, value) =>
    (outpoint, blockid.height.toUInt32, value))

def fromUtxoCache (store : Store) (utxosCache : CachedUtxoMap) :
    Except Abort UtxoMap := do
  let rows <- utxosCache.toList.mapM fun (outpoint, height, value) => do
    let found <- blockidByHeight store height.toNat
    let blockid <- expect found (.missingBlockheader height.toNat)
    return (outpoint, blockid, value)
  return writeRows ∅ rows

def applyUtxoRow (utxos : UtxoMap) (row : TxHistoryKey × BlockId) : UtxoMap :=
  match row.1.txinfo with
  | .funding info => utxos.insert row.1.getFundedOutpoint (row.2, info.value)
  | .spending _ => utxos.erase row.1.getFundedOutpoint

/-- The product of two `usize` values wraps. -/
def txHistoryLimit (limit : UInt64) : UInt64 :=
  limit * 500

/-- The loop of `apply_utxo_delta` after `processed` rows. -/
def applyUtxoLoop (limit : UInt64) (utxos : UtxoMap)
    (lastblock : Option BlockHash) (processed : Nat) :
    List (TxHistoryKey × BlockId) -> Except Abort (UtxoMap × Option BlockHash × Nat)
  | [] => .ok (utxos, lastblock, processed)
  | row :: rest => do
      let utxos := applyUtxoRow utxos row
      ensure (utxos.size ≤ limit.toNat) (.tooManyUtxos limit)
      ensure (processed + 1 ≤ (txHistoryLimit limit).toNat) (.tooManyTxs (txHistoryLimit limit))
      applyUtxoLoop limit utxos (some row.2.hash) (processed + 1) rest

def applyUtxoDelta (initUtxos : UtxoMap)
    (history : List (TxHistoryKey × BlockId)) (limit : UInt64) :
    Except Abort (UtxoMap × Option BlockHash × Nat) :=
  applyUtxoLoop limit initUtxos none 0 history

def utxoDelta (store : Store) (scripthash : FullHash) (initUtxos : UtxoMap)
    (startHeight : Nat) (limit : UInt64) :
    Except Abort (UtxoMap × Option BlockHash × Nat) :=
  applyUtxoDelta initUtxos (confirmedHistory store scripthash startHeight) limit

def utxoCache (store : Store) (scripthash : FullHash) :
    Except Abort (Option (UtxoMap × Nat)) :=
  match store.disk.cache[CacheKey.utxo scripthash]? with
  | some (.utxos utxosCache blockhash) =>
    match heightByHash store blockhash with
    | some height => do
        let utxos <- fromUtxoCache store utxosCache
        return some (utxos, height)
    | none => .ok none
  | _ => .ok none

structure Utxo where
  txid : Txid
  vout : UInt32
  confirmed : Option BlockId
  value : UInt64
deriving DecidableEq, Repr

def formatUtxos (utxos : UtxoMap) : List Utxo :=
  utxos.toList.map fun (outpoint, blockid, value) =>
    { txid := outpoint.txid
      vout := outpoint.vout
      confirmed := some blockid
      value := value }

def newUtxos (store : Store) (scripthash : FullHash) (limit : UInt64) :
    Option (UtxoMap × Nat) -> Except Abort (UtxoMap × Option BlockHash × Nat)
  | none => utxoDelta store scripthash ∅ 0 limit
  | some (oldutxos, blockheight) =>
    utxoDelta store scripthash oldutxos (blockheight + 1) limit

def saveUtxos (store : Store) (scripthash : FullHash) (hadCache : Bool)
    (newutxos : UtxoMap) (processedItems : Nat) : Option BlockHash -> Store
  | some lastblock =>
    if hadCache = true ∨ minHistoryItemsToCache < processedItems then
      putCache store (.utxo scripthash) (.utxos (makeUtxoCache newutxos) lastblock)
    else
      store
  | none => store

def utxo (store : Store) (scripthash : FullHash) (limit : UInt64) :
    Except Abort (List Utxo × Store) := do
  let cache <- utxoCache store scripthash
  let (newutxos, lastblock, processedItems) <-
    newUtxos store scripthash limit cache
  return (formatUtxos newutxos,
    saveUtxos store scripthash cache.isSome newutxos processedItems lastblock)

end ChainQuery

end NewIndex
end Splora
