import Splora.Foundation.Buckets
import Splora.NewIndex.Query

/-!
# The mempool index

`Mempool` of `src/new_index/mempool.rs`.  Each function is one section under the lock, or the
whole of `Mempool::update`.  The answers of the daemon, and the order in which a hash map is
iterated, are arguments.  Latency and backlog statistics are left out.
-/

namespace Splora
namespace NewIndex

open Foundation

structure Config extends IndexerConfig where
  mempoolRecentTxsSize : Nat
  utxosLimit : UInt64

structure HashOrder where
  visit : Txid -> List (UInt32 × TxOut) -> List (UInt32 × TxOut)
  perm : forall txid prevouts, (visit txid prevouts).Perm prevouts

def HashOrder.ascending : HashOrder where
  visit _ prevouts := prevouts
  perm _ prevouts := List.Perm.refl prevouts

structure SpendingInput where
  txid : Txid
  vin : UInt32
  confirmed : Option BlockId
deriving DecidableEq, Repr

def ChainQuery.Utxo.outPoint (utxo : ChainQuery.Utxo) : OutPoint where
  txid := utxo.txid
  vout := utxo.vout

def ChainQuery.lookupAvailTxos (store : Store) (outpoints : List OutPoint) :
    Except Abort TxoMap :=
  NewIndex.lookupTxos store.disk.txstore outpoints true

/-!
## Fees and previous outputs
-/

structure TxFeeInfo where
  fee : UInt64
  vsize : UInt32
deriving DecidableEq, Repr

/-- Sums and difference of `u64` values wrap. -/
def getTxFee (tx : Transaction) (prevouts : List (UInt32 × TxOut)) : UInt64 :=
  if tx.isCoinbase then
    0
  else
    (prevouts.map fun prevout => prevout.2.value).sum - (tx.output.map TxOut.value).sum

def TxFeeInfo.new (tx : Transaction) (prevouts : List (UInt32 × TxOut)) :
    TxFeeInfo where
  fee := getTxFee tx prevouts
  vsize := (tx.weight / 4).toUInt32

structure TxOverview where
  txid : Txid
  fee : UInt64
  vsize : UInt32
  value : UInt64
deriving DecidableEq, Repr

def pushFrontCapped (q : List TxOverview) (cap : Nat) (item : TxOverview) :
    List TxOverview :=
  if cap = 0 then q else (item :: q).take cap

def extractTxPrevouts (tx : Transaction) (txos : TxoMap) :
    Except OutPoint (List (UInt32 × TxOut)) :=
  (tx.input.zipIdx.filter fun input => hasPrevout input.1).mapM fun input => do
    let txo <- expect (txos input.1.previousOutput) input.1.previousOutput
    return (input.2.toUInt32, txo)

/-!
## The index
-/

structure Mempool where
  txstore : Std.ExtTreeMap Txid Transaction
  feeinfo : Std.ExtTreeMap Txid TxFeeInfo
  history : Table FullHash (List TxHistoryInfo) compare
  edges : Table OutPoint (Txid × UInt32) (compareOn outPointBytes)
  recent : List TxOverview

inductive MempoolError where
  | failedToUpdate
  | failedToGet (count : Nat)
  | missingParents (txid : Txid)
deriving DecidableEq, Repr

structure MempoolRpc where
  getmempooltxids : Option (List Txid)
  gettransactions : List Txid -> Option (List Transaction)
  getmempooltx : Txid -> Option Transaction

namespace Mempool

def new : Mempool where
  txstore := ∅
  feeinfo := ∅
  history := ∅
  edges := ∅
  recent := []

def lookupTxn (m : Mempool) (txid : Txid) : Option Transaction :=
  m.txstore[txid]?

def lookupSpend (m : Mempool) (outpoint : OutPoint) : Option SpendingInput :=
  m.edges[outpoint]?.map fun edge =>
    { txid := edge.1, vin := edge.2, confirmed := none }

def hasSpend (m : Mempool) (outpoint : OutPoint) : Bool :=
  decide (outpoint ∈ m.edges)

/-!
## Readers
-/

def entryTxids (entries : List TxHistoryInfo) : List Txid :=
  (entries.map TxHistoryInfo.getTxid).eraseDups

def afterLastSeen (lastSeenTxid : Option Txid) (txids : List Txid) :
    List Txid :=
  match lastSeenTxid with
  | some lastSeen => (txids.dropWhile fun txid => lastSeen ≠ txid).drop 1
  | none => txids

/-- `_history`; also the end of `history_group`. -/
def historyTxs (m : Mempool) (entries : List TxHistoryInfo)
    (lastSeenTxid : Option Txid) (limit : Nat) :
    Except Abort (List Transaction) :=
  ((afterLastSeen lastSeenTxid (entryTxids entries)).take limit).mapM
    fun txid => expect m.txstore[txid]? (.missingMempoolTx txid)

def historyOf (m : Mempool) (scripthash : FullHash) (lastSeenTxid : Option Txid) (limit : Nat) :
    Except Abort (List Transaction) :=
  match m.history[scripthash]? with
  | none => .ok []
  | some entries => historyTxs m entries lastSeenTxid limit

def historyGroup (m : Mempool) (scripthashes : List FullHash)
    (lastSeenTxid : Option Txid) (limit : Nat) :
    Except Abort (List Transaction) :=
  historyTxs m (scripthashes.filterMap fun scripthash => m.history[scripthash]?).flatten
    lastSeenTxid limit

def utxo (m : Mempool) (scripthash : FullHash) : List ChainQuery.Utxo :=
  match m.history[scripthash]? with
  | none => []
  | some entries =>
    (entries.filterMap fun entry =>
      match entry with
      | .funding info =>
        some {
          txid := info.txid
          vout := info.vout
          confirmed := none
          value := info.value }
      | .spending _ => none).filter fun utxo => !m.hasSpend utxo.outPoint

def statsStep (st : StatsState) (entry : TxHistoryInfo) : StatsState :=
  let st := StatsState.countTx st entry.getTxid
  { st with stats := StatsState.countTxo st.stats entry }

def stats (m : Mempool) (scripthash : FullHash) : ScriptStats :=
  match m.history[scripthash]? with
  | none => ScriptStats.default
  | some entries =>
    (entries.foldl statsStep (StatsState.start ScriptStats.default)).stats

def uniqueTxids (m : Mempool) : List Txid :=
  m.txstore.keys

/-!
## Adding transactions
-/

def insertTx (st : Mempool × List Txid) (tx : Transaction) :
    Mempool × List Txid :=
  ({ st.1 with txstore := st.1.txstore.insert tx.txid tx },
    if tx.txid ∈ st.1.txstore then st.2 else st.2 ++ [tx.txid])

def getPrevouts (m : Mempool) (txids : List Txid) :
    Except Abort (List OutPoint) := do
  let txs <- txids.mapM fun txid =>
    expect m.txstore[txid]? (.missingMempoolTx txid)
  return txs.flatMap fun tx =>
    (tx.input.filter hasPrevout).map TxIn.previousOutput

def lookupMempoolTxo (m : Mempool) (outpoint : OutPoint) : Option TxOut :=
  m.txstore[outpoint.txid]?.bind fun tx => tx.output[outpoint.vout.toNat]?

def lookupTxos (store : Store) (m : Mempool) (outpoints : List OutPoint) :
    Except Abort TxoMap := do
  let confirmedTxos <- ChainQuery.lookupAvailTxos store outpoints
  return fun outpoint =>
    (confirmedTxos outpoint).or (if outpoint ∈ outpoints then m.lookupMempoolTxo outpoint else none)

def fundingEntries (cfg : Config) (tx : Transaction) :
    List (FullHash × TxHistoryInfo) :=
  (tx.output.zipIdx.filter fun output => cfg.isIndexed output.1).map fun output =>
      (cfg.computeScriptHash output.1.scriptPubkey,
        .funding {
          txid := tx.txid
          vout := output.2.toUInt32
          value := output.1.value })

def spendingEntry (cfg : Config) (tx : Transaction) (vin : UInt32)
    (txi : TxIn) (prevout : TxOut) : FullHash × TxHistoryInfo :=
  (cfg.computeScriptHash prevout.scriptPubkey,
    .spending {
      txid := tx.txid
      vin := vin
      prevTxid := txi.previousOutput.txid
      prevVout := txi.previousOutput.vout
      value := prevout.value })

def spendingEntries (cfg : Config) (tx : Transaction) (prevouts : List (UInt32 × TxOut)) :
    Except Abort (List (FullHash × TxHistoryInfo)) :=
  prevouts.mapM fun prevout => do
    let txi <- expect tx.input[prevout.1.toNat]? (.missingInput prevout.1)
    return spendingEntry cfg tx prevout.1 txi prevout.2

def edgeRows (tx : Transaction) : List (OutPoint × (Txid × UInt32)) :=
  tx.input.zipIdx.map fun input =>
    (input.1.previousOutput, (tx.txid, input.2.toUInt32))

def indexTx (cfg : Config) (m : Mempool) (tx : Transaction)
    (prevouts : List (UInt32 × TxOut)) : Except Abort Mempool := do
  let feeinfo := TxFeeInfo.new tx prevouts
  let overview : TxOverview := {
    txid := tx.txid
    fee := feeinfo.fee
    vsize := feeinfo.vsize
    value := (prevouts.map fun prevout => prevout.2.value).sum }
  let spending <- spendingEntries cfg tx prevouts
  return {
    m with
    recent := pushFrontCapped m.recent cfg.mempoolRecentTxsSize overview
    feeinfo := m.feeinfo.insert tx.txid feeinfo
    history := (fundingEntries cfg tx ++ spending).foldl push m.history
    edges := writeRows m.edges (edgeRows tx) }

def processTx (cfg : Config) (order : HashOrder) (txos : TxoMap)
    (st : Mempool × Nat) (txid : Txid) : Except Abort (Mempool × Nat) := do
  let tx <- expect st.1.txstore[txid]? (.missingTxFromTxstore txid)
  match extractTxPrevouts tx txos with
  | .error _ => return st
  | .ok prevouts =>
    let m <- indexTx cfg st.1 tx (order.visit txid prevouts)
    return (m, st.2 + 1)

def add (cfg : Config) (store : Store) (order : HashOrder) (m : Mempool)
    (txs : List Transaction) : Except Abort (Mempool × Nat) :=
  if txs.isEmpty then
    .ok (m, 0)
  else do
    let (m, txids) := txs.foldl insertTx (m, [])
    let prevouts <- getPrevouts m txids
    let txos <- lookupTxos store m prevouts
    txids.foldlM (processTx cfg order txos) (m, 0)

/-!
## Removing transactions
-/

/-- One turn of the loop of `remove`; a missing fee is only logged. -/
def removeTx (m : Mempool) (txid : Txid) : Except Abort Mempool := do
  ensure (txid ∈ m.txstore) (.missingMempoolTx txid)
  return {
    m with
    txstore := m.txstore.erase txid
    feeinfo := m.feeinfo.erase txid }

def remove (m : Mempool) (toRemove : List Txid) : Except Abort Mempool := do
  let m <- toRemove.foldlM removeTx m
  return {
    m with
    history := retain (fun entry => entry.getTxid ∉ toRemove) m.history
    edges := m.edges.filter fun _ edge => edge.1 ∉ toRemove }

/-!
## Following the daemon
-/

def txidsToRemove (oldTxids allTxids : List Txid) : List Txid :=
  oldTxids.filter fun txid => txid ∉ allTxids

def txidsToAdd (oldTxids allTxids : List Txid) : List Txid :=
  allTxids.eraseDups.filter fun txid => txid ∉ oldTxids

def update (cfg : Config) (store : Store) (order : HashOrder) (rpc : MempoolRpc) (m : Mempool) :
    Except Abort (Mempool × Except MempoolError Unit) := do
  let oldTxids := m.uniqueTxids
  match rpc.getmempooltxids with
  | none => return (m, .error .failedToUpdate)
  | some allTxids =>
    let m <- remove m (txidsToRemove oldTxids allTxids)
    let toAdd := txidsToAdd oldTxids allTxids
    match rpc.gettransactions toAdd with
    | none => return (m, .error (.failedToGet toAdd.length))
    | some txs =>
      let (m, _) <- add cfg store order m txs
      return (m, .ok ())

def addByTxid (cfg : Config) (store : Store) (order : HashOrder)
    (rpc : MempoolRpc) (m : Mempool) (txid : Txid) :
    Except Abort (Mempool × Except MempoolError Unit) :=
  if txid ∈ m.txstore then
    .ok (m, .ok ())
  else
    match rpc.getmempooltx txid with
    | none => .ok (m, .ok ())
    | some tx => do
        let (m, processed) <- add cfg store order m [tx]
        if processed = 0 then
          return (m, .error (.missingParents txid))
        else
          return (m, .ok ())

end Mempool

end NewIndex
end Splora
