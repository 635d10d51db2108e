import Splora.Foundation.Buckets
import Splora.NewIndex.Indexer
import Splora.NewIndex.Query

/-!
# Assets of an Elements chain

`src/elements/asset.rs` and `src/elements/peg.rs`: issuances, burns, peg-ins and peg-outs, their
rows and mempool entries, and the statistics folded from them.  An update is one of the index of
`NewIndex`, with the asset rows of the blocks that it removes and indexes.  Output rows are read
off the blocks of the header list; what nothing reads of an issuance or a peg is left out.
-/

namespace Splora
namespace Elements

open Foundation
open NewIndex (BlockEntry FetchFrom hashBytes u16Big u32Big u64Big)

abbrev AssetId := FullHash

/-!
## Transactions
-/

/-- A commitment is given by what it opens to, which the indexer never reads. -/
inductive Confidential (α : Type) where
  | null
  | explicit (value : α)
  | confidential (opening : α)
deriving DecidableEq, Repr

structure AssetIssuance where
  assetBlindingNonce : FullHash
  assetEntropy : FullHash
  amount : Confidential UInt64
  inflationKeys : Confidential UInt64
deriving DecidableEq, Repr

def AssetIssuance.isNull (issuance : AssetIssuance) : Bool :=
  decide (issuance.amount = .null ∧ issuance.inflationKeys = .null)

structure PeginData where
  assetId : AssetId
  value : UInt64
deriving DecidableEq, Repr

structure TxIn where
  previousOutput : OutPoint
  isPegin : Bool
  peginWitness : Option PeginData
  assetIssuance : AssetIssuance
deriving DecidableEq, Repr

structure TxOut where
  asset : Confidential AssetId
  value : Confidential UInt64
  scriptPubkey : Script
deriving DecidableEq, Repr

structure Transaction where
  txid : Txid
  input : List TxIn
  output : List TxOut
  input_lt : input.length < 2 ^ 32 := by decide
  output_lt : output.length < 2 ^ 32 := by decide
deriving DecidableEq

namespace TxIn

def isCoinbase (txi : TxIn) : Bool :=
  txi.previousOutput.isNull

def peginData (txi : TxIn) : Option PeginData :=
  if txi.isPegin then txi.peginWitness else none

def hasIssuance (txi : TxIn) : Bool :=
  !txi.assetIssuance.isNull

end TxIn

def TxOut.isFee (txo : TxOut) : Bool :=
  match txo.asset, txo.value with
  | .explicit _, .explicit _ => txo.scriptPubkey.isEmpty
  | _, _ => false

def Transaction.isCoinbase (tx : Transaction) : Bool :=
  match tx.input with
  | [txi] => txi.isCoinbase
  | _ => false

/-- `elements` is the whole of a transaction of the index. -/
structure Library where
  elements : Splora.Transaction -> Transaction
  txid_elements : forall tx, (elements tx).txid = tx.txid
  isProvablyUnspendable : Script -> Bool
  pegoutGenesis : Script -> Option BlockHash
  generateAssetEntropy : OutPoint -> FullHash -> FullHash
  fromEntropy : FullHash -> AssetId
  reissuanceTokenFromEntropy : FullHash -> Bool -> AssetId
  unspendable_nil : isProvablyUnspendable [] = false
  unspendable_of_pegout : forall script genesis,
    pegoutGenesis script = some genesis -> isProvablyUnspendable script = true

structure Config where
  indexer : NewIndex.IndexerConfig
  library : Library
  peggedAsset : Option AssetId
  parentGenesis : Option BlockHash

def blockTxs (cfg : Config) (b : Block) : List Transaction :=
  b.txdata.map cfg.library.elements

def chainTxs (cfg : Config) (blocks : List Block) : List Transaction :=
  blocks.flatMap (blockTxs cfg)

def regtestInitialIssuancePrevout : Txid :=
  0xa530c0e71eac524e367c12af33da41f70ac7d2521f53ccea1ed6d0c910c4cd50

def testnetInitialIssuancePrevout : Txid :=
  0x523aa49351e29a924f519a1523c817afcad35dd1af74fbe9009f5c6a52d2520c

def hasPrevout (txi : TxIn) : Bool :=
  !txi.isCoinbase && !txi.isPegin &&
    decide (txi.previousOutput.txid ≠ regtestInitialIssuancePrevout) &&
    decide (txi.previousOutput.txid ≠ testnetInitialIssuancePrevout)

/-!
## Pegs
-/

structure PegoutData where
  asset : Confidential AssetId
  value : UInt64
  genesisHash : BlockHash

section Index

variable (cfg : Config)

def isSpendable (txo : TxOut) : Bool :=
  !txo.isFee && !cfg.library.isProvablyUnspendable txo.scriptPubkey

def pegoutData (txo : TxOut) : Option PegoutData :=
  match cfg.library.pegoutGenesis txo.scriptPubkey, txo.value with
  | some genesis, .explicit value =>
    some { asset := txo.asset, value := value, genesisHash := genesis }
  | _, _ => none

def getPeginData (txi : TxIn) : Option PeginData :=
  cfg.peggedAsset.bind fun pegged =>
    txi.peginData.filter fun pegin => pegin.assetId = pegged

def getPegoutData (txo : TxOut) : Option PegoutData :=
  cfg.peggedAsset.bind fun pegged =>
    cfg.parentGenesis.bind fun genesis =>
      (pegoutData cfg txo).filter fun pegout =>
        pegout.asset = .explicit pegged && pegout.genesisHash = genesis

/-!
## The entries of a transaction
-/

@[ext]
structure IssuingInfo where
  txid : Txid
  vin : UInt32
  isReissuance : Bool
  issuedAmount : Option UInt64
  tokenAmount : Option UInt64
deriving DecidableEq, Repr

@[ext]
structure BurningInfo where
  txid : Txid
  vout : UInt32
  value : UInt64
deriving DecidableEq, Repr

@[ext]
structure PeginInfo where
  txid : Txid
  vin : UInt32
  value : UInt64
deriving DecidableEq, Repr

@[ext]
structure PegoutInfo where
  txid : Txid
  vout : UInt32
  value : UInt64
deriving DecidableEq, Repr

inductive TxHistoryInfo where
  | issuing (info : IssuingInfo)
  | burning (info : BurningInfo)
  | pegin (info : PeginInfo)
  | pegout (info : PegoutInfo)
deriving DecidableEq, Repr

def TxHistoryInfo.getTxid : TxHistoryInfo -> Txid
  | issuing info => info.txid
  | burning info => info.txid
  | pegin info => info.txid
  | pegout info => info.txid

structure AssetRow where
  issuanceTxid : Txid
  issuanceVin : UInt32
  prevTxid : Txid
  prevVout : UInt32
  issuance : AssetIssuance
  reissuanceToken : AssetId
deriving DecidableEq, Repr

def isReissuance (txi : TxIn) : Bool :=
  decide (txi.assetIssuance.assetBlindingNonce ≠ 0)

def issuanceEntropy (txi : TxIn) : FullHash :=
  if isReissuance txi then
    txi.assetIssuance.assetEntropy
  else
    cfg.library.generateAssetEntropy txi.previousOutput txi.assetIssuance.assetEntropy

def getIssuanceEntropy (txi : TxIn) : Option FullHash :=
  if txi.hasIssuance then some (issuanceEntropy cfg txi) else none

def publicAmount : Confidential UInt64 -> Option UInt64
  | .explicit amount => some amount
  | .null => some 0
  | .confidential _ => none

def indexOutput (txid : Txid) (txo : TxOut) (txoIndex : Nat) :
    List (AssetId × TxHistoryInfo) :=
  match getPegoutData cfg txo with
  | some pegout =>
    match pegout.asset with
    | .explicit asset =>
      [(asset, .pegout { txid := txid, vout := txoIndex.toUInt32, value := pegout.value })]
    -- `unwrap`: the asset of a peg-out is the pegged one.
    | _ => []
  | none =>
    if cfg.library.isProvablyUnspendable txo.scriptPubkey && !txo.isFee then
      match txo.asset, txo.value with
      | .explicit asset, .explicit value =>
        if 0 < value then
          [(asset, .burning { txid := txid, vout := txoIndex.toUInt32, value := value })]
        else
          []
      | _, _ => []
    else
      []

def indexInput (txid : Txid) (txi : TxIn) (txiIndex : Nat) :
    List (AssetId × TxHistoryInfo) :=
  match getPeginData cfg txi with
  | some pegin =>
    [(pegin.assetId, .pegin { txid := txid, vin := txiIndex.toUInt32, value := pegin.value })]
  | none =>
    match getIssuanceEntropy cfg txi with
    | some assetEntropy =>
      [(cfg.library.fromEntropy assetEntropy,
        .issuing {
          txid := txid
          vin := txiIndex.toUInt32
          isReissuance := isReissuance txi
          issuedAmount := publicAmount txi.assetIssuance.amount
          tokenAmount := publicAmount txi.assetIssuance.inflationKeys })]
    | none => []

def isConfidential : Confidential UInt64 -> Bool
  | .confidential _ => true
  | _ => false

def issuanceRow (txid : Txid) (txi : TxIn) (txiIndex : Nat) :
    List (AssetId × AssetRow) :=
  match getPeginData cfg txi, getIssuanceEntropy cfg txi with
  | none, some assetEntropy =>
    if isReissuance txi then
      []
    else
      [(cfg.library.fromEntropy assetEntropy, {
        issuanceTxid := txid
        issuanceVin := txiIndex.toUInt32
        prevTxid := txi.previousOutput.txid
        prevVout := txi.previousOutput.vout
        issuance := txi.assetIssuance
        reissuanceToken := cfg.library.reissuanceTokenFromEntropy assetEntropy
          (isConfidential txi.assetIssuance.inflationKeys) })]
  | _, _ => []

def indexTxAssets (tx : Transaction) :
    List (AssetId × TxHistoryInfo) × List (AssetId × AssetRow) :=
  (tx.output.zipIdx.flatMap (fun (txo, txoIndex) => indexOutput cfg tx.txid txo txoIndex) ++
      tx.input.zipIdx.flatMap fun (txi, txiIndex) => indexInput cfg tx.txid txi txiIndex,
    tx.input.zipIdx.flatMap fun (txi, txiIndex) => issuanceRow cfg tx.txid txi txiIndex)

end Index

/-!
## Database keys
-/

def optionBytes : Option UInt64 -> Bytes
  | none => [0]
  | some n => 1 :: u64Big n

def TxHistoryInfo.bytes : TxHistoryInfo -> Bytes
  | issuing info =>
    u32Big 2 ++ (hashBytes info.txid ++ (u32Big info.vin ++
      (info.isReissuance.toUInt8 :: (optionBytes info.issuedAmount ++
        optionBytes info.tokenAmount))))
  | burning info =>
    u32Big 3 ++ (hashBytes info.txid ++ (u32Big info.vout ++ u64Big info.value))
  | pegin info =>
    u32Big 4 ++ (hashBytes info.txid ++ (u32Big info.vin ++ u64Big info.value))
  | pegout info =>
    u32Big 5 ++ (hashBytes info.txid ++ (u32Big info.vout ++ u64Big info.value))

/-- `I{asset}{height}{position}{info}` -/
@[ext]
structure AssetHistoryKey where
  assetId : AssetId
  confirmedHeight : UInt32
  txPosition : UInt16
  txinfo : TxHistoryInfo
deriving DecidableEq

namespace AssetHistoryKey

def bytes (k : AssetHistoryKey) : Bytes :=
  'I'.toUInt8 :: (hashBytes k.assetId ++ (u32Big k.confirmedHeight ++
    (u16Big k.txPosition ++ k.txinfo.bytes)))

def filter (asset : AssetId) : Bytes :=
  'I'.toUInt8 :: hashBytes asset

def prefixHeight (asset : AssetId) (height : UInt32) : Bytes :=
  'I'.toUInt8 :: (hashBytes asset ++ u32Big height)

end AssetHistoryKey

theorem optionBytes_append_inj {x y : Option UInt64} {r r' : Bytes}
    (h : optionBytes x ++ r = optionBytes y ++ r') : x = y ∧ r = r' := by
  cases x with
  | none =>
    cases y with
    | none => exact ⟨rfl, List.append_cancel_left h⟩
    | some n => exact absurd (List.cons.inj h).left (by decide)
  | some m =>
    cases y with
    | none => exact absurd (List.cons.inj h).left (by decide)
    | some n =>
      have hfields : u64Big m ++ r = u64Big n ++ r' := (List.cons.inj h).right
      rw [NewIndex.field_append_inj (by simp), NewIndex.u64Big_inj] at hfields
      exact ⟨congrArg some hfields.left, hfields.right⟩

theorem toUInt8_inj {a b : Bool} (h : a.toUInt8 = b.toUInt8) : a = b := by
  revert h
  cases a <;> cases b <;> decide

theorem TxHistoryInfo.bytes_inj {x y : TxHistoryInfo} (h : x.bytes = y.bytes) : x = y := by
  cases x with
  | issuing a =>
    cases y with
    | issuing b =>
      simp only [bytes, NewIndex.field_append_inj, NewIndex.length_hashBytes,
        NewIndex.length_u32Big, NewIndex.hashBytes_inj, NewIndex.u32Big_inj,
        List.cons.injEq, true_and] at h
      rcases h with ⟨htxid, hvin, hreissuance, hamounts⟩
      rcases optionBytes_append_inj hamounts with ⟨hissued, htoken⟩
      have hnil : optionBytes a.tokenAmount ++ [] = optionBytes b.tokenAmount ++ [] := by
        rw [htoken]
      exact congrArg issuing (IssuingInfo.ext htxid hvin (toUInt8_inj hreissuance)
        hissued (optionBytes_append_inj hnil).left)
    | _ => simp [bytes, NewIndex.field_append_inj] at h
  | burning a =>
    cases y with
    | burning b =>
      simpa [bytes, NewIndex.field_append_inj, BurningInfo.ext_iff] using h
    | _ => simp [bytes, NewIndex.field_append_inj] at h
  | pegin a =>
    cases y with
    | pegin b =>
      simpa [bytes, NewIndex.field_append_inj, PeginInfo.ext_iff] using h
    | _ => simp [bytes, NewIndex.field_append_inj] at h
  | pegout a =>
    cases y with
    | pegout b =>
      simpa [bytes, NewIndex.field_append_inj, PegoutInfo.ext_iff] using h
    | _ => simp [bytes, NewIndex.field_append_inj] at h

theorem AssetHistoryKey.bytes_inj {k k' : AssetHistoryKey} (h : k.bytes = k'.bytes) : k = k' := by
  simp only [bytes, List.cons.injEq, true_and, NewIndex.field_append_inj,
    NewIndex.length_hashBytes, NewIndex.length_u32Big, NewIndex.length_u16Big,
    NewIndex.hashBytes_inj, NewIndex.u32Big_inj, NewIndex.u16Big_inj] at h
  rcases h with ⟨hasset, hheight, hposition, hinfo⟩
  exact AssetHistoryKey.ext hasset hheight hposition (TxHistoryInfo.bytes_inj hinfo)

instance assetHistoryKeyOrder : Std.TransCmp (compareOn AssetHistoryKey.bytes) :=
  inferInstance

instance assetHistoryKeyLawful : Std.LawfulEqCmp (compareOn AssetHistoryKey.bytes) where
  eq_of_compare := by
    intro k k' h
    exact AssetHistoryKey.bytes_inj (Std.LawfulEqOrd.eq_of_compare h)

/-!
## Statistics
-/

inductive Panic where
  | aborted (reason : Abort)
  | unreachable
  | missingMempoolTx (txid : Txid)
  | missingTxFromTxstore (txid : Txid)
deriving DecidableEq, Repr

structure IssuedAssetStats where
  txCount : Nat
  issuanceCount : Nat
  issuedAmount : UInt64
  burnedAmount : UInt64
  hasBlindedIssuances : Bool
  reissuanceTokens : Option UInt64
  burnedReissuanceTokens : UInt64
deriving DecidableEq, Repr

def IssuedAssetStats.default : IssuedAssetStats where
  txCount := 0
  issuanceCount := 0
  issuedAmount := 0
  burnedAmount := 0
  hasBlindedIssuances := false
  reissuanceTokens := none
  burnedReissuanceTokens := 0

structure PeggedAssetStats where
  txCount : Nat
  pegInCount : Nat
  pegInAmount : UInt64
  pegOutCount : Nat
  pegOutAmount : UInt64
  burnCount : Nat
  burnedAmount : UInt64
deriving DecidableEq, Repr

def PeggedAssetStats.default : PeggedAssetStats where
  txCount := 0
  pegInCount := 0
  pegInAmount := 0
  pegOutCount := 0
  pegOutAmount := 0
  burnCount := 0
  burnedAmount := 0

abbrev StatsState (S : Type) := S × List Txid

abbrev AssetStatApplyFn (S : Type) :=
  TxHistoryInfo -> StatsState S -> Except Panic (StatsState S)

def countTx (seen : List Txid) (txid : Txid) : Nat :=
  if txid ∈ seen then 0 else 1

/-- The sums of `u64` values wrap. -/
def applyIssuedAssetStats : AssetStatApplyFn IssuedAssetStats :=
  fun info (stats, seen) =>
    let stats := { stats with txCount := stats.txCount + countTx seen info.getTxid }
    let seen := info.getTxid :: seen
    match info with
    | .issuing issuance =>
      let stats := { stats with issuanceCount := stats.issuanceCount + 1 }
      let stats :=
        match issuance.issuedAmount with
        | some amount => { stats with issuedAmount := stats.issuedAmount + amount }
        | none => { stats with hasBlindedIssuances := true }
      let stats :=
        if issuance.isReissuance then
          stats
        else
          { stats with reissuanceTokens := issuance.tokenAmount }
      .ok (stats, seen)
    | .burning info =>
      .ok ({ stats with burnedAmount := stats.burnedAmount + info.value }, seen)
    | .pegin _ => .error .unreachable
    | .pegout _ => .error .unreachable

def applyPeggedAssetStats : AssetStatApplyFn PeggedAssetStats :=
  fun info (stats, seen) =>
    let stats := { stats with txCount := stats.txCount + countTx seen info.getTxid }
    let seen := info.getTxid :: seen
    match info with
    | .pegin info =>
      .ok ({ stats with
        pegInCount := stats.pegInCount + 1
        pegInAmount := stats.pegInAmount + info.value }, seen)
    | .pegout info =>
      .ok ({ stats with
        pegOutCount := stats.pegOutCount + 1
        pegOutAmount := stats.pegOutAmount + info.value }, seen)
    | .burning info =>
      .ok ({ stats with
        burnCount := stats.burnCount + 1
        burnedAmount := stats.burnedAmount + info.value }, seen)
    -- Only a warning is logged.
    | .issuing _ => .ok (stats, seen)

/-!
## The confirmed part
-/

abbrev StatsCache (S : Type) := Table AssetId (S × BlockHash) compare

/-- The asset rows of history and cache.  A row is read as what it was written, pegged or issued.
-/
structure Store (T : BlockTree) where
  base : NewIndex.Store
  history : Table AssetHistoryKey Unit (compareOn AssetHistoryKey.bytes)
  issuances : Table AssetId AssetRow compare
  issuedCache : StatsCache IssuedAssetStats
  peggedCache : StatsCache PeggedAssetStats

namespace Store

variable {T : BlockTree}

def new (base : NewIndex.Store) : Store T where
  base := base
  history := ∅
  issuances := ∅
  issuedCache := ∅
  peggedCache := ∅

def blocks (store : Store T) : List Block :=
  store.base.indexedHeaders.headers.filterMap fun entry => T.block entry.hash

def lookupTxo (cfg : Config) (store : Store T) (outpoint : OutPoint) : Option TxOut :=
  (((chainTxs cfg store.blocks).find? fun tx => tx.txid = outpoint.txid).bind fun tx =>
    tx.output[outpoint.vout.toNat]?).filter (isSpendable cfg)

def historyIterScan (store : Store T) (asset : AssetId) (startHeight : Nat) :
    List AssetHistoryKey :=
  (scanFrom AssetHistoryKey.bytes store.history
    (AssetHistoryKey.prefixHeight asset startHeight.toUInt32)
    (AssetHistoryKey.filter asset)).map Prod.fst

section Stats

variable {S : Type} (apply : AssetStatApplyFn S)

def deltaStep (st : StatsState S × Option BlockHash) (row : AssetHistoryKey × BlockHash) :
    Except Panic (StatsState S × Option BlockHash) := do
  let seen := if st.2 = some row.2 then st.1.2 else []
  let st <- apply row.1.txinfo (st.1.1, seen)
  return (st, some row.2)

def chainAssetStatsDelta (store : Store T) (asset : AssetId) (initStats : S)
    (startHeight : Nat) : Except Panic (S × Option BlockHash) := do
  let rows := (store.historyIterScan asset startHeight).filterMap fun row =>
    (NewIndex.ChainQuery.txConfirmingBlock store.base row.txinfo.getTxid).map fun blockid =>
      (row, blockid.hash)
  let st <- rows.foldlM (deltaStep apply) ((initStats, []), none)
  return (st.1.1, st.2)

def chainAssetStats (default : S) (store : Store T) (cache : StatsCache S)
    (asset : AssetId) : Except Panic (S × StatsCache S) := do
  let cached := cache[asset]?.bind fun entry =>
    (NewIndex.ChainQuery.heightByHash store.base entry.2).map fun height => (entry.1, height)
  let delta :=
    match cached with
    | none => chainAssetStatsDelta apply store asset default 0
    | some (oldstats, height) =>
      chainAssetStatsDelta apply store asset oldstats (height + 1)
  let (newstats, lastblock) <- delta
  return (newstats,
    match lastblock with
    | some hash => cache.insert asset (newstats, hash)
    | none => cache)

end Stats

/-!
## Following the chain
-/

def blockRows (cfg : Config) (b : BlockEntry) : List AssetHistoryKey :=
  (blockTxs cfg b.block).zipIdx.flatMap fun (tx, txPosition) =>
    (indexTxAssets cfg tx).1.map fun entry => {
      assetId := entry.1
      confirmedHeight := b.entry.height.toUInt32
      txPosition := txPosition.toUInt16
      txinfo := entry.2 }

def issuanceRows (cfg : Config) (b : BlockEntry) : List (AssetId × AssetRow) :=
  (blockTxs cfg b.block).flatMap fun tx => (indexTxAssets cfg tx).2

def deleteKeys {K V : Type} {cmp : K -> K -> Ordering} [Std.TransCmp cmp]
    (t : Table K V cmp) (keys : List K) : Table K V cmp :=
  replay t (keys.map TableOp.delete)

def reorg (cfg : Config) (store : Store T) (blocks : List BlockEntry) : Store T :=
  let rows := blocks.flatMap (blockRows cfg)
  let assets := rows.map AssetHistoryKey.assetId
  { store with
    history := deleteKeys store.history rows
    issuances := deleteKeys store.issuances ((blocks.flatMap (issuanceRows cfg)).map Prod.fst)
    issuedCache := deleteKeys store.issuedCache assets
    peggedCache := deleteKeys store.peggedCache assets }

def index (cfg : Config) (store : Store T) (blocks : List BlockEntry) : Store T :=
  { store with
    history := writeRows store.history
      ((blocks.flatMap (blockRows cfg)).map fun row => (row, ()))
    issuances := writeRows store.issuances (blocks.flatMap (issuanceRows cfg)) }

/-- `Indexer::update`: the asset rows of the blocks that the index removes and indexes. -/
def update (cfg : Config) (fetchFrom : FetchFrom) (daemon : Daemon T) (store : Store T) :
    Except Abort (Store T) := do
  let newHeaders <-
    NewIndex.getNewHeaders daemon store.base.indexedHeaders daemon.getbestblockhash
  let (_, reorged, _) <- store.base.indexedHeaders.apply newHeaders
  let x <- NewIndex.update cfg.indexer fetchFrom daemon store.base
  let removed <- NewIndex.bitcoindSequentialFetcher daemon reorged
  let indexed <-
    NewIndex.startFetcher fetchFrom daemon (NewIndex.headersToIndex store.base newHeaders)
  return index cfg (reorg cfg { store with base := x.store } removed.flatten) indexed.flatten

end Store

/-!
## The mempool
-/

structure Mempool where
  txstore : Std.ExtTreeMap Txid Transaction
  feeinfo : List Transaction
  assetHistory : Table AssetId (List TxHistoryInfo) compare
  assetIssuance : Table AssetId AssetRow compare

namespace Mempool

def new : Mempool where
  txstore := ∅
  feeinfo := []
  assetHistory := ∅
  assetIssuance := ∅

def mempoolAssetStats {S : Type} (apply : AssetStatApplyFn S) (default : S) (m : Mempool)
    (asset : AssetId) : Except Panic S := do
  match m.assetHistory[asset]? with
  | none => return default
  | some history =>
    let st <- history.foldlM (fun st info => apply info st) (default, [])
    return st.1

def insertTx (st : Mempool × List Txid) (tx : Transaction) : Mempool × List Txid :=
  ({ st.1 with txstore := st.1.txstore.insert tx.txid tx },
    if tx.txid ∈ st.1.txstore then st.2 else st.2 ++ [tx.txid])

variable {T : BlockTree}

def lookupTxo (cfg : Config) (store : Store T) (m : Mempool) (outpoint : OutPoint) :
    Option TxOut :=
  (store.lookupTxo cfg outpoint).or
    (m.txstore[outpoint.txid]?.bind fun tx => tx.output[outpoint.vout.toNat]?)

def indexMempoolTxAssets (cfg : Config) (m : Mempool) (tx : Transaction) : Mempool :=
  { m with
    assetHistory := (indexTxAssets cfg tx).1.foldl push m.assetHistory
    assetIssuance := writeRows m.assetIssuance (indexTxAssets cfg tx).2 }

def processTx (cfg : Config) (store : Store T) (m : Mempool) (txid : Txid) :
    Except Panic Mempool := do
  let tx <- expect m.txstore[txid]? (.missingTxFromTxstore txid)
  if (tx.input.filter hasPrevout).all fun txi =>
      (m.lookupTxo cfg store txi.previousOutput).isSome then
    return indexMempoolTxAssets cfg { m with feeinfo := m.feeinfo ++ [tx] } tx
  else
    return m

def add (cfg : Config) (store : Store T) (m : Mempool) (txs : List Transaction) :
    Except Panic Mempool :=
  let (m, txids) := txs.foldl insertTx (m, [])
  txids.foldlM (processTx cfg store) m

def removeTx (m : Mempool) (txid : Txid) : Except Panic Mempool := do
  ensure (txid ∈ m.txstore) (.missingMempoolTx txid)
  return { m with txstore := m.txstore.erase txid }

def removeMempoolTxAssets (m : Mempool) (toRemove : List Txid) : Mempool :=
  { m with
    assetHistory := retain (fun entry => entry.getTxid ∉ toRemove) m.assetHistory
    assetIssuance := m.assetIssuance.filter fun _ row => row.issuanceTxid ∉ toRemove }

def remove (m : Mempool) (toRemove : List Txid) : Except Panic Mempool := do
  let m <- toRemove.foldlM removeTx m
  let m := { m with feeinfo := m.feeinfo.filter fun tx => tx.txid ∉ toRemove }
  return removeMempoolTxAssets m toRemove

end Mempool

/-!
## Queries
-/

structure PeggedAsset where
  assetId : AssetId
  chainStats : PeggedAssetStats
  mempoolStats : PeggedAssetStats
deriving DecidableEq, Repr

structure IssuedAsset where
  assetId : AssetId
  issuanceTxin : Txid × UInt32
  issuancePrevout : OutPoint
  reissuanceToken : AssetId
  contractHash : Option FullHash
  chainStats : IssuedAssetStats
  mempoolStats : IssuedAssetStats
deriving DecidableEq, Repr

def IssuedAsset.new (assetId : AssetId) (asset : AssetRow)
    (stats : IssuedAssetStats × IssuedAssetStats) : IssuedAsset where
  assetId := assetId
  issuanceTxin := (asset.issuanceTxid, asset.issuanceVin)
  issuancePrevout := { txid := asset.prevTxid, vout := asset.prevVout }
  reissuanceToken := asset.reissuanceToken
  contractHash :=
    if asset.issuance.assetEntropy ≠ 0 then some asset.issuance.assetEntropy else none
  chainStats := stats.1
  mempoolStats := stats.2

inductive LiquidAsset where
  | issued (asset : IssuedAsset)
  | native (asset : PeggedAsset)
deriving DecidableEq, Repr

/-- In a release build the differences wrap. -/
def LiquidAsset.supply : LiquidAsset -> Option UInt64
  | .native asset =>
    some (asset.chainStats.pegInAmount - asset.chainStats.pegOutAmount -
      asset.chainStats.burnedAmount + asset.mempoolStats.pegInAmount -
        asset.mempoolStats.pegOutAmount - asset.mempoolStats.burnedAmount)
  | .issued asset =>
    if asset.chainStats.hasBlindedIssuances || asset.mempoolStats.hasBlindedIssuances then
      none
    else
      some (asset.chainStats.issuedAmount - asset.chainStats.burnedAmount +
        asset.mempoolStats.issuedAmount - asset.mempoolStats.burnedAmount)

structure Index (T : BlockTree) where
  store : Store T
  mempool : Mempool

namespace Index

variable {T : BlockTree}

def peggedAssetStats (st : Index T) (asset : AssetId) :
    Except Panic ((PeggedAssetStats × PeggedAssetStats) × Index T) := do
  let (chainStats, cache) <- Store.chainAssetStats applyPeggedAssetStats .default
    st.store st.store.peggedCache asset
  let mempoolStats <- st.mempool.mempoolAssetStats applyPeggedAssetStats .default asset
  return ((chainStats, mempoolStats), { st with store := { st.store with peggedCache := cache } })

def issuedAssetStats (st : Index T) (asset reissuanceToken : AssetId) :
    Except Panic ((IssuedAssetStats × IssuedAssetStats) × Index T) := do
  let (chainStats, cache) <- Store.chainAssetStats applyIssuedAssetStats .default
    st.store st.store.issuedCache asset
  let (chainTokens, cache) <- Store.chainAssetStats applyIssuedAssetStats .default
    st.store cache reissuanceToken
  let mempoolStats <- st.mempool.mempoolAssetStats applyIssuedAssetStats .default asset
  let mempoolTokens <-
    st.mempool.mempoolAssetStats applyIssuedAssetStats .default reissuanceToken
  return ( ({ chainStats with burnedReissuanceTokens := chainTokens.burnedAmount },
      { mempoolStats with burnedReissuanceTokens := mempoolTokens.burnedAmount }),
    { st with store := { st.store with issuedCache := cache } })

def lookupAsset (cfg : Config) (st : Index T) (asset : AssetId) :
    Except Panic (Option LiquidAsset × Index T) :=
  if cfg.peggedAsset = some asset then do
    let ((chainStats, mempoolStats), st) <- st.peggedAssetStats asset
    return (some (.native {
      assetId := asset
      chainStats := chainStats
      mempoolStats := mempoolStats }), st)
  else
    match st.store.issuances[asset]?.or st.mempool.assetIssuance[asset]? with
    | some row => do
        let (stats, st) <- st.issuedAssetStats asset row.reissuanceToken
        return (some (.issued (IssuedAsset.new asset row stats)), st)
    | none => .ok (none, st)

/-!
## Runs
-/

inductive Event (T : BlockTree) where
  | update (fetchFrom : FetchFrom) (daemon : Daemon T)
  | restart
  | add (txs : List Transaction)
  | remove (toRemove : List Txid)
  | lookup (asset : AssetId)

def step (cfg : Config) (st : Index T) : Event T -> Except Panic (Index T)
  | .update fetchFrom daemon => do
      let store <- (st.store.update cfg fetchFrom daemon).mapError .aborted
      return { st with store := store }
  | .restart => do
      let base <- (NewIndex.Store.openStore cfg.indexer st.store.base.disk).mapError .aborted
      return { store := { st.store with base := base }, mempool := .new }
  | .add txs => do
      let m <- st.mempool.add cfg st.store txs
      return { st with mempool := m }
  | .remove toRemove => do
      let m <- st.mempool.remove toRemove
      return { st with mempool := m }
  | .lookup asset => do
      let (_, st) <- st.lookupAsset cfg asset
      return st

def run (cfg : Config) (events : List (Event T)) : Except Panic (Index T) := do
  let base <- (NewIndex.Store.openStore cfg.indexer NewIndex.Disk.empty).mapError .aborted
  events.foldlM (step cfg) { store := .new base, mempool := .new }

end Index

end Elements
end Splora
