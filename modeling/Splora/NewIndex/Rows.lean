import Splora.NewIndex.Keys
import Splora.Util.Block

/-!
# Rows of blocks

`add_blocks` and `index_blocks` of `src/new_index/schema.rs`, in the order in which rows are
produced.  The liquid-only rows are left out.
-/

namespace Splora
namespace NewIndex

open Foundation

inductive Network where
  | bitcoin
  | testnet
  | testnet4
  | regtest
  | signet
deriving DecidableEq, Repr

/-- The class of an opcode, as far as `is_provably_unspendable_` reads it. -/
inductive OpClass where
  | returnOp
  | illegalOp
  | other
deriving DecidableEq, Repr

structure Externals where
  classify : UInt8 -> OpClass
  sha256 : Bytes -> FullHash
  toAddressStr : Network -> Script -> Option Bytes

structure IndexerConfig where
  lightMode : Bool
  addressSearch : Bool
  indexUnspendables : Bool
  network : Network
  externals : Externals

namespace IndexerConfig

variable (cfg : IndexerConfig)

def isProvablyUnspendable (script : Script) : Bool :=
  match script.head? with
  | some first =>
    cfg.externals.classify first = .returnOp || cfg.externals.classify first = .illegalOp
  | none => false

def isSpendable (txo : TxOut) : Bool :=
  !cfg.isProvablyUnspendable txo.scriptPubkey

def computeScriptHash (script : Script) : FullHash :=
  cfg.externals.sha256 script

def isIndexed (txo : TxOut) : Bool :=
  cfg.isSpendable txo || cfg.indexUnspendables

end IndexerConfig

structure BlockEntry where
  block : Block
  entry : HeaderEntry
  size : UInt32
deriving DecidableEq

structure BlockMeta where
  txCount : UInt32
  size : UInt32
  weight : UInt32
deriving DecidableEq, Repr

def BlockMeta.ofEntry (b : BlockEntry) : BlockMeta where
  txCount := b.block.txdata.length.toUInt32
  size := b.size
  weight := b.block.weight

inductive TxstoreValue where
  | empty
  | rawTx (raw : Bytes)
  | txOut (txo : TxOut)
  | header (header : BlockHeader)
  | txids (txids : List Txid)
  | blockMeta (info : BlockMeta)
  | blockhash (hash : BlockHash)
  | version (compatibilityBytes : Bytes)
deriving DecidableEq

abbrev TxstoreRow := TxstoreKey × TxstoreValue

abbrev HistoryRow := HistoryKey × Bytes

abbrev TxstoreTable :=
  Table TxstoreKey TxstoreValue (compareOn TxstoreKey.bytes)

abbrev HistoryTable := Table HistoryKey Bytes (compareOn HistoryKey.bytes)

section Builders

variable (cfg : IndexerConfig)

/-!
## The transaction store
-/

def addTransaction (tx : Transaction) (blockhash : BlockHash) :
    List TxstoreRow :=
  (.conf tx.txid blockhash, .empty) ::
    ((if cfg.lightMode then [] else [(.tx tx.txid, .rawTx tx.raw)]) ++
      tx.output.zipIdx.filterMap fun (txo, txoIndex) =>
        if cfg.isSpendable txo then
          some (.txout { txid := tx.txid, vout := txoIndex.toUInt32 }, .txOut txo)
        else
          none)

def addBlock (b : BlockEntry) : List TxstoreRow :=
  let blockhash := b.entry.hash
  let txids := b.block.txdata.map Transaction.txid
  b.block.txdata.flatMap (fun tx => addTransaction cfg tx blockhash) ++ ((if cfg.lightMode then []
      else
        [(.txids blockhash, .txids txids),
          (.blockMeta blockhash, .blockMeta (BlockMeta.ofEntry b))]) ++
      [(.header blockhash, .header b.block.header), (.done blockhash, .empty)])

def addBlocks (blockEntries : List BlockEntry) : List TxstoreRow :=
  blockEntries.flatMap (addBlock cfg)

/-!
## The history
-/

abbrev TxoMap := OutPoint -> Option TxOut

def getPreviousTxos (blockEntries : List BlockEntry) : List OutPoint :=
  blockEntries.flatMap fun b =>
    b.block.txdata.flatMap fun tx =>
      (tx.input.filter hasPrevout).map TxIn.previousOutput

def lookupTxo (txstore : TxstoreTable) (outpoint : OutPoint) : Option TxOut :=
  match txstore[TxstoreKey.txout outpoint]? with
  | some (.txOut txo) => some txo
  | _ => none

theorem lookupTxo_eq_some {txstore : TxstoreTable} {outpoint : OutPoint} {txo : TxOut} :
    lookupTxo txstore outpoint = some txo <->
      txstore[TxstoreKey.txout outpoint]? = some (.txOut txo) := by
  unfold lookupTxo
  constructor
  · intro h
    split at h
    · rename_i txo' hrow
      rw [hrow, Option.some.inj h]
    · cases h
  · intro h
    rw [h]

def lookupTxos (txstore : TxstoreTable) (outpoints : List OutPoint)
    (allowMissing : Bool) : Except Abort TxoMap := do
  outpoints.forM fun outpoint =>
    ensure (allowMissing || (lookupTxo txstore outpoint).isSome) (.missingTxo outpoint)
  return fun outpoint =>
    if outpoint ∈ outpoints then lookupTxo txstore outpoint else none

def historyRow (script : Script) (confirmedHeight : UInt32)
    (txPosition : UInt16) (txinfo : TxHistoryInfo) : HistoryRow :=
  (.history {
    code := .script
    hash := cfg.computeScriptHash script
    confirmedHeight := confirmedHeight
    txPosition := txPosition
    txinfo := txinfo }, [])

def addrSearchRow (script : Script) : Option HistoryRow :=
  (cfg.externals.toAddressStr cfg.network script).map fun address =>
    (.addr address, [])

def indexOutput (tx : Transaction) (confirmedHeight : UInt32)
    (txPosition : UInt16) (txo : TxOut) (txoIndex : Nat) : List HistoryRow :=
  if cfg.isIndexed txo then
    historyRow cfg txo.scriptPubkey confirmedHeight txPosition
      (.funding {
        txid := tx.txid
        vout := txoIndex.toUInt32
        value := txo.value }) ::
      (if cfg.addressSearch then (addrSearchRow cfg txo.scriptPubkey).toList
        else [])
  else
    []

def indexInput (tx : Transaction) (confirmedHeight : UInt32)
    (txPosition : UInt16) (previousTxos : TxoMap) (txi : TxIn)
    (txiIndex : Nat) : Except Abort (List HistoryRow) :=
  if !hasPrevout txi then
    .ok []
  else do
    let prevTxo <- expect (previousTxos txi.previousOutput) (.missingPreviousTxo txi.previousOutput)
    return [ historyRow cfg prevTxo.scriptPubkey confirmedHeight txPosition
        (.spending {
          txid := tx.txid
          vin := txiIndex.toUInt32
          prevTxid := txi.previousOutput.txid
          prevVout := txi.previousOutput.vout
          value := prevTxo.value }),
      (.edge {
        fundingTxid := txi.previousOutput.txid
        fundingVout := txi.previousOutput.vout
        spendingTxid := tx.txid
        spendingVin := txiIndex.toUInt32 }, [])]

def indexTransaction (tx : Transaction) (confirmedHeight : UInt32)
    (txPosition : UInt16) (previousTxos : TxoMap) :
    Except Abort (List HistoryRow) := do
  let inputRows <- tx.input.zipIdx.mapM fun (txi, txiIndex) =>
    indexInput cfg tx confirmedHeight txPosition previousTxos txi txiIndex
  return tx.output.zipIdx.flatMap (fun (txo, txoIndex) =>
    indexOutput cfg tx confirmedHeight txPosition txo txoIndex) ++ inputRows.flatten

def indexBlock (previousTxos : TxoMap) (b : BlockEntry) :
    Except Abort (List HistoryRow) := do
  let rows <- b.block.txdata.zipIdx.mapM fun (tx, idx) =>
    indexTransaction cfg tx b.entry.height.toUInt32 idx.toUInt16 previousTxos
  return rows.flatten ++ [(.done b.entry.hash, [])]

def indexBlocks (previousTxos : TxoMap) (blockEntries : List BlockEntry) :
    Except Abort (List HistoryRow) := do
  let rows <- blockEntries.mapM (indexBlock cfg previousTxos)
  return rows.flatten

end Builders

end NewIndex
end Splora
