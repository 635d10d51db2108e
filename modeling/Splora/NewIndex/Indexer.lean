import Splora.NewIndex.Fetch
import Splora.NewIndex.Store

/-!
# The indexer

`Indexer` of `src/new_index/schema.rs`.  An execution carries the store, the log of its database
operations, and the script hashes sent to the channel of `reorg`.  `index` never changes the set
of indexed block hashes; only `Store::open` does.
-/

namespace Splora
namespace NewIndex

open Foundation

inductive Operation where
  | addBlocks
  | deleteBlocks
  | deleteBlocksWithHistory
deriving DecidableEq, Repr

structure Exec where
  store : Store
  log : List DbOp
  scripts : List FullHash

namespace Exec

def emit (x : Exec) (ops : List DbOp) : Exec :=
  { x with
    store := { x.store with disk := x.store.disk.replay ops }
    log := x.log ++ ops }

def send (x : Exec) (scripts : List FullHash) : Exec :=
  { x with scripts := x.scripts ++ scripts }

def setAdded (x : Exec) (added : Finset BlockHash) : Exec :=
  { x with store := { x.store with addedBlockhashes := added } }

end Exec

def scriptHashes (rows : List HistoryRow) : List FullHash :=
  rows.filterMap fun row =>
    match row.1 with
    | .history key => some key.hash
    | _ => none

def blockhashes (blocks : List BlockEntry) : Finset BlockHash :=
  (blocks.map fun b => b.entry.hash).toFinset

section Steps

variable {T : BlockTree} (cfg : IndexerConfig)

def add (op : Operation) (x : Exec) (blocks : List BlockEntry) : Exec :=
  let rows := addBlocks cfg blocks
  match op with
  | .addBlocks =>
    (x.emit [.txstore (.write rows)]).setAdded (x.store.addedBlockhashes ∪ blockhashes blocks)
  | _ =>
    (x.emit (rows.map fun row => .txstore (.delete row.1))).setAdded
      (x.store.addedBlockhashes \ blockhashes blocks)

def indexEffect (op : Operation) (x : Exec) (rows : List HistoryRow) : Exec :=
  match op with
  | .addBlocks => x.emit [.history (.write rows)]
  | .deleteBlocks => x.emit (rows.map fun row => .history (.delete row.1))
  | .deleteBlocksWithHistory =>
    (x.emit (rows.map fun row => .history (.delete row.1))).send (scriptHashes rows)

def index (op : Operation) (x : Exec) (blocks : List BlockEntry) :
    Except Abort Exec := do
  let previousTxos <-
    lookupTxos x.store.disk.txstore (getPreviousTxos blocks) false
  blocks.forM fun b =>
    ensure (op = .addBlocks -> b.entry.hash ∈ x.store.addedBlockhashes)
      (.missingFromStore b.entry.hash)
  let rows <- indexBlocks cfg previousTxos blocks
  return indexEffect op x rows

def reorg (daemon : Daemon T) (reorged : List HeaderEntry) (x : Exec) :
    Except Abort Exec := do
  let batches <- bitcoindSequentialFetcher daemon reorged
  let x <- batches.foldlM (index cfg .deleteBlocksWithHistory) x
  let batches <- bitcoindSequentialFetcher daemon reorged
  let x := batches.foldl (add cfg .deleteBlocks) x
  return x.emit (x.scripts.dedup.flatMap fun script =>
    [.cache (.delete (.stats script)), .cache (.delete (.utxo script))])

def startAutoCompactions (x : Exec) (compacted : Bool) (mark : DbOp) : Exec :=
  if compacted then x else x.emit [mark]

def compactTxstore (x : Exec) : Exec :=
  startAutoCompactions x (x.store.disk.txstore[TxstoreKey.compacted]?).isSome
    (.txstore (.put .compacted .empty))

def compactHistory (x : Exec) : Exec :=
  startAutoCompactions x (x.store.disk.history[HistoryKey.compacted]?).isSome
    (.history (.put .compacted []))

def compactCache (x : Exec) : Exec :=
  startAutoCompactions x (x.store.disk.cache[CacheKey.compacted]?).isSome
    (.cache (.put .compacted .empty))

def headersToAdd (store : Store) (newHeaders : List HeaderEntry) :
    List HeaderEntry :=
  newHeaders.filter fun e => e.hash ∉ store.addedBlockhashes

def headersToIndex (store : Store) (newHeaders : List HeaderEntry) :
    List HeaderEntry :=
  newHeaders.filter fun e => e.hash ∉ store.indexedBlockhashes

def getNewHeaders (daemon : Daemon T) (headers : HeaderList)
    (tip : BlockHash) : Except Abort (List HeaderEntry) := do
  let newHeaders <- daemon.getNewHeaders headers tip
  headers.order newHeaders

def rollbackOp (rollbackTip : Option BlockHash) : DbOp :=
  match rollbackTip with
  | some tip => .txstore (.put .tip (.blockhash tip))
  | none => .txstore (.delete .tip)

def rollback (daemon : Daemon T) (reorged : List HeaderEntry)
    (rollbackTip : Option BlockHash) (x : Exec) : Except Abort Exec :=
  if reorged.isEmpty then
    .ok x
  else
    reorg cfg daemon reorged (x.emit [rollbackOp rollbackTip])

def rollForward (fetchFrom : FetchFrom) (daemon : Daemon T)
    (newHeaders : List HeaderEntry) (x : Exec) : Except Abort Exec := do
  let batches <- startFetcher fetchFrom daemon (headersToAdd x.store newHeaders)
  let x := compactTxstore (batches.foldl (add cfg .addBlocks) x)
  let batches <- startFetcher fetchFrom daemon (headersToIndex x.store newHeaders)
  let x <- batches.foldlM (index cfg .addBlocks) x
  let x := compactCache (compactHistory x)
  return x.emit [.txstore (.put .tip (.blockhash daemon.getbestblockhash))]

def update (fetchFrom : FetchFrom) (daemon : Daemon T) (store : Store) :
    Except Abort Exec := do
  let tip := daemon.getbestblockhash
  let newHeaders <- getNewHeaders daemon store.indexedHeaders tip
  let (headers, reorged, rollbackTip) <- store.indexedHeaders.apply newHeaders
  let headersTip <- headers.getTip
  ensure (tip = headersTip) .tipMismatch
  let x : Exec := {
    store := { store with indexedHeaders := headers }
    log := []
    scripts := [] }
  let x <- rollback cfg daemon reorged rollbackTip x
  rollForward cfg fetchFrom daemon newHeaders x

/-!
## Runs
-/

inductive Event (T : BlockTree) where
  | update (fetchFrom : FetchFrom) (daemon : Daemon T)
  | restart

def step (store : Store) : Event T -> Except Abort Store
  | .update fetchFrom daemon => do
      let x <- update cfg fetchFrom daemon store
      return x.store
  | .restart => Store.openStore cfg store.disk

def run (events : List (Event T)) : Except Abort Store := do
  let store <- Store.openStore cfg Disk.empty
  events.foldlM (step cfg) store

end Steps

end NewIndex
end Splora
