import Splora.Mwck.BlockAt

/-!
# The main loop

`run_server` of `src/bin/electrs.rs`: on a new tip a turn updates the confirmed index and tells
the hub both heights, then it updates the mempool index and tells the hub what came and went
since the turn began.  A run is a list of steps of the loop and of other threads.
-/

namespace Splora

open Foundation NewIndex Mwck
open Electrum (Value)

structure ServerEnv (T : BlockTree) where
  cfg : Config
  restDefaultMaxMempoolTxs : Nat
  deserialize : Bytes -> Option Transaction
  deserialize_raw : forall {hash : BlockHash} {b : Block}, T.block hash = some b ->
    forall tx, tx ∈ b.txdata -> deserialize tx.raw = some tx
  fmt : TxFormat

structure ValidDaemon {T : BlockTree} (env : ServerEnv T) extends Daemon T where
  inputs : ValidInputs env.cfg.toIndexerConfig best.blocks

inductive LoopPhase where
  | waiting
  | started (prevHeight : Nat) (prevTxids : List Txid)
  | followed (prevTxids : List Txid)
  | updated (prevTxids : List Txid)

structure RunServer where
  store : Store
  mempool : Mempool
  tip : BlockHash
  hub : MwckHub
  phase : LoopPhase
  chains : List (List Block)

inductive LoopAction {T : BlockTree} (env : ServerEnv T) where
  | registerSocket
  | setClientState (id : Nat) (state : ClientState)
  | detachClient (id : Nat)
  | rememberSnapshot (txs : List Value)
  | broadcast (order : HashOrder) (rpc : MempoolRpc) (txid : Txid)
  | startTurn
  | followTip (currentTip : BlockHash) (fetchFrom : FetchFrom)
      (daemon : ValidDaemon env)
  | updateMempool (order : HashOrder) (rpc : MempoolRpc)
  | reportMempool (daemon : Daemon T)

namespace RunServer

variable {T : BlockTree} (env : ServerEnv T)

def chain (s : RunServer) : List Block :=
  s.chains.headD []

/-- After a run of the indexer the mempool index is updated until this succeeds. -/
def start (events : List (Event T)) (rounds : List (HashOrder × MempoolRpc)) :
    Except QueryError RunServer := do
  let store <- (NewIndex.run env.cfg.toIndexerConfig events).mapError .aborted
  let mempool <- rounds.foldlM (fun m round => do
    let (m, _) <- (Mempool.update env.cfg store round.1 round.2 m).mapError .aborted
    return m) Mempool.new
  return {
    store := store
    mempool := mempool
    tip := tipHash (lastBest events)
    hub := MwckHub.new
    phase := .waiting
    chains := [lastBest events] }

def restServer (daemon : Daemon T) (store : Store) (mempool : Mempool) :
    Rest.Server T where
  cfg := env.cfg
  restDefaultMaxMempoolTxs := env.restDefaultMaxMempoolTxs
  daemon := daemon
  deserialize := env.deserialize
  store := store
  mempool := mempool

def broadcast (s : RunServer) (order : HashOrder) (rpc : MempoolRpc) (txid : Txid) :
    Except QueryError RunServer := do
  let (mempool, _) <-
    (Mempool.addByTxid env.cfg s.store order rpc s.mempool txid).mapError .aborted
  return { s with mempool := mempool }

def startTurn (s : RunServer) : RunServer :=
  match s.phase with
  | .waiting =>
    { s with
      phase := .started (ChainQuery.bestHeight s.store) s.mempool.uniqueTxids }
  | _ => s

def newTip (s : RunServer) (prevHeight : Nat) (currentTip : BlockHash)
    (fetchFrom : FetchFrom) (daemon : ValidDaemon env) :
    Except QueryError (Sent × RunServer) := do
  let store <- (NewIndex.step env.cfg.toIndexerConfig s.store
    (.update fetchFrom daemon.toDaemon)).mapError .aborted
  let server := restServer env daemon.toDaemon store s.mempool
  let (sent, hub) <- s.hub.notifyNewTip (blockAt env.fmt server)
    (some (queryBody env.fmt server)) prevHeight (ChainQuery.bestHeight store)
  return (sent, { s with
    store := store
    tip := currentTip
    hub := hub
    chains := daemon.best.blocks :: s.chains })

def followTip (s : RunServer) (currentTip : BlockHash) (fetchFrom : FetchFrom)
    (daemon : ValidDaemon env) : Except QueryError (Sent × RunServer) :=
  match s.phase with
  | .started prevHeight prevTxids =>
    if currentTip ≠ s.tip then do
      let (sent, s) <- newTip env s prevHeight currentTip fetchFrom daemon
      return (sent, { s with phase := .followed prevTxids })
    else
      .ok ([], { s with phase := .followed prevTxids })
  | _ => .ok ([], s)

def updateMempool (s : RunServer) (order : HashOrder) (rpc : MempoolRpc) :
    Except QueryError RunServer :=
  match s.phase with
  | .followed prevTxids => do
      let (mempool, result) <-
        (Mempool.update env.cfg s.store order rpc s.mempool).mapError .aborted
      match result with
      | .error _ => return { s with mempool := mempool, phase := .waiting }
      | .ok () => return { s with mempool := mempool, phase := .updated prevTxids }
  | _ => .ok s

def foundBodies (server : Rest.Server T) (txids : List Txid) :
    Except QueryError (List (Text × Value)) := do
  let found <- txids.mapM fun txid => do
    let full <- lookupBody env.fmt server txid
    return full.map fun full => (txidText txid, full)
  return found.reduceOption

def notifyChanges (query : Option (Text -> Option Value)) (hub : MwckHub)
    (added removed : List Value) : Sent × MwckHub :=
  if !added.isEmpty || !removed.isEmpty then
    hub.notifyMempool query added removed
  else
    ([], hub)

def reportMempool (s : RunServer) (daemon : Daemon T) :
    Except QueryError (Sent × RunServer) :=
  match s.phase with
  | .updated prevTxids => do
      let server := restServer env daemon s.store s.mempool
      let nowTxids := s.mempool.uniqueTxids
      let came := nowTxids.filter fun txid => txid ∉ prevTxids
      let went := prevTxids.filter fun txid => txid ∉ nowTxids
      let added <- foundBodies env server came
      let available <- foundBodies env server went
      let removed := preferFullRemoved (went.map fun txid => txidObject (txidText txid))
        (writeRows ∅ available)
      let told := notifyChanges (some (queryBody env.fmt server)) s.hub (added.map Prod.snd) removed
      return (told.1, { s with hub := told.2, phase := .waiting })
  | _ => .ok ([], s)

def step (s : RunServer) : LoopAction env -> Except QueryError (Sent × RunServer)
  | .registerSocket => .ok ([], { s with hub := s.hub.attach ClientState.default true })
  | .setClientState id state => .ok ([], { s with hub := s.hub.setClientState id state })
  | .detachClient id => .ok ([], { s with hub := s.hub.detachClient id })
  | .rememberSnapshot txs =>
    .ok ([], { s with hub := { s.hub with
      mempoolTxBodies := rememberMempoolBodies s.hub.mempoolTxBodies txs } })
  | .broadcast order rpc txid => do
      let s <- broadcast env s order rpc txid
      return ([], s)
  | .startTurn => .ok ([], startTurn s)
  | .followTip currentTip fetchFrom daemon => followTip env s currentTip fetchFrom daemon
  | .updateMempool order rpc => do
      let s <- updateMempool env s order rpc
      return ([], s)
  | .reportMempool daemon => reportMempool env s daemon

def run (s : RunServer) (actions : List (LoopAction env)) : Except QueryError RunServer :=
  actions.foldlM (fun s action => do
    let (_, s) <- step env s action
    return s) s

end RunServer

end Splora
