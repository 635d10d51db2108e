import Splora.RunServer

/-!
# Block notifications along a run

The hub remembers the best chain from some height on, never more than seventeen below the end.
On a new tip it reports what it remembers from the fork on, so a client misses the blocks
between the fork and the first height remembered.
-/

namespace Splora
namespace RunServer

open Foundation NewIndex Mwck
open Electrum (Value)

def firstHeld : List (List Block) -> Nat
  | [] => 0
  | [chain] => chain.length
  | chain :: prev :: older =>
    max (min (firstHeld (prev :: older)) chain.length) (chain.length - 17)

theorem firstHeld_le (chain : List Block) (older : List (List Block)) :
    firstHeld (chain :: older) ≤ chain.length := by
  cases older with
  | nil => exact Nat.le_refl _
  | cons prev older =>
    rw [firstHeld]
    omega

section Chains

variable {T : BlockTree} {blocks blocks' q left joined : List Block}

theorem diverge_of_fork (fmt : TxFormat) (h : IsChain T blocks) (h' : IsChain T blocks')
    (hfork : Fork blocks blocks' q left joined) :
    Diverge (tipBlocks fmt blocks) (tipBlocks fmt blocks') q.length where
  le_left := by
    rw [length_tipBlocks, hfork.left_eq, List.length_append]
    exact Nat.le_add_right _ _
  le_right := by
    rw [length_tipBlocks, hfork.right_eq, List.length_append]
    exact Nat.le_add_right _ _
  agree := by
    intro i hi
    rw [getElem?_tipBlocks, getElem?_tipBlocks, hfork.left_eq, hfork.right_eq,
      List.getElem?_append_left hi, List.getElem?_append_left hi]
  differ := by
    intro i a a' hi ha ha' heq
    rw [getElem?_tipBlocks] at ha ha'
    rcases Option.map_eq_some_iff.mp ha with ⟨b, hb, hab⟩
    rcases Option.map_eq_some_iff.mp ha' with ⟨b', hb', hab'⟩
    have hhash : b.hash = b'.hash := by
      rw [<- hab, <- hab'] at heq
      exact heq.symm
    have hsame := h.eq_of_hash_eq h' (List.mem_of_getElem? hb) (List.mem_of_getElem? hb') hhash
    have hleft : b ∈ left := by
      rw [hfork.left_eq, List.getElem?_append_right hi] at hb
      exact List.mem_of_getElem? hb
    exact hfork.removed b hleft (hsame ▸ List.mem_of_getElem? hb')

theorem length_eq_of_fork_self (h : Fork blocks blocks q left joined) :
    q.length = blocks.length := by
  have hnil : left = [] := by
    refine List.eq_nil_iff_forall_not_mem.mpr ?_
    intro b hb
    exact h.removed b hb (h.mem_left.mpr (Or.inr hb))
  rw [h.left_eq, hnil, List.append_nil]

end Chains

section Runs

variable {T : BlockTree} {env : ServerEnv T} {s s' : RunServer} {sent : Sent}

structure Follows (env : ServerEnv T) (s : RunServer) : Prop where
  nonempty : s.chain ≠ []
  index : exists entries, NewIndex.Inv T env.cfg.toIndexerConfig s.store s.chain entries
  inputs : ValidInputs env.cfg.toIndexerConfig s.chain
  ring : HoldsFrom s.hub.recentConfirmed (tipBlocks env.fmt s.chain) (firstHeld s.chains)
  prevHeight_eq : forall prevHeight prevTxids, s.phase = .started prevHeight prevTxids ->
    prevHeight = s.chain.length - 1

theorem Follows.exists_chains (h : Follows env s) : exists older, s.chains = s.chain :: older := by
  cases hchains : s.chains with
  | nil =>
    refine absurd ?_ h.nonempty
    rw [chain, hchains]
    rfl
  | cons c older =>
    refine ⟨older, ?_⟩
    rw [chain, hchains]
    rfl

theorem Follows.firstHeld_le (h : Follows env s) : firstHeld s.chains ≤ s.chain.length := by
  rcases h.exists_chains with ⟨older, hchains⟩
  rw [hchains]
  exact RunServer.firstHeld_le s.chain older

theorem follows_start {events : List (Event T)} {rounds : List (HashOrder × MempoolRpc)}
    (hstart : start env events rounds = .ok s) (hne : lastBest events ≠ [])
    (hinputs : ValidInputs env.cfg.toIndexerConfig (lastBest events)) : Follows env s := by
  rcases bind_eq_ok.mp hstart with ⟨store, hrun, hrest⟩
  rcases bind_eq_ok.mp hrest with ⟨mempool, _, hpure⟩
  cases pure_eq_ok.mp hpure
  refine ⟨hne, exists_inv (mapError_eq_ok.mp hrun), hinputs, ?_, ?_⟩
  · have hempty := HoldsFrom.empty (tipBlocks env.fmt (lastBest events))
    rw [length_tipBlocks] at hempty
    exact hempty
  · intro prevHeight prevTxids h
    cases h

theorem Follows.of_eq (h : Follows env s) (hstore : s'.store = s.store)
    (hchains : s'.chains = s.chains)
    (hrecent : s'.hub.recentConfirmed = s.hub.recentConfirmed)
    (hphase : forall prevHeight prevTxids, s'.phase = .started prevHeight prevTxids ->
      prevHeight = s.chain.length - 1) : Follows env s' := by
  have hchain : s'.chain = s.chain := by
    rw [chain, chain, hchains]
  refine ⟨?_, ?_, ?_, ?_, ?_⟩
  · rw [hchain]
    exact h.nonempty
  · rw [hchain, hstore]
    exact h.index
  · rw [hchain]
    exact h.inputs
  · rw [hchain, hrecent, hchains]
    exact h.ring
  · rw [hchain]
    exact hphase

variable {blocks : List Block}

theorem decodes_restServer (env : ServerEnv T) (h : IsChain T blocks)
    (daemon : Daemon T) (store : Store) (mempool : Mempool) :
    Decodes (restServer env daemon store mempool).reader blocks := by
  intro b hb tx htx
  exact env.deserialize_raw (h.stored b hb) tx htx

/-- The remembered blocks from the fork on, and those of the new chain from the same height. -/
def announcement (env : ServerEnv T) (s : RunServer) (query : Text -> Option Value)
    (blocks : List Block) (fork : Nat) : Sent × MwckHub :=
  s.hub.announce (some query)
    (((tipBlocks env.fmt s.chain).drop (max (firstHeld s.chains) fork)).flatMap TipBlock.txs)
    (((tipBlocks env.fmt blocks).drop (max (firstHeld s.chains) fork)).map TipBlock.txs)

structure TipEffect (env : ServerEnv T) (s : RunServer) (blocks : List Block) (fork : Nat)
    (sent : Sent) (s' : RunServer) : Prop where
  announced : exists query, sent = (announcement env s query blocks fork).1 ∧
    s'.hub.mempoolTxBodies = (announcement env s query blocks fork).2.mempoolTxBodies
  mempool_eq : s'.mempool = s.mempool
  chains_eq : s'.chains = blocks :: s.chains
  index : exists entries, NewIndex.Inv T env.cfg.toIndexerConfig s'.store blocks entries
  ring : HoldsFrom s'.hub.recentConfirmed (tipBlocks env.fmt blocks)
    (firstHeld (blocks :: s.chains))

theorem TipEffect.chain_eq {fork : Nat} (h : TipEffect env s blocks fork sent s') :
    s'.chain = blocks := by
  rw [chain, h.chains_eq]
  rfl

theorem firstHeld_cons (h : Follows env s) (blocks : List Block) :
    firstHeld (blocks :: s.chains) =
      max (min (firstHeld s.chains) blocks.length) (blocks.length - 17) := by
  rcases h.exists_chains with ⟨older, hchains⟩
  rw [hchains]
  rfl

variable {currentTip : BlockHash} {fetchFrom : FetchFrom} {daemon : ValidDaemon env}

theorem Follows.newTip_effect (h : Follows env s) {prevHeight : Nat}
    {q left joined : List Block} (hheight : prevHeight = s.chain.length - 1)
    (hfork : Fork s.chain daemon.best.blocks q left joined)
    (hnew : newTip env s prevHeight currentTip fetchFrom daemon = .ok (sent, s')) :
    TipEffect env s daemon.best.blocks q.length sent s' := by
  rcases h.index with ⟨entries, hinv⟩
  rcases bind_eq_ok.mp hnew with ⟨store, hupdate, hrest⟩
  rcases hinv.exists_trace (mapError_eq_ok.mp hupdate) with ⟨x, rfl, ⟨tr⟩⟩
  have hinv' := hinv.update tr
  rcases bind_eq_ok.mp hrest with ⟨told, hnotify, hpure⟩
  have hdecodes := decodes_restServer env hinv'.valid.toIsChain daemon.toDaemon x.store s.mempool
  have hblock := blockAt_eq hinv' hdecodes daemon.inputs env.fmt
  have hdiverge := diverge_of_fork env.fmt hinv.valid.toIsChain hinv'.valid.toIsChain hfork
  rcases exists_notifyNewTip
    (some (queryBody env.fmt (restServer env daemon.toDaemon x.store s.mempool))) h.ring
    (h.firstHeld_le.trans_eq (length_tipBlocks env.fmt s.chain).symm)
    (tipBlocks_ne_nil env.fmt h.nonempty) (tipBlocks_ne_nil env.fmt daemon.best.nonempty)
    hdiverge hblock with ⟨recent, heq, hring⟩
  rw [length_tipBlocks, length_tipBlocks, <- hheight,
    <- bestHeight_eq hinv'.headers daemon.best.nonempty, hnotify] at heq
  cases heq
  cases pure_eq_ok.mp hpure
  rw [length_tipBlocks, <- firstHeld_cons h] at hring
  exact ⟨⟨_, rfl, rfl⟩, rfl, rfl, ⟨_, hinv'⟩, hring⟩

theorem follows_of_effect {fork : Nat} (heffect : TipEffect env s daemon.best.blocks fork sent s')
    (hphase : forall prevHeight prevTxids, s'.phase ≠ .started prevHeight prevTxids) :
    Follows env s' := by
  have hchain := heffect.chain_eq
  refine ⟨?_, ?_, ?_, ?_, ?_⟩
  · rw [hchain]
    exact daemon.best.nonempty
  · rw [hchain]
    exact heffect.index
  · rw [hchain]
    exact daemon.inputs
  · rw [hchain, heffect.chains_eq]
    exact heffect.ring
  · intro prevHeight prevTxids hstarted
    exact absurd hstarted (hphase prevHeight prevTxids)

structure Idle (s : RunServer) (sent : Sent) (s' : RunServer) : Prop where
  sent_eq : sent = []
  store_eq : s'.store = s.store
  mempool_eq : s'.mempool = s.mempool
  hub_eq : s'.hub = s.hub
  chains_eq : s'.chains = s.chains

theorem Follows.followTip_cases (h : Follows env s)
    (hstep : followTip env s currentTip fetchFrom daemon = .ok (sent, s')) :
    ((forall q left joined, Fork s.chain daemon.best.blocks q left joined ->
        TipEffect env s daemon.best.blocks q.length sent s') ∨ Idle s sent s') ∧
      forall prevHeight prevTxids, s'.phase ≠ .started prevHeight prevTxids := by
  unfold followTip at hstep
  split at hstep
  · rename_i prevHeight prevTxids hphase
    split at hstep
    · rcases bind_eq_ok.mp hstep with ⟨⟨sent₁, s₁⟩, hnew, hpure⟩
      cases pure_eq_ok.mp hpure
      refine ⟨Or.inl ?_, ?_⟩
      · intro q left joined hfork
        have heffect := h.newTip_effect (h.prevHeight_eq _ _ hphase) hfork hnew
        exact ⟨heffect.announced, heffect.mempool_eq, heffect.chains_eq, heffect.index,
          heffect.ring⟩
      · intro _ _ hstarted
        cases hstarted
    · cases hstep
      refine ⟨Or.inr ⟨rfl, rfl, rfl, rfl, rfl⟩, ?_⟩
      intro _ _ hstarted
      cases hstarted
  · rename_i hphase
    cases hstep
    exact ⟨Or.inr ⟨rfl, rfl, rfl, rfl, rfl⟩, hphase⟩

theorem Idle.chain_eq (h : Idle s sent s') : s'.chain = s.chain := by
  rw [chain, chain, h.chains_eq]

theorem Follows.exists_fork (h : Follows env s) (daemon : Daemon T) :
    exists q left joined, Fork s.chain daemon.best.blocks q left joined := by
  rcases h.index with ⟨entries, hinv⟩
  exact Splora.exists_fork hinv.valid.toIsChain daemon.best.valid.toIsChain

theorem Follows.followTip (h : Follows env s)
    (hstep : followTip env s currentTip fetchFrom daemon = .ok (sent, s')) :
    Follows env s' := by
  rcases h.followTip_cases hstep with ⟨heffect | hidle, hphase⟩
  · rcases h.exists_fork daemon.toDaemon with ⟨q, left, joined, hfork⟩
    exact follows_of_effect (heffect q left joined hfork) hphase
  · refine h.of_eq hidle.store_eq hidle.chains_eq ?_ ?_
    · rw [hidle.hub_eq]
    · intro prevHeight prevTxids hstarted
      exact absurd hstarted (hphase prevHeight prevTxids)

theorem Follows.startTurn (h : Follows env s) : Follows env (startTurn s) := by
  unfold RunServer.startTurn
  split
  · refine h.of_eq rfl rfl rfl ?_
    intro prevHeight prevTxids hstarted
    rcases h.index with ⟨entries, hinv⟩
    cases hstarted
    exact bestHeight_eq hinv.headers h.nonempty
  · exact h

theorem Follows.broadcast (h : Follows env s) {order : HashOrder} {rpc : MempoolRpc}
    {txid : Txid} (hstep : broadcast env s order rpc txid = .ok s') : Follows env s' := by
  rcases bind_eq_ok.mp hstep with ⟨result, _, hpure⟩
  cases pure_eq_ok.mp hpure
  exact h.of_eq rfl rfl rfl h.prevHeight_eq

theorem Follows.updateMempool (h : Follows env s) {order : HashOrder} {rpc : MempoolRpc}
    (hstep : updateMempool env s order rpc = .ok s') : Follows env s' := by
  unfold RunServer.updateMempool at hstep
  split at hstep
  · rcases bind_eq_ok.mp hstep with ⟨⟨mempool, result⟩, _, hrest⟩
    cases result with
    | error e =>
      cases pure_eq_ok.mp hrest
      exact h.of_eq rfl rfl rfl fun _ _ hstarted => nomatch hstarted
    | ok u =>
      cases pure_eq_ok.mp hrest
      exact h.of_eq rfl rfl rfl fun _ _ hstarted => nomatch hstarted
  · cases hstep
    exact h

theorem recentConfirmed_notifyChanges (query : Option (Text -> Option Value))
    (hub : MwckHub) (added removed : List Value) :
    (notifyChanges query hub added removed).2.recentConfirmed = hub.recentConfirmed := by
  unfold notifyChanges
  split
  · rfl
  · rfl

theorem Follows.reportMempool (h : Follows env s) {daemon : Daemon T}
    (hstep : reportMempool env s daemon = .ok (sent, s')) : Follows env s' := by
  unfold RunServer.reportMempool at hstep
  split at hstep
  · rcases bind_eq_ok.mp hstep with ⟨added, _, hrest⟩
    rcases bind_eq_ok.mp hrest with ⟨available, _, hpure⟩
    cases pure_eq_ok.mp hpure
    exact h.of_eq rfl rfl (recentConfirmed_notifyChanges _ _ _ _)
      fun _ _ hstarted => nomatch hstarted
  · cases hstep
    exact h

theorem Follows.setClientState (h : Follows env s) (id : Nat) (state : ClientState) :
    Follows env { s with hub := s.hub.setClientState id state } := by
  refine h.of_eq rfl rfl ?_ h.prevHeight_eq
  show (s.hub.setClientState id state).recentConfirmed = _
  unfold MwckHub.setClientState
  split
  · rfl
  · rfl

theorem Follows.step (h : Follows env s) {action : LoopAction env}
    (hstep : step env s action = .ok (sent, s')) : Follows env s' := by
  cases action with
  | registerSocket =>
    cases hstep
    exact h.of_eq rfl rfl rfl h.prevHeight_eq
  | setClientState id state =>
    cases hstep
    exact h.setClientState id state
  | detachClient id =>
    cases hstep
    exact h.of_eq rfl rfl rfl h.prevHeight_eq
  | rememberSnapshot txs =>
    cases hstep
    exact h.of_eq rfl rfl rfl h.prevHeight_eq
  | broadcast order rpc txid =>
    rcases bind_eq_ok.mp hstep with ⟨s₁, hbroadcast, hpure⟩
    cases pure_eq_ok.mp hpure
    exact h.broadcast hbroadcast
  | startTurn =>
    cases hstep
    exact h.startTurn
  | followTip currentTip fetchFrom daemon => exact h.followTip hstep
  | updateMempool order rpc =>
    rcases bind_eq_ok.mp hstep with ⟨s₁, hupdate, hpure⟩
    cases pure_eq_ok.mp hpure
    exact h.updateMempool hupdate
  | reportMempool daemon => exact h.reportMempool hstep

variable {actions : List (LoopAction env)}

theorem run_cons {action : LoopAction env} :
    run env s (action :: actions) = .ok s' <->
      exists sent s₁, step env s action = .ok (sent, s₁) ∧ run env s₁ actions = .ok s' := by
  unfold run
  rw [List.foldlM_cons]
  constructor
  · intro h
    rcases bind_eq_ok.mp h with ⟨s₁, hstep, hrun⟩
    rcases bind_eq_ok.mp hstep with ⟨⟨sent, s₂⟩, hstep, hpure⟩
    cases pure_eq_ok.mp hpure
    exact ⟨sent, s₁, hstep, hrun⟩
  · intro h
    rcases h with ⟨sent, s₁, hstep, hrun⟩
    exact bind_eq_ok.mpr ⟨s₁, bind_eq_ok.mpr ⟨(sent, s₁), hstep, rfl⟩, hrun⟩

theorem Follows.run (h : Follows env s) (hrun : run env s actions = .ok s') :
    Follows env s' := by
  induction actions generalizing s with
  | nil =>
    cases pure_eq_ok.mp hrun
    exact h
  | cons action actions ih =>
    rcases run_cons.mp hrun with ⟨sent, s₁, hstep, hrest⟩
    exact ih (h.step hstep) hrest

theorem full_of_mem_tipBlocks {fmt : TxFormat} {block : TipBlock}
    (hblock : block ∈ tipBlocks fmt blocks) {v : Value} (hv : v ∈ block.txs) :
    isFullTxObject v = true := by
  rcases List.mem_mapIdx.mp hblock with ⟨height, hlt, heq⟩
  rw [<- heq] at hv
  rcases List.mem_map.mp hv with ⟨tx, _, hvalue⟩
  rw [<- hvalue]
  exact fmt.full _

end Runs

namespace Sample

open NewIndex.Sample (coinbase payment header mempoolConfig)

def withRaw (tx : Transaction) (byte : UInt8) : Transaction :=
  { tx with raw := [byte] }

def firstCoinbase : Transaction :=
  withRaw (coinbase 101 [1]) 1

def secondCoinbase : Transaction :=
  withRaw (coinbase 102 [2]) 2

def spending : Transaction :=
  withRaw (payment 103 101 [3]) 3

def otherCoinbase : Transaction :=
  withRaw (coinbase 105 [5]) 5

def root : Block where
  header := header 1 nullHash
  txdata := [firstCoinbase]
  size := 200
  weight := 800

def tipA : Block where
  header := header 2 1
  txdata := [secondCoinbase, spending]
  size := 300
  weight := 1200

def tipB : Block where
  header := header 4 1
  txdata := [otherCoinbase]
  size := 200
  weight := 800

def tree : BlockTree :=
  BlockTree.ofList [root, tipA, tipB] (by decide) (by decide)

def deserialize (raw : Bytes) : Option Transaction :=
  [firstCoinbase, secondCoinbase, spending, otherCoinbase].find? fun tx => tx.raw = raw

def format : TxFormat where
  toValue value := .obj [ ("txid".toList, .str (txidText value.tx.txid)), ("vin".toList, .arr []),
    ("vout".toList, .arr (value.tx.output.map fun txo =>
      .obj [("scriptpubkey".toList, .str (Auth.hexEncode txo.scriptPubkey))]))]
  full _ := rfl
  txid _ := rfl

theorem deserialize_raw {hash : BlockHash} {b : Block} (hb : tree.block hash = some b) :
    forall tx, tx ∈ b.txdata -> deserialize tx.raw = some tx := by
  have hall : forall b, b ∈ [root, tipA, tipB] ->
      forall tx, tx ∈ b.txdata -> deserialize tx.raw = some tx := by decide
  have hfind : [root, tipA, tipB].find? (fun b => b.hash = hash) = some b := hb
  exact hall b (List.mem_of_find?_eq_some hfind)

def env : ServerEnv tree where
  cfg := mempoolConfig
  restDefaultMaxMempoolTxs := 50
  deserialize := deserialize
  deserialize_raw := deserialize_raw
  fmt := format

theorem validInputs_of_coinbases {blocks : List Block} (h : forall tx, tx ∈ chainTxs blocks ->
      tx.isCoinbase = true ∧ forall txi, txi ∈ tx.input -> hasPrevout txi = false) :
    ValidInputs env.cfg.toIndexerConfig blocks where
  spends := NewIndex.Sample.spendsEarlier_coinbases fun tx htx => (h tx htx).right
  inputs := by
    intro tx htx
    exact Or.inl (h tx htx).left

theorem validInputs_tipA : ValidInputs env.cfg.toIndexerConfig [root, tipA] where
  spends := by
    intro i tx htx txi htxi hprevout
    have hlt : i < 3 := (List.getElem?_eq_some_iff.mp htx).choose
    interval_cases i
    · cases htx
      rw [List.mem_singleton.mp htxi] at hprevout
      cases hprevout
    · cases htx
      rw [List.mem_singleton.mp htxi] at hprevout
      cases hprevout
    · cases htx
      rw [List.mem_singleton.mp htxi]
      exact ⟨0, firstCoinbase, { value := 50, scriptPubkey := [1] }, by decide, rfl, rfl,
        rfl, by decide⟩
  inputs := by decide

def daemonRoot : ValidDaemon env where
  toDaemon := NewIndex.Sample.daemonOf root [] ⟨⟨by decide, by decide⟩, by decide, by decide⟩
  inputs := validInputs_of_coinbases (by decide)

def daemonA : ValidDaemon env where
  toDaemon := NewIndex.Sample.daemonOf root [tipA] ⟨⟨by decide, by decide⟩, by decide, by decide⟩
  inputs := validInputs_tipA

def daemonB : ValidDaemon env where
  toDaemon := NewIndex.Sample.daemonOf root [tipB] ⟨⟨by decide, by decide⟩, by decide, by decide⟩
  inputs := validInputs_of_coinbases (by decide)

def subscriber : ClientState :=
  { ClientState.default with trackScriptpubkeys := ["03".toList] }

def subscribe : List (LoopAction env) :=
  [.registerSocket, .setClientState 1 subscriber, .startTurn]

def isSubscribed (hub : MwckHub) : Bool :=
  hub.clients[1]?.any fun client => client.out &&
    decide (client.state.matchKey (.scriptpubkey "03".toList) = some "03".toList)

theorem subscribed_of_isSubscribed {hub : MwckHub} (h : isSubscribed hub = true) :
    hub.Subscribed 1 (.scriptpubkey "03".toList) "03".toList := by
  rcases (Option.any_eq_true _ _).mp h with ⟨client, hclient, htests⟩
  rcases Bool.and_eq_true_iff.mp htests with ⟨hout, hkey⟩
  exact ⟨client, hclient, hout, of_decide_eq_true hkey⟩

end Sample

end RunServer
end Splora
