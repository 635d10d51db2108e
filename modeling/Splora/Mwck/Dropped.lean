import Splora.Mwck.BestChain

/-!
# Confirmed transactions that are reported as removed

A transaction that a new block confirms leaves the mempool index in the same turn, and is
reported as removed after it was reported as confirmed.  On a reorganization the transactions
that the new chain confirms again are reported as removed as well.
-/

namespace Splora
namespace Mwck

open Foundation Electrum

/-!
## The txids of what is reported
-/

def NamesTxids (bodies : Table Text Value compare) : Prop :=
  forall text v, bodies[text]? = some v -> txidOf v = some text

section Bodies

variable {bodies available : Table Text Value compare} {cache : MempoolTxBodies}
  {removed : List Value} {query : Option (Text -> Option Value)} {v : Value}

theorem namesTxids_empty : NamesTxids ∅ := by
  intro text v h
  rw [Std.ExtTreeMap.getElem?_empty] at h
  cases h

theorem NamesTxids.insert (h : NamesTxids bodies) {text : Text}
    (hv : txidOf v = some text) : NamesTxids (bodies.insert text v) := by
  intro text' v' hget
  rw [Std.ExtTreeMap.getElem?_insert] at hget
  split at hget
  · rename_i heq
    cases hget
    rw [hv, Std.LawfulEqCmp.eq_of_compare heq]
  · exact h text' v' hget

theorem NamesTxids.erase (h : NamesTxids bodies) (text : Text) :
    NamesTxids (bodies.erase text) := by
  intro text' v' hget
  rw [Std.ExtTreeMap.getElem?_erase] at hget
  split at hget
  · cases hget
  · exact h text' v' hget

theorem NamesTxids.foldl_erase (h : NamesTxids bodies) (texts : List Text) :
    NamesTxids (texts.foldl (fun bodies text => bodies.erase text) bodies) := by
  induction texts generalizing bodies with
  | nil => exact h
  | cons text texts ih => exact ih (h.erase text)

theorem txidOf_txidObject (text : Text) : txidOf (txidObject text) = some text :=
  rfl

theorem isFullTxObject_txidObject (text : Text) : isFullTxObject (txidObject text) = false :=
  rfl

theorem NamesTxids.makeRoom (h : NamesTxids bodies) (capacity : Nat) (order : List Text) :
    NamesTxids (EvictionQueue.makeRoom capacity bodies order).held := by
  induction order generalizing bodies with
  | nil => exact h
  | cons old order ih =>
    unfold EvictionQueue.makeRoom
    split
    · exact ih (h.erase old)
    · exact h

theorem namesTxids_rememberMempoolBody (h : NamesTxids cache.byTxid) (tx : Value) :
    NamesTxids (rememberMempoolBody cache tx).byTxid := by
  unfold rememberMempoolBody
  split
  · exact h
  · split
    · exact h
    · rename_i txid htxid
      split
      · exact h.insert htxid
      · exact (h.makeRoom _ _).insert htxid

theorem namesTxids_rememberMempoolBodies (h : NamesTxids cache.byTxid)
    (txs : List Value) : NamesTxids (rememberMempoolBodies cache txs).byTxid := by
  induction txs generalizing cache with
  | nil => exact h
  | cons tx txs ih => exact ih (namesTxids_rememberMempoolBody h tx)

def FindsOwn (find : Text -> Option Value) (w : Value) : Prop :=
  forall text v, txidOf w = some text -> find text = some v -> txidOf v = some text

variable {find : Text -> Option Value}

theorem NamesTxids.addAvailable (h : NamesTxids available) (hfind : FindsOwn find v) :
    NamesTxids (addAvailable find available v) := by
  unfold Mwck.addAvailable
  split
  · exact h
  · split
    · exact h
    · rename_i txid htxid
      split
      · rename_i full hfull
        exact h.insert (hfind txid full htxid hfull)
      · exact h

theorem NamesTxids.foldl_addAvailable (hfind : forall w, w ∈ removed -> FindsOwn find w)
    (step : Table Text Value compare -> Text -> Option Value)
    (hstep : forall available text v, step available text = some v -> find text = some v)
    (h : NamesTxids available) :
    NamesTxids (removed.foldl (fun available v =>
      Mwck.addAvailable (step available) available v) available) := by
  induction removed generalizing available with
  | nil => exact h
  | cons w removed ih =>
    refine ih (fun w' hw' => hfind w' (List.mem_cons_of_mem _ hw')) (h.addAvailable ?_)
    intro text v htext hv
    exact hfind w List.mem_cons_self text v htext (hstep available text v hv)

theorem namesTxids_availableBodies (h : NamesTxids cache.byTxid)
    (hfind : forall w, w ∈ removed -> FindsOwn find w) :
    NamesTxids (availableBodies (some find) cache removed) := by
  have hown : forall w, w ∈ removed -> FindsOwn (fun text => cache.byTxid[text]?) w :=
    fun _ _ text v _ hv => h text v hv
  have hknown := NamesTxids.foldl_addAvailable hown
    (fun _ text => cache.byTxid[text]?) (fun _ _ _ hv => hv) namesTxids_empty
  exact NamesTxids.foldl_addAvailable hfind
    (fun available text => if text ∈ available then none else find text)
    (fun _ _ _ hv => (Option.ite_none_left_eq_some.mp hv).right) hknown

theorem mem_preferFullRemoved (h : NamesTxids available)
    (hv : v ∈ preferFullRemoved removed available) :
    exists w, w ∈ removed ∧ txidOf v = txidOf w ∧ (isFullTxObject w = true -> v = w) := by
  rcases List.mem_map.mp hv with ⟨w, hw, heq⟩
  refine ⟨w, hw, ?_⟩
  cases hfull : isFullTxObject w with
  | true =>
    rw [hfull, if_pos rfl] at heq
    exact ⟨congrArg txidOf heq.symm, fun _ => heq.symm⟩
  | false =>
    refine ⟨?_, fun habsurd => nomatch habsurd⟩
    cases htxid : txidOf w with
    | none =>
      simp only [hfull, htxid] at heq
      rw [<- heq]
      exact htxid
    | some txid =>
      cases hget : available[txid]? with
      | none =>
        simp only [hfull, htxid, hget] at heq
        rw [<- heq]
        rfl
      | some full =>
        simp only [hfull, htxid, hget] at heq
        rw [<- heq]
        cases isFullTxObject full with
        | true => exact h txid full hget
        | false => rfl

theorem mem_preferFullRemoved_of_full (hv : v ∈ removed) (hfull : isFullTxObject v = true)
    (available : Table Text Value compare) : v ∈ preferFullRemoved removed available := by
  refine List.mem_map.mpr ⟨v, hv, ?_⟩
  rw [hfull]
  rfl

theorem mem_preferFullRemoved_of_stub {text : Text} (htext : txidObject text ∈ removed)
    (hget : available[text]? = some v) (hfull : isFullTxObject v = true) :
    v ∈ preferFullRemoved removed available := by
  refine List.mem_map.mpr ⟨txidObject text, htext, ?_⟩
  simp [isFullTxObject_txidObject, txidOf_txidObject, hget, hfull]

theorem eq_of_mem_preferFullRemoved {text : Text} {full : Value} (h : NamesTxids available)
    (hstubs : forall w, w ∈ removed -> exists text', w = txidObject text')
    (hget : available[text]? = some full) (hfull : isFullTxObject full = true)
    (hv : v ∈ preferFullRemoved removed available) (htxid : txidOf v = some text) :
    v = full := by
  rcases List.mem_map.mp hv with ⟨w, hw, heq⟩
  rcases hstubs w hw with ⟨text', hstub⟩
  rw [hstub] at heq
  simp only [isFullTxObject_txidObject, txidOf_txidObject] at heq
  have hsame : text' = text := by
    cases hget' : available[text']? with
    | none =>
      simp only [hget'] at heq
      rw [<- heq, if_neg Bool.false_ne_true] at htxid
      exact Option.some.inj htxid
    | some full' =>
      simp only [hget'] at heq
      cases hfull' : isFullTxObject full' with
      | true =>
        rw [<- heq, hfull', if_neg Bool.false_ne_true, if_pos rfl, h text' full' hget'] at htxid
        exact Option.some.inj htxid
      | false =>
        rw [<- heq, hfull', if_neg Bool.false_ne_true, if_neg Bool.false_ne_true] at htxid
        exact Option.some.inj htxid
  rw [<- heq, hsame, hget]
  exact if_pos hfull

end Bodies

theorem namesTxids_notifyMempool {hub : MwckHub} (query : Option (Text -> Option Value))
    (h : NamesTxids hub.mempoolTxBodies.byTxid) (added removed : List Value) :
    NamesTxids (hub.notifyMempool query added removed).2.mempoolTxBodies.byTxid :=
  (namesTxids_rememberMempoolBodies h added).foldl_erase _

theorem namesTxids_announce {hub : MwckHub} (query : Option (Text -> Option Value))
    (h : NamesTxids hub.mempoolTxBodies.byTxid) (orphaned : List Value)
    (blocks : List (List Value)) :
    NamesTxids (hub.announce query orphaned blocks).2.mempoolTxBodies.byTxid := by
  unfold MwckHub.announce
  dsimp only
  split
  · exact namesTxids_notifyMempool query h [] orphaned
  · exact h

end Mwck

namespace NewIndex

open Foundation

namespace Mempool

def Keyed (m : Mempool) : Prop :=
  forall (txid : Txid) (tx : Transaction), m.txstore[txid]? = some tx -> tx.txid = txid

section Keyed

variable {cfg : Config} {store : Store} {order : HashOrder} {rpc : MempoolRpc}
  {m m' : Mempool}

theorem keyed_new : Keyed new := by
  intro txid tx h
  rw [new, Std.ExtTreeMap.getElem?_empty] at h
  cases h

theorem Keyed.add (h : Keyed m) {txs : List Transaction} {processed : Nat}
    (hadd : add cfg store order m txs = .ok (m', processed)) : Keyed m' := by
  rcases exists_added cfg store order m txs with ⟨records, heq, _⟩
  rw [heq] at hadd
  cases hadd
  intro txid tx htx
  rw [foldl_index_txstore] at htx
  rcases storeTxs_source htx with hold | ⟨_, hnew⟩
  · exact h txid tx hold
  · exact hnew

theorem Keyed.remove (h : Keyed m) {toRemove : List Txid}
    (hremove : remove m toRemove = .ok m') : Keyed m' := by
  rcases remove_eq_ok.mp hremove with ⟨_, _, heq⟩
  rw [heq]
  intro txid tx htx
  rw [getElem?_dropTxids_txstore] at htx
  exact h txid tx (Option.ite_none_left_eq_some.mp htx).right

variable {result : Except MempoolError Unit}

theorem Keyed.update (h : Keyed m)
    (hupdate : update cfg store order rpc m = .ok (m', result)) : Keyed m' := by
  unfold Mempool.update at hupdate
  dsimp only at hupdate
  split at hupdate
  · cases hupdate
    exact h
  · rcases bind_eq_ok.mp hupdate with ⟨m₁, hremove, hrest⟩
    have hkeyed := h.remove hremove
    split at hrest
    · cases hrest
      exact hkeyed
    · rcases bind_eq_ok.mp hrest with ⟨⟨m₂, processed⟩, hadd, hpure⟩
      cases hpure
      exact hkeyed.add hadd

theorem Keyed.addByTxid (h : Keyed m) {txid : Txid}
    (hadd : addByTxid cfg store order rpc m txid = .ok (m', result)) : Keyed m' := by
  unfold Mempool.addByTxid at hadd
  split at hadd
  · cases hadd
    exact h
  · split at hadd
    · cases hadd
      exact h
    · rcases bind_eq_ok.mp hadd with ⟨⟨m₁, processed⟩, hadded, hrest⟩
      dsimp only at hrest
      split at hrest
      · cases hrest
        exact h.add hadded
      · cases hrest
        exact h.add hadded

end Keyed

end Mempool
end NewIndex

namespace RunServer

open Foundation NewIndex Mwck
open Electrum (Value)

section Runs

variable {T : BlockTree} {env : ServerEnv T} {s s' : RunServer} {sent : Sent}

structure Named (s : RunServer) : Prop where
  mempool : s.mempool.Keyed
  bodies : NamesTxids s.hub.mempoolTxBodies.byTxid

theorem named_start {events : List (Event T)} {rounds : List (HashOrder × MempoolRpc)}
    (hstart : start env events rounds = .ok s) : Named s := by
  rcases bind_eq_ok.mp hstart with ⟨store, _, hrest⟩
  rcases bind_eq_ok.mp hrest with ⟨mempool, hrounds, hpure⟩
  cases pure_eq_ok.mp hpure
  refine ⟨?_, namesTxids_empty⟩
  refine foldlM_ok_induct (P := fun m _ => Mempool.Keyed m) hrounds Mempool.keyed_new ?_
  intro m round _ m₁ hkeyed hround
  rcases bind_eq_ok.mp hround with ⟨⟨m₂, result⟩, hupdate, hpure⟩
  cases pure_eq_ok.mp hpure
  exact hkeyed.update (mapError_eq_ok.mp hupdate)

theorem namesTxids_notifyChanges {hub : MwckHub} (query : Option (Text -> Option Value))
    (h : NamesTxids hub.mempoolTxBodies.byTxid) (added removed : List Value) :
    NamesTxids (notifyChanges query hub added removed).2.mempoolTxBodies.byTxid := by
  unfold notifyChanges
  split
  · exact namesTxids_notifyMempool query h added removed
  · exact h

theorem Named.updateMempool (h : Named s) {order : HashOrder} {rpc : MempoolRpc}
    (hstep : updateMempool env s order rpc = .ok s') : Named s' := by
  unfold RunServer.updateMempool at hstep
  split at hstep
  · rcases bind_eq_ok.mp hstep with ⟨⟨mempool, result⟩, hupdate, hrest⟩
    have hkeyed := h.mempool.update (mapError_eq_ok.mp hupdate)
    cases result with
    | error e =>
      cases pure_eq_ok.mp hrest
      exact ⟨hkeyed, h.bodies⟩
    | ok u =>
      cases pure_eq_ok.mp hrest
      exact ⟨hkeyed, h.bodies⟩
  · cases hstep
    exact h

theorem Named.reportMempool (h : Named s) {daemon : Daemon T}
    (hstep : reportMempool env s daemon = .ok (sent, s')) : Named s' := by
  unfold RunServer.reportMempool at hstep
  split at hstep
  · rcases bind_eq_ok.mp hstep with ⟨added, _, hrest⟩
    rcases bind_eq_ok.mp hrest with ⟨available, _, hpure⟩
    cases pure_eq_ok.mp hpure
    exact ⟨h.mempool, namesTxids_notifyChanges _ h.bodies _ _⟩
  · cases hstep
    exact h

theorem Named.followTip (h : Named s) (hfollows : Follows env s) {currentTip : BlockHash}
    {fetchFrom : FetchFrom} {daemon : ValidDaemon env}
    (hstep : followTip env s currentTip fetchFrom daemon = .ok (sent, s')) : Named s' := by
  rcases (hfollows.followTip_cases hstep).left with heffect | hidle
  · rcases hfollows.exists_fork daemon.toDaemon with ⟨q, left, joined, hfork⟩
    have htip := heffect q left joined hfork
    rcases htip.announced with ⟨query, _, hbodies⟩
    refine ⟨?_, ?_⟩
    · rw [htip.mempool_eq]
      exact h.mempool
    · rw [hbodies]
      exact namesTxids_announce (some query) h.bodies _ _
  · refine ⟨?_, ?_⟩
    · rw [hidle.mempool_eq]
      exact h.mempool
    · rw [hidle.hub_eq]
      exact h.bodies

theorem Named.startTurn (h : Named s) : Named (startTurn s) := by
  unfold RunServer.startTurn
  split
  · exact ⟨h.mempool, h.bodies⟩
  · exact h

theorem Named.setClientState (h : Named s) (id : Nat) (state : ClientState) :
    Named { s with hub := s.hub.setClientState id state } := by
  refine ⟨h.mempool, ?_⟩
  show NamesTxids (s.hub.setClientState id state).mempoolTxBodies.byTxid
  unfold MwckHub.setClientState
  split
  · exact h.bodies
  · exact h.bodies

theorem Named.step (h : Named s) (hfollows : Follows env s) {action : LoopAction env}
    (hstep : step env s action = .ok (sent, s')) : Named s' := by
  cases action with
  | registerSocket =>
    cases hstep
    exact ⟨h.mempool, h.bodies⟩
  | setClientState id state =>
    cases hstep
    exact h.setClientState id state
  | detachClient id =>
    cases hstep
    exact ⟨h.mempool, h.bodies⟩
  | rememberSnapshot txs =>
    cases hstep
    exact ⟨h.mempool, namesTxids_rememberMempoolBodies h.bodies txs⟩
  | broadcast order rpc txid =>
    rcases bind_eq_ok.mp hstep with ⟨s₁, hbroadcast, hpure⟩
    cases pure_eq_ok.mp hpure
    rcases bind_eq_ok.mp hbroadcast with ⟨⟨mempool, result⟩, hadd, hpure⟩
    cases pure_eq_ok.mp hpure
    exact ⟨h.mempool.addByTxid (mapError_eq_ok.mp hadd), h.bodies⟩
  | startTurn =>
    cases hstep
    exact h.startTurn
  | followTip currentTip fetchFrom daemon => exact h.followTip hfollows hstep
  | updateMempool order rpc =>
    rcases bind_eq_ok.mp hstep with ⟨s₁, hupdate, hpure⟩
    cases pure_eq_ok.mp hpure
    exact h.updateMempool hupdate
  | reportMempool daemon => exact h.reportMempool hstep

theorem Named.run (h : Named s) (hfollows : Follows env s)
    {actions : List (LoopAction env)} (hrun : run env s actions = .ok s') : Named s' := by
  induction actions generalizing s with
  | nil =>
    cases pure_eq_ok.mp hrun
    exact h
  | cons action actions ih =>
    rcases run_cons.mp hrun with ⟨sent, s₁, hstep, hrest⟩
    exact ih (h.step hfollows hstep) (hfollows.step hstep) hrest

end Runs

/-- Reported as removed although the chain confirms it: it was in a remembered block that has left
the chain, or has left the mempool index. -/
inductive RemovesConfirmed {T : BlockTree} (env : ServerEnv T) (s s' : RunServer) :
    LoopAction env -> Value -> Prop
  | orphaned {currentTip : BlockHash} {fetchFrom : FetchFrom} {daemon : ValidDaemon env}
      {height : Nat} {b : Block} {tx : Transaction} (hheld : firstHeld s.chains ≤ height)
      (hblock : s.chain[height]? = some b) (hleft : s'.chain[height]? ≠ some b)
      (htx : tx ∈ b.txdata) (hconfirmed : tx.txid ∈ chainTxids s'.chain) :
      RemovesConfirmed env s s' (.followTip currentTip fetchFrom daemon)
        (env.fmt.toValue { tx := tx, status := some (BlockId.ofEntry (b.entryAt height)) })
  | leftMempool {daemon : Daemon T} {prevTxids : List Txid} {tx : Transaction}
      (hphase : s.phase = .updated prevTxids) (htx : tx ∈ chainTxs s.chain)
      (hprev : tx.txid ∈ prevTxids) (hnow : tx.txid ∉ s.mempool.uniqueTxids) :
      RemovesConfirmed env s s' (.reportMempool daemon)
        (env.fmt.toValue { tx := tx, status := none })

def NamesConfirmed (s : RunServer) (v : Value) : Prop :=
  exists txid, txid ∈ chainTxids s.chain ∧ txidOf v = some (txidText txid)

section Reports

variable {T : BlockTree} {env : ServerEnv T} {s s' : RunServer} {sent : Sent} {id : Nat}
  {sub : Subscription} {key : Text} {v : Value}

theorem mem_matching {txs : List Value} :
    v ∈ matching key txs <-> v ∈ txs ∧ txMatches v key = true :=
  List.mem_filter

theorem namesConfirmed_toValue {fmt : TxFormat} {value : Rest.TransactionValue} :
    NamesConfirmed s (fmt.toValue value) <-> value.tx.txid ∈ chainTxids s.chain := by
  constructor
  · intro h
    rcases h with ⟨txid, hmem, htxid⟩
    rw [fmt.txid] at htxid
    rw [txidText_inj (Option.some.inj htxid)]
    exact hmem
  · intro h
    exact ⟨value.tx.txid, h, fmt.txid value⟩

variable {blocks : List Block}

theorem mem_chainTxids {txid : Txid} :
    txid ∈ chainTxids blocks <->
      exists (height : Nat) (b : Block) (tx : Transaction),
        blocks[height]? = some b ∧ tx ∈ b.txdata ∧ tx.txid = txid := by
  constructor
  · intro h
    rcases List.mem_flatMap.mp h with ⟨b, hb, hmem⟩
    rcases List.mem_map.mp hmem with ⟨tx, htx, htxid⟩
    rcases List.getElem?_of_mem hb with ⟨height, hget⟩
    exact ⟨height, b, tx, hget, htx, htxid⟩
  · intro h
    rcases h with ⟨height, b, tx, hget, htx, htxid⟩
    exact List.mem_flatMap.mpr ⟨b, List.mem_of_getElem? hget, List.mem_map.mpr ⟨tx, htx, htxid⟩⟩

theorem mem_tipBlocks_drop {fmt : TxFormat} {first : Nat} :
    v ∈ ((tipBlocks fmt blocks).drop first).flatMap TipBlock.txs <->
      exists (height : Nat) (b : Block) (tx : Transaction),
        first ≤ height ∧ blocks[height]? = some b ∧ tx ∈ b.txdata ∧
        fmt.toValue { tx := tx, status := some (BlockId.ofEntry (b.entryAt height)) } =
          v := by
  constructor
  · intro h
    rcases List.mem_flatMap.mp h with ⟨block, hblock, hv⟩
    rcases List.getElem?_of_mem hblock with ⟨i, hget⟩
    rw [List.getElem?_drop, getElem?_tipBlocks] at hget
    rcases Option.map_eq_some_iff.mp hget with ⟨b, hb, heq⟩
    rw [<- heq] at hv
    rcases List.mem_map.mp hv with ⟨tx, htx, hvalue⟩
    exact ⟨first + i, b, tx, Nat.le_add_right _ _, hb, htx, hvalue⟩
  · intro h
    rcases h with ⟨height, b, tx, hle, hb, htx, hvalue⟩
    refine List.mem_flatMap.mpr ⟨{ hash := b.hash, txs := blockJson fmt b height }, ?_,
      List.mem_map.mpr ⟨tx, htx, hvalue⟩⟩
    refine List.mem_of_getElem? (i := height - first) ?_
    rw [List.getElem?_drop, Nat.add_sub_cancel' hle, getElem?_tipBlocks, hb]
    rfl

theorem replaced_iff {blocks' q left joined : List Block} {height : Nat} {b : Block}
    (hfork : Fork blocks blocks' q left joined) (hb : blocks[height]? = some b) :
    blocks'[height]? ≠ some b <-> q.length ≤ height := by
  constructor
  · intro hne
    refine Nat.le_of_not_lt ?_
    intro hlt
    rw [hfork.left_eq, List.getElem?_append_left hlt] at hb
    rw [hfork.right_eq, List.getElem?_append_left hlt] at hne
    exact hne hb
  · intro hle hb'
    rw [hfork.left_eq, List.getElem?_append_right hle] at hb
    exact hfork.removed b (List.mem_of_getElem? hb) (List.mem_of_getElem? hb')

theorem TipEffect.removed_iff {currentTip : BlockHash} {fetchFrom : FetchFrom}
    {daemon : ValidDaemon env} {q left joined : List Block}
    (h : TipEffect env s daemon.best.blocks q.length sent s')
    (hfork : Fork s.chain daemon.best.blocks q left joined)
    (hsub : s.hub.Subscribed id sub key) :
    v ∈ (sent.to id).flatMap (sub.listed .removed) ∧ NamesConfirmed s' v <->
      RemovesConfirmed env s s' (.followTip currentTip fetchFrom daemon) v ∧
        txMatches v key = true := by
  rcases h.announced with ⟨query, hsent, _⟩
  have hfull : forall w, w ∈ ((tipBlocks env.fmt s.chain).drop
      (max (firstHeld s.chains) q.length)).flatMap TipBlock.txs -> isFullTxObject w = true := by
    intro w hw
    rcases List.mem_flatMap.mp hw with ⟨block, hblock, hmem⟩
    exact full_of_mem_tipBlocks (List.mem_of_mem_drop hblock) hmem
  have hlisted := (listed_announce (some query) hsub hfull
    (((tipBlocks env.fmt daemon.best.blocks).drop (max (firstHeld s.chains) q.length)).map
      TipBlock.txs)).left .removed
  rw [announcement] at hsent
  rw [<- hsent] at hlisted
  rw [hlisted, TxBuckets.get, mem_matching, mem_tipBlocks_drop]
  rw [<- h.chain_eq] at hfork
  constructor
  · intro hlisted
    rcases hlisted with ⟨⟨⟨height, b, tx, hle, hb, htx, hvalue⟩, hmatches⟩, hnames⟩
    refine ⟨?_, hmatches⟩
    rw [<- hvalue] at hnames ⊢
    exact .orphaned (Nat.le_trans (Nat.le_max_left _ _) hle) hb
      ((replaced_iff hfork hb).mpr (Nat.le_trans (Nat.le_max_right _ _) hle)) htx
      (namesConfirmed_toValue.mp hnames)
  · intro hremoves
    rcases hremoves with ⟨hremoves, hmatches⟩
    cases hremoves with
    | @orphaned _ _ _ height b tx hheld hblock hleft htx hconfirmed =>
      have hle := (replaced_iff hfork hblock).mp hleft
      exact ⟨⟨⟨height, b, tx, Nat.max_le.mpr ⟨hheld, hle⟩, hblock, htx, rfl⟩, hmatches⟩,
        namesConfirmed_toValue.mpr hconfirmed⟩

variable {server : Rest.Server T} {txids : List Txid} {rows : List (Text × Value)}

theorem mem_foundBodies (h : foundBodies env server txids = .ok rows) {text : Text} :
    (text, v) ∈ rows <-> exists txid, txid ∈ txids ∧ txidText txid = text ∧
      lookupBody env.fmt server txid = .ok (some v) := by
  rcases bind_eq_ok.mp h with ⟨found, hfound, hpure⟩
  rw [<- pure_eq_ok.mp hpure, List.reduceOption_mem_iff, mem_of_mapM hfound]
  constructor
  · intro hrow
    rcases hrow with ⟨txid, htxid, hrow⟩
    rcases bind_eq_ok.mp hrow with ⟨full, hlookup, heq⟩
    rcases Option.map_eq_some_iff.mp (pure_eq_ok.mp heq) with ⟨v', hv', hpair⟩
    injection hpair with htext hvalue
    rw [hv', hvalue] at hlookup
    exact ⟨txid, htxid, htext, hlookup⟩
  · intro hrow
    rcases hrow with ⟨txid, htxid, htext, hlookup⟩
    refine ⟨txid, htxid, bind_eq_ok.mpr ⟨some v, hlookup, ?_⟩⟩
    rw [<- htext]
    rfl

theorem namesTxids_foundBodies (hkeyed : server.mempool.Keyed)
    (h : foundBodies env server txids = .ok rows) : NamesTxids (writeRows ∅ rows) := by
  intro text v hget
  rcases getElem?_writeRows_source hget with hempty | hrow
  · rw [Std.ExtTreeMap.getElem?_empty] at hempty
    cases hempty
  · rcases (mem_foundBodies h).mp hrow with ⟨txid, _, htext, hlookup⟩
    rw [<- htext]
    exact txidOf_lookupBody hkeyed hlookup

theorem getElem?_foundBodies (h : foundBodies env server txids = .ok rows) {txid : Txid}
    (htxid : txid ∈ txids) (hlookup : lookupBody env.fmt server txid = .ok (some v)) :
    (writeRows ∅ rows : Table Text Value compare)[txidText txid]? = some v := by
  refine getElem?_writeRows_of_mem _ ?_ ((mem_foundBodies h).mpr ⟨txid, htxid, rfl, hlookup⟩)
  intro text w w' hw hw'
  rcases (mem_foundBodies h).mp hw with ⟨txid₁, _, htext, hlookup₁⟩
  rcases (mem_foundBodies h).mp hw' with ⟨txid₂, _, htext', hlookup₂⟩
  rw [txidText_inj (htext.trans htext'.symm), hlookup₂] at hlookup₁
  cases hlookup₁
  rfl

theorem findsOwn_queryBody (hkeyed : server.mempool.Keyed) {txid : Txid}
    (hv : txidOf v = some (txidText txid)) :
    FindsOwn (queryBody env.fmt server) v := by
  intro text w htext hw
  rw [hv] at htext
  rw [<- Option.some.inj htext] at hw ⊢
  rw [queryBody, parseTxid_txidText, Option.bind_eq_bind, Option.bind_some] at hw
  rcases Option.bind_eq_some_iff.mp hw with ⟨found, hlookup, hfound⟩
  rw [hfound] at hlookup
  cases hbody : lookupBody env.fmt server txid with
  | error e =>
    rw [hbody] at hlookup
    cases hlookup
  | ok found' =>
    rw [hbody] at hlookup
    rw [Option.some.inj hlookup] at hbody
    exact txidOf_lookupBody hkeyed hbody

section Enriched

variable {server : Rest.Server T} {txids : List Txid} {rows : List (Text × Value)}
  {cache : MempoolTxBodies} {txid : Txid} {full : Value}

theorem mem_enrichRemoved (h : foundBodies env server txids = .ok rows)
    (htxid : txid ∈ txids) (hlookup : lookupBody env.fmt server txid = .ok (some full))
    (hfull : isFullTxObject full = true) (query : Option (Text -> Option Value))
    (cache : MempoolTxBodies) :
    full ∈ (enrichRemoved query cache (preferFullRemoved
      (txids.map fun txid => txidObject (txidText txid)) (writeRows ∅ rows))).1 := by
  refine mem_preferFullRemoved_of_full ?_ hfull _
  exact mem_preferFullRemoved_of_stub (List.mem_map.mpr ⟨txid, htxid, rfl⟩)
    (getElem?_foundBodies h htxid hlookup) hfull

theorem enrichRemoved_source (hkeyed : server.mempool.Keyed)
    (hcache : NamesTxids cache.byTxid) (h : foundBodies env server txids = .ok rows)
    (hlookup : lookupBody env.fmt server txid = .ok (some full))
    (hfull : isFullTxObject full = true)
    (hv : v ∈ (enrichRemoved (some (queryBody env.fmt server)) cache (preferFullRemoved
      (txids.map fun txid => txidObject (txidText txid)) (writeRows ∅ rows))).1)
    (hnames : txidOf v = some (txidText txid)) : txid ∈ txids ∧ v = full := by
  have hfound := namesTxids_foundBodies hkeyed h
  have htexts : forall w, w ∈ preferFullRemoved
      (txids.map fun txid => txidObject (txidText txid)) (writeRows ∅ rows) ->
        exists txid', txid' ∈ txids ∧ txidOf w = some (txidText txid') := by
    intro w hw
    rcases mem_preferFullRemoved hfound hw with ⟨u, hu, htxid, _⟩
    rcases List.mem_map.mp hu with ⟨txid', htxid', hstub⟩
    refine ⟨txid', htxid', ?_⟩
    rw [htxid, <- hstub]
    exact txidOf_txidObject _
  have hown : forall w, w ∈ preferFullRemoved
      (txids.map fun txid => txidObject (txidText txid)) (writeRows ∅ rows) ->
        FindsOwn (queryBody env.fmt server) w := by
    intro w hw
    rcases htexts w hw with ⟨txid', _, htxid'⟩
    exact findsOwn_queryBody hkeyed htxid'
  rcases mem_preferFullRemoved (namesTxids_availableBodies hcache hown) hv with
    ⟨w, hw, htxid, hsame⟩
  rcases htexts w hw with ⟨txid', htxid', hnames'⟩
  rw [hnames, hnames'] at htxid
  have heq := txidText_inj (Option.some.inj htxid)
  rw [<- heq] at htxid' hnames'
  have hwfull : w = full := by
    refine eq_of_mem_preferFullRemoved hfound ?_ (getElem?_foundBodies h htxid' hlookup)
      hfull hw hnames'
    intro u hu
    rcases List.mem_map.mp hu with ⟨txid'', _, hstub⟩
    exact ⟨_, hstub.symm⟩
  refine ⟨htxid', ?_⟩
  rw [hsame (hwfull ▸ hfull), hwfull]

end Enriched

theorem mem_notifyChanges_removed (hsub : s.hub.Subscribed id sub key)
    (query : Option (Text -> Option Value)) (added removed : List Value) :
    v ∈ ((notifyChanges query s.hub added removed).1.to id).flatMap (sub.listed .removed) <->
      v ∈ (enrichRemoved query (rememberMempoolBodies s.hub.mempoolTxBodies added)
        removed).1 ∧ txMatches v key = true := by
  unfold notifyChanges
  split
  · rw [listed_notifyMempool query hsub added removed .removed]
    exact mem_matching
  · rename_i hempty
    rw [Bool.not_eq_true, Bool.or_eq_false_iff, Bool.not_eq_false', Bool.not_eq_false',
      List.isEmpty_iff, List.isEmpty_iff] at hempty
    rw [hempty.right]
    constructor
    · intro h
      cases h
    · intro h
      cases h.left

theorem Follows.lookupBody_eq (h : Follows env s) (daemon : Daemon T) {height : Nat}
    {b : Block} (hb : s.chain[height]? = some b) {tx : Transaction} (htx : tx ∈ b.txdata) :
    lookupBody env.fmt (restServer env daemon s.store s.mempool) tx.txid =
      .ok (some (env.fmt.toValue { tx := tx, status := none })) := by
  rcases h.index with ⟨entries, hinv⟩
  have hdecodes := decodes_restServer env hinv.valid.toIsChain daemon s.store s.mempool
  exact lookupBody_of_mem hinv hdecodes h.inputs env.fmt hb htx

theorem reportMempool_removed_iff (hfollows : Follows env s) (hnamed : Named s)
    {daemon : Daemon T} (hstep : reportMempool env s daemon = .ok (sent, s'))
    (hsub : s.hub.Subscribed id sub key) :
    v ∈ (sent.to id).flatMap (sub.listed .removed) ∧ NamesConfirmed s' v <->
      RemovesConfirmed env s s' (.reportMempool daemon) v ∧ txMatches v key = true := by
  unfold RunServer.reportMempool at hstep
  split at hstep
  · rename_i prevTxids hphase
    rcases bind_eq_ok.mp hstep with ⟨added, _, hrest⟩
    rcases bind_eq_ok.mp hrest with ⟨available, havailable, hpure⟩
    cases pure_eq_ok.mp hpure
    rw [mem_notifyChanges_removed hsub]
    constructor
    · intro hlisted
      rcases hlisted with ⟨⟨henriched, hmatches⟩, ⟨txid, hconfirmed, htxid⟩⟩
      rcases mem_chainTxids.mp hconfirmed with ⟨height, b, tx, hb, htx, rfl⟩
      have hlookup := hfollows.lookupBody_eq daemon hb htx
      rcases enrichRemoved_source hnamed.mempool
        (namesTxids_rememberMempoolBodies hnamed.bodies _) havailable hlookup
        (env.fmt.full _) henriched htxid with ⟨hwent, heq⟩
      rcases List.mem_filter.mp hwent with ⟨hprev, hnow⟩
      rw [heq]
      rw [heq] at hmatches
      exact ⟨.leftMempool hphase (List.mem_flatMap.mpr ⟨b, List.mem_of_getElem? hb, htx⟩)
        hprev (of_decide_eq_true hnow), hmatches⟩
    · intro hremoves
      rcases hremoves with ⟨hremoves, hmatches⟩
      cases hremoves with
      | @leftMempool _ prevTxids' tx hupdated htx hprev hnow =>
        rw [hphase] at hupdated
        cases hupdated
        rcases List.mem_flatMap.mp htx with ⟨b, hmem, htx⟩
        rcases List.getElem?_of_mem hmem with ⟨height, hb⟩
        have hlookup := hfollows.lookupBody_eq daemon hb htx
        refine ⟨⟨mem_enrichRemoved havailable ?_ hlookup (env.fmt.full _) _ _, hmatches⟩, ?_⟩
        · exact List.mem_filter.mpr ⟨hprev, decide_eq_true hnow⟩
        · exact namesConfirmed_toValue.mpr (mem_chainTxids.mpr ⟨height, b, tx, hb, htx, rfl⟩)
  · rename_i hphase
    cases hstep
    constructor
    · intro h
      cases h.left
    · intro h
      rcases h with ⟨hremoves, _⟩
      cases hremoves with
      | leftMempool hupdated htx hprev hnow => exact absurd hupdated (hphase _)

theorem step_sent {action : LoopAction env} (hstep : step env s action = .ok (sent, s')) :
    (sent = [] ∧ forall v, ¬ RemovesConfirmed env s s' action v) ∨
      (exists currentTip fetchFrom daemon, action = .followTip currentTip fetchFrom daemon) ∨
      exists daemon, action = .reportMempool daemon := by
  cases action with
  | followTip currentTip fetchFrom daemon => exact Or.inr (Or.inl ⟨_, _, _, rfl⟩)
  | reportMempool daemon => exact Or.inr (Or.inr ⟨daemon, rfl⟩)
  | broadcast order rpc txid =>
    rcases bind_eq_ok.mp hstep with ⟨_, _, hpure⟩
    cases pure_eq_ok.mp hpure
    exact Or.inl ⟨rfl, nofun⟩
  | updateMempool order rpc =>
    rcases bind_eq_ok.mp hstep with ⟨_, _, hpure⟩
    cases pure_eq_ok.mp hpure
    exact Or.inl ⟨rfl, nofun⟩
  | _ =>
    cases hstep
    exact Or.inl ⟨rfl, nofun⟩

theorem removed_iff (hfollows : Follows env s) (hnamed : Named s) {action : LoopAction env}
    (hstep : step env s action = .ok (sent, s')) (hsub : s.hub.Subscribed id sub key) :
    v ∈ (sent.to id).flatMap (sub.listed .removed) ∧ NamesConfirmed s' v <->
      RemovesConfirmed env s s' action v ∧ txMatches v key = true := by
  have hsilent : sent = [] -> (forall v, ¬ RemovesConfirmed env s s' action v) ->
      (v ∈ (sent.to id).flatMap (sub.listed .removed) ∧ NamesConfirmed s' v <->
        RemovesConfirmed env s s' action v ∧ txMatches v key = true) := by
    rintro rfl hnone
    exact iff_of_false (fun h => nomatch h.left) fun h => hnone v h.left
  rcases step_sent hstep with ⟨hsent, hnone⟩ | ⟨currentTip, fetchFrom, daemon, rfl⟩ | ⟨daemon, rfl⟩
  · exact hsilent hsent hnone
  · rcases (hfollows.followTip_cases hstep).left with heffect | hidle
    · rcases hfollows.exists_fork daemon.toDaemon with ⟨q, left, joined, hfork⟩
      exact (heffect q left joined hfork).removed_iff hfork hsub
    · refine hsilent hidle.sent_eq ?_
      intro v h
      cases h with
      | orphaned hheld hblock hleft htx hconfirmed =>
        rw [hidle.chain_eq] at hleft
        exact hleft hblock
  · exact reportMempool_removed_iff hfollows hnamed hstep hsub

end Reports

/-- At each step of a run: no client is sent a removal of a confirmed transaction exactly if no
subscription matches one of a remembered block that leaves the chain, or one that has left the
mempool index in this turn. -/
theorem confirmed_not_removed_iff {T : BlockTree} {env : ServerEnv T}
    {events : List (Event T)} {rounds : List (HashOrder × MempoolRpc)}
    {actions : List (LoopAction env)} {action : LoopAction env} {s₀ s s' : RunServer}
    {sent : Sent} (hstart : start env events rounds = .ok s₀) (hne : lastBest events ≠ [])
    (hinputs : ValidInputs env.cfg.toIndexerConfig (lastBest events))
    (hrun : run env s₀ actions = .ok s) (hstep : step env s action = .ok (sent, s')) :
    (forall id sub key, s.hub.Subscribed id sub key ->
      forall v, v ∈ (sent.to id).flatMap (sub.listed .removed) ->
        forall txid, txid ∈ chainTxids s'.chain -> txidOf v ≠ some (txidText txid)) <->
    forall id sub key, s.hub.Subscribed id sub key ->
      forall v, RemovesConfirmed env s s' action v -> txMatches v key = false := by
  have hfollows₀ := follows_start hstart hne hinputs
  have hfollows := hfollows₀.run hrun
  have hnamed := (named_start hstart).run hfollows₀ hrun
  constructor
  · intro h id sub key hsub v hremoves
    refine Bool.eq_false_iff.mpr ?_
    intro hmatches
    rcases (removed_iff hfollows hnamed hstep hsub).mpr ⟨hremoves, hmatches⟩ with
      ⟨hlisted, txid, hconfirmed, htxid⟩
    exact h id sub key hsub v hlisted txid hconfirmed htxid
  · intro h id sub key hsub v hlisted txid hconfirmed htxid
    rcases (removed_iff hfollows hnamed hstep hsub).mp
      ⟨hlisted, txid, hconfirmed, htxid⟩ with ⟨hremoves, hmatches⟩
    rw [h id sub key hsub v hremoves] at hmatches
    cases hmatches

namespace Sample

def mempoolOf (txs : List Transaction) : MempoolRpc where
  getmempooltxids := some (txs.map Transaction.txid)
  gettransactions txids := some (txs.filter fun tx => tx.txid ∈ txids)
  getmempooltx txid := txs.find? fun tx => tx.txid = txid

def evict : List (LoopAction env) :=
  subscribe ++ [.rememberSnapshot [format.toValue { tx := spending, status := none }],
    .followTip 1 .bitcoind daemonRoot, .updateMempool .ascending (mempoolOf [])]

def updatedTxids : LoopPhase -> List Txid
  | .updated prevTxids => prevTxids
  | _ => []

theorem not_removesConfirmed {s s' : RunServer} {v : Value} (htxids : updatedTxids s.phase = [103])
    (hs : s.chain = [root]) :
    ¬ RemovesConfirmed env s s' (.reportMempool daemonRoot.toDaemon) v := by
  intro hremoves
  cases hremoves with
  | @leftMempool _ prevTxids tx hphase htx hprev hnow =>
    rw [hphase, updatedTxids] at htxids
    rw [hs] at htx
    rw [htxids, List.mem_singleton.mp htx] at hprev
    exact absurd hprev (by decide)

theorem dropped_reported_removed :
    exists s₀ s s' sent, start env [.update .bitcoind daemonRoot.toDaemon]
        [(.ascending, mempoolOf [spending])] = .ok s₀ ∧
      run env s₀ evict = .ok s ∧
      step env s (.reportMempool daemonRoot.toDaemon) = .ok (sent, s') ∧
      (sent.to 1).length = 1 ∧
      forall id sub key, s.hub.Subscribed id sub key ->
        forall v, v ∈ (sent.to id).flatMap (sub.listed .removed) ->
          forall txid, txid ∈ chainTxids s'.chain -> txidOf v ≠ some (txidText txid) := by
  have heval : exists s₀, start env [.update .bitcoind daemonRoot.toDaemon]
        [(.ascending, mempoolOf [spending])] = .ok s₀ ∧
      exists s, run env s₀ evict = .ok s ∧
      exists r, step env s (.reportMempool daemonRoot.toDaemon) = .ok r ∧
        updatedTxids s.phase = [103] ∧ s.chain = [root] ∧ (r.1.to 1).length = 1 := by
    decide +kernel
  rcases heval with ⟨s₀, hstart, s, hrun, ⟨sent, s'⟩, hstep, htxids, hs, hlength⟩
  refine ⟨s₀, s, s', sent, hstart, hrun, hstep, hlength, ?_⟩
  refine (confirmed_not_removed_iff hstart (by decide) daemonRoot.inputs hrun hstep).mpr ?_
  intro id sub key _ v hremoves
  exact absurd hremoves (not_removesConfirmed htxids hs)

def confirm : List (LoopAction env) :=
  subscribe ++ [.followTip 2 .bitcoind daemonA, .updateMempool .ascending (mempoolOf [])]

theorem confirmed_reported_removed :
    exists s₀ s s' sent, start env [.update .bitcoind daemonRoot.toDaemon]
        [(.ascending, mempoolOf [spending])] = .ok s₀ ∧
      run env s₀ confirm = .ok s ∧
      step env s (.reportMempool daemonA.toDaemon) = .ok (sent, s') ∧
      s.hub.Subscribed 1 (.scriptpubkey "03".toList) "03".toList ∧
      spending.txid ∈ chainTxids s'.chain ∧
      exists v, v ∈ (sent.to 1).flatMap (Subscription.listed (.scriptpubkey "03".toList) .removed) ∧
        txidOf v = some (txidText spending.txid) := by
  have heval : exists s₀, start env [.update .bitcoind daemonRoot.toDaemon]
        [(.ascending, mempoolOf [spending])] = .ok s₀ ∧
      exists s, run env s₀ confirm = .ok s ∧
      exists r, step env s (.reportMempool daemonA.toDaemon) = .ok r ∧
        isSubscribed s.hub = true ∧ spending.txid ∈ chainTxids r.2.chain ∧
        exists v, v ∈ (r.1.to 1).flatMap
            (Subscription.listed (.scriptpubkey "03".toList) .removed) ∧
          txidOf v = some (txidText spending.txid) := by
    decide +kernel
  rcases heval with ⟨s₀, hstart, s, hrun, ⟨sent, s'⟩, hstep, hsub, htests⟩
  exact ⟨s₀, s, s', sent, hstart, hrun, hstep, subscribed_of_isSubscribed hsub, htests⟩

end Sample

end RunServer
end Splora
