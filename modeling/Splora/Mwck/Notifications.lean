import Splora.Mwck.Dropped

/-!
# Block notifications

Between two new tips a client is sent mempool reports.  As long as they list no confirmed
transaction, a client is told of a new tip what the messages about it say.
-/

namespace Splora
namespace RunServer

open Foundation NewIndex Mwck
open Electrum (Value)

/-- Steps without a call of `notify_new_tip`, and what they send.  The subscription stays, and
matches no confirmed transaction that a step reports as removed. -/
inductive Between {T : BlockTree} (env : ServerEnv T) (id : Nat) (sub : Subscription)
    (key : Text) (s₀ : RunServer) : Sent -> RunServer -> Prop
  | start : Between env id sub key s₀ [] s₀
  | step {before sent : Sent} {s s' : RunServer} {action : LoopAction env}
      (hbefore : Between env id sub key s₀ before s) (hsub : s.hub.Subscribed id sub key)
      (hstep : step env s action = .ok (sent, s')) (hchains : s'.chains = s.chains)
      (hremoves : forall v, RemovesConfirmed env s s' action v -> txMatches v key = false) :
      Between env id sub key s₀ (before ++ sent) s'

section Notifications

variable {T : BlockTree} {env : ServerEnv T} {s₀ s s' : RunServer} {before sent : Sent}
  {id : Nat} {sub : Subscription} {key : Text}

theorem listed_notifyChanges_confirmed (hsub : s.hub.Subscribed id sub key)
    (query : Option (Text -> Option Value)) (added removed : List Value) :
    ((notifyChanges query s.hub added removed).1.to id).flatMap (sub.listed .confirmed) = [] := by
  unfold notifyChanges
  split
  · exact listed_notifyMempool query hsub added removed .confirmed
  · rfl

theorem reportMempool_confirmed {daemon : Daemon T} (hsub : s.hub.Subscribed id sub key)
    (hstep : reportMempool env s daemon = .ok (sent, s')) :
    (sent.to id).flatMap (sub.listed .confirmed) = [] := by
  unfold RunServer.reportMempool at hstep
  split at hstep
  · rcases bind_eq_ok.mp hstep with ⟨added, _, hrest⟩
    rcases bind_eq_ok.mp hrest with ⟨available, _, hpure⟩
    cases pure_eq_ok.mp hpure
    exact listed_notifyChanges_confirmed hsub _ _ _
  · cases hstep
    rfl

theorem step_confirmed {action : LoopAction env} (hfollows : Follows env s)
    (hsub : s.hub.Subscribed id sub key) (hstep : step env s action = .ok (sent, s'))
    (hchains : s'.chains = s.chains) : (sent.to id).flatMap (sub.listed .confirmed) = [] := by
  rcases step_sent hstep with ⟨rfl, _⟩ | ⟨currentTip, fetchFrom, daemon, rfl⟩ | ⟨daemon, rfl⟩
  · rfl
  · rcases (hfollows.followTip_cases hstep).left with heffect | hidle
    · rcases hfollows.exists_fork daemon.toDaemon with ⟨q, left, joined, hfork⟩
      rw [(heffect q left joined hfork).chains_eq] at hchains
      exact absurd hchains (List.cons_ne_self _ _)
    · rw [hidle.sent_eq]
      rfl
  · exact reportMempool_confirmed hsub hstep

/-- What the messages of such steps leave to the next new tip. -/
structure Silent (env : ServerEnv T) (id : Nat) (sub : Subscription) (before : Sent)
    (s : RunServer) : Prop where
  follows : Follows env s
  named : Named s
  confirmed : (before.to id).flatMap (sub.listed .confirmed) = []
  removed : forall v, v ∈ (before.to id).flatMap (sub.listed .removed) -> ¬ NamesConfirmed s v

theorem Between.silent (h : Between env id sub key s₀ before s) (hfollows : Follows env s₀)
    (hnamed : Named s₀) : Silent env id sub before s := by
  induction h with
  | start => exact ⟨hfollows, hnamed, rfl, fun v hv => nomatch hv⟩
  | @step before sent s s' action hbefore hsub hstep hchains hremoves ih =>
    have hchain : s'.chain = s.chain := by
      rw [chain, chain, hchains]
    refine ⟨ih.follows.step hstep, ih.named.step ih.follows hstep, ?_, ?_⟩
    · rw [Sent.to_append, List.flatMap_append, ih.confirmed,
        step_confirmed ih.follows hsub hstep hchains]
      rfl
    · intro v hv hnames
      rw [Sent.to_append, List.flatMap_append] at hv
      rcases List.mem_append.mp hv with hbefore | hsent
      · rw [NamesConfirmed, hchain] at hnames
        exact ih.removed v hbefore hnames
      · rcases (removed_iff ih.follows ih.named hstep hsub).mp ⟨hsent, hnames⟩ with
          ⟨hconfirmed, hmatches⟩
        rw [hremoves v hconfirmed] at hmatches
        cases hmatches

theorem Silent.told_append_iff (h : Silent env id sub before s) (messages : List Value)
    (first : Nat) (confirmations : List Value) :
    Told sub (before.to id ++ messages)
        (matching key (((tipBlocks env.fmt s.chain).drop first).flatMap TipBlock.txs))
        confirmations <->
      Told sub messages
        (matching key (((tipBlocks env.fmt s.chain).drop first).flatMap TipBlock.txs))
        confirmations := by
  refine told_append h.confirmed ?_
  intro v hv hmem
  rcases List.mem_map.mp hmem with ⟨w, hw, htxid⟩
  rcases mem_tipBlocks_drop.mp (mem_matching.mp hw).left with
    ⟨height, b, tx, _, hb, htx, hvalue⟩
  refine h.removed v hv ⟨tx.txid, mem_chainTxids.mpr ⟨height, b, tx, hb, htx, rfl⟩, ?_⟩
  rw [<- htxid, <- hvalue]
  exact env.fmt.txid _

variable {events : List (Event T)} {rounds : List (HashOrder × MempoolRpc)}
  {actions : List (LoopAction env)} {s₁ : RunServer}

/-- When the best chain changes, the messages since the last new tip tell a subscriber of every
matching transaction that left or joined, once and the removals first, exactly if nothing matches
between the fork and the first height that the hub remembers. -/
theorem block_notifications_iff (hstart : start env events rounds = .ok s₀)
    (hne : lastBest events ≠ [])
    (hinputs : ValidInputs env.cfg.toIndexerConfig (lastBest events))
    (hrun : run env s₀ actions = .ok s₁) (hbetween : Between env id sub key s₁ before s)
    {currentTip : BlockHash} {fetchFrom : FetchFrom} {daemon : ValidDaemon env}
    (hstep : step env s (.followTip currentTip fetchFrom daemon) = .ok (sent, s'))
    {q left joined : List Block} (hfork : Fork s.chain s'.chain q left joined)
    (hsub : s.hub.Subscribed id sub key) :
    Told sub ((before ++ sent).to id)
        (matching key (((tipBlocks env.fmt s.chain).drop q.length).flatMap TipBlock.txs))
        (matching key (((tipBlocks env.fmt s'.chain).drop q.length).flatMap TipBlock.txs)) <->
      forall height block, q.length ≤ height -> height < firstHeld s.chains ->
        (tipBlocks env.fmt s.chain)[height]? = some block ∨
          (tipBlocks env.fmt s'.chain)[height]? = some block ->
        matching key block.txs = [] := by
  have hfollows₀ := follows_start hstart hne hinputs
  have hsilent := hbetween.silent (hfollows₀.run hrun) ((named_start hstart).run hfollows₀ hrun)
  have hfollows := hsilent.follows
  rw [Sent.to_append, hsilent.told_append_iff]
  rcases (hfollows.followTip_cases hstep).left with heffect | hidle
  · rcases hfollows.exists_fork daemon.toDaemon with ⟨q', left', joined', hfork'⟩
    rw [(heffect q' left' joined' hfork').chain_eq] at hfork ⊢
    rcases (heffect q left joined hfork).announced with ⟨query, hsent, _⟩
    rw [hsent]
    exact told_announce_iff hsub (some query)
      (fun block hblock v hv => full_of_mem_tipBlocks hblock hv) _ _ _
  · rw [hidle.chain_eq] at hfork ⊢
    have hlength := length_eq_of_fork_self hfork
    rw [hidle.sent_eq, hlength, <- length_tipBlocks env.fmt, List.drop_length]
    constructor
    · intro _ height block hle hlt
      rw [length_tipBlocks] at hle
      exact absurd hfollows.firstHeld_le (by omega)
    · intro _
      exact ⟨List.Perm.nil, List.Perm.nil, List.Pairwise.nil⟩

end Notifications

namespace Sample

/-- The tip at the start is replaced, and the client hears of neither block. -/
theorem replaced_initial_tip_not_told :
    exists s₀ s s' sent, start env [.update .bitcoind daemonA.toDaemon] [] = .ok s₀ ∧
      run env s₀ subscribe = .ok s ∧
      step env s (.followTip 4 .bitcoind daemonB) = .ok (sent, s') ∧
      Fork s.chain s'.chain [root] [tipA] [tipB] ∧
      s.hub.Subscribed 1 (.scriptpubkey "03".toList) "03".toList ∧
      ¬ Told (.scriptpubkey "03".toList) (sent.to 1) (matching "03".toList
          (((tipBlocks env.fmt s.chain).drop [root].length).flatMap TipBlock.txs))
        (matching "03".toList
          (((tipBlocks env.fmt s'.chain).drop [root].length).flatMap TipBlock.txs)) := by
  have heval : exists s₀, start env [.update .bitcoind daemonA.toDaemon] [] = .ok s₀ ∧
      exists s, run env s₀ subscribe = .ok s ∧
      exists r, step env s (.followTip 4 .bitcoind daemonB) = .ok r ∧ s.chain = [root, tipA] ∧
      r.2.chain = [root, tipB] ∧ isSubscribed s.hub = true ∧ r.1.isEmpty = true := by
    decide +kernel
  rcases heval with
    ⟨s₀, hstart, s, hrun, ⟨sent, s'⟩, hstep, hs, hs', hsub, hempty⟩
  have hsent : sent = [] := List.isEmpty_iff.mp hempty
  refine ⟨s₀, s, s', sent, hstart, hrun, hstep, ?_, subscribed_of_isSubscribed hsub, ?_⟩
  · rw [hs, hs']
    exact ⟨rfl, rfl, by decide, by decide⟩
  · intro htold
    have hlength := htold.removed.length_eq
    rw [hs, hsent] at hlength
    exact absurd hlength (by decide)

theorem startTurn_eq (s : RunServer) :
    (startTurn s).hub = s.hub ∧ (startTurn s).chains = s.chains := by
  unfold RunServer.startTurn
  split
  · exact ⟨rfl, rfl⟩
  · exact ⟨rfl, rfl⟩

/-- A mempool report tells the client that the payment was dropped; then a block has it. -/
theorem new_block_told :
    exists s₀ s₁ s s' before sent, start env [.update .bitcoind daemonRoot.toDaemon]
        [(.ascending, mempoolOf [spending])] = .ok s₀ ∧
      run env s₀ evict = .ok s₁ ∧
      Between env 1 (.scriptpubkey "03".toList) "03".toList s₁ before s ∧
      (before.to 1).length = 1 ∧
      step env s (.followTip 2 .bitcoind daemonA) = .ok (sent, s') ∧
      Fork s.chain s'.chain [root] [] [tipA] ∧
      Told (.scriptpubkey "03".toList) ((before ++ sent).to 1) (matching "03".toList
          (((tipBlocks env.fmt s.chain).drop [root].length).flatMap TipBlock.txs))
        (matching "03".toList
          (((tipBlocks env.fmt s'.chain).drop [root].length).flatMap TipBlock.txs)) := by
  have heval : exists s₀, start env [.update .bitcoind daemonRoot.toDaemon]
        [(.ascending, mempoolOf [spending])] = .ok s₀ ∧
      exists s₁, run env s₀ evict = .ok s₁ ∧
        (isSubscribed s₁.hub = true ∧ updatedTxids s₁.phase = [103] ∧ s₁.chains = [[root]]) ∧
      exists r₁, step env s₁ (.reportMempool daemonRoot.toDaemon) = .ok r₁ ∧
        ((r₁.1.to 1).length = 1 ∧ isSubscribed r₁.2.hub = true ∧ r₁.2.chains = [[root]]) ∧
      exists r, step env (startTurn r₁.2) (.followTip 2 .bitcoind daemonA) = .ok r ∧
        r.2.chain = [root, tipA] := by
    decide +kernel
  rcases heval with ⟨s₀, hstart, s₁, hrun, ⟨hsub₁, htxids, hs₁⟩, ⟨before, s₂⟩, hreport,
    ⟨hlength, hsub₂, hs₂⟩, ⟨sent, s'⟩, hstep, hs'⟩
  rcases startTurn_eq s₂ with ⟨hhub, hchains⟩
  have hquiet : forall v, RemovesConfirmed env s₁ s₂ (.reportMempool daemonRoot.toDaemon) v ->
      txMatches v "03".toList = false := by
    intro v hremoves
    have hchain : s₁.chain = [root] := by
      rw [chain, hs₁]
      rfl
    exact absurd hremoves (not_removesConfirmed htxids hchain)
  have hturn : step env s₂ .startTurn = .ok ([], startTurn s₂) := rfl
  have hnone : forall v, RemovesConfirmed env s₂ (startTurn s₂) .startTurn v ->
      txMatches v "03".toList = false := by
    intro v hremoves
    cases hremoves
  have hbetween := (Between.start.step (subscribed_of_isSubscribed hsub₁) hreport
    (hs₂.trans hs₁.symm) hquiet).step (subscribed_of_isSubscribed hsub₂) hturn
    hchains hnone
  have hfork : Fork (startTurn s₂).chain s'.chain [root] [] [tipA] := by
    rw [chain, hchains, hs₂, hs']
    exact ⟨rfl, rfl, by decide, by decide⟩
  refine ⟨s₀, s₁, startTurn s₂, s', _, sent, hstart, hrun, hbetween, ?_, hstep, hfork, ?_⟩
  · rw [List.nil_append, List.append_nil]
    exact hlength
  · refine (block_notifications_iff hstart (by decide) daemonRoot.inputs hrun hbetween hstep hfork
      (Subscribed.of_clients (subscribed_of_isSubscribed hsub₂) (congrArg _ hhub))).mpr ?_
    intro height block hle hlt
    rw [hchains, hs₂] at hlt
    exact absurd hle (Nat.not_le.mpr hlt)

end Sample

end RunServer
end Splora
