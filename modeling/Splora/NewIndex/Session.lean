import Splora.NewIndex.Prevouts
import Splora.NewIndex.Utxo

/-!
# Queries between updates

Updates and restarts with calls of `stats` and `utxo` between them.  Every entry that a call
writes is right for the chain that ends with its block, so the answers never depend on the
cache.
-/

namespace Splora
namespace NewIndex

open Foundation

inductive Request (T : BlockTree) where
  | index (event : Event T)
  | stats (scripthash : FullHash)
  | utxo (scripthash : FullHash) (limit : UInt64)

/-- A `utxo` call that exceeds a limit is answered with an error. -/
def serveStep (cfg : IndexerConfig) (store : Store) :
    Request T -> Except Abort Store
  | .index event => step cfg store event
  | .stats scripthash => .ok (ChainQuery.stats store scripthash).2
  | .utxo scripthash limit =>
    match ChainQuery.utxo store scripthash limit with
    | .ok (_, store) => .ok store
    | .error (.tooManyUtxos _) => .ok store
    | .error (.tooManyTxs _) => .ok store
    | .error e => .error e

def serve (cfg : IndexerConfig) (requests : List (Request T)) :
    Except Abort Store := do
  let store <- Store.openStore cfg Disk.empty
  requests.foldlM (serveStep cfg) store

def Request.event? : Request T -> Option (Event T)
  | .index event => some event
  | _ => none

def indexEvents (requests : List (Request T)) : List (Event T) :=
  requests.filterMap Request.event?

def ExactSession (cfg : IndexerConfig) (requests : List (Request T)) : Prop :=
  forall pre fetchFrom daemon store, pre ++ [.index (.update fetchFrom daemon)] <+: requests ->
    serve cfg (pre ++ [.index (.update fetchFrom daemon)]) = .ok store ->
      HoldsBestChain T cfg store daemon.best.blocks

section Step

variable {T : BlockTree} {cfg : IndexerConfig} {store store' : Store}
  {requests : List (Request T)}

theorem serve_append_singleton {request : Request T} :
    serve cfg (requests ++ [request]) = .ok store <->
      exists store', serve cfg requests = .ok store' ∧
        serveStep cfg store' request = .ok store := by
  have hconcat : serve cfg (requests ++ [request]) =
      serve cfg requests >>= fun store => serveStep cfg store request := by
    simp [serve, List.foldlM_append]
  rw [hconcat, bind_eq_ok]

theorem Disk.Verified.openStore_disk {disk : Disk} (h : disk.Verified cfg)
    (hopen : Store.openStore cfg disk = .ok store) : store.disk = disk := by
  rcases bind_eq_ok.mp hopen with ⟨disk', hverify, hrest⟩
  rw [h.verify_eq] at hverify
  cases hverify
  rcases bind_eq_ok.mp hrest with ⟨headers, _, hpure⟩
  rw [← pure_eq_ok.mp hpure]

def EntryRight (T : BlockTree) (cfg : IndexerConfig) :
    CacheKey -> CacheValue -> Prop
  | .stats scripthash, .stats stats blockhash =>
    StatsEntry T cfg scripthash stats blockhash
  | .utxo scripthash, .utxos utxos blockhash =>
    UtxoEntry T cfg scripthash utxos blockhash
  | _, _ => True

def CacheRight (T : BlockTree) (cfg : IndexerConfig) (store : Store) : Prop :=
  forall key value, store.disk.cache[key]? = some value -> EntryRight T cfg key value

theorem CacheRight.putCache (h : CacheRight T cfg store) {key : CacheKey}
    {value : CacheValue} (hentry : EntryRight T cfg key value) :
    CacheRight T cfg (ChainQuery.putCache store key value) := by
  intro key' value' hvalue
  by_cases hkey : key = key'
  · subst hkey
    have heq := (getElem?_insert_self store.disk.cache key value).symm.trans hvalue
    cases heq
    exact hentry
  · exact h key' value' ((getElem?_insert_of_ne store.disk.cache value hkey).symm.trans hvalue)

variable {c : List Block}

theorem Inv.putCache {s : Set BlockEntry} (h : Inv T cfg store c s) {key : CacheKey}
    (hkey : key ≠ .version) (value : CacheValue) :
    Inv T cfg (ChainQuery.putCache store key value) c s :=
  { h with
    verified := {
      h.verified with
      cache := (getElem?_insert_of_ne store.disk.cache value hkey).trans
        h.verified.cache } }

theorem Inv.exact (h : Inv T cfg store c (entrySet c)) :
    Exact T cfg store c where
  history := h.history
  txstore := h.txstore
  headers := h.headers
  valid := h.valid

theorem Inv.indexed_eq_of_holds {s : Set BlockEntry} (h : Inv T cfg store c s)
    (hholds : HoldsBestChain T cfg store c) :
    s = entrySet c := by
  apply Set.Subset.antisymm h.indexed_sub
  intro be hbe
  refine h.mem_of_done hbe (v := []) ?_
  exact hholds.history.getElem? (by simp [IsHistoryKey, IsAddr]) hbe ⟨rfl, IndexRow.done⟩

theorem serveStep_query {blocks : List Block} {request : Request T}
    (hexact : Exact T cfg store blocks) (hcache : CacheRight T cfg store)
    (hquery : request.event? = none)
    (hstep : serveStep cfg store request = .ok store') :
    store' = store ∨ exists key value, store' = ChainQuery.putCache store key value ∧
        key ≠ .version ∧ EntryRight T cfg key value := by
  cases request with
  | index event => cases hquery
  | stats scripthash =>
    cases hstep
    refine (hexact.stats_spec fun stats blockhash h =>
      hcache _ _ h).right.imp_right ?_
    rintro ⟨newstats, blockhash, heq, hentry⟩
    exact ⟨_, _, heq, by simp, hentry⟩
  | utxo scripthash limit =>
    rw [serveStep] at hstep
    split at hstep
    · rename_i result newstore hok
      cases hstep
      refine (hexact.utxo_eq_ok (fun cached blockhash h => hcache _ _ h) hok).right.imp_right ?_
      rintro ⟨cached, blockhash, heq, hentry⟩
      exact ⟨_, _, heq, by simp, hentry⟩
    · cases hstep
      exact Or.inl rfl
    · cases hstep
      exact Or.inl rfl
    · cases hstep

end Step

/-!
## Sessions
-/

section Sessions

variable {T : BlockTree} {cfg : IndexerConfig} {store : Store}
  {requests : List (Request T)}

@[simp] theorem indexEvents_index (event : Event T) :
    indexEvents (requests ++ [.index event]) = indexEvents requests ++ [event] := by
  simp [indexEvents, Request.event?]

theorem indexEvents_query {request : Request T} (hquery : request.event? = none) :
    indexEvents (requests ++ [request]) = indexEvents requests := by
  simp [indexEvents, hquery]

structure SessionInv (T : BlockTree) (cfg : IndexerConfig) (store : Store)
    (events : List (Event T)) : Prop where
  inv : Inv T cfg store (lastBest events) (entrySet (lastBest events))
  cache : CacheRight T cfg store

theorem sessionInv_open (hopen : Store.openStore cfg Disk.empty = .ok store) :
    SessionInv T cfg store [] := by
  refine ⟨(wholeInv_open hopen).inv, ?_⟩
  rcases openStore_empty_eq_ok (T := T) hopen with ⟨_, _, hrows⟩
  intro key value hvalue
  by_cases hkey : key = .version
  · rw [hkey]
    trivial
  · rw [hrows.cache key hkey] at hvalue
    cases hvalue

namespace SessionInv

variable {events : List (Event T)} {store' : Store}

theorem update {fetchFrom : FetchFrom} {daemon : Daemon T} (h : SessionInv T cfg store events)
    (hstep : step cfg store (.update fetchFrom daemon) = .ok store')
    (hholds : HoldsBestChain T cfg store' daemon.best.blocks) :
    SessionInv T cfg store' (events ++ [.update fetchFrom daemon]) := by
  rcases h.inv.exists_trace hstep with ⟨x, rfl, ⟨tr⟩⟩
  have hinv := h.inv.update tr
  rw [hinv.indexed_eq_of_holds hholds] at hinv
  refine ⟨?_, ?_⟩
  · rw [lastBest_update]
    exact hinv
  · intro key value hvalue
    by_cases hkey : key = .compacted
    · rw [hkey]
      trivial
    · exact h.cache key value (tr.cache_source hkey hvalue)

theorem restart (h : SessionInv T cfg store events)
    (hstep : step cfg store (.restart : Event T) = .ok store') :
    SessionInv T cfg store' (events ++ [.restart]) := by
  refine ⟨?_, ?_⟩
  · rw [lastBest_restart]
    exact (h.inv.restart_step hstep).left
  · intro key value hvalue
    rw [h.inv.verified.openStore_disk hstep] at hvalue
    exact h.cache key value hvalue

theorem query {request : Request T} (h : SessionInv T cfg store events)
    (hquery : request.event? = none)
    (hstep : serveStep cfg store request = .ok store') :
    SessionInv T cfg store' events := by
  rcases serveStep_query h.inv.exact h.cache hquery hstep with
    rfl | ⟨key, value, rfl, hkey, hentry⟩
  · exact h
  · exact ⟨h.inv.putCache hkey value, h.cache.putCache hentry⟩

end SessionInv

theorem sessionInv_of_serve (hserve : serve cfg requests = .ok store)
    (hexact : ExactSession cfg requests) :
    SessionInv T cfg store (indexEvents requests) := by
  induction requests using List.reverseRecOn generalizing store with
  | nil =>
    rcases bind_eq_ok.mp hserve with ⟨store₀, hopen, hpure⟩
    rw [← pure_eq_ok.mp hpure]
    exact sessionInv_open hopen
  | append_singleton requests request ih =>
    rcases serve_append_singleton.mp hserve with ⟨store', hserve', hstep⟩
    have hpre : ExactSession cfg requests := by
      intro pre fetchFrom daemon store₁ hpre
      exact hexact pre fetchFrom daemon store₁ (hpre.trans (List.prefix_append _ _))
    have hinv := ih hserve' hpre
    cases hquery : request.event? with
    | none =>
      rw [indexEvents_query hquery]
      exact hinv.query hquery hstep
    | some event =>
      cases request with
      | index event' =>
        rw [indexEvents_index]
        cases event' with
        | update fetchFrom daemon =>
          exact hinv.update hstep (hexact requests fetchFrom daemon store
            (List.prefix_refl _) hserve)
        | restart => exact hinv.restart hstep
      | stats _ => cases hquery
      | utxo _ _ => cases hquery

/-- A `stats` call returns what the loop over all rows returns, the numbers on the best chain. -/
theorem stats_transparent (hserve : serve cfg requests = .ok store)
    (hexact : ExactSession cfg requests) (scripthash : FullHash) :
    (ChainQuery.stats store scripthash).1 =
        (ChainQuery.statsDelta store scripthash ScriptStats.default 0).1 ∧
      StatsOf T cfg scripthash (lastBest (indexEvents requests))
        (ChainQuery.stats store scripthash).1 := by
  have hinv := sessionInv_of_serve hserve hexact
  have heq : (ChainQuery.stats store scripthash).1 =
      (ChainQuery.statsDelta store scripthash ScriptStats.default 0).1 :=
    (hinv.inv.exact.stats_spec fun stats blockhash h => hinv.cache _ _ h).left
  refine ⟨heq, ?_⟩
  rw [heq]
  exact (hinv.inv.exact.scriptHistory scripthash).statsOf hinv.inv.valid

/-- A `utxo` call succeeds with the same outputs whenever the computation from scratch does, and an
entry whose block is on the best chain is read back without a failure. -/
theorem utxo_transparent (hserve : serve cfg requests = .ok store)
    (hexact : ExactSession cfg requests) (scripthash : FullHash) :
    (forall limit result, ChainQuery.utxoDelta store scripthash ∅ 0 limit = .ok result ->
        exists store', ChainQuery.utxo store scripthash limit =
          .ok (ChainQuery.formatUtxos result.1, store')) ∧
    forall cached blockhash height, store.disk.cache[CacheKey.utxo scripthash]? =
        some (.utxos cached blockhash) ->
      ChainQuery.heightByHash store blockhash = some height ->
        exists utxos, ChainQuery.fromUtxoCache store cached = .ok utxos := by
  have hinv := sessionInv_of_serve hserve hexact
  constructor
  · intro limit result hscratch
    exact hinv.inv.exact.utxo_succeeds (fun cached blockhash h =>
      hinv.cache _ _ h) hscratch
  · intro cached blockhash height hcached hheight
    rcases ChainQuery.heightByHash_eq_some hinv.inv.headers hheight with ⟨b, hb, rfl⟩
    rcases hinv.inv.exact.fromUtxoCache_eq hb (hinv.cache _ _ hcached) with ⟨older, _, hfrom⟩
    exact ⟨_, hfrom⟩

end Sessions

/-!
## Sessions that bring nothing back
-/

section NoReturn

variable {T : BlockTree} {cfg : IndexerConfig} {store : Store}
  {requests : List (Request T)}

theorem WholeInv.putCache {events : List (Event T)}
    (h : WholeInv T cfg store events) {key : CacheKey} (hkey : key ≠ .version)
    (value : CacheValue) :
    WholeInv T cfg (ChainQuery.putCache store key value) events :=
  ⟨h.inv.putCache hkey value, h.indexed_eq⟩

theorem wholeInv_of_serve (hserve : serve cfg requests = .ok store)
    (hreturn : NoReturn (indexEvents requests)) :
    WholeInv T cfg store (indexEvents requests) ∧ CacheRight T cfg store := by
  induction requests using List.reverseRecOn generalizing store with
  | nil =>
    rcases bind_eq_ok.mp hserve with ⟨store₀, hopen, hpure⟩
    rw [← pure_eq_ok.mp hpure]
    exact ⟨wholeInv_open hopen, (sessionInv_open (T := T) hopen).cache⟩
  | append_singleton requests request ih =>
    rcases serve_append_singleton.mp hserve with ⟨store', hserve', hstep⟩
    cases hquery : request.event? with
    | none =>
      rw [indexEvents_query hquery] at hreturn ⊢
      rcases ih hserve' hreturn with ⟨hwhole, hcache⟩
      rcases serveStep_query hwhole.inv.exact hcache hquery hstep with
        rfl | ⟨key, value, rfl, hkey, hentry⟩
      · exact ⟨hwhole, hcache⟩
      · exact ⟨hwhole.putCache hkey value, hcache.putCache hentry⟩
    | some event =>
      cases request with
      | index event' =>
        rw [indexEvents_index] at hreturn ⊢
        cases event' with
        | update fetchFrom daemon =>
          rcases atEveryUpdate_update.mp hreturn with ⟨hpre, hlast⟩
          rcases ih hserve' hpre with ⟨hwhole, hcache⟩
          have hnext := hwhole.update hstep hlast
          have hexact := hnext.inv.exact
          rw [lastBest_update] at hexact
          have hsession : SessionInv T cfg store' _ :=
            ⟨hwhole.inv, hcache⟩
          exact ⟨hnext, (hsession.update hstep hexact.toHoldsBestChain).cache⟩
        | restart =>
          have hpre := atEveryUpdate_restart.mp hreturn
          rcases ih hserve' hpre with ⟨hwhole, hcache⟩
          have hsession : SessionInv T cfg store' _ :=
            ⟨hwhole.inv, hcache⟩
          exact ⟨hwhole.restart hstep, (hsession.restart hstep).cache⟩
      | stats _ => cases hquery
      | utxo _ _ => cases hquery

theorem AtEveryUpdate.of_prefix {P : List (Event T) -> FetchFrom -> Daemon T -> Prop}
    {events events' : List (Event T)} (h : AtEveryUpdate P events)
    (hpre : events' <+: events) : AtEveryUpdate P events' := by
  intro pre fetchFrom daemon hpre'
  exact h pre fetchFrom daemon (hpre'.trans hpre)

theorem exactSession_of_noReturn (hreturn : NoReturn (indexEvents requests)) :
    ExactSession cfg requests := by
  intro pre fetchFrom daemon store hpre hserve
  have hpre' : indexEvents (pre ++ [.index (.update fetchFrom daemon)]) <+:
      indexEvents requests := List.IsPrefix.filterMap _ hpre
  have hwhole := (wholeInv_of_serve hserve (hreturn.of_prefix hpre')).left
  have hexact := hwhole.inv.exact
  rw [indexEvents_index, lastBest_update] at hexact
  exact hexact.toHoldsBestChain

theorem exists_serve_update {daemon : Daemon T} (hserve : serve cfg requests = .ok store)
    (hreturn : NoReturn (indexEvents requests))
    (hspends : SpendsEarlier cfg (lastBest (indexEvents requests)))
    (hvalid : SpendsEarlier cfg daemon.best.blocks)
    (hshorter : daemon.best.blocks <+: lastBest (indexEvents requests) ->
      daemon.best.blocks = lastBest (indexEvents requests)) :
    exists store', serve cfg (requests ++ [.index (.update .bitcoind daemon)]) = .ok store' := by
  have hinv := (wholeInv_of_serve hserve hreturn).left.inv
  rcases exists_update hinv hspends hvalid hshorter with ⟨store', hstep⟩
  exact ⟨store', serve_append_singleton.mpr ⟨store, hserve, hstep⟩⟩

end NoReturn

namespace Sample

theorem exists_inv_session :
    exists store, Inv tree config store [genesis, blockB] (entrySet [genesis, blockB]) := by
  rcases exists_run_reorg with ⟨store, hrun⟩
  exact ⟨store, (wholeInv_of_noReturn hrun noReturn_reorg).inv⟩

def wideCoinbase : Transaction :=
  { coinbase 101 [1] with
    output := List.replicate 101 { value := 50, scriptPubkey := [1] }
    output_lt := by simp }

def wideGenesis : Block :=
  { genesis with txdata := [wideCoinbase], txdata_lt := by simp }

def wideA : Block :=
  { blockA with txdata := [coinbase 102 [3]], txdata_lt := by simp }

def wideTree : BlockTree :=
  BlockTree.ofList [wideGenesis, wideA, blockB] (by decide) (by decide +kernel)

def daemonWideA : Daemon wideTree :=
  daemonOf wideGenesis [wideA] ⟨⟨by decide +kernel, by decide⟩, by decide, by decide⟩

def daemonWideB : Daemon wideTree :=
  daemonOf wideGenesis [blockB] ⟨⟨by decide +kernel, by decide⟩, by decide, by decide⟩

def wideSession : List (Request wideTree) :=
  [] ++ [.index (.update .bitcoind daemonWideA)] ++ [.stats 1] ++
    [.index (.update .bitcoind daemonWideB)]

theorem noReturn_wideA : NoReturn ([] ++ [.update .bitcoind daemonWideA]) :=
  atEveryUpdate_update.mpr ⟨atEveryUpdate_nil, nofun⟩

theorem noReturn_wideSession : NoReturn (indexEvents wideSession) := by
  have hevents : indexEvents wideSession =
      ([] ++ [.update .bitcoind daemonWideA]) ++ [.update .bitcoind daemonWideB] := rfl
  rw [hevents]
  exact atEveryUpdate_update.mpr ⟨noReturn_wideA, nofun⟩

theorem exactSession_wide : ExactSession config wideSession :=
  exactSession_of_noReturn noReturn_wideSession

theorem exists_serve_wide : exists store, serve config wideSession = .ok store := by
  have hopen : serve config ([] : List (Request wideTree)) = .ok _ := rfl
  have hspends : SpendsEarlier config daemonWideA.best.blocks :=
    spendsEarlier_coinbases (by decide)
  rcases exists_serve_update hopen atEveryUpdate_nil (spendsEarlier_coinbases nofun) hspends
    (by decide) with ⟨store, hserve⟩
  have hstep : serveStep config store (Request.stats (T := wideTree) 1) =
      .ok (ChainQuery.stats store 1).2 := rfl
  exact exists_serve_update (serve_append_singleton.mpr ⟨store, hserve, hstep⟩) noReturn_wideA
    hspends (spendsEarlier_coinbases (by decide)) (by decide +kernel)

def wideFunding (i : Nat) : FundingInfo :=
  { txid := 101, vout := i.toUInt32, value := 50 }

theorem mem_fundings_wide (info : FundingInfo) :
    info ∈ fundings config 1 [wideGenesis, blockB] <->
      info ∈ (List.range 101).map wideFunding := by
  rw [List.mem_map]
  constructor
  · rintro ⟨b, tx, i, txo, hb, htx, htxo, _, hhash, rfl⟩
    rcases List.mem_cons.mp hb with rfl | hb
    · rw [List.mem_singleton.mp htx] at htxo ⊢
      have hi := (List.getElem?_eq_some_iff.mp htxo).1
      rw [List.eq_of_mem_replicate (List.mem_of_getElem? htxo)]
      exact ⟨i, List.mem_range.mpr (by simpa [wideCoinbase] using hi), rfl⟩
    · rw [List.mem_singleton.mp hb] at htx
      rw [List.mem_singleton.mp htx] at htxo
      rw [List.mem_singleton.mp (List.mem_of_getElem? htxo)] at hhash
      exact absurd hhash (by decide)
  · rintro ⟨i, hi, rfl⟩
    exact ⟨wideGenesis, wideCoinbase, i, { value := 50, scriptPubkey := [1] },
      List.mem_cons_self, List.mem_cons_self,
      List.getElem?_replicate_of_lt (List.mem_range.mp hi), rfl, rfl, rfl⟩

theorem ncard_fundings_wide : (fundings config 1 [wideGenesis, blockB]).ncard = 101 :=
  ncard_eq_length (by decide +kernel) mem_fundings_wide

theorem spendings_wide : spendings wideTree config 1 [wideGenesis, blockB] = ∅ := by
  refine Set.eq_empty_of_forall_notMem ?_
  rintro info ⟨b, tx, i, txi, txo, hb, htx, htxi, hprevout, _⟩
  have hnone : forall tx, tx ∈ chainTxs [wideGenesis, blockB] -> forall txi, txi ∈ tx.input ->
      hasPrevout txi = false := by decide
  rw [hnone tx (List.mem_flatMap.mpr ⟨b, hb, htx⟩) txi (List.mem_of_getElem? htxi)] at hprevout
  cases hprevout

theorem stats_after_reorg :
    exists store, serve config (wideSession ++ [.stats 1]) = .ok store ∧
      CacheKey.stats 1 ∈ store.disk.cache ∧
      StatsOf wideTree config 1 [wideGenesis, blockB] (ChainQuery.stats store 1).1 := by
  rcases exists_serve_wide with ⟨store, hserve⟩
  have hstats : StatsOf wideTree config 1 [wideGenesis, blockB] (ChainQuery.stats store 1).1 :=
    (stats_transparent hserve exactSession_wide 1).right
  have hserve' : serve config (wideSession ++ [.stats 1]) = .ok (ChainQuery.stats store 1).2 :=
    serve_append_singleton.mpr ⟨store, hserve, rfl⟩
  refine ⟨_, hserve', ChainQuery.mem_cache_stats ?_,
    (stats_transparent hserve' (exactSession_of_noReturn noReturn_wideSession) 1).right⟩
  rw [hstats.fundedTxoCount, ncard_fundings_wide]
  exact Nat.lt_add_right _ (by decide)

theorem length_confirmedHistory_wide {store : Store}
    (h : Exact wideTree config store [wideGenesis, blockB]) :
    (ChainQuery.confirmedHistory store 1 0).length = 101 := by
  rw [(h.scriptHistory 1).length_eq h.valid, ncard_fundings_wide, spendings_wide,
    Set.ncard_empty]

theorem exists_utxoDelta_wide {store : Store}
    (h : Exact wideTree config store [wideGenesis, blockB]) :
    exists result, ChainQuery.utxoDelta store 1 ∅ 0 200 = .ok result := by
  apply ChainQuery.utxoDelta_succeeds
  · rw [length_confirmedHistory_wide h]
    decide
  · rw [length_confirmedHistory_wide h]
    decide

theorem utxo_after_reorg :
    exists store utxos store', serve config (wideSession ++ [.utxo 1 200]) = .ok store ∧
      CacheKey.utxo 1 ∈ store.disk.cache ∧
      ChainQuery.utxo store 1 200 = .ok (utxos, store') := by
  rcases exists_serve_wide with ⟨store, hserve⟩
  have hexact := (sessionInv_of_serve hserve exactSession_wide).inv.exact
  rcases exists_utxoDelta_wide hexact with ⟨result, hscratch⟩
  rcases (utxo_transparent hserve exactSession_wide 1).left 200 result hscratch with
    ⟨store', hutxo⟩
  have hserve' : serve config (wideSession ++ [.utxo 1 200]) = .ok store' :=
    serve_append_singleton.mpr ⟨store, hserve, by rw [serveStep, hutxo]⟩
  have hsession : ExactSession config (wideSession ++ [.utxo 1 200]) :=
    exactSession_of_noReturn noReturn_wideSession
  rcases exists_utxoDelta_wide (sessionInv_of_serve hserve' hsession).inv.exact with
    ⟨result', hscratch'⟩
  rcases (utxo_transparent hserve' hsession 1).left 200 result' hscratch' with ⟨store'', hutxo'⟩
  refine ⟨store', _, store'', hserve', ChainQuery.mem_cache_utxo hutxo ?_, hutxo'⟩
  rw [length_confirmedHistory_wide hexact]
  decide

end Sample

end NewIndex
end Splora
