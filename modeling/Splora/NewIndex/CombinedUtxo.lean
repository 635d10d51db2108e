import Splora.NewIndex.MempoolUpdater
import Splora.NewIndex.Unspent

/-!
# The unspent outputs of both indexes

`Query::utxo` leaves out what the mempool index spends and appends what it leaves unspent.
Between the updates of the two indexes, a transaction of the new blocks is in both.
-/

namespace Splora
namespace NewIndex

open Foundation

def Query.utxo (cfg : Config) (store : Store) (m : Mempool)
    (scripthash : FullHash) : Except Abort (List ChainQuery.Utxo × Store) := do
  let (utxos, store) <- ChainQuery.utxo store scripthash cfg.utxosLimit
  let utxos := utxos.filter fun utxo => !m.hasSpend utxo.outPoint
  return (utxos ++ m.utxo scripthash, store)

/-!
## Both indexes
-/

structure Node where
  store : Store
  mempool : MempoolSystem

/-- A mempool section reads the confirmed index as it is at that time. -/
inductive NodeAction (T : BlockTree) where
  | chain (request : Request T)
  | mempool (action : Store -> MempoolAction)

namespace Node

def mempoolAfter (s : MempoolSystem) : Request T -> MempoolSystem
  | .index .restart => MempoolSystem.new
  | _ => s

def step (cfg : Config) (node : Node) : NodeAction T -> Except Abort Node
  | .chain request => do
      let store <- serveStep cfg.toIndexerConfig node.store request
      return { store := store, mempool := mempoolAfter node.mempool request }
  | .mempool action => do
      let mempool <- MempoolSystem.step cfg node.mempool (action node.store)
      return { node with mempool := mempool }

def run (cfg : Config) (actions : List (NodeAction T)) : Except Abort Node := do
  let store <- Store.openStore cfg.toIndexerConfig Disk.empty
  actions.foldlM (step cfg) { store := store, mempool := MempoolSystem.new }

end Node

def NodeAction.request? : NodeAction T -> Option (Request T)
  | .chain request => some request
  | .mempool _ => none

def chainRequests (actions : List (NodeAction T)) : List (Request T) :=
  actions.filterMap NodeAction.request?

def confirmedChain (actions : List (NodeAction T)) : List Block :=
  lastBest (indexEvents (chainRequests actions))

def NodeAction.Committed (L : TxCommitments) : NodeAction T -> Prop
  | .chain _ => True
  | .mempool action => forall store tx, tx ∈ (action store).txs -> L.Has tx

namespace Node

section Runs

variable {T : BlockTree} {L : TxCommitments} {cfg : Config} {node : Node}
  {actions : List (NodeAction T)}

theorem run_append_singleton {action : NodeAction T} :
    run cfg (actions ++ [action]) = .ok node <->
      exists node', run cfg actions = .ok node' ∧ step cfg node' action = .ok node := by
  have hconcat : run cfg (actions ++ [action]) =
      run cfg actions >>= fun node => step cfg node action := by
    simp [run, List.foldlM_append]
  rw [hconcat, bind_eq_ok]

theorem serve_of_run (hrun : run cfg actions = .ok node) :
    serve cfg.toIndexerConfig (chainRequests actions) = .ok node.store := by
  induction actions using List.reverseRecOn generalizing node with
  | nil =>
    rcases bind_eq_ok.mp hrun with ⟨store, hopen, hpure⟩
    rw [← pure_eq_ok.mp hpure]
    exact bind_eq_ok.mpr ⟨store, hopen, rfl⟩
  | append_singleton front action ih =>
    rcases run_append_singleton.mp hrun with ⟨node', hrun', hstep⟩
    cases action with
    | chain request =>
      rcases bind_eq_ok.mp hstep with ⟨store, hserve, hpure⟩
      rw [← pure_eq_ok.mp hpure]
      have hrequests : chainRequests (front ++ [.chain request]) =
          chainRequests front ++ [request] := by
        simp [chainRequests, NodeAction.request?]
      rw [hrequests]
      exact serve_append_singleton.mpr ⟨node'.store, ih hrun', hserve⟩
    | mempool action =>
      rcases bind_eq_ok.mp hstep with ⟨mempool, _, hpure⟩
      rw [← pure_eq_ok.mp hpure]
      have hrequests : chainRequests (front ++ [.mempool action]) =
          chainRequests front := by
        simp [chainRequests, NodeAction.request?]
      rw [hrequests]
      have hbefore := ih hrun'
      exact hbefore

theorem tracked_of_run (hrun : run cfg actions = .ok node)
    (hactions : forall action, action ∈ actions -> action.Committed L) :
    exists journal, MempoolSystem.Tracked L cfg node.mempool journal := by
  induction actions using List.reverseRecOn generalizing node with
  | nil =>
    rcases bind_eq_ok.mp hrun with ⟨store, _, hpure⟩
    rw [← pure_eq_ok.mp hpure]
    exact ⟨[], MempoolSystem.tracked_new L cfg⟩
  | append_singleton front action ih =>
    rcases run_append_singleton.mp hrun with ⟨node', hrun', hstep⟩
    rcases ih hrun' fun action' h => hactions action'
      (List.mem_append_left _ h) with ⟨journal, htracked⟩
    have haction := hactions action (by simp)
    cases action with
    | chain request =>
      rcases bind_eq_ok.mp hstep with ⟨store, _, hpure⟩
      rw [← pure_eq_ok.mp hpure]
      cases request with
      | index event =>
        cases event with
        | restart => exact ⟨[], MempoolSystem.tracked_new L cfg⟩
        | update _ _ => exact ⟨journal, htracked⟩
      | stats _ => exact ⟨journal, htracked⟩
      | utxo _ _ => exact ⟨journal, htracked⟩
    | mempool action =>
      rcases bind_eq_ok.mp hstep with ⟨mempool, hmempool, hpure⟩
      rw [← pure_eq_ok.mp hpure]
      rcases htracked.step (haction node'.store) with ⟨s', journal', hstep', htracked', _⟩
      rw [hmempool] at hstep'
      cases hstep'
      exact ⟨journal', htracked'⟩

end Runs

end Node

/-!
## The outpoints that are listed
-/

section Listed

variable {cfg : Config} {m : Mempool} {journal : List IndexedTx}
  {scripthash : FullHash} {outpoint : OutPoint}

namespace ChainQuery

theorem map_outPoint_formatUtxos (utxos : UtxoMap) :
    (formatUtxos utxos).map Utxo.outPoint = utxos.toList.map Prod.fst := by
  rw [formatUtxos, List.map_map]
  rfl

theorem mem_formatUtxos (utxos : UtxoMap) :
    outpoint ∈ (formatUtxos utxos).map Utxo.outPoint <->
      exists utxo, utxos[outpoint]? = some utxo := by
  rw [map_outPoint_formatUtxos, List.mem_map]
  constructor
  · intro h
    rcases h with ⟨row, hrow, heq⟩
    rw [← heq]
    exact ⟨row.2, Std.ExtTreeMap.mem_toList_iff_getElem?_eq_some.mp hrow⟩
  · intro h
    rcases h with ⟨utxo, hutxo⟩
    exact ⟨(outpoint, utxo), Std.ExtTreeMap.mem_toList_iff_getElem?_eq_some.mpr hutxo, rfl⟩

theorem nodup_formatUtxos (utxos : UtxoMap) : ((formatUtxos utxos).map Utxo.outPoint).Nodup := by
  rw [map_outPoint_formatUtxos, List.Nodup, List.pairwise_map]
  apply (Std.ExtTreeMap.distinct_keys_toList (t := utxos)).imp
  intro row row' hne heq
  apply hne
  rw [heq]
  exact Std.ReflCmp.compare_self

theorem getElem?_of_mem_formatUtxos {utxos : UtxoMap} {utxo : Utxo} (h : utxo ∈ formatUtxos utxos) :
    exists blockid, utxos[utxo.outPoint]? = some (blockid, utxo.value) := by
  rcases List.mem_map.mp h with ⟨row, hrow, heq⟩
  rw [<- heq]
  exact ⟨row.2.1, Std.ExtTreeMap.mem_toList_iff_getElem?_eq_some.mp hrow⟩

end ChainQuery

namespace Mempool

theorem mem_utxo {utxo : ChainQuery.Utxo} :
    utxo ∈ m.utxo scripthash <->
      exists info : FundingInfo, .funding info ∈ m.history[scripthash]?.getD [] ∧
        utxo = {
          txid := info.txid
          vout := info.vout
          confirmed := none
          value := info.value } ∧
        utxo.outPoint ∉ m.edges := by
  unfold Mempool.utxo
  cases hhistory : m.history[scripthash]? with
  | none => simp
  | some entries =>
    rw [List.mem_filter, List.mem_filterMap, hasSpend, Option.getD_some]
    constructor
    · intro h
      rcases h with ⟨⟨entry, hentry, hsome⟩, hspend⟩
      cases entry with
      | funding info =>
        exact ⟨info, hentry, (Option.some.inj hsome).symm, by simpa using hspend⟩
      | spending info => cases hsome
    · intro h
      rcases h with ⟨info, hentry, heq, hspend⟩
      exact ⟨⟨.funding info, hentry, congrArg some heq.symm⟩, by simpa using hspend⟩

theorem nodup_utxo (h : Indexes cfg m journal) :
    ((m.utxo scripthash).map ChainQuery.Utxo.outPoint).Nodup := by
  have hslots := h.nodup_bucket scripthash
  unfold Mempool.utxo
  cases hhistory : m.history[scripthash]? with
  | none => exact List.nodup_nil
  | some entries =>
    rw [hhistory, Option.getD_some] at hslots
    apply (List.filter_sublist.map _).nodup
    rw [List.Nodup, List.pairwise_map]
    apply List.Pairwise.filterMap _ ?_ (List.pairwise_map.mp hslots)
    intro entry entry' hne utxo hutxo utxo' hutxo' heq
    cases entry with
    | spending info => cases hutxo
    | funding info =>
      cases entry' with
      | spending info' => cases hutxo'
      | funding info' =>
        cases hutxo
        cases hutxo'
        injection heq with htxid hvout
        exact hne (Prod.ext htxid (Prod.ext rfl hvout))

theorem Indexes.utxo_source (h : Indexes cfg m journal)
    {utxo : ChainQuery.Utxo} (hutxo : utxo ∈ m.utxo scripthash) :
    exists (r : IndexedTx) (i : Nat) (txo : TxOut), r ∈ journal ∧
      r.tx.output[i]? = some txo ∧ cfg.isIndexed txo = true ∧
      cfg.computeScriptHash txo.scriptPubkey = scripthash ∧
      utxo.outPoint = { txid := r.txid, vout := i.toUInt32 } := by
  rcases mem_utxo.mp hutxo with ⟨info, hentry, heq, _⟩
  rcases List.mem_flatMap.mp (h.history.mem_iff.mp hentry) with ⟨r, hr, hrow⟩
  rcases List.mem_append.mp hrow with hfunding | hspending
  · rcases IndexedTx.mem_fundingEntries.mp hfunding with ⟨i, txo, htxo, hindexed, hpair⟩
    injection hpair with hhash hinfo
    injection hinfo with hinfo
    refine ⟨r, i, txo, hr, htxo, hindexed, hhash.symm, ?_⟩
    rw [heq, hinfo]
    rfl
  · rcases List.mem_filterMap.mp hspending with ⟨prevout, _, hsome⟩
    rcases Option.map_eq_some_iff.mp hsome with ⟨txi, _, hpair⟩
    cases hpair

def Spends (m : Mempool) (outpoint : OutPoint) : Prop :=
  exists (txid : Txid) (tx : Transaction) (txi : TxIn),
    m.txstore[txid]? = some tx ∧ txi ∈ tx.input ∧ hasPrevout txi = true ∧
      txi.previousOutput = outpoint

/-- An indexed mempool transaction, one with fee information, pays the script. -/
def Funds (cfg : Config) (m : Mempool) (scripthash : FullHash) (outpoint : OutPoint) : Prop :=
  exists (tx : Transaction) (i : Nat) (txo : TxOut), m.txstore[outpoint.txid]? = some tx ∧
    outpoint.txid ∈ m.feeinfo ∧ tx.output[i]? = some txo ∧ outpoint.vout = i.toUInt32 ∧
    cfg.isIndexed txo = true ∧ cfg.computeScriptHash txo.scriptPubkey = scripthash

theorem Indexes.mem_map_utxo {L : TxCommitments} (h : Indexes cfg m journal)
    (hcommitted : m.Committed L journal) :
    outpoint ∈ (m.utxo scripthash).map ChainQuery.Utxo.outPoint <->
      m.Funds cfg scripthash outpoint ∧ outpoint ∉ m.edges := by
  -- a stored transaction and the record of its txid have the same outputs
  have houtput : forall r tx, r ∈ journal -> m.txstore[r.txid]? = some tx ->
      r.tx.output = tx.output := by
    intro r tx hr htx
    rcases hcommitted.txstore r.txid tx htx with ⟨htxid, hhas⟩
    rw [(hcommitted.journal r hr).right, hhas.right, htxid]
    rfl
  constructor
  · intro hlisted
    rcases List.mem_map.mp hlisted with ⟨utxo, hutxo, hpoint⟩
    rcases h.utxo_source hutxo with ⟨r, i, txo, hr, htxo, hindexed, hhash, heq⟩
    rcases mem_iff_exists.mp (h.stored r hr) with ⟨tx, htx⟩
    rcases mem_utxo.mp hutxo with ⟨_, _, _, hedge⟩
    rw [hpoint] at heq hedge
    rw [houtput r tx hr htx] at htxo
    rw [heq] at hedge ⊢
    have hfee := (h.feeinfo r.txid r.feeinfo).mpr ⟨r, hr, rfl, rfl⟩
    exact ⟨⟨tx, i, txo, htx, mem_of_getElem? hfee, htxo, rfl, hindexed, hhash⟩, hedge⟩
  · intro hfunds
    rcases hfunds with ⟨⟨tx, i, txo, htx, hfee, htxo, hvout, hindexed, hhash⟩, hedge⟩
    rcases mem_iff_exists.mp hfee with ⟨info, hinfo⟩
    rcases (h.feeinfo _ info).mp hinfo with ⟨r, hr, htxid, _⟩
    rw [<- htxid] at htx
    rw [<- houtput r tx hr htx] at htxo
    have hpoint : outpoint = { txid := r.txid, vout := i.toUInt32 } := by
      rw [htxid, <- hvout]
    rw [hpoint] at hedge ⊢
    refine List.mem_map.mpr ⟨{
      txid := r.txid
      vout := i.toUInt32
      confirmed := none
      value := txo.value }, ?_, rfl⟩
    refine mem_utxo.mpr ⟨⟨r.txid, i.toUInt32, txo.value⟩, ?_, rfl, hedge⟩
    refine h.history.mem_iff.mpr (List.mem_flatMap.mpr ⟨r, hr, List.mem_append_left _ ?_⟩)
    refine IndexedTx.mem_fundingEntries.mpr ⟨i, txo, htxo, hindexed, ?_⟩
    rw [hhash]
    rfl

end Mempool

end Listed

/-!
## When the combined list is clean
-/

structure CleanUtxos (blocks : List Block) (m : Mempool)
    (utxos : List ChainQuery.Utxo) : Prop where
  nodup : (utxos.map ChainQuery.Utxo.outPoint).Nodup
  not_spent : forall utxo, utxo ∈ utxos -> ¬ Spent blocks utxo.outPoint
  not_spent_mempool : forall utxo, utxo ∈ utxos -> ¬ m.Spends utxo.outPoint

/-- An indexed mempool transaction that pays the script is not confirmed, unless the output has an
edge; and inputs of stored ones have edges, if they spend what is unspent on the chain or paid to
the script by an indexed one. -/
structure SeparateUtxos (cfg : Config) (blocks : List Block) (m : Mempool)
    (scripthash : FullHash) : Prop where
  unconfirmed : forall outpoint, m.Funds cfg scripthash outpoint -> outpoint ∉ m.edges ->
    outpoint.txid ∉ chainTxids blocks
  confirmed_edge : forall outpoint utxo,
    Unspent cfg.toIndexerConfig scripthash blocks outpoint utxo ->
      m.Spends outpoint -> outpoint ∈ m.edges
  pool_edge : forall outpoint, m.Funds cfg scripthash outpoint ->
    m.Spends outpoint -> outpoint ∈ m.edges

section Clean

variable {T : BlockTree} {L : TxCommitments} {cfg : Config} {store : Store}
  {blocks : List Block} {m : Mempool} {journal : List IndexedTx}
  {scripthash : FullHash} {outpoint : OutPoint}

theorem mem_chainTxids_of_unspent {utxo : BlockId × UInt64}
    (h : Unspent cfg.toIndexerConfig scripthash blocks outpoint utxo) :
    outpoint.txid ∈ chainTxids blocks := by
  rcases h with ⟨be, tx, i, txo, hbe, htx, _, _, _, heq, _⟩
  rw [heq, chainTxids, List.mem_flatMap]
  exact ⟨be.block, block_mem_of_mem_blockEntriesFrom hbe, List.mem_map_of_mem htx⟩

theorem SpendsEarlierTxs.mem_chainTxids (h : SpendsEarlierTxs blocks)
    (hspent : Spent blocks outpoint) : outpoint.txid ∈ chainTxids blocks := by
  rcases hspent with ⟨b, tx, txi, hb, htx, htxi, hprevout, heq⟩
  have hmem : tx ∈ chainTxs blocks := List.mem_flatMap.mpr ⟨b, hb, htx⟩
  rcases List.getElem?_of_mem hmem with ⟨i, hi⟩
  rcases h i tx hi txi htxi hprevout with ⟨j, prev, _, hj, htxid⟩
  rcases List.mem_flatMap.mp (List.mem_of_getElem? hj) with ⟨b', hb', hprev⟩
  rw [← heq, ← htxid, chainTxids, List.mem_flatMap]
  exact ⟨b', hb', List.mem_map_of_mem hprev⟩

theorem Mempool.Indexes.confirmed_cases (h : m.Indexes cfg journal)
    (hcommitted : m.Committed L journal)
    (hblocks : forall b, b ∈ blocks -> forall tx, tx ∈ b.txdata -> L.Has tx)
    {utxo : ChainQuery.Utxo} (hutxo : utxo ∈ m.utxo scripthash)
    (hconfirmed : utxo.txid ∈ chainTxids blocks) :
    Spent blocks utxo.outPoint ∨
      exists u, Unspent cfg.toIndexerConfig scripthash blocks utxo.outPoint
        u := by
  rcases h.utxo_source hutxo with ⟨r, i, txo, hr, htxo, hindexed, hhash, hpoint⟩
  rcases List.mem_flatMap.mp hconfirmed with ⟨b, hb, hmem⟩
  rcases List.mem_map.mp hmem with ⟨tx, htx, htxid⟩
  have hsame : tx.txid = r.tx.txid :=
    htxid.trans (congrArg OutPoint.txid hpoint)
  -- a txid commits to the outputs, so the record and the block agree on them
  have houtput : tx.output = r.tx.output := by
    rw [(hblocks b hb tx htx).right, (hcommitted.journal r hr).right, hsame]
  by_cases hspent : Spent blocks utxo.outPoint
  · exact Or.inl hspent
  · rcases List.getElem?_of_mem hb with ⟨height, hheight⟩
    refine Or.inr ⟨_, blockEntryAt b height, tx, i, txo,
      mem_chainEntries.mpr ⟨height, b, hheight, rfl⟩, htx, ?_, hindexed, hhash,
      ?_, rfl, hspent⟩
    · rw [houtput]
      exact htxo
    · rw [hpoint, hsame]
      rfl

structure ConfirmedUtxos (cfg : IndexerConfig) (scripthash : FullHash)
    (blocks : List Block) (confirmed : List ChainQuery.Utxo) : Prop where
  nodup : (confirmed.map ChainQuery.Utxo.outPoint).Nodup
  mem_iff : forall outpoint, outpoint ∈ confirmed.map ChainQuery.Utxo.outPoint <->
      exists utxo, Unspent cfg scripthash blocks outpoint utxo
  unspent : forall utxo, utxo ∈ confirmed ->
    exists blockid, Unspent cfg scripthash blocks utxo.outPoint (blockid, utxo.value)

variable {confirmed : List ChainQuery.Utxo} {store' : Store}

theorem confirmedUtxos_of_utxo {cfg : IndexerConfig} (hexact : Exact T cfg store blocks)
    (hcache : CacheRight T cfg store) (hspends : SpendsEarlierTxs blocks)
    {limit : UInt64}
    (hutxo : ChainQuery.utxo store scripthash limit = .ok (confirmed, store')) :
    ConfirmedUtxos cfg scripthash blocks confirmed := by
  have heq := (hexact.utxo_eq_ok (fun cached blockhash h => hcache _ _ h) hutxo).left
  have hrows := hexact.scriptHistory scripthash
  constructor
  case nodup =>
    rw [heq]
    exact ChainQuery.nodup_formatUtxos _
  case mem_iff =>
    intro outpoint
    rw [heq, ChainQuery.mem_formatUtxos]
    apply exists_congr
    intro utxo
    exact hrows.unspent_iff hexact.valid hspends
  case unspent =>
    intro utxo hutxo
    rw [heq] at hutxo
    rcases ChainQuery.getElem?_of_mem_formatUtxos hutxo with ⟨blockid, hget⟩
    exact ⟨blockid, (hrows.unspent_iff hexact.valid hspends).mp hget⟩

variable {utxos : List ChainQuery.Utxo}

theorem Query.utxo_eq_ok (hutxo : Query.utxo cfg store m scripthash = .ok (utxos, store')) :
    exists confirmed : List ChainQuery.Utxo,
      ChainQuery.utxo store scripthash cfg.utxosLimit = .ok (confirmed, store') ∧
      utxos = confirmed.filter (fun utxo => !m.hasSpend utxo.outPoint) ++
        m.utxo scripthash := by
  rcases bind_eq_ok.mp hutxo with ⟨result, hchain, hpure⟩
  cases pure_eq_ok.mp hpure
  exact ⟨result.1, hchain, rfl⟩

theorem mem_filter_hasSpend :
    outpoint ∈ (confirmed.filter fun utxo => !m.hasSpend utxo.outPoint).map
        ChainQuery.Utxo.outPoint <->
      outpoint ∈ confirmed.map ChainQuery.Utxo.outPoint ∧ outpoint ∉ m.edges := by
  rw [List.mem_map, List.mem_map]
  constructor
  · intro h
    rcases h with ⟨utxo, hmem, heq⟩
    rcases List.mem_filter.mp hmem with ⟨hmem, hspend⟩
    refine ⟨⟨utxo, hmem, heq⟩, ?_⟩
    rw [← heq]
    simpa [Mempool.hasSpend] using hspend
  · intro h
    rcases h with ⟨⟨utxo, hmem, heq⟩, hedge⟩
    rw [← heq] at hedge
    exact ⟨utxo, List.mem_filter.mpr ⟨hmem, by simpa [Mempool.hasSpend] using hedge⟩, heq⟩

theorem cleanUtxos_iff (hexact : Exact T cfg.toIndexerConfig store blocks)
    (hcache : CacheRight T cfg.toIndexerConfig store)
    (hspends : SpendsEarlierTxs blocks) (hindexes : m.Indexes cfg journal)
    (hcommitted : m.Committed L journal)
    (hblocks : forall b, b ∈ blocks -> forall tx, tx ∈ b.txdata -> L.Has tx)
    (hutxo : Query.utxo cfg store m scripthash = .ok (utxos, store')) :
    CleanUtxos blocks m utxos <-> SeparateUtxos cfg blocks m scripthash := by
  rcases Query.utxo_eq_ok hutxo with ⟨confirmed, hchain, heq⟩
  subst heq
  have hconfirmed := confirmedUtxos_of_utxo hexact hcache hspends hchain
  have hnodup := hconfirmed.nodup
  have hmem := hconfirmed.mem_iff
  constructor
  · intro hclean
    have hlisted : forall outpoint u, Unspent cfg.toIndexerConfig scripthash blocks outpoint u ->
        outpoint ∉ m.edges ->
        outpoint ∈ (confirmed.filter fun utxo =>
          !m.hasSpend utxo.outPoint).map ChainQuery.Utxo.outPoint := by
      intro outpoint u hunspent hedge
      exact mem_filter_hasSpend.mpr ⟨(hmem outpoint).mpr ⟨u, hunspent⟩, hedge⟩
    constructor
    case unconfirmed =>
      intro outpoint hfunds hedge hconfirmed
      rcases List.mem_map.mp ((hindexes.mem_map_utxo hcommitted).mpr ⟨hfunds, hedge⟩) with
        ⟨utxo, hunconfirmed, hpoint⟩
      rw [<- hpoint] at hconfirmed hedge
      rcases hindexes.confirmed_cases hcommitted hblocks hunconfirmed
        hconfirmed with hspent | ⟨u, hunspent⟩
      · exact hclean.not_spent utxo (List.mem_append_right _ hunconfirmed) hspent
      · have htwice := hclean.nodup
        rw [List.map_append] at htwice
        exact List.disjoint_of_nodup_append htwice (hlisted _ u hunspent hedge)
          (List.mem_map_of_mem hunconfirmed)
    case confirmed_edge =>
      intro outpoint u hunspent hspend
      by_contra hedge
      rcases List.mem_map.mp (hlisted outpoint u hunspent hedge) with ⟨utxo, hutxo, hpoint⟩
      rw [← hpoint] at hspend
      exact hclean.not_spent_mempool utxo (List.mem_append_left _ hutxo) hspend
    case pool_edge =>
      intro outpoint hfunds hspend
      by_contra hedge
      rcases List.mem_map.mp ((hindexes.mem_map_utxo hcommitted).mpr ⟨hfunds, hedge⟩) with
        ⟨utxo, hunconfirmed, hpoint⟩
      rw [<- hpoint] at hspend
      exact hclean.not_spent_mempool utxo (List.mem_append_right _ hunconfirmed) hspend
  · intro hseparate
    have hkept : forall utxo, utxo ∈ (confirmed.filter fun utxo => !m.hasSpend utxo.outPoint) ->
        utxo.outPoint ∉ m.edges ∧ exists u,
          Unspent cfg.toIndexerConfig scripthash blocks utxo.outPoint u := by
      intro utxo hutxo
      rcases mem_filter_hasSpend.mp (List.mem_map_of_mem hutxo) with ⟨hconfirmed, hedge⟩
      exact ⟨hedge, (hmem _).mp hconfirmed⟩
    have hpool : forall utxo, utxo ∈ m.utxo scripthash ->
        m.Funds cfg scripthash utxo.outPoint ∧ utxo.outPoint ∉ m.edges := by
      intro utxo hutxo
      exact (hindexes.mem_map_utxo hcommitted).mp (List.mem_map_of_mem hutxo)
    constructor
    case nodup =>
      rw [List.map_append]
      apply List.Nodup.append ((List.filter_sublist.map _).nodup hnodup)
        (Mempool.nodup_utxo hindexes)
      intro outpoint hleft hright
      rcases List.mem_map.mp hright with ⟨utxo, hunconfirmed, hpoint⟩
      rcases (hmem _).mp (mem_filter_hasSpend.mp hleft).left with ⟨u, hunspent⟩
      rcases hpool utxo hunconfirmed with ⟨hfunds, hedge⟩
      apply hseparate.unconfirmed _ hfunds hedge
      rw [← hpoint] at hunspent
      exact mem_chainTxids_of_unspent hunspent
    case not_spent =>
      intro utxo hlisted hspent
      rcases List.mem_append.mp hlisted with hconfirmed | hunconfirmed
      · rcases (hkept utxo hconfirmed).right with ⟨u, hunspent⟩
        rcases hunspent with ⟨_, _, _, _, _, _, _, _, _, _, _, hnot⟩
        exact hnot hspent
      · rcases hpool utxo hunconfirmed with ⟨hfunds, hedge⟩
        exact hseparate.unconfirmed _ hfunds hedge (hspends.mem_chainTxids hspent)
    case not_spent_mempool =>
      intro utxo hlisted hspend
      rcases List.mem_append.mp hlisted with hconfirmed | hunconfirmed
      · rcases hkept utxo hconfirmed with ⟨hedge, u, hunspent⟩
        exact hedge (hseparate.confirmed_edge _ u hunspent hspend)
      · rcases hpool utxo hunconfirmed with ⟨hfunds, hedge⟩
        exact hedge (hseparate.pool_edge _ hfunds hspend)

theorem separateUtxos_of_edges
    (hunconfirmed : forall txid, txid ∈ m.txstore -> txid ∉ chainTxids blocks)
    (hedges : forall outpoint, m.Spends outpoint -> outpoint ∈ m.edges)
    (scripthash : FullHash) : SeparateUtxos cfg blocks m scripthash := by
  constructor
  case unconfirmed =>
    intro outpoint hfunds _
    rcases hfunds with ⟨tx, _, _, htx, _⟩
    exact hunconfirmed _ (mem_of_getElem? htx)
  case confirmed_edge =>
    intro outpoint u _ hspend
    exact hedges outpoint hspend
  case pool_edge =>
    intro outpoint _ hspend
    exact hedges outpoint hspend

end Clean

/-!
## Between the two updates
-/

namespace Sample

def daemonGenesis : Daemon tree :=
  daemonOf genesis [] ⟨⟨by decide, by decide⟩, by decide, by decide⟩

def pollMempool (allTxids : List Txid) (txs : List Transaction) :
    List (NodeAction tree) :=
  [.mempool fun _ => .readTxids, .mempool fun _ => .getmempooltxids (some allTxids),
    .mempool fun _ => .remove,
    .mempool fun _ => .gettransactions (some txs),
    .mempool fun store => .add store .ascending]

def betweenUpdates : List (NodeAction tree) :=
  .chain (.index (.update .bitcoind daemonGenesis)) ::
    pollMempool [103] [payment 103 101 [3]] ++
    [.chain (.index (.update .bitcoind daemonA))]

def afterUpdates : List (NodeAction tree) :=
  betweenUpdates ++ pollMempool [206] [payment 206 103 [9]]

def turnCommitments : TxCommitments :=
  commitmentsOf [coinbase 101 [1], coinbase 102 [1], payment 103 101 [3], payment 206 103 [9]]

theorem exactSession_afterUpdates : ExactSession config (chainRequests afterUpdates) := by
  apply exactSession_of_noReturn
  have hevents : indexEvents (chainRequests afterUpdates) =
      [] ++ [.update .bitcoind daemonGenesis] ++ [.update .bitcoind daemonA] := rfl
  rw [hevents]
  refine atEveryUpdate_update.mpr ⟨atEveryUpdate_update.mpr ⟨atEveryUpdate_nil, ?_⟩, ?_⟩
  · decide
  · decide

theorem committed_pollMempool {allTxids : List Txid} {txs : List Transaction}
    (htxs : forall tx, tx ∈ txs -> turnCommitments.Has tx)
    (action : NodeAction tree) (haction : action ∈ pollMempool allTxids txs) :
    action.Committed turnCommitments := by
  simp only [pollMempool, List.mem_cons, List.not_mem_nil, or_false] at haction
  rcases haction with h | h | h | h | h
  case inr.inr.inr.inl =>
    rw [h]
    intro _ tx htx
    exact htxs tx htx
  all_goals
    rw [h]
    intro _ tx htx
    exact absurd htx List.not_mem_nil

theorem committed_afterUpdates (action : NodeAction tree)
    (haction : action ∈ afterUpdates) : action.Committed turnCommitments := by
  rcases List.mem_append.mp haction with hbetween | hpoll
  · rcases List.mem_append.mp hbetween with hfirst | hupdate
    · rcases List.mem_cons.mp hfirst with hgenesis | hpoll
      · rw [hgenesis]
        trivial
      · apply committed_pollMempool ?_ action hpoll
        intro tx htx
        rw [List.mem_singleton.mp htx]
        exact ⟨rfl, rfl⟩
    · rw [List.mem_singleton.mp hupdate]
      trivial
  · apply committed_pollMempool ?_ action hpoll
    intro tx htx
    rw [List.mem_singleton.mp htx]
    exact ⟨rfl, rfl⟩

end Sample

end NewIndex
end Splora
