import Splora.NewIndex.Completeness
import Splora.NewIndex.MempoolJournal

/-!
# One updater and any number of broadcasts

`Mempool::update` takes the lock three times; `Query::broadcast_raw` may add in between.  A run
is a list of locked sections and answers of the daemon.  The confirmed index is an argument of
each add.
-/

namespace Splora
namespace NewIndex

open Foundation

/-- Where the updater is in `Mempool::update`, with its local variables. -/
inductive UpdaterPhase where
  | idle
  | readTxids (oldTxids : List Txid)
  | gotTxids (toRemove toAdd : List Txid)
  | removed (toAdd : List Txid)
  | gotTxs (txs : List Transaction)

structure MempoolSystem where
  mempool : Mempool
  phase : UpdaterPhase

/-- A locked section, or an answer of the daemon to the updater. -/
inductive MempoolAction where
  | readTxids
  | getmempooltxids (reply : Option (List Txid))
  | remove
  | gettransactions (reply : Option (List Transaction))
  | add (store : Store) (order : HashOrder)
  | addByTxid (store : Store) (order : HashOrder) (rpc : MempoolRpc)
      (txid : Txid)

namespace MempoolSystem

def new : MempoolSystem where
  mempool := Mempool.new
  phase := .idle

/-- An action of the updater in another phase than its own does nothing. -/
def step (cfg : Config) (s : MempoolSystem) (action : MempoolAction) :
    Except Abort MempoolSystem :=
  match action, s.phase with
  | .readTxids, .idle =>
    .ok { s with phase := .readTxids s.mempool.uniqueTxids }
  | .getmempooltxids none, .readTxids _ =>
    .ok { s with phase := .idle }
  | .getmempooltxids (some allTxids), .readTxids oldTxids =>
    .ok { s with
      phase := .gotTxids (Mempool.txidsToRemove oldTxids allTxids)
        (Mempool.txidsToAdd oldTxids allTxids) }
  | .remove, .gotTxids toRemove toAdd => do
      let mempool <- Mempool.remove s.mempool toRemove
      return { mempool := mempool, phase := .removed toAdd }
  | .gettransactions none, .removed _ =>
    .ok { s with phase := .idle }
  | .gettransactions (some txs), .removed _ =>
    .ok { s with phase := .gotTxs txs }
  | .add store order, .gotTxs txs => do
      let (mempool, _) <- Mempool.add cfg store order s.mempool txs
      return { mempool := mempool, phase := .idle }
  | .addByTxid store order rpc txid, _ => do
      let (mempool, _) <-
        Mempool.addByTxid cfg store order rpc s.mempool txid
      return { s with mempool := mempool }
  | _, _ => .ok s

def run (cfg : Config) (actions : List MempoolAction) :
    Except Abort MempoolSystem :=
  actions.foldlM (step cfg) new

theorem update_eq_steps (cfg : Config) (store : Store) (order : HashOrder)
    (rpc : MempoolRpc) (m : Mempool) :
    ([.readTxids, .getmempooltxids rpc.getmempooltxids, .remove,
        .gettransactions (rpc.getmempooltxids.bind fun allTxids =>
          rpc.gettransactions (Mempool.txidsToAdd m.uniqueTxids allTxids)),
        .add store order].foldlM (step cfg) { mempool := m, phase := .idle }) =
      (Mempool.update cfg store order rpc m >>= fun result =>
        .ok { mempool := result.1, phase := .idle }) := by
  cases hall : rpc.getmempooltxids with
  | none =>
    rw [Mempool.update, hall]
    rfl
  | some allTxids =>
    rw [Mempool.update, hall]
    simp only [List.foldlM_cons, List.foldlM_nil, step, ok_bind, Option.bind_some]
    cases Mempool.remove m (Mempool.txidsToRemove m.uniqueTxids allTxids) with
    | error e => rfl
    | ok m1 =>
      cases rpc.gettransactions (Mempool.txidsToAdd m.uniqueTxids allTxids) with
      | none => rfl
      | some txs =>
        rcases Mempool.exists_added cfg store order m1 txs with ⟨records, hadd, _⟩
        simp [ok_bind, hadd]

end MempoolSystem

/-!
## What a step can do
-/

def UpdaterPhase.pending : UpdaterPhase -> List Txid
  | readTxids oldTxids => oldTxids
  | gotTxids toRemove _ => toRemove
  | _ => []

def UpdaterPhase.fetched : UpdaterPhase -> List Transaction
  | gotTxs txs => txs
  | _ => []

def MempoolAction.txs : MempoolAction -> List Transaction
  | gettransactions (some txs) => txs
  | addByTxid _ _ rpc txid => (rpc.getmempooltx txid).toList
  | _ => []

namespace MempoolSystem

inductive StepKind (cfg : Config) (s : MempoolSystem) (action : MempoolAction) :
    Except Abort MempoolSystem -> Prop where
  | move {phase : UpdaterPhase}
      (hpending : phase.pending.Sublist s.phase.pending ∨ phase.pending = s.mempool.uniqueTxids)
      (hfetched : forall tx, tx ∈ phase.fetched -> tx ∈ s.phase.fetched ∨ tx ∈ action.txs) :
      StepKind cfg s action (.ok { s with phase := phase })
  | remove {toRemove toAdd : List Txid} (haction : action = .remove)
      (hphase : s.phase = .gotTxids toRemove toAdd) :
      StepKind cfg s action (Mempool.remove s.mempool toRemove >>= fun mempool =>
          .ok { mempool := mempool, phase := .removed toAdd })
  | add {store : Store} {txs : List Transaction} {phase : UpdaterPhase}
      {records : List IndexedTx}
      (htxs : forall tx, tx ∈ txs -> tx ∈ s.phase.fetched ∨ tx ∈ action.txs)
      (hphase : phase = s.phase ∨ phase = .idle)
      (hadded : Mempool.Added store s.mempool txs records) :
      StepKind cfg s action (.ok {
        mempool := records.foldl (Mempool.index cfg) (s.mempool.storeTxs txs)
        phase := phase })

section

variable (cfg : Config) (s : MempoolSystem) (action : MempoolAction)

include cfg s action

theorem StepKind.stay : StepKind cfg s action (.ok s) :=
  .move (Or.inl (List.Sublist.refl _)) fun _ h => Or.inl h

theorem StepKind.rest : StepKind cfg s action (.ok { s with phase := .idle }) :=
  .move (Or.inl (List.nil_sublist _)) fun _ h => absurd h List.not_mem_nil

theorem step_kind : StepKind cfg s action (step cfg s action) := by
  rcases s with ⟨mempool, phase⟩
  cases action with
  | readTxids =>
    cases phase with
    | idle =>
      exact .move (Or.inr rfl) fun _ h => absurd h List.not_mem_nil
    | _ => exact .stay cfg _ _
  | getmempooltxids reply =>
    cases phase with
    | readTxids oldTxids =>
      cases reply with
      | none => exact .rest cfg _ _
      | some allTxids =>
        exact .move (Or.inl List.filter_sublist) fun _ h => absurd h List.not_mem_nil
    | _ =>
      cases reply with
      | none => exact .stay cfg _ _
      | some allTxids => exact .stay cfg _ _
  | remove =>
    cases phase with
    | gotTxids toRemove toAdd => exact .remove rfl rfl
    | _ => exact .stay cfg _ _
  | gettransactions reply =>
    cases phase with
    | removed toAdd =>
      cases reply with
      | none => exact .rest cfg _ _
      | some txs =>
        exact .move (Or.inl (List.nil_sublist _)) fun _ h => Or.inr h
    | _ =>
      cases reply with
      | none => exact .stay cfg _ _
      | some txs => exact .stay cfg _ _
  | add store order =>
    cases phase with
    | gotTxs txs =>
      rcases Mempool.exists_added cfg store order mempool txs with ⟨records, hadd, hadded⟩
      have hstep : step cfg { mempool := mempool, phase := .gotTxs txs } (.add store order) =
          .ok {
            mempool := records.foldl (Mempool.index cfg) (mempool.storeTxs txs)
            phase := .idle } :=
        bind_eq_ok.mpr ⟨_, hadd, rfl⟩
      rw [hstep]
      exact .add (fun _ h => Or.inl h) (Or.inr rfl) hadded
    | _ => exact .stay cfg _ _
  | addByTxid store order rpc txid =>
    have hstep : step cfg { mempool := mempool, phase := phase } (.addByTxid store order rpc txid) =
        (Mempool.addByTxid cfg store order rpc mempool txid >>=
          fun result => .ok { mempool := result.1, phase := phase }) := by
      cases phase with
      | _ => rfl
    rw [hstep]
    rcases Mempool.addByTxid_cases cfg store order rpc mempool txid with
      ⟨hsame, _⟩ | ⟨tx, records, _, _, hreply, hadded, hadd⟩
    · rw [hsame]
      exact .stay cfg _ _
    · rw [hadd]
      refine .add ?_ (Or.inl rfl) hadded
      intro tx' htx'
      rw [MempoolAction.txs, hreply]
      exact Or.inr htx'

end

/-!
## No panics
-/

structure Safe (cfg : Config) (s : MempoolSystem) (journal : List IndexedTx) :
    Prop where
  indexes : Mempool.Indexes cfg s.mempool journal
  pending_nodup : s.phase.pending.Nodup
  pending_stored : forall txid, txid ∈ s.phase.pending -> txid ∈ s.mempool.txstore

section Safe

variable {cfg : Config} {s s' : MempoolSystem} {journal : List IndexedTx}

theorem safe_new (cfg : Config) : Safe cfg new [] where
  indexes := Mempool.Indexes.new cfg
  pending_nodup := List.nodup_nil
  pending_stored := by
    intro txid h
    cases h

theorem Safe.move (h : Safe cfg s journal) {phase : UpdaterPhase}
    (hpending : phase.pending.Sublist s.phase.pending ∨ phase.pending = s.mempool.uniqueTxids) :
    Safe cfg { s with phase := phase } journal where
  indexes := h.indexes
  pending_nodup := by
    rcases hpending with hpending | hpending
    · exact hpending.nodup h.pending_nodup
    · change phase.pending.Nodup
      rw [hpending]
      exact Std.ExtTreeMap.nodup_keys
  pending_stored := by
    intro txid htxid
    rcases hpending with hpending | hpending
    · exact h.pending_stored txid (hpending.subset htxid)
    · change txid ∈ phase.pending at htxid
      rw [hpending] at htxid
      exact Std.ExtTreeMap.mem_keys.mp htxid

theorem Safe.add (h : Safe cfg s journal) {store : Store}
    {txs : List Transaction} {phase : UpdaterPhase} {records : List IndexedTx}
    (hphase : phase = s.phase ∨ phase = .idle)
    (hadded : Mempool.Added store s.mempool txs records) :
    Safe cfg {
        mempool := records.foldl (Mempool.index cfg) (s.mempool.storeTxs txs)
        phase := phase }
      (journal ++ records) where
  indexes := h.indexes.add hadded
  pending_nodup := by
    rcases hphase with hphase | hphase
    · rw [hphase]
      exact h.pending_nodup
    · rw [hphase]
      exact List.nodup_nil
  pending_stored := by
    intro txid htxid
    rw [Mempool.foldl_index_txstore]
    rcases hphase with hphase | hphase
    · rw [hphase] at htxid
      exact mem_writeRows.mpr (Or.inl (h.pending_stored txid htxid))
    · rw [hphase] at htxid
      cases htxid

theorem Safe.remove (h : Safe cfg s journal) (toRemove toAdd : List Txid) :
    Safe cfg {
        mempool := s.mempool.dropTxids toRemove
        phase := .removed toAdd }
      (journal.filter fun r => r.txid ∉ toRemove) where
  indexes := h.indexes.dropTxids toRemove
  pending_nodup := List.nodup_nil
  pending_stored := by
    intro txid htxid
    cases htxid

theorem Safe.remove_eq (h : Safe cfg s journal) {toRemove toAdd : List Txid}
    (hphase : s.phase = .gotTxids toRemove toAdd) :
    Mempool.remove s.mempool toRemove = .ok (s.mempool.dropTxids toRemove) := by
  have hnodup := h.pending_nodup
  have hstored := h.pending_stored
  rw [hphase] at hnodup hstored
  exact Mempool.remove_eq_ok.mpr ⟨hnodup, hstored, rfl⟩

theorem Safe.step (h : Safe cfg s journal) (action : MempoolAction) :
    exists s' journal', step cfg s action = .ok s' ∧ Safe cfg s' journal' := by
  have hkind := step_kind cfg s action
  generalize MempoolSystem.step cfg s action = result at hkind
  cases hkind with
  | move hpending _ => exact ⟨_, journal, rfl, h.move hpending⟩
  | add _ hphase hadded => exact ⟨_, _, rfl, h.add hphase hadded⟩
  | @remove toRemove toAdd _ hphase =>
    rw [h.remove_eq hphase]
    exact ⟨_, _, rfl, h.remove toRemove toAdd⟩

theorem exists_safe (cfg : Config) (actions : List MempoolAction) :
    exists s journal, run cfg actions = .ok s ∧ Safe cfg s journal := by
  induction actions using List.reverseRecOn with
  | nil => exact ⟨new, [], rfl, safe_new cfg⟩
  | append_singleton front action ih =>
    rcases ih with ⟨s, journal, hrun, hsafe⟩
    rcases hsafe.step action with ⟨s', journal', hstep, hsafe'⟩
    refine ⟨s', journal', ?_, hsafe'⟩
    rw [run, foldlM_concat, ← run, hrun, ok_bind, hstep]

end Safe

/-- The states in which no `missing mempool tx` failure can be reached. -/
structure NoPanic (s : MempoolSystem) : Prop where
  history_stored : forall (scripthash : FullHash) (entry : TxHistoryInfo),
    entry ∈ s.mempool.history[scripthash]?.getD [] -> entry.getTxid ∈ s.mempool.txstore
  remove_stored : forall toRemove toAdd, s.phase = .gotTxids toRemove toAdd ->
      forall txid, txid ∈ toRemove -> txid ∈ s.mempool.txstore
  entry_once : forall scripthash : FullHash,
    ((s.mempool.history[scripthash]?.getD []).map TxHistoryInfo.slot).Nodup
  entry_unique : forall (scripthash scripthash' : FullHash) (entry entry' : TxHistoryInfo),
    entry ∈ s.mempool.history[scripthash]?.getD [] ->
    entry' ∈ s.mempool.history[scripthash']?.getD [] ->
    entry.slot = entry'.slot -> scripthash = scripthash' ∧ entry = entry'
  history_ok : forall scripthash lastSeenTxid limit,
    exists txs, s.mempool.historyOf scripthash lastSeenTxid limit = .ok txs
  historyGroup_ok : forall scripthashes lastSeenTxid limit, exists txs,
      s.mempool.historyGroup scripthashes lastSeenTxid limit = .ok txs

/-- No interleaving of one updater with broadcasts fails, nor a reader in between. -/
theorem mempool_never_panics (cfg : Config) (actions : List MempoolAction) :
    exists s, run cfg actions = .ok s ∧ NoPanic s := by
  rcases exists_safe cfg actions with ⟨s, journal, hrun, hsafe⟩
  refine ⟨s, hrun, ?_⟩
  exact {
    history_stored := fun _ _ h => hsafe.indexes.getTxid_mem h
    remove_stored := by
      intro toRemove toAdd hphase txid htxid
      apply hsafe.pending_stored
      rw [hphase]
      exact htxid
    entry_once := hsafe.indexes.nodup_bucket
    entry_unique := fun _ _ _ _ h h' hslot =>
      hsafe.indexes.eq_of_slot_eq h h' hslot
    history_ok := hsafe.indexes.exists_historyOf
    historyGroup_ok := hsafe.indexes.exists_historyGroup }

/-!
## Edges

A broadcast may replace a transaction before the updater removes it.  The edge then belongs to
the one indexed last.
-/

/--
Every input of an indexed transaction has an edge, and the edge names an input of a
stored transaction that spends the same output.
-/
def EdgesExact (m : Mempool) : Prop :=
  forall (txid : Txid) (tx : Transaction), m.txstore[txid]? = some tx ->
    txid ∈ m.feeinfo -> forall txi, txi ∈ tx.input ->
      exists (txid' : Txid) (vin : UInt32) (tx' : Transaction) (txi' : TxIn),
        m.edges[txi.previousOutput]? = some (txid', vin) ∧
        m.txstore[txid']? = some tx' ∧ tx'.input[vin.toNat]? = some txi' ∧
        txi'.previousOutput = txi.previousOutput

def KeepsEdges (m : Mempool) (toRemove : List Txid) : Prop :=
  forall (outpoint : OutPoint) (edge : Txid × UInt32),
    m.edges[outpoint]? = some edge -> edge.1 ∈ toRemove ->
    forall (txid : Txid) (tx : Transaction), m.txstore[txid]? = some tx ->
      txid ∈ m.feeinfo -> txid ∉ toRemove ->
      forall txi, txi ∈ tx.input -> txi.previousOutput ≠ outpoint

section Edges

variable {L : TxCommitments} {cfg : Config} {m : Mempool}
  {journal : List IndexedTx} {s : MempoolSystem}

theorem edgesExact_iff (h : Mempool.Indexes cfg m journal)
    (hcommitted : Mempool.Committed L m journal) :
    EdgesExact m <->
      forall r, r ∈ journal -> forall txi, txi ∈ r.tx.input -> txi.previousOutput ∈ m.edges := by
  constructor
  · intro hexact r hr txi htxi
    rcases mem_iff_exists.mp (h.stored r hr) with ⟨tx, htx⟩
    rw [← hcommitted.input_eq hr htx] at htxi
    rcases hexact r.txid tx htx (h.mem_feeinfo.mpr ⟨r, hr, rfl⟩) txi htxi
      with ⟨txid', vin, _, _, hedge, _⟩
    exact mem_of_getElem? hedge
  · intro hkeys txid tx htx hfee txi htxi
    rcases h.mem_feeinfo.mp hfee with ⟨r, hr, htxid⟩
    rw [← htxid] at htx
    rw [hcommitted.input_eq hr htx] at htxi
    rcases mem_iff_exists.mp (hkeys r hr txi htxi) with ⟨edge, hedge⟩
    -- the edge was written for an input of a transaction of the journal
    rcases h.edges _ edge hedge with ⟨r', hr', hrow⟩
    rcases Mempool.mem_edgeRows.mp hrow with ⟨i, txi', htxi', hsame, heq⟩
    rcases mem_iff_exists.mp (h.stored r' hr') with ⟨tx', htx'⟩
    refine ⟨r'.txid, i.toUInt32, tx', txi', ?_, htx', ?_, hsame⟩
    · rw [hedge, heq]
      rfl
    · rw [hcommitted.input_eq hr' htx', toNat_toUInt32 (input_index_lt htxi'), htxi']

structure Tracked (L : TxCommitments) (cfg : Config) (s : MempoolSystem)
    (journal : List IndexedTx) : Prop extends Safe cfg s journal where
  committed : Mempool.Committed L s.mempool journal
  fetched : forall tx, tx ∈ s.phase.fetched -> L.Has tx

theorem tracked_new (L : TxCommitments) (cfg : Config) :
    Tracked L cfg new [] where
  toSafe := safe_new cfg
  committed := Mempool.Committed.new L
  fetched := by
    intro tx h
    cases h

section

variable (h : Tracked L cfg s journal)

include h

theorem Tracked.edgesExact_iff :
    EdgesExact s.mempool <->
      forall r, r ∈ journal -> forall txi, txi ∈ r.tx.input ->
        txi.previousOutput ∈ s.mempool.edges :=
  MempoolSystem.edgesExact_iff h.indexes h.committed

theorem Tracked.add {store : Store} {txs : List Transaction} {phase : UpdaterPhase}
    {records : List IndexedTx} (htxs : forall tx, tx ∈ txs -> L.Has tx)
    (hphase : phase = s.phase ∨ phase = .idle)
    (hadded : Mempool.Added store s.mempool txs records) :
    Tracked L cfg {
        mempool := records.foldl (Mempool.index cfg) (s.mempool.storeTxs txs)
        phase := phase }
      (journal ++ records) where
  toSafe := h.toSafe.add hphase hadded
  committed := h.committed.add htxs hadded
  fetched := by
    intro tx htx
    rcases hphase with hphase | hphase
    · rw [hphase] at htx
      exact h.fetched tx htx
    · rw [hphase] at htx
      cases htx

theorem Tracked.remove (toRemove toAdd : List Txid) :
    Tracked L cfg {
        mempool := s.mempool.dropTxids toRemove
        phase := .removed toAdd }
      (journal.filter fun r => r.txid ∉ toRemove) where
  toSafe := h.toSafe.remove toRemove toAdd
  committed := h.committed.dropTxids toRemove
  fetched := by
    intro tx htx
    cases htx

theorem Tracked.edgesExact_remove_iff (hexact : EdgesExact s.mempool) (toRemove toAdd : List Txid) :
    EdgesExact (s.mempool.dropTxids toRemove) <-> KeepsEdges s.mempool toRemove := by
  have hkeys := h.edgesExact_iff.mp hexact
  rw [(h.remove toRemove toAdd).edgesExact_iff]
  constructor
  · intro hafter outpoint edge hedge hremoved txid tx htx hfee hstays txi htxi hsame
    rcases h.indexes.mem_feeinfo.mp hfee with ⟨r, hr, htxid⟩
    rw [← htxid] at htx hstays
    rw [h.committed.input_eq hr htx] at htxi
    have hmem := hafter r (List.mem_filter.mpr ⟨hr, decide_eq_true hstays⟩) txi htxi
    rcases mem_iff_exists.mp hmem with ⟨edge', hedge'⟩
    rw [Mempool.getElem?_dropTxids_edges, hsame, hedge] at hedge'
    rcases Option.filter_eq_some_iff.mp hedge' with ⟨heq, hkept⟩
    cases heq
    exact of_decide_eq_true hkept hremoved
  · intro hkeeps r hr txi htxi
    rcases List.mem_filter.mp hr with ⟨hr, hstays⟩
    rcases mem_iff_exists.mp (hkeys r hr txi htxi) with ⟨edge, hedge⟩
    rcases mem_iff_exists.mp (h.indexes.stored r hr) with ⟨tx, htx⟩
    have hkept : edge.1 ∉ toRemove := by
      intro hremoved
      apply hkeeps _ edge hedge hremoved r.txid tx htx
        (h.indexes.mem_feeinfo.mpr ⟨r, hr, rfl⟩) (of_decide_eq_true hstays) txi
      · rw [h.committed.input_eq hr htx]
        exact htxi
      · rfl
    apply mem_of_getElem? (v := edge)
    rw [Mempool.getElem?_dropTxids_edges, hedge]
    exact Option.filter_eq_some_iff.mpr ⟨rfl, decide_eq_true hkept⟩

theorem Tracked.edgesExact_add {store : Store} {txs : List Transaction} {phase : UpdaterPhase}
    {records : List IndexedTx} (htxs : forall tx, tx ∈ txs -> L.Has tx)
    (hphase : phase = s.phase ∨ phase = .idle) (hadded : Mempool.Added store s.mempool txs records)
    (hexact : EdgesExact s.mempool) :
    EdgesExact (records.foldl (Mempool.index cfg) (s.mempool.storeTxs txs)) := by
  have hkeys := h.edgesExact_iff.mp hexact
  rw [(h.add htxs hphase hadded).edgesExact_iff]
  intro r hr txi htxi
  rw [Mempool.foldl_index_edges, mem_writeRows]
  rcases List.mem_append.mp hr with hr | hr
  · exact Or.inl (hkeys r hr txi htxi)
  · right
    rcases List.getElem?_of_mem htxi with ⟨i, hi⟩
    exact List.mem_map.mpr ⟨(txi.previousOutput, (r.tx.txid, i.toUInt32)),
      List.mem_flatMap.mpr ⟨r, hr, Mempool.mem_edgeRows.mpr ⟨i, txi, hi, rfl, rfl⟩⟩, rfl⟩

theorem Tracked.step {action : MempoolAction} (haction : forall tx, tx ∈ action.txs -> L.Has tx) :
    exists s' journal', step cfg s action = .ok s' ∧ Tracked L cfg s' journal' ∧
      (EdgesExact s.mempool -> (forall toRemove toAdd, action = .remove ->
          s.phase = .gotTxids toRemove toAdd -> KeepsEdges s.mempool toRemove) ->
        EdgesExact s'.mempool) := by
  have hkind := step_kind cfg s action
  generalize MempoolSystem.step cfg s action = result at hkind
  cases hkind with
  | move hpending hfetched =>
    refine ⟨_, journal, rfl, ⟨h.toSafe.move hpending, h.committed, ?_⟩, fun hexact _ => hexact⟩
    intro tx htx
    rcases hfetched tx htx with hold | hnew
    · exact h.fetched tx hold
    · exact haction tx hnew
  | @add _ txs _ _ htxs hphase hadded =>
    have hhas : forall tx, tx ∈ txs -> L.Has tx := by
      intro tx htx
      rcases htxs tx htx with hold | hnew
      · exact h.fetched tx hold
      · exact haction tx hnew
    exact ⟨_, _, rfl, h.add hhas hphase hadded,
      fun hexact _ => h.edgesExact_add hhas hphase hadded hexact⟩
  | @remove toRemove toAdd hremove hphase =>
    rw [h.toSafe.remove_eq hphase]
    refine ⟨_, _, rfl, h.remove toRemove toAdd, ?_⟩
    intro hexact hkeeps
    exact (h.edgesExact_remove_iff hexact toRemove toAdd).mpr (hkeeps toRemove toAdd hremove hphase)

end

end Edges

def EdgesExactThroughout (cfg : Config) (actions : List MempoolAction) : Prop :=
  forall front, front <+: actions -> forall s, run cfg front = .ok s -> EdgesExact s.mempool

def RemovesKeepEdges (cfg : Config) (actions : List MempoolAction) : Prop :=
  forall front, front ++ [.remove] <+: actions -> forall s toRemove toAdd, run cfg front = .ok s ->
      s.phase = .gotTxids toRemove toAdd -> KeepsEdges s.mempool toRemove

/-- The edges stay exact exactly if no remove drops one of an output that a transaction spends
which stays in the index. -/
theorem edgesExactThroughout_iff {L : TxCommitments} {cfg : Config} {actions : List MempoolAction}
    (hactions : forall action, action ∈ actions -> forall tx, tx ∈ action.txs -> L.Has tx) :
    EdgesExactThroughout cfg actions <-> RemovesKeepEdges cfg actions := by
  refine (throughout_iff (I := fun s => exists journal, Tracked L cfg s journal)
    (P := fun s => EdgesExact s.mempool)
    (C := fun s action => forall toRemove toAdd, action = .remove ->
      s.phase = .gotTxids toRemove toAdd -> KeepsEdges s.mempool toRemove)
    ⟨[], tracked_new L cfg⟩ ?_ ?_).trans ?_
  · exact (tracked_new L cfg).edgesExact_iff.mpr fun r hr => absurd hr List.not_mem_nil
  · intro s action s' hmem htracked hstep
    rcases htracked with ⟨journal, htracked⟩
    rcases htracked.step (hactions action hmem) with ⟨s'', journal', hstep', htracked', hnext⟩
    cases hstep.symm.trans hstep'
    refine ⟨⟨journal', htracked'⟩, fun hexact => ⟨?_, hnext hexact⟩⟩
    intro hafter toRemove toAdd haction hphase
    rcases s with ⟨mempool, phase⟩
    cases haction
    cases hphase
    rcases bind_eq_ok.mp hstep with ⟨m, hremove, hpure⟩
    cases (htracked.toSafe.remove_eq rfl).symm.trans hremove
    cases pure_eq_ok.mp hpure
    exact (htracked.edgesExact_remove_iff hexact toRemove toAdd).mp hafter
  · constructor
    · intro h front hfront s toRemove toAdd hrun hphase
      -- the remove does not fail
      rcases exists_safe cfg (front ++ [.remove]) with ⟨s', _, hrun', _⟩
      rw [run, foldlM_concat, ← run, hrun] at hrun'
      exact h front .remove hfront s s' hrun hrun' toRemove toAdd rfl hphase
    · intro h front action hfront s s' hrun hstep toRemove toAdd haction hphase
      rw [haction] at hfront
      exact h front hfront s toRemove toAdd hrun hphase

theorem keepsEdges_of_forall {m : Mempool} {toRemove : List Txid}
    (h : forall row, row ∈ m.edges.toList -> row.2.1 ∉ toRemove) :
    KeepsEdges m toRemove := by
  intro outpoint edge hedge hremoved
  exact absurd hremoved (h _ (Std.ExtTreeMap.mem_toList_iff_getElem?_eq_some.mpr hedge))

end MempoolSystem

/-!
## A replacement between two sections
-/

namespace Sample

def mempoolConfig : Config where
  toIndexerConfig := config
  mempoolRecentTxsSize := 10
  utxosLimit := 500

def confirmedStore : Store where
  disk := {
    Disk.empty with
    txstore := (∅ : TxstoreTable).insert (.txout { txid := 101, vout := 0 })
      (.txOut { value := 50, scriptPubkey := [1] }) }
  addedBlockhashes := ∅
  indexedBlockhashes := ∅
  indexedHeaders := HeaderList.empty

def original : Transaction :=
  payment 201 101 [7]

def replacement : Transaction :=
  payment 202 101 [8]

def commitmentsOf (txs : List Transaction) : TxCommitments where
  input txid := ((txs.find? fun tx => tx.txid = txid).map Transaction.input).getD []
  output txid := ((txs.find? fun tx => tx.txid = txid).map Transaction.output).getD []

def commitments : TxCommitments :=
  commitmentsOf [original, replacement]

def broadcast (tx : Transaction) : MempoolAction :=
  .addByTxid confirmedStore .ascending
    { getmempooltxids := none
      gettransactions := fun _ => none
      getmempooltx := fun _ => some tx } tx.txid

def lateAdd : List MempoolAction :=
  [.readTxids, .getmempooltxids (some [201]), .remove,
    .gettransactions (some [original]), broadcast replacement,
    .add confirmedStore .ascending, .readTxids, .getmempooltxids (some [202]),
    .remove]

/-- The late add takes over the edge, the next remove drops it, and the replacement has none. -/
theorem edge_lost_after_late_add :
    exists s, MempoolSystem.run mempoolConfig lateAdd = .ok s ∧
      s.mempool.uniqueTxids = [202] ∧ (202 : Txid) ∈ s.mempool.feeinfo ∧
      s.mempool.hasSpend { txid := 101, vout := 0 } = false ∧
      ¬ MempoolSystem.EdgesExact s.mempool := by
  have heval : exists s, MempoolSystem.run mempoolConfig lateAdd = .ok s ∧
      s.mempool.uniqueTxids = [202] ∧ (202 : Txid) ∈ s.mempool.feeinfo ∧
      s.mempool.txstore[(202 : Txid)]? = some replacement ∧
      s.mempool.hasSpend { txid := 101, vout := 0 } = false := by
    decide +kernel
  rcases heval with ⟨s, hrun, htxids, hfee, htx, hspend⟩
  refine ⟨s, hrun, htxids, hfee, hspend, ?_⟩
  intro hexact
  rcases hexact 202 replacement htx hfee
    { previousOutput := { txid := 101, vout := 0 } } (by decide)
    with ⟨_, _, _, _, hedge, _⟩
  exact of_decide_eq_false hspend (mem_of_getElem? hedge)

def earlyAdd : List MempoolAction :=
  [broadcast original, broadcast replacement, .readTxids, .getmempooltxids (some [202]), .remove]

def beforeRemove : List MempoolAction :=
  [broadcast original, broadcast replacement, .readTxids, .getmempooltxids (some [202])]

theorem edges_exact_after_replacement :
    MempoolSystem.RemovesKeepEdges mempoolConfig earlyAdd ∧
      MempoolSystem.EdgesExactThroughout mempoolConfig earlyAdd := by
  have hactions : forall action, action ∈ earlyAdd ->
      forall tx, tx ∈ action.txs -> commitments.Has tx := by
    have horiginal : commitments.Has original := ⟨rfl, rfl⟩
    have hreplacement : commitments.Has replacement := ⟨rfl, rfl⟩
    simp [earlyAdd, broadcast, MempoolAction.txs, horiginal, hreplacement]
  have hkeeps : MempoolSystem.RemovesKeepEdges mempoolConfig earlyAdd := by
    intro front hfront s toRemove toAdd hrun hphase
    have hbefore : front = beforeRemove := by
      rcases List.prefix_concat_iff.mp (show _ <+: beforeRemove ++ [.remove] from hfront)
        with heq | hpre
      · exact List.append_inj_left' heq rfl
      · have hmem := hpre.subset (List.mem_append_right front (List.mem_singleton.mpr rfl))
        simp [beforeRemove, broadcast] at hmem
    rw [hbefore] at hrun
    apply MempoolSystem.keepsEdges_of_forall
    have heval : exists s, MempoolSystem.run mempoolConfig beforeRemove = .ok s ∧
        forall row, row ∈ s.mempool.edges.toList -> row.2.1 ∉ s.phase.pending := by
      decide +kernel
    rcases heval with ⟨s', hrun', hrows⟩
    rw [hrun] at hrun'
    cases hrun'
    rw [hphase] at hrows
    exact hrows
  exact ⟨hkeeps, (MempoolSystem.edgesExactThroughout_iff hactions).mpr hkeeps⟩

end Sample

end NewIndex
end Splora
