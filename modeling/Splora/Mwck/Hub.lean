import Splora.Mwck.Client
import Splora.Foundation.Segment

/-!
# The hub

On a new tip the hub compares the blocks that it last reported with the best chain: those no
longer there are reported as removed, those in their places and at new heights as confirmed.  A
call returns what it sends, and to which client.
-/

namespace Splora
namespace Mwck

open Foundation Electrum

structure TipBlock where
  hash : BlockHash
  txs : List Value

structure HubClient where
  state : ClientState
  out : Bool

structure MwckHub where
  clients : Table Nat HubClient compare
  nextId : Nat
  recentConfirmed : Table Nat TipBlock compare
  mempoolTxBodies : MempoolTxBodies

abbrev Sent := List (Nat × Value)

namespace MwckHub

def new : MwckHub where
  clients := ∅
  nextId := 1
  recentConfirmed := ∅
  mempoolTxBodies := MempoolTxBodies.default

def attach (hub : MwckHub) (state : ClientState) (out : Bool) : MwckHub :=
  { hub with
    clients := hub.clients.insert hub.nextId { state := state, out := out }
    nextId := hub.nextId + 1 }

def setClientState (hub : MwckHub) (id : Nat) (state : ClientState) : MwckHub :=
  match hub.clients[id]? with
  | some client =>
    { hub with clients := hub.clients.insert id { client with state := state } }
  | none => hub

def detachClient (hub : MwckHub) (id : Nat) : MwckHub :=
  { hub with clients := hub.clients.erase id }

def pending (hub : MwckHub) (message : ClientState -> Option Value) : Sent :=
  hub.clients.toList.filterMap fun row =>
    if row.2.out then (message row.2.state).map fun ev => (row.1, ev) else none

/-- `query` is the body of a txid in the index. -/
def notifyMempool (query : Option (Text -> Option Value)) (hub : MwckHub)
    (added removed : List Value) : Sent × MwckHub :=
  let bodies := rememberMempoolBodies hub.mempoolTxBodies added
  let (removed, bodies) := enrichRemoved query bodies removed
  (hub.pending fun state => state.onMempool added removed, { hub with mempoolTxBodies := bodies })

def notifyBlock (hub : MwckHub) (confirmed : List Value) : Sent :=
  hub.pending fun state => state.onBlock confirmed

def notifyBlocks (hub : MwckHub) (blocks : List (List Value)) : Sent :=
  let confirmed := blocks.flatten
  if !confirmed.isEmpty then hub.notifyBlock confirmed else []

/-!
## New tips
-/

def staleHeights (blockAt : Nat -> Except ε (Option TipBlock))
    (recent : Table Nat TipBlock compare) : Except ε (List Nat) := do
  let checked <- recent.toList.mapM fun row => do
    let cur <- blockAt row.1
    return if cur.any fun cur => cur.hash = row.2.hash then none else some row.1
  return checked.reduceOption

def currentRows (blockAt : Nat -> Except ε (Option TipBlock)) (heights : List Nat) :
    Except ε (List (Nat × TipBlock)) := do
  let rows <- heights.mapM fun h => do
    let cur <- blockAt h
    return cur.map fun block => (h, block)
  return rows.reduceOption

def newHeights (recent replacements : Table Nat TipBlock compare)
    (prevHeight newHeight : Nat) : List Nat :=
  if newHeight > prevHeight then
    (List.range' (prevHeight + 1) (newHeight - prevHeight)).filter fun h =>
      h ∉ recent && h ∉ replacements
  else
    []

def announce (query : Option (Text -> Option Value)) (hub : MwckHub)
    (orphaned : List Value) (blocks : List (List Value)) : Sent × MwckHub :=
  let (removals, hub) :=
    if !orphaned.isEmpty then hub.notifyMempool query [] orphaned else ([], hub)
  (removals ++ hub.notifyBlocks (blocks.filter fun txs => !txs.isEmpty), hub)

def notifyNewTip (blockAt : Nat -> Except ε (Option TipBlock))
    (query : Option (Text -> Option Value)) (hub : MwckHub)
    (prevHeight newHeight : Nat) : Except ε (Sent × MwckHub) := do
  let stale <- staleHeights blockAt hub.recentConfirmed
  let orphaned := (stale.filterMap fun h => hub.recentConfirmed[h]?).flatMap TipBlock.txs
  let recent := replay hub.recentConfirmed (stale.map TableOp.delete)
  let current <- currentRows blockAt stale
  let replacements := writeRows ∅ current
  let forward <- currentRows blockAt (newHeights recent replacements prevHeight newHeight)
  let toStore := replacements.toList ++ forward
  let (sent, hub) := hub.announce query orphaned (toStore.map fun row => row.2.txs)
  let recent := writeRows recent toStore
  return (sent, { hub with
    recentConfirmed := recent.filter fun h _ => decide (newHeight - 16 ≤ h) })

end MwckHub

/-!
## What a client is sent
-/

def Sent.to (sent : Sent) (id : Nat) : List Value :=
  sent.filterMap fun delivery => if delivery.1 = id then some delivery.2 else none

theorem Sent.to_append (sent sent' : Sent) (id : Nat) :
    Sent.to (sent ++ sent') id = sent.to id ++ sent'.to id :=
  List.filterMap_append

/-- The removals and the confirmations are listed once, the removals first; there may be other
removals. -/
structure Told (sub : Subscription) (messages removals confirmations : List Value) :
    Prop where
  removed : ((messages.flatMap (sub.listed .removed)).filter fun v =>
    decide (txidOf v ∈ removals.map txidOf)).Perm removals
  confirmed : (messages.flatMap (sub.listed .confirmed)).Perm confirmations
  removals_first : messages.Pairwise fun message message' =>
    sub.listed .confirmed message ≠ [] -> sub.listed .removed message' = []

structure MwckHub.Subscribed (hub : MwckHub) (id : Nat) (sub : Subscription)
    (key : Text) : Prop where
  exists_client : exists client, hub.clients[id]? = some client ∧ client.out = true ∧
    client.state.matchKey sub = some key

section Delivery

variable {hub : MwckHub} {id : Nat} {client : HubClient} {sub : Subscription}
  {key : Text} {query : Option (Text -> Option Value)}

theorem to_pending (h : hub.clients[id]? = some client) (hout : client.out = true)
    (message : ClientState -> Option Value) :
    (hub.pending message).to id = (message client.state).toList := by
  have hrestrict : (hub.pending message).to id =
      (hub.clients.toList.filter fun row => row.1 = id).filterMap fun row =>
        if row.2.out then message row.2.state else none := by
    unfold MwckHub.pending Sent.to
    rw [List.filterMap_filterMap, List.filterMap_filter]
    refine List.filterMap_congr ?_
    intro row _
    by_cases hout : row.2.out = true
    · cases message row.2.state with
      | none => simp [hout]
      | some ev => simp [hout]
    · simp [hout]
  rw [hrestrict, filter_toList_eq h]
  cases hmessage : message client.state with
  | none => simp [hout, hmessage]
  | some ev => simp [hout, hmessage]

theorem preferFullRemoved_of_full {removed : List Value}
    (h : forall v, v ∈ removed -> isFullTxObject v = true)
    (available : Table Text Value compare) :
    preferFullRemoved removed available = removed := by
  unfold preferFullRemoved
  refine (List.map_congr_left ?_).trans (List.map_id _)
  intro v hv
  rw [if_pos (h v hv)]
  rfl

theorem listed_notifyMempool (query : Option (Text -> Option Value))
    (h : hub.Subscribed id sub key) (added removed : List Value) (bucket : Bucket) :
    ((hub.notifyMempool query added removed).1.to id).flatMap (sub.listed bucket) =
      TxBuckets.get {
        mempool := matching key added
        confirmed := []
        removed := matching key (enrichRemoved query
          (rememberMempoolBodies hub.mempoolTxBodies added) removed).1 } bucket := by
  rcases h.exists_client with ⟨client, hclient, hout, hkey⟩
  rw [MwckHub.notifyMempool, to_pending hclient hout]
  exact listed_onMempool hkey _ _ bucket

theorem listed_notifyBlocks (h : hub.Subscribed id sub key) (blocks : List (List Value))
    (bucket : Bucket) :
    ((hub.notifyBlocks blocks).to id).flatMap (sub.listed bucket) =
      TxBuckets.get {
        mempool := []
        confirmed := matching key blocks.flatten
        removed := [] } bucket := by
  rcases h.exists_client with ⟨client, hclient, hout, hkey⟩
  unfold MwckHub.notifyBlocks
  dsimp only
  split
  · rw [MwckHub.notifyBlock, to_pending hclient hout]
    exact listed_onBlock hkey _ bucket
  · rename_i hempty
    rw [Bool.not_eq_true', Bool.not_eq_false, List.isEmpty_iff] at hempty
    rw [hempty]
    cases bucket with
    | mempool => rfl
    | confirmed => rfl
    | removed => rfl

theorem Subscribed.of_clients {hub' : MwckHub} (h : hub.Subscribed id sub key)
    (heq : hub'.clients = hub.clients) : hub'.Subscribed id sub key := by
  refine ⟨?_⟩
  rw [heq]
  exact h.exists_client

theorem listed_announce_removals (query : Option (Text -> Option Value))
    (h : hub.Subscribed id sub key) {orphaned : List Value}
    (hfull : forall v, v ∈ orphaned -> isFullTxObject v = true) (bucket : Bucket) :
    ((if !orphaned.isEmpty then hub.notifyMempool query [] orphaned
      else ([], hub)).1.to id).flatMap (sub.listed bucket) =
        TxBuckets.get {
          mempool := []
          confirmed := []
          removed := matching key orphaned } bucket := by
  split
  · have hlisted := listed_notifyMempool query h [] orphaned bucket
    rw [enrichRemoved, preferFullRemoved_of_full hfull] at hlisted
    exact hlisted
  · rename_i hempty
    rw [Bool.not_eq_true', Bool.not_eq_false, List.isEmpty_iff] at hempty
    rw [hempty]
    cases bucket with
    | mempool => rfl
    | confirmed => rfl
    | removed => rfl

theorem filter_txidOf {vs removals : List Value} (h : vs ⊆ removals) :
    (vs.filter fun v => decide (txidOf v ∈ removals.map txidOf)) = vs := by
  refine List.filter_eq_self.mpr ?_
  intro v hv
  exact decide_eq_true (List.mem_map_of_mem (h hv))

theorem pairwise_of_not_confirmed {before : List Value} (messages : List Value)
    (h : forall message, message ∈ before -> sub.listed .confirmed message = []) :
    ((before ++ messages).Pairwise fun message message' =>
        sub.listed .confirmed message ≠ [] -> sub.listed .removed message' = []) <->
      messages.Pairwise fun message message' =>
        sub.listed .confirmed message ≠ [] -> sub.listed .removed message' = [] := by
  rw [List.pairwise_append]
  refine ⟨fun hall => hall.right.left, fun hmessages => ⟨?_, hmessages, ?_⟩⟩
  · refine List.Pairwise.imp_of_mem ?_ (List.pairwise_of_forall fun _ _ => trivial)
    intro message _ hmem _ _ hne
    exact absurd (h message hmem) hne
  · intro message hmem _ _ hne
    exact absurd (h message hmem) hne

theorem told_append {before messages removals confirmations : List Value}
    (hconfirmed : before.flatMap (sub.listed .confirmed) = [])
    (hremoved : forall v, v ∈ before.flatMap (sub.listed .removed) ->
      txidOf v ∉ removals.map txidOf) :
    Told sub (before ++ messages) removals confirmations <->
      Told sub messages removals confirmations := by
  have hnone : ((before.flatMap (sub.listed .removed)).filter fun v =>
      decide (txidOf v ∈ removals.map txidOf)) = [] := by
    refine List.filter_eq_nil_iff.mpr ?_
    intro v hv
    simpa using hremoved v hv
  have hfirst := pairwise_of_not_confirmed messages (List.flatMap_eq_nil_iff.mp hconfirmed)
  constructor
  · intro h
    have hremoved := h.removed
    have hconfirmed' := h.confirmed
    rw [List.flatMap_append, List.filter_append, hnone] at hremoved
    rw [List.flatMap_append, hconfirmed] at hconfirmed'
    exact ⟨hremoved, hconfirmed', hfirst.mp h.removals_first⟩
  · intro h
    refine ⟨?_, ?_, hfirst.mpr h.removals_first⟩
    · rw [List.flatMap_append, List.filter_append, hnone]
      exact h.removed
    · rw [List.flatMap_append, hconfirmed]
      exact h.confirmed

theorem clients_announce (query : Option (Text -> Option Value)) (hub : MwckHub)
    (orphaned : List Value) (blocks : List (List Value)) :
    (hub.announce query orphaned blocks).2.clients = hub.clients := by
  unfold MwckHub.announce
  dsimp only
  split
  · rfl
  · rfl

theorem listed_announce (query : Option (Text -> Option Value))
    (h : hub.Subscribed id sub key) {orphaned : List Value}
    (hfull : forall v, v ∈ orphaned -> isFullTxObject v = true) (blocks : List (List Value)) :
    (forall bucket, ((hub.announce query orphaned blocks).1.to id).flatMap (sub.listed bucket) =
      TxBuckets.get {
        mempool := []
        confirmed := matching key blocks.flatten
        removed := matching key orphaned } bucket) ∧
      ((hub.announce query orphaned blocks).1.to id).Pairwise fun message message' =>
        sub.listed .confirmed message ≠ [] -> sub.listed .removed message' = [] := by
  have hclients := clients_announce query hub orphaned blocks
  have hblocks := listed_notifyBlocks (Subscribed.of_clients h hclients)
    (blocks.filter fun txs => !txs.isEmpty)
  rw [List.flatten_filter_not_isEmpty] at hblocks
  have hremovals := listed_announce_removals query h hfull
  unfold MwckHub.announce at hblocks ⊢
  dsimp only at hblocks ⊢
  rw [Sent.to_append]
  refine ⟨?_, (pairwise_of_not_confirmed _
    (List.flatMap_eq_nil_iff.mp (hremovals .confirmed))).mpr ?_⟩
  · intro bucket
    rw [List.flatMap_append, hremovals, hblocks]
    cases bucket with
    | mempool => rfl
    | confirmed => rfl
    | removed => exact List.append_nil _
  · refine List.Pairwise.imp_of_mem ?_ (List.pairwise_of_forall fun _ _ => trivial)
    intro _ message' _ hmem' _ _
    exact List.flatMap_eq_nil_iff.mp (hblocks .removed) message' hmem'

end Delivery

/-!
## The remembered blocks
-/

structure Diverge (l l' : List TipBlock) (fork : Nat) : Prop where
  le_left : fork ≤ l.length
  le_right : fork ≤ l'.length
  agree : forall i, i < fork -> l[i]? = l'[i]?
  differ : forall i a a', fork ≤ i -> l[i]? = some a -> l'[i]? = some a' -> a'.hash ≠ a.hash

section Tips

variable {ε : Type} {blockAt : Nat -> Except ε (Option TipBlock)}
  {recent : Table Nat TipBlock compare} {l l' : List TipBlock} {first fork m : Nat}

theorem currentRows_eq (hblock : forall h, blockAt h = .ok l'[h]?) (heights : List Nat) :
    MwckHub.currentRows blockAt heights = .ok (rowsAt l' heights) := by
  have hrows := mapM_eq_ok_map (l := heights) (f := fun h => do
      let cur <- blockAt h
      return cur.map fun block => (h, block))
    (g := fun h => l'[h]?.map fun block => (h, block))
    (fun h _ => bind_eq_ok.mpr ⟨l'[h]?, hblock h, rfl⟩)
  refine bind_eq_ok.mpr ⟨_, hrows, ?_⟩
  rw [List.reduceOption, List.filterMap_map]
  rfl

theorem staleHeights_eq (hring : HoldsFrom recent l first) (hdiverge : Diverge l l' fork)
    (hblock : forall h, blockAt h = .ok l'[h]?) :
    MwckHub.staleHeights blockAt recent =
      .ok (List.range' (max first fork) (l.length - max first fork)) := by
  have hchecked := mapM_eq_ok_map (l := recent.toList) (f := fun row => do
      let cur <- blockAt row.1
      return if cur.any fun cur => cur.hash = row.2.hash then none else some row.1)
    (g := fun row => if l'[row.1]?.any fun cur => cur.hash = row.2.hash then none
      else some row.1)
    (fun row _ => bind_eq_ok.mpr ⟨l'[row.1]?, hblock row.1, rfl⟩)
  refine bind_eq_ok.mpr ⟨_, hchecked, ?_⟩
  refine congrArg Except.ok ?_
  rw [List.reduceOption, List.filterMap_map, hring.toList_eq]
  refine eq_of_pairwise_of_mem_iff (R := fun i j => i < j) Nat.lt_irrefl
    (fun _ _ _ => Nat.lt_trans) ?_ (List.pairwise_lt_range' 1) ?_
  · refine (pairwise_rowsAt (List.pairwise_lt_range' 1)).filterMap _ ?_
    intro row row' hlt i hi j hj
    rcases Option.ite_none_left_eq_some.mp hi with ⟨_, hrow⟩
    rcases Option.ite_none_left_eq_some.mp hj with ⟨_, hrow'⟩
    rw [<- Option.some.inj hrow, <- Option.some.inj hrow']
    exact hlt
  · intro i
    rw [List.mem_filterMap, List.mem_range'_1]
    constructor
    · intro h
      rcases h with ⟨row, hrow, hi⟩
      rcases Option.ite_none_left_eq_some.mp hi with ⟨hstale, hsome⟩
      cases hsome
      rcases mem_rowsAt.mp hrow with ⟨hheld, hget⟩
      rw [List.mem_range'_1] at hheld
      have hfork : ¬ row.1 < fork := by
        intro hlt
        refine hstale ?_
        rw [<- hdiverge.agree row.1 hlt, hget]
        simp
      omega
    · intro h
      have hlt : i < l.length := by omega
      refine ⟨(i, l[i]), mem_rowsAt.mpr ⟨?_, List.getElem?_eq_getElem hlt⟩, ?_⟩
      · rw [List.mem_range'_1]
        omega
      · refine if_neg ?_
        intro hany
        cases ha' : l'[i]? with
        | none =>
          rw [ha'] at hany
          cases hany
        | some a' =>
          rw [ha'] at hany
          exact hdiverge.differ i l[i] a' (by omega) (List.getElem?_eq_getElem hlt) ha'
            (of_decide_eq_true hany)

theorem newHeights_eq {replacements : Table Nat TipBlock compare} (hl : l ≠ [])
    (hl' : l' ≠ []) (hrecent : forall i, i ∈ recent -> i < l.length)
    (hreplacements : forall i, i ∈ replacements -> i < l.length) :
    MwckHub.newHeights recent replacements (l.length - 1) (l'.length - 1) =
      List.range' l.length (l'.length - l.length) := by
  have hpos := List.length_pos_iff.mpr hl
  have hpos' := List.length_pos_iff.mpr hl'
  unfold MwckHub.newHeights
  split
  · rw [Nat.sub_add_cancel hpos, show l'.length - 1 - (l.length - 1) =
      l'.length - l.length by omega]
    refine List.filter_eq_self.mpr ?_
    intro i hi
    have hle := (List.mem_range'_1.mp hi).left
    have hnot : i ∉ recent := fun hmem => Nat.not_lt.mpr hle (hrecent i hmem)
    have hnot' : i ∉ replacements := fun hmem => Nat.not_lt.mpr hle (hreplacements i hmem)
    simp [hnot, hnot']
  · rw [show l'.length - l.length = 0 by omega]
    rfl

theorem exists_notifyNewTip {hub : MwckHub} (query : Option (Text -> Option Value))
    (hring : HoldsFrom hub.recentConfirmed l first) (hfirst : first ≤ l.length)
    (hl : l ≠ []) (hl' : l' ≠ []) (hdiverge : Diverge l l' fork)
    (hblock : forall h, blockAt h = .ok l'[h]?) :
    exists recent, hub.notifyNewTip blockAt query (l.length - 1) (l'.length - 1) =
        .ok ((hub.announce query ((l.drop (max first fork)).flatMap TipBlock.txs)
            ((l'.drop (max first fork)).map TipBlock.txs)).1,
          { (hub.announce query ((l.drop (max first fork)).flatMap TipBlock.txs)
            ((l'.drop (max first fork)).map TipBlock.txs)).2 with
              recentConfirmed := recent }) ∧
      HoldsFrom recent l' (max (min first l'.length) (l'.length - 17)) := by
  have hle : max first fork ≤ l.length := Nat.max_le.mpr ⟨hfirst, hdiverge.le_left⟩
  have hmax : first ≤ max first fork := Nat.le_max_left _ _
  generalize hm : max first fork = m at hle hmax
  have hreplacements := toList_writeRows_rowsAt (l := l')
    (List.pairwise_lt_range' (s := m) (n := l.length - m) 1)
  have hnew : forall i, i ∈ writeRows (∅ : Table Nat TipBlock compare)
      (rowsAt l' (List.range' m (l.length - m))) -> i < l.length := by
    intro i hi
    rcases mem_iff_exists.mp hi with ⟨a, ha⟩
    rw [<- Std.ExtTreeMap.mem_toList_iff_getElem?_eq_some, hreplacements] at ha
    have hrange := List.mem_range'_1.mp (mem_rowsAt.mp ha).left
    omega
  have hheights := newHeights_eq hl hl' (fun i => hring.lt_length_of_mem_replay
    (List.range' m (l.length - m))) hnew
  have hstored := map_snd_rowsAt_of_length_le (l := l') (m := m)
    (n := l.length - m + (l'.length - l.length)) (by omega)
  refine ⟨(writeRows (replay hub.recentConfirmed
      ((List.range' m (l.length - m)).map TableOp.delete))
      (rowsAt l' (List.range' m (l.length - m + (l'.length - l.length))))).filter
        fun h _ => decide (l'.length - 1 - 16 ≤ h),
    bind_eq_ok.mpr ⟨_, staleHeights_eq hring hdiverge hblock,
    bind_eq_ok.mpr ⟨_, currentRows_eq hblock _,
      bind_eq_ok.mpr ⟨_, currentRows_eq hblock _, ?_⟩⟩⟩, ?_⟩
  · rw [hm, hheights, hreplacements, rowsAt_range'_append hle,
      hring.filterMap_getElem? hmax, <- hstored, List.map_map]
    rfl
  · rw [show l'.length - 17 = l'.length - 1 - 16 from (Nat.sub_sub _ 1 16).symm]
    refine (hring.replace hmax ?_ ?_ (functional_rowsAt l' _) ?_).retain _
    · intro i hi hlt
      exact hdiverge.agree i (by omega)
    · intro i
      rw [List.mem_range'_1, Nat.add_sub_cancel' hle]
    · intro i a
      rw [mem_rowsAt, List.mem_range'_1]
      constructor
      · intro h
        exact ⟨h.left.left, h.right⟩
      · intro h
        have hlt := (List.getElem?_eq_some_iff.mp h.right).choose
        exact ⟨⟨h.left, by omega⟩, h.right⟩

theorem perm_append_iff {α : Type} {rest sent : List α} :
    sent.Perm (rest ++ sent) <-> rest = [] := by
  constructor
  · intro h
    have hlen := h.length_eq
    rw [List.length_append] at hlen
    exact List.length_eq_zero_iff.mp (by omega)
  · intro h
    rw [h]
    exact List.Perm.refl sent

theorem matching_drop (key : Text) (l : List TipBlock) (first fork : Nat) :
    matching key ((l.drop fork).flatMap TipBlock.txs) =
      matching key (((l.drop fork).take (first - fork)).flatMap TipBlock.txs) ++
        matching key ((l.drop (max first fork)).flatMap TipBlock.txs) := by
  have hsplit : l.drop fork = (l.drop fork).take (first - fork) ++ l.drop (max first fork) := by
    have hmax : max first fork = fork + (first - fork) := by omega
    rw [hmax, <- List.drop_drop, List.take_append_drop]
  unfold matching
  rw [<- List.filter_append, <- List.flatMap_append, <- hsplit]

theorem matching_take_eq_nil_iff {key : Text} {l : List TipBlock} {first fork : Nat} :
    matching key (((l.drop fork).take (first - fork)).flatMap TipBlock.txs) = [] <->
      forall i block, fork ≤ i -> i < first -> l[i]? = some block ->
        matching key block.txs = [] := by
  unfold matching
  rw [List.filter_flatMap, List.flatMap_eq_nil_iff]
  constructor
  · intro h i block hfork hfirst hget
    refine h block (List.mem_of_getElem? (i := i - fork) ?_)
    rw [List.getElem?_take_of_lt (by omega), List.getElem?_drop, Nat.add_sub_cancel' hfork]
    exact hget
  · intro h block hmem
    rcases List.getElem?_of_mem hmem with ⟨i, hget⟩
    have hlt : i < first - fork := by
      have hlen := (List.getElem?_eq_some_iff.mp hget).choose
      rw [List.length_take] at hlen
      omega
    rw [List.getElem?_take_of_lt hlt, List.getElem?_drop] at hget
    exact h (fork + i) block (Nat.le_add_right _ _) (by omega) hget

/-- The client is told of all blocks exactly if nothing before the first remembered one matches. -/
theorem told_announce_iff {hub : MwckHub} {id : Nat} {sub : Subscription} {key : Text}
    (h : hub.Subscribed id sub key) (query : Option (Text -> Option Value))
    (hfull : forall block, block ∈ l -> forall v, v ∈ block.txs -> isFullTxObject v = true)
    (l' : List TipBlock) (first fork : Nat) :
    Told sub ((hub.announce query ((l.drop (max first fork)).flatMap TipBlock.txs)
        ((l'.drop (max first fork)).map TipBlock.txs)).1.to id)
        (matching key ((l.drop fork).flatMap TipBlock.txs))
        (matching key ((l'.drop fork).flatMap TipBlock.txs)) <->
      forall i block, fork ≤ i -> i < first ->
        l[i]? = some block ∨ l'[i]? = some block -> matching key block.txs = [] := by
  have hfull' : forall v, v ∈ (l.drop (max first fork)).flatMap TipBlock.txs ->
      isFullTxObject v = true := by
    intro v hv
    rcases List.mem_flatMap.mp hv with ⟨block, hblock, hmem⟩
    exact hfull block (List.mem_of_mem_drop hblock) v hmem
  rcases listed_announce query h hfull' ((l'.drop (max first fork)).map TipBlock.txs) with
    ⟨hlisted, horder⟩
  have hremoved : _ = matching key ((l.drop (max first fork)).flatMap TipBlock.txs) :=
    hlisted .removed
  have hconfirmed : _ = matching key ((l'.drop (max first fork)).map TipBlock.txs).flatten :=
    hlisted .confirmed
  rw [<- List.flatMap_def] at hconfirmed
  rw [matching_drop key l first fork, matching_drop key l' first fork]
  constructor
  · intro htold i block hfork hfirst hget
    have hleft := htold.removed
    have hright := htold.confirmed
    rw [hremoved, filter_txidOf (List.subset_append_right _ _), perm_append_iff] at hleft
    rw [hconfirmed, perm_append_iff] at hright
    rcases hget with hget | hget
    · exact matching_take_eq_nil_iff.mp hleft i block hfork hfirst hget
    · exact matching_take_eq_nil_iff.mp hright i block hfork hfirst hget
  · intro hskipped
    have hleft := matching_take_eq_nil_iff.mpr fun i block hfork hfirst hget =>
      hskipped i block hfork hfirst (Or.inl hget)
    have hright := matching_take_eq_nil_iff.mpr fun i block hfork hfirst hget =>
      hskipped i block hfork hfirst (Or.inr hget)
    rw [hleft, hright]
    refine ⟨?_, List.Perm.of_eq hconfirmed, horder⟩
    rw [hremoved]
    exact List.Perm.of_eq (filter_txidOf fun _ hv => hv)

end Tips

end Mwck
end Splora
