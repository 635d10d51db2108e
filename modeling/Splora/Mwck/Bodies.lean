import Splora.Electrum.Server
import Splora.Foundation.EvictionQueue

/-!
# The bodies of mempool transactions

The hub keeps the JSON of mempool transactions in a map, and the order in which they came in.
`enrich_removed` takes what it reports out of the map only.
-/

namespace Splora
namespace Mwck

open Foundation Electrum

def maxMempoolTxBodies : Nat := 65536

structure MempoolTxBodies where
  byTxid : Table Text Value compare
  order : List Text

def MempoolTxBodies.default : MempoolTxBodies where
  byTxid := ∅
  order := []

def isFullTxObject (v : Value) : Bool :=
  (v.get "vin".toList).isSome || (v.get "vout".toList).isSome

def txidOf (v : Value) : Option Text :=
  (v.get "txid".toList).bind Value.asStr

def rememberMempoolBody (cache : MempoolTxBodies) (tx : Value) : MempoolTxBodies :=
  if !isFullTxObject tx then
    cache
  else
    match txidOf tx with
    | none => cache
    | some txid =>
      if txid ∈ cache.byTxid then
        { cache with byTxid := cache.byTxid.insert txid tx }
      else
        let room := EvictionQueue.makeRoom maxMempoolTxBodies cache.byTxid cache.order
        { byTxid := room.held.insert txid tx, order := room.order ++ [txid] }

def rememberMempoolBodies (cache : MempoolTxBodies) (txs : List Value) :
    MempoolTxBodies :=
  txs.foldl rememberMempoolBody cache

def txidObject (txid : Text) : Value :=
  .obj [("txid".toList, .str txid)]

def preferFullRemoved (removed : List Value) (available : Table Text Value compare) :
    List Value :=
  removed.map fun v =>
    if isFullTxObject v then
      v
    else
      match txidOf v with
      | none => v
      | some txid =>
        match available[txid]? with
        | some full => if isFullTxObject full then full else txidObject txid
        | none => txidObject txid

def addAvailable (find : Text -> Option Value) (available : Table Text Value compare)
    (v : Value) : Table Text Value compare :=
  if isFullTxObject v then
    available
  else
    match txidOf v with
    | none => available
    | some txid =>
      match find txid with
      | some full => available.insert txid full
      | none => available

def availableBodies (query : Option (Text -> Option Value)) (cache : MempoolTxBodies)
    (removed : List Value) : Table Text Value compare :=
  let known := removed.foldl (addAvailable fun txid => cache.byTxid[txid]?) ∅
  match query with
  | none => known
  | some lookup =>
    removed.foldl (fun available v => addAvailable
      (fun txid => if txid ∈ available then none else lookup txid) available v) known

/-- What is reported, and the cache without it; `query` is the body of a txid there. -/
def enrichRemoved (query : Option (Text -> Option Value)) (cache : MempoolTxBodies)
    (removed : List Value) : List Value × MempoolTxBodies :=
  (preferFullRemoved removed (availableBodies query cache removed),
    { cache with
      byTxid := (removed.filterMap txidOf).foldl (fun byTxid txid => byTxid.erase txid)
        cache.byTxid })

/-!
## Calls
-/

inductive BodiesCall where
  | remember (tx : Value)
  | enrich (query : Option (Text -> Option Value)) (removed : List Value)

def MempoolTxBodies.call (cache : MempoolTxBodies) : BodiesCall -> MempoolTxBodies
  | .remember tx => rememberMempoolBody cache tx
  | .enrich query removed => (enrichRemoved query cache removed).2

def bodiesAfter (calls : List BodiesCall) (n : Nat) : MempoolTxBodies :=
  (calls.take n).foldl MempoolTxBodies.call MempoolTxBodies.default

def bodyHeldAt (calls : List BodiesCall) (n : Nat) (txid : Text) : Prop :=
  txid ∈ (bodiesAfter calls n).byTxid

structure MempoolTxBodies.InStep (cache : MempoolTxBodies) : Prop where
  order_nodup : cache.order.Nodup
  mem_order : forall txid, txid ∈ cache.order <-> txid ∈ cache.byTxid
  order_le : cache.order.length ≤ maxMempoolTxBodies
  byTxid_le : cache.byTxid.size ≤ maxMempoolTxBodies

def RemovesNoBody (calls : List BodiesCall) : Prop :=
  forall n query removed, calls[n]? = some (.enrich query removed) ->
    forall v, v ∈ removed -> forall txid, txidOf v = some txid -> ¬ bodyHeldAt calls n txid

/-!
## The cache as a table with an eviction queue
-/

def MempoolTxBodies.toQueue (cache : MempoolTxBodies) :
    EvictionQueue Text Value compare where
  held := cache.byTxid
  order := cache.order

def bodyKey (tx : Value) : Option Text :=
  if isFullTxObject tx then txidOf tx else none

def BodiesCall.op : BodiesCall -> CacheOp Text Value
  | .remember tx => ((bodyKey tx).map fun txid => .store txid tx).getD (.drop [])
  | .enrich _ removed => .drop (removed.filterMap txidOf)

theorem rememberMempoolBody_none {cache : MempoolTxBodies} {tx : Value}
    (h : bodyKey tx = none) : rememberMempoolBody cache tx = cache := by
  unfold bodyKey at h
  unfold rememberMempoolBody
  cases hfull : isFullTxObject tx with
  | false => rfl
  | true =>
    rw [if_pos hfull] at h
    rw [h]
    rfl

theorem toQueue_remember {cache : MempoolTxBodies} {tx : Value} {txid : Text}
    (h : bodyKey tx = some txid) :
    (rememberMempoolBody cache tx).toQueue =
      cache.toQueue.store maxMempoolTxBodies txid tx := by
  rcases Option.ite_none_right_eq_some.mp h with ⟨hfull, htxid⟩
  unfold rememberMempoolBody EvictionQueue.store
  rw [hfull, htxid]
  show (if txid ∈ cache.byTxid then _ else _ : MempoolTxBodies).toQueue =
    if txid ∈ cache.byTxid then _ else _
  by_cases hheld : txid ∈ cache.byTxid
  · rw [if_pos hheld, if_pos hheld]
    rfl
  · rw [if_neg hheld, if_neg hheld]
    rfl

theorem toQueue_call (cache : MempoolTxBodies) (call : BodiesCall) :
    (cache.call call).toQueue = EvictionQueue.step maxMempoolTxBodies cache.toQueue call.op := by
  cases call with
  | enrich query removed => rfl
  | remember tx =>
    rw [BodiesCall.op]
    cases hkey : bodyKey tx with
    | none => exact congrArg MempoolTxBodies.toQueue (rememberMempoolBody_none hkey)
    | some txid => exact toQueue_remember hkey

theorem toQueue_bodiesAfter (calls : List BodiesCall) (n : Nat) :
    (bodiesAfter calls n).toQueue =
      EvictionQueue.after compare maxMempoolTxBodies (calls.map BodiesCall.op) n := by
  have hfold : forall (calls : List BodiesCall) (cache : MempoolTxBodies),
      (calls.foldl MempoolTxBodies.call cache).toQueue =
        (calls.map BodiesCall.op).foldl (EvictionQueue.step maxMempoolTxBodies)
          cache.toQueue := by
    intro calls
    induction calls with
    | nil =>
      intro cache
      rfl
    | cons call calls ih =>
      intro cache
      rw [List.foldl_cons, ih, toQueue_call, List.map_cons, List.foldl_cons]
  rw [EvictionQueue.after, <- List.map_take]
  exact hfold (calls.take n) MempoolTxBodies.default

theorem bodyHeldAt_eq (calls : List BodiesCall) :
    bodyHeldAt calls =
      EvictionQueue.heldAt compare maxMempoolTxBodies (calls.map BodiesCall.op) := by
  funext n txid
  rw [EvictionQueue.heldAt, <- toQueue_bodiesAfter]
  rfl

theorem inStep_iff (cache : MempoolTxBodies) :
    cache.InStep <-> cache.toQueue.InStep maxMempoolTxBodies := by
  constructor
  · intro h
    exact ⟨h.order_nodup, h.mem_order, h.order_le, h.byTxid_le⟩
  · intro h
    exact ⟨h.order_nodup, h.mem_order, h.order_le, h.held_le⟩

theorem op_eq_drop {call : BodiesCall} {txids : List Text} (hop : call.op = .drop txids) :
    txids = [] ∨ exists query removed, call = .enrich query removed ∧
      txids = removed.filterMap txidOf := by
  cases call with
  | enrich query removed =>
    injection hop with hop
    exact Or.inr ⟨query, removed, rfl, hop.symm⟩
  | remember tx =>
    rw [BodiesCall.op] at hop
    cases hkey : bodyKey tx with
    | none =>
      rw [hkey] at hop
      injection hop with hop
      exact Or.inl hop.symm
    | some txid =>
      rw [hkey] at hop
      cases hop

theorem removesNoBody_iff (calls : List BodiesCall) :
    RemovesNoBody calls <->
      EvictionQueue.DropsNothing compare maxMempoolTxBodies (calls.map BodiesCall.op) := by
  unfold RemovesNoBody EvictionQueue.DropsNothing
  rw [bodyHeldAt_eq]
  constructor
  · intro h n txids hop txid htxid
    rw [List.getElem?_map] at hop
    rcases Option.map_eq_some_iff.mp hop with ⟨call, hcall, hop⟩
    rcases op_eq_drop hop with hnil | ⟨query, removed, henrich, htxids⟩
    · rw [hnil] at htxid
      cases htxid
    · rw [htxids] at htxid
      rw [henrich] at hcall
      rcases List.mem_filterMap.mp htxid with ⟨v, hv, hsome⟩
      exact h n query removed hcall v hv txid hsome
  · intro h n query removed hcall v hv txid hsome
    refine h n (removed.filterMap txidOf) ?_ txid (List.mem_filterMap.mpr ⟨v, hv, hsome⟩)
    rw [List.getElem?_map, hcall]
    rfl

/-- Order and map are in step after each call, and a body is evicted only for newer ones, exactly
if no removal reports a transaction whose body is held. -/
theorem bodies_in_step_iff (calls : List BodiesCall) :
    ((forall n, (bodiesAfter calls n).InStep) ∧ forall n tx, calls[n]? = some (.remember tx) ->
          EvictedForNewer maxMempoolTxBodies (bodyHeldAt calls) n) <->
      RemovesNoBody calls := by
  rw [removesNoBody_iff, <- EvictionQueue.throughout_iff (by decide)]
  refine and_congr ?_ ?_
  · refine forall_congr' ?_
    intro n
    rw [inStep_iff, toQueue_bodiesAfter]
  · rw [bodyHeldAt_eq]
    constructor
    · intro h n txid body hop
      rw [List.getElem?_map] at hop
      rcases Option.map_eq_some_iff.mp hop with ⟨call, hcall, hop⟩
      cases call with
      | enrich query removed => cases hop
      | remember tx => exact h n tx hcall
    · intro h n tx hcall
      have hop : (calls.map BodiesCall.op)[n]? = some (BodiesCall.remember tx).op := by
        rw [List.getElem?_map, hcall]
        rfl
      cases hkey : bodyKey tx with
      | some txid =>
        refine h n txid tx ?_
        rw [hop, BodiesCall.op, hkey]
        rfl
      | none =>
        -- nothing is stored, so nothing leaves
        intro txid time hentered hgone
        refine absurd hentered.holds ?_
        rw [BodiesCall.op, hkey] at hop
        rw [EvictionQueue.heldAt, EvictionQueue.after_succ hop] at hgone
        exact hgone

namespace Sample

def bodyOf (txid : Text) : Value :=
  .obj [("txid".toList, .str txid), ("vin".toList, .arr []), ("vout".toList, .arr [])]

def comesBack : List BodiesCall :=
  [.remember (bodyOf "a".toList), .enrich none [txidObject "a".toList],
    .remember (bodyOf "a".toList)]

/-- The order still lists the removed transaction, and then lists it twice. -/
theorem order_out_of_step :
    (bodiesAfter comesBack 2).order = ["a".toList] ∧ (bodiesAfter comesBack 2).byTxid.keys = [] ∧
      (bodiesAfter comesBack 3).order = ["a".toList, "a".toList] ∧
      ¬ (bodiesAfter comesBack 2).InStep ∧ ¬ (bodiesAfter comesBack 3).InStep := by
  have horder : (bodiesAfter comesBack 2).order = ["a".toList] := by decide
  have hkeys : (bodiesAfter comesBack 2).byTxid.keys = [] := by decide
  have horder' : (bodiesAfter comesBack 3).order = ["a".toList, "a".toList] := by decide
  refine ⟨horder, hkeys, horder', ?_, ?_⟩
  · intro h
    have hmem : "a".toList ∈ (bodiesAfter comesBack 2).byTxid := by
      rw [<- h.mem_order, horder]
      exact List.mem_singleton_self _
    rw [<- Std.ExtTreeMap.mem_keys, hkeys] at hmem
    cases hmem
  · intro h
    have hnodup := h.order_nodup
    rw [horder'] at hnodup
    exact absurd hnodup (by decide)

end Sample

end Mwck
end Splora
