import Splora.Foundation.Table

/-!
# A table with an eviction queue

A table of bounded size evicts from the front of the queue of its keys.  Entries dropped from
the table stay in the queue.  As long as none are, a key is evicted only for keys that came in
after it.
-/

namespace Splora
namespace Foundation

structure EvictionQueue (K V : Type) (cmp : K -> K -> Ordering) where
  held : Table K V cmp
  order : List K

inductive CacheOp (K V : Type) where
  | store (key : K) (value : V)
  | drop (keys : List K)

namespace EvictionQueue

variable {K V : Type} {cmp : K -> K -> Ordering} [Std.TransCmp cmp]

def empty : EvictionQueue K V cmp where
  held := ∅
  order := []

def makeRoom (capacity : Nat) (held : Table K V cmp) : List K -> EvictionQueue K V cmp
  | [] => { held := held, order := [] }
  | old :: order =>
    if capacity ≤ held.size then
      makeRoom capacity (held.erase old) order
    else
      { held := held, order := old :: order }

def store (capacity : Nat) (c : EvictionQueue K V cmp) (key : K) (value : V) :
    EvictionQueue K V cmp :=
  if key ∈ c.held then
    { c with held := c.held.insert key value }
  else
    let c := makeRoom capacity c.held c.order
    { held := c.held.insert key value, order := c.order ++ [key] }

def drop (c : EvictionQueue K V cmp) (keys : List K) : EvictionQueue K V cmp :=
  { c with held := keys.foldl (fun held key => held.erase key) c.held }

def step (capacity : Nat) (c : EvictionQueue K V cmp) :
    CacheOp K V -> EvictionQueue K V cmp
  | .store key value => c.store capacity key value
  | .drop keys => c.drop keys

def run (capacity : Nat) (ops : List (CacheOp K V)) : EvictionQueue K V cmp :=
  ops.foldl (step capacity) empty

theorem run_append_singleton (capacity : Nat) (ops : List (CacheOp K V)) (op : CacheOp K V) :
    (run capacity (ops ++ [op]) : EvictionQueue K V cmp) = step capacity (run capacity ops) op := by
  rw [run, List.foldl_append]
  rfl

structure InStep (capacity : Nat) (c : EvictionQueue K V cmp) : Prop where
  order_nodup : c.order.Nodup
  mem_order : forall key, key ∈ c.order <-> key ∈ c.held
  order_le : c.order.length ≤ capacity
  held_le : c.held.size ≤ capacity

end EvictionQueue

structure EnteredAt {K : Type} (held : Nat -> K -> Prop) (now : Nat) (key : K)
    (time : Nat) : Prop where
  time_lt : time < now
  before : ¬ held time key
  since : forall later, time < later -> later ≤ now -> held later key

/-- A key leaves when as many keys as there is room for came in after it, all held now. -/
def EvictedForNewer {K : Type} (capacity : Nat) (held : Nat -> K -> Prop) (now : Nat) : Prop :=
  forall key time, EnteredAt held now key time -> ¬ held (now + 1) key ->
    exists newer : List K, newer.Nodup ∧ newer.length = capacity ∧
      forall key', key' ∈ newer -> exists time', time < time' ∧ EnteredAt held (now + 1) key' time'

namespace EnteredAt

variable {K : Type} {held : Nat -> K -> Prop} {now time time' : Nat} {key key' : K}

theorem holds (h : EnteredAt held now key time) : held now key :=
  h.since now h.time_lt (Nat.le_refl _)

theorem unique (h : EnteredAt held now key time) (h' : EnteredAt held now key time') :
    time = time' := by
  rcases Nat.lt_trichotomy time time' with hlt | heq | hlt
  · exact absurd (h.since time' hlt (Nat.le_of_lt h'.time_lt)) h'.before
  · exact heq
  · exact absurd (h'.since time hlt (Nat.le_of_lt h.time_lt)) h.before

theorem succ (h : EnteredAt held now key time) (hheld : held (now + 1) key) :
    EnteredAt held (now + 1) key time where
  time_lt := Nat.lt_succ_of_lt h.time_lt
  before := h.before
  since := by
    intro later hlt hle
    rcases Nat.lt_or_eq_of_le hle with hlt' | heq
    · exact h.since later hlt (Nat.le_of_lt_succ hlt')
    · rw [heq]
      exact hheld

theorem pred (h : EnteredAt held (now + 1) key time) (hheld : held now key) :
    EnteredAt held now key time where
  time_lt := by
    refine Nat.lt_of_le_of_ne (Nat.le_of_lt_succ h.time_lt) ?_
    intro heq
    exact h.before (heq ▸ hheld)
  before := h.before
  since := by
    intro later hlt hle
    exact h.since later hlt (Nat.le_succ_of_le hle)

theorem now_of_new (hbefore : ¬ held now key) (hheld : held (now + 1) key) :
    EnteredAt held (now + 1) key now where
  time_lt := Nat.lt_succ_self now
  before := hbefore
  since := by
    intro later hlt hle
    rw [Nat.le_antisymm hle hlt]
    exact hheld

end EnteredAt

def Aged {K : Type} (held : Nat -> K -> Prop) (now : Nat) (order : List K) : Prop :=
  (forall key, key ∈ order -> exists time, EnteredAt held now key time) ∧
    order.Pairwise fun key key' => forall time time', EnteredAt held now key time ->
      EnteredAt held now key' time' -> time < time'

section Aged

variable {K : Type} {held : Nat -> K -> Prop} {now : Nat} {order : List K} {key : K}

theorem Aged.succ (h : Aged held now order)
    (hheld : forall key, key ∈ order -> held (now + 1) key) :
    Aged held (now + 1) order := by
  have hnow : forall key, key ∈ order -> held now key := by
    intro key hkey
    rcases h.left key hkey with ⟨time, hentered⟩
    exact hentered.holds
  constructor
  · intro key hkey
    rcases h.left key hkey with ⟨time, hentered⟩
    exact ⟨time, hentered.succ (hheld key hkey)⟩
  · refine h.right.imp_of_mem ?_
    intro key key' hkey hkey' hage time time' hentered hentered'
    exact hage time time' (hentered.pred (hnow key hkey)) (hentered'.pred (hnow key' hkey'))

theorem Aged.concat (h : Aged held (now + 1) order) (hold : forall key, key ∈ order -> held now key)
    (hbefore : ¬ held now key) (hheld : held (now + 1) key) :
    Aged held (now + 1) (order ++ [key]) := by
  have hnew := EnteredAt.now_of_new hbefore hheld
  constructor
  · intro key' hkey'
    rcases List.mem_append.mp hkey' with hkey' | hkey'
    · exact h.left key' hkey'
    · rw [List.mem_singleton.mp hkey']
      exact ⟨now, hnew⟩
  · refine List.pairwise_append.mpr ⟨h.right, List.pairwise_singleton _ _, ?_⟩
    intro old hmem new hmem' time time' hentered hentered'
    rw [List.mem_singleton.mp hmem'] at hentered'
    rw [hentered'.unique hnew]
    -- the old key was held at the time the new one was not
    exact (hentered.pred (hold old hmem)).time_lt

end Aged

namespace EvictionQueue

section Steps

variable {K V : Type} {cmp : K -> K -> Ordering} [Std.TransCmp cmp]
  {capacity : Nat} {c : EvictionQueue K V cmp}

theorem inStep_empty : InStep capacity (empty : EvictionQueue K V cmp) where
  order_nodup := List.nodup_nil
  mem_order := by simp [empty]
  order_le := Nat.zero_le _
  held_le := Nat.zero_le _

theorem makeRoom_of_lt {held : Table K V cmp} {order : List K} (h : held.size < capacity) :
    makeRoom capacity held order = { held := held, order := order } := by
  cases order with
  | nil => rfl
  | cons old order => rw [makeRoom, if_neg (Nat.not_le.mpr h)]

variable [Std.LawfulEqCmp cmp]

theorem size_eq_length (hnodup : c.order.Nodup)
    (hmem : forall key, key ∈ c.order <-> key ∈ c.held) :
    c.held.size = c.order.length := by
  rw [<- Std.ExtTreeMap.length_keys]
  refine ((List.perm_ext_iff_of_nodup Std.ExtTreeMap.nodup_keys hnodup).mpr ?_).length_eq
  intro key
  rw [Std.ExtTreeMap.mem_keys, hmem]

theorem inStep_of_order (hnodup : c.order.Nodup) (hmem : forall key, key ∈ c.order <-> key ∈ c.held)
    (hle : c.order.length ≤ capacity) : InStep capacity c where
  order_nodup := hnodup
  mem_order := hmem
  order_le := hle
  held_le := by
    rw [size_eq_length hnodup hmem]
    exact hle

inductive StoreCase (capacity : Nat) (c : EvictionQueue K V cmp) (key : K) (value : V) :
    EvictionQueue K V cmp -> Prop where
  | replaced (hheld : key ∈ c.held) :
      StoreCase capacity c key value { held := c.held.insert key value, order := c.order }
  | added (hnew : key ∉ c.held) (hroom : c.order.length < capacity) :
      StoreCase capacity c key value { held := c.held.insert key value, order := c.order ++ [key] }
  | evicted (old : K) (rest : List K) (hnew : key ∉ c.held)
      (horder : c.order = old :: rest) (hfull : rest.length + 1 = capacity) :
      StoreCase capacity c key value
        { held := (c.held.erase old).insert key value, order := rest ++ [key] }

theorem InStep.storeCase (h : InStep capacity c) (hcapacity : 0 < capacity) (key : K)
    (value : V) : StoreCase capacity c key value (c.store capacity key value) := by
  have hsize := size_eq_length h.order_nodup h.mem_order
  unfold store
  by_cases hheld : key ∈ c.held
  · rw [if_pos hheld]
    exact .replaced hheld
  · rw [if_neg hheld]
    rcases Nat.lt_or_eq_of_le h.order_le with hlt | hfull
    · rw [makeRoom_of_lt (hsize ▸ hlt)]
      exact .added hheld hlt
    · cases horder : c.order with
      | nil =>
        rw [horder] at hfull
        exact absurd hfull (Nat.ne_of_lt hcapacity)
      | cons old rest =>
        have hold : old ∈ c.held := by
          rw [<- h.mem_order, horder]
          exact List.mem_cons_self
        -- the front of the queue is held, so evicting it makes room
        have herase : (c.held.erase old).size < capacity := by
          rw [Std.ExtTreeMap.size_erase, if_pos (Std.ExtTreeMap.mem_iff_contains.mp hold),
            hsize, hfull]
          exact Nat.sub_lt hcapacity Nat.one_pos
        rw [makeRoom, if_pos (Nat.le_of_eq (hsize.trans hfull).symm), makeRoom_of_lt herase]
        rw [horder, List.length_cons] at hfull
        exact .evicted old rest hheld horder hfull

theorem InStep.storeCase_inStep (h : InStep capacity c) {key : K} {value : V}
    {c' : EvictionQueue K V cmp} (hcase : StoreCase capacity c key value c') :
    InStep capacity c' := by
  cases hcase with
  | replaced hheld =>
    refine inStep_of_order h.order_nodup ?_ h.order_le
    intro key'
    rw [h.mem_order, mem_insert_iff]
    constructor
    · exact Or.inr
    · intro hkey'
      rcases hkey' with heq | hkey'
      · rw [<- heq]
        exact hheld
      · exact hkey'
  | added hnew hroom =>
    refine inStep_of_order ?_ ?_ ?_
    · refine List.nodup_append.mpr ⟨h.order_nodup, List.nodup_singleton key, ?_⟩
      intro key' hkey' key'' hkey'' heq
      rw [List.mem_singleton.mp hkey''] at heq
      exact hnew ((h.mem_order key).mp (heq ▸ hkey'))
    · intro key'
      rw [List.mem_append, List.mem_singleton, h.mem_order, mem_insert_iff, or_comm, eq_comm]
    · rw [List.length_append, List.length_singleton]
      exact hroom
  | evicted old rest hnew horder hfull =>
    have hnodup := h.order_nodup
    rw [horder, List.nodup_cons] at hnodup
    have hrest : forall key', key' ∈ rest <-> old ≠ key' ∧ key' ∈ c.held := by
      intro key'
      rw [<- h.mem_order, horder, List.mem_cons]
      constructor
      · intro hkey'
        exact ⟨fun heq => hnodup.left (heq ▸ hkey'), Or.inr hkey'⟩
      · intro hkey'
        exact hkey'.right.resolve_left fun heq => hkey'.left heq.symm
    refine inStep_of_order ?_ ?_ ?_
    · refine List.nodup_append.mpr ⟨hnodup.right, List.nodup_singleton key, ?_⟩
      intro key' hkey' key'' hkey'' heq
      rw [List.mem_singleton.mp hkey''] at heq
      exact hnew ((hrest key).mp (heq ▸ hkey')).right
    · intro key'
      rw [List.mem_append, List.mem_singleton, hrest, mem_insert_iff, mem_erase_iff,
        or_comm, eq_comm]
    · rw [List.length_append, List.length_singleton]
      exact Nat.le_of_eq hfull

theorem mem_drop {key : K} {keys : List K} :
    key ∈ (c.drop keys).held <-> key ∈ c.held ∧ key ∉ keys := by
  have hfold : forall held : Table K V cmp,
      key ∈ keys.foldl (fun held key => held.erase key) held <-> key ∈ held ∧ key ∉ keys := by
    induction keys with
    | nil => simp
    | cons first keys ih =>
      intro held
      rw [List.foldl_cons, ih, mem_erase_iff, List.mem_cons, not_or]
      constructor
      · intro h
        exact ⟨h.left.right, fun heq => h.left.left heq.symm, h.right⟩
      · intro h
        exact ⟨⟨fun heq => h.right.left heq.symm, h.left⟩, h.right.right⟩
  exact hfold c.held

theorem InStep.drop_iff (h : InStep capacity c) {keys : List K} :
    InStep capacity (c.drop keys) <-> forall key, key ∈ keys -> key ∉ c.held := by
  constructor
  · intro hdrop key hkey hheld
    have horder : key ∈ c.order := (h.mem_order key).mpr hheld
    exact (mem_drop.mp ((hdrop.mem_order key).mp horder)).right hkey
  · intro hnone
    refine inStep_of_order h.order_nodup ?_ h.order_le
    intro key
    rw [mem_drop]
    constructor
    · intro horder
      have hheld := (h.mem_order key).mp horder
      exact ⟨hheld, fun hkey => hnone key hkey hheld⟩
    · intro hkept
      exact (h.mem_order key).mpr hkept.left

end Steps

section Runs

variable {K V : Type} (cmp : K -> K -> Ordering) [Std.TransCmp cmp] (capacity : Nat)
  (ops : List (CacheOp K V))

def after (n : Nat) : EvictionQueue K V cmp :=
  run capacity (ops.take n)

def heldAt (n : Nat) (key : K) : Prop :=
  key ∈ (after cmp capacity ops n).held

def DropsNothing : Prop :=
  forall n keys, ops[n]? = some (.drop keys) ->
    forall key, key ∈ keys -> ¬ heldAt cmp capacity ops n key

variable {cmp capacity ops}

variable {n : Nat}

theorem after_succ {op : CacheOp K V} (hop : ops[n]? = some op) :
    after cmp capacity ops (n + 1) = step capacity (after cmp capacity ops n) op := by
  rw [after, List.take_add_one, hop]
  exact run_append_singleton capacity (ops.take n) op

theorem after_succ_of_none (hop : ops[n]? = none) :
    after cmp capacity ops (n + 1) = after cmp capacity ops n := by
  rw [after, List.take_add_one, hop, Option.toList_none, List.append_nil]
  rfl

theorem aged_of_storeCase {key : K} {value : V} (hstep : InStep capacity (after cmp capacity ops n))
    (hstep' : InStep capacity (after cmp capacity ops (n + 1)))
    (haged : Aged (heldAt cmp capacity ops) n (after cmp capacity ops n).order)
    (hcase : StoreCase capacity (after cmp capacity ops n) key value
      (after cmp capacity ops (n + 1))) :
    Aged (heldAt cmp capacity ops) (n + 1) (after cmp capacity ops (n + 1)).order := by
  have hlisted : forall key', key' ∈ (after cmp capacity ops (n + 1)).order ->
      heldAt cmp capacity ops (n + 1) key' := fun key' => (hstep'.mem_order key').mp
  have hheld : forall key', key' ∈ (after cmp capacity ops n).order ->
      heldAt cmp capacity ops n key' := fun key' => (hstep.mem_order key').mp
  generalize hafter : after cmp capacity ops (n + 1) = c' at hcase hlisted
  cases hcase with
  | replaced _ => exact haged.succ hlisted
  | added hnew _ =>
    refine (haged.succ ?_).concat hheld hnew (hlisted key (by simp))
    intro key' hkey'
    exact hlisted key' (List.mem_append_left _ hkey')
  | evicted old rest hnew horder _ =>
    rw [horder] at haged hheld
    have hrest : Aged (heldAt cmp capacity ops) n rest :=
      ⟨fun key' hkey' => haged.left key' (List.mem_cons_of_mem _ hkey'),
        (List.pairwise_cons.mp haged.right).right⟩
    refine (hrest.succ ?_).concat ?_ hnew (hlisted key (by simp))
    · intro key' hkey'
      exact hlisted key' (List.mem_append_left _ hkey')
    · intro key' hkey'
      exact hheld key' (List.mem_cons_of_mem _ hkey')

variable [Std.LawfulEqCmp cmp]

theorem storeCase_after (hcapacity : 0 < capacity) {key : K} {value : V}
    (hstep : InStep capacity (after cmp capacity ops n))
    (hop : ops[n]? = some (.store key value)) :
    StoreCase capacity (after cmp capacity ops n) key value (after cmp capacity ops (n + 1)) := by
  rw [after_succ hop]
  exact hstep.storeCase hcapacity key value

theorem evictedForNewer_of_storeCase {key : K} {value : V}
    (hstep : InStep capacity (after cmp capacity ops n))
    (hstep' : InStep capacity (after cmp capacity ops (n + 1)))
    (haged : Aged (heldAt cmp capacity ops) n (after cmp capacity ops n).order)
    (hcase : StoreCase capacity (after cmp capacity ops n) key value
      (after cmp capacity ops (n + 1))) :
    EvictedForNewer capacity (heldAt cmp capacity ops) n := by
  have haged' := aged_of_storeCase hstep hstep' haged hcase
  intro old time hentered hgone
  have hheld := hentered.holds
  have hstays : forall held : Table K V cmp, old ∈ held -> old ∈ held.insert key value :=
    fun held hmem => mem_insert_iff.mpr (Or.inr hmem)
  unfold heldAt at hgone hheld
  generalize hafter : after cmp capacity ops (n + 1) = c' at hcase hgone
  cases hcase with
  | replaced _ => exact absurd (hstays _ hheld) hgone
  | added _ _ => exact absurd (hstays _ hheld) hgone
  | evicted front rest hnew horder hfull =>
    have hfront : front = old := by
      by_contra hne
      exact hgone (hstays _ (mem_erase_iff.mpr ⟨hne, hheld⟩))
    subst hfront
    rw [hafter] at haged' hstep'
    refine ⟨rest ++ [key], hstep'.order_nodup, ?_, ?_⟩
    · rw [List.length_append, List.length_singleton]
      exact hfull
    · intro key' hkey'
      rcases haged'.left key' hkey' with ⟨time', hentered'⟩
      refine ⟨time', ?_, hentered'⟩
      rcases List.mem_append.mp hkey' with hrest | hnew'
      · have hage := haged.right
        rw [horder] at hage
        have hnow : heldAt cmp capacity ops n key' := by
          refine (hstep.mem_order key').mp ?_
          rw [horder]
          exact List.mem_cons_of_mem _ hrest
        exact (List.pairwise_cons.mp hage).left key' hrest time time' hentered (hentered'.pred hnow)
      · rw [List.mem_singleton.mp hnew'] at hentered'
        rw [hentered'.unique (EnteredAt.now_of_new hnew hentered'.holds)]
        exact hentered.time_lt

theorem inStep_after (hcapacity : 0 < capacity) (hdrops : DropsNothing cmp capacity ops)
    (n : Nat) : InStep capacity (after cmp capacity ops n) := by
  induction n with
  | zero => exact inStep_empty
  | succ n ih =>
    cases hop : ops[n]? with
    | none =>
      rw [after_succ_of_none hop]
      exact ih
    | some op =>
      rw [after_succ hop]
      cases op with
      | store key value => exact ih.storeCase_inStep (ih.storeCase hcapacity key value)
      | drop keys => exact ih.drop_iff.mpr (hdrops n keys hop)

theorem aged_after (hcapacity : 0 < capacity)
    (hstep : forall n, InStep capacity (after cmp capacity ops n)) (n : Nat) :
    Aged (heldAt cmp capacity ops) n (after cmp capacity ops n).order := by
  have hlisted : forall n key, key ∈ (after cmp capacity ops n).order ->
      heldAt cmp capacity ops n key := fun n key => ((hstep n).mem_order key).mp
  induction n with
  | zero => exact ⟨fun key hkey => absurd hkey List.not_mem_nil, List.Pairwise.nil⟩
  | succ n ih =>
    have hsame : forall order, (after cmp capacity ops n).order = order ->
        (after cmp capacity ops (n + 1)).order = order ->
        Aged (heldAt cmp capacity ops) (n + 1) (after cmp capacity ops (n + 1)).order := by
      intro order hbefore hafter
      rw [hafter, <- hbefore]
      refine ih.succ ?_
      intro key hkey
      rw [hbefore, <- hafter] at hkey
      exact hlisted (n + 1) key hkey
    cases hop : ops[n]? with
    | none => exact hsame _ rfl (congrArg order (after_succ_of_none hop))
    | some op =>
      cases op with
      | store key value =>
        exact aged_of_storeCase (hstep n) (hstep (n + 1)) ih
          (storeCase_after hcapacity (hstep n) hop)
      | drop keys =>
        refine hsame _ rfl ?_
        rw [after_succ hop]
        rfl

/-- The queue stays in step, and keys are evicted for newer ones only, exactly if nothing held is
dropped. -/
theorem throughout_iff (hcapacity : 0 < capacity) :
    ((forall n, InStep capacity (after cmp capacity ops n)) ∧
        forall n key value, ops[n]? = some (.store key value) ->
          EvictedForNewer capacity (heldAt cmp capacity ops) n) <->
      DropsNothing cmp capacity ops := by
  constructor
  · intro h n keys hop
    have hdropped := h.left (n + 1)
    rw [after_succ hop] at hdropped
    exact (h.left n).drop_iff.mp hdropped
  · intro hdrops
    have hstep := inStep_after hcapacity hdrops
    refine ⟨hstep, ?_⟩
    intro n key value hop
    exact evictedForNewer_of_storeCase (hstep n) (hstep (n + 1))
      (aged_after hcapacity hstep n) (storeCase_after hcapacity (hstep n) hop)

end Runs

end EvictionQueue

end Foundation
end Splora
