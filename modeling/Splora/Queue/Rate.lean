import Splora.Foundation.SlidingWindow
import Splora.Queue.Submit

/-!
# The rate limits under concurrency

The two maps of hits are each behind a lock: a call arrives and takes its hit by address, and
later any of the calls in between takes its hit by key.
-/

namespace Splora
namespace Queue

open Foundation Auth

structure Call where
  sub : Submission
  pk : Pubkey

/-- The calls between the locks, those past both, and the times of the sections under each lock. -/
structure RateState where
  store : QueueStore
  waiting : List Call
  passed : List Call
  ipTimes : List Nat
  npubTimes : List Nat

def RateState.start : RateState where
  store := .opened
  waiting := []
  passed := []
  ipTimes := []
  npubTimes := []

inductive RateEvent where
  | arrive (sub : Submission)
  | proceed (position : Nat)

def RateState.arrive (caps : QueueCaps) (st : RateState) (call : Call) : RateState :=
  let (ok, store) := checkPeer caps st.store call.sub.now call.sub.ip
  { st with
    store := store
    waiting := if ok then st.waiting ++ [call] else st.waiting
    ipTimes := if call.sub.ip = none then st.ipTimes
      else st.ipTimes ++ [call.sub.now] }

def RateState.proceed (caps : QueueCaps) (st : RateState) (position : Nat)
    (call : Call) : RateState :=
  let (ok, store) := checkNpub caps st.store call.pk call.sub.now
  { st with
    store := store
    waiting := st.waiting.eraseIdx position
    passed := if ok then st.passed ++ [call] else st.passed
    npubTimes := st.npubTimes ++ [call.sub.now] }

def RateState.step (parser : PubkeyParser) (caps : QueueCaps) (st : RateState) :
    RateEvent -> RateState
  | .arrive sub =>
    match validSubmission parser sub with
    | .error _ => st
    | .ok pk => st.arrive caps { sub, pk }
  | .proceed position =>
    match st.waiting[position]? with
    | none => st
    | some call => st.proceed caps position call

def RateState.run (parser : PubkeyParser) (caps : QueueCaps)
    (events : List RateEvent) : RateState :=
  events.foldl (RateState.step parser caps) .start

def ipCount (ip : IpAddr) (window t : Nat) (calls : List Call) : Nat :=
  calls.countP fun call =>
    call.sub.ip = some ip ∧ t ≤ call.sub.now ∧ call.sub.now < t + window

def npubCount (pk : Pubkey) (window t : Nat) (calls : List Call) : Nat :=
  calls.countP fun call =>
    call.pk = pk ∧ t ≤ call.sub.now ∧ call.sub.now < t + window

def RateState.InOrder (st : RateState) : Prop :=
  st.ipTimes.Pairwise (fun a b => a ≤ b) ∧ st.npubTimes.Pairwise (fun a b => a ≤ b)

section Rates

variable {parser : PubkeyParser} {caps : QueueCaps} {st : RateState} {call : Call}
  {hits : List Nat} {now window t : Nat} {max : UInt32}

theorem rateOk_eq_answer (now window : Nat) (h : hits.length ≤ max.toNat) :
    rateOk hits now window max = SlidingWindow.answer window max.toNat hits now := by
  have hkept : (SlidingWindow.recent window now hits).length < 2 ^ 32 :=
    ((List.length_filter_le _ _).trans h).trans_lt max.toNat_lt
  show (if (SlidingWindow.recent window now hits).length % 2 ^ 32 ≥ max.toNat then _
    else _) = _
  rw [Nat.mod_eq_of_lt hkept]
  rfl

theorem tracks_rateOk {κ : Type} [DecidableEq κ] {hits admitted : κ -> List Nat} {times : List Nat}
    (h : forall key, SlidingWindow.Tracks window max.toNat times (hits key) (admitted key))
    (key : κ) (horder : (times ++ [now]).Pairwise (fun a b => a ≤ b)) (other : κ) :
    SlidingWindow.Tracks window max.toNat (times ++ [now])
      (Function.update hits key (rateOk (hits key) now window max).2 other)
      (Function.update admitted key
        (if (rateOk (hits key) now window max).1 = true then admitted key ++ [now]
          else admitted key) other) := by
  have hnow : forall time, time ∈ times -> time ≤ now := by
    intro time htime
    exact (List.pairwise_append.mp horder).right.right time htime now List.mem_cons_self
  rw [rateOk_eq_answer now window (h key).length_le]
  exact SlidingWindow.tracks_update h key hnow other

def IpInvariant (caps : QueueCaps) (st : RateState) : Prop :=
  exists admitted : IpAddr -> List Nat,
    (forall ip, SlidingWindow.Tracks caps.windowSecs caps.perIp.toNat st.ipTimes
      (st.store.ipHits ip) (admitted ip)) ∧
    forall ip t, ipCount ip caps.windowSecs t (st.waiting ++ st.passed) ≤
      SlidingWindow.countIn caps.windowSecs t (admitted ip)

def NpubInvariant (caps : QueueCaps) (st : RateState) : Prop :=
  exists admitted : Pubkey -> List Nat,
    (forall pk, SlidingWindow.Tracks caps.windowSecs caps.perNpub.toNat st.npubTimes
      (st.store.npubHits pk) (admitted pk)) ∧
    forall pk t, npubCount pk caps.windowSecs t st.passed ≤
      SlidingWindow.countIn caps.windowSecs t (admitted pk)

theorem ipCount_append (ip : IpAddr) (window t : Nat) (calls calls' : List Call) :
    ipCount ip window t (calls ++ calls') =
      ipCount ip window t calls + ipCount ip window t calls' :=
  List.countP_append

theorem npubCount_append (pk : Pubkey) (window t : Nat) (calls calls' : List Call) :
    npubCount pk window t (calls ++ calls') =
      npubCount pk window t calls + npubCount pk window t calls' :=
  List.countP_append

theorem ipCount_singleton {ip : IpAddr} (h : call.sub.ip = some ip) (ip' : IpAddr) :
    ipCount ip' window t [call] =
      if ip' = ip then SlidingWindow.countIn window t [call.sub.now] else 0 := by
  unfold ipCount SlidingWindow.countIn
  rw [List.countP_singleton, List.countP_singleton]
  by_cases hip : ip' = ip
  · simp [h, hip]
  · have hne : ¬ ip = ip' := Ne.symm hip
    simp [h, hip, hne]

theorem ipCount_of_none (h : call.sub.ip = none) (ip : IpAddr) :
    ipCount ip window t [call] = 0 := by
  simp [ipCount, h]

theorem npubCount_singleton (pk : Pubkey) :
    npubCount pk window t [call] =
      if pk = call.pk then SlidingWindow.countIn window t [call.sub.now] else 0 := by
  unfold npubCount SlidingWindow.countIn
  rw [List.countP_singleton, List.countP_singleton]
  by_cases hpk : pk = call.pk
  · simp [hpk]
  · have hne : ¬ call.pk = pk := Ne.symm hpk
    simp [hpk, hne]

theorem countIn_update {κ : Type} [DecidableEq κ] (admitted : κ -> List Nat)
    (key other : κ) (ok : Bool) :
    SlidingWindow.countIn window t (Function.update admitted key
        (if ok = true then admitted key ++ [now] else admitted key) other) =
      SlidingWindow.countIn window t (admitted other) +
        if ok = true then
          if other = key then SlidingWindow.countIn window t [now] else 0
        else 0 := by
  by_cases hother : other = key
  · rw [hother, Function.update_self]
    cases ok with
    | false => rfl
    | true =>
      rw [if_pos rfl, if_pos rfl, if_pos rfl, SlidingWindow.countIn_append]
  · rw [Function.update_of_ne hother]
    simp [hother]

/-!
## One section
-/

theorem arrive_none (h : call.sub.ip = none) :
    st.arrive caps call = { st with waiting := st.waiting ++ [call] } := by
  unfold RateState.arrive
  rw [h]
  rfl

theorem arrive_some {ip : IpAddr} (h : call.sub.ip = some ip) :
    st.arrive caps call =
      { st with
        store := (checkIp caps st.store ip call.sub.now).2
        waiting := if (checkIp caps st.store ip call.sub.now).1 = true then
            st.waiting ++ [call] else st.waiting
        ipTimes := st.ipTimes ++ [call.sub.now] } := by
  unfold RateState.arrive
  rw [h]
  rfl

theorem ipInvariant_arrive (hinv : IpInvariant caps st) (horder : (st.arrive caps call).InOrder) :
    IpInvariant caps (st.arrive caps call) := by
  rcases hinv with ⟨admitted, htracks, hcount⟩
  cases hip : call.sub.ip with
  | none =>
    rw [arrive_none hip]
    refine ⟨admitted, htracks, ?_⟩
    intro ip t
    show ipCount ip caps.windowSecs t (st.waiting ++ [call] ++ st.passed) ≤ _
    rw [ipCount_append, ipCount_append, ipCount_of_none hip, Nat.add_zero, <- ipCount_append]
    exact hcount ip t
  | some ip =>
    rw [arrive_some hip] at horder ⊢
    refine ⟨Function.update admitted ip (if (checkIp caps st.store ip call.sub.now).1 = true then
        admitted ip ++ [call.sub.now] else admitted ip), ?_, ?_⟩
    · intro ip'
      exact tracks_rateOk htracks ip horder.left ip'
    · intro ip' t
      have hle := hcount ip' t
      rw [countIn_update]
      rw [ipCount_append] at hle
      show ipCount ip' caps.windowSecs t ((if _ = true then _ else _) ++ st.passed) ≤ _
      cases (checkIp caps st.store ip call.sub.now).1 with
      | false =>
        rw [if_neg Bool.false_ne_true, if_neg Bool.false_ne_true, ipCount_append]
        exact hle
      | true =>
        rw [if_pos rfl, if_pos rfl, ipCount_append, ipCount_append, ipCount_singleton hip]
        omega

theorem npubInvariant_arrive (hinv : NpubInvariant caps st) :
    NpubInvariant caps (st.arrive caps call) := by
  cases hip : call.sub.ip with
  | none =>
    rw [arrive_none hip]
    exact hinv
  | some ip =>
    rw [arrive_some hip]
    exact hinv

theorem ipInvariant_proceed {position : Nat}
    (hcall : st.waiting[position]? = some call) (hinv : IpInvariant caps st) :
    IpInvariant caps (st.proceed caps position call) := by
  rcases hinv with ⟨admitted, htracks, hcount⟩
  refine ⟨admitted, htracks, ?_⟩
  intro ip t
  rcases List.getElem?_eq_some_iff.mp hcall with ⟨hlt, hget⟩
  have hperm := List.getElem_cons_eraseIdx_perm hlt
  rw [hget] at hperm
  have hwaiting : ipCount ip caps.windowSecs t st.waiting = ipCount ip caps.windowSecs t [call] +
        ipCount ip caps.windowSecs t (st.waiting.eraseIdx position) := by
    rw [<- ipCount_append]
    exact hperm.symm.countP_eq _
  have hle := hcount ip t
  rw [ipCount_append, hwaiting] at hle
  show ipCount ip caps.windowSecs t (st.waiting.eraseIdx position ++
    if (checkNpub caps st.store call.pk call.sub.now).1 = true then
      st.passed ++ [call] else st.passed) ≤ _
  rw [ipCount_append]
  split
  · rw [ipCount_append]
    omega
  · omega

theorem npubInvariant_proceed {position : Nat} (hinv : NpubInvariant caps st)
    (horder : (st.proceed caps position call).InOrder) :
    NpubInvariant caps (st.proceed caps position call) := by
  rcases hinv with ⟨admitted, htracks, hcount⟩
  refine ⟨Function.update admitted call.pk
    (if (checkNpub caps st.store call.pk call.sub.now).1 = true then
      admitted call.pk ++ [call.sub.now] else admitted call.pk), ?_, ?_⟩
  · intro pk
    exact tracks_rateOk htracks call.pk horder.right pk
  · intro pk t
    have hle := hcount pk t
    rw [countIn_update]
    show npubCount pk caps.windowSecs t
      (if (checkNpub caps st.store call.pk call.sub.now).1 = true then
        st.passed ++ [call] else st.passed) ≤ _
    split
    · rw [npubCount_append, npubCount_singleton]
      exact Nat.add_le_add_right hle _
    · exact hle

/-!
## Interleavings
-/

theorem step_cases (parser : PubkeyParser) (caps : QueueCaps) (st : RateState) (event : RateEvent) :
    st.step parser caps event = st ∨
      (exists call, st.step parser caps event = st.arrive caps call) ∨
      exists position call, st.waiting[position]? = some call ∧
        st.step parser caps event = st.proceed caps position call := by
  cases event with
  | arrive sub =>
    cases hvalid : validSubmission parser sub with
    | error e => exact Or.inl (by rw [RateState.step, hvalid])
    | ok pk => exact Or.inr (Or.inl ⟨{ sub, pk }, by rw [RateState.step, hvalid]⟩)
  | proceed position =>
    cases hcall : st.waiting[position]? with
    | none => exact Or.inl (by rw [RateState.step, hcall])
    | some call =>
      exact Or.inr (Or.inr ⟨position, call, hcall, by rw [RateState.step, hcall]⟩)

theorem inOrder_of_step {event : RateEvent}
    (h : (st.step parser caps event).InOrder) : st.InOrder := by
  rcases step_cases parser caps st event with heq | ⟨call, heq⟩ | ⟨position, call, _, heq⟩
  · rw [heq] at h
    exact h
  · rw [heq] at h
    cases hip : call.sub.ip with
    | none =>
      rw [arrive_none hip] at h
      exact h
    | some ip =>
      rw [arrive_some hip] at h
      exact ⟨(List.pairwise_append.mp h.left).left, h.right⟩
  · rw [heq] at h
    exact ⟨h.left, (List.pairwise_append.mp h.right).left⟩

theorem step_invariant {event : RateEvent} (h : (st.step parser caps event).InOrder)
    (hinv : IpInvariant caps st ∧ NpubInvariant caps st) :
    IpInvariant caps (st.step parser caps event) ∧
      NpubInvariant caps (st.step parser caps event) := by
  rcases step_cases parser caps st event with heq | ⟨call, heq⟩ | ⟨position, call, hcall, heq⟩
  · rw [heq]
    exact hinv
  · rw [heq] at h ⊢
    exact ⟨ipInvariant_arrive hinv.left h, npubInvariant_arrive hinv.right⟩
  · rw [heq] at h ⊢
    exact ⟨ipInvariant_proceed hcall hinv.left, npubInvariant_proceed hinv.right h⟩

theorem run_append_singleton (events : List RateEvent) (event : RateEvent) :
    RateState.run parser caps (events ++ [event]) =
      (RateState.run parser caps events).step parser caps event :=
  List.foldl_append

theorem run_invariant (events : List RateEvent) (h : (RateState.run parser caps events).InOrder) :
    IpInvariant caps (RateState.run parser caps events) ∧
      NpubInvariant caps (RateState.run parser caps events) := by
  induction events using List.reverseRecOn with
  | nil =>
    exact ⟨⟨fun _ => [], fun _ => SlidingWindow.tracks_nil _ _,
      fun _ _ => Nat.zero_le _⟩, fun _ => [],
      fun _ => SlidingWindow.tracks_nil _ _, fun _ _ => Nat.zero_le _⟩
  | append_singleton events event ih =>
    rw [run_append_singleton] at h ⊢
    exact step_invariant h (ih (inOrder_of_step h))

/-- In every interleaving whose locks are taken in the order of time, no window at any position has
more passed submits than the limit. -/
theorem rate_limits_hold (parser : PubkeyParser) (caps : QueueCaps)
    (events : List RateEvent) (h : (RateState.run parser caps events).InOrder)
    (ip : IpAddr) (pk : Pubkey) (t : Nat) :
    ipCount ip caps.windowSecs t (RateState.run parser caps events).passed ≤ caps.perIp.toNat ∧
      npubCount pk caps.windowSecs t (RateState.run parser caps events).passed ≤
        caps.perNpub.toNat := by
  rcases run_invariant events h with
    ⟨⟨admittedIp, htracksIp, hcountIp⟩, admittedNpub, htracksNpub, hcountNpub⟩
  constructor
  · have hle := hcountIp ip t
    rw [ipCount_append] at hle
    have hbound := (htracksIp ip).bounded t
    omega
  · exact (hcountNpub pk t).trans ((htracksNpub pk).bounded t)

end Rates

namespace Sample

def tightCaps : QueueCaps :=
  { perIp := 2, perNpub := 1 }

/-- The second call overtakes the first, which is refused by its key; the third by its address. -/
def overtaking : List RateEvent :=
  [.arrive { ip := some (.v4 1), npub := npubA, email := [], now := 5 },
    .arrive { ip := some (.v4 1), npub := npubA, email := [], now := 5 },
    .arrive { ip := some (.v4 1), npub := "npub1b".toList, email := [], now := 6 },
    .proceed 1, .proceed 0]

theorem overtaking_within_limits :
    (RateState.run parser tightCaps overtaking).InOrder ∧
      (RateState.run parser tightCaps overtaking).waiting = [] ∧
      (RateState.run parser tightCaps overtaking).passed.length = 1 ∧
      ipCount (.v4 1) 60 0 (RateState.run parser tightCaps overtaking).passed ≤ 2 ∧
      npubCount 1 60 0 (RateState.run parser tightCaps overtaking).passed ≤ 1 := by
  have horder : (RateState.run parser tightCaps overtaking).InOrder := by
    show [5, 5, 6].Pairwise (fun a b => a ≤ b) ∧ [5, 5].Pairwise (fun a b => a ≤ b)
    decide
  exact ⟨horder, rfl, rfl, rate_limits_hold parser tightCaps overtaking horder (.v4 1) 1 0⟩

end Sample

end Queue
end Splora
