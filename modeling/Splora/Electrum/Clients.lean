import Splora.Foundation.Tally
import Splora.Queue.Submit

/-!
# Connections of the Electrum server

The answering thread of a connection registers it when the reader reports the proxy headers, and
releases the slot when it leaves its loop.  An action is one step of one thread, in any order;
one that its thread cannot take now changes nothing.
-/

namespace Splora
namespace Electrum

open Foundation
open Queue (IpAddr)

structure SocketAddr where
  ip : IpAddr
  port : UInt16
deriving DecidableEq, Repr

inductive Message where
  | request (line : Text)
  | periodicUpdate
  | done
  | proxy (addresses : Option (List SocketAddr))

def Message.isProxy : Message -> Bool
  | .proxy _ => true
  | _ => false

structure ClientLimits where
  electrumMaxClients : Nat
  electrumHaproxyDepth : Nat
  electrumConnectionsPerClient : Nat

abbrev ClientCounts := IpAddr -> Option Nat

inductive ReaderPhase where
  | headers
  | requests
  | ended
deriving DecidableEq

/-- In the loop of `handle_replies`, after it, after `registered_ip.take()`, or after
`unregister_client`. -/
inductive ReplyPhase where
  | serving
  | leaving
  | releasing (key : IpAddr)
  | closed
deriving DecidableEq

structure ClientConnection where
  directIp : Option IpAddr
  proxyClient : Option SocketAddr
  registeredIp : Option IpAddr
  chan : Option (List Message)
  reader : ReaderPhase
  phase : ReplyPhase

namespace ClientConnection

def new (directIp : Option IpAddr) : ClientConnection where
  directIp := directIp
  proxyClient := none
  registeredIp := none
  chan := some []
  reader := .headers
  phase := .serving

def chanSize : Nat := 10

def close (c : ClientConnection) : ClientConnection :=
  { c with chan := none, phase := .leaving }

def setProxyClient (limits : ClientLimits) (c : ClientConnection)
    (addresses : Option (List SocketAddr)) : ClientConnection :=
  { c with
    proxyClient :=
      match limits.electrumHaproxyDepth, addresses with
      | 0, _ => none
      | _, none => none
      | depth + 1, some addrs => addrs[depth]? }

/-- The one error of `register_client`: the client and its limit. -/
structure TooManyConnections where
  key : IpAddr
  max : Nat
deriving DecidableEq, Repr

def registerClient (limits : ClientLimits) (counts : ClientCounts) (c : ClientConnection) :
    ClientCounts × Except TooManyConnections ClientConnection :=
  if limits.electrumConnectionsPerClient = 0 then
    (counts, .ok c)
  else
    match (c.proxyClient.map SocketAddr.ip).or c.directIp with
    | none => (counts, .ok c)
    | some key =>
      let count := (counts key).getD 0
      let counts := Function.update counts key (some count)
      if count ≥ limits.electrumConnectionsPerClient then
        (counts, .error {
          key := key
          max := limits.electrumConnectionsPerClient })
      else
        (Function.update counts key (some (count + 1)), .ok { c with registeredIp := some key })

/-- The locked part of `unregister_client`. -/
def releaseSlot (counts : ClientCounts) (key : IpAddr) : ClientCounts :=
  match counts key with
  | none => counts
  | some count =>
    Function.update counts key (if count - 1 = 0 then none else some (count - 1))

def handleProxy (limits : ClientLimits) (counts : ClientCounts) (c : ClientConnection)
    (addresses : Option (List SocketAddr)) : ClientCounts × ClientConnection :=
  let c := c.setProxyClient limits addresses
  match registerClient limits counts c with
  | (counts, .ok c) => (counts, c)
  | (counts, .error _) => (counts, c.close)

/-- A turn of `handle_replies`; `ok` tells whether the answer could be computed and written. -/
def receive (limits : ClientLimits) (counts : ClientCounts) (c : ClientConnection)
    (ok : Bool) : ClientCounts × ClientConnection :=
  match c.phase, c.chan with
  | .serving, some (message :: rest) =>
    let c := { c with chan := some rest }
    match message with
    | .request _ => (counts, if ok then c else { c with phase := .leaving })
    | .periodicUpdate => (counts, if ok then c else { c with phase := .leaving })
    | .done => (counts, c.close)
    | .proxy addresses => c.handleProxy limits counts addresses
  | _, _ => (counts, c)

inductive LineRead where
  | line (text : Text)
  | endOfStream
  | invalid
  | failed

inductive LocalAction where
  | readProxyHeaders (result : Option (Option (List SocketAddr)))
  | readLine (result : LineRead)
  | notify
  | sendDone
  | shutdown
  | idle
  | takeRegisteredIp

def send (c : ClientConnection) (message : Message) (next : ReaderPhase) : ClientConnection :=
  match c.chan with
  | none => { c with reader := .ended }
  | some messages =>
    if messages.length < chanSize then
      { c with chan := some (messages ++ [message]), reader := next }
    else
      c

def trySend (c : ClientConnection) (message : Message) : ClientConnection :=
  match c.chan with
  | none => c
  | some messages =>
    if messages.length < chanSize then
      { c with chan := some (messages ++ [message]) }
    else
      c

def readProxyHeaders (c : ClientConnection) (result : Option (Option (List SocketAddr))) :
    ClientConnection :=
  if c.reader = .headers then
    match result with
    | none => { c with reader := .ended }
    | some addresses => c.send (.proxy addresses) .requests
  else
    c

def readLine (c : ClientConnection) (result : LineRead) : ClientConnection :=
  if c.reader = .requests then
    match result with
    | .line text => c.send (.request text) .requests
    | .endOfStream => c.send .done .ended
    | .invalid => c.send .done .ended
    | .failed => { c with reader := .ended }
  else
    c

def leaveLoop (c : ClientConnection) : ClientConnection :=
  if c.phase = .serving then c.close else c

/-- The part of `unregister_client` before the lock. -/
def takeRegisteredIp (c : ClientConnection) : ClientConnection :=
  if c.phase = .leaving then
    match c.registeredIp with
    | none => { c with phase := .closed }
    | some key => { c with registeredIp := none, phase := .releasing key }
  else
    c

def localStep (c : ClientConnection) : LocalAction -> ClientConnection
  | .readProxyHeaders result => c.readProxyHeaders result
  | .readLine result => c.readLine result
  | .notify => c.trySend .periodicUpdate
  | .sendDone => c.trySend .done
  | .shutdown => c.leaveLoop
  | .idle => c.leaveLoop
  | .takeRegisteredIp => c.takeRegisteredIp

end ClientConnection

/-!
## The server
-/

structure Clients where
  counts : ClientCounts
  conns : List ClientConnection
  threads : List Nat
  garbage : List Nat
  accepting : Bool

inductive ClientAction where
  | accept (directIp : Option IpAddr)
  | stopAccepting
  | connection (id : Nat) (action : ClientConnection.LocalAction)
  | receive (id : Nat) (ok : Bool)
  | release (id : Nat)
  | finish (id : Nat)

namespace Clients

def start : Clients where
  counts := fun _ => none
  conns := []
  threads := []
  garbage := []
  accepting := true

def accept (limits : ClientLimits) (s : Clients) (directIp : Option IpAddr) : Clients :=
  if !s.accepting then
    s
  else
    let threads := s.threads.filter fun id => id ∉ s.garbage
    if threads.length ≥ limits.electrumMaxClients then
      { s with threads := threads, garbage := [] }
    else
      { s with
        conns := s.conns ++ [ClientConnection.new directIp]
        threads := threads ++ [s.conns.length]
        garbage := [] }

def atConn (s : Clients) (id : Nat) (f : ClientConnection -> Clients) : Clients :=
  match s.conns[id]? with
  | none => s
  | some c => f c

def receive (limits : ClientLimits) (s : Clients) (id : Nat) (ok : Bool)
    (c : ClientConnection) : Clients :=
  let (counts, c) := c.receive limits s.counts ok
  { s with counts := counts, conns := s.conns.set id c }

def release (s : Clients) (id : Nat) (c : ClientConnection) : Clients :=
  match c.phase with
  | .releasing key =>
    { s with
      counts := ClientConnection.releaseSlot s.counts key
      conns := s.conns.set id { c with phase := .closed } }
  | _ => s

def finish (s : Clients) (id : Nat) (c : ClientConnection) : Clients :=
  if c.phase = .closed ∧ c.reader = .ended then
    { s with garbage := s.garbage ++ [id] }
  else
    s

def step (limits : ClientLimits) (s : Clients) : ClientAction -> Clients
  | .accept directIp => s.accept limits directIp
  | .stopAccepting => { s with accepting := false }
  | .connection id action => s.atConn id fun c =>
    { s with conns := s.conns.set id (c.localStep action) }
  | .receive id ok => s.atConn id (s.receive limits id ok)
  | .release id => s.atConn id (s.release id)
  | .finish id => s.atConn id (s.finish id)

def run (limits : ClientLimits) (actions : List ClientAction) : Clients :=
  actions.foldl (step limits) start

end Clients

/-!
## Slots
-/

namespace ClientConnection

def slot (c : ClientConnection) : Option IpAddr :=
  match c.phase with
  | .serving => c.registeredIp
  | .leaving => c.registeredIp
  | .releasing key => some key
  | .closed => none

def pending (c : ClientConnection) : Nat :=
  (if c.reader = .headers then 1 else 0) + (c.chan.getD []).countP Message.isProxy

def clientKey (c : ClientConnection) : Option IpAddr :=
  (c.proxyClient.map SocketAddr.ip).or c.directIp

/-- Requests are read, and the `Proxy` message before them has been handled. -/
def Served (c : ClientConnection) : Prop :=
  c.phase = .serving ∧ c.reader = .requests ∧ c.pending = 0

structure Sound (limits : ClientLimits) (c : ClientConnection) : Prop where
  pending_le : c.pending ≤ 1
  slot_none : 0 < c.pending -> c.slot = none
  slot_eq : limits.electrumConnectionsPerClient ≠ 0 -> c.Served -> c.slot = c.clientKey

section Steps

variable {limits : ClientLimits} {counts : ClientCounts} {c c' : ClientConnection}

theorem sound_new (directIp : Option IpAddr) : (new directIp).Sound limits where
  pending_le := Nat.le_refl 1
  slot_none := fun _ => rfl
  slot_eq := fun _ hserved => nomatch hserved.right.left

structure Keeps (limits : ClientLimits) (c c' : ClientConnection) : Prop where
  slot_eq : c'.slot = c.slot
  pending_le : c'.pending ≤ c.pending
  served : limits.electrumConnectionsPerClient ≠ 0 -> c'.Served ->
    c.Served ∧ c'.clientKey = c.clientKey ∨ 0 < c.pending ∧ c'.clientKey = none

theorem Keeps.refl (c : ClientConnection) : c.Keeps limits c :=
  ⟨rfl, Nat.le_refl _, fun _ hserved => Or.inl ⟨hserved, rfl⟩⟩

theorem Sound.keeps (h : c.Sound limits) (hkeeps : c.Keeps limits c') : c'.Sound limits where
  pending_le := Nat.le_trans hkeeps.pending_le h.pending_le
  slot_none := by
    intro hpos
    rw [hkeeps.slot_eq]
    exact h.slot_none (Nat.lt_of_lt_of_le hpos hkeeps.pending_le)
  slot_eq := by
    intro hlimit hserved
    rw [hkeeps.slot_eq]
    rcases hkeeps.served hlimit hserved with ⟨hbefore, hkey⟩ | ⟨hpos, hkey⟩
    · rw [hkey]
      exact h.slot_eq hlimit hbefore
    · rw [hkey]
      exact h.slot_none hpos

theorem keeps_ended : c.Keeps limits { c with reader := .ended } :=
  ⟨rfl, Nat.add_le_add_right (Nat.zero_le _) _, fun _ hserved => nomatch hserved.right.left⟩

variable {message : Message}

theorem keeps_send {next : ReaderPhase} (hnext : next ≠ .headers)
    (hproxy : message.isProxy = true -> c.reader = .headers)
    (hother : message.isProxy = false -> c.reader = .requests) :
    c.Keeps limits (c.send message next) := by
  unfold send
  split
  · exact keeps_ended
  · rename_i messages hchan
    split
    · have hpending : ({ c with chan := some (messages ++ [message]), reader := next } :
          ClientConnection).pending = messages.countP Message.isProxy +
            if message.isProxy = true then 1 else 0 := by
        rw [pending, if_neg hnext, Nat.zero_add, Option.getD_some, List.countP_append,
          List.countP_singleton]
      cases hmessage : message.isProxy with
      | true =>
        rw [hmessage, if_pos rfl] at hpending
        refine ⟨rfl, ?_, fun _ hserved => ?_⟩
        · rw [hpending, pending, hchan, if_pos (hproxy hmessage), Nat.add_comm, Option.getD_some]
        · exact absurd (hpending.symm.trans hserved.right.right) (Nat.succ_ne_zero _)
      | false =>
        have hbefore : c.pending = messages.countP Message.isProxy := by
          rw [pending, hother hmessage, hchan, if_neg nofun, Nat.zero_add, Option.getD_some]
        rw [hmessage, if_neg Bool.false_ne_true, Nat.add_zero, <- hbefore] at hpending
        exact ⟨rfl, Nat.le_of_eq hpending, fun _ hserved => Or.inl
          ⟨⟨hserved.left, hother hmessage, hpending.symm.trans hserved.right.right⟩, rfl⟩⟩
    · exact Keeps.refl c

theorem keeps_trySend (hproxy : message.isProxy = false) :
    c.Keeps limits (c.trySend message) := by
  unfold trySend
  split
  · exact Keeps.refl c
  · rename_i messages hchan
    split
    · have hpending : ({ c with chan := some (messages ++ [message]) } :
          ClientConnection).pending = c.pending := by
        rw [pending, pending, hchan]
        dsimp only [Option.getD_some]
        rw [List.countP_append, List.countP_singleton, hproxy, if_neg Bool.false_ne_true]
        rfl
      exact ⟨rfl, Nat.le_of_eq hpending, fun _ hserved => Or.inl
        ⟨⟨hserved.left, hserved.right.left, hpending.symm.trans hserved.right.right⟩, rfl⟩⟩
    · exact Keeps.refl c

theorem keeps_close (h : c.phase = .serving) : c.Keeps limits c.close where
  slot_eq := by
    rw [slot, slot, h]
    rfl
  pending_le := Nat.add_le_add_left (Nat.zero_le _) _
  served := fun _ hserved => nomatch hserved.left

theorem keeps_readProxyHeaders (c : ClientConnection) (result : Option (Option (List SocketAddr))) :
    c.Keeps limits (c.readProxyHeaders result) := by
  unfold readProxyHeaders
  split
  · rename_i hreader
    cases result with
    | none => exact keeps_ended
    | some addresses => exact keeps_send (by decide) (fun _ => hreader) nofun
  · exact Keeps.refl c

theorem keeps_readLine (c : ClientConnection) (result : LineRead) :
    c.Keeps limits (c.readLine result) := by
  unfold readLine
  split
  · rename_i hreader
    cases result with
    | line text => exact keeps_send (by decide) nofun fun _ => hreader
    | endOfStream => exact keeps_send (by decide) nofun fun _ => hreader
    | invalid => exact keeps_send (by decide) nofun fun _ => hreader
    | failed => exact keeps_ended
  · exact Keeps.refl c

theorem keeps_leaveLoop (c : ClientConnection) : c.Keeps limits c.leaveLoop := by
  unfold leaveLoop
  split
  · rename_i hphase
    exact keeps_close hphase
  · exact Keeps.refl c

theorem keeps_takeRegisteredIp (c : ClientConnection) :
    c.Keeps limits c.takeRegisteredIp := by
  unfold takeRegisteredIp
  split
  · rename_i hphase
    have hslot : c.slot = c.registeredIp := by
      rw [slot, hphase]
    cases hip : c.registeredIp with
    | none =>
      exact ⟨(hslot.trans hip).symm, Nat.le_refl _, fun _ hserved => nomatch hserved.left⟩
    | some key =>
      exact ⟨(hslot.trans hip).symm, Nat.le_refl _, fun _ hserved => nomatch hserved.left⟩
  · exact Keeps.refl c

theorem keeps_localStep (c : ClientConnection) (action : LocalAction) :
    c.Keeps limits (c.localStep action) := by
  cases action with
  | readProxyHeaders result => exact keeps_readProxyHeaders c result
  | readLine result => exact keeps_readLine c result
  | notify => exact keeps_trySend rfl
  | sendDone => exact keeps_trySend rfl
  | shutdown => exact keeps_leaveLoop c
  | idle => exact keeps_leaveLoop c
  | takeRegisteredIp => exact keeps_takeRegisteredIp c

def Registers (limits : ClientLimits) (counts counts' : ClientCounts)
    (c' : ClientConnection) : Prop :=
  exists key, c'.slot = some key ∧ c'.clientKey = some key ∧
    (counts key).getD 0 < limits.electrumConnectionsPerClient ∧
    counts' = Function.update counts key (some ((counts key).getD 0 + 1))

theorem registerClient_spec (limits : ClientLimits) (counts : ClientCounts)
    (hphase : c.phase = .serving) :
    (exists counts' c', registerClient limits counts c = (counts', .ok c') ∧
        c'.pending = c.pending ∧
        (counts' = counts ∧ c'.slot = c.slot ∧
            (limits.electrumConnectionsPerClient ≠ 0 -> c'.clientKey = none) ∨
          Registers limits counts counts' c')) ∨
      exists error, registerClient limits counts c = (counts, .error error) := by
  unfold registerClient
  split
  · rename_i hlimit
    exact Or.inl ⟨counts, c, rfl, rfl, Or.inl ⟨rfl, rfl, fun h => absurd hlimit h⟩⟩
  · rename_i hlimit
    split
    · rename_i hkey
      exact Or.inl ⟨counts, c, rfl, rfl, Or.inl ⟨rfl, rfl, fun _ => hkey⟩⟩
    · rename_i key hkey
      dsimp only
      split
      · rename_i hfull
        refine Or.inr ⟨_, Prod.ext ?_ rfl⟩
        have hentry : counts key = some ((counts key).getD 0) := by
          cases hcount : counts key with
          | none =>
            rw [hcount, Option.getD_none] at hfull
            exact absurd (Nat.le_zero.mp hfull) hlimit
          | some count => rfl
        rw [<- hentry]
        exact Function.update_eq_self key counts
      · rename_i hroom
        refine Or.inl ⟨_, _, rfl, rfl, Or.inr ⟨key, ?_, hkey, Nat.not_le.mp hroom, ?_⟩⟩
        · rw [slot]
          dsimp only
          rw [hphase]
        · exact Function.update_idem _ _ _

theorem handleProxy_spec (limits : ClientLimits) (counts : ClientCounts)
    (hphase : c.phase = .serving) (addresses : Option (List SocketAddr)) :
    (c.handleProxy limits counts addresses).2.pending ≤ c.pending ∧
      ((c.handleProxy limits counts addresses).1 = counts ∧
          (c.handleProxy limits counts addresses).2.slot = c.slot ∧
          (limits.electrumConnectionsPerClient ≠ 0 ->
            (c.handleProxy limits counts addresses).2.Served ->
            (c.handleProxy limits counts addresses).2.clientKey = none) ∨
        Registers limits counts (c.handleProxy limits counts addresses).1
          (c.handleProxy limits counts addresses).2) := by
  have hproxied : (c.setProxyClient limits addresses).phase = .serving := hphase
  unfold handleProxy
  rcases registerClient_spec limits counts hproxied with
    ⟨counts', c', heq, hpending, hcases⟩ | ⟨error, heq⟩
  · dsimp only
    rw [heq]
    exact ⟨Nat.le_of_eq hpending, hcases.imp_left fun h =>
      ⟨h.left, h.right.left, fun hlimit _ => h.right.right hlimit⟩⟩
  · dsimp only
    rw [heq]
    have hkeeps : (c.setProxyClient limits addresses).Keeps limits _ := keeps_close hproxied
    exact ⟨hkeeps.pending_le, Or.inl ⟨rfl, hkeeps.slot_eq, fun _ hserved => nomatch hserved.left⟩⟩

theorem pop_pending {rest : List Message} (hchan : c.chan = some (message :: rest)) :
    ({ c with chan := some rest } : ClientConnection).pending +
      (if message.isProxy = true then 1 else 0) = c.pending := by
  rw [pending, pending, hchan]
  dsimp only [Option.getD_some]
  rw [List.countP_cons]
  exact Nat.add_assoc _ _ _

theorem Keeps.leaving (h : c.Keeps limits c') (hphase : c'.phase = .serving) :
    c.Keeps limits { c' with phase := .leaving } where
  slot_eq := by
    rw [<- h.slot_eq, slot, slot, hphase]
  pending_le := h.pending_le
  served := fun _ hserved => nomatch hserved.left

theorem keeps_pop {rest : List Message} (hchan : c.chan = some (message :: rest))
    (hproxy : message.isProxy = false) : c.Keeps limits { c with chan := some rest } := by
  have hpop := pop_pending hchan
  rw [hproxy, if_neg Bool.false_ne_true, Nat.add_zero] at hpop
  exact ⟨rfl, Nat.le_of_eq hpop, fun _ hserved => Or.inl
    ⟨⟨hserved.left, hserved.right.left, hpop.symm.trans hserved.right.right⟩, rfl⟩⟩

theorem receive_spec (limits : ClientLimits) (counts : ClientCounts) (c : ClientConnection)
    (ok : Bool) :
    (c.receive limits counts ok).1 = counts ∧ c.Keeps limits (c.receive limits counts ok).2 ∨
      (c.receive limits counts ok).2.pending < c.pending ∧
        Registers limits counts (c.receive limits counts ok).1 (c.receive limits counts ok).2 := by
  unfold receive
  split
  · rename_i message rest hphase hchan
    have hanswered : message.isProxy = false ->
        c.Keeps limits (if ok = true then { c with chan := some rest }
          else { c with chan := some rest, phase := .leaving }) := by
      intro hproxy
      split
      · exact keeps_pop hchan hproxy
      · exact (keeps_pop hchan hproxy).leaving hphase
    cases message with
    | request line => exact Or.inl ⟨rfl, hanswered rfl⟩
    | periodicUpdate => exact Or.inl ⟨rfl, hanswered rfl⟩
    | done =>
      have hkeeps : c.Keeps limits { c with chan := some rest } := keeps_pop hchan rfl
      have hclose : ClientConnection.Keeps limits { c with chan := some rest } _ :=
        keeps_close hphase
      exact Or.inl ⟨rfl, hclose.slot_eq, Nat.le_trans hclose.pending_le hkeeps.pending_le,
        fun _ hserved => nomatch hserved.left⟩
    | proxy addresses =>
      have hpop := pop_pending hchan
      rw [Message.isProxy, if_pos rfl] at hpop
      have hlt := Nat.lt_of_succ_le (Nat.le_of_eq hpop)
      rcases handleProxy_spec (c := { c with chan := some rest }) limits counts hphase
        addresses with ⟨hpending, ⟨hcounts, hslot, hkey⟩ | hregisters⟩
      · exact Or.inl ⟨hcounts, hslot, Nat.le_trans hpending (Nat.le_of_lt hlt),
          fun hlimit hserved => Or.inr ⟨Nat.zero_lt_of_lt hlt, hkey hlimit hserved⟩⟩
      · exact Or.inr ⟨Nat.lt_of_le_of_lt hpending hlt, hregisters⟩
  · exact Or.inl ⟨rfl, Keeps.refl c⟩

end Steps

end ClientConnection

/-!
## The counters
-/

namespace Clients

def liveRegistered (s : Clients) (ip : IpAddr) : Nat :=
  s.conns.countP fun c => c.slot = some ip

def slots (s : Clients) : List (Option IpAddr) :=
  s.conns.map ClientConnection.slot

structure Accounted (limits : ClientLimits) (s : Clients) : Prop where
  sound : forall c, c ∈ s.conns -> c.Sound limits
  counts_eq : s.counts = tally s.slots
  count_le : forall ip, s.slots.count (some ip) ≤ limits.electrumConnectionsPerClient

section Runs

variable {limits : ClientLimits} {s : Clients} {id : Nat} {c c' : ClientConnection}

theorem count_slots (s : Clients) (ip : IpAddr) :
    s.slots.count (some ip) = s.liveRegistered ip := by
  rw [slots, List.count, List.countP_map]
  refine List.countP_congr ?_
  intro c _
  simp

theorem accounted_start : Accounted limits start where
  sound := by
    intro c hc
    cases hc
  counts_eq := rfl
  count_le := fun _ => Nat.zero_le _

theorem slots_getElem? (hc : s.conns[id]? = some c) : s.slots[id]? = some c.slot := by
  rw [slots, List.getElem?_map, hc]
  rfl

section

variable (h : Accounted limits s)

include h

theorem Accounted.sound_set (hc' : c'.Sound limits) :
    forall other, other ∈ s.conns.set id c' -> other.Sound limits := by
  intro other hother
  rcases List.mem_or_eq_of_mem_set hother with hmem | heq
  · exact h.sound other hmem
  · rw [heq]
    exact hc'

theorem Accounted.keeps (hc : s.conns[id]? = some c) (hkeeps : c.Keeps limits c') :
    Accounted limits { s with conns := s.conns.set id c' } := by
  have hslots : ({ s with conns := s.conns.set id c' } : Clients).slots = s.slots := by
    rw [slots, List.map_set, hkeeps.slot_eq]
    exact set_of_getElem? (slots_getElem? hc)
  constructor
  case sound =>
    exact h.sound_set ((h.sound c (List.mem_of_getElem? hc)).keeps hkeeps)
  case counts_eq =>
    rw [hslots]
    exact h.counts_eq
  case count_le =>
    rw [hslots]
    exact h.count_le

theorem Accounted.registers (hc : s.conns[id]? = some c) {counts' : ClientCounts}
    (hpending : c'.pending < c.pending)
    (hregisters : ClientConnection.Registers limits s.counts counts' c') :
    Accounted limits { s with counts := counts', conns := s.conns.set id c' } := by
  have hsound := h.sound c (List.mem_of_getElem? hc)
  have hle := hsound.pending_le
  have hslot := slots_getElem? hc
  rw [hsound.slot_none (by omega)] at hslot
  rcases hregisters with ⟨key, hkey, hclient, hroom, hcounts⟩
  have hslots : ({ s with counts := counts', conns := s.conns.set id c' } :
      Clients).slots = s.slots.set id (some key) := by
    rw [slots, List.map_set, hkey]
    rfl
  rw [h.counts_eq, getD_tally] at hroom
  constructor
  case sound =>
    exact h.sound_set ⟨by omega, fun hpos => by omega, fun _ _ => hkey.trans hclient.symm⟩
  case counts_eq =>
    rw [hslots, tally_acquire hslot]
    show counts' = _
    rw [hcounts, h.counts_eq, getD_tally]
  case count_le =>
    intro ip
    rw [hslots]
    by_cases heq : ip = key
    · rw [heq, count_acquire hslot]
      exact hroom
    · have hcount := count_set hslot (some key) ip
      rw [if_neg (Option.some_ne_none ip).symm,
        if_neg fun h => heq (Option.some.inj h).symm] at hcount
      rw [Nat.add_zero, Nat.add_zero] at hcount
      rw [hcount]
      exact h.count_le ip

theorem Accounted.releases (hc : s.conns[id]? = some c) {key : IpAddr}
    (hphase : c.phase = .releasing key) :
    Accounted limits { s with
      counts := ClientConnection.releaseSlot s.counts key
      conns := s.conns.set id { c with phase := .closed } } := by
  have hslot := slots_getElem? hc
  have hheld : c.slot = some key := by
    rw [ClientConnection.slot, hphase]
  rw [hheld] at hslot
  have hslots : ({ s with
      counts := ClientConnection.releaseSlot s.counts key
      conns := s.conns.set id { c with phase := .closed } } : Clients).slots =
        s.slots.set id none := by
    rw [slots, List.map_set]
    rfl
  have hpos : s.slots.count (some key) ≠ 0 :=
    Nat.ne_of_gt (List.count_pos_iff.mpr (List.mem_of_getElem? hslot))
  constructor
  case sound =>
    exact h.sound_set ⟨(h.sound c (List.mem_of_getElem? hc)).pending_le, fun _ => rfl,
      fun _ hserved => nomatch hserved.left⟩
  case counts_eq =>
    rw [hslots, tally_release hslot]
    show ClientConnection.releaseSlot s.counts key = _
    rw [ClientConnection.releaseSlot, h.counts_eq, tally, if_neg hpos]
  case count_le =>
    intro ip
    rw [hslots]
    have hcount := count_set hslot none ip
    rw [if_neg (Option.some_ne_none ip).symm] at hcount
    have hle := h.count_le ip
    omega

theorem Accounted.accept (directIp : Option IpAddr) :
    Accounted limits (s.accept limits directIp) := by
  unfold Clients.accept
  split
  · exact h
  · dsimp only
    split
    · exact ⟨h.sound, h.counts_eq, h.count_le⟩
    · have hslots : (s.conns ++ [ClientConnection.new directIp]).map ClientConnection.slot =
          s.slots ++ [none] := by
        rw [List.map_append]
        rfl
      constructor
      case sound =>
        intro c hc
        rcases List.mem_append.mp hc with hc | hc
        · exact h.sound c hc
        · rw [List.mem_singleton.mp hc]
          exact ClientConnection.sound_new directIp
      case counts_eq =>
        rw [slots, hslots, tally_concat_none]
        exact h.counts_eq
      case count_le =>
        intro ip
        rw [slots, hslots, List.count_append]
        exact h.count_le ip

theorem Accounted.atConn {f : ClientConnection -> Clients}
    (hf : forall c, s.conns[id]? = some c -> Accounted limits (f c)) :
    Accounted limits (s.atConn id f) := by
  unfold Clients.atConn
  split
  · exact h
  · rename_i c hc
    exact hf c hc

theorem Accounted.receive (hc : s.conns[id]? = some c) (ok : Bool) :
    Accounted limits (s.receive limits id ok c) := by
  rcases c.receive_spec limits s.counts ok with ⟨hcounts, hkeeps⟩ | ⟨hpending, hregisters⟩
  · show Accounted limits { s with
      counts := (c.receive limits s.counts ok).1
      conns := s.conns.set id (c.receive limits s.counts ok).2 }
    rw [hcounts]
    exact h.keeps hc hkeeps
  · exact h.registers hc hpending hregisters

theorem Accounted.release (hc : s.conns[id]? = some c) : Accounted limits (s.release id c) := by
  unfold Clients.release
  split
  · rename_i key hphase
    exact h.releases hc hphase
  · exact h

theorem Accounted.finish (c : ClientConnection) : Accounted limits (s.finish id c) := by
  unfold Clients.finish
  split
  · exact ⟨h.sound, h.counts_eq, h.count_le⟩
  · exact h

theorem Accounted.step (action : ClientAction) : Accounted limits (s.step limits action) := by
  cases action with
  | accept directIp => exact h.accept directIp
  | stopAccepting => exact ⟨h.sound, h.counts_eq, h.count_le⟩
  | connection id action => exact h.atConn fun c hc => h.keeps hc (c.keeps_localStep action)
  | receive id ok => exact h.atConn fun c hc => h.receive hc ok
  | release id => exact h.atConn fun c hc => h.release hc
  | finish id => exact h.atConn fun c _ => h.finish c

end

theorem accounted_run (limits : ClientLimits) (actions : List ClientAction) :
    Accounted limits (run limits actions) := by
  induction actions using List.reverseRecOn with
  | nil => exact accounted_start
  | append_singleton front action ih =>
    rw [run, List.foldl_concat]
    exact ih.step action

/-- After any interleaving a counter is the number of registered connections, never zero and never
above the limit.  A served connection has the slot of its address. -/
theorem client_counts_exact (limits : ClientLimits) (actions : List ClientAction) (ip : IpAddr) :
    ((run limits actions).counts ip).getD 0 = (run limits actions).liveRegistered ip ∧
      (run limits actions).counts ip ≠ some 0 ∧
      ((run limits actions).counts ip).getD 0 ≤ limits.electrumConnectionsPerClient ∧
      forall c, c ∈ (run limits actions).conns -> limits.electrumConnectionsPerClient ≠ 0 ->
        c.Served -> c.slot = c.clientKey := by
  have h := accounted_run limits actions
  rw [h.counts_eq, getD_tally]
  exact ⟨count_slots _ ip, tally_ne_zero, h.count_le ip, fun c hc => (h.sound c hc).slot_eq⟩

end Runs

end Clients

end Electrum
end Splora
