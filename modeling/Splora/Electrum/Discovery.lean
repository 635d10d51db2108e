import Splora.Electrum.Clients

/-!
# Discovery of other servers

Health checks are queued, one job for each address and service.  The checked job is not in the
queue, and requests add jobs at any time.  The tests on adding look at the queue only, or are
not there at all.
-/

namespace Splora
namespace Electrum

open Foundation
open Queue (IpAddr)

abbrev Hostname := Text

abbrev Port := UInt16

abbrev Instant := Nat

inductive ServerAddr where
  | clearnet (ip : IpAddr)
  | onion (hostname : Hostname)
deriving DecidableEq, Repr

inductive Service where
  | tcp (port : Port)
  | ssl (port : Port)
deriving DecidableEq, Repr

structure ProtocolVersion where
  major : Nat
  minor : Nat
deriving DecidableEq, Repr

def ProtocolVersion.le (v v' : ProtocolVersion) : Bool :=
  ((compare v.major v'.major).then (compare v.minor v'.minor)).isLE

structure ServerPorts where
  tcpPort : Option Port
  sslPort : Option Port

structure ServerFeatures where
  hosts : List (Hostname × ServerPorts)
  genesisHash : BlockHash
  protocolMin : ProtocolVersion
  protocolMax : ProtocolVersion
  hashFunction : Text

structure Server where
  services : Finset Service
  hostname : Hostname
  features : ServerFeatures

structure HealthCheck where
  addr : ServerAddr
  hostname : Hostname
  service : Service
  isDefault : Bool
  addedBy : Option IpAddr
  lastCheck : Option Instant
  lastHealthy : Option Instant
  consecutiveFailures : Nat

def healthCheckFreq : Nat := 3600 * 10 ^ 9

def maxConsecutiveFailures : Nat := 24

def maxQueueSize : Nat := 500

def maxServersPerRequest : Nat := 3

def maxServicesPerRequest : Nat := 6

structure DiscoveryConfig where
  ourVersion : ProtocolVersion
  ourAddrs : List ServerAddr
  ourFeatures : ServerFeatures
  announce : Bool
  torProxy : Option SocketAddr

structure HostEnv where
  toLowercase : Text -> Text
  parseIp : Text -> Option IpAddr
  lookup : Text -> Option IpAddr

namespace HealthCheck

def new (addr : ServerAddr) (hostname : Hostname) (service : Service)
    (addedBy : Option IpAddr) : HealthCheck where
  addr := addr
  hostname := hostname
  service := service
  isDefault := addedBy.isNone
  addedBy := addedBy
  lastCheck := none
  lastHealthy := none
  consecutiveFailures := 0

def isHealthy (job : HealthCheck) : Bool :=
  match job.lastCheck, job.lastHealthy with
  | some lastCheck, some lastHealthy => lastCheck = lastHealthy
  | _, _ => false

def shouldRetry (job : HealthCheck) : Bool :=
  (job.lastHealthy.isSome || job.isDefault) &&
    decide (job.consecutiveFailures < maxConsecutiveFailures)

def notAfter (job job' : HealthCheck) : Bool :=
  match job.lastCheck, job'.lastCheck with
  | none, _ => true
  | some _, none => false
  | some t, some t' => t ≤ t'

def isDue (job : HealthCheck) (now : Instant) : Bool :=
  match job.lastCheck with
  | none => true
  | some t => decide (healthCheckFreq ≤ now - t)

end HealthCheck

/-!
## Adding servers
-/

def ServerAddr.resolve (env : HostEnv) (host : Hostname) : Except Text ServerAddr :=
  if ".onion".toList.isSuffixOf host then
    .ok (.onion host)
  else
    match env.parseIp host with
    | some ip => .ok (.clearnet ip)
    | none => expect ((env.lookup host).map .clearnet) "hostname resolution failed".toList

def isRemoteAddr : ServerAddr -> Bool
  | .onion _ => true
  | .clearnet (.v4 ip) =>
    let loopback := ip >>> 24 = 127
    let multicast := ip >>> 28 = 0xe
    let isPrivate := ip >>> 24 = 10 || ip >>> 20 = 0xac1 || ip >>> 16 = 0xc0a8
    !loopback && ip ≠ 0 && !multicast && !isPrivate
  | .clearnet (.v6 ip) => ip ≠ 1 && ip ≠ 0 && ip >>> 120 ≠ 0xff

def verifyCompatibility (cfg : DiscoveryConfig) (features : ServerFeatures) :
    Except Text Unit := do
  ensure (features.genesisHash = cfg.ourFeatures.genesisHash) "incompatible networks".toList
  ensure (features.protocolMin.le cfg.ourVersion && cfg.ourVersion.le features.protocolMax)
    "incompatible protocol versions".toList
  ensure (features.hashFunction = "sha256".toList) "incompatible hash function".toList

/-- A job, together with the outcome of its last check, which the source does not keep. -/
structure Job extends HealthCheck where
  lastSucceeded : Bool

namespace Job

def new (addr : ServerAddr) (hostname : Hostname) (service : Service)
    (addedBy : Option IpAddr) : Job where
  toHealthCheck := HealthCheck.new addr hostname service addedBy
  lastSucceeded := false

def key (job : Job) : ServerAddr × Service :=
  (job.addr, job.service)

def succeed (job : Job) (now : Instant) : Job :=
  { job with
    lastCheck := some now
    lastHealthy := some now
    consecutiveFailures := 0
    lastSucceeded := true }

def fail (job : Job) (now : Instant) : Job :=
  { job with
    lastCheck := some now
    consecutiveFailures := job.consecutiveFailures + 1
    lastSucceeded := false }

end Job

def candidate (cfg : DiscoveryConfig) (env : HostEnv) (addedBy : IpAddr)
    (host : Hostname × ServerPorts) : Option (ServerAddr × Hostname × ServerPorts) :=
  let hostname := env.toLowercase host.1
  if (hostname.map Char.utf8Size).sum > 100 then
    none
  else
    match ServerAddr.resolve env hostname with
    | .error _ => none
    | .ok addr =>
      if !isRemoteAddr addr || addr ∈ cfg.ourAddrs then
        none
      else
        match addr with
        | .clearnet ip => if ip ≠ addedBy then none else some (addr, hostname, host.2)
        | .onion _ => some (addr, hostname, host.2)

def ServerPorts.services (ports : ServerPorts) : List Service :=
  (ports.tcpPort.map Service.tcp).toList ++ (ports.sslPort.map Service.ssl).toList

def candidateJobs (cfg : DiscoveryConfig) (env : HostEnv) (queue : List Job)
    (addedBy : IpAddr) (features : ServerFeatures) : List Job :=
  (((features.hosts.take maxServersPerRequest).filterMap
    (candidate cfg env addedBy)).flatMap fun (addr, hostname, ports) =>
      (ports.services.filter fun service => (addr, service) ∉ queue.map Job.key).map
        fun service => Job.new addr hostname service (some addedBy)).take maxServicesPerRequest

def addServerRequest (cfg : DiscoveryConfig) (env : HostEnv) (queue : List Job)
    (addedBy : IpAddr) (features : ServerFeatures) : Except Text (List Job) := do
  verifyCompatibility cfg features
  ensure (queue.length < maxQueueSize) "queue size exceeded".toList
  let jobs := candidateJobs cfg env queue addedBy features
  ensure (queue.length + jobs.length ≤ maxQueueSize) "queue size exceeded".toList
  return jobs

def addDefaultServer (env : HostEnv) (hostname : Hostname) (services : List Service) :
    Except Text (List Job) := do
  let addr <- ServerAddr.resolve env hostname
  return services.map fun service => Job.new addr hostname service none

/-!
## Checking servers
-/

abbrev HealthyMap := ServerAddr -> Option Server

inductive DiscoveryPanic where
  | assertRemoved
  | missingServer
  | emptyQueue
deriving DecidableEq, Repr

def saveHealthyService (healthy : HealthyMap) (job : HealthCheck)
    (features : ServerFeatures) : HealthyMap :=
  let server := (healthy job.addr).getD {
    services := ∅
    hostname := job.hostname
    features := features }
  Function.update healthy job.addr
    (some { server with services := insert job.service server.services })

def removeUnhealthyService (healthy : HealthyMap) (job : HealthCheck) :
    Except DiscoveryPanic HealthyMap :=
  match healthy job.addr with
  | none => .error .missingServer
  | some server => do
      ensure (job.service ∈ server.services) .assertRemoved
      let services := server.services.erase job.service
      return Function.update healthy job.addr
        (if services = ∅ then none else some { server with services := services })

def ServerAddr.isOnion : ServerAddr -> Bool
  | .onion _ => true
  | .clearnet _ => false

/-- `fetched` is what `server_features` returned, if there was a connection. -/
def checkServer (cfg : DiscoveryConfig) (addr : ServerAddr)
    (fetched : Option ServerFeatures) : Except Text ServerFeatures := do
  ensure (!addr.isOnion || cfg.torProxy.isSome)
    "no tor proxy configured, onion hosts are unsupported".toList
  let features <- expect fetched "connection failed".toList
  verifyCompatibility cfg features
  ensure (!cfg.announce) "server.add_peer is not on this electrum-client".toList
  return features

inductive JobsPhase where
  | idle
  | peeked
  | checking (job : Job)
  | checked (job : Job)

structure Discovery where
  queue : List Job
  healthy : HealthyMap
  phase : JobsPhase
  now : Instant

inductive DiscoveryAction where
  | tick (elapsed : Nat)
  | addDefaultServer (env : HostEnv) (hostname : Hostname) (services : List Service)
  | addServerRequest (env : HostEnv) (addedBy : IpAddr) (features : ServerFeatures)
  | peek
  | pop (i : Nat)
  | check (fetched : Option ServerFeatures)
  | push

namespace Discovery

def start : Discovery where
  queue := []
  healthy := fun _ => none
  phase := .idle
  now := 0

def added (cfg : DiscoveryConfig) (s : Discovery) : DiscoveryAction -> List Job
  | .addDefaultServer env hostname services =>
    (addDefaultServer env hostname services).toOption.getD []
  | .addServerRequest env addedBy features =>
    (addServerRequest cfg env s.queue addedBy features).toOption.getD []
  | _ => []

def extend (s : Discovery) (jobs : List Job) : Discovery :=
  { s with queue := s.queue ++ jobs }

def next? (queue : List Job) (i : Nat) : Option Job :=
  queue[i]?.filter fun job => queue.all fun job' => job.notAfter job'.toHealthCheck

def peek (s : Discovery) : Discovery :=
  match s.phase with
  | .idle =>
    if s.queue.any fun job => job.isDue s.now then
      { s with phase := .peeked }
    else
      s
  | _ => s

def pop (s : Discovery) (i : Nat) : Except DiscoveryPanic Discovery :=
  match s.phase with
  | .peeked =>
    if s.queue = [] then
      .error .emptyQueue
    else
      match next? s.queue i with
      | some job =>
        .ok { s with queue := s.queue.eraseIdx i, phase := .checking job }
      | none => .ok s
  | _ => .ok s

def finishCheck (s : Discovery) (job : Job) (result : Except Text ServerFeatures) :
    Except DiscoveryPanic Discovery :=
  let wasHealthy := job.isHealthy
  match result with
  | .ok features =>
    let healthy :=
      if !wasHealthy then saveHealthyService s.healthy job.toHealthCheck features
      else s.healthy
    .ok { s with healthy := healthy, phase := .checked (job.succeed s.now) }
  | .error _ => do
      let healthy <-
        (if wasHealthy then removeUnhealthyService s.healthy job.toHealthCheck
          else .ok s.healthy)
      let job := job.fail s.now
      return { s with
        healthy := healthy
        phase := if job.shouldRetry then .checked job else .idle }

def check (cfg : DiscoveryConfig) (s : Discovery) (fetched : Option ServerFeatures) :
    Except DiscoveryPanic Discovery :=
  match s.phase with
  | .checking job => s.finishCheck job (checkServer cfg job.addr fetched)
  | _ => .ok s

def push (s : Discovery) : Discovery :=
  match s.phase with
  | .checked job => { s with queue := s.queue ++ [job], phase := .idle }
  | _ => s

def step (cfg : DiscoveryConfig) (s : Discovery) :
    DiscoveryAction -> Except DiscoveryPanic Discovery
  | .tick elapsed => .ok { s with now := s.now + elapsed }
  | .addDefaultServer env hostname services =>
    .ok (s.extend (added cfg s (.addDefaultServer env hostname services)))
  | .addServerRequest env addedBy features =>
    .ok (s.extend (added cfg s (.addServerRequest env addedBy features)))
  | .peek => .ok s.peek
  | .pop i => s.pop i
  | .check fetched => s.check cfg fetched
  | .push => .ok s.push

def run (cfg : DiscoveryConfig) (actions : List DiscoveryAction) :
    Except DiscoveryPanic Discovery :=
  actions.foldlM (step cfg) start

/-!
## The bookkeeping
-/

def inProgress : JobsPhase -> List Job
  | .checking job => [job]
  | .checked job => [job]
  | _ => []

def jobs (s : Discovery) : List Job :=
  s.queue ++ inProgress s.phase

def Listed (healthy : HealthyMap) (key : ServerAddr × Service) : Prop :=
  exists server, healthy key.1 = some server ∧ key.2 ∈ server.services

def Succeeded (jobs : List Job) (key : ServerAddr × Service) : Prop :=
  exists job, job ∈ jobs ∧ job.key = key ∧ job.lastSucceeded = true

structure Bookkept (s : Discovery) : Prop where
  one_job : (s.jobs.map Job.key).Nodup
  listed_iff : forall key, Listed s.healthy key <-> Succeeded s.jobs key
  services_nonempty : forall addr server, s.healthy addr = some server -> server.services ≠ ∅

def AddsFresh (s : Discovery) (new : List Job) : Prop :=
  (new.map Job.key).Nodup ∧ forall key, key ∈ new.map Job.key -> key ∉ s.jobs.map Job.key

/-- The accepted addresses that the hosts of a request resolve to, with the ports. -/
def requestPairs (cfg : DiscoveryConfig) (env : HostEnv) (addedBy : IpAddr)
    (features : ServerFeatures) : List (ServerAddr × Service) :=
  ((features.hosts.take maxServersPerRequest).filterMap
    (candidate cfg env addedBy)).flatMap fun (addr, _, ports) =>
      ports.services.map fun service => (addr, service)

def unqueued (queue : List Job) (pairs : List (ServerAddr × Service)) :
    List (ServerAddr × Service) :=
  pairs.filter fun pair => pair ∉ queue.map Job.key

/-- The call names no pair twice, a default server none of a job, and a request none of the job in
progress; those of the queue are left out by the call. -/
def NamesFresh (s : Discovery) (cfg : DiscoveryConfig) : DiscoveryAction -> Prop
  | .addDefaultServer env hostname services =>
    forall addr, ServerAddr.resolve env hostname = .ok addr ->
      services.Nodup ∧
      forall service, service ∈ services -> (addr, service) ∉ s.jobs.map Job.key
  | .addServerRequest env addedBy features =>
    let pairs := unqueued s.queue (requestPairs cfg env addedBy features)
    verifyCompatibility cfg features = .ok () -> s.queue.length < maxQueueSize ->
      s.queue.length + pairs.length ≤ maxQueueSize ->
        pairs.Nodup ∧ forall pair, pair ∈ pairs -> pair ∉ (inProgress s.phase).map Job.key
  | _ => True

section Jobs

variable {cfg : DiscoveryConfig} {s : Discovery} {job job' : Job}
  {jobs jobs' new queue : List Job} {healthy healthy' : HealthyMap} {now : Instant}

theorem succeeded_perm (h : jobs.Perm jobs') (key : ServerAddr × Service) :
    Succeeded jobs key <-> Succeeded jobs' key := by
  constructor
  · intro hsucceeded
    rcases hsucceeded with ⟨job, hmem, hrest⟩
    exact ⟨job, h.mem_iff.mp hmem, hrest⟩
  · intro hsucceeded
    rcases hsucceeded with ⟨job, hmem, hrest⟩
    exact ⟨job, h.mem_iff.mpr hmem, hrest⟩

theorem jobs_extend (s : Discovery) (new : List Job) :
    (s.extend new).jobs.Perm (s.jobs ++ new) := by
  show (s.queue ++ new ++ inProgress s.phase).Perm (s.queue ++ inProgress s.phase ++ new)
  rw [List.append_assoc, List.append_assoc]
  exact List.perm_append_comm.append_left _

theorem nodup_extend_iff (h : (s.jobs.map Job.key).Nodup) :
    ((s.extend new).jobs.map Job.key).Nodup <-> s.AddsFresh new := by
  rw [((jobs_extend s new).map Job.key).nodup_iff, List.map_append, List.nodup_append]
  constructor
  · intro hnodup
    refine ⟨hnodup.right.left, ?_⟩
    intro key hkey hmem
    exact hnodup.right.right key hmem key hkey rfl
  · intro hfresh
    refine ⟨h, hfresh.left, ?_⟩
    intro key hkey key' hkey' heq
    rw [<- heq] at hkey'
    exact hfresh.right key hkey' hkey

theorem addsFresh_nil : s.AddsFresh [] :=
  ⟨List.nodup_nil, fun _ hkey => nomatch hkey⟩

/-!
## What the calls name
-/

theorem addsFresh_addDefaultServer (cfg : DiscoveryConfig) (s : Discovery) (env : HostEnv)
    (hostname : Hostname) (services : List Service) :
    s.AddsFresh (added cfg s (.addDefaultServer env hostname services)) <->
      NamesFresh s cfg (.addDefaultServer env hostname services) := by
  rw [added, NamesFresh, addDefaultServer]
  cases hresolve : ServerAddr.resolve env hostname with
  | error e =>
    refine iff_of_true addsFresh_nil ?_
    intro addr haddr
    cases haddr
  | ok addr =>
    have hkeys : (services.map fun service => Job.new addr hostname service none).map Job.key =
        services.map (Prod.mk addr) := by
      rw [List.map_map]
      rfl
    show s.AddsFresh (services.map fun service => Job.new addr hostname service none) <-> _
    rw [AddsFresh, hkeys, List.nodup_map_iff (Prod.mk_right_injective addr)]
    constructor
    · intro h addr' haddr'
      cases haddr'
      exact ⟨h.left, fun service hservice => h.right _ (List.mem_map_of_mem hservice)⟩
    · intro h
      rcases h addr rfl with ⟨hnodup, hfresh⟩
      refine ⟨hnodup, ?_⟩
      intro key hkey
      rcases List.mem_map.mp hkey with ⟨service, hservice, heq⟩
      rw [<- heq]
      exact hfresh service hservice

theorem length_services (ports : ServerPorts) : ports.services.length ≤ 2 := by
  rcases ports with ⟨tcp, ssl⟩
  cases tcp <;> cases ssl <;> simp [ServerPorts.services]

theorem length_requestPairs (cfg : DiscoveryConfig) (env : HostEnv) (addedBy : IpAddr)
    (features : ServerFeatures) :
    (requestPairs cfg env addedBy features).length ≤ maxServicesPerRequest := by
  rw [requestPairs, List.length_flatMap]
  have hlength := (List.length_filterMap_le (candidate cfg env addedBy)
    (features.hosts.take maxServersPerRequest)).trans (List.length_take_le _ _)
  refine (List.sum_le_card_nsmul _ 2 ?_).trans ?_
  · intro n hn
    rcases List.mem_map.mp hn with ⟨host, _, heq⟩
    rw [<- heq, List.length_map]
    exact length_services _
  · rw [List.length_map, smul_eq_mul]
    exact Nat.mul_le_mul_right 2 hlength

theorem key_candidateJobs (cfg : DiscoveryConfig) (env : HostEnv) (queue : List Job)
    (addedBy : IpAddr) (features : ServerFeatures) :
    (candidateJobs cfg env queue addedBy features).map Job.key =
      unqueued queue (requestPairs cfg env addedBy features) := by
  have hle : (unqueued queue (requestPairs cfg env addedBy features)).length ≤
      maxServicesPerRequest :=
    (List.length_filter_le _ _).trans (length_requestPairs cfg env addedBy features)
  rw [<- List.take_of_length_le hle, candidateJobs, List.map_take, List.map_flatMap, unqueued,
    requestPairs, List.filter_flatMap]
  congr 2
  funext host
  rw [List.map_map, List.filter_map]
  rfl

theorem addsFresh_request (cfg : DiscoveryConfig) (s : Discovery) (env : HostEnv)
    (addedBy : IpAddr) (features : ServerFeatures) :
    s.AddsFresh (added cfg s (.addServerRequest env addedBy features)) <->
      NamesFresh s cfg (.addServerRequest env addedBy features) := by
  have hkeys := key_candidateJobs cfg env s.queue addedBy features
  have hlength := congrArg List.length hkeys
  rw [List.length_map] at hlength
  rw [added, NamesFresh, addServerRequest]
  dsimp only
  rw [hlength]
  cases hverify : verifyCompatibility cfg features with
  | error e =>
    refine iff_of_true addsFresh_nil ?_
    intro hok
    cases hok
  | ok _ =>
    by_cases hroom : s.queue.length < maxQueueSize
    · by_cases hfits : s.queue.length +
          (unqueued s.queue (requestPairs cfg env addedBy features)).length ≤ maxQueueSize
      · rw [ensure_of _ hroom, ensure_of _ hfits]
        show s.AddsFresh (candidateJobs cfg env s.queue addedBy features) <-> _
        rw [AddsFresh, hkeys]
        constructor
        · intro h _ _ _
          refine ⟨h.left, fun pair hpair hmem => h.right pair hpair ?_⟩
          rw [jobs, List.map_append]
          exact List.mem_append_right _ hmem
        · intro h
          rcases h rfl hroom hfits with ⟨hnodup, hfresh⟩
          refine ⟨hnodup, fun pair hpair hmem => ?_⟩
          rw [jobs, List.map_append] at hmem
          rcases List.mem_append.mp hmem with hqueued | hmem
          · exact of_decide_eq_true (List.mem_filter.mp hpair).right hqueued
          · exact hfresh pair hpair hmem
      · refine iff_of_true ?_ fun _ _ h => absurd h hfits
        rw [ensure_of _ hroom, ensure, if_neg hfits]
        exact addsFresh_nil
    · refine iff_of_true ?_ fun _ h => absurd h hroom
      rw [ensure, if_neg hroom]
      exact addsFresh_nil

theorem addsFresh_iff (cfg : DiscoveryConfig) (s : Discovery) (action : DiscoveryAction) :
    s.AddsFresh (added cfg s action) <-> NamesFresh s cfg action := by
  cases action with
  | addDefaultServer env hostname services =>
    exact addsFresh_addDefaultServer cfg s env hostname services
  | addServerRequest env addedBy features => exact addsFresh_request cfg s env addedBy features
  | tick elapsed => exact iff_of_true addsFresh_nil trivial
  | peek => exact iff_of_true addsFresh_nil trivial
  | pop i => exact iff_of_true addsFresh_nil trivial
  | check fetched => exact iff_of_true addsFresh_nil trivial
  | push => exact iff_of_true addsFresh_nil trivial

/-!
## Times
-/

structure Dated (now : Instant) (job : Job) : Prop where
  check_le : forall t, job.lastCheck = some t -> t ≤ now
  healthy_le : forall t, job.lastHealthy = some t -> exists t', job.lastCheck = some t' ∧ t ≤ t'
  isHealthy_eq : job.isHealthy = job.lastSucceeded

theorem dated_new (now : Instant) (addr : ServerAddr) (hostname : Hostname)
    (service : Service) (addedBy : Option IpAddr) :
    Dated now (Job.new addr hostname service addedBy) where
  check_le := by
    intro t h
    cases h
  healthy_le := by
    intro t h
    cases h
  isHealthy_eq := rfl

theorem Dated.mono (h : Dated now job) {later : Instant} (hle : now ≤ later) :
    Dated later job where
  check_le := fun t ht => Nat.le_trans (h.check_le t ht) hle
  healthy_le := h.healthy_le
  isHealthy_eq := h.isHealthy_eq

variable {check : HealthCheck}

theorem isDue_iff :
    check.isDue now = true <-> forall t, check.lastCheck = some t -> healthCheckFreq ≤ now - t := by
  unfold HealthCheck.isDue
  cases hcheck : check.lastCheck with
  | none => simp
  | some t => simp

theorem isDue_mono (h : check.isDue now = true) {later : Instant} (hle : now ≤ later) :
    check.isDue later = true := by
  rw [isDue_iff] at h ⊢
  intro t ht
  exact Nat.le_trans (h t ht) (Nat.sub_le_sub_right hle t)

theorem isDue_of_notAfter {check' : HealthCheck} (h : check.notAfter check' = true)
    (hdue : check'.isDue now = true) :
    check.isDue now = true := by
  rw [isDue_iff] at hdue ⊢
  intro t ht
  unfold HealthCheck.notAfter at h
  rw [ht] at h
  cases ht' : check'.lastCheck with
  | none =>
    rw [ht'] at h
    cases h
  | some t' =>
    rw [ht'] at h
    exact Nat.le_trans (hdue t' ht') (Nat.sub_le_sub_left (of_decide_eq_true h) now)

theorem dated_succeed (job : Job) (now : Instant) : Dated now (job.succeed now) where
  check_le := by
    intro t h
    cases h
    exact Nat.le_refl _
  healthy_le := by
    intro t h
    cases h
    exact ⟨now, rfl, Nat.le_refl _⟩
  isHealthy_eq := decide_eq_true rfl

theorem Dated.fail (h : Dated now job) (hdue : job.isDue now = true) :
    Dated now (job.fail now) where
  check_le := by
    intro t h
    cases h
    exact Nat.le_refl _
  healthy_le := by
    intro t ht
    rcases h.healthy_le t ht with ⟨t', ht', hle⟩
    exact ⟨now, rfl, Nat.le_trans hle (h.check_le t' ht')⟩
  isHealthy_eq := by
    show (match some now, job.lastHealthy with
      | some lastCheck, some lastHealthy => decide (lastCheck = lastHealthy)
      | _, _ => false) = false
    cases hhealthy : job.lastHealthy with
    | none => rfl
    | some t =>
      rcases h.healthy_le t hhealthy with ⟨t', ht', hle⟩
      have helapsed := isDue_iff.mp hdue t' ht'
      refine decide_eq_false ?_
      intro heq
      rw [<- heq] at hle
      rw [Nat.sub_eq_zero_of_le hle] at helapsed
      exact absurd helapsed (by decide)

end Jobs

/-!
## The map of the healthy servers
-/

def Marks (healthy healthy' : HealthyMap) (key : ServerAddr × Service) (flag : Bool) : Prop :=
  forall key', Listed healthy' key' <->
    key' = key ∧ flag = true ∨ key' ≠ key ∧ Listed healthy key'

section Healthy

variable {healthy : HealthyMap} {job : Job}

theorem marks_self {key : ServerAddr × Service} {flag : Bool}
    (h : Listed healthy key <-> flag = true) : Marks healthy healthy key flag := by
  intro key'
  by_cases heq : key' = key
  · rw [heq, h]
    simp
  · simp [heq]

theorem listed_update_of_ne {addr : ServerAddr} {server : Option Server}
    {key : ServerAddr × Service} (h : key.1 ≠ addr) :
    Listed (Function.update healthy addr server) key <-> Listed healthy key := by
  unfold Listed
  rw [Function.update_of_ne h]

theorem marks_update {server : Option Server} {flag : Bool}
    (hlisted : (exists server', server = some server' ∧ job.service ∈ server'.services) <->
      flag = true)
    (hothers : forall service, service ≠ job.service ->
      ((exists server', server = some server' ∧ service ∈ server'.services) <->
        Listed healthy (job.addr, service))) :
    Marks healthy (Function.update healthy job.addr server) job.key flag := by
  intro key
  rcases key with ⟨addr, service⟩
  by_cases haddr : addr = job.addr
  · subst haddr
    have hself : Listed (Function.update healthy job.addr server) (job.addr, service) <->
        exists server', server = some server' ∧ service ∈ server'.services := by
      unfold Listed
      rw [Function.update_self]
    rw [hself]
    by_cases hservice : service = job.service
    · subst hservice
      rw [hlisted]
      simp [Job.key]
    · rw [hothers service hservice]
      have hne : (job.addr, service) ≠ job.key := fun h => hservice (Prod.mk.inj h).right
      simp [hne]
  · have hne : (addr, service) ≠ job.key := fun h => haddr (Prod.mk.inj h).left
    rw [listed_update_of_ne haddr]
    simp [hne]

theorem marks_saveHealthyService (healthy : HealthyMap) (job : Job) (features : ServerFeatures) :
    Marks healthy (saveHealthyService healthy job.toHealthCheck features) job.key
      true := by
  unfold saveHealthyService
  refine marks_update ?_ ?_
  · simp
  · intro service hservice
    unfold Listed
    cases healthy job.addr with
    | none => simp [hservice]
    | some server => simp [hservice]

theorem removeUnhealthyService_of_listed (h : Listed healthy job.key)
    (hnonempty : forall addr server, healthy addr = some server -> server.services ≠ ∅) :
    exists healthy', removeUnhealthyService healthy job.toHealthCheck = .ok healthy' ∧
      Marks healthy healthy' job.key false ∧
      forall addr server, healthy' addr = some server -> server.services ≠ ∅ := by
  rcases h with ⟨server, hserver, hservice⟩
  have hserver' : healthy job.addr = some server := hserver
  have hservice' : job.service ∈ server.services := hservice
  refine ⟨Function.update healthy job.addr (if server.services.erase job.service = ∅ then none
      else some { server with services := server.services.erase job.service }), ?_, ?_, ?_⟩
  · unfold removeUnhealthyService
    rw [hserver']
    dsimp only
    rw [ensure, if_pos hservice']
    rfl
  · refine marks_update ?_ ?_
    · split
      · simp
      · simp
    · intro service hne
      have hlisted : Listed healthy (job.addr, service) <->
          service ∈ server.services.erase job.service := by
        unfold Listed
        simp [hserver', hne]
      rw [hlisted]
      split
      · rename_i hempty
        simp [hempty]
      · simp
  · intro addr server' hget
    by_cases haddr : addr = job.addr
    · rw [haddr, Function.update_self] at hget
      split at hget
      · cases hget
      · rename_i hne
        cases hget
        exact hne
    · rw [Function.update_of_ne haddr] at hget
      exact hnonempty addr server' hget

theorem saveHealthyService_nonempty
    (hnonempty : forall addr server, healthy addr = some server -> server.services ≠ ∅)
    (features : ServerFeatures) (addr : ServerAddr) (server : Server)
    (h : saveHealthyService healthy job.toHealthCheck features addr = some server) :
    server.services ≠ ∅ := by
  unfold saveHealthyService at h
  by_cases haddr : addr = job.addr
  · rw [haddr, Function.update_self] at h
    cases h
    exact Finset.insert_ne_empty _ _
  · rw [Function.update_of_ne haddr] at h
    exact hnonempty addr server h

end Healthy

/-!
## Steps
-/

structure Inv (s : Discovery) : Prop extends Bookkept s where
  dated : forall job, job ∈ s.jobs -> Dated s.now job
  peeked_due : s.phase = .peeked -> exists job, job ∈ s.queue ∧ job.isDue s.now = true
  checking_due : forall job, s.phase = .checking job -> job.isDue s.now = true

section Steps

variable {cfg : DiscoveryConfig} {s : Discovery} {job : Job} {new : List Job}

theorem inv_start : start.Inv where
  one_job := List.nodup_nil
  listed_iff := by
    intro key
    constructor
    · intro h
      rcases h with ⟨_, hserver, _⟩
      cases hserver
    · intro h
      rcases h with ⟨_, hmem, _⟩
      cases hmem
  services_nonempty := by
    intro addr server h
    cases h
  dated := by
    intro job h
    cases h
  peeked_due := by
    intro h
    cases h
  checking_due := by
    intro job h
    cases h

theorem Inv.tick (h : s.Inv) (elapsed : Nat) :
    Inv { s with now := s.now + elapsed } where
  toBookkept := ⟨h.one_job, h.listed_iff, h.services_nonempty⟩
  dated := fun job hjob => (h.dated job hjob).mono (Nat.le_add_right _ _)
  peeked_due := by
    intro hphase
    rcases h.peeked_due hphase with ⟨job, hjob, hdue⟩
    exact ⟨job, hjob, isDue_mono hdue (Nat.le_add_right _ _)⟩
  checking_due := fun job hphase =>
    isDue_mono (h.checking_due job hphase) (Nat.le_add_right _ _)

def IsNew (job : Job) : Prop :=
  exists addr hostname service addedBy, job = Job.new addr hostname service addedBy

theorem isNew_of_addDefaultServer {env : HostEnv} {hostname : Hostname}
    {services : List Service} (h : addDefaultServer env hostname services = .ok new)
    (hjob : job ∈ new) : IsNew job := by
  rcases bind_eq_ok.mp h with ⟨addr, _, hnew⟩
  cases hnew
  rcases List.mem_map.mp hjob with ⟨service, _, heq⟩
  exact ⟨addr, hostname, service, none, heq.symm⟩

theorem isNew_of_addServerRequest {env : HostEnv} {addedBy : IpAddr} {features : ServerFeatures}
    (h : addServerRequest cfg env s.queue addedBy features = .ok new)
    (hjob : job ∈ new) : IsNew job := by
  rcases bind_eq_ok.mp h with ⟨_, _, h⟩
  rcases bind_eq_ok.mp h with ⟨_, _, h⟩
  rcases bind_eq_ok.mp h with ⟨_, _, hnew⟩
  cases hnew
  rcases List.mem_flatMap.mp (List.mem_of_mem_take hjob) with ⟨host, _, hhost⟩
  rcases List.mem_map.mp hhost with ⟨service, _, heq⟩
  exact ⟨host.1, host.2.1, service, some addedBy, heq.symm⟩

theorem mem_toOption_getD {r : Except Text (List Job)} (h : job ∈ r.toOption.getD []) :
    exists jobs, r = .ok jobs ∧ job ∈ jobs := by
  cases r with
  | error e => cases h
  | ok jobs => exact ⟨jobs, rfl, h⟩

theorem isNew_of_mem_added {action : DiscoveryAction} (h : job ∈ added cfg s action) :
    IsNew job := by
  cases action with
  | addDefaultServer env hostname services =>
    rcases mem_toOption_getD h with ⟨jobs, hadd, hjob⟩
    exact isNew_of_addDefaultServer hadd hjob
  | addServerRequest env addedBy features =>
    rcases mem_toOption_getD h with ⟨jobs, hadd, hjob⟩
    exact isNew_of_addServerRequest hadd hjob
  | tick elapsed => cases h
  | peek => cases h
  | pop i => cases h
  | check fetched => cases h
  | push => cases h

theorem Inv.extend (h : s.Inv) (hfresh : s.AddsFresh new)
    (hnew : forall job, job ∈ new -> IsNew job) : (s.extend new).Inv where
  one_job := (nodup_extend_iff h.one_job).mpr hfresh
  listed_iff := by
    intro key
    rw [succeeded_perm (jobs_extend s new)]
    refine (h.listed_iff key).trans ?_
    constructor
    · intro hsucceeded
      rcases hsucceeded with ⟨job, hmem, hrest⟩
      exact ⟨job, List.mem_append_left _ hmem, hrest⟩
    · intro hsucceeded
      rcases hsucceeded with ⟨job, hmem, hkey, hok⟩
      rcases List.mem_append.mp hmem with hmem | hmem
      · exact ⟨job, hmem, hkey, hok⟩
      · rcases hnew job hmem with ⟨_, _, _, _, heq⟩
        rw [heq] at hok
        cases hok
  services_nonempty := h.services_nonempty
  dated := by
    intro job hjob
    rcases List.mem_append.mp ((jobs_extend s new).mem_iff.mp hjob) with hjob | hjob
    · exact h.dated job hjob
    · rcases hnew job hjob with ⟨addr, hostname, service, addedBy, heq⟩
      rw [heq]
      exact dated_new s.now addr hostname service addedBy
  peeked_due := by
    intro hphase
    rcases h.peeked_due hphase with ⟨job, hjob, hdue⟩
    exact ⟨job, List.mem_append_left _ hjob, hdue⟩
  checking_due := h.checking_due

theorem Bookkept.of_perm {s' : Discovery} (h : s.Bookkept) (hjobs : s'.jobs.Perm s.jobs)
    (hhealthy : s'.healthy = s.healthy) : s'.Bookkept where
  one_job := ((hjobs.map Job.key).nodup_iff).mpr h.one_job
  listed_iff := by
    intro key
    rw [hhealthy, succeeded_perm hjobs]
    exact h.listed_iff key
  services_nonempty := by
    rw [hhealthy]
    exact h.services_nonempty

theorem Inv.peek (h : s.Inv) : s.peek.Inv := by
  unfold Discovery.peek
  split
  · rename_i hphase
    split
    · rename_i hany
      have hjobs : { s with phase := .peeked }.jobs = s.jobs := by
        unfold jobs
        rw [hphase]
        rfl
      refine ⟨h.toBookkept.of_perm (hjobs ▸ List.Perm.refl _) rfl, ?_, ?_, ?_⟩
      · intro job hjob
        rw [hjobs] at hjob
        exact h.dated job hjob
      · intro _
        exact List.any_eq_true.mp hany
      · intro job hchecking
        cases hchecking
    · exact h
  · exact h

variable {queue : List Job}

theorem next?_eq_some {i : Nat} (h : next? queue i = some job) :
    queue[i]? = some job ∧ forall job', job' ∈ queue -> job.notAfter job'.toHealthCheck = true := by
  rcases Option.filter_eq_some_iff.mp h with ⟨hget, hall⟩
  exact ⟨hget, List.all_eq_true.mp hall⟩

theorem perm_eraseIdx {i : Nat} (h : queue[i]? = some job) :
    (queue.eraseIdx i ++ [job]).Perm queue := by
  rcases List.getElem?_eq_some_iff.mp h with ⟨hi, hget⟩
  refine List.perm_append_comm.trans ?_
  rw [<- hget]
  exact List.getElem_cons_eraseIdx_perm hi

theorem Inv.pop (h : s.Inv) (i : Nat) : exists s', s.pop i = .ok s' ∧ s'.Inv := by
  unfold Discovery.pop
  split
  · rename_i hphase
    rcases h.peeked_due hphase with ⟨due, hmem, hdue⟩
    rw [if_neg (List.ne_nil_of_mem hmem)]
    split
    · rename_i job hnext
      rcases next?_eq_some hnext with ⟨hget, hfirst⟩
      refine ⟨_, rfl, ?_⟩
      have hjobs : Discovery.jobs { s with
          queue := s.queue.eraseIdx i
          phase := .checking job } |>.Perm s.jobs := by
        unfold jobs
        rw [hphase]
        show (s.queue.eraseIdx i ++ [job]).Perm (s.queue ++ [])
        rw [List.append_nil]
        exact perm_eraseIdx hget
      refine ⟨h.toBookkept.of_perm hjobs rfl, ?_, ?_, ?_⟩
      · intro job' hjob'
        exact h.dated job' (hjobs.mem_iff.mp hjob')
      · intro hpeeked
        cases hpeeked
      · intro job' hchecking
        cases hchecking
        exact isDue_of_notAfter (hfirst due hmem) hdue
    · exact ⟨s, rfl, h⟩
  · exact ⟨s, rfl, h⟩

theorem Inv.push (h : s.Inv) : s.push.Inv := by
  unfold Discovery.push
  split
  · rename_i job hphase
    have hjobs : { s with queue := s.queue ++ [job], phase := .idle }.jobs = s.jobs := by
      unfold jobs
      rw [hphase]
      exact List.append_nil _
    refine ⟨h.toBookkept.of_perm (hjobs ▸ List.Perm.refl _) rfl, ?_, ?_, ?_⟩
    · intro job' hjob'
      rw [hjobs] at hjob'
      exact h.dated job' hjob'
    · intro hpeeked
      cases hpeeked
    · intro job' hchecking
      cases hchecking
  · exact h

theorem succeeded_replace {kept : List Job} (flag : Bool)
    (hone : ((queue ++ [job]).map Job.key).Nodup)
    (hkeys : forall job', job' ∈ kept -> job'.key = job.key ∧ job'.lastSucceeded = flag)
    (hkept : flag = true -> kept ≠ []) (key : ServerAddr × Service) :
    Succeeded (queue ++ kept) key <->
      key = job.key ∧ flag = true ∨ key ≠ job.key ∧ Succeeded (queue ++ [job]) key := by
  have hnot : forall job', job' ∈ queue -> job'.key ≠ job.key := by
    intro job' hjob' heq
    rw [List.map_append, List.nodup_append] at hone
    exact hone.right.right _ (List.mem_map_of_mem hjob') _ (List.mem_singleton_self _) heq
  constructor
  · intro h
    rcases h with ⟨job', hmem, hkey, hok⟩
    rcases List.mem_append.mp hmem with hmem | hmem
    · refine .inr ⟨hkey ▸ hnot job' hmem, job', List.mem_append_left _ hmem, hkey, hok⟩
    · rcases hkeys job' hmem with ⟨hjob, hflag⟩
      exact .inl ⟨hkey.symm.trans hjob, hflag.symm.trans hok⟩
  · intro h
    rcases h with ⟨hkey, hflag⟩ | ⟨hne, job', hmem, hkey, hok⟩
    · rcases List.exists_mem_of_ne_nil kept (hkept hflag) with ⟨job', hjob'⟩
      rcases hkeys job' hjob' with ⟨hjob, hok⟩
      exact ⟨job', List.mem_append_right _ hjob', hjob.trans hkey.symm, hok.trans hflag⟩
    · rcases List.mem_append.mp hmem with hmem | hmem
      · exact ⟨job', List.mem_append_left _ hmem, hkey, hok⟩
      · rw [List.mem_singleton.mp hmem] at hkey
        exact absurd hkey.symm hne

theorem jobs_of_checking (h : s.phase = .checking job) : s.jobs = s.queue ++ [job] := by
  unfold jobs
  rw [h]
  rfl

theorem Inv.listed_checking (h : s.Inv) (hphase : s.phase = .checking job) :
    Listed s.healthy job.key <-> job.lastSucceeded = true := by
  have hjobs := jobs_of_checking hphase
  have hone := h.one_job
  rw [hjobs] at hone
  rw [h.listed_iff, hjobs, succeeded_replace job.lastSucceeded hone]
  · simp
  · intro job' hjob'
    rw [List.mem_singleton.mp hjob']
    exact ⟨rfl, rfl⟩
  · intro _
    exact List.cons_ne_nil _ _

def kept : Option Job -> JobsPhase
  | some job => .checked job
  | none => .idle

theorem mem_inProgress_kept {left : Option Job} :
    job ∈ inProgress (kept left) <-> left = some job := by
  cases left with
  | none => simp [kept, inProgress]
  | some job' =>
    show job ∈ [job'] <-> some job' = some job
    rw [List.mem_singleton, Option.some_inj]
    exact eq_comm

section

variable (h : s.Inv) (hphase : s.phase = .checking job)

include h hphase

theorem Inv.replace {healthy' : HealthyMap} {left : Option Job} {flag : Bool}
    (hmarks : Marks s.healthy healthy' job.key flag)
    (hnonempty : forall addr server, healthy' addr = some server -> server.services ≠ ∅)
    (hleft : forall job', left = some job' ->
      job'.key = job.key ∧ job'.lastSucceeded = flag ∧ Dated s.now job')
    (hkept : flag = true -> left.isSome = true) :
    Inv { s with healthy := healthy', phase := kept left } where
  one_job := by
    have hone := h.one_job
    rw [jobs_of_checking hphase] at hone
    cases left with
    | none =>
      rw [List.map_append] at hone
      show ((s.queue ++ []).map Job.key).Nodup
      rw [List.append_nil]
      exact hone.of_append_left
    | some job' =>
      show ((s.queue ++ [job']).map Job.key).Nodup
      rw [List.map_append, List.map_singleton, (hleft job' rfl).left]
      rw [List.map_append] at hone
      exact hone
  listed_iff := by
    intro key
    have hone := h.one_job
    rw [jobs_of_checking hphase] at hone
    refine (hmarks key).trans ?_
    rw [h.listed_iff, jobs_of_checking hphase]
    refine (succeeded_replace flag hone ?_ ?_ key).symm
    · intro job' hjob'
      rcases hleft job' (mem_inProgress_kept.mp hjob') with ⟨hkey, hflag, _⟩
      exact ⟨hkey, hflag⟩
    · intro hflag
      rcases Option.isSome_iff_exists.mp (hkept hflag) with ⟨job', hjob'⟩
      exact List.ne_nil_of_mem (mem_inProgress_kept.mpr hjob')
  services_nonempty := hnonempty
  dated := by
    intro job' hjob'
    rcases List.mem_append.mp hjob' with hjob' | hjob'
    · exact h.dated job' (List.mem_append_left _ hjob')
    · exact (hleft job' (mem_inProgress_kept.mp hjob')).right.right
  peeked_due := by
    intro hpeeked
    cases left with
    | none => cases hpeeked
    | some job' => cases hpeeked
  checking_due := by
    intro job' hchecking
    cases left with
    | none => cases hchecking
    | some job' => cases hchecking

theorem Inv.dated_checking : Dated s.now job := by
  refine h.dated job ?_
  rw [jobs_of_checking hphase]
  exact List.mem_append_right _ (List.mem_singleton_self job)

theorem Inv.finishCheck_ok (features : ServerFeatures) :
    exists s', s.finishCheck job (.ok features) = .ok s' ∧ s'.Inv := by
  refine ⟨_, rfl, ?_⟩
  have hleft : forall job', some (job.succeed s.now) = some job' ->
      job'.key = job.key ∧ job'.lastSucceeded = true ∧ Dated s.now job' := by
    intro job' hjob'
    cases hjob'
    exact ⟨rfl, rfl, dated_succeed job s.now⟩
  cases hhealthy : job.isHealthy with
  | false =>
    exact h.replace hphase (marks_saveHealthyService s.healthy job features)
      (saveHealthyService_nonempty h.services_nonempty features) hleft (fun _ => rfl)
  | true =>
    rw [(h.dated_checking hphase).isHealthy_eq] at hhealthy
    have hmarks : Marks s.healthy s.healthy job.key true :=
      marks_self (by rw [h.listed_checking hphase, hhealthy])
    exact h.replace hphase hmarks h.services_nonempty hleft (fun _ => rfl)

theorem Inv.unlisted :
    exists healthy', (if job.isHealthy then removeUnhealthyService s.healthy job.toHealthCheck
        else .ok s.healthy) = .ok healthy' ∧
      Marks s.healthy healthy' job.key false ∧
      forall addr server, healthy' addr = some server -> server.services ≠ ∅ := by
  have hlisted := h.listed_checking hphase
  rw [<- (h.dated_checking hphase).isHealthy_eq] at hlisted
  cases hhealthy : job.isHealthy with
  | false =>
    rw [hhealthy] at hlisted
    exact ⟨s.healthy, rfl, marks_self hlisted, h.services_nonempty⟩
  | true =>
    exact removeUnhealthyService_of_listed (hlisted.mpr hhealthy) h.services_nonempty

theorem Inv.finishCheck_error (e : Text) :
    exists s', s.finishCheck job (.error e) = .ok s' ∧ s'.Inv := by
  rcases h.unlisted hphase with ⟨healthy', hremove, hmarks, hnonempty⟩
  have hkept : (if (job.fail s.now).shouldRetry then .checked (job.fail s.now)
      else .idle : JobsPhase) =
        kept (if (job.fail s.now).shouldRetry then some (job.fail s.now) else none) := by
    split
    · rfl
    · rfl
  refine ⟨{ s with
    healthy := healthy'
    phase := kept
      (if (job.fail s.now).shouldRetry then some (job.fail s.now) else none) }, ?_, ?_⟩
  · unfold Discovery.finishCheck
    dsimp only
    rw [hremove, <- hkept]
    rfl
  · refine h.replace hphase hmarks hnonempty ?_ (fun hflag => nomatch hflag)
    intro job' hjob'
    split at hjob'
    · cases hjob'
      exact ⟨rfl, rfl, (h.dated_checking hphase).fail (h.checking_due job hphase)⟩
    · cases hjob'

end

theorem Inv.check (h : s.Inv) (fetched : Option ServerFeatures) :
    exists s', s.check cfg fetched = .ok s' ∧ s'.Inv := by
  unfold Discovery.check
  split
  · rename_i job hphase
    cases checkServer cfg job.addr fetched with
    | ok features => exact h.finishCheck_ok hphase features
    | error e => exact h.finishCheck_error hphase e
  · exact ⟨s, rfl, h⟩

theorem Inv.step (h : s.Inv) (action : DiscoveryAction)
    (hfresh : s.AddsFresh (added cfg s action)) :
    exists s', Discovery.step cfg s action = .ok s' ∧ s'.Inv := by
  have hadd := h.extend hfresh (fun job hjob => isNew_of_mem_added hjob)
  cases action with
  | tick elapsed => exact ⟨_, rfl, h.tick elapsed⟩
  | addDefaultServer env hostname services => exact ⟨_, rfl, hadd⟩
  | addServerRequest env addedBy features => exact ⟨_, rfl, hadd⟩
  | peek => exact ⟨_, rfl, h.peek⟩
  | pop i => exact h.pop i
  | check fetched => exact h.check fetched
  | push => exact ⟨_, rfl, h.push⟩

theorem addsFresh_of_step {s' : Discovery} {action : DiscoveryAction}
    (hone : (s.jobs.map Job.key).Nodup) (hstep : Discovery.step cfg s action = .ok s')
    (hone' : (s'.jobs.map Job.key).Nodup) : s.AddsFresh (added cfg s action) := by
  cases action with
  | addDefaultServer env hostname services =>
    cases hstep
    exact (nodup_extend_iff hone).mp hone'
  | addServerRequest env addedBy features =>
    cases hstep
    exact (nodup_extend_iff hone).mp hone'
  | tick elapsed => exact addsFresh_nil
  | peek => exact addsFresh_nil
  | pop i => exact addsFresh_nil
  | check fetched => exact addsFresh_nil
  | push => exact addsFresh_nil

end Steps

/-!
## Runs
-/

section Runs

variable {cfg : DiscoveryConfig} {actions : List DiscoveryAction} {n : Nat}
  {action : DiscoveryAction}

theorem run_take_succ (h : actions[n]? = some action) :
    run cfg (actions.take (n + 1)) = run cfg (actions.take n) >>= fun s => step cfg s action := by
  unfold run
  rw [List.take_add_one, h, List.foldlM_append]
  congr 1
  funext s
  exact bind_pure (step cfg s action)

theorem run_take_of_length_le (h : actions[n]? = none) :
    run cfg (actions.take (n + 1)) = run cfg (actions.take n) := by
  rw [List.take_add_one, h]
  exact congrArg (run cfg) (List.append_nil _)

def NamesFreshThroughout (cfg : DiscoveryConfig) (actions : List DiscoveryAction) : Prop :=
  forall n s action, run cfg (actions.take n) = .ok s -> actions[n]? = some action ->
    s.NamesFresh cfg action

theorem inv_run (h : NamesFreshThroughout cfg actions) (n : Nat) :
    exists s, run cfg (actions.take n) = .ok s ∧ s.Inv := by
  induction n with
  | zero => exact ⟨start, rfl, inv_start⟩
  | succ n ih =>
    rcases ih with ⟨s, hrun, hinv⟩
    cases haction : actions[n]? with
    | none =>
      rw [run_take_of_length_le haction]
      exact ⟨s, hrun, hinv⟩
    | some action =>
      rw [run_take_succ haction, hrun]
      exact hinv.step action ((addsFresh_iff cfg s action).mpr (h n s action hrun haction))

/-- No panic, one job for each address and service, and the services whose last check succeeded,
after each action exactly if the pairs that the calls name are fresh. -/
theorem bookkept_throughout_iff (cfg : DiscoveryConfig) (actions : List DiscoveryAction) :
    (forall n, exists s, run cfg (actions.take n) = .ok s ∧ s.Bookkept) <->
      NamesFreshThroughout cfg actions := by
  constructor
  · intro h n s action hrun haction
    rcases h n with ⟨s', hrun', hkept⟩
    rcases h (n + 1) with ⟨s'', hnext, hkept'⟩
    rw [hrun] at hrun'
    cases hrun'
    rw [run_take_succ haction, hrun] at hnext
    exact (addsFresh_iff cfg s action).mp
      (addsFresh_of_step hkept.one_job hnext hkept'.one_job)
  · intro h n
    rcases inv_run h n with ⟨s, hrun, hinv⟩
    exact ⟨s, hrun, hinv.toBookkept⟩

end Runs

namespace Sample

def version : ProtocolVersion := ⟨1, 4⟩

def features : ServerFeatures where
  hosts := [("8.8.8.8".toList, ⟨some 50001, none⟩)]
  genesisHash := 0
  protocolMin := version
  protocolMax := version
  hashFunction := "sha256".toList

def config : DiscoveryConfig where
  ourVersion := version
  ourAddrs := []
  ourFeatures := features
  announce := false
  torProxy := none

def ip : IpAddr := .v4 0x08080808

def env : HostEnv where
  toLowercase := id
  parseIp := fun _ => none
  lookup := fun _ => some ip

def defaultServices : List Service :=
  [.tcp 50001, .ssl 50002]

def checkFirst (fetched : Option ServerFeatures) : List DiscoveryAction :=
  [.peek, .pop 0, .check fetched, .push]

/-- Two default servers have one address.  All checks succeed, and an hour later those of the first
port fail. -/
def actions : List DiscoveryAction :=
  [.addDefaultServer env "b.ooze.cc".toList defaultServices,
    .addDefaultServer env "bitcoin.corgi.party".toList defaultServices] ++
  (List.replicate 4 (checkFirst (some features))).flatten ++
  .tick healthCheckFreq :: (checkFirst none ++ checkFirst (some features) ++ checkFirst none)

/-- There are two jobs of one key, the second failure finds no service, and the thread
panics. -/
theorem two_hosts_one_address :
    ((run config (actions.take 2)).toOption.map fun s => s.jobs.map Job.key) =
        some [(.clearnet ip, .tcp 50001), (.clearnet ip, .ssl 50002),
          (.clearnet ip, .tcp 50001), (.clearnet ip, .ssl 50002)] ∧
      run config actions = .error .assertRemoved := by
  constructor
  · rfl
  · rfl

end Sample

end Discovery

end Electrum
end Splora
