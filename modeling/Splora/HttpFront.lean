import Splora.HttpTypes

/-!
# The public front

`splora-http` proxies to the indexer of the network that the first segment names, or of the main
network, without this segment and, except for the websocket, without `/api`.
-/

namespace Splora
namespace HttpFront

open Foundation

inductive NetworkId where
  | mainnet
  | testnet3
  | testnet4
  | mutinynet
  | liquid
deriving DecidableEq, Repr

def NetworkId.httpSocketFileName : NetworkId -> Text
  | mainnet => "mainnet.http.sock".toList
  | testnet3 => "testnet3.http.sock".toList
  | testnet4 => "testnet4.http.sock".toList
  | mutinynet => "mutinynet.http.sock".toList
  | liquid => "liquid.http.sock".toList

inductive Route where
  | redirect307 (location : Text)
  | proxy (network : NetworkId) (backendPath : Text)
  | notFound
deriving DecidableEq, Repr

def stripNamedPrefix (path name : Text) : Option Text :=
  if path = name then
    some []
  else
    match path.dropPrefix? name with
    | some rest => if rest.head? = some '/' then some rest else none
    | none => none

def backendPath (pathWithApi : Text) : Text :=
  if pathWithApi = "/api/v1/ws".toList ∨ "/api/v1/ws/".toList <+: pathWithApi then
    pathWithApi
  else
    match pathWithApi.dropPrefix? "/api".toList with
    | some [] => "/".toList
    | some rest => rest
    | none => pathWithApi

def proxyAfterNetwork (network : NetworkId) (afterNetwork : Text) : Route :=
  if afterNetwork ≠ "/api".toList ∧ ¬ "/api/".toList <+: afterNetwork then
    .notFound
  else
    .proxy network (backendPath afterNetwork)

def route (path : Text) : Route :=
  if let some suffix := stripNamedPrefix path "/signet".toList then
    .redirect307 ("/mutinynet".toList ++ suffix)
  else if let some rest := stripNamedPrefix path "/testnet4".toList then
    proxyAfterNetwork .testnet4 rest
  else if let some rest := stripNamedPrefix path "/testnet".toList then
    proxyAfterNetwork .testnet3 rest
  else if let some rest := stripNamedPrefix path "/mutinynet".toList then
    proxyAfterNetwork .mutinynet rest
  else if let some rest := stripNamedPrefix path "/liquid".toList then
    proxyAfterNetwork .liquid rest
  else if path = "/api".toList ∨ "/api/".toList <+: path then
    proxyAfterNetwork .mainnet path
  else
    .notFound

/-!
## Proxying
-/

def httpSocketPath (socketDir : Text) (network : NetworkId) : Text :=
  if socketDir = [] ∨ socketDir.getLast? = some '/' then
    socketDir ++ network.httpSocketFileName
  else
    socketDir ++ '/' :: network.httpSocketFileName

def fileName (path : Text) : Text :=
  path.rtakeWhile fun c => c ≠ '/'

def isElectrumSocket (path : Text) : Bool :=
  decide ("electrum.sock".toList <:+ fileName path)

def proxyUnix (backendPath : Text) (req : HttpRequest) : HttpRequest where
  method := req.method
  target := withQuery backendPath req.query
  headers :=
    if req.headers.containsKey "x-forwarded-proto".toList then
      req.headers
    else
      req.headers.insert "x-forwarded-proto".toList "https".toList
  body := req.body

inductive Dispatch where
  | redirect (location : Text)
  | notFound
  | electrumSocketRefused
  | forward (socket : Text) (request : HttpRequest)
deriving DecidableEq

def dispatch (socketDir : Text) (req : HttpRequest) : Dispatch :=
  match route req.path with
  | .redirect307 location => .redirect (withQuery location req.query)
  | .notFound => .notFound
  | .proxy network backendPath =>
    if isElectrumSocket (httpSocketPath socketDir network) then
      .electrumSocketRefused
    else
      .forward (httpSocketPath socketDir network) (proxyUnix backendPath req)

/-!
## What is proxied
-/

def NetworkId.publicName : NetworkId -> Text
  | mainnet => []
  | testnet3 => "/testnet".toList
  | testnet4 => "/testnet4".toList
  | mutinynet => "/mutinynet".toList
  | liquid => "/liquid".toList

def IsApiPath (path : Text) : Prop :=
  path = "/api".toList ∨ "/api/".toList <+: path

def IsWsPath (path : Text) : Prop :=
  path = "/api/v1/ws".toList ∨ "/api/v1/ws/".toList <+: path

section Routes

variable {path name rest location bp : Text} {network : NetworkId}

theorem eq_append_of_stripNamedPrefix
    (h : stripNamedPrefix path name = some rest) : path = name ++ rest := by
  unfold stripNamedPrefix at h
  split at h
  · rename_i heq
    cases h
    rw [heq, List.append_nil]
  · split at h
    · rename_i rest' hdrop
      split at h
      · cases h
        rcases List.dropPrefix?_eq_some_iff.mp hdrop with ⟨front, heq, hfront⟩
        rw [heq, eq_of_beq hfront]
      · cases h
    · cases h

theorem isApiPath_of_proxyAfterNetwork {network' : NetworkId}
    (h : proxyAfterNetwork network' rest = .proxy network bp) :
    network' = network ∧ IsApiPath rest ∧ bp = backendPath rest := by
  unfold proxyAfterNetwork at h
  split at h
  · cases h
  · rename_i hapi
    cases h
    refine ⟨rfl, ?_, rfl⟩
    rw [IsApiPath, or_iff_not_imp_left]
    intro hne
    by_contra hnot
    exact hapi ⟨hne, hnot⟩

theorem exists_of_route_eq_proxy (h : route path = .proxy network bp) :
    exists rest, path = network.publicName ++ rest ∧ IsApiPath rest ∧ bp = backendPath rest := by
  have hnamed : forall {name rest : Text} {network' : NetworkId},
      stripNamedPrefix path name = some rest ->
      network'.publicName = name ->
      proxyAfterNetwork network' rest = .proxy network bp ->
      exists rest, path = network.publicName ++ rest ∧ IsApiPath rest ∧ bp = backendPath rest := by
    intro name rest network' hstrip hname hproxy
    rcases isApiPath_of_proxyAfterNetwork hproxy with ⟨heq, hapi, hbp⟩
    refine ⟨rest, ?_, hapi, hbp⟩
    rw [eq_append_of_stripNamedPrefix hstrip, ← hname, heq]
  unfold route at h
  split at h
  · cases h
  split at h
  · rename_i rest hstrip
    exact hnamed hstrip rfl h
  split at h
  · rename_i rest hstrip
    exact hnamed hstrip rfl h
  split at h
  · rename_i rest hstrip
    exact hnamed hstrip rfl h
  split at h
  · rename_i rest hstrip
    exact hnamed hstrip rfl h
  split at h
  · rcases isApiPath_of_proxyAfterNetwork h with ⟨heq, hapi, hbp⟩
    rw [← heq]
    exact ⟨path, rfl, hapi, hbp⟩
  · cases h

theorem backendPath_of_isWsPath (h : IsWsPath path) : backendPath path = path :=
  if_pos h

theorem backendPath_of_not_isWsPath (hapi : IsApiPath path) (hws : ¬ IsWsPath path) :
    path = "/api".toList ∧ backendPath path = "/".toList ∨
      exists tail, path = "/api".toList ++ '/' :: tail ∧ backendPath path = '/' :: tail := by
  unfold IsWsPath at hws
  rw [backendPath, if_neg hws]
  rcases hapi with heq | ⟨tail, heq⟩
  · left
    rw [heq]
    exact ⟨rfl, rfl⟩
  · right
    have hpath : path = "/api".toList ++ '/' :: tail := heq.symm
    have hdrop : path.dropPrefix? "/api".toList = some ('/' :: tail) := by
      rw [hpath]
      exact List.dropPrefix?_eq_some_iff.mpr ⟨"/api".toList, rfl, BEq.refl _⟩
    rw [hdrop]
    exact ⟨tail, hpath, rfl⟩

theorem exists_backendPath (hapi : IsApiPath path) :
    exists tail, backendPath path = '/' :: tail := by
  by_cases hws : IsWsPath path
  · rw [backendPath_of_isWsPath hws]
    rcases hws with heq | ⟨tail, heq⟩
    · exact ⟨_, heq⟩
    · exact ⟨_, heq.symm⟩
  · rcases backendPath_of_not_isWsPath hapi hws with ⟨_, hbp⟩ | ⟨tail, _, hbp⟩
    · exact ⟨[], hbp⟩
    · exact ⟨tail, hbp⟩

theorem mem_backendPath (hapi : IsApiPath path) {c : Char}
    (h : c ∈ backendPath path) : c ∈ path ∨ c = '/' := by
  by_cases hws : IsWsPath path
  · rw [backendPath_of_isWsPath hws] at h
    exact Or.inl h
  · rcases backendPath_of_not_isWsPath hapi hws with ⟨_, hbp⟩ | ⟨tail, hpath, hbp⟩
    · rw [hbp] at h
      exact Or.inr (List.mem_singleton.mp h)
    · left
      rw [hpath, ← hbp]
      exact List.mem_append_right _ h

theorem fileName_of_not_mem (h : '/' ∉ name) : fileName name = name := by
  rw [fileName, List.rtakeWhile_eq_self_iff]
  intro c hc
  apply decide_eq_true
  intro heq
  exact h (heq ▸ hc)

theorem fileName_append (h : '/' ∉ name) : fileName (path ++ '/' :: name) = name := by
  rw [fileName, List.rtakeWhile, List.reverse_append, List.reverse_cons,
    List.append_assoc, List.takeWhile_append_of_pos]
  · simp
  · intro c hc
    apply decide_eq_true
    intro heq
    exact h (heq ▸ List.mem_reverse.mp hc)

theorem isElectrumSocket_httpSocketPath (socketDir : Text) (network : NetworkId) :
    isElectrumSocket (httpSocketPath socketDir network) = false := by
  have hname : fileName (httpSocketPath socketDir network) =
      network.httpSocketFileName := by
    have hfile : '/' ∉ network.httpSocketFileName := by
      cases network with
      | _ => decide
    unfold httpSocketPath
    split
    · rename_i hdir
      rcases hdir with hnil | hslash
      · rw [hnil]
        exact fileName_of_not_mem hfile
      · rcases List.getLast?_eq_some_iff.mp hslash with ⟨front, hfront⟩
        rw [hfront, List.append_assoc]
        exact fileName_append hfile
    · exact fileName_append hfile
  rw [isElectrumSocket, hname]
  cases network with
  | _ => decide

theorem dispatch_eq_forward {socketDir socket : Text} {req forwarded : HttpRequest}
    (h : dispatch socketDir req = .forward socket forwarded) :
    exists network bp, route req.path = .proxy network bp ∧
      socket = httpSocketPath socketDir network ∧
      forwarded = proxyUnix bp req := by
  unfold dispatch at h
  split at h
  · cases h
  · cases h
  · rename_i network bp hroute
    rw [isElectrumSocket_httpSocketPath] at h
    cases h
    exact ⟨network, bp, hroute, rfl, rfl⟩

end Routes

end HttpFront
end Splora
