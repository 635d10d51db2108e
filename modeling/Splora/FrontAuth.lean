import Splora.HttpFront
import Splora.Rest.AuthGate

/-!
# Authorization through the front

A client signs its public URL.  The indexer compares it with the URL of the forwarded request,
whose path has lost the name of the network and, except for the websocket, `/api`.
-/

namespace Splora

open Foundation Auth Rest HttpFront

structure Host extends Word where
  no_slash : '/' ∉ text

def publicUrl (host : Host) (target : Text) : Text :=
  "https://".toList ++ host.text ++ target

/-!
## The URL of the indexer
-/

section Url

variable {host : Host} {scheme front seg rest : Text} {query : Option Text}
  {network : NetworkId}

theorem withQuery_eq_append (path : Text) (query : Option Text) :
    withQuery path query = path ++ withQuery [] query := by
  cases query with
  | none => exact (List.append_nil path).symm
  | some query => rfl

theorem Host.getLast?_ne (host : Host) (front : Text) :
    (front ++ host.text).getLast? ≠ some '/' := by
  rw [List.getLast?_append_of_ne_nil _ host.ne_nil]
  intro h
  exact host.no_slash (List.mem_of_getLast? h)

theorem scheme_host_ne (hseg : '/' ∉ seg) (hfront : front.getLast? ≠ some '/') :
    scheme ++ "://".toList ++ host.text ≠ front ++ '/' :: seg := by
  intro h
  have hsplit : scheme ++ "://".toList ++ host.text =
      (scheme ++ ":/".toList) ++ '/' :: host.text := by
    rw [List.append_assoc, List.append_assoc]
    rfl
  rw [hsplit] at h
  have heq := (Text.append_separator_inj host.no_slash hseg h).left
  apply hfront
  rw [← heq, List.getLast?_append]
  rfl

theorem publicName_cases (network : NetworkId) :
    network = .mainnet ∨ exists seg, network.publicName = '/' :: seg ∧ '/' ∉ seg ∧
        seg.getLast? ≠ some '/' ∧ seg ≠ [] ∧ seg.head? ≠ some 'a' := by
  cases network with
  | mainnet => exact Or.inl rfl
  | testnet3 => exact Or.inr ⟨"testnet".toList, by decide⟩
  | testnet4 => exact Or.inr ⟨"testnet4".toList, by decide⟩
  | mutinynet => exact Or.inr ⟨"mutinynet".toList, by decide⟩
  | liquid => exact Or.inr ⟨"liquid".toList, by decide⟩

theorem not_isWsPath_of_head {name : Text} (h : name.head? ≠ some 'a')
    (hne : name ≠ []) : ¬ IsWsPath ('/' :: name ++ rest) := by
  cases name with
  | nil => exact absurd rfl hne
  | cons c name =>
    intro hws
    apply h
    rcases hws with heq | ⟨tail, heq⟩
    · injection heq with _ heq
      injection heq with heq _
      rw [heq]
      rfl
    · injection heq with _ heq
      injection heq with heq _
      rw [← heq]
      rfl

theorem isWsPath_publicName :
    IsWsPath (network.publicName ++ rest) <-> network = .mainnet ∧ IsWsPath rest := by
  rcases publicName_cases network with hmain | ⟨seg, hname, _, _, hne, hhead⟩
  · rw [hmain]
    exact ⟨fun h => ⟨rfl, h⟩, And.right⟩
  · constructor
    · intro h
      rw [hname] at h
      exact absurd h (not_isWsPath_of_head hhead hne)
    · intro h
      rw [h.left] at hname
      cases hname

theorem ws_url_eq_iff :
    scheme ++ "://".toList ++ host.text ++ rest =
        "https://".toList ++ host.text ++ (network.publicName ++ rest) <->
      scheme = "https".toList ∧ network = .mainnet := by
  have hhttps : "https://".toList = "https".toList ++ "://".toList := rfl
  rw [← List.append_assoc, List.append_cancel_right_eq]
  rcases publicName_cases network with hmain | ⟨seg, hname, hseg, _⟩
  · have hname : network.publicName = [] := by rw [hmain]; rfl
    rw [hname, List.append_nil, hhttps, List.append_cancel_right_eq, List.append_cancel_right_eq]
    exact ⟨fun h => ⟨h, hmain⟩, And.left⟩
  · constructor
    · intro h
      rw [hname] at h
      exact absurd h (scheme_host_ne hseg (host.getLast?_ne _))
    · intro h
      rw [h.right] at hname
      cases hname

theorem rest_url_ne (hapi : IsApiPath rest) (hws : ¬ IsWsPath rest) :
    scheme ++ "://".toList ++ host.text ++ backendPath rest ≠
      "https://".toList ++ host.text ++ (network.publicName ++ rest) := by
  intro h
  rcases backendPath_of_not_isWsPath hapi hws with ⟨hrest, hbp⟩ | ⟨tail, hrest, hbp⟩
  · have hleft : (scheme ++ "://".toList ++ host.text ++ backendPath rest).getLast? = some '/' := by
      rw [hbp, List.getLast?_append]
      rfl
    have hright : ("https://".toList ++ host.text ++
        (network.publicName ++ rest)).getLast? = some 'i' := by
      rw [hrest, List.getLast?_append, List.getLast?_append]
      rfl
    rw [h, hright] at hleft
    exact absurd hleft (by decide)
  · have hapi : "/api".toList = '/' :: "api".toList := rfl
    rw [hbp, hrest, ← List.append_assoc, ← List.append_assoc,
      List.append_cancel_right_eq, hapi] at h
    apply scheme_host_ne (by decide) ?_ h
    rcases publicName_cases network with hmain | ⟨seg, hname, _, hlast, hne, _⟩
    · have hname : network.publicName = [] := by rw [hmain]; rfl
      rw [hname, List.append_nil]
      exact host.getLast?_ne _
    · rw [hname, List.getLast?_append_of_ne_nil _ (List.cons_ne_nil _ _),
        List.getLast?_cons_of_ne_nil hne]
      exact hlast

theorem forwarded_url_eq_iff (hapi : IsApiPath rest) :
    scheme ++ "://".toList ++ host.text ++ withQuery (backendPath rest) query =
        publicUrl host (withQuery (network.publicName ++ rest) query) <->
      scheme = "https".toList ∧ IsWsPath (network.publicName ++ rest) := by
  unfold publicUrl
  rw [withQuery_eq_append (backendPath rest),
    withQuery_eq_append (network.publicName ++ rest), ← List.append_assoc,
    ← List.append_assoc, List.append_cancel_right_eq, isWsPath_publicName]
  by_cases hws : IsWsPath rest
  · rw [backendPath_of_isWsPath hws, ws_url_eq_iff]
    exact ⟨fun h => ⟨h.left, h.right, hws⟩, fun h => ⟨h.left, h.right.left⟩⟩
  · exact ⟨fun h => absurd h (rest_url_ne hapi hws), fun h => absurd h.right.right hws⟩

end Url

/-!
## The forwarded request
-/

section Forwarded

variable {ext : Externals} {gc : GateConfig} {host : Host}
  {req forwarded : HttpRequest} {socketDir socket bp rest : Text}
  {network : NetworkId}

def frontScheme (headers : HeaderMap) : Text :=
  match headers.get "x-forwarded-proto".toList with
  | some value => forwardedScheme (HeaderValue.toStr value)
  | none => "https".toList

theorem proxyUnix_get {name : Text} (h : name ≠ "x-forwarded-proto".toList) :
    (proxyUnix bp req).headers.get name = req.headers.get name := by
  unfold proxyUnix
  split
  · rfl
  · exact HeaderMap.get_insert_of_ne _ _ h

theorem proxyUnix_scheme :
    forwardedScheme (((proxyUnix bp req).headers.get
      "x-forwarded-proto".toList).bind HeaderValue.toStr) = frontScheme req.headers := by
  unfold proxyUnix frontScheme
  cases hget : req.headers.get "x-forwarded-proto".toList with
  | none =>
    rw [if_neg (by rw [HeaderMap.containsKey_eq_false.mpr hget]; decide), HeaderMap.get_insert_self]
    rfl
  | some value =>
    have hkey : req.headers.containsKey "x-forwarded-proto".toList = true := by
      rw [← Bool.not_eq_false, HeaderMap.containsKey_eq_false, hget]
      exact Option.some_ne_none value
    rw [if_pos hkey, hget]
    rfl

theorem Host.toStr_text (host : Host) : HeaderValue.toStr host.text = some host.text :=
  HeaderValue.toStr_eq fun c hc => Or.inl (host.visible c hc)

theorem Host.orDefault_trim (host : Host) (default : Text) :
    orDefault (Text.trim host.text) default = host.text := by
  rw [orDefault, host.trim_text, if_neg host.ne_nil]

theorem proxyUnix_url (hhost : req.headers.get "host".toList = some host.text)
    (hapi : IsApiPath rest) :
    reconstructFromReq (proxyUnix (backendPath rest) req) =
      frontScheme req.headers ++ "://".toList ++ host.text ++
        withQuery (backendPath rest) req.query := by
  have htarget : (proxyUnix (backendPath rest) req).target =
      withQuery (backendPath rest) req.query := rfl
  have hne : withQuery (backendPath rest) req.query ≠ [] := by
    rcases exists_backendPath hapi with ⟨tail, hbp⟩
    rw [withQuery_eq_append, hbp]
    exact List.cons_ne_nil _ _
  rw [reconstructFromReq, reconstructAbsoluteUrl, proxyUnix_scheme,
    proxyUnix_get (by decide), hhost, Option.bind_some, host.toStr_text,
    Option.getD_some, host.orDefault_trim, htarget, orDefault, if_neg hne]

theorem dispatch_forward (h : dispatch socketDir req = .forward socket forwarded) :
    exists network rest, IsApiPath rest ∧ req.path = network.publicName ++ rest ∧
      socket = httpSocketPath socketDir network ∧
      forwarded = proxyUnix (backendPath rest) req ∧
      forwarded.path = backendPath rest := by
  rcases dispatch_eq_forward h with ⟨network, bp, hroute, hsocket, hforward⟩
  rcases exists_of_route_eq_proxy hroute with ⟨rest, hpath, hapi, hbp⟩
  rw [hbp] at hforward
  refine ⟨network, rest, hapi, hpath, hsocket, hforward, ?_⟩
  have hquestion : '?' ∉ backendPath rest := by
    intro hmem
    rcases mem_backendPath hapi hmem with hmem | heq
    · apply req.not_mem_path
      rw [hpath]
      exact List.mem_append_right _ hmem
    · exact absurd heq (by decide)
  rw [hforward]
  exact HttpRequest.path_withQuery rfl hquestion

end Forwarded

/-!
## The public URL is signed
-/

structure SignedRequest (ext : Externals) (gc : GateConfig) (host : Host)
    (event : SignedEvent ext) (req : HttpRequest) : Prop where
  authorization : req.headers.get "authorization".toList = some event.header
  host_eq : req.headers.get "host".toList = some host.text
  u : tagValue "u".toList event.tags = some (publicUrl host req.target)
  method : exists m, tagValue "method".toList event.tags = some m ∧
    Text.eqIgnoreAsciiCase m req.method = true
  payload : forall payload, tagValue "payload".toList event.tags = some payload ->
      Text.toAsciiLowercase payload = hexEncode (ext.sha256 req.body)
  window : absDiff gc.nowUnix event.createdAt ≤ nip98WindowSecs
  listed : event.pubkey ∈ gc.allow.keys

section Signed

variable {ext : Externals} {gc : GateConfig} {host : Host}
  {event : SignedEvent ext} {req forwarded : HttpRequest}
  {socketDir socket bp : Text}

theorem SignedEvent.toStr_header (event : SignedEvent ext) :
    HeaderValue.toStr event.header = some event.header := by
  apply HeaderValue.toStr_eq
  intro c hc
  rcases List.mem_append.mp hc with hscheme | hencoded
  · have hall : ['N', 'o', 's', 't', 'r', ' '].all
        (fun c => Text.isVisible c || c = ' ') = true := by decide
    have hc := List.all_eq_true.mp hall c hscheme
    rw [Bool.or_eq_true, decide_eq_true_eq] at hc
    exact hc
  · exact Or.inl (event.encoded.visible c hencoded)

theorem SignedRequest.authHeaderFrom_eq (h : SignedRequest ext gc host event req) :
    authHeaderFrom (proxyUnix bp req) = some event.header := by
  rw [authHeaderFrom, proxyUnix_get (by decide), h.authorization,
    Option.bind_some, SignedEvent.toStr_header]

/-- A correctly signed request is accepted exactly if it needs no authorization, or is for the
websocket of the main network, from no other scheme, with an event that is not too large and names
no hash of a body that the gate does not see. -/
theorem front_accepts_iff (hforward : dispatch socketDir req = .forward socket forwarded)
    (hsigned : SignedRequest ext gc host event req) :
    Accepts ext gc forwarded <->
      BodyFits forwarded ∧ (SkipsAuth gc req.method forwarded.path ∨
          IsWsPath req.path ∧ frontScheme req.headers = "https".toList ∧ event.Fits ∧
            forall payload, tagValue "payload".toList event.tags = some payload ->
                Text.toAsciiLowercase payload = hexEncode (ext.sha256 (gatedBody req))) := by
  rcases dispatch_forward hforward with ⟨network, rest, hapi, hpath, _, heq, hfpath⟩
  have hmethod : forwarded.method = req.method := by rw [heq]; rfl
  have hurl : tagValue "u".toList event.tags = some (reconstructFromReq forwarded) <->
        frontScheme req.headers = "https".toList ∧ IsWsPath req.path := by
    rw [hsigned.u, heq, proxyUnix_url hsigned.host_eq hapi, Option.some.injEq,
      eq_comm, req.target_eq, hpath]
    exact forwarded_url_eq_iff hapi
  have hbody : IsWsPath req.path -> gatedBody forwarded = gatedBody req := by
    intro hws
    rw [hpath, isWsPath_publicName] at hws
    have hsame : forwarded.path = req.path := by
      rw [hfpath, backendPath_of_isWsPath hws.right, hpath, hws.left]
      rfl
    rw [gatedBody, gatedBody, hsame, heq]
    rfl
  have hauth : authHeaderFrom forwarded = some event.header := by
    rw [heq, hsigned.authHeaderFrom_eq]
  rw [accepts_iff, hmethod, hauth]
  simp only [event.verifyNip98_eq_ok, hurl]
  apply and_congr_right
  intro _
  apply or_congr_right
  constructor
  · intro h
    rcases h with ⟨pk, hfits, _, ⟨hscheme, hws⟩, _, hpayload, _⟩
    rw [hbody hws] at hpayload
    exact ⟨hws, hscheme, hfits, hpayload⟩
  · intro h
    rcases h with ⟨hws, hscheme, hfits, hpayload⟩
    rw [← hbody hws] at hpayload
    exact ⟨event.pubkey, hfits, hsigned.window, ⟨hscheme, hws⟩, hsigned.method,
      hpayload, hsigned.listed, rfl⟩

end Signed

/-!
## One header, one URL
-/

inductive PathForm where
  | websocket
  | bare
  | below
deriving DecidableEq, Repr

def pathForm (rest : Text) : PathForm :=
  if rest = "/api/v1/ws".toList ∨ "/api/v1/ws/".toList <+: rest then
    .websocket
  else if rest = "/api".toList then
    .bare
  else
    .below

def RoutedAlike (path path' : Text) : Prop :=
  exists (network : NetworkId) (rest rest' : Text),
    path = network.publicName ++ rest ∧ IsApiPath rest ∧
    path' = network.publicName ++ rest' ∧ IsApiPath rest' ∧
    pathForm rest = pathForm rest'

section Alike

variable {rest rest' : Text} {network network' : NetworkId}

theorem exists_isApiPath (h : IsApiPath rest) : exists tail, rest = '/' :: 'a' :: tail := by
  rcases h with heq | ⟨tail, heq⟩
  · exact ⟨_, heq⟩
  · exact ⟨_, heq.symm⟩

theorem publicName_inj (h : network.publicName = network'.publicName) : network = network' := by
  cases network with
  | _ =>
    cases network' with
    | _ => first | rfl | exact absurd h (by decide)

theorem publicName_append_inj (hapi : IsApiPath rest) (hapi' : IsApiPath rest')
    (h : network.publicName ++ rest = network'.publicName ++ rest') :
    network = network' ∧ rest = rest' := by
  rcases exists_isApiPath hapi with ⟨tail, hrest⟩
  rcases exists_isApiPath hapi' with ⟨tail', hrest'⟩
  have hsame : network.publicName = network'.publicName := by
    rcases publicName_cases network with hmain | ⟨seg, hname, hseg, _, hne, hhead⟩
    · rcases publicName_cases network' with hmain' | ⟨seg', hname', hseg', _, hne', hhead'⟩
      · rw [hmain, hmain']
      · rw [hmain, hname', hrest] at h
        cases seg' with
        | nil => exact absurd rfl hne'
        | cons c seg' =>
          injection h with _ h
          injection h with h _
          exact absurd (congrArg some h.symm) hhead'
    · rcases publicName_cases network' with hmain' | ⟨seg', hname', hseg', _, hne', hhead'⟩
      · rw [hmain', hname, hrest'] at h
        cases seg with
        | nil => exact absurd rfl hne
        | cons c seg =>
          injection h with _ h
          injection h with h _
          exact absurd (congrArg some h) hhead
      · rw [hname, hname', hrest, hrest'] at h
        have hsegs := (List.cons.inj h).right
        rw [hname, hname', (Text.separator_append_inj hseg hseg' hsegs).left]
  refine ⟨publicName_inj hsame, ?_⟩
  rw [hsame] at h
  exact List.append_cancel_left h

theorem pathForm_of_isWsPath (h : IsWsPath rest) : pathForm rest = .websocket :=
  if_pos h

theorem pathForm_of_not_isWsPath (h : ¬ IsWsPath rest) :
    pathForm rest = if rest = "/api".toList then .bare else .below :=
  if_neg h

theorem isWsPath_of_pathForm (h : pathForm rest = .websocket) :
    IsWsPath rest := by
  by_contra hws
  rw [pathForm_of_not_isWsPath hws] at h
  split at h
  · cases h
  · cases h

theorem eq_of_pathForm (hapi : IsApiPath rest) (hapi' : IsApiPath rest')
    (hform : pathForm rest = pathForm rest')
    (hbp : backendPath rest = backendPath rest') : rest = rest' := by
  by_cases hws : IsWsPath rest
  · rw [pathForm_of_isWsPath hws] at hform
    have hws' := isWsPath_of_pathForm hform.symm
    rw [backendPath_of_isWsPath hws, backendPath_of_isWsPath hws'] at hbp
    exact hbp
  · have hws' : ¬ IsWsPath rest' := by
      intro hws'
      rw [pathForm_of_isWsPath hws'] at hform
      exact hws (isWsPath_of_pathForm hform)
    rw [pathForm_of_not_isWsPath hws, pathForm_of_not_isWsPath hws'] at hform
    rcases backendPath_of_not_isWsPath hapi hws with ⟨hrest, _⟩ | ⟨tail, hrest, htail⟩
    · rw [if_pos hrest] at hform
      have hrest' : rest' = "/api".toList := by
        by_contra hne
        rw [if_neg hne] at hform
        cases hform
      rw [hrest, hrest']
    · have hne : rest ≠ "/api".toList := by
        intro heq
        rw [hrest] at heq
        exact List.cons_ne_nil _ _ (List.append_right_eq_self.mp heq)
      rcases backendPath_of_not_isWsPath hapi' hws' with ⟨hrest', _⟩ | ⟨tail', hrest', htail'⟩
      · rw [if_neg hne, if_pos hrest'] at hform
        cases hform
      · rw [hrest, ← htail, hbp, htail', hrest']

variable {ext : Externals} {gc gc' : GateConfig}
  {req req' forwarded forwarded' : HttpRequest}
  {socketDir socket socket' : Text}

theorem withQuery_inj {path path' : Text} {query query' : Option Text}
    (hpath : '?' ∉ path) (hpath' : '?' ∉ path')
    (h : withQuery path query = withQuery path' query') :
    path = path' ∧ query = query' := by
  cases query with
  | none =>
    cases query' with
    | none => exact ⟨h, rfl⟩
    | some query' =>
      change path = path' ++ '?' :: query' at h
      rw [h] at hpath
      exact absurd (List.mem_append_right _ List.mem_cons_self) hpath
  | some query =>
    cases query' with
    | none =>
      change path ++ '?' :: query = path' at h
      rw [← h] at hpath'
      exact absurd (List.mem_append_right _ List.mem_cons_self) hpath'
    | some query' =>
      rcases Text.separator_append_inj hpath hpath' h with ⟨heq, hquery⟩
      exact ⟨heq, congrArg some hquery⟩

section

variable (hforward : dispatch socketDir req = .forward socket forwarded)
  (hforward' : dispatch socketDir req' = .forward socket' forwarded')

include hforward hforward'

theorem target_eq_iff :
    req.target = req'.target <->
      RoutedAlike req.path req'.path ∧ forwarded.target = forwarded'.target := by
  rcases dispatch_forward hforward with ⟨network, rest, hapi, hpath, _, heq, hfpath⟩
  rcases dispatch_forward hforward' with ⟨network', rest', hapi', hpath', _, heq', hfpath'⟩
  have htarget : forwarded.target = withQuery (backendPath rest) req.query := by
    rw [heq]
    rfl
  have htarget' : forwarded'.target = withQuery (backendPath rest') req'.query := by
    rw [heq']
    rfl
  constructor
  · intro h
    have hsame : req.path = req'.path := by
      rw [HttpRequest.path, HttpRequest.path, h]
    have hquery : req.query = req'.query := by
      rw [HttpRequest.query, HttpRequest.query, h]
    rw [hpath, hpath'] at hsame
    rcases publicName_append_inj hapi hapi' hsame with ⟨hnetwork, hrest⟩
    refine ⟨⟨network, rest, rest', hpath, hapi, ?_, hapi', ?_⟩, ?_⟩
    · rw [hpath', hnetwork]
    · rw [hrest]
    · rw [htarget, htarget', hrest, hquery]
  · intro h
    rcases h with ⟨⟨n, r, r', hp, ha, hp', ha', hform⟩, hsame⟩
    rw [hpath] at hp
    rw [hpath'] at hp'
    rcases publicName_append_inj hapi ha hp with ⟨hnetwork, hrest⟩
    rcases publicName_append_inj hapi' ha' hp' with ⟨hnetwork', hrest'⟩
    rw [← hrest, ← hrest'] at hform
    rw [htarget, htarget'] at hsame
    have hquestion : '?' ∉ backendPath rest := hfpath ▸ forwarded.not_mem_path
    have hquestion' : '?' ∉ backendPath rest' :=
      hfpath' ▸ forwarded'.not_mem_path
    rcases withQuery_inj hquestion hquestion' hsame with ⟨hbp, hquery⟩
    rw [req.target_eq, req'.target_eq, hpath, hpath', hnetwork, hnetwork', hquery,
      eq_of_pathForm hapi hapi' hform hbp]

theorem forwarded_target_eq (hhost : req.headers.get "host".toList = req'.headers.get "host".toList)
    (hproto : req.headers.get "x-forwarded-proto".toList =
      req'.headers.get "x-forwarded-proto".toList)
    (h : reconstructFromReq forwarded = reconstructFromReq forwarded') :
    forwarded.target = forwarded'.target := by
  have hdefault : forall {req forwarded : HttpRequest} {socket : Text},
      dispatch socketDir req = .forward socket forwarded ->
        orDefault forwarded.target "/".toList = forwarded.target := by
    intro req forwarded socket hforward
    rcases dispatch_forward hforward with ⟨network, rest, hapi, _, _, heq, _⟩
    rcases exists_backendPath hapi with ⟨tail, hbp⟩
    apply if_neg
    rw [heq]
    change withQuery (backendPath rest) req.query ≠ []
    rw [withQuery_eq_append, hbp]
    exact List.cons_ne_nil _ _
  have hscheme : frontScheme req.headers = frontScheme req'.headers := by
    rw [frontScheme, frontScheme, hproto]
  rcases dispatch_forward hforward with ⟨_, rest, _, _, _, heq, _⟩
  rcases dispatch_forward hforward' with ⟨_, rest', _, _, _, heq', _⟩
  have hleft := hdefault hforward
  have hright := hdefault hforward'
  rw [heq] at h hleft ⊢
  rw [heq'] at h hright ⊢
  rw [reconstructFromReq, reconstructFromReq, reconstructAbsoluteUrl,
    reconstructAbsoluteUrl, proxyUnix_scheme, proxyUnix_scheme, hscheme,
    proxyUnix_get (by decide), proxyUnix_get (by decide), hhost, hleft,
    hright] at h
  exact List.append_cancel_left h

end

/-- Two accepted requests with one header have one public URL exactly if they name the same
network, their paths are shortened alike, and the targets agree if one is public. -/
theorem one_header_one_url_iff (hforward : dispatch socketDir req = .forward socket forwarded)
    (hforward' : dispatch socketDir req' = .forward socket' forwarded')
    (hhost : req.headers.get "host".toList = req'.headers.get "host".toList)
    (hproto : req.headers.get "x-forwarded-proto".toList =
      req'.headers.get "x-forwarded-proto".toList)
    (hauth : req.headers.get "authorization".toList = req'.headers.get "authorization".toList)
    (haccepts : Accepts ext gc forwarded)
    (haccepts' : Accepts ext gc' forwarded') :
    req.target = req'.target <->
      RoutedAlike req.path req'.path ∧ (SkipsAuth gc forwarded.method forwarded.path ∨
          SkipsAuth gc' forwarded'.method forwarded'.path ->
            forwarded.target = forwarded'.target) := by
  rw [target_eq_iff hforward hforward']
  apply and_congr_right
  intro _
  constructor
  · intro h _
    exact h
  · intro h
    rcases (accepts_iff.mp haccepts).right with hskip | ⟨pk, hverify⟩
    · exact h (Or.inl hskip)
    rcases (accepts_iff.mp haccepts').right with hskip | ⟨pk', hverify'⟩
    · exact h (Or.inr hskip)
    rcases headerUrl_of_verifyNip98 hverify with ⟨text, htext, hurl⟩
    rcases headerUrl_of_verifyNip98 hverify' with ⟨text', htext', hurl'⟩
    have hsame : authHeaderFrom forwarded = authHeaderFrom forwarded' := by
      rcases dispatch_forward hforward with ⟨_, _, _, _, _, heq, _⟩
      rcases dispatch_forward hforward' with ⟨_, _, _, _, _, heq', _⟩
      rw [heq, heq', authHeaderFrom, authHeaderFrom, proxyUnix_get (by decide),
        proxyUnix_get (by decide), hauth]
    rw [htext, htext'] at hsame
    rw [Option.some.inj hsame, hurl'] at hurl
    exact forwarded_target_eq hforward hforward' hhost hproto (Option.some.inj hurl).symm

end Alike

namespace Sample

def clientKey : Pubkey := 7

def clientHost : Host where
  text := "example.org".toList
  ne_nil := by decide
  visible := List.all_eq_true.mp rfl
  no_slash := by decide

def clientRequest (target : Text) : HttpRequest where
  method := "GET".toList
  target := target
  headers := [("host".toList, clientHost.text), ("authorization".toList, "Nostr ZQ==".toList)]
  body := []

def clientTags (target : Text) : List (List Text) :=
  [["u".toList, publicUrl clientHost target], ["method".toList, "GET".toList]]

def clientJson (target : Text) : Json :=
  .obj [("kind".toList, .unsigned 27235), ("created_at".toList, .unsigned 1000),
    ("tags".toList, .arr ((clientTags target).map tagJson))]

def signedFor (target : Text) : Externals where
  base64Decode encoded := if encoded = "ZQ==".toList then some [101] else none
  parseJson raw := if raw = [101] then some (clientJson target) else none
  parseEvent raw :=
    if raw = [101] then some { pubkey := clientKey, verifies := true } else none
  sha256 body := body

def eventFor (target : Text) : SignedEvent (signedFor target) where
  pubkey := clientKey
  createdAt := 1000
  tags := clientTags target
  encoded := {
    text := "ZQ==".toList
    ne_nil := by decide
    visible := List.all_eq_true.mp rfl }
  raw := [101]
  value := clientJson target
  decode_eq := rfl
  parseJson_eq := rfl
  parseEvent_eq := rfl
  kind_eq := rfl
  createdAt_eq := rfl
  tags_eq := rfl

def gateConfig : GateConfig where
  publicHealth := false
  allow := { keys := [clientKey] }
  nowUnix := 1030

theorem signedRequest_clientRequest (target : Text) :
    SignedRequest (signedFor target) gateConfig clientHost (eventFor target)
      (clientRequest target) where
  authorization := rfl
  host_eq := rfl
  u := rfl
  method := ⟨"GET".toList, rfl, rfl⟩
  payload := by
    intro payload h
    cases h
  window := show absDiff 1030 1000 ≤ 60 by decide
  listed := List.mem_singleton.mpr rfl

theorem signed_rest_request_rejected :
    exists forwarded, dispatch "/run/splora".toList (clientRequest "/api/block-height/0".toList) =
        .forward "/run/splora/mainnet.http.sock".toList forwarded ∧
      SignedRequest (signedFor "/api/block-height/0".toList) gateConfig clientHost
        (eventFor "/api/block-height/0".toList) (clientRequest "/api/block-height/0".toList) ∧
      gateRequest (signedFor "/api/block-height/0".toList) gateConfig forwarded =
        .gate (.error .urlMismatch) ∧
      ¬ Accepts (signedFor "/api/block-height/0".toList) gateConfig forwarded := by
  refine ⟨proxyUnix "/block-height/0".toList (clientRequest "/api/block-height/0".toList), ?_,
    signedRequest_clientRequest _, rfl, ?_⟩
  · decide +kernel
  · intro h
    rcases h with ⟨outcome, houtcome⟩
    cases houtcome

theorem signed_ws_request_accepted :
    exists forwarded, dispatch "/run/splora".toList (clientRequest "/api/v1/ws?v=1".toList) =
        .forward "/run/splora/mainnet.http.sock".toList forwarded ∧
      Accepts (signedFor "/api/v1/ws?v=1".toList) gateConfig forwarded := by
  have hforward : dispatch "/run/splora".toList (clientRequest "/api/v1/ws?v=1".toList) =
        .forward "/run/splora/mainnet.http.sock".toList (proxyUnix "/api/v1/ws".toList
            (clientRequest "/api/v1/ws?v=1".toList)) := by
    decide +kernel
  refine ⟨_, hforward, (front_accepts_iff hforward
    (signedRequest_clientRequest _)).mpr ⟨Or.inl rfl, Or.inr
      ⟨Or.inl rfl, rfl, ⟨by decide, by decide⟩, ?_⟩⟩⟩
  intro payload h
  cases h

theorem one_header_two_networks :
    exists forwarded forwarded', dispatch "/run/splora".toList (clientRequest "/api/v1/ws".toList) =
        .forward "/run/splora/mainnet.http.sock".toList forwarded ∧
      dispatch "/run/splora".toList (clientRequest "/testnet/api/v1/ws".toList) =
        .forward "/run/splora/testnet3.http.sock".toList forwarded' ∧
      Accepts (signedFor "/api/v1/ws".toList) gateConfig forwarded ∧
      Accepts (signedFor "/api/v1/ws".toList) gateConfig forwarded' ∧
      (clientRequest "/api/v1/ws".toList).target ≠
        (clientRequest "/testnet/api/v1/ws".toList).target := by
  refine ⟨proxyUnix "/api/v1/ws".toList (clientRequest "/api/v1/ws".toList),
    proxyUnix "/api/v1/ws".toList (clientRequest "/testnet/api/v1/ws".toList), ?_, ?_, ?_, ?_, ?_⟩
  · decide +kernel
  · decide +kernel
  · exact ⟨.pubkey clientKey, rfl⟩
  · exact ⟨.pubkey clientKey, rfl⟩
  · decide

def clientRequestAgain (target : Text) : HttpRequest :=
  { clientRequest target with
    headers := ("accept".toList, "*/*".toList) ::
      (clientRequest target).headers }

theorem one_header_same_url :
    exists forwarded forwarded', dispatch "/run/splora".toList (clientRequest "/api/v1/ws".toList) =
        .forward "/run/splora/mainnet.http.sock".toList forwarded ∧
      dispatch "/run/splora".toList (clientRequestAgain "/api/v1/ws".toList) =
        .forward "/run/splora/mainnet.http.sock".toList forwarded' ∧
      RoutedAlike (clientRequest "/api/v1/ws".toList).path
        (clientRequestAgain "/api/v1/ws".toList).path ∧
      (clientRequest "/api/v1/ws".toList).target =
        (clientRequestAgain "/api/v1/ws".toList).target := by
  have hforward : dispatch "/run/splora".toList (clientRequest "/api/v1/ws".toList) =
        .forward "/run/splora/mainnet.http.sock".toList (proxyUnix "/api/v1/ws".toList
            (clientRequest "/api/v1/ws".toList)) := by
    decide +kernel
  have hforward' : dispatch "/run/splora".toList (clientRequestAgain "/api/v1/ws".toList) =
        .forward "/run/splora/mainnet.http.sock".toList (proxyUnix "/api/v1/ws".toList
            (clientRequestAgain "/api/v1/ws".toList)) := by
    decide +kernel
  have halike : RoutedAlike (clientRequest "/api/v1/ws".toList).path
      (clientRequestAgain "/api/v1/ws".toList).path :=
    ⟨.mainnet, "/api/v1/ws".toList, "/api/v1/ws".toList, rfl,
      Or.inr ⟨"v1/ws".toList, rfl⟩, rfl, Or.inr ⟨"v1/ws".toList, rfl⟩, rfl⟩
  have haccepts : Accepts (signedFor "/api/v1/ws".toList) gateConfig (proxyUnix "/api/v1/ws".toList
      (clientRequest "/api/v1/ws".toList)) := ⟨.pubkey clientKey, rfl⟩
  have haccepts' : Accepts (signedFor "/api/v1/ws".toList) gateConfig (proxyUnix "/api/v1/ws".toList
      (clientRequestAgain "/api/v1/ws".toList)) := ⟨.pubkey clientKey, rfl⟩
  exact ⟨_, _, hforward, hforward', halike,
    (one_header_one_url_iff hforward hforward' rfl rfl rfl haccepts
      haccepts').mpr ⟨halike, fun _ => rfl⟩⟩

end Sample

end Splora
