import Splora.Auth
import Splora.HttpTypes

/-!
# The gate of the indexer

The indexer puts the URL together from headers and target.  Every request but two must carry an
event for it.  The websocket path is checked with an empty body.
-/

namespace Splora
namespace Rest

open Foundation Auth

inductive HttpAuthOutcome where
  | publicHealth
  | pubkey (pk : Pubkey)
deriving DecidableEq, Repr

def isPublicHealthPath (path : Text) : Bool :=
  path = "/blocks/tip/hash".toList || path = "/blocks/tip/height".toList

def orDefault (text default : Text) : Text :=
  if text = [] then default else text

def forwardedScheme (forwardedProto : Option Text) : Text :=
  orDefault (Text.trim ((forwardedProto.getD "http".toList).takeWhile
    fun c => c ≠ ',')) "http".toList

def reconstructAbsoluteUrl (forwardedProto host : Option Text) (pathAndQuery : Text) : Text :=
  forwardedScheme forwardedProto ++ "://".toList ++
    orDefault (Text.trim (host.getD "localhost".toList)) "localhost".toList ++
    orDefault pathAndQuery "/".toList

def reconstructFromReq (req : HttpRequest) : Text :=
  reconstructAbsoluteUrl ((req.headers.get "x-forwarded-proto".toList).bind HeaderValue.toStr)
    ((req.headers.get "host".toList).bind HeaderValue.toStr)
    req.target

def authHeaderFrom (req : HttpRequest) : Option Text :=
  (req.headers.get "authorization".toList).bind HeaderValue.toStr

structure HttpWsAuthRequest where
  method : Text
  path : Text
  authorization : Option Text
  absoluteUrl : Text
  body : List UInt8
  nowUnix : UInt64

def nip98WindowSecs : Nat := 60

def httpWsAuthGate (ext : Externals) (req : HttpWsAuthRequest)
    (publicHealth : Bool) (allow : Allowlist) :
    Except AuthError HttpAuthOutcome :=
  if publicHealth && Text.eqIgnoreAsciiCase req.method "GET".toList &&
      isPublicHealthPath req.path then
    .ok .publicHealth
  else do
    let pk <- verifyNip98 ext req.authorization req.method req.absoluteUrl
      req.body req.nowUnix nip98WindowSecs allow
    return .pubkey pk

def maxBodySize : Nat := 1000000

inductive GateReply where
  | gate (result : Except AuthError HttpAuthOutcome)
  | payloadTooLarge

structure GateConfig where
  publicHealth : Bool
  allow : Allowlist
  nowUnix : UInt64

def gateCall (req : HttpRequest) (body : List UInt8) (nowUnix : UInt64) :
    HttpWsAuthRequest where
  method := req.method
  path := req.path
  authorization := authHeaderFrom req
  absoluteUrl := reconstructFromReq req
  body := body
  nowUnix := nowUnix

def gateRequest (ext : Externals) (gc : GateConfig) (req : HttpRequest) :
    GateReply :=
  if req.path = "/api/v1/ws".toList then
    .gate (httpWsAuthGate ext (gateCall req [] gc.nowUnix) gc.publicHealth gc.allow)
  else if maxBodySize < req.body.length then
    .payloadTooLarge
  else
    .gate (httpWsAuthGate ext (gateCall req req.body gc.nowUnix) gc.publicHealth gc.allow)

def Accepts (ext : Externals) (gc : GateConfig) (req : HttpRequest) : Prop :=
  exists outcome, gateRequest ext gc req = .gate (.ok outcome)

def SkipsAuth (gc : GateConfig) (method path : Text) : Prop :=
  gc.publicHealth = true ∧ Text.eqIgnoreAsciiCase method "GET".toList = true ∧
    isPublicHealthPath path = true

def gatedBody (req : HttpRequest) : List UInt8 :=
  if req.path = "/api/v1/ws".toList then [] else req.body

section Gate

variable {ext : Externals} {gc : GateConfig} {req : HttpRequest}
  {call : HttpWsAuthRequest} {publicHealth : Bool} {allow : Allowlist}

theorem httpWsAuthGate_eq_ok {outcome : HttpAuthOutcome} :
    httpWsAuthGate ext call gc.publicHealth gc.allow = .ok outcome <->
      SkipsAuth gc call.method call.path ∧ outcome = .publicHealth ∨
      ¬ SkipsAuth gc call.method call.path ∧ exists pk, outcome = .pubkey pk ∧
          verifyNip98 ext call.authorization call.method call.absoluteUrl
            call.body call.nowUnix nip98WindowSecs gc.allow = .ok pk := by
  have hskips : (gc.publicHealth && Text.eqIgnoreAsciiCase call.method "GET".toList &&
      isPublicHealthPath call.path) = true <-> SkipsAuth gc call.method call.path := by
    rw [SkipsAuth, Bool.and_eq_true, Bool.and_eq_true, and_assoc]
  unfold httpWsAuthGate
  split
  · rename_i h
    have hskip := hskips.mp h
    constructor
    · intro heq
      cases heq
      exact Or.inl ⟨hskip, rfl⟩
    · intro hcases
      rcases hcases with ⟨_, heq⟩ | ⟨hnot, _⟩
      · rw [heq]
      · exact absurd hskip hnot
  · rename_i h
    have hnot := mt hskips.mpr h
    rw [bind_eq_ok]
    constructor
    · intro heq
      rcases heq with ⟨pk, hverify, hpure⟩
      exact Or.inr ⟨hnot, pk, (pure_eq_ok.mp hpure).symm, hverify⟩
    · intro hcases
      rcases hcases with ⟨hskip, _⟩ | ⟨_, pk, heq, hverify⟩
      · exact absurd hskip hnot
      · exact ⟨pk, hverify, pure_eq_ok.mpr heq.symm⟩

def BodyFits (req : HttpRequest) : Prop :=
  req.path = "/api/v1/ws".toList ∨ req.body.length ≤ maxBodySize

theorem gateRequest_eq_ok {outcome : HttpAuthOutcome} :
    gateRequest ext gc req = .gate (.ok outcome) <->
      BodyFits req ∧ httpWsAuthGate ext (gateCall req (gatedBody req) gc.nowUnix)
          gc.publicHealth gc.allow = .ok outcome := by
  rw [gateRequest, gatedBody, BodyFits]
  by_cases hws : req.path = "/api/v1/ws".toList
  · rw [if_pos hws, if_pos hws, GateReply.gate.injEq]
    exact ⟨fun h => ⟨Or.inl hws, h⟩, And.right⟩
  · rw [if_neg hws, if_neg hws]
    by_cases hbody : maxBodySize < req.body.length
    · rw [if_pos hbody]
      constructor
      · intro h
        cases h
      · intro h
        rcases h.left with hpath | hle
        · exact absurd hpath hws
        · exact absurd hle (Nat.not_le.mpr hbody)
    · rw [if_neg hbody, GateReply.gate.injEq]
      exact ⟨fun h => ⟨Or.inr (Nat.le_of_not_lt hbody), h⟩, And.right⟩

theorem accepts_iff :
    Accepts ext gc req <->
      BodyFits req ∧ (SkipsAuth gc req.method req.path ∨
          exists pk, verifyNip98 ext (authHeaderFrom req) req.method
            (reconstructFromReq req) (gatedBody req) gc.nowUnix
            nip98WindowSecs gc.allow = .ok pk) := by
  simp only [Accepts, gateRequest_eq_ok, httpWsAuthGate_eq_ok]
  constructor
  · intro h
    rcases h with ⟨outcome, hfits, ⟨hskip, _⟩ | ⟨_, pk, _, hverify⟩⟩
    · exact ⟨hfits, Or.inl hskip⟩
    · exact ⟨hfits, Or.inr ⟨pk, hverify⟩⟩
  · intro h
    rcases h with ⟨hfits, hcases⟩
    by_cases hskip : SkipsAuth gc req.method req.path
    · exact ⟨.publicHealth, hfits, Or.inl ⟨hskip, rfl⟩⟩
    · rcases hcases with hskip' | ⟨pk, hverify⟩
      · exact absurd hskip' hskip
      · exact ⟨.pubkey pk, hfits, Or.inr ⟨hskip, pk, rfl, hverify⟩⟩

end Gate

end Rest
end Splora
