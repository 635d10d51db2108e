import Splora.Chain
import Splora.Foundation.Result
import Splora.Foundation.Text

/-!
# NIP-98 authorization

A signed event in the `Authorization` header names the URL and the method, and may name the hash
of the body.  Base64, JSON, signatures and SHA-256 are parameters.
-/

namespace Splora
namespace Auth

open Foundation

abbrev Pubkey := BitVec 256

structure Allowlist where
  keys : List Pubkey

def Allowlist.contains (allow : Allowlist) (pubkey32 : Pubkey) : Bool :=
  decide (pubkey32 ∈ allow.keys)

inductive AuthError where
  | missingHeader
  | badEncoding
  | badJson
  | badSignature
  | wrongKind
  | urlMismatch
  | methodMismatch
  | expired
  | payloadMismatch
  | notAllowlisted
  | io (message : Text)
deriving DecidableEq, Repr

inductive Json where
  | null
  | bool (b : Bool)
  | unsigned (n : UInt64)
  | number
  | str (text : Text)
  | arr (items : List Json)
  | obj (fields : List (Text × Json))

namespace Json

def get (name : Text) : Json -> Option Json
  | obj fields => (fields.find? fun field => field.1 = name).map Prod.snd
  | _ => none

def asU64 : Json -> Option UInt64
  | unsigned n => some n
  | _ => none

def asStr : Json -> Option Text
  | str text => some text
  | _ => none

def asArray : Json -> Option (List Json)
  | arr items => some items
  | _ => none

end Json

structure NostrEvent where
  pubkey : Pubkey
  verifies : Bool

structure Externals where
  base64Decode : Text -> Option (List UInt8)
  parseJson : List UInt8 -> Option Json
  parseEvent : List UInt8 -> Option NostrEvent
  sha256 : List UInt8 -> List UInt8

def hexDigit (n : Nat) : Char :=
  "0123456789abcdef".toList.getD n '0'

def hexEncode (bytes : List UInt8) : Text :=
  bytes.flatMap fun b => [hexDigit (b.toNat / 16), hexDigit (b.toNat % 16)]

def maxNip98AuthEventBytes : Nat := 64 * 1024

def maxNip98AuthEncodedBytes : Nat :=
  (maxNip98AuthEventBytes / 3 +
    if maxNip98AuthEventBytes % 3 = 0 then 0 else 1) * 4

def absDiff (a b : UInt64) : Nat :=
  (a.toNat - b.toNat) + (b.toNat - a.toNat)

structure FoundTags where
  u : Option Text
  method : Option Text
  payload : Option Text
deriving DecidableEq, Repr

def FoundTags.read (found : FoundTags) (tag : Json) : FoundTags :=
  match tag.asArray with
  | some (first :: rest) =>
    let name := first.asStr.getD []
    let val := rest.head?.bind Json.asStr
    if name = "u".toList ∧ found.u = none then
      { found with u := val }
    else if name = "method".toList ∧ found.method = none then
      { found with method := val }
    else if name = "payload".toList ∧ found.payload = none then
      { found with payload := val }
    else
      found
  | _ => found

def readTags (tags : List Json) : FoundTags :=
  tags.foldl FoundTags.read { u := none, method := none, payload := none }

/-- `Nostr` and `nostr` are the only spellings of the scheme. -/
def stripScheme (header : Text) : Option Text :=
  (header.dropPrefix? "Nostr ".toList).or (header.dropPrefix? "nostr ".toList)

def decodeEvent (ext : Externals) (encoded : Text) :
    Except AuthError (Json × NostrEvent) := do
  ensure (encoded ≠ []) .missingHeader
  ensure (encoded.length ≤ maxNip98AuthEncodedBytes) .badEncoding
  let raw <- expect (ext.base64Decode encoded) .badEncoding
  ensure (raw.length ≤ maxNip98AuthEventBytes) .badEncoding
  let value <- expect (ext.parseJson raw) .badJson
  let event <- expect (ext.parseEvent raw) .badJson
  ensure (event.verifies = true) .badSignature
  return (value, event)

def verifyNip98 (ext : Externals) (header : Option Text) (method : Text)
    (absoluteUrl : Text) (body : List UInt8) (nowUnix : UInt64)
    (windowSecs : Nat) (allow : Allowlist) : Except AuthError Pubkey := do
  let header <- expect header .missingHeader
  let encoded <- expect (stripScheme header) .missingHeader
  let (value, event) <- decodeEvent ext (Text.trim encoded)
  let kind <- expect ((value.get "kind".toList).bind Json.asU64) .wrongKind
  ensure (kind = 27235) .wrongKind
  let createdAt <-
    expect ((value.get "created_at".toList).bind Json.asU64) .expired
  ensure (absDiff nowUnix createdAt ≤ windowSecs) .expired
  let tags <- expect ((value.get "tags".toList).bind Json.asArray) .urlMismatch
  ensure ((readTags tags).u = some absoluteUrl) .urlMismatch
  ensure ((readTags tags).method.any
    (fun m => Text.eqIgnoreAsciiCase m method) = true) .methodMismatch
  ensure (forall payload, payload ∈ (readTags tags).payload ->
    Text.toAsciiLowercase payload = hexEncode (ext.sha256 body))
    .payloadMismatch
  ensure (allow.contains event.pubkey = true) .notAllowlisted
  return event.pubkey

/-!
## Events of clients
-/

def tagValue (name : Text) (tags : List (List Text)) : Option Text :=
  tags.findSome? fun tag =>
    match tag with
    | first :: value :: _ => if first = name then some value else none
    | _ => none

def tagJson (tag : List Text) : Json :=
  .arr (tag.map .str)

structure SignedEvent (ext : Externals) where
  pubkey : Pubkey
  createdAt : UInt64
  tags : List (List Text)
  encoded : Word
  raw : List UInt8
  value : Json
  decode_eq : ext.base64Decode encoded.text = some raw
  parseJson_eq : ext.parseJson raw = some value
  parseEvent_eq : ext.parseEvent raw = some { pubkey := pubkey, verifies := true }
  kind_eq : value.get "kind".toList = some (.unsigned 27235)
  createdAt_eq : value.get "created_at".toList = some (.unsigned createdAt)
  tags_eq : value.get "tags".toList = some (.arr (tags.map tagJson))

namespace SignedEvent

variable {ext : Externals}

def header (event : SignedEvent ext) : Text :=
  "Nostr ".toList ++ event.encoded.text

def Fits (event : SignedEvent ext) : Prop :=
  event.encoded.text.length ≤ maxNip98AuthEncodedBytes ∧ event.raw.length ≤ maxNip98AuthEventBytes

end SignedEvent

section Tags

theorem tagValue_nil (name : Text) : tagValue name [] = none := rfl

theorem tagValue_cons (name : Text) (tag : List Text) (tags : List (List Text)) :
    tagValue name (tag :: tags) = (tagValue name [tag]).or (tagValue name tags) := by
  rw [tagValue, tagValue, tagValue, ← List.findSome?_append]
  rfl

theorem tagValue_value (name first value : Text) (rest : List Text) :
    tagValue name [first :: value :: rest] =
      if first = name then some value else none := by
  rw [tagValue, List.findSome?_singleton]

theorem FoundTags.read_tagJson (found : FoundTags) (tag : List Text) :
    found.read (tagJson tag) = {
      u := found.u.or (tagValue "u".toList [tag])
      method := found.method.or (tagValue "method".toList [tag])
      payload := found.payload.or (tagValue "payload".toList [tag]) } := by
  have hum : "u".toList ≠ "method".toList := by decide
  have hup : "u".toList ≠ "payload".toList := by decide
  have hmp : "method".toList ≠ "payload".toList := by decide
  unfold FoundTags.read
  -- only that the three names differ matters
  generalize "u".toList = nameU at *
  generalize "method".toList = nameM at *
  generalize "payload".toList = nameP at *
  rcases found with ⟨u, method, payload⟩
  match tag with
  | [] => simp [tagJson, Json.asArray, tagValue]
  | [first] =>
    simp only [tagJson, Json.asArray, tagValue, List.map_cons, List.map_nil,
      List.head?_nil, Option.bind_none, List.findSome?_singleton,
      Option.or_none]
    split
    · simp_all
    · split
      · simp_all
      · split
        · simp_all
        · rfl
  | first :: value :: rest =>
    simp only [tagJson, Json.asArray, Json.asStr, List.map_cons,
      List.head?_cons, Option.bind_some, Option.getD_some, tagValue_value]
    by_cases hu : first = nameU
    · cases u with
      | none => simp [hu, hum, hup]
      | some _ => simp [hu, hum, hup]
    · by_cases hm : first = nameM
      · cases method with
        | none => simp [hm, hum.symm, hmp]
        | some _ => simp [hm, hum.symm, hmp]
      · by_cases hp : first = nameP
        · cases payload with
          | none => simp [hp, hup.symm, hmp.symm]
          | some _ => simp [hp, hup.symm, hmp.symm]
        · simp [hu, hm, hp]

theorem foldl_read_eq (found : FoundTags) (tags : List (List Text)) :
    (tags.map tagJson).foldl FoundTags.read found = {
      u := found.u.or (tagValue "u".toList tags)
      method := found.method.or (tagValue "method".toList tags)
      payload := found.payload.or (tagValue "payload".toList tags) } := by
  induction tags generalizing found with
  | nil =>
    rw [tagValue_nil, tagValue_nil, tagValue_nil, Option.or_none, Option.or_none, Option.or_none]
    rfl
  | cons tag tags ih =>
    rw [List.map_cons, List.foldl_cons, ih, FoundTags.read_tagJson,
      tagValue_cons _ tag tags, tagValue_cons _ tag tags,
      tagValue_cons _ tag tags]
    simp only [Option.or_assoc]

theorem readTags_eq (tags : List (List Text)) :
    readTags (tags.map tagJson) = {
      u := tagValue "u".toList tags
      method := tagValue "method".toList tags
      payload := tagValue "payload".toList tags } := by
  rw [readTags, foldl_read_eq]
  rfl

end Tags

/-!
## What is accepted
-/

section Accepted

variable {ext : Externals} {header : Option Text} {method url : Text}
  {body : List UInt8} {nowUnix : UInt64} {windowSecs : Nat} {allow : Allowlist}
  {pk : Pubkey}

theorem decodeEvent_eq_ok {encoded : Text} {result : Json × NostrEvent} :
    decodeEvent ext encoded = .ok result <->
      encoded ≠ [] ∧ encoded.length ≤ maxNip98AuthEncodedBytes ∧
      exists raw, ext.base64Decode encoded = some raw ∧ raw.length ≤ maxNip98AuthEventBytes ∧
        ext.parseJson raw = some result.1 ∧
        ext.parseEvent raw = some result.2 ∧ result.2.verifies = true := by
  rcases result with ⟨value, event⟩
  simp only [decodeEvent, bind_eq_ok, ensure_eq_ok, expect_eq_ok, pure_eq_ok, exists_const]
  constructor
  · intro h
    rcases h with ⟨hne, hlen, raw, hraw, hraw_len, v, hv, e, he, hverifies, heq⟩
    cases heq
    exact ⟨hne, hlen, raw, hraw, hraw_len, hv, he, hverifies⟩
  · intro h
    rcases h with ⟨hne, hlen, raw, hraw, hraw_len, hv, he, hverifies⟩
    exact ⟨hne, hlen, raw, hraw, hraw_len, value, hv, event, he, hverifies, rfl⟩

def headerUrl (ext : Externals) (header : Text) : Option Text :=
  (stripScheme header).bind fun encoded =>
    (ext.base64Decode (Text.trim encoded)).bind fun raw =>
      (ext.parseJson raw).bind fun value =>
        ((value.get "tags".toList).bind Json.asArray).bind fun tags =>
          (readTags tags).u

theorem headerUrl_of_verifyNip98
    (h : verifyNip98 ext header method url body nowUnix windowSecs allow = .ok pk) :
    exists text, header = some text ∧ headerUrl ext text = some url := by
  simp only [verifyNip98, bind_eq_ok, ensure_eq_ok, expect_eq_ok] at h
  rcases h with ⟨text, htext, encoded, hencoded, result, hdecode, _, _, _, _, _,
    _, _, _, tags, htags, _, hu, _⟩
  rcases decodeEvent_eq_ok.mp hdecode with ⟨_, _, raw, hraw, _, hvalue, _⟩
  refine ⟨text, htext, ?_⟩
  rw [headerUrl, hencoded, Option.bind_some, hraw, Option.bind_some, hvalue,
    Option.bind_some, htags, Option.bind_some, hu]

namespace SignedEvent

theorem stripScheme_header (event : SignedEvent ext) :
    stripScheme event.header = some event.encoded.text := by
  have hdrop : event.header.dropPrefix? "Nostr ".toList = some event.encoded.text :=
    List.dropPrefix?_eq_some_iff.mpr ⟨"Nostr ".toList, rfl, BEq.refl _⟩
  rw [stripScheme, hdrop, Option.some_or]

theorem decodeEvent_eq (event : SignedEvent ext) {value : Json} {nostr : NostrEvent} :
    decodeEvent ext event.encoded.text = .ok (value, nostr) <->
      event.Fits ∧ value = event.value ∧ nostr = { pubkey := event.pubkey, verifies := true } := by
  rw [decodeEvent_eq_ok, Fits]
  constructor
  · intro h
    rcases h with ⟨_, hlen, raw, hraw, hraw_len, hvalue, hnostr, _⟩
    rw [event.decode_eq] at hraw
    cases hraw
    rw [event.parseJson_eq] at hvalue
    rw [event.parseEvent_eq] at hnostr
    exact ⟨⟨hlen, hraw_len⟩, (Option.some.inj hvalue).symm, (Option.some.inj hnostr).symm⟩
  · intro h
    rcases h with ⟨⟨hlen, hraw_len⟩, hvalue, hnostr⟩
    rw [hvalue, hnostr]
    exact ⟨event.encoded.ne_nil, hlen, event.raw, event.decode_eq, hraw_len,
      event.parseJson_eq, event.parseEvent_eq, rfl⟩

theorem verifyNip98_eq_ok (event : SignedEvent ext) :
    verifyNip98 ext (some event.header) method url body nowUnix windowSecs allow = .ok pk <->
      event.Fits ∧ absDiff nowUnix event.createdAt ≤ windowSecs ∧
      tagValue "u".toList event.tags = some url ∧
      (exists m, tagValue "method".toList event.tags = some m ∧
        Text.eqIgnoreAsciiCase m method = true) ∧
      (forall payload, tagValue "payload".toList event.tags = some payload ->
        Text.toAsciiLowercase payload = hexEncode (ext.sha256 body)) ∧
      event.pubkey ∈ allow.keys ∧ pk = event.pubkey := by
  simp only [verifyNip98, bind_eq_ok, ensure_eq_ok, expect_eq_ok, pure_eq_ok,
    Option.some.injEq, exists_eq_left', exists_const,
    event.stripScheme_header, event.encoded.trim_text, Prod.exists,
    event.decodeEvent_eq, Allowlist.contains, decide_eq_true_eq,
    Option.any_eq_true, Option.mem_def]
  constructor
  · intro h
    rcases h with ⟨value, nostr, ⟨hfits, hvalue, hnostr⟩, kind, _, _, createdAt,
      hcreated, hwindow, tags, htags, hu, hmethod, hpayload, hallow, hpk⟩
    rw [hvalue, event.createdAt_eq] at hcreated
    cases hcreated
    rw [hvalue, event.tags_eq] at htags
    cases htags
    rw [readTags_eq] at hu hmethod hpayload
    rw [hnostr] at hallow hpk
    exact ⟨hfits, hwindow, hu, hmethod, hpayload, hallow, hpk.symm⟩
  · intro h
    rcases h with ⟨hfits, hwindow, hu, hmethod, hpayload, hallow, hpk⟩
    refine ⟨event.value, _, ⟨hfits, rfl, rfl⟩, 27235, ?_, rfl, event.createdAt, ?_,
      hwindow, event.tags.map tagJson, ?_, ?_⟩
    · rw [event.kind_eq]
      rfl
    · rw [event.createdAt_eq]
      rfl
    · rw [event.tags_eq]
      rfl
    · rw [readTags_eq]
      exact ⟨hu, hmethod, hpayload, hallow, hpk.symm⟩

end SignedEvent

end Accepted

end Auth
end Splora
