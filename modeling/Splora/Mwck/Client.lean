import Splora.Mwck.Bodies

/-!
# The subscriptions of a client

A client tracks one address, a set of addresses and a set of scripts.  A message lists for each
exactly the transactions that match its key.
-/

namespace Splora
namespace Mwck

open Foundation Electrum

/-!
## Match keys
-/

def isAsciiHexdigit (c : Char) : Bool :=
  ('0' ≤ c && c ≤ '9') || ('a' ≤ c && c ≤ 'f') || ('A' ≤ c && c ≤ 'F')

def isHexLen (s : Text) (n : Nat) : Bool :=
  s.length = n && s.all isAsciiHexdigit

def isBase58Char (c : Char) : Bool :=
  ('1' ≤ c && c ≤ '9') || ('A' ≤ c && c ≤ 'H') || ('J' ≤ c && c ≤ 'N') ||
    ('P' ≤ c && c ≤ 'Z') || ('a' ≤ c && c ≤ 'k') || ('m' ≤ c && c ≤ 'z')

def isBase58Addr (s : Text) : Bool :=
  (s.length = 80 || (26 ≤ s.length && s.length ≤ 35)) && s.all isBase58Char

def isBech32HrpLower (c : Char) : Bool :=
  'a' ≤ c && c ≤ 'z'

def isBech32HrpUpper (c : Char) : Bool :=
  'A' ≤ c && c ≤ 'Z'

def isBech32DataLower (c : Char) : Bool :=
  ('a' ≤ c && c ≤ 'h') || c = 'j' || c = 'k' || c = 'm' || c = 'n' ||
    ('p' ≤ c && c ≤ 'z') || c = '0' || ('2' ≤ c && c ≤ '9')

def isBech32DataUpper (c : Char) : Bool :=
  ('A' ≤ c && c ≤ 'H') || c = 'J' || c = 'K' || c = 'M' || c = 'N' ||
    ('P' ≤ c && c ≤ 'Z') || c = '0' || ('2' ≤ c && c ≤ '9')

/-- The parts around the first `1`; what is accepted is ASCII. -/
def bech32Shape (s : Text) (hrp data : Char -> Bool) : Bool :=
  match s.idxOf? '1' with
  | none => false
  | some sep =>
    let rest := s.length - sep - 1
    (2 ≤ sep && sep ≤ 5) && (8 ≤ rest && rest ≤ 100) &&
      (s.take sep).all hrp && (s.drop (sep + 1)).all data

def isBech32Lower (s : Text) : Bool :=
  bech32Shape s isBech32HrpLower isBech32DataLower

def isBech32Upper (s : Text) : Bool :=
  bech32Shape s isBech32HrpUpper isBech32DataUpper

def canonicalTrackKey (raw : Text) : Option Text :=
  let s := raw.trim
  if s.isEmpty then
    none
  else if isHexLen s 66 && (Text.eqIgnoreAsciiCase (s.take 2) "02".toList ||
      Text.eqIgnoreAsciiCase (s.take 2) "03".toList) then
    some ("21".toList ++ s.toAsciiLowercase ++ "ac".toList)
  else if isHexLen s 130 && Text.eqIgnoreAsciiCase (s.take 2) "04".toList then
    some ("41".toList ++ s.toAsciiLowercase ++ "ac".toList)
  else if isBech32Upper s then
    some s.toAsciiLowercase
  else if isBech32Lower s || isBase58Addr s then
    some s
  else
    none

def touchedOutputs (tx : Value) : List Value :=
  let vin := ((tx.get "vin".toList).bind Value.asArray).getD []
  let vout := ((tx.get "vout".toList).bind Value.asArray).getD []
  vin.map (fun el => (el.get "prevout".toList).getD el) ++ vout

def addressKeys (prev : Value) : List Text :=
  match (prev.get "scriptpubkey_address".toList).bind Value.asStr with
  | none => []
  | some a => a :: (canonicalTrackKey a).toList

def scriptKey (prev : Value) : Option Text :=
  ((prev.get "scriptpubkey".toList).bind Value.asStr).map Text.toAsciiLowercase

def txTouchSet (tx : Value) : List Text × List Text :=
  ((touchedOutputs tx).flatMap addressKeys, (touchedOutputs tx).filterMap scriptKey)

def txMatches (tx : Value) (key : Text) : Bool :=
  key ∈ (txTouchSet tx).1 || key ∈ (txTouchSet tx).2

def matching (key : Text) (txs : List Value) : List Value :=
  txs.filter fun tx => txMatches tx key

/-!
## Messages
-/

structure TxBuckets where
  mempool : List Value
  confirmed : List Value
  removed : List Value

def TxBuckets.toValue (b : TxBuckets) : Value :=
  .obj [("mempool".toList, .arr b.mempool), ("confirmed".toList, .arr b.confirmed),
    ("removed".toList, .arr b.removed)]

structure ClientState where
  trackAddress : Option Text
  trackAddressOriginal : Option Text
  trackAddresses : Table Text Text compare
  trackScriptpubkeys : List Text

def ClientState.default : ClientState where
  trackAddress := none
  trackAddressOriginal := none
  trackAddresses := ∅
  trackScriptpubkeys := []

def emitMulti (eventKey : Text) (perKey : Table Text TxBuckets compare) :
    List (Text × Value) :=
  if perKey.isEmpty then
    []
  else
    [(eventKey, .obj (perKey.toList.map fun row => (row.1, row.2.toValue)))]

def emitHits (name : Text) (hits : List Value) : List (Text × Value) :=
  if hits.isEmpty then [] else [(name, .arr hits)]

def bucketsPerKey (keys : List (Text × Text)) (buckets : Text -> TxBuckets)
    (nonempty : TxBuckets -> Bool) : Table Text TxBuckets compare :=
  writeRows ∅ (keys.filterMap fun key =>
    let b := buckets key.2
    if nonempty b then some (key.1, b) else none)

namespace ClientState

def fields (state : ClientState) (single : Text -> List (Text × Value))
    (buckets : Text -> TxBuckets) (nonempty : TxBuckets -> Bool) : List (Text × Value) :=
  (state.trackAddress.map single).getD [] ++
  emitMulti "multi-address-transactions".toList
    (bucketsPerKey state.trackAddresses.toList buckets nonempty) ++
  emitMulti "multi-scriptpubkey-transactions".toList
    (bucketsPerKey (state.trackScriptpubkeys.map fun spk => (spk, spk)) buckets nonempty)

def message (state : ClientState) (single : Text -> List (Text × Value))
    (buckets : Text -> TxBuckets) (nonempty : TxBuckets -> Bool) : Option Value :=
  let out := state.fields single buckets nonempty
  if out.isEmpty then none else some (.obj out)

def onMempool (state : ClientState) (added removed : List Value) : Option Value :=
  state.message (fun canon =>
      emitHits "address-transactions".toList (matching canon added) ++
      emitHits "address-removed-transactions".toList (matching canon removed))
    (fun canon => {
      mempool := matching canon added
      confirmed := []
      removed := matching canon removed })
    (fun b => !b.mempool.isEmpty || !b.removed.isEmpty)

def onBlock (state : ClientState) (confirmed : List Value) : Option Value :=
  state.message (fun canon => emitHits "block-transactions".toList (matching canon confirmed))
    (fun canon => {
      mempool := []
      confirmed := matching canon confirmed
      removed := [] })
    (fun b => !b.confirmed.isEmpty)

end ClientState

/-!
## What a message lists for a subscription
-/

inductive Subscription where
  | address
  | addresses (original : Text)
  | scriptpubkey (spk : Text)
deriving DecidableEq, Repr

def ClientState.matchKey (state : ClientState) : Subscription -> Option Text
  | .address => state.trackAddress
  | .addresses original => state.trackAddresses[original]?
  | .scriptpubkey spk => if spk ∈ state.trackScriptpubkeys then some spk else none

inductive Bucket where
  | mempool
  | confirmed
  | removed
deriving DecidableEq, Repr

namespace Bucket

def name : Bucket -> Text
  | mempool => "mempool".toList
  | confirmed => "confirmed".toList
  | removed => "removed".toList

def singleName : Bucket -> Text
  | mempool => "address-transactions".toList
  | confirmed => "block-transactions".toList
  | removed => "address-removed-transactions".toList

end Bucket

def TxBuckets.get (b : TxBuckets) : Bucket -> List Value
  | .mempool => b.mempool
  | .confirmed => b.confirmed
  | .removed => b.removed

def itemsOf (v : Option Value) : List Value :=
  (v.bind Value.asArray).getD []

def Subscription.listed (sub : Subscription) (bucket : Bucket) (message : Value) :
    List Value :=
  match sub with
  | .address => itemsOf (message.get bucket.singleName)
  | .addresses original =>
    itemsOf (((message.get "multi-address-transactions".toList).bind
      (Value.get original)).bind (Value.get bucket.name))
  | .scriptpubkey spk =>
    itemsOf (((message.get "multi-scriptpubkey-transactions".toList).bind
      (Value.get spk)).bind (Value.get bucket.name))

section Fields

variable {name : Text} {fields fields' : List (Text × Value)}

theorem get_obj_append :
    Value.get name (.obj (fields ++ fields')) =
      (Value.get name (.obj fields)).or (Value.get name (.obj fields')) := by
  show ((fields ++ fields').find? _).map Prod.snd = _
  rw [List.find?_append, Option.map_or]
  rfl

theorem get_obj_of_not_mem (h : name ∉ fields.map Prod.fst) :
    Value.get name (.obj fields) = none := by
  show (fields.find? _).map Prod.snd = none
  rw [Option.map_eq_none_iff, List.find?_eq_none]
  intro field hfield heq
  exact h (of_decide_eq_true heq ▸ List.mem_map_of_mem hfield)

theorem get_obj_toList {V : Type} (t : Table Text V compare) (f : V -> Value) :
    Value.get name (.obj (t.toList.map fun row => (row.1, f row.2))) = t[name]?.map f := by
  show ((t.toList.map _).find? _).map Prod.snd = _
  rw [List.find?_map, Option.map_map]
  cases hget : t[name]? with
  | none =>
    rw [Option.map_none, Option.map_eq_none_iff, List.find?_eq_none]
    intro row hrow heq
    have hrow' := Std.ExtTreeMap.mem_toList_iff_getElem?_eq_some.mp hrow
    rw [of_decide_eq_true heq, hget] at hrow'
    cases hrow'
  | some v =>
    have hmem : (name, v) ∈ t.toList :=
      Std.ExtTreeMap.mem_toList_iff_getElem?_eq_some.mpr hget
    have hsome : (t.toList.find? ((fun field : Text × Value => decide (field.1 = name)) ∘
        fun row => (row.1, f row.2))).isSome := by
      rw [List.find?_isSome]
      exact ⟨_, hmem, decide_eq_true rfl⟩
    rcases Option.isSome_iff_exists.mp hsome with ⟨row, hrow⟩
    have hfound := List.find?_some hrow
    have hname : row.1 = name := of_decide_eq_true hfound
    have hvalue := Std.ExtTreeMap.mem_toList_iff_getElem?_eq_some.mp
      (List.mem_of_find?_eq_some hrow)
    rw [hname, hget] at hvalue
    rw [hrow, Option.map_some, Option.map_some]
    exact congrArg some (congrArg f (Option.some.inj hvalue).symm)

end Fields

section Messages

variable {name : Text} {state : ClientState} {sub : Subscription} {key : Text}

variable {nonempty : TxBuckets -> Bool}

theorem getElem?_bucketsPerKey {keys : List (Text × Text)} {buckets : Text -> TxBuckets}
    (hfun : Functional keys) {original canon : Text} (h : (original, canon) ∈ keys) :
    (bucketsPerKey keys buckets nonempty)[original]? =
      if nonempty (buckets canon) then some (buckets canon) else none := by
  unfold bucketsPerKey
  have hsource : forall row, row ∈ (keys.filterMap fun key =>
      if nonempty (buckets key.2) then some (key.1, buckets key.2) else none) <->
        exists key, key ∈ keys ∧ nonempty (buckets key.2) = true ∧
          (key.1, buckets key.2) = row := by
    intro row
    simp
  split
  · rename_i hnonempty
    refine getElem?_writeRows_of_mem _ ?_ ((hsource _).mpr ⟨_, h, hnonempty, rfl⟩)
    intro k b b' hb hb'
    rcases (hsource _).mp hb with ⟨row, hrow, _, heq⟩
    rcases (hsource _).mp hb' with ⟨row', hrow', _, heq'⟩
    cases heq
    injection heq' with hname hbuckets
    have hrow'' : (row.1, row'.2) ∈ keys := hname ▸ hrow'
    rw [<- hbuckets, hfun _ _ _ hrow hrow'']
  · rename_i hnonempty
    rw [getElem?_writeRows_of_not_mem, Std.ExtTreeMap.getElem?_empty]
    intro hmem
    rcases List.mem_map.mp hmem with ⟨row, hrow, heq⟩
    rcases (hsource _).mp hrow with ⟨row', hrow', hnonempty', heq'⟩
    have hrow'' : (original, row'.2) ∈ keys := by
      rw [<- heq, <- heq']
      exact hrow'
    rw [hfun _ _ _ h hrow''] at hnonempty
    exact hnonempty hnonempty'

theorem get_emitMulti (perKey : Table Text TxBuckets compare) (original : Text) :
    (Value.get name (.obj (emitMulti name perKey))).bind (Value.get original) =
      perKey[original]?.map TxBuckets.toValue := by
  unfold emitMulti
  split
  · rename_i hempty
    rw [Std.ExtTreeMap.isEmpty_iff.mp hempty, Std.ExtTreeMap.getElem?_empty]
    rfl
  · have hself : Value.get name (.obj [(name,
        .obj (perKey.toList.map fun row => (row.1, row.2.toValue)))]) =
          some (.obj (perKey.toList.map fun row => (row.1, row.2.toValue))) := by
      simp [Value.get]
    rw [hself, Option.bind_some, get_obj_toList]

theorem get_emitMulti_of_ne (eventKey : Text) (perKey : Table Text TxBuckets compare)
    (h : eventKey ≠ name) : Value.get name (.obj (emitMulti eventKey perKey)) = none := by
  refine get_obj_of_not_mem ?_
  unfold emitMulti
  split
  · exact List.not_mem_nil
  · intro hmem
    exact h (List.mem_singleton.mp hmem).symm

theorem get_toValue (b : TxBuckets) (bucket : Bucket) :
    itemsOf (Value.get bucket.name b.toValue) = b.get bucket := by
  cases bucket with
  | mempool => rfl
  | confirmed => rfl
  | removed => rfl

theorem itemsOf_emitHits (hits : List Value) :
    itemsOf (Value.get name (.obj (emitHits name hits))) = hits := by
  unfold emitHits
  split
  · rename_i hempty
    rw [List.isEmpty_iff.mp hempty]
    rfl
  · simp [Value.get, itemsOf, Value.asArray]

theorem get_emitHits_of_ne (other : Text) (hits : List Value) (h : other ≠ name) :
    Value.get name (.obj (emitHits other hits)) = none := by
  refine get_obj_of_not_mem ?_
  unfold emitHits
  split
  · exact List.not_mem_nil
  · intro hmem
    exact h (List.mem_singleton.mp hmem).symm

structure Emits (single : Text -> List (Text × Value)) (buckets : Text -> TxBuckets)
    (nonempty : TxBuckets -> Bool) : Prop where
  single_eq : forall canon bucket,
    itemsOf (Value.get (Bucket.singleName bucket) (.obj (single canon))) =
      (buckets canon).get bucket
  no_addresses : forall canon,
    Value.get "multi-address-transactions".toList (.obj (single canon)) = none
  no_scriptpubkeys : forall canon,
    Value.get "multi-scriptpubkey-transactions".toList (.obj (single canon)) = none
  get_eq_nil : forall canon, nonempty (buckets canon) = false ->
    forall bucket, (buckets canon).get bucket = []

theorem itemsOf_bucketsPerKey {single : Text -> List (Text × Value)}
    {buckets : Text -> TxBuckets} (h : Emits single buckets nonempty)
    {keys : List (Text × Text)} (hfun : Functional keys) {original canon : Text}
    (hkey : (original, canon) ∈ keys) (bucket : Bucket) :
    itemsOf (((bucketsPerKey keys buckets nonempty)[original]?.map
      TxBuckets.toValue).bind (Value.get bucket.name)) = (buckets canon).get bucket := by
  rw [getElem?_bucketsPerKey hfun hkey]
  cases hnonempty : nonempty (buckets canon) with
  | false =>
    rw [h.get_eq_nil canon hnonempty bucket]
    rfl
  | true => exact get_toValue (buckets canon) bucket

theorem functional_toList (t : Table Text Text compare) : Functional t.toList := by
  intro k v v' h h'
  have hsame := (Std.ExtTreeMap.mem_toList_iff_getElem?_eq_some.mp h).symm.trans
    (Std.ExtTreeMap.mem_toList_iff_getElem?_eq_some.mp h')
  exact Option.some.inj hsame

theorem functional_diagonal (keys : List Text) : Functional (keys.map fun key => (key, key)) := by
  intro k v v' h h'
  rcases List.mem_map.mp h with ⟨_, _, heq⟩
  rcases List.mem_map.mp h' with ⟨_, _, heq'⟩
  cases heq
  cases heq'
  rfl

section Emitted

variable {single : Text -> List (Text × Value)} {buckets : Text -> TxBuckets}
  {nonempty : TxBuckets -> Bool}

theorem listed_of_message (sub : Subscription) (bucket : Bucket) :
    (state.message single buckets nonempty).toList.flatMap (sub.listed bucket) =
      sub.listed bucket (.obj (state.fields single buckets nonempty)) := by
  unfold ClientState.message
  dsimp only
  split
  · rename_i hempty
    rw [List.isEmpty_iff.mp hempty]
    cases sub with
    | address => rfl
    | addresses original => rfl
    | scriptpubkey spk => rfl
  · exact List.flatMap_singleton _ _

theorem Emits.no_addresses_getD (h : Emits single buckets nonempty) (address : Option Text) :
    Value.get "multi-address-transactions".toList (.obj ((address.map single).getD [])) = none := by
  cases address with
  | none => rfl
  | some canon => exact h.no_addresses canon

theorem Emits.no_scriptpubkeys_getD (h : Emits single buckets nonempty) (address : Option Text) :
    Value.get "multi-scriptpubkey-transactions".toList
      (.obj ((address.map single).getD [])) = none := by
  cases address with
  | none => rfl
  | some canon => exact h.no_scriptpubkeys canon

theorem listed_message (h : Emits single buckets nonempty)
    (hkey : state.matchKey sub = some key) (bucket : Bucket) :
    (state.message single buckets nonempty).toList.flatMap (sub.listed bucket) =
      (buckets key).get bucket := by
  rw [listed_of_message]
  unfold ClientState.fields
  cases sub with
  | address =>
    have hsingle : state.trackAddress = some key := hkey
    have haddresses : "multi-address-transactions".toList ≠ bucket.singleName := by
      cases bucket with
      | _ => decide
    have hscriptpubkeys : "multi-scriptpubkey-transactions".toList ≠
        bucket.singleName := by
      cases bucket with
      | _ => decide
    rw [Subscription.listed, get_obj_append, get_obj_append,
      get_emitMulti_of_ne _ _ haddresses, get_emitMulti_of_ne _ _ hscriptpubkeys,
      Option.or_none, Option.or_none, hsingle]
    exact h.single_eq key bucket
  | addresses original =>
    have hcanon : state.trackAddresses[original]? = some key := hkey
    rw [Subscription.listed, get_obj_append, get_obj_append, h.no_addresses_getD, Option.none_or,
      get_emitMulti_of_ne "multi-scriptpubkey-transactions".toList _ (by decide),
      Option.or_none, get_emitMulti]
    exact itemsOf_bucketsPerKey h (functional_toList _)
      (Std.ExtTreeMap.mem_toList_iff_getElem?_eq_some.mpr hcanon) bucket
  | scriptpubkey spk =>
    rcases Option.ite_none_right_eq_some.mp hkey with ⟨hspk, heq⟩
    cases heq
    rw [Subscription.listed, get_obj_append, get_obj_append,
      h.no_scriptpubkeys_getD, Option.none_or,
      get_emitMulti_of_ne "multi-address-transactions".toList _ (by decide),
      Option.none_or, get_emitMulti]
    exact itemsOf_bucketsPerKey h (functional_diagonal _) (List.mem_map_of_mem hspk) bucket

end Emitted

theorem listed_onMempool (hkey : state.matchKey sub = some key)
    (added removed : List Value) (bucket : Bucket) :
    (state.onMempool added removed).toList.flatMap (sub.listed bucket) =
      TxBuckets.get {
        mempool := matching key added
        confirmed := []
        removed := matching key removed } bucket := by
  refine listed_message ⟨?_, ?_, ?_, ?_⟩ hkey bucket
  · intro canon bucket
    rw [get_obj_append]
    cases bucket with
    | mempool =>
      rw [get_emitHits_of_ne "address-removed-transactions".toList _ (by decide), Option.or_none]
      exact itemsOf_emitHits _
    | confirmed =>
      rw [get_emitHits_of_ne "address-removed-transactions".toList _ (by decide),
        get_emitHits_of_ne "address-transactions".toList _ (by decide)]
      rfl
    | removed =>
      rw [get_emitHits_of_ne "address-transactions".toList _ (by decide), Option.none_or]
      exact itemsOf_emitHits _
  · intro canon
    rw [get_obj_append, get_emitHits_of_ne _ _ (by decide), get_emitHits_of_ne _ _ (by decide)]
    rfl
  · intro canon
    rw [get_obj_append, get_emitHits_of_ne _ _ (by decide), get_emitHits_of_ne _ _ (by decide)]
    rfl
  · intro canon hnonempty bucket
    simp only [Bool.or_eq_false_iff, Bool.not_eq_false', List.isEmpty_iff] at hnonempty
    cases bucket with
    | mempool => exact hnonempty.left
    | confirmed => rfl
    | removed => exact hnonempty.right

theorem listed_onBlock (hkey : state.matchKey sub = some key)
    (confirmed : List Value) (bucket : Bucket) :
    (state.onBlock confirmed).toList.flatMap (sub.listed bucket) =
      TxBuckets.get {
        mempool := []
        confirmed := matching key confirmed
        removed := [] } bucket := by
  refine listed_message ⟨?_, ?_, ?_, ?_⟩ hkey bucket
  · intro canon bucket
    cases bucket with
    | mempool =>
      rw [get_emitHits_of_ne _ _ (by decide)]
      rfl
    | confirmed => exact itemsOf_emitHits _
    | removed =>
      rw [get_emitHits_of_ne _ _ (by decide)]
      rfl
  · intro canon
    exact get_emitHits_of_ne _ _ (by decide)
  · intro canon
    exact get_emitHits_of_ne _ _ (by decide)
  · intro canon hnonempty bucket
    simp only [Bool.not_eq_false', List.isEmpty_iff] at hnonempty
    cases bucket with
    | mempool => rfl
    | confirmed => exact hnonempty
    | removed => rfl

end Messages

end Mwck
end Splora
