import Splora.Electrum.Server

/-!
# Where the two transports differ

Fees differ in their unit, an unknown fee is an error on one side only, and only the socket
looks at the second parameter of a transaction request.
-/

namespace Splora
namespace Electrum

open Foundation

def Method.shared : Method -> Bool
  | estimatefee | relayfee | transactionBroadcast | transactionBroadcastPackage |
    transactionGet | getFeeHistogram | banner | donationAddress | ping | version => true
  | _ => false

theorem ofName_all :
    forall method, method ∈ Method.all -> Method.ofName method.name = some method := by
  decide +kernel

theorem ofName_name (method : Method) : Method.ofName method.name = some method := by
  apply ofName_all
  cases method <;> decide

/-!
## Results without their messages
-/

section Results

variable {α β : Type}

theorem toOption_bind (x : Except Error α) (f : α -> Except Error β) :
    (x >>= f).toOption = x.toOption.bind fun a => (f a).toOption := by
  cases x with
  | error e => rfl
  | ok a => rfl

theorem toOption_map (x : Except Error α) (f : α -> β) : (x.map f).toOption = x.toOption.map f := by
  cases x with
  | error e => rfl
  | ok a => rfl

theorem toOption_expect (x : Option α) (e : Error) : (expect x e).toOption = x := by
  cases x with
  | none => rfl
  | some a => rfl

theorem toOption_pure (a : α) : (pure a : Except Error α).toOption = some a := rfl

theorem toOption_chainErr (x : Except Error α) (message : Text) :
    (chainErr x message).toOption = x.toOption :=
  toOption_expect x.toOption message

theorem value_ofResult (id : Value) (code : JsonRpcV2Error) (result : Except Error Value) :
    (Response.ofResult id code result).value = result.toOption := by
  cases result with
  | error e => rfl
  | ok value => rfl

theorem toOption_usizeFromValue (val : Option Value) (name : Text) :
    (usizeFromValue val name).toOption = val.bind Value.asU64 := by
  rw [usizeFromValue, toOption_bind, toOption_expect]
  simp only [toOption_expect]

end Results

/-!
## Method by method
-/

def AgreesOn (query : Query) (params : List Value) : Method -> Prop
  | .relayfee => forall fee, query.getRelayfee = .ok fee -> fee = 0
  | .estimatefee => forall blocks, params[0]?.bind Value.asU64 = some blocks ->
      query.estimateFee blocks.toUInt16 = some 0
  | .transactionGet => forall hash tx, hashFromValue query params[0]? = .ok hash ->
      query.lookupRawTxn hash = some tx -> params[1]? = none ∨ params[1]? = some (.bool false)
  | _ => True

section Methods

variable {conn : Connection} {params : List Value}

theorem float_div_eq_iff (fee : Rat) :
    Value.float (fee / 100000) = Value.float fee <-> fee = 0 := by
  rw [Value.float.injEq]
  constructor
  · intro h
    linarith
  · intro h
    rw [h, zero_div]

theorem relayfee_agrees :
    conn.blockchainRelayfee.toOption = (conn.query.getRelayfee.map Value.float).toOption <->
      AgreesOn conn.query params .relayfee := by
  unfold Connection.blockchainRelayfee AgreesOn
  cases conn.query.getRelayfee with
  | error e => exact iff_of_true rfl nofun
  | ok fee =>
    show some (Value.float (fee / 100000)) = some (Value.float fee) <-> _
    rw [Option.some_inj, float_div_eq_iff]
    constructor
    · intro h fee' hfee'
      rw [<- Except.ok.inj hfee']
      exact h
    · intro h
      exact h fee rfl

theorem estimatefee_agrees :
    (conn.blockchainEstimatefee params).toOption = (httpEstimatefee conn.query params).toOption <->
      AgreesOn conn.query params .estimatefee := by
  unfold Connection.blockchainEstimatefee httpEstimatefee AgreesOn
  rw [toOption_bind, toOption_map, toOption_usizeFromValue, toOption_usizeFromValue]
  simp only [toOption_bind, toOption_expect, toOption_pure]
  cases params[0]?.bind Value.asU64 with
  | none => exact iff_of_true rfl nofun
  | some blocks =>
    show ((conn.query.estimateFee blocks.toUInt16).bind fun feeRate =>
      some (Value.float (feeRate / 100000))) = some (Value.float _) <-> _
    have hcondition : (forall blocks', some blocks = some blocks' ->
        conn.query.estimateFee blocks'.toUInt16 = some 0) <->
        conn.query.estimateFee blocks.toUInt16 = some 0 := by
      constructor
      · intro h
        exact h blocks rfl
      · intro h blocks' heq
        rw [<- Option.some.inj heq]
        exact h
    rw [hcondition]
    cases conn.query.estimateFee blocks.toUInt16 with
    | none => exact iff_of_false nofun nofun
    | some fee =>
      show some (Value.float (fee / 100000)) = some (Value.float fee) <-> _
      rw [Option.some_inj, float_div_eq_iff, Option.some_inj]

theorem verboseParam_false (value : Option Value) :
    Connection.verboseParam value = .ok false <-> value = none ∨ value = some (.bool false) := by
  cases value with
  | none => simp [Connection.verboseParam]
  | some value =>
    cases value with
    | bool b => cases b <;> simp [Connection.verboseParam, Value.asBool, expect]
    | _ => simp [Connection.verboseParam, Value.asBool, expect]

def rawTransaction (query : Query) (params : List Value) : Option Value :=
  (hashFromValue query params[0]?).toOption.bind fun hash =>
    (query.lookupRawTxn hash).map fun tx => .str (Auth.hexEncode tx)

theorem rawTransaction_of_ok {query : Query} {hash : FullHash}
    (h : hashFromValue query params[0]? = .ok hash) :
    rawTransaction query params =
      (query.lookupRawTxn hash).map fun tx => .str (Auth.hexEncode tx) := by
  unfold rawTransaction
  rw [h]
  rfl

theorem rawTransaction_of_error {query : Query} {e : Error}
    (h : hashFromValue query params[0]? = .error e) :
    rawTransaction query params = none := by
  unfold rawTransaction
  rw [h]
  rfl

theorem httpTransactionGet_eq (query : Query) (params : List Value) :
    (httpTransactionGet query params).toOption = rawTransaction query params := by
  unfold httpTransactionGet
  cases hhash : hashFromValue query params[0]? with
  | error e =>
    rw [rawTransaction_of_error hhash]
    rfl
  | ok hash =>
    rw [rawTransaction_of_ok hhash]
    exact toOption_expect _ _

theorem blockchainTransactionGet_eq :
    (conn.blockchainTransactionGet params).toOption =
      if Connection.verboseParam params[1]? = .ok false then
        rawTransaction conn.query params
      else none := by
  unfold Connection.blockchainTransactionGet
  rw [toOption_bind, toOption_chainErr]
  cases hhash : hashFromValue conn.query params[0]? with
  | error e =>
    rw [rawTransaction_of_error hhash, ite_self]
    rfl
  | ok hash =>
    rw [rawTransaction_of_ok hhash]
    show (Connection.verboseParam params[1]? >>= _).toOption = _
    cases Connection.verboseParam params[1]? with
    | error e => rfl
    | ok verbose =>
      cases verbose with
      | true => rfl
      | false =>
        rw [if_pos rfl]
        show (expect (conn.query.lookupRawTxn hash) _ >>= _).toOption = _
        rw [toOption_bind, toOption_expect]
        cases conn.query.lookupRawTxn hash with
        | none => rfl
        | some tx => rfl

theorem transactionGet_agrees :
    (conn.blockchainTransactionGet params).toOption =
        (httpTransactionGet conn.query params).toOption <->
      AgreesOn conn.query params .transactionGet := by
  rw [blockchainTransactionGet_eq, httpTransactionGet_eq, AgreesOn]
  by_cases hverbose : Connection.verboseParam params[1]? = .ok false
  · rw [if_pos hverbose]
    exact iff_of_true rfl fun _ _ _ _ => (verboseParam_false _).mp hverbose
  · rw [if_neg hverbose]
    have hnot : ¬ (params[1]? = none ∨ params[1]? = some (.bool false)) :=
      fun h => hverbose ((verboseParam_false _).mpr h)
    constructor
    · intro h hash tx hhash htx
      rw [rawTransaction_of_ok hhash, htx] at h
      cases h
    · intro h
      cases hhash : hashFromValue conn.query params[0]? with
      | error e => rw [rawTransaction_of_error hhash]
      | ok hash =>
        rw [rawTransaction_of_ok hhash]
        cases htx : conn.query.lookupRawTxn hash with
        | none => rfl
        | some tx => exact absurd (h hash tx hhash htx) hnot

theorem broadcast_eq :
    conn.blockchainTransactionBroadcast params = httpBroadcast conn.query params := by
  unfold Connection.blockchainTransactionBroadcast httpBroadcast
  cases params[0]? with
  | none => rfl
  | some tx => rfl

theorem broadcastPackage_eq :
    conn.blockchainTransactionBroadcastPackage params = httpBroadcastPackage conn.query params := by
  unfold Connection.blockchainTransactionBroadcastPackage httpBroadcastPackage
  cases packageParam params with
  | error e => rfl
  | ok txhexes =>
    cases boolFromValueOr params[1]? "verbose".toList false with
    | error e => rfl
    | ok verbose => rfl

end Methods

/-!
## Requests
-/

section Requests

variable {conn : Connection} {params : List Value} {method : Method}

theorem methodResult_agrees (h : method.shared = true) :
    (conn.methodResult params method).toOption =
        ((httpMethodResult conn.query conn.versionString params method).bind
          fun entry => entry.2.toOption) <->
      AgreesOn conn.query params method := by
  cases method with
  | relayfee => exact relayfee_agrees
  | estimatefee => exact estimatefee_agrees
  | transactionGet => exact transactionGet_agrees
  | transactionBroadcast =>
    exact iff_of_true (congrArg Except.toOption broadcast_eq) trivial
  | transactionBroadcastPackage =>
    exact iff_of_true (congrArg Except.toOption broadcastPackage_eq) trivial
  | getFeeHistogram => exact iff_of_true rfl trivial
  | banner => exact iff_of_true rfl trivial
  | donationAddress => exact iff_of_true rfl trivial
  | ping => exact iff_of_true rfl trivial
  | version => exact iff_of_true rfl trivial
  | _ => cases h

theorem value_handleCommand (conn : Connection) (params : List Value)
    (method : Method) (id : Value) :
    (conn.handleCommand method.name params id).value =
      (conn.methodResult params method).toOption := by
  unfold Connection.handleCommand
  rw [ofName_name]
  exact value_ofResult _ _ _

theorem value_handleHttpCommand (query : Query) (versionString : Text)
    (params : List Value) (method : Method) (id : Value) :
    (handleHttpCommand query versionString method.name params id).value =
      (httpMethodResult query versionString params method).bind fun entry => entry.2.toOption := by
  unfold handleHttpCommand
  rw [ofName_name, Option.bind_some]
  cases httpMethodResult query versionString params method with
  | none => rfl
  | some entry => exact value_ofResult _ _ _

/-- The request is well formed, with these parameters. -/
def HasParams (value : Value) (params : List Value) : Prop :=
  (value.get "params".toList).getD (.arr []) = .arr params ∧ value.get "id".toList ≠ none

/-- The transports agree on a request exactly if the method does on its parameters; a request that
is not well formed is an error on both. -/
theorem transports_agree_iff (conn : Connection) (display : Value -> Text)
    (value : Value) (method : Method) (hshared : method.shared = true)
    (hmethod : value.get "method".toList = some (.str method.name)) :
    (conn.handleValue display value).value =
        (handleHttpJsonrpcValue conn.query conn.versionString display value).value <->
      forall params, HasParams value params -> AgreesOn conn.query params method := by
  unfold Connection.handleValue handleHttpJsonrpcValue handleRequest HasParams
  rw [hmethod]
  generalize (value.get "params".toList).getD (.arr []) = given
  cases value.get "id".toList with
  | none =>
    have hnone : forall params, ¬ (given = .arr params ∧
        (none : Option Value) ≠ none) := fun _ h => h.right rfl
    cases given <;> exact iff_of_true rfl fun params h => absurd h (hnone params)
  | some id =>
    cases given with
    | arr items =>
      show (conn.handleCommand method.name items id).value =
        (handleHttpCommand conn.query conn.versionString method.name items id).value <-> _
      rw [value_handleCommand, value_handleHttpCommand, methodResult_agrees hshared]
      constructor
      · intro h params hparams
        rw [<- Value.arr.inj hparams.left]
        exact h
      · intro h
        exact h items ⟨rfl, nofun⟩
    | _ => exact iff_of_true rfl fun _ h => nomatch h.left

end Requests

namespace Sample

def query : Query where
  electrumBanner := []
  regtest := false
  cachedRelayfee := some 1
  daemonRelayfee := .error []
  cachedEstimates _ := none
  estimatesFresh := true
  daemonEstimates := none
  broadcastRaw _ := .error []
  submitPackage _ := .error []
  lookupRawTxn _ := some [0xab]
  feeHistogram := .arr []
  parseHash _ := some 0

def connection : Connection where
  query := query
  versionString := []
  own _ _ := .error []

def request (method : Method) (params : List Value) : Value :=
  .obj [("method".toList, .str method.name), ("params".toList, .arr params), ("id".toList, .null)]

def display (_ : Value) : Text :=
  []

theorem socket_value (method : Method) (params : List Value) :
    (connection.handleValue display (request method params)).value =
      (connection.methodResult params method).toOption :=
  value_handleCommand connection params method .null

theorem http_value (method : Method) (params : List Value) :
    (handleHttpJsonrpcValue query [] display (request method params)).value =
      (httpMethodResult query [] params method).bind fun entry => entry.2.toOption :=
  value_handleHttpCommand query [] params method .null

theorem transaction_same_on_both :
    Method.shared .transactionGet = true ∧
      (connection.handleValue display (request .transactionGet [.str []])).value =
        (handleHttpJsonrpcValue query [] display (request .transactionGet [.str []])).value := by
  refine ⟨rfl, (transports_agree_iff connection display
    (request .transactionGet [.str []]) .transactionGet rfl rfl).mpr ?_⟩
  intro params hparams
  have heq : [Value.str []] = params := Value.arr.inj hparams.left
  rw [<- heq]
  intro _ _ _ _
  exact Or.inl rfl

theorem transports_differ :
    (connection.handleValue display (request .relayfee [])).value = some (.float (1 / 100000)) ∧
      (handleHttpJsonrpcValue query [] display (request .relayfee [])).value = some (.float 1) ∧
      (connection.handleValue display (request .relayfee [])).value ≠
        (handleHttpJsonrpcValue query [] display (request .relayfee [])).value ∧
      (connection.handleValue display (request .estimatefee [.unsigned 1])).value = none ∧
      (handleHttpJsonrpcValue query [] display
        (request .estimatefee [.unsigned 1])).value = some (.float (-1)) ∧
      (connection.handleValue display
        (request .transactionGet [.str [], .bool true])).value = none ∧
      (handleHttpJsonrpcValue query [] display
        (request .transactionGet [.str [], .bool true])).value = some (.str "ab".toList) := by
  have hunits : (Value.float (1 / 100000)) ≠ .float 1 := by
    rw [ne_eq, float_div_eq_iff]
    exact one_ne_zero
  simp only [socket_value, http_value]
  exact ⟨rfl, rfl, fun h => hunits (Option.some.inj h), rfl, rfl, rfl, rfl⟩

end Sample

end Electrum
end Splora
