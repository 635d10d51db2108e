import Splora.Auth

/-!
# The Electrum server over two transports

JSON-RPC over the unix socket of a session, or single requests over HTTP.  Each transport has
its own table of methods and decoding of parameters.  Fees are exact rationals.
-/

namespace Splora
namespace Electrum

open Foundation

/-- A value of `serde_json`, with the numbers as it keeps them apart. -/
inductive Value where
  | null
  | bool (b : Bool)
  | unsigned (n : UInt64)
  | negative (n : Int)
  | float (q : Rat)
  | str (text : Text)
  | arr (items : List Value)
  | obj (fields : List (Text × Value))

namespace Value

def get (name : Text) : Value -> Option Value
  | obj fields => (fields.find? fun field => field.1 = name).map Prod.snd
  | _ => none

def asU64 : Value -> Option UInt64
  | unsigned n => some n
  | _ => none

def asBool : Value -> Option Bool
  | bool b => some b
  | _ => none

def asStr : Value -> Option Text
  | str text => some text
  | _ => none

def asArray : Value -> Option (List Value)
  | arr items => some items
  | _ => none

def asStrings : Value -> Option (List Text)
  | arr items => items.mapM asStr
  | _ => none

end Value

abbrev Error := Text

/-!
## What the handlers ask
-/

structure SubmitPackageResult where
  packageMsg : Text
  txErrors : List (Text × Text)
  json : Value

def SubmitPackageResult.intoElectrumResponse (result : SubmitPackageResult)
    (verbose : Bool) : Value :=
  if verbose then
    result.json
  else
    let success := Value.bool (result.packageMsg = "success".toList)
    let errors := result.txErrors.map fun (error, txid) =>
      Value.obj [("error".toList, .str error), ("txid".toList, .str txid)]
    if errors = [] then
      .obj [("success".toList, success)]
    else
      .obj [("success".toList, success), ("errors".toList, .arr errors)]

/-- The state behind both transports, and the answers of the daemon and the index. -/
structure Query where
  electrumBanner : Text
  regtest : Bool
  cachedRelayfee : Option Rat
  daemonRelayfee : Except Error Rat
  cachedEstimates : UInt16 -> Option Rat
  estimatesFresh : Bool
  daemonEstimates : Option (UInt16 -> Option Rat)
  broadcastRaw : Text -> Except Error Text
  submitPackage : List Text -> Except Error SubmitPackageResult
  lookupRawTxn : Txid -> Option (List UInt8)
  feeHistogram : Value
  parseHash : Text -> Option FullHash

def Query.getRelayfee (query : Query) : Except Error Rat :=
  match query.cachedRelayfee with
  | some cached => .ok cached
  | none => query.daemonRelayfee

def Query.estimateFee (query : Query) (confTarget : UInt16) : Option Rat :=
  if query.regtest then
    query.getRelayfee.toOption
  else if query.estimatesFresh then
    query.cachedEstimates confTarget
  else
    (query.daemonEstimates.getD query.cachedEstimates) confTarget

/-!
## Parameters
-/

def hashFromValue (query : Query) (val : Option Value) : Except Error FullHash := do
  let scriptHash <- expect val "missing hash".toList
  let scriptHash <- expect scriptHash.asStr "non-string hash".toList
  expect (query.parseHash scriptHash) "non-hex hash".toList

def usizeFromValue (val : Option Value) (name : Text) : Except Error UInt64 := do
  let val <- expect val ("missing ".toList ++ name)
  expect val.asU64 ("non-integer ".toList ++ name)

def boolFromValue (val : Option Value) (name : Text) : Except Error Bool := do
  let val <- expect val ("missing ".toList ++ name)
  expect val.asBool ("not a bool ".toList ++ name)

def boolFromValueOr (val : Option Value) (name : Text) (default : Bool) :
    Except Error Bool :=
  if val.isNone then .ok default else boolFromValue val name

def packageParam (params : List Value) : Except Error (List Text) := do
  let txs <- expect params[0]? "missing transactions".toList
  expect txs.asStrings "non-array transactions".toList

def chainErr {α : Type} (x : Except Error α) (message : Text) : Except Error α :=
  expect x.toOption message

/-!
## Methods
-/

inductive Method where
  | blockHeader
  | blockHeaders
  | estimatefee
  | headersSubscribe
  | relayfee
  | scripthashGetBalance
  | scripthashGetHistory
  | scripthashListunspent
  | scripthashSubscribe
  | scripthashUnsubscribe
  | transactionBroadcast
  | transactionBroadcastPackage
  | transactionGet
  | transactionGetMerkle
  | transactionIdFromPos
  | getFeeHistogram
  | banner
  | donationAddress
  | peersSubscribe
  | ping
  | version
  | features
deriving DecidableEq, Repr

namespace Method

def name : Method -> Text
  | blockHeader => "blockchain.block.header".toList
  | blockHeaders => "blockchain.block.headers".toList
  | estimatefee => "blockchain.estimatefee".toList
  | headersSubscribe => "blockchain.headers.subscribe".toList
  | relayfee => "blockchain.relayfee".toList
  | scripthashGetBalance => "blockchain.scripthash.get_balance".toList
  | scripthashGetHistory => "blockchain.scripthash.get_history".toList
  | scripthashListunspent => "blockchain.scripthash.listunspent".toList
  | scripthashSubscribe => "blockchain.scripthash.subscribe".toList
  | scripthashUnsubscribe => "blockchain.scripthash.unsubscribe".toList
  | transactionBroadcast => "blockchain.transaction.broadcast".toList
  | transactionBroadcastPackage =>
    "blockchain.transaction.broadcast_package".toList
  | transactionGet => "blockchain.transaction.get".toList
  | transactionGetMerkle => "blockchain.transaction.get_merkle".toList
  | transactionIdFromPos => "blockchain.transaction.id_from_pos".toList
  | getFeeHistogram => "mempool.get_fee_histogram".toList
  | banner => "server.banner".toList
  | donationAddress => "server.donation_address".toList
  | peersSubscribe => "server.peers.subscribe".toList
  | ping => "server.ping".toList
  | version => "server.version".toList
  | features => "server.features".toList

def all : List Method :=
  [blockHeader, blockHeaders, estimatefee, headersSubscribe, relayfee,
    scripthashGetBalance, scripthashGetHistory, scripthashListunspent,
    scripthashSubscribe, scripthashUnsubscribe, transactionBroadcast,
    transactionBroadcastPackage, transactionGet, transactionGetMerkle,
    transactionIdFromPos, getFeeHistogram, banner, donationAddress, peersSubscribe,
    ping, version, features]

def ofName (text : Text) : Option Method :=
  all.find? fun method => method.name = text

end Method

inductive JsonRpcV2Error where
  | parseError
  | invalidRequest
  | methodNotFound
  | internalError
deriving DecidableEq, Repr

inductive Response where
  | result (id : Value) (result : Value)
  | error (id : Option Value) (code : JsonRpcV2Error) (message : Text)

def Response.value : Response -> Option Value
  | result _ value => some value
  | error _ _ _ => none

def Response.ofResult (id : Value) (code : JsonRpcV2Error) :
    Except Error Value -> Response
  | .ok value => .result id value
  | .error e => .error (some id) code e

def notFound (method : Text) : Error :=
  "Method ".toList ++ method ++ " not found".toList

def serverVersion (versionString : Text) : Value :=
  .arr [.str versionString, .str "1.4".toList]

/-!
## The socket
-/

/-- A session.  The methods that only the socket serves, and the subscriptions, are
parameters. -/
structure Connection where
  query : Query
  versionString : Text
  own : Method -> List Value -> Except Error Value

namespace Connection

def blockchainEstimatefee (conn : Connection) (params : List Value) :
    Except Error Value := do
  let confTarget <- usizeFromValue params[0]? "blocks_count".toList
  let feeRate <- expect (conn.query.estimateFee confTarget.toUInt16)
    ("cannot estimate fee for ".toList ++ (toString confTarget.toNat).toList ++ " blocks".toList)
  pure (.float (feeRate / 100000))

def blockchainRelayfee (conn : Connection) : Except Error Value := do
  let relayfee <- conn.query.getRelayfee
  pure (.float (relayfee / 100000))

def blockchainTransactionBroadcast (conn : Connection) (params : List Value) :
    Except Error Value := do
  let tx <- expect params[0]? "missing tx".toList
  let tx <- expect tx.asStr "non-string tx".toList
  let txid <- conn.query.broadcastRaw tx
  pure (.str txid)

def blockchainTransactionBroadcastPackage (conn : Connection)
    (params : List Value) : Except Error Value := do
  let txhexes <- packageParam params
  let verbose <- boolFromValueOr params[1]? "verbose".toList false
  let result <- conn.query.submitPackage txhexes
  pure (result.intoElectrumResponse verbose)

/-- The optional second parameter; only the absent or false one is supported. -/
def verboseParam : Option Value -> Except Error Bool
  | some value => expect value.asBool "non-bool verbose value".toList
  | none => .ok false

def blockchainTransactionGet (conn : Connection) (params : List Value) :
    Except Error Value := do
  let hash <- chainErr (hashFromValue conn.query params[0]?) "bad tx_hash".toList
  let verbose <- verboseParam params[1]?
  ensure (verbose = false) "verbose transactions are currently unsupported".toList
  let tx <- expect (conn.query.lookupRawTxn hash) "missing transaction".toList
  pure (.str (Auth.hexEncode tx))

def methodResult (conn : Connection) (params : List Value) :
    Method -> Except Error Value
  | .estimatefee => conn.blockchainEstimatefee params
  | .relayfee => conn.blockchainRelayfee
  | .transactionBroadcast => conn.blockchainTransactionBroadcast params
  | .transactionBroadcastPackage => conn.blockchainTransactionBroadcastPackage params
  | .transactionGet => conn.blockchainTransactionGet params
  | .getFeeHistogram => .ok conn.query.feeHistogram
  | .banner => .ok (.str conn.query.electrumBanner)
  | .donationAddress => .ok .null
  | .ping => .ok .null
  | .version => .ok (serverVersion conn.versionString)
  | method => conn.own method params

def handleCommand (conn : Connection) (method : Text) (params : List Value)
    (id : Value) : Response :=
  match Method.ofName method with
  | some known => .ofResult id .internalError (conn.methodResult params known)
  | none => .error (some id) .methodNotFound (notFound method)

end Connection

/-!
## HTTP
-/

/-- The fee as it is, or `-1` if there is no estimate. -/
def httpEstimatefee (query : Query) (params : List Value) : Except Error Value :=
  (usizeFromValue params[0]? "blocks".toList).map fun blocks =>
    .float ((query.estimateFee blocks.toUInt16).getD (-1))

def httpBroadcast (query : Query) (params : List Value) : Except Error Value := do
  let tx <- expect params[0]? "missing tx".toList
  let tx <- expect tx.asStr "non-string tx".toList
  (query.broadcastRaw tx).map .str

def httpBroadcastPackage (query : Query) (params : List Value) :
    Except Error Value :=
  match packageParam params, boolFromValueOr params[1]? "verbose".toList false with
  | .ok txhexes, .ok verbose =>
    (query.submitPackage txhexes).map fun result =>
      result.intoElectrumResponse verbose
  | .error e, _ => .error e
  | _, .error e => .error e

def httpTransactionGet (query : Query) (params : List Value) : Except Error Value :=
  match hashFromValue query params[0]? with
  | .ok txHash =>
    expect ((query.lookupRawTxn txHash).map fun tx => .str (Auth.hexEncode tx))
      "missing transaction".toList
  | .error e => .error e

def subscriptionsUnavailable : Error :=
  ("subscriptions are not available over HTTP JSON-RPC; " ++ "use the unix socket").toList

def httpMethodResult (query : Query) (versionString : Text) (params : List Value) :
    Method -> Option (JsonRpcV2Error × Except Error Value)
  | .version => some (.internalError, .ok (serverVersion versionString))
  | .banner => some (.internalError, .ok (.str query.electrumBanner))
  | .ping => some (.internalError, .ok .null)
  | .donationAddress => some (.internalError, .ok .null)
  | .relayfee => some (.internalError, query.getRelayfee.map .float)
  | .estimatefee => some (.internalError, httpEstimatefee query params)
  | .transactionBroadcast => some (.internalError, httpBroadcast query params)
  | .transactionBroadcastPackage =>
    some (.internalError, httpBroadcastPackage query params)
  | .transactionGet => some (.internalError, httpTransactionGet query params)
  | .getFeeHistogram => some (.internalError, .ok query.feeHistogram)
  | .headersSubscribe => some (.invalidRequest, .error subscriptionsUnavailable)
  | .scripthashSubscribe => some (.invalidRequest, .error subscriptionsUnavailable)
  | _ => none

def handleHttpCommand (query : Query) (versionString : Text) (method : Text)
    (params : List Value) (id : Value) : Response :=
  match (Method.ofName method).bind (httpMethodResult query versionString params) with
  | some (code, result) => .ofResult id code result
  | none => .error (some id) .methodNotFound (notFound method)

/-!
## Requests
-/

/-- `display` is the text of the request in the error. -/
def handleRequest (display : Value -> Text)
    (command : Text -> List Value -> Value -> Response) (value : Value) : Response :=
  match value.get "method".toList, (value.get "params".toList).getD (.arr []),
      value.get "id".toList with
  | some (.str method), .arr params, some id => command method params id
  | _, _, some id => .error (some id) .invalidRequest (display value)
  | _, _, none => .error none .invalidRequest (display value)

def Connection.handleValue (conn : Connection) (display : Value -> Text)
    (value : Value) : Response :=
  handleRequest display conn.handleCommand value

def handleHttpJsonrpcValue (query : Query) (versionString : Text)
    (display : Value -> Text) (value : Value) : Response :=
  handleRequest display (handleHttpCommand query versionString) value

end Electrum
end Splora
