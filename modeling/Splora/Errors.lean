import Splora.Chain

/-!
# Aborts

The ways in which a modelled function ends without a result: the error kinds of
`src/errors.rs` and the panics.  The program is built with `panic = "abort"`, so a
panic ends the process.
-/

namespace Splora

inductive Abort where
  | badHeaders
  | missingHeader (hash : BlockHash)
  | notPartOfBlockchain (hash : BlockHash)
  | tipMismatch
  | unknownBlock (hash : BlockHash)
  | unknownHeight (height : Nat)
  | missingFromBlkFiles (count : Nat)
  | incompatibleDatabase
  | invalidChainTip
  | missingTxo (outpoint : OutPoint)
  | missingPreviousTxo (outpoint : OutPoint)
  | missingFromStore (hash : BlockHash)
  | missingBlockheader (height : Nat)
  | missingMempoolTx (txid : Txid)
  | missingTxFromTxstore (txid : Txid)
  | missingInput (index : UInt32)
  | tooManyUtxos (limit : UInt64)
  | tooManyTxs (limit : UInt64)
deriving DecidableEq, Repr

end Splora
