import Splora.Elements.AssetIndex

/-!
# The reported supply

`LiquidAsset::supply` counts a mempool transaction also after it, or a conflicting one, was
confirmed.
-/

namespace Splora
namespace Elements

open Foundation

/-!
## Differences
-/

section Supply

variable {cfg : Config} {asset : AssetId} {txs chain pool : List Transaction}
  {found : LiquidAsset} {reported : UInt64}

end Supply

namespace Sample

open NewIndex.Sample (header daemonOf)

def noIssuance : AssetIssuance where
  assetBlindingNonce := 0
  assetEntropy := 0
  amount := .null
  inflationKeys := .null

def peginTx : Transaction where
  txid := 1
  input := [{
    previousOutput := { txid := 100, vout := 0 }
    isPegin := true
    peginWitness := some { assetId := 7, value := 10 }
    assetIssuance := noIssuance }]
  output := [{ asset := .explicit 7, value := .explicit 10, scriptPubkey := [0x51] }]

def burnTx : Transaction where
  txid := 2
  input := [{
    previousOutput := { txid := 1, vout := 0 }
    isPegin := false
    peginWitness := none
    assetIssuance := noIssuance }]
  output := [{ asset := .explicit 7, value := .explicit 10, scriptPubkey := [0x6a] }]

def library : Library where
  elements tx :=
    if tx.txid = 1 then peginTx else if tx.txid = 2 then burnTx
    else { txid := tx.txid, input := [], output := [] }
  txid_elements := by
    intro tx
    split
    · rename_i h
      exact h.symm
    · split
      · rename_i h
        exact h.symm
      · rfl
  isProvablyUnspendable script := decide (script.head? = some 0x6a)
  pegoutGenesis _ := none
  generateAssetEntropy outpoint contractHash := outpoint.txid ^^^ contractHash
  fromEntropy entropy := entropy ^^^ 1
  reissuanceTokenFromEntropy entropy _ := entropy ^^^ 2
  unspendable_nil := rfl
  unspendable_of_pegout := nofun

def config : Config where
  indexer := NewIndex.Sample.config
  library := library
  peggedAsset := some 7
  parentGenesis := none

def read (txid : Txid) (prevout : OutPoint) (script : Script) : Splora.Transaction where
  txid := txid
  input := [{ previousOutput := prevout }]
  output := [{ value := 10, scriptPubkey := script }]
  raw := []
  weight := 400
  input_lt := by simp
  output_lt := by simp

def peginBlock : Block where
  header := header 1 nullHash
  txdata := [read 1 OutPoint.null [0x51]]
  size := 200
  weight := 800

def burnBlock : Block where
  header := header 2 1
  txdata := [read 2 { txid := 1, vout := 0 } [0x6a]]
  size := 200
  weight := 800

def tree : BlockTree :=
  BlockTree.ofList [peginBlock, burnBlock] (by decide) (by decide)

end Sample

end Elements
end Splora
