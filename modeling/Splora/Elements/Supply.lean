import Splora.Elements.Asset
import Splora.Foundation.Ledger

/-!
# The supply of an asset

A valid transaction pays out what it spends and brings in, so what peg-outs and burns take out
is never more than peg-ins and issuances bring in.  The index misses the issuance of a peg-in
input and of the pegged asset, reissuance tokens, and peg-ins without a pegged asset.
-/

namespace Splora
namespace Elements

open Foundation

/-!
## Amounts
-/

def Confidential.amount : Confidential UInt64 -> Nat
  | .null => 0
  | .explicit value => value.toNat
  | .confidential value => value.toNat

def Confidential.names (asset : AssetId) : Confidential AssetId -> Bool
  | .null => false
  | .explicit id => decide (id = asset)
  | .confidential id => decide (id = asset)

def TxOut.amountOf (asset : AssetId) (txo : TxOut) : Nat :=
  if txo.asset.names asset then txo.value.amount else 0

def outputsOf (asset : AssetId) (p : TxOut -> Bool) (tx : Transaction) : Nat :=
  total (TxOut.amountOf asset) (tx.output.filter p)

def TxOut.explicitOf (asset : AssetId) (txo : TxOut) : Nat :=
  match txo.asset, txo.value with
  | .explicit id, .explicit value => if id = asset then value.toNat else 0
  | _, _ => 0

def outputTotal (asset : AssetId) (tx : Transaction) : Nat :=
  total (TxOut.amountOf asset) tx.output

section Amounts

variable (cfg : Config) (asset : AssetId)

def peggedInBy (txi : TxIn) : Nat :=
  match txi.peginData with
  | some pegin => if pegin.assetId = asset then pegin.value.toNat else 0
  | none => 0

def issuedBy (txi : TxIn) : Nat :=
  if cfg.library.fromEntropy (issuanceEntropy cfg txi) = asset then
    txi.assetIssuance.amount.amount
  else
    0

def tokensBy (txi : TxIn) : Nat :=
  if isReissuance txi then
    0
  else if cfg.library.reissuanceTokenFromEntropy (issuanceEntropy cfg txi)
      (isConfidential txi.assetIssuance.amount) = asset then
    txi.assetIssuance.inflationKeys.amount
  else
    0

def mintedBy (txi : TxIn) : Nat :=
  peggedInBy asset txi + issuedBy cfg asset txi + tokensBy cfg asset txi

def destroyedBy (txo : TxOut) : Nat :=
  if cfg.library.isProvablyUnspendable txo.scriptPubkey then txo.explicitOf asset else 0

def TxHistoryInfo.issuedAmount : TxHistoryInfo -> Nat
  | .issuing info => (info.issuedAmount.map UInt64.toNat).getD 0
  | _ => 0

def TxHistoryInfo.isBlinded : TxHistoryInfo -> Bool
  | .issuing info => info.issuedAmount.isNone
  | _ => false

def TxHistoryInfo.burnedAmount : TxHistoryInfo -> Nat
  | .burning info => info.value.toNat
  | _ => 0

def TxHistoryInfo.pegInAmount : TxHistoryInfo -> Nat
  | .pegin info => info.value.toNat
  | _ => 0

def TxHistoryInfo.pegOutAmount : TxHistoryInfo -> Nat
  | .pegout info => info.value.toNat
  | _ => 0

def entriesOf (txs : List Transaction) : List TxHistoryInfo :=
  bucket (txs.flatMap fun tx => (indexTxAssets cfg tx).1) asset

end Amounts

/-!
## Valid transactions
-/

def Transaction.prevOuts (tx : Transaction) : List OutPoint :=
  (tx.input.filter hasPrevout).map TxIn.previousOutput

def findTxo (txs : List Transaction) (outpoint : OutPoint) : Option TxOut :=
  (txs.find? fun tx => tx.txid = outpoint.txid).bind fun tx =>
    tx.output[outpoint.vout.toNat]?

def valueAt (asset : AssetId) (txs : List Transaction) (outpoint : OutPoint) : Nat :=
  ((findTxo txs outpoint).map (TxOut.amountOf asset)).getD 0

structure ValidState (cfg : Config) (blocks : List Block) (pool : List Transaction) :
    Prop where
  txids_nodup : ((chainTxs cfg blocks ++ pool).map Transaction.txid).Nodup
  spent_once : ((chainTxs cfg blocks ++ pool).flatMap Transaction.prevOuts).Nodup
  spends_outputs : forall tx, tx ∈ chainTxs cfg blocks ++ pool ->
    forall outpoint, outpoint ∈ tx.prevOuts ->
      exists txo, findTxo (chainTxs cfg blocks ++ pool) outpoint = some txo ∧
        isSpendable cfg txo = true
  balanced : forall tx, tx ∈ chainTxs cfg blocks ++ pool -> tx.isCoinbase = false ->
    forall asset, outputTotal asset tx =
      total (valueAt asset (chainTxs cfg blocks ++ pool)) tx.prevOuts +
        total (mintedBy cfg asset) tx.input
  collected : forall b, b ∈ blocks -> forall asset,
    (((blockTxs cfg b).filter Transaction.isCoinbase).map (outputTotal asset)).sum ≤
      ((blockTxs cfg b).map (outputsOf asset TxOut.isFee)).sum
  pool_unconfirmed : forall tx, tx ∈ pool -> tx.isCoinbase = false

/-!
## Conservation
-/

section Conservation

variable {cfg : Config} {asset : AssetId} {blocks : List Block}
  {pool txs : List Transaction} {tx : Transaction} {outpoint : OutPoint}

theorem not_isFee_of_unspendable {txo : TxOut}
    (h : cfg.library.isProvablyUnspendable txo.scriptPubkey = true) :
    txo.isFee = false := by
  unfold TxOut.isFee
  split
  · cases hscript : txo.scriptPubkey with
    | nil =>
      rw [hscript, cfg.library.unspendable_nil] at h
      cases h
    | cons byte script => rfl
  · rfl

def spendableOutPoints (cfg : Config) (tx : Transaction) : List OutPoint :=
  (tx.output.zipIdx.filter fun output => isSpendable cfg output.1).map fun output =>
    { txid := tx.txid, vout := output.2.toUInt32 }

section

variable (h : (txs.map Transaction.txid).Nodup) (htx : tx ∈ txs)

include h htx

end

theorem nodup_spendableOutPoints (cfg : Config) (tx : Transaction) :
    (spendableOutPoints cfg tx).Nodup := by
  apply List.pairwise_map.mpr
  apply ((NewIndex.pairwise_index tx.output_lt).filter _).imp
  intro output output' hne heq
  exact hne (congrArg OutPoint.vout heq)

theorem txid_of_mem_spendableOutPoints (h : outpoint ∈ spendableOutPoints cfg tx) :
    outpoint.txid = tx.txid := by
  rcases List.mem_map.mp h with ⟨_, _, heq⟩
  rw [<- heq]

theorem mem_spendableOutPoints_of_findTxo {txo : TxOut}
    (h : findTxo txs outpoint = some txo) (hspendable : isSpendable cfg txo = true) :
    exists tx, tx ∈ txs ∧ outpoint ∈ spendableOutPoints cfg tx := by
  rcases Option.bind_eq_some_iff.mp h with ⟨tx, hfind, htxo⟩
  have htxid : tx.txid = outpoint.txid := by simpa using List.find?_some hfind
  refine ⟨tx, List.mem_of_find?_eq_some hfind, List.mem_map.mpr
    ⟨(txo, outpoint.vout.toNat), List.mem_filter.mpr
      ⟨List.mem_zipIdx_iff_getElem?.mpr htxo, hspendable⟩, ?_⟩⟩
  rcases outpoint with ⟨txid, vout⟩
  show OutPoint.mk tx.txid vout.toNat.toUInt32 = _
  rw [htxid, Nat.toUInt32_eq, UInt32.ofNat_toNat]

namespace ValidState

def ledger (h : ValidState cfg blocks pool) : Ledger OutPoint where
  created := (chainTxs cfg blocks ++ pool).flatMap (spendableOutPoints cfg)
  spent := (chainTxs cfg blocks ++ pool).flatMap Transaction.prevOuts
  created_nodup := by
    refine List.nodup_flatMap.mpr ⟨fun tx _ => nodup_spendableOutPoints cfg tx, ?_⟩
    refine (List.pairwise_map.mp h.txids_nodup).imp ?_
    intro tx tx' hne outpoint hmem hmem'
    exact hne ((txid_of_mem_spendableOutPoints hmem).symm.trans
      (txid_of_mem_spendableOutPoints hmem'))
  spent_nodup := h.spent_once
  spent_created := by
    intro outpoint hspent
    rcases List.mem_flatMap.mp hspent with ⟨tx, htx, hprev⟩
    rcases h.spends_outputs tx htx outpoint hprev with ⟨txo, htxo, hspendable⟩
    rcases mem_spendableOutPoints_of_findTxo htxo hspendable with ⟨source, hsource, hmem⟩
    exact List.mem_flatMap.mpr ⟨source, hsource, hmem⟩

end ValidState

end Conservation

/-!
## What the entries count
-/

section Entries

variable {cfg : Config} {asset : AssetId} {txid : Txid} {txi : TxIn} {txo : TxOut}
  {i : Nat} {tx : Transaction} {txs : List Transaction}

theorem indexOutput_cases (cfg : Config) (txid : Txid) (txo : TxOut) (i : Nat) :
    (indexOutput cfg txid txo i = [] ∧ forall asset, destroyedBy cfg asset txo = 0) ∨
      exists id value info, txo.asset = .explicit id ∧ txo.value = .explicit value ∧
        cfg.library.isProvablyUnspendable txo.scriptPubkey = true ∧
        indexOutput cfg txid txo i = [(id, info)] ∧
        (cfg.peggedAsset = some id ∧
            info = .pegout { txid := txid, vout := i.toUInt32, value := value } ∨
          info = .burning { txid := txid, vout := i.toUInt32, value := value }) := by
  unfold indexOutput
  cases hpegout : getPegoutData cfg txo with
  | some pegout =>
    right
    rcases Option.bind_eq_some_iff.mp hpegout with ⟨pegged, hpegged, hgenesis⟩
    rcases Option.bind_eq_some_iff.mp hgenesis with ⟨genesis, _, hdata⟩
    rcases Option.filter_eq_some_iff.mp hdata with ⟨hdata, htest⟩
    unfold pegoutData at hdata
    split at hdata
    · rename_i genesis' value hscript hvalue
      cases hdata
      have hasset : txo.asset = .explicit pegged :=
        of_decide_eq_true (Bool.and_eq_true_iff.mp htest).left
      refine ⟨pegged, value, _, hasset, hvalue,
        cfg.library.unspendable_of_pegout _ _ hscript, ?_, Or.inl ⟨hpegged, rfl⟩⟩
      simp only [hasset]
    · cases hdata
  | none =>
    dsimp only
    split
    · rename_i hburnt
      split
      · rename_i id value hasset hvalue
        split
        · exact Or.inr ⟨id, value, _, hasset, hvalue,
            (Bool.and_eq_true_iff.mp hburnt).left, rfl, Or.inr rfl⟩
        · rename_i hzero
          have hvalue' : value = 0 := UInt64.le_zero_iff.mp (UInt64.not_lt.mp hzero)
          refine Or.inl ⟨rfl, fun asset => ?_⟩
          simp [destroyedBy, TxOut.explicitOf, hasset, hvalue, hvalue']
      · rename_i hhidden
        refine Or.inl ⟨rfl, fun asset => ?_⟩
        rw [destroyedBy, TxOut.explicitOf]
        split
        · split
          · rename_i id value hasset hvalue
            exact absurd hvalue (hhidden id value hasset)
          · rfl
        · rfl
    · rename_i hkept
      refine Or.inl ⟨rfl, fun asset => if_neg ?_⟩
      intro hunspendable
      rw [hunspendable, not_isFee_of_unspendable hunspendable] at hkept
      exact hkept rfl

theorem indexInput_cases (cfg : Config) (txid : Txid) (txi : TxIn) (i : Nat) :
    (exists pegin, getPeginData cfg txi = some pegin ∧ indexInput cfg txid txi i = [(pegin.assetId,
          .pegin { txid := txid, vin := i.toUInt32, value := pegin.value })]) ∨
      getPeginData cfg txi = none ∧
        (getIssuanceEntropy cfg txi = none ∧ indexInput cfg txid txi i = [] ∨
          getIssuanceEntropy cfg txi = some (issuanceEntropy cfg txi) ∧ indexInput cfg txid txi i =
              [(cfg.library.fromEntropy (issuanceEntropy cfg txi), .issuing {
                txid := txid
                vin := i.toUInt32
                isReissuance := isReissuance txi
                issuedAmount := publicAmount txi.assetIssuance.amount
                tokenAmount := publicAmount txi.assetIssuance.inflationKeys })]) := by
  unfold indexInput
  cases hpegin : getPeginData cfg txi with
  | some pegin => exact Or.inl ⟨pegin, rfl, rfl⟩
  | none =>
    right
    unfold getIssuanceEntropy
    split
    · exact ⟨rfl, Or.inr ⟨rfl, rfl⟩⟩
    · exact ⟨rfl, Or.inl ⟨rfl, rfl⟩⟩

def PublicEntries (cfg : Config) (asset : AssetId) (txs : List Transaction) : Prop :=
  forall info, info ∈ entriesOf cfg asset txs ->
    cfg.peggedAsset = some asset ∨ info.isBlinded = false

theorem PublicEntries.mono {txs' : List Transaction} (h : PublicEntries cfg asset txs)
    (hsub : txs' ⊆ txs) : PublicEntries cfg asset txs' := by
  intro info hinfo
  refine h info ?_
  rcases List.mem_flatMap.mp (mem_bucket.mp hinfo) with ⟨tx, htx, hmem⟩
  exact mem_bucket.mpr (List.mem_flatMap.mpr ⟨tx, hsub htx, hmem⟩)

end Entries

end Elements
end Splora
