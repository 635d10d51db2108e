import Splora.Foundation.Ledger
import Splora.NewIndex.MempoolCalls
import Splora.NewIndex.Unspent

/-!
# Amounts

The outputs of a valid chain and a mempool on top of it are a ledger whose unspent value is
bounded by the sum of the subsidies, which fits in an `i64`.
-/

namespace Splora
namespace NewIndex

open Foundation

/-!
## Transactions as a ledger
-/

def Transaction.outPoints (tx : Transaction) : List OutPoint :=
  (List.range tx.output.length).map fun i => { txid := tx.txid, vout := i.toUInt32 }

def Transaction.prevOuts (tx : Transaction) : List OutPoint :=
  (tx.input.filter hasPrevout).map TxIn.previousOutput

def TxCommitments.value (L : TxCommitments) (outpoint : OutPoint) : Nat :=
  ((L.txo outpoint).map fun txo => txo.value.toNat).getD 0

def outputTotal (tx : Transaction) : Nat :=
  (tx.output.map fun txo => txo.value.toNat).sum

def inputTotal (L : TxCommitments) (tx : Transaction) : Nat :=
  total L.value (Transaction.prevOuts tx)

structure ValidTxs (L : TxCommitments) (cfg : IndexerConfig)
    (txs : List Transaction) : Prop where
  txids_nodup : (txs.map Transaction.txid).Nodup
  committed : forall tx, tx ∈ txs -> L.Has tx
  spent_once : (txs.flatMap Transaction.prevOuts).Nodup
  spends_outputs : forall tx, tx ∈ txs -> forall outpoint, outpoint ∈ Transaction.prevOuts tx ->
      outpoint.txid ∈ txs.map Transaction.txid ∧
        exists txo, L.txo outpoint = some txo ∧ cfg.isSpendable txo = true

section Outputs

variable {L : TxCommitments} {cfg : IndexerConfig} {tx : Transaction}
  {txs : List Transaction} {outpoint : OutPoint}

theorem mem_outPoints :
    outpoint ∈ Transaction.outPoints tx <->
      exists (i : Nat) (txo : TxOut), tx.output[i]? = some txo ∧
        outpoint = { txid := tx.txid, vout := i.toUInt32 } := by
  rw [Transaction.outPoints, List.mem_map]
  constructor
  · intro h
    rcases h with ⟨i, hi, heq⟩
    exact ⟨i, _, List.getElem?_eq_getElem (List.mem_range.mp hi), heq.symm⟩
  · intro h
    rcases h with ⟨i, txo, htxo, heq⟩
    exact ⟨i, List.mem_range.mpr (List.getElem?_eq_some_iff.mp htxo).1, heq.symm⟩

theorem mem_prevOuts :
    outpoint ∈ Transaction.prevOuts tx <->
      exists txi, txi ∈ tx.input ∧ hasPrevout txi = true ∧ txi.previousOutput = outpoint := by
  rw [Transaction.prevOuts, List.mem_map]
  constructor
  · intro h
    rcases h with ⟨txi, htxi, heq⟩
    exact ⟨txi, (List.mem_filter.mp htxi).left, (List.mem_filter.mp htxi).right, heq⟩
  · intro h
    rcases h with ⟨txi, htxi, hprevout, heq⟩
    exact ⟨txi, List.mem_filter.mpr ⟨htxi, hprevout⟩, heq⟩

theorem txid_of_mem_outPoints (h : outpoint ∈ Transaction.outPoints tx) :
    outpoint.txid = tx.txid := by
  rcases mem_outPoints.mp h with ⟨_, _, _, heq⟩
  rw [heq]

theorem nodup_outPoints (tx : Transaction) : (Transaction.outPoints tx).Nodup := by
  refine List.Nodup.map_on ?_ List.nodup_range
  intro i hi j hj heq
  have hlength := tx.output_lt
  have hi' := List.mem_range.mp hi
  have hj' := List.mem_range.mp hj
  exact toUInt32_inj (by omega) (by omega) (congrArg OutPoint.vout heq)

theorem TxCommitments.Has.txo_eq (h : L.Has tx) {i : Nat} {txo : TxOut}
    (htxo : tx.output[i]? = some txo) :
    L.txo { txid := tx.txid, vout := i.toUInt32 } = some txo := by
  show (L.output tx.txid)[i.toUInt32.toNat]? = some txo
  rw [toNat_toUInt32 (output_index_lt htxo), <- h.right]
  exact htxo

theorem TxCommitments.Has.mem_outPoints_of_txo (h : L.Has tx) {txo : TxOut}
    (htxid : outpoint.txid = tx.txid) (htxo : L.txo outpoint = some txo) :
    outpoint ∈ Transaction.outPoints tx := by
  rcases outpoint with ⟨txid, vout⟩
  cases htxid
  refine mem_outPoints.mpr ⟨vout.toNat, txo, ?_, ?_⟩
  · rw [h.right]
    exact htxo
  · rw [Nat.toUInt32_eq, UInt32.ofNat_toNat]

theorem total_outPoints (h : L.Has tx) :
    total L.value (Transaction.outPoints tx) = outputTotal tx := by
  have hvalues : (Transaction.outPoints tx).map L.value =
      tx.output.map fun txo => txo.value.toNat := by
    refine List.ext_getElem (by simp [Transaction.outPoints]) ?_
    intro i hi hi'
    rw [List.length_map] at hi'
    have htxo := h.txo_eq (List.getElem?_eq_getElem hi')
    simp [Transaction.outPoints, TxCommitments.value, htxo]
  rw [total, hvalues]
  rfl

theorem input_unique (h : (txs.flatMap Transaction.prevOuts).Nodup)
    {tx' : Transaction} (htx : tx ∈ txs) (htx' : tx' ∈ txs) {i i' : Nat} {txi txi' : TxIn}
    (htxi : tx.input[i]? = some txi) (htxi' : tx'.input[i']? = some txi')
    (hprevout : hasPrevout txi = true) (hprevout' : hasPrevout txi' = true)
    (heq : txi.previousOutput = txi'.previousOutput) : tx = tx' ∧ i = i' := by
  have hmem : txi.previousOutput ∈ Transaction.prevOuts tx :=
    mem_prevOuts.mpr ⟨txi, List.mem_of_getElem? htxi, hprevout, rfl⟩
  have hmem' : txi.previousOutput ∈ Transaction.prevOuts tx' :=
    mem_prevOuts.mpr ⟨txi', List.mem_of_getElem? htxi', hprevout', heq.symm⟩
  have hsame := source_unique h htx htx' hmem hmem'
  subst hsame
  refine ⟨rfl, ?_⟩
  have hwithin := (List.nodup_flatMap.mp h).left tx htx
  rw [Transaction.prevOuts, List.Nodup, List.pairwise_map, List.pairwise_filter] at hwithin
  have hpairs := List.pairwise_iff_getElem.mp hwithin
  rcases List.getElem?_eq_some_iff.mp htxi with ⟨hi, hget⟩
  rcases List.getElem?_eq_some_iff.mp htxi' with ⟨hi', hget'⟩
  rcases Nat.lt_trichotomy i i' with hlt | hindex | hlt
  · have hne := hpairs i i' hi hi' hlt
    rw [hget, hget'] at hne
    exact absurd heq (hne hprevout hprevout')
  · exact hindex
  · have hne := hpairs i' i hi' hi hlt
    rw [hget, hget'] at hne
    exact absurd heq.symm (hne hprevout' hprevout)

namespace ValidTxs

theorem outPoints_nodup (h : ValidTxs L cfg txs) : (txs.flatMap Transaction.outPoints).Nodup := by
  refine List.nodup_flatMap.mpr ⟨fun tx _ => nodup_outPoints tx, ?_⟩
  refine (List.pairwise_map.mp h.txids_nodup).imp ?_
  intro tx tx' hne outpoint hmem hmem'
  exact hne ((txid_of_mem_outPoints hmem).symm.trans (txid_of_mem_outPoints hmem'))

def ledger (h : ValidTxs L cfg txs) : Ledger OutPoint where
  created := txs.flatMap Transaction.outPoints
  spent := txs.flatMap Transaction.prevOuts
  created_nodup := h.outPoints_nodup
  spent_nodup := h.spent_once
  spent_created := by
    intro outpoint hspent
    rcases List.mem_flatMap.mp hspent with ⟨tx, htx, hprev⟩
    rcases h.spends_outputs tx htx outpoint hprev with ⟨htxid, txo, htxo, _⟩
    rcases List.mem_map.mp htxid with ⟨source, hsource, heq⟩
    exact List.mem_flatMap.mpr ⟨source, hsource,
      (h.committed source hsource).mem_outPoints_of_txo heq.symm htxo⟩

end ValidTxs

end Outputs

/-!
## The supply
-/

structure Emission where
  subsidy : Nat -> Nat
  supply_lt : forall height, ((List.range height).map subsidy).sum < 2 ^ 63

structure ValidState (L : TxCommitments) (cfg : IndexerConfig) (emission : Emission)
    (blocks : List Block) (pool : List Transaction) : Prop where
  spends_earlier : SpendsEarlierTxs blocks
  chain : ValidTxs L cfg (chainTxs blocks)
  both : ValidTxs L cfg (chainTxs blocks ++ pool)
  block_amounts : forall (height : Nat) (b : Block), blocks[height]? = some b ->
    (b.txdata.map outputTotal).sum ≤ emission.subsidy height + (b.txdata.map (inputTotal L)).sum
  pool_amounts : forall tx, tx ∈ pool -> outputTotal tx ≤ inputTotal L tx

section Supply

variable {L : TxCommitments} {cfg : IndexerConfig} {emission : Emission}
  {blocks : List Block} {pool txs : List Transaction}

theorem total_flatMap_outPoints (h : forall tx, tx ∈ txs -> L.Has tx) :
    total L.value (txs.flatMap Transaction.outPoints) = (txs.map outputTotal).sum := by
  rw [total_flatMap]
  refine congrArg List.sum (List.map_congr_left ?_)
  intro tx htx
  exact total_outPoints (h tx htx)

theorem total_flatMap_prevOuts :
    total L.value (txs.flatMap Transaction.prevOuts) = (txs.map (inputTotal L)).sum :=
  total_flatMap

theorem outputTotal_chain_le (h : forall (height : Nat) (b : Block), blocks[height]? = some b ->
      (b.txdata.map outputTotal).sum ≤
        emission.subsidy height + (b.txdata.map (inputTotal L)).sum) :
    ((chainTxs blocks).map outputTotal).sum ≤
      ((List.range blocks.length).map emission.subsidy).sum +
        ((chainTxs blocks).map (inputTotal L)).sum := by
  induction blocks using List.reverseRecOn with
  | nil => exact Nat.le_refl _
  | append_singleton front b ih =>
    have hfront := ih fun height b' hb' => h height b'
      (List.getElem?_append_left (List.getElem?_eq_some_iff.mp hb').1 ▸ hb')
    have hlast := h front.length b (by simp)
    have hsplit : chainTxs (front ++ [b]) = chainTxs front ++ b.txdata := by
      simp [chainTxs]
    rw [hsplit, List.map_append, List.sum_append, List.map_append, List.sum_append,
      List.length_append, List.length_singleton, List.range_succ, List.map_append,
      List.sum_append, List.map_singleton, List.sum_singleton]
    omega

theorem outputTotal_pool_le (h : forall tx, tx ∈ pool -> outputTotal tx ≤ inputTotal L tx) :
    (pool.map outputTotal).sum ≤ (pool.map (inputTotal L)).sum := by
  induction pool with
  | nil => exact Nat.le_refl _
  | cons tx pool ih =>
    have hfirst := h tx List.mem_cons_self
    have hrest := ih fun tx' htx' => h tx' (List.mem_cons_of_mem _ htx')
    rw [List.map_cons, List.map_cons, List.sum_cons, List.sum_cons]
    exact Nat.add_le_add hfirst hrest

namespace ValidState

theorem chain_unspent_lt (h : ValidState L cfg emission blocks pool) :
    total L.value h.chain.ledger.unspent < 2 ^ 63 := by
  refine Nat.lt_of_le_of_lt (Ledger.total_unspent_le ?_) (emission.supply_lt blocks.length)
  show total L.value ((chainTxs blocks).flatMap Transaction.outPoints) ≤
    _ + total L.value ((chainTxs blocks).flatMap Transaction.prevOuts)
  rw [total_flatMap_outPoints h.chain.committed, total_flatMap_prevOuts]
  exact outputTotal_chain_le h.block_amounts

theorem both_unspent_lt (h : ValidState L cfg emission blocks pool) :
    total L.value h.both.ledger.unspent < 2 ^ 63 := by
  refine Nat.lt_of_le_of_lt (Ledger.total_unspent_le ?_) (emission.supply_lt blocks.length)
  show total L.value ((chainTxs blocks ++ pool).flatMap Transaction.outPoints) ≤
    _ + total L.value ((chainTxs blocks ++ pool).flatMap Transaction.prevOuts)
  have hchain := outputTotal_chain_le h.block_amounts
  have hpool := outputTotal_pool_le h.pool_amounts
  rw [total_flatMap_outPoints h.both.committed, total_flatMap_prevOuts,
    List.map_append, List.sum_append, List.map_append, List.sum_append]
  omega

end ValidState

end Supply

def halving (height : Nat) : Nat :=
  5000000000 / 2 ^ (height / 210000)

theorem halving_succ (height : Nat) :
    (height + 1) % 210000 = 0 ∧ 2 * halving (height + 1) ≤ halving height ∧
        height % 210000 = 209999 ∨
      (height + 1) % 210000 = height % 210000 + 1 ∧ halving (height + 1) = halving height := by
  by_cases h : height % 210000 = 209999
  · refine Or.inl ⟨by omega, ?_, h⟩
    have hera : (height + 1) / 210000 = height / 210000 + 1 := by omega
    rw [halving, halving, hera, pow_succ, <- Nat.div_div_eq_div_mul]
    exact Nat.mul_div_le _ 2
  · have hera : (height + 1) / 210000 = height / 210000 := by omega
    refine Or.inr ⟨by omega, ?_⟩
    rw [halving, halving, hera]

theorem sum_halving_le (height : Nat) :
    ((List.range height).map halving).sum +
        ((210000 - height % 210000) * halving height + 210000 * halving height) ≤
      2100000000000000 := by
  induction height with
  | zero => decide
  | succ height ih =>
    rw [List.range_succ, List.map_append, List.sum_append, List.map_singleton, List.sum_singleton]
    rcases halving_succ height with ⟨hmod, hhalf, hlast⟩ | ⟨hmod, hsame⟩
    · rw [hlast] at ih
      rw [hmod]
      omega
    · have hlt := Nat.mod_lt (height + 1) (show 0 < 210000 by decide)
      have hsplit : 210000 - height % 210000 = (210000 - (height % 210000 + 1)) + 1 := by omega
      rw [hsplit, Nat.add_mul, Nat.one_mul] at ih
      rw [hmod, hsame]
      omega

def Emission.bitcoin : Emission where
  subsidy := halving
  supply_lt := by
    intro height
    have hle := sum_halving_le height
    omega

end NewIndex
end Splora
