import Splora.Electrum.Balance

/-!
# Sane statistics

`ScriptStats::is_sane` decides whether cached statistics are used.  It compares whether the
counts are equal with whether the sums are, so it takes outputs without value for a mistake.
-/

namespace Splora
namespace NewIndex

open Foundation Electrum

def ChainQuery.statsUpTo (store : Store) (scripthash : FullHash) (height : Nat) :
    ScriptStats :=
  (((confirmedHistory store scripthash 0).filter fun row =>
    row.2.height ≤ height).foldl StatsState.step (StatsState.start ScriptStats.default)).stats

/-!
## Beginnings of a chain
-/

section UpTo

variable {L : TxCommitments} {cfg : IndexerConfig} {emission : Emission}
  {blocks : List Block}

theorem chainTxs_take (blocks : List Block) (n : Nat) :
    chainTxs blocks = chainTxs (blocks.take n) ++ chainTxs (blocks.drop n) := by
  rw [chainTxs, chainTxs, chainTxs, <- List.flatMap_append, List.take_append_drop]

theorem SpendsEarlierTxs.take (h : SpendsEarlierTxs blocks) (n : Nat) :
    SpendsEarlierTxs (blocks.take n) := by
  have hget : forall {i : Nat}, i < (chainTxs (blocks.take n)).length ->
      (chainTxs blocks)[i]? = (chainTxs (blocks.take n))[i]? := by
    intro i hi
    rw [chainTxs_take blocks n]
    exact List.getElem?_append_left hi
  intro i tx htx txi htxi hprevout
  have hi := (List.getElem?_eq_some_iff.mp htx).1
  rcases h i tx ((hget hi).trans htx) txi htxi hprevout with ⟨j, prev, hj, hprev, htxid⟩
  exact ⟨j, prev, hj, (hget (hj.trans hi)).symm.trans hprev, htxid⟩

theorem ValidTxs.take (h : ValidTxs L cfg (chainTxs blocks))
    (hearlier : SpendsEarlierTxs blocks) (n : Nat) :
    ValidTxs L cfg (chainTxs (blocks.take n)) := by
  have hsublist : (chainTxs (blocks.take n)).Sublist (chainTxs blocks) := by
    rw [chainTxs_take blocks n]
    exact List.sublist_append_left _ _
  refine ⟨h.txids_nodup.sublist (hsublist.map _),
    fun tx htx => h.committed tx (hsublist.subset htx),
    h.spent_once.sublist (hsublist.flatMap _), ?_⟩
  intro tx htx outpoint hmem
  refine ⟨?_, (h.spends_outputs tx (hsublist.subset htx) outpoint hmem).right⟩
  rcases List.getElem?_of_mem htx with ⟨i, hi⟩
  rcases mem_prevOuts.mp hmem with ⟨txi, htxi, hprevout, hpoint⟩
  rcases hearlier.take n i tx hi txi htxi hprevout with ⟨j, prev, _, hprev, htxid⟩
  rw [<- hpoint, <- htxid]
  exact List.mem_map_of_mem (List.mem_of_getElem? hprev)

theorem ValidState.take (h : ValidState L cfg emission blocks []) (n : Nat) :
    ValidState L cfg emission (blocks.take n) [] where
  spends_earlier := h.spends_earlier.take n
  chain := h.chain.take h.spends_earlier n
  both := by
    rw [List.append_nil]
    exact h.chain.take h.spends_earlier n
  block_amounts := by
    intro height b hb
    rw [List.getElem?_take] at hb
    split at hb
    case isTrue hlt => exact h.block_amounts height b hb
    case isFalse hge => cases hb
  pool_amounts := h.pool_amounts

end UpTo

/-!
## The ledger of a script
-/

section Sane

variable {K : Type} [DecidableEq K] {value : K -> Nat} {ledger : Ledger K}
  {stats : ScriptStats}

structure LedgerStats (ledger : Ledger K) (value : K -> Nat) (stats : ScriptStats) :
    Prop where
  txCount : stats.txCount ≤ stats.spentTxoCount + stats.fundedTxoCount
  fundedTxoCount : stats.fundedTxoCount = ledger.created.length
  spentTxoCount : stats.spentTxoCount = ledger.spent.length
  fundedTxoSum : stats.fundedTxoSum = UInt64.ofNat (total value ledger.created)
  spentTxoSum : stats.spentTxoSum = UInt64.ofNat (total value ledger.spent)

theorem LedgerStats.isSane_iff (h : LedgerStats ledger value stats)
    (hleft : total value ledger.unspent < 2 ^ 64) :
    stats.isSane = true <->
      total value ledger.spent % 2 ^ 64 + total value ledger.unspent < 2 ^ 64 ∧
        (ledger.unspent = [] <-> total value ledger.unspent = 0) := by
  have hsums := ledger.total_created value
  have hcounts := ledger.perm_created.length_eq
  rw [List.length_append] at hcounts
  have hle : stats.spentTxoSum ≤ stats.fundedTxoSum <->
      total value ledger.spent % 2 ^ 64 + total value ledger.unspent < 2 ^ 64 := by
    rw [UInt64.le_iff_toNat_le, h.spentTxoSum, h.fundedTxoSum, UInt64.toNat_ofNat',
      UInt64.toNat_ofNat', hsums]
    omega
  have hcount : stats.fundedTxoCount = stats.spentTxoCount <-> ledger.unspent = [] := by
    rw [h.fundedTxoCount, h.spentTxoCount, <- List.length_eq_zero_iff]
    omega
  have hsum : stats.fundedTxoSum = stats.spentTxoSum <-> total value ledger.unspent = 0 := by
    rw [<- UInt64.toNat_inj, h.spentTxoSum, h.fundedTxoSum, UInt64.toNat_ofNat',
      UInt64.toNat_ofNat', hsums]
    omega
  have hspent : stats.spentTxoCount ≤ stats.fundedTxoCount := by
    rw [h.spentTxoCount, h.fundedTxoCount]
    omega
  rw [ScriptStats.isSane, Bool.and_eq_true, Bool.and_eq_true, Bool.and_eq_true, beq_iff_eq,
    decide_eq_decide, decide_eq_true_eq, decide_eq_true_eq, decide_eq_true_eq, hle, hcount,
    hsum]
  constructor
  · intro hsane
    exact ⟨hsane.left.right, hsane.right⟩
  · intro hsane
    exact ⟨⟨⟨hspent, h.txCount⟩, hsane.left⟩, hsane.right⟩

end Sane

/-!
## The statistics of a chain
-/

section Chain

variable {T : BlockTree} {L : TxCommitments} {cfg : IndexerConfig} {store : Store}
  {emission : Emission} {blocks : List Block} {scripthash : FullHash}
  {rows : List (TxHistoryKey × BlockId)}

theorem length_infos (infos : List TxHistoryInfo) :
    infos.length = (infos.filterMap TxHistoryInfo.spending?).length +
      (infos.filterMap TxHistoryInfo.funding?).length := by
  induction infos with
  | nil => rfl
  | cons info infos ih =>
    rw [List.length_cons, ih]
    cases info with
    | funding info =>
      have hfunding : TxHistoryInfo.funding? (.funding info) = some info := rfl
      have hspending : TxHistoryInfo.spending? (.funding info) = none := rfl
      rw [List.filterMap_cons_none hspending, List.filterMap_cons_some hfunding, List.length_cons]
      omega
    | spending info =>
      have hfunding : TxHistoryInfo.funding? (.spending info) = none := rfl
      have hspending : TxHistoryInfo.spending? (.spending info) = some info := rfl
      rw [List.filterMap_cons_none hfunding, List.filterMap_cons_some hspending, List.length_cons]
      omega

theorem ScriptHistory.ledgerStats (h : ScriptHistory T cfg scripthash blocks rows)
    (hvalid : ValidChain T blocks) (htxs : ValidTxs L cfg (chainTxs blocks)) :
    LedgerStats (htxs.ledger.restrict (ofScript L cfg scripthash)) L.value
      (rows.foldl StatsState.step (StatsState.start ScriptStats.default)).stats := by
  have hstats := h.statsOf hvalid
  have hcounted := StatsState.Counted.foldl (h.grouped hvalid)
  rcases statsCounts_eq hstats h hvalid htxs with ⟨hfundedCount, hspentCount⟩
  rcases statsSums_eq hstats h hvalid htxs with ⟨hfundedSum, hspentSum⟩
  refine ⟨?_, hfundedCount, hspentCount, hfundedSum, hspentSum⟩
  have hrows := length_infos (rows.map fun row => row.1.txinfo)
  rw [List.length_map, List.filterMap_map, List.filterMap_map] at hrows
  rw [hcounted.txCount, hcounted.spentTxoCount, hcounted.fundedTxoCount]
  refine (List.toFinset_card_le _).trans (Nat.le_of_eq ?_)
  rw [List.length_map]
  exact hrows

theorem total_eq_zero {K : Type} {value : K -> Nat} {items : List K} :
    total value items = 0 <-> forall k, k ∈ items -> value k = 0 := by
  rw [total, List.sum_eq_zero_iff]
  simp

theorem unspent_nil_iff (hvalid : ValidTxs L cfg (chainTxs blocks)) :
    ((hvalid.ledger.restrict (ofScript L cfg scripthash)).unspent = [] <->
      total L.value (hvalid.ledger.restrict (ofScript L cfg scripthash)).unspent = 0) <->
    ((forall outpoint utxo, ¬ Unspent cfg scripthash blocks outpoint utxo) ∨
      exists outpoint blockid value,
        Unspent cfg scripthash blocks outpoint (blockid, value) ∧ 0 < value.toNat) := by
  have hmem : forall outpoint,
      outpoint ∈ (hvalid.ledger.restrict (ofScript L cfg scripthash)).unspent <->
        exists utxo, Unspent cfg scripthash blocks outpoint utxo := by
    intro outpoint
    rw [exists_unspent_iff hvalid, Ledger.restrict_unspent, List.mem_filter, Ledger.mem_unspent]
    rfl
  rw [total_eq_zero, List.eq_nil_iff_forall_not_mem]
  constructor
  · intro hiff
    by_cases hnone : forall outpoint,
        outpoint ∉ (hvalid.ledger.restrict (ofScript L cfg scripthash)).unspent
    · refine Or.inl ?_
      intro outpoint utxo hunspent
      exact hnone outpoint ((hmem outpoint).mpr ⟨utxo, hunspent⟩)
    · rcases not_forall.mp fun hzero => hnone (hiff.mpr hzero) with ⟨outpoint, hvalue⟩
      rcases Classical.not_imp.mp hvalue with ⟨hin, hne⟩
      rcases (hmem outpoint).mp hin with ⟨⟨blockid, value⟩, hunspent⟩
      refine Or.inr ⟨outpoint, blockid, value, hunspent, ?_⟩
      rw [unspent_value hvalid hunspent]
      exact Nat.pos_of_ne_zero hne
  · intro hcases
    rcases hcases with hnone | ⟨outpoint, blockid, value, hunspent, hpositive⟩
    · have hempty : forall outpoint,
          outpoint ∉ (hvalid.ledger.restrict (ofScript L cfg scripthash)).unspent := by
        intro outpoint hin
        rcases (hmem outpoint).mp hin with ⟨utxo, hunspent⟩
        exact hnone outpoint utxo hunspent
      exact iff_of_true hempty fun outpoint hin => absurd hin (hempty outpoint)
    · have hin := (hmem outpoint).mpr ⟨_, hunspent⟩
      refine iff_of_false (fun hempty => hempty outpoint hin) ?_
      intro hzero
      rw [unspent_value hvalid hunspent, hzero outpoint hin] at hpositive
      exact Nat.lt_irrefl 0 hpositive

theorem statsUpTo_tip (h : Exact T cfg store blocks) {height : Nat}
    (htip : blocks.length ≤ height + 1) :
    (ChainQuery.statsDelta store scripthash ScriptStats.default 0).1 =
      ChainQuery.statsUpTo store scripthash height := by
  have hall : (ChainQuery.confirmedHistory store scripthash 0).filter
      (fun row => row.2.height ≤ height) =
        ChainQuery.confirmedHistory store scripthash 0 := by
    rw [List.filter_eq_self]
    intro row hrow
    rcases ((h.scriptHistory scripthash).mem_iff row).mp hrow with ⟨_, be, hbe, _, hblock⟩
    have hlt := height_lt_of_mem_chainEntries hbe
    rw [hblock]
    refine decide_eq_true ?_
    change be.entry.height ≤ height
    omega
  rw [ChainQuery.statsUpTo, hall]
  rfl

/-- The statistics of a script are sane exactly if its unspent outputs have a value, if there are
any, and the sums have not wrapped apart. -/
theorem stats_sane_iff (h : Exact T cfg store blocks)
    (hvalid : ValidState L cfg emission blocks []) (scripthash : FullHash)
    (height : Nat) :
    ((ChainQuery.statsUpTo store scripthash height).isSane = true <->
      total L.value ((hvalid.take (height + 1)).chain.ledger.restrict
          (ofScript L cfg scripthash)).spent % 2 ^ 64 +
        total L.value ((hvalid.take (height + 1)).chain.ledger.restrict
          (ofScript L cfg scripthash)).unspent < 2 ^ 64 ∧
      ((forall outpoint utxo, ¬ Unspent cfg scripthash (blocks.take (height + 1)) outpoint utxo) ∨
        exists outpoint blockid value,
          Unspent cfg scripthash (blocks.take (height + 1)) outpoint (blockid, value) ∧
            0 < value.toNat)) ∧
    (blocks.length ≤ height + 1 ->
      (ChainQuery.statsDelta store scripthash ScriptStats.default 0).1 =
        ChainQuery.statsUpTo store scripthash height) := by
  refine ⟨?_, statsUpTo_tip h⟩
  have hchain := (hvalid.take (height + 1)).chain
  have hrows := (h.scriptHistory scripthash).take height
  have hstats := hrows.ledgerStats (h.valid.take (height + 1)) hchain
  have hleft : total L.value (hchain.ledger.restrict
      (ofScript L cfg scripthash)).unspent < 2 ^ 64 := by
    have hlt := (hvalid.take (height + 1)).chain_unspent_lt
    rw [Ledger.restrict_unspent]
    have hle : total L.value (hchain.ledger.unspent.filter (ofScript L cfg scripthash)) ≤
        total L.value hchain.ledger.unspent := total_filter_le _
    omega
  rw [<- unspent_nil_iff hchain]
  exact hstats.isSane_iff hleft

end Chain

namespace Sample

open Electrum.Sample

def zeroCoinbase : Transaction where
  txid := 101
  input := [{ previousOutput := OutPoint.null }]
  output := [{ value := 0, scriptPubkey := [1] }]
  raw := []
  weight := 400
  input_lt := by simp
  output_lt := by simp

def zeroBlock : Block where
  header := header 1 nullHash
  txdata := [zeroCoinbase]
  size := 200
  weight := 800

def zeroTree : BlockTree :=
  BlockTree.ofList [zeroBlock] (by decide) (by decide)

def zeroDaemon : Daemon zeroTree :=
  daemonOf zeroBlock [] ⟨⟨by decide, by decide⟩, by decide, by decide⟩

def zeroSession : List (Request zeroTree) :=
  [.index (.update .bitcoind zeroDaemon)]

def zeroCommitments : TxCommitments where
  input _ := zeroCoinbase.input
  output _ := zeroCoinbase.output

theorem validTxs_zero : ValidTxs zeroCommitments config [zeroCoinbase] :=
  validTxs_of_any (by decide) (by decide) (by decide) (by decide)

theorem validState_zero :
    ValidState zeroCommitments config Emission.bitcoin [zeroBlock] [] where
  spends_earlier := by
    have hspends : SpendsEarlier config [zeroBlock] := spendsEarlier_coinbases (by decide)
    exact hspends.spendsEarlierTxs
  chain := validTxs_zero
  both := validTxs_zero
  block_amounts := by
    intro height b hb
    have hmem := List.mem_singleton.mp (List.mem_of_getElem? hb)
    rw [hmem]
    exact Nat.zero_le _
  pool_amounts := nofun

theorem validState_paid :
    ValidState turnCommitments config Emission.bitcoin [genesis, blockA] [] :=
  validState_blockA validTxs_blockA nofun

theorem unspent_paid :
    Unspent config 1 [genesis, blockA] { txid := 102, vout := 0 }
      (BlockId.ofEntry (blockA.entryAt 1), 50) := by
  refine ⟨blockEntryAt blockA 1, coinbase 102 [1], 0, { value := 50, scriptPubkey := [1] },
    by decide, by decide, rfl, rfl, rfl, rfl, rfl, ?_⟩
  rintro ⟨b, tx, txi, hb, htx, htxi, hprevout, hpoint⟩
  have hspent : { txid := 102, vout := 0 } ∈
      (chainTxs [genesis, blockA]).flatMap Transaction.prevOuts :=
    List.mem_flatMap.mpr ⟨tx, List.mem_flatMap.mpr ⟨b, hb, htx⟩,
      mem_prevOuts.mpr ⟨txi, htxi, hprevout, hpoint⟩⟩
  exact absurd hspent (by decide)

theorem stats_of_partly_spent_script :
    exists store, serve config (chainRequests afterUpdates) = .ok store ∧
      ChainQuery.statsUpTo store 1 1 = {
        txCount := 3
        fundedTxoCount := 2
        spentTxoCount := 1
        fundedTxoSum := 100
        spentTxoSum := 50 } ∧
      (ChainQuery.statsUpTo store 1 1).isSane = true := by
  have heval : exists store, serve config (chainRequests afterUpdates) = .ok store ∧
      ChainQuery.statsUpTo store 1 1 = {
        txCount := 3
        fundedTxoCount := 2
        spentTxoCount := 1
        fundedTxoSum := 100
        spentTxoSum := 50 } := by
    decide +kernel
  rcases heval with ⟨store, hserve, hstats⟩
  have hexact : Exact tree config store [genesis, blockA] :=
    (sessionInv_of_serve hserve exactSession_afterUpdates).inv.exact
  exact ⟨store, hserve, hstats, ((stats_sane_iff hexact validState_paid 1 1).left).mpr
    ⟨by decide, Or.inr ⟨_, _, _, unspent_paid, by decide⟩⟩⟩

/-- The only output of the chain has no value, so the right statistics are insane. -/
theorem zero_value_insane :
    exists store, serve config zeroSession = .ok store ∧
      ValidState zeroCommitments config Emission.bitcoin [zeroBlock] [] ∧
      ChainQuery.statsUpTo store 1 0 = {
        txCount := 1
        fundedTxoCount := 1
        spentTxoCount := 0
        fundedTxoSum := 0
        spentTxoSum := 0 } ∧
      (ChainQuery.statsUpTo store 1 0).isSane = false := by
  have heval : exists store, serve config zeroSession = .ok store ∧
      ChainQuery.statsUpTo store 1 0 = {
        txCount := 1
        fundedTxoCount := 1
        spentTxoCount := 0
        fundedTxoSum := 0
        spentTxoSum := 0 } := by
    decide +kernel
  rcases heval with ⟨store, hserve, hstats⟩
  exact ⟨store, hserve, validState_zero, hstats, by rw [hstats]; rfl⟩

end Sample

end NewIndex
end Splora
