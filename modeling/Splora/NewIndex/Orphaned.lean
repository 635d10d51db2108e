import Splora.NewIndex.Session

/-!
# Rows of orphaned blocks

Rows of orphaned blocks are dropped by a query, unless their transaction is confirmed at the
same height.  At another position it is counted again.
-/

namespace Splora
namespace NewIndex

open Foundation

def IsOrphan (T : BlockTree) (blocks : List Block) (be : BlockEntry) : Prop :=
  T.block be.entry.hash = some be.block ∧ be.block ∉ blocks

structure LeftBehind (T : BlockTree) (cfg : IndexerConfig) (blocks : List Block)
    (store store' : Store) : Prop where
  headers : store'.indexedHeaders = store.indexedHeaders
  history_mono : forall k, HistoryKey.history k ∈ store.disk.history ->
    HistoryKey.history k ∈ store'.disk.history
  history_source : forall k, HistoryKey.history k ∈ store'.disk.history ->
    HistoryKey.history k ∈ store.disk.history ∨
      exists be, IsOrphan T blocks be ∧ IndexRow T cfg be (.history k)
  conf_mono : forall txid hash, TxstoreKey.conf txid hash ∈ store.disk.txstore ->
    TxstoreKey.conf txid hash ∈ store'.disk.txstore
  conf_source : forall txid hash, TxstoreKey.conf txid hash ∈ store'.disk.txstore ->
      TxstoreKey.conf txid hash ∈ store.disk.txstore ∨
        exists be, IsOrphan T blocks be ∧ AddRow cfg be (.conf txid hash) .empty

def ConfirmedAtHeight (blocks : List Block) (k : TxHistoryKey) : Prop :=
  exists be, be ∈ chainEntries blocks ∧ k.getTxid ∈ be.block.txdata.map Transaction.txid ∧
    be.entry.height = k.confirmedHeight.toNat

section Orphans

variable {T : BlockTree} {cfg : IndexerConfig} {store store' : Store}
  {blocks : List Block} {scripthash : FullHash}

open ChainQuery

theorem LeftBehind.confirms (h : LeftBehind T cfg blocks store store')
    (hexact : Exact T cfg store blocks) : ConfirmsBestChain store' blocks := by
  intro txid b hb
  rw [← hexact.confirms txid b hb]
  refine ⟨?_, h.conf_mono txid b.hash⟩
  intro hmem
  rcases h.conf_source txid b.hash hmem with hold | ⟨be, ⟨hstored, hnot⟩, hrow⟩
  · exact hold
  · exfalso
    generalize hk : TxstoreKey.conf txid b.hash = k at hrow
    cases hrow with
    | conf _ =>
      injection hk with _ hhash
      rw [← hhash, hexact.valid.stored b hb] at hstored
      rw [← Option.some.inj hstored] at hnot
      exact hnot hb
    | _ => cases hk

theorem mem_confirmedHistory_of_confirms (scripthash : FullHash) (row : TxHistoryKey × BlockId)
    (hrep : store.indexedHeaders.Represents blocks)
    (hvalid : ValidChain T blocks) (hconf : ConfirmsBestChain store blocks) :
    row ∈ confirmedHistory store scripthash 0 <->
      HistoryKey.history row.1 ∈ store.disk.history ∧ row.1.code = .script ∧
      row.1.hash = scripthash ∧
      exists be, be ∈ chainEntries blocks ∧ row.1.getTxid ∈ be.block.txdata.map Transaction.txid ∧
        be.entry.height = row.1.confirmedHeight.toNat ∧
        row.2 = BlockId.ofEntry be.entry := by
  rw [mem_confirmedHistory, txConfirmingBlock_eq_some hrep hvalid hconf]
  constructor
  · rintro ⟨⟨hmem, hcode, hhash, _⟩, ⟨be, hbe, htxid, hblock⟩, hheight⟩
    rw [hblock] at hheight
    exact ⟨hmem, hcode, hhash, be, hbe, htxid, hheight, hblock⟩
  · rintro ⟨hmem, hcode, hhash, be, hbe, htxid, hheight, hblock⟩
    refine ⟨⟨hmem, hcode, hhash, Nat.zero_le _⟩, ⟨be, hbe, htxid, hblock⟩, ?_⟩
    rw [hblock]
    exact hheight

theorem txoCount_foldl (rows : List (TxHistoryKey × BlockId)) :
    (rows.foldl StatsState.step (StatsState.start ScriptStats.default)).stats.fundedTxoCount +
      (rows.foldl StatsState.step (StatsState.start ScriptStats.default)).stats.spentTxoCount =
      rows.length := by
  induction rows using List.reverseRecOn with
  | nil => rfl
  | append_singleton front row ih =>
    rw [List.foldl_concat, List.length_append, ← ih, StatsState.step_stats]
    cases row.1.txinfo with
    | funding info =>
      simp only [StatsState.countTxo, List.length_singleton]
      omega
    | spending info =>
      simp only [StatsState.countTxo, List.length_singleton]
      omega

/-- Statistics and unspent outputs are those without the left-behind rows exactly if none of these
is of a transaction that the best chain confirms at the height of the row. -/
theorem orphans_filtered_iff (hexact : Exact T cfg store blocks)
    (hleft : LeftBehind T cfg blocks store store') (scripthash : FullHash) :
    (statsDelta store' scripthash ScriptStats.default 0 =
        statsDelta store scripthash ScriptStats.default 0 ∧
      forall limit, utxoDelta store' scripthash ∅ 0 limit =
        utxoDelta store scripthash ∅ 0 limit) <->
      forall k, HistoryKey.history k ∈ store'.disk.history ->
        HistoryKey.history k ∉ store.disk.history -> k.code = .script ->
        k.hash = scripthash -> ¬ ConfirmedAtHeight blocks k := by
  have hrep : store'.indexedHeaders.Represents blocks := by
    rw [hleft.headers]
    exact hexact.headers
  have hmem {row : TxHistoryKey × BlockId} :=
    mem_confirmedHistory_of_confirms scripthash row hexact.headers hexact.valid hexact.confirms
  have hmem' {row : TxHistoryKey × BlockId} :=
    mem_confirmedHistory_of_confirms scripthash row hrep hexact.valid (hleft.confirms hexact)
  have hsub : confirmedHistory store scripthash 0 ⊆
      confirmedHistory store' scripthash 0 := by
    intro row hrow
    rcases hmem.mp hrow with ⟨hold, hrest⟩
    exact hmem'.mpr ⟨hleft.history_mono _ hold, hrest⟩
  constructor
  · rintro ⟨hstats, _⟩ k hk hnew hcode hhash ⟨be, hbe, htxid, hheight⟩
    have hrow : (k, BlockId.ofEntry be.entry) ∈
        confirmedHistory store' scripthash 0 :=
      hmem'.mpr ⟨hk, hcode, hhash, be, hbe, htxid, hheight, rfl⟩
    have hlength : (confirmedHistory store' scripthash 0).length =
        (confirmedHistory store scripthash 0).length := by
      have hcounts : (statsDelta store' scripthash ScriptStats.default 0).1 =
          (statsDelta store scripthash ScriptStats.default 0).1 := by
        rw [hstats]
      rw [← txoCount_foldl, ← txoCount_foldl]
      exact congrArg (fun stats => stats.fundedTxoCount + stats.spentTxoCount) hcounts
    -- with as many rows, the two lists have the same rows
    have hperm := (List.subperm_of_subset
      (hexact.scriptHistory scripthash).nodup hsub).perm_of_length_le (Nat.le_of_eq hlength)
    exact hnew (hmem.mp (hperm.mem_iff.mpr hrow)).left
  · intro hnone
    have heq : confirmedHistory store' scripthash 0 =
        confirmedHistory store scripthash 0 := by
      refine confirmedHistory_sorted.eq_of_mem_iff confirmedHistory_sorted ?_
      intro row
      refine ⟨?_, fun hrow => hsub hrow⟩
      intro hrow
      rcases hmem'.mp hrow with ⟨hk, hcode, hhash, be, hbe, htxid, hheight, hblock⟩
      by_cases hold : HistoryKey.history row.1 ∈ store.disk.history
      · exact hmem.mpr ⟨hold, hcode, hhash, be, hbe, htxid, hheight, hblock⟩
      · exact absurd ⟨be, hbe, htxid, hheight⟩ (hnone row.1 hk hold hcode hhash)
    refine ⟨?_, fun limit => ?_⟩
    · rw [statsDelta, heq, statsDelta]
    · rw [utxoDelta, heq, utxoDelta]

def leaveBehind (store : Store) (k : TxHistoryKey) (txid : Txid) (hash : BlockHash) : Store :=
  { store with
    disk := { store.disk with
      history := store.disk.history.insert (.history k) []
      txstore := store.disk.txstore.insert (.conf txid hash) .empty } }

theorem leftBehind_leaveBehind {be : BlockEntry} {k : TxHistoryKey}
    (tx : Transaction) (horphan : IsOrphan T blocks be)
    (hrow : IndexRow T cfg be (.history k)) (htx : tx ∈ be.block.txdata)
    (store : Store) :
    LeftBehind T cfg blocks store (leaveBehind store k tx.txid be.entry.hash) where
  headers := rfl
  history_mono := by
    intro k' hk'
    exact Std.ExtTreeMap.mem_insert.mpr (Or.inr hk')
  history_source := by
    intro k' hk'
    rcases Std.ExtTreeMap.mem_insert.mp hk' with heq | hold
    · have hkey := Std.LawfulEqCmp.eq_of_compare heq
      cases hkey
      exact Or.inr ⟨be, horphan, hrow⟩
    · exact Or.inl hold
  conf_mono := by
    intro txid hash hmem
    exact Std.ExtTreeMap.mem_insert.mpr (Or.inr hmem)
  conf_source := by
    intro txid hash hmem
    rcases Std.ExtTreeMap.mem_insert.mp hmem with heq | hold
    · have hkey := Std.LawfulEqCmp.eq_of_compare heq
      cases hkey
      exact Or.inr ⟨be, horphan, .conf htx⟩
    · exact Or.inl hold

end Orphans

namespace Sample

def blockC : Block where
  header := header 5 1
  txdata := [coinbase 106 [6], payment 107 106 [7], payment 103 101 [3]]
  size := 400
  weight := 1600

def forkTree : BlockTree :=
  BlockTree.ofList [genesis, blockA, blockC] (by decide) (by decide)

def forkDaemon : Daemon forkTree :=
  daemonOf genesis [blockA] ⟨⟨by decide, by decide⟩, by decide, by decide⟩

def orphanRow : TxHistoryKey where
  code := .script
  hash := 3
  confirmedHeight := 1
  txPosition := 2
  txinfo := .funding { txid := 103, vout := 0, value := 40 }

/-- The row of the orphaned block is counted a second time. -/
theorem orphan_counted_twice :
    exists store, run config [.update .bitcoind forkDaemon] = .ok store ∧
      LeftBehind forkTree config [genesis, blockA] store (leaveBehind store orphanRow 103 5) ∧
      (ChainQuery.statsDelta store 3 ScriptStats.default 0).1.fundedTxoCount = 1 ∧
      (ChainQuery.statsDelta (leaveBehind store orphanRow 103 5) 3
        ScriptStats.default 0).1.fundedTxoCount = 2 := by
  have heval : exists store, run config [.update .bitcoind forkDaemon] = .ok store ∧
      (ChainQuery.statsDelta store 3 ScriptStats.default 0).1.fundedTxoCount = 1 ∧
      (ChainQuery.statsDelta (leaveBehind store orphanRow 103 5) 3
        ScriptStats.default 0).1.fundedTxoCount = 2 := by
    decide +kernel
  rcases heval with ⟨store, hrun, htest⟩
  refine ⟨store, hrun, ?_, htest⟩
  have horphan : IsOrphan forkTree [genesis, blockA] (blockEntryAt blockC 1) :=
    ⟨rfl, by decide⟩
  exact leftBehind_leaveBehind (payment 103 101 [3]) horphan
    (@IndexRow.funding _ _ _ _ 2 0 _ rfl rfl (by decide)) (by decide) store

def siblingRow : TxHistoryKey where
  code := .script
  hash := 5
  confirmedHeight := 1
  txPosition := 0
  txinfo := .funding { txid := 105, vout := 0, value := 50 }

theorem orphan_dropped :
    exists store, run config [.update .bitcoind daemonA] = .ok store ∧
      ChainQuery.statsDelta (leaveBehind store siblingRow 105 4) 5 ScriptStats.default 0 =
        ChainQuery.statsDelta store 5 ScriptStats.default 0 := by
  have heval : exists store, run config [.update .bitcoind daemonA] = .ok store := by
    decide +kernel
  rcases heval with ⟨store, hrun⟩
  have hreturn : NoReturn ([.update .bitcoind daemonA] : List (Event tree)) :=
    atEveryUpdate_update.mpr ⟨atEveryUpdate_nil, by decide⟩
  have hexact : Exact tree config store [genesis, blockA] :=
    (wholeInv_of_noReturn hrun hreturn).inv.exact
  have horphan : IsOrphan tree [genesis, blockA] (blockEntryAt blockB 1) :=
    ⟨rfl, by decide⟩
  have hleft : LeftBehind tree config [genesis, blockA] store
      (leaveBehind store siblingRow 105 4) :=
    leftBehind_leaveBehind (coinbase 105 [5]) horphan
      (@IndexRow.funding _ _ _ _ 0 0 _ rfl rfl (by decide)) (by decide) store
  refine ⟨store, hrun, ((orphans_filtered_iff hexact hleft 5).mpr ?_).left⟩
  rintro k hk hnew _ _ ⟨be, hbe, htxid, _⟩
  rcases Std.ExtTreeMap.mem_insert.mp hk with heq | hold
  · cases Std.LawfulEqCmp.eq_of_compare heq
    have hnone : forall b, b ∈ [genesis, blockA] ->
        siblingRow.getTxid ∉ b.txdata.map Transaction.txid := by
      decide
    exact hnone be.block (block_mem_of_mem_blockEntriesFrom hbe) htxid
  · exact hnew hold

end Sample

end NewIndex
end Splora
