import Splora.NewIndex.Mempool
import Splora.NewIndex.Orphaned

/-!
# Spends of outpoints

`ChainQuery::lookup_spend` takes the first edge whose transaction is confirmed.  A txid commits
to the inputs, so rows of orphaned blocks do no harm.
-/

namespace Splora
namespace NewIndex

open Foundation

def TxEdgeKey.filter (outpoint : OutPoint) : Bytes :=
  'S'.toUInt8 :: (hashBytes outpoint.txid ++ u32Little outpoint.vout)

theorem edgeFilter_isPrefixOf_iff {outpoint : OutPoint} {k : HistoryKey} :
    (TxEdgeKey.filter outpoint).isPrefixOf k.bytes = true <->
      exists key, k = .edge key ∧ key.fundingTxid = outpoint.txid ∧
        key.fundingVout = outpoint.vout := by
  cases k with
  | edge key =>
    have hassoc : HistoryKey.bytes (.edge key) = 'S'.toUInt8 ::
        ((hashBytes key.fundingTxid ++ u32Little key.fundingVout) ++
          (hashBytes key.spendingTxid ++ u32Little key.spendingVin)) := by
      rw [HistoryKey.bytes, TxEdgeKey.bytes, List.append_assoc]
    rw [hassoc, TxEdgeKey.filter, List.isPrefixOf_iff_prefix,
      List.cons_prefix_cons, field_prefix_iff (by simp),
      field_append_inj (by simp), hashBytes_inj, u32Little_inj]
    constructor
    · intro h
      exact ⟨key, rfl, h.right.left.symm, h.right.right.symm⟩
    · intro h
      rcases h with ⟨key', heq, htxid, hvout⟩
      cases heq
      exact ⟨rfl, htxid.symm, hvout.symm⟩
  | history key =>
    refine iff_of_false ?_ (by simp)
    rw [HistoryKey.bytes, TxHistoryKey.bytes, TxEdgeKey.filter,
      List.isPrefixOf_iff_prefix, List.cons_prefix_cons]
    intro h
    cases hcode : key.code with
    | script =>
      rw [hcode] at h
      exact absurd h.left (by decide)
    | asset =>
      rw [hcode] at h
      exact absurd h.left (by decide)
  | _ =>
    refine iff_of_false ?_ (by simp)
    rw [HistoryKey.bytes, TxEdgeKey.filter, List.isPrefixOf_iff_prefix, List.cons_prefix_cons]
    exact fun h => absurd h.left (by decide)

namespace ChainQuery

def lookupSpend (store : Store) (outpoint : OutPoint) : Option SpendingInput :=
  (scan HistoryKey.bytes store.disk.history (TxEdgeKey.filter outpoint)).findSome? fun row =>
      match row.1 with
      | .edge key =>
        (txConfirmingBlock store key.spendingTxid).map fun b =>
          { txid := key.spendingTxid
            vin := key.spendingVin
            confirmed := some b }
      | _ => none

end ChainQuery

def ChainSpend (blocks : List Block) (outpoint : OutPoint) (spend : SpendingInput) : Prop :=
  exists (be : BlockEntry) (tx : Transaction) (i : Nat) (txi : TxIn),
    be ∈ chainEntries blocks ∧ tx ∈ be.block.txdata ∧
    tx.input[i]? = some txi ∧ hasPrevout txi = true ∧
    txi.previousOutput = outpoint ∧
    spend = {
      txid := tx.txid
      vin := i.toUInt32
      confirmed := some (BlockId.ofEntry be.entry) }

def SpendsOnce (blocks : List Block) : Prop :=
  forall outpoint spend spend', ChainSpend blocks outpoint spend ->
    ChainSpend blocks outpoint spend' -> spend = spend'

structure HoldsSpends (T : BlockTree) (cfg : IndexerConfig)
    (blocks : List Block) (store : Store) : Prop where
  headers : store.indexedHeaders.Represents blocks
  valid : ValidChain T blocks
  edge_mem : forall be, be ∈ chainEntries blocks -> forall key, IndexRow T cfg be (.edge key) ->
      HistoryKey.edge key ∈ store.disk.history
  edge_source : forall key, HistoryKey.edge key ∈ store.disk.history ->
    exists be, (be ∈ chainEntries blocks ∨ IsOrphan T blocks be) ∧ IndexRow T cfg be (.edge key)
  conf_mem : forall be, be ∈ chainEntries blocks -> forall txid,
    AddRow cfg be (.conf txid be.entry.hash) .empty ->
      TxstoreKey.conf txid be.entry.hash ∈ store.disk.txstore
  conf_source : forall txid hash, TxstoreKey.conf txid hash ∈ store.disk.txstore ->
      exists be, (be ∈ chainEntries blocks ∨ IsOrphan T blocks be) ∧
        AddRow cfg be (.conf txid hash) .empty

theorem indexRow_edge_iff {T : BlockTree} {cfg : IndexerConfig}
    {be : BlockEntry} {key : TxEdgeKey} :
    IndexRow T cfg be (.edge key) <->
      exists (tx : Transaction) (i : Nat) (txi : TxIn),
        tx ∈ be.block.txdata ∧ tx.input[i]? = some txi ∧
        hasPrevout txi = true ∧
        key = {
          fundingTxid := txi.previousOutput.txid
          fundingVout := txi.previousOutput.vout
          spendingTxid := tx.txid
          spendingVin := i.toUInt32 } := by
  constructor
  · intro h
    generalize hk : HistoryKey.edge key = k at h
    cases h with
    | edge htx htxi hprevout =>
      injection hk with hkey
      exact ⟨_, _, _, htx, htxi, hprevout, hkey⟩
    | _ => cases hk
  · intro h
    rcases h with ⟨tx, i, txi, htx, htxi, hprevout, hkey⟩
    rw [hkey]
    exact .edge htx htxi hprevout

theorem addRow_conf_iff {cfg : IndexerConfig} {be : BlockEntry} {txid : Txid} {hash : BlockHash} :
    AddRow cfg be (.conf txid hash) .empty <->
      hash = be.entry.hash ∧ txid ∈ be.block.txdata.map Transaction.txid := by
  constructor
  · intro h
    generalize hk : TxstoreKey.conf txid hash = k at h
    cases h with
    | conf htx =>
      injection hk with htxid hhash
      rw [htxid]
      exact ⟨hhash, List.mem_map_of_mem htx⟩
    | _ => cases hk
  · intro h
    rcases h with ⟨hhash, htxid⟩
    rcases List.mem_map.mp htxid with ⟨tx, htx, heq⟩
    rw [hhash, ← heq]
    exact .conf htx

section Spends

variable {T : BlockTree} {cfg : IndexerConfig} {blocks : List Block}
  {store : Store} {outpoint : OutPoint} {spend : SpendingInput}

namespace HoldsSpends

section

variable (h : HoldsSpends T cfg blocks store)

include h

theorem stored {be : BlockEntry} (hbe : be ∈ chainEntries blocks ∨ IsOrphan T blocks be) :
    T.block be.entry.hash = some be.block := by
  rcases hbe with hbe | horphan
  · exact stored_of_mem_entrySet h.valid.toIsChain hbe
  · exact horphan.left

theorem confirms : ChainQuery.ConfirmsBestChain store blocks := by
  intro txid b hb
  rcases List.getElem?_of_mem hb with ⟨i, hi⟩
  have hentry : blockEntryAt b i ∈ chainEntries blocks :=
    mem_chainEntries.mpr ⟨i, b, hi, rfl⟩
  constructor
  · intro hmem
    rcases h.conf_source txid b.hash hmem with ⟨be, hbe, hrow⟩
    rcases addRow_conf_iff.mp hrow with ⟨hhash, htxid⟩
    have hstored := h.stored hbe
    rw [← hhash, h.valid.stored b hb] at hstored
    rw [Option.some.inj hstored]
    exact htxid
  · intro htxid
    exact h.conf_mem _ hentry txid (addRow_conf_iff.mpr ⟨rfl, htxid⟩)

theorem chainSpend_of_edge {key : TxEdgeKey} (hkey : HistoryKey.edge key ∈ store.disk.history)
    {be : BlockEntry} (hbe : be ∈ chainEntries blocks)
    (htxid : key.spendingTxid ∈ be.block.txdata.map Transaction.txid) :
    ChainSpend blocks { txid := key.fundingTxid, vout := key.fundingVout } {
      txid := key.spendingTxid
      vin := key.spendingVin
      confirmed := some (BlockId.ofEntry be.entry) } := by
  rcases h.edge_source key hkey with ⟨be', hbe', hrow⟩
  rcases indexRow_edge_iff.mp hrow with ⟨tx', i, txi, htx', htxi, hprevout, heq⟩
  rcases List.mem_map.mp htxid with ⟨tx, htx, htxeq⟩
  have hinput : tx.input = tx'.input := by
    apply (T.txid_commits (h.stored (Or.inl hbe)) (h.stored hbe') htx htx' _).left
    rw [htxeq, heq]
  rw [heq] at htxeq ⊢
  refine ⟨be, tx, i, txi, hbe, htx, ?_, hprevout, rfl, ?_⟩
  · rw [hinput]
    exact htxi
  · rw [htxeq]

theorem exists_edge (hspend : ChainSpend blocks outpoint spend) :
    exists key, HistoryKey.edge key ∈ store.disk.history ∧
      key.fundingTxid = outpoint.txid ∧ key.fundingVout = outpoint.vout ∧
      (ChainQuery.txConfirmingBlock store key.spendingTxid).isSome := by
  rcases hspend with ⟨be, tx, i, txi, hbe, htx, htxi, hprevout, hout, _⟩
  refine ⟨_, h.edge_mem be hbe _ (.edge htx htxi hprevout), ?_, ?_, ?_⟩
  · rw [hout]
  · rw [hout]
  · rw [(ChainQuery.txConfirmingBlock_eq_some h.headers h.valid h.confirms).mpr
      ⟨be, hbe, List.mem_map_of_mem htx, rfl⟩]
    rfl

end

end HoldsSpends

theorem chainSpend_of_lookupSpend (h : HoldsSpends T cfg blocks store)
    (hsome : ChainQuery.lookupSpend store outpoint = some spend) :
    ChainSpend blocks outpoint spend := by
  rcases List.exists_of_findSome?_eq_some hsome with ⟨⟨k, v⟩, hrow, hk⟩
  rcases mem_scan.mp hrow with ⟨hv, hpref⟩
  rcases edgeFilter_isPrefixOf_iff.mp hpref with ⟨key, heq, htxid, hvout⟩
  cases heq
  rcases Option.map_eq_some_iff.mp hk with ⟨blockid, hblockid, hspend⟩
  rcases (ChainQuery.txConfirmingBlock_eq_some h.headers h.valid
    h.confirms).mp hblockid with ⟨be, hbe, hmem, hid⟩
  have hchain := h.chainSpend_of_edge (mem_of_getElem? hv) hbe hmem
  rw [htxid, hvout] at hchain
  rw [← hspend, hid]
  exact hchain

theorem lookupSpend_isSome (h : HoldsSpends T cfg blocks store)
    (hspend : ChainSpend blocks outpoint spend) :
    (ChainQuery.lookupSpend store outpoint).isSome := by
  rcases h.exists_edge hspend with ⟨key, hkey, htxid, hvout, hconfirmed⟩
  rcases mem_iff_exists.mp hkey with ⟨v, hv⟩
  rw [ChainQuery.lookupSpend, List.findSome?_isSome_iff]
  refine ⟨(.edge key, v), mem_scan.mpr ⟨hv, ?_⟩, ?_⟩
  · exact edgeFilter_isPrefixOf_iff.mpr ⟨key, rfl, htxid, hvout⟩
  · rw [Option.isSome_map]
    exact hconfirmed

/-- The spend of the best chain, with its block, or nothing, whatever orphaned blocks left behind.
-/
theorem lookupSpend_exact (h : HoldsSpends T cfg blocks store)
    (honce : SpendsOnce blocks) (outpoint : OutPoint) :
    (forall spend, ChainQuery.lookupSpend store outpoint = some spend <->
      ChainSpend blocks outpoint spend) ∧
    (ChainQuery.lookupSpend store outpoint = none <->
      forall spend, ¬ ChainSpend blocks outpoint spend) := by
  have hsome : forall spend, ChainQuery.lookupSpend store outpoint = some spend <->
        ChainSpend blocks outpoint spend := by
    intro spend
    refine ⟨chainSpend_of_lookupSpend h, ?_⟩
    intro hspend
    rcases Option.isSome_iff_exists.mp (lookupSpend_isSome h hspend) with ⟨spend', hspend'⟩
    rw [hspend', honce outpoint spend' spend (chainSpend_of_lookupSpend h hspend') hspend]
  refine ⟨hsome, ?_⟩
  rw [Option.eq_none_iff_forall_ne_some]
  exact forall_congr' fun spend => not_congr (hsome spend)

/-!
## Stores with left-behind edges
-/

theorem Exact.holdsSpends (h : Exact T cfg store blocks) :
    HoldsSpends T cfg blocks store where
  headers := h.headers
  valid := h.valid
  edge_mem := by
    intro be hbe key hrow
    apply mem_of_getElem? (v := [])
    exact h.history.getElem? (by simp [IsHistoryKey, IsAddr]) hbe ⟨rfl, hrow⟩
  edge_source := by
    intro key hkey
    rcases mem_iff_exists.mp hkey with ⟨v, hv⟩
    rcases (h.history _ (by simp [IsHistoryKey, IsAddr]) v).mp hv with ⟨be, hbe, hrow⟩
    exact ⟨be, Or.inl hbe, hrow.right⟩
  conf_mem := by
    intro be hbe txid hrow
    apply mem_of_getElem? (v := .empty)
    exact h.txstore.getElem? (by simp [IsStoreKey]) hbe hrow
  conf_source := by
    intro txid hash hmem
    rcases mem_iff_exists.mp hmem with ⟨v, hv⟩
    rcases (h.txstore _ (by simp [IsStoreKey]) v).mp hv with ⟨be, hbe, hrow⟩
    refine ⟨be, Or.inl hbe, ?_⟩
    generalize hk : TxstoreKey.conf txid hash = k at hrow ⊢
    cases hrow with
    | conf htx => exact .conf htx
    | _ => cases hk

def leaveEdge (store : Store) (key : TxEdgeKey) (hash : BlockHash) : Store :=
  { store with
    disk := { store.disk with
      history := store.disk.history.insert (.edge key) []
      txstore := store.disk.txstore.insert (.conf key.spendingTxid hash)
        .empty } }

theorem HoldsSpends.leaveEdge (h : HoldsSpends T cfg blocks store)
    {be : BlockEntry} {key : TxEdgeKey} (horphan : IsOrphan T blocks be)
    (hrow : IndexRow T cfg be (.edge key)) :
    HoldsSpends T cfg blocks (leaveEdge store key be.entry.hash) where
  headers := h.headers
  valid := h.valid
  edge_mem := by
    intro be' hbe' key' hrow'
    exact mem_insert_iff.mpr (Or.inr (h.edge_mem be' hbe' key' hrow'))
  edge_source := by
    intro key' hkey'
    rcases mem_insert_iff.mp hkey' with heq | hold
    · injection heq with heq
      rw [← heq]
      exact ⟨be, Or.inr horphan, hrow⟩
    · exact h.edge_source key' hold
  conf_mem := by
    intro be' hbe' txid hrow'
    exact mem_insert_iff.mpr (Or.inr (h.conf_mem be' hbe' txid hrow'))
  conf_source := by
    intro txid hash hmem
    rcases mem_insert_iff.mp hmem with heq | hold
    · injection heq with htxid hhash
      refine ⟨be, Or.inr horphan, addRow_conf_iff.mpr ⟨hhash.symm, ?_⟩⟩
      rcases indexRow_edge_iff.mp hrow with ⟨tx, _, _, htx, _, _, hkey⟩
      rw [← htxid, hkey]
      exact List.mem_map_of_mem htx
    · exact h.conf_source txid hash hold

end Spends

namespace Sample

def blockD : Block where
  header := header 6 1
  txdata := [coinbase 109 [6], payment 108 101 [8]]
  size := 300
  weight := 1200

def spendTree : BlockTree :=
  BlockTree.ofList [genesis, blockA, blockD] (by decide) (by decide)

def spendDaemon : Daemon spendTree :=
  daemonOf genesis [blockA] ⟨⟨by decide, by decide⟩, by decide, by decide⟩

def spendA : SpendingInput where
  txid := 103
  vin := 0
  confirmed := some { height := 1, hash := 2, time := 0 }

theorem eq_spendA {outpoint : OutPoint} {spend : SpendingInput}
    (h : ChainSpend [genesis, blockA] outpoint spend) : spend = spendA := by
  rcases h with ⟨be, tx, i, txi, hbe, htx, htxi, hprevout, _, hspend⟩
  have hall : forall be, be ∈ chainEntries [genesis, blockA] ->
      forall tx, tx ∈ be.block.txdata -> forall p, p ∈ tx.input.zipIdx ->
        hasPrevout p.1 = true -> tx.txid = 103 ∧ p.2 = 0 ∧
          BlockId.ofEntry be.entry = { height := 1, hash := 2, time := 0 } := by
    decide
  have hp := List.mk_mem_zipIdx_iff_getElem?.mpr htxi
  rcases hall be hbe tx htx (txi, i) hp hprevout with ⟨htxid, hi, hid⟩
  rw [hspend, htxid, hid, show i = 0 from hi]
  rfl

def edgeD : TxEdgeKey where
  fundingTxid := 101
  fundingVout := 0
  spendingTxid := 108
  spendingVin := 0

theorem lookupSpend_passes_orphan :
    exists store, run config [.update .bitcoind spendDaemon] = .ok store ∧
      HoldsSpends spendTree config [genesis, blockA] (leaveEdge store edgeD 6) ∧
      ChainQuery.lookupSpend (leaveEdge store edgeD 6) { txid := 101, vout := 0 } = some spendA ∧
      ChainQuery.lookupSpend (leaveEdge store edgeD 6) { txid := 103, vout := 0 } = none := by
  have heval : exists store, run config [.update .bitcoind spendDaemon] = .ok store := by
    decide +kernel
  rcases heval with ⟨store, hrun⟩
  have hreturn : NoReturn ([.update .bitcoind spendDaemon] : List (Event spendTree)) :=
    atEveryUpdate_update.mpr ⟨atEveryUpdate_nil, by decide⟩
  have hexact : Exact spendTree config store [genesis, blockA] :=
    (wholeInv_of_noReturn hrun hreturn).inv.exact
  have horphan : IsOrphan spendTree [genesis, blockA] (blockEntryAt blockD 1) :=
    ⟨rfl, by decide⟩
  have hrow : IndexRow spendTree config (blockEntryAt blockD 1) (.edge edgeD) :=
    @IndexRow.edge _ _ _ (payment 108 101 [8]) 0
      { previousOutput := { txid := 101, vout := 0 } } (by decide) rfl rfl
  have hholds := hexact.holdsSpends.leaveEdge horphan hrow
  have honce : SpendsOnce [genesis, blockA] := by
    intro outpoint spend spend' hspend hspend'
    rw [eq_spendA hspend, eq_spendA hspend']
  refine ⟨store, hrun, hholds, ?_, ?_⟩
  · apply ((lookupSpend_exact hholds honce _).left spendA).mpr
    exact ⟨blockEntryAt blockA 1, payment 103 101 [3], 0,
      { previousOutput := { txid := 101, vout := 0 } }, by decide, by decide,
      rfl, rfl, rfl, rfl⟩
  · apply (lookupSpend_exact hholds honce _).right.mpr
    intro spend hspend
    rcases hspend with ⟨be, tx, i, txi, hbe, htx, htxi, _, hout, _⟩
    have hnone : forall be, be ∈ chainEntries [genesis, blockA] ->
        forall tx, tx ∈ be.block.txdata -> forall txi, txi ∈ tx.input ->
          txi.previousOutput ≠ { txid := 103, vout := 0 } := by
      decide
    exact hnone be hbe tx htx txi (List.mem_of_getElem? htxi) hout

end Sample

end NewIndex
end Splora
