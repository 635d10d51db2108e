import Splora.NewIndex.ScriptHistory

/-!
# Statistics of a script

The loop of `ChainQuery::stats` counts each transaction once because the rows of a block follow
each other.  A cache entry has the numbers of the chain that ends with its block, and is used
only when this block is on the best chain.
-/

namespace Splora
namespace NewIndex

open Foundation

/-!
## Sets and lists
-/

section Counting

variable {α : Type} {s : Set α} {l : List α}

theorem ncard_eq_length (hnodup : l.Nodup) (hmem : forall a, a ∈ s <-> a ∈ l) :
    s.ncard = l.length := by
  classical
  have hs : s = ↑l.toFinset := by
    ext a
    rw [hmem, List.coe_toFinset, Set.mem_ofPred_eq]
  rw [hs, Set.ncard_coe_finset, List.toFinset_card_of_nodup hnodup]

theorem finsum_mem_eq_sum (hnodup : l.Nodup) (hmem : forall a, a ∈ s <-> a ∈ l) (f : α -> Nat) :
    (finsum fun a => finsum fun _ : a ∈ s => f a) = (l.map f).sum := by
  classical
  have hs : s = ↑l.toFinset := by
    ext a
    rw [hmem, List.coe_toFinset, Set.mem_ofPred_eq]
  rw [hs, finsum_mem_coe_finset, List.sum_toFinset f hnodup]

end Counting

/-!
## What is counted
-/

section Spec

variable (T : BlockTree) (cfg : IndexerConfig) (scripthash : FullHash)
  (blocks : List Block)

def fundings : Set FundingInfo :=
  {info | exists (b : Block) (tx : Transaction) (i : Nat) (txo : TxOut),
    b ∈ blocks ∧ tx ∈ b.txdata ∧ tx.output[i]? = some txo ∧
    cfg.isIndexed txo = true ∧
    cfg.computeScriptHash txo.scriptPubkey = scripthash ∧
    info = { txid := tx.txid, vout := i.toUInt32, value := txo.value }}

def spendings : Set SpendingInfo :=
  {info | exists (b : Block) (tx : Transaction) (i : Nat) (txi : TxIn) (txo : TxOut),
    b ∈ blocks ∧ tx ∈ b.txdata ∧ tx.input[i]? = some txi ∧
    hasPrevout txi = true ∧ T.HasTxo txi.previousOutput txo ∧
    cfg.computeScriptHash txo.scriptPubkey = scripthash ∧
    info = {
      txid := tx.txid
      vin := i.toUInt32
      prevTxid := txi.previousOutput.txid
      prevVout := txi.previousOutput.vout
      value := txo.value }}

def touchingTxids : Set Txid :=
  {txid | (exists info, info ∈ fundings cfg scripthash blocks ∧ info.txid = txid) ∨
    exists info, info ∈ spendings T cfg scripthash blocks ∧ info.txid = txid}

/-- The statistics of a script on a chain; the sums are those of `u64` values. -/
structure StatsOf (stats : ScriptStats) : Prop where
  txCount : stats.txCount = (touchingTxids T cfg scripthash blocks).ncard
  fundedTxoCount : stats.fundedTxoCount = (fundings cfg scripthash blocks).ncard
  spentTxoCount : stats.spentTxoCount = (spendings T cfg scripthash blocks).ncard
  fundedTxoSum : stats.fundedTxoSum = UInt64.ofNat
    (finsum fun info => finsum fun _ : info ∈ fundings cfg scripthash blocks =>
      info.value.toNat)
  spentTxoSum : stats.spentTxoSum = UInt64.ofNat (finsum fun info =>
      finsum fun _ : info ∈ spendings T cfg scripthash blocks =>
        info.value.toNat)

end Spec

/-!
## The loop
-/

def TxHistoryInfo.funding? : TxHistoryInfo -> Option FundingInfo
  | .funding info => some info
  | .spending _ => none

def TxHistoryInfo.spending? : TxHistoryInfo -> Option SpendingInfo
  | .funding _ => none
  | .spending info => some info

theorem TxHistoryInfo.funding?_eq_some {x : TxHistoryInfo} {info : FundingInfo} :
    x.funding? = some info <-> x = .funding info := by
  cases x <;> simp [funding?]

theorem TxHistoryInfo.spending?_eq_some {x : TxHistoryInfo} {info : SpendingInfo} :
    x.spending? = some info <-> x = .spending info := by
  cases x <;> simp [spending?]

theorem length_filterMap_txinfo (rows : List (TxHistoryKey × BlockId)) :
    rows.length = (rows.filterMap fun row => row.1.txinfo.funding?).length +
      (rows.filterMap fun row => row.1.txinfo.spending?).length := by
  induction rows with
  | nil => rfl
  | cons row rest ih =>
    cases hinfo : row.1.txinfo with
    | funding info => simp [TxHistoryInfo.funding?, TxHistoryInfo.spending?, hinfo, ih]; omega
    | spending info => simp [TxHistoryInfo.funding?, TxHistoryInfo.spending?, hinfo, ih]; omega

structure Grouped (rows : List (TxHistoryKey × BlockId)) : Prop where
  ascending : rows.Pairwise fun row row' => row.2.height ≤ row'.2.height
  hash_of_txid : forall row, row ∈ rows -> forall row', row' ∈ rows ->
    row.1.getTxid = row'.1.getTxid -> row.2.hash = row'.2.hash
  height_iff_hash : forall row, row ∈ rows -> forall row', row' ∈ rows ->
    (row.2.height = row'.2.height <-> row.2.hash = row'.2.hash)

theorem Grouped.left {rows rows' : List (TxHistoryKey × BlockId)}
    (h : Grouped (rows ++ rows')) : Grouped rows where
  ascending := (List.pairwise_append.mp h.ascending).left
  hash_of_txid := by
    intro row hrow row' hrow'
    exact h.hash_of_txid row (List.mem_append_left _ hrow) row' (List.mem_append_left _ hrow')
  height_iff_hash := by
    intro row hrow row' hrow'
    exact h.height_iff_hash row (List.mem_append_left _ hrow) row' (List.mem_append_left _ hrow')

namespace StatsState

structure Counted (rows : List (TxHistoryKey × BlockId)) (st : StatsState) :
    Prop where
  lastblock : st.lastblock = rows.getLast?.map fun row => row.2.hash
  seen : forall txid, txid ∈ st.seenTxids <->
    exists row, row ∈ rows ∧ row.1.getTxid = txid ∧ some row.2.hash = st.lastblock
  txCount : st.stats.txCount = (rows.map fun row => row.1.getTxid).toFinset.card
  fundedTxoCount : st.stats.fundedTxoCount =
    (rows.filterMap fun row => row.1.txinfo.funding?).length
  spentTxoCount : st.stats.spentTxoCount = (rows.filterMap fun row => row.1.txinfo.spending?).length
  fundedTxoSum : st.stats.fundedTxoSum = UInt64.ofNat
    ((rows.filterMap fun row => row.1.txinfo.funding?).map fun info => info.value.toNat).sum
  spentTxoSum : st.stats.spentTxoSum = UInt64.ofNat
    ((rows.filterMap fun row => row.1.txinfo.spending?).map fun info => info.value.toNat).sum

def seenIn (st : StatsState) (blockid : BlockId) : Finset Txid :=
  if st.lastblock = some blockid.hash then st.seenTxids else ∅

theorem step_seenTxids (st : StatsState) (row : TxHistoryKey × BlockId) :
    (st.step row).seenTxids = insert row.1.getTxid (st.seenIn row.2) := by
  change (countTx { st with seenTxids := st.seenIn row.2 } _).seenTxids = _
  unfold countTx
  split
  · rename_i hseen
    exact (Finset.insert_eq_self.mpr hseen).symm
  · rfl

theorem step_stats (st : StatsState) (row : TxHistoryKey × BlockId) :
    (st.step row).stats = countTxo { st.stats with
      txCount := if row.1.getTxid ∈ st.seenIn row.2 then st.stats.txCount
        else st.stats.txCount + 1 } row.1.txinfo := by
  change countTxo (countTx { st with seenTxids := st.seenIn row.2 } _).stats _ = _
  unfold countTx
  split <;> rfl

theorem countTxo_txCount (stats : ScriptStats) (info : TxHistoryInfo) :
    (countTxo stats info).txCount = stats.txCount := by
  cases info <;> rfl

namespace Counted

variable {rows : List (TxHistoryKey × BlockId)} {st : StatsState}
  {row : TxHistoryKey × BlockId}

theorem start : Counted [] (StatsState.start ScriptStats.default) where
  lastblock := rfl
  seen := by simp [StatsState.start]
  txCount := rfl
  fundedTxoCount := rfl
  spentTxoCount := rfl
  fundedTxoSum := rfl
  spentTxoSum := rfl

section

variable (h : Counted rows st) (hgrouped : Grouped (rows ++ [row]))

include h hgrouped

theorem lastblock_eq {r : TxHistoryKey × BlockId} (hr : r ∈ rows) (hhash : r.2.hash = row.2.hash) :
    st.lastblock = some row.2.hash := by
  rcases List.eq_nil_or_concat rows with rfl | ⟨front, last, rfl⟩
  · cases hr
  rw [List.concat_eq_append] at *
  rcases List.pairwise_append.mp hgrouped.ascending with ⟨hascending, _, hbelow⟩
  have hle : r.2.height ≤ last.2.height := by
    rcases List.mem_append.mp hr with hfront | heq
    · exact (List.pairwise_append.mp hascending).right.right r hfront last (by simp)
    · rw [List.mem_singleton.mp heq]
  have hge : last.2.height ≤ row.2.height := hbelow last (by simp) row (by simp)
  rw [(hgrouped.height_iff_hash r (List.mem_append_left _ hr) row (by simp)).mpr hhash] at hle
  rw [h.lastblock, List.getLast?_concat]
  exact congrArg some ((hgrouped.height_iff_hash last (by simp) row
    (by simp)).mp (Nat.le_antisymm hge hle))

theorem mem_seenIn {txid : Txid} :
    txid ∈ st.seenIn row.2 <-> exists r, r ∈ rows ∧ r.1.getTxid = txid ∧ r.2.hash = row.2.hash := by
  unfold seenIn
  split
  · rename_i hlast
    rw [h.seen, hlast]
    simp only [Option.some.injEq]
  · rename_i hlast
    refine iff_of_false (Finset.notMem_empty _) ?_
    rintro ⟨r, hr, _, hhash⟩
    exact hlast (h.lastblock_eq hgrouped hr hhash)

theorem getTxid_mem_seenIn :
    row.1.getTxid ∈ st.seenIn row.2 <-> row.1.getTxid ∈ rows.map fun row => row.1.getTxid := by
  rw [h.mem_seenIn hgrouped, List.mem_map]
  constructor
  · rintro ⟨r, hr, htxid, _⟩
    exact ⟨r, hr, htxid⟩
  · rintro ⟨r, hr, htxid⟩
    exact ⟨r, hr, htxid, hgrouped.hash_of_txid r (List.mem_append_left _ hr) row (by simp) htxid⟩

theorem concat : Counted (rows ++ [row]) (st.step row) where
  lastblock := by
    rw [List.getLast?_concat]
    rfl
  seen := by
    intro txid
    have hlast : (st.step row).lastblock = some row.2.hash := rfl
    rw [step_seenTxids, Finset.mem_insert, h.mem_seenIn hgrouped, hlast]
    simp only [List.mem_append, List.mem_singleton, Option.some.injEq]
    constructor
    · rintro (rfl | ⟨r, hr, htxid, hhash⟩)
      · exact ⟨row, Or.inr rfl, rfl, rfl⟩
      · exact ⟨r, Or.inl hr, htxid, hhash⟩
    · rintro ⟨r, hr | rfl, htxid, hhash⟩
      · exact Or.inr ⟨r, hr, htxid, hhash⟩
      · exact Or.inl htxid.symm
  txCount := by
    rw [step_stats, countTxo_txCount, List.map_append, List.map_singleton,
      List.toFinset_append, List.toFinset_cons, List.toFinset_nil,
      Finset.union_comm, Finset.insert_union, Finset.empty_union,
      Finset.card_insert_eq_ite]
    simp only [h.getTxid_mem_seenIn hgrouped, h.txCount, List.mem_toFinset]
  fundedTxoCount := by
    rw [step_stats, List.filterMap_append, List.length_append, ← h.fundedTxoCount]
    cases hinfo : row.1.txinfo <;>
      simp [hinfo, countTxo, TxHistoryInfo.funding?]
  spentTxoCount := by
    rw [step_stats, List.filterMap_append, List.length_append, ← h.spentTxoCount]
    cases hinfo : row.1.txinfo <;>
      simp [hinfo, countTxo, TxHistoryInfo.spending?]
  fundedTxoSum := by
    rw [step_stats, List.filterMap_append, List.map_append, List.sum_append,
      UInt64.ofNat_add, ← h.fundedTxoSum]
    cases hinfo : row.1.txinfo <;>
      simp [hinfo, countTxo, TxHistoryInfo.funding?]
  spentTxoSum := by
    rw [step_stats, List.filterMap_append, List.map_append, List.sum_append,
      UInt64.ofNat_add, ← h.spentTxoSum]
    cases hinfo : row.1.txinfo <;>
      simp [hinfo, countTxo, TxHistoryInfo.spending?]

end

theorem foldl (hgrouped : Grouped rows) :
    Counted rows (rows.foldl step (StatsState.start ScriptStats.default)) := by
  induction rows using List.reverseRecOn with
  | nil => exact Counted.start
  | append_singleton front row ih =>
    rw [List.foldl_concat]
    exact (ih hgrouped.left).concat hgrouped

end Counted

end StatsState

/-!
## The rows of a chain
-/

section Rows

variable {T : BlockTree} {cfg : IndexerConfig} {scripthash : FullHash}
  {blocks : List Block} {rows : List (TxHistoryKey × BlockId)}

theorem txPosition_unique (hvalid : ValidChain T blocks) {b : Block}
    (hb : b ∈ blocks) {idx idx' : Nat} {tx tx' : Transaction}
    (htx : b.txdata[idx]? = some tx) (htx' : b.txdata[idx']? = some tx')
    (htxid : tx.txid = tx'.txid) : idx = idx' := by
  have hnodup : (b.txdata.map Transaction.txid).Nodup :=
    (List.nodup_flatMap.mp hvalid.txids_nodup).left b hb
  have hlt : idx < (b.txdata.map Transaction.txid).length := by
    simpa using (List.getElem?_eq_some_iff.mp htx).1
  apply (List.getElem?_inj hlt hnodup).mp
  rw [List.getElem?_map, List.getElem?_map, htx, htx']
  exact congrArg some htxid

theorem ScriptRow.eq_of_txinfo (hvalid : ValidChain T blocks) {row row' : TxHistoryKey × BlockId}
    (h : ScriptRow T cfg scripthash blocks row)
    (h' : ScriptRow T cfg scripthash blocks row')
    (hinfo : row.1.txinfo = row'.1.txinfo) : row = row' := by
  rcases h with ⟨hhash, be, hbe, hindex, hblock⟩
  rcases h' with ⟨hhash', be', hbe', hindex', hblock'⟩
  rcases indexRow_history hindex with ⟨hcode, hheight, idx, tx, htx, hpos, htxid⟩
  rcases indexRow_history hindex' with ⟨hcode', hheight', idx', tx', htx', hpos', htxid'⟩
  have heq : tx.txid = tx'.txid := by
    rw [← htxid, ← htxid', TxHistoryKey.getTxid, hinfo, TxHistoryKey.getTxid]
  have hbe : be = be' := (tx_unique hvalid.txids_nodup hbe hbe'
    (List.mem_of_getElem? htx) (List.mem_of_getElem? htx') heq).left
  subst hbe
  have hidx : idx = idx' := txPosition_unique hvalid
    (block_mem_of_mem_blockEntriesFrom hbe') htx htx' heq
  refine Prod.ext (TxHistoryKey.ext ?_ ?_ ?_ ?_ hinfo) ?_
  · rw [hcode, hcode']
  · rw [hhash, hhash']
  · rw [hheight, hheight']
  · rw [hpos, hpos', hidx]
  · rw [hblock, hblock']

theorem exists_scriptRow_funding {info : FundingInfo} :
    (exists row, ScriptRow T cfg scripthash blocks row ∧
      row.1.txinfo = .funding info) <-> info ∈ fundings cfg scripthash blocks := by
  constructor
  · rintro ⟨⟨k, blockid⟩, ⟨hhash, be, hbe, hindex, _⟩, hinfo⟩
    cases hindex with
    | funding htx htxo hindexed =>
      cases hinfo
      exact ⟨be.block, _, _, _, block_mem_of_mem_blockEntriesFrom hbe,
        List.mem_of_getElem? htx, htxo, hindexed, hhash, rfl⟩
    | spending => cases hinfo
  · rintro ⟨b, tx, i, txo, hb, htx, htxo, hindexed, hhash, rfl⟩
    rcases List.getElem?_of_mem hb with ⟨j, hj⟩
    rcases List.getElem?_of_mem htx with ⟨idx, hidx⟩
    exact ⟨(_, _), ⟨hhash, blockEntryAt b j, mem_chainEntries.mpr ⟨j, b, hj, rfl⟩,
      .funding hidx htxo hindexed, rfl⟩, rfl⟩

theorem exists_scriptRow_spending {info : SpendingInfo} :
    (exists row, ScriptRow T cfg scripthash blocks row ∧ row.1.txinfo = .spending info) <->
      info ∈ spendings T cfg scripthash blocks := by
  constructor
  · rintro ⟨⟨k, blockid⟩, ⟨hhash, be, hbe, hindex, _⟩, hinfo⟩
    cases hindex with
    | funding => cases hinfo
    | spending htx htxi hprevout htxo =>
      cases hinfo
      exact ⟨be.block, _, _, _, _, block_mem_of_mem_blockEntriesFrom hbe,
        List.mem_of_getElem? htx, htxi, hprevout, htxo, hhash, rfl⟩
  · rintro ⟨b, tx, i, txi, txo, hb, htx, htxi, hprevout, htxo, hhash, rfl⟩
    rcases List.getElem?_of_mem hb with ⟨j, hj⟩
    rcases List.getElem?_of_mem htx with ⟨idx, hidx⟩
    exact ⟨(_, _), ⟨hhash, blockEntryAt b j, mem_chainEntries.mpr ⟨j, b, hj, rfl⟩,
      .spending hidx htxi hprevout htxo, rfl⟩, rfl⟩

namespace ScriptHistory

section

variable (h : ScriptHistory T cfg scripthash blocks rows)

include h

theorem nodup : rows.Nodup := by
  refine h.sorted.imp ?_
  intro row row' hbefore heq
  rw [heq] at hbefore
  exact TxHistoryKey.Before.irrefl _ hbefore

theorem grouped (hvalid : ValidChain T blocks) : Grouped rows where
  ascending := h.ascending hvalid.length_lt
  hash_of_txid := by
    intro row hrow row' hrow' htxid
    rcases (h.mem_iff row).mp hrow with ⟨_, be, hbe, hindex, hblock⟩
    rcases (h.mem_iff row').mp hrow' with ⟨_, be', hbe', hindex', hblock'⟩
    rcases indexRow_history hindex with ⟨_, _, _, tx, htx, _, heq⟩
    rcases indexRow_history hindex' with ⟨_, _, _, tx', htx', _, heq'⟩
    rw [heq, heq'] at htxid
    rw [hblock, hblock', (tx_unique hvalid.txids_nodup hbe hbe'
      (List.mem_of_getElem? htx) (List.mem_of_getElem? htx') htxid).left]
  height_iff_hash := by
    intro row hrow row' hrow'
    rcases (h.mem_iff row).mp hrow with ⟨_, be, hbe, _, hblock⟩
    rcases (h.mem_iff row').mp hrow' with ⟨_, be', hbe', _, hblock'⟩
    rw [hblock, hblock']
    constructor
    · intro hheight
      rcases mem_chainEntries.mp hbe with ⟨i, b, hb, rfl⟩
      rcases mem_chainEntries.mp hbe' with ⟨j, b', hb', rfl⟩
      change i = j at hheight
      rw [hheight, hb'] at hb
      rw [Option.some.inj hb, hheight]
    · intro hhash
      rw [entry_eq_of_hash_eq hvalid.toIsChain hbe hbe' hhash]

theorem nodup_filterMap (hvalid : ValidChain T blocks) {f : TxHistoryInfo -> Option α}
    (hf : forall x y a, f x = some a -> f y = some a -> x = y) :
    (rows.filterMap fun row => f row.1.txinfo).Nodup := by
  rw [List.Nodup, List.pairwise_filterMap]
  refine h.sorted.imp_of_mem ?_
  intro row row' hrow hrow' hbefore a ha a' ha' heq
  rw [← heq] at ha'
  have hsame : row = row' := ScriptRow.eq_of_txinfo hvalid
    ((h.mem_iff row).mp hrow) ((h.mem_iff row').mp hrow') (hf _ _ a ha ha')
  rw [hsame] at hbefore
  exact TxHistoryKey.Before.irrefl _ hbefore

theorem nodup_fundings (hvalid : ValidChain T blocks) :
    (rows.filterMap fun row => row.1.txinfo.funding?).Nodup := by
  apply h.nodup_filterMap hvalid
  intro x y info hx hy
  rw [TxHistoryInfo.funding?_eq_some] at hx hy
  rw [hx, hy]

theorem nodup_spendings (hvalid : ValidChain T blocks) :
    (rows.filterMap fun row => row.1.txinfo.spending?).Nodup := by
  apply h.nodup_filterMap hvalid
  intro x y info hx hy
  rw [TxHistoryInfo.spending?_eq_some] at hx hy
  rw [hx, hy]

theorem mem_fundings (info : FundingInfo) :
    info ∈ fundings cfg scripthash blocks <->
      info ∈ rows.filterMap fun row => row.1.txinfo.funding? := by
  simp only [← exists_scriptRow_funding (T := T), List.mem_filterMap, h.mem_iff,
    TxHistoryInfo.funding?_eq_some]

theorem mem_spendings (info : SpendingInfo) :
    info ∈ spendings T cfg scripthash blocks <->
      info ∈ rows.filterMap fun row => row.1.txinfo.spending? := by
  simp only [← exists_scriptRow_spending, List.mem_filterMap, h.mem_iff,
    TxHistoryInfo.spending?_eq_some]

theorem mem_touchingTxids (txid : Txid) :
    txid ∈ touchingTxids T cfg scripthash blocks <->
      txid ∈ (rows.map fun row => row.1.getTxid).dedup := by
  rw [List.mem_dedup, List.mem_map]
  constructor
  · rintro (⟨info, hinfo, rfl⟩ | ⟨info, hinfo, rfl⟩)
    · rcases (exists_scriptRow_funding (T := T)).mpr hinfo with ⟨row, hrow, heq⟩
      refine ⟨row, (h.mem_iff row).mpr hrow, ?_⟩
      rw [TxHistoryKey.getTxid, heq, TxHistoryInfo.getTxid]
    · rcases exists_scriptRow_spending.mpr hinfo with ⟨row, hrow, heq⟩
      refine ⟨row, (h.mem_iff row).mpr hrow, ?_⟩
      rw [TxHistoryKey.getTxid, heq, TxHistoryInfo.getTxid]
  · rintro ⟨row, hrow, rfl⟩
    have hscript := (h.mem_iff row).mp hrow
    rw [TxHistoryKey.getTxid]
    cases hinfo : row.1.txinfo with
    | funding info =>
      exact Or.inl ⟨info, exists_scriptRow_funding.mp ⟨row, hscript, hinfo⟩,
        rfl⟩
    | spending info =>
      exact Or.inr ⟨info, exists_scriptRow_spending.mp ⟨row, hscript, hinfo⟩,
        rfl⟩

theorem length_eq (hvalid : ValidChain T blocks) :
    rows.length = (fundings cfg scripthash blocks).ncard +
      (spendings T cfg scripthash blocks).ncard := by
  rw [ncard_eq_length (h.nodup_fundings hvalid) h.mem_fundings,
    ncard_eq_length (h.nodup_spendings hvalid) h.mem_spendings]
  exact length_filterMap_txinfo rows

theorem statsOf (hvalid : ValidChain T blocks) :
    StatsOf T cfg scripthash blocks (rows.foldl StatsState.step
      (StatsState.start ScriptStats.default)).stats := by
  have hcounted := StatsState.Counted.foldl (h.grouped hvalid)
  have hfunded := h.nodup_fundings hvalid
  have hspent := h.nodup_spendings hvalid
  refine ⟨?_, ?_, ?_, ?_, ?_⟩
  · rw [hcounted.txCount, ncard_eq_length (List.nodup_dedup _) h.mem_touchingTxids]
    rfl
  · rw [hcounted.fundedTxoCount, ncard_eq_length hfunded h.mem_fundings]
  · rw [hcounted.spentTxoCount, ncard_eq_length hspent h.mem_spendings]
  · rw [hcounted.fundedTxoSum, finsum_mem_eq_sum hfunded h.mem_fundings]
  · rw [hcounted.spentTxoSum, finsum_mem_eq_sum hspent h.mem_spendings]

end

end ScriptHistory

end Rows

/-!
## The cache
-/

namespace StatsState

theorem step_start {st : StatsState} {row : TxHistoryKey × BlockId}
    (h : st.lastblock ≠ some row.2.hash) :
    st.step row = (start st.stats).step row := by
  have hnone : (start st.stats).lastblock ≠ some row.2.hash := by simp [start]
  rw [step, step, if_neg h, if_neg hnone]
  rfl

theorem foldl_start {st : StatsState} {rows : List (TxHistoryKey × BlockId)}
    (h : forall row, row ∈ rows -> st.lastblock ≠ some row.2.hash) :
    (rows.foldl step st).stats = (rows.foldl step (start st.stats)).stats := by
  cases rows with
  | nil => rfl
  | cons row rest =>
    rw [List.foldl_cons, List.foldl_cons, step_start (h row (by simp))]

theorem foldl_lastblock (stats : ScriptStats) (rows : List (TxHistoryKey × BlockId)) :
    (rows.foldl step (start stats)).lastblock = rows.getLast?.map fun row => row.2.hash := by
  induction rows using List.reverseRecOn with
  | nil => rfl
  | append_singleton front row _ =>
    rw [List.foldl_concat, List.getLast?_concat]
    rfl

end StatsState

section Cache

variable {T : BlockTree} {cfg : IndexerConfig} {store : Store}
  {blocks : List Block} {scripthash : FullHash}

def StatsEntry (T : BlockTree) (cfg : IndexerConfig) (scripthash : FullHash)
    (stats : ScriptStats) (blockhash : BlockHash) : Prop :=
  forall blocks rows, ValidChain T blocks -> tipHash blocks = blockhash ->
    ScriptHistory T cfg scripthash blocks rows -> stats = (rows.foldl StatsState.step
        (StatsState.start ScriptStats.default)).stats

namespace ChainQuery

theorem heightByHash_eq_some (hrep : store.indexedHeaders.Represents blocks)
    {blockhash : BlockHash} {height : Nat}
    (h : heightByHash store blockhash = some height) :
    exists b : Block, blocks[height]? = some b ∧ b.hash = blockhash := by
  rcases Option.map_eq_some_iff.mp h with ⟨entry, hentry, rfl⟩
  rcases hrep.exists_of_headerByBlockhash hentry with ⟨i, b, hb, hhash, rfl⟩
  exact ⟨b, hb, hhash⟩

theorem statsCache_eq_some {stats : ScriptStats} {height : Nat}
    (h : statsCache store scripthash = some (stats, height)) :
    exists blockhash, store.disk.cache[CacheKey.stats scripthash]? = some (.stats stats blockhash) ∧
      heightByHash store blockhash = some height := by
  unfold statsCache at h
  split at h
  · rename_i stats' blockhash hentry
    split at h
    · rcases Option.map_eq_some_iff.mp h with ⟨height', hheight, heq⟩
      cases heq
      exact ⟨blockhash, hentry, hheight⟩
    · cases h
  · cases h

theorem saveStats_cases (store : Store) (scripthash : FullHash)
    (newstats : ScriptStats) (lastblock : Option BlockHash) :
    saveStats store scripthash newstats lastblock = store ∨
      exists blockhash, lastblock = some blockhash ∧ saveStats store scripthash newstats lastblock =
          putCache store (.stats scripthash) (.stats newstats blockhash) := by
  cases lastblock with
  | none => exact Or.inl rfl
  | some blockhash =>
    rw [saveStats]
    by_cases hmin : minHistoryItemsToCache < newstats.fundedTxoCount + newstats.spentTxoCount
    · rw [if_pos hmin]
      exact Or.inr ⟨blockhash, rfl, rfl⟩
    · rw [if_neg hmin]
      exact Or.inl rfl

theorem mem_cache_stats (hmany : minHistoryItemsToCache <
      (stats store scripthash).1.fundedTxoCount + (stats store scripthash).1.spentTxoCount) :
    CacheKey.stats scripthash ∈ (stats store scripthash).2.disk.cache := by
  have hsave : (stats store scripthash).2 = saveStats store scripthash
      (stats store scripthash).1 (newStats store scripthash).2 := rfl
  rw [hsave]
  cases hlast : (newStats store scripthash).2 with
  | some blockhash =>
    rw [saveStats, if_pos hmany]
    exact Std.ExtTreeMap.mem_insert_self
  | none =>
    cases hcache : statsCache store scripthash with
    | some entry =>
      rcases statsCache_eq_some hcache with ⟨blockhash, hentry, _⟩
      exact Std.ExtTreeMap.mem_iff_isSome_getElem?.mpr (hentry ▸ rfl)
    | none =>
      -- without an entry all rows are counted, and there are none
      have hnew : newStats store scripthash =
          statsDelta store scripthash ScriptStats.default 0 := by
        rw [newStats, hcache]
      have hzero : (stats store scripthash).1 = (newStats store scripthash).1 := rfl
      rw [hnew, statsDelta, StatsState.foldl_lastblock, Option.map_eq_none_iff,
        List.getLast?_eq_none_iff] at hlast
      rw [hzero, hnew, statsDelta, hlast] at hmany
      cases hmany

end ChainQuery

open ChainQuery

theorem Exact.statsDelta_succ (h : Exact T cfg store blocks) {i : Nat}
    {b : Block} (hb : blocks[i]? = some b) {stats : ScriptStats}
    (hentry : StatsEntry T cfg scripthash stats b.hash) :
    (statsDelta store scripthash stats (i + 1)).1 =
      (statsDelta store scripthash ScriptStats.default 0).1 := by
  rcases h.history_split scripthash hb with ⟨older, hsplit, holder⟩
  have hstats := hentry _ _ (h.valid.take _) (tipHash_take hb) holder
  unfold statsDelta
  rw [hsplit, List.foldl_append, hstats]
  refine (StatsState.foldl_start ?_).symm
  intro row hrow hlast
  rw [StatsState.foldl_lastblock] at hlast
  rcases Option.map_eq_some_iff.mp hlast with ⟨last, hlast, hhash⟩
  -- the last row counted is of a lower block
  have hmem : last ∈ older := List.mem_of_getLast? hlast
  have hle := (scriptRow_take.mp ((holder.mem_iff last).mp hmem)).right
  have hlt := (h.mem_confirmedHistory_iff.mp hrow).right
  have hi := (List.getElem?_eq_some_iff.mp hb).1
  have hlength := h.valid.length_lt
  rw [toNat_toUInt32 (by omega)] at hlt
  have hgrouped := (h.scriptHistory scripthash).grouped h.valid
  rw [hsplit] at hgrouped
  have heq := (hgrouped.height_iff_hash last (List.mem_append_left _ hmem) row
    (List.mem_append_right _ hrow)).mpr hhash
  omega

theorem Exact.statsEntry (h : Exact T cfg store blocks) {blockhash : BlockHash}
    (hlast : (confirmedHistory store scripthash 0).getLast?.map
      (fun row => row.2.hash) = some blockhash) :
    StatsEntry T cfg scripthash
      (statsDelta store scripthash ScriptStats.default 0).1 blockhash := by
  intro blocks' rows hvalid htip hrows
  rw [(h.scriptHistory scripthash).eq_of_lastblock h.valid hlast hvalid htip hrows]
  rfl

theorem Exact.newStats_eq (h : Exact T cfg store blocks) (hentry : forall stats blockhash,
      store.disk.cache[CacheKey.stats scripthash]? = some (.stats stats blockhash) ->
      StatsEntry T cfg scripthash stats blockhash) :
    (newStats store scripthash).1 = (statsDelta store scripthash ScriptStats.default 0).1 ∧
      forall blockhash, (newStats store scripthash).2 = some blockhash ->
        (confirmedHistory store scripthash 0).getLast?.map
          (fun row => row.2.hash) = some blockhash := by
  unfold newStats
  split
  · refine ⟨rfl, ?_⟩
    intro blockhash hlast
    rwa [statsDelta, StatsState.foldl_lastblock] at hlast
  · rename_i oldstats height hcache
    rcases statsCache_eq_some hcache with ⟨oldhash, hcached, hheight⟩
    rcases heightByHash_eq_some h.headers hheight with ⟨b, hb, rfl⟩
    refine ⟨h.statsDelta_succ hb (hentry _ _ hcached), ?_⟩
    intro blockhash hlast
    rw [statsDelta, StatsState.foldl_lastblock] at hlast
    exact h.lastblock_succ hb hlast

theorem Exact.stats_spec (h : Exact T cfg store blocks) (hentry : forall stats blockhash,
      store.disk.cache[CacheKey.stats scripthash]? = some (.stats stats blockhash) ->
      StatsEntry T cfg scripthash stats blockhash) :
    (stats store scripthash).1 = (statsDelta store scripthash ScriptStats.default 0).1 ∧
      ((stats store scripthash).2 = store ∨ exists newstats blockhash,
          (stats store scripthash).2 = putCache store (.stats scripthash)
            (.stats newstats blockhash) ∧
          StatsEntry T cfg scripthash newstats blockhash) := by
  rcases h.newStats_eq hentry with ⟨heq, hlast⟩
  refine ⟨heq, (saveStats_cases store scripthash (newStats store scripthash).1
    (newStats store scripthash).2).imp_right ?_⟩
  rintro ⟨blockhash, hblock, hput⟩
  refine ⟨_, blockhash, hput, ?_⟩
  rw [heq]
  exact h.statsEntry (hlast blockhash hblock)

end Cache

end NewIndex
end Splora
