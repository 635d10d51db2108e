import Splora.NewIndex.Invariant
import Splora.NewIndex.Query

/-!
# The history of a script

Rows are read by height, then by position.  So those up to a block are a front part, and those
from a height on are what is left.
-/

namespace Splora
namespace NewIndex

open Foundation

/-!
## The order of the rows
-/

namespace TxHistoryKey

variable {k k' k'' : TxHistoryKey} {code : HistoryCode} {hash : FullHash}

def Before (k k' : TxHistoryKey) : Prop :=
  compare k.bytes k'.bytes = .lt

theorem Before.irrefl (k : TxHistoryKey) : ¬ k.Before k := by
  intro h
  have hrefl : compare k.bytes k.bytes = .eq := Std.ReflOrd.compare_self
  rw [Before, hrefl] at h
  cases h

theorem Before.trans (h : k.Before k') (h' : k'.Before k'') : k.Before k'' :=
  Std.TransCmp.lt_trans h h'

theorem compare_bytes (hcode : k.code = k'.code) (hhash : k.hash = k'.hash) :
    compare k.bytes k'.bytes = (compare k.confirmedHeight.toNat k'.confirmedHeight.toNat).then
        ((compare k.txPosition.toNat k'.txPosition.toNat).then
          (compare k.txinfo.bytes k'.txinfo.bytes)) := by
  have hpos : compare (u16Big k.txPosition) (u16Big k'.txPosition) =
      compare k.txPosition.toNat k'.txPosition.toNat :=
    compare_bigEndian k.txPosition.toNat_lt k'.txPosition.toNat_lt
  rw [bytes, bytes, hcode, hhash, compare_height, compare_append (by simp), hpos]

theorem Before.height_le (h : k.Before k') (hcode : k.code = k'.code) (hhash : k.hash = k'.hash) :
    k.confirmedHeight.toNat ≤ k'.confirmedHeight.toNat := by
  by_contra hlt
  rw [Before, compare_bytes hcode hhash, Nat.compare_eq_gt.mpr (Nat.lt_of_not_le hlt)] at h
  cases h

theorem before_of_position (hcode : k.code = k'.code) (hhash : k.hash = k'.hash)
    (h : k.confirmedHeight.toNat < k'.confirmedHeight.toNat ∨
      k.confirmedHeight.toNat = k'.confirmedHeight.toNat ∧
        k.txPosition.toNat < k'.txPosition.toNat) : k.Before k' := by
  rw [Before, compare_bytes hcode hhash]
  rcases h with hheight | ⟨hheight, hpos⟩
  · rw [Nat.compare_eq_lt.mpr hheight]
    rfl
  · rw [Nat.compare_eq_eq.mpr hheight, Nat.compare_eq_lt.mpr hpos]
    rfl

theorem compare_prefixHeight (hcode : k.code = code) (hhash : k.hash = hash) (height : UInt32) :
    compare k.bytes (prefixHeight code hash height) = .lt <->
      k.confirmedHeight.toNat < height.toNat := by
  rw [bytes, prefixHeight, hcode, hhash]
  exact compare_height_start _ _ _ _ _

end TxHistoryKey

theorem filter_isPrefixOf_iff {code : HistoryCode} {hash : FullHash} {k : HistoryKey} :
    (TxHistoryKey.filter code hash).isPrefixOf k.bytes = true <->
      exists key : TxHistoryKey, k = .history key ∧ key.code = code ∧ key.hash = hash := by
  have hother : forall byte rest, code.byte ≠ byte ->
      (TxHistoryKey.filter code hash).isPrefixOf (byte :: rest) = false := by
    intro byte rest hne
    simp [TxHistoryKey.filter, List.isPrefixOf, hne]
  have hcode : code.byte ≠ 'S'.toUInt8 ∧ code.byte ≠ 'D'.toUInt8 ∧
      code.byte ≠ 'a'.toUInt8 ∧ code.byte ≠ 'F'.toUInt8 ∧
      code.byte ≠ 'V'.toUInt8 := by
    cases code <;> decide
  rcases hcode with ⟨hS, hD, ha, hF, hV⟩
  cases k with
  | history key =>
    rw [HistoryKey.bytes, TxHistoryKey.bytes, TxHistoryKey.filter,
      List.isPrefixOf_iff_prefix, List.cons_prefix_cons, HistoryCode.byte_inj,
      field_prefix_iff (by simp), hashBytes_inj]
    constructor
    · rintro ⟨rfl, rfl⟩
      exact ⟨key, rfl, rfl, rfl⟩
    · rintro ⟨key', hkey, rfl, rfl⟩
      cases hkey
      exact ⟨rfl, rfl⟩
  | edge key => simp [HistoryKey.bytes, TxEdgeKey.bytes, hother _ _ hS]
  | done hash' => simp [HistoryKey.bytes, hother _ _ hD]
  | addr address => simp [HistoryKey.bytes, hother _ _ ha]
  | compacted => simp [HistoryKey.bytes, hother _ _ hF]
  | version => simp [HistoryKey.bytes, hother _ _ hV]

/-!
## Scans
-/

namespace ChainQuery

section Scan

variable {store : Store} {code : HistoryCode} {hash : FullHash}
  {startHeight : Nat}

theorem mem_historyIterScan {k : TxHistoryKey} :
    k ∈ historyIterScan store code hash startHeight <->
      HistoryKey.history k ∈ store.disk.history ∧ k.code = code ∧ k.hash = hash ∧
        startHeight.toUInt32.toNat ≤ k.confirmedHeight.toNat := by
  have hstart : (TxHistoryKey.filter code hash).isPrefixOf
      (TxHistoryKey.prefixHeight code hash startHeight.toUInt32) = true := by
    rw [List.isPrefixOf_iff_prefix, TxHistoryKey.filter,
      TxHistoryKey.prefixHeight, List.cons_prefix_cons]
    exact ⟨rfl, List.prefix_append _ _⟩
  unfold historyIterScan
  rw [scanFrom_eq_filter _ hstart]
  simp only [List.mem_filterMap, List.mem_filter, filter_isPrefixOf_iff,
    Prod.exists, Std.ExtTreeMap.mem_toList_iff_getElem?_eq_some]
  constructor
  · rintro ⟨key, v, ⟨⟨hv, hlow⟩, key', rfl, hcode, hhash⟩, hk⟩
    cases hk
    refine ⟨?_, hcode, hhash, ?_⟩
    · exact mem_of_getElem? hv
    · by_contra hlt
      have := (TxHistoryKey.compare_prefixHeight hcode hhash _).mpr (Nat.lt_of_not_le hlt)
      simp [HistoryKey.bytes, this] at hlow
  · rintro ⟨hmem, hcode, hhash, hheight⟩
    rcases mem_iff_exists.mp hmem with ⟨v, hv⟩
    refine ⟨.history k, v, ⟨⟨hv, ?_⟩, k, rfl, hcode, hhash⟩, rfl⟩
    have hnlt : compare k.bytes
        (TxHistoryKey.prefixHeight code hash startHeight.toUInt32) ≠ .lt := by
      rw [Ne, TxHistoryKey.compare_prefixHeight hcode hhash]
      exact Nat.not_lt.mpr hheight
    simpa [HistoryKey.bytes] using hnlt

theorem historyIterScan_sorted :
    (historyIterScan store code hash startHeight).Pairwise
      TxHistoryKey.Before := by
  have hsorted : store.disk.history.toList.Pairwise fun a b =>
      compare a.1.bytes b.1.bytes = .lt :=
    Std.ExtTreeMap.ordered_keys_toList (t := store.disk.history)
  rw [historyIterScan, List.pairwise_filterMap]
  have hsub : (scanFrom HistoryKey.bytes store.disk.history
      (TxHistoryKey.prefixHeight code hash startHeight.toUInt32)
      (TxHistoryKey.filter code hash)).Sublist store.disk.history.toList :=
    (List.takeWhile_sublist _).trans (List.dropWhile_sublist _)
  refine (hsorted.sublist hsub).imp ?_
  rintro ⟨key, v⟩ ⟨key', v'⟩ hlt k hk k' hk'
  cases key with
  | history _ =>
    cases key' with
    | history _ =>
      cases hk
      cases hk'
      exact hlt
    | _ => cases hk'
  | _ => cases hk

theorem mem_confirmedHistory {row : TxHistoryKey × BlockId} :
    row ∈ confirmedHistory store hash startHeight <->
      (HistoryKey.history row.1 ∈ store.disk.history ∧ row.1.code = .script ∧ row.1.hash = hash ∧
        startHeight.toUInt32.toNat ≤ row.1.confirmedHeight.toNat) ∧
      txConfirmingBlock store row.1.getTxid = some row.2 ∧
      row.2.height = row.1.confirmedHeight.toNat := by
  unfold confirmedHistory
  simp only [List.mem_filterMap, mem_historyIterScan, Option.map_eq_some_iff,
    Option.filter_eq_some_iff, decide_eq_true_eq]
  constructor
  · rintro ⟨k, hk, blockid, ⟨hblock, hheight⟩, rfl⟩
    exact ⟨hk, hblock, hheight⟩
  · rintro ⟨hk, hblock, hheight⟩
    exact ⟨row.1, hk, row.2, ⟨hblock, hheight⟩, rfl⟩

def Sorted (rows : List (TxHistoryKey × BlockId)) : Prop :=
  rows.Pairwise fun row row' => row.1.Before row'.1

theorem confirmedHistory_sorted : Sorted (confirmedHistory store hash startHeight) := by
  rw [Sorted, confirmedHistory, List.pairwise_filterMap]
  refine historyIterScan_sorted.imp ?_
  rintro k k' hbefore row hrow row' hrow'
  rcases Option.map_eq_some_iff.mp hrow with ⟨_, _, rfl⟩
  rcases Option.map_eq_some_iff.mp hrow' with ⟨_, _, rfl⟩
  exact hbefore

theorem Sorted.eq_of_mem_iff {rows rows' : List (TxHistoryKey × BlockId)}
    (h : Sorted rows) (h' : Sorted rows')
    (hmem : forall row, row ∈ rows <-> row ∈ rows') : rows = rows' := by
  refine eq_of_pairwise_of_mem_iff ?_ ?_ h h' hmem
  · intro row
    exact TxHistoryKey.Before.irrefl row.1
  · intro row row' row'' hr hr'
    exact hr.trans hr'

end Scan

/-!
## Confirming blocks
-/

theorem confFilter_isPrefixOf_iff {txid : Txid} {k : TxstoreKey} :
    ('C'.toUInt8 :: hashBytes txid).isPrefixOf k.bytes = true <->
      exists blockhash, k = .conf txid blockhash := by
  cases k with
  | conf txid' blockhash =>
    rw [TxstoreKey.bytes, List.isPrefixOf_iff_prefix, List.cons_prefix_cons,
      field_prefix_iff (by simp), hashBytes_inj]
    constructor
    · rintro ⟨_, rfl⟩
      exact ⟨blockhash, rfl⟩
    · rintro ⟨blockhash', heq⟩
      cases heq
      exact ⟨rfl, rfl⟩
  | _ =>
    refine iff_of_false ?_ (by simp)
    rw [TxstoreKey.bytes, List.isPrefixOf_iff_prefix, List.cons_prefix_cons]
    exact fun h => absurd h.left (by decide)

def ConfirmsBestChain (store : Store) (blocks : List Block) : Prop :=
  forall txid b, b ∈ blocks -> (TxstoreKey.conf txid b.hash ∈ store.disk.txstore <->
      txid ∈ b.txdata.map Transaction.txid)

section Confirming

variable {T : BlockTree} {store : Store} {blocks : List Block} {txid : Txid}

theorem txConfirmingBlock_eq_some (hrep : store.indexedHeaders.Represents blocks)
    (hvalid : ValidChain T blocks) (hconf : ConfirmsBestChain store blocks)
    {blockid : BlockId} :
    txConfirmingBlock store txid = some blockid <->
      exists be, be ∈ chainEntries blocks ∧ txid ∈ be.block.txdata.map Transaction.txid ∧
        blockid = BlockId.ofEntry be.entry := by
  have hsource : forall {blockid}, txConfirmingBlock store txid = some blockid ->
      exists be, be ∈ chainEntries blocks ∧ txid ∈ be.block.txdata.map Transaction.txid ∧
        blockid = BlockId.ofEntry be.entry := by
    intro blockid hsome
    rcases List.exists_of_findSome?_eq_some hsome with ⟨⟨k, v⟩, hrow, hk⟩
    rcases mem_scan.mp hrow with ⟨hv, hpref⟩
    rcases confFilter_isPrefixOf_iff.mp hpref with ⟨blockhash, rfl⟩
    rcases Option.map_eq_some_iff.mp hk with ⟨entry, hentry, rfl⟩
    rcases hrep.exists_of_headerByBlockhash hentry with ⟨i, b, hb, rfl, rfl⟩
    refine ⟨blockEntryAt b i, mem_chainEntries.mpr ⟨i, b, hb, rfl⟩, ?_, rfl⟩
    exact (hconf txid b (List.mem_of_getElem? hb)).mp (mem_of_getElem? hv)
  refine ⟨hsource, ?_⟩
  rintro ⟨be, hbe, htxid, rfl⟩
  rcases mem_chainEntries.mp hbe with ⟨i, b, hb, rfl⟩
  rcases mem_iff_exists.mp ((hconf txid b (List.mem_of_getElem? hb)).mpr htxid) with ⟨v, hv⟩
  have hfound : (txConfirmingBlock store txid).isSome := by
    rw [txConfirmingBlock, List.findSome?_isSome_iff]
    refine ⟨(.conf txid b.hash, v), mem_scan.mpr ⟨hv, ?_⟩, ?_⟩
    · exact confFilter_isPrefixOf_iff.mpr ⟨b.hash, rfl⟩
    · simp [hrep.headerByBlockhash_of_getElem? hb]
  rcases Option.isSome_iff_exists.mp hfound with ⟨blockid, hblockid⟩
  rcases hsource hblockid with ⟨be', hbe', htxid', rfl⟩
  rcases List.mem_map.mp htxid with ⟨tx, htx, htxeq⟩
  rcases List.mem_map.mp htxid' with ⟨tx', htx', htxeq'⟩
  rw [hblockid, (tx_unique hvalid.txids_nodup hbe hbe' htx htx' (htxeq.trans htxeq'.symm)).left]

end Confirming

end ChainQuery

/-!
## The rows of a chain
-/

section History

variable {T : BlockTree} {cfg : IndexerConfig} {store : Store}
  {blocks : List Block} {scripthash : FullHash}

theorem indexRow_history {be : BlockEntry} {k : TxHistoryKey} (h : IndexRow T cfg be (.history k)) :
    k.code = .script ∧ k.confirmedHeight = be.entry.height.toUInt32 ∧
      exists (idx : Nat) (tx : Transaction),
        be.block.txdata[idx]? = some tx ∧ k.txPosition = idx.toUInt16 ∧
        k.getTxid = tx.txid := by
  cases h with
  | funding htx _ _ => exact ⟨rfl, rfl, _, _, htx, rfl, rfl⟩
  | spending htx _ _ _ => exact ⟨rfl, rfl, _, _, htx, rfl, rfl⟩

def ScriptRow (T : BlockTree) (cfg : IndexerConfig) (scripthash : FullHash)
    (blocks : List Block) (row : TxHistoryKey × BlockId) : Prop :=
  row.1.hash = scripthash ∧ exists be, be ∈ chainEntries blocks ∧
      IndexRow T cfg be (.history row.1) ∧ row.2 = BlockId.ofEntry be.entry

theorem height_lt_of_mem_chainEntries {be : BlockEntry}
    (hbe : be ∈ chainEntries blocks) : be.entry.height < blocks.length := by
  rcases mem_chainEntries.mp hbe with ⟨i, b, hb, rfl⟩
  exact (List.getElem?_eq_some_iff.mp hb).1

variable {row : TxHistoryKey × BlockId}

theorem ScriptRow.height_eq (h : ScriptRow T cfg scripthash blocks row)
    (hlength : blocks.length < 2 ^ 32) :
    row.1.confirmedHeight.toNat = row.2.height := by
  rcases h with ⟨_, be, hbe, hindex, hblock⟩
  have hlt := height_lt_of_mem_chainEntries hbe
  rw [(indexRow_history hindex).right.left, hblock, toNat_toUInt32 (by omega)]
  rfl

theorem scriptRow_take {i : Nat} :
    ScriptRow T cfg scripthash (blocks.take (i + 1)) row <->
      ScriptRow T cfg scripthash blocks row ∧ row.2.height ≤ i := by
  constructor
  · rintro ⟨hhash, be, hbe, hindex, hblock⟩
    rcases mem_chainEntries.mp hbe with ⟨j, b, hb, rfl⟩
    rw [List.getElem?_take] at hb
    split at hb
    · rename_i hj
      refine ⟨⟨hhash, _, mem_chainEntries.mpr ⟨j, b, hb, rfl⟩, hindex, hblock⟩, ?_⟩
      rw [hblock]
      exact Nat.lt_succ_iff.mp hj
    · cases hb
  · rintro ⟨⟨hhash, be, hbe, hindex, hblock⟩, hheight⟩
    rcases mem_chainEntries.mp hbe with ⟨j, b, hb, rfl⟩
    rw [hblock] at hheight
    change j ≤ i at hheight
    refine ⟨hhash, _, mem_chainEntries.mpr ⟨j, b, ?_, rfl⟩, hindex, hblock⟩
    rw [List.getElem?_take, if_pos (Nat.lt_succ_iff.mpr hheight), hb]

structure ScriptHistory (T : BlockTree) (cfg : IndexerConfig)
    (scripthash : FullHash) (blocks : List Block)
    (rows : List (TxHistoryKey × BlockId)) : Prop where
  sorted : ChainQuery.Sorted rows
  mem_iff : forall row, row ∈ rows <-> ScriptRow T cfg scripthash blocks row

namespace ScriptHistory

variable {rows rows' : List (TxHistoryKey × BlockId)}

section

variable (h : ScriptHistory T cfg scripthash blocks rows)

include h

theorem unique (h' : ScriptHistory T cfg scripthash blocks rows') : rows = rows' := by
  refine h.sorted.eq_of_mem_iff h'.sorted ?_
  intro row
  rw [h.mem_iff, h'.mem_iff]

theorem ascending (hlength : blocks.length < 2 ^ 32) :
    rows.Pairwise fun row row' => row.2.height ≤ row'.2.height := by
  refine h.sorted.imp_of_mem ?_
  intro row row' hrow hrow' hbefore
  have hscript := (h.mem_iff row).mp hrow
  have hscript' := (h.mem_iff row').mp hrow'
  rw [← hscript.height_eq hlength, ← hscript'.height_eq hlength]
  rcases hscript with ⟨hhash, _, _, hindex, _⟩
  rcases hscript' with ⟨hhash', _, _, hindex', _⟩
  exact hbefore.height_le ((indexRow_history hindex).left.trans
    (indexRow_history hindex').left.symm) (hhash.trans hhash'.symm)

theorem split (hlength : blocks.length < 2 ^ 32) (i : Nat) :
    rows = rows.filter (fun row => row.2.height ≤ i) ++
      rows.filter (fun row => i < row.2.height) := by
  refine h.sorted.eq_of_mem_iff ?_ ?_
  · refine List.pairwise_append.mpr
      ⟨List.Pairwise.filter _ h.sorted, List.Pairwise.filter _ h.sorted, ?_⟩
    intro row hrow row' hrow'
    rcases List.mem_filter.mp hrow with ⟨hmem, hle⟩
    rcases List.mem_filter.mp hrow' with ⟨hmem', hlt⟩
    have hscript := (h.mem_iff row).mp hmem
    have hscript' := (h.mem_iff row').mp hmem'
    have hheight := hscript.height_eq hlength
    have hheight' := hscript'.height_eq hlength
    rcases hscript with ⟨hhash, _, _, hindex, _⟩
    rcases hscript' with ⟨hhash', _, _, hindex', _⟩
    refine TxHistoryKey.before_of_position ?_ (hhash.trans hhash'.symm) (Or.inl ?_)
    · rw [(indexRow_history hindex).left, (indexRow_history hindex').left]
    · have hle' : row.2.height ≤ i := of_decide_eq_true hle
      have hlt' : i < row'.2.height := of_decide_eq_true hlt
      omega
  · intro row
    simp only [List.mem_append, List.mem_filter, decide_eq_true_eq]
    constructor
    · intro hrow
      exact (Nat.lt_or_ge i row.2.height).symm.imp (⟨hrow, ·⟩) (⟨hrow, ·⟩)
    · rintro (hrow | hrow)
      · exact hrow.left
      · exact hrow.left

theorem take (i : Nat) :
    ScriptHistory T cfg scripthash (blocks.take (i + 1))
      (rows.filter fun row => row.2.height ≤ i) where
  sorted := List.Pairwise.filter _ h.sorted
  mem_iff := by
    intro row
    rw [List.mem_filter, decide_eq_true_eq, h.mem_iff, scriptRow_take]

end

end ScriptHistory

structure HoldsBestChain (T : BlockTree) (cfg : IndexerConfig) (store : Store)
    (blocks : List Block) : Prop where
  history : Materializes IsHistoryKey (HistoryRows T cfg) store.disk.history (entrySet blocks)
  txstore : Materializes IsStoreKey (AddRow cfg) store.disk.txstore (entrySet blocks)

structure Exact (T : BlockTree) (cfg : IndexerConfig) (store : Store)
    (blocks : List Block) : Prop extends HoldsBestChain T cfg store blocks where
  headers : store.indexedHeaders.Represents blocks
  valid : ValidChain T blocks

theorem confirmsBestChain_of_materializes
    (h : Materializes IsStoreKey (AddRow cfg) store.disk.txstore (entrySet blocks))
    (hvalid : ValidChain T blocks) : ChainQuery.ConfirmsBestChain store blocks := by
  intro txid b hb
  rw [mem_iff_exists]
  constructor
  · rintro ⟨v, hv⟩
    rcases (h _ (by simp [IsStoreKey]) v).mp hv with ⟨be, hbe, hrow⟩
    generalize hk : TxstoreKey.conf txid b.hash = k at hrow
    cases hrow with
    | conf htx =>
      injection hk with htxid hhash
      have hblock : b = be.block :=
        hvalid.eq_of_hash_eq hvalid.toIsChain hb (block_mem_of_mem_blockEntriesFrom hbe)
          (hhash.trans (hash_of_mem_blockEntriesFrom hbe))
      rw [htxid, hblock]
      exact List.mem_map_of_mem htx
    | _ => cases hk
  · intro htxid
    rcases List.mem_map.mp htxid with ⟨tx, htx, rfl⟩
    rcases List.getElem?_of_mem hb with ⟨i, hi⟩
    exact ⟨.empty, (h _ (by simp [IsStoreKey]) _).mpr
      ⟨blockEntryAt b i, mem_chainEntries.mpr ⟨i, b, hi, rfl⟩, .conf htx⟩⟩

namespace Exact

section

variable (h : Exact T cfg store blocks)

include h

theorem confirms : ChainQuery.ConfirmsBestChain store blocks :=
  confirmsBestChain_of_materializes h.txstore h.valid

theorem history_mem_iff {k : TxHistoryKey} :
    HistoryKey.history k ∈ store.disk.history <->
      exists be, be ∈ chainEntries blocks ∧ IndexRow T cfg be (.history k) := by
  rw [mem_iff_exists]
  have hrows := h.history (.history k) (by simp [IsHistoryKey, IsAddr])
  constructor
  · rintro ⟨v, hv⟩
    rcases (hrows v).mp hv with ⟨be, hbe, _, hindex⟩
    exact ⟨be, hbe, hindex⟩
  · rintro ⟨be, hbe, hindex⟩
    exact ⟨[], (hrows []).mpr ⟨be, hbe, rfl, hindex⟩⟩

theorem mem_confirmedHistory_iff {startHeight : Nat} {row : TxHistoryKey × BlockId} :
    row ∈ ChainQuery.confirmedHistory store scripthash startHeight <->
      ScriptRow T cfg scripthash blocks row ∧ startHeight.toUInt32.toNat ≤ row.2.height := by
  rw [ChainQuery.mem_confirmedHistory, h.history_mem_iff,
    ChainQuery.txConfirmingBlock_eq_some h.headers h.valid h.confirms]
  constructor
  · rintro ⟨⟨⟨be, hbe, hindex⟩, _, hhash, hstart⟩, ⟨be', hbe', htxid', hblock⟩, hheight⟩
    rcases indexRow_history hindex with ⟨_, _, idx, tx, htx, _, htxid⟩
    rcases List.mem_map.mp htxid' with ⟨tx', htx', heq⟩
    have hsame : be' = be :=
      (tx_unique h.valid.txids_nodup hbe' hbe htx' (List.mem_of_getElem? htx)
        (heq.trans htxid)).left
    rw [hsame] at hblock
    exact ⟨⟨hhash, be, hbe, hindex, hblock⟩, hheight ▸ hstart⟩
  · rintro ⟨hrow, hstart⟩
    have hheight := hrow.height_eq h.valid.length_lt
    rcases hrow with ⟨hhash, be, hbe, hindex, hblock⟩
    rcases indexRow_history hindex with ⟨hcode, _, idx, tx, htx, _, htxid⟩
    refine ⟨⟨⟨be, hbe, hindex⟩, hcode, hhash, hheight ▸ hstart⟩,
      ⟨be, hbe, ?_, hblock⟩, hheight.symm⟩
    rw [htxid]
    exact List.mem_map_of_mem (List.mem_of_getElem? htx)

theorem scriptHistory (scripthash : FullHash) :
    ScriptHistory T cfg scripthash blocks (ChainQuery.confirmedHistory store scripthash 0) where
  sorted := ChainQuery.confirmedHistory_sorted
  mem_iff := by
    intro row
    rw [h.mem_confirmedHistory_iff]
    simp

theorem confirmedHistory_succ {i : Nat} (hi : i < blocks.length) :
    ChainQuery.confirmedHistory store scripthash (i + 1) =
      (ChainQuery.confirmedHistory store scripthash 0).filter fun row => i < row.2.height := by
  have hlength := h.valid.length_lt
  refine ChainQuery.confirmedHistory_sorted.eq_of_mem_iff
    (List.Pairwise.filter _ ChainQuery.confirmedHistory_sorted) ?_
  intro row
  rw [List.mem_filter, h.mem_confirmedHistory_iff, h.mem_confirmedHistory_iff,
    toNat_toUInt32 (by omega), decide_eq_true_eq]
  simp

theorem history_split (scripthash : FullHash) {i : Nat} {b : Block} (hb : blocks[i]? = some b) :
    exists older, ChainQuery.confirmedHistory store scripthash 0 =
        older ++ ChainQuery.confirmedHistory store scripthash (i + 1) ∧
      ScriptHistory T cfg scripthash (blocks.take (i + 1)) older := by
  have hrows := h.scriptHistory scripthash
  have hlt := (List.getElem?_eq_some_iff.mp hb).1
  refine ⟨_, ?_, hrows.take i⟩
  rw [h.confirmedHistory_succ hlt]
  exact hrows.split h.valid.length_lt i

theorem lastblock_succ {i : Nat} {b : Block} (hb : blocks[i]? = some b) {blockhash : BlockHash}
    (hlast : (ChainQuery.confirmedHistory store scripthash (i + 1)).getLast?.map
      (fun row => row.2.hash) = some blockhash) :
    (ChainQuery.confirmedHistory store scripthash 0).getLast?.map
      (fun row => row.2.hash) = some blockhash := by
  rcases h.history_split scripthash hb with ⟨older, hsplit, _⟩
  rcases Option.map_eq_some_iff.mp hlast with ⟨last, hrow, hhash⟩
  rw [hsplit, List.getLast?_append, hrow]
  exact congrArg some hhash

end

end Exact

theorem ScriptHistory.eq_of_lastblock {blocks' : List Block}
    {rows rows' : List (TxHistoryKey × BlockId)} {blockhash : BlockHash}
    (h : ScriptHistory T cfg scripthash blocks rows)
    (hvalid : ValidChain T blocks)
    (hlast : rows.getLast?.map (fun row => row.2.hash) = some blockhash)
    (hvalid' : ValidChain T blocks') (htip : tipHash blocks' = blockhash)
    (h' : ScriptHistory T cfg scripthash blocks' rows') : rows' = rows := by
  rcases Option.map_eq_some_iff.mp hlast with ⟨last, hrow, rfl⟩
  rcases List.getLast?_eq_some_iff.mp hrow with ⟨front, rfl⟩
  rcases (h.mem_iff last).mp (by simp) with ⟨_, be, hbe, _, hblock⟩
  rcases mem_chainEntries.mp hbe with ⟨i, b, hb, rfl⟩
  have hblocks : blocks' = blocks.take (i + 1) := by
    apply hvalid'.eq_of_tipHash_eq (hvalid.take _).toIsChain
    rw [htip, tipHash_take hb, hblock]
    rfl
  subst hblocks
  rw [h'.unique (h.take i)]
  apply List.filter_eq_self.mpr
  intro row hrow
  have hle : row.2.height ≤ last.2.height := by
    rcases List.mem_append.mp hrow with hfront | heq
    · exact (List.pairwise_append.mp (h.ascending hvalid.length_lt)).right.right
        row hfront last (by simp)
    · rw [List.mem_singleton.mp heq]
  rw [hblock] at hle
  exact decide_eq_true hle

end History

end NewIndex
end Splora
