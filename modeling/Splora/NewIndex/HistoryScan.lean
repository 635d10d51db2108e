import Splora.NewIndex.HistoryCodec
import Splora.NewIndex.ScriptHistory

/-!
# Scans in both directions

The limits of a walk downwards are cut off keys: all rows of a height are below its limit except
those at position `u16::MAX`, and all rows below the last limit except those at height
`u32::MAX`.
-/

namespace Splora
namespace NewIndex

open Foundation

namespace TxHistoryKey

def prefixEnd (code : HistoryCode) (hash : FullHash) : Bytes :=
  code.byte :: (hashBytes hash ++ u32Big 0xffffffff)

def prefixHeightEnd (code : HistoryCode) (hash : FullHash) (height : UInt32) :
    Bytes :=
  code.byte :: (hashBytes hash ++ (u32Big height ++ u16Big 0xffff))

def prefixMax (code : HistoryCode) (hash : FullHash) (startHeight : Option UInt32) : Bytes :=
  match startHeight with
  | none => prefixEnd code hash
  | some height => prefixHeightEnd code hash height

end TxHistoryKey

def ChainQuery.historyIterScanReverse (store : Store) (code : HistoryCode)
    (hash : FullHash) (startHeight : Option UInt32) : List TxHistoryKey :=
  (scanReverse HistoryKey.bytes store.disk.history (TxHistoryKey.prefixMax code hash startHeight)
    (TxHistoryKey.filter code hash)).filterMap fun row =>
      match row.1 with
      | .history key => some key
      | _ => none

/-!
## Keys and limits
-/

section Limits

variable {k : TxHistoryKey} {code : HistoryCode} {hash : FullHash}

theorem compare_append_nil {field field' rest : Bytes}
    (hlength : field.length = field'.length) (hrest : rest ≠ []) :
    compare (field ++ rest) field' = .gt <-> compare field field' ≠ .lt := by
  have hgt : compare rest [] = .gt := by
    cases rest with
    | nil => exact absurd rfl hrest
    | cons byte rest => rfl
  have hsplit : compare (field ++ rest) (field' ++ []) =
      (compare field field').then (compare rest []) :=
    compare_append hlength
  rw [List.append_nil, hgt] at hsplit
  rw [hsplit]
  cases compare field field' with
  | lt => decide
  | eq => decide
  | gt => decide

theorem TxHistoryInfo.bytes_ne_nil (info : TxHistoryInfo) : info.bytes ≠ [] := by
  intro h
  have hlength := congrArg List.length h
  cases info with
  | spending info => simp [TxHistoryInfo.bytes] at hlength
  | funding info => simp [TxHistoryInfo.bytes] at hlength

theorem TxHistoryKey.compare_prefixEnd (hcode : k.code = code) (hhash : k.hash = hash) :
    compare k.bytes (prefixEnd code hash) = .gt <-> k.confirmedHeight = 0xffffffff := by
  have hbyte : compare code.byte code.byte = .eq := Std.ReflOrd.compare_self
  have hrest : u16Big k.txPosition ++ k.txinfo.bytes ≠ [] := by
    intro h
    exact k.txinfo.bytes_ne_nil (List.append_eq_nil_iff.mp h).right
  have hle := k.confirmedHeight.toNat_lt
  rw [bytes, prefixEnd, hcode, hhash, List.compare_cons_cons, hbyte,
    Ordering.eq_then, compare_append_same, compare_append_nil (by simp) hrest,
    u32Big, u32Big, compare_bigEndian k.confirmedHeight.toNat_lt (by decide),
    Nat.compare_ne_lt, <- UInt32.toNat_inj]
  show 4294967295 ≤ k.confirmedHeight.toNat <-> k.confirmedHeight.toNat = 4294967295
  omega

theorem TxHistoryKey.compare_prefixHeightEnd (hcode : k.code = code)
    (hhash : k.hash = hash) (height : UInt32) :
    compare k.bytes (prefixHeightEnd code hash height) = .gt <->
      height < k.confirmedHeight ∨ k.confirmedHeight = height ∧ k.txPosition = 0xffff := by
  have hbyte : compare code.byte code.byte = .eq := Std.ReflOrd.compare_self
  have hposition : compare (u16Big k.txPosition ++ k.txinfo.bytes)
      (u16Big 0xffff) = .gt <-> k.txPosition = 0xffff := by
    have hle := k.txPosition.toNat_lt
    rw [compare_append_nil (by simp) k.txinfo.bytes_ne_nil, u16Big, u16Big,
      compare_bigEndian k.txPosition.toNat_lt (by decide), Nat.compare_ne_lt,
      <- UInt16.toNat_inj]
    show 65535 ≤ k.txPosition.toNat <-> k.txPosition.toNat = 65535
    omega
  rw [bytes, prefixHeightEnd, hcode, hhash, List.compare_cons_cons, hbyte,
    Ordering.eq_then, compare_append_same, compare_append (by simp), u32Big, u32Big,
    compare_bigEndian k.confirmedHeight.toNat_lt height.toNat_lt,
    UInt32.lt_iff_toNat_lt, <- UInt32.toNat_inj, <- hposition]
  rcases Nat.lt_trichotomy k.confirmedHeight.toNat height.toNat with hlt | heq | hgt
  · rw [Nat.compare_eq_lt.mpr hlt]
    simp
    omega
  · rw [Nat.compare_eq_eq.mpr heq, heq]
    simp
  · rw [Nat.compare_eq_gt.mpr hgt]
    simp [hgt]

end Limits

/-!
## What the scans yield
-/

namespace ChainQuery

section Scan

variable {store : Store} {code : HistoryCode} {hash : FullHash}
  {startHeight : Option UInt32}

theorem filter_isPrefixOf_prefixMax (code : HistoryCode) (hash : FullHash)
    (startHeight : Option UInt32) :
    (TxHistoryKey.filter code hash).isPrefixOf
      (TxHistoryKey.prefixMax code hash startHeight) = true := by
  rw [List.isPrefixOf_iff_prefix]
  cases startHeight with
  | none => exact List.cons_prefix_cons.mpr ⟨rfl, List.prefix_append _ _⟩
  | some height => exact List.cons_prefix_cons.mpr ⟨rfl, List.prefix_append _ _⟩

variable {k : TxHistoryKey}

theorem mem_historyIterScanReverse :
    k ∈ historyIterScanReverse store code hash startHeight <->
      (HistoryKey.history k ∈ store.disk.history ∧ k.code = code ∧ k.hash = hash) ∧
        compare k.bytes (TxHistoryKey.prefixMax code hash startHeight) ≠ .gt := by
  unfold historyIterScanReverse
  rw [scanReverse_eq_filter _ (filter_isPrefixOf_prefixMax code hash startHeight)]
  simp only [List.mem_filterMap, List.mem_reverse, List.mem_filter,
    filter_isPrefixOf_iff, Prod.exists,
    Std.ExtTreeMap.mem_toList_iff_getElem?_eq_some, Bool.not_eq_true',
    beq_eq_false_iff_ne]
  constructor
  · intro h
    rcases h with ⟨key, v, ⟨⟨hv, hlow⟩, key', hkey, hcode, hhash⟩, hk⟩
    rw [hkey] at hk hv hlow
    cases hk
    exact ⟨⟨mem_of_getElem? hv, hcode, hhash⟩, hlow⟩
  · intro h
    rcases h with ⟨⟨hmem, hcode, hhash⟩, hlow⟩
    rcases mem_iff_exists.mp hmem with ⟨v, hv⟩
    exact ⟨.history k, v, ⟨⟨hv, hlow⟩, k, rfl, hcode, hhash⟩, rfl⟩

theorem historyIterScanReverse_sorted :
    (historyIterScanReverse store code hash startHeight).Pairwise fun k k' => k'.Before k := by
  have hordered : store.disk.history.toList.Pairwise fun a b =>
      compare a.1.bytes b.1.bytes = .lt :=
    Std.ExtTreeMap.ordered_keys_toList (t := store.disk.history)
  have hsorted : store.disk.history.toList.reverse.Pairwise fun a b =>
      compare b.1.bytes a.1.bytes = .lt :=
    List.pairwise_reverse.mpr hordered
  have hsub : (scanReverse HistoryKey.bytes store.disk.history
      (TxHistoryKey.prefixMax code hash startHeight)
      (TxHistoryKey.filter code hash)).Sublist store.disk.history.toList.reverse :=
    (List.takeWhile_sublist _).trans (List.dropWhile_sublist _)
  rw [historyIterScanReverse, List.pairwise_filterMap]
  refine (hsorted.sublist hsub).imp ?_
  intro row row' hlt k hk k' hk'
  rcases row with ⟨key, v⟩
  rcases row' with ⟨key', v'⟩
  cases key with
  | history _ =>
    cases key' with
    | history _ =>
      cases hk
      cases hk'
      exact hlt
    | _ => cases hk'
  | _ => cases hk

/-- Rows at the last height or the last position do not occur. -/
def InRange (store : Store) : Prop :=
  forall k, HistoryKey.history k ∈ store.disk.history ->
    k.confirmedHeight < 0xffffffff ∧ k.txPosition < 0xffff

theorem mem_historyIterScanReverse_of_inRange (hrange : InRange store) :
    k ∈ historyIterScanReverse store code hash startHeight <->
      (HistoryKey.history k ∈ store.disk.history ∧ k.code = code ∧ k.hash = hash) ∧
        forall height, startHeight = some height -> k.confirmedHeight ≤ height := by
  rw [mem_historyIterScanReverse]
  refine and_congr_right ?_
  intro hown
  rcases hown with ⟨hmem, hcode, hhash⟩
  rcases hrange k hmem with ⟨hheight, hposition⟩
  cases startHeight with
  | none =>
    refine iff_of_true ?_ nofun
    rw [TxHistoryKey.prefixMax, ne_eq, TxHistoryKey.compare_prefixEnd hcode hhash]
    exact UInt32.ne_of_lt hheight
  | some height =>
    have hne := UInt16.ne_of_lt hposition
    rw [TxHistoryKey.prefixMax, ne_eq,
      TxHistoryKey.compare_prefixHeightEnd hcode hhash, not_or, UInt32.not_lt,
      and_iff_left (fun h => hne h.right)]
    constructor
    · intro hle height' heq
      rw [<- Option.some.inj heq]
      exact hle
    · intro hle
      exact hle height rfl

theorem before_iff_order {k' : TxHistoryKey} (hcode : k.code = k'.code) (hhash : k.hash = k'.hash) :
    k.Before k' <-> k.record.order k'.record = .lt := by
  have hcompare : compare k.record.serializeBig k'.record.serializeBig = k.record.order k'.record :=
    HistoryRecord.compare_serializeBig (congrArg HistoryCode.byte hcode) hhash
  rw [TxHistoryKey.Before, <- HistoryRecord.serializeBig_record,
    <- HistoryRecord.serializeBig_record, hcompare]

/-- A scan yields the rows of the script from its height on upwards, or up to its height downwards.
-/
theorem history_scans_exact (store : Store) (code : HistoryCode) (hash : FullHash)
    (fromHeight : Nat) (startHeight : Option UInt32)
    (hfrom : fromHeight < 2 ^ 32) (hrange : InRange store) :
    ((forall k, k ∈ historyIterScan store code hash fromHeight <->
        (HistoryKey.history k ∈ store.disk.history ∧ k.code = code ∧
          k.hash = hash) ∧ fromHeight ≤ k.confirmedHeight.toNat) ∧
      (historyIterScan store code hash fromHeight).Pairwise
        fun k k' => k.record.order k'.record = .lt) ∧
    (forall k, k ∈ historyIterScanReverse store code hash startHeight <->
        (HistoryKey.history k ∈ store.disk.history ∧ k.code = code ∧ k.hash = hash) ∧
          forall height, startHeight = some height -> k.confirmedHeight ≤ height) ∧
      (historyIterScanReverse store code hash startHeight).Pairwise
        fun k k' => k'.record.order k.record = .lt := by
  refine ⟨⟨?_, ?_⟩, fun k => mem_historyIterScanReverse_of_inRange hrange, ?_⟩
  · intro k
    rw [mem_historyIterScan, toNat_toUInt32 (by omega), and_assoc, and_assoc]
  · refine historyIterScan_sorted.imp_of_mem ?_
    intro k k' hk hk' hbefore
    rcases mem_historyIterScan.mp hk with ⟨_, hcode, hhash, _⟩
    rcases mem_historyIterScan.mp hk' with ⟨_, hcode', hhash', _⟩
    exact (before_iff_order (hcode.trans hcode'.symm) (hhash.trans hhash'.symm)).mp hbefore
  · refine historyIterScanReverse_sorted.imp_of_mem ?_
    intro k k' hk hk' hbefore
    rcases (mem_historyIterScanReverse.mp hk).left with ⟨_, hcode, hhash⟩
    rcases (mem_historyIterScanReverse.mp hk').left with ⟨_, hcode', hhash'⟩
    exact (before_iff_order (hcode'.trans hcode.symm) (hhash'.trans hhash.symm)).mp hbefore

end Scan

end ChainQuery

namespace Sample

def rowOfScript : TxHistoryKey where
  code := .script
  hash := 1
  confirmedHeight := 7
  txPosition := 3
  txinfo := .funding { txid := 9, vout := 0, value := 5 }

def rowOfOtherScript : TxHistoryKey :=
  { rowOfScript with hash := 2, confirmedHeight := 2 }

def scanStore : Store where
  disk := {
    Disk.empty with
    history := writeRows ∅
      [(.history rowOfScript, []), (.history rowOfOtherScript, [])] }
  addedBlockhashes := ∅
  indexedBlockhashes := ∅
  indexedHeaders := HeaderList.empty

theorem mem_scanStore {k : TxHistoryKey} :
    HistoryKey.history k ∈ scanStore.disk.history <-> k = rowOfOtherScript ∨ k = rowOfScript := by
  show HistoryKey.history k ∈ writeRows _ _ <-> _
  simp only [writeRows, List.foldl_cons, List.foldl_nil,
    Std.ExtTreeMap.mem_insert, Std.LawfulEqCmp.compare_eq_iff_eq,
    HistoryKey.history.injEq, Std.ExtTreeMap.not_mem_empty, or_false]
  rw [eq_comm, eq_comm (a := rowOfScript)]

theorem reverse_scan_finds_row :
    ChainQuery.InRange scanStore ∧
      rowOfScript ∈ ChainQuery.historyIterScanReverse scanStore .script 1 (some 7) ∧
      rowOfOtherScript ∉ ChainQuery.historyIterScanReverse scanStore .script 1 (some 7) := by
  have hrange : ChainQuery.InRange scanStore := by
    intro k hk
    rcases mem_scanStore.mp hk with heq | heq
    · rw [heq]
      decide
    · rw [heq]
      decide
  have hscan := (ChainQuery.history_scans_exact scanStore .script 1 0 (some 7)
    (by decide) hrange).right.left
  refine ⟨hrange, (hscan rowOfScript).mpr ⟨⟨?_, rfl, rfl⟩, ?_⟩, ?_⟩
  · exact mem_scanStore.mpr (Or.inr rfl)
  · intro height h
    rw [<- Option.some.inj h]
    decide
  · intro hmem
    have hhash : rowOfOtherScript.hash = 1 :=
      ((hscan rowOfOtherScript).mp hmem).left.right.right
    exact absurd hhash (by decide)

end Sample

end NewIndex
end Splora
