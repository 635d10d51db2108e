import Splora.NewIndex.GroupIterator

/-!
# Address summaries

`ChainQuery::summary` and `summary_group` fold rows into one entry for each transaction, from
behind the cursor to the first row of a transaction too many.  The order in which the hash map
hands the entries out is an argument.
-/

namespace Splora
namespace NewIndex

open Foundation

namespace TxHistoryInfo

def getVinOrVout : TxHistoryInfo -> UInt32
  | spending info => info.vin
  | funding info => info.vout

def hasVin : TxHistoryInfo -> Bool
  | spending _ => true
  | funding _ => false

end TxHistoryInfo

structure TxHistorySummary where
  txid : Txid
  height : Nat
  value : Int
  time : UInt32
  txPosition : UInt16
deriving DecidableEq, Repr

/-- The result of `saturating_add` and `saturating_sub` on `i64`. -/
def saturate (n : Int) : Int :=
  max (-2 ^ 63) (min n (2 ^ 63 - 1))

/-- `value.try_into().unwrap_or(0)` from `u64` to `i64`. -/
def i64OrZero (value : UInt64) : Int :=
  if value.toNat < 2 ^ 63 then value.toNat else 0

structure SummaryRow where
  txid : Txid
  info : TxHistoryInfo
  height : Nat
  time : UInt32
  txPosition : UInt16

def insertedValue : TxHistoryInfo -> Int
  | .funding info => i64OrZero info.value
  | .spending info => saturate (0 - i64OrZero info.value)

def modifiedValue (value : Int) : TxHistoryInfo -> Int
  | .funding info => saturate (value + i64OrZero info.value)
  | .spending info => saturate (value - i64OrZero info.value)

def containsTxid (map : List TxHistorySummary) (txid : Txid) : Bool :=
  map.any fun tx => tx.txid = txid

def collateRow (map : List TxHistorySummary) (row : SummaryRow) :
    List TxHistorySummary :=
  if containsTxid map row.txid then
    map.map fun tx =>
      if tx.txid = row.txid then
        { tx with value := modifiedValue tx.value row.info }
      else
        tx
  else
    map ++ [{
      txid := row.txid
      height := row.height
      value := insertedValue row.info
      time := row.time
      txPosition := row.txPosition }]

def collateRows (limit : Nat) :
    List SummaryRow -> List TxHistorySummary -> List TxHistorySummary
  | [], map => map
  | row :: rows, map =>
    if containsTxid map row.txid = false ∧ limit ≤ map.length then
      map
    else
      collateRows limit rows (collateRow map row)

def compareSummaries (a b : TxHistorySummary) : Ordering :=
  if a.height = b.height then
    if a.txPosition = b.txPosition then
      compare a.value b.value
    else
      compare b.txPosition a.txPosition
  else
    compare b.height a.height

structure MapOrder where
  intoValues : List TxHistorySummary -> List TxHistorySummary
  perm : forall map, (intoValues map).Perm map

def MapOrder.inserted : MapOrder where
  intoValues map := map
  perm map := List.Perm.refl map

namespace ChainQuery

def rowId (row : TxHistoryKey) : Txid × UInt32 × Bool :=
  (row.getTxid, row.txinfo.getVinOrVout, row.txinfo.hasVin)

def unseenRows (rows : List TxHistoryKey) (lastSeenTxid : Option Txid) :
    List TxHistoryKey :=
  ((uniqueBy rowId rows).dropWhile fun row =>
    lastSeenTxid.any fun last => last ≠ row.getTxid).dropWhile fun row =>
      lastSeenTxid = some row.getTxid

def summaryRow (store : Store) (row : TxHistoryKey) : Option SummaryRow :=
  (txConfirmingBlock store row.getTxid).map fun b => {
    txid := row.getTxid
    info := row.txinfo
    height := b.height
    time := b.time
    txPosition := row.txPosition }

def collateSummaries (store : Store) (order : MapOrder) (rows : List TxHistoryKey)
    (lastSeenTxid : Option Txid) (limit : Nat) : List TxHistorySummary :=
  let map := collateRows limit ((unseenRows rows lastSeenTxid).filterMap (summaryRow store)) []
  (order.intoValues map).mergeSort fun a b => (compareSummaries a b).isLE

def summary (store : Store) (order : MapOrder) (scripthash : FullHash)
    (lastSeenTxid : Option Txid) (startHeight : Option UInt32) (limit : Nat) :
    List TxHistorySummary :=
  collateSummaries store order
    (historyIterScanReverse store .script scripthash startHeight) lastSeenTxid limit

def summaryGroup (store : Store) (order : MapOrder) (scripthashes : List FullHash)
    (lastSeenTxid : Option Txid) (startHeight : Option UInt32) (limit : Nat) :
    List TxHistorySummary :=
  collateSummaries store order
    (historyIterScanGroupReverse store .script scripthashes startHeight) lastSeenTxid
    limit

theorem summaryGroup_singleton (store : Store) (order : MapOrder)
    (scripthash : FullHash) (lastSeenTxid : Option Txid) (startHeight : Option UInt32)
    (limit : Nat) :
    summaryGroup store order [scripthash] lastSeenTxid startHeight limit =
      summary store order scripthash lastSeenTxid startHeight limit := by
  unfold summaryGroup historyIterScanGroupReverse
  rw [List.map_singleton, mergeRows_singleton]
  rfl

end ChainQuery

/-!
## Values
-/

def TxHistoryInfo.funded : TxHistoryInfo -> Nat
  | .funding info => info.value.toNat
  | .spending _ => 0

def TxHistoryInfo.spent : TxHistoryInfo -> Nat
  | .funding _ => 0
  | .spending info => info.value.toNat

section Values

theorem saturate_of_range {n : Int} (hlow : -2 ^ 63 ≤ n) (hhigh : n < 2 ^ 63) : saturate n = n := by
  rw [saturate]
  omega

theorem i64OrZero_range (value : UInt64) : 0 ≤ i64OrZero value ∧ i64OrZero value < 2 ^ 63 := by
  rw [i64OrZero]
  split
  case isTrue h => omega
  case isFalse h => decide

theorem i64OrZero_of_lt {value : UInt64} (h : value.toNat < 2 ^ 63) :
    i64OrZero value = value.toNat :=
  if_pos h

theorem insertedValue_eq (info : TxHistoryInfo) : insertedValue info = modifiedValue 0 info := by
  cases info with
  | funding info =>
    rcases i64OrZero_range info.value with ⟨hlow, hhigh⟩
    rw [insertedValue, modifiedValue, saturate_of_range (by omega) (by omega), zero_add]
  | spending info => rfl

theorem foldl_modifiedValue {infos : List TxHistoryInfo}
    (hfunded : (infos.map TxHistoryInfo.funded).sum < 2 ^ 63)
    (hspent : (infos.map TxHistoryInfo.spent).sum < 2 ^ 63) :
    infos.foldl modifiedValue 0 = ((infos.map TxHistoryInfo.funded).sum : Int) -
        (infos.map TxHistoryInfo.spent).sum := by
  induction infos using List.reverseRecOn with
  | nil => rfl
  | append_singleton infos info ih =>
    rw [List.map_append, List.sum_append, List.map_singleton, List.sum_singleton] at hfunded hspent
    have hvalue := ih (by omega) (by omega)
    rw [List.foldl_append, List.foldl_cons, List.foldl_nil, hvalue, List.map_append,
      List.map_append, List.sum_append, List.sum_append, List.map_singleton,
      List.map_singleton, List.sum_singleton, List.sum_singleton]
    cases info with
    | funding info =>
      change _ + info.value.toNat < _ at hfunded
      change _ + 0 < _ at hspent
      rw [modifiedValue, i64OrZero_of_lt (by omega),
        saturate_of_range (by omega) (by omega), TxHistoryInfo.funded,
        TxHistoryInfo.spent]
      omega
    | spending info =>
      change _ + 0 < _ at hfunded
      change _ + info.value.toNat < _ at hspent
      rw [modifiedValue, i64OrZero_of_lt (by omega),
        saturate_of_range (by omega) (by omega), TxHistoryInfo.funded,
        TxHistoryInfo.spent]
      omega

end Values

/-!
## The loop
-/

section Loop

variable {limit : Nat} {map : List TxHistorySummary}

def SummaryRow.ofEntry (e : Txid × BlockId × UInt16) (info : TxHistoryInfo) :
    SummaryRow where
  txid := e.1
  info := info
  height := e.2.1.height
  time := e.2.1.time
  txPosition := e.2.2

def entrySummary (e : Txid × BlockId × UInt16) (infos : List TxHistoryInfo) :
    TxHistorySummary where
  txid := e.1
  height := e.2.1.height
  value := infos.foldl modifiedValue 0
  time := e.2.1.time
  txPosition := e.2.2

theorem containsTxid_eq_false {txid : Txid} :
    containsTxid map txid = false <-> txid ∉ map.map TxHistorySummary.txid := by
  rw [containsTxid, List.any_eq_false, List.mem_map, not_exists]
  refine forall_congr' fun tx => ?_
  rw [decide_eq_true_eq, not_and]

variable {e : Txid × BlockId × UInt16}

theorem collateRow_new (info : TxHistoryInfo) (h : e.1 ∉ map.map TxHistorySummary.txid) :
    collateRow map (.ofEntry e info) = map ++ [entrySummary e [info]] := by
  have hnew : containsTxid map (SummaryRow.ofEntry e info).txid = false :=
    containsTxid_eq_false.mpr h
  rw [collateRow, hnew]
  simp only [Bool.false_eq_true, if_false, insertedValue_eq]
  rfl

theorem collateRow_open (infos : List TxHistoryInfo) (info : TxHistoryInfo)
    (h : e.1 ∉ map.map TxHistorySummary.txid) :
    collateRow (map ++ [entrySummary e infos]) (.ofEntry e info) =
      map ++ [entrySummary e (infos ++ [info])] := by
  have hold : containsTxid (map ++ [entrySummary e infos])
      (SummaryRow.ofEntry e info).txid = true := by
    rw [containsTxid, List.any_append, Bool.or_eq_true]
    refine Or.inr ?_
    rw [List.any_cons, Bool.or_eq_true]
    exact Or.inl (decide_eq_true rfl)
  have hentry : (entrySummary e infos).txid = (SummaryRow.ofEntry e info).txid := rfl
  rw [collateRow, hold, if_pos rfl, List.map_append, List.map_singleton, if_pos hentry,
    entrySummary, entrySummary, List.foldl_append]
  refine congrArg (· ++ _) ?_
  rw [List.map_congr_left (g := id), List.map_id]
  intro tx htx
  rw [if_neg]
  · rfl
  · intro heq
    exact h (List.mem_map.mpr ⟨tx, htx, heq⟩)

theorem collateRows_open (h : e.1 ∉ map.map TxHistorySummary.txid)
    (infos infos' : List TxHistoryInfo) (rows : List SummaryRow) :
    collateRows limit (infos'.map (.ofEntry e) ++ rows) (map ++ [entrySummary e infos]) =
      collateRows limit rows (map ++ [entrySummary e (infos ++ infos')]) := by
  induction infos' generalizing infos with
  | nil => rw [List.map_nil, List.nil_append, List.append_nil]
  | cons info infos' ih =>
    rw [List.map_cons, List.cons_append, collateRows, if_neg, collateRow_open infos info h,
      ih, List.append_assoc, List.singleton_append]
    intro hfull
    rw [containsTxid_eq_false] at hfull
    refine hfull.left ?_
    rw [List.map_append]
    exact List.mem_append_right _ List.mem_cons_self

theorem collateRows_flatMap {entries : List (Txid × BlockId × UInt16)}
    (infosOf : Txid × BlockId × UInt16 -> List TxHistoryInfo)
    (hne : forall e, e ∈ entries -> infosOf e ≠ [])
    (hnodup : (map.map TxHistorySummary.txid ++ entries.map Prod.fst).Nodup) :
    collateRows limit (entries.flatMap fun e => (infosOf e).map (.ofEntry e)) map =
      map ++ (entries.take (limit - map.length)).map fun e => entrySummary e (infosOf e) := by
  induction entries generalizing map with
  | nil => rw [List.flatMap_nil, List.take_nil, List.map_nil, List.append_nil, collateRows]
  | cons e entries ih =>
    rcases List.exists_cons_of_ne_nil (hne e List.mem_cons_self) with ⟨info, infos, hinfos⟩
    have hfresh : e.1 ∉ map.map TxHistorySummary.txid := by
      intro hmem
      exact (List.nodup_append.mp hnodup).right.right _ hmem _ List.mem_cons_self rfl
    rw [List.flatMap_cons, hinfos, List.map_cons, List.cons_append, collateRows]
    by_cases hfull : limit ≤ map.length
    · rw [if_pos ⟨containsTxid_eq_false.mpr hfresh, hfull⟩,
        Nat.sub_eq_zero_of_le hfull, List.take_zero, List.map_nil, List.append_nil]
    · have htake : limit - map.length =
          limit - (map ++ [entrySummary e (infosOf e)]).length + 1 := by
        rw [List.length_append, List.length_singleton]
        omega
      have hrest : ((map ++ [entrySummary e (infosOf e)]).map TxHistorySummary.txid ++
          entries.map Prod.fst).Nodup := by
        rw [List.map_append, List.append_assoc]
        exact hnodup
      have hih := ih (fun e' he' => hne e' (List.mem_cons_of_mem _ he')) hrest
      rw [if_neg (fun h => hfull h.right), collateRow_new info hfresh,
        collateRows_open hfresh, List.singleton_append, <- hinfos, hih, htake,
        List.take_succ_cons, List.map_cons, List.append_assoc, List.singleton_append]

end Loop

/-!
## Sorting
-/

section Sorting

variable {a b c : TxHistorySummary}

theorem compareSummaries_isLE :
    (compareSummaries a b).isLE = true <->
      b.height < a.height ∨ b.height = a.height ∧ (b.txPosition.toNat < a.txPosition.toNat ∨
          b.txPosition.toNat = a.txPosition.toNat ∧ a.value ≤ b.value) := by
  rw [compareSummaries]
  split
  case isTrue hheight =>
    split
    case isTrue hpos =>
      rw [Int.isLE_compare, hheight, hpos]
      omega
    case isFalse hpos =>
      rw [Std.isLE_compare, UInt16.le_iff_toNat_le]
      rw [<- UInt16.toNat_inj] at hpos
      omega
  case isFalse hheight =>
    rw [Nat.isLE_compare]
    omega

theorem sort_eq {order : MapOrder} {map : List TxHistorySummary}
    (h : map.Pairwise fun a b => b.height < a.height ∨
      b.height = a.height ∧ b.txPosition < a.txPosition) :
    (order.intoValues map).mergeSort (fun a b => (compareSummaries a b).isLE) = map := by
  refine mergeSort_of_perm ?_ ?_ (h.imp ?_) (order.perm map)
  · intro a b c hab hbc
    rw [compareSummaries_isLE] at *
    omega
  · intro a b
    rw [Bool.or_eq_true, compareSummaries_isLE, compareSummaries_isLE]
    omega
  · intro a b hab
    rw [UInt16.lt_iff_toNat_lt] at hab
    rw [<- Bool.not_eq_true, compareSummaries_isLE, compareSummaries_isLE]
    omega

end Sorting

/-!
## What a summary says
-/

section Spec

variable (T : BlockTree) (cfg : IndexerConfig) (scripts : List FullHash)
  (tx : Transaction)

def txFundings : Set FundingInfo :=
  {info | exists (i : Nat) (txo : TxOut), tx.output[i]? = some txo ∧
    cfg.isIndexed txo = true ∧ cfg.computeScriptHash txo.scriptPubkey ∈ scripts ∧
    info = { txid := tx.txid, vout := i.toUInt32, value := txo.value }}

def txSpendings : Set SpendingInfo :=
  {info | exists (i : Nat) (txi : TxIn) (txo : TxOut), tx.input[i]? = some txi ∧
    hasPrevout txi = true ∧ T.HasTxo txi.previousOutput txo ∧
    cfg.computeScriptHash txo.scriptPubkey ∈ scripts ∧
    info = {
      txid := tx.txid
      vin := i.toUInt32
      prevTxid := txi.previousOutput.txid
      prevVout := txi.previousOutput.vout
      value := txo.value }}

noncomputable def fundedValue : Nat :=
  finsum fun info => finsum fun _ : info ∈ txFundings cfg scripts tx => info.value.toNat

noncomputable def spentValue : Nat :=
  finsum fun info =>
    finsum fun _ : info ∈ txSpendings T cfg scripts tx => info.value.toNat

noncomputable def summaryOf (item : Transaction × BlockId × UInt16) :
    TxHistorySummary where
  txid := item.1.txid
  height := item.2.1.height
  value := (fundedValue cfg scripts item.1 : Int) - spentValue T cfg scripts item.1
  time := item.2.1.time
  txPosition := item.2.2

variable (blocks : List Block)

def SumsFit : Prop :=
  forall item, ConfirmedTx T cfg scripts blocks item ->
    fundedValue cfg scripts item.1 < 2 ^ 63 ∧ spentValue T cfg scripts item.1 < 2 ^ 63

def TxidAt (txid : Txid) (position : BlockId × UInt16) : Prop :=
  exists (be : BlockEntry) (idx : Nat) (tx : Transaction), be ∈ chainEntries blocks ∧
    be.block.txdata[idx]? = some tx ∧ tx.txid = txid ∧
    position = (BlockId.ofEntry be.entry, idx.toUInt16)

def AfterCursor (cursor : Option Txid) (position : BlockId × UInt16) : Prop :=
  forall last, cursor = some last -> exists top, TxidAt blocks last top ∧ Above top position

def ExactSummaries (cursor : Option Txid) (limit : Nat) (answer : List TxHistorySummary) : Prop :=
  exists items : List (Transaction × BlockId × UInt16),
    items.Pairwise (fun item item' => Above item.2 item'.2) ∧
    (forall item, item ∈ items <->
      ConfirmedTx T cfg scripts blocks item ∧ AfterCursor blocks cursor item.2) ∧
    answer = (items.take limit).map (summaryOf T cfg scripts)

def StartsAbove (cursor : Option Txid) (startHeight : Option UInt32) : Prop :=
  forall height, startHeight = some height ->
    exists last top, cursor = some last ∧ TxidAt blocks last top ∧ top.1.height ≤ height.toNat

end Spec

/-!
## The rows of a transaction
-/

section Rows

open ChainQuery

variable {T : BlockTree} {cfg : IndexerConfig} {store : Store} {blocks : List Block}
  {scripts : List FullHash} {startHeight : Option UInt32} {rows : List TxHistoryKey}

theorem rowId_inj (hnodup : (chainTxids blocks).Nodup) {be be' : BlockEntry}
    {k k' : TxHistoryKey} (hbe : be ∈ chainEntries blocks)
    (hbe' : be' ∈ chainEntries blocks) (hk : IndexRow T cfg be (.history k))
    (hk' : IndexRow T cfg be' (.history k')) (hid : rowId k = rowId k') : k = k' := by
  cases hk with
  | funding htx htxo hindexed =>
    cases hk' with
    | funding htx' htxo' hindexed' =>
      rcases position_unique hnodup hbe hbe' htx htx' (congrArg Prod.fst hid) with ⟨rfl, rfl, rfl⟩
      have hi := toUInt32_inj (output_index_lt htxo) (output_index_lt htxo')
        (congrArg (fun id => id.2.1) hid)
      rw [hi, htxo'] at htxo
      cases htxo
      rw [hi]
    | spending htx' htxi' hprevout' htxo' => cases congrArg (fun id => id.2.2) hid
  | spending htx htxi hprevout htxo =>
    cases hk' with
    | funding htx' htxo' hindexed' => cases congrArg (fun id => id.2.2) hid
    | spending htx' htxi' hprevout' htxo' =>
      rcases position_unique hnodup hbe hbe' htx htx' (congrArg Prod.fst hid) with ⟨rfl, rfl, rfl⟩
      have hi := toUInt32_inj (input_index_lt htxi) (input_index_lt htxi')
        (congrArg (fun id => id.2.1) hid)
      rw [hi, htxi'] at htxi
      cases htxi
      rw [hi, htxo.unique htxo']

namespace Exact

variable (h : Exact T cfg store blocks) (hrows : RowsOf store scripts startHeight rows)

include h hrows

theorem rowsOf_uniqueBy : RowsOf store scripts startHeight (uniqueBy rowId rows) where
  mem_iff := by
    intro k
    rw [<- hrows.mem_iff k]
    constructor
    · intro hk
      exact (uniqueBy_sublist _ _).subset hk
    · intro hk
      have hid : rowId k ∈ (uniqueBy rowId rows).map rowId :=
        mem_map_uniqueBy.mpr (List.mem_map_of_mem hk)
      rcases List.mem_map.mp hid with ⟨k', hk', heq⟩
      have hrow' := (uniqueBy_sublist _ _).subset hk'
      rcases h.history_mem_iff.mp ((hrows.mem_iff k).mp hk).left.left with ⟨be, hbe, hindex⟩
      rcases h.history_mem_iff.mp ((hrows.mem_iff k').mp hrow').left.left with ⟨be', hbe', hindex'⟩
      rw [<- rowId_inj h.valid.txids_nodup hbe' hbe hindex' hindex heq]
      exact hk'
  descending := hrows.descending.sublist (uniqueBy_sublist _ _)

variable {item : Transaction × BlockId × UInt16}

section

variable (hitem : ConfirmedTx T cfg scripts blocks item)
  (hheight : forall height, startHeight = some height -> item.2.1.height ≤ height.toNat)

include hitem hheight

theorem mem_group_rows {info : TxHistoryInfo} :
    info ∈ (group TxHistoryKey.getTxid rows item.1.txid).map TxHistoryKey.txinfo <->
      exists be k, be ∈ chainEntries blocks ∧ IndexRow T cfg be (.history k) ∧
        k.hash ∈ scripts ∧ k.txinfo = info ∧ info.getTxid = item.1.txid := by
  rw [List.mem_map]
  constructor
  · intro hmem
    rcases hmem with ⟨k, hk, heq⟩
    rcases mem_group.mp hk with ⟨hrow, htxid⟩
    rcases ((hrows.mem_iff k).mp hrow).left with ⟨hstored, _, hscript⟩
    rcases h.history_mem_iff.mp hstored with ⟨be, hbe, hindex⟩
    exact ⟨be, k, hbe, hindex, hscript, heq, heq ▸ htxid⟩
  · intro hmem
    rcases hmem with ⟨be, k, hbe, hindex, hscript, heq, htxid⟩
    have hstored := h.history_mem_iff.mpr ⟨be, hbe, hindex⟩
    have hk : k.getTxid = item.1.txid := by rw [TxHistoryKey.getTxid, heq, htxid]
    rcases h.confirmedTx_of_row hstored hscript with ⟨found, hfound, hfoundTxid, _, hfoundHeight, _⟩
    have hsame := h.confirmedTx_unique hfound hitem (hfoundTxid.symm.trans hk)
    refine ⟨k, mem_group.mpr ⟨(hrows.mem_iff k).mpr
      ⟨⟨hstored, (indexRow_history hindex).left, hscript⟩, ?_⟩, hk⟩, heq⟩
    intro height hsome
    rw [UInt32.le_iff_toNat_le, hfoundHeight, hsame]
    exact hheight height hsome

theorem mem_funding_rows {info : FundingInfo} :
    .funding info ∈ (group TxHistoryKey.getTxid rows item.1.txid).map TxHistoryKey.txinfo <->
      info ∈ txFundings cfg scripts item.1 := by
  rw [h.mem_group_rows hrows hitem hheight]
  rcases hitem with ⟨be, idx, hbe, htx, _, _⟩
  constructor
  · intro hmem
    rcases hmem with ⟨be', k, hbe', hindex, hscript, hinfo, htxid⟩
    cases hindex with
    | funding htx' htxo hindexed =>
      cases hinfo
      rcases position_unique h.valid.txids_nodup hbe' hbe htx' htx htxid with ⟨_, _, hsame⟩
      rw [<- hsame]
      exact ⟨_, _, htxo, hindexed, hscript, rfl⟩
    | spending => cases hinfo
  · intro hmem
    rcases hmem with ⟨i, txo, htxo, hindexed, hscript, hinfo⟩
    rw [hinfo]
    exact ⟨be, _, hbe, .funding htx htxo hindexed, hscript, rfl, rfl⟩

theorem mem_spending_rows {info : SpendingInfo} :
    .spending info ∈ (group TxHistoryKey.getTxid rows item.1.txid).map TxHistoryKey.txinfo <->
      info ∈ txSpendings T cfg scripts item.1 := by
  rw [h.mem_group_rows hrows hitem hheight]
  rcases hitem with ⟨be, idx, hbe, htx, _, _⟩
  constructor
  · intro hmem
    rcases hmem with ⟨be', k, hbe', hindex, hscript, hinfo, htxid⟩
    cases hindex with
    | funding => cases hinfo
    | spending htx' htxi hprevout htxo =>
      cases hinfo
      rcases position_unique h.valid.txids_nodup hbe' hbe htx' htx htxid with ⟨_, _, hsame⟩
      rw [<- hsame]
      exact ⟨_, _, _, htxi, hprevout, htxo, hscript, rfl⟩
  · intro hmem
    rcases hmem with ⟨i, txi, txo, htxi, hprevout, htxo, hscript, hinfo⟩
    rw [hinfo]
    exact ⟨be, _, hbe, .spending htx htxi hprevout htxo, hscript, rfl, rfl⟩

end

end Exact

def infosOf (rows : List TxHistoryKey) (txid : Txid) : List TxHistoryInfo :=
  (group TxHistoryKey.getTxid (uniqueBy rowId rows) txid).map TxHistoryKey.txinfo

theorem nodup_infosOf (rows : List TxHistoryKey) (txid : Txid) : (infosOf rows txid).Nodup := by
  have hids := List.pairwise_map.mp (nodup_map_uniqueBy rowId rows)
  refine List.pairwise_map.mpr ((hids.sublist List.filter_sublist).imp ?_)
  intro k k' hne heq
  refine hne ?_
  rw [rowId, rowId, TxHistoryKey.getTxid, TxHistoryKey.getTxid, heq]

theorem sum_map_filterMap {α β : Type} {f : α -> Option β} {weight : β -> Nat}
    {g : α -> Nat} (hg : forall a, g a = ((f a).map weight).getD 0) (items : List α) :
    (items.map g).sum = ((items.filterMap f).map weight).sum := by
  induction items with
  | nil => rfl
  | cons a items ih =>
    rw [List.map_cons, List.sum_cons, ih, hg a]
    cases hf : f a with
    | none => rw [List.filterMap_cons_none hf, Option.map_none, Option.getD_none, zero_add]
    | some b =>
      rw [List.filterMap_cons_some hf, List.map_cons, List.sum_cons, Option.map_some,
        Option.getD_some]

theorem sum_funded (infos : List TxHistoryInfo) :
    (infos.map TxHistoryInfo.funded).sum =
      ((infos.filterMap TxHistoryInfo.funding?).map fun info => info.value.toNat).sum := by
  refine sum_map_filterMap ?_ infos
  intro info
  cases info with
  | funding info => rfl
  | spending info => rfl

theorem sum_spent (infos : List TxHistoryInfo) :
    (infos.map TxHistoryInfo.spent).sum = ((infos.filterMap TxHistoryInfo.spending?).map fun info =>
        info.value.toNat).sum := by
  refine sum_map_filterMap ?_ infos
  intro info
  cases info with
  | funding info => rfl
  | spending info => rfl

theorem flatMap_filterMap {α β γ : Type} {f : α -> Option β} {g : α -> List γ}
    {g' : β -> List γ} {items : List α}
    (hf : forall a, a ∈ items -> exists b, f a = some b ∧ g a = g' b) :
    items.flatMap g = (items.filterMap f).flatMap g' := by
  induction items with
  | nil => rfl
  | cons a items ih =>
    rcases hf a List.mem_cons_self with ⟨b, hb, hg⟩
    rw [List.filterMap_cons_some hb, List.flatMap_cons, List.flatMap_cons, hg,
      ih fun a' ha' => hf a' (List.mem_cons_of_mem _ ha')]

namespace Exact

variable (h : Exact T cfg store blocks) (hrows : RowsOf store scripts startHeight rows)

include h hrows

theorem entrySummary_eq (hsums : SumsFit T cfg scripts blocks)
    {item : Transaction × BlockId × UInt16}
    (hitem : ConfirmedTx T cfg scripts blocks item)
    (hheight : forall height, startHeight = some height -> item.2.1.height ≤ height.toNat) :
    entrySummary (item.1.txid, item.2) (infosOf rows item.1.txid) =
      summaryOf T cfg scripts item := by
  have hunique := h.rowsOf_uniqueBy hrows
  have hnodup := nodup_infosOf rows item.1.txid
  have hfunded : fundedValue cfg scripts item.1 = _ :=
    finsum_mem_eq_sum (hnodup.filterMap (f := TxHistoryInfo.funding?) ?_) ?_
      (fun info : FundingInfo => info.value.toNat)
  have hspent : spentValue T cfg scripts item.1 = _ :=
    finsum_mem_eq_sum (hnodup.filterMap (f := TxHistoryInfo.spending?) ?_) ?_
      (fun info : SpendingInfo => info.value.toNat)
  · rw [<- sum_funded] at hfunded
    rw [<- sum_spent] at hspent
    have hfit := hsums item hitem
    rw [hfunded, hspent] at hfit
    have hvalue := foldl_modifiedValue hfit.left hfit.right
    rw [<- hfunded, <- hspent] at hvalue
    rw [entrySummary, summaryOf, hvalue]
  · intro a a' b hb hb'
    rw [TxHistoryInfo.spending?_eq_some.mp hb, TxHistoryInfo.spending?_eq_some.mp hb']
  · intro info
    rw [<- h.mem_spending_rows hunique hitem hheight, List.mem_filterMap]
    simp only [TxHistoryInfo.spending?_eq_some, exists_eq_right]
    exact Iff.rfl
  · intro a a' b hb hb'
    rw [TxHistoryInfo.funding?_eq_some.mp hb, TxHistoryInfo.funding?_eq_some.mp hb']
  · intro info
    rw [<- h.mem_funding_rows hunique hitem hheight, List.mem_filterMap]
    simp only [TxHistoryInfo.funding?_eq_some, exists_eq_right]
    exact Iff.rfl

theorem unseenRows_eq (lastSeenTxid : Option Txid) :
    unseenRows rows lastSeenTxid = (after TxHistoryKey.getTxid lastSeenTxid
        (uniqueBy TxHistoryKey.getTxid (uniqueBy rowId rows))).flatMap fun row =>
          group TxHistoryKey.getTxid (uniqueBy rowId rows) row.getTxid := by
  have hcontiguous := contiguous_getTxid h (h.rowsOf_uniqueBy hrows)
  have hgroups := hcontiguous.eq_flatMap
  cases lastSeenTxid with
  | none =>
    have hnone : unseenRows rows none = uniqueBy rowId rows := by
      have hkeep : forall items : List TxHistoryKey, items.dropWhile (fun _ => false) = items := by
        intro items
        cases items with
        | nil => rfl
        | cons row items => rfl
      simp [unseenRows, hkeep]
    rw [hnone, after_none]
    exact hgroups
  | some last =>
    rw [unseenRows]
    simp only [Option.any_some, Option.some.injEq]
    conv_lhs => rw [hgroups]
    refine skip_groups (nodup_map_uniqueBy _ _) ?_ ?_
    · intro row hrow
      refine List.ne_nil_of_mem (a := row) (mem_group.mpr ⟨?_, rfl⟩)
      exact (uniqueBy_sublist _ _).subset hrow
    · intro row _ row' hrow'
      exact (mem_group.mp hrow').right

theorem summaryRow_of_group {row : TxHistoryKey} (hrow : row ∈ rows) :
    exists e, rowEntry store row = some e ∧
      (group TxHistoryKey.getTxid rows row.getTxid).filterMap (summaryRow store) =
        ((group TxHistoryKey.getTxid rows e.1).map TxHistoryKey.txinfo).map (.ofEntry e) := by
  rcases h.confirmedTx_of_mem_rows hrows hrow with ⟨item, hitem, htxid, _, _, hentry⟩
  refine ⟨_, hentry, ?_⟩
  rw [htxid, List.map_map, <- List.filterMap_eq_map]
  refine List.filterMap_congr ?_
  intro row' hrow'
  rcases mem_group.mp hrow' with ⟨hmem, htxid'⟩
  rcases h.confirmedTx_of_mem_rows hrows hmem with ⟨item', hitem', hitemTxid, _, _, hentry'⟩
  rw [h.confirmedTx_unique hitem' hitem (hitemTxid.symm.trans htxid')] at hentry'
  have hmap : summaryRow store row' =
      (rowEntry store row').map fun e => .ofEntry e row'.txinfo := by
    rw [rowEntry, Option.map_map]
    rfl
  rw [hmap, hentry']
  rfl

theorem summaryRows_eq (lastSeenTxid : Option Txid) :
    (unseenRows rows lastSeenTxid).filterMap (summaryRow store) =
      (confirmedTxids store (uniqueBy rowId rows) lastSeenTxid).flatMap fun e =>
        (infosOf rows e.1).map (.ofEntry e) := by
  have hunique := h.rowsOf_uniqueBy hrows
  rw [h.unseenRows_eq hrows, List.filterMap_flatMap, confirmedTxids]
  refine flatMap_filterMap ?_
  intro row hrow
  refine h.summaryRow_of_group hunique ?_
  exact (uniqueBy_sublist _ _).subset ((after_sublist _ _ _).subset hrow)

variable {lastSeenTxid : Option Txid}

theorem mem_confirmedTxids_none {e : Txid × BlockId × UInt16}
    (he : e ∈ confirmedTxids store rows lastSeenTxid) :
    e ∈ confirmedTxids store rows none := by
  rw [h.confirmedTxids_eq_after hrows] at he
  exact (after_sublist _ _ _).subset he

theorem pairwise_confirmedTxids_after (lastSeenTxid : Option Txid) :
    (confirmedTxids store rows lastSeenTxid).Pairwise fun e e' => Above e.2 e'.2 := by
  rw [h.confirmedTxids_eq_after hrows]
  exact (h.pairwise_confirmedTxids hrows).sublist (after_sublist _ _ _)

theorem nodup_confirmedTxids (lastSeenTxid : Option Txid) :
    ((confirmedTxids store rows lastSeenTxid).map Prod.fst).Nodup := by
  refine List.pairwise_map.mpr ((h.pairwise_confirmedTxids_after hrows lastSeenTxid).imp_of_mem ?_)
  intro e e' he he' habove heq
  rcases (h.mem_confirmedTxids hrows).mp (h.mem_confirmedTxids_none hrows he) with
    ⟨item, hitem, hitemEq, _⟩
  rcases (h.mem_confirmedTxids hrows).mp (h.mem_confirmedTxids_none hrows he') with
    ⟨item', hitem', hitemEq', _⟩
  rw [hitemEq, hitemEq'] at heq habove
  rw [h.confirmedTx_unique hitem hitem' heq] at habove
  exact Above.irrefl _ habove

theorem group_ne_nil {e : Txid × BlockId × UInt16}
    (he : e ∈ confirmedTxids store rows lastSeenTxid) :
    group TxHistoryKey.getTxid rows e.1 ≠ [] := by
  rcases List.mem_filterMap.mp he with ⟨row, hrow, hentry⟩
  have hrow' := (uniqueBy_sublist _ _).subset ((after_sublist _ _ _).subset hrow)
  rcases h.confirmedTx_of_mem_rows hrows hrow' with ⟨item, _, htxid, _, _, hentry'⟩
  refine List.ne_nil_of_mem (a := row) (mem_group.mpr ⟨hrow', ?_⟩)
  rw [hentry] at hentry'
  rw [Option.some.inj hentry']
  exact htxid

theorem collateRows_eq (lastSeenTxid : Option Txid) (limit : Nat) :
    collateRows limit ((unseenRows rows lastSeenTxid).filterMap (summaryRow store)) [] =
      ((confirmedTxids store (uniqueBy rowId rows) lastSeenTxid).take limit).map
        fun e => entrySummary e (infosOf rows e.1) := by
  have hunique := h.rowsOf_uniqueBy hrows
  have hne : forall e, e ∈ confirmedTxids store (uniqueBy rowId rows) lastSeenTxid ->
      infosOf rows e.1 ≠ [] := by
    intro e he hnil
    exact h.group_ne_nil hunique he (List.map_eq_nil_iff.mp hnil)
  have hnodup : (([] : List TxHistorySummary).map TxHistorySummary.txid ++
      (confirmedTxids store (uniqueBy rowId rows) lastSeenTxid).map Prod.fst).Nodup :=
    h.nodup_confirmedTxids hunique lastSeenTxid
  rw [h.summaryRows_eq hrows, collateRows_flatMap (fun e => infosOf rows e.1) hne hnodup,
    List.nil_append, List.length_nil, Nat.sub_zero]

theorem collateSummaries_eq (order : MapOrder) (lastSeenTxid : Option Txid) (limit : Nat) :
    collateSummaries store order rows lastSeenTxid limit =
      ((confirmedTxids store (uniqueBy rowId rows) lastSeenTxid).take limit).map
        fun e => entrySummary e (infosOf rows e.1) := by
  rw [collateSummaries, h.collateRows_eq hrows]
  refine sort_eq (List.pairwise_map.mpr ?_)
  exact (h.pairwise_confirmedTxids_after (h.rowsOf_uniqueBy hrows) lastSeenTxid).sublist
    (List.take_sublist _ _)

theorem collateSummaries_items (hsums : SumsFit T cfg scripts blocks)
    {items : List (Transaction × BlockId × UInt16)}
    (hitems : forall item, item ∈ items -> ConfirmedTx T cfg scripts blocks item)
    (hentries : confirmedTxids store (uniqueBy rowId rows) lastSeenTxid =
      items.map fun item => (item.1.txid, item.2)) (order : MapOrder) (limit : Nat) :
    collateSummaries store order rows lastSeenTxid limit =
      (items.take limit).map (summaryOf T cfg scripts) := by
  have hunique := h.rowsOf_uniqueBy hrows
  have hheight : forall item, item ∈ items -> forall height, startHeight = some height ->
      item.2.1.height ≤ height.toNat := by
    intro item hitem
    have he : (item.1.txid, item.2) ∈ confirmedTxids store (uniqueBy rowId rows) lastSeenTxid :=
      hentries ▸ List.mem_map_of_mem hitem
    rcases (h.mem_confirmedTxids hunique).mp (h.mem_confirmedTxids_none hunique he) with
      ⟨item', _, heq, hle⟩
    rw [(Prod.mk.inj heq).right]
    exact hle
  rw [h.collateSummaries_eq hrows, hentries, <- List.map_take, List.map_map]
  refine List.map_congr_left ?_
  intro item hitem
  have hmem := List.mem_of_mem_take hitem
  exact h.entrySummary_eq hrows hsums (hitems item hmem) (hheight item hmem)

end Exact

/-!
## Cursors
-/

def CursorTouches (T : BlockTree) (cfg : IndexerConfig) (scripts : List FullHash)
    (blocks : List Block) (cursor : Option Txid) : Prop :=
  forall last, cursor = some last ->
    exists item, ConfirmedTx T cfg scripts blocks item ∧ item.1.txid = last

theorem TxidAt.of_confirmedTx {item : Transaction × BlockId × UInt16}
    (hitem : ConfirmedTx T cfg scripts blocks item) :
    TxidAt blocks item.1.txid item.2 := by
  rcases hitem with ⟨be, idx, hbe, htx, heq, _⟩
  exact ⟨be, idx, item.1, hbe, htx, rfl, heq⟩

theorem TxidAt.unique (hnodup : (chainTxids blocks).Nodup) {txid : Txid}
    {position position' : BlockId × UInt16} (h : TxidAt blocks txid position)
    (h' : TxidAt blocks txid position') : position = position' := by
  rcases h with ⟨be, idx, tx, hbe, htx, htxid, heq⟩
  rcases h' with ⟨be', idx', tx', hbe', htx', htxid', heq'⟩
  rcases position_unique hnodup hbe hbe' htx htx' (htxid.trans htxid'.symm) with ⟨hblock, hidx, _⟩
  rw [heq, heq', hblock, hidx]

namespace Exact

variable (h : Exact T cfg store blocks)

include h

variable {item : Transaction × BlockId × UInt16}

theorem afterCursor_iff (hitem : ConfirmedTx T cfg scripts blocks item)
    {position : BlockId × UInt16} :
    AfterCursor blocks (some item.1.txid) position <-> Above item.2 position := by
  constructor
  · intro hafter
    rcases hafter _ rfl with ⟨top, htop, habove⟩
    rw [(TxidAt.of_confirmedTx hitem).unique h.valid.txids_nodup htop]
    exact habove
  · intro habove last hlast
    cases hlast
    exact ⟨item.2, .of_confirmedTx hitem, habove⟩

variable {cursor : Option Txid}

theorem mem_after_cursor {confirmed : List (Transaction × BlockId × UInt16)}
    (hdescending : confirmed.Pairwise fun item item' => Above item.2 item'.2)
    (hmem : forall item, item ∈ confirmed <-> ConfirmedTx T cfg scripts blocks item)
    (htouches : CursorTouches T cfg scripts blocks cursor) :
    item ∈ after (fun item => item.1.txid) cursor confirmed <->
      ConfirmedTx T cfg scripts blocks item ∧ AfterCursor blocks cursor item.2 := by
  cases cursor with
  | none =>
    rw [after_none, hmem]
    exact (and_iff_left nofun).symm
  | some last =>
    rcases htouches last rfl with ⟨top, htop, hlast⟩
    subst hlast
    rw [h.afterCursor_iff htop]
    have hkey : top.1.txid ∈ confirmed.map fun item => item.1.txid :=
      List.mem_map.mpr ⟨top, (hmem top).mpr htop, rfl⟩
    rcases after_some_of_mem hkey with ⟨front, top', htxid, hsplit, hfront⟩
    have htop' : top' = top := by
      refine h.confirmedTx_unique ((hmem top').mp ?_) htop htxid
      rw [hsplit]
      exact List.mem_append_right _ List.mem_cons_self
    rw [htop'] at hsplit
    have horder := hdescending
    rw [hsplit, List.pairwise_append, List.pairwise_cons] at horder
    constructor
    · intro hafter
      exact ⟨(hmem item).mp ((after_sublist _ _ _).subset hafter),
        horder.right.left.left item hafter⟩
    · intro hbelow
      have hin := (hmem item).mpr hbelow.left
      rw [hsplit, List.mem_append, List.mem_cons] at hin
      rcases hin with hin | hin | hin
      · have habove := horder.right.right item hin top List.mem_cons_self
        exact absurd hbelow.right habove.not_gt
      · rw [hin] at hbelow
        exact absurd hbelow.right (Above.irrefl _)
      · exact hin

theorem exists_items {startHeight : Option UInt32} (hstart : StartsAbove blocks cursor startHeight)
    (htouches : CursorTouches T cfg scripts blocks cursor) {rows : List TxHistoryKey}
    (hrows : RowsOf store scripts startHeight rows) :
    exists items : List (Transaction × BlockId × UInt16),
      items.Pairwise (fun item item' => Above item.2 item'.2) ∧
      (forall item, item ∈ items <->
        ConfirmedTx T cfg scripts blocks item ∧ AfterCursor blocks cursor item.2) ∧
      confirmedTxids store rows cursor = items.map fun item => (item.1.txid, item.2) := by
  have hfull : exists all, RowsOf store scripts none all ∧
      confirmedTxids store rows cursor = confirmedTxids store all cursor := by
    cases startHeight with
    | none => exact ⟨rows, hrows, rfl⟩
    | some height =>
      rcases hstart height rfl with ⟨last, top, hlast, htop, hle⟩
      subst hlast
      rcases htouches last rfl with ⟨item, hitem, htxid⟩
      subst htxid
      rw [htop.unique h.valid.txids_nodup (.of_confirmedTx hitem)] at hle
      have hall := rowsOf_historyIterScanGroupReverse h.inRange scripts none
      exact ⟨_, hall, h.confirmedTxids_start hall hrows hitem hle⟩
  rcases hfull with ⟨all, hall, hsame⟩
  rcases h.exists_confirmed hall with ⟨confirmed, hdescending, hmem, hentries⟩
  refine ⟨after (fun item => item.1.txid) cursor confirmed,
    hdescending.sublist (after_sublist _ _ _),
    fun item => h.mem_after_cursor hdescending hmem htouches, ?_⟩
  have hafter : after Prod.fst cursor (confirmed.map fun item => (item.1.txid, item.2)) =
        (after (fun item => item.1.txid) cursor confirmed).map fun item => (item.1.txid, item.2) :=
    after_map (fun _ _ => rfl) _
  rw [hsame, <- hafter, <- hentries, <- h.confirmedTxids_eq_after hall]

theorem confirmedTxids_missed {startHeight : Option UInt32} {rows : List TxHistoryKey}
    (hrows : RowsOf store scripts startHeight rows) {last : Txid}
    (hmiss : ¬ CursorTouches T cfg scripts blocks (some last)) :
    confirmedTxids store rows (some last) = [] := by
  have hfresh : last ∉ (uniqueBy TxHistoryKey.getTxid rows).map TxHistoryKey.getTxid := by
    intro hmem
    rcases List.mem_map.mp (mem_map_uniqueBy.mp hmem) with ⟨row, hrow, htxid⟩
    rcases h.confirmedTx_of_mem_rows hrows hrow with ⟨item, hitem, hitemTxid, _⟩
    refine hmiss ?_
    intro last' hlast
    cases hlast
    exact ⟨item, hitem, hitemTxid.symm.trans htxid⟩
  rw [confirmedTxids, after_some_eq_nil hfresh]
  rfl

theorem summaryGroup_touching (hsums : SumsFit T cfg scripts blocks)
    {startHeight : Option UInt32} (hstart : StartsAbove blocks cursor startHeight)
    (htouches : CursorTouches T cfg scripts blocks cursor) (order : MapOrder)
    (limit : Nat) :
    ExactSummaries T cfg scripts blocks cursor limit
      (summaryGroup store order scripts cursor startHeight limit) := by
  have hrows := rowsOf_historyIterScanGroupReverse h.inRange scripts startHeight
  rcases h.exists_items hstart htouches (h.rowsOf_uniqueBy hrows) with
    ⟨items, hdescending, hmem, hentries⟩
  refine ⟨items, hdescending, hmem, ?_⟩
  exact h.collateSummaries_items hrows hsums
    (fun item hitem => ((hmem item).mp hitem).left) hentries order limit

theorem summaryGroup_missed {last : Txid}
    (hmiss : ¬ CursorTouches T cfg scripts blocks (some last)) (order : MapOrder)
    (startHeight : Option UInt32) (limit : Nat) :
    summaryGroup store order scripts (some last) startHeight limit = [] := by
  have hrows := rowsOf_historyIterScanGroupReverse h.inRange scripts startHeight
  rw [summaryGroup, h.collateSummaries_eq hrows,
    h.confirmedTxids_missed (h.rowsOf_uniqueBy hrows) hmiss, List.take_nil, List.map_nil]

theorem summaryGroup_cursor_iff (order order' : MapOrder) (last : Txid) (limit : Nat) :
    summaryGroup store order scripts (some last) none limit =
        summaryGroup store order' scripts none none limit <->
      limit = 0 ∨ forall item, ¬ ConfirmedTx T cfg scripts blocks item := by
  have hrows := rowsOf_historyIterScanGroupReverse h.inRange scripts none
  have hunique := h.rowsOf_uniqueBy hrows
  have hnodup := h.nodup_confirmedTxids hunique none
  have hmem := fun item => h.mem_confirmedTxids hunique (e := item)
  rw [summaryGroup, summaryGroup, h.collateSummaries_eq hrows,
    h.collateSummaries_eq hrows, h.confirmedTxids_eq_after hunique]
  cases hentries : confirmedTxids store
      (uniqueBy rowId (historyIterScanGroupReverse store .script scripts none)) none with
  | nil =>
    refine iff_of_true rfl (Or.inr ?_)
    intro item hitem
    have hin := (hmem (item.1.txid, item.2)).mpr ⟨item, hitem, rfl, nofun⟩
    rw [hentries] at hin
    cases hin
  | cons e entries =>
    rw [hentries] at hnodup
    rcases (hmem e).mp (hentries ▸ List.mem_cons_self) with ⟨item, hitem, _, _⟩
    constructor
    · intro heq
      refine Or.inl ?_
      by_contra hlimit
      have htxids := congrArg (List.map TxHistorySummary.txid) heq
      rw [List.map_map, List.map_map] at htxids
      have hfirst : e ∈ (e :: entries).take limit := by
        rw [List.take_cons (Nat.pos_of_ne_zero hlimit)]
        exact List.mem_cons_self
      have hmap := List.mem_map_of_mem (f := Prod.fst) hfirst
      rcases List.mem_map.mp (htxids ▸ hmap) with ⟨e', he', htxid⟩
      refine not_mem_after_some hnodup last ?_
      exact List.mem_map.mpr ⟨e', List.mem_of_mem_take he', htxid⟩
    · intro hcases
      rw [hcases.resolve_right fun hnone => hnone item hitem, List.take_zero, List.take_zero]

end Exact

end Rows

/-- A summary is exact, unless its cursor is a transaction of the chain that does not touch the
scripts and one that does comes after it: then it is empty. -/
theorem summaries_exact_iff {T : BlockTree} {cfg : IndexerConfig} {store : Store}
    {blocks : List Block} (h : Exact T cfg store blocks) (order : MapOrder)
    (scripts : List FullHash) (hsums : SumsFit T cfg scripts blocks)
    (cursor : Option Txid) (startHeight : Option UInt32)
    (hstart : StartsAbove blocks cursor startHeight) (limit : Nat) (hlimit : 1 ≤ limit) :
    (ExactSummaries T cfg scripts blocks cursor limit
        (ChainQuery.summaryGroup store order scripts cursor startHeight limit) <->
      (CursorTouches T cfg scripts blocks cursor ∨
        forall item, ConfirmedTx T cfg scripts blocks item -> ¬ AfterCursor blocks cursor item.2)) ∧
    forall script, scripts = [script] ->
      ChainQuery.summary store order script cursor startHeight limit =
        ChainQuery.summaryGroup store order scripts cursor startHeight limit := by
  refine ⟨⟨?_, ?_⟩, ?_⟩
  · intro hexact
    refine or_iff_not_imp_left.mpr ?_
    intro hmiss item hitem hafter
    cases cursor with
    | none => exact hmiss nofun
    | some last =>
      rcases hexact with ⟨items, _, hmem, hanswer⟩
      rw [h.summaryGroup_missed hmiss] at hanswer
      have hin := (hmem item).mpr ⟨hitem, hafter⟩
      rcases List.take_eq_nil_iff.mp (List.map_eq_nil_iff.mp hanswer.symm) with hzero | hempty
      · omega
      · rw [hempty] at hin
        cases hin
  · intro hcases
    by_cases htouches : CursorTouches T cfg scripts blocks cursor
    · exact h.summaryGroup_touching hsums hstart htouches order limit
    · cases cursor with
      | none => exact absurd nofun htouches
      | some last =>
        refine ⟨[], List.Pairwise.nil, ?_, ?_⟩
        · intro item
          refine ⟨nofun, ?_⟩
          intro hitem
          exact absurd hitem.right (hcases.resolve_left htouches item hitem.left)
        · rw [h.summaryGroup_missed htouches, List.take_nil, List.map_nil]
  · intro script hscript
    rw [hscript]
    exact (ChainQuery.summaryGroup_singleton ..).symm

namespace Sample

theorem fundedValue_coinbase (scripts : List FullHash) (txid : Txid) (script : Script) :
    fundedValue config scripts (coinbase txid script) ≤ 50 := by
  have hsubset : txFundings config scripts (coinbase txid script) ⊆
      {({ txid := txid, vout := 0, value := 50 } : FundingInfo)} := by
    intro info hinfo
    rcases hinfo with ⟨i, txo, htxo, _, _, heq⟩
    rcases List.getElem?_eq_some_iff.mp htxo with ⟨hi, htxo⟩
    have hzero : i = 0 := Nat.lt_one_iff.mp hi
    subst hzero
    rw [heq, <- htxo]
    rfl
  rcases Set.subset_singleton_iff_eq.mp hsubset with hempty | hsingleton
  · rw [fundedValue, hempty, finsum_mem_empty]
    decide
  · rw [fundedValue, hsingleton, finsum_mem_singleton]
    exact Nat.le_refl 50

theorem spentValue_coinbase (scripts : List FullHash) (txid : Txid) (script : Script) :
    spentValue tree config scripts (coinbase txid script) = 0 := by
  have hempty : txSpendings tree config scripts (coinbase txid script) = ∅ := by
    refine Set.eq_empty_of_forall_notMem ?_
    intro info hinfo
    rcases hinfo with ⟨i, txi, _, htxi, hprevout, _⟩
    have hnull : txi = { previousOutput := OutPoint.null } :=
      List.mem_singleton.mp (List.mem_of_getElem? htxi)
    rw [hnull] at hprevout
    cases hprevout
  rw [spentValue, hempty, finsum_mem_empty]

theorem confirmedTx_cases {scripts : List FullHash} {item : Transaction × BlockId × UInt16}
    (h : ConfirmedTx tree config scripts [genesis, blockB] item) :
    item.1 = coinbase 101 [1] ∨ item.1 = coinbase 105 [5] := by
  rcases h with ⟨be, idx, hbe, htx, _, _⟩
  rcases mem_chainEntries.mp hbe with ⟨i, b, hb, heq⟩
  have hmem := List.mem_of_getElem? htx
  rw [heq, blockEntryAt_block] at hmem
  rcases List.mem_pair.mp (List.mem_of_getElem? hb) with hgenesis | hblockB
  · rw [hgenesis] at hmem
    exact Or.inl (List.mem_singleton.mp hmem)
  · rw [hblockB] at hmem
    exact Or.inr (List.mem_singleton.mp hmem)

theorem sumsFit (scripts : List FullHash) : SumsFit tree config scripts [genesis, blockB] := by
  intro item hitem
  have hcoinbase : exists txid script, item.1 = coinbase txid script := by
    rcases confirmedTx_cases hitem with heq | heq
    · exact ⟨_, _, heq⟩
    · exact ⟨_, _, heq⟩
  rcases hcoinbase with ⟨txid, script, heq⟩
  have hfunded := fundedValue_coinbase scripts txid script
  rw [heq, spentValue_coinbase]
  omega

theorem newest_summary :
    exists store, Exact tree config store [genesis, blockB] ∧
      ExactSummaries tree config [1, 5, 1] [genesis, blockB] none 1
        (ChainQuery.summaryGroup store .inserted [1, 5, 1] none none 1) := by
  rcases exists_inv_session with ⟨store, hinv⟩
  exact ⟨store, hinv.exact, (summaries_exact_iff hinv.exact .inserted [1, 5, 1] (sumsFit _)
    none none nofun 1 (by decide)).left.mpr (Or.inl nofun)⟩

def blockBAt : BlockEntry :=
  blockEntryAt blockB 1

theorem txidAt_blockB : TxidAt [genesis, blockB] 105 (BlockId.ofEntry blockBAt.entry, 0) :=
  ⟨blockBAt, 0, coinbase 105 [5], mem_chainEntries.mpr ⟨1, blockB, rfl, rfl⟩, rfl, rfl,
    rfl⟩

/-- The cursor, of the last block, does not touch the script; the first block does.  The summary is
empty. -/
theorem cursor_of_other_script :
    exists store, Exact tree config store [genesis, blockB] ∧
      (105 : Txid) ∈ chainTxids [genesis, blockB] ∧
      StartsAbove [genesis, blockB] (some 105) (some 1) ∧
      SumsFit tree config [1] [genesis, blockB] ∧
      ChainQuery.summaryGroup store .inserted [1] (some 105) (some 1) 1 = [] ∧
      ¬ ExactSummaries tree config [1] [genesis, blockB] (some 105) 1
        (ChainQuery.summaryGroup store .inserted [1] (some 105) (some 1) 1) := by
  have heval : exists store, run config reorg = .ok store ∧
      ChainQuery.summaryGroup store .inserted [1] (some 105) (some 1) 1 = [] := by
    decide +kernel
  rcases heval with ⟨store, hrun, hempty⟩
  have hexact : Exact tree config store [genesis, blockB] :=
    (wholeInv_of_noReturn hrun noReturn_reorg).inv.exact
  refine ⟨store, hexact, by decide, ?_, sumsFit [1], hempty, ?_⟩
  · intro height hheight
    cases hheight
    exact ⟨105, _, rfl, txidAt_blockB, by decide⟩
  · intro hanswer
    rcases hanswer with ⟨items, _, hmem, hanswer⟩
    rw [hempty] at hanswer
    have hgenesis : (coinbase 101 [1], BlockId.ofEntry (blockEntryAt genesis 0).entry,
        (0 : UInt16)) ∈ items := by
      refine (hmem _).mpr ⟨⟨blockEntryAt genesis 0, 0,
        mem_chainEntries.mpr ⟨0, genesis, rfl, rfl⟩, rfl, rfl, ?_⟩, ?_⟩
      · exact Or.inl ⟨_, List.mem_singleton.mpr rfl, by decide, by decide⟩
      · intro last hlast
        cases hlast
        exact ⟨_, txidAt_blockB, Or.inl (by decide)⟩
    rcases List.take_eq_nil_iff.mp (List.map_eq_nil_iff.mp hanswer.symm) with hzero | hnone
    · cases hzero
    · rw [hnone] at hgenesis
      cases hgenesis

end Sample

end NewIndex
end Splora
