import Splora.NewIndex.Stats

/-!
# Unspent outputs of a script

The loop of `apply_utxo_delta` checks two limits after each row.  Going on from a right cache
entry meets the same sizes as going through all rows, and counts fewer.
-/

namespace Splora
namespace NewIndex

open Foundation

namespace ChainQuery

/-!
## The loop
-/

section Loop

variable {limit : UInt64} {utxos : UtxoMap} {lastblock : Option BlockHash}
  {processed : Nat} {rows : List (TxHistoryKey × BlockId)}

def applyUtxoRows (utxos : UtxoMap) (rows : List (TxHistoryKey × BlockId)) :
    UtxoMap :=
  rows.foldl applyUtxoRow utxos

theorem applyUtxoRows_append (utxos : UtxoMap) (rows rows' : List (TxHistoryKey × BlockId)) :
    applyUtxoRows utxos (rows ++ rows') = applyUtxoRows (applyUtxoRows utxos rows) rows' :=
  List.foldl_append

def sizeAfter (utxos : UtxoMap) (rows : List (TxHistoryKey × BlockId)) (i : Nat) : Nat :=
  (applyUtxoRows utxos (rows.take (i + 1))).size

def WithinLimits (limit bound : Nat) (utxos : UtxoMap) (processed : Nat)
    (rows : List (TxHistoryKey × BlockId)) (i : Nat) : Prop :=
  sizeAfter utxos rows i ≤ limit ∧ processed + i + 1 ≤ bound

variable {row : TxHistoryKey × BlockId}

theorem withinLimits_succ {limit bound : Nat} {i : Nat} :
    WithinLimits limit bound utxos processed (row :: rows) (i + 1) <->
      WithinLimits limit bound (applyUtxoRow utxos row) (processed + 1) rows
        i := by
  unfold WithinLimits
  rw [show processed + (i + 1) + 1 = processed + 1 + i + 1 by omega]
  rfl

inductive LoopEnd (limit bound : Nat) (utxos : UtxoMap)
    (lastblock : Option BlockHash) (processed : Nat)
    (rows : List (TxHistoryKey × BlockId)) :
    Except Abort (UtxoMap × Option BlockHash × Nat) -> Prop where
  | tooManyUtxos {i : Nat} {n : UInt64} (hi : i < rows.length)
      (hbefore : forall j, j < i -> WithinLimits limit bound utxos processed rows j)
      (hsize : limit < sizeAfter utxos rows i) (hn : n.toNat = limit) :
      LoopEnd limit bound utxos lastblock processed rows (.error (.tooManyUtxos n))
  | tooManyTxs {i : Nat} {n : UInt64} (hi : i < rows.length)
      (hbefore : forall j, j < i -> WithinLimits limit bound utxos processed rows j)
      (hsize : sizeAfter utxos rows i ≤ limit)
      (hprocessed : bound < processed + i + 1) (hn : n.toNat = bound) :
      LoopEnd limit bound utxos lastblock processed rows (.error (.tooManyTxs n))
  | done (hall : forall j, j < rows.length ->
        WithinLimits limit bound utxos processed rows j) :
      LoopEnd limit bound utxos lastblock processed rows (.ok (applyUtxoRows utxos rows,
          (rows.getLast?.map fun row => row.2.hash).or lastblock,
          processed + rows.length))

theorem LoopEnd.cons {limit bound : Nat} {result : Except Abort (UtxoMap × Option BlockHash × Nat)}
    (hrow : WithinLimits limit bound utxos processed (row :: rows) 0)
    (h : LoopEnd limit bound (applyUtxoRow utxos row) (some row.2.hash)
      (processed + 1) rows result) :
    LoopEnd limit bound utxos lastblock processed (row :: rows) result := by
  have hsucc : forall {i : Nat},
      (forall j, j < i -> WithinLimits limit bound (applyUtxoRow utxos row)
        (processed + 1) rows j) ->
      forall j, j < i + 1 -> WithinLimits limit bound utxos processed (row :: rows) j := by
    intro i hbefore j hj
    cases j with
    | zero => exact hrow
    | succ j => exact withinLimits_succ.mpr (hbefore j (Nat.lt_of_succ_lt_succ hj))
  cases h with
  | tooManyUtxos hi hbefore hsize hn =>
    exact .tooManyUtxos (Nat.succ_lt_succ hi) (hsucc hbefore) hsize hn
  | tooManyTxs hi hbefore hsize hprocessed hn =>
    exact .tooManyTxs (Nat.succ_lt_succ hi) (hsucc hbefore) hsize (by omega) hn
  | done hall =>
    have hend : LoopEnd limit bound utxos lastblock processed (row :: rows) _ :=
      .done (hsucc hall)
    rw [List.length_cons, List.getLast?_cons] at hend
    rw [show processed + 1 + rows.length = processed + (rows.length + 1) by
      omega]
    cases hlast : rows.getLast? with
    | none => simpa [hlast, applyUtxoRows] using hend
    | some last => simpa [hlast, applyUtxoRows] using hend

theorem applyUtxoLoop_end (limit : UInt64) (utxos : UtxoMap)
    (lastblock : Option BlockHash) (processed : Nat)
    (rows : List (TxHistoryKey × BlockId)) :
    LoopEnd limit.toNat (txHistoryLimit limit).toNat utxos lastblock processed
      rows (applyUtxoLoop limit utxos lastblock processed rows) := by
  induction rows generalizing utxos lastblock processed with
  | nil =>
    refine LoopEnd.done ?_
    intro j hj
    cases hj
  | cons row rest ih =>
    have hfirst : forall {P : Nat -> Prop} (j : Nat), j < 0 -> P j := by
      intro P j hj
      cases hj
    rw [applyUtxoLoop]
    by_cases hsize : (applyUtxoRow utxos row).size ≤ limit.toNat
    · rw [ensure_of _ hsize, ok_bind]
      by_cases hprocessed : processed + 1 ≤ (txHistoryLimit limit).toNat
      · rw [ensure_of _ hprocessed, ok_bind]
        exact LoopEnd.cons ⟨hsize, hprocessed⟩ (ih _ _ _)
      · rw [ensure, if_neg hprocessed]
        exact .tooManyTxs (by simp) hfirst hsize (Nat.lt_of_not_le hprocessed) rfl
    · rw [ensure, if_neg hsize]
      exact .tooManyUtxos (by simp) hfirst (Nat.lt_of_not_le hsize) rfl

theorem applyUtxoLoop_eq_ok {result : UtxoMap × Option BlockHash × Nat} :
    applyUtxoLoop limit utxos lastblock processed rows = .ok result <->
      (forall j, j < rows.length -> WithinLimits limit.toNat
        (txHistoryLimit limit).toNat utxos processed rows j) ∧
      result = (applyUtxoRows utxos rows, (rows.getLast?.map fun row => row.2.hash).or lastblock,
        processed + rows.length) := by
  have hend := applyUtxoLoop_end limit utxos lastblock processed rows
  generalize applyUtxoLoop limit utxos lastblock processed rows = r at hend
  cases hend with
  | tooManyUtxos hi _ hsize _ =>
    refine iff_of_false (by simp) ?_
    rintro ⟨hall, _⟩
    exact absurd (hall _ hi).left (Nat.not_le.mpr hsize)
  | tooManyTxs hi _ _ hprocessed _ =>
    refine iff_of_false (by simp) ?_
    rintro ⟨hall, _⟩
    exact absurd (hall _ hi).right (Nat.not_le.mpr hprocessed)
  | done hall =>
    rw [Except.ok.injEq, eq_comm]
    exact ⟨fun h => ⟨hall, h⟩, And.right⟩

theorem size_applyUtxoRows_le (rows : List (TxHistoryKey × BlockId)) (utxos : UtxoMap) :
    (applyUtxoRows utxos rows).size ≤ utxos.size + rows.length := by
  induction rows generalizing utxos with
  | nil => exact Nat.le_refl _
  | cons row rest ih =>
    have hrow : (applyUtxoRow utxos row).size ≤ utxos.size + 1 := by
      unfold applyUtxoRow
      split
      · exact Std.ExtTreeMap.size_insert_le
      · exact Nat.le_succ_of_le Std.ExtTreeMap.size_erase_le
    have hrest := ih (applyUtxoRow utxos row)
    change (applyUtxoRows (applyUtxoRow utxos row) rest).size ≤ _
    rw [List.length_cons]
    omega

theorem withinLimits_append {limit bound : Nat}
    {older newer : List (TxHistoryKey × BlockId)} {j : Nat}
    (h : WithinLimits limit bound utxos 0 (older ++ newer) (older.length + j)) :
    WithinLimits limit bound (applyUtxoRows utxos older) 0 newer j := by
  refine ⟨?_, ?_⟩
  · have hsize := h.left
    unfold sizeAfter at hsize ⊢
    rwa [Nat.add_assoc, List.take_length_add_append, applyUtxoRows_append] at hsize
  · have hcount := h.right
    omega

end Loop

/-!
## What the map holds
-/

section Source

variable {utxos : UtxoMap} {rows : List (TxHistoryKey × BlockId)}
  {outpoint : OutPoint}

theorem getElem?_applyUtxoRow_of_ne {row : TxHistoryKey × BlockId}
    (h : row.1.getFundedOutpoint ≠ outpoint) :
    (applyUtxoRow utxos row)[outpoint]? = utxos[outpoint]? := by
  unfold applyUtxoRow
  cases row.1.txinfo with
  | funding info => exact getElem?_insert_of_ne utxos _ h
  | spending info => exact getElem?_erase_of_ne utxos h

theorem getElem?_applyUtxoRow_self (row : TxHistoryKey × BlockId) :
    (applyUtxoRow utxos row)[row.1.getFundedOutpoint]? =
      row.1.txinfo.funding?.map fun info => (row.2, info.value) := by
  unfold applyUtxoRow
  cases row.1.txinfo with
  | funding info => exact getElem?_insert_self utxos _ _
  | spending info => exact getElem?_erase_self utxos _

theorem getElem?_applyUtxoRows (rows : List (TxHistoryKey × BlockId)) (outpoint : OutPoint) :
    (applyUtxoRows ∅ rows)[outpoint]? =
      ((rows.filter fun row => row.1.getFundedOutpoint = outpoint).getLast?).bind
        fun row => row.1.txinfo.funding?.map fun info => (row.2, info.value) := by
  induction rows using List.reverseRecOn with
  | nil => exact Std.ExtTreeMap.getElem?_empty
  | append_singleton front row ih =>
    rw [applyUtxoRows_append, List.filter_append]
    change (applyUtxoRow (applyUtxoRows ∅ front) row)[outpoint]? = _
    by_cases hrow : row.1.getFundedOutpoint = outpoint
    · rw [← hrow, getElem?_applyUtxoRow_self]
      simp
    · rw [getElem?_applyUtxoRow_of_ne hrow, ih]
      simp [hrow]

end Source

/-!
## The cache
-/

section Cache

variable {T : BlockTree} {cfg : IndexerConfig} {store : Store}
  {blocks : List Block} {scripthash : FullHash} {limit : UInt64}
  {utxos : UtxoMap}

theorem getElem?_makeUtxoCache (utxos : UtxoMap) (outpoint : OutPoint) :
    (makeUtxoCache utxos)[outpoint]? =
      utxos[outpoint]?.map fun utxo => (utxo.1.height.toUInt32, utxo.2) :=
  getElem?_writeRows_map_toList utxos (fun utxo => (utxo.1.height.toUInt32, utxo.2)) outpoint

theorem blockidByHeight_eq (hrep : store.indexedHeaders.Represents blocks) (height : Nat) :
    blockidByHeight store height = .ok (blocks[height]?.map fun b =>
      BlockId.ofEntry (b.entryAt height)) := by
  rw [blockidByHeight, hrep.headerByHeight_eq, ok_bind, Option.map_map]
  rfl

def ConfirmedBy (blocks : List Block) (utxos : UtxoMap) : Prop :=
  forall (outpoint : OutPoint) (utxo : BlockId × UInt64), utxos[outpoint]? = some utxo ->
      exists be, be ∈ chainEntries blocks ∧ utxo.1 = BlockId.ofEntry be.entry

theorem fromUtxoCache_makeUtxoCache (hrep : store.indexedHeaders.Represents blocks)
    (hlength : blocks.length < 2 ^ 32) (hutxos : ConfirmedBy blocks utxos) :
    fromUtxoCache store (makeUtxoCache utxos) = .ok utxos := by
  have hfound : forall (outpoint : OutPoint) (utxo : BlockId × UInt64),
      utxos[outpoint]? = some utxo -> (blocks[utxo.1.height.toUInt32.toNat]?.map fun b =>
          BlockId.ofEntry (b.entryAt utxo.1.height.toUInt32.toNat)) = some utxo.1 := by
    intro outpoint utxo hutxo
    rcases hutxos outpoint utxo hutxo with ⟨be, hbe, hblock⟩
    rcases mem_chainEntries.mp hbe with ⟨i, b, hb, rfl⟩
    have hlt := (List.getElem?_eq_some_iff.mp hb).1
    have hheight : utxo.1.height = i := by
      rw [hblock]
      rfl
    rw [hheight, toNat_toUInt32 (by omega), hb, hblock]
    rfl
  let restore : UInt32 × UInt64 -> BlockId × UInt64 := fun cached =>
    (((blocks[cached.1.toNat]?.map fun b =>
      BlockId.ofEntry (b.entryAt cached.1.toNat)).getD
        { height := 0, hash := nullHash, time := 0 }), cached.2)
  have hrestore : forall (outpoint : OutPoint) (utxo : BlockId × UInt64),
      utxos[outpoint]? = some utxo -> restore (utxo.1.height.toUInt32, utxo.2) = utxo := by
    intro outpoint utxo hutxo
    simp only [restore, hfound outpoint utxo hutxo, Option.getD_some]
  have hrows : ((makeUtxoCache utxos).toList.mapM fun row =>
      show Except Abort (OutPoint × BlockId × UInt64) from do
        let found <- blockidByHeight store row.2.1.toNat
        let blockid <- expect found (.missingBlockheader row.2.1.toNat)
        return (row.1, blockid, row.2.2)) =
      .ok ((makeUtxoCache utxos).toList.map fun row =>
        (row.1, restore row.2)) := by
    apply mapM_eq_ok_map
    rintro ⟨outpoint, height, value⟩ hrow
    rw [Std.ExtTreeMap.mem_toList_iff_getElem?_eq_some, getElem?_makeUtxoCache] at hrow
    rcases Option.map_eq_some_iff.mp hrow with ⟨utxo, hutxo, heq⟩
    cases heq
    simp only [blockidByHeight_eq hrep, hfound outpoint utxo hutxo,
      hrestore outpoint utxo hutxo, ok_bind, expect]
    rfl
  rw [fromUtxoCache, hrows, ok_bind]
  refine congrArg Except.ok (Std.ExtTreeMap.ext_getElem? fun outpoint => ?_)
  rw [getElem?_writeRows_map_toList, getElem?_makeUtxoCache, Option.map_map]
  cases hutxo : utxos[outpoint]? with
  | none => rfl
  | some utxo => exact congrArg some (hrestore outpoint utxo hutxo)

theorem confirmedBy_applyUtxoRows {rows : List (TxHistoryKey × BlockId)}
    (h : forall row, row ∈ rows -> ScriptRow T cfg scripthash blocks row) :
    ConfirmedBy blocks (applyUtxoRows ∅ rows) := by
  intro outpoint utxo hutxo
  rw [getElem?_applyUtxoRows] at hutxo
  rcases Option.bind_eq_some_iff.mp hutxo with ⟨row, hrow, hinfo⟩
  rcases Option.map_eq_some_iff.mp hinfo with ⟨info, _, rfl⟩
  have hmem := (List.mem_filter.mp (List.mem_of_getLast? hrow)).left
  rcases h row hmem with ⟨_, be, hbe, _, hblock⟩
  exact ⟨be, hbe, hblock⟩

end Cache

end ChainQuery

section Entries

variable {T : BlockTree} {cfg : IndexerConfig} {store : Store}
  {blocks : List Block} {scripthash : FullHash} {limit : UInt64}

open ChainQuery

def UtxoEntry (T : BlockTree) (cfg : IndexerConfig) (scripthash : FullHash)
    (cached : CachedUtxoMap) (blockhash : BlockHash) : Prop :=
  forall blocks rows, ValidChain T blocks -> tipHash blocks = blockhash ->
    ScriptHistory T cfg scripthash blocks rows -> cached = makeUtxoCache (applyUtxoRows ∅ rows)

theorem Exact.fromUtxoCache_eq (h : Exact T cfg store blocks) {i : Nat}
    {b : Block} (hb : blocks[i]? = some b) {cached : CachedUtxoMap}
    (hentry : UtxoEntry T cfg scripthash cached b.hash) :
    exists older, confirmedHistory store scripthash 0 =
        older ++ confirmedHistory store scripthash (i + 1) ∧
      fromUtxoCache store cached = .ok (applyUtxoRows ∅ older) := by
  rcases h.history_split scripthash hb with ⟨older, hsplit, holder⟩
  refine ⟨older, hsplit, ?_⟩
  rw [hentry _ _ (h.valid.take _) (tipHash_take hb) holder]
  apply fromUtxoCache_makeUtxoCache h.headers h.valid.length_lt
  have hrows : forall row, row ∈ older ->
      ScriptRow T cfg scripthash blocks row := by
    intro row hrow
    exact (scriptRow_take.mp ((holder.mem_iff row).mp hrow)).left
  exact confirmedBy_applyUtxoRows hrows

theorem Exact.utxoCache_eq (h : Exact T cfg store blocks) (hentry : forall cached blockhash,
      store.disk.cache[CacheKey.utxo scripthash]? = some (.utxos cached blockhash) ->
      UtxoEntry T cfg scripthash cached blockhash) :
    exists cache older newer, utxoCache store scripthash = .ok cache ∧
      confirmedHistory store scripthash 0 = older ++ newer ∧
      (forall limit, newUtxos store scripthash limit cache =
        applyUtxoLoop limit (applyUtxoRows ∅ older) none 0 newer) := by
  have hscratch : exists older newer, confirmedHistory store scripthash 0 = older ++ newer ∧
      (forall limit, newUtxos store scripthash limit none =
        applyUtxoLoop limit (applyUtxoRows ∅ older) none 0 newer) :=
    ⟨[], _, rfl, fun _ => rfl⟩
  unfold utxoCache
  split
  · rename_i cached blockhash hcached
    cases hheight : heightByHash store blockhash with
    | none => exact ⟨none, _, _, rfl, hscratch.choose_spec.choose_spec⟩
    | some height =>
      rcases heightByHash_eq_some h.headers hheight with ⟨b, hb, rfl⟩
      rcases h.fromUtxoCache_eq hb (hentry _ _ hcached) with ⟨older, hsplit, hfrom⟩
      refine ⟨some (applyUtxoRows ∅ older, height), older, _, ?_, hsplit, fun _ => rfl⟩
      rw [hfrom]
      rfl
  · exact ⟨none, _, _, rfl, hscratch.choose_spec.choose_spec⟩

theorem ChainQuery.saveUtxos_cases (store : Store) (scripthash : FullHash)
    (hadCache : Bool) (newutxos : UtxoMap) (processedItems : Nat)
    (lastblock : Option BlockHash) :
    saveUtxos store scripthash hadCache newutxos processedItems lastblock = store ∨
      exists blockhash, lastblock = some blockhash ∧
        saveUtxos store scripthash hadCache newutxos processedItems lastblock =
          putCache store (.utxo scripthash) (.utxos (makeUtxoCache newutxos) blockhash) := by
  cases lastblock with
  | none => exact Or.inl rfl
  | some blockhash =>
    rw [saveUtxos]
    by_cases hsave : hadCache = true ∨ minHistoryItemsToCache < processedItems
    · rw [if_pos hsave]
      exact Or.inr ⟨blockhash, rfl, rfl⟩
    · rw [if_neg hsave]
      exact Or.inl rfl

theorem Exact.utxoEntry (h : Exact T cfg store blocks) {blockhash : BlockHash}
    (hlast : (confirmedHistory store scripthash 0).getLast?.map
      (fun row => row.2.hash) = some blockhash) :
    UtxoEntry T cfg scripthash
      (makeUtxoCache (applyUtxoRows ∅ (confirmedHistory store scripthash 0)))
      blockhash := by
  intro blocks' rows hvalid htip hrows
  rw [(h.scriptHistory scripthash).eq_of_lastblock h.valid hlast hvalid htip hrows]

theorem Exact.utxo_eq_ok (h : Exact T cfg store blocks) (hentry : forall cached blockhash,
      store.disk.cache[CacheKey.utxo scripthash]? = some (.utxos cached blockhash) ->
      UtxoEntry T cfg scripthash cached blockhash)
    {result : List Utxo} {store' : Store}
    (hok : utxo store scripthash limit = .ok (result, store')) :
    result = formatUtxos (applyUtxoRows ∅ (confirmedHistory store scripthash 0)) ∧
      (store' = store ∨ exists cached blockhash,
        store' = putCache store (.utxo scripthash) (.utxos cached blockhash) ∧
        UtxoEntry T cfg scripthash cached blockhash) := by
  rcases h.utxoCache_eq hentry with ⟨cache, older, newer, hcache, hsplit, hnew⟩
  rcases bind_eq_ok.mp hok with ⟨cache', hcache', hrest⟩
  rw [hcache] at hcache'
  cases hcache'
  rcases bind_eq_ok.mp hrest with ⟨⟨newutxos, lastblock, processed⟩, hutxos, heq⟩
  rw [hnew limit, applyUtxoLoop_eq_ok, ← applyUtxoRows_append, ← hsplit] at hutxos
  rcases hutxos with ⟨_, hresult⟩
  cases hresult
  cases heq
  refine ⟨rfl, (saveUtxos_cases _ _ _ _ _ _).imp_right ?_⟩
  rintro ⟨blockhash, hlast, hput⟩
  refine ⟨_, blockhash, hput, h.utxoEntry ?_⟩
  rw [Option.or_none] at hlast
  rcases Option.map_eq_some_iff.mp hlast with ⟨last, hrow, hhash⟩
  rw [hsplit, List.getLast?_append, hrow]
  exact congrArg some hhash

theorem Exact.utxo_succeeds (h : Exact T cfg store blocks) (hentry : forall cached blockhash,
      store.disk.cache[CacheKey.utxo scripthash]? = some (.utxos cached blockhash) ->
      UtxoEntry T cfg scripthash cached blockhash)
    {result : UtxoMap × Option BlockHash × Nat}
    (hscratch : utxoDelta store scripthash ∅ 0 limit = .ok result) :
    exists store', utxo store scripthash limit = .ok (formatUtxos result.1, store') := by
  rcases h.utxoCache_eq hentry with ⟨cache, older, newer, hcache, hsplit, hnew⟩
  rcases applyUtxoLoop_eq_ok.mp hscratch with ⟨hall, rfl⟩
  have hwithin : forall j, j < newer.length -> WithinLimits limit.toNat
      (txHistoryLimit limit).toNat (applyUtxoRows ∅ older) 0 newer j := by
    intro j hj
    apply withinLimits_append
    rw [← hsplit]
    apply hall
    rw [hsplit, List.length_append]
    omega
  have hloop : exists lastblock processed,
      newUtxos store scripthash limit cache = .ok (applyUtxoRows ∅
        (confirmedHistory store scripthash 0), lastblock, processed) := by
    refine ⟨(newer.getLast?.map fun row => row.2.hash).or none, 0 + newer.length, ?_⟩
    rw [hnew limit, applyUtxoLoop_eq_ok, ← applyUtxoRows_append, ← hsplit]
    exact ⟨hwithin, rfl⟩
  rcases hloop with ⟨lastblock, processed, hloop⟩
  exact ⟨_, bind_eq_ok.mpr ⟨cache, hcache, bind_eq_ok.mpr ⟨_, hloop, rfl⟩⟩⟩

theorem ChainQuery.utxoDelta_succeeds
    (hlimit : (confirmedHistory store scripthash 0).length ≤ limit.toNat)
    (hbound : (confirmedHistory store scripthash 0).length ≤ (txHistoryLimit limit).toNat) :
    exists result, utxoDelta store scripthash ∅ 0 limit = .ok result := by
  refine ⟨_, applyUtxoLoop_eq_ok.mpr ⟨?_, rfl⟩⟩
  intro j hj
  have hsize := size_applyUtxoRows_le ((confirmedHistory store scripthash 0).take (j + 1)) ∅
  rw [List.length_take] at hsize
  have hempty : (∅ : UtxoMap).size = 0 := Std.ExtTreeMap.size_empty
  refine ⟨?_, ?_⟩
  · unfold sizeAfter
    omega
  · omega

theorem ChainQuery.mem_cache_utxo {store' : Store} {result : List Utxo}
    (hok : utxo store scripthash limit = .ok (result, store'))
    (hmany : minHistoryItemsToCache < (confirmedHistory store scripthash 0).length) :
    CacheKey.utxo scripthash ∈ store'.disk.cache := by
  rcases bind_eq_ok.mp hok with ⟨cache, hcache, hrest⟩
  rcases bind_eq_ok.mp hrest with ⟨⟨newutxos, lastblock, processed⟩, hutxos, hpure⟩
  cases pure_eq_ok.mp hpure
  cases lastblock with
  | some blockhash =>
    have hsave : cache.isSome = true ∨ minHistoryItemsToCache < processed := by
      cases cache with
      | some old => exact Or.inl rfl
      | none =>
        rcases applyUtxoLoop_eq_ok.mp hutxos with ⟨_, heq⟩
        have hcount : processed = 0 + (confirmedHistory store scripthash 0).length :=
          congrArg (fun result => result.2.2) heq
        exact Or.inr (by omega)
    rw [saveUtxos, if_pos hsave]
    exact Std.ExtTreeMap.mem_insert_self
  | none =>
    cases cache with
    | some old =>
      unfold utxoCache at hcache
      split at hcache
      · rename_i cached blockhash hentry
        exact Std.ExtTreeMap.mem_iff_isSome_getElem?.mpr (hentry ▸ rfl)
      · cases hcache
    | none =>
      rcases applyUtxoLoop_eq_ok.mp hutxos with ⟨_, heq⟩
      have hlast := congrArg (fun result => result.2.1) heq
      rw [Option.or_none, eq_comm, Option.map_eq_none_iff, List.getLast?_eq_none_iff] at hlast
      rw [hlast] at hmany
      cases hmany

end Entries

end NewIndex
end Splora
