import Splora.Elements.Supply
import Splora.NewIndex.Completeness
import Splora.NewIndex.ScriptHistory

/-!
# The asset index over runs

Unless a block of the last restart returns, the history holds the asset rows of the best chain
after every update, and the mempool the entries of what was processed and not removed since.  A
cache entry counts the chain up to the block that it names.
-/

namespace Splora
namespace Elements

open Foundation
open NewIndex (BlockEntry FetchFrom WholeInv NoReturn blockEntriesFrom blockEntryAt chainEntries
  entrySet lastBest restartBest removedEntries)

/-!
## Rows
-/

section Rows

variable {cfg : Config} {asset : AssetId} {k : AssetHistoryKey} {height : Nat}
  {blocks : List Block} {b : BlockEntry} {tx : Transaction}

theorem mem_blockRows :
    k ∈ Store.blockRows cfg b <->
      k.confirmedHeight = b.entry.height.toUInt32 ∧
        exists (tx : Transaction) (i : Nat), (blockTxs cfg b.block)[i]? = some tx ∧
          k.txPosition = i.toUInt16 ∧ (k.assetId, k.txinfo) ∈ (indexTxAssets cfg tx).1 := by
  simp only [Store.blockRows, List.mem_flatMap, List.mem_map, Prod.exists,
    List.mem_zipIdx_iff_getElem?]
  constructor
  · intro h
    rcases h with ⟨tx, i, htx, id, info, hentry, rfl⟩
    exact ⟨rfl, tx, i, htx, rfl, hentry⟩
  · intro h
    rcases h with ⟨hheight, tx, i, htx, hposition, hentry⟩
    refine ⟨tx, i, htx, k.assetId, k.txinfo, hentry, ?_⟩
    rw [<- hheight, <- hposition]

theorem nodup_flatMap_zipIdx {α β : Type} {g : α × Nat -> List β} {l : List α}
    (hone : forall item, item ∈ l.zipIdx -> (g item).Nodup)
    (hindex : forall item item', item ∈ l.zipIdx -> item' ∈ l.zipIdx ->
      forall b, b ∈ g item -> b ∈ g item' -> item.2 = item'.2) :
    (l.zipIdx.flatMap g).Nodup := by
  refine List.nodup_flatMap.mpr ⟨hone, ?_⟩
  refine (List.pairwise_map.mp (List.nodup_zipIdx_map_snd l)).imp_of_mem ?_
  intro item item' hitem hitem' hne b hb hb'
  exact hne (hindex item item' hitem hitem' b hb hb')

def TxHistoryInfo.slot : TxHistoryInfo -> Bool × UInt32
  | .issuing info => (true, info.vin)
  | .pegin info => (true, info.vin)
  | .burning info => (false, info.vout)
  | .pegout info => (false, info.vout)

variable {entry : AssetId × TxHistoryInfo}

theorem mem_indexOutput {txid : Txid} {txo : TxOut} {i : Nat}
    (h : entry ∈ indexOutput cfg txid txo i) :
    indexOutput cfg txid txo i = [entry] ∧ entry.2.getTxid = txid ∧
      entry.2.slot = (false, i.toUInt32) := by
  rcases indexOutput_cases cfg txid txo i with ⟨heq, _⟩ | ⟨id, value, info, _, _, _, heq, hinfo⟩
  · rw [heq] at h
    cases h
  · rw [heq] at h ⊢
    rw [List.mem_singleton.mp h]
    rcases hinfo with ⟨_, rfl⟩ | rfl
    · exact ⟨rfl, rfl, rfl⟩
    · exact ⟨rfl, rfl, rfl⟩

theorem mem_indexInput {txid : Txid} {txi : TxIn} {i : Nat}
    (h : entry ∈ indexInput cfg txid txi i) :
    indexInput cfg txid txi i = [entry] ∧ entry.2.getTxid = txid ∧
      entry.2.slot = (true, i.toUInt32) := by
  rcases indexInput_cases cfg txid txi i with ⟨_, _, heq⟩ | ⟨_, ⟨_, heq⟩ | ⟨_, heq⟩⟩
  · rw [heq] at h ⊢
    rw [List.mem_singleton.mp h]
    exact ⟨rfl, rfl, rfl⟩
  · rw [heq] at h
    cases h
  · rw [heq] at h ⊢
    rw [List.mem_singleton.mp h]
    exact ⟨rfl, rfl, rfl⟩

theorem mem_indexTxAssets (h : entry ∈ (indexTxAssets cfg tx).1) :
    (exists output, output ∈ tx.output.zipIdx ∧ entry ∈ indexOutput cfg tx.txid output.1 output.2) ∨
      exists input, input ∈ tx.input.zipIdx ∧ entry ∈ indexInput cfg tx.txid input.1 input.2 := by
  rw [indexTxAssets] at h
  rcases List.mem_append.mp h with houtput | hinput
  · exact Or.inl (List.mem_flatMap.mp houtput)
  · exact Or.inr (List.mem_flatMap.mp hinput)

theorem getTxid_of_mem_indexTxAssets (h : entry ∈ (indexTxAssets cfg tx).1) :
    entry.2.getTxid = tx.txid := by
  rcases mem_indexTxAssets h with ⟨_, _, houtput⟩ | ⟨_, _, hinput⟩
  · exact (mem_indexOutput houtput).right.left
  · exact (mem_indexInput hinput).right.left

theorem nodup_slots {α : Type} (kind : Bool) {l : List α}
    {g : α × Nat -> List (AssetId × TxHistoryInfo)} (hlength : l.length < 2 ^ 32)
    (h : forall item entry, entry ∈ g item ->
      g item = [entry] ∧ entry.2.slot = (kind, item.2.toUInt32)) :
    (l.zipIdx.flatMap g).Nodup := by
  refine nodup_flatMap_zipIdx ?_ ?_
  · intro item _
    cases hentries : g item with
    | nil => exact List.nodup_nil
    | cons entry rest =>
      have hmem : entry ∈ g item := by
        rw [hentries]
        exact List.mem_cons_self
      rw [<- hentries, (h item entry hmem).left]
      exact List.nodup_singleton _
  · intro item item' hitem hitem' entry hentry hentry'
    have hlt := List.snd_lt_of_mem_zipIdx hitem
    have hlt' := List.snd_lt_of_mem_zipIdx hitem'
    have hslot := (h item entry hentry).right
    rw [(h item' entry hentry').right] at hslot
    exact (NewIndex.toUInt32_inj (by omega) (by omega) (congrArg Prod.snd hslot)).symm

end Rows

/-!
## Scans
-/

section Scan

variable {T : BlockTree} {store : Store T} {asset : AssetId} {k k' : AssetHistoryKey} {start : Nat}

theorem isPrefixOf_bytes_iff :
    (AssetHistoryKey.filter asset).isPrefixOf k.bytes = true <-> k.assetId = asset := by
  rw [List.isPrefixOf_iff_prefix, AssetHistoryKey.filter, AssetHistoryKey.bytes,
    List.cons_prefix_cons, NewIndex.field_prefix_iff (by simp), NewIndex.hashBytes_inj]
  constructor
  · intro h
    exact h.right.symm
  · intro h
    exact ⟨rfl, h.symm⟩

theorem mem_historyIterScan :
    k ∈ store.historyIterScan asset start <->
      k ∈ store.history ∧ k.assetId = asset ∧ start.toUInt32.toNat ≤ k.confirmedHeight.toNat := by
  have hstart : (AssetHistoryKey.filter asset).isPrefixOf
      (AssetHistoryKey.prefixHeight asset start.toUInt32) = true := by
    rw [List.isPrefixOf_iff_prefix]
    exact List.cons_prefix_cons.mpr ⟨rfl, List.prefix_append _ _⟩
  have hbelow : k.assetId = asset ->
      ((!(compare k.bytes (AssetHistoryKey.prefixHeight asset start.toUInt32) == .lt)) = true <->
        start.toUInt32.toNat ≤ k.confirmedHeight.toNat) := by
    intro hasset
    have hlt := NewIndex.compare_height_start 'I'.toUInt8 asset k.confirmedHeight
      start.toUInt32 (NewIndex.u16Big k.txPosition ++ k.txinfo.bytes)
    rw [Bool.not_eq_true', beq_eq_false_iff_ne, Ne, AssetHistoryKey.bytes, hasset,
      AssetHistoryKey.prefixHeight, hlt, Nat.not_lt]
  rw [Store.historyIterScan, scanFrom_eq_filter _ hstart, List.mem_map]
  constructor
  · intro h
    rcases h with ⟨row, hrow, rfl⟩
    rcases List.mem_filter.mp hrow with ⟨hlow, hprefix⟩
    rcases List.mem_filter.mp hlow with ⟨hmem, hlow⟩
    have hasset := isPrefixOf_bytes_iff.mp hprefix
    exact ⟨mem_of_getElem? (Std.ExtTreeMap.mem_toList_iff_getElem?_eq_some.mp hmem), hasset,
      (hbelow hasset).mp hlow⟩
  · intro h
    rcases h with ⟨hmem, hasset, hheight⟩
    rcases mem_iff_exists.mp hmem with ⟨v, hv⟩
    exact ⟨(k, v), List.mem_filter.mpr ⟨List.mem_filter.mpr
      ⟨Std.ExtTreeMap.mem_toList_iff_getElem?_eq_some.mpr hv, (hbelow hasset).mpr hheight⟩,
      isPrefixOf_bytes_iff.mpr hasset⟩, rfl⟩

theorem historyIterScan_sorted :
    (store.historyIterScan asset start).Pairwise fun k k' =>
      compare k.bytes k'.bytes = .lt := by
  have hsorted : store.history.toList.Pairwise fun row row' =>
      compare row.1.bytes row'.1.bytes = .lt :=
    Std.ExtTreeMap.ordered_keys_toList (t := store.history)
  rw [Store.historyIterScan, List.pairwise_map]
  exact hsorted.sublist ((List.takeWhile_sublist _).trans (List.dropWhile_sublist _))

end Scan

/-!
## Counting
-/

section Counting

variable {S : Type} {apply : AssetStatApplyFn S} {default : S}
  {Counts : List TxHistoryInfo -> S -> Prop}

end Counting

/-!
## The store over updates
-/

section Store

variable {T : BlockTree} {cfg : Config} {store : Store T} {asset : AssetId} {k : AssetHistoryKey}
  {chain : List Block}

def CountsUpTo {S : Type} (cfg : Config) (Counts : List TxHistoryInfo -> S -> Prop)
    (asset : AssetId) (chain : List Block) (stats : S) (hash : BlockHash) : Prop :=
  exists (height : Nat) (b : Block), chain[height]? = some b ∧ b.hash = hash ∧
    Counts (entriesOf cfg asset (chainTxs cfg (chain.take (height + 1)))) stats

def CacheInv {S : Type} (T : BlockTree) (cfg : Config)
    (Counts : List TxHistoryInfo -> S -> Prop) (cache : StatsCache S) : Prop :=
  forall asset stats hash, cache[asset]? = some (stats, hash) ->
    exists chain, IsChain T chain ∧ CountsUpTo cfg Counts asset chain stats hash

def AssetRows (cfg : Config) (b : BlockEntry) (k : AssetHistoryKey) (_ : Unit) : Prop :=
  k ∈ Store.blockRows cfg b

structure HistoryInv (cfg : Config) (store : Store T) (chain : List Block) : Prop where
  inv : NewIndex.Inv T cfg.indexer store.base chain (entrySet chain)
  rows : Materializes (fun _ => True) (AssetRows cfg) store.history (entrySet chain)

theorem separated_assetRows (h : ValidChain T chain) :
    Separated (fun _ => True) (AssetRows cfg) (entrySet chain) := by
  intro k _ b b' _ _ hb hb' hrow hrow'
  refine ⟨?_, rfl⟩
  rcases NewIndex.mem_chainEntries.mp hb with ⟨i, block, hblock, rfl⟩
  rcases NewIndex.mem_chainEntries.mp hb' with ⟨i', block', hblock', rfl⟩
  have hlength := h.length_lt
  have hi := (List.getElem?_eq_some_iff.mp hblock).1
  have hi' := (List.getElem?_eq_some_iff.mp hblock').1
  have hheight : i = i' := NewIndex.toUInt32_inj (by omega) (by omega)
    ((mem_blockRows.mp hrow).left.symm.trans (mem_blockRows.mp hrow').left)
  rw [hheight, hblock'] at hblock
  rw [Option.some.inj hblock, hheight]

theorem getElem?_deleteKeys {K V : Type} {cmp : K -> K -> Ordering} [Std.TransCmp cmp]
    [Std.LawfulEqCmp cmp] {t : Table K V cmp} {keys : List K} {k : K} {v : V} :
    (Store.deleteKeys t keys)[k]? = some v <-> t[k]? = some v ∧ k ∉ keys := by
  rw [Store.deleteKeys]
  by_cases hmem : k ∈ keys
  · rw [getElem?_replay_delete_of_mem t hmem]
    simp [hmem]
  · rw [getElem?_replay_delete_of_not_mem t hmem]
    simp [hmem]

theorem CacheInv.deleteKeys {S : Type} {Counts : List TxHistoryInfo -> S -> Prop}
    {cache : StatsCache S} (h : CacheInv T cfg Counts cache) (keys : List AssetId) :
    CacheInv T cfg Counts (Store.deleteKeys cache keys) := by
  intro asset stats hash hentry
  exact h asset stats hash (getElem?_deleteKeys.mp hentry).left

theorem exists_update {c : List Block} {s : Set BlockEntry} {fetchFrom : FetchFrom}
    {daemon : Daemon T} {store' : Store T} (h : NewIndex.Inv T cfg.indexer store.base c s)
    (hupdate : store.update cfg fetchFrom daemon = .ok store') :
    exists x, NewIndex.step cfg.indexer store.base (.update fetchFrom daemon) = .ok x.store ∧
      exists (tr : NewIndex.Trace cfg.indexer store.base c daemon x) (indexed : List BlockEntry),
        indexed.Perm (NewIndex.unmarkedEntries tr.q tr.n store.base.indexedBlockhashes) ∧
        store' = Store.index cfg (Store.reorg cfg { store with base := x.store }
          (removedEntries tr.q tr.a)) indexed := by
  rcases bind_eq_ok.mp hupdate with ⟨newHeaders, hheaders, hrest⟩
  rcases bind_eq_ok.mp hrest with ⟨⟨headers, reorged, rollbackTip⟩, happly, hrest⟩
  rcases bind_eq_ok.mp hrest with ⟨x, hx, hrest⟩
  rcases bind_eq_ok.mp hrest with ⟨removed, hremoved, hrest⟩
  rcases bind_eq_ok.mp hrest with ⟨indexed, hindexed, hpure⟩
  rcases NewIndex.exists_trace h.headers h.valid.toIsChain h.truthful hx with ⟨tr⟩
  have hd := daemon.best.valid.toIsChain
  have hqa : IsChain T (tr.q ++ tr.a) := tr.fork.left_eq ▸ h.valid.toIsChain
  have hqn : IsChain T (tr.q ++ tr.n) := tr.fork.right_eq ▸ hd
  rw [NewIndex.getNewHeaders_eq h.headers h.valid.toIsChain tr.fork] at hheaders
  cases hheaders
  rcases NewIndex.exists_apply h.headers hd tr.fork tr.advances with ⟨headers', happly', _⟩
  rw [happly'] at happly
  cases happly
  rw [(NewIndex.fetchable_removedEntries hqa).bitcoindSequentialFetcher_eq] at hremoved
  cases hremoved
  rw [NewIndex.headersToIndex, <- NewIndex.map_entry_unmarkedEntries] at hindexed
  refine ⟨x, bind_eq_ok.mpr ⟨x, hx, rfl⟩, tr, indexed.flatten,
    (NewIndex.fetchable_unmarkedEntries hqn _).startFetcher_perm hindexed, ?_⟩
  rw [<- pure_eq_ok.mp hpure, flatten_chunks (by decide)]

theorem HistoryInv.update {events : List (NewIndex.Event T)} {fetchFrom : FetchFrom}
    {daemon : Daemon T} {store' : Store T} (h : HistoryInv cfg store (lastBest events))
    (hwhole : WholeInv T cfg.indexer store.base events)
    (hupdate : store.update cfg fetchFrom daemon = .ok store')
    (hreturn : forall b, b ∈ daemon.best.blocks -> b ∈ restartBest events ->
      b ∈ lastBest events) :
    HistoryInv cfg store' daemon.best.blocks ∧
      WholeInv T cfg.indexer store'.base (events ++ [.update fetchFrom daemon]) := by
  rcases exists_update h.inv hupdate with ⟨x, hstep, tr, indexed, hindexed, rfl⟩
  have hwhole' := hwhole.update hstep hreturn
  have hinv := hwhole'.inv
  rw [NewIndex.lastBest_update] at hinv
  have hnext := (hwhole.nextIndexed_eq_iff tr).mpr hreturn
  have hsub : {b | b ∈ blockEntriesFrom tr.q.length tr.a} ⊆ entrySet (lastBest events) :=
    fun b hb => (NewIndex.entrySet_left tr.fork).mpr (Or.inr hb)
  have hset : forall b, b ∈ (entrySet (lastBest events) \
      {b | b ∈ blockEntriesFrom tr.q.length tr.a}) ∪ {b | b ∈ indexed} <->
        b ∈ entrySet daemon.best.blocks := by
    intro b
    rw [<- hnext]
    exact or_congr_right hindexed.mem_iff
  have hkeys : forall k, True -> (k ∈ (removedEntries tr.q tr.a).flatMap (Store.blockRows cfg) <->
      exists b, b ∈ {b | b ∈ blockEntriesFrom tr.q.length tr.a} ∧
        exists v, AssetRows cfg b k v) := by
    simp [NewIndex.mem_removedEntries, AssetRows]
  have hrows : forall k, True -> forall v,
      ((k, v) ∈ (indexed.flatMap (Store.blockRows cfg)).map (fun row => (row, ())) <->
        exists b, b ∈ {b | b ∈ indexed} ∧ AssetRows cfg b k v) := by
    simp [AssetRows]
  have hdeleted := h.rows.delete (separated_assetRows h.inv.valid) Set.Subset.rfl hsub hkeys
  have hwritten := hdeleted.write (separated_assetRows hinv.valid)
    (fun b hb => (hset b).mp (Or.inl hb)) (fun b hb => (hset b).mp (Or.inr hb))
    (fun _ _ _ _ _ => rfl) hrows
  exact ⟨⟨hinv, hwritten.congr hset⟩, hwhole'⟩

namespace HistoryInv

variable {start : Nat}

section Stats

variable {S : Type} {apply : AssetStatApplyFn S} {default : S}
  {Counts : List TxHistoryInfo -> S -> Prop}

end Stats

end HistoryInv

end Store

/-!
## The mempool
-/

section Mempool

variable {T : BlockTree} {cfg : Config} {store : Store T} {m m' : Mempool} {asset : AssetId}

def MempoolInv (cfg : Config) (m : Mempool) : Prop :=
  HoldsBuckets m.assetHistory (m.feeinfo.flatMap fun tx => (indexTxAssets cfg tx).1)

def SameEntries (m m' : Mempool) : Prop :=
  m'.assetHistory = m.assetHistory ∧ m'.feeinfo = m.feeinfo

theorem MempoolInv.of_same (h : MempoolInv cfg m) (hsame : SameEntries m m') :
    MempoolInv cfg m' := by
  rw [MempoolInv, hsame.left, hsame.right]
  exact h

theorem foldl_insertTx_same (txs : List Transaction) (st : Mempool × List Txid) :
    SameEntries st.1 (txs.foldl Mempool.insertTx st).1 := by
  induction txs generalizing st with
  | nil => exact ⟨rfl, rfl⟩
  | cons tx txs ih => exact ih (Mempool.insertTx st tx)

theorem MempoolInv.processTx (h : MempoolInv cfg m) {txid : Txid}
    (hprocess : m.processTx cfg store txid = .ok m') : MempoolInv cfg m' := by
  rcases bind_eq_ok.mp hprocess with ⟨tx, _, hresult⟩
  split at hresult
  · cases hresult
    show HoldsBuckets _ ((m.feeinfo ++ [tx]).flatMap _)
    rw [List.flatMap_append, List.flatMap_singleton]
    exact h.foldl_push _
  · cases hresult
    exact h

theorem MempoolInv.add (h : MempoolInv cfg m) {txs : List Transaction}
    (hadd : m.add cfg store txs = .ok m') : MempoolInv cfg m' := by
  have hstart : MempoolInv cfg (txs.foldl Mempool.insertTx (m, [])).1 :=
    h.of_same (foldl_insertTx_same txs (m, []))
  refine foldlM_ok_induct (P := fun m _ => MempoolInv cfg m) hadd hstart ?_
  intro m txid _ m₁ hinv hprocess
  exact hinv.processTx hprocess

theorem foldlM_removeTx_same {txids : List Txid}
    (h : txids.foldlM Mempool.removeTx m = .ok m') : SameEntries m m' := by
  refine foldlM_ok_induct (P := fun m' _ => SameEntries m m') h ⟨rfl, rfl⟩ ?_
  intro m₁ txid _ m₂ hsame hremove
  rcases bind_eq_ok.mp hremove with ⟨_, _, hresult⟩
  cases hresult
  exact hsame

theorem filter_entries (keep : Txid -> Bool) (txs : List Transaction) :
    ((txs.flatMap fun tx => (indexTxAssets cfg tx).1).filter fun entry =>
        keep entry.2.getTxid) =
      (txs.filter fun tx => keep tx.txid).flatMap fun tx => (indexTxAssets cfg tx).1 := by
  induction txs with
  | nil => rfl
  | cons tx txs ih =>
    have hentries : (indexTxAssets cfg tx).1.filter (fun entry => keep entry.2.getTxid) =
        (indexTxAssets cfg tx).1.filter fun _ => keep tx.txid := by
      refine List.filter_congr ?_
      intro entry hentry
      rw [getTxid_of_mem_indexTxAssets hentry]
    rw [List.flatMap_cons, List.filter_append, hentries, ih]
    cases hkeep : keep tx.txid with
    | false => simp [hkeep]
    | true => simp [hkeep]

theorem MempoolInv.remove (h : MempoolInv cfg m) {toRemove : List Txid}
    (hremove : m.remove toRemove = .ok m') : MempoolInv cfg m' := by
  rcases bind_eq_ok.mp hremove with ⟨m₁, hfold, hresult⟩
  cases hresult
  have hinv := (h.of_same (foldlM_removeTx_same hfold)).retain fun entry =>
    entry.getTxid ∉ toRemove
  rw [filter_entries fun txid => txid ∉ toRemove] at hinv
  exact hinv

end Mempool

/-!
## The two kinds of statistics
-/

/-- The sums wrap; no entry is one of a peg. -/
structure CountsIssued (infos : List TxHistoryInfo) (stats : IssuedAssetStats) : Prop where
  issued : stats.issuedAmount.toNat = total TxHistoryInfo.issuedAmount infos % 2 ^ 64
  burned : stats.burnedAmount.toNat = total TxHistoryInfo.burnedAmount infos % 2 ^ 64
  blinded : stats.hasBlindedIssuances = infos.any TxHistoryInfo.isBlinded
  no_pegout : total TxHistoryInfo.pegOutAmount infos = 0

structure CountsPegged (infos : List TxHistoryInfo) (stats : PeggedAssetStats) : Prop where
  peggedIn : stats.pegInAmount.toNat = total TxHistoryInfo.pegInAmount infos % 2 ^ 64
  peggedOut : stats.pegOutAmount.toNat = total TxHistoryInfo.pegOutAmount infos % 2 ^ 64
  burned : stats.burnedAmount.toNat = total TxHistoryInfo.burnedAmount infos % 2 ^ 64

section Wrapped

variable {f : TxHistoryInfo -> Nat} {infos : List TxHistoryInfo} {info : TxHistoryInfo}
  {n : UInt64}

end Wrapped

section Runs

variable {T : BlockTree} {cfg : Config} {st st' : Index T} {asset : AssetId}
  {events : List (NewIndex.Event T)} {chain : List Block}

structure IndexInv (cfg : Config) (st : Index T) (chain : List Block) : Prop where
  history : HistoryInv cfg st.store chain
  issued : CacheInv T cfg CountsIssued st.store.issuedCache
  pegged : CacheInv T cfg CountsPegged st.store.peggedCache
  mempool : MempoolInv cfg st.mempool

namespace IndexInv

end IndexInv

structure Follows (cfg : Config) (st : Index T) (events : List (NewIndex.Event T)) : Prop where
  whole : WholeInv T cfg.indexer st.store.base events
  index : IndexInv cfg st (lastBest events)

theorem Follows.update (h : Follows cfg st events) {fetchFrom : FetchFrom} {daemon : Daemon T}
    (hstep : st.step cfg (.update fetchFrom daemon) = .ok st')
    (hreturn : forall b, b ∈ daemon.best.blocks -> b ∈ restartBest events ->
      b ∈ lastBest events) :
    Follows cfg st' (events ++ [.update fetchFrom daemon]) := by
  rcases bind_eq_ok.mp hstep with ⟨store, hupdate, hresult⟩
  cases hresult
  have hupdate := mapError_eq_ok.mp hupdate
  rcases h.index.history.update h.whole hupdate hreturn with ⟨hhistory, hwhole⟩
  rcases exists_update h.index.history.inv hupdate with ⟨_, _, _, _, _, rfl⟩
  refine ⟨hwhole, ?_⟩
  rw [NewIndex.lastBest_update]
  exact ⟨hhistory, h.index.issued.deleteKeys _, h.index.pegged.deleteKeys _, h.index.mempool⟩

theorem Follows.restart (h : Follows cfg st events) (hstep : st.step cfg .restart = .ok st') :
    Follows cfg st' (events ++ [.restart]) := by
  rcases bind_eq_ok.mp hstep with ⟨base, hopen, hresult⟩
  cases hresult
  have hwhole := h.whole.restart (mapError_eq_ok.mp hopen)
  refine ⟨hwhole, ⟨hwhole.inv, ?_⟩, h.index.issued, h.index.pegged, HoldsBuckets.empty⟩
  rw [NewIndex.lastBest_restart]
  exact h.index.history.rows

end Runs

end Elements
end Splora
