import Splora.NewIndex.Completeness
import Splora.NewIndex.Query

/-!
# The address index

Blocks share address rows, but a reorg deletes one with any of its blocks.  So they are right
only as long as an address of a removed and a remaining block is paid by a new one.  Runs
without restarts are considered here.
-/

namespace Splora
namespace NewIndex

open Foundation

def Pays (cfg : IndexerConfig) (b : Block) (address : Bytes) : Prop :=
  exists tx, tx ∈ b.txdata ∧ exists txo, txo ∈ tx.output ∧ cfg.isIndexed txo = true ∧
    cfg.externals.toAddressStr cfg.network txo.scriptPubkey = some address

def AddrExact (cfg : IndexerConfig) (store : Store) (blocks : List Block) :
    Prop :=
  forall address, HistoryKey.addr address ∈ store.disk.history <->
    exists b, b ∈ blocks ∧ Pays cfg b address

def SearchExact (cfg : IndexerConfig) (store : Store) (blocks : List Block) :
    Prop :=
  forall pref, exists addresses : List Bytes, addresses.Pairwise (fun a b => compare a b = .lt) ∧
    (forall address, address ∈ addresses <->
      pref <+: address ∧ exists b, b ∈ blocks ∧ Pays cfg b address) ∧
    forall limit, ChainQuery.addressSearch store pref limit = addresses.take limit

section Rows

variable {T : BlockTree} {cfg : IndexerConfig} {store : Store}

theorem indexRow_addr_iff {be : BlockEntry} {address : Bytes} :
    IndexRow T cfg be (.addr address) <-> cfg.addressSearch = true ∧ Pays cfg be.block address := by
  constructor
  · intro h
    generalize hk : HistoryKey.addr address = k at h
    cases h with
    | addr htx htxo hindexed hsearch haddress =>
      cases hk
      exact ⟨hsearch, _, htx, _, htxo, hindexed, haddress⟩
    | _ => cases hk
  · rintro ⟨hsearch, tx, htx, txo, htxo, hindexed, haddress⟩
    exact .addr htx htxo hindexed hsearch haddress

theorem exists_addr_of_prefix {k : HistoryKey} {pref : Bytes}
    (h : (ChainQuery.addrSearchFilter pref).isPrefixOf k.bytes = true) :
    exists address, k = .addr address ∧ pref <+: address := by
  rcases List.isPrefixOf_iff_prefix.mp h with ⟨rest, hrest⟩
  cases k with
  | addr address =>
    exact ⟨address, rfl, rest, (List.cons.inj hrest).right⟩
  | history key =>
    have hbyte : 'a'.toUInt8 = key.code.byte := (List.cons.inj hrest).left
    cases hcode : key.code <;> rw [hcode] at hbyte <;>
      exact absurd hbyte (by decide)
  | _ => exact absurd (List.cons.inj hrest).left (by decide)

theorem AddrExact.searchExact {blocks : List Block}
    (h : AddrExact cfg store blocks) : SearchExact cfg store blocks := by
  intro pref
  refine ⟨(scan HistoryKey.bytes store.disk.history
    (ChainQuery.addrSearchFilter pref)).map fun row => row.1.bytes.drop 1,
    ?_, ?_, ?_⟩
  · have hsorted : (scan HistoryKey.bytes store.disk.history
        (ChainQuery.addrSearchFilter pref)).Pairwise fun row row' =>
          compare row.1.bytes row'.1.bytes = .lt := by
      rw [scan_eq_filter]
      exact (Std.ExtTreeMap.ordered_keys_toList (t := store.disk.history)).filter _
    rw [List.pairwise_map]
    apply hsorted.imp_of_mem
    intro row row' hrow hrow' hlt
    rcases exists_addr_of_prefix (mem_scan.mp hrow).right with ⟨a, ha, _⟩
    rcases exists_addr_of_prefix (mem_scan.mp hrow').right with ⟨a', ha', _⟩
    rw [ha, ha'] at hlt ⊢
    have hcons : compare (['a'.toUInt8] ++ a) (['a'.toUInt8] ++ a') = .lt := hlt
    rw [compare_append_same] at hcons
    exact hcons
  · intro address
    rw [List.mem_map, ← h address]
    constructor
    · rintro ⟨row, hrow, rfl⟩
      rcases mem_scan.mp hrow with ⟨hget, hpref⟩
      rcases exists_addr_of_prefix hpref with ⟨a, ha, hstart⟩
      rw [ha] at hget ⊢
      exact ⟨hstart, mem_of_getElem? hget⟩
    · rintro ⟨hstart, hmem⟩
      rcases mem_iff_exists.mp hmem with ⟨v, hv⟩
      refine ⟨(.addr address, v), mem_scan.mpr ⟨hv, ?_⟩, rfl⟩
      rw [List.isPrefixOf_iff_prefix]
      exact List.cons_prefix_cons.mpr ⟨rfl, hstart⟩
  · intro limit
    rw [← List.map_take]
    rfl

end Rows

/-!
## Updates
-/

def SharedRepaid (cfg : IndexerConfig) (old new : List Block) : Prop :=
  forall address, (exists b, b ∈ old ∧ b ∉ new ∧ Pays cfg b address) ->
    (exists b, b ∈ old ∧ b ∈ new ∧ Pays cfg b address) ->
      exists b, b ∈ new ∧ b ∉ old ∧ Pays cfg b address

section Update

variable {T : BlockTree} {cfg : IndexerConfig} {store : Store}
  {c : List Block} {daemon : Daemon T} {x : Exec}

section

variable (tr : Trace cfg store c daemon x) {k : HistoryKey} (hk : k ≠ .compacted)

include tr hk

theorem Trace.getElem?_of_indexed
    (h : exists be, be ∈ tr.indexBatches.flatten ∧ IndexRow T cfg be k) :
    x.store.disk.history[k]? = some [] := by
  rw [tr.getElem?_history hk, getElem?_writeRows_of_mem _ (functional_batchRows tr.indexRows_spec)]
  exact (mem_flatten_of_batchRows tr.indexRows_spec).mpr ⟨rfl, h⟩

variable (h : ¬ exists be, be ∈ tr.indexBatches.flatten ∧ IndexRow T cfg be k)

include h

theorem Trace.getElem?_of_not_indexed :
    x.store.disk.history[k]? = (replay store.disk.history
      ((tr.removedRows.flatten.map Prod.fst).map TableOp.delete))[k]? := by
  rw [tr.getElem?_history hk, getElem?_writeRows_of_not_mem]
  intro hmem
  rcases List.mem_map.mp hmem with ⟨⟨k', v⟩, hrow, rfl⟩
  exact h ((mem_flatten_of_batchRows tr.indexRows_spec).mp hrow).right

theorem Trace.getElem?_of_removed
    (hremoved : exists be, be ∈ removedEntries tr.q tr.a ∧ IndexRow T cfg be k) :
    x.store.disk.history[k]? = none := by
  rw [tr.getElem?_of_not_indexed hk h]
  exact getElem?_replay_delete_of_mem _ (tr.mem_removedRows_keys.mpr hremoved)

theorem Trace.getElem?_of_untouched
    (hkept : ¬ exists be, be ∈ removedEntries tr.q tr.a ∧ IndexRow T cfg be k) :
    x.store.disk.history[k]? = store.disk.history[k]? := by
  rw [tr.getElem?_of_not_indexed hk h]
  exact getElem?_replay_delete_of_not_mem _ fun hmem => hkept (tr.mem_removedRows_keys.mp hmem)

end

theorem Trace.history_update_iff (tr : Trace cfg store c daemon x) {k : HistoryKey}
    (hk : k ≠ .compacted) {P : Option Bytes -> Prop} (hsome : P (some [])) (hnone : ¬ P none) :
    P x.store.disk.history[k]? <->
      (exists be, be ∈ tr.indexBatches.flatten ∧ IndexRow T cfg be k) ∨
      (P store.disk.history[k]? ∧
        ¬ exists be, be ∈ removedEntries tr.q tr.a ∧ IndexRow T cfg be k) := by
  by_cases hnew : exists be, be ∈ tr.indexBatches.flatten ∧ IndexRow T cfg be k
  · rw [tr.getElem?_of_indexed hk hnew]
    exact iff_of_true hsome (Or.inl hnew)
  · by_cases hold : exists be, be ∈ removedEntries tr.q tr.a ∧ IndexRow T cfg be k
    · rw [tr.getElem?_of_removed hk hnew hold]
      exact iff_of_false hnone (not_or.mpr ⟨hnew, fun h => h.right hold⟩)
    · rw [tr.getElem?_of_untouched hk hnew hold]
      simp only [hnew, hold, false_or, not_false_eq_true, and_true]

theorem exists_entry_pays_iff (hsearch : cfg.addressSearch = true)
    {height : Nat} {blocks : List Block} {address : Bytes} :
    (exists be, be ∈ blockEntriesFrom height blocks ∧ IndexRow T cfg be (.addr address)) <->
      exists b, b ∈ blocks ∧ Pays cfg b address := by
  constructor
  · rintro ⟨be, hbe, hrow⟩
    exact ⟨be.block, block_mem_of_mem_blockEntriesFrom hbe, (indexRow_addr_iff.mp hrow).right⟩
  · rintro ⟨b, hb, hpays⟩
    rcases List.getElem?_of_mem hb with ⟨i, hi⟩
    exact ⟨blockEntryAt b (height + i), mem_blockEntriesFrom.mpr ⟨i, b, hi, rfl⟩,
      indexRow_addr_iff.mpr ⟨hsearch, hpays⟩⟩

theorem sharedRepaid_iff (hsearch : cfg.addressSearch = true)
    (tr : Trace cfg store c daemon x)
    (hbatches : forall be, be ∈ tr.indexBatches.flatten <-> be ∈ blockEntriesFrom tr.q.length tr.n)
    {P : Option Bytes -> Prop} (hsome : P (some [])) (hnone : ¬ P none)
    (hexact : forall address, P store.disk.history[HistoryKey.addr address]? <->
      exists b, b ∈ c ∧ Pays cfg b address) :
    (forall address, P x.store.disk.history[HistoryKey.addr address]? <->
      exists b, b ∈ daemon.best.blocks ∧ Pays cfg b address) <->
        SharedRepaid cfg c daemon.best.blocks := by
  have hrow : forall address, P x.store.disk.history[HistoryKey.addr address]? <->
        (exists b, b ∈ tr.n ∧ Pays cfg b address) ∨
        (exists b, b ∈ c ∧ Pays cfg b address) ∧ ¬ exists b, b ∈ tr.a ∧ Pays cfg b address := by
    intro address
    rw [tr.history_update_iff (by simp) hsome hnone, hexact address]
    simp only [hbatches, mem_removedEntries, exists_entry_pays_iff hsearch]
  have hold : forall address, (exists b, b ∈ c ∧ Pays cfg b address) <->
      (exists b, b ∈ tr.q ∧ Pays cfg b address) ∨ exists b, b ∈ tr.a ∧ Pays cfg b address := by
    intro address
    simp only [tr.fork.mem_left, or_and_right, exists_or]
  have hnew : forall address, (exists b, b ∈ daemon.best.blocks ∧ Pays cfg b address) <->
        (exists b, b ∈ tr.q ∧ Pays cfg b address) ∨ exists b, b ∈ tr.n ∧ Pays cfg b address := by
    intro address
    simp only [tr.fork.mem_right, or_and_right, exists_or]
  have hshared : SharedRepaid cfg c daemon.best.blocks <->
      forall address, (exists b, b ∈ tr.a ∧ Pays cfg b address) ->
        (exists b, b ∈ tr.q ∧ Pays cfg b address) -> exists b, b ∈ tr.n ∧ Pays cfg b address := by
    simp only [SharedRepaid, ← and_assoc, tr.fork.removed_iff,
      tr.fork.added_iff, tr.fork.shared_iff]
  rw [hshared]
  apply forall_congr'
  intro address
  rw [hrow, hold, hnew]
  generalize (exists b, b ∈ tr.q ∧ Pays cfg b address) = kept
  generalize (exists b, b ∈ tr.a ∧ Pays cfg b address) = removed
  generalize (exists b, b ∈ tr.n ∧ Pays cfg b address) = added
  tauto

theorem AddrExact.update_iff (hsearch : cfg.addressSearch = true)
    (hexact : AddrExact cfg store c) (hindexed : store.indexedBlockhashes = ∅)
    (tr : Trace cfg store c daemon x) :
    AddrExact cfg x.store daemon.best.blocks <-> SharedRepaid cfg c daemon.best.blocks := by
  have hbatches : forall be, be ∈ tr.indexBatches.flatten <->
      be ∈ blockEntriesFrom tr.q.length tr.n := by
    intro be
    rw [tr.indexBatches_perm.mem_iff, unmarkedEntries, hindexed]
    simp
  simp only [AddrExact, Std.ExtTreeMap.mem_iff_isSome_getElem?] at hexact ⊢
  exact sharedRepaid_iff hsearch tr hbatches (P := fun v => v.isSome = true) rfl (by simp) hexact

end Update

/-!
## Runs
-/

section Runs

variable {T : BlockTree} {cfg : IndexerConfig} {store : Store}
  {events : List (Event T)}

theorem restartBest_of_updates (hupdates : forall event, event ∈ events -> event.isUpdate = true) :
    restartBest events = [] := by
  rw [restartBest, List.rdropWhile_eq_nil_iff.mpr hupdates]
  rfl

theorem wholeInv_of_updates (hrun : run cfg events = .ok store)
    (hupdates : forall event, event ∈ events -> event.isUpdate = true) :
    WholeInv T cfg store events ∧ store.indexedBlockhashes = ∅ := by
  have hreturn : NoReturn events := by
    intro pre fetchFrom daemon hpre b _ hb
    have hnil : restartBest pre = [] := by
      apply restartBest_of_updates
      intro event hmem
      exact hupdates event (hpre.subset (List.mem_append_left _ hmem))
    rw [hnil] at hb
    cases hb
  have hwhole := wholeInv_of_noReturn hrun hreturn
  refine ⟨hwhole, ?_⟩
  ext hash
  rw [hwhole.indexed_eq, restartBest_of_updates hupdates]
  simp

def ExactAfterUpdates (cfg : IndexerConfig) (events : List (Event T)) : Prop :=
  AtEveryUpdate (fun pre fetchFrom daemon =>
    forall store, run cfg (pre ++ [.update fetchFrom daemon]) = .ok store ->
      AddrExact cfg store daemon.best.blocks ∧ SearchExact cfg store daemon.best.blocks) events

theorem addrExact_iff_of_updates (hsearch : cfg.addressSearch = true)
    (hrun : run cfg events = .ok store)
    (hupdates : forall event, event ∈ events -> event.isUpdate = true) :
    (AtEveryUpdate (fun pre _ daemon =>
      SharedRepaid cfg (lastBest pre) daemon.best.blocks) events ->
        AddrExact cfg store (lastBest events)) ∧
    (ExactAfterUpdates cfg events -> AtEveryUpdate (fun pre _ daemon =>
        SharedRepaid cfg (lastBest pre) daemon.best.blocks) events) := by
  induction events using List.reverseRecOn generalizing store with
  | nil =>
    refine ⟨fun _ => ?_, fun _ => atEveryUpdate_nil⟩
    rw [run_nil] at hrun
    rcases openStore_empty_eq_ok (T := T) hrun with ⟨_, _, hnone⟩
    intro address
    rw [Std.ExtTreeMap.mem_iff_isSome_getElem?, hnone.history _ (by simp)]
    simp
  | append_singleton events event ih =>
    have hupdates' : forall event, event ∈ events -> event.isUpdate = true := by
      intro event hmem
      exact hupdates event (List.mem_append_left _ hmem)
    rcases run_append_singleton.mp hrun with ⟨store', hrun', hstep⟩
    rcases ih hrun' hupdates' with ⟨hforward, hbackward⟩
    rcases wholeInv_of_updates hrun' hupdates' with ⟨hwhole, hindexed⟩
    cases event with
    | update fetchFrom daemon =>
      rcases hwhole.inv.exists_trace hstep with ⟨x, rfl, ⟨tr⟩⟩
      constructor
      · intro hshared
        rcases atEveryUpdate_update.mp hshared with ⟨hpre, hlast⟩
        rw [lastBest_update]
        exact ((hforward hpre).update_iff hsearch hindexed tr).mpr hlast
      · intro hexact
        rcases atEveryUpdate_update.mp hexact with ⟨hpre, hlast⟩
        have hshared := hbackward hpre
        refine atEveryUpdate_update.mpr ⟨hshared, ?_⟩
        exact ((hforward hshared).update_iff hsearch hindexed tr).mp (hlast _ hrun).left
    | restart =>
      have hrestart := hupdates .restart (by simp)
      cases hrestart

/-- The address rows are exact after every update exactly if each address that a removed and a
remaining block pay is paid by a new block as well. -/
theorem exactAfterUpdates_iff (hsearch : cfg.addressSearch = true)
    (hrun : run cfg events = .ok store)
    (hupdates : forall event, event ∈ events -> event.isUpdate = true) :
    ExactAfterUpdates cfg events <->
      AtEveryUpdate (fun pre _ daemon =>
        SharedRepaid cfg (lastBest pre) daemon.best.blocks) events := by
  refine ⟨(addrExact_iff_of_updates hsearch hrun hupdates).right, ?_⟩
  intro hshared pre fetchFrom daemon hpre store' hrun'
  have hupdates' : forall event,
      event ∈ pre ++ [.update fetchFrom daemon] -> event.isUpdate = true := by
    intro event hmem
    exact hupdates event (hpre.subset hmem)
  have hexact := (addrExact_iff_of_updates hsearch hrun' hupdates').left (by
    intro pre' fetchFrom' daemon' hpre'
    exact hshared pre' fetchFrom' daemon' (hpre'.trans hpre))
  rw [lastBest_update] at hexact
  exact ⟨hexact, hexact.searchExact⟩

end Runs

namespace Sample

/-- The genesis block and the first branch pay address `1`; after the reorg its row is gone. -/
theorem address_lost_after_reorg :
    exists store, run config [.update .bitcoind daemonA, .update .bitcoind daemonB] = .ok store ∧
      ChainQuery.addressSearch store [1] 10 = [] ∧
      ¬ AddrExact config store daemonB.best.blocks := by
  have heval : exists store, run config [.update .bitcoind daemonA,
      .update .bitcoind daemonB] = .ok store ∧
      ChainQuery.addressSearch store [1] 10 = [] ∧
      store.disk.history[HistoryKey.addr [1]]? = none := by
    decide +kernel
  rcases heval with ⟨store, hrun, htest⟩
  refine ⟨store, hrun, htest.left, ?_⟩
  intro hexact
  have hpays : Pays config genesis [1] :=
    ⟨coinbase 101 [1], by decide, _, List.mem_singleton_self _, by decide, rfl⟩
  have hmem := (hexact [1]).mpr ⟨genesis, by decide, hpays⟩
  rw [Std.ExtTreeMap.mem_iff_isSome_getElem?, htest.right] at hmem
  cases hmem

def blockR : Block where
  header := header 5 1
  txdata := [coinbase 106 [1]]
  size := 200
  weight := 800

def treeRepaid : BlockTree :=
  BlockTree.ofList [genesis, blockA, blockR] (by decide) (by decide)

def repaying : List (Event treeRepaid) :=
  [.update .bitcoind (daemonOf genesis [blockA] ⟨⟨by decide, by decide⟩, by decide, by decide⟩),
    .update .bitcoind (daemonOf genesis [blockR] ⟨⟨by decide, by decide⟩, by decide, by decide⟩)]

theorem pays_genesis {address : Bytes} (h : Pays config genesis address) : address = [1] := by
  rcases h with ⟨tx, htx, txo, htxo, _, haddress⟩
  rw [List.mem_singleton.mp htx] at htxo
  rw [List.mem_singleton.mp htxo] at haddress
  exact (Option.some.inj haddress).symm

theorem exactAfterUpdates_repaid :
    exists store, run config repaying = .ok store ∧
      ChainQuery.addressSearch store [1] 10 = [[1]] ∧ ExactAfterUpdates config repaying := by
  have heval : exists store, run config repaying = .ok store ∧
      ChainQuery.addressSearch store [1] 10 = [[1]] := by
    decide +kernel
  rcases heval with ⟨store, hrun, htest⟩
  refine ⟨store, hrun, htest, (exactAfterUpdates_iff rfl hrun (by decide)).mpr ?_⟩
  refine atEveryUpdate_update.mpr ⟨atEveryUpdate_update.mpr ⟨atEveryUpdate_nil, ?_⟩, ?_⟩
  · rintro address ⟨b, hb, _⟩
    cases hb
  · rintro address _ ⟨b, hold, hnew, hpays⟩
    have hshared : forall b, b ∈ [genesis, blockA] -> b ∈ [genesis, blockR] -> b = genesis := by
      decide
    rw [hshared b hold hnew] at hpays
    rw [pays_genesis hpays]
    exact ⟨blockR, by decide, by decide, coinbase 106 [1], by decide, _,
      List.mem_singleton_self _, by decide, rfl⟩

end Sample

end NewIndex
end Splora
