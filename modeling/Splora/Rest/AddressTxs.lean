import Splora.NewIndex.CombinedUtxo
import Splora.NewIndex.HistoryPages

/-!
# Paging through the transactions of scripts

The handlers of `/address/:address/txs` and `/addresses/txs` in `src/rest.rs`, after the scripts
are parsed.  A page begins in the mempool and goes on in the chain, from the height of the
cursor.  The JSON form is the transaction and its block; one with a missing previous output is
left out.
-/

namespace Splora
namespace Rest

open Foundation NewIndex

structure Server (T : BlockTree) where
  cfg : Config
  restDefaultMaxMempoolTxs : Nat
  daemon : Daemon T
  deserialize : Bytes -> Option Transaction
  store : Store
  mempool : Mempool

inductive TxidLocation where
  | mempool
  | chain (height : UInt32)
  | none
deriving DecidableEq, Repr

structure TransactionValue where
  tx : Transaction
  status : Option BlockId

def clampQueryMaxTxs (maxTxs : Option Nat) (cap : Nat) : Nat :=
  min cap (maxTxs.getD cap)

def confirmedAfterTxid (location : TxidLocation) (afterTxid : Option Txid) :
    Option Txid :=
  match location with
  | .mempool | .none => none
  | .chain _ => afterTxid

/-- Every input has its previous output; only a coinbase transaction has none. -/
def sigopsCountable (tx : Transaction) (prevouts : List (UInt32 × TxOut)) : Bool :=
  tx.isCoinbase || (List.range tx.input.length).all fun idx =>
    (prevouts.lookup idx.toUInt32).isSome

def TransactionValue.new (tx : Transaction) (blockid : Option BlockId)
    (txos : TxoMap) : Option TransactionValue := do
  let prevouts <- (extractTxPrevouts tx txos).toOption
  if sigopsCountable tx prevouts then
    some { tx := tx, status := blockid }
  else
    none

def sortConfirmed (items : List (Transaction × BlockId × UInt16)) :
    List (Transaction × BlockId × UInt16) :=
  items.mergeSort fun item item' => decide (¬ Above item'.2 item.2)

namespace Server

variable {T : BlockTree}

def reader (server : Server T) : ChainReader T where
  cfg := server.cfg.toIndexerConfig
  daemon := server.daemon
  deserialize := server.deserialize
  store := server.store

def findTxid (server : Server T) (txid : Txid) : TxidLocation :=
  if (server.mempool.lookupTxn txid).isSome then
    .mempool
  else
    match ChainQuery.txConfirmingBlock server.store txid with
    | some block => .chain block.height.toUInt32
    | none => .none

def afterTxidLocation (server : Server T) (afterTxid : Option Txid) :
    TxidLocation :=
  match afterTxid with
  | some txid => server.findTxid txid
  | none => .mempool

def prepareTxs (server : Server T) (txs : List (Transaction × Option BlockId)) :
    Except QueryError (List TransactionValue) := do
  let outpoints := txs.flatMap fun tx =>
    (tx.1.input.filter hasPrevout).map TxIn.previousOutput
  let prevouts <- (Mempool.lookupTxos server.store server.mempool outpoints).mapError .aborted
  return txs.filterMap fun tx => TransactionValue.new tx.1 tx.2 prevouts

def unconfirmedPart (mempoolHistory : Option Txid -> Nat -> Except Abort (List Transaction))
    (location : TxidLocation) (afterTxid : Option Txid) (maxTxs : Nat) :
    Except QueryError (List (Transaction × Option BlockId) × Option UInt32) :=
  match location with
  | .mempool => do
      let txs <- (mempoolHistory afterTxid maxTxs).mapError .aborted
      return (txs.map fun tx => (tx, none), none)
  | .none => .error .afterTxidNotFound
  | .chain height => .ok ([], some height)

def txsPage (server : Server T)
    (mempoolHistory : Option Txid -> Nat -> Except Abort (List Transaction))
    (chainHistory : Option Txid -> Option UInt32 -> Nat ->
      Except QueryError (List (Transaction × BlockId × UInt16)))
    (afterTxid : Option Txid) (maxTxs : Option Nat) :
    Except QueryError (List TransactionValue) := do
  let maxTxs := clampQueryMaxTxs maxTxs server.restDefaultMaxMempoolTxs
  let location := server.afterTxidLocation afterTxid
  let part <- unconfirmedPart mempoolHistory location afterTxid maxTxs
  if part.1.length < maxTxs then
    let confirmed <- chainHistory (confirmedAfterTxid location afterTxid) part.2
      (maxTxs - part.1.length)
    server.prepareTxs (part.1 ++ (sortConfirmed confirmed).map fun item => (item.1, some item.2.1))
  else
    server.prepareTxs part.1

def addressTxs (server : Server T) (order : LookupOrder) (scriptHash : FullHash)
    (afterTxid : Option Txid) (maxTxs : Option Nat) :
    Except QueryError (List TransactionValue) :=
  server.txsPage (server.mempool.historyOf scriptHash)
    (ChainQuery.history server.reader order scriptHash) afterTxid maxTxs

def addressesTxs (server : Server T) (order : LookupOrder)
    (scriptHashes : List FullHash) (afterTxid : Option Txid)
    (maxTxs : Option Nat) : Except QueryError (List TransactionValue) :=
  server.txsPage (server.mempool.historyGroup scriptHashes)
    (ChainQuery.historyGroup server.reader order scriptHashes) afterTxid maxTxs

theorem addressesTxs_singleton (server : Server T) (order : LookupOrder)
    (scriptHash : FullHash) (afterTxid : Option Txid) (maxTxs : Option Nat) :
    server.addressesTxs order [scriptHash] afterTxid maxTxs =
      server.addressTxs order scriptHash afterTxid maxTxs := by
  have hmempool : server.mempool.historyGroup [scriptHash] =
      server.mempool.historyOf scriptHash := by
    funext lastSeenTxid limit
    unfold Mempool.historyGroup Mempool.historyOf
    cases hentries : server.mempool.history[scriptHash]? with
    | none =>
      have hskip : Mempool.afterLastSeen lastSeenTxid [] = [] := by
        cases lastSeenTxid with
        | none => rfl
        | some txid => rfl
      rw [List.filterMap_cons_none hentries, List.filterMap_nil, List.flatten_nil,
        Mempool.historyTxs, Mempool.entryTxids, List.map_nil, List.eraseDups_nil,
        hskip, List.take_nil]
      rfl
    | some entries =>
      rw [List.filterMap_cons_some hentries, List.filterMap_nil, List.flatten_singleton]
  have hchain : ChainQuery.historyGroup server.reader order [scriptHash] =
      ChainQuery.history server.reader order scriptHash := by
    funext lastSeenTxid startHeight limit
    exact ChainQuery.historyGroup_singleton ..
  rw [addressesTxs, hmempool, hchain]
  rfl

end Server

/-!
## Sorting
-/

/-- Blocks hold less than `2 ^ 16` transactions. -/
def rank (position : BlockId × UInt16) : Nat :=
  position.1.height * 2 ^ 16 + position.2.toNat

theorem above_iff_rank {a b : BlockId × UInt16} : Above a b <-> rank b < rank a := by
  have ha := a.2.toNat_lt
  have hb := b.2.toNat_lt
  rw [Above, rank, rank, UInt16.lt_iff_toNat_lt]
  omega

theorem sortConfirmed_eq {items found : List (Transaction × BlockId × UInt16)}
    (hpairwise : items.Pairwise fun item item' => Above item.2 item'.2)
    (hperm : found.Perm items) : sortConfirmed found = items := by
  have hsorted : (sortConfirmed found).Pairwise fun item item' =>
      ¬ Above item'.2 item.2 := by
    refine (List.pairwise_mergeSort ?_ ?_ found).imp of_decide_eq_true
    · intro a b c hab hbc
      have hab' := of_decide_eq_true hab
      have hbc' := of_decide_eq_true hbc
      rw [above_iff_rank] at hab' hbc'
      refine decide_eq_true ?_
      rw [above_iff_rank]
      omega
    · intro a b
      rw [Bool.or_eq_true, decide_eq_true_eq, decide_eq_true_eq, above_iff_rank, above_iff_rank]
      omega
  have hitems : items.Pairwise fun item item' => ¬ Above item'.2 item.2 :=
    hpairwise.imp fun habove => habove.not_gt
  have hsame : (sortConfirmed found).Perm items :=
    (List.mergeSort_perm _ _).trans hperm
  have hranks : (items.map fun item => rank item.2).Nodup :=
    List.pairwise_map.mpr (hpairwise.imp fun habove => Nat.ne_of_gt (above_iff_rank.mp habove))
  refine hsame.eq_of_pairwise ?_ hsorted hitems
  intro a b ha hb hab hba
  rw [above_iff_rank] at hab hba
  refine List.inj_on_of_nodup_map hranks (hsame.mem_iff.mp ha) hb ?_
  omega

/-!
## Values
-/

section Values

variable {T : BlockTree} {server : Server T} {tx : Transaction}

structure PrevoutsAvailable (server : Server T) (tx : Transaction) : Prop where
  resolvable : Resolvable (Mempool.available server.store server.mempool) tx
  inputs : tx.isCoinbase = true ∨ forall txi, txi ∈ tx.input -> hasPrevout txi = true

theorem sigopsCountable_of {txos : TxoMap} {prevouts : List (UInt32 × TxOut)}
    (hinputs : tx.isCoinbase = true ∨ forall txi, txi ∈ tx.input -> hasPrevout txi = true)
    (h : extractTxPrevouts tx txos = .ok prevouts) :
    sigopsCountable tx prevouts = true := by
  rw [sigopsCountable, Bool.or_eq_true]
  refine hinputs.imp_right ?_
  intro hall
  rw [List.all_eq_true]
  intro idx hidx
  have htxi := List.getElem?_eq_getElem (List.mem_range.mp hidx)
  have hprevout := hall _ (List.mem_of_getElem? htxi)
  have hresolvable := exists_extractTxPrevouts_iff.mp ⟨prevouts, h⟩
  rcases hresolvable _ (List.mem_of_getElem? htxi) hprevout with ⟨txo, htxo⟩
  have hmem : (idx.toUInt32, txo) ∈ prevouts :=
    (mem_of_extractTxPrevouts h).mpr ⟨idx, _, htxi, hprevout, rfl, htxo⟩
  rw [List.lookup_isSome_iff]
  exact ⟨_, hmem, beq_self_eq_true _⟩

theorem prepareTxs_eq {txs : List (Transaction × Option BlockId)}
    (h : forall tx, tx ∈ txs -> PrevoutsAvailable server tx.1) :
    server.prepareTxs txs = .ok (txs.map fun tx => { tx := tx.1, status := tx.2 }) := by
  rcases Mempool.exists_lookupTxos server.store server.mempool
    (txs.flatMap fun tx => (tx.1.input.filter hasPrevout).map TxIn.previousOutput)
    with ⟨txos, htxos, havailable⟩
  refine bind_eq_ok.mpr ⟨txos, congrArg (Except.mapError QueryError.aborted) htxos, ?_⟩
  refine congrArg Except.ok ?_
  rw [<- List.filterMap_eq_map]
  refine List.filterMap_congr ?_
  intro tx htx
  have hresolvable : Resolvable txos tx.1 := by
    intro txi htxi hprevout
    rcases (h tx htx).resolvable txi htxi hprevout with ⟨txo, htxo⟩
    refine ⟨txo, ?_⟩
    rw [havailable]
    · exact htxo
    · exact List.mem_flatMap.mpr ⟨tx, htx,
        List.mem_map_of_mem (List.mem_filter.mpr ⟨htxi, hprevout⟩)⟩
  rcases exists_extractTxPrevouts_iff.mpr hresolvable with ⟨prevouts, hextract⟩
  have hcount := sigopsCountable_of (h tx htx).inputs hextract
  simp [TransactionValue.new, hextract, Except.toOption, hcount]

end Values

/-!
## The mempool part of a page
-/

section Unconfirmed

variable {m : Mempool} {scripts : List FullHash} {unconfirmed : List Transaction}

def scriptEntries (m : Mempool) (scripts : List FullHash) : List TxHistoryInfo :=
  (scripts.filterMap fun script => m.history[script]?).flatten

structure Unconfirmed (m : Mempool) (scripts : List FullHash)
    (unconfirmed : List Transaction) : Prop where
  order : unconfirmed.map Transaction.txid = Mempool.entryTxids (scriptEntries m scripts)
  stored : forall tx, tx ∈ unconfirmed -> m.txstore[tx.txid]? = some tx

theorem Unconfirmed.nodup (h : Unconfirmed m scripts unconfirmed) :
    (unconfirmed.map Transaction.txid).Nodup := by
  have hnodup := nodup_map_uniqueBy id ((scriptEntries m scripts).map TxHistoryInfo.getTxid)
  rw [List.map_id] at hnodup
  rw [h.order]
  exact hnodup

theorem Unconfirmed.historyGroup_eq (h : Unconfirmed m scripts unconfirmed)
    (lastSeenTxid : Option Txid) (limit : Nat) :
    m.historyGroup scripts lastSeenTxid limit =
      .ok ((after Transaction.txid lastSeenTxid unconfirmed).take limit) := by
  have hafter : Mempool.afterLastSeen lastSeenTxid (Mempool.entryTxids (scriptEntries m scripts)) =
        (after Transaction.txid lastSeenTxid unconfirmed).map Transaction.txid := by
    have hmap : after id lastSeenTxid (unconfirmed.map Transaction.txid) =
        (after Transaction.txid lastSeenTxid unconfirmed).map Transaction.txid :=
      after_map (fun _ _ => rfl) lastSeenTxid
    rw [<- h.order, <- hmap]
    cases lastSeenTxid with
    | none => rfl
    | some txid => rfl
  show ((Mempool.afterLastSeen lastSeenTxid
    (Mempool.entryTxids (scriptEntries m scripts))).take limit).mapM _ = _
  rw [hafter, <- List.map_take, mapM_eq_ok, List.forall₂_map_left_iff, List.forall₂_same]
  intro tx htx
  refine expect_eq_ok.mpr (h.stored tx ?_)
  exact (after_sublist _ _ _).subset (List.mem_of_mem_take htx)

theorem exists_unconfirmed {L : TxCommitments} {cfg : Config}
    {journal : List IndexedTx} (hindexes : Mempool.Indexes cfg m journal)
    (hcommitted : Mempool.Committed L m journal) (scripts : List FullHash) :
    exists unconfirmed, Unconfirmed m scripts unconfirmed := by
  have hstored : forall txid, txid ∈ Mempool.entryTxids (scriptEntries m scripts) ->
      exists tx, expect m.txstore[txid]? (Abort.missingMempoolTx txid) = .ok tx := by
    intro txid htxid
    rcases List.mem_map.mp (List.mem_eraseDups.mp htxid) with ⟨entry, hentry, heq⟩
    rcases List.mem_flatten.mp hentry with ⟨entries, hentries, hmem⟩
    rcases List.mem_filterMap.mp hentries with ⟨script, _, hget⟩
    have hin : entry ∈ m.history[script]?.getD [] := by
      rw [hget]
      exact hmem
    rcases mem_iff_exists.mp (hindexes.getTxid_mem hin) with ⟨tx, htx⟩
    rw [<- heq, htx]
    exact ⟨tx, rfl⟩
  rcases mapM_ok_of_forall hstored with ⟨txs, htxs⟩
  refine ⟨txs, ?_, ?_⟩
  · refine (map_eq_map_of_mapM (h := id) htxs ?_).trans (List.map_id _)
    intro txid tx hok
    exact (hcommitted.txstore txid tx (expect_eq_ok.mp hok)).left
  · intro tx htx
    rcases (mem_of_mapM htxs).mp htx with ⟨txid, _, hok⟩
    have hget := expect_eq_ok.mp hok
    rw [(hcommitted.txstore txid tx hget).left]
    exact hget

theorem Unconfirmed.mem_iff {cfg : Config} {journal : List IndexedTx}
    (h : Unconfirmed m scripts unconfirmed)
    (hindexes : Mempool.Indexes cfg m journal) {txid : Txid} :
    txid ∈ unconfirmed.map Transaction.txid <->
      exists r, r ∈ journal ∧ r.txid = txid ∧
        exists row, row ∈ r.entries cfg ∧ row.1 ∈ scripts := by
  rw [h.order, Mempool.entryTxids, List.mem_eraseDups, List.mem_map]
  have hentry : forall entry, entry ∈ scriptEntries m scripts <->
      exists script, script ∈ scripts ∧
        (script, entry) ∈ journal.flatMap (IndexedTx.entries cfg) := by
    intro entry
    rw [scriptEntries, List.mem_flatten]
    constructor
    · intro hmem
      rcases hmem with ⟨entries, hentries, hin⟩
      rcases List.mem_filterMap.mp hentries with ⟨script, hscript, hget⟩
      refine ⟨script, hscript, hindexes.history.mem_iff.mp ?_⟩
      rw [hget]
      exact hin
    · intro hmem
      rcases hmem with ⟨script, hscript, hrow⟩
      have hin := hindexes.history.mem_iff.mpr hrow
      cases hget : m.history[script]? with
      | none =>
        rw [hget] at hin
        cases hin
      | some entries =>
        rw [hget] at hin
        exact ⟨entries, List.mem_filterMap.mpr ⟨script, hscript, hget⟩, hin⟩
  constructor
  · intro hmem
    rcases hmem with ⟨entry, hin, htxid⟩
    rcases (hentry entry).mp hin with ⟨script, hscript, hrow⟩
    rcases List.mem_flatMap.mp hrow with ⟨r, hr, hrow⟩
    exact ⟨r, hr, (IndexedTx.getTxid_of_mem_entries hrow).symm.trans htxid, _, hrow, hscript⟩
  · intro hmem
    rcases hmem with ⟨r, hr, htxid, row, hrow, hscript⟩
    refine ⟨row.2, (hentry row.2).mpr ⟨row.1, hscript, ?_⟩, ?_⟩
    · exact List.mem_flatMap.mpr ⟨r, hr, hrow⟩
    · exact (IndexedTx.getTxid_of_mem_entries hrow).trans htxid

end Unconfirmed

/-!
## Pages
-/

def unconfirmedValue (tx : Transaction) : TransactionValue where
  tx := tx
  status := none

def confirmedValue (item : Transaction × BlockId × UInt16) : TransactionValue where
  tx := item.1
  status := some item.2.1

theorem take_append_fill {α : Type} (front rest : List α) (size : Nat) :
    (front ++ rest).take size = front.take size ++ (if (front.take size).length < size then
        rest.take (size - (front.take size).length)
      else
        []) := by
  rw [List.take_append, List.length_take]
  split
  case isTrue h =>
    rw [Nat.min_eq_right (by omega)]
  case isFalse h =>
    rw [Nat.sub_eq_zero_of_le (by omega), List.take_zero]

section Page

variable {T : BlockTree} {server : Server T}
  {mempoolHistory : Option Txid -> Nat -> Except Abort (List Transaction)}
  {chainHistory : Option Txid -> Option UInt32 -> Nat ->
    Except QueryError (List (Transaction × BlockId × UInt16))}
  {afterTxid : Option Txid} {maxTxs : Option Nat} {size : Nat}
  {front : List Transaction} {rest : List (Transaction × BlockId × UInt16)}

def AnswersChain (chainHistory : Nat -> Except QueryError (List (Transaction × BlockId × UInt16)))
    (rest : List (Transaction × BlockId × UInt16)) : Prop :=
  forall limit, exists found, chainHistory limit = .ok found ∧ found.Perm (rest.take limit)

theorem prepareTxs_append (hfront : forall tx, tx ∈ front -> PrevoutsAvailable server tx)
    (hrest : forall item, item ∈ rest -> PrevoutsAvailable server item.1) :
    server.prepareTxs (front.map (fun tx => (tx, none)) ++
      rest.map fun item => (item.1, some item.2.1)) =
      .ok (front.map unconfirmedValue ++ rest.map confirmedValue) := by
  rw [prepareTxs_eq, List.map_append, List.map_map, List.map_map]
  · rfl
  · intro tx htx
    rcases List.mem_append.mp htx with hmem | hmem
    · rcases List.mem_map.mp hmem with ⟨tx', htx', heq⟩
      rw [<- heq]
      exact hfront tx' htx'
    · rcases List.mem_map.mp hmem with ⟨item, hitem, heq⟩
      rw [<- heq]
      exact hrest item hitem

theorem txsPage_mempool (hlocation : server.afterTxidLocation afterTxid = .mempool)
    (hsize : clampQueryMaxTxs maxTxs server.restDefaultMaxMempoolTxs = size)
    (hmempool : mempoolHistory afterTxid size = .ok (front.take size))
    (hchain : AnswersChain (chainHistory none none) rest)
    (hpairwise : rest.Pairwise fun item item' => Above item.2 item'.2)
    (hfront : forall tx, tx ∈ front -> PrevoutsAvailable server tx)
    (hrest : forall item, item ∈ rest -> PrevoutsAvailable server item.1) :
    server.txsPage mempoolHistory chainHistory afterTxid maxTxs =
      .ok ((front.map unconfirmedValue ++ rest.map confirmedValue).take size) := by
  have hpart : Server.unconfirmedPart mempoolHistory .mempool afterTxid size =
      .ok ((front.take size).map (fun tx => (tx, none)), none) :=
    bind_eq_ok.mpr ⟨_, congrArg (Except.mapError QueryError.aborted) hmempool, rfl⟩
  unfold Server.txsPage
  rw [take_append_fill, hlocation, hsize]
  refine bind_eq_ok.mpr ⟨_, hpart, ?_⟩
  rw [List.length_map, <- List.map_take, List.length_map]
  split
  case isTrue h =>
    rcases hchain (size - (front.take size).length) with ⟨found, hfound, hperm⟩
    refine bind_eq_ok.mpr ⟨found, hfound, ?_⟩
    rw [sortConfirmed_eq (hpairwise.sublist (List.take_sublist _ _)) hperm, <- List.map_take]
    exact prepareTxs_append (fun tx htx => hfront tx (List.mem_of_mem_take htx))
      (fun item hitem => hrest item (List.mem_of_mem_take hitem))
  case isFalse h =>
    have hnone : forall item, item ∈ ([] : List (Transaction × BlockId × UInt16)) ->
        PrevoutsAvailable server item.1 := nofun
    have htaken : forall tx, tx ∈ front.take size -> PrevoutsAvailable server tx :=
      fun tx htx => hfront tx (List.mem_of_mem_take htx)
    have hprepare := prepareTxs_append htaken hnone
    rw [List.map_nil, List.append_nil] at hprepare
    exact hprepare

theorem txsPage_chain {height : UInt32}
    (hlocation : server.afterTxidLocation afterTxid = .chain height)
    (hsize : clampQueryMaxTxs maxTxs server.restDefaultMaxMempoolTxs = size)
    (hpos : 1 ≤ size)
    (hchain : AnswersChain (chainHistory afterTxid (some height)) rest)
    (hpairwise : rest.Pairwise fun item item' => Above item.2 item'.2)
    (hrest : forall item, item ∈ rest -> PrevoutsAvailable server item.1) :
    server.txsPage mempoolHistory chainHistory afterTxid maxTxs =
      .ok ((rest.map confirmedValue).take size) := by
  rcases hchain size with ⟨found, hfound, hperm⟩
  have hpart : Server.unconfirmedPart mempoolHistory (.chain height) afterTxid size =
      .ok ([], some height) := rfl
  have hlt : ([] : List (Transaction × Option BlockId)).length < size := hpos
  unfold Server.txsPage
  rw [hlocation, hsize]
  refine bind_eq_ok.mpr ⟨_, hpart, ?_⟩
  rw [if_pos hlt]
  refine bind_eq_ok.mpr ⟨found, hfound, ?_⟩
  rw [sortConfirmed_eq (hpairwise.sublist (List.take_sublist _ _)) hperm, <- List.map_take]
  have hnone : forall tx, tx ∈ ([] : List Transaction) ->
      PrevoutsAvailable server tx := nofun
  exact prepareTxs_append hnone (fun item hitem => hrest item (List.mem_of_mem_take hitem))

end Page

/-!
## The list that the pages cut up
-/

structure Confirmed (T : BlockTree) (cfg : IndexerConfig) (scripts : List FullHash)
    (blocks : List Block)
    (confirmed : List (Transaction × BlockId × UInt16)) : Prop where
  descending : confirmed.Pairwise fun item item' => Above item.2 item'.2
  mem_iff : forall item, item ∈ confirmed <-> ConfirmedTx T cfg scripts blocks item

structure Settled {T : BlockTree} (server : Server T) (blocks : List Block)
    (L : TxCommitments) (journal : List IndexedTx) : Prop where
  exact : Exact T server.cfg.toIndexerConfig server.store blocks
  indexes : Mempool.Indexes server.cfg server.mempool journal
  committed : Mempool.Committed L server.mempool journal
  disjoint : forall txid, txid ∈ server.mempool.txstore -> txid ∉ chainTxids blocks
  decodes : Decodes server.reader blocks
  mempool_prevouts : forall (txid : Txid) (tx : Transaction),
    server.mempool.txstore[txid]? = some tx ->
    PrevoutsAvailable server tx
  chain_prevouts : forall b, b ∈ blocks -> forall tx, tx ∈ b.txdata -> PrevoutsAvailable server tx

section Listed

variable {T : BlockTree} {server : Server T} {blocks : List Block}
  {L : TxCommitments} {journal : List IndexedTx} {scripts : List FullHash}
  {unconfirmed : List Transaction}
  {confirmed : List (Transaction × BlockId × UInt16)}

def listed (unconfirmed : List Transaction)
    (confirmed : List (Transaction × BlockId × UInt16)) : List TransactionValue :=
  unconfirmed.map unconfirmedValue ++ confirmed.map confirmedValue

def TransactionValue.txid (value : TransactionValue) : Txid :=
  value.tx.txid

theorem txid_mem_chainTxids {cfg : IndexerConfig} {item : Transaction × BlockId × UInt16}
    (hitem : ConfirmedTx T cfg scripts blocks item) :
    (exists b, b ∈ blocks ∧ item.1 ∈ b.txdata) ∧ item.1.txid ∈ chainTxids blocks := by
  rcases hitem with ⟨be, idx, hbe, htx, _, _⟩
  rcases mem_chainEntries.mp hbe with ⟨i, b, hb, heq⟩
  rw [heq, blockEntryAt_block] at htx
  have hmem := List.mem_of_getElem? htx
  exact ⟨⟨b, List.mem_of_getElem? hb, hmem⟩, List.mem_flatMap.mpr
    ⟨b, List.mem_of_getElem? hb, List.mem_map_of_mem hmem⟩⟩

namespace Settled

variable (h : Settled server blocks L journal)

include h

variable {item : Transaction × BlockId × UInt16}

theorem not_mem_mempool
    (hconfirmed : Confirmed T server.cfg.toIndexerConfig scripts blocks confirmed)
    (hitem : item ∈ confirmed) :
    item.1.txid ∉ server.mempool.txstore := by
  intro hmem
  exact h.disjoint _ hmem (txid_mem_chainTxids ((hconfirmed.mem_iff item).mp hitem)).right

theorem nodup_listed (hunconfirmed : Unconfirmed server.mempool scripts unconfirmed)
    (hconfirmed : Confirmed T server.cfg.toIndexerConfig scripts blocks confirmed) :
    ((listed unconfirmed confirmed).map TransactionValue.txid).Nodup := by
  rw [listed, List.map_append, List.map_map, List.map_map]
  refine List.nodup_append.mpr ⟨hunconfirmed.nodup, ?_, ?_⟩
  · refine List.pairwise_map.mpr (hconfirmed.descending.imp_of_mem ?_)
    intro item item' hitem hitem' habove heq
    rw [h.exact.confirmedTx_unique ((hconfirmed.mem_iff item).mp hitem)
      ((hconfirmed.mem_iff item').mp hitem') heq] at habove
    exact Above.irrefl _ habove
  · intro txid hmem txid' hmem' heq
    rcases List.mem_map.mp hmem with ⟨tx, htx, htxid⟩
    rcases List.mem_map.mp hmem' with ⟨item, hitem, htxid'⟩
    have hstored := hunconfirmed.stored tx htx
    refine h.not_mem_mempool hconfirmed hitem ?_
    have hsame : item.1.txid = tx.txid := htxid'.trans (heq.symm.trans htxid.symm)
    rw [hsame]
    exact mem_of_getElem? hstored

theorem exists_confirmed (scripts : List FullHash) :
    exists confirmed, Confirmed T server.cfg.toIndexerConfig scripts blocks confirmed := by
  have hrows := ChainQuery.rowsOf_historyIterScanGroupReverse h.exact.inRange scripts none
  rcases h.exact.exists_confirmed hrows with ⟨confirmed, hpairwise, hmem, _⟩
  exact ⟨confirmed, hpairwise, hmem⟩

section

variable (hconfirmed : Confirmed T server.cfg.toIndexerConfig scripts blocks confirmed)

include hconfirmed

theorem confirmedTxids_eq :
    ChainQuery.confirmedTxids server.store
      (ChainQuery.historyIterScanGroupReverse server.store .script scripts none)
      none = confirmed.map fun item => (item.1.txid, item.2) := by
  have hrows := ChainQuery.rowsOf_historyIterScanGroupReverse h.exact.inRange scripts none
  rcases h.exact.exists_confirmed hrows with ⟨confirmed', hpairwise, hmem, heq⟩
  rw [heq]
  refine congrArg _ (eq_of_pairwise_of_mem_iff (fun item => Above.irrefl item.2)
    (fun _ _ _ hab hbc => hab.trans hbc) hpairwise hconfirmed.descending ?_)
  intro item
  rw [hmem, hconfirmed.mem_iff]

theorem answersChain_none (order : LookupOrder) :
    AnswersChain (ChainQuery.historyGroup server.reader order scripts none none)
      confirmed := by
  intro limit
  have hall : forall item, item ∈ confirmed ->
      ConfirmedTx T server.cfg.toIndexerConfig scripts blocks item := by
    intro item hitem
    exact (hconfirmed.mem_iff item).mp hitem
  have hlookup := lookupTxns_perm h.exact h.decodes order hall limit
  rw [<- h.confirmedTxids_eq hconfirmed] at hlookup
  exact hlookup

theorem answersChain_some (order : LookupOrder) (hitem : item ∈ confirmed) :
    AnswersChain (ChainQuery.historyGroup server.reader order scripts (some item.1.txid)
        (some item.2.1.height.toUInt32))
      (after (fun item => item.1.txid) (some item.1.txid) confirmed) := by
  intro limit
  have hconfirmedTx := (hconfirmed.mem_iff item).mp hitem
  have hrows := ChainQuery.rowsOf_historyIterScanGroupReverse h.exact.inRange scripts none
  have hrows' := ChainQuery.rowsOf_historyIterScanGroupReverse h.exact.inRange
    scripts (some item.2.1.height.toUInt32)
  have hheight : item.2.1.height = item.2.1.height.toUInt32.toNat := by
    rcases hconfirmedTx with ⟨be, _, hbe, _, heq, _⟩
    have hlt := height_lt_of_mem_chainEntries hbe
    have hlength := h.exact.valid.length_lt
    rw [heq]
    exact (toNat_toUInt32 (Nat.lt_trans hlt hlength)).symm
  have hentries := h.exact.confirmedTxids_start hrows hrows' hconfirmedTx (Nat.le_of_eq hheight)
  have hmap : after Prod.fst (some item.1.txid) (confirmed.map fun item => (item.1.txid, item.2)) =
        (after (fun item => item.1.txid) (some item.1.txid) confirmed).map
          fun item => (item.1.txid, item.2) :=
    after_map (fun _ _ => rfl) _
  rw [h.exact.confirmedTxids_eq_after hrows, h.confirmedTxids_eq hconfirmed, hmap] at hentries
  have hall : forall item', item' ∈ after (fun item => item.1.txid) (some item.1.txid) confirmed ->
        ConfirmedTx T server.cfg.toIndexerConfig scripts blocks item' := by
    intro item' hitem'
    exact (hconfirmed.mem_iff item').mp ((after_sublist _ _ _).subset hitem')
  have hlookup := lookupTxns_perm h.exact h.decodes order hall limit
  rw [<- hentries] at hlookup
  exact hlookup

theorem prevouts_confirmed (hitem : item ∈ confirmed) : PrevoutsAvailable server item.1 := by
  rcases (txid_mem_chainTxids ((hconfirmed.mem_iff item).mp hitem)).left with ⟨b, hb, htx⟩
  exact h.chain_prevouts b hb item.1 htx

theorem findTxid_confirmed (hitem : item ∈ confirmed) :
    server.findTxid item.1.txid = .chain item.2.1.height.toUInt32 := by
  have habsent : server.mempool.txstore[item.1.txid]? = none :=
    Std.ExtTreeMap.getElem?_eq_none (h.not_mem_mempool hconfirmed hitem)
  rcases (hconfirmed.mem_iff item).mp hitem with ⟨be, idx, hbe, htx, hpos, _⟩
  have hblock := h.exact.txConfirmingBlock_of_position hbe htx
  unfold Server.findTxid
  rw [Mempool.lookupTxn, habsent, hblock, hpos]
  rfl

end

theorem pagesOf_listed (hunconfirmed : Unconfirmed server.mempool scripts unconfirmed)
    (hconfirmed : Confirmed T server.cfg.toIndexerConfig scripts blocks confirmed)
    {maxTxs : Option Nat} {size : Nat}
    (hsize : clampQueryMaxTxs maxTxs server.restDefaultMaxMempoolTxs = size)
    (hpos : 1 ≤ size) (order : LookupOrder) {afterTxid : Option Txid}
    (hcursor : CursorOf TransactionValue.txid (listed unconfirmed confirmed) afterTxid) :
    server.addressesTxs order scripts afterTxid maxTxs = .ok ((after TransactionValue.txid afterTxid
        (listed unconfirmed confirmed)).take size) := by
  have hfrontMap : forall cursor, after TransactionValue.txid cursor
      (unconfirmed.map unconfirmedValue) =
        (after Transaction.txid cursor unconfirmed).map unconfirmedValue :=
    after_map fun _ _ => rfl
  have hrestMap : forall cursor, after TransactionValue.txid cursor (confirmed.map confirmedValue) =
        (after (fun item => item.1.txid) cursor confirmed).map confirmedValue :=
    after_map fun _ _ => rfl
  have hfront : forall tx, tx ∈ after Transaction.txid afterTxid unconfirmed ->
      PrevoutsAvailable server tx := by
    intro tx htx
    exact h.mempool_prevouts tx.txid tx (hunconfirmed.stored tx ((after_sublist _ _ _).subset htx))
  have hmempool := hunconfirmed.historyGroup_eq afterTxid size
  have hrest : forall item, item ∈ confirmed -> PrevoutsAvailable server item.1 :=
    fun item hitem => h.prevouts_confirmed hconfirmed hitem
  -- The cursor is at the top, in the mempool or in the chain.
  cases afterTxid with
  | none =>
    exact txsPage_mempool rfl hsize hmempool (h.answersChain_none hconfirmed order)
      hconfirmed.descending hfront hrest
  | some txid =>
    have hmem := hcursor txid rfl
    rw [listed, List.map_append, List.map_map, List.map_map, List.mem_append] at hmem
    rcases hmem with hmem | hmem
    · rcases List.mem_map.mp hmem with ⟨tx, htx, htxid⟩
      have hlocation : server.afterTxidLocation (some txid) = .mempool := by
        have hstored := hunconfirmed.stored tx htx
        have hsame : tx.txid = txid := htxid
        rw [hsame] at hstored
        show (if (server.mempool.txstore[txid]?).isSome then _ else _) = _
        rw [hstored]
        rfl
      have hpage := txsPage_mempool hlocation hsize hmempool
        (h.answersChain_none hconfirmed order) hconfirmed.descending hfront hrest
      rw [<- hfrontMap] at hpage
      rw [listed, after_some_append_of_mem (by rw [List.map_map]; exact hmem)]
      exact hpage
    · rcases List.mem_map.mp hmem with ⟨item, hitem, htxid⟩
      have hsame : item.1.txid = txid := htxid
      have hlocation : server.afterTxidLocation (some txid) = .chain item.2.1.height.toUInt32 := by
        rw [<- hsame]
        exact h.findTxid_confirmed hconfirmed hitem
      have hchain := h.answersChain_some hconfirmed order hitem
      have hsublist := after_sublist (fun item => item.1.txid) (some txid) confirmed
      have hfresh : txid ∉ (unconfirmed.map unconfirmedValue).map TransactionValue.txid := by
        intro hin
        rw [List.map_map] at hin
        rcases List.mem_map.mp hin with ⟨tx, htx, heq⟩
        refine h.not_mem_mempool hconfirmed hitem ?_
        rw [hsame, <- heq]
        exact mem_of_getElem? (hunconfirmed.stored tx htx)
      rw [hsame] at hchain
      rw [listed, after_some_append hfresh, hrestMap]
      exact txsPage_chain hlocation hsize hpos hchain (hconfirmed.descending.sublist hsublist)
        (fun item' hitem' => hrest item' (hsublist.subset hitem'))

end Settled

def Answers (server : Server T) (scripts : List FullHash) (maxTxs : Option Nat)
    (afterTxid : Option Txid)
    (answer : Except QueryError (List TransactionValue)) : Prop :=
  exists order, server.addressesTxs order scripts afterTxid maxTxs = answer

/-- Page after page shows the mempool transactions in the order of the index, then the confirmed
ones from the newest to the oldest, each once. -/
theorem txs_paging (server : Server T) (blocks : List Block) (L : TxCommitments)
    (journal : List IndexedTx) (hsettled : Settled server blocks L journal)
    (scripts : List FullHash) (maxTxs : Option Nat)
    (hsize : 1 ≤ clampQueryMaxTxs maxTxs server.restDefaultMaxMempoolTxs) :
    (exists unconfirmed confirmed, Unconfirmed server.mempool scripts unconfirmed ∧
      (forall txid, txid ∈ unconfirmed.map Transaction.txid <->
        exists r, r ∈ journal ∧ r.txid = txid ∧
          exists row, row ∈ r.entries server.cfg ∧ row.1 ∈ scripts) ∧
      Confirmed T server.cfg.toIndexerConfig scripts blocks confirmed ∧
      ((listed unconfirmed confirmed).map TransactionValue.txid).Nodup ∧
      forall result, Visit (Answers server scripts maxTxs) TransactionValue.txid none result <->
          result = .ok (listed unconfirmed confirmed)) ∧
    forall order script afterTxid, server.addressesTxs order [script] afterTxid maxTxs =
        server.addressTxs order script afterTxid maxTxs := by
  refine ⟨?_, ?_⟩
  · rcases exists_unconfirmed hsettled.indexes hsettled.committed scripts with
      ⟨unconfirmed, hunconfirmed⟩
    rcases hsettled.exists_confirmed scripts with ⟨confirmed, hconfirmed⟩
    have hnodup := hsettled.nodup_listed hunconfirmed hconfirmed
    have hpages : PagesOf (Answers server scripts maxTxs) TransactionValue.txid
        (listed unconfirmed confirmed)
        (clampQueryMaxTxs maxTxs server.restDefaultMaxMempoolTxs) := by
      intro afterTxid hcursor answer
      have hpage := fun order => hsettled.pagesOf_listed hunconfirmed hconfirmed rfl
        hsize order hcursor
      constructor
      · intro hanswer
        rcases hanswer with ⟨order, hanswer⟩
        exact hanswer.symm.trans (hpage order)
      · intro heq
        exact ⟨.sequential, (hpage .sequential).trans heq.symm⟩
    exact ⟨unconfirmed, confirmed, hunconfirmed,
      fun txid => hunconfirmed.mem_iff hsettled.indexes, hconfirmed, hnodup,
      fun result => visit_iff hnodup hsize hpages⟩
  · intro order script afterTxid
    exact server.addressesTxs_singleton order script afterTxid maxTxs

end Listed

namespace Sample

open NewIndex.Sample

def firstTurn : List (NodeAction tree) :=
  .chain (.index (.update .bitcoind daemonGenesis)) ::
    pollMempool [103] [payment 103 101 [3]]

def serverOf (node : Node) : Server tree where
  cfg := mempoolConfig
  restDefaultMaxMempoolTxs := 50
  daemon := daemonGenesis
  deserialize _ := some (coinbase 101 [1])
  store := node.store
  mempool := node.mempool.mempool

theorem exactSession_firstTurn : ExactSession config (chainRequests firstTurn) := by
  apply exactSession_of_noReturn
  have hevents : indexEvents (chainRequests firstTurn) =
      [] ++ [.update .bitcoind daemonGenesis] := rfl
  rw [hevents]
  refine atEveryUpdate_update.mpr ⟨atEveryUpdate_nil, ?_⟩
  decide

theorem committed_firstTurn (action : NodeAction tree)
    (haction : action ∈ firstTurn) : action.Committed turnCommitments := by
  rcases List.mem_cons.mp haction with hgenesis | hpoll
  · rw [hgenesis]
    trivial
  · apply committed_pollMempool ?_ action hpoll
    intro tx htx
    rw [List.mem_singleton.mp htx]
    exact ⟨rfl, rfl⟩

theorem paging_one_by_one :
    exists (server : Server tree) (blocks : List Block) (journal : List IndexedTx),
      Settled server blocks turnCommitments journal ∧
      exists unconfirmed confirmed, Unconfirmed server.mempool [1, 3, 1] unconfirmed ∧
        Confirmed tree config [1, 3, 1] blocks confirmed ∧
        Visit (Answers server [1, 3, 1] (some 1)) TransactionValue.txid none
          (.ok (listed unconfirmed confirmed)) := by
  have heval : exists node, Node.run mempoolConfig firstTurn = .ok node ∧
      (forall row, row ∈ node.mempool.mempool.txstore.toList -> row = (103, payment 103 101 [3])) ∧
      lookupTxo node.store.disk.txstore { txid := 101, vout := 0 } =
        some { value := 50, scriptPubkey := [1] } := by
    decide +kernel
  rcases heval with ⟨node, hrun, hrows, htxo⟩
  have hmempool : forall (txid : Txid) (tx : Transaction),
      node.mempool.mempool.txstore[txid]? = some tx -> txid = 103 ∧ tx = payment 103 101 [3] := by
    intro txid tx htx
    have heq := hrows _ (Std.ExtTreeMap.mem_toList_iff_getElem?_eq_some.mpr htx)
    exact ⟨congrArg Prod.fst heq, congrArg Prod.snd heq⟩
  rcases Node.tracked_of_run hrun committed_firstTurn with ⟨journal, htracked⟩
  have hinv := sessionInv_of_serve (Node.serve_of_run hrun) exactSession_firstTurn
  have hsettled : Settled (serverOf node) [genesis] turnCommitments journal := by
    refine ⟨hinv.inv.exact, htracked.indexes, htracked.committed, ?_, ?_, ?_, ?_⟩
    · intro txid htxid
      rcases mem_iff_exists.mp htxid with ⟨tx, htx⟩
      rw [(hmempool txid tx htx).left]
      decide
    · intro b hb tx htx
      rw [List.mem_singleton.mp hb] at htx
      rw [List.mem_singleton.mp htx]
      rfl
    · intro txid tx htx
      rw [(hmempool txid tx htx).right]
      refine ⟨?_, Or.inr (by decide)⟩
      intro txi htxi _
      rw [List.mem_singleton.mp htxi]
      refine ⟨{ value := 50, scriptPubkey := [1] }, ?_⟩
      show (lookupTxo node.store.disk.txstore { txid := 101, vout := 0 }).or _ = _
      rw [htxo]
      rfl
    · intro b hb tx htx
      rw [List.mem_singleton.mp hb] at htx
      rw [List.mem_singleton.mp htx]
      refine ⟨?_, Or.inl (by decide)⟩
      intro txi htxi hprevout
      rw [List.mem_singleton.mp htxi] at hprevout
      exact absurd hprevout (by decide)
  rcases (txs_paging (serverOf node) [genesis] turnCommitments journal hsettled
    [1, 3, 1] (some 1) (Nat.le_refl 1)).left with
      ⟨unconfirmed, confirmed, hunconfirmed, _, hconfirmed, _, hvisit⟩
  exact ⟨serverOf node, [genesis], journal, hsettled, unconfirmed, confirmed,
    hunconfirmed, hconfirmed, (hvisit _).mpr rfl⟩

end Sample

end Rest
end Splora
