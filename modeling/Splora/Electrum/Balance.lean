import Splora.NewIndex.Amounts
import Splora.NewIndex.CombinedUtxo

/-!
# The balance of a script

`get_balance` is computed from statistics that may wrap, `listunspent` from unspent outputs.
Both are compared with the ledger of the script, whose unspent amounts are bounded by the money
there is.
-/

namespace Splora
namespace Electrum

open Foundation NewIndex

structure GetBalanceResult where
  confirmed : UInt64
  unconfirmed : Int64
deriving DecidableEq

structure ListUnspentResult where
  height : Nat
  txPos : UInt32
  txHash : Txid
  value : UInt64
deriving DecidableEq

def Query.stats (store : Store) (m : Mempool) (scripthash : FullHash) :
    (ScriptStats × ScriptStats) × Store :=
  let (chainStats, store) := ChainQuery.stats store scripthash
  ((chainStats, m.stats scripthash), store)

/-- Differences of machine words wrap. -/
def blockchainScripthashGetBalance (store : Store) (m : Mempool)
    (scriptHash : FullHash) : GetBalanceResult × Store :=
  let ((chainStats, mempoolStats), store) := Query.stats store m scriptHash
  ({ confirmed := chainStats.fundedTxoSum - chainStats.spentTxoSum
     unconfirmed :=
      mempoolStats.fundedTxoSum.toInt64 - mempoolStats.spentTxoSum.toInt64 },
    store)

def toListUnspent (utxo : ChainQuery.Utxo) : ListUnspentResult where
  height := (utxo.confirmed.map BlockId.height).getD 0
  txPos := utxo.vout
  txHash := utxo.txid
  value := utxo.value

def blockchainScripthashListunspent (cfg : Config) (store : Store) (m : Mempool)
    (scriptHash : FullHash) : Except Abort (List ListUnspentResult × Store) := do
  let (utxos, store) <- NewIndex.Query.utxo cfg store m scriptHash
  return (utxos.map toListUnspent, store)

def poolTxs (m : Mempool) : List Transaction :=
  m.txstore.toList.map Prod.snd

def fundedOutPoint (info : FundingInfo) : OutPoint where
  txid := info.txid
  vout := info.vout

def spentOutPoint (info : SpendingInfo) : OutPoint where
  txid := info.prevTxid
  vout := info.prevVout

def ofScript (L : TxCommitments) (cfg : IndexerConfig) (scripthash : FullHash)
    (outpoint : OutPoint) : Bool :=
  (L.txo outpoint).any fun txo =>
    cfg.isIndexed txo && decide (cfg.computeScriptHash txo.scriptPubkey = scripthash)

section Script

variable {L : TxCommitments} {cfg : IndexerConfig} {scripthash : FullHash}
  {outpoint : OutPoint} {txo : TxOut}

theorem ofScript_iff (htxo : L.txo outpoint = some txo) :
    ofScript L cfg scripthash outpoint = true <->
      cfg.isIndexed txo = true ∧ cfg.computeScriptHash txo.scriptPubkey = scripthash := by
  rw [ofScript, htxo, Option.any_some, Bool.and_eq_true, decide_eq_true_eq]

theorem value_eq (htxo : L.txo outpoint = some txo) : L.value outpoint = txo.value.toNat := by
  rw [TxCommitments.value, htxo]
  rfl

theorem isIndexed_of_isSpendable (h : cfg.isSpendable txo = true) : cfg.isIndexed txo = true := by
  rw [IndexerConfig.isIndexed, h, Bool.true_or]

end Script

theorem sum_eq_total_of_perm {α : Type} {L : TxCommitments} {infos : List α}
    {outpoints : List OutPoint} {key : α -> OutPoint} {amount : α -> Nat}
    (hperm : (infos.map key).Perm outpoints)
    (hamount : forall info, info ∈ infos -> amount info = L.value (key info)) :
    (infos.map amount).sum = total L.value outpoints := by
  rw [<- total_perm hperm, total, List.map_map]
  exact congrArg List.sum (List.map_congr_left hamount)

theorem sum_eq_total {α : Type} {L : TxCommitments} {infos : List α}
    {outpoints : List OutPoint} (key : α -> OutPoint) {amount : α -> Nat}
    (hnodup : (infos.map key).Nodup) (hnodup' : outpoints.Nodup)
    (hmem : forall outpoint, outpoint ∈ infos.map key <-> outpoint ∈ outpoints)
    (hamount : forall info, info ∈ infos -> amount info = L.value (key info)) :
    (infos.map amount).sum = total L.value outpoints :=
  sum_eq_total_of_perm ((List.perm_ext_iff_of_nodup hnodup hnodup').mpr hmem) hamount

/-!
## Statistics of some transactions
-/

def Funds (cfg : IndexerConfig) (scripthash : FullHash) (txs : List Transaction)
    (info : FundingInfo) : Prop :=
  exists (tx : Transaction) (i : Nat) (txo : TxOut), tx ∈ txs ∧
    tx.output[i]? = some txo ∧ cfg.isIndexed txo = true ∧
    cfg.computeScriptHash txo.scriptPubkey = scripthash ∧
    info = { txid := tx.txid, vout := i.toUInt32, value := txo.value }

def SpendsFrom (L : TxCommitments) (cfg : IndexerConfig) (scripthash : FullHash)
    (txs : List Transaction) (info : SpendingInfo) : Prop :=
  exists (tx : Transaction) (i : Nat) (txi : TxIn) (txo : TxOut), tx ∈ txs ∧
    tx.input[i]? = some txi ∧ hasPrevout txi = true ∧
    L.txo txi.previousOutput = some txo ∧
    cfg.computeScriptHash txo.scriptPubkey = scripthash ∧
    info = {
      txid := tx.txid
      vin := i.toUInt32
      prevTxid := txi.previousOutput.txid
      prevVout := txi.previousOutput.vout
      value := txo.value }

section Sums

variable {L : TxCommitments} {cfg : IndexerConfig} {scripthash : FullHash}
  {txs : List Transaction}

section

variable (hhas : forall tx, tx ∈ txs -> L.Has tx)

include hhas

theorem fundedValue_eq {info : FundingInfo} (hinfo : Funds cfg scripthash txs info) :
    info.value.toNat = L.value (fundedOutPoint info) := by
  rcases hinfo with ⟨tx, i, txo, htx, htxo, _, _, heq⟩
  rw [heq]
  exact (value_eq ((hhas tx htx).txo_eq htxo)).symm

theorem exists_funds_iff {outpoint : OutPoint} :
    (exists info, Funds cfg scripthash txs info ∧ fundedOutPoint info = outpoint) <->
      outpoint ∈ txs.flatMap Transaction.outPoints ∧ ofScript L cfg scripthash outpoint = true := by
  rw [List.mem_flatMap]
  constructor
  · intro h
    rcases h with ⟨info, ⟨tx, i, txo, htx, htxo, hindexed, hhash, heq⟩, hpoint⟩
    rw [<- hpoint, heq]
    exact ⟨⟨tx, htx, mem_outPoints.mpr ⟨i, txo, htxo, rfl⟩⟩,
      (ofScript_iff ((hhas tx htx).txo_eq htxo)).mpr ⟨hindexed, hhash⟩⟩
  · intro h
    rcases h with ⟨⟨tx, htx, hmem⟩, hscript⟩
    rcases mem_outPoints.mp hmem with ⟨i, txo, htxo, hpoint⟩
    rw [hpoint, ofScript_iff ((hhas tx htx).txo_eq htxo)] at hscript
    exact ⟨_, ⟨tx, i, txo, htx, htxo, hscript.left, hscript.right, rfl⟩, hpoint.symm⟩

section

variable (hdistinct : (txs.flatMap Transaction.outPoints).Nodup) {infos : List FundingInfo}
  (hnodup : infos.Nodup) (hsource : forall info, info ∈ infos <-> Funds cfg scripthash txs info)

include hdistinct hnodup hsource

theorem fundedOutPoints_perm :
    (infos.map fundedOutPoint).Perm ((txs.flatMap Transaction.outPoints).filter
      (ofScript L cfg scripthash)) := by
  refine (List.perm_ext_iff_of_nodup ?_ (hdistinct.filter _)).mpr ?_
  · refine List.Nodup.map_on ?_ hnodup
    intro info hinfo info' hinfo' heq
    have hvalue := (fundedValue_eq hhas ((hsource info).mp hinfo)).trans
      ((congrArg L.value heq).trans (fundedValue_eq hhas ((hsource info').mp hinfo')).symm)
    rcases info with ⟨txid, vout, value⟩
    rcases info' with ⟨txid', vout', value'⟩
    injection heq with htxid hvout
    cases htxid
    cases hvout
    cases UInt64.toNat_inj.mp hvalue
    rfl
  · intro outpoint
    rw [List.mem_map, List.mem_filter, <- exists_funds_iff hhas]
    simp only [hsource]

theorem fundedSum_eq :
    (infos.map fun info => info.value.toNat).sum =
      total L.value ((txs.flatMap Transaction.outPoints).filter (ofScript L cfg scripthash)) := by
  refine sum_eq_total_of_perm (fundedOutPoints_perm hhas hdistinct hnodup hsource) ?_
  intro info hinfo
  exact fundedValue_eq hhas ((hsource info).mp hinfo)

end

end

section

variable (hspends : forall tx, tx ∈ txs ->
    forall outpoint, outpoint ∈ Transaction.prevOuts tx ->
      exists txo, L.txo outpoint = some txo ∧ cfg.isSpendable txo = true)
  (honce : (txs.flatMap Transaction.prevOuts).Nodup) {infos : List SpendingInfo}
  (hnodup : infos.Nodup)
  (hsource : forall info, info ∈ infos <-> SpendsFrom L cfg scripthash txs info)

include hspends honce hnodup hsource

theorem spentOutPoints_perm :
    (infos.map spentOutPoint).Perm ((txs.flatMap Transaction.prevOuts).filter
      (ofScript L cfg scripthash)) := by
  refine (List.perm_ext_iff_of_nodup ?_ (honce.filter _)).mpr ?_
  · refine List.Nodup.map_on ?_ hnodup
    intro info hinfo info' hinfo' heq
    rcases (hsource info).mp hinfo with ⟨tx, i, txi, txo, htx, htxi, hp, htxo, _, he⟩
    rcases (hsource info').mp hinfo' with ⟨tx', i', txi', txo', htx', htxi', hp', htxo', _, he'⟩
    have hsame : txi.previousOutput = txi'.previousOutput := by
      rw [he, he'] at heq
      exact heq
    rcases input_unique honce htx htx' htxi htxi' hp hp' hsame with ⟨htxeq, hieq⟩
    rw [hsame, htxo'] at htxo
    rw [he, he', htxeq, hieq, hsame, Option.some.inj htxo]
  · intro outpoint
    rw [List.mem_map, List.mem_filter, List.mem_flatMap]
    constructor
    · intro h
      rcases h with ⟨info, hinfo, hpoint⟩
      rcases (hsource info).mp hinfo with ⟨tx, i, txi, txo, htx, htxi, hp, htxo, hhash, he⟩
      have hmem : txi.previousOutput ∈ Transaction.prevOuts tx :=
        mem_prevOuts.mpr ⟨txi, List.mem_of_getElem? htxi, hp, rfl⟩
      rcases hspends tx htx _ hmem with ⟨txo', htxo', hspendable⟩
      rw [htxo] at htxo'
      cases htxo'
      have hpoint' : outpoint = txi.previousOutput := by
        rw [<- hpoint, he]
        rfl
      rw [hpoint', ofScript_iff htxo]
      exact ⟨⟨tx, htx, hmem⟩, isIndexed_of_isSpendable hspendable, hhash⟩
    · intro h
      rcases h with ⟨⟨tx, htx, hmem⟩, hscript⟩
      rcases mem_prevOuts.mp hmem with ⟨txi, htxi, hp, hpoint⟩
      rcases List.getElem?_of_mem htxi with ⟨i, hi⟩
      rcases hspends tx htx _ hmem with ⟨txo, htxo, _⟩
      rw [ofScript_iff htxo] at hscript
      rw [<- hpoint] at htxo
      exact ⟨_, (hsource _).mpr ⟨tx, i, txi, txo, htx, hi, hp, htxo, hscript.right, rfl⟩, hpoint⟩

theorem spentSum_eq :
    (infos.map fun info => info.value.toNat).sum =
      total L.value ((txs.flatMap Transaction.prevOuts).filter (ofScript L cfg scripthash)) := by
  refine sum_eq_total_of_perm (spentOutPoints_perm hspends honce hnodup hsource) ?_
  intro info hinfo
  rcases (hsource info).mp hinfo with ⟨tx, i, txi, txo, _, _, _, htxo, _, he⟩
  rw [he]
  exact (value_eq htxo).symm

end

end Sums

/-!
## The chain
-/

section Chain

variable {T : BlockTree} {L : TxCommitments} {cfg : IndexerConfig}
  {scripthash : FullHash} {blocks : List Block}
  {rows : List (TxHistoryKey × BlockId)}

theorem hasTxo_iff (hchain : IsChain T blocks)
    (hvalid : ValidTxs L cfg (chainTxs blocks)) {outpoint : OutPoint}
    (htxid : outpoint.txid ∈ (chainTxs blocks).map Transaction.txid) {txo : TxOut} :
    T.HasTxo outpoint txo <-> L.txo outpoint = some txo := by
  rcases List.mem_map.mp htxid with ⟨tx, htx, heq⟩
  rcases List.mem_flatMap.mp htx with ⟨b, hb, htx'⟩
  have hhas := hvalid.committed tx htx
  constructor
  · intro hstored
    rcases hstored with ⟨_, b', tx', hb', htx'', htxid', hout⟩
    have hsame := T.txid_commits hb' (hchain.stored b hb) htx'' htx' (htxid'.trans heq.symm)
    rw [hsame.right, hhas.right, heq] at hout
    exact hout
  · intro htxo
    refine ⟨b.hash, b, tx, hchain.stored b hb, htx', heq, ?_⟩
    rw [hhas.right, heq]
    exact htxo

theorem mem_fundings_iff {info : FundingInfo} :
    info ∈ fundings cfg scripthash blocks <-> Funds cfg scripthash (chainTxs blocks) info := by
  constructor
  · intro h
    rcases h with ⟨b, tx, i, txo, hb, htx, htxo, hindexed, hhash, heq⟩
    exact ⟨tx, i, txo, List.mem_flatMap.mpr ⟨b, hb, htx⟩, htxo, hindexed, hhash, heq⟩
  · intro h
    rcases h with ⟨tx, i, txo, htx, htxo, hindexed, hhash, heq⟩
    rcases List.mem_flatMap.mp htx with ⟨b, hb, htx⟩
    exact ⟨b, tx, i, txo, hb, htx, htxo, hindexed, hhash, heq⟩

theorem mem_spendings_iff (hchain : IsChain T blocks)
    (htxs : ValidTxs L cfg (chainTxs blocks)) {info : SpendingInfo} :
    info ∈ spendings T cfg scripthash blocks <->
      SpendsFrom L cfg scripthash (chainTxs blocks) info := by
  have hprev : forall tx, tx ∈ chainTxs blocks -> forall (i : Nat) (txi : TxIn),
      tx.input[i]? = some txi -> hasPrevout txi = true ->
        txi.previousOutput.txid ∈ (chainTxs blocks).map Transaction.txid := by
    intro tx htx i txi htxi hprevout
    exact (htxs.spends_outputs tx htx _ (mem_prevOuts.mpr
      ⟨txi, List.mem_of_getElem? htxi, hprevout, rfl⟩)).left
  constructor
  · intro h
    rcases h with ⟨b, tx, i, txi, txo, hb, htx, htxi, hprevout, htxo, hhash, heq⟩
    have hmem : tx ∈ chainTxs blocks := List.mem_flatMap.mpr ⟨b, hb, htx⟩
    exact ⟨tx, i, txi, txo, hmem, htxi, hprevout,
      (hasTxo_iff hchain htxs (hprev tx hmem i txi htxi hprevout)).mp htxo, hhash, heq⟩
  · intro h
    rcases h with ⟨tx, i, txi, txo, hmem, htxi, hprevout, htxo, hhash, heq⟩
    rcases List.mem_flatMap.mp hmem with ⟨b, hb, htx⟩
    exact ⟨b, tx, i, txi, txo, hb, htx, htxi, hprevout,
      (hasTxo_iff hchain htxs (hprev tx hmem i txi htxi hprevout)).mpr htxo, hhash, heq⟩

section

variable {stats : ScriptStats} (h : StatsOf T cfg scripthash blocks stats)
  (hhistory : ScriptHistory T cfg scripthash blocks rows) (hvalid : ValidChain T blocks)
  (htxs : ValidTxs L cfg (chainTxs blocks))

include h hhistory hvalid htxs

theorem statsSums_eq :
    stats.fundedTxoSum = UInt64.ofNat
        (total L.value (htxs.ledger.restrict (ofScript L cfg scripthash)).created) ∧
      stats.spentTxoSum = UInt64.ofNat
        (total L.value (htxs.ledger.restrict (ofScript L cfg scripthash)).spent) := by
  have hfunded := hhistory.nodup_fundings hvalid
  have hspent := hhistory.nodup_spendings hvalid
  constructor
  · rw [h.fundedTxoSum, finsum_mem_eq_sum hfunded hhistory.mem_fundings]
    refine congrArg UInt64.ofNat (fundedSum_eq htxs.committed htxs.outPoints_nodup hfunded ?_)
    intro info
    rw [<- hhistory.mem_fundings, mem_fundings_iff]
  · rw [h.spentTxoSum, finsum_mem_eq_sum hspent hhistory.mem_spendings]
    refine congrArg UInt64.ofNat (spentSum_eq ?_ htxs.spent_once hspent ?_)
    · intro tx htx outpoint hmem
      exact (htxs.spends_outputs tx htx outpoint hmem).right
    · intro info
      rw [<- hhistory.mem_spendings, mem_spendings_iff hvalid.toIsChain htxs]

theorem statsCounts_eq :
    stats.fundedTxoCount = (htxs.ledger.restrict (ofScript L cfg scripthash)).created.length ∧
      stats.spentTxoCount = (htxs.ledger.restrict (ofScript L cfg scripthash)).spent.length := by
  have hfunded := hhistory.nodup_fundings hvalid
  have hspent := hhistory.nodup_spendings hvalid
  constructor
  · have hperm := fundedOutPoints_perm htxs.committed htxs.outPoints_nodup hfunded
      (fun info => (hhistory.mem_fundings info).symm.trans mem_fundings_iff)
    rw [h.fundedTxoCount, ncard_eq_length hfunded hhistory.mem_fundings,
      <- List.length_map, hperm.length_eq]
    rfl
  · have hperm := spentOutPoints_perm
      (fun tx htx outpoint hmem => (htxs.spends_outputs tx htx outpoint hmem).right)
      htxs.spent_once hspent (fun info => (hhistory.mem_spendings info).symm.trans
        (mem_spendings_iff hvalid.toIsChain htxs))
    rw [h.spentTxoCount, ncard_eq_length hspent hhistory.mem_spendings,
      <- List.length_map, hperm.length_eq]
    rfl

end

end Chain

/-!
## The mempool index
-/

section Pool

variable {L : TxCommitments} {cfg : Config} {scripthash : FullHash} {m : Mempool}
  {journal : List IndexedTx}

variable {tx : Transaction}

theorem mem_poolTxs : tx ∈ poolTxs m <-> exists txid : Txid, m.txstore[txid]? = some tx := by
  rw [poolTxs, List.mem_map]
  constructor
  · intro h
    rcases h with ⟨row, hrow, heq⟩
    rw [<- heq]
    exact ⟨row.1, Std.ExtTreeMap.mem_toList_iff_getElem?_eq_some.mp hrow⟩
  · intro h
    rcases h with ⟨txid, htx⟩
    exact ⟨(txid, tx), Std.ExtTreeMap.mem_toList_iff_getElem?_eq_some.mpr htx, rfl⟩

def SameTx (r : IndexedTx) (tx : Transaction) : Prop :=
  r.tx.txid = tx.txid ∧ r.tx.input = tx.input ∧ r.tx.output = tx.output

theorem sameTx_of_txid (h : m.Committed L journal) {r : IndexedTx} (hr : r ∈ journal)
    (htx : tx ∈ poolTxs m) (heq : r.tx.txid = tx.txid) :
    SameTx r tx := by
  rcases mem_poolTxs.mp htx with ⟨txid, hget⟩
  have hhas := (h.txstore txid tx hget).right
  have hhas' := h.journal r hr
  refine ⟨heq, ?_, ?_⟩
  · rw [hhas.left, hhas'.left, heq]
  · rw [hhas.right, hhas'.right, heq]

structure PoolIndex (L : TxCommitments) (cfg : Config) (m : Mempool)
    (journal : List IndexedTx) : Prop where
  indexes : m.Indexes cfg journal
  committed : m.Committed L journal
  complete : Mempool.Complete L cfg m

theorem exists_tx_of_record (h : PoolIndex L cfg m journal) {r : IndexedTx}
    (hr : r ∈ journal) : exists tx, tx ∈ poolTxs m ∧ SameTx r tx := by
  rcases mem_iff_exists.mp (h.indexes.stored r hr) with ⟨tx, htx⟩
  have hmem : tx ∈ poolTxs m := mem_poolTxs.mpr ⟨r.txid, htx⟩
  have htxid := (h.committed.txstore r.txid tx htx).left
  exact ⟨tx, hmem, sameTx_of_txid h.committed hr hmem htxid.symm⟩

theorem PoolIndex.of_mem (h : PoolIndex L cfg m journal) (htx : tx ∈ poolTxs m) :
    Mempool.TxComplete L cfg m tx := by
  rcases mem_poolTxs.mp htx with ⟨txid, hget⟩
  exact h.complete txid tx hget

theorem exists_record_of_tx (h : PoolIndex L cfg m journal) (htx : tx ∈ poolTxs m) :
    exists r, r ∈ journal ∧ SameTx r tx := by
  rcases h.indexes.mem_feeinfo.mp (h.of_mem htx).feeinfo with ⟨r, hr, heq⟩
  exact ⟨r, hr, sameTx_of_txid h.committed hr htx heq⟩

theorem oneEntry_mem {entry : TxHistoryInfo} (h : Mempool.OneEntry m scripthash entry) :
    entry ∈ m.history[scripthash]?.getD [] := by
  have hfilter := h scripthash
  rw [if_pos rfl] at hfilter
  exact List.mem_of_mem_filter (hfilter ▸ List.mem_singleton_self entry)

theorem oneEntry_unique {scripthash' : FullHash} {entry entry' : TxHistoryInfo}
    (h : Mempool.OneEntry m scripthash entry)
    (hentry' : entry' ∈ m.history[scripthash']?.getD [])
    (hslot : entry'.slot = entry.slot) : scripthash' = scripthash ∧ entry' = entry := by
  have hmem : entry' ∈ (m.history[scripthash']?.getD []).filter fun e => e.slot = entry.slot :=
    List.mem_filter.mpr ⟨hentry', decide_eq_true hslot⟩
  rw [h scripthash'] at hmem
  by_cases heq : scripthash' = scripthash
  · rw [if_pos heq] at hmem
    exact ⟨heq, List.mem_singleton.mp hmem⟩
  · rw [if_neg heq] at hmem
    cases hmem

theorem mem_pool_funding (hpool : PoolIndex L cfg m journal) {info : FundingInfo} :
    .funding info ∈ m.history[scripthash]?.getD [] <->
      Funds cfg.toIndexerConfig scripthash (poolTxs m) info := by
  rw [hpool.indexes.history.mem_iff, List.mem_flatMap]
  constructor
  · intro hrow
    rcases hrow with ⟨r, hr, hrow⟩
    rcases List.mem_append.mp hrow with hfunding | hspending
    · rcases IndexedTx.mem_fundingEntries.mp hfunding with ⟨i, txo, htxo, hindexed, heq⟩
      rcases exists_tx_of_record hpool hr with ⟨tx, htx, htxid, _, houtput⟩
      injection heq with hhash hinfo
      injection hinfo with hinfo
      rw [houtput] at htxo
      rw [htxid] at hinfo
      exact ⟨tx, i, txo, htx, htxo, hindexed, hhash.symm, hinfo⟩
    · rcases hpool.indexes.resolved r hr with ⟨txos, hfound⟩
      rcases hfound.mem_spendings.mp hspending with ⟨_, _, _, _, _, _, heq⟩
      cases heq
  · intro hfunds
    rcases hfunds with ⟨tx, i, txo, htx, htxo, hindexed, hhash, heq⟩
    rcases exists_record_of_tx hpool htx with ⟨r, hr, htxid, _, houtput⟩
    refine ⟨r, hr, List.mem_append_left _ (IndexedTx.mem_fundingEntries.mpr
      ⟨i, txo, ?_, hindexed, ?_⟩)⟩
    · rw [houtput]
      exact htxo
    · rw [heq, hhash, htxid]

theorem mem_pool_spending (hpool : PoolIndex L cfg m journal) {info : SpendingInfo} :
    .spending info ∈ m.history[scripthash]?.getD [] <->
      SpendsFrom L cfg.toIndexerConfig scripthash (poolTxs m) info := by
  constructor
  · intro hentry
    rcases List.mem_flatMap.mp (hpool.indexes.history.mem_iff.mp hentry) with ⟨r, hr, hrow⟩
    rcases List.mem_append.mp hrow with hfunding | hspending
    · rcases IndexedTx.mem_fundingEntries.mp hfunding with ⟨_, _, _, _, heq⟩
      cases heq
    · rcases hpool.indexes.resolved r hr with ⟨txos, hfound⟩
      rcases hfound.mem_spendings.mp hspending with ⟨i, txi, _, htxi, hprevout, _, heq⟩
      rcases exists_tx_of_record hpool hr with ⟨tx, htx, htxid, hinput, _⟩
      rw [hinput] at htxi
      -- the place of the entry names the input; its one entry has the committed output
      rcases (hpool.of_mem htx).spending i txi htxi hprevout with ⟨txo, htxo, hone, _⟩
      have hslot : (TxHistoryInfo.spending info).slot = (tx.txid, false, i.toUInt32) := by
        rw [(Prod.mk.inj heq).right, <- htxid]
        rfl
      rcases oneEntry_unique hone hentry hslot with ⟨hhash, hinfo⟩
      injection hinfo with hinfo
      exact ⟨tx, i, txi, txo, htx, htxi, hprevout, htxo, hhash.symm, hinfo⟩
  · intro hspends
    rcases hspends with ⟨tx, i, txi, txo, htx, htxi, hprevout, htxo, hhash, heq⟩
    rcases (hpool.of_mem htx).spending i txi htxi hprevout with ⟨txo', htxo', hone, _⟩
    rw [htxo] at htxo'
    cases htxo'
    rw [<- hhash, heq]
    exact oneEntry_mem hone

theorem countTx_sums (st : StatsState) (txid : Txid) :
    (StatsState.countTx st txid).stats.fundedTxoSum = st.stats.fundedTxoSum ∧
      (StatsState.countTx st txid).stats.spentTxoSum = st.stats.spentTxoSum := by
  unfold StatsState.countTx
  split
  · exact ⟨rfl, rfl⟩
  · exact ⟨rfl, rfl⟩

theorem foldl_statsStep_sums (entries : List TxHistoryInfo) (st : StatsState) :
    (entries.foldl Mempool.statsStep st).stats.fundedTxoSum = st.stats.fundedTxoSum + UInt64.ofNat
          ((entries.filterMap TxHistoryInfo.funding?).map fun info => info.value.toNat).sum ∧
      (entries.foldl Mempool.statsStep st).stats.spentTxoSum = st.stats.spentTxoSum + UInt64.ofNat
          ((entries.filterMap TxHistoryInfo.spending?).map fun info => info.value.toNat).sum := by
  induction entries generalizing st with
  | nil => exact ⟨(UInt64.add_zero _).symm, (UInt64.add_zero _).symm⟩
  | cons entry entries ih =>
    rcases ih (Mempool.statsStep st entry) with ⟨hfunded, hspent⟩
    rcases countTx_sums st entry.getTxid with ⟨hfunded', hspent'⟩
    rw [List.foldl_cons, hfunded, hspent, <- hfunded', <- hspent']
    cases entry with
    | funding info =>
      refine ⟨?_, rfl⟩
      show _ = _ + UInt64.ofNat (info.value.toNat + _)
      rw [UInt64.ofNat_add, UInt64.ofNat_toNat, <- UInt64.add_assoc]
      rfl
    | spending info =>
      refine ⟨rfl, ?_⟩
      show _ = _ + UInt64.ofNat (info.value.toNat + _)
      rw [UInt64.ofNat_add, UInt64.ofNat_toNat, <- UInt64.add_assoc]
      rfl

theorem stats_sums (m : Mempool) (scripthash : FullHash) :
    (m.stats scripthash).fundedTxoSum = UInt64.ofNat
        (((m.history[scripthash]?.getD []).filterMap TxHistoryInfo.funding?).map
          fun info => info.value.toNat).sum ∧
      (m.stats scripthash).spentTxoSum = UInt64.ofNat
        (((m.history[scripthash]?.getD []).filterMap TxHistoryInfo.spending?).map
          fun info => info.value.toNat).sum := by
  unfold Mempool.stats
  cases m.history[scripthash]? with
  | none => exact ⟨rfl, rfl⟩
  | some entries =>
    rcases foldl_statsStep_sums entries (StatsState.start ScriptStats.default) with
      ⟨hfunded, hspent⟩
    rw [Option.getD_some]
    exact ⟨hfunded.trans (UInt64.zero_add _), hspent.trans (UInt64.zero_add _)⟩

theorem nodup_pool_infos {α : Type} (hindexes : m.Indexes cfg journal)
    {pick : TxHistoryInfo -> Option α}
    (hpick : forall x y a, pick x = some a -> pick y = some a -> x = y) :
    ((m.history[scripthash]?.getD []).filterMap pick).Nodup := by
  have hslots := hindexes.nodup_bucket scripthash
  refine List.Nodup.filterMap ?_ (List.Nodup.of_map _ hslots)
  intro x y a hx hy
  exact hpick x y a hx hy

theorem pool_sums_eq (hpool : PoolIndex L cfg m journal) {txs : List Transaction}
    (hvalid : ValidTxs L cfg.toIndexerConfig (txs ++ poolTxs m))
    (scripthash : FullHash) :
    (m.stats scripthash).fundedTxoSum = UInt64.ofNat
        (total L.value (((poolTxs m).flatMap Transaction.outPoints).filter
          (ofScript L cfg.toIndexerConfig scripthash))) ∧
      (m.stats scripthash).spentTxoSum = UInt64.ofNat
        (total L.value (((poolTxs m).flatMap Transaction.prevOuts).filter
          (ofScript L cfg.toIndexerConfig scripthash))) := by
  have hcreated := hvalid.outPoints_nodup
  have hspent := hvalid.spent_once
  rw [List.flatMap_append] at hcreated hspent
  rcases stats_sums m scripthash with ⟨hfundedSum, hspentSum⟩
  rw [hfundedSum, hspentSum]
  constructor
  · refine congrArg UInt64.ofNat (fundedSum_eq ?_
      (List.nodup_append.mp hcreated).right.left (nodup_pool_infos hpool.indexes ?_) ?_)
    · intro tx htx
      exact hvalid.committed tx (List.mem_append_right _ htx)
    · intro x y info hx hy
      rw [TxHistoryInfo.funding?_eq_some] at hx hy
      rw [hx, hy]
    · intro info
      rw [<- mem_pool_funding hpool, List.mem_filterMap]
      simp [TxHistoryInfo.funding?_eq_some]
  · refine congrArg UInt64.ofNat (spentSum_eq ?_
      (List.nodup_append.mp hspent).right.left (nodup_pool_infos hpool.indexes ?_) ?_)
    · intro tx htx outpoint hmem
      exact (hvalid.spends_outputs tx (List.mem_append_right _ htx) outpoint hmem).right
    · intro x y info hx hy
      rw [TxHistoryInfo.spending?_eq_some] at hx hy
      rw [hx, hy]
    · intro info
      rw [<- mem_pool_spending hpool, List.mem_filterMap]
      simp [TxHistoryInfo.spending?_eq_some]

/-!
## The unspent outputs
-/

variable {outpoint : OutPoint}

theorem ne_null_of_created {txs : List Transaction}
    (h : outpoint ∈ txs.flatMap Transaction.outPoints) : outpoint ≠ OutPoint.null := by
  intro hnull
  rcases List.mem_flatMap.mp h with ⟨tx, _, hmem⟩
  rcases mem_outPoints.mp hmem with ⟨i, txo, htxo, heq⟩
  have hvout : i.toUInt32.toNat = 0xffffffff :=
    congrArg (fun point => point.vout.toNat) (heq.symm.trans hnull)
  rw [toNat_toUInt32 (output_index_lt htxo)] at hvout
  have hlt := (List.getElem?_eq_some_iff.mp htxo).1
  have hlength := tx.output_lt
  omega

theorem edges_iff (hpool : PoolIndex L cfg m journal) (hnull : outpoint ≠ OutPoint.null) :
    outpoint ∈ m.edges <-> outpoint ∈ (poolTxs m).flatMap Transaction.prevOuts := by
  rw [List.mem_flatMap]
  constructor
  · intro hedge
    rcases mem_iff_exists.mp hedge with ⟨edge, hget⟩
    rcases hpool.indexes.edges outpoint edge hget with ⟨r, hr, hrow⟩
    rcases Mempool.mem_edgeRows.mp hrow with ⟨i, txi, htxi, hpoint, _⟩
    rcases exists_tx_of_record hpool hr with ⟨tx, htx, _, hinput, _⟩
    rw [hinput] at htxi
    refine ⟨tx, htx, mem_prevOuts.mpr ⟨txi, List.mem_of_getElem? htxi, ?_, hpoint⟩⟩
    rw [hasPrevout, hpoint, OutPoint.isNull, decide_eq_false hnull]
    rfl
  · intro hspent
    rcases hspent with ⟨tx, htx, hmem⟩
    rcases mem_prevOuts.mp hmem with ⟨txi, htxi, hprevout, hpoint⟩
    rcases List.getElem?_of_mem htxi with ⟨i, hi⟩
    rcases (hpool.of_mem htx).spending i txi hi hprevout with ⟨_, _, _, hedge⟩
    rw [<- hpoint]
    exact mem_of_getElem? hedge

theorem mem_pool_utxo (hpool : PoolIndex L cfg m journal)
    (hhas : forall tx, tx ∈ poolTxs m -> L.Has tx) :
    outpoint ∈ (m.utxo scripthash).map ChainQuery.Utxo.outPoint <->
      (outpoint ∈ (poolTxs m).flatMap Transaction.outPoints ∧
        outpoint ∉ (poolTxs m).flatMap Transaction.prevOuts) ∧
        ofScript L cfg.toIndexerConfig scripthash outpoint = true := by
  rw [List.mem_map]
  constructor
  · intro h
    rcases h with ⟨utxo, hutxo, hpoint⟩
    rcases Mempool.mem_utxo.mp hutxo with ⟨info, hentry, heq, hedge⟩
    have hpoint' : fundedOutPoint info = outpoint := by
      rw [<- hpoint, heq]
      rfl
    rcases (exists_funds_iff hhas).mp ⟨info, (mem_pool_funding hpool).mp hentry, hpoint'⟩
      with ⟨hcreated, hscript⟩
    rw [hpoint, edges_iff hpool (ne_null_of_created hcreated)] at hedge
    exact ⟨⟨hcreated, hedge⟩, hscript⟩
  · intro h
    rcases h with ⟨⟨hcreated, hspent⟩, hscript⟩
    rcases (exists_funds_iff hhas).mpr ⟨hcreated, hscript⟩ with ⟨info, hfunds, hpoint⟩
    rw [<- edges_iff hpool (ne_null_of_created hcreated), <- hpoint] at hspent
    exact ⟨_, Mempool.mem_utxo.mpr ⟨info, (mem_pool_funding hpool).mpr hfunds, rfl, hspent⟩, hpoint⟩

theorem pool_utxo_value (hpool : PoolIndex L cfg m journal)
    (hhas : forall tx, tx ∈ poolTxs m -> L.Has tx) {utxo : ChainQuery.Utxo}
    (hutxo : utxo ∈ m.utxo scripthash) :
    utxo.value.toNat = L.value utxo.outPoint := by
  rcases Mempool.mem_utxo.mp hutxo with ⟨info, hentry, heq, _⟩
  rcases (mem_pool_funding hpool).mp hentry with ⟨tx, i, txo, htx, htxo, _, _, hinfo⟩
  rw [heq, hinfo]
  exact (value_eq ((hhas tx htx).txo_eq htxo)).symm

end Pool

section Confirmed

variable {L : TxCommitments} {cfg : IndexerConfig} {scripthash : FullHash}
  {blocks : List Block} {outpoint : OutPoint}

theorem spent_iff :
    Spent blocks outpoint <-> outpoint ∈ (chainTxs blocks).flatMap Transaction.prevOuts := by
  rw [List.mem_flatMap]
  constructor
  · intro h
    rcases h with ⟨b, tx, txi, hb, htx, htxi, hprevout, heq⟩
    exact ⟨tx, List.mem_flatMap.mpr ⟨b, hb, htx⟩, mem_prevOuts.mpr ⟨txi, htxi, hprevout, heq⟩⟩
  · intro h
    rcases h with ⟨tx, htx, hmem⟩
    rcases List.mem_flatMap.mp htx with ⟨b, hb, htx⟩
    rcases mem_prevOuts.mp hmem with ⟨txi, htxi, hprevout, heq⟩
    exact ⟨b, tx, txi, hb, htx, htxi, hprevout, heq⟩

theorem exists_unspent_iff (hvalid : ValidTxs L cfg (chainTxs blocks)) :
    (exists utxo, Unspent cfg scripthash blocks outpoint utxo) <->
      (outpoint ∈ (chainTxs blocks).flatMap Transaction.outPoints ∧
        outpoint ∉ (chainTxs blocks).flatMap Transaction.prevOuts) ∧
        ofScript L cfg scripthash outpoint = true := by
  rw [<- spent_iff, and_right_comm, <- exists_funds_iff hvalid.committed]
  constructor
  · intro h
    rcases h with ⟨utxo, be, tx, i, txo, hbe, htx, htxo, hindexed, hhash, heq, _, hspent⟩
    have hmem : tx ∈ chainTxs blocks :=
      List.mem_flatMap.mpr ⟨be.block, block_mem_of_mem_blockEntriesFrom hbe, htx⟩
    exact ⟨⟨_, ⟨tx, i, txo, hmem, htxo, hindexed, hhash, rfl⟩, heq.symm⟩, hspent⟩
  · intro h
    rcases h with ⟨⟨info, ⟨tx, i, txo, htx, htxo, hindexed, hhash, hinfo⟩, hpoint⟩, hspent⟩
    rcases List.mem_flatMap.mp htx with ⟨b, hb, htx⟩
    rcases List.getElem?_of_mem hb with ⟨height, hheight⟩
    rw [hinfo] at hpoint
    exact ⟨_, blockEntryAt b height, tx, i, txo,
      mem_chainEntries.mpr ⟨height, b, hheight, rfl⟩, htx, htxo, hindexed, hhash,
      hpoint.symm, rfl, hspent⟩

theorem unspent_value (hvalid : ValidTxs L cfg (chainTxs blocks)) {blockid : BlockId}
    {value : UInt64} (h : Unspent cfg scripthash blocks outpoint (blockid, value)) :
    value.toNat = L.value outpoint := by
  rcases h with ⟨be, tx, i, txo, hbe, htx, htxo, _, _, heq, hutxo, _⟩
  have hmem : tx ∈ chainTxs blocks :=
    List.mem_flatMap.mpr ⟨be.block, block_mem_of_mem_blockEntriesFrom hbe, htx⟩
  rw [heq, value_eq ((hvalid.committed tx hmem).txo_eq htxo)]
  exact congrArg (fun utxo => utxo.2.toNat) hutxo

theorem confirmed_total (hvalid : ValidTxs L cfg (chainTxs blocks))
    {confirmed : List ChainQuery.Utxo}
    (h : ConfirmedUtxos cfg scripthash blocks confirmed) :
    (confirmed.map fun utxo => utxo.value.toNat).sum =
      total L.value (hvalid.ledger.restrict (ofScript L cfg scripthash)).unspent := by
  refine sum_eq_total ChainQuery.Utxo.outPoint h.nodup (Ledger.unspent_nodup _) ?_ ?_
  · intro outpoint
    rw [h.mem_iff, exists_unspent_iff hvalid, Ledger.restrict_unspent, List.mem_filter,
      Ledger.mem_unspent]
    rfl
  · intro utxo hutxo
    rcases h.unspent utxo hutxo with ⟨blockid, hunspent⟩
    exact unspent_value hvalid hunspent

end Confirmed

/-!
## The balance
-/

section Words

variable {created spent before after : Nat}

theorem toNat_sub_of_sums (h : created = spent + after) (hafter : after < 2 ^ 64) :
    (UInt64.ofNat created - UInt64.ofNat spent).toNat = after := by
  have hsub : UInt64.ofNat created - UInt64.ofNat spent = UInt64.ofNat after := by
    rw [h, UInt64.ofNat_add, UInt64.add_comm, UInt64.add_sub_cancel]
  rw [hsub, UInt64.toNat_ofNat', Nat.mod_eq_of_lt hafter]

theorem toInt_sub_of_sums (h : before + created = spent + after)
    (hbefore : before < 2 ^ 63) (hafter : after < 2 ^ 63) :
    ((UInt64.ofNat created).toInt64 - (UInt64.ofNat spent).toInt64).toInt =
      (after : Int) - before := by
  rw [UInt64.toInt64_ofNat', UInt64.toInt64_ofNat', <- Int64.ofInt_eq_ofNat,
    <- Int64.ofInt_eq_ofNat, <- Int64.ofInt_sub, Int64.toInt_ofInt_of_le]
  · omega
  · omega
  · omega

end Words

section Balance

variable {T : BlockTree} {L : TxCommitments} {cfg : Config} {emission : Emission}
  {store store' : Store} {blocks : List Block} {m : Mempool}
  {journal : List IndexedTx} {scripthash : FullHash}

theorem separateUtxos_of_complete (hpool : PoolIndex L cfg m journal)
    (hdisjoint : forall tx, tx ∈ poolTxs m -> tx.txid ∉ chainTxids blocks) :
    SeparateUtxos cfg blocks m scripthash := by
  refine separateUtxos_of_edges ?_ ?_ scripthash
  · intro txid htxid
    rcases mem_iff_exists.mp htxid with ⟨tx, htx⟩
    rw [<- (hpool.committed.txstore txid tx htx).left]
    exact hdisjoint tx (mem_poolTxs.mpr ⟨txid, htx⟩)
  · intro outpoint hspends
    rcases hspends with ⟨txid, tx, txi, htx, htxi, hprevout, hpoint⟩
    rcases List.getElem?_of_mem htxi with ⟨i, hi⟩
    rcases (hpool.complete txid tx htx).spending i txi hi hprevout with ⟨_, _, _, hedge⟩
    rw [<- hpoint]
    exact mem_of_getElem? hedge

theorem mem_listed_iff (hpool : PoolIndex L cfg m journal)
    (hvalid : ValidState L cfg.toIndexerConfig emission blocks (poolTxs m))
    (hdisjoint : forall tx, tx ∈ poolTxs m -> tx.txid ∉ chainTxids blocks)
    {confirmed : List ChainQuery.Utxo}
    (hconfirmed : ConfirmedUtxos cfg.toIndexerConfig scripthash blocks confirmed)
    {outpoint : OutPoint} :
    outpoint ∈ (confirmed.filter (fun utxo => !m.hasSpend utxo.outPoint) ++
        m.utxo scripthash).map ChainQuery.Utxo.outPoint <->
      outpoint ∈ (hvalid.both.ledger.restrict
        (ofScript L cfg.toIndexerConfig scripthash)).unspent := by
  have hhas : forall tx, tx ∈ poolTxs m -> L.Has tx := fun tx htx =>
    hvalid.both.committed tx (List.mem_append_right _ htx)
  rw [List.map_append, List.mem_append, mem_filter_hasSpend, hconfirmed.mem_iff,
    exists_unspent_iff hvalid.chain, mem_pool_utxo hpool hhas,
    Ledger.restrict_unspent, List.mem_filter, Ledger.mem_unspent]
  show _ <-> (outpoint ∈ (chainTxs blocks ++ poolTxs m).flatMap Transaction.outPoints ∧
    outpoint ∉ (chainTxs blocks ++ poolTxs m).flatMap Transaction.prevOuts) ∧ _
  rw [List.flatMap_append, List.flatMap_append, List.mem_append, List.mem_append]
  constructor
  · intro h
    rcases h with ⟨⟨⟨hcreated, hspent⟩, hscript⟩, hedge⟩ | ⟨⟨hcreated, hspent⟩, hscript⟩
    · rw [edges_iff hpool (ne_null_of_created hcreated)] at hedge
      exact ⟨⟨Or.inl hcreated, fun h => h.elim hspent hedge⟩, hscript⟩
    · rcases List.mem_flatMap.mp hcreated with ⟨tx, htx, hmem⟩
      refine ⟨⟨Or.inr hcreated, fun h => h.elim ?_ hspent⟩, hscript⟩
      -- the chain spends its own outputs only
      intro hconfirmedSpend
      apply hdisjoint tx htx
      rw [<- txid_of_mem_outPoints hmem]
      exact hvalid.spends_earlier.mem_chainTxids (spent_iff.mpr hconfirmedSpend)
  · intro h
    rcases h with ⟨⟨hcreated, hspent⟩, hscript⟩
    have hchainSpent := fun h => hspent (Or.inl h)
    have hpoolSpent := fun h => hspent (Or.inr h)
    rcases hcreated with hcreated | hcreated
    · refine Or.inl ⟨⟨⟨hcreated, hchainSpent⟩, hscript⟩, ?_⟩
      rw [edges_iff hpool (ne_null_of_created hcreated)]
      exact hpoolSpent
    · exact Or.inr ⟨⟨hcreated, hpoolSpent⟩, hscript⟩

theorem listed_total (hexact : Exact T cfg.toIndexerConfig store blocks)
    (hcache : CacheRight T cfg.toIndexerConfig store)
    (hpool : PoolIndex L cfg m journal)
    (hvalid : ValidState L cfg.toIndexerConfig emission blocks (poolTxs m))
    {utxos : List ChainQuery.Utxo}
    (hutxo : NewIndex.Query.utxo cfg store m scripthash = .ok (utxos, store')) :
    (utxos.map fun utxo => utxo.value.toNat).sum = total L.value (hvalid.both.ledger.restrict
        (ofScript L cfg.toIndexerConfig scripthash)).unspent := by
  rcases Query.utxo_eq_ok hutxo with ⟨confirmed, hchain, heq⟩
  have hconfirmed := confirmedUtxos_of_utxo hexact hcache hvalid.spends_earlier hchain
  have hdisjoint : forall tx, tx ∈ poolTxs m -> tx.txid ∉ chainTxids blocks := by
    intro tx htx hmem
    have hnodup := hvalid.both.txids_nodup
    rw [List.map_append] at hnodup
    refine List.disjoint_of_nodup_append hnodup ?_ (List.mem_map_of_mem htx)
    rw [chainTxs, List.map_flatMap]
    exact hmem
  have hclean := (cleanUtxos_iff hexact hcache hvalid.spends_earlier hpool.indexes
    hpool.committed (fun b hb tx htx => hvalid.chain.committed tx
      (List.mem_flatMap.mpr ⟨b, hb, htx⟩)) hutxo).mpr
    (separateUtxos_of_complete hpool hdisjoint)
  refine sum_eq_total ChainQuery.Utxo.outPoint hclean.nodup (Ledger.unspent_nodup _) ?_ ?_
  · intro outpoint
    rw [heq]
    exact mem_listed_iff hpool hvalid hdisjoint hconfirmed
  · intro utxo hmem
    rw [heq] at hmem
    rcases List.mem_append.mp hmem with hmem | hmem
    · rcases hconfirmed.unspent utxo (List.mem_of_mem_filter hmem) with ⟨blockid, hunspent⟩
      exact unspent_value hvalid.chain hunspent
    · refine pool_utxo_value hpool ?_ hmem
      intro tx htx
      exact hvalid.both.committed tx (List.mem_append_right _ htx)

theorem listed_of_empty (hindexes : m.Indexes cfg journal) (hempty : m.txstore = ∅)
    (confirmed : List ChainQuery.Utxo) :
    confirmed.filter (fun utxo => !m.hasSpend utxo.outPoint) ++ m.utxo scripthash =
      confirmed := by
  have hnone : forall r, r ∉ journal := by
    intro r hr
    have hstored := hindexes.stored r hr
    rw [hempty] at hstored
    exact absurd hstored Std.ExtTreeMap.not_mem_empty
  have hutxo : m.utxo scripthash = [] := by
    refine List.eq_nil_iff_forall_not_mem.mpr ?_
    intro utxo hutxo
    rcases hindexes.utxo_source hutxo with ⟨r, _, _, hr, _⟩
    exact hnone r hr
  rw [hutxo, List.append_nil, List.filter_eq_self]
  intro utxo _
  have hedge : utxo.outPoint ∉ m.edges := by
    intro hedge
    rcases mem_iff_exists.mp hedge with ⟨edge, hget⟩
    rcases hindexes.edges _ edge hget with ⟨r, hr, _⟩
    exact hnone r hr
  simpa [Mempool.hasSpend] using hedge

theorem left_lt (hvalid : ValidState L cfg.toIndexerConfig emission blocks (poolTxs m))
    (scripthash : FullHash) :
    total L.value (hvalid.chain.ledger.restrict
        (ofScript L cfg.toIndexerConfig scripthash)).unspent < 2 ^ 63 ∧
      total L.value (hvalid.both.ledger.restrict
        (ofScript L cfg.toIndexerConfig scripthash)).unspent < 2 ^ 63 := by
  rw [Ledger.restrict_unspent, Ledger.restrict_unspent]
  exact ⟨Nat.lt_of_le_of_lt (total_filter_le _) hvalid.chain_unspent_lt,
    Nat.lt_of_le_of_lt (total_filter_le _) hvalid.both_unspent_lt⟩

theorem confirmed_balance (hexact : Exact T cfg.toIndexerConfig store blocks)
    (hcache : CacheRight T cfg.toIndexerConfig store)
    (hvalid : ValidState L cfg.toIndexerConfig emission blocks (poolTxs m))
    (scripthash : FullHash) :
    (blockchainScripthashGetBalance store m scripthash).1.confirmed.toNat =
      total L.value (hvalid.chain.ledger.restrict
        (ofScript L cfg.toIndexerConfig scripthash)).unspent := by
  have hrows := hexact.scriptHistory scripthash
  have heq : (ChainQuery.stats store scripthash).1 =
      (ChainQuery.statsDelta store scripthash ScriptStats.default 0).1 :=
    (hexact.stats_spec fun stats blockhash h => hcache _ _ h).left
  have hstats : StatsOf T cfg.toIndexerConfig scripthash blocks
      (ChainQuery.stats store scripthash).1 := by
    rw [heq]
    exact hrows.statsOf hexact.valid
  rcases statsSums_eq hstats hrows hexact.valid hvalid.chain with ⟨hfunded, hspent⟩
  have hlt := (left_lt hvalid scripthash).left
  show ((ChainQuery.stats store scripthash).1.fundedTxoSum -
    (ChainQuery.stats store scripthash).1.spentTxoSum).toNat = _
  rw [hfunded, hspent]
  exact toNat_sub_of_sums (Ledger.total_created _ _) (by omega)

theorem unconfirmed_balance (hpool : PoolIndex L cfg m journal)
    (hvalid : ValidState L cfg.toIndexerConfig emission blocks (poolTxs m))
    (store : Store) (scripthash : FullHash) :
    (blockchainScripthashGetBalance store m scripthash).1.unconfirmed.toInt =
      (total L.value (hvalid.both.ledger.restrict
        (ofScript L cfg.toIndexerConfig scripthash)).unspent : Int) -
      total L.value (hvalid.chain.ledger.restrict
        (ofScript L cfg.toIndexerConfig scripthash)).unspent := by
  rcases pool_sums_eq hpool hvalid.both scripthash with ⟨hfunded, hspent⟩
  rcases left_lt hvalid scripthash with ⟨hchainLt, hbothLt⟩
  show ((m.stats scripthash).fundedTxoSum.toInt64 -
    (m.stats scripthash).spentTxoSum.toInt64).toInt = _
  rw [hfunded, hspent]
  refine toInt_sub_of_sums ?_ hchainLt hbothLt
  -- both ledgers balance; the second has the outputs and the spends of the first
  have hchain := (hvalid.chain.ledger.restrict
    (ofScript L cfg.toIndexerConfig scripthash)).total_created L.value
  have hboth := (hvalid.both.ledger.restrict
    (ofScript L cfg.toIndexerConfig scripthash)).total_created L.value
  simp only [Ledger.restrict, ValidTxs.ledger, List.flatMap_append, List.filter_append,
    total_append] at hchain hboth ⊢
  omega

/-- The two parts of the balance add up to what `listunspent` returns; the confirmed part is the
value of the confirmed unspent outputs. -/
theorem balance_eq_unspent (hexact : Exact T cfg.toIndexerConfig store blocks)
    (hcache : CacheRight T cfg.toIndexerConfig store)
    (hindexes : m.Indexes cfg journal) (hcommitted : m.Committed L journal)
    (hcomplete : Mempool.Complete L cfg m)
    (hvalid : ValidState L cfg.toIndexerConfig emission blocks (poolTxs m))
    {listed : List ListUnspentResult}
    (hlisted : blockchainScripthashListunspent cfg store m scripthash = .ok (listed, store')) :
    ((blockchainScripthashGetBalance store m scripthash).1.confirmed.toNat : Int) +
        (blockchainScripthashGetBalance store m scripthash).1.unconfirmed.toInt =
          (listed.map fun item => item.value.toNat).sum ∧
      exists confirmed : List ChainQuery.Utxo,
        ChainQuery.utxo store scripthash cfg.utxosLimit = .ok (confirmed, store') ∧
        (blockchainScripthashGetBalance store m scripthash).1.confirmed.toNat =
          (confirmed.map fun utxo => utxo.value.toNat).sum ∧
        (m.txstore = ∅ -> listed = confirmed.map toListUnspent) := by
  rcases bind_eq_ok.mp hlisted with ⟨⟨utxos, store''⟩, hutxo, hpure⟩
  cases pure_eq_ok.mp hpure
  rcases Query.utxo_eq_ok hutxo with ⟨confirmed, hchain, heq⟩
  have hconfirmed := confirmed_balance hexact hcache hvalid scripthash
  have hpool : PoolIndex L cfg m journal := ⟨hindexes, hcommitted, hcomplete⟩
  have hunconfirmed := unconfirmed_balance hpool hvalid store scripthash
  have htotal := listed_total hexact hcache hpool hvalid hutxo
  have hlist : ((utxos.map toListUnspent).map fun item => item.value.toNat) =
      utxos.map fun utxo => utxo.value.toNat := by
    rw [List.map_map]
    rfl
  refine ⟨?_, confirmed, hchain, ?_, ?_⟩
  · rw [hlist, htotal, hconfirmed, hunconfirmed]
    omega
  · rw [hconfirmed, confirmed_total hvalid.chain (confirmedUtxos_of_utxo hexact hcache
      hvalid.spends_earlier hchain)]
  · intro hempty
    rw [heq, listed_of_empty hindexes hempty]

end Balance

namespace Sample

open NewIndex.Sample

def pool : List Transaction :=
  [payment 206 103 [9]]

theorem validTxs_of_any {L : TxCommitments} {txs : List Transaction}
    (hnodup : (txs.map Transaction.txid).Nodup)
    (hcommitted : forall tx, tx ∈ txs -> L.input tx.txid = tx.input ∧ L.output tx.txid = tx.output)
    (honce : (txs.flatMap Transaction.prevOuts).Nodup)
    (hspends : forall tx, tx ∈ txs -> forall outpoint, outpoint ∈ Transaction.prevOuts tx ->
      outpoint.txid ∈ txs.map Transaction.txid ∧
        (L.txo outpoint).any config.isSpendable = true) :
    ValidTxs L config txs where
  txids_nodup := hnodup
  committed := by
    intro tx htx
    exact ⟨(hcommitted tx htx).left.symm, (hcommitted tx htx).right.symm⟩
  spent_once := honce
  spends_outputs := by
    intro tx htx outpoint hmem
    rcases hspends tx htx outpoint hmem with ⟨htxid, hany⟩
    exact ⟨htxid, (Option.any_eq_true _ _).mp hany⟩

theorem validTxs_blockA : ValidTxs turnCommitments config (chainTxs [genesis, blockA]) :=
  validTxs_of_any (by decide) (by decide) (by decide) (by decide)

theorem validState_blockA {pool : List Transaction}
    (hboth : ValidTxs turnCommitments config (chainTxs [genesis, blockA] ++ pool))
    (hpool : forall tx, tx ∈ pool -> outputTotal tx ≤ inputTotal turnCommitments tx) :
    ValidState turnCommitments config Emission.bitcoin [genesis, blockA] pool where
  spends_earlier := spendsEarlier_daemonA.spendsEarlierTxs
  chain := validTxs_blockA
  both := hboth
  block_amounts := by
    intro height b hb
    rcases height with _ | _ | height
    · cases hb
      decide
    · cases hb
      decide
    · cases hb
  pool_amounts := hpool

def Indexed (m : Mempool) : Prop :=
  m.txstore.toList = [(206, payment 206 103 [9])] ∧ 206 ∈ m.feeinfo ∧
    .funding { txid := 206, vout := 0, value := 40 } ∈ (m.history[(9 : FullHash)]?).getD [] ∧
    .spending { txid := 206, vin := 0, prevTxid := 103, prevVout := 0, value := 40 } ∈
      (m.history[(3 : FullHash)]?).getD [] ∧
    m.edges[({ txid := 103, vout := 0 } : OutPoint)]? = some (206, 0)

instance (m : Mempool) : Decidable (Indexed m) :=
  inferInstanceAs (Decidable (_ ∧ _))

theorem oneEntry_of_mem {cfg : Config} {m : Mempool} {journal : List IndexedTx}
    (hindexes : m.Indexes cfg journal) {scripthash : FullHash} {entry : TxHistoryInfo}
    (hentry : entry ∈ m.history[scripthash]?.getD []) :
    Mempool.OneEntry m scripthash entry := by
  rcases List.mem_flatMap.mp (hindexes.history.mem_iff.mp hentry) with ⟨r, hr, hrow⟩
  exact hindexes.oneEntry hr hrow

theorem complete_of_indexed {m : Mempool} {journal : List IndexedTx}
    (hindexes : m.Indexes mempoolConfig journal) (h : Indexed m) :
    Mempool.Complete turnCommitments mempoolConfig m := by
  rcases h with ⟨hstored, hfee, hfunding, hspending, hedge⟩
  intro txid tx htx
  have hrow := Std.ExtTreeMap.mem_toList_iff_getElem?_eq_some.mpr htx
  rw [hstored, List.mem_singleton] at hrow
  cases hrow
  constructor
  case feeinfo => exact hfee
  case funding =>
    intro i txo htxo _
    rcases i with _ | i
    · cases htxo
      exact oneEntry_of_mem hindexes hfunding
    · cases htxo
  case spending =>
    intro i txi htxi _
    rcases i with _ | i
    · cases htxi
      exact ⟨{ value := 40, scriptPubkey := [3] }, by decide,
        oneEntry_of_mem hindexes hspending, hedge⟩
    · cases htxi

theorem balance_of_spent_output :
    exists node store, Node.run mempoolConfig afterUpdates = .ok node ∧
      blockchainScripthashListunspent mempoolConfig node.store node.mempool.mempool 3 =
        .ok ([], store) ∧
      (blockchainScripthashGetBalance node.store node.mempool.mempool 3).1 =
        { confirmed := 40, unconfirmed := -40 } ∧
      ((blockchainScripthashGetBalance node.store node.mempool.mempool 3).1.confirmed.toNat : Int) +
        (blockchainScripthashGetBalance node.store node.mempool.mempool
          3).1.unconfirmed.toInt = 0 := by
  have heval : exists node, Node.run mempoolConfig afterUpdates = .ok node ∧
      Indexed node.mempool.mempool ∧
      (blockchainScripthashGetBalance node.store node.mempool.mempool 3).1 =
        { confirmed := 40, unconfirmed := -40 } ∧
      exists result, blockchainScripthashListunspent mempoolConfig node.store
        node.mempool.mempool 3 = .ok result ∧ result.1 = [] := by
    decide +kernel
  rcases heval with ⟨node, hrun, hindexed, hbalance, ⟨_, store⟩, hlisted, rfl⟩
  have hinv := sessionInv_of_serve (Node.serve_of_run hrun) exactSession_afterUpdates
  rcases Node.tracked_of_run hrun committed_afterUpdates with ⟨journal, htracked⟩
  have hpool : poolTxs node.mempool.mempool = pool := by
    rw [poolTxs, hindexed.left]
    rfl
  have hvalid : ValidState turnCommitments config Emission.bitcoin [genesis, blockA]
      (poolTxs node.mempool.mempool) := by
    rw [hpool]
    exact validState_blockA (validTxs_of_any (by decide) (by decide) (by decide) (by decide))
      (by decide)
  exact ⟨node, store, hrun, hlisted, hbalance,
    (balance_eq_unspent hinv.inv.exact hinv.cache htracked.indexes htracked.committed
      (complete_of_indexed htracked.indexes hindexed) hvalid hlisted).left⟩

end Sample

end Electrum
end Splora
