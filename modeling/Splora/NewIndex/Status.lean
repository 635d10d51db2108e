import Splora.NewIndex.CombinedUtxo
import Splora.NewIndex.Outspend
import Splora.Util.ElectrumMerkle

/-!
# Status of blocks, transactions and outputs

What `/block/:hash/status`, `/tx/:txid/merkle-proof` and `/tx/:txid/outspend/:index` answer
at any point of a run.
-/

namespace Splora
namespace NewIndex

open Foundation ElectrumMerkle

structure BlockStatus where
  inBestChain : Bool
  height : Option Nat
  nextBest : Option BlockHash

namespace BlockStatus

def confirmed (height : Nat) (nextBest : Option BlockHash) : BlockStatus where
  inBestChain := true
  height := some height
  nextBest := nextBest

def orphaned : BlockStatus where
  inBestChain := false
  height := none
  nextBest := none

end BlockStatus

def ChainQuery.getBlockStatus (store : Store) (hash : BlockHash) : Except Abort BlockStatus :=
  match store.indexedHeaders.headerByBlockhash hash with
  | none => .ok .orphaned
  | some header => do
      let next <- store.indexedHeaders.headerByHeight (header.height + 1)
      return .confirmed header.height (next.map HeaderEntry.hash)

section Runs

variable {T : BlockTree} {cfg : IndexerConfig} {store : Store} {events : List (Event T)}

/-- After any run the lookup through the height map is a search through the chain, and the answer
names the block after. -/
theorem getBlockStatus_eq (hrun : run cfg events = .ok store) (hash : BlockHash) :
    ChainQuery.getBlockStatus store hash =
      .ok (((lastBest events).findIdx? fun b => b.hash = hash).elim .orphaned fun height =>
        .confirmed height ((lastBest events)[height + 1]?.map Block.hash)) := by
  rcases exists_inv hrun with ⟨s, hinv⟩
  unfold ChainQuery.getBlockStatus
  cases hfind : (lastBest events).findIdx? fun b => b.hash = hash with
  | none =>
    rw [hinv.headers.headerByBlockhash_eq_none]
    · rfl
    · intro hmem
      rcases List.mem_map.mp hmem with ⟨b, hb, heq⟩
      exact of_decide_eq_false (List.findIdx?_eq_none_iff.mp hfind b hb) heq
  | some height =>
    rcases List.findIdx?_eq_some_iff_getElem.mp hfind with ⟨hlt, hhash, _⟩
    rw [<- of_decide_eq_true hhash,
      hinv.headers.headerByBlockhash_of_getElem? (List.getElem?_eq_getElem hlt)]
    dsimp only
    rw [hinv.headers.headerByHeight_eq]
    simp [Option.map_map, Function.comp_def]

variable (sha256d : Bytes -> FullHash) (reader : ChainReader T)

/-- `GET /tx/:txid/merkle-proof`: the height of the block, the branch and the position. -/
def merkleProof (txid : Txid) : Except Failure (Nat × List FullHash × Nat) := do
  let blockid <- expect (ChainQuery.txConfirmingBlock reader.store txid)
    (.message "Transaction not found or is unconfirmed".toList)
  let (merkle, pos) <- getTxMerkleProof sha256d reader txid blockid.hash
  return (blockid.height, merkle, pos)

/-- After any run exactly the transactions of the chain get a proof, and it verifies. -/
theorem merkleProof_decides (hrun : run reader.cfg events = .ok reader.store) (txid : Txid) :
    Decides (merkleProof sha256d reader txid) (txid ∈ chainTxids (lastBest events))
      fun (height, merkle, pos) => exists b, (lastBest events)[height]? = some b ∧
        (b.txdata.map Transaction.txid)[pos]? = some txid ∧
        ProvesAt sha256d (b.txdata.map Transaction.txid) pos merkle := by
  rcases exists_inv hrun with ⟨s, hinv⟩
  have hconf := confirmsBestChain_of_materializes hinv.txstore hinv.valid
  refine decides_expect ?_ ?_
  · intro hnone hin
    rcases List.mem_flatMap.mp hin with ⟨b, hb, htxid⟩
    rcases List.getElem?_of_mem hb with ⟨i, hi⟩
    have hsome := (ChainQuery.txConfirmingBlock_eq_some hinv.headers hinv.valid hconf).mpr
      ⟨blockEntryAt b i, mem_chainEntries.mpr ⟨i, b, hi, rfl⟩, htxid, rfl⟩
    cases hnone.symm.trans hsome
  · intro blockid hblockid
    rcases (ChainQuery.txConfirmingBlock_eq_some hinv.headers hinv.valid hconf).mp hblockid with
      ⟨be, hbe, htxid, rfl⟩
    rcases mem_chainEntries.mp hbe with ⟨i, b, hb, rfl⟩
    have htxids := Mwck.getBlockTxids_eq hinv hb
    rcases (getTxMerkleProof_decides sha256d reader txid b.hash).left ⟨_, htxids, htxid⟩ with
      ⟨_, hproof, txids, htxids', hpos, hproves⟩
    cases htxids.symm.trans htxids'
    exact hproof ▸ decides_ok (List.mem_flatMap.mpr ⟨b, List.mem_of_getElem? hb, htxid⟩)
      ⟨b, hb, hpos, hproves⟩

end Runs

namespace Query

def lookupSpend (store : Store) (m : Mempool) (outpoint : OutPoint) : Option SpendingInput :=
  (ChainQuery.lookupSpend store outpoint).or (m.lookupSpend outpoint)

def PoolSpend (m : Mempool) (outpoint : OutPoint) (spend : SpendingInput) : Prop :=
  spend.confirmed = none ∧ exists tx txi, m.txstore[spend.txid]? = some tx ∧
    tx.input[spend.vin.toNat]? = some txi ∧ txi.previousOutput = outpoint

def SpendAnswer (blocks : List Block) (m : Mempool) (outpoint : OutPoint) :
    Option SpendingInput -> Prop
  | some spend => ChainSpend blocks outpoint spend ∨
      (forall spend', ¬ ChainSpend blocks outpoint spend') ∧ PoolSpend m outpoint spend
  | none => (forall spend, ¬ ChainSpend blocks outpoint spend) ∧ outpoint ∉ m.edges

/-- At any point of a run with exact databases, also between the updates of the indexes. -/
theorem lookupSpend_answers {T : BlockTree} {L : TxCommitments} {cfg : Config}
    {actions : List (NodeAction T)} {node : Node} (hrun : Node.run cfg actions = .ok node)
    (hexact : ExactSession cfg.toIndexerConfig (chainRequests actions))
    (hactions : forall action, action ∈ actions -> action.Committed L) (outpoint : OutPoint) :
    SpendAnswer (confirmedChain actions) node.mempool.mempool outpoint
      (lookupSpend node.store node.mempool.mempool outpoint) := by
  have hspends := (sessionInv_of_serve (Node.serve_of_run hrun) hexact).inv.exact.holdsSpends
  rcases Node.tracked_of_run hrun hactions with ⟨journal, htracked⟩
  cases hchain : ChainQuery.lookupSpend node.store outpoint with
  | some spend =>
    rw [lookupSpend, hchain]
    exact Or.inl (chainSpend_of_lookupSpend hspends hchain)
  | none =>
    have hnone : forall spend, ¬ ChainSpend (confirmedChain actions) outpoint spend := by
      intro spend hspend
      have hsome := lookupSpend_isSome hspends hspend
      rw [hchain] at hsome
      cases hsome
    rw [lookupSpend, hchain, Option.none_or, Mempool.lookupSpend]
    cases hedge : node.mempool.mempool.edges[outpoint]? with
    | none =>
      refine ⟨hnone, ?_⟩
      intro hmem
      rcases mem_iff_exists.mp hmem with ⟨edge, hsome⟩
      cases hedge.symm.trans hsome
    | some edge =>
      rcases htracked.indexes.edges _ edge hedge with ⟨r, hr, hrow⟩
      rcases Mempool.mem_edgeRows.mp hrow with ⟨i, txi, htxi, hsame, rfl⟩
      rcases mem_iff_exists.mp (htracked.indexes.stored r hr) with ⟨tx, htx⟩
      refine Or.inr ⟨hnone, rfl, tx, txi, htx, ?_, hsame⟩
      rw [htracked.committed.input_eq hr htx]
      simp only [toNat_toUInt32 (input_index_lt htxi), htxi]

end Query

namespace Sample

open ElectrumMerkle.Sample

theorem status_after_reorg : exists store, run config reorg = .ok store ∧
    ChainQuery.getBlockStatus store genesis.hash = .ok (.confirmed 0 (some blockB.hash)) := by
  rcases exists_run_reorg with ⟨store, hrun⟩
  exact ⟨store, hrun, getBlockStatus_eq hrun genesis.hash⟩

theorem merkleProof_after_reorg : exists store, run config reorg = .ok store ∧
    exists proof, merkleProof sumHash (readerOf store) 101 = .ok proof := by
  rcases exists_run_reorg with ⟨store, hrun⟩
  rcases (merkleProof_decides sumHash (readerOf store) hrun 101).left (by decide) with
    ⟨proof, hproof, _⟩
  exact ⟨store, hrun, proof, hproof⟩

theorem spend_after_updates : exists node, Node.run mempoolConfig afterUpdates = .ok node ∧
    Query.SpendAnswer (confirmedChain afterUpdates) node.mempool.mempool
      { txid := 103, vout := 0 } (some { txid := 206, vin := 0, confirmed := none }) := by
  have heval : exists node, Node.run mempoolConfig afterUpdates = .ok node ∧
      Query.lookupSpend node.store node.mempool.mempool { txid := 103, vout := 0 } =
        some { txid := 206, vin := 0, confirmed := none } := by
    decide +kernel
  rcases heval with ⟨node, hrun, hspend⟩
  exact ⟨node, hrun, hspend ▸
    Query.lookupSpend_answers hrun exactSession_afterUpdates committed_afterUpdates _⟩

end Sample

end NewIndex
end Splora
