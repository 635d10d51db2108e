import Splora.NewIndex.Summary
import Splora.Rest.AddressTxs

/-!
# Paging through the summaries of scripts

The handlers of `/address/:address/txs/summary` and `/addresses/txs/summary`.  A cursor of the
mempool is handed on to the chain, where no row has it.
-/

namespace Splora
namespace Rest

open Foundation NewIndex

structure SummaryServer (T : BlockTree) extends Server T where
  restDefaultMaxAddressSummaryTxs : Nat

namespace SummaryServer

variable {T : BlockTree}

def summaryPage (server : SummaryServer T)
    (summary : Option Txid -> Option UInt32 -> Nat -> List TxHistorySummary)
    (lastSeenTxid : Option Txid) (maxTxs : Option Nat) :
    Except QueryError (List TxHistorySummary) :=
  let maxTxs := clampQueryMaxTxs maxTxs server.restDefaultMaxAddressSummaryTxs
  match server.afterTxidLocation lastSeenTxid with
  | .mempool => .ok (summary lastSeenTxid none maxTxs)
  | .none => .error .afterTxidNotFound
  | .chain height => .ok (summary lastSeenTxid (some height) maxTxs)

def addressTxsSummary (server : SummaryServer T) (order : MapOrder)
    (scriptHash : FullHash) (lastSeenTxid : Option Txid) (maxTxs : Option Nat) :
    Except QueryError (List TxHistorySummary) :=
  server.summaryPage (ChainQuery.summary server.store order scriptHash) lastSeenTxid maxTxs

def addressesTxsSummary (server : SummaryServer T) (order : MapOrder)
    (scriptHashes : List FullHash) (lastSeenTxid : Option Txid) (maxTxs : Option Nat) :
    Except QueryError (List TxHistorySummary) :=
  server.summaryPage (ChainQuery.summaryGroup server.store order scriptHashes) lastSeenTxid maxTxs

theorem addressesTxsSummary_singleton (server : SummaryServer T) (order : MapOrder)
    (scriptHash : FullHash) (lastSeenTxid : Option Txid) (maxTxs : Option Nat) :
    server.addressesTxsSummary order [scriptHash] lastSeenTxid maxTxs =
      server.addressTxsSummary order scriptHash lastSeenTxid maxTxs := by
  have hsummary : ChainQuery.summaryGroup server.store order [scriptHash] =
      ChainQuery.summary server.store order scriptHash := by
    funext lastSeenTxid startHeight limit
    exact ChainQuery.summaryGroup_singleton ..
  rw [addressesTxsSummary, hsummary]
  rfl

theorem summaryPage_mempool (server : SummaryServer T)
    (summary : Option Txid -> Option UInt32 -> Nat -> List TxHistorySummary)
    {last : Txid} (h : (server.mempool.lookupTxn last).isSome = true)
    (maxTxs : Option Nat) :
    server.summaryPage summary (some last) maxTxs = .ok (summary (some last) none
        (clampQueryMaxTxs maxTxs server.restDefaultMaxAddressSummaryTxs)) := by
  have hlocation : server.afterTxidLocation (some last) = .mempool := if_pos h
  rw [summaryPage, hlocation]

theorem summaryPage_none (server : SummaryServer T)
    (summary : Option Txid -> Option UInt32 -> Nat -> List TxHistorySummary)
    (maxTxs : Option Nat) :
    server.summaryPage summary none maxTxs = .ok (summary none none
        (clampQueryMaxTxs maxTxs server.restDefaultMaxAddressSummaryTxs)) := rfl

end SummaryServer

/-- A cursor in the mempool is answered as none only if nothing confirmed is to be returned. -/
theorem mempool_cursor_iff {T : BlockTree} (server : SummaryServer T) {blocks : List Block}
    (h : Exact T server.cfg.toIndexerConfig server.store blocks)
    (order order' : MapOrder) (scripts : List FullHash) {last : Txid}
    (hmempool : (server.mempool.lookupTxn last).isSome = true) (maxTxs : Option Nat) :
    (server.addressesTxsSummary order scripts (some last) maxTxs =
        server.addressesTxsSummary order' scripts none maxTxs <->
      clampQueryMaxTxs maxTxs server.restDefaultMaxAddressSummaryTxs = 0 ∨
        forall item, ¬ ConfirmedTx T server.cfg.toIndexerConfig scripts blocks item) ∧
    forall script, scripts = [script] -> (server.addressTxsSummary order script (some last) maxTxs =
          server.addressTxsSummary order' script none maxTxs <->
        clampQueryMaxTxs maxTxs server.restDefaultMaxAddressSummaryTxs = 0 ∨
          forall item, ¬ ConfirmedTx T server.cfg.toIndexerConfig scripts blocks item) := by
  have hgroup : server.addressesTxsSummary order scripts (some last) maxTxs =
      server.addressesTxsSummary order' scripts none maxTxs <->
        clampQueryMaxTxs maxTxs server.restDefaultMaxAddressSummaryTxs = 0 ∨ forall item,
            ¬ ConfirmedTx T server.cfg.toIndexerConfig scripts blocks item := by
    rw [SummaryServer.addressesTxsSummary, SummaryServer.addressesTxsSummary,
      server.summaryPage_mempool _ hmempool, SummaryServer.summaryPage_none,
      Except.ok.injEq]
    exact h.summaryGroup_cursor_iff order order' last _
  refine ⟨hgroup, ?_⟩
  intro script hscript
  subst hscript
  rw [<- server.addressesTxsSummary_singleton, <- server.addressesTxsSummary_singleton]
  exact hgroup

namespace Sample

open NewIndex.Sample

def summaryServerOf (node : Node) : SummaryServer tree where
  toServer := serverOf node
  restDefaultMaxAddressSummaryTxs := 5000

theorem cursor_without_confirmed :
    exists node, Node.run mempoolConfig firstTurn = .ok node ∧
      (summaryServerOf node).addressTxsSummary .inserted 3 (some 103) none =
        (summaryServerOf node).addressTxsSummary .inserted 3 none none := by
  have heval : exists node, Node.run mempoolConfig firstTurn = .ok node ∧
      (node.mempool.mempool.lookupTxn 103).isSome = true := by
    decide +kernel
  rcases heval with ⟨node, hrun, hlookup⟩
  have hexact : Exact tree config node.store [genesis] :=
    (sessionInv_of_serve (Node.serve_of_run hrun) exactSession_firstTurn).inv.exact
  refine ⟨node, hrun, ((mempool_cursor_iff (summaryServerOf node) hexact .inserted .inserted
    [3] hlookup none).right 3 rfl).mpr (Or.inr ?_)⟩
  intro item hitem
  rcases hitem with ⟨be, idx, hbe, htx, _, htouches⟩
  rcases mem_chainEntries.mp hbe with ⟨i, b, hb, heq⟩
  have hmem := List.mem_of_getElem? htx
  rw [heq, blockEntryAt_block, List.mem_singleton.mp (List.mem_of_getElem? hb)] at hmem
  rw [List.mem_singleton.mp hmem] at htouches
  rcases htouches with ⟨txo, htxo, _, hscript⟩ | ⟨txi, htxi, hprevout, _⟩
  · rw [List.mem_singleton.mp htxo] at hscript
    have hother : config.computeScriptHash [1] ∉ [(3 : FullHash)] := by decide
    exact hother hscript
  · rw [List.mem_singleton.mp htxi] at hprevout
    cases hprevout

/-- A client that pages from the spending mempool transaction misses the confirmed one. -/
theorem confirmed_summary_missed :
    exists node, Node.run mempoolConfig firstTurn = .ok node ∧
      (node.mempool.mempool.history[(1 : FullHash)]?.getD []).map TxHistoryInfo.getTxid = [103] ∧
      (summaryServerOf node).addressTxsSummary .inserted 1 (some 103) none = .ok [] ∧
      (summaryServerOf node).addressTxsSummary .inserted 1 none none ≠ .ok [] := by
  have heval : exists node, Node.run mempoolConfig firstTurn = .ok node ∧
      (node.mempool.mempool.history[(1 : FullHash)]?.getD []).map TxHistoryInfo.getTxid = [103] ∧
      (exists page, (summaryServerOf node).addressTxsSummary .inserted 1 (some 103) none =
        .ok page ∧ page = []) ∧
      exists page, (summaryServerOf node).addressTxsSummary .inserted 1 none none = .ok page ∧
        page ≠ [] := by
    decide +kernel
  rcases heval with ⟨node, hrun, hhistory, ⟨_, hcursor, rfl⟩, page, hpage, hne⟩
  refine ⟨node, hrun, hhistory, hcursor, ?_⟩
  rw [hpage]
  exact fun heq => hne (Except.ok.inj heq)

end Sample

end Rest
end Splora
