import Splora.NewIndex.CombinedUtxo
import Splora.NewIndex.HistoryPages

/-!
# The history of a script

`get_history` of `src/electrum/server.rs` asks for one transaction more than the limit, and the
mempool for what the confirmed history leaves of it.
-/

namespace Splora
namespace Electrum

open Foundation NewIndex

section Confirmed

variable {T : BlockTree} {cfg : IndexerConfig} {store : Store} {blocks : List Block}
  {scripthash : FullHash} {item item' : Transaction × BlockId × UInt16}

def Precedes (T : BlockTree) (cfg : IndexerConfig) (blocks : List Block)
    (scripthash : FullHash) (txid txid' : Txid) : Prop :=
  exists item item', ConfirmedTx T cfg [scripthash] blocks item ∧
    ConfirmedTx T cfg [scripthash] blocks item' ∧ item.1.txid = txid ∧
    item'.1.txid = txid' ∧ Above item'.2 item.2

theorem Precedes.irrefl (h : Exact T cfg store blocks) (txid : Txid) :
    ¬ Precedes T cfg blocks scripthash txid txid := by
  intro hprecedes
  rcases hprecedes with ⟨item, item', hitem, hitem', heq, heq', habove⟩
  rw [h.confirmedTx_unique hitem hitem' (heq.trans heq'.symm)] at habove
  exact Above.irrefl _ habove

theorem Precedes.trans (h : Exact T cfg store blocks) {a b c : Txid}
    (hab : Precedes T cfg blocks scripthash a b)
    (hbc : Precedes T cfg blocks scripthash b c) :
    Precedes T cfg blocks scripthash a c := by
  rcases hab with ⟨item, mid, hitem, hmid, ha, hb, habove⟩
  rcases hbc with ⟨mid', item', hmid', hitem', hb', hc, habove'⟩
  rw [<- h.confirmedTx_unique hmid hmid' (hb.trans hb'.symm)] at habove'
  exact ⟨item, item', hitem, hitem', ha, hc, habove'.trans habove⟩

end Confirmed

namespace Sample

open NewIndex.Sample

end Sample

end Electrum
end Splora
