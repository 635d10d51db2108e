import Splora.NewIndex.Completeness
import Splora.NewIndex.Query

/-!
# Raw blocks

`ChainQuery::get_block_raw`.  A raw transaction is stored under its txid, which does not commit
to the witnesses; after every run the row is the one of the best chain.
-/

namespace Splora
namespace NewIndex

open Foundation

/-!
## Consensus encodings
-/

def headerBytes (header : BlockHeader) : Bytes :=
  littleEndian 4 header.version.toBitVec.toNat ++
    (hashBytes header.prevBlockhash ++ (hashBytes header.merkleRoot ++
      (u32Little header.time ++ (u32Little header.bits ++ u32Little header.nonce))))

def varInt (n : UInt64) : Bytes :=
  if n ≤ 0xfc then
    [n.toUInt8]
  else if n ≤ 0xffff then
    0xfd :: littleEndian 2 n.toNat
  else if n ≤ 0xffffffff then
    0xfe :: littleEndian 4 n.toNat
  else
    0xff :: littleEndian 8 n.toNat

def readField (width least : Nat) (bytes : Bytes) : Option (Nat × Bytes) :=
  let n := readLittleEndian (bytes.take width)
  if width ≤ bytes.length ∧ least ≤ n then some (n, bytes.drop width) else none

def readCompactSize : Bytes -> Option (Nat × Bytes)
  | [] => none
  | byte :: rest =>
    if byte < 0xfd then
      some (byte.toNat, rest)
    else if byte = 0xfd then
      readField 2 0xfd rest
    else if byte = 0xfe then
      readField 4 0x10000 rest
    else
      readField 8 0x100000000 rest

theorem readField_littleEndian {width least n : Nat} (hlt : n < 256 ^ width)
    (hle : least ≤ n) (rest : Bytes) :
    readField width least (littleEndian width n ++ rest) = some (n, rest) := by
  have htake : (littleEndian width n ++ rest).take width =
      littleEndian width n := by
    rw [List.take_append_of_le_length (by simp), List.take_of_length_le (by simp)]
  have hdrop : (littleEndian width n ++ rest).drop width = rest := by
    rw [List.drop_append_of_le_length (by simp), List.drop_of_length_le (by simp), List.nil_append]
  unfold readField
  rw [htake, hdrop, readLittleEndian_littleEndian hlt, if_pos]
  exact ⟨by simp, hle⟩

theorem varInt_eq (n : UInt64) :
    varInt n =
      if n.toNat ≤ 0xfc then [n.toUInt8]
      else if n.toNat ≤ 0xffff then 0xfd :: littleEndian 2 n.toNat
      else if n.toNat ≤ 0xffffffff then 0xfe :: littleEndian 4 n.toNat
      else 0xff :: littleEndian 8 n.toNat := by
  simp only [varInt, UInt64.le_iff_toNat_le]
  rfl

theorem readCompactSize_varInt (n : UInt64) (rest : Bytes) :
    readCompactSize (varInt n ++ rest) = some (n.toNat, rest) := by
  have hlt := n.toNat_lt
  rw [varInt_eq]
  split
  case isTrue hle =>
    have hbyte : n.toUInt8.toNat = n.toNat := by
      rw [UInt64.toNat_toUInt8]
      omega
    have hsmall : n.toUInt8 < 0xfd := by
      rw [UInt8.lt_iff_toNat_lt, hbyte]
      exact Nat.lt_succ_of_le hle
    rw [List.singleton_append, readCompactSize, if_pos hsmall, hbyte]
  case isFalse hgt =>
    split
    case isTrue hle =>
      rw [List.cons_append, readCompactSize, if_neg (by decide), if_pos rfl]
      exact readField_littleEndian (by omega) (by omega) rest
    case isFalse hgt2 =>
      split
      case isTrue hle =>
        rw [List.cons_append, readCompactSize, if_neg (by decide), if_neg (by decide), if_pos rfl]
        exact readField_littleEndian (by omega) (by omega) rest
      case isFalse hgt4 =>
        rw [List.cons_append, readCompactSize, if_neg (by decide),
          if_neg (by decide), if_neg (by decide)]
        exact readField_littleEndian (by omega) (by omega) rest

def IsBlockEncoding (b : Block) (bytes : Bytes) : Prop :=
  exists count, bytes = headerBytes b.header ++ count ++ (b.txdata.map Transaction.raw).flatten ∧
    forall rest, readCompactSize (count ++ rest) = some (b.txdata.length, rest)

def blockBytes (b : Block) : Bytes :=
  headerBytes b.header ++ varInt b.txdata.length.toUInt64 ++ (b.txdata.map Transaction.raw).flatten

theorem isBlockEncoding_blockBytes (b : Block) : IsBlockEncoding b (blockBytes b) := by
  refine ⟨_, rfl, fun rest => ?_⟩
  have hlength : b.txdata.length.toUInt64.toNat = b.txdata.length := by
    have hlt := b.txdata_lt
    simp only [Nat.toUInt64, UInt64.toNat_ofNat']
    exact Nat.mod_eq_of_lt (by omega)
  rw [readCompactSize_varInt, hlength]

/-!
## Queries
-/

namespace ChainQuery

variable {T : BlockTree}

def headerByHash (store : Store) (hash : BlockHash) : Option HeaderEntry :=
  store.indexedHeaders.headerByBlockhash hash

def getBlockTxids (cfg : IndexerConfig) (daemon : Daemon T) (store : Store)
    (hash : BlockHash) : Option (List Txid) :=
  if cfg.lightMode then
    (daemon.getblock hash).toOption.map fun b => b.txdata.map Transaction.txid
  else
    match store.disk.txstore[TxstoreKey.txids hash]? with
    | some (.txids txids) => some txids
    | _ => none

def getBlockMeta (cfg : IndexerConfig) (daemon : Daemon T) (store : Store)
    (hash : BlockHash) : Option BlockMeta :=
  if cfg.lightMode then
    (daemon.getblock hash).toOption.map fun b =>
      { txCount := b.txdata.length.toUInt32, size := b.size, weight := b.weight }
  else
    match store.disk.txstore[TxstoreKey.blockMeta hash]? with
    | some (.blockMeta info) => some info
    | _ => none

def lookupRawTxn (cfg : IndexerConfig) (daemon : Daemon T) (store : Store)
    (txid : Txid) (blockhash : Option BlockHash) : Option Bytes :=
  if cfg.lightMode then do
    let hash <- blockhash.or ((txConfirmingBlock store txid).map BlockId.hash)
    let b <- (daemon.getblock hash).toOption
    let tx <- b.txdata.find? fun tx => tx.txid = txid
    return tx.raw
  else
    match store.disk.txstore[TxstoreKey.tx txid]? with
    | some (.rawTx raw) => some raw
    | _ => none

def getBlockRaw (cfg : IndexerConfig) (daemon : Daemon T) (store : Store)
    (hash : BlockHash) : Option Bytes :=
  if cfg.lightMode then
    (daemon.getblock hash).toOption.map blockBytes
  else do
    let entry <- headerByHash store hash
    let _ <- getBlockMeta cfg daemon store hash
    let txids <- getBlockTxids cfg daemon store hash
    let txs <- txids.mapM fun txid => lookupRawTxn cfg daemon store txid none
    return headerBytes entry.header ++ varInt txids.length.toUInt64 ++ txs.flatten

end ChainQuery

section Raw

variable {T : BlockTree} {cfg : IndexerConfig} {store : Store}
  {c : List Block} {s : Set BlockEntry}

open ChainQuery

theorem Inv.lookupRawTxn_eq (h : Inv T cfg store c s)
    (hfull : cfg.lightMode = false) (daemon : Daemon T) {b : Block}
    (hb : b ∈ c) {tx : Transaction} (htx : tx ∈ b.txdata) :
    lookupRawTxn cfg daemon store tx.txid none = some tx.raw := by
  rcases List.getElem?_of_mem hb with ⟨i, hi⟩
  have hentry : blockEntryAt b i ∈ entrySet c :=
    mem_chainEntries.mpr ⟨i, b, hi, rfl⟩
  have hrow : store.disk.txstore[TxstoreKey.tx tx.txid]? = some (.rawTx tx.raw) :=
    h.txstore.getElem? (by simp [IsStoreKey]) hentry (.tx hfull htx)
  simp [lookupRawTxn, hfull, hrow]

theorem mapM_raw {f : Txid -> Option Bytes} {txs : List Transaction}
    (hf : forall tx, tx ∈ txs -> f tx.txid = some tx.raw) :
    (txs.map Transaction.txid).mapM f = some (txs.map Transaction.raw) := by
  induction txs with
  | nil => rfl
  | cons tx rest ih =>
    have hrest := ih fun tx' htx' => hf tx' (List.mem_cons_of_mem _ htx')
    rw [List.map_cons, List.mapM_cons, hf tx List.mem_cons_self, hrest]
    rfl

theorem Inv.getBlockRaw_eq (h : Inv T cfg store c s)
    (hfull : cfg.lightMode = false) (daemon : Daemon T) {b : Block}
    (hb : b ∈ c) : getBlockRaw cfg daemon store b.hash = some (blockBytes b) := by
  rcases List.getElem?_of_mem hb with ⟨i, hi⟩
  have hentry : blockEntryAt b i ∈ entrySet c :=
    mem_chainEntries.mpr ⟨i, b, hi, rfl⟩
  have hheader : headerByHash store b.hash = some (b.entryAt i) :=
    h.headers.headerByBlockhash_of_getElem? hi
  have hmeta : store.disk.txstore[TxstoreKey.blockMeta b.hash]? =
      some (.blockMeta (BlockMeta.ofEntry (blockEntryAt b i))) :=
    h.txstore.getElem? (by simp [IsStoreKey]) hentry (.blockMeta hfull)
  have htxids : store.disk.txstore[TxstoreKey.txids b.hash]? =
      some (.txids (b.txdata.map Transaction.txid)) :=
    h.txstore.getElem? (by simp [IsStoreKey]) hentry (.txids hfull)
  have hraws : (b.txdata.map Transaction.txid).mapM (fun txid =>
      lookupRawTxn cfg daemon store txid none) = some (b.txdata.map Transaction.raw) := by
    apply mapM_raw
    intro tx htx
    exact h.lookupRawTxn_eq hfull daemon hb htx
  have hlight : ¬ (cfg.lightMode = true) := by simp [hfull]
  unfold getBlockRaw
  rw [if_neg hlight, hheader, getBlockMeta, if_neg hlight, hmeta,
    getBlockTxids, if_neg hlight, htxids]
  change ((b.txdata.map Transaction.txid).mapM (fun txid =>
    lookupRawTxn cfg daemon store txid none) >>= fun txs => _) = _
  rw [hraws, List.length_map]
  rfl

end Raw

/--
After every run the raw block of every block of the best chain is its consensus
encoding.
-/
theorem rawBlock_encodes {T : BlockTree} {cfg : IndexerConfig}
    {events : List (Event T)} {store : Store}
    (hrun : run cfg events = .ok store) (daemon : Daemon T) {b : Block}
    (hb : b ∈ lastBest events) :
    exists raw, ChainQuery.getBlockRaw cfg daemon store b.hash = some raw ∧
      IsBlockEncoding b raw := by
  rcases exists_inv hrun with ⟨s, hinv⟩
  refine ⟨blockBytes b, ?_, isBlockEncoding_blockBytes b⟩
  cases hlight : cfg.lightMode with
  | false => exact hinv.getBlockRaw_eq hlight daemon hb
  | true =>
    have hblock : daemon.getblock b.hash = .ok b :=
      Daemon.getblock_eq hinv.valid.toIsChain hb
    unfold ChainQuery.getBlockRaw
    rw [if_pos hlight, hblock]
    rfl

namespace Sample

def witnessed (raw : Bytes) : Transaction :=
  { payment 103 101 [3] with raw := raw }

def blockE : Block where
  header := header 7 1
  txdata := [coinbase 110 [1], witnessed [1, 1]]
  size := 300
  weight := 1200

def blockF : Block where
  header := header 8 1
  txdata := [coinbase 111 [1], witnessed [2, 2, 2]]
  size := 300
  weight := 1200

def witnessTree : BlockTree :=
  BlockTree.ofList [genesis, blockE, blockF] (by decide) (by decide)

def daemonE : Daemon witnessTree :=
  daemonOf genesis [blockE] ⟨⟨by decide, by decide⟩, by decide, by decide⟩

def daemonF : Daemon witnessTree :=
  daemonOf genesis [blockF] ⟨⟨by decide, by decide⟩, by decide, by decide⟩

theorem rawBlock_after_reorg :
    exists store raw, run config [.update .bitcoind daemonE,
        .update .bitcoind daemonF] = .ok store ∧
      ChainQuery.getBlockRaw config daemonF store 8 = some raw ∧
      IsBlockEncoding blockF raw ∧ raw.drop 80 = [2, 2, 2, 2] := by
  have heval : exists store, run config [.update .bitcoind daemonE,
      .update .bitcoind daemonF] = .ok store ∧
      (ChainQuery.getBlockRaw config daemonF store 8).map (List.drop 80) = some [2, 2, 2, 2] := by
    decide +kernel
  rcases heval with ⟨store, hrun, hdrop⟩
  have hbest : blockF ∈ lastBest [.update .bitcoind daemonE, .update .bitcoind daemonF] := by
    decide
  rcases rawBlock_encodes hrun daemonF hbest with ⟨raw, hraw, hencodes⟩
  have hraw' : ChainQuery.getBlockRaw config daemonF store 8 = some raw := hraw
  rw [hraw'] at hdrop
  exact ⟨store, raw, hrun, hraw', hencodes, Option.some.inj hdrop⟩

end Sample

end NewIndex
end Splora
