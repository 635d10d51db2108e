import Splora.Mwck.Hub
import Splora.Rest.AddressTxs

/-!
# Blocks and transactions as the hub reads them

`block_at` turns the block at a height into JSON.  On an index of a chain whose inputs spend
earlier outputs it reads the blocks of the chain whole.
-/

namespace Splora

open Foundation NewIndex

namespace NewIndex
namespace ChainQuery

variable {T : BlockTree}

def hashByHeight (store : Store) (height : Nat) : Except Abort (Option BlockHash) := do
  let entry <- store.indexedHeaders.headerByHeight height
  return entry.map HeaderEntry.hash

def blockidByHash (store : Store) (hash : BlockHash) : Option BlockId :=
  (headerByHash store hash).map BlockId.ofEntry

/-- The difference wraps for an empty list of headers. -/
def bestHeight (store : Store) : Nat :=
  if store.indexedHeaders.headers.length = 0 then
    2 ^ 64 - 1
  else
    store.indexedHeaders.headers.length - 1

def getBlockTxs (reader : ChainReader T) (hash : BlockHash) :
    Except QueryError (Option (List Transaction)) :=
  match getBlockTxids reader.cfg reader.daemon reader.store hash with
  | none => .ok none
  | some txids =>
    (txids.mapM fun txid => OptionT.mk (lookupTxn reader txid (some hash))).run

end ChainQuery
end NewIndex

def Rest.Server.lookupTxn (server : Rest.Server T) (txid : Txid) :
    Except QueryError (Option Transaction) := do
  match <- ChainQuery.lookupTxn server.reader txid none with
  | some tx => return some tx
  | none => return server.mempool.lookupTxn txid

namespace Mwck

open Electrum

def txidText (txid : Txid) : Text :=
  Auth.hexEncode (hashBytes txid).reverse

def hexValue (c : Char) : Option Nat :=
  if '0' ≤ c && c ≤ '9' then
    some (c.toNat - '0'.toNat)
  else if 'a' ≤ c && c ≤ 'f' then
    some (c.toNat - 'a'.toNat + 10)
  else if 'A' ≤ c && c ≤ 'F' then
    some (c.toNat - 'A'.toNat + 10)
  else
    none

def hexDecode : Text -> Option Bytes
  | [] => some []
  | [_] => none
  | hi :: lo :: rest => do
      let hi <- hexValue hi
      let lo <- hexValue lo
      let bytes <- hexDecode rest
      return (16 * hi + lo).toUInt8 :: bytes

/-- `Txid::from_str`: the digits of thirty-two bytes, in reversed order. -/
def parseTxid (text : Text) : Option Txid := do
  let bytes <- hexDecode text
  let (txid, rest) <- readHash bytes.reverse
  if rest.isEmpty then some txid else none

structure TxFormat where
  toValue : Rest.TransactionValue -> Value
  full : forall value, isFullTxObject (toValue value) = true
  txid : forall value : Rest.TransactionValue,
    txidOf (toValue value) = some (txidText value.tx.txid)

def transactionsAsJson (fmt : TxFormat) (server : Rest.Server T)
    (txs : List (Transaction × Option BlockId)) : Except QueryError (List Value) := do
  let values <- server.prepareTxs txs
  return values.map fmt.toValue

def lookupBody (fmt : TxFormat) (server : Rest.Server T) (txid : Txid) :
    Except QueryError (Option Value) := do
  match <- server.lookupTxn txid with
  | some tx =>
    let txs <- transactionsAsJson fmt server [(tx, none)]
    return txs.head?
  | none => return none

/-- The main loop has looked the txid up before, so that a lookup which panics does so there. -/
def queryBody (fmt : TxFormat) (server : Rest.Server T) (text : Text) : Option Value := do
  let txid <- parseTxid text
  let found <- (lookupBody fmt server txid).toOption
  found

def blockAt (fmt : TxFormat) (server : Rest.Server T) (height : Nat) :
    Except QueryError (Option TipBlock) := do
  match <- (ChainQuery.hashByHeight server.store height).mapError .aborted with
  | none => return none
  | some hash =>
    match <- ChainQuery.getBlockTxs server.reader hash with
    | some txs =>
      let blockid := ChainQuery.blockidByHash server.store hash
      let txs <- transactionsAsJson fmt server (txs.map fun tx => (tx, blockid))
      return some { hash := hash, txs := txs }
    | none => return some { hash := hash, txs := [] }

/-!
## Txids as texts
-/

theorem hexValue_hexDigit {n : Nat} (h : n < 16) : hexValue (Auth.hexDigit n) = some n := by
  have hall : forall i : Fin 16, hexValue (Auth.hexDigit i.val) = some i.val := by decide
  exact hall ⟨n, h⟩

theorem hexDecode_hexEncode (bytes : Bytes) : hexDecode (Auth.hexEncode bytes) = some bytes := by
  induction bytes with
  | nil => rfl
  | cons b bytes ih =>
    have hb := b.toNat_lt
    have hhi := hexValue_hexDigit (n := b.toNat / 16) (by omega)
    have hlo := hexValue_hexDigit (n := b.toNat % 16) (by omega)
    have hbyte : (16 * (b.toNat / 16) + b.toNat % 16).toUInt8 = b := by
      rw [Nat.div_add_mod]
      exact UInt8.ofNat_toNat
    rw [Auth.hexEncode, List.flatMap_cons, List.cons_append, List.singleton_append,
      hexDecode, hhi, hlo]
    show (hexDecode (Auth.hexEncode bytes)).bind _ = _
    rw [ih]
    exact congrArg (fun b => some (b :: bytes)) hbyte

theorem parseTxid_txidText (txid : Txid) : parseTxid (txidText txid) = some txid := by
  have hread := readHash_append [] txid
  rw [List.append_nil] at hread
  rw [parseTxid, txidText, hexDecode_hexEncode, Option.bind_eq_bind, Option.bind_some,
    List.reverse_reverse, hread]
  rfl

theorem txidText_inj {txid txid' : Txid} (h : txidText txid = txidText txid') : txid = txid' := by
  have hparse := parseTxid_txidText txid
  rw [h, parseTxid_txidText] at hparse
  exact (Option.some.inj hparse).symm

/-!
## The blocks of a chain
-/

def blockJson (fmt : TxFormat) (b : Block) (height : Nat) : List Value :=
  b.txdata.map fun tx =>
    fmt.toValue { tx := tx, status := some (BlockId.ofEntry (b.entryAt height)) }

def tipBlocks (fmt : TxFormat) (blocks : List Block) : List TipBlock :=
  blocks.mapIdx fun height b => { hash := b.hash, txs := blockJson fmt b height }

structure ValidInputs (cfg : IndexerConfig) (blocks : List Block) : Prop where
  spends : SpendsEarlier cfg blocks
  inputs : forall tx, tx ∈ chainTxs blocks -> tx.isCoinbase = true ∨
    forall txi, txi ∈ tx.input -> hasPrevout txi = true

section BlockAt

variable {T : BlockTree} {fmt : TxFormat} {server : Rest.Server T} {blocks : List Block}
  {s : Set BlockEntry} {b : Block} {height : Nat}

theorem getElem?_tipBlocks (fmt : TxFormat) (blocks : List Block) (height : Nat) :
    (tipBlocks fmt blocks)[height]? =
      blocks[height]?.map fun b => { hash := b.hash, txs := blockJson fmt b height } :=
  List.getElem?_mapIdx

theorem length_tipBlocks (fmt : TxFormat) (blocks : List Block) :
    (tipBlocks fmt blocks).length = blocks.length :=
  List.length_mapIdx

theorem tipBlocks_ne_nil (fmt : TxFormat) (h : blocks ≠ []) : tipBlocks fmt blocks ≠ [] :=
  fun hnil => h (List.mapIdx_eq_nil_iff.mp hnil)

theorem hashByHeight_eq {store : Store} (h : store.indexedHeaders.Represents blocks) :
    ChainQuery.hashByHeight store height = .ok (blocks[height]?.map Block.hash) := by
  rw [ChainQuery.hashByHeight, h.headerByHeight_eq, ok_bind, Option.map_map]
  rfl

theorem bestHeight_eq {store : Store} (h : store.indexedHeaders.Represents blocks)
    (hne : blocks ≠ []) : ChainQuery.bestHeight store = blocks.length - 1 := by
  rw [ChainQuery.bestHeight, h.length_headers, if_neg]
  exact fun hlength => hne (List.length_eq_zero_iff.mp hlength)

theorem getBlockTxids_eq {reader : ChainReader T} (h : Inv T reader.cfg reader.store blocks s)
    (hb : blocks[height]? = some b) :
    ChainQuery.getBlockTxids reader.cfg reader.daemon reader.store b.hash =
      some (b.txdata.map Transaction.txid) := by
  cases hlight : reader.cfg.lightMode with
  | true =>
    have hblock : reader.daemon.getblock b.hash = .ok b :=
      Daemon.getblock_eq h.valid.toIsChain (List.mem_of_getElem? hb)
    rw [ChainQuery.getBlockTxids, if_pos hlight, hblock]
    rfl
  | false =>
    have hentry : blockEntryAt b height ∈ entrySet blocks :=
      mem_chainEntries.mpr ⟨height, b, hb, rfl⟩
    have hrow : reader.store.disk.txstore[TxstoreKey.txids b.hash]? =
        some (.txids (b.txdata.map Transaction.txid)) :=
      h.txstore.getElem? (by simp [IsStoreKey]) hentry (.txids hlight)
    have hfull : ¬ reader.cfg.lightMode = true := by simp [hlight]
    rw [ChainQuery.getBlockTxids, if_neg hfull, hrow]

theorem getBlockTxs_eq (h : Inv T server.cfg.toIndexerConfig server.store blocks s)
    (hdecodes : Decodes server.reader blocks) (hb : blocks[height]? = some b) :
    ChainQuery.getBlockTxs server.reader b.hash = .ok (some b.txdata) := by
  have hlookup : forall txs : List Transaction, (forall tx, tx ∈ txs -> tx ∈ b.txdata) ->
      ((txs.map Transaction.txid).mapM fun txid =>
        OptionT.mk (ChainQuery.lookupTxn server.reader txid (some b.hash))).run =
          .ok (some txs) := by
    intro txs hsub
    induction txs with
    | nil => rfl
    | cons tx txs ih =>
      have hfound := lookupTxn_of_mem h.txstore h.valid hdecodes
        (List.mem_of_getElem? hb) (hsub tx List.mem_cons_self)
      have hrest := ih fun tx' htx' => hsub tx' (List.mem_cons_of_mem _ htx')
      rw [List.map_cons, List.mapM_cons, OptionT.run_bind, OptionT.run_mk, hfound]
      show ((txs.map Transaction.txid).mapM (fun txid => OptionT.mk
        (ChainQuery.lookupTxn server.reader txid (some b.hash))) >>= fun found =>
          pure (tx :: found)).run = _
      rw [OptionT.run_bind, hrest]
      rfl
  have htxids : ChainQuery.getBlockTxids server.reader.cfg server.reader.daemon
      server.reader.store b.hash = some (b.txdata.map Transaction.txid) :=
    getBlockTxids_eq h hb
  unfold ChainQuery.getBlockTxs
  rw [htxids]
  exact hlookup b.txdata fun _ htx => htx

variable {tx : Transaction}

theorem prevoutsAvailable_of_mem (h : Inv T server.cfg.toIndexerConfig server.store blocks s)
    (hinputs : ValidInputs server.cfg.toIndexerConfig blocks)
    (hb : blocks[height]? = some b) (htx : tx ∈ b.txdata) :
    Rest.PrevoutsAvailable server tx := by
  have hentry : blockEntryAt b height ∈ entrySet blocks :=
    mem_chainEntries.mpr ⟨height, b, hb, rfl⟩
  have hresolves : Resolves server.store.disk.txstore [blockEntryAt b height] :=
    resolves_of_materializes h.txstore hinputs.spends
      (fun be hbe => List.mem_singleton.mp hbe ▸ hentry)
  refine ⟨?_, ?_⟩
  · intro txi htxi hprevout
    rcases hresolves _ (List.mem_singleton_self _) tx htx txi htxi hprevout with ⟨txo, htxo⟩
    refine ⟨txo, ?_⟩
    rw [Mempool.available, htxo]
    rfl
  · exact hinputs.inputs tx (List.mem_flatMap.mpr ⟨b, List.mem_of_getElem? hb, htx⟩)

theorem blockAt_eq (h : Inv T server.cfg.toIndexerConfig server.store blocks s)
    (hdecodes : Decodes server.reader blocks)
    (hinputs : ValidInputs server.cfg.toIndexerConfig blocks) (fmt : TxFormat)
    (height : Nat) : blockAt fmt server height = .ok (tipBlocks fmt blocks)[height]? := by
  rw [getElem?_tipBlocks]
  unfold blockAt
  rw [hashByHeight_eq h.headers]
  cases hb : blocks[height]? with
  | none => rfl
  | some b =>
    have hblockid : ChainQuery.blockidByHash server.store b.hash =
        some (BlockId.ofEntry (b.entryAt height)) :=
      congrArg (Option.map BlockId.ofEntry) (h.headers.headerByBlockhash_of_getElem? hb)
    have havailable : forall tx, tx ∈ (b.txdata.map fun tx =>
        (tx, some (BlockId.ofEntry (b.entryAt height)))) -> Rest.PrevoutsAvailable server tx.1 := by
      intro tx htx
      rcases List.mem_map.mp htx with ⟨tx', htx', heq⟩
      rw [<- heq]
      exact prevoutsAvailable_of_mem h hinputs hb htx'
    refine bind_eq_ok.mpr ⟨_, rfl, ?_⟩
    refine bind_eq_ok.mpr ⟨_, getBlockTxs_eq h hdecodes hb, ?_⟩
    refine bind_eq_ok.mpr ⟨blockJson fmt b height, ?_, rfl⟩
    rw [hblockid, transactionsAsJson, Rest.prepareTxs_eq havailable, ok_bind,
      List.map_map, List.map_map]
    rfl

/-!
## Transactions by txid
-/

theorem chain_lookupTxn_of_mem (h : Inv T server.cfg.toIndexerConfig server.store blocks s)
    (hdecodes : Decodes server.reader blocks) (hb : blocks[height]? = some b)
    (htx : tx ∈ b.txdata) :
    ChainQuery.lookupTxn server.reader tx.txid none = .ok (some tx) := by
  have hconfirming : ChainQuery.txConfirmingBlock server.store tx.txid =
      some (BlockId.ofEntry (b.entryAt height)) :=
    (ChainQuery.txConfirmingBlock_eq_some h.headers h.valid
      (confirmsBestChain_of_materializes h.txstore h.valid)).mpr
        ⟨blockEntryAt b height, mem_chainEntries.mpr ⟨height, b, hb, rfl⟩,
          List.mem_map_of_mem htx, rfl⟩
  have hraw : ChainQuery.lookupRawTxn server.reader.cfg server.reader.daemon
      server.reader.store tx.txid none =
        ChainQuery.lookupRawTxn server.reader.cfg server.reader.daemon
          server.reader.store tx.txid (some b.hash) := by
    unfold ChainQuery.lookupRawTxn
    show (if _ then (none.or ((ChainQuery.txConfirmingBlock server.store tx.txid).map
      BlockId.hash)) >>= _ else _) = _
    rw [hconfirming]
    rfl
  have hfound := lookupTxn_of_mem h.txstore h.valid hdecodes (List.mem_of_getElem? hb) htx
  unfold ChainQuery.lookupTxn at hfound ⊢
  rw [hraw]
  exact hfound

theorem lookupBody_of_mem (h : Inv T server.cfg.toIndexerConfig server.store blocks s)
    (hdecodes : Decodes server.reader blocks)
    (hinputs : ValidInputs server.cfg.toIndexerConfig blocks) (fmt : TxFormat)
    (hb : blocks[height]? = some b) (htx : tx ∈ b.txdata) :
    lookupBody fmt server tx.txid = .ok (some (fmt.toValue { tx := tx, status := none })) := by
  have hlookup : server.lookupTxn tx.txid = .ok (some tx) := by
    rw [Rest.Server.lookupTxn, chain_lookupTxn_of_mem h hdecodes hb htx]
    rfl
  have havailable : forall tx', tx' ∈ [((tx, none) : Transaction × Option BlockId)] ->
      Rest.PrevoutsAvailable server tx'.1 := by
    intro tx' htx'
    rw [List.mem_singleton.mp htx']
    exact prevoutsAvailable_of_mem h hinputs hb htx
  rw [lookupBody, hlookup, ok_bind]
  dsimp only
  rw [transactionsAsJson, Rest.prepareTxs_eq havailable]
  rfl

theorem txid_of_lookupTxn {txid : Txid} (hmempool : forall (txid : Txid) (tx : Transaction),
      server.mempool.txstore[txid]? = some tx -> tx.txid = txid)
    (h : server.lookupTxn txid = .ok (some tx)) : tx.txid = txid := by
  rcases bind_eq_ok.mp h with ⟨found, hchain, hrest⟩
  cases found with
  | none => exact hmempool txid tx (pure_eq_ok.mp hrest)
  | some tx' =>
    cases pure_eq_ok.mp hrest
    unfold ChainQuery.lookupTxn at hchain
    split at hchain
    · cases hchain
    · rcases bind_eq_ok.mp hchain with ⟨tx'', _, hrest⟩
      rcases bind_eq_ok.mp hrest with ⟨_, hensure, hpure⟩
      cases pure_eq_ok.mp hpure
      exact (ensure_eq_ok.mp hensure).symm

theorem tx_of_new {blockid : Option BlockId} {txos : TxoMap} {value : Rest.TransactionValue}
    (h : Rest.TransactionValue.new tx blockid txos = some value) : value.tx = tx := by
  rcases Option.bind_eq_some_iff.mp h with ⟨prevouts, _, hvalue⟩
  rcases Option.ite_none_right_eq_some.mp hvalue with ⟨_, heq⟩
  cases heq
  rfl

theorem txidOf_lookupBody {txid : Txid} {v : Value}
    (hmempool : forall (txid : Txid) (tx : Transaction),
      server.mempool.txstore[txid]? = some tx -> tx.txid = txid)
    (h : lookupBody fmt server txid = .ok (some v)) :
    txidOf v = some (txidText txid) := by
  rcases bind_eq_ok.mp h with ⟨found, hlookup, hrest⟩
  cases found with
  | none => cases pure_eq_ok.mp hrest
  | some tx =>
    rcases bind_eq_ok.mp hrest with ⟨txs, hjson, hhead⟩
    have htxid := txid_of_lookupTxn hmempool hlookup
    rcases bind_eq_ok.mp hjson with ⟨values, hprepare, hpure⟩
    rcases bind_eq_ok.mp hprepare with ⟨prevouts, _, hvalues⟩
    have hmem : v ∈ txs := List.mem_of_mem_head? (pure_eq_ok.mp hhead)
    rw [<- pure_eq_ok.mp hpure] at hmem
    rcases List.mem_map.mp hmem with ⟨value, hvalue, heq⟩
    rw [<- pure_eq_ok.mp hvalues] at hvalue
    rcases List.mem_filterMap.mp hvalue with ⟨item, hitem, hnew⟩
    rw [List.mem_singleton.mp hitem] at hnew
    have htx : value.tx = tx := tx_of_new hnew
    rw [<- heq, fmt.txid, htx, htxid]

end BlockAt

end Mwck
end Splora
