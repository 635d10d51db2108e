import Splora.Util.ElectrumMerkle

/-!
# Block pages and cache lifetimes

`/blocks` of `src/rest.rs` walks to the parents, and the client computes the next page from the
lowest height it shows (`blocks_older_href`).  `ttl_by_depth` subtracts a height read before
from the best height; after an update to a shorter chain the difference wraps.
-/

namespace Splora

open Foundation NewIndex
open ElectrumMerkle (number)

namespace Rest

structure BlockValue where
  id : BlockHash
  height : UInt32

def BlockValue.new (headerEntry : HeaderEntry) : BlockValue where
  id := headerEntry.header.hash
  height := headerEntry.height.toUInt32

variable {T : BlockTree}

def getBlockWithMeta (reader : ChainReader T) (hash : BlockHash) : Option HeaderEntry := do
  let headerEntry <- ChainQuery.headerByHash reader.store hash
  let _ <- ChainQuery.getBlockMeta reader.cfg reader.daemon reader.store hash
  return headerEntry

inductive BlocksError where
  | notFound (message : Text)
  | abort (e : Abort)

def blockNotFound : BlocksError :=
  .notFound "Block not found".toList

def blocksFrom (reader : ChainReader T) :
    Nat -> BlockHash -> Except BlocksError (List BlockValue)
  | 0, _ => return []
  | turns + 1, currentHash => do
      let entry <- expect (getBlockWithMeta reader currentHash) blockNotFound
      if entry.header.prevBlockhash = nullHash then
        return [BlockValue.new entry]
      else do
        let rest <- blocksFrom reader turns entry.header.prevBlockhash
        return BlockValue.new entry :: rest

def startHash (reader : ChainReader T) (startHeight : Option Nat) :
    Except BlocksError BlockHash :=
  match startHeight with
  | some height => do
      let found <- (ChainQuery.hashByHeight reader.store height).mapError .abort
      expect found blockNotFound
  | none => reader.store.indexedHeaders.getTip.mapError .abort

def blocks (reader : ChainReader T) (restDefaultBlockLimit : Nat)
    (startHeight : Option Nat) : Except BlocksError (List BlockValue) := do
  let currentHash <- startHash reader startHeight
  blocksFrom reader restDefaultBlockLimit currentHash

/-- `str::parse` of `u64` and of `usize`. -/
def parseUnsigned (text : Text) : Option Nat :=
  let digits := if text.head? = some '+' then text.tail else text
  if digits ≠ [] ∧ digits.all Char.isDigit = true ∧ Nat.ofDigitChars 10 digits 0 < 2 ^ 64
  then some (Nat.ofDigitChars 10 digits 0)
  else none

def hrefStart : Text :=
  "/blocks?start_height=".toList

def blocksOlderHref (page : List BlockValue) : Option Text := do
  let lowest <- (page.map fun value => value.height.toNat).min?
  if lowest = 0 then
    none
  else
    some (hrefStart ++ number (lowest - 1))

def pagePath (href : Text) : Text :=
  match parseUnsigned (href.drop hrefStart.length) with
  | some height => "/blocks/".toList ++ number height
  | none => "/blocks".toList

def pathStartHeight (path : Text) : Option Nat :=
  parseUnsigned (path.drop "/blocks/".length)

inductive Visits (reader : ChainReader T) (limit : Nat) :
    Option Nat -> List (List BlockValue) -> Prop where
  | last {start : Option Nat} {page : List BlockValue} :
      blocks reader limit start = .ok page ->
      blocksOlderHref page = none ->
      Visits reader limit start [page]
  | older {start : Option Nat} {page : List BlockValue} {href : Text}
      {rest : List (List BlockValue)} :
      blocks reader limit start = .ok page ->
      blocksOlderHref page = some href ->
      Visits reader limit (pathStartHeight (pagePath href)) rest ->
      Visits reader limit start (page :: rest)

/-!
## Links
-/

theorem number_eq (n : Nat) : number n = Nat.toDigits 10 n := by
  simp [number]

theorem parseUnsigned_number {n : Nat} (h : n < 2 ^ 64) : parseUnsigned (number n) = some n := by
  have hdigit : forall c, c ∈ Nat.toDigits 10 n -> c.isDigit = true :=
    fun c hc => Nat.isDigit_of_mem_toDigits (by decide) (by decide) hc
  have hplus : (Nat.toDigits 10 n).head? ≠ some '+' := by
    intro hhead
    have hbad := hdigit '+' (List.mem_of_mem_head? hhead)
    exact absurd hbad (by decide)
  have hvalue : Nat.ofDigitChars 10 (Nat.toDigits 10 n) 0 = n :=
    Nat.ofDigitChars_ten_toDigits
  unfold parseUnsigned
  rw [number_eq, if_neg hplus]
  dsimp only
  rw [hvalue, if_pos]
  exact ⟨Nat.toDigits_ne_nil, List.all_eq_true.mpr hdigit, h⟩

theorem pathStartHeight_pagePath {n : Nat} (h : n < 2 ^ 64) :
    pathStartHeight (pagePath (hrefStart ++ number n)) = some n := by
  have hpath : pagePath (hrefStart ++ number n) = "/blocks/".toList ++ number n := by
    rw [pagePath, List.drop_left, parseUnsigned_number h]
  rw [hpath]
  exact parseUnsigned_number h

/-!
## Pages of the best chain
-/

def places (q : List Block) : List (BlockHash × Nat) :=
  q.mapIdx fun height b => (b.hash, height)

def BlockValue.place (value : BlockValue) : BlockHash × Nat :=
  (value.id, value.height.toNat)

theorem places_concat (q : List Block) (b : Block) :
    (places (q ++ [b])).reverse = (b.hash, q.length) :: (places q).reverse := by
  simp [places, List.mapIdx_append]

theorem places_take (q : List Block) (n : Nat) : places (q.take n) = (places q).take n := by
  apply List.ext_getElem (by simp [places])
  intro i _ _
  simp [places]

theorem length_places (q : List Block) : (places q).length = q.length := by
  simp [places]

section Pages

variable {reader : ChainReader T} {best q : List Block} {s : Set BlockEntry} {b : Block}
  {height limit : Nat}

theorem getBlockWithMeta_eq (h : Inv T reader.cfg reader.store best s)
    (hb : best[height]? = some b) :
    getBlockWithMeta reader b.hash = some (b.entryAt height) := by
  have hinfo : (ChainQuery.getBlockMeta reader.cfg reader.daemon reader.store
      b.hash).isSome = true := by
    unfold ChainQuery.getBlockMeta
    split
    · rw [Daemon.getblock_eq h.valid.toIsChain (List.mem_of_getElem? hb)]
      rfl
    · rename_i hfull
      have hrow := h.txstore.getElem? (by simp [IsStoreKey])
        (mem_chainEntries.mpr ⟨height, b, hb, rfl⟩)
        (.blockMeta (Bool.eq_false_iff.mpr hfull))
      change reader.store.disk.txstore[TxstoreKey.blockMeta b.hash]? = _ at hrow
      rw [hrow]
      rfl
  rcases Option.isSome_iff_exists.mp hinfo with ⟨info, hinfo⟩
  simp [getBlockWithMeta, ChainQuery.headerByHash, hinfo,
    h.headers.headerByBlockhash_of_getElem? hb]

theorem exists_blocksFrom (h : Inv T reader.cfg reader.store best s) (hq : q <+: best)
    (hne : q ≠ []) : forall turns, exists page, blocksFrom reader turns (tipHash q) = .ok page ∧
        page.map BlockValue.place = (places q).reverse.take turns := by
  intro turns
  induction turns generalizing q with
  | zero => exact ⟨[], rfl, rfl⟩
  | succ turns ih =>
    rcases List.eq_nil_or_concat' q with rfl | ⟨q, b, rfl⟩
    · exact absurd rfl hne
    have hb : best[q.length]? = some b := by
      rcases hq with ⟨rest, rfl⟩
      simp
    have hlt : q.length < 4294967296 :=
      lt_trans (List.getElem?_eq_some_iff.mp hb).1 h.valid.length_lt
    have hplace : (BlockValue.new (b.entryAt q.length)).place = (b.hash, q.length) := by
      simp [BlockValue.place, BlockValue.new, Block.entryAt, Block.hash, Nat.mod_eq_of_lt hlt]
    have hchain : IsChain T (q ++ [b]) := by
      rcases hq with ⟨rest, rfl⟩
      exact h.valid.toIsChain.left
    have hprev : (b.entryAt q.length).header.prevBlockhash = tipHash q :=
      hchain.prev_eq_tipHash
    unfold blocksFrom
    rw [tipHash_append_singleton, getBlockWithMeta_eq h hb, places_concat,
      List.take_succ_cons, expect, ok_bind, hprev]
    by_cases hnil : q = []
    · refine ⟨_, if_pos (by rw [hnil]; rfl), ?_⟩
      rw [List.map_singleton, hplace, hnil]
      simp [places]
    · rcases ih ((List.prefix_append q [b]).trans hq) hnil with ⟨rest, hrest, hplaces⟩
      refine ⟨BlockValue.new (b.entryAt q.length) :: rest, ?_, ?_⟩
      · rw [if_neg (hchain.left.tipHash_ne_null hnil), hrest]
        rfl
      · rw [List.map_cons, hplace, hplaces]

theorem heights_of_places {page : List BlockValue} {turns : Nat}
    (h : page.map BlockValue.place = (places q).reverse.take turns) :
    page.map (fun value => value.height.toNat) = (List.range q.length).reverse.take turns := by
  have hsnd := congrArg (List.map Prod.snd) h
  rw [List.map_map, List.map_take, List.map_reverse] at hsnd
  have hrange : (places q).map Prod.snd = List.range q.length := by
    apply List.ext_getElem (by simp [places])
    intro i _ _
    simp [places]
  rw [hrange] at hsnd
  exact hsnd

theorem blocksOlderHref_eq {page : List BlockValue} (hne : q ≠ []) (hlimit : 1 ≤ limit)
    (h : page.map BlockValue.place = (places q).reverse.take limit) :
    blocksOlderHref page =
      if q.length ≤ limit then none
      else some (hrefStart ++ number (q.length - limit - 1)) := by
  have hpos : 0 < q.length := List.length_pos_iff.mpr hne
  have hmin : ((List.range q.length).reverse.take limit).min? = some (q.length - limit) := by
    rw [List.min?_eq_some_iff]
    simp only [List.take_reverse, List.length_range, List.mem_reverse,
      List.mem_drop_iff_getElem, List.length_range, List.getElem_range]
    constructor
    · exact ⟨0, by omega, by omega⟩
    · intro n hn
      rcases hn with ⟨i, _, rfl⟩
      omega
  unfold blocksOlderHref
  rw [heights_of_places h, hmin]
  change (if q.length - limit = 0 then _ else _) = _
  by_cases hall : q.length ≤ limit
  · rw [if_pos hall, if_pos (by omega)]
  · rw [if_neg hall, if_neg (by omega)]

theorem exists_visits (h : Inv T reader.cfg reader.store best s) (hq : q <+: best) (hne : q ≠ [])
    (hlimit : 1 ≤ limit) {start : Option Nat}
    (hstart : startHash reader start = .ok (tipHash q)) :
    exists pages, Visits reader limit start pages ∧
      pages.flatten.map BlockValue.place = (places q).reverse := by
  induction hn : q.length using Nat.strong_induction_on generalizing q start with
  | _ n ih =>
    rcases exists_blocksFrom h hq hne limit with ⟨page, hpage, hplaces⟩
    have hblocks : blocks reader limit start = .ok page :=
      bind_eq_ok.mpr ⟨tipHash q, hstart, hpage⟩
    have hhref := blocksOlderHref_eq hne hlimit hplaces
    by_cases hall : q.length ≤ limit
    · rw [if_pos hall] at hhref
      refine ⟨[page], .last hblocks hhref, ?_⟩
      rw [List.flatten_singleton, hplaces]
      exact List.take_of_length_le (by rw [List.length_reverse, length_places]; exact hall)
    · rw [if_neg hall] at hhref
      -- the next page starts at the block below the lowest one of this page
      have hpart : q.take (q.length - limit) <+: best := (List.take_prefix _ q).trans hq
      have hlength : (q.take (q.length - limit)).length = q.length - limit := by
        simp
      have hnext : q.take (q.length - limit) ≠ [] :=
        List.ne_nil_of_length_pos (by omega)
      have hlt : q.length < 2 ^ 32 := lt_of_le_of_lt hq.length_le h.valid.length_lt
      have hlook : startHash reader
          (pathStartHeight (pagePath (hrefStart ++ number (q.length - limit - 1)))) =
            .ok (tipHash (q.take (q.length - limit))) := by
        rw [pathStartHeight_pagePath (by omega), startHash, Mwck.hashByHeight_eq h.headers]
        have hget : best[q.length - limit - 1]? = q[q.length - limit - 1]? := by
          rcases hq with ⟨rest, rfl⟩
          exact List.getElem?_append_left (by omega)
        rw [hget, List.getElem?_eq_getElem (by omega)]
        have htip := tipHash_take (List.getElem?_eq_getElem
          (show q.length - limit - 1 < q.length by omega))
        rw [show q.length - limit - 1 + 1 = q.length - limit by omega] at htip
        rw [htip]
        rfl
      rcases ih (q.length - limit) (by omega) hpart hnext hlook hlength
        with ⟨rest, hrest, hrestPlaces⟩
      refine ⟨page :: rest, .older hblocks hhref hrest, ?_⟩
      rw [List.flatten_cons, List.map_append, hplaces, hrestPlaces, List.take_reverse,
        length_places, ← List.reverse_append, places_take, List.take_append_drop]

end Pages

/-- Following the links ends, and shows every block of the best chain once, from the tip down. -/
theorem visits_cover_chain {cfg : IndexerConfig} {events : List (Event T)} {store : Store}
    (hrun : run cfg events = .ok store) (hstarted : lastBest events ≠ [])
    (daemon : Daemon T) (deserialize : Bytes -> Option Transaction) {limit : Nat}
    (hlimit : 1 ≤ limit) :
    exists pages, Visits ⟨cfg, daemon, deserialize, store⟩ limit none pages ∧
      pages.flatten.map BlockValue.place = (places (lastBest events)).reverse := by
  rcases exists_inv hrun with ⟨s, hinv⟩
  have hstart : startHash ⟨cfg, daemon, deserialize, store⟩ none =
      .ok (tipHash (lastBest events)) := by
    rw [startHash, hinv.headers.getTip_eq]
    rfl
  exact exists_visits hinv (List.prefix_refl _) hstarted hlimit hstart

/-!
## Cache lifetimes
-/

def ttlLong : UInt32 := 157784630

def ttlShort : UInt32 := 10

def confFinal : Nat := 10

/-- The difference of two `usize` values wraps. -/
def usizeSub (a b : Nat) : Nat :=
  (a + (2 ^ 64 - b)) % 2 ^ 64

def ttlByDepth (store : Store) (height : Option Nat) : UInt32 :=
  match height with
  | none => ttlShort
  | some height =>
    if usizeSub (ChainQuery.bestHeight store) height ≥ confFinal then ttlLong
    else ttlShort

inductive LooksUp (store : Store) : Nat -> Prop where
  | byHeight {height : Nat} {entry : HeaderEntry} :
      store.indexedHeaders.headerByHeight height = .ok (some entry) ->
      LooksUp store entry.height
  | byHash {hash : BlockHash} {entry : HeaderEntry} :
      ChainQuery.headerByHash store hash = some entry -> LooksUp store entry.height
  | confirming {txid : Txid} {blockid : BlockId} :
      ChainQuery.txConfirmingBlock store txid = some blockid ->
      LooksUp store blockid.height

structure TtlSafe (store : Store) (height : Nat) : Prop where
  no_wrap : (usizeSub (ChainQuery.bestHeight store) height : Int) =
    ChainQuery.bestHeight store - height
  long_only : ttlByDepth store (some height) = ttlLong ->
    height + confFinal ≤ ChainQuery.bestHeight store

section Ttl

variable {store : Store} {best : List Block} {height : Nat}

theorem LooksUp.lt_length (h : LooksUp store height)
    (hrep : store.indexedHeaders.Represents best) : height < best.length := by
  have hlisted : forall {hash : BlockHash} {entry : HeaderEntry},
      ChainQuery.headerByHash store hash = some entry -> entry.height < best.length := by
    intro hash entry hentry
    rcases hrep.exists_of_headerByBlockhash hentry with ⟨i, b, hb, _, rfl⟩
    exact (List.getElem?_eq_some_iff.mp hb).1
  cases h with
  | byHeight hentry =>
    rw [hrep.headerByHeight_eq] at hentry
    rcases Option.map_eq_some_iff.mp (Except.ok.inj hentry) with ⟨b, hb, rfl⟩
    exact (List.getElem?_eq_some_iff.mp hb).1
  | byHash hentry => exact hlisted hentry
  | confirming hblock =>
    rcases List.exists_of_findSome?_eq_some hblock with ⟨row, _, hrow⟩
    split at hrow
    · rcases Option.map_eq_some_iff.mp hrow with ⟨entry, hentry, rfl⟩
      exact hlisted hentry
    · cases hrow

theorem ttlSafe_iff (hrep : store.indexedHeaders.Represents best) (hne : best ≠ [])
    (hlt : best.length < 2 ^ 32) (hheight : height < 2 ^ 32) :
    TtlSafe store height <-> height < best.length := by
  have hbest := Mwck.bestHeight_eq hrep hne
  have hpos : 0 < best.length := List.length_pos_iff.mpr hne
  constructor
  · intro hsafe
    have hwrap := hsafe.no_wrap
    rw [hbest] at hwrap
    omega
  · intro hlisted
    have hsub : usizeSub (ChainQuery.bestHeight store) height =
        ChainQuery.bestHeight store - height := by
      rw [usizeSub, hbest]
      omega
    refine ⟨by rw [hsub]; omega, ?_⟩
    intro hlong
    rw [ttlByDepth, hsub] at hlong
    split at hlong
    · omega
    · cases hlong

end Ttl

theorem lastBest_updates_ne_nil {events : List (Event T)} (h : lastBest events ≠ [])
    (updates : List (FetchFrom × Daemon T)) :
    lastBest (events ++ updates.map fun u => .update u.1 u.2) ≠ [] := by
  induction updates using List.reverseRecOn with
  | nil => simpa using h
  | append_singleton updates u _ =>
    rw [List.map_append, List.map_singleton, ← List.append_assoc, lastBest_update]
    exact u.2.best.nonempty

/-- With updates after the lookup of the height, the call is right exactly if the best chain still
has a block there. -/
theorem ttlByDepth_safe_iff {cfg : IndexerConfig} {events : List (Event T)}
    {updates : List (FetchFrom × Daemon T)} {store store' : Store} {height : Nat}
    (hrun : run cfg events = .ok store) (hlook : LooksUp store height)
    (hrun' : run cfg (events ++ updates.map fun u => .update u.1 u.2) = .ok store') :
    TtlSafe store' height <->
      height < (lastBest (events ++ updates.map fun u => .update u.1 u.2)).length := by
  rcases exists_inv hrun with ⟨s, hinv⟩
  rcases exists_inv hrun' with ⟨s', hinv'⟩
  have hlt := hlook.lt_length hinv.headers
  have hne : lastBest events ≠ [] := List.ne_nil_of_length_pos (by omega)
  exact ttlSafe_iff hinv'.headers (lastBest_updates_ne_nil hne updates)
    hinv'.valid.length_lt (hlt.trans hinv.valid.length_lt)

namespace Sample

open NewIndex.Sample

theorem visits_three_blocks :
    exists store pages, run config [.update .bitcoind daemonA'] = .ok store ∧
      Visits ⟨config, daemonB, fun _ => none, store⟩ 1 none pages ∧
      pages.flatten.map BlockValue.place = [(3, 2), (2, 1), (1, 0)] := by
  have heval : exists store, run config [.update .bitcoind daemonA'] = .ok store := by
    decide +kernel
  rcases heval with ⟨store, hrun⟩
  rcases visits_cover_chain hrun (by decide) daemonB (fun _ => none) (Nat.le_refl 1)
    with ⟨pages, hvisits, hplaces⟩
  exact ⟨store, pages, hrun, hvisits, hplaces⟩

/-- A height of the longer chain is looked up before the update to the shorter one. -/
theorem ttlByDepth_wraps :
    exists store store', run config [.update .bitcoind daemonA'] = .ok store ∧ LooksUp store 2 ∧
      run config [.update .bitcoind daemonA', .update .bitcoind daemonB] = .ok store' ∧
      ChainQuery.bestHeight store' = 1 ∧ ttlByDepth store' (some 2) = ttlLong ∧
      ¬ TtlSafe store' 2 := by
  have heval : exists store, run config [.update .bitcoind daemonA'] = .ok store ∧
      ChainQuery.headerByHash store 3 = some (blockA'.entryAt 2) := by
    decide +kernel
  have heval' : exists store, run config [.update .bitcoind daemonA',
      .update .bitcoind daemonB] = .ok store ∧ ChainQuery.bestHeight store = 1 ∧
      ttlByDepth store (some 2) = ttlLong := by
    decide +kernel
  rcases heval with ⟨store, hrun, hfound⟩
  rcases heval' with ⟨store', hrun', hbest, hlong⟩
  refine ⟨store, store', hrun, .byHash hfound, hrun', hbest, hlong, ?_⟩
  intro hsafe
  have hdeep := hsafe.long_only hlong
  rw [hbest] at hdeep
  exact absurd hdeep (by decide)

theorem ttlSafe_extended :
    exists store store', run config [.update .bitcoind daemonA] = .ok store ∧ LooksUp store 1 ∧
      run config [.update .bitcoind daemonA, .update .bitcoind daemonA'] = .ok store' ∧
      TtlSafe store' 1 := by
  have heval : exists store, run config [.update .bitcoind daemonA] = .ok store ∧
      ChainQuery.headerByHash store 2 = some (blockA.entryAt 1) := by
    decide +kernel
  have heval' : exists store, run config [.update .bitcoind daemonA,
      .update .bitcoind daemonA'] = .ok store := by
    decide +kernel
  rcases heval with ⟨store, hrun, hfound⟩
  rcases heval' with ⟨store', hrun'⟩
  have hrun'' : run config ([.update .bitcoind daemonA] ++
      [(FetchFrom.bitcoind, daemonA')].map fun u => .update u.1 u.2) = .ok store' := hrun'
  have hlook : LooksUp store 1 := .byHash hfound
  exact ⟨store, store', hrun, hlook, hrun', (ttlByDepth_safe_iff hrun hlook hrun'').mpr (by decide)⟩

end Sample

end Rest
end Splora
