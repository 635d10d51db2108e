import Splora.Util.Block

/-!
# The daemon

What the indexer asks bitcoind for during one update (`src/daemon.rs`).  The `blk*.dat` files
hold blocks of any branch in any order.  Transport errors and retries are left out.
-/

namespace Splora

open Foundation

structure Daemon (T : BlockTree) where
  best : BestChain T
  blkFiles : List (List Block)
  blkFiles_stored : forall file, file ∈ blkFiles -> forall b, b ∈ file -> T.block b.hash = some b

def chunksAux (size : Nat) : Nat -> List α -> List (List α)
  | 0, _ => []
  | _ + 1, [] => []
  | fuel + 1, l => l.take size :: chunksAux size fuel (l.drop size)

def chunks (size : Nat) (l : List α) : List (List α) :=
  chunksAux size l.length l

theorem flatten_chunksAux {size : Nat} (hsize : 0 < size) :
    forall (fuel : Nat) (l : List α), l.length ≤ fuel -> (chunksAux size fuel l).flatten = l
  | 0, l, hfuel => by
      have hnil : l = [] := List.length_eq_zero_iff.mp (Nat.le_zero.mp hfuel)
      rw [hnil]
      rfl
  | fuel + 1, [], _ => rfl
  | fuel + 1, a :: l, hfuel => by
      have hrest : ((a :: l).drop size).length ≤ fuel := by
        rw [List.length_drop]
        rw [List.length_cons] at hfuel ⊢
        omega
      rw [chunksAux, List.flatten_cons, flatten_chunksAux hsize fuel _ hrest, List.take_append_drop]
      simp

theorem flatten_chunks {size : Nat} (hsize : 0 < size) (l : List α) : (chunks size l).flatten = l :=
  flatten_chunksAux hsize l.length l (Nat.le_refl _)

theorem chunksAux_map (f : α -> β) (size : Nat) :
    forall (fuel : Nat) (l : List α),
      chunksAux size fuel (l.map f) = (chunksAux size fuel l).map (List.map f)
  | 0, _ => rfl
  | _ + 1, [] => rfl
  | fuel + 1, a :: l => by
      have hrest := chunksAux_map f size fuel ((a :: l).drop size)
      rw [List.map_drop, List.map_cons] at hrest
      rw [List.map_cons, chunksAux, chunksAux, hrest, List.map_cons, List.map_take, List.map_cons]
      · simp
      · simp

theorem chunks_map (f : α -> β) (size : Nat) (l : List α) :
    chunks size (l.map f) = (chunks size l).map (List.map f) := by
  rw [chunks, List.length_map, chunksAux_map]
  rfl

namespace Daemon

variable {T : BlockTree} (daemon : Daemon T)

def getbestblockhash : BlockHash :=
  tipHash daemon.best.blocks

def getblock (_ : Daemon T) (blockhash : BlockHash) : Except Abort Block :=
  expect (T.block blockhash) (.unknownBlock blockhash)

def getblocks (blockhashes : List BlockHash) : Except Abort (List Block) :=
  blockhashes.mapM daemon.getblock

def getblockheader (blockhash : BlockHash) : Except Abort BlockHeader := do
  let block <- daemon.getblock blockhash
  return block.header

def getblockheaders (heights : List Nat) : Except Abort (List BlockHeader) :=
  heights.mapM fun height => do
    let block <- expect daemon.best.blocks[height]? (.unknownHeight height)
    return block.header

def getblockheight (blockhash : BlockHash) : Except Abort Nat :=
  expect ((daemon.best.blocks.map Block.hash).idxOf? blockhash) (.unknownBlock blockhash)

def getAllHeaders (tip : BlockHash) : Except Abort (List BlockHeader) := do
  let tipHeight <- daemon.getblockheight tip
  let allHeights := List.range (tipHeight + 1)
  let result <- (chunks 100000 allHeights).mapM daemon.getblockheaders
  let blockhash <- result.flatten.foldlM (fun blockhash header => do
      ensure (header.prevBlockhash = blockhash) Abort.badHeaders
      return header.hash)
    nullHash
  ensure (blockhash = tip) .badHeaders
  return result.flatten

/-- The walk of `get_new_headers` back to an indexed block, along the active chain. -/
def walkToIndexed (fuel : Nat) (indexedHeaders : HeaderList)
    (blockhash : BlockHash) : Except Abort (List BlockHeader) :=
  if blockhash = nullHash then
    .ok []
  else if (indexedHeaders.headerByBlockhash blockhash).isSome then
    .ok []
  else
    match fuel with
    | 0 => .error (.unknownBlock blockhash)
    | fuel + 1 => do
        let header <- daemon.getblockheader blockhash
        let rest <- walkToIndexed fuel indexedHeaders header.prevBlockhash
        return header :: rest

def getNewHeaders (indexedHeaders : HeaderList) (bestblockhash : BlockHash) :
    Except Abort (List BlockHeader) :=
  if indexedHeaders.headers.isEmpty then
    daemon.getAllHeaders bestblockhash
  else do
    let newHeaders <-
      daemon.walkToIndexed daemon.best.blocks.length indexedHeaders bestblockhash
    return newHeaders.reverse

/-!
## The headers of a new best chain
-/

variable {daemon} {hl : HeaderList} {c q a n : List Block}

theorem getblock_eq {b : Block} (hc : IsChain T c) (hb : b ∈ c) :
    daemon.getblock b.hash = .ok b := by
  simp [getblock, hc.stored b hb, expect]

theorem getblockheight_tip :
    daemon.getblockheight (tipHash daemon.best.blocks) = .ok (daemon.best.blocks.length - 1) := by
  have hne := daemon.best.nonempty
  have hnodup := daemon.best.valid.hashes_nodup
  rcases List.eq_nil_or_concat daemon.best.blocks with h | ⟨front, last, h⟩
  · exact absurd h hne
  · rw [List.concat_eq_append] at h
    unfold getblockheight
    rw [h] at hnodup ⊢
    rw [List.map_append, List.nodup_append] at hnodup
    rw [expect_eq_ok, tipHash_append_singleton, List.idxOf?_eq_some_iff]
    refine ⟨by simp, by simp, ?_⟩
    intro j hj heq
    have hlt : j < front.length := by simpa using hj
    rw [List.getElem_map, List.getElem_append_left hlt] at heq
    have hmem := List.mem_map_of_mem (f := Block.hash) (List.getElem_mem hlt)
    exact hnodup.2.2 _ hmem _ (by simp) heq

theorem checkLinks_eq {prev : BlockHash} {blocks : List Block} (h : LinkedFrom prev blocks) :
    (blocks.map Block.header).foldlM (fun blockhash header => do
        ensure (header.prevBlockhash = blockhash) Abort.badHeaders
        return header.hash)
      prev = .ok ((blocks.getLast?.map Block.hash).getD prev) := by
  induction blocks generalizing prev with
  | nil => rfl
  | cons b rest ih =>
    rw [List.map_cons, List.foldlM_cons]
    refine bind_eq_ok.mpr ⟨b.hash, ?_, ?_⟩
    · exact bind_eq_ok.mpr ⟨(), ensure_of _ h.left, rfl⟩
    · rw [ih h.right]
      cases rest with
      | nil => rfl
      | cons b' rest' => simp [List.getLast?_cons]

theorem getAllHeaders_eq :
    daemon.getAllHeaders (tipHash daemon.best.blocks) =
      .ok (daemon.best.blocks.map Block.header) := by
  let genesis := (daemon.best.blocks.head daemon.best.nonempty).header
  let header : Nat -> BlockHeader := fun height =>
    (daemon.best.blocks[height]?.map Block.header).getD genesis
  have hlen : daemon.best.blocks.length - 1 + 1 = daemon.best.blocks.length :=
    Nat.sub_add_cancel (List.length_pos_iff.mpr daemon.best.nonempty)
  have hheader : forall height, height < daemon.best.blocks.length -> (do
        let block <- expect daemon.best.blocks[height]? (Abort.unknownHeight height)
        return block.header) = .ok (header height) := by
    intro height hlt
    simp [header, expect, List.getElem?_eq_getElem hlt]
  have hchunks : (chunks 100000 (List.range daemon.best.blocks.length)).mapM
      daemon.getblockheaders = .ok ((chunks 100000 (List.range daemon.best.blocks.length)).map
          (List.map header)) := by
    apply mapM_eq_ok_map
    intro heights hheights
    apply mapM_eq_ok_map
    intro height hheight
    apply hheader
    have hmem : height ∈ (chunks 100000 (List.range daemon.best.blocks.length)).flatten :=
      List.mem_flatten.mpr ⟨heights, hheights, hheight⟩
    rw [flatten_chunks (by decide)] at hmem
    exact List.mem_range.mp hmem
  have hall : ((chunks 100000 (List.range daemon.best.blocks.length)).map
      (List.map header)).flatten = daemon.best.blocks.map Block.header := by
    rw [← List.map_flatten, flatten_chunks (by decide)]
    apply List.ext_getElem
    · simp
    · intro i hi hi'
      have hlt : i < daemon.best.blocks.length := by simpa using hi'
      simp [header, List.getElem?_eq_getElem hlt]
  unfold getAllHeaders
  refine bind_eq_ok.mpr ⟨_, getblockheight_tip, ?_⟩
  rw [hlen]
  refine bind_eq_ok.mpr ⟨_, hchunks, ?_⟩
  rw [hall]
  refine bind_eq_ok.mpr ⟨_, checkLinks_eq daemon.best.valid.linked, ?_⟩
  exact bind_eq_ok.mpr ⟨(), ensure_of _ rfl, rfl⟩

theorem walkToIndexed_eq {fuel : Nat} (hrep : hl.Represents (q ++ a))
    (hchain : IsChain T (q ++ n)) (hfuel : n.length ≤ fuel)
    (hnew : forall b, b ∈ n -> b.hash ∉ (q ++ a).map Block.hash) :
    daemon.walkToIndexed fuel hl (tipHash (q ++ n)) = .ok (n.map Block.header).reverse := by
  induction n using List.reverseRecOn generalizing fuel with
  | nil =>
    rw [List.append_nil] at hchain ⊢
    unfold walkToIndexed
    rcases List.eq_nil_or_concat q with rfl | ⟨front, last, rfl⟩
    · rw [if_pos tipHash_nil]
      rfl
    · rw [List.concat_eq_append] at hrep hchain ⊢
      have hget : (front ++ [last] ++ a)[front.length]? = some last := by
        simp
      rw [if_neg (hchain.tipHash_ne_null (by simp)),
        tipHash_append_singleton, hrep.headerByBlockhash_of_getElem? hget]
      rfl
  | append_singleton n last ih =>
    rw [← List.append_assoc] at hchain ⊢
    rw [List.length_append, List.length_singleton] at hfuel
    rcases Nat.exists_eq_add_of_le' hfuel with ⟨k, rfl⟩
    have hfront : daemon.walkToIndexed (k + n.length) hl
        (tipHash (q ++ n)) = .ok (n.map Block.header).reverse := by
      apply ih hchain.left (by omega)
      intro b hb
      exact hnew b (List.mem_append_left _ hb)
    rw [← hchain.prev_eq_tipHash] at hfront
    have hnone := hrep.headerByBlockhash_eq_none (hnew last (by simp))
    have hne := hchain.tipHash_ne_null (by simp)
    rw [tipHash_append_singleton] at hne ⊢
    unfold walkToIndexed
    rw [if_neg hne, hnone, if_neg (by simp)]
    refine bind_eq_ok.mpr ⟨last.header, ?_, ?_⟩
    · exact bind_eq_ok.mpr ⟨last, getblock_eq hchain (by simp), rfl⟩
    · refine bind_eq_ok.mpr ⟨_, hfront, ?_⟩
      simp [pure_eq_ok]

theorem getNewHeaders_eq (hrep : hl.Represents c) (hc : IsChain T c)
    (hfork : Fork c daemon.best.blocks q a n) :
    daemon.getNewHeaders hl daemon.getbestblockhash = .ok (n.map Block.header) := by
  have hd := daemon.best.valid.toIsChain
  unfold getNewHeaders getbestblockhash
  by_cases hempty : hl.headers.isEmpty = true
  · have hnil : c = [] := by
      have hlen := hrep.length_headers
      rw [List.isEmpty_iff.mp hempty] at hlen
      exact List.length_eq_zero_iff.mp hlen.symm
    have hq : q = [] ∧ a = [] := by
      have hleft := hfork.left_eq
      rw [hnil] at hleft
      exact List.append_eq_nil_iff.mp hleft.symm
    have hn : daemon.best.blocks = n := by
      rw [hfork.right_eq, hq.left, List.nil_append]
    rw [if_pos hempty, getAllHeaders_eq, hn]
  · rw [if_neg hempty]
    have hnew : forall b, b ∈ n -> b.hash ∉ (q ++ a).map Block.hash := by
      intro b hb hmem
      rcases List.mem_map.mp hmem with ⟨b', hb', heq⟩
      rw [← hfork.left_eq] at hb'
      have hbd : b ∈ daemon.best.blocks := by
        rw [hfork.right_eq]
        exact List.mem_append_right q hb
      have hbb := hc.eq_of_hash_eq hd hb' hbd heq
      rw [hbb] at hb'
      exact hfork.added b hb hb'
    have hlen : n.length ≤ daemon.best.blocks.length := by
      rw [hfork.right_eq, List.length_append]
      omega
    rw [hfork.left_eq] at hrep
    rw [hfork.right_eq] at hd hlen ⊢
    refine bind_eq_ok.mpr ⟨_, walkToIndexed_eq hrep hd hlen hnew, ?_⟩
    rw [List.reverse_reverse]
    rfl

end Daemon

end Splora
