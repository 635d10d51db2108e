import Splora.Chain

/-!
# The daemon's block tree

The blocks that bitcoind ever stored are a partial function of the block hash; a best chain is a
path from the genesis block.  A block hash commits to the block, a txid to inputs and outputs
but not to witnesses.
-/

namespace Splora

structure BlockTree where
  block : BlockHash -> Option Block
  hash_eq : forall {h b}, block h = some b -> b.hash = h
  no_null : block nullHash = none
  txid_commits : forall {h h' b b' tx tx'}, block h = some b -> block h' = some b' ->
      tx ∈ b.txdata -> tx' ∈ b'.txdata -> tx.txid = tx'.txid ->
      tx.input = tx'.input ∧ tx.output = tx'.output

def BlockTree.ofList (blocks : List Block) (hnull : forall b, b ∈ blocks -> b.hash ≠ nullHash)
    (hcommits : forall b, b ∈ blocks -> forall b', b' ∈ blocks ->
      forall tx, tx ∈ b.txdata -> forall tx', tx' ∈ b'.txdata ->
        tx.txid = tx'.txid -> tx.input = tx'.input ∧ tx.output = tx'.output) :
    BlockTree where
  block h := blocks.find? fun b => b.hash = h
  hash_eq := by
    intro h b hb
    simpa using List.find?_some hb
  no_null := by
    rw [List.find?_eq_none]
    intro b hb
    simpa using hnull b hb
  txid_commits := by
    intro h h' b b' tx tx' hb hb' htx htx' htxid
    exact hcommits b (List.mem_of_find?_eq_some hb) b'
      (List.mem_of_find?_eq_some hb') tx htx tx' htx' htxid

def BlockTree.HasTxo (T : BlockTree) (outpoint : OutPoint) (txo : TxOut) :
    Prop :=
  exists h b tx, T.block h = some b ∧ tx ∈ b.txdata ∧
    tx.txid = outpoint.txid ∧ tx.output[outpoint.vout.toNat]? = some txo

variable {T : BlockTree}

theorem BlockTree.HasTxo.unique {outpoint : OutPoint} {txo txo' : TxOut}
    (h : T.HasTxo outpoint txo) (h' : T.HasTxo outpoint txo') : txo = txo' := by
  rcases h with ⟨_, _, tx, hb, htx, htxid, hout⟩
  rcases h' with ⟨_, _, tx', hb', htx', htxid', hout'⟩
  have heq := T.txid_commits hb hb' htx htx' (htxid.trans htxid'.symm)
  rw [heq.right, hout'] at hout
  exact (Option.some.inj hout).symm

def chainTxids (c : List Block) : List Txid :=
  c.flatMap fun b => b.txdata.map Transaction.txid

structure IsChain (T : BlockTree) (c : List Block) : Prop where
  stored : forall b, b ∈ c -> T.block b.hash = some b
  linked : LinkedFrom nullHash c

structure ValidChain (T : BlockTree) (c : List Block) : Prop
    extends IsChain T c where
  txids_nodup : (chainTxids c).Nodup
  length_lt : c.length < 2 ^ 32

structure BestChain (T : BlockTree) where
  blocks : List Block
  valid : ValidChain T blocks
  nonempty : blocks ≠ []

namespace IsChain

variable {T : BlockTree} {c d q : List Block} {b : Block}

theorem nil (T : BlockTree) : IsChain T [] where
  stored := by
    intro b hb
    cases hb
  linked := trivial

theorem left (h : IsChain T (c ++ d)) : IsChain T c where
  stored := by
    intro b hb
    exact h.stored b (List.mem_append_left d hb)
  linked := linkedFrom_append_left h.linked

theorem hash_ne_null (h : IsChain T c) (hb : b ∈ c) : b.hash ≠ nullHash := by
  intro hnull
  have hstored := h.stored b hb
  rw [hnull, T.no_null] at hstored
  cases hstored

theorem eq_of_hash_eq (hc : IsChain T c) (hd : IsChain T d) {b b' : Block}
    (hb : b ∈ c) (hb' : b' ∈ d) (h : b.hash = b'.hash) : b = b' := by
  have hstored := hc.stored b hb
  rw [h, hd.stored b' hb'] at hstored
  exact (Option.some.inj hstored).symm

theorem prev_eq_tipHash (h : IsChain T (c ++ [b])) : b.header.prevBlockhash = tipHash c :=
  (linkedFrom_append_singleton.mp h.linked).right

theorem tipHash_ne_null (h : IsChain T c) (hne : c ≠ []) : tipHash c ≠ nullHash := by
  rcases List.eq_nil_or_concat c with rfl | ⟨front, last, rfl⟩
  · exact absurd rfl hne
  · rw [List.concat_eq_append, tipHash_append_singleton]
    apply h.hash_ne_null
    simp

theorem eq_of_tipHash_eq (hc : IsChain T c) (hd : IsChain T d)
    (h : tipHash c = tipHash d) : c = d := by
  induction c using List.reverseRecOn generalizing d with
  | nil =>
    cases d with
    | nil => rfl
    | cons b rest =>
      exact absurd h.symm (hd.tipHash_ne_null (List.cons_ne_nil b rest))
  | append_singleton front last ih =>
    rcases List.eq_nil_or_concat d with rfl | ⟨front', last', rfl⟩
    · exact absurd h (hc.tipHash_ne_null (by simp))
    · rw [List.concat_eq_append] at hd h ⊢
      rw [tipHash_append_singleton, tipHash_append_singleton] at h
      have hlast : last = last' :=
        hc.eq_of_hash_eq hd (by simp) (by simp) h
      subst hlast
      have htip : tipHash front = tipHash front' := by
        rw [← hc.prev_eq_tipHash, ← hd.prev_eq_tipHash]
      rw [ih hc.left hd.left htip]

theorem prefix_eq_of_shared {q q' r r' : List Block}
    (hc : IsChain T (q ++ b :: r)) (hd : IsChain T (q' ++ b :: r')) :
    q = q' := by
  have hc' : IsChain T (q ++ [b]) := by
    apply left (d := r)
    simpa using hc
  have hd' : IsChain T (q' ++ [b]) := by
    apply left (d := r')
    simpa using hd
  have heq : q ++ [b] = q' ++ [b] :=
    eq_of_tipHash_eq hc' hd' (by simp)
  exact List.append_cancel_right heq

section Shared

variable {blocks blocks' : List Block} {i : Nat}

theorem take_eq_of_shared (h : IsChain T blocks) (h' : IsChain T blocks')
    (hb : blocks[i]? = some b) (hmem : b ∈ blocks') :
    blocks.take (i + 1) = blocks'.take (i + 1) := by
  rcases List.getElem?_eq_some_iff.mp hb with ⟨hlt, hget⟩
  rcases List.append_of_mem hmem with ⟨q, r, rfl⟩
  have hsplit : blocks = blocks.take i ++ b :: blocks.drop (i + 1) := by
    rw [← hget, List.cons_getElem_drop_succ, List.take_append_drop]
  have hchain := h
  rw [hsplit] at hchain
  have hq : blocks.take i = q := hchain.prefix_eq_of_shared h'
  have hlen : q.length = i := by
    rw [← hq, List.length_take]
    omega
  rw [List.take_add_one, hb, hq, ← hlen]
  simp [List.take_append, List.take_of_length_le]

theorem getElem?_of_shared (h : IsChain T blocks) (h' : IsChain T blocks')
    (hb : blocks[i]? = some b) (hmem : b ∈ blocks') :
    blocks'[i]? = some b := by
  rw [← List.getElem?_take_of_succ, ← h.take_eq_of_shared h' hb hmem,
    List.getElem?_take_of_succ, hb]

end Shared

theorem hashes_nodup (h : IsChain T c) : (c.map Block.hash).Nodup := by
  induction c using List.reverseRecOn with
  | nil => exact List.nodup_nil
  | append_singleton front last ih =>
    rw [List.map_append, List.nodup_append]
    refine ⟨ih h.left, List.nodup_singleton _, ?_⟩
    intro x hx y hy
    rcases List.mem_map.mp hx with ⟨b, hb, rfl⟩
    have hlast : y = last.hash := by simpa using hy
    intro heq
    have hbl : b = last :=
      h.left.eq_of_hash_eq h hb (by simp) (heq.trans hlast)
    rcases List.append_of_mem hb with ⟨q, r, hqr⟩
    subst hbl
    -- a block of `front` with the hash of the tip would end the chain twice
    have hchain : IsChain T (q ++ b :: (r ++ [b])) := by
      simpa [hqr] using h
    have hend : IsChain T (front ++ b :: []) := h
    have hq : q = front := hchain.prefix_eq_of_shared hend
    have hlen := congrArg List.length hqr
    rw [hq] at hlen
    simp at hlen

theorem nodup (h : IsChain T c) : c.Nodup :=
  List.Nodup.of_map _ h.hashes_nodup

end IsChain

theorem ValidChain.nil (T : BlockTree) : ValidChain T [] where
  toIsChain := IsChain.nil T
  txids_nodup := List.nodup_nil
  length_lt := by decide

variable {c : List Block}

theorem ValidChain.left {d : List Block} (h : ValidChain T (c ++ d)) :
    ValidChain T c where
  toIsChain := h.toIsChain.left
  txids_nodup := by
    have hnodup := h.txids_nodup
    rw [chainTxids, List.flatMap_append] at hnodup
    exact (List.nodup_append.mp hnodup).left
  length_lt := by
    have hlt := h.length_lt
    rw [List.length_append] at hlt
    omega

theorem ValidChain.take (h : ValidChain T c) (n : Nat) : ValidChain T (c.take n) := by
  apply ValidChain.left (d := c.drop n)
  rwa [List.take_append_drop]

theorem tipHash_take {blocks : List Block} {i : Nat} {b : Block}
    (hb : blocks[i]? = some b) : tipHash (blocks.take (i + 1)) = b.hash := by
  rw [List.take_add_one, hb]
  exact tipHash_append_singleton _ b

/-!
## Forks
-/

structure Fork (c d q a n : List Block) : Prop where
  left_eq : c = q ++ a
  right_eq : d = q ++ n
  removed : forall b, b ∈ a -> b ∉ d
  added : forall b, b ∈ n -> b ∉ c

namespace Fork

variable {c d q a n : List Block} {b : Block}

theorem mem_left (h : Fork c d q a n) : b ∈ c <-> b ∈ q ∨ b ∈ a := by
  rw [h.left_eq, List.mem_append]

theorem mem_right (h : Fork c d q a n) : b ∈ d <-> b ∈ q ∨ b ∈ n := by
  rw [h.right_eq, List.mem_append]

theorem removed_iff (h : Fork c d q a n) : b ∈ c ∧ b ∉ d <-> b ∈ a := by
  constructor
  · rintro ⟨hc, hd⟩
    rcases h.mem_left.mp hc with hq | ha
    · exact absurd (h.mem_right.mpr (Or.inl hq)) hd
    · exact ha
  · intro ha
    exact ⟨h.mem_left.mpr (Or.inr ha), h.removed b ha⟩

theorem added_iff (h : Fork c d q a n) : b ∈ d ∧ b ∉ c <-> b ∈ n := by
  constructor
  · rintro ⟨hd, hc⟩
    rcases h.mem_right.mp hd with hq | hn
    · exact absurd (h.mem_left.mpr (Or.inl hq)) hc
    · exact hn
  · intro hn
    exact ⟨h.mem_right.mpr (Or.inr hn), h.added b hn⟩

theorem shared_iff (h : Fork c d q a n) : b ∈ c ∧ b ∈ d <-> b ∈ q := by
  constructor
  · rintro ⟨hc, hd⟩
    rcases h.mem_left.mp hc with hq | ha
    · exact hq
    · exact absurd hd (h.removed b ha)
  · intro hq
    exact ⟨h.mem_left.mpr (Or.inl hq), h.mem_right.mpr (Or.inl hq)⟩

end Fork

theorem exists_fork {d : List Block} (hc : IsChain T c) (hd : IsChain T d) :
    exists q a n, Fork c d q a n := by
  induction d using List.reverseRecOn with
  | nil =>
    refine ⟨[], c, [], rfl, rfl, ?_, ?_⟩
    · intro b _ hb
      cases hb
    · intro b hb
      cases hb
  | append_singleton front last ih =>
    by_cases hlast : last ∈ c
    · -- the common part reaches the tip of `d`
      rcases List.append_of_mem hlast with ⟨q, r, rfl⟩
      have hend : IsChain T (front ++ last :: []) := hd
      have hq : q = front := hc.prefix_eq_of_shared hend
      subst hq
      refine ⟨q ++ [last], r, [], by simp, by simp, ?_, ?_⟩
      · intro b hbr hbd
        have hnodup := hc.nodup
        rw [List.append_cons, List.nodup_append] at hnodup
        exact hnodup.right.right b hbd b hbr rfl
      · intro b hb
        cases hb
    · rcases ih hd.left with ⟨q, a, n, hfork⟩
      refine ⟨q, a, n ++ [last], hfork.left_eq, ?_, ?_, ?_⟩
      · rw [hfork.right_eq, List.append_assoc]
      · intro b hba hbd
        rcases List.mem_append.mp hbd with hfront | hb
        · exact hfork.removed b hba hfront
        · have hbl : b = last := by simpa using hb
          apply hlast
          rw [← hbl, hfork.left_eq]
          exact List.mem_append_right q hba
      · intro b hb
        rcases List.mem_append.mp hb with hbn | hb
        · exact hfork.added b hbn
        · have hbl : b = last := by simpa using hb
          rw [hbl]
          exact hlast

end Splora
