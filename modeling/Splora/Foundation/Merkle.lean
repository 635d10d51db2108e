import Mathlib

/-!
# Merkle trees over lists

A level with an odd number of hashes repeats its last one.  The root is defined by splitting at
powers of two; a level-by-level computation reaches it.
-/

namespace Splora
namespace Foundation
namespace Merkle

variable {H : Type} (node : H -> H -> H)

def pairs : List H -> List H
  | [] => []
  | [a] => [node a a]
  | a :: b :: rest => node a b :: pairs rest

def subtree : Nat -> List H -> Option H
  | 0, hashes => hashes.head?
  | depth + 1, hashes => do
      let left <- subtree depth (hashes.take (2 ^ depth))
      let right := (subtree depth (hashes.drop (2 ^ depth))).getD left
      return node left right

def root (hashes : List H) : Option H :=
  subtree node (Nat.clog 2 hashes.length) hashes

def climb : Nat -> H -> List H -> H
  | _, leaf, [] => leaf
  | index, leaf, sibling :: branch =>
    climb (index / 2) (if index % 2 = 0 then node leaf sibling else node sibling leaf) branch

structure Proves (hashes : List H) (index : Nat) (branch : List H) (top : H) : Prop where
  root_eq : root node hashes = some top
  length_eq : branch.length = Nat.clog 2 hashes.length
  climb_eq : hashes[index]?.map (fun leaf => climb node index leaf branch) = some top

variable {node} {hashes branch : List H} {index : Nat} {leaf sibling top : H}

@[simp] theorem length_pairs (hashes : List H) :
    (pairs node hashes).length = (hashes.length + 1) / 2 := by
  induction hashes using pairs.induct with
  | case1 => simp [pairs]
  | case2 a => simp [pairs]
  | case3 a b rest ih =>
    rw [pairs, List.length_cons, ih, List.length_cons, List.length_cons]
    omega

theorem pairs_take (n : Nat) (hashes : List H) :
    pairs node (hashes.take (2 * n)) = (pairs node hashes).take n := by
  induction hashes using pairs.induct generalizing n with
  | case1 => simp [pairs]
  | case2 a =>
    cases n with
    | zero => rfl
    | succ n => simp [pairs, Nat.mul_succ]
  | case3 a b rest ih =>
    cases n with
    | zero => rfl
    | succ n =>
      rw [Nat.mul_succ, List.take_succ_cons, List.take_succ_cons, pairs, pairs,
        List.take_succ_cons, ih]

theorem pairs_drop (n : Nat) (hashes : List H) :
    pairs node (hashes.drop (2 * n)) = (pairs node hashes).drop n := by
  induction hashes using pairs.induct generalizing n with
  | case1 => simp [pairs]
  | case2 a =>
    cases n with
    | zero => rfl
    | succ n => simp [pairs, Nat.mul_succ]
  | case3 a b rest ih =>
    cases n with
    | zero => rfl
    | succ n =>
      rw [Nat.mul_succ, List.drop_succ_cons, List.drop_succ_cons, pairs, List.drop_succ_cons, ih]

theorem subtree_succ (depth : Nat) (hashes : List H) :
    subtree node (depth + 1) hashes = subtree node depth (pairs node hashes) := by
  induction depth generalizing hashes with
  | zero =>
    match hashes with
    | [] => rfl
    | [a] => rfl
    | a :: b :: rest => rfl
  | succ depth ih =>
    rw [subtree, ih, ih, Nat.pow_succ, Nat.mul_comm, pairs_take, pairs_drop]
    rfl

theorem clog_length (h : 1 < hashes.length) :
    Nat.clog 2 hashes.length = Nat.clog 2 (pairs node hashes).length + 1 := by
  rw [Nat.clog_of_two_le (by omega) h, length_pairs, Nat.add_sub_assoc (by omega)]

theorem root_pairs (h : 1 < hashes.length) : root node hashes = root node (pairs node hashes) := by
  rw [root, clog_length h, subtree_succ, root]

theorem getElem?_pairs (index : Nat) (hashes : List H) :
    (pairs node hashes)[index]? = hashes[2 * index]?.map fun left =>
        node left (hashes[2 * index + 1]?.getD left) := by
  induction hashes using pairs.induct generalizing index with
  | case1 => rfl
  | case2 a =>
    cases index with
    | zero => rfl
    | succ index => simp [pairs, Nat.mul_succ]
  | case3 a b rest ih =>
    cases index with
    | zero => rfl
    | succ index =>
      rw [pairs, List.getElem?_cons_succ, ih, Nat.mul_succ]
      rfl

theorem getElem?_pairs_half (hleaf : hashes[index]? = some leaf)
    (hsibling : (if index % 2 = 0 then some (hashes[index + 1]?.getD leaf)
      else hashes[index - 1]?) = some sibling) :
    (pairs node hashes)[index / 2]? =
      some (if index % 2 = 0 then node leaf sibling else node sibling leaf) := by
  rw [getElem?_pairs]
  by_cases heven : index % 2 = 0
  · have hindex : 2 * (index / 2) = index := by omega
    rw [if_pos heven, Option.some.injEq] at hsibling
    rw [hindex, hleaf, Option.map_some, hsibling, if_pos heven]
  · have hindex : 2 * (index / 2) = index - 1 := by omega
    have hsucc : index - 1 + 1 = index := by omega
    rw [if_neg heven] at hsibling
    rw [hindex, hsibling, Option.map_some, hsucc, hleaf, if_neg heven]
    rfl

theorem proves_singleton (leaf : H) : Proves node [leaf] 0 [] leaf where
  root_eq := rfl
  length_eq := rfl
  climb_eq := rfl

theorem Proves.cons (h : Proves node (pairs node hashes) (index / 2) branch top)
    (hlength : 1 < hashes.length) (hleaf : hashes[index]? = some leaf)
    (hsibling : (if index % 2 = 0 then some (hashes[index + 1]?.getD leaf)
      else hashes[index - 1]?) = some sibling) :
    Proves node hashes index (sibling :: branch) top where
  root_eq := by
    rw [root_pairs hlength, h.root_eq]
  length_eq := by
    rw [List.length_cons, h.length_eq, clog_length hlength]
  climb_eq := by
    have hclimb := h.climb_eq
    rw [getElem?_pairs_half hleaf hsibling, Option.map_some] at hclimb
    rw [hleaf, Option.map_some, climb, hclimb]

end Merkle
end Foundation
end Splora
