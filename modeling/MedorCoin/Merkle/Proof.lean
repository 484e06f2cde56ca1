/-
**Paths from a leaf to the Merkle root.**

The proof for a leaf lists, level by level, what stands next to the node above it; a node without a
neighbour stands next to itself.  Whoever has the leaf, its index and the proof can compute the
root.  The program walks up a tree of its own to collect the proof, and computes the root in another
loop.

Main definitions:

* `Merkle.sibling`, `Merkle.siblings` — what stands next to a node, and the same on the way up;
* `Merkle.climb` — folding the siblings over a leaf;
* `Merkle.getProof` — `MerkleTree::getProof`.

Main results:

* `Merkle.climb_siblings` — **the siblings of a leaf lead to the root**;
* `Merkle.length_siblings` — there is one for each level;
* `Merkle.climb_getProof` — **a proof leads to the root that the node computes**.
-/

import MedorCoin.Merkle.Roots
import Mathlib.Data.Nat.Log

set_option autoImplicit false

namespace Merkle

/-! ### The way up a tree -/

section Paths

variable {α : Type} (node : α → α → α) (default : α)

/-- What stands next to a node of a level: its neighbour, or the node itself. -/
def sibling (level : List α) (index : ℕ) : α :=
  let pairIndex := if index % 2 = 0 then index + 1 else index - 1
  if pairIndex < level.length then level.getD pairIndex default else level.getD index default

/-- What stands next to the nodes above a leaf. -/
def siblings (index : ℕ) (level : List α) : List α :=
  if 1 < level.length then
    sibling default level index :: siblings (index / 2) (nextLevel node level)
  else []
termination_by level.length
decreasing_by exact length_nextLevel_lt node ‹_›

/-- Fold siblings over a node: they stand on its right if its index is even, else on its left. -/
def climb : ℕ → α → List α → α
  | _, a, [] => a
  | index, a, s :: path => climb (index / 2) (if index % 2 = 0 then node a s else node s a) path

variable {node default} {level : List α} {index : ℕ}

theorem siblings_of_lt (h : 1 < level.length) (index : ℕ) :
    siblings node default index level =
      sibling default level index :: siblings node default (index / 2) (nextLevel node level) := by
  rw [siblings, if_pos h]

theorem siblings_of_le (h : level.length ≤ 1) (index : ℕ) :
    siblings node default index level = [] := by
  rw [siblings, if_neg (Nat.not_lt.2 h)]

/-- **A node and its sibling have the node above them.** -/
theorem node_sibling (h : index < level.length) :
    (if index % 2 = 0 then node (level.getD index default) (sibling default level index)
      else node (sibling default level index) (level.getD index default)) =
      (nextLevel node level).getD (index / 2) default := by
  have hup := getElem?_nextLevel node level (index / 2)
  have hget (i : ℕ) (hi : i < level.length) : level[i]? = some (level.getD i default) := by
    rw [List.getD_eq_getElem _ _ hi, List.getElem?_eq_getElem hi]
  have hgetD : (nextLevel node level).getD (index / 2) default =
      (nextLevel node level)[index / 2]?.getD default := List.getD_eq_getElem?_getD
  rw [hgetD, hup, sibling]
  by_cases heven : index % 2 = 0
  · have htwice : 2 * (index / 2) = index := by omega
    rw [if_pos heven, if_pos heven, htwice, hget index h, Option.map_some, Option.getD_some]
    by_cases hnext : index + 1 < level.length
    · rw [if_pos hnext, hget _ hnext, Option.getD_some]
    · rw [if_neg hnext, List.getElem?_eq_none (Nat.not_lt.1 hnext), Option.getD_none]
  · have htwice : 2 * (index / 2) + 1 = index := by omega
    have hprev : 2 * (index / 2) < level.length := by omega
    have hleft : index - 1 = 2 * (index / 2) := by omega
    rw [if_neg heven, if_neg heven, hleft, if_pos hprev, hget _ hprev, Option.map_some,
      Option.getD_some, htwice, hget index h, Option.getD_some]

/-- **The siblings of a leaf lead to the root.** -/
theorem climb_siblings (h : index < level.length) :
    climb node index (level.getD index default) (siblings node default index level) =
      (fold node level).getD 0 default := by
  induction level using fold.induct node generalizing index with
  | case1 level hlt ih =>
      have hup : index / 2 < (nextLevel node level).length := by
        rw [length_nextLevel]
        omega
      rw [siblings_of_lt hlt, fold_of_lt node hlt, climb, node_sibling h]
      exact ih hup
  | case2 level hle =>
      have hzero : index = 0 := by omega
      rw [siblings_of_le (Nat.not_lt.1 hle), fold_of_le node (Nat.not_lt.1 hle), hzero]
      rfl

theorem length_siblings (index : ℕ) (level : List α) :
    (siblings node default index level).length = Nat.clog 2 level.length := by
  induction level using fold.induct node generalizing index with
  | case1 level hlt ih =>
      have hclog : Nat.clog 2 level.length = Nat.clog 2 ((level.length + 1) / 2) + 1 :=
        Nat.clog_of_two_le Nat.one_lt_two hlt
      rw [siblings_of_lt hlt, List.length_cons, ih, length_nextLevel, hclog]
  | case2 level hle =>
      rw [siblings_of_le (Nat.not_lt.1 hle), List.length_nil,
        Nat.clog_of_right_le_one (Nat.not_lt.1 hle)]

end Paths

/-! ### The proofs of the node -/

section Proofs

variable (sha256 : Js.Bytes → UInt256)

/-- The node above the pair at `i`, as the walk for a proof computes it. -/
def combined (currentLevel : List UInt256) (i : ℕ) : UInt256 :=
  let left := currentLevel.getD i UInt256.zero
  let right :=
    if i + 1 < currentLevel.length then currentLevel.getD (i + 1) UInt256.zero else left
  let buf := left.toList ++ right.toList
  let mid := doubleSHA256 sha256 buf
  doubleSHA256 sha256 mid.toList

/-- The level above, node by node. -/
def levelAbove (currentLevel : List UInt256) : List UInt256 :=
  (indices currentLevel.length).foldl
    (fun nextLevel i => nextLevel ++ [combined sha256 currentLevel i]) []

theorem levelAbove_eq (currentLevel : List UInt256) :
    levelAbove sha256 currentLevel = nextLevel (node sha256) currentLevel :=
  foldl_append_indices (node sha256) UInt256.zero currentLevel

/-- `while (currentLevel.size() > 1)`. -/
def collectProof (index : ℕ) (currentLevel proof : List UInt256) : List UInt256 :=
  if 1 < currentLevel.length then
    let pairIndex := if index % 2 = 0 then index + 1 else index - 1
    let proof := proof ++
      [if pairIndex < currentLevel.length then currentLevel.getD pairIndex UInt256.zero
        else currentLevel.getD index UInt256.zero]
    collectProof (index / 2) (levelAbove sha256 currentLevel) proof
  else proof
termination_by currentLevel.length
decreasing_by
  rw [levelAbove_eq]
  exact length_nextLevel_lt _ ‹_›

/-- `MerkleTree::getProof`. -/
def getProof (leaves : List UInt256) (index : ℕ) :
    Except Net.SerializationError (List UInt256) :=
  if index ≥ leaves.length then .error ⟨.LengthExceeded, Cpp.str "Proof index OOB"⟩
  else .ok (collectProof sha256 index leaves [])

theorem collectProof_eq (index : ℕ) (currentLevel proof : List UInt256) :
    collectProof sha256 index currentLevel proof =
      proof ++ siblings (node sha256) UInt256.zero index currentLevel := by
  induction currentLevel using fold.induct (node sha256) generalizing index proof with
  | case1 level hlt ih =>
      rw [collectProof, if_pos hlt, levelAbove_eq, ih, siblings_of_lt hlt, List.append_assoc]
      rfl
  | case2 level hle =>
      rw [collectProof, if_neg hle, siblings_of_le (Nat.not_lt.1 hle), List.append_nil]

/-- **A proof leads to the root that the node computes**, and has an entry for each level. -/
theorem climb_getProof (leaves : List UInt256) (index : Fin leaves.length) :
    ∃ proof, getProof sha256 leaves index = .ok proof ∧
      computeIterative sha256 leaves none =
        .ok (climb (node sha256) index (leaves.get index) proof) ∧
      proof.length = Nat.clog 2 leaves.length := by
  have hleaf : leaves.get index = leaves.getD index UInt256.zero :=
    (List.getD_eq_getElem _ _ index.isLt).symm
  have htakes : takesAll none leaves.length = true := takesAll_none leaves.length
  refine ⟨siblings (node sha256) UInt256.zero index leaves, ?_, ?_, length_siblings _ _⟩
  · rw [getProof, if_neg (Nat.not_le.2 index.isLt), collectProof_eq, List.nil_append]
  · rw [computeIterative_eq, if_pos htakes, hleaf, climb_siblings index.isLt]

end Proofs

end Merkle
