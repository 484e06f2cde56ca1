/-
**The Merkle root of the miner and the Merkle root of the node.**

The miner folds the hashes of its transactions with the double SHA-256 of each pair.  The node
folds the same leaves, on a thread pool where a level is long, and takes the double SHA-256 of
the double SHA-256 of each pair: it hashes four times where the miner hashes twice.

Main definitions:

* `Merkle.Miner.calculateMerkleRoot` — the fold of the miner, over buffers;
* `Merkle.computeIterative` — the fold of the node, over arrays of 32 bytes, with a thread pool
  `Merkle.ThreadPool` that runs its tasks in any order or refuses one;
* `Merkle.Collision` — two texts with the same double SHA-256.

Main results:

* `Merkle.Miner.calculateMerkleRoot_eq`, `Merkle.computeIterative_eq` — both compute a fold by
  pairs, **whatever the order in which the pool runs its tasks**;
* `Merkle.computeIterative_eq_calculateMerkleRoot_iff` — **the roots agree for one leaf, and for
  more leaves only at a collision** of two texts of different length.
-/

import MedorCoin.Js.Bytes
import MedorCoin.Merkle.Fold
import MedorCoin.Net.WireTransaction

set_option autoImplicit false

namespace Merkle

open Js (Bytes bufferToHex bufferFromHex)

/-- Ensures binary-compatible 256-bit hash representation across the system. -/
abbrev UInt256 := Vector UInt8 32

/-- What a new `UInt256` of a vector holds. -/
def UInt256.zero : UInt256 := Vector.replicate 32 0

/-! ### The miner -/

namespace Miner

/-- A transaction, as far as the root reads it. -/
structure Tx where
  hash : Js.Str

section Root

variable (sha256 : Bytes → UInt256)

/-- One turn of the loop over a level: the hash of the pair at `i`. -/
def hashPair (nodes : List Bytes) (i : ℕ) : Bytes :=
  let left := nodes.getD i []
  let right := if i + 1 < nodes.length then nodes.getD (i + 1) [] else left
  let combined := left ++ right
  (sha256 (sha256 combined).toList).toList

/-- The loop over a level. -/
def nextLevel (nodes : List Bytes) : List Bytes :=
  (indices nodes.length).foldl (fun nextLevel i => nextLevel ++ [hashPair sha256 nodes i]) []

/-- What the miner puts above two nodes. -/
def node (left right : Bytes) : Bytes := (sha256 (sha256 (left ++ right)).toList).toList

theorem nextLevel_eq (nodes : List Bytes) :
    nextLevel sha256 nodes = Merkle.nextLevel (node sha256) nodes :=
  foldl_append_indices (node sha256) [] nodes

/-- `while (nodes.length > 1)`. -/
def foldNodes (nodes : List Bytes) : List Bytes :=
  if 1 < nodes.length then foldNodes (nextLevel sha256 nodes) else nodes
termination_by nodes.length
decreasing_by
  rw [nextLevel_eq]
  exact length_nextLevel_lt _ ‹_›

/-- `_calculateMerkleRoot(txs)`. -/
def calculateMerkleRoot (txs : List Tx) : Js.Str :=
  let nodes := txs.map fun tx => bufferFromHex tx.hash
  if nodes.length = 0 then bufferToHex (List.replicate 32 0)
  else bufferToHex ((foldNodes sha256 nodes).getD 0 [])

theorem foldNodes_eq (nodes : List Bytes) : foldNodes sha256 nodes = fold (node sha256) nodes := by
  induction nodes using fold.induct (node sha256) with
  | case1 nodes hlt ih => rw [foldNodes, if_pos hlt, nextLevel_eq, ih, fold_of_lt _ hlt]
  | case2 nodes hle => rw [foldNodes, if_neg hle, fold_of_le _ (by omega)]

end Root

end Miner

/-! ### The node -/

/-- What `get()` throws on a future that stands for no task. -/
inductive FutureError where
  | noState
  deriving DecidableEq

/-- The pool, as far as a fold sees it: the order in which the workers run the tasks it submits
for a level, or none if the queue was full, or the pool was stopping, at one of them. -/
structure ThreadPool where
  run : List ℕ → Option (List ℕ)
  perm : ∀ {tasks order : List ℕ}, run tasks = some order → order.Perm tasks

section Root

variable (sha256 : Bytes → UInt256)

/-- `crypto::doubleSHA256`. -/
def doubleSHA256 (data : Bytes) : UInt256 := sha256 (sha256 data).toList

/-- What a turn of either loop writes: the node above the pair at `i`. -/
def foldPair (layer : List UInt256) (i : ℕ) : UInt256 :=
  let left := layer.getD i UInt256.zero
  let right := if i + 1 < layer.length then layer.getD (i + 1) UInt256.zero else left
  let buffer := left.toList ++ right.toList
  let mid := doubleSHA256 sha256 buffer
  doubleSHA256 sha256 mid.toList

/-- The turns of a loop, in the order in which they are taken: each writes to its own place. -/
def foldPairs (layer : List UInt256) (turns : List ℕ) : List UInt256 :=
  turns.foldl (fun nextLayer i => nextLayer.set (i / 2) (foldPair sha256 layer i))
    (List.replicate ((layer.length + 1) / 2) UInt256.zero)

/-- One level, on the pool above the threshold. -/
def nextLayer (pool : Option ThreadPool) (layer : List UInt256) :
    Except FutureError (List UInt256) :=
  match pool with
  | some pool =>
      if 1024 < layer.length then
        match pool.run (indices layer.length) with
        | some order => .ok (foldPairs sha256 layer order)
        -- a task was refused, and `f.get()` throws when it comes to its future
        | none => .error .noState
      else .ok (foldPairs sha256 layer (indices layer.length))
  | none => .ok (foldPairs sha256 layer (indices layer.length))

/-- What the miner puts above two nodes, as arrays of 32 bytes. -/
def minerNode (left right : UInt256) : UInt256 := doubleSHA256 sha256 (left.toList ++ right.toList)

/-- What the node puts above two nodes. -/
def node (left right : UInt256) : UInt256 :=
  doubleSHA256 sha256 (minerNode sha256 left right).toList

theorem foldPairs_eq {layer : List UInt256} {turns : List ℕ}
    (h : turns.Perm (indices layer.length)) :
    foldPairs sha256 layer turns = nextLevel (node sha256) layer :=
  foldl_set_perm_indices (node sha256) UInt256.zero layer h List.length_replicate

theorem nextLayer_eq_of_ok {pool : Option ThreadPool} {layer next : List UInt256}
    (h : nextLayer sha256 pool layer = .ok next) : next = nextLevel (node sha256) layer := by
  have hserial := foldPairs_eq sha256 (List.Perm.refl (indices layer.length))
  unfold nextLayer at h
  split at h
  · next pool =>
      split at h
      · split at h
        · next order hrun =>
            rw [foldPairs_eq sha256 (pool.perm hrun)] at h
            exact (Except.ok.inj h).symm
        · cases h
      · rw [hserial] at h
        exact (Except.ok.inj h).symm
  · rw [hserial] at h
    exact (Except.ok.inj h).symm

/-- `while (layer.size() > 1)`. -/
def foldLayers (pool : Option ThreadPool) (layer : List UInt256) :
    Except FutureError (List UInt256) :=
  if 1 < layer.length then
    match _h : nextLayer sha256 pool layer with
    | .ok next => foldLayers pool next
    | .error e => .error e
  else .ok layer
termination_by layer.length
decreasing_by
  rw [nextLayer_eq_of_ok sha256 _h]
  exact length_nextLevel_lt _ ‹_›

/-- `MerkleTree::computeIterative`.  There is no `layer[0]` in an empty vector, and what is read
there is undefined. -/
def computeIterative (layer : List UInt256) (pool : Option ThreadPool) :
    Except FutureError UInt256 :=
  (foldLayers sha256 pool layer).map fun layer => layer.getD 0 UInt256.zero

end Root

/-! ### Both roots are folds -/

/-- The pool takes every task of a level of `n` nodes, if they are run on it. -/
def takesLevel (pool : Option ThreadPool) (n : ℕ) : Bool :=
  match pool with
  | some pool => decide (n ≤ 1024) || (pool.run (indices n)).isSome
  | none => true

/-- **The pool takes every task** of the fold of `n` leaves. -/
def takesAll (pool : Option ThreadPool) (n : ℕ) : Bool :=
  if 1 < n then takesLevel pool n && takesAll pool ((n + 1) / 2) else true

theorem takesAll_of_le (pool : Option ThreadPool) {n : ℕ} (h : n ≤ 1) : takesAll pool n = true := by
  rw [takesAll, if_neg (by omega)]

theorem takesAll_none (n : ℕ) : takesAll none n = true := by
  induction n using Nat.strong_induction_on with
  | h n ih =>
      rw [takesAll]
      split
      · next hlt => rw [takesLevel, Bool.true_and, ih ((n + 1) / 2) (by omega)]
      · rfl

section Folds

variable (sha256 : Bytes → UInt256)

theorem nextLayer_eq (pool : Option ThreadPool) (layer : List UInt256) :
    nextLayer sha256 pool layer =
      if takesLevel pool layer.length then .ok (nextLevel (node sha256) layer)
      else .error .noState := by
  have hserial := foldPairs_eq sha256 (List.Perm.refl (indices layer.length))
  cases pool with
  | none => simp [nextLayer, takesLevel, hserial]
  | some pool =>
      by_cases hlong : 1024 < layer.length
      · cases hrun : pool.run (indices layer.length) with
        | none => simp [nextLayer, takesLevel, hlong, hrun]
        | some order =>
            simp [nextLayer, takesLevel, hlong, hrun, foldPairs_eq sha256 (pool.perm hrun)]
      · simp [nextLayer, takesLevel, hlong, hserial, Nat.le_of_not_lt hlong]

theorem foldLayers_of_lt {pool : Option ThreadPool} {layer : List UInt256}
    (h : 1 < layer.length) :
    foldLayers sha256 pool layer = (nextLayer sha256 pool layer).bind (foldLayers sha256 pool) := by
  rw [foldLayers, if_pos h]
  split
  · next hnext => rw [hnext]; rfl
  · next hnext => rw [hnext]; rfl

theorem foldLayers_eq (pool : Option ThreadPool) (layer : List UInt256) :
    foldLayers sha256 pool layer =
      if takesAll pool layer.length then .ok (fold (node sha256) layer)
      else .error .noState := by
  induction layer using fold.induct (node sha256) with
  | case1 layer hlt ih =>
      rw [length_nextLevel] at ih
      rw [foldLayers_of_lt sha256 hlt, nextLayer_eq, takesAll, if_pos hlt, fold_of_lt _ hlt]
      cases takesLevel pool layer.length with
      | false => rfl
      | true => exact ih
  | case2 layer hle =>
      rw [foldLayers, if_neg hle, takesAll_of_le pool (by omega), fold_of_le _ (by omega),
        if_pos rfl]

/-- **The root of the node is a fold**, whatever the order in which the pool runs its tasks. -/
theorem computeIterative_eq (pool : Option ThreadPool) (layer : List UInt256) :
    computeIterative sha256 layer pool =
      if takesAll pool layer.length then
        .ok ((fold (node sha256) layer).getD 0 UInt256.zero)
      else .error .noState := by
  rw [computeIterative, foldLayers_eq]
  split
  · rfl
  · rfl

/-- **The root of the miner is a fold** of the same leaves. -/
theorem Miner.calculateMerkleRoot_eq {txs : List Tx} {leaves : List UInt256}
    (htxs : txs.map (fun tx => bufferFromHex tx.hash) = leaves.map Vector.toList)
    (hne : leaves ≠ []) :
    calculateMerkleRoot sha256 txs =
      bufferToHex ((fold (minerNode sha256) leaves).getD 0 UInt256.zero).toList := by
  have hlength : leaves.length ≠ 0 := fun h => hne (List.length_eq_zero_iff.1 h)
  have hmap : fold (Miner.node sha256) (leaves.map Vector.toList) =
      (fold (minerNode sha256) leaves).map Vector.toList := fold_map (fun _ _ => rfl) leaves
  rw [calculateMerkleRoot, htxs, if_neg (by simpa using hlength), foldNodes_eq, hmap]
  rcases List.length_eq_one_iff.1 (length_fold (minerNode sha256) hne) with ⟨root, hroot⟩
  rw [hroot]
  rfl

end Folds

/-! ### When the roots agree -/

section Agreement

variable (sha256 : Bytes → UInt256)

/-- **Two different texts with the same double SHA-256.** -/
def Collision (x y : Bytes) : Prop := x ≠ y ∧ doubleSHA256 sha256 x = doubleSHA256 sha256 y

/-- The block of 64 bytes that the miner hashes last. -/
def lastBlock (leaves : List UInt256) : Bytes :=
  (lastLevel (minerNode sha256) leaves).flatMap Vector.toList

/-- The 32 bytes that the node hashes last, the double SHA-256 of its own last block. -/
def lastMid (leaves : List UInt256) : Bytes :=
  (doubleSHA256 sha256 ((lastLevel (node sha256) leaves).flatMap Vector.toList)).toList

theorem folds_eq_iff {leaves : List UInt256} (h : 1 < leaves.length) :
    (fold (node sha256) leaves).getD 0 UInt256.zero =
        (fold (minerNode sha256) leaves).getD 0 UInt256.zero ↔
      Collision sha256 (lastBlock sha256 leaves) (lastMid sha256 leaves) := by
  obtain ⟨a, b, hminer, hroot⟩ := fold_eq_lastLevel (minerNode sha256) h
  obtain ⟨c, d, hnode, hroot'⟩ := fold_eq_lastLevel (node sha256) h
  have hblock : lastBlock sha256 leaves = a.toList ++ b.toList := by simp [lastBlock, hminer]
  have hmid : lastMid sha256 leaves = (minerNode sha256 c d).toList := by
    simp [lastMid, hnode, minerNode]
  -- a block has 64 bytes and a mid value 32
  have hne : a.toList ++ b.toList ≠ (minerNode sha256 c d).toList := by
    intro heq
    have hlength := congrArg List.length heq
    simp at hlength
  rw [hroot, hroot', hblock, hmid]
  exact ⟨fun heq => ⟨hne, heq.symm⟩, fun hcollision => hcollision.2.symm⟩

/-- **The node computes the root of the miner for one leaf, and for more leaves only where the pool
takes every task and the last block of the miner and the last mid value of the node collide.** -/
theorem computeIterative_eq_calculateMerkleRoot_iff (pool : Option ThreadPool)
    {txs : List Miner.Tx} {leaves : List UInt256}
    (htxs : txs.map (fun tx => bufferFromHex tx.hash) = leaves.map Vector.toList)
    (hne : leaves ≠ []) :
    (computeIterative sha256 leaves pool).map (fun root => bufferToHex root.toList) =
        .ok (Miner.calculateMerkleRoot sha256 txs) ↔
      leaves.length = 1 ∨
        takesAll pool leaves.length ∧
          Collision sha256 (lastBlock sha256 leaves) (lastMid sha256 leaves) := by
  have hpos : leaves.length ≠ 0 := fun h => hne (List.length_eq_zero_iff.1 h)
  rw [computeIterative_eq, Miner.calculateMerkleRoot_eq sha256 htxs hne]
  by_cases hone : leaves.length = 1
  · -- a single leaf is its own root, and nothing is hashed
    have hle : leaves.length ≤ 1 := Nat.le_of_eq hone
    rw [takesAll_of_le pool hle, if_pos rfl, fold_of_le _ hle, fold_of_le _ hle]
    exact ⟨fun _ => Or.inl hone, fun _ => rfl⟩
  · rw [← folds_eq_iff sha256 (show 1 < leaves.length by omega)]
    cases takesAll pool leaves.length with
    | false => simp [hone, Except.map]
    | true =>
        simp only [if_true, Except.map, Except.ok.injEq, hone, false_or, true_and]
        constructor
        · intro heq
          exact Vector.toList_inj.1 (Js.bufferToHex_injective heq)
        · intro heq
          rw [heq]

end Agreement

/-! ### Leaves of a block -/

/-- The transaction with a hash. -/
def Miner.txOf (leaf : UInt256) : Tx := ⟨bufferToHex leaf.toList⟩

theorem Miner.map_txOf (leaves : List UInt256) :
    (leaves.map txOf).map (fun tx => bufferFromHex tx.hash) = leaves.map Vector.toList := by
  simp [txOf]

def sampleLeaves : List UInt256 := [Vector.replicate 32 1, Vector.replicate 32 2]

theorem computeIterative_eq_calculateMerkleRoot_iff_sampleLeaf :
    (computeIterative Net.sha256Digest [Vector.replicate 32 1] none).map
        (fun root => bufferToHex root.toList) =
      .ok (Miner.calculateMerkleRoot Net.sha256Digest [Miner.txOf (Vector.replicate 32 1)]) :=
  (computeIterative_eq_calculateMerkleRoot_iff Net.sha256Digest none
    (Miner.map_txOf [Vector.replicate 32 1]) (List.cons_ne_nil _ _)).2 (Or.inl rfl)

theorem node_ne_minerNode_sampleLeaves :
    node Net.sha256Digest (Vector.replicate 32 1) (Vector.replicate 32 2) ≠
      minerNode Net.sha256Digest (Vector.replicate 32 1) (Vector.replicate 32 2) := by
  intro h
  have hfirst := congrArg (fun root : UInt256 => root[0]) h
  revert hfirst
  decide +kernel

/-- **The roots of two leaves differ.** -/
theorem computeIterative_ne_calculateMerkleRoot :
    ¬ ∀ (pool : Option ThreadPool) (txs : List Miner.Tx) (leaves : List UInt256),
      txs.map (fun tx => bufferFromHex tx.hash) = leaves.map Vector.toList → leaves ≠ [] →
        (computeIterative Net.sha256Digest leaves pool).map (fun root => bufferToHex root.toList) =
          .ok (Miner.calculateMerkleRoot Net.sha256Digest txs) := by
  intro h
  have htxs := Miner.map_txOf sampleLeaves
  have hne : sampleLeaves ≠ [] := List.cons_ne_nil _ _
  have hroots := h none _ sampleLeaves htxs hne
  have htakes : takesAll none sampleLeaves.length = true := by
    simp [sampleLeaves, takesAll, takesLevel]
  rw [computeIterative_eq, htakes, if_pos rfl, Miner.calculateMerkleRoot_eq _ htxs hne,
    sampleLeaves, fold_pair, fold_pair] at hroots
  have hhex := Js.bufferToHex_injective (Except.ok.inj hroots)
  exact node_ne_minerNode_sampleLeaves (Vector.toList_inj.1 hhex)

end Merkle
