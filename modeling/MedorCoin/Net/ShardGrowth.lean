/-
**The shards of the peer manager.**

The peers are kept in several maps, the shards: a peer is in the one whose index is the hash of its
id modulo the number of shards.  When there are more than eight peers for each shard, the number is
doubled, up to 1024, and every peer is moved to the shard of its id for the new number.  A manager
that starts with more than 1024 shards is cut down to 1024 then; the shards beyond stay, empty.

The hash is any function.  What a shard holds of a peer is of no consequence here.

Main definitions:

* `Net.PeerShards`, with `shardFor`, `find`, `peerCount`, `maybeGrowShards`;
* `Net.PeerShards.Sound` — the published number of shards exist, and every peer is in its own;
* `Net.ShardedPeers` — shards that are sound;
* `Net.ShardedPeers.step`, `Net.ShardedPeers.mapStep` — a call, and what it is on one map.

Main results:

* `Net.PeerShards.Sound.maybeGrowShards`, `Net.PeerShards.Sound.find_maybeGrowShards`,
  `Net.PeerShards.Sound.peerCount_maybeGrowShards` — **growth loses nothing**;
* `Net.ShardedPeers.find_run` — **the shards are one map**, over every run.
-/

import MedorCoin.Cpp.Text
import MedorCoin.Ledger.Table

set_option autoImplicit false

namespace Net

open Cpp Ledger

/-- The vector of shards and the number of them that is published.  Both count what is in memory,
so that eight times the number is a `size_t`. -/
structure PeerShards (α : Type) where
  shards : List (AList fun _ : Str => α)
  shardCount : ℕ

namespace PeerShards

variable {α : Type} (hash : Str → ℕ)

def shardIndex (id : Str) (count : ℕ) : ℕ := hash id % count

/-- `shardFor`; `none` for an access outside the vector. -/
def shardFor (s : PeerShards α) (id : Str) : Option (AList fun _ : Str => α) :=
  s.shards[shardIndex hash id s.shardCount]?

/-- What `shardFor(id).find(id)` points to. -/
def find (s : PeerShards α) (id : Str) : Option α :=
  (shardFor hash s id).bind fun shard => shard.lookup id

/-- `peerCount`, over the shards that are published. -/
def peerCount (s : PeerShards α) : ℕ :=
  ((s.shards.take s.shardCount).map fun shard => shard.entries.length).sum

/-- `maybeGrowShards`, by a thread that is alone. -/
def maybeGrowShards (s : PeerShards α) : PeerShards α :=
  let current := s.shardCount
  if peerCount s ≤ current * 8 then s
  else
    let next := min (current * 2) 1024
    if next = current then s
    else
      -- the peers, shard after shard, into new maps
      let newMaps := spread (fun key => shardIndex hash key next) (List.replicate next ∅)
        ((s.shards.take current).flatMap AList.entries)
      let cleared := (s.shards.take current).map (fun _ => ∅) ++ s.shards.drop current
      let extended := cleared ++ List.replicate (next - cleared.length) ∅
      -- the new maps replace the first shards
      { shards := newMaps ++ extended.drop next, shardCount := next }

/-- **Sound shards**: those that are published exist, and every peer is in its own. -/
structure Sound (s : PeerShards α) : Prop where
  pos : 0 < s.shardCount
  count_le : s.shardCount ≤ s.shards.length
  placed : Placed (fun id => shardIndex hash id s.shardCount) s.shards

variable {hash} {s : PeerShards α}

theorem Sound.shardIndex_lt (h : s.Sound hash) (id : Str) :
    shardIndex hash id s.shardCount < s.shardCount := Nat.mod_lt _ h.pos

theorem Sound.find_eq (h : s.Sound hash) (id : Str) :
    find hash s id =
      (s.shards.take s.shardCount)[shardIndex hash id s.shardCount]?.bind fun shard =>
        shard.lookup id := by
  rw [List.getElem?_take_of_lt (h.shardIndex_lt id)]
  rfl

theorem Sound.find_eq_some (h : s.Sound hash) (id : Str) (peer : α) :
    find hash s id = some peer ↔
      ⟨id, peer⟩ ∈ (s.shards.take s.shardCount).flatMap AList.entries := by
  rw [h.find_eq]
  exact (h.placed.take s.shardCount).lookup_iff id peer

theorem peerCount_eq (s : PeerShards α) :
    peerCount s = ((s.shards.take s.shardCount).flatMap AList.entries).length :=
  List.length_flatMap.symm

theorem Sound.eq_empty (h : s.Sound hash) {i : ℕ} {shard : AList fun _ : Str => α}
    (hi : s.shards[i]? = some shard) (hbeyond : s.shardCount ≤ i) (id : Str) : id ∉ shard := by
  intro hmem
  have hplace : shardIndex hash id s.shardCount = i := h.placed i shard hi id hmem
  have hlt := h.shardIndex_lt id
  omega

/-! ### Changes of one shard -/

/-- A change of the shard of an id. -/
def modifyFor (hash : Str → ℕ) (s : PeerShards α) (id : Str)
    (f : (AList fun _ : Str => α) → AList fun _ : Str => α) : PeerShards α :=
  { s with shards := s.shards.modify (shardIndex hash id s.shardCount) f }

/-- `addPeer`, once the peer is not refused: under the lock of its shard. -/
def addPeer (hash : Str → ℕ) (s : PeerShards α) (id : Str) (peer : α) : PeerShards α :=
  modifyFor hash s id fun shard => emplace shard ⟨id, peer⟩

/-- `removePeer`, under the lock of the shard. -/
def removePeer (hash : Str → ℕ) (s : PeerShards α) (id : Str) : PeerShards α :=
  modifyFor hash s id fun shard => shard.erase id

section Changes

variable {id : Str} {f : (AList fun _ : Str => α) → AList fun _ : Str => α}

theorem Sound.modifyFor (h : s.Sound hash)
    (hf : ∀ shard id', id' ∈ f shard → id' = id ∨ id' ∈ shard) :
    Sound hash (modifyFor hash s id f) where
  pos := h.pos
  count_le := by
    rw [PeerShards.modifyFor, List.length_modify]
    exact h.count_le
  placed := by
    intro i shard hi id' hid'
    rw [PeerShards.modifyFor, List.getElem?_modify, Option.map_eq_map,
      Option.map_eq_some_iff] at hi
    obtain ⟨old, hold, rfl⟩ := hi
    split at hid'
    · next hplace =>
        rcases hf old id' hid' with rfl | hmem
        · exact hplace
        · exact h.placed i old hold id' hmem
    · exact h.placed i old hold id' hid'

theorem find_modifyFor (s : PeerShards α)
    (hf : ∀ shard id', id' ≠ id → (f shard).lookup id' = shard.lookup id') (id' : Str) :
    find hash (PeerShards.modifyFor hash s id f) id' =
      if id' = id then (shardFor hash s id).bind fun shard => (f shard).lookup id
      else find hash s id' := by
  rw [find, shardFor, PeerShards.modifyFor, List.getElem?_modify, Option.map_eq_map,
    Option.bind_map]
  by_cases heq : id' = id
  · rw [if_pos heq, heq]
    simp [shardFor]
  · rw [if_neg heq]
    refine Option.bind_congr fun shard _ => ?_
    rw [Function.comp_apply]
    split
    · exact hf shard id' heq
    · rfl

theorem Sound.addPeer (h : s.Sound hash) (id : Str) (peer : α) :
    Sound hash (addPeer hash s id peer) :=
  h.modifyFor fun shard id' hid' => by
    by_cases heq : id' = id
    · exact Or.inl heq
    · rw [← AList.lookup_isSome, lookup_emplace_ne shard heq, AList.lookup_isSome] at hid'
      exact Or.inr hid'

theorem Sound.removePeer (h : s.Sound hash) (id : Str) : Sound hash (removePeer hash s id) :=
  h.modifyFor fun _ _ hid' => Or.inr (AList.mem_erase.1 hid').2

theorem Sound.find_addPeer (h : s.Sound hash) (peer : α) (id' : Str) :
    find hash (PeerShards.addPeer hash s id peer) id' =
      if id' = id then (find hash s id).or (some peer) else find hash s id' := by
  have hkept : ∀ shard id', id' ≠ id →
      (emplace shard (⟨id, peer⟩ : Σ _ : Str, α)).lookup id' = shard.lookup id' :=
    fun shard _ hne => lookup_emplace_ne shard hne
  rw [PeerShards.addPeer, find_modifyFor s hkept]
  have hexists : shardIndex hash id s.shardCount < s.shards.length :=
    Nat.lt_of_lt_of_le (h.shardIndex_lt id) h.count_le
  split
  · rw [find, shardFor, List.getElem?_eq_getElem hexists, Option.bind_some, Option.bind_some]
    exact lookup_emplace_self _ ⟨id, peer⟩
  · rfl

theorem find_removePeer (s : PeerShards α) (id id' : Str) :
    find hash (PeerShards.removePeer hash s id) id' =
      if id' = id then none else find hash s id' := by
  rw [PeerShards.removePeer, find_modifyFor s fun shard _ hne => AList.lookup_erase_ne hne]
  split
  · simp
  · rfl

end Changes

/-! ### Growth -/

/-- New shards for the peers of the old ones, and some shards beyond. -/
def moved (hash : Str → ℕ) (s : PeerShards α) (next : ℕ)
    (rest : List (AList fun _ : Str => α)) : PeerShards α where
  shards := spread (fun key => shardIndex hash key next) (List.replicate next ∅)
    ((s.shards.take s.shardCount).flatMap AList.entries) ++ rest
  shardCount := next

theorem Sound.maybeGrowShards_cases (h : s.Sound hash) :
    maybeGrowShards hash s = s ∨
      ∃ next rest, 0 < next ∧ (∀ shard ∈ rest, ∀ id, id ∉ shard) ∧
        maybeGrowShards hash s = moved hash s next rest := by
  simp only [maybeGrowShards]
  split
  · exact Or.inl rfl
  · split
    · exact Or.inl rfl
    · refine Or.inr ⟨_, _, ?_, ?_, rfl⟩
      · have hpos := h.pos
        omega
      · intro shard hmem id
        -- a shard beyond was cleared, was never used or is new
        rcases List.mem_append.1 (List.mem_of_mem_drop hmem) with hold | hnew
        · rcases List.mem_append.1 hold with hcleared | hunused
          · obtain ⟨_, _, rfl⟩ := List.mem_map.1 hcleared
            exact AList.notMem_empty id
          · obtain ⟨i, hi⟩ := List.mem_iff_getElem?.1 hunused
            rw [List.getElem?_drop] at hi
            exact h.eq_empty hi (Nat.le_add_right _ _) id
        · rw [(List.mem_replicate.1 hnew).2]
          exact AList.notMem_empty id

section Moved

variable {next : ℕ} {rest : List (AList fun _ : Str => α)}

theorem Sound.nodupKeys_entries (h : s.Sound hash) :
    ((s.shards.take s.shardCount).flatMap AList.entries).NodupKeys :=
  (h.placed.take s.shardCount).nodupKeys

theorem length_spread_replicate (hash : Str → ℕ) (entries : List (Σ _ : Str, α)) (next : ℕ) :
    (spread (fun key => shardIndex hash key next) (List.replicate next ∅) entries).length =
      next := by
  rw [length_spread, List.length_replicate]

/-- Moving the peers keeps the shards sound. -/
theorem Sound.moved (h : s.Sound hash) (hpos : 0 < next)
    (hrest : ∀ shard ∈ rest, ∀ id, id ∉ shard) : Sound hash (moved hash s next rest) where
  pos := hpos
  count_le := by
    rw [PeerShards.moved, List.length_append, length_spread_replicate]
    exact Nat.le_add_right _ _
  placed := by
    intro i shard hi id hid
    rw [PeerShards.moved, List.getElem?_append] at hi
    split at hi
    · exact placed_spread _ next h.nodupKeys_entries i shard hi id hid
    · exact absurd hid (hrest shard (List.mem_of_getElem? hi) id)

/-- **A peer is found where it has been moved**, with the same data. -/
theorem Sound.find_moved (h : s.Sound hash) (hpos : 0 < next) (id : Str) :
    find hash (PeerShards.moved hash s next rest) id = find hash s id := by
  have hlt : shardIndex hash id next <
      (spread (fun key => shardIndex hash key next) (List.replicate next ∅)
        ((s.shards.take s.shardCount).flatMap AList.entries)).length := by
    rw [length_spread_replicate]
    exact Nat.mod_lt _ hpos
  refine Option.ext fun peer => ?_
  rw [h.find_eq_some, find, shardFor, PeerShards.moved, List.getElem?_append_left hlt,
    List.getElem?_eq_getElem hlt, Option.bind_some,
    lookup_spread h.nodupKeys_entries (List.getElem?_eq_getElem hlt) id peer]
  exact ⟨And.right, fun hmem => ⟨rfl, hmem⟩⟩

end Moved

/-- Growth keeps the shards sound. -/
theorem Sound.maybeGrowShards (h : s.Sound hash) : Sound hash (maybeGrowShards hash s) := by
  rcases h.maybeGrowShards_cases with heq | ⟨next, rest, hpos, hrest, heq⟩
  · rw [heq]
    exact h
  · rw [heq]
    exact h.moved hpos hrest

theorem Sound.find_maybeGrowShards (h : s.Sound hash) (id : Str) :
    find hash (PeerShards.maybeGrowShards hash s) id = find hash s id := by
  rcases h.maybeGrowShards_cases with heq | ⟨next, rest, hpos, _, heq⟩
  · rw [heq]
  · rw [heq, h.find_moved hpos]

theorem Sound.peerCount_eq_of_find (h : s.Sound hash) {t : PeerShards α} (ht : t.Sound hash)
    (hfind : ∀ id, find hash t id = find hash s id) : peerCount t = peerCount s := by
  rw [peerCount_eq, peerCount_eq]
  refine (h.placed.take _).length_eq (ht.placed.take _) fun id => ?_
  rw [← ht.find_eq, ← h.find_eq, hfind]

theorem Sound.eq_of_mem (h : s.Sound hash) {i j : ℕ} {shard shard' : AList fun _ : Str => α}
    (hi : s.shards[i]? = some shard) (hj : s.shards[j]? = some shard') {id : Str} (hid : id ∈ shard)
    (hid' : id ∈ shard') : i = j :=
  (h.placed i shard hi id hid).symm.trans (h.placed j shard' hj id hid')

end PeerShards

/-! ### The manager over its calls -/

/-- Shards that are sound. -/
structure ShardedPeers (hash : Str → ℕ) (α : Type) where
  state : PeerShards α
  sound : state.Sound hash

namespace ShardedPeers

open PeerShards

variable {α : Type} {hash : Str → ℕ}

/-- The constructor: `peerMapShards` empty shards, one at least. -/
def create (hash : Str → ℕ) (peerMapShards : ℕ) : ShardedPeers hash α where
  state :=
    { shards := List.replicate (max 1 peerMapShards) ∅
      shardCount := max 1 peerMapShards }
  sound :=
    { pos := Nat.lt_of_lt_of_le Nat.one_pos (le_max_left _ _)
      count_le := by rw [List.length_replicate]
      placed := by
        intro i shard hi id hid
        rw [(List.mem_replicate.1 (List.mem_of_getElem? hi)).2] at hid
        exact absurd hid (AList.notMem_empty id) }

theorem find_create (peerMapShards : ℕ) :
    find hash (create (α := α) hash peerMapShards).state = fun _ => none := by
  funext id
  rw [find, Option.bind_eq_none_iff]
  intro shard hshard
  rw [(List.mem_replicate.1 (List.mem_of_getElem? hshard)).2, AList.lookup_empty]

/-- **Growth loses nothing**: every peer is found under its id with the same data, none is in two
shards, there are as many as before, and the shards that are published exist. -/
theorem growth_loses_nothing (p : ShardedPeers hash α) :
    (∀ id, find hash (maybeGrowShards hash p.state) id = find hash p.state id) ∧
      (∀ (i j : ℕ) (shard shard' : AList fun _ : Str => α) (id : Str),
        (maybeGrowShards hash p.state).shards[i]? = some shard →
        (maybeGrowShards hash p.state).shards[j]? = some shard' →
        id ∈ shard → id ∈ shard' → i = j) ∧
      peerCount (maybeGrowShards hash p.state) = peerCount p.state ∧
      ∀ i < (maybeGrowShards hash p.state).shardCount,
        ∃ shard, (maybeGrowShards hash p.state).shards[i]? = some shard := by
  have hgrown := p.sound.maybeGrowShards
  refine ⟨p.sound.find_maybeGrowShards, ?_, ?_, ?_⟩
  · intro i j shard shard' id hi hj hid hid'
    exact hgrown.eq_of_mem hi hj hid hid'
  · exact p.sound.peerCount_eq_of_find hgrown p.sound.find_maybeGrowShards
  · intro i hi
    exact ⟨_, List.getElem?_eq_getElem (Nat.lt_of_lt_of_le hi hgrown.count_le)⟩

/-- A call of the manager, as far as the shards are concerned. -/
inductive Call (α : Type)
  | addPeer (id : Str) (peer : α)
  | removePeer (id : Str)
  | maybeGrowShards

/-- What a call does to the shards. -/
def step (p : ShardedPeers hash α) : Call α → ShardedPeers hash α
  | .addPeer id peer => ⟨_, p.sound.addPeer id peer⟩
  | .removePeer id => ⟨_, p.sound.removePeer id⟩
  | .maybeGrowShards => ⟨_, p.sound.maybeGrowShards⟩

/-- What a call does to one map of all peers, which knows of no shards. -/
def mapStep (peers : Str → Option α) : Call α → Str → Option α
  | .addPeer id peer => Function.update peers id ((peers id).or (some peer))
  | .removePeer id => Function.update peers id none
  | .maybeGrowShards => peers

theorem find_step (p : ShardedPeers hash α) (call : Call α) :
    find hash (p.step call).state = mapStep (find hash p.state) call := by
  funext id'
  cases call with
  | addPeer id peer => rw [mapStep, Function.update_apply, step, p.sound.find_addPeer]
  | removePeer id => rw [mapStep, Function.update_apply, step, find_removePeer]
  | maybeGrowShards => exact p.sound.find_maybeGrowShards id'

theorem find_foldl_step (p : ShardedPeers hash α) (calls : List (Call α)) :
    find hash (calls.foldl step p).state = calls.foldl mapStep (find hash p.state) := by
  induction calls generalizing p with
  | nil => rfl
  | cons call calls ih => rw [List.foldl_cons, List.foldl_cons, ih, find_step]

/-- **The shards are one map**, over every run: what is found under an id does not depend on the
hash, on the number of shards or on when they have grown. -/
theorem find_run (peerMapShards : ℕ) (calls : List (Call α)) :
    find hash (calls.foldl step (create hash peerMapShards)).state =
      calls.foldl mapStep fun _ => none := by
  rw [find_foldl_step, find_create]

end ShardedPeers

end Net
