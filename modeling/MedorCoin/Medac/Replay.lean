/-
**Replay reproduces the live state.**

The journal and the peers keep the blocks of a chain as JSON texts.  This module shows that reading
them back and applying them from the genesis state, later than they were first applied, succeeds
at every block and leads to the very same state.  A chain object rebuilds its state from a list of
blocks in three places: from its journal, from a candidate of a peer, and when it is opened.  How
such a replay depends on the clock is said here too, and that the stored blocks of a state lead back
to it.

Main results:

* `Medac.applyBlocks_replay` — from any state the blocks a run appended lead to its result;
* `Medac.replay_reproduces` — **replay reproduces the live state**;
* `Medac.replayBlocks_later` — what replays, replays later, to the same state;
* `Medac.replayBlocks_unique` — a list leads to one state;
* `Medac.replayBlocks_append` — a replay goes on where it stopped;
* `Medac.replayBlocks_stored` — **the blocks of a state lead back to it**.
-/

import MedorCoin.Medac.Chain
import MedorCoin.Medac.Mine

set_option autoImplicit false

namespace Medac

open Js

/-! ### The live state -/

section Live

variable {c : Crypto} {s s' : State}

/-- An accepted block is accepted in its stored form, by the same state and with the same
result, at any later time. -/
theorem applyMinedBlock_stored {now now' : ℕ} {block : Json}
    (h : applyMinedBlock c now s block = .ok s') (hnow : now ≤ now') :
    ∃ b, s'.blocks = s.blocks ++ [b] ∧ applyMinedBlock c now' s b.toJson = .ok s' := by
  obtain ⟨hs, b, reward, l, -, haccepts, rfl⟩ := applyMinedBlock_eq_ok.1 h
  refine ⟨b, rfl, applyMinedBlock_eq_ok.2 ⟨hs, b, reward, l, ?_, haccepts.later hnow, rfl⟩⟩
  exact haccepts.readFrom_toJson

/-- **From any state the blocks a run appended lead to its result**, on clocks that are not
earlier. -/
theorem applyBlocks_replay {inputs : List (ℕ × Json)} {clocks : List ℕ}
    (h : applyBlocks c s inputs = .ok s')
    (hclocks : List.Forall₂ (· ≤ ·) (inputs.map Prod.fst) clocks) :
    ∃ blocks, s'.blocks = s.blocks ++ blocks ∧
      applyBlocks c s (clocks.zip (blocks.map Block.toJson)) = .ok s' := by
  induction inputs generalizing s clocks with
  | nil =>
      cases hclocks
      obtain rfl := foldlM_nil_eq_ok.1 h
      exact ⟨[], by simp, rfl⟩
  | cons input inputs ih =>
      cases hclocks with
      | cons hnow hclocks =>
          obtain ⟨s₁, hfirst, hrest⟩ := foldlM_cons_eq_ok.1 h
          obtain ⟨b, hb, hstored⟩ := applyMinedBlock_stored hfirst hnow
          obtain ⟨blocks, hblocks, hreplay⟩ := ih hrest hclocks
          refine ⟨b :: blocks, by rw [hblocks, hb, List.append_assoc, List.singleton_append], ?_⟩
          exact foldlM_cons_eq_ok.2 ⟨s₁, hstored, hreplay⟩

/-- **Replay reproduces the live state.**  Whatever blocks led from the genesis state of a network
to a state, its own blocks survive the trip through their texts, and applying them from the genesis
state, on clocks that are not earlier, succeeds at every block and leads to the same state. -/
theorem replay_reproduces {options : ConsensusOptions} {genesis : State}
    {inputs : List (ℕ × Json)} {clocks : List ℕ}
    (hgenesis : createGenesisState c options = .ok genesis)
    (h : applyBlocks c genesis inputs = .ok s)
    (hclocks : List.Forall₂ (· ≤ ·) (inputs.map Prod.fst) clocks) :
    ∃ stored, s.blocks.map (fun b => Json.parse (Json.stringify b.toJson)) = stored.map some ∧
      applyBlocks c genesis (clocks.zip stored) = .ok s := by
  obtain ⟨config, -, rfl⟩ := createGenesisState_eq_ok.1 hgenesis
  obtain ⟨blocks, hblocks, hreplay⟩ := applyBlocks_replay h hclocks
  have hall : s.blocks = blocks := by simpa [genesisState] using hblocks
  refine ⟨s.blocks.map Block.toJson, ?_, by rw [hall]; exact hreplay⟩
  rw [List.map_map]
  exact List.map_congr_left fun b _ => Json.parse_stringify b.plain_toJson

def sampleInputs : List (ℕ × Json) :=
  [(1000, (sampleBlock sampleGenesis 1000 []).toJson),
    (2000, (sampleBlock sampleFirst 2000 [sampleTransaction]).toJson)]

theorem applyBlocks_sampleInputs :
    applyBlocks sampleCrypto sampleGenesis sampleInputs = .ok sampleChain := by
  have hgenesis := genesisState_valid (c := sampleCrypto) sampleConsensus
  have hfirst := sampleFirst_accepts.next_valid hgenesis
  refine foldlM_cons_eq_ok.2 ⟨sampleFirst, ?_, foldlM_cons_eq_ok.2 ⟨sampleChain, ?_, rfl⟩⟩
  · exact applyMinedBlock_eq_ok.2
      ⟨hgenesis, _, _, _, sampleFirst_accepts.readFrom_toJson, sampleFirst_accepts, rfl⟩
  · exact applyMinedBlock_eq_ok.2
      ⟨hfirst, _, _, _, sampleChain_accepts.readFrom_toJson, sampleChain_accepts, rfl⟩

theorem replay_reproduces_sampleChain :
    ∃ stored, sampleChain.blocks.map (fun b => Json.parse (Json.stringify b.toJson)) =
        stored.map some ∧
      applyBlocks sampleCrypto sampleGenesis ([1500, 2500].zip stored) = .ok sampleChain := by
  have hgenesis : createGenesisState sampleCrypto sampleConsensus.toOptions = .ok sampleGenesis :=
    createGenesisState_eq_ok.2 ⟨_, parseConsensusConfig_toOptions _, rfl⟩
  have hclocks : List.Forall₂ (· ≤ ·) (sampleInputs.map Prod.fst) [1500, 2500] := by
    simp [sampleInputs]
  exact replay_reproduces hgenesis applyBlocks_sampleInputs hclocks

end Live

/-! ### Replaying whole chains -/

section Whole

variable {c : Crypto} {s s' : State} {options : ConsensusOptions} {config : Consensus}
  {clock clock' : ℕ → ℕ} {blocks : List Json}

theorem timed_cons (clock : ℕ → ℕ) (b : Json) (blocks : List Json) :
    timed clock (b :: blocks) = (clock 0, b) :: timed (fun i => clock (i + 1)) blocks := by
  rw [timed, List.mapIdx_cons]
  rfl

theorem timed_append (clock : ℕ → ℕ) (blocks blocks' : List Json) :
    timed clock (blocks ++ blocks') =
      timed clock blocks ++ timed (fun i => clock (blocks.length + i)) blocks' := by
  rw [timed, List.mapIdx_append, timed, timed]
  simp only [Nat.add_comm]

theorem applyMinedBlock_later {now now' : ℕ} {block : Json}
    (h : applyMinedBlock c now s block = .ok s') (hnow : now ≤ now') :
    applyMinedBlock c now' s block = .ok s' := by
  obtain ⟨hs, b, reward, l, hread, haccepts, rfl⟩ := applyMinedBlock_eq_ok.1 h
  exact applyMinedBlock_eq_ok.2 ⟨hs, b, reward, l, hread, haccepts.later hnow, rfl⟩

theorem applyBlocks_timed_later (h : applyBlocks c s (timed clock blocks) = .ok s')
    (hclock : ∀ i, clock i ≤ clock' i) : applyBlocks c s (timed clock' blocks) = .ok s' := by
  induction blocks generalizing s clock clock' with
  | nil => exact h
  | cons b blocks ih =>
      rw [timed_cons] at h ⊢
      obtain ⟨s₁, hfirst, hrest⟩ := foldlM_cons_eq_ok.1 h
      exact foldlM_cons_eq_ok.2
        ⟨s₁, applyMinedBlock_later hfirst (hclock 0), ih hrest fun i => hclock (i + 1)⟩

/-- **What replays, replays later**, to the same state. -/
theorem replayBlocks_later (h : replayBlocks c options clock blocks = .ok s)
    (hclock : ∀ i, clock i ≤ clock' i) : replayBlocks c options clock' blocks = .ok s := by
  obtain ⟨genesis, hgenesis, hblocks⟩ := bind_eq_ok.1 h
  exact bind_eq_ok.2 ⟨genesis, hgenesis, applyBlocks_timed_later hblocks hclock⟩

/-- **A list leads to one state**, at whatever times it is replayed. -/
theorem replayBlocks_unique (h : replayBlocks c options clock blocks = .ok s)
    (h' : replayBlocks c options clock' blocks = .ok s') : s = s' := by
  have hmax : replayBlocks c options (fun i => max (clock i) (clock' i)) blocks = .ok s :=
    replayBlocks_later h fun i => le_max_left _ _
  rw [replayBlocks_later h' fun i => le_max_right _ _, Except.ok.injEq] at hmax
  exact hmax.symm

/-- **A replay goes on where it stopped.** -/
theorem replayBlocks_append {blocks' : List Json} :
    replayBlocks c options clock (blocks ++ blocks') = .ok s' ↔
      ∃ s, replayBlocks c options clock blocks = .ok s ∧
        applyBlocks c s (timed (fun i => clock (blocks.length + i)) blocks') = .ok s' := by
  rw [replayBlocks, bind_eq_ok]
  constructor
  · rintro ⟨genesis, hgenesis, h⟩
    rw [timed_append, applyBlocks, List.foldlM_append] at h
    obtain ⟨s, hs, hrest⟩ := bind_eq_ok.1 h
    exact ⟨s, bind_eq_ok.2 ⟨genesis, hgenesis, hs⟩, hrest⟩
  · rintro ⟨s, h, hrest⟩
    obtain ⟨genesis, hgenesis, hs⟩ := bind_eq_ok.1 h
    refine ⟨genesis, hgenesis, ?_⟩
    rw [timed_append, applyBlocks, List.foldlM_append]
    exact bind_eq_ok.2 ⟨s, hs, hrest⟩

theorem applyBlocks_timed_stored (h : applyBlocks c s (timed clock blocks) = .ok s') :
    ∃ added, s'.blocks = s.blocks ++ added ∧ added.length = blocks.length ∧
      applyBlocks c s (timed clock (added.map Block.toJson)) = .ok s' := by
  induction blocks generalizing s clock with
  | nil =>
      obtain rfl := foldlM_nil_eq_ok.1 h
      exact ⟨[], by simp, rfl, rfl⟩
  | cons b blocks ih =>
      rw [timed_cons] at h
      obtain ⟨s₁, hfirst, hrest⟩ := foldlM_cons_eq_ok.1 h
      obtain ⟨b', hb', hstored⟩ := applyMinedBlock_stored hfirst le_rfl
      obtain ⟨added, hadded, hlen, hreplay⟩ := ih hrest
      refine ⟨b' :: added, ?_, by rw [List.length_cons, List.length_cons, hlen], ?_⟩
      · rw [hadded, hb', List.append_assoc, List.singleton_append]
      · rw [List.map_cons, timed_cons]
        exact foldlM_cons_eq_ok.2 ⟨s₁, hstored, hreplay⟩

/-- **The blocks of a state lead back to it.** -/
theorem replayBlocks_stored (h : replayBlocks c options clock blocks = .ok s) :
    replayBlocks c options clock (s.blocks.map Block.toJson) = .ok s := by
  obtain ⟨genesis, hgenesis, hblocks⟩ := bind_eq_ok.1 h
  obtain ⟨added, hadded, -, hstored⟩ := applyBlocks_timed_stored hblocks
  obtain ⟨config, -, rfl⟩ := createGenesisState_eq_ok.1 hgenesis
  have hall : s.blocks = added := by simpa [genesisState] using hadded
  rw [hall]
  exact bind_eq_ok.2 ⟨_, hgenesis, hstored⟩

end Whole

end Medac
