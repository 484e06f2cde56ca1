/-
**The states of a chain.**

The states that `applyMinedBlock` makes out of the genesis state of a network, block by block,
whatever the blocks are and whatever the clock reads at each of them.

Main definitions:

* `Medac.applyBlocks` — a list of blocks, each with the clock at which it arrives;
* `Medac.Reachable` — the states of the chain of a network.

Main results:

* `Medac.reachable_iff` — a state is reachable exactly when some list of blocks leads to it;
* `Medac.Reachable.induction` — **what holds at genesis and is kept by every accepted block holds
  of every reachable state**;
* `Medac.Reachable.valid` — every reachable state is valid;
* `Medac.Reachable.medianTime_lt` — a timestamp after the tip is after the median.
-/

import MedorCoin.Medac.Block

set_option autoImplicit false

namespace Medac

open Js

/-- Apply blocks one after the other, each at its own clock. -/
def applyBlocks (c : Crypto) (s : State) (inputs : List (ℕ × Json)) : Except Error State :=
  inputs.foldlM (fun s i => applyMinedBlock c i.1 s i.2) s

/-- The states of the chain of a network. -/
inductive Reachable (c : Crypto) (config : Consensus) : State → Prop
  | genesis : Reachable c config (genesisState c config)
  | block {s s' : State} {now : ℕ} {block : Json} (before : Reachable c config s)
      (accepted : applyMinedBlock c now s block = .ok s') : Reachable c config s'

variable {c : Crypto} {config : Consensus} {s : State}

theorem reachable_iff : Reachable c config s ↔
    ∃ inputs, applyBlocks c (genesisState c config) inputs = .ok s := by
  constructor
  · intro h
    induction h with
    | genesis => exact ⟨[], rfl⟩
    | @block s s' now block _ haccepted ih =>
        obtain ⟨inputs, hinputs⟩ := ih
        exact ⟨inputs ++ [(now, block)], foldlM_snoc_eq_ok.2 ⟨s, hinputs, haccepted⟩⟩
  · rintro ⟨inputs, h⟩
    exact foldlM_invariant .genesis (fun _ _ _ hs hstep => .block hs hstep) h

/-- **What holds at genesis and is kept by every accepted block holds of every reachable
state.** -/
theorem Reachable.induction {P : State → Prop} (genesis : P (genesisState c config))
    (accepted : ∀ {s : State} {now : ℕ} {b : Block} {reward : ℕ} {l : Ledger},
      Reachable c config s → s.Valid c → s.Accepts c now b reward l → P s →
      P (s.next b reward l)) (h : Reachable c config s) : P s := by
  induction h with
  | genesis => exact genesis
  | block hbefore hblock ih =>
      obtain ⟨hvalid, b, reward, l, -, haccepts, rfl⟩ := applyMinedBlock_eq_ok.1 hblock
      exact accepted hbefore hvalid haccepts ih

namespace Reachable

/-- **Every reachable state is valid.** -/
theorem valid (h : Reachable c config s) : s.Valid c :=
  h.induction (genesisState_valid config) fun _ hs haccepts _ => haccepts.next_valid hs

theorem consensus_eq (h : Reachable c config s) : s.consensus = config :=
  h.induction (P := fun s => s.consensus = config) rfl fun _ _ _ hs => hs

theorem genesisHash_eq (h : Reachable c config s) : s.genesisHash = genesisHash c config := by
  rw [h.valid.genesisHash_eq, h.consensus_eq]

/-- An accepted block in normal form leads to a reachable state. -/
theorem accepted {now : ℕ} {b : Block} {reward : ℕ} {l : Ledger} (h : Reachable c config s)
    (haccepts : s.Accepts c now b reward l) : Reachable c config (s.next b reward l) :=
  .block h
    (applyMinedBlock_eq_ok.2 ⟨h.valid, b, reward, l, haccepts.readFrom_toJson, haccepts, rfl⟩)

theorem timestamp_le (h : Reachable c config s) : ∀ b ∈ s.blocks, b.timestamp ≤ s.timestamp := by
  refine h.induction (P := fun s => ∀ b ∈ s.blocks, b.timestamp ≤ s.timestamp) ?_ ?_
  · intro b hb
    simp [genesisState] at hb
  · intro s now b reward l _ _ haccepts ih b' hb'
    rcases List.mem_append.1 hb' with hold | hnew
    · exact le_trans (ih b' hold) (le_of_lt haccepts.lt_timestamp)
    · rw [List.mem_singleton.1 hnew]
      exact le_rfl

/-- **A timestamp after the tip is after the median.** -/
theorem medianTime_lt {timestamp : ℕ} (h : Reachable c config s) (hlt : s.timestamp < timestamp) :
    (medianTime s.blocks).all (· < timestamp) := by
  rw [Option.all_eq_true]
  intro t ht
  have hmem := List.mem_of_getElem? ht
  rw [List.mem_insertionSort, List.mem_map] at hmem
  obtain ⟨b, hb, rfl⟩ := hmem
  exact decide_eq_true (lt_of_le_of_lt (h.timestamp_le b (List.mem_of_mem_drop hb)) hlt)

end Reachable

end Medac
