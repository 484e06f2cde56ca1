/-
**Prefixes of chains, and where two chains agree.**

The first blocks of a chain are a chain themselves, and the hash of its tip is the hash of its last
block.  So, as far as SHA-256 has no collision on the texts of two chains, a hash that occurs on
both occurs at one height, and up to it they have the same blocks.

Main definitions:

* `Medac.State.tipAt` — the tip hash at a height.

Main results:

* `Medac.Reachable.exists_prefix` — the first blocks are a chain;
* `Medac.Reachable.take_eq_of_tipAt_eq` — **a common hash, common blocks**;
* `Medac.Reachable.tipAt_inj` — on one chain every hash occurs once.
-/

import MedorCoin.Medac.Replay
import MedorCoin.Medac.TipHash

set_option autoImplicit false

namespace Medac

open Js

variable {c : Crypto} {config : Consensus} {s s' : State} {S : Set Str}

/-- The tip hash of the first `k` blocks. -/
def State.tipAt (s : State) (k : ℕ) : Str :=
  match k with
  | 0 => s.genesisHash
  | k + 1 => ((s.blocks[k]?).map (·.hash)).getD []

theorem State.tipAt_zero (s : State) : s.tipAt 0 = s.genesisHash := rfl

theorem State.tipAt_succ {k : ℕ} {b : Block} (h : s.blocks[k]? = some b) :
    s.tipAt (k + 1) = b.hash := by
  rw [tipAt, h]
  rfl

theorem Reachable.height_eq (h : Reachable c config s) :
    s.height = s.blocks.length ∧ ∀ i b, s.blocks[i]? = some b → b.height = i + 1 := by
  let P (s : State) : Prop :=
    s.height = s.blocks.length ∧ ∀ i b, s.blocks[i]? = some b → b.height = i + 1
  refine h.induction (P := P) ⟨rfl, fun i b hb => by simp [genesisState] at hb⟩ ?_
  rintro s now b reward l - - haccepts ⟨hheight, hall⟩
  refine ⟨by simp [State.next, haccepts.height_eq, hheight], ?_⟩
  intro i b' hb'
  rw [State.next] at hb'
  rcases Nat.lt_or_ge i s.blocks.length with hlt | hge
  · rw [List.getElem?_append_left hlt] at hb'
    exact hall i b' hb'
  · rw [List.getElem?_append_right hge, List.getElem?_singleton] at hb'
    split at hb'
    · next hi =>
        cases hb'
        rw [haccepts.height_eq, hheight]
        omega
    · cases hb'

theorem Reachable.tipHash_eq (h : Reachable c config s) : s.tipHash = s.tipAt s.blocks.length := by
  rcases h.cases_next with rfl | ⟨s₀, now, b, reward, l, -, -, rfl⟩
  · rfl
  · have hlen : (s₀.next b reward l).blocks.length = s₀.blocks.length + 1 := by simp [State.next]
    rw [hlen, State.tipAt_succ (b := b) (by simp [State.next])]
    rfl

/-- **The first blocks of a chain are a chain.** -/
theorem Reachable.exists_prefix {k : ℕ} (h : Reachable c config s) (hk : k ≤ s.blocks.length) :
    ∃ p, Reachable c config p ∧ p.blocks = s.blocks.take k ∧ p.preimages ⊆ s.preimages ∧
      p.tipHash = s.tipAt k := by
  induction h with
  | genesis =>
      obtain rfl : k = 0 := by simpa [genesisState] using hk
      exact ⟨_, .genesis, by simp [genesisState], subset_rfl, rfl⟩
  | @block s s' now block hbefore hblock ih =>
      obtain ⟨-, b, reward, l, -, haccepts, rfl⟩ := applyMinedBlock_eq_ok.1 hblock
      have hnext : Reachable c config (s.next b reward l) := .block hbefore hblock
      have hblocks : (s.next b reward l).blocks = s.blocks ++ [b] := rfl
      rcases Nat.lt_or_ge s.blocks.length k with hlt | hle
      · have hlen : k = (s.next b reward l).blocks.length := by
          rw [hblocks, List.length_append, List.length_singleton] at hk ⊢
          omega
        exact ⟨_, hnext, by rw [hlen, List.take_length], subset_rfl,
          by rw [hlen, hnext.tipHash_eq]⟩
      · obtain ⟨p, hp, hpblocks, hpre, htip⟩ := ih hle
        refine ⟨p, hp, ?_, ?_, ?_⟩
        · rw [hpblocks, hblocks, List.take_append_of_le_length hle]
        · rw [State.preimages_next]
          exact hpre.trans (Set.subset_insert _ _)
        · rw [htip]
          cases k with
          | zero => rfl
          | succ k =>
              rw [State.tipAt, State.tipAt, hblocks, List.getElem?_append_left (by omega)]

/-- **A common hash, common blocks.** -/
theorem Reachable.take_eq_of_tipAt_eq {k k' : ℕ} (hinj : Set.InjOn c.sha256 S)
    (h : Reachable c config s) (h' : Reachable c config s') (hS : s.preimages ⊆ S)
    (hS' : s'.preimages ⊆ S) (hk : k ≤ s.blocks.length) (hk' : k' ≤ s'.blocks.length)
    (htip : s.tipAt k = s'.tipAt k') : k = k' ∧ s.blocks.take k = s'.blocks.take k' := by
  obtain ⟨p, hp, hblocks, hpre, hptip⟩ := h.exists_prefix hk
  obtain ⟨p', hp', hblocks', hpre', hptip'⟩ := h'.exists_prefix hk'
  have hsame : p = p' := hp.eq_of_tipHash_eq hinj hp' (hpre.trans hS) (hpre'.trans hS')
    (by rw [hptip, hptip', htip])
  subst hsame
  have htake := hblocks.symm.trans hblocks'
  have hlen := congrArg List.length htake
  rw [List.length_take, List.length_take, Nat.min_eq_left hk, Nat.min_eq_left hk'] at hlen
  exact ⟨hlen, htake⟩

/-- **On one chain every hash occurs once.** -/
theorem Reachable.tipAt_inj {k k' : ℕ} (hinj : Set.InjOn c.sha256 S) (h : Reachable c config s)
    (hS : s.preimages ⊆ S) (hk : k ≤ s.blocks.length) (hk' : k' ≤ s.blocks.length)
    (htip : s.tipAt k = s.tipAt k') : k = k' :=
  (h.take_eq_of_tipAt_eq hinj h hS hS hk hk' htip).1

end Medac
