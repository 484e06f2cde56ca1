/-
**Supply conservation, and what a chain has issued.**

The state carries a field `balanceTotal`, which is never summed up from the balances: every block
sets it to the old supply plus the subsidy.  This module shows that it is the sum of the balances
all the same, in every reachable state: the transfers of a block and its fees conserve the sum,
and the miner receives the fees and the subsidy.

The state adds up the subsidies in `miningIssued`, and each subsidy is computed from that sum.
That sum follows the schedule: it is the schedule summed over the heights so far, cut off at the
reserve.

Main definitions:

* `Medac.State.Conserved` — the balances are not negative and sum up to `balanceTotal`;
* `Medac.subsidy` — the subsidy of a block as a function of its height alone.

Main results:

* `Medac.State.Accepts.conserved` — every accepted block keeps the balances conserved;
* `Medac.supply_conserved` — **supply conservation**, and that the check which closes
  `applyMinedBlock` never fails;
* `Medac.State.Accepts.reward_eq_subsidy` — the reward of an accepted block is the subsidy of its
  height;
* `Medac.subsidy_antitone` — subsidies never rise;
* `Medac.issuance_follows_schedule` — **the issuance schedule along a chain**.
-/

import Mathlib.Order.Bounds.Defs
import MedorCoin.Medac.Mine

set_option autoImplicit false

namespace Medac

open Js

/-! ### Supply -/

section Supply

/-- The balances are not negative and sum up to `balanceTotal`. -/
structure State.Conserved (s : State) : Prop where
  nonneg : ∀ v ∈ s.balances.values, 0 ≤ v
  sum_eq : s.balances.values.sum = s.balanceTotal

variable {c : Crypto} {config : Consensus} {now : ℕ} {s : State} {b : Block} {reward : ℕ}
  {l : Ledger}

theorem genesisState_conserved : (genesisState c config).Conserved where
  nonneg := by
    have hall : ∀ v ∈ genesisBalances.values, 0 ≤ v := by decide +kernel
    exact hall
  sum_eq := by
    have hsum : genesisBalances.values.sum = genesisSupply := by decide +kernel
    exact hsum

/-- **Every accepted block keeps the balances conserved.**  The sum grows by the subsidy alone:
the fees the miner receives are what the senders lost beyond what the recipients got. -/
theorem State.Accepts.conserved (hs : s.Valid c) (h : s.Accepts c now b reward l)
    (hcons : s.Conserved) : (s.next b reward l).Conserved where
  nonneg := by
    have hledger := h.ledger.balances_nonneg hcons.nonneg
    exact credit_nonneg hledger (by omega)
  sum_eq := by
    have hfunds : l.balances.values.sum + l.totalFees = s.balances.values.sum + (0 : ℕ) :=
      h.ledger.funds_eq
    have hminer := sum_credit l.balances b.minerAddress (reward + l.totalFees)
    have hsum := hcons.sum_eq
    have htotal := hs.balanceTotal_eq
    simp only [next]
    push_cast at hfunds ⊢
    omega

theorem Reachable.conserved (h : Reachable c config s) : s.Conserved :=
  h.induction genesisState_conserved fun _ hs haccepts hcons => haccepts.conserved hs hcons

/-- **Supply conservation.**  In every state of the chain of any network no balance is negative,
the balances sum up to `balanceTotal`, this is `totalSupply`, and it is what was allocated at
genesis and issued since, within the cap.  The state passes its check, and so does the one after
any block that passes the checks in between. -/
theorem supply_conserved (h : Reachable c config s) :
    (∀ v ∈ s.balances.values, 0 ≤ v) ∧ s.balances.values.sum = s.balanceTotal ∧
      s.balanceTotal = s.totalSupply ∧ s.totalSupply = genesisSupply + s.miningIssued ∧
      s.totalSupply ≤ totalSupply ∧ assertValidState c s = .ok () ∧
      ∀ now block nextState, checkBlock c now s block = .ok nextState →
        assertValidState c nextState = .ok () := by
  have hvalid := h.valid
  have hcap : s.totalSupply ≤ totalSupply := by
    rw [hvalid.totalSupply_eq]
    exact genesisSupply_add_le hvalid.miningIssued_le
  refine ⟨h.conserved.nonneg, h.conserved.sum_eq, hvalid.balanceTotal_eq, hvalid.totalSupply_eq,
    hcap, assertValidState_eq_ok.2 hvalid, ?_⟩
  intro now block nextState hcheck
  obtain ⟨b, reward, l, -, haccepts, rfl⟩ := (checkBlock_eq_ok hvalid.one_le_target).1 hcheck
  exact assertValidState_eq_ok.2 (haccepts.next_valid hvalid)

theorem supply_conserved_sampleChain :
    sampleChain.balances.values.sum = sampleChain.totalSupply ∧
      sampleChain.totalSupply = genesisSupply + sampleChain.miningIssued := by
  obtain ⟨-, hsum, htotal, hissued, -⟩ := supply_conserved sampleChain_reachable
  exact ⟨by rw [hsum, htotal], hissued⟩

end Supply

/-! ### Issuance -/

section Issued

/-- The subsidy of the block at height `i + 1`: the scheduled one, cut down to what the schedule
has left of the reserve. -/
def subsidy (i : ℕ) : ℕ := min (scheduledReward i) (miningReserve - scheduledIssuance i)

theorem scheduledIssuance_succ (h : ℕ) :
    scheduledIssuance (h + 1) = scheduledIssuance h + scheduledReward h := by
  rw [scheduledIssuance, Finset.sum_range_succ, ← scheduledIssuance]

/-- **Subsidies never rise.** -/
theorem subsidy_antitone : Antitone subsidy := by
  intro i j hij
  have hreward := scheduledReward_antitone hij
  have hissued := scheduledIssuance_mono hij
  simp only [subsidy]
  omega

theorem subsidy_eq_zero {i : ℕ} (h : exhaustionHeight ≤ i) : subsidy i = 0 := by
  have hcovered := le_trans miningReserve_le_scheduledIssuance (scheduledIssuance_mono h)
  simp only [subsidy]
  omega

variable {c : Crypto} {config : Consensus} {now : ℕ} {s : State} {b : Block} {reward : ℕ}
  {l : Ledger}

/-- What holds of the issued sum along a chain: it is the schedule cut off at the reserve, and
every block says so. -/
structure State.FollowsSchedule (s : State) : Prop where
  issued : s.miningIssued = min miningReserve (scheduledIssuance s.height)
  rewards : s.blocks.map (·.reward) = (List.range s.height).map fun i => numeral (subsidy i)

theorem State.Accepts.reward_eq_subsidy (hs : s.Valid c) (h : s.Accepts c now b reward l)
    (hschedule : s.FollowsSchedule) : reward = subsidy s.height := by
  have hheight : b.height - 1 = s.height := by rw [h.height_eq, Nat.add_sub_cancel]
  have hpos : 1 ≤ b.height := by rw [h.height_eq]; omega
  have hreward := h.reward
  rw [calculateBlockReward_eq h.height_le hpos hs.miningIssued_le, Except.ok.injEq, hheight,
    hschedule.issued] at hreward
  rw [← hreward, subsidy]
  omega

theorem State.Accepts.followsSchedule (hs : s.Valid c) (h : s.Accepts c now b reward l)
    (hschedule : s.FollowsSchedule) : (s.next b reward l).FollowsSchedule where
  issued := by
    have hreward := h.reward_eq_subsidy hs hschedule
    have hissued := hschedule.issued
    have hsucc := scheduledIssuance_succ s.height
    simp only [next, h.height_eq]
    simp only [subsidy] at hreward
    omega
  rewards := by
    have hreward := h.reward_eq_subsidy hs hschedule
    simp only [next, List.map_append, hschedule.rewards, h.height_eq, List.range_succ,
      List.map_cons, List.map_nil, h.reward_eq, hreward]

theorem Reachable.followsSchedule (h : Reachable c config s) : s.FollowsSchedule := by
  refine h.induction ⟨?_, rfl⟩ fun _ hs haccepts ih => haccepts.followsSchedule hs ih
  simp [genesisState, scheduledIssuance]

/-- **The issuance schedule along a chain.**  After any number of blocks the issued sum is the
schedule summed over their heights, cut off at the reserve; the subsidies of the blocks depend on
their heights alone and never rise; the reserve is issued in full exactly from height 19733334
on, and no block after that has a subsidy.  The first reward is the least one whose whole schedule
covers the reserve. -/
theorem issuance_follows_schedule (c : Crypto) (config : Consensus) :
    (∀ s, Reachable c config s →
      s.miningIssued = min miningReserve (∑ i ∈ Finset.range s.height,
        initialBlockReward >>> (i / halvingInterval)) ∧
      s.blocks.map (·.reward) = (List.range s.height).map (fun i => numeral (subsidy i)) ∧
      (s.miningIssued = miningReserve ↔ 19733334 ≤ s.height)) ∧
    Antitone subsidy ∧ (∀ i, 19733334 ≤ i → subsidy i = 0) ∧
    IsLeast {r | miningReserve ≤ scheduledSupply r} initialBlockReward := by
  refine ⟨fun s hs => ⟨hs.followsSchedule.issued, hs.followsSchedule.rewards, ?_⟩,
    subsidy_antitone, fun i hi => subsidy_eq_zero hi, initialBlockReward_covers, ?_⟩
  · have hissued := hs.followsSchedule.issued
    constructor
    · intro hfull
      by_contra hlt
      have hle : s.height ≤ exhaustionHeight - 1 := by
        rw [exhaustionHeight]
        omega
      have hmono := scheduledIssuance_mono hle
      have hbefore := scheduledIssuance_lt_miningReserve
      omega
    · intro hheight
      have hmono : scheduledIssuance exhaustionHeight ≤ scheduledIssuance s.height :=
        scheduledIssuance_mono hheight
      have hcovered := miningReserve_le_scheduledIssuance
      omega
  · intro r hr
    by_contra hlt
    exact absurd hr (not_le.2 (lt_initialBlockReward_fails (not_le.1 hlt)))

theorem issuance_follows_schedule_sampleChain :
    sampleChain.blocks.map (·.reward) =
      (List.range sampleChain.height).map fun i => numeral (subsidy i) :=
  ((issuance_follows_schedule sampleCrypto sampleConsensus).1 sampleChain
    sampleChain_reachable).2.1

end Issued

end Medac
