/-
**The issuance schedule of the MEDAC ledger.**

The constants of `medac_consensus.cjs` and the functions that decide how much each block may
issue: `scheduledSupply`, the search `findInitialBlockReward` for the first reward, and
`calculateBlockReward` with its cap at what is left of the mining reserve.

Main definitions:

* `Medac.scheduledSupply`, `Medac.findInitialBlockReward`, `Medac.initialBlockReward`;
* `Medac.calculateBlockReward`;
* `Medac.scheduledIssuance` — the uncapped schedule summed over the first blocks.

Main results:

* `Medac.scheduledSupply_eq_sum`, `Medac.scheduledSupply_mono` — the loop computes a sum of
  halved rewards, which grows with the first reward;
* `Medac.initialBlockReward_covers`, `Medac.lt_initialBlockReward_fails` — **the search finds
  the least reward whose schedule covers the reserve**;
* `Medac.calculateBlockReward_eq` — the reward of a block is the scheduled one, cut down to what
  is left of the reserve;
* `Medac.miningReserve_le_scheduledIssuance`, `Medac.scheduledIssuance_lt_miningReserve` — the
  height at which the schedule has covered the reserve.
-/

import MedorCoin.Js.Error
import MedorCoin.Js.Json
import MedorCoin.Search.Loops
import Mathlib.Algebra.BigOperators.Intervals
import Mathlib.Algebra.Order.BigOperators.Group.Finset
import Mathlib.Algebra.Group.Action.Defs

set_option autoImplicit false

namespace Medac

open Js

/-! ### Constants -/

def networkId : Str := "MEDAC-POW-1".toList
def token : ℕ := 10 ^ 18
def totalSupply : ℕ := 100000000 * token
def genesisSupply : ℕ := 30000000 * token
def miningReserve : ℕ := totalSupply - genesisSupply
def halvingInterval : ℕ := 300000
def maxHash : ℕ := (1 <<< 256) - 1
def defaultInitialTarget : ℕ := maxHash >>> 32
def defaultMaxTarget : ℕ := maxHash >>> 28
def targetBlockTime : ℕ := 60
def retargetWindow : ℕ := 20
def retargetFactor : ℕ := 4
def maxFutureSeconds : ℕ := 2 * 60 * 60
def maxTransactionsPerBlock : ℕ := 100
def minTransactionFee : ℕ := 10 ^ 14
def maxAmountDigits : ℕ := (numeral totalSupply).length

/-- The three addresses funded at genesis. -/
def genesisAllocations : List (Str × ℕ) :=
  [("0xD81e7078bEE7ad3a313a74ED171E2941b7455f1D".toList, 10000000 * token),
   ("0x75E642510D48df5fff33d507748f6dE2FaB3592A".toList, 10000000 * token),
   ("0xA44FE7604F3B26b8dEf551fA7a6F25e06381D07F".toList, 10000000 * token)]

/-! ### The first reward -/

/-- The loop of `scheduledSupply`: add up the reward of one interval, halve it, and go on while
it is positive. -/
def scheduledSupplyLoop : ℕ → ℕ → ℕ → ℕ
  | 0, _, total => total
  | fuel + 1, reward, total =>
      if 0 < reward then scheduledSupplyLoop fuel (reward >>> 1) (total + reward * halvingInterval)
      else total

/-- What a whole halving schedule issues. -/
def scheduledSupply (initialReward : ℕ) : ℕ := scheduledSupplyLoop initialReward initialReward 0

/-- The test of the search: does the schedule cover the reserve? -/
def covers (reward : ℕ) : Bool := miningReserve ≤ scheduledSupply reward

/-- The bound from which the search starts. -/
def initialHigh : ℕ := (miningReserve + 2 * halvingInterval - 1) / (2 * halvingInterval)

/-- The search for the first reward: double the bound until the schedule covers the reserve, then
bisect. -/
def findInitialBlockReward : ℕ :=
  let high := Search.doubleUntil covers miningReserve initialHigh
  Search.bisect covers high 0 high

/-- **The reward of the first blocks.** -/
def initialBlockReward : ℕ := findInitialBlockReward

theorem scheduledSupplyLoop_eq (fuel reward total : ℕ) :
    scheduledSupplyLoop fuel reward total =
      total + ∑ k ∈ Finset.range fuel, (reward >>> k) * halvingInterval := by
  induction fuel generalizing reward total with
  | zero => simp [scheduledSupplyLoop]
  | succ fuel ih =>
      rw [scheduledSupplyLoop, Finset.sum_range_succ']
      split
      · rw [ih]
        have hshift : ∀ k, (reward >>> 1) >>> k = reward >>> (k + 1) := fun k => by
          rw [← Nat.shiftRight_add, Nat.add_comm]
        simp only [hshift, Nat.shiftRight_zero]
        ring
      · next h =>
          obtain rfl : reward = 0 := by omega
          simp

theorem shiftRight_eq_zero {n k : ℕ} (h : n ≤ k) : n >>> k = 0 := by
  rw [Nat.shiftRight_eq_div_pow]
  exact Nat.div_eq_of_lt (lt_of_le_of_lt h Nat.lt_two_pow_self)

theorem sum_shiftRight_eq {r n : ℕ} (h : r ≤ n) :
    ∑ k ∈ Finset.range n, (r >>> k) * halvingInterval =
      ∑ k ∈ Finset.range r, (r >>> k) * halvingInterval := by
  symm
  refine Finset.sum_subset (Finset.range_mono h) ?_
  intro k _ hk
  rw [shiftRight_eq_zero (by simpa using hk), zero_mul]

/-- **The loop computes the sum of the halved rewards**, over any number of intervals that
reaches past the last positive one. -/
theorem scheduledSupply_eq_sum {r n : ℕ} (h : r ≤ n) :
    scheduledSupply r = ∑ k ∈ Finset.range n, (r >>> k) * halvingInterval := by
  rw [scheduledSupply, scheduledSupplyLoop_eq, zero_add, sum_shiftRight_eq h]

theorem shiftRight_mono {r r' : ℕ} (h : r ≤ r') (k : ℕ) : r >>> k ≤ r' >>> k := by
  rw [Nat.shiftRight_eq_div_pow, Nat.shiftRight_eq_div_pow]
  exact Nat.div_le_div_right h

theorem scheduledSupply_mono {r r' : ℕ} (h : r ≤ r') : scheduledSupply r ≤ scheduledSupply r' := by
  rw [scheduledSupply_eq_sum h, scheduledSupply_eq_sum (le_refl r')]
  exact Finset.sum_le_sum fun k _ => Nat.mul_le_mul_right _ (shiftRight_mono h k)

theorem covers_mono (i j : ℕ) (h : i ≤ j) (hi : covers i) : covers j := by
  simp only [covers, decide_eq_true_eq] at hi ⊢
  exact le_trans hi (scheduledSupply_mono h)

theorem le_scheduledSupply {r : ℕ} (h : 0 < r) : r * halvingInterval ≤ scheduledSupply r := by
  rw [scheduledSupply_eq_sum (le_refl r)]
  have hmem : 0 ∈ Finset.range r := Finset.mem_range.2 h
  have hfirst := Finset.single_le_sum
    (fun k (_ : k ∈ Finset.range r) => Nat.zero_le ((r >>> k) * halvingInterval)) hmem
  simpa using hfirst

theorem not_covers_zero : ¬ covers 0 := by decide

theorem covers_initialHigh : covers (initialHigh * 2 ^ 1) := by
  have hpos : 0 < initialHigh * 2 ^ 1 := by decide +kernel
  have hbig : miningReserve ≤ initialHigh * 2 ^ 1 * halvingInterval := by decide +kernel
  exact decide_eq_true (le_trans hbig (le_scheduledSupply hpos))

/-- The search doubles its bound until the schedule covers the reserve, and then keeps a lower
end that does not and an upper end that does. -/
theorem findInitialBlockReward_spec :
    covers findInitialBlockReward ∧ ¬ covers (findInitialBlockReward - 1) := by
  have hfuel : 1 ≤ miningReserve := by decide +kernel
  have hdouble := Search.doubleUntil_spec hfuel covers_initialHigh
  rw [findInitialBlockReward]
  generalize Search.doubleUntil covers miningReserve initialHigh = high at hdouble ⊢
  obtain ⟨hcovers, hle⟩ := hdouble
  have hpos : 0 < high := lt_of_lt_of_le (by decide +kernel) hle
  have hgap : high - 0 ≤ 2 ^ high := by
    rw [Nat.sub_zero]
    exact le_of_lt Nat.lt_two_pow_self
  obtain ⟨h₁, h₂, -⟩ := Search.bisect_spec hpos not_covers_zero hcovers hgap
  exact ⟨h₁, h₂⟩

theorem initialBlockReward_covers : miningReserve ≤ scheduledSupply initialBlockReward :=
  of_decide_eq_true findInitialBlockReward_spec.1

/-- **No smaller first reward covers the reserve.** -/
theorem lt_initialBlockReward_fails {r : ℕ} (h : r < initialBlockReward) :
    scheduledSupply r < miningReserve := by
  have hleast := Search.least_of_boundary covers_mono findInitialBlockReward_spec.2 r h
  simpa [covers] using hleast

theorem initialBlockReward_eq : initialBlockReward = 116666666666666666684 := by
  decide +kernel

/-! ### The reward of a block -/

/-- The reward a block may claim, given what earlier blocks issued. -/
def calculateBlockReward (height miningIssued : ℕ) : Except Error ℕ :=
  if Json.maxSafeInteger < height ∨ height < 1 then .ok 0
  else do
    require (miningIssued ≤ miningReserve) (.rangeError "Invalid MEDAC mining issuance state")
    let remaining := miningReserve - miningIssued
    if remaining = 0 then .ok 0
    else
      let halvings := (height - 1) / halvingInterval
      let scheduledReward := initialBlockReward >>> halvings
      if scheduledReward = 0 then .ok 0
      else .ok (if scheduledReward < remaining then scheduledReward else remaining)

/-- What the uncapped schedule gives the block at height `i + 1`. -/
def scheduledReward (i : ℕ) : ℕ := initialBlockReward >>> (i / halvingInterval)

/-- **The reward of a block is the scheduled one, cut down to what is left of the reserve.** -/
theorem calculateBlockReward_eq {height miningIssued : ℕ} (hsafe : height ≤ Json.maxSafeInteger)
    (hpos : 1 ≤ height) (hissued : miningIssued ≤ miningReserve) :
    calculateBlockReward height miningIssued =
      .ok (min (scheduledReward (height - 1)) (miningReserve - miningIssued)) := by
  have hguard : ¬ (Json.maxSafeInteger < height ∨ height < 1) := by omega
  rw [calculateBlockReward, if_neg hguard, require_true (by simpa using hissued), ok_bind]
  simp only [scheduledReward]
  generalize initialBlockReward >>> ((height - 1) / halvingInterval) = scheduled
  generalize miningReserve - miningIssued = remaining
  split_ifs with h₁ h₂ h₃
  · simp [h₁]
  · simp [h₂]
  · rw [min_eq_left (le_of_lt h₃)]
  · rw [min_eq_right (by omega)]

/-- A reward that is computed at all comes from an issued amount within the reserve, and does
not exceed what is left of it. -/
theorem calculateBlockReward_le {height miningIssued reward : ℕ}
    (hissued : miningIssued ≤ miningReserve)
    (h : calculateBlockReward height miningIssued = .ok reward) :
    miningIssued + reward ≤ miningReserve := by
  by_cases hguard : Json.maxSafeInteger < height ∨ height < 1
  · rw [calculateBlockReward, if_pos hguard] at h
    cases h
    simpa using hissued
  · rw [calculateBlockReward_eq (by omega) (by omega) hissued, Except.ok.injEq] at h
    omega

/-- The uncapped schedule, summed over the first `h` blocks. -/
def scheduledIssuance (h : ℕ) : ℕ := ∑ i ∈ Finset.range h, scheduledReward i

theorem sum_interval {j : ℕ} (q : ℕ) (hj : j ≤ halvingInterval) :
    ∑ i ∈ Finset.range j, scheduledReward (halvingInterval * q + i) =
      (initialBlockReward >>> q) * j := by
  have hconst : ∀ i ∈ Finset.range j,
      scheduledReward (halvingInterval * q + i) = initialBlockReward >>> q := by
    intro i hi
    have hlt : i < halvingInterval := lt_of_lt_of_le (Finset.mem_range.1 hi) hj
    rw [scheduledReward, Nat.mul_add_div (by decide), Nat.div_eq_of_lt hlt, Nat.add_zero]
  rw [Finset.sum_congr rfl hconst, Finset.sum_const, Finset.card_range, smul_eq_mul, mul_comm]

theorem scheduledIssuance_intervals (q : ℕ) :
    scheduledIssuance (halvingInterval * q) =
      ∑ k ∈ Finset.range q, (initialBlockReward >>> k) * halvingInterval := by
  induction q with
  | zero => simp [scheduledIssuance]
  | succ q ih =>
      rw [scheduledIssuance, Nat.mul_succ, Finset.sum_range_add, ← scheduledIssuance, ih,
        sum_interval q le_rfl, Finset.sum_range_succ]

theorem scheduledIssuance_add {j : ℕ} (q : ℕ) (hj : j ≤ halvingInterval) :
    scheduledIssuance (halvingInterval * q + j) =
      ∑ k ∈ Finset.range q, (initialBlockReward >>> k) * halvingInterval +
        (initialBlockReward >>> q) * j := by
  rw [scheduledIssuance, Finset.sum_range_add, ← scheduledIssuance, scheduledIssuance_intervals,
    sum_interval q hj]

theorem scheduledIssuance_mono {h h' : ℕ} (hle : h ≤ h') :
    scheduledIssuance h ≤ scheduledIssuance h' :=
  Finset.sum_le_sum_of_subset (Finset.range_mono hle)

/-- The height at which the schedule covers the reserve. -/
def exhaustionHeight : ℕ := 19733334

/-- **The schedule covers the reserve at that height.** -/
theorem miningReserve_le_scheduledIssuance :
    miningReserve ≤ scheduledIssuance exhaustionHeight := by
  have hheight : exhaustionHeight = halvingInterval * 65 + 233334 := by decide
  rw [hheight, scheduledIssuance_add 65 (by decide), initialBlockReward_eq]
  decide +kernel

theorem scheduledIssuance_lt_miningReserve :
    scheduledIssuance (exhaustionHeight - 1) < miningReserve := by
  have hheight : exhaustionHeight - 1 = halvingInterval * 65 + 233333 := by decide
  rw [hheight, scheduledIssuance_add 65 (by decide), initialBlockReward_eq]
  decide +kernel

theorem scheduledReward_antitone {i j : ℕ} (h : i ≤ j) : scheduledReward j ≤ scheduledReward i := by
  rw [scheduledReward, scheduledReward, Nat.shiftRight_eq_div_pow, Nat.shiftRight_eq_div_pow]
  exact Nat.div_le_div_left (Nat.pow_le_pow_right (by decide) (Nat.div_le_div_right h))
    (by positivity)

end Medac
