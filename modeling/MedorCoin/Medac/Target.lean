/-
**Targets, work and time.**

How `medac_consensus.cjs` measures the work of a block (`blockWork`), adjusts the target once in
a window (`calculateNextTarget`), and takes the median of the latest timestamps.

The one place where a number can leave the range in which doubles are exact is the product
`(retargetWindow - 1) * targetBlockTime`; `Medac.roundDouble` rounds it as the multiplication of
doubles does.

Main definitions:

* `Medac.roundDouble` — the double nearest to a natural number;
* `Medac.blockWork`, `Medac.calculateNextTarget`, `Medac.medianTime`.

Main results:

* `Medac.expectedSpan_pos` — the division of the retarget is never by zero;
* `Medac.calculateNextTarget_mem` — **the next target stays between one and the maximum**;
* `Medac.one_le_blockWork` — **every block adds work**.
-/

import MedorCoin.Medac.State
import Mathlib.Data.List.Sort

set_option autoImplicit false

namespace Medac

open Js

/-! ### Work -/

/-- **`blockWork`.** -/
def blockWork (target : ℕ) : ℕ := (1 <<< 256) / (target + 1)

/-- **Every block adds work.** -/
theorem one_le_blockWork {target : ℕ} (h : target ≤ maxHash) : 1 ≤ blockWork target := by
  have hbound : target + 1 ≤ 1 <<< 256 := by
    rw [maxHash] at h
    have hpos : 0 < 1 <<< 256 := by decide +kernel
    omega
  exact (Nat.one_le_div_iff (Nat.succ_pos target)).2 hbound

/-! ### The next target -/

/-- The double nearest to a natural number, the one with an even significand when there are
two. -/
def roundDouble (n : ℕ) : ℕ :=
  if n < 2 ^ 53 then n
  else
    let e := Nat.log2 n - 52
    let q := n / 2 ^ e
    let r := n % 2 ^ e
    if 2 ^ e < 2 * r ∨ 2 * r = 2 ^ e ∧ q % 2 = 1 then (q + 1) * 2 ^ e else q * 2 ^ e

theorem roundDouble_pos {n : ℕ} (h : 0 < n) : 0 < roundDouble n := by
  rw [roundDouble]
  split
  · exact h
  · -- the significand of a large number has a leading one
    have hlog : 2 ^ (Nat.log2 n - 52) ≤ n := by
      refine le_trans (Nat.pow_le_pow_right (by decide) (Nat.sub_le _ _)) ?_
      exact Nat.log2_self_le (Nat.ne_of_gt h)
    have hq : 0 < n / 2 ^ (Nat.log2 n - 52) := Nat.div_pos hlog (by positivity)
    dsimp only
    split
    · positivity
    · exact Nat.mul_pos hq (by positivity)

/-- The time the blocks of a window are expected to take. -/
def Consensus.expectedSpan (config : Consensus) : ℕ :=
  roundDouble ((config.retargetWindow - 1) * config.targetBlockTime)

/-- **The division of the retarget is never by zero.** -/
theorem expectedSpan_pos (config : Consensus) : 0 < config.expectedSpan := by
  have hwindow := config.two_le_retargetWindow
  exact roundDouble_pos (Nat.mul_pos (by omega) config.one_le_targetBlockTime)

/-- The timestamp from which the window is measured. -/
def State.anchor (s : State) : ℕ :=
  if s.consensus.retargetWindow - 1 ≤ s.blocks.length then
    (s.blocks[s.blocks.length - (s.consensus.retargetWindow - 1)]?.map (·.timestamp)).getD 0
  else 0

/-- **`calculateNextTarget`.** -/
def calculateNextTarget (s : State) (nextHeight timestamp : ℕ) : ℕ :=
  if nextHeight % s.consensus.retargetWindow ≠ 0 then s.target
  else
    let expected := s.consensus.expectedSpan
    let actual := max 1 (timestamp - s.anchor)
    let bounded := max (expected / retargetFactor) (min actual (expected * retargetFactor))
    let target := s.target * bounded / expected
    let target := if target < 1 then 1 else target
    if target > s.consensus.maxTarget then s.consensus.maxTarget else target

/-- **The next target stays between one and the maximum.** -/
theorem calculateNextTarget_mem {s : State} (hpos : 1 ≤ s.target)
    (hmax : s.target ≤ s.consensus.maxTarget) (nextHeight timestamp : ℕ) :
    1 ≤ calculateNextTarget s nextHeight timestamp ∧
      calculateNextTarget s nextHeight timestamp ≤ s.consensus.maxTarget := by
  have hone : 1 ≤ s.consensus.maxTarget := le_trans hpos hmax
  rw [calculateNextTarget]
  split
  · exact ⟨hpos, hmax⟩
  · dsimp only
    split_ifs <;> omega

/-! ### Median time -/

/-- The median of the latest timestamps, if there is a block at all. -/
def medianTime (blocks : List Block) : Option ℕ :=
  let medianTimes := ((blocks.drop (blocks.length - 11)).map (·.timestamp)).insertionSort (· ≤ ·)
  medianTimes[medianTimes.length / 2]?

end Medac
