/-
**The law of the base fee.**

The fee per gas rises by an eighth after a block that used more than half of its gas, falls by an
eighth after one that used less, and is never below one.  `adjustBaseFee` computes this in
`uint64_t`: the doubled gas and the sum wrap around, and a block that used exactly half is treated
like one that used less.  `addBlock` compares with the target of the configuration where the law has
the limit of the block.

Main definitions:

* `Node.feeStep`, `Node.baseFeeLaw` — the law, in unbounded integers;
* `Node.FeeRegular` — where `adjustBaseFee` obeys it.

Main results:

* `Node.Blockchain.adjustBaseFee_toNat` — what `adjustBaseFee` computes;
* `Node.Blockchain.adjustBaseFee_law_iff` — **where it obeys the law**;
* `Node.Blockchain.addBlock_baseFee` — which limit `addBlock` compares with;
* `Node.Blockchain.baseFee_law_iff` — all of this together;
* `Node.Blockchain.not_baseFee_law` — the fee falls after a block that used exactly half.
-/

import MedorCoin.Node.FailedBlock

set_option autoImplicit false

namespace Node

open Cpp

/-! ### The law -/

/-- An eighth of the fee, at least one. -/
def feeStep (fee : ℕ) : ℕ := max 1 (fee / 8)

/-- The next fee. -/
def baseFeeLaw (fee used limit : ℕ) : ℕ :=
  if limit < 2 * used then fee + feeStep fee
  else if 2 * used < limit then max 1 (fee - feeStep fee)
  else fee

/-- Above half, the doubled gas stays above the limit in `uint64_t` and the raised fee fits into it;
or the gas is below half; or it is exactly half and the fee is the least one. -/
def FeeRegular (fee used limit : ℕ) : Prop :=
  limit < 2 * used % 2 ^ 64 ∧ fee + feeStep fee < 2 ^ 64 ∨ 2 * used < limit ∨
    2 * used = limit ∧ fee = 1

theorem toNat_max (a b : UInt64) : (max a b).toNat = max a.toNat b.toNat := by
  change (if a ≤ b then b else a).toNat = _
  by_cases h : a ≤ b
  · rw [if_pos h, max_eq_right (UInt64.le_iff_toNat_le.1 h)]
  · rw [if_neg h]
    rw [UInt64.le_iff_toNat_le] at h
    rw [max_eq_left (by omega)]

namespace Blockchain

variable {U : UtxoSet} {E : Secp256k1} {s : Blockchain U} {c : Call} {block : Block}
  {gasUsed gasLimit : UInt64}

/-! ### What the node computes -/

theorem toNat_feeStep (fee : UInt64) : (max 1 (fee / 8)).toNat = feeStep fee.toNat := by
  rw [toNat_max, feeStep, UInt64.toNat_div]
  rfl

/-- **What `adjustBaseFee` computes**: the doubled gas and the sum wrap around, and exactly half
counts as less. -/
theorem adjustBaseFee_toNat (hlimit : gasLimit ≠ 0) :
    (s.adjustBaseFee gasUsed gasLimit).baseFeePerGas.toNat =
      if gasLimit.toNat < 2 * gasUsed.toNat % 2 ^ 64 then
        max 1 ((s.baseFeePerGas.toNat + feeStep s.baseFeePerGas.toNat) % 2 ^ 64)
      else max 1 (s.baseFeePerGas.toNat - feeStep s.baseFeePerGas.toNat) := by
  have hdouble : (gasUsed * 2).toNat = 2 * gasUsed.toNat % 2 ^ 64 := by
    rw [UInt64.toNat_mul, Nat.mul_comm]
    rfl
  have hstep := toNat_feeStep s.baseFeePerGas
  rw [adjustBaseFee, if_neg hlimit]
  simp only [gt_iff_lt, UInt64.lt_iff_toNat_lt, hdouble, hstep]
  rw [toNat_max, UInt64.toNat_one, max_comm]
  split_ifs with hhigh hmore
  · rw [UInt64.toNat_add, hstep]
  · rw [UInt64.toNat_sub_of_le _ _ (UInt64.le_iff_toNat_le.2 (by omega)), hstep]
  · rw [UInt64.toNat_one]
    omega

theorem one_le_adjustBaseFee (hfee : 1 ≤ s.baseFeePerGas.toNat) :
    1 ≤ (s.adjustBaseFee gasUsed gasLimit).baseFeePerGas.toNat := by
  by_cases hlimit : gasLimit = 0
  · rw [adjustBaseFee, if_pos hlimit]
    exact hfee
  · rw [adjustBaseFee_toNat hlimit]
    split_ifs <;> exact le_max_left _ _

/-- **Where `adjustBaseFee` obeys the law.** -/
theorem adjustBaseFee_law_iff (hfee : 1 ≤ s.baseFeePerGas.toNat) (hlimit : gasLimit ≠ 0) :
    (s.adjustBaseFee gasUsed gasLimit).baseFeePerGas.toNat =
        baseFeeLaw s.baseFeePerGas.toNat gasUsed.toNat gasLimit.toNat ↔
      FeeRegular s.baseFeePerGas.toNat gasUsed.toNat gasLimit.toNat := by
  have hused := gasUsed.toNat_lt
  have hbound := s.baseFeePerGas.toNat_lt
  have hlimitBound := gasLimit.toNat_lt
  have hstep : 1 ≤ feeStep s.baseFeePerGas.toNat := le_max_left _ _
  have hsmall : feeStep s.baseFeePerGas.toNat ≤ s.baseFeePerGas.toNat := by
    rw [feeStep]
    omega
  rw [adjustBaseFee_toNat hlimit, baseFeeLaw, FeeRegular]
  -- the doubled gas wraps around at most once
  have hdouble : 2 * gasUsed.toNat % 2 ^ 64 = 2 * gasUsed.toNat ∨
      2 * gasUsed.toNat % 2 ^ 64 + 2 ^ 64 = 2 * gasUsed.toNat := by omega
  have hsum : (s.baseFeePerGas.toNat + feeStep s.baseFeePerGas.toNat) % 2 ^ 64 =
        s.baseFeePerGas.toNat + feeStep s.baseFeePerGas.toNat ∨
      2 ^ 64 ≤ s.baseFeePerGas.toNat + feeStep s.baseFeePerGas.toNat ∧
        (s.baseFeePerGas.toNat + feeStep s.baseFeePerGas.toNat) % 2 ^ 64 <
          s.baseFeePerGas.toNat := by omega
  have hpos : gasLimit.toNat ≠ 0 := fun hzero => hlimit (UInt64.toNat_inj.1 hzero)
  split_ifs with hhigh habove hbelow hbelow'
  · -- above half, as it should be: the sum must fit
    omega
  · omega
  · omega
  · -- above half, but the doubled gas has wrapped around below the limit
    omega
  · omega
  · -- exactly half
    omega

/-! ### The limit of a block -/

/-- A block that `addBlock` writes has used no gas, and has the limit of the class. -/
theorem Written.gas (h : Written E s c block) : block.gasUsed = 0 ∧ block.gasLimit = 30000000 := by
  obtain ⟨nonce, rfl⟩ := h.eq_withNonce
  exact ⟨rfl, rfl⟩

/-- **Which limit `addBlock` compares with**: the target of the configuration. -/
theorem addBlock_baseFee (hwritten : s.writtenBlock E c = some block)
    (happlied : (s.applied c block).1 = true) :
    (s.addBlock E c).2.baseFeePerGas =
      (s.adjustBaseFee block.gasUsed s.cfg.targetGasPerBlock).baseFeePerGas := by
  rw [addBlock_of_applied hwritten happlied, committed, persistState]
  simp only [adjustBaseFee]
  split_ifs <;> rfl

theorem addBlock_law_iff (hwritten : s.writtenBlock E c = some block)
    (happlied : (s.applied c block).1 = true) (hfee : 1 ≤ s.baseFeePerGas.toNat) :
    (s.addBlock E c).2.baseFeePerGas.toNat =
        baseFeeLaw s.baseFeePerGas.toNat block.gasUsed.toNat block.gasLimit.toNat ↔
      s.cfg.targetGasPerBlock ≠ 0 ∨ s.baseFeePerGas.toNat = 1 := by
  obtain ⟨hused, hlimit⟩ := (writtenBlock_spec hwritten).gas
  have hstep : 1 ≤ feeStep s.baseFeePerGas.toNat := le_max_left _ _
  have hlaw : baseFeeLaw s.baseFeePerGas.toNat (0 : UInt64).toNat (30000000 : UInt64).toNat =
      max 1 (s.baseFeePerGas.toNat - feeStep s.baseFeePerGas.toNat) := rfl
  rw [addBlock_baseFee hwritten happlied, hused, hlimit, hlaw]
  by_cases htarget : s.cfg.targetGasPerBlock = 0
  · rw [adjustBaseFee, if_pos htarget]
    simp only [htarget, ne_eq, not_true_eq_false, false_or]
    omega
  · have hzero : ¬ s.cfg.targetGasPerBlock.toNat < 2 * (0 : UInt64).toNat % 2 ^ 64 :=
      Nat.not_lt_zero _
    rw [adjustBaseFee_toNat htarget, if_neg hzero]
    exact ⟨fun _ => Or.inl htarget, fun _ => rfl⟩

/-- **The law of the base fee.**  `adjustBaseFee` keeps the fee at one or more, and obeys the law
exactly where the fee and the gas are regular.  `addBlock` compares with the target of the
configuration, which is the limit of the block exactly when it is 30000000; its blocks have used no
gas, so that only a target of zero shows in the fee. -/
theorem baseFee_law_iff :
    (∀ (s : Blockchain U) (gasUsed gasLimit : UInt64), 1 ≤ s.baseFeePerGas.toNat → gasLimit ≠ 0 →
      1 ≤ (s.adjustBaseFee gasUsed gasLimit).baseFeePerGas.toNat ∧
      ((s.adjustBaseFee gasUsed gasLimit).baseFeePerGas.toNat =
          baseFeeLaw s.baseFeePerGas.toNat gasUsed.toNat gasLimit.toNat ↔
        FeeRegular s.baseFeePerGas.toNat gasUsed.toNat gasLimit.toNat)) ∧
    ∀ (s : Blockchain U) (c : Call) (block : Block), s.writtenBlock E c = some block →
      (s.applied c block).1 = true →
      (s.addBlock E c).2.baseFeePerGas =
          (s.adjustBaseFee block.gasUsed s.cfg.targetGasPerBlock).baseFeePerGas ∧
        (s.cfg.targetGasPerBlock = block.gasLimit ↔ s.cfg.targetGasPerBlock = 30000000) ∧
        (1 ≤ s.baseFeePerGas.toNat →
          ((s.addBlock E c).2.baseFeePerGas.toNat =
              baseFeeLaw s.baseFeePerGas.toNat block.gasUsed.toNat block.gasLimit.toNat ↔
            s.cfg.targetGasPerBlock ≠ 0 ∨ s.baseFeePerGas.toNat = 1)) := by
  refine ⟨fun s gasUsed gasLimit hfee hlimit =>
    ⟨one_le_adjustBaseFee hfee, adjustBaseFee_law_iff hfee hlimit⟩, ?_⟩
  intro s c block hwritten happlied
  refine ⟨addBlock_baseFee hwritten happlied, ?_, addBlock_law_iff hwritten happlied⟩
  rw [(writtenBlock_spec hwritten).gas.2]

/-! ### Some fees -/

def sampleHundred : Blockchain UtxoSet.ofMap := { sampleEasy with baseFeePerGas := 100 }

/-- Two thirds of the gas raise the fee by an eighth; the first block of a network is compared with
a target of its own. -/
theorem baseFee_law_iff_sampleHundred :
    (sampleHundred.adjustBaseFee 20000000 30000000).baseFeePerGas.toNat = 112 ∧
      sampleEasy.cfg.targetGasPerBlock ≠ sampleGenesisBlock.gasLimit := by
  obtain ⟨hadjust, hcall⟩ := baseFee_law_iff (U := UtxoSet.ofMap) (E := sampleLibrary)
  constructor
  · exact (hadjust sampleHundred 20000000 30000000 (by decide) (by decide)).2.2
      (Or.inl ⟨by decide, by decide⟩)
  · intro h
    have hlimit := (hcall sampleEasy (sampleOwnerCall 1000) sampleGenesisBlock
      sampleEasy_writtenBlock sampleGenesisBlock_applied).2.1.1 h
    exact absurd hlimit (by decide)

/-- **The fee falls after a block that used exactly half of its gas.** -/
theorem not_baseFee_law :
    ¬ ∀ (s : Blockchain UtxoSet.ofMap) (gasUsed gasLimit : UInt64), 1 ≤ s.baseFeePerGas.toNat →
      gasLimit ≠ 0 →
      (s.adjustBaseFee gasUsed gasLimit).baseFeePerGas.toNat =
        baseFeeLaw s.baseFeePerGas.toNat gasUsed.toNat gasLimit.toNat := by
  intro h
  have hhalf := h sampleHundred 15000000 30000000 (by decide) (by decide)
  revert hhalf
  decide

end Blockchain

end Node
