/-
**Inflation.**

A block is not to create value: each transaction pays out at most what it spends, and what is
created from nothing is at most the reward that the supply leaves room for.  The node compares
sums that wrap around at `2 ^ 64`, does not look at the inputs of the first transaction, and
computes the room in the supply by a subtraction that wraps around.

Main definitions:

* `Node.Blockchain.NoInflation` — the block creates no value beyond its reward;
* `Node.Blockchain.SumsFit` — the sums that are compared are the true ones.

Main results:

* `Node.Blockchain.no_inflation` — **an accepted list creates no value exactly if** its sums fit;
* `Node.Blockchain.no_inflation_wrapped` — two outputs of `2 ^ 63` are accepted for nothing.
-/

import MedorCoin.Node.Validation

set_option autoImplicit false

namespace Node

open Cpp

/-! ### The coinbase -/

theorem coinbaseTx_inputs (reward : UInt64) (minerAddr ownerAddress : Str) :
    (coinbaseTx reward minerAddr ownerAddress).inputs = [] := rfl

theorem minerValue_le (reward : UInt64) : (reward * 90 / 100).toNat ≤ reward.toNat := by
  rw [UInt64.toNat_div, UInt64.toNat_mul]
  have h90 : (90 : UInt64).toNat = 90 := rfl
  have h100 : (100 : UInt64).toNat = 100 := rfl
  rw [h90, h100]
  have hmod := Nat.mod_le (reward.toNat * 90) (2 ^ 64)
  omega

theorem coinbaseTx_outputTotal (reward : UInt64) (minerAddr ownerAddress : Str) :
    (coinbaseTx reward minerAddr ownerAddress).outputTotal = reward.toNat := by
  have hle := minerValue_le reward
  have hsub : (reward - reward * 90 / 100).toNat =
      reward.toNat - (reward * 90 / 100).toNat :=
    UInt64.toNat_sub_of_le _ _ (UInt64.le_iff_toNat_le.2 hle)
  have htotal : (coinbaseTx reward minerAddr ownerAddress).outputTotal =
      (reward * 90 / 100).toNat + ((reward - reward * 90 / 100).toNat + 0) := rfl
  rw [htotal, hsub]
  omega

/-! ### Created value -/

/-- What the transactions without inputs pay out. -/
def createdValue (txs : List Transaction) : ℕ :=
  ((txs.filter fun tx => tx.inputs = []).map Transaction.outputTotal).sum

theorem createdValue_of_covered {coins : Coins} {txs : List Transaction}
    (h : ∀ tx ∈ txs, tx.outputTotal ≤ spentValue coins tx) : createdValue txs = 0 := by
  refine List.sum_eq_zero fun n hn => ?_
  obtain ⟨tx, htx, rfl⟩ := List.mem_map.1 hn
  obtain ⟨hmem, hinputs⟩ := List.mem_filter.1 htx
  have hcovered := h tx hmem
  rw [spentValue, of_decide_eq_true hinputs] at hcovered
  exact Nat.le_zero.1 hcovered

namespace Blockchain

variable {U : UtxoSet} {E : Secp256k1}

/-- **The block of a call creates no value**: each transaction but the coinbase pays out at most
the distinct unspent outputs it spends, and what is paid out by transactions without inputs is at
most the reward of the schedule and what is left of the supply. -/
def NoInflation (s : Blockchain U) (c : Call) : Prop :=
  (∀ tx ∈ c.transactions, tx.outputTotal ≤ spentValue (U.coins s.utxoSet) tx) ∧
    createdValue (s.blockTransactions c) ≤
      min (s.calculateReward c.validationTime).toNat (s.cfg.maxSupply.toNat - s.totalSupply.toNat)

/-- The outputs of a transaction wrap around at most as often as what it spends, and without a
coinbase the first transaction passes the check that only the others are put to. -/
structure SumsFit (s : Blockchain U) (c : Call) : Prop where
  wraps : ∀ tx ∈ c.transactions,
    tx.outputTotal / 2 ^ 64 ≤ spentValue (U.coins s.utxoSet) tx / 2 ^ 64
  supply : s.cappedReward c.rewardTime = 0 ∨ s.totalSupply ≤ s.cfg.maxSupply
  first : s.cappedReward c.rewardTime = 0 → ∀ tx ∈ c.transactions.head?,
    tx.outputTotal / 2 ^ 64 < spentValue (U.coins s.utxoSet) tx / 2 ^ 64 ∨
      tx.outputTotal % 2 ^ 64 ≤ spentValue (U.coins s.utxoSet) tx % 2 ^ 64

/-- A number is at most another if its quotient is smaller, or no greater with a remainder that is
no greater. -/
theorem le_of_div_of_mod {a b : ℕ} (hdiv : a / 2 ^ 64 ≤ b / 2 ^ 64)
    (hmod : a / 2 ^ 64 < b / 2 ^ 64 ∨ a % 2 ^ 64 ≤ b % 2 ^ 64) : a ≤ b := by
  omega

theorem toNat_cappedReward (s : Blockchain U) (now : UInt64) :
    (s.cappedReward now).toNat =
      min (s.calculateReward now).toNat (s.cfg.maxSupply - s.totalSupply).toNat :=
  toNat_min _ _

theorem cappedReward_eq_zero_iff {s : Blockchain U} {now : UInt64} :
    s.cappedReward now = 0 ↔ (s.cappedReward now).toNat = 0 := by
  rw [← UInt64.toNat_inj]
  rfl

theorem cappedReward_pos {s : Blockchain U} {now : UInt64} (h : s.cappedReward now ≠ 0) :
    0 < s.cappedReward now := by
  rw [UInt64.lt_iff_toNat_lt]
  rw [ne_eq, cappedReward_eq_zero_iff] at h
  exact Nat.pos_of_ne_zero h

variable {s : Blockchain U} {c : Call}

theorem first_of_valid {first : Transaction} {rest : List Transaction}
    (htxs : s.blockTransactions c = first :: rest)
    (hvalid : s.validateTransactions E c.validationTime (s.blockTransactions c) = true) :
    first.outputTotal % 2 ^ 64 ≤ (s.cappedReward c.validationTime).toNat ∧
      ∀ tx ∈ rest, Checked E (U.coins s.utxoSet) tx := by
  rw [htxs, validateTransactions_cons] at hvalid
  exact ⟨hvalid.2.1, hvalid.2.2.1⟩

theorem SumsFit.covered (hfit : SumsFit s c)
    (hvalid : s.validateTransactions E c.validationTime (s.blockTransactions c) = true) :
    ∀ tx ∈ c.transactions, tx.outputTotal ≤ spentValue (U.coins s.utxoSet) tx := by
  intro tx htx
  refine le_of_div_of_mod (hfit.wraps tx htx) ?_
  by_cases hzero : s.cappedReward c.rewardTime = 0
  · have htxs := blockTransactions_of_zero hzero
    cases hlist : c.transactions with
    | nil =>
        rw [hlist] at htx
        exact absurd htx List.not_mem_nil
    | cons first rest =>
        rw [hlist] at htx htxs
        rcases List.mem_cons.1 htx with rfl | hrest
        · exact hfit.first hzero tx (by rw [hlist]; rfl)
        · exact Or.inr ((first_of_valid htxs hvalid).2 tx hrest).covered
  · have htxs := blockTransactions_of_pos (cappedReward_pos hzero)
    exact Or.inr ((first_of_valid htxs hvalid).2 tx htx).covered

theorem createdValue_blockTransactions
    (h : ∀ tx ∈ c.transactions, tx.outputTotal ≤ spentValue (U.coins s.utxoSet) tx) :
    createdValue (s.blockTransactions c) = (s.cappedReward c.rewardTime).toNat := by
  by_cases hzero : s.cappedReward c.rewardTime = 0
  · rw [blockTransactions_of_zero hzero, createdValue_of_covered h, hzero]
    rfl
  · rw [blockTransactions_of_pos (cappedReward_pos hzero), createdValue,
      List.filter_cons_of_pos (by rw [coinbaseTx_inputs]; decide), List.map_cons, List.sum_cons,
      coinbaseTx_outputTotal]
    have hrest : createdValue c.transactions = 0 := createdValue_of_covered h
    rw [createdValue] at hrest
    rw [hrest, Nat.add_zero]

theorem reward_le_of_valid
    (hvalid : s.validateTransactions E c.validationTime (s.blockTransactions c) = true) :
    (s.cappedReward c.rewardTime).toNat ≤ (s.calculateReward c.validationTime).toNat ∧
      (s.cappedReward c.rewardTime).toNat ≤ (s.cfg.maxSupply - s.totalSupply).toNat := by
  have hremaining := toNat_cappedReward s c.rewardTime
  refine ⟨?_, by omega⟩
  by_cases hzero : s.cappedReward c.rewardTime = 0
  · rw [hzero]
    exact Nat.zero_le _
  · have hfirst := (first_of_valid (blockTransactions_of_pos (cappedReward_pos hzero)) hvalid).1
    rw [coinbaseTx_outputTotal, Nat.mod_eq_of_lt (UInt64.toNat_lt _), toNat_cappedReward s
      c.validationTime] at hfirst
    omega

/-- **An accepted list creates no value exactly if its sums fit**: no sum of outputs wraps around
more often than the sum of what is spent, the supply has not passed its bound, and a transaction
that stands in the place of the coinbase is covered like the others. -/
theorem no_inflation
    (hvalid : s.validateTransactions E c.validationTime (s.blockTransactions c) = true) :
    s.NoInflation c ↔ s.SumsFit c := by
  constructor
  · rintro ⟨hcovered, hcreated⟩
    refine ⟨fun tx htx => Nat.div_le_div_right (hcovered tx htx), ?_, ?_⟩
    · by_cases hzero : s.cappedReward c.rewardTime = 0
      · exact Or.inl hzero
      · right
        rw [createdValue_blockTransactions hcovered] at hcreated
        have hpos := cappedReward_pos hzero
        rw [UInt64.lt_iff_toNat_lt] at hpos
        have h0 : (0 : UInt64).toNat = 0 := rfl
        rw [UInt64.le_iff_toNat_le]
        omega
    · intro _ tx htx
      have hle := hcovered tx (List.mem_of_mem_head? htx)
      omega
  · intro hfit
    have hcovered := hfit.covered hvalid
    obtain ⟨hreward, hremaining⟩ := reward_le_of_valid hvalid
    refine ⟨hcovered, ?_⟩
    rw [createdValue_blockTransactions hcovered]
    rcases hfit.supply with hzero | hsupply
    · rw [hzero]
      exact Nat.zero_le _
    · rw [UInt64.toNat_sub_of_le _ _ hsupply] at hremaining
      omega

/-! ### A coin from nothing -/

def sampleLibrary : Secp256k1 := ⟨fun _ _ _ => none, fun _ => none⟩

def sampleConfig : Config := { ownerAddress := str "owner" }

def sampleMint : Transaction where
  outputs := [⟨UInt64.ofNat (2 ^ 63), str "thief"⟩, ⟨UInt64.ofNat (2 ^ 63), str "thief"⟩]
  txHash := List.replicate 64 122

def sampleMintCall : Call where
  minerAddr := str "miner"
  transactions := [sampleMint]
  rewardTime := 1000
  validationTime := 1000
  stampTime := 1000

def sampleEmpty : Blockchain UtxoSet.ofMap :=
  Blockchain.initial UtxoSet.ofMap sampleConfig Js.Map.empty {}

theorem sampleMint_accepted :
    sampleEmpty.validateTransactions sampleLibrary sampleMintCall.validationTime
      (sampleEmpty.blockTransactions sampleMintCall) = true := by
  have hpos : 0 < sampleEmpty.cappedReward sampleMintCall.rewardTime := by decide
  rw [blockTransactions_of_pos hpos, validateTransactions_cons]
  refine ⟨?_, ?_, ?_, ?_⟩
  · have hz : (122 : UInt8) ∈ List.replicate 64 122 := by decide
    refine hasDuplicateTxInBlock_of_nodup (List.nodup_cons.2 ⟨?_, List.nodup_singleton _⟩)
    intro hmem
    exact Keccak.hex_ne_of_mem hz rfl (List.mem_singleton.1 hmem)
  · rw [coinbaseTx_outputTotal]
    decide
  · intro tx htx
    rw [List.mem_singleton.1 htx]
    refine ⟨rfl, fun input hinput => absurd hinput List.not_mem_nil, List.nodup_nil, ?_⟩
    decide
  · exact List.nodup_nil

theorem no_inflation_sampleMint :
    sampleEmpty.validateTransactions sampleLibrary sampleMintCall.validationTime
        (sampleEmpty.blockTransactions sampleMintCall) = true ∧
      (sampleEmpty.NoInflation sampleMintCall ↔ sampleEmpty.SumsFit sampleMintCall) :=
  ⟨sampleMint_accepted, no_inflation sampleMint_accepted⟩

/-- **Two outputs of `2 ^ 63` are accepted for nothing.** -/
theorem no_inflation_wrapped :
    sampleEmpty.validateTransactions sampleLibrary sampleMintCall.validationTime
        (sampleEmpty.blockTransactions sampleMintCall) = true ∧
      ¬ sampleEmpty.NoInflation sampleMintCall := by
  refine ⟨sampleMint_accepted, ?_⟩
  rintro ⟨hcovered, -⟩
  have hle := hcovered sampleMint List.mem_cons_self
  exact absurd hle (by decide)

end Blockchain

end Node
