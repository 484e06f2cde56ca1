/-
**The settlement of fees.**

A contract is executed first; the fees are computed and settled afterwards.  The machine itself is a
parameter: it works on the host and leaves some of the gas.  The price of the gas is capped by what
the sender wants to pay at most, and the sender is charged by that price; the miner gets the whole
tip and the treasury the whole base fee, whatever the cap.  Products and sums are in `uint64_t`.  A
sender who cannot pay is not charged, but what the execution has written stays.

Main definitions:

* `Evm.Machine`, `Evm.Chain`, `Evm.Fees` — the machine; the balances; what the fees are computed
  from;
* `Evm.settle`, `Evm.executeContract`;
* `Evm.Settles` — what the sender loses is what the miner and the treasury gain;
* `Evm.Execution.Fair` — and a sender who cannot pay has no effects;
* `Evm.Bill.Balanced` — the charge is the sum of what is paid out.

Main results:

* `Evm.settles_iff` — when three movements are a settlement;
* `Evm.balance_settle` — **what is settled**, in unbounded integers;
* `Evm.Execution.fair_iff` — **when the settlement is fair**.
-/

import MedorCoin.Evm.Host
import MedorCoin.Node.AccountDB
import MedorCoin.Node.Transaction

set_option autoImplicit false

namespace Evm

open Cpp
open Node (AccountDB)
open Node.AccountDB (isValidKey)

/-! ### Execution -/

/-- `evmc_message`, as far as it is not the same in every call. -/
structure Message where
  gas : UInt64
  destination : Vector UInt8 20
  sender : Vector UInt8 20
  inputData : List UInt8

/-- The virtual machine: what it leaves of the gas, and the host after the execution. -/
structure Machine where
  execute : Host → Message → List UInt8 → UInt64 × Host
  gasLeft_le : ∀ host msg bytecode, (execute host msg bytecode).1.toNat ≤ msg.gas.toNat

/-- The part of the chain that the settlement changes, and the address of the treasury. -/
structure Chain where
  accountDB : AccountDB := {}
  treasuryAddress : Str
  blockGasUsed : UInt64 := 0

/-- What the chain says of the fees of a transaction, and who sent it. -/
structure Fees where
  baseFee : UInt64
  tip : UInt64
  maxFee : UInt64
  fromAddress : Str

/-- `burnBaseFees(amount)`; whether the treasury got it is only logged. -/
def Chain.burnBaseFees (chain : Chain) (amount : UInt64) : Chain :=
  { chain with accountDB := (chain.accountDB.addBalance chain.treasuryAddress amount).2 }

/-- The settlement of `executeContract`, once the gas that was used is known. -/
def settle (gasUsed : UInt64) (fees : Fees) (chain : Chain) (minerAddress : Str) : Chain :=
  let effectivePrice := min fees.maxFee (fees.baseFee + fees.tip)
  let totalFee := gasUsed * effectivePrice
  let baseFeeTotal := gasUsed * fees.baseFee
  let priorityTotal := gasUsed * fees.tip
  let senderBal := chain.accountDB.getBalance fees.fromAddress
  if senderBal < totalFee then chain
  else
    let db := (chain.accountDB.setBalance fees.fromAddress (senderBal - totalFee)).2
    let minerBal := db.getBalance minerAddress
    let db := (db.setBalance minerAddress (minerBal + priorityTotal)).2
    let chain := { chain with accountDB := db }.burnBaseFees baseFeeTotal
    { chain with blockGasUsed := chain.blockGasUsed + gasUsed }

/-- `executeContract`: the storage and the chain after it. -/
def executeContract (vm : Machine) (storage : RocksDBWrapper) (bytecode inputData : List UInt8)
    (gasLimit : UInt64) (destination sender : Vector UInt8 20) (fees : Fees) (chain : Chain)
    (minerAddress : Str) : RocksDBWrapper × Chain :=
  let msg : Message := { gas := gasLimit, destination, sender, inputData }
  let result := vm.execute { storageDB := storage } msg bytecode
  (result.2.storageDB, settle (gasLimit - result.1) fees chain minerAddress)

/-- A balance, in unbounded integers. -/
def Chain.balance (chain : Chain) (addr : Str) : ℕ := (chain.accountDB.getBalance addr).toNat

/-! ### Movements -/

/-- The database takes a record for this address. -/
def Known (addr : Str) : Prop := addr ≠ [] ∧ isValidKey (AccountDB.balanceKey addr) = true

instance (addr : Str) : Decidable (Known addr) := inferInstanceAs (Decidable (_ ∧ _))

variable {db : AccountDB} {a b : Str} {v : UInt64}

theorem setBalance_known (hdisk : db.outcomes = []) :
    (db.setBalance a v).1 = decide (Known a) ∧ (db.setBalance a v).2.outcomes = [] := by
  rw [AccountDB.setBalance]
  by_cases hne : a = []
  · rw [if_pos hne]
    exact ⟨(decide_eq_false fun h => h.1 hne).symm, hdisk⟩
  · rw [if_neg hne, AccountDB.put_outcomes, hdisk]
    refine ⟨?_, by split <;> rfl⟩
    by_cases hkey : isValidKey (AccountDB.balanceKey a) = true
    · rw [AccountDB.put_fst hkey (by rw [hdisk]; rintro ⟨⟩)]
      exact (decide_eq_true ⟨hne, hkey⟩).symm
    · rw [AccountDB.put, if_neg hkey]
      exact (decide_eq_false fun h => hkey h.2).symm

theorem getBalance_setBalance_known (hdisk : db.outcomes = []) (b : Str) :
    (db.setBalance a v).2.getBalance b = if Known a ∧ a = b then v else db.getBalance b := by
  have hfst := (setBalance_known (a := a) (v := v) hdisk).1
  by_cases hknown : Known a
  · rw [AccountDB.getBalance_setBalance (by rw [hfst, decide_eq_true hknown])]
    simp [hknown]
  · rw [AccountDB.getBalance_of_entries
      (AccountDB.entries_setBalance_false (by rw [hfst, decide_eq_false hknown])),
      if_neg fun h => hknown h.1]

theorem getBalance_of_not_known (h : ¬ Known a) : db.getBalance a = 0 := by
  rw [AccountDB.getBalance]
  split
  · rfl
  · next hne =>
      rw [AccountDB.get, if_neg fun hkey => h ⟨hne, hkey⟩]
      rfl

theorem getBalance_addBalance_known (hdisk : db.outcomes = []) (b : Str) :
    ((db.addBalance a v).2.getBalance b).toNat = (db.getBalance b).toNat +
      if b = a then if Known a ∧ (db.getBalance a).toNat + v.toNat < 2 ^ 64 then v.toNat else 0
      else 0 := by
  rw [AccountDB.addBalance_eq]
  by_cases hroom : db.Room a v
  · have hsum : (db.getBalance a + v).toNat = (db.getBalance a).toNat + v.toNat :=
      toNat_add_of_lt hroom
    rw [if_pos hroom, getBalance_setBalance_known hdisk]
    by_cases hab : a = b
    · subst hab
      by_cases hknown : Known a
      · rw [if_pos ⟨hknown, rfl⟩, if_pos rfl, if_pos ⟨hknown, hroom⟩, hsum]
      · rw [if_neg fun h => hknown h.1, if_pos rfl, if_neg fun h => hknown h.1, Nat.add_zero]
    · rw [if_neg fun h => hab h.2, if_neg fun h => hab h.symm, Nat.add_zero]
  · rw [if_neg hroom]
    have hnone : ¬ (Known a ∧ (db.getBalance a).toNat + v.toNat < 2 ^ 64) := fun h => hroom h.2
    rw [if_neg hnone, ite_self, Nat.add_zero]

/-! ### Three movements -/

/-- **What the sender loses is what the miner and the treasury gain**, for amounts that are not
negative.  The three may be the same. -/
def Settles (sender miner treasury : Str) (before after : Str → ℕ) : Prop :=
  ∃ tip burn : ℕ, ∀ a,
    after a + (if a = sender then tip + burn else 0) =
      before a + (if a = miner then tip else 0) + if a = treasury then burn else 0

/-- **When three movements are a settlement**: a charge, a reward that may wrap around, and a
credit. -/
theorem settles_iff {sender miner treasury : Str} {before after : Str → ℕ}
    {charge reward credit wrapped modulus : ℕ} (hwrapped : wrapped = 0 ∨ wrapped = modulus)
    (hreward : reward < modulus)
    (h : ∀ a, after a + (if a = sender then charge else 0) + (if a = miner then wrapped else 0) =
      before a + (if a = miner then reward else 0) + if a = treasury then credit else 0) :
    Settles sender miner treasury before after ↔
      charge + wrapped = reward + credit ∧ (wrapped ≠ 0 → miner = sender ∨ miner = treasury) := by
  have hs := h sender
  have hm := h miner
  have ht := h treasury
  constructor
  · rintro ⟨tip, burn, hsettles⟩
    have hs' := hsettles sender
    have hm' := hsettles miner
    have ht' := hsettles treasury
    -- which of the three are the same
    rcases eq_or_ne miner sender with rfl | hms
    · rcases eq_or_ne treasury miner with rfl | htm
      · simp only [↓reduceIte] at hs hs'
        exact ⟨by omega, fun _ => Or.inl rfl⟩
      · simp only [↓reduceIte, htm, htm.symm] at hs ht hs' ht'
        exact ⟨by omega, fun _ => Or.inl rfl⟩
    · rcases eq_or_ne treasury miner with rfl | htm
      · simp only [↓reduceIte, hms, hms.symm] at hs hm hs' hm'
        exact ⟨by omega, fun _ => Or.inr rfl⟩
      · -- the miner alone cannot lose
        have hunwrapped : wrapped = 0 := by
          simp only [↓reduceIte, hms, htm.symm] at hm hm'
          omega
        refine ⟨?_, fun hw => absurd hunwrapped hw⟩
        rcases eq_or_ne treasury sender with rfl | hts
        · simp only [↓reduceIte, hms, hms.symm] at hs hm hs' hm'
          omega
        · simp only [↓reduceIte, hms, hms.symm, htm, htm.symm, hts, hts.symm]
            at hs hm ht hs' hm' ht'
          omega
  · rintro ⟨hsum, halias⟩
    rcases hwrapped with hzero | hmodulus
    · refine ⟨reward, credit, fun a => ?_⟩
      have ha := h a
      simp only [hzero, ite_self, Nat.add_zero] at ha hsum
      rw [← hsum]
      exact ha
    · have hpos : wrapped ≠ 0 := by omega
      rcases halias hpos with rfl | rfl
      · -- the miner pays himself
        refine ⟨0, credit, fun a => ?_⟩
        have ha := h a
        by_cases heq : a = miner
        · simp only [heq, ↓reduceIte] at ha ⊢
          omega
        · simp only [heq, ↓reduceIte] at ha ⊢
          omega
      · -- the miner and the treasury are one account
        refine ⟨charge, 0, fun a => ?_⟩
        have ha := h a
        by_cases heq : a = miner
        · simp only [heq, ↓reduceIte] at ha ⊢
          split_ifs at ha ⊢ <;> omega
        · simp only [heq, ↓reduceIte] at ha ⊢
          split_ifs at ha ⊢ <;> omega

/-! ### The settlement -/

/-- What a settlement depends on: the gas that was used, the fees, the three accounts and the
balances before. -/
structure Bill where
  gasUsed : ℕ
  fees : Fees
  miner : Str
  treasury : Str
  balance : Str → ℕ

namespace Bill

variable (bill : Bill)

/-- The fee, in unbounded integers. -/
def fee : ℕ :=
  bill.gasUsed * min bill.fees.maxFee.toNat (bill.fees.baseFee.toNat + bill.fees.tip.toNat)

/-- The same in `uint64_t`: this is what the sender is charged. -/
def charge : ℕ :=
  bill.gasUsed * min bill.fees.maxFee.toNat
    ((bill.fees.baseFee.toNat + bill.fees.tip.toNat) % 2 ^ 64) % 2 ^ 64

/-- What the miner gets, if his address is known. -/
def reward : ℕ := if Known bill.miner then bill.gasUsed * bill.fees.tip.toNat % 2 ^ 64 else 0

/-- What the treasury is to get. -/
def burned : ℕ := bill.gasUsed * bill.fees.baseFee.toNat % 2 ^ 64

/-- The balance of the sender after the charge. -/
def left : ℕ := bill.balance bill.fees.fromAddress - bill.charge

/-- The balance of the miner with the reward, in unbounded integers. -/
def minerSum : ℕ :=
  (if bill.miner = bill.fees.fromAddress then bill.left else bill.balance bill.miner) + bill.reward

/-- What is lost if the balance of the miner wraps around. -/
def wrapped : ℕ := if 2 ^ 64 ≤ bill.minerSum then 2 ^ 64 else 0

/-- The balance of the treasury when it is to be credited. -/
def treasuryBal : ℕ :=
  if bill.treasury = bill.miner then bill.minerSum % 2 ^ 64
  else if bill.treasury = bill.fees.fromAddress then bill.left else bill.balance bill.treasury

/-- What the treasury gets: all or nothing. -/
def credit : ℕ :=
  if Known bill.treasury ∧ bill.treasuryBal + bill.burned < 2 ^ 64 then bill.burned else 0

/-- **The charge is the sum of what is paid out.** -/
def Balanced : Prop :=
  bill.charge + bill.wrapped = bill.reward + bill.credit ∧
    (bill.wrapped ≠ 0 → bill.miner = bill.fees.fromAddress ∨ bill.miner = bill.treasury)

instance : Decidable bill.Balanced := inferInstanceAs (Decidable (_ ∧ _))

theorem wrapped_eq : bill.wrapped = 0 ∨ bill.wrapped = 2 ^ 64 := by
  rw [wrapped]
  split
  · exact Or.inr rfl
  · exact Or.inl rfl

theorem reward_lt : bill.reward < 2 ^ 64 := by
  rw [reward]
  split
  · exact Nat.mod_lt _ (by decide)
  · decide

theorem minerSum_eq (hbalance : ∀ a, bill.balance a < 2 ^ 64) :
    bill.minerSum % 2 ^ 64 + bill.wrapped = bill.minerSum := by
  have hreward := bill.reward_lt
  have hminer := hbalance bill.miner
  have hsender := hbalance bill.fees.fromAddress
  have hlt : bill.minerSum < 2 ^ 64 + 2 ^ 64 := by
    rw [minerSum, left]
    split <;> omega
  rw [wrapped]
  split <;> omega

end Bill

section Settlement

variable {chain : Chain} {fees : Fees} {miner : Str} {gasUsed : UInt64}

/-- What a settlement on this chain depends on. -/
def billOf (gasUsed : UInt64) (fees : Fees) (chain : Chain) (miner : Str) : Bill where
  gasUsed := gasUsed.toNat
  fees
  miner
  treasury := chain.treasuryAddress
  balance := chain.balance

theorem toNat_totalFee (chain : Chain) (miner : Str) :
    (gasUsed * min fees.maxFee (fees.baseFee + fees.tip)).toNat =
      (billOf gasUsed fees chain miner).charge := by
  rw [UInt64.toNat_mul, Node.toNat_min, UInt64.toNat_add]
  rfl

theorem settle_of_lt
    (h : chain.balance fees.fromAddress < (billOf gasUsed fees chain miner).charge) :
    settle gasUsed fees chain miner = chain := by
  rw [settle, if_pos]
  rw [UInt64.lt_iff_toNat_lt, toNat_totalFee chain miner]
  exact h

theorem balance_charged (miner : Str) (hdisk : chain.accountDB.outcomes = [])
    (h : (billOf gasUsed fees chain miner).charge ≤ chain.balance fees.fromAddress) (a : Str) :
    ((chain.accountDB.setBalance fees.fromAddress (chain.accountDB.getBalance fees.fromAddress -
        gasUsed * min fees.maxFee (fees.baseFee + fees.tip))).2.getBalance a).toNat =
      if a = fees.fromAddress then (billOf gasUsed fees chain miner).left else chain.balance a := by
  rw [getBalance_setBalance_known hdisk]
  rw [← toNat_totalFee chain miner] at h
  have hsub := UInt64.toNat_sub_of_le _ _ (UInt64.le_iff_toNat_le.2 h)
  rw [toNat_totalFee chain miner] at hsub h
  by_cases heq : a = fees.fromAddress
  · subst heq
    by_cases hknown : Known fees.fromAddress
    · rw [if_pos ⟨hknown, rfl⟩, if_pos rfl, hsub]
      rfl
    · -- who is not known has nothing to be charged
      have hzero : chain.balance fees.fromAddress = 0 := by
        rw [Chain.balance, getBalance_of_not_known hknown]
        rfl
      have hleft : (billOf gasUsed fees chain miner).left =
          chain.balance fees.fromAddress - (billOf gasUsed fees chain miner).charge := rfl
      rw [if_neg fun h => hknown h.1, if_pos rfl, hleft, hzero, Nat.zero_sub]
      exact hzero
  · rw [if_neg fun h => heq h.2.symm, if_neg heq]
    rfl

theorem balance_rewarded {db : AccountDB} (hdisk : db.outcomes = [])
    (hcharged : ∀ a, (db.getBalance a).toNat =
      if a = fees.fromAddress then (billOf gasUsed fees chain miner).left else chain.balance a)
    (a : Str) :
    ((db.setBalance miner (db.getBalance miner + gasUsed * fees.tip)).2.getBalance a).toNat =
      if a = miner then (billOf gasUsed fees chain miner).minerSum % 2 ^ 64
      else (db.getBalance a).toNat := by
  have hsum : (billOf gasUsed fees chain miner).minerSum =
      (db.getBalance miner).toNat + (billOf gasUsed fees chain miner).reward := by
    rw [hcharged]
    rfl
  have hreward : (billOf gasUsed fees chain miner).reward =
      if Known miner then gasUsed.toNat * fees.tip.toNat % 2 ^ 64 else 0 := rfl
  rw [getBalance_setBalance_known hdisk]
  by_cases heq : a = miner
  · subst heq
    rw [if_pos rfl, hsum, hreward]
    by_cases hknown : Known a
    · rw [if_pos ⟨hknown, rfl⟩, if_pos hknown, UInt64.toNat_add, UInt64.toNat_mul]
    · have hzero : (db.getBalance a).toNat = 0 := by
        rw [getBalance_of_not_known hknown]
        rfl
      rw [if_neg fun h => hknown h.1, if_neg hknown, hzero, Nat.add_zero, Nat.zero_mod]
  · rw [if_neg fun h => heq h.2.symm, if_neg heq]

/-- **What is settled**, in unbounded integers. -/
theorem balance_settle (hdisk : chain.accountDB.outcomes = [])
    (h : (billOf gasUsed fees chain miner).charge ≤ chain.balance fees.fromAddress) (a : Str) :
    (settle gasUsed fees chain miner).balance a +
        (if a = fees.fromAddress then (billOf gasUsed fees chain miner).charge else 0) +
        (if a = miner then (billOf gasUsed fees chain miner).wrapped else 0) =
      chain.balance a + (if a = miner then (billOf gasUsed fees chain miner).reward else 0) +
        if a = chain.treasuryAddress then (billOf gasUsed fees chain miner).credit else 0 := by
  have hnot : ¬ chain.accountDB.getBalance fees.fromAddress <
      gasUsed * min fees.maxFee (fees.baseFee + fees.tip) := by
    rw [UInt64.lt_iff_toNat_lt, toNat_totalFee chain miner, Nat.not_lt]
    exact h
  have hcharged := balance_charged miner hdisk h
  have hdisk₁ := (setBalance_known (a := fees.fromAddress) (v := chain.accountDB.getBalance
    fees.fromAddress - gasUsed * min fees.maxFee (fees.baseFee + fees.tip)) hdisk).2
  simp only [settle, if_neg hnot, Chain.burnBaseFees]
  generalize (chain.accountDB.setBalance fees.fromAddress (chain.accountDB.getBalance
    fees.fromAddress - gasUsed * min fees.maxFee (fees.baseFee + fees.tip))).2 = db₁ at *
  have hrewarded := balance_rewarded hdisk₁ hcharged
  have hdisk₂ := (setBalance_known (a := miner)
    (v := db₁.getBalance miner + gasUsed * fees.tip) hdisk₁).2
  generalize (db₁.setBalance miner (db₁.getBalance miner + gasUsed * fees.tip)).2 = db₂ at *
  rw [Chain.balance, getBalance_addBalance_known hdisk₂]
  -- what the treasury had before its credit
  have htreasury : (db₂.getBalance chain.treasuryAddress).toNat =
      (billOf gasUsed fees chain miner).treasuryBal := by
    rw [hrewarded, hcharged]
    rfl
  have hburned : (gasUsed * fees.baseFee).toNat = (billOf gasUsed fees chain miner).burned :=
    UInt64.toNat_mul _ _
  have hcredit : (if Known chain.treasuryAddress ∧ (db₂.getBalance chain.treasuryAddress).toNat +
      (gasUsed * fees.baseFee).toNat < 2 ^ 64 then (gasUsed * fees.baseFee).toNat else 0) =
        (billOf gasUsed fees chain miner).credit := by
    rw [htreasury, hburned]
    rfl
  have hleft : (billOf gasUsed fees chain miner).left =
      chain.balance fees.fromAddress - (billOf gasUsed fees chain miner).charge := rfl
  have hsum : (billOf gasUsed fees chain miner).minerSum =
      (if miner = fees.fromAddress then (billOf gasUsed fees chain miner).left
        else chain.balance miner) + (billOf gasUsed fees chain miner).reward := rfl
  have hwrapped := (billOf gasUsed fees chain miner).minerSum_eq (fun a => UInt64.toNat_lt _)
  rw [hcredit, hrewarded, hcharged]
  generalize (if a = chain.treasuryAddress then (billOf gasUsed fees chain miner).credit else 0) =
    credit
  by_cases hm : a = miner
  · subst hm
    by_cases hs : a = fees.fromAddress
    · subst hs
      simp only [↓reduceIte] at hsum ⊢
      omega
    · simp only [↓reduceIte, hs] at hsum ⊢
      omega
  · by_cases hs : a = fees.fromAddress
    · subst hs
      simp only [↓reduceIte, hm]
      omega
    · simp only [↓reduceIte, hm, hs]
      omega

theorem settles_settle_iff (gasUsed : UInt64) (fees : Fees) (miner : Str)
    (hdisk : chain.accountDB.outcomes = []) :
    Settles fees.fromAddress miner chain.treasuryAddress chain.balance
        (settle gasUsed fees chain miner).balance ↔
      chain.balance fees.fromAddress < (billOf gasUsed fees chain miner).charge ∨
        (billOf gasUsed fees chain miner).Balanced := by
  by_cases h : chain.balance fees.fromAddress < (billOf gasUsed fees chain miner).charge
  · refine iff_of_true ?_ (Or.inl h)
    rw [settle_of_lt h]
    exact ⟨0, 0, fun a => by simp⟩
  · rw [or_iff_right h]
    exact settles_iff (billOf gasUsed fees chain miner).wrapped_eq
      (billOf gasUsed fees chain miner).reward_lt (balance_settle hdisk (Nat.not_lt.1 h))

end Settlement

/-! ### Fairness -/

/-- What a call of `executeContract` is given. -/
structure Execution where
  vm : Machine
  storage : RocksDBWrapper
  bytecode : List UInt8
  inputData : List UInt8
  gasLimit : UInt64
  destination : Vector UInt8 20
  sender : Vector UInt8 20
  fees : Fees
  chain : Chain
  minerAddress : Str

namespace Execution

variable (c : Execution)

/-- The storage and the chain after the call. -/
def result : RocksDBWrapper × Chain :=
  executeContract c.vm c.storage c.bytecode c.inputData c.gasLimit c.destination c.sender c.fees
    c.chain c.minerAddress

/-- What the machine does. -/
def executed : UInt64 × Host :=
  c.vm.execute { storageDB := c.storage }
    { gas := c.gasLimit
      destination := c.destination
      sender := c.sender
      inputData := c.inputData }
    c.bytecode

/-- What the settlement depends on. -/
def bill : Bill where
  gasUsed := c.gasLimit.toNat - c.executed.1.toNat
  fees := c.fees
  miner := c.minerAddress
  treasury := c.chain.treasuryAddress
  balance := c.chain.balance

/-- **The settlement is fair**: it conserves what there is, and who cannot pay the fee has no
effects. -/
structure Fair : Prop where
  settles : Settles c.fees.fromAddress c.minerAddress c.chain.treasuryAddress c.chain.balance
    c.result.2.balance
  paid : c.chain.balance c.fees.fromAddress < c.bill.fee → c.result.1 = c.storage

def sample (writes : Bool) (balance maxFee : UInt64) : Execution where
  vm :=
    { execute := fun host _ _ =>
        (0, if writes then { host with storageDB := (host.storageDB.put [1] [1]).2 } else host)
      gasLeft_le := fun _ _ _ => Nat.zero_le _ }
  storage := {}
  bytecode := []
  inputData := []
  gasLimit := 10
  destination := Vector.replicate 20 0
  sender := Vector.replicate 20 0
  fees := { baseFee := 1, tip := 1, maxFee, fromAddress := str "a" }
  chain :=
    { accountDB := (({} : AccountDB).setBalance (str "a") balance).2
      treasuryAddress := str "t" }
  minerAddress := str "m"

/-- With a cap of one, the sender is charged ten, and ten are paid out twice.  A sender without a
balance has what he executes written. -/
theorem not_fair :
    (¬ ∀ c : Execution, Settles c.fees.fromAddress c.minerAddress c.chain.treasuryAddress
        c.chain.balance c.result.2.balance) ∧
      ¬ ∀ c : Execution,
        c.chain.balance c.fees.fromAddress < c.bill.fee → c.result.1 = c.storage := by
  constructor
  · intro h
    obtain ⟨tip, burn, hsettles⟩ := h (sample false 100 1)
    have hsender := hsettles (str "a")
    have hminer := hsettles (str "m")
    have htreasury := hsettles (str "t")
    have hbefore : (sample false 100 1).chain.balance (str "a") = 100 ∧
        (sample false 100 1).chain.balance (str "m") = 0 ∧
        (sample false 100 1).chain.balance (str "t") = 0 := by decide +kernel
    have hafter : (sample false 100 1).result.2.balance (str "a") = 90 ∧
        (sample false 100 1).result.2.balance (str "m") = 10 ∧
        (sample false 100 1).result.2.balance (str "t") = 10 := by decide +kernel
    have hdistinct : str "m" ≠ str "a" ∧ str "t" ≠ str "a" ∧ str "t" ≠ str "m" := by decide
    have hfrom : (sample false 100 1).fees.fromAddress = str "a" := rfl
    have hmined : (sample false 100 1).minerAddress = str "m" := rfl
    have hto : (sample false 100 1).chain.treasuryAddress = str "t" := rfl
    rw [hfrom, hmined, hto, hbefore.1, hafter.1, if_pos rfl, if_neg hdistinct.1.symm,
      if_neg hdistinct.2.1.symm] at hsender
    rw [hfrom, hmined, hto, hbefore.2.1, hafter.2.1, if_pos rfl, if_neg hdistinct.1,
      if_neg hdistinct.2.2.symm] at hminer
    rw [hfrom, hmined, hto, hbefore.2.2, hafter.2.2, if_pos rfl, if_neg hdistinct.2.1,
      if_neg hdistinct.2.2] at htreasury
    omega
  · intro h
    have hstorage := h (sample true 0 1) (by decide +kernel)
    have hwritten := congrArg (fun db : RocksDBWrapper => db.entries.get? [1]) hstorage
    exact absurd hwritten (by decide +kernel)

theorem bill_eq : c.bill = billOf (c.gasLimit - c.executed.1) c.fees c.chain c.minerAddress := by
  have hsub : (c.gasLimit - c.executed.1).toNat = c.gasLimit.toNat - c.executed.1.toNat :=
    UInt64.toNat_sub_of_le _ _ (UInt64.le_iff_toNat_le.2 (c.vm.gasLeft_le _ _ _))
  rw [bill, billOf, hsub]

/-- **When the settlement is fair**, while the database takes what is written. -/
theorem fair_iff (hdisk : c.chain.accountDB.outcomes = []) :
    c.Fair ↔
      (c.bill.fee ≤ c.chain.balance c.fees.fromAddress ∨ c.executed.2.storageDB = c.storage) ∧
        (c.chain.balance c.fees.fromAddress < c.bill.charge ∨ c.bill.Balanced) := by
  have hsettles := settles_settle_iff (c.gasLimit - c.executed.1) c.fees c.minerAddress hdisk
  rw [← bill_eq] at hsettles
  constructor
  · rintro ⟨h, hpaid⟩
    refine ⟨?_, hsettles.1 h⟩
    rcases Nat.lt_or_ge (c.chain.balance c.fees.fromAddress) c.bill.fee with hlt | hge
    · exact Or.inr (hpaid hlt)
    · exact Or.inl hge
  · rintro ⟨hpaid, h⟩
    refine ⟨hsettles.2 h, fun hlt => ?_⟩
    rcases hpaid with hge | hstorage
    · omega
    · exact hstorage

theorem fair_sample : (sample true 100 2).Fair :=
  (fair_iff (sample true 100 2) (by decide +kernel)).2
    ⟨Or.inl (by decide +kernel), Or.inr (by decide +kernel)⟩

end Execution

end Evm
