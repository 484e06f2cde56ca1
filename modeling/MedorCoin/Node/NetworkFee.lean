/-
**The network fee of an output.**

When an output is added its recipient is credited with its value, charged the network fee, and the
fee is credited to the treasury.  These are three writes of balances: each can fail, for want of
room, of funds, or because the database does not take it; the result of the second one alone is
looked at.  The fee of two percent is computed in `uint64_t`, where the product wraps around.

Main definitions:

* `Node.networkFeeLaw`, `Node.feeDue` — the fee, in unbounded integers; `Node.feeTaken` — the fee
  that is computed;
* `Node.Credited`, `Node.Charged`, `Node.Collected` — which of the three writes go through, said of
  the state before;
* `Node.FeeKept` — the value of an output is split between recipient and treasury, or nothing
  happens.

Main results:

* `Node.feeTaken_eq_feeDue_iff` — **where the fee is the right one**;
* `Node.getBalance_creditOutput` — what happens to the balances;
* `Node.feeKept_iff` — **where the value is split as it should be**;
* `Node.not_feeKept` — a fee that the treasury has no room for is lost.
-/

import MedorCoin.Node.FailedBlock

set_option autoImplicit false

namespace Node

open Cpp

/-! ### Single writes -/

namespace AccountDB

theorem put_fst_iff {db : AccountDB} {key value : Str} :
    (db.put key value).1 = true ↔ isValidKey key ∧ db.outcomes.head? ≠ some false := by
  constructor
  · intro h
    refine ⟨(put_true h).1, ?_⟩
    rw [put, if_pos (put_true h).1] at h
    intro hhead
    cases houtcomes : db.outcomes with
    | nil => simp [houtcomes] at hhead
    | cons b outcomes =>
        rw [houtcomes] at h hhead
        cases hhead
        exact Bool.noConfusion h
  · rintro ⟨hkey, hdisk⟩
    exact put_fst hkey hdisk

/-- The database takes the next write of a balance. -/
def Takes (db : AccountDB) (addr : Str) : Prop :=
  addr ≠ [] ∧ isValidKey (balanceKey addr) ∧ db.outcomes.head? ≠ some false

instance (db : AccountDB) (addr : Str) : Decidable (db.Takes addr) :=
  inferInstanceAs (Decidable (_ ∧ _ ∧ _))

theorem setBalance_fst_iff {db : AccountDB} {addr : Str} {amount : UInt64} :
    (db.setBalance addr amount).1 = true ↔ db.Takes addr := by
  rw [setBalance, Takes]
  by_cases hne : addr = []
  · simp [hne]
  · rw [if_neg hne, put_fst_iff]
    exact ⟨fun h => ⟨hne, h⟩, fun h => h.2⟩

theorem outcomes_setBalance (db : AccountDB) (addr : Str) (amount : UInt64) :
    (db.setBalance addr amount).2.outcomes =
      if addr ≠ [] ∧ isValidKey (balanceKey addr) then db.outcomes.tail else db.outcomes := by
  rw [setBalance]
  by_cases hne : addr = []
  · rw [if_pos hne, if_neg (fun h => h.1 hne)]
  · rw [if_neg hne, put_outcomes]
    simp only [ne_eq, hne, not_false_eq_true, true_and]

theorem deductBalance_eq (db : AccountDB) (addr : Str) (amount : UInt64) :
    db.deductBalance addr amount =
      if amount.toNat ≤ (db.getBalance addr).toNat then
        db.setBalance addr (db.getBalance addr - amount)
      else (false, db) := by
  rw [deductBalance]
  by_cases hne : addr = []
  · rw [if_pos hne, setBalance, if_pos hne, ite_self]
  · rw [if_neg hne]
    by_cases hle : amount.toNat ≤ (db.getBalance addr).toNat
    · rw [if_neg (by rw [gt_iff_lt, UInt64.lt_iff_toNat_lt]; omega), if_pos hle]
    · rw [if_pos (by rw [gt_iff_lt, UInt64.lt_iff_toNat_lt]; omega), if_neg hle]

theorem getBalance_setBalance_if (db : AccountDB) (addr : Str) (amount : UInt64) (b : Str) :
    (db.setBalance addr amount).2.getBalance b =
      if db.Takes addr ∧ addr = b then amount else db.getBalance b := by
  by_cases htakes : db.Takes addr
  · rw [getBalance_setBalance (setBalance_fst_iff.2 htakes)]
    simp only [htakes, true_and]
  · have hfalse : (db.setBalance addr amount).1 = false :=
      Bool.eq_false_iff.2 fun h => htakes (setBalance_fst_iff.1 h)
    rw [getBalance_of_entries (entries_setBalance_false hfalse), if_neg (fun h => htakes h.1)]

theorem toNat_getBalance_addBalance (db : AccountDB) (addr : Str) (amount : UInt64) (b : Str) :
    ((db.addBalance addr amount).2.getBalance b).toNat =
      (db.getBalance b).toNat +
        if (db.Room addr amount ∧ db.Takes addr) ∧ addr = b then amount.toNat else 0 := by
  rw [addBalance_eq]
  by_cases hroom : db.Room addr amount
  · rw [if_pos hroom, getBalance_setBalance_if]
    simp only [hroom, true_and]
    split_ifs with h
    · obtain ⟨-, rfl⟩ := h
      rw [UInt64.toNat_add, Nat.mod_eq_of_lt hroom]
    · rfl
  · simp [hroom]

theorem toNat_getBalance_deductBalance (db : AccountDB) (addr : Str) (amount : UInt64) (b : Str) :
    ((db.deductBalance addr amount).2.getBalance b).toNat +
        (if (amount.toNat ≤ (db.getBalance addr).toNat ∧ db.Takes addr) ∧ addr = b then
          amount.toNat else 0) =
      (db.getBalance b).toNat := by
  rw [deductBalance_eq]
  by_cases hle : amount.toNat ≤ (db.getBalance addr).toNat
  · rw [if_pos hle, getBalance_setBalance_if]
    simp only [hle, true_and]
    split_ifs with h
    · obtain ⟨-, rfl⟩ := h
      rw [UInt64.toNat_sub_of_le _ _ (UInt64.le_iff_toNat_le.2 hle)]
      omega
    · rfl
  · simp [hle]

theorem deductBalance_fst_iff {db : AccountDB} {addr : Str} {amount : UInt64} :
    (db.deductBalance addr amount).1 = true ↔
      amount.toNat ≤ (db.getBalance addr).toNat ∧ db.Takes addr := by
  rw [deductBalance_eq]
  by_cases hle : amount.toNat ≤ (db.getBalance addr).toNat
  · rw [if_pos hle, setBalance_fst_iff]
    exact ⟨fun h => ⟨hle, h⟩, fun h => h.2⟩
  · simp [hle]

end AccountDB

/-! ### The fee -/

/-- The fee on a value. -/
def networkFeeLaw (value : ℕ) : ℕ := if value ≤ 1000 then 9 else 2 * value / 100

/-- The fee on an output, which is never more than its value. -/
def feeDue (value : ℕ) : ℕ := min value (networkFeeLaw value)

/-- The fee that is computed. -/
def feeTaken (value : UInt64) : UInt64 := min (calculateNetworkFee value) value

theorem toNat_feeTaken (value : UInt64) :
    (feeTaken value).toNat =
      if value.toNat ≤ 1000 then min 9 value.toNat else 2 * value.toNat % 2 ^ 64 / 100 := by
  have hbound := value.toNat_lt
  rw [feeTaken, toNat_min, calculateNetworkFee]
  by_cases hle : value.toNat ≤ 1000
  · rw [if_pos (UInt64.le_iff_toNat_le.2 hle), if_pos hle]
    rfl
  · rw [if_neg (fun h => hle (UInt64.le_iff_toNat_le.1 h)), if_neg hle, UInt64.toNat_div,
      UInt64.toNat_mul, Nat.mul_comm value.toNat]
    have hsmall : 2 * value.toNat % 2 ^ 64 / 100 ≤ value.toNat := by omega
    exact min_eq_left hsmall

/-- **Where the fee is the right one**: the product of two percent does not wrap around. -/
theorem feeTaken_eq_feeDue_iff (value : UInt64) :
    (feeTaken value).toNat = feeDue value.toNat ↔ value.toNat < 2 ^ 63 := by
  have hbound := value.toNat_lt
  rw [toNat_feeTaken, feeDue, networkFeeLaw]
  split_ifs with hle
  · omega
  · omega

/-! ### Which writes go through -/

section Writes

variable (cfg : Config) (out : TxOutput) (db : AccountDB)

/-- The value is credited to the recipient. -/
def Credited : Prop := db.Room out.address out.value ∧ db.Takes out.address

/-- How many writes the first credit makes, taken by the disk or not. -/
def creditWrites : ℕ :=
  if db.Room out.address out.value ∧ out.address ≠ [] ∧
    AccountDB.isValidKey (AccountDB.balanceKey out.address) then 1 else 0

/-- The fee is deducted from the recipient: it is charged at all, the recipient can pay it, and the
database takes the write. -/
def Charged : Prop :=
  cfg.treasuryAddress ≠ [] ∧ 0 < (feeTaken out.value).toNat ∧
    (Credited out db ∨ (feeTaken out.value).toNat ≤ (db.getBalance out.address).toNat) ∧
    out.address ≠ [] ∧ AccountDB.isValidKey (AccountDB.balanceKey out.address) ∧
    db.outcomes[creditWrites out db]? ≠ some false

/-- The fee is credited to the treasury: it is deducted, the treasury has room, and the database
takes the write. -/
def Collected : Prop :=
  Charged cfg out db ∧
    (cfg.treasuryAddress = out.address ∨ db.Room cfg.treasuryAddress (feeTaken out.value)) ∧
    AccountDB.isValidKey (AccountDB.balanceKey cfg.treasuryAddress) ∧
    db.outcomes[creditWrites out db + 1]? ≠ some false

instance : Decidable (Credited out db) := inferInstanceAs (Decidable (_ ∧ _))

instance : Decidable (Charged cfg out db) :=
  inferInstanceAs (Decidable (_ ∧ _ ∧ (_ ∨ _) ∧ _ ∧ _ ∧ _))

instance : Decidable (Collected cfg out db) := inferInstanceAs (Decidable (_ ∧ (_ ∨ _) ∧ _ ∧ _))

end Writes

/-! ### What happens to the balances -/

section Balances

variable {cfg : Config} {out : TxOutput} {db : AccountDB}

theorem feeTaken_le (value : UInt64) : (feeTaken value).toNat ≤ value.toNat := by
  rw [feeTaken, toNat_min]
  exact min_le_right _ _

theorem outcomes_credit (out : TxOutput) (db : AccountDB) :
    (db.addBalance out.address out.value).2.outcomes = db.outcomes.drop (creditWrites out db) := by
  rw [AccountDB.addBalance_eq, creditWrites]
  by_cases hroom : db.Room out.address out.value
  · rw [if_pos hroom, AccountDB.outcomes_setBalance]
    simp only [hroom, true_and]
    split_ifs
    · exact List.drop_one.symm
    · rfl
  · rw [if_neg hroom, if_neg (fun h => hroom h.1)]
    rfl

theorem getBalance_credit_self (out : TxOutput) (db : AccountDB) :
    ((db.addBalance out.address out.value).2.getBalance out.address).toNat =
      (db.getBalance out.address).toNat + if Credited out db then out.value.toNat else 0 := by
  rw [AccountDB.toNat_getBalance_addBalance]
  by_cases hcredited : Credited out db
  · rw [if_pos hcredited, if_pos ⟨hcredited, rfl⟩]
  · rw [if_neg hcredited, if_neg (fun h => hcredited h.1)]

theorem deduct_iff_charged (htreasury : cfg.treasuryAddress ≠ [])
    (hfee : 0 < (feeTaken out.value).toNat) :
    ((db.addBalance out.address out.value).2.deductBalance out.address (feeTaken out.value)).1 =
        true ↔ Charged cfg out db := by
  have hle := feeTaken_le out.value
  rw [AccountDB.deductBalance_fst_iff, getBalance_credit_self, AccountDB.Takes, outcomes_credit,
    List.head?_drop, Charged]
  constructor
  · rintro ⟨hfunds, hne, hkey, hdisk⟩
    refine ⟨htreasury, hfee, ?_, hne, hkey, hdisk⟩
    by_cases hcredited : Credited out db
    · exact Or.inl hcredited
    · rw [if_neg hcredited, Nat.add_zero] at hfunds
      exact Or.inr hfunds
  · rintro ⟨-, -, hfunds, hne, hkey, hdisk⟩
    refine ⟨?_, hne, hkey, hdisk⟩
    rcases hfunds with hcredited | hfunds
    · -- what was credited covers the fee that is taken of it
      rw [if_pos hcredited]
      omega
    · omega

theorem collect_iff_collected (h : Charged cfg out db) :
    (((db.addBalance out.address out.value).2.deductBalance out.address
          (feeTaken out.value)).2.Room cfg.treasuryAddress (feeTaken out.value) ∧
        ((db.addBalance out.address out.value).2.deductBalance out.address
          (feeTaken out.value)).2.Takes cfg.treasuryAddress) ↔ Collected cfg out db := by
  obtain ⟨htreasury, hfee, -, hne, hkey, -⟩ := id h
  obtain ⟨hfunds, htakes⟩ :=
    AccountDB.deductBalance_fst_iff.1 ((deduct_iff_charged htreasury hfee).2 h)
  have houtcomes : ((db.addBalance out.address out.value).2.deductBalance out.address
      (feeTaken out.value)).2.outcomes.head? = db.outcomes[creditWrites out db + 1]? := by
    rw [AccountDB.deductBalance_eq, if_pos hfunds, AccountDB.outcomes_setBalance,
      if_pos ⟨hne, hkey⟩, outcomes_credit, List.tail_drop, List.head?_drop]
  have hdeduct := AccountDB.toNat_getBalance_deductBalance
    (db.addBalance out.address out.value).2 out.address (feeTaken out.value) cfg.treasuryAddress
  have hroom : ((db.addBalance out.address out.value).2.deductBalance out.address
      (feeTaken out.value)).2.Room cfg.treasuryAddress (feeTaken out.value) ↔
        cfg.treasuryAddress = out.address ∨
          db.Room cfg.treasuryAddress (feeTaken out.value) := by
    by_cases hsame : out.address = cfg.treasuryAddress
    · -- the fee comes back to where it was taken from
      have hlt := ((db.addBalance out.address out.value).2.getBalance cfg.treasuryAddress).toNat_lt
      rw [if_pos ⟨⟨hfunds, htakes⟩, hsame⟩] at hdeduct
      refine ⟨fun _ => Or.inl hsame.symm, fun _ => ?_⟩
      rw [AccountDB.Room]
      omega
    · have hcredit := AccountDB.toNat_getBalance_addBalance db out.address out.value
        cfg.treasuryAddress
      rw [if_neg (fun h => hsame h.2)] at hcredit hdeduct
      rw [AccountDB.Room, AccountDB.Room]
      constructor
      · intro hlt
        exact Or.inr (by omega)
      · rintro (heq | hlt)
        · exact absurd heq.symm hsame
        · omega
  rw [hroom, AccountDB.Takes, houtcomes, Collected]
  exact ⟨fun hall => ⟨h, hall.1, hall.2.2⟩, fun hall => ⟨hall.2.1, htreasury, hall.2.2⟩⟩

theorem getBalance_creditOutput_of_not_charged (h : ¬ Charged cfg out db) (a : Str) :
    (Blockchain.creditOutput cfg false out db).getBalance a =
      (db.addBalance out.address out.value).2.getBalance a := by
  rw [Blockchain.creditOutput, Bool.false_or]
  by_cases htreasury : cfg.treasuryAddress = []
  · rw [if_pos (decide_eq_true htreasury)]
  · rw [if_neg (by simpa using htreasury)]
    by_cases hfee : 0 < (feeTaken out.value).toNat
    · have hpositive : feeTaken out.value > 0 := UInt64.lt_iff_toNat_lt.2 hfee
      have hfailed := mt (deduct_iff_charged htreasury hfee).1 h
      refine (congrArg (AccountDB.getBalance · a) ((if_pos hpositive).trans (if_neg hfailed))).trans
        ?_
      -- a debit that fails changes nothing
      have hfails := mt (deduct_iff_charged htreasury hfee).1 h
      rw [AccountDB.deductBalance_fst_iff] at hfails
      have hdeduct := AccountDB.toNat_getBalance_deductBalance
        (db.addBalance out.address out.value).2 out.address (feeTaken out.value) a
      rw [if_neg (fun hboth => hfails hboth.1), Nat.add_zero] at hdeduct
      exact UInt64.toNat_inj.1 hdeduct
    · have hfree : ¬ feeTaken out.value > 0 := fun h => hfee (UInt64.lt_iff_toNat_lt.1 h)
      exact congrArg (AccountDB.getBalance · a) (if_neg hfree)

theorem creditOutput_of_charged (h : Charged cfg out db) :
    Blockchain.creditOutput cfg false out db =
      (((db.addBalance out.address out.value).2.deductBalance out.address
        (feeTaken out.value)).2.addBalance cfg.treasuryAddress (feeTaken out.value)).2 := by
  obtain ⟨htreasury, hfee, -⟩ := id h
  have hdeduct := (deduct_iff_charged htreasury hfee).2 h
  have hpositive : feeTaken out.value > 0 := UInt64.lt_iff_toNat_lt.2 hfee
  rw [Blockchain.creditOutput, Bool.false_or, if_neg (by simpa using htreasury)]
  exact (if_pos hpositive).trans (if_pos hdeduct)

/-- **What happens to the balances**: the value comes, the fee goes, and the treasury gets it, as
far as each of the writes goes through. -/
theorem getBalance_creditOutput (cfg : Config) (out : TxOutput) (db : AccountDB) (a : Str) :
    ((Blockchain.creditOutput cfg false out db).getBalance a).toNat +
        (if Charged cfg out db ∧ out.address = a then (feeTaken out.value).toNat else 0) =
      (db.getBalance a).toNat +
        (if Credited out db ∧ out.address = a then out.value.toNat else 0) +
        if Collected cfg out db ∧ cfg.treasuryAddress = a then (feeTaken out.value).toNat
        else 0 := by
  have hcredit : ((db.addBalance out.address out.value).2.getBalance a).toNat =
      (db.getBalance a).toNat +
        if Credited out db ∧ out.address = a then out.value.toNat else 0 :=
    AccountDB.toNat_getBalance_addBalance db out.address out.value a
  by_cases hcharged : Charged cfg out db
  · obtain ⟨htreasury, hfee, -⟩ := id hcharged
    have hfunds :=
      AccountDB.deductBalance_fst_iff.1 ((deduct_iff_charged htreasury hfee).2 hcharged)
    have hdeduct := AccountDB.toNat_getBalance_deductBalance
      (db.addBalance out.address out.value).2 out.address (feeTaken out.value) a
    simp only [hfunds, true_and] at hdeduct
    rw [creditOutput_of_charged hcharged, AccountDB.toNat_getBalance_addBalance]
    simp only [collect_iff_collected hcharged, hcharged, true_and]
    omega
  · have hcollected : ¬ Collected cfg out db := fun h => hcharged h.1
    rw [getBalance_creditOutput_of_not_charged hcharged, hcredit]
    simp only [hcharged, hcollected, false_and, if_false, Nat.add_zero]

/-! ### Where the value is split as it should be -/

/-- The value of an output is split between its recipient and the treasury, or nothing happens. -/
def FeeKept (cfg : Config) (out : TxOutput) (db : AccountDB) : Prop :=
  (∀ a, ((Blockchain.creditOutput cfg false out db).getBalance a).toNat =
    (db.getBalance a).toNat +
      (if out.address = a then out.value.toNat - feeDue out.value.toNat else 0) +
      (if cfg.treasuryAddress = a then feeDue out.value.toNat else 0)) ∨
  ∀ a, (Blockchain.creditOutput cfg false out db).getBalance a = db.getBalance a

/-- There is nothing to split; or no write goes through; or the treasury is the recipient and gets
back what is charged; or all three writes go through and the fee is the right one; or the fee is the
whole value, and is lost. -/
def SplitRegular (cfg : Config) (out : TxOutput) (db : AccountDB) : Prop :=
  out.value.toNat = 0 ∨ ¬ Credited out db ∧ ¬ Charged cfg out db ∨
    out.address = cfg.treasuryAddress ∧ (Charged cfg out db → Collected cfg out db) ∨
    out.address ≠ cfg.treasuryAddress ∧ Credited out db ∧ Collected cfg out db ∧
      out.value.toNat < 2 ^ 63 ∨
    Credited out db ∧ Charged cfg out db ∧ ¬ Collected cfg out db ∧ out.value.toNat ≤ 9

theorem feeTaken_eq_self_iff (value : UInt64) :
    (feeTaken value).toNat = value.toNat ↔ value.toNat ≤ 9 := by
  have hbound := value.toNat_lt
  rw [toNat_feeTaken]
  split_ifs with hle
  · omega
  · have hwrap : 2 * value.toNat % 2 ^ 64 ≤ 2 * value.toNat := Nat.mod_le _ _
    have hsmall : 2 * value.toNat % 2 ^ 64 / 100 < value.toNat := by omega
    omega

theorem feeDue_le (value : ℕ) : feeDue value ≤ value := min_le_left _ _

theorem feeDue_pos {value : ℕ} (h : 0 < value) : 0 < feeDue value := by
  rw [feeDue, networkFeeLaw]
  split_ifs <;> omega

theorem SplitRegular.feeKept (h : SplitRegular cfg out db) : FeeKept cfg out db := by
  have hbalance := getBalance_creditOutput cfg out db
  have hdue := feeDue_le out.value.toNat
  have hcollected : Collected cfg out db → Charged cfg out db := fun hc => hc.1
  rcases h with hzero | ⟨hcredited, hcharged⟩ | ⟨hsame, hback⟩ | ⟨hne, hcredited, hpaid, hsmall⟩ |
    ⟨hcredited, hcharged, hlost, hsmall⟩
  · -- nothing to split, and so nothing to charge
    have hfee : (feeTaken out.value).toNat = 0 := by
      have hle := feeTaken_le out.value
      omega
    right
    intro a
    have ha := hbalance a
    simp only [hzero, hfee, ite_self, Nat.add_zero] at ha
    exact UInt64.toNat_inj.1 ha
  · right
    intro a
    have ha := hbalance a
    simp only [hcredited, hcharged, mt hcollected hcharged, false_and, if_false, Nat.add_zero] at ha
    exact UInt64.toNat_inj.1 ha
  · have hiff : Collected cfg out db ↔ Charged cfg out db := ⟨hcollected, hback⟩
    by_cases hcredited : Credited out db
    · left
      intro a
      have ha := hbalance a
      simp only [hiff, hcredited, true_and, hsame] at ha ⊢
      split_ifs at ha ⊢ <;> omega
    · right
      intro a
      have ha := hbalance a
      simp only [hiff, hcredited, false_and, if_false, hsame, Nat.add_zero] at ha
      exact UInt64.toNat_inj.1 (by omega)
  · left
    intro a
    have ha := hbalance a
    have hfee := (feeTaken_eq_feeDue_iff out.value).2 hsmall
    simp only [hcredited, hpaid, hcollected hpaid, true_and, hfee] at ha
    split_ifs at ha ⊢ <;> omega
  · right
    intro a
    have ha := hbalance a
    have hfee := (feeTaken_eq_self_iff out.value).2 hsmall
    simp only [hcredited, hcharged, hlost, true_and, false_and, if_false, hfee, Nat.add_zero] at ha
    exact UInt64.toNat_inj.1 (by omega)

theorem FeeKept.splitRegular (h : FeeKept cfg out db) : SplitRegular cfg out db := by
  have hrecipient := getBalance_creditOutput cfg out db out.address
  have htreasury := getBalance_creditOutput cfg out db cfg.treasuryAddress
  have hle := feeTaken_le out.value
  have hdue := feeDue_le out.value.toNat
  have hself := feeTaken_eq_self_iff out.value
  have hright := feeTaken_eq_feeDue_iff out.value
  rcases Nat.eq_zero_or_pos out.value.toNat with hzero | hpos
  · exact Or.inl hzero
  have hduepos := feeDue_pos hpos
  have hcollected : Collected cfg out db → Charged cfg out db := fun hc => hc.1
  have hfeepos : Charged cfg out db → 0 < (feeTaken out.value).toNat := fun hc => hc.2.1
  refine Or.inr ?_
  by_cases hsame : out.address = cfg.treasuryAddress
  · -- the treasury gets back what it is charged, unless that credit alone fails
    by_cases hback : Charged cfg out db → Collected cfg out db
    · exact Or.inr (Or.inl ⟨hsame, hback⟩)
    · obtain ⟨hcharged, hlost⟩ := Classical.not_imp.1 hback
      have hfee := hfeepos hcharged
      simp only [hsame, hcharged, hlost, and_true, if_true, if_false] at htreasury
      refine Or.inr (Or.inr ?_)
      rcases h with hsplit | hnothing
      · have hat := hsplit cfg.treasuryAddress
        simp only [hsame, if_true] at hat
        split_ifs at htreasury <;> omega
      · rw [hnothing] at htreasury
        split_ifs at htreasury with hcredited
        · exact Or.inr ⟨hcredited, hcharged, hlost, hself.1 (by omega)⟩
        · omega
  · have hother : ¬ cfg.treasuryAddress = out.address := fun heq => hsame heq.symm
    simp only [hsame, hother, and_false, and_true, if_false, Nat.add_zero] at hrecipient htreasury
    rcases h with hsplit | hnothing
    · -- the treasury has got the fee, so all three writes went through
      have hatRecipient := hsplit out.address
      have hatTreasury := hsplit cfg.treasuryAddress
      simp only [hsame, hother, if_true, if_false, Nat.add_zero] at hatRecipient hatTreasury
      by_cases hpaid : Collected cfg out db
      · rw [if_pos hpaid] at htreasury
        rw [if_pos (hcollected hpaid)] at hrecipient
        have hcredited : Credited out db := by
          by_contra hnot
          rw [if_neg hnot] at hrecipient
          omega
        exact Or.inr (Or.inr (Or.inl ⟨hsame, hcredited, hpaid, hright.1 (by omega)⟩))
      · rw [if_neg hpaid] at htreasury
        omega
    · rw [hnothing] at hrecipient htreasury
      have hlost : ¬ Collected cfg out db := by
        intro hpaid
        have hfee := hfeepos (hcollected hpaid)
        rw [if_pos hpaid] at htreasury
        omega
      by_cases hcharged : Charged cfg out db
      · have hfee := hfeepos hcharged
        rw [if_pos hcharged] at hrecipient
        split_ifs at hrecipient with hcredited
        · exact Or.inr (Or.inr (Or.inr ⟨hcredited, hcharged, hlost, hself.1 (by omega)⟩))
        · omega
      · rw [if_neg hcharged] at hrecipient
        split_ifs at hrecipient with hcredited
        · omega
        · exact Or.inl ⟨hcredited, hcharged⟩

/-- **Where the value is split as it should be.** -/
theorem feeKept_iff (cfg : Config) (out : TxOutput) (db : AccountDB) :
    FeeKept cfg out db ↔ SplitRegular cfg out db :=
  ⟨FeeKept.splitRegular, SplitRegular.feeKept⟩

end Balances

/-! ### A fee that is lost -/

def sampleFull : AccountDB :=
  (({} : AccountDB).setBalance (str "medor_treasury") (UInt64.ofNat (2 ^ 64 - 1))).2

def sampleThousand : TxOutput where
  value := 1000
  address := str "alice"

theorem getBalance_sampleFull (addr : Str) : sampleFull.getBalance addr =
    if str "medor_treasury" = addr then UInt64.ofNat (2 ^ 64 - 1) else 0 := by
  have hwrite : (({} : AccountDB).setBalance (str "medor_treasury") (UInt64.ofNat (2 ^ 64 - 1))).1 =
      true := AccountDB.setBalance_fst_iff.2 (by decide)
  rw [sampleFull, AccountDB.getBalance_setBalance hwrite]
  congr 1
  rw [AccountDB.getBalance, AccountDB.get]
  split_ifs <;> rfl

/-- **A fee that the treasury has no room for is lost**: the recipient pays it all the same. -/
theorem not_feeKept : ¬ ∀ (cfg : Config) (out : TxOutput) (db : AccountDB), FeeKept cfg out db := by
  intro h
  have hkept := (h { ownerAddress := [] } sampleThousand sampleFull).splitRegular
  have hcredited : Credited sampleThousand sampleFull := by
    constructor
    · rw [AccountDB.Room, getBalance_sampleFull]
      decide
    · decide
  have hlost : ¬ Collected { ownerAddress := [] } sampleThousand sampleFull := by
    rintro ⟨-, hroom, -⟩
    rw [AccountDB.Room, getBalance_sampleFull] at hroom
    revert hroom
    decide
  rcases hkept with hzero | ⟨hnot, -⟩ | ⟨hsame, -⟩ | ⟨-, -, hpaid, -⟩ | ⟨-, -, -, hsmall⟩
  · exact absurd hzero (by decide)
  · exact hnot hcredited
  · exact absurd hsame (by decide)
  · exact hlost hpaid
  · exact absurd hsmall (by decide)

end Node
