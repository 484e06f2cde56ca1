/-
**The transactions of a block.**

`applyTransactions` of `medac_consensus.cjs`: the loop that takes the transactions of a block one
after the other, checks each against the balances and nonces left by the ones before, moves the
amount from the sender to the recipient and sets the fee aside.

Main definitions:

* `Medac.Ledger` — the variables of the loop;
* `Medac.applyTransaction`, `Medac.applyTransactions` — one round, and the loop;
* `Medac.Ledger.Admits`, `Medac.Ledger.after` — what one round demands of a transaction in normal
  form, and what it does;
* `Medac.Ledger.Steps` — the rounds of a whole list.

Main results:

* `Medac.applyTransactions_eq_ok` — **the loop in terms of the normal forms**;
* `Medac.Ledger.Steps.funds_eq` — **the transfers and the fees together conserve the sum of the
  balances**, also where sender and recipient are the same;
* `Medac.Ledger.Steps.balances_nonneg` — no balance becomes negative.
-/

import MedorCoin.Medac.State
import Mathlib.Data.List.Forall2

set_option autoImplicit false

namespace Medac

open Js

/-- `balances.get(a) || 0n`. -/
def balanceOf (balances : Map Address ℤ) (a : Address) : ℤ := (balances.get? a).getD 0

/-- `nonces.get(a) || 0`. -/
def nonceOf (nonces : Map Address ℕ) (a : Address) : ℕ := (nonces.get? a).getD 0

/-- Add an amount to the balance of an address. -/
def credit (balances : Map Address ℤ) (a : Address) (amount : ℤ) : Map Address ℤ :=
  balances.set a (balanceOf balances a + amount)

/-! ### The loop -/

local instance lawfulBEq_identifier : LawfulBEq Str := inferInstance

/-- The variables of the loop: the balances and nonces so far, the identifiers seen, and the
fees collected. -/
structure Ledger where
  balances : Map Address ℤ
  nonces : Map Address ℕ
  seen : List Str
  totalFees : ℕ

/-- One round of the loop. -/
def applyTransaction (c : Crypto) (genesisHash : Str) (l : Ledger) (rawTransaction : Json) :
    Except Error Ledger := do
  let transaction ← normalizeTransaction c rawTransaction
  require (transaction.genesisHash = genesisHash)
    (.error "MEDAC transaction belongs to another genesis network")
  let id ← transactionId c transaction.toJson
  require (id ∉ l.seen) (.error "Duplicate MEDAC transaction")
  let expectedNonce := nonceOf l.nonces transaction.sender
  require (transaction.nonce = expectedNonce) (.error "Incorrect MEDAC transaction nonce")
  let amount : ℤ := transaction.amountValue
  let fee := transaction.feeValue
  let senderBalance := balanceOf l.balances transaction.sender
  require (amount + fee ≤ senderBalance) (.error "Insufficient MEDAC transaction balance")
  -- the recipient's balance is read after the sender's has been written: they may be the same
  let debited := l.balances.set transaction.sender (senderBalance - amount - fee)
  return { balances := credit debited transaction.recipient amount
           nonces := l.nonces.set transaction.sender (expectedNonce + 1)
           seen := id :: l.seen
           totalFees := l.totalFees + fee }

/-- **`applyTransactions`.** -/
def applyTransactions (c : Crypto) (s : State) (transactions : Option Json) :
    Except Error Ledger :=
  match Json.array? transactions with
  | some items =>
      if items.length ≤ maxTransactionsPerBlock then
        items.foldlM (applyTransaction c s.genesisHash)
          { balances := s.balances, nonces := s.nonces, seen := [], totalFees := 0 }
      else .error (.error "Invalid MEDAC block transaction list")
  | none => .error (.error "Invalid MEDAC block transaction list")

/-! ### The loop in terms of normal forms -/

namespace Ledger

/-- What one round demands of a transaction in normal form. -/
structure Admits (c : Crypto) (genesisHash : Str) (l : Ledger) (t : Transaction) : Prop where
  network : t.genesisHash = genesisHash
  fresh : t.identifier c ∉ l.seen
  nonce : t.nonce = nonceOf l.nonces t.sender
  funds : (t.amountValue : ℤ) + t.feeValue ≤ balanceOf l.balances t.sender

/-- What one round does. -/
def after (c : Crypto) (l : Ledger) (t : Transaction) : Ledger where
  balances :=
    credit (l.balances.set t.sender (balanceOf l.balances t.sender - t.amountValue - t.feeValue))
      t.recipient t.amountValue
  nonces := l.nonces.set t.sender (nonceOf l.nonces t.sender + 1)
  seen := t.identifier c :: l.seen
  totalFees := l.totalFees + t.feeValue

/-- The rounds of a list of transactions. -/
inductive Steps (c : Crypto) (genesisHash : Str) : Ledger → List Transaction → Ledger → Prop
  | nil (l : Ledger) : Steps c genesisHash l [] l
  | cons {l l' : Ledger} {t : Transaction} {ts : List Transaction}
      (admits : l.Admits c genesisHash t) (rest : Steps c genesisHash (l.after c t) ts l') :
      Steps c genesisHash l (t :: ts) l'

end Ledger

variable {c : Crypto} {g : Str}

theorem applyTransaction_eq_ok {l l' : Ledger} {rawTransaction : Json} :
    applyTransaction c g l rawTransaction = .ok l' ↔
      ∃ t, normalizeTransaction c rawTransaction = .ok t ∧ l.Admits c g t ∧ l' = l.after c t := by
  constructor
  · intro h
    obtain ⟨t, ht, h⟩ := bind_eq_ok.1 h
    obtain ⟨hnetwork, h⟩ := bind_require_eq_ok.1 h
    rw [transactionId_toJson, ok_bind] at h
    obtain ⟨hfresh, h⟩ := bind_require_eq_ok.1 h
    obtain ⟨hnonce, h⟩ := bind_require_eq_ok.1 h
    obtain ⟨hfunds, h⟩ := bind_require_eq_ok.1 h
    cases h
    exact ⟨t, ht, ⟨of_decide_eq_true hnetwork, of_decide_eq_true hfresh,
      of_decide_eq_true hnonce, of_decide_eq_true hfunds⟩, rfl⟩
  · rintro ⟨t, ht, ⟨hnetwork, hfresh, hnonce, hfunds⟩, rfl⟩
    rw [applyTransaction, ht, ok_bind]
    refine bind_require_eq_ok.2 ⟨decide_eq_true hnetwork, ?_⟩
    rw [transactionId_toJson, ok_bind]
    refine bind_require_eq_ok.2 ⟨decide_eq_true hfresh, ?_⟩
    refine bind_require_eq_ok.2 ⟨decide_eq_true hnonce, ?_⟩
    exact bind_require_eq_ok.2 ⟨decide_eq_true hfunds, rfl⟩

theorem foldlM_applyTransaction {l l' : Ledger} {items : List Json} :
    items.foldlM (applyTransaction c g) l = .ok l' ↔
      ∃ ts, List.Forall₂ (fun r t => normalizeTransaction c r = .ok t) items ts ∧
        Ledger.Steps c g l ts l' := by
  induction items generalizing l with
  | nil =>
      rw [foldlM_nil_eq_ok]
      constructor
      · rintro rfl
        exact ⟨[], .nil, .nil l⟩
      · rintro ⟨ts, hts, hsteps⟩
        cases hts
        cases hsteps
        rfl
  | cons r items ih =>
      rw [foldlM_cons_eq_ok]
      constructor
      · rintro ⟨m, hm, hrest⟩
        obtain ⟨t, ht, hadmits, rfl⟩ := applyTransaction_eq_ok.1 hm
        obtain ⟨ts, hts, hsteps⟩ := ih.1 hrest
        exact ⟨t :: ts, .cons ht hts, .cons hadmits hsteps⟩
      · rintro ⟨ts, hts, hsteps⟩
        cases hts with
        | cons ht hts =>
            cases hsteps with
            | cons hadmits hsteps =>
                exact ⟨_, applyTransaction_eq_ok.2 ⟨_, ht, hadmits, rfl⟩, ih.2 ⟨_, hts, hsteps⟩⟩

/-- The ledger with which the loop starts. -/
def State.ledger (s : State) : Ledger where
  balances := s.balances
  nonces := s.nonces
  seen := []
  totalFees := 0

/-- **The loop in terms of the normal forms.** -/
theorem applyTransactions_eq_ok {s : State} {transactions : Option Json} {l : Ledger} :
    applyTransactions c s transactions = .ok l ↔
      ∃ items ts, transactions = some (.arr items) ∧ items.length ≤ maxTransactionsPerBlock ∧
        List.Forall₂ (fun r t => normalizeTransaction c r = .ok t) items ts ∧
        Ledger.Steps c s.genesisHash s.ledger ts l := by
  rw [applyTransactions]
  split
  · next items hitems =>
      rw [Json.array?_eq_some] at hitems
      subst hitems
      split
      · next hlen =>
          rw [foldlM_applyTransaction]
          constructor
          · rintro ⟨ts, hts, hsteps⟩
            exact ⟨items, ts, rfl, hlen, hts, hsteps⟩
          · rintro ⟨items', ts, heq, -, hts, hsteps⟩
            cases heq
            exact ⟨ts, hts, hsteps⟩
      · next hlen =>
          constructor
          · intro h
            cases h
          · rintro ⟨items', ts, heq, hlen', -, -⟩
            cases heq
            exact absurd hlen' hlen
  · next hnone =>
      constructor
      · intro h
        cases h
      · rintro ⟨items, ts, rfl, -, -, -⟩
        simp at hnone

/-! ### What the loop keeps -/

theorem sum_credit (balances : Map Address ℤ) (a : Address) (amount : ℤ) :
    (credit balances a amount).values.sum = balances.values.sum + amount := by
  have hset := Map.sum_set balances a (balanceOf balances a + amount)
  simp only [credit, balanceOf] at hset ⊢
  omega

@[simp] theorem balanceOf_credit_self (balances : Map Address ℤ) (a : Address) (amount : ℤ) :
    balanceOf (credit balances a amount) a = balanceOf balances a + amount := by
  rw [balanceOf, credit, Map.get?_set_self, Option.getD_some]

theorem credit_nonneg {balances : Map Address ℤ} {a : Address} {amount : ℤ}
    (hb : ∀ v ∈ balances.values, 0 ≤ v) (ha : 0 ≤ amount) :
    ∀ v ∈ (credit balances a amount).values, 0 ≤ v := by
  have hold : 0 ≤ balanceOf balances a := Map.getD_of_forall_values hb le_rfl a
  exact Map.forall_values_set hb (by omega)

namespace Ledger

/-- The sum of the balances and the fees set aside. -/
def funds (l : Ledger) : ℤ := l.balances.values.sum + l.totalFees

/-- One round conserves the funds: what leaves the sender arrives at the recipient or among the
fees, whether or not the two addresses are the same. -/
theorem funds_after (l : Ledger) (t : Transaction) : (l.after c t).funds = l.funds := by
  have hdebit := Map.sum_set l.balances t.sender
    (balanceOf l.balances t.sender - t.amountValue - t.feeValue)
  have hcredit := sum_credit (l.balances.set t.sender
    (balanceOf l.balances t.sender - t.amountValue - t.feeValue)) t.recipient t.amountValue
  simp only [funds, after, balanceOf] at hdebit hcredit ⊢
  push_cast
  omega

theorem Admits.balances_nonneg {l : Ledger} {t : Transaction} (h : l.Admits c g t)
    (hl : ∀ v ∈ l.balances.values, 0 ≤ v) : ∀ v ∈ (l.after c t).balances.values, 0 ≤ v := by
  have hfunds := h.funds
  refine credit_nonneg (Map.forall_values_set hl ?_) (Int.natCast_nonneg _)
  omega

namespace Steps

variable {l l' : Ledger} {ts : List Transaction}

/-- **The transfers and the fees together conserve the sum of the balances.** -/
theorem funds_eq (h : Steps c g l ts l') : l'.funds = l.funds := by
  induction h with
  | nil l => rfl
  | cons _ _ ih => rw [ih, funds_after]

/-- **No balance becomes negative.** -/
theorem balances_nonneg (h : Steps c g l ts l') (hl : ∀ v ∈ l.balances.values, 0 ≤ v) :
    ∀ v ∈ l'.balances.values, 0 ≤ v := by
  induction h with
  | nil l => exact hl
  | cons hadmits _ ih => exact ih (hadmits.balances_nonneg hl)

theorem unique {l₁ l₂ : Ledger} (h₁ : Steps c g l ts l₁) (h₂ : Steps c g l ts l₂) : l₁ = l₂ := by
  induction h₁ with
  | nil l =>
      cases h₂
      rfl
  | cons _ _ ih =>
      cases h₂ with
      | cons _ hrest => exact ih hrest

end Steps

end Ledger

end Medac
