/-
**Calls of a contract, and what they ensure.**

A call reads and writes the storage of its contract and either returns a value or reverts with a
reason, and then the storage is as it was before.  Arithmetic on words reverts when the result is
out of range.  Inside an `unchecked` block it wraps instead; whether it has done so is part of the
outcome, also of a call that reverts later.

What a call ensures is said by its weakest precondition: no operation of an `unchecked` block
wraps, and when the call returns, the postcondition holds of the value and of the storage.  Each
operation has a rule that says its precondition, so that the rules rewrite the claim about a
function to one about words and mappings.

Transactions are executed one after another.  One that reverts changes nothing.  The receipts say
of each in turn which it was, whether it succeeded, and whether an operation of an `unchecked` block
wrapped in it.

Main definitions:

* `Solidity.Call`, `Solidity.Outcome` — a call and its outcome;
* `Solidity.Reply` — what a call of another contract comes back with;
* `Solidity.Call.require`, `Solidity.Call.checkedAdd`, `Solidity.Call.uncheckedAdd`, … — the
  operations;
* `Solidity.Call.wp` — the weakest precondition;
* `Solidity.total` — the sum of a mapping over all its keys;
* `Solidity.Receipt`, `Solidity.Chain` — a receipt, and a storage with the receipts so far;
* `Solidity.Chain.run` — a sequence of transactions.

Main results:

* `Solidity.Call.wp_bind`, `Solidity.Call.wp_require`, … — the rules;
* `Solidity.total_update` — **the sum after one entry has been set**;
* `Solidity.Chain.run_invariant` — **what every transaction ensures holds after any sequence of
  them, and nothing wraps in it**.
-/

import MedorCoin.Cpp.BigEndian
import Mathlib.Algebra.BigOperators.Ring.Finset
import Mathlib.Data.BitVec
import Mathlib.Data.FinEnum

set_option autoImplicit false

namespace Solidity

/-- The type `uint256`, and `bytes32`. -/
abbrev Word := BitVec 256

abbrev Address := BitVec 160

/-- What a call comes to: its value and the storage after it, or the reason of its revert, and
whether an operation of an `unchecked` block has wrapped on the way. -/
structure Outcome (σ α : Type) where
  result : Except String (α × σ)
  wrapped : Bool

/-- What a low-level call of another contract comes back with. -/
structure Reply where
  success : Bool
  returnData : List UInt8

/-- A call of a contract with a storage of type `σ`. -/
def Call (σ α : Type) := σ → Outcome σ α

variable {σ α β : Type}

namespace Call

/-! ### Operations -/

protected def pure (a : α) : Call σ α := fun s => ⟨.ok (a, s), false⟩

/-- One call after another. -/
protected def bind (c : Call σ α) (f : α → Call σ β) : Call σ β := fun s =>
  match (c s).result with
  | .error reason => ⟨.error reason, (c s).wrapped⟩
  | .ok (a, t) => ⟨(f a t).result, (c s).wrapped || (f a t).wrapped⟩

instance : Monad (Call σ) where
  pure := Call.pure
  bind := Call.bind

/-- The storage. -/
def storage : Call σ σ := fun s => ⟨.ok (s, s), false⟩

/-- A write to the storage. -/
def modify (f : σ → σ) : Call σ Unit := fun s => ⟨.ok ((), f s), false⟩

def revert (reason : String) : Call σ α := fun _ => ⟨.error reason, false⟩

def require (p : Prop) [Decidable p] (reason : String) : Call σ Unit :=
  if p then Call.pure () else revert reason

/-- The reason of a revert for arithmetic out of range. -/
def overflow : String := "Panic(0x11)"

def checkedAdd (a b : Word) : Call σ Word :=
  if a.toNat + b.toNat < 2 ^ 256 then Call.pure (a + b) else revert overflow

def checkedSub (a b : Word) : Call σ Word :=
  if b ≤ a then Call.pure (a - b) else revert overflow

def checkedMul (a b : Word) : Call σ Word :=
  if a.toNat * b.toNat < 2 ^ 256 then Call.pure (a * b) else revert overflow

def uncheckedAdd (a b : Word) : Call σ Word := fun s =>
  ⟨.ok (a + b, s), decide (2 ^ 256 ≤ a.toNat + b.toNat)⟩

def uncheckedSub (a b : Word) : Call σ Word := fun s => ⟨.ok (a - b, s), decide (a < b)⟩

/-- `abi.decode(data, (bool))` of 32 bytes or more: a first word other than 0 and 1 reverts. -/
def decodeBool (data : List UInt8) : Call σ Bool :=
  match Cpp.readBE (data.take 32) with
  | 0 => Call.pure false
  | 1 => Call.pure true
  | _ => revert ""

/-! ### Weakest preconditions -/

/-- **What a call ensures**: nothing wraps, and if the call returns, then with `Q`. -/
def wp (c : Call σ α) (Q : α → σ → Prop) (s : σ) : Prop :=
  (c s).wrapped = false ∧ ∀ a t, (c s).result = .ok (a, t) → Q a t

variable {Q R : α → σ → Prop} {s : σ}

theorem wp_mono {c : Call σ α} (h : c.wp Q s) (hQR : ∀ a t, Q a t → R a t) : c.wp R s :=
  ⟨h.1, fun a t hok => hQR a t (h.2 a t hok)⟩

@[simp] theorem wp_pure (a : α) : wp (pure a : Call σ α) Q s ↔ Q a s := by
  constructor
  · intro h
    exact h.2 a s rfl
  · intro h
    refine ⟨rfl, ?_⟩
    rintro b t hok
    cases hok
    exact h

@[simp] theorem wp_bind (c : Call σ α) (f : α → Call σ β) {Q : β → σ → Prop} :
    wp (c >>= f) Q s ↔ wp c (fun a t => wp (f a) Q t) s := by
  change wp (Call.bind c f) Q s ↔ _
  unfold wp Call.bind
  cases hc : (c s).result with
  | error reason => simp
  | ok r =>
      obtain ⟨a, t⟩ := r
      simp only [Bool.or_eq_false_iff, Except.ok.injEq, Prod.mk.injEq, and_assoc]
      constructor
      · rintro ⟨hw, hw', hQ⟩
        refine ⟨hw, ?_⟩
        rintro _ _ ⟨rfl, rfl⟩
        exact ⟨hw', hQ⟩
      · rintro ⟨hw, h⟩
        exact ⟨hw, h a t ⟨rfl, rfl⟩⟩

@[simp] theorem wp_storage {Q : σ → σ → Prop} : wp storage Q s ↔ Q s s :=
  wp_pure s

@[simp] theorem wp_modify (f : σ → σ) {Q : Unit → σ → Prop} : wp (modify f) Q s ↔ Q () (f s) := by
  constructor
  · intro h
    exact h.2 () (f s) rfl
  · intro h
    refine ⟨rfl, ?_⟩
    rintro ⟨⟩ t hok
    cases hok
    exact h

@[simp] theorem wp_revert (reason : String) : wp (revert reason : Call σ α) Q s := by
  refine ⟨rfl, ?_⟩
  rintro a t hok
  cases hok

theorem wp_ite (p : Prop) [Decidable p] (c d : Call σ α) :
    wp (if p then c else d) Q s ↔ (p → wp c Q s) ∧ (¬p → wp d Q s) := by
  by_cases hp : p
  · simp [hp]
  · simp [hp]

@[simp] theorem wp_require (p : Prop) [Decidable p] (reason : String) {Q : Unit → σ → Prop} :
    wp (require p reason) Q s ↔ (p → Q () s) := by
  rw [require, wp_ite]
  exact ⟨fun h hp => (wp_pure ()).1 (h.1 hp),
    fun h => ⟨fun hp => (wp_pure ()).2 (h hp), fun _ => wp_revert reason⟩⟩

@[simp] theorem wp_checkedAdd (a b : Word) {Q : Word → σ → Prop} :
    wp (checkedAdd a b) Q s ↔ (a.toNat + b.toNat < 2 ^ 256 → Q (a + b) s) := by
  rw [checkedAdd, wp_ite]
  exact ⟨fun h hp => (wp_pure _).1 (h.1 hp),
    fun h => ⟨fun hp => (wp_pure _).2 (h hp), fun _ => wp_revert _⟩⟩

@[simp] theorem wp_checkedSub (a b : Word) {Q : Word → σ → Prop} :
    wp (checkedSub a b) Q s ↔ (b ≤ a → Q (a - b) s) := by
  rw [checkedSub, wp_ite]
  exact ⟨fun h hp => (wp_pure _).1 (h.1 hp),
    fun h => ⟨fun hp => (wp_pure _).2 (h hp), fun _ => wp_revert _⟩⟩

@[simp] theorem wp_checkedMul (a b : Word) {Q : Word → σ → Prop} :
    wp (checkedMul a b) Q s ↔ (a.toNat * b.toNat < 2 ^ 256 → Q (a * b) s) := by
  rw [checkedMul, wp_ite]
  exact ⟨fun h hp => (wp_pure _).1 (h.1 hp),
    fun h => ⟨fun hp => (wp_pure _).2 (h hp), fun _ => wp_revert _⟩⟩

@[simp] theorem wp_uncheckedAdd (a b : Word) {Q : Word → σ → Prop} :
    wp (uncheckedAdd a b) Q s ↔ a.toNat + b.toNat < 2 ^ 256 ∧ Q (a + b) s := by
  unfold wp uncheckedAdd
  simp only [decide_eq_false_iff_not, not_le, Except.ok.injEq, Prod.mk.injEq]
  constructor
  · rintro ⟨hlt, h⟩
    exact ⟨hlt, h _ _ ⟨rfl, rfl⟩⟩
  · rintro ⟨hlt, h⟩
    refine ⟨hlt, ?_⟩
    rintro _ _ ⟨rfl, rfl⟩
    exact h

@[simp] theorem wp_uncheckedSub (a b : Word) {Q : Word → σ → Prop} :
    wp (uncheckedSub a b) Q s ↔ b ≤ a ∧ Q (a - b) s := by
  unfold wp uncheckedSub
  simp only [decide_eq_false_iff_not, BitVec.not_lt, Except.ok.injEq, Prod.mk.injEq]
  constructor
  · rintro ⟨hle, h⟩
    exact ⟨hle, h _ _ ⟨rfl, rfl⟩⟩
  · rintro ⟨hle, h⟩
    refine ⟨hle, ?_⟩
    rintro _ _ ⟨rfl, rfl⟩
    exact h

theorem wp_decodeBool (data : List UInt8) {Q : Bool → σ → Prop} (hQ : ∀ b, Q b s) :
    wp (decodeBool data) Q s := by
  unfold decodeBool
  split
  · exact (wp_pure false).2 (hQ false)
  · exact (wp_pure true).2 (hQ true)
  · exact wp_revert _

end Call

/-! ### Mappings -/

section Mapping

variable {ι : Type} [Fintype ι]

/-- The sum of a mapping over all its keys. -/
def total (f : ι → Word) : ℕ := ∑ a, (f a).toNat

variable [DecidableEq ι]

/-- **Setting an entry** replaces its old value in the sum by the new one. -/
theorem total_update (f : ι → Word) (a : ι) (v : Word) :
    total (Function.update f a v) + (f a).toNat = total f + v.toNat := by
  have hmem : a ∈ (Finset.univ : Finset ι) := Finset.mem_univ a
  have hafter := Finset.add_sum_erase _ (fun b => (Function.update f a v b).toNat) hmem
  have hbefore := Finset.add_sum_erase _ (fun b => (f b).toNat) hmem
  have hrest : ∑ b ∈ Finset.univ.erase a, (Function.update f a v b).toNat
      = ∑ b ∈ Finset.univ.erase a, (f b).toNat :=
    Finset.sum_congr rfl fun b hb => by
      rw [Function.update_of_ne (Finset.ne_of_mem_erase hb)]
  simp only [Function.update_self] at hafter
  unfold total
  omega

theorem total_credit {f : ι → Word} {a : ι} {v : Word} (h : (f a).toNat + v.toNat < 2 ^ 256) :
    total (Function.update f a (f a + v)) = total f + v.toNat := by
  have hupdate := total_update f a (f a + v)
  rw [BitVec.toNat_add_of_lt h] at hupdate
  omega

theorem total_debit {f : ι → Word} {a : ι} {v : Word} (h : v ≤ f a) :
    total (Function.update f a (f a - v)) + v.toNat = total f := by
  have hupdate := total_update f a (f a - v)
  rw [BitVec.toNat_sub_of_le h] at hupdate
  have hle : v.toNat ≤ (f a).toNat := h
  omega

theorem le_total (f : ι → Word) (a : ι) : (f a).toNat ≤ total f := by
  have hzero := total_update f a 0
  simp only [BitVec.ofNat_eq_ofNat, BitVec.toNat_ofNat, Nat.zero_mod, Nat.add_zero] at hzero
  omega

end Mapping

end Solidity

namespace Solidity

variable {σ τ : Type}

structure Receipt (τ : Type) where
  tx : τ
  succeeded : Bool
  wrapped : Bool

/-- The storage of the contract and the receipts of the transactions so far, the oldest first. -/
structure Chain (σ τ : Type) where
  storage : σ
  receipts : List (Receipt τ)

namespace Chain

/-- One more transaction. -/
def execute (exec : τ → Call σ Unit) (c : Chain σ τ) (tx : τ) : Chain σ τ :=
  match (exec tx c.storage).result with
  | .error _ =>
      { storage := c.storage
        receipts := c.receipts ++ [⟨tx, false, (exec tx c.storage).wrapped⟩] }
  | .ok (_, t) =>
      { storage := t
        receipts := c.receipts ++ [⟨tx, true, (exec tx c.storage).wrapped⟩] }

/-- **A sequence of transactions** from a storage. -/
def run (exec : τ → Call σ Unit) (s : σ) (txs : List τ) : Chain σ τ :=
  txs.foldl (execute exec) ⟨s, []⟩

variable {exec : τ → Call σ Unit} {I : Chain σ τ → Prop}

theorem execute_invariant {c : Chain σ τ} {tx : τ}
    (hrevert : I ⟨c.storage, c.receipts ++ [⟨tx, false, false⟩]⟩)
    (hcall : (exec tx).wp (fun _ t => I ⟨t, c.receipts ++ [⟨tx, true, false⟩]⟩) c.storage) :
    I (execute exec c tx) ∧
      ∃ r : Receipt τ, r.wrapped = false ∧ (execute exec c tx).receipts = c.receipts ++ [r] := by
  obtain ⟨hw, hQ⟩ := hcall
  unfold execute
  rw [hw]
  cases hres : (exec tx c.storage).result with
  | error reason => exact ⟨hrevert, _, rfl, rfl⟩
  | ok p => exact ⟨hQ p.1 p.2 hres, _, rfl, rfl⟩

/-- **An invariant of the transactions** holds after any sequence of them, and nothing wraps. -/
theorem run_invariant (hrevert : ∀ c tx, I c → I ⟨c.storage, c.receipts ++ [⟨tx, false, false⟩]⟩)
    (hcall : ∀ c tx, I c →
      (exec tx).wp (fun _ t => I ⟨t, c.receipts ++ [⟨tx, true, false⟩]⟩) c.storage)
    {s : σ} (hs : I ⟨s, []⟩) (txs : List τ) :
    I (run exec s txs) ∧ ∀ r ∈ (run exec s txs).receipts, r.wrapped = false := by
  suffices h : ∀ (txs : List τ) (c : Chain σ τ), I c → (∀ r ∈ c.receipts, r.wrapped = false) →
      I (txs.foldl (execute exec) c) ∧
        ∀ r ∈ (txs.foldl (execute exec) c).receipts, r.wrapped = false from
    h txs _ hs (fun r hr => absurd hr (List.not_mem_nil))
  intro txs
  induction txs with
  | nil =>
      intro c hI hw
      exact ⟨hI, hw⟩
  | cons tx txs ih =>
      intro c hI hw
      obtain ⟨hI', r, hr, hreceipts⟩ := execute_invariant (hrevert c tx hI) (hcall c tx hI)
      refine ih _ hI' ?_
      intro r' hr'
      rw [hreceipts] at hr'
      rcases List.mem_append.1 hr' with hold | hnew
      · exact hw r' hold
      · rw [List.mem_singleton.1 hnew]
        exact hr

end Chain

end Solidity
