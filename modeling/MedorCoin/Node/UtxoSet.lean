/-
**The set of unspent outputs.**

The class `UTXOSet` that the C++ node calls has no body in the repository.  What it does is taken
from its tests: it keeps unspent outputs by transaction hash and index; adding one fails if it is
there already, and for an empty address, an empty hash or a negative index; spending one fails if
it is not there, and for an output of a coinbase that is not yet a hundred blocks old, unless the
height is the greatest `uint64_t`, by which a rollback asks.  `Node.UtxoSet` is any class that
behaves so, seen as a finite map from outpoints to outputs.

Main definitions:

* `Node.Utxo`, `Node.Outpoint`;
* `Node.UtxoSet` — an implementation, with the laws its tests state;
* `Node.UtxoSet.ofMap` — the finite map itself, an implementation.

Main results:

* `Node.UtxoSet.coins_spendUTXO_max` — what a rollback asks for is gone afterwards;
* `Node.UtxoSet.mem_coins_add`, `Node.UtxoSet.mem_coins_spend` — **which outpoints an operation
  can add or remove**, whether it succeeds or not.
-/

import MedorCoin.Node.Transaction
import Mathlib.Data.Finmap

set_option autoImplicit false

namespace Node

open Cpp

/-- `struct UTXO`; its hash and index are its key here. -/
structure Utxo where
  value : UInt64
  address : Str
  blockHeight : UInt64
  isCoinbase : Bool
  deriving DecidableEq

/-- The hash of a transaction and the index of one of its outputs. -/
abbrev Outpoint := Str × Int32

/-- Unspent outputs by outpoint. -/
abbrev Coins := Finmap fun _ : Outpoint => Utxo

/-- `COINBASE_MATURITY`. -/
def coinbaseMaturity : ℕ := 100

/-- The height by which a rollback spends. -/
def rollbackHeight : UInt64 := UInt64.ofNat (2 ^ 64 - 1)

/-- **An implementation of `UTXOSet`**: its operations, the finite map it stands for, and what its
tests say of the operations. -/
structure UtxoSet where
  State : Type
  fresh : State
  coins : State → Coins
  getUTXO : State → Str → Int32 → Option Utxo
  addUTXO : State → TxOutput → Str → Int32 → UInt64 → Bool → Bool × State
  spendUTXO : State → Str → Int32 → UInt64 → Bool × State
  coins_fresh : coins fresh = ∅
  getUTXO_eq : ∀ s h i, getUTXO s h i = (coins s).lookup (h, i)
  addUTXO_fst : ∀ s out h i height coinbase, (addUTXO s out h i height coinbase).1 = true ↔
    (h, i) ∉ coins s ∧ out.address ≠ [] ∧ h ≠ [] ∧ 0 ≤ i.toInt
  coins_addUTXO : ∀ s out h i height coinbase, coins (addUTXO s out h i height coinbase).2 =
    if (addUTXO s out h i height coinbase).1 then
      (coins s).insert (h, i) ⟨out.value, out.address, height, coinbase⟩ else coins s
  spendUTXO_absent : ∀ s h i height, (h, i) ∉ coins s → (spendUTXO s h i height).1 = false
  spendUTXO_present : ∀ s h i height utxo, (coins s).lookup (h, i) = some utxo →
    utxo.isCoinbase = false ∨ utxo.blockHeight.toNat + coinbaseMaturity ≤ height.toNat ∨
      height = rollbackHeight →
    (spendUTXO s h i height).1 = true
  spendUTXO_immature : ∀ s h i height utxo, (coins s).lookup (h, i) = some utxo →
    utxo.isCoinbase = true → utxo.blockHeight.toNat ≤ height.toNat →
    height.toNat < utxo.blockHeight.toNat + coinbaseMaturity → height ≠ rollbackHeight →
    (spendUTXO s h i height).1 = false
  coins_spendUTXO : ∀ s h i height, coins (spendUTXO s h i height).2 =
    if (spendUTXO s h i height).1 then (coins s).erase (h, i) else coins s

namespace UtxoSet

variable (U : UtxoSet)

/-! ### The operations as changes of the map -/

theorem coins_addUTXO_true {s : U.State} {out : TxOutput} {h : Str} {i : Int32} {height : UInt64}
    {coinbase : Bool} (hadd : (U.addUTXO s out h i height coinbase).1 = true) :
    U.coins (U.addUTXO s out h i height coinbase).2 =
      (U.coins s).insert (h, i) ⟨out.value, out.address, height, coinbase⟩ := by
  rw [U.coins_addUTXO, if_pos hadd]

theorem coins_addUTXO_false {s : U.State} {out : TxOutput} {h : Str} {i : Int32} {height : UInt64}
    {coinbase : Bool} (hadd : (U.addUTXO s out h i height coinbase).1 = false) :
    U.coins (U.addUTXO s out h i height coinbase).2 = U.coins s := by
  rw [U.coins_addUTXO, hadd, if_neg Bool.false_ne_true]

theorem coins_spendUTXO_true {s : U.State} {h : Str} {i : Int32} {height : UInt64}
    (hspend : (U.spendUTXO s h i height).1 = true) :
    U.coins (U.spendUTXO s h i height).2 = (U.coins s).erase (h, i) := by
  rw [U.coins_spendUTXO, if_pos hspend]

theorem coins_spendUTXO_false {s : U.State} {h : Str} {i : Int32} {height : UInt64}
    (hspend : (U.spendUTXO s h i height).1 = false) :
    U.coins (U.spendUTXO s h i height).2 = U.coins s := by
  rw [U.coins_spendUTXO, hspend, if_neg Bool.false_ne_true]

theorem mem_of_spendUTXO {s : U.State} {h : Str} {i : Int32} {height : UInt64}
    (hspend : (U.spendUTXO s h i height).1 = true) : (h, i) ∈ U.coins s := by
  by_contra habsent
  rw [U.spendUTXO_absent s h i height habsent] at hspend
  exact Bool.noConfusion hspend

theorem coins_spendUTXO_max (s : U.State) (h : Str) (i : Int32) :
    U.coins (U.spendUTXO s h i rollbackHeight).2 = (U.coins s).erase (h, i) := by
  by_cases hmem : (h, i) ∈ U.coins s
  · obtain ⟨utxo, hutxo⟩ := Finmap.mem_iff.1 hmem
    exact U.coins_spendUTXO_true (U.spendUTXO_present s h i _ utxo hutxo (Or.inr (Or.inr rfl)))
  · rw [U.coins_spendUTXO_false (U.spendUTXO_absent s h i _ hmem)]
    refine Finmap.ext_lookup fun o => ?_
    by_cases ho : o = (h, i)
    · rw [ho, Finmap.lookup_erase, Finmap.lookup_eq_none.2 hmem]
    · rw [Finmap.lookup_erase_ne ho]

theorem mem_coins_add {s : U.State} {out : TxOutput} {h : Str} {i : Int32} {height : UInt64}
    {coinbase : Bool} {o : Outpoint} (ho : o ∈ U.coins (U.addUTXO s out h i height coinbase).2) :
    o ∈ U.coins s ∨ o = (h, i) := by
  cases hadd : (U.addUTXO s out h i height coinbase).1 with
  | false =>
      rw [U.coins_addUTXO_false hadd] at ho
      exact Or.inl ho
  | true =>
      rw [U.coins_addUTXO_true hadd, Finmap.mem_insert] at ho
      exact ho.symm

theorem mem_coins_spend {s : U.State} {h : Str} {i : Int32} {height : UInt64} {o : Outpoint}
    (ho : o ∈ U.coins (U.spendUTXO s h i height).2) : o ∈ U.coins s := by
  cases hspend : (U.spendUTXO s h i height).1 with
  | false => rwa [U.coins_spendUTXO_false hspend] at ho
  | true =>
      rw [U.coins_spendUTXO_true hspend, Finmap.mem_erase] at ho
      exact ho.2

/-! ### The finite map as an implementation -/

/-- Whether an output may be spent at a height. -/
def spendable (utxo : Utxo) (height : UInt64) : Bool :=
  !utxo.isCoinbase || decide (utxo.blockHeight.toNat + coinbaseMaturity ≤ height.toNat) ||
    decide (height = rollbackHeight)

/-- The finite map itself. -/
def ofMap : UtxoSet where
  State := Coins
  fresh := ∅
  coins := id
  getUTXO s h i := s.lookup (h, i)
  addUTXO s out h i height coinbase :=
    if (h, i) ∉ s ∧ out.address ≠ [] ∧ h ≠ [] ∧ 0 ≤ i.toInt then
      (true, s.insert (h, i) ⟨out.value, out.address, height, coinbase⟩)
    else (false, s)
  spendUTXO s h i height :=
    match s.lookup (h, i) with
    | none => (false, s)
    | some utxo => if spendable utxo height then (true, s.erase (h, i)) else (false, s)
  coins_fresh := rfl
  getUTXO_eq _ _ _ := rfl
  addUTXO_fst s out h i height coinbase := by
    split <;> simp_all
  coins_addUTXO s out h i height coinbase := by
    split <;> simp
  spendUTXO_absent s h i height habsent := by
    rw [id, ← Finmap.lookup_eq_none] at habsent
    simp [habsent]
  spendUTXO_present s h i height utxo hutxo hok := by
    have hspendable : spendable utxo height = true := by
      rcases hok with hok | hok | hok <;> simp [spendable, hok]
    rw [id] at hutxo
    simp [hutxo, hspendable]
  spendUTXO_immature s h i height utxo hutxo hcoinbase _ hlt hne := by
    have hspendable : spendable utxo height = false := by
      simp [spendable, hcoinbase, hne, hlt]
    rw [id] at hutxo
    simp [hutxo, hspendable]
  coins_spendUTXO s h i height := by
    split
    · simp
    · split <;> simp

end UtxoSet

end Node
