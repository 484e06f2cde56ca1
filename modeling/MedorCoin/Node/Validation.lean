/-
**What the validation of a list of transactions establishes.**

`validateTransactions` accepts a list exactly if no hash is claimed twice, the first transaction
pays out at most the reward, and the others pass the checks of `Node.Checked` and spend distinct
outputs between them.  The sums that are compared wrap around.

Main definitions:

* `Node.TxInput.outpoint`, `Node.coinValue`, `Node.spentValue` — what a transaction spends;
* `Node.Checked` — the checks of a transaction other than the first.

Main results:

* `Node.outpointKey_injective` — the remembered key determines the output that is spent;
* `Node.Blockchain.validateTransactions_cons` — **acceptance, in terms of these**.
-/

import MedorCoin.Node.Blockchain

set_option autoImplicit false

namespace Node

open Cpp

/-! ### What is spent -/

/-- The output an input refers to. -/
def TxInput.outpoint (input : TxInput) : Outpoint := (input.prevTxHash, input.outputIndex)

/-- The value of an unspent output, zero if there is none. -/
def coinValue (coins : Coins) (o : Outpoint) : ℕ :=
  ((coins.lookup o).map fun coin => coin.value.toNat).getD 0

/-- The value of the distinct unspent outputs a transaction spends, in unbounded integers. -/
def spentValue (coins : Coins) (tx : Transaction) : ℕ :=
  ((tx.inputs.map TxInput.outpoint).dedup.map (coinValue coins)).sum

theorem append_cons_inj {α : Type} {x : α} {s s' d d' : List α} (hd : x ∉ d) (hd' : x ∉ d')
    (h : s ++ x :: d = s' ++ x :: d') : s = s' ∧ d = d' := by
  rcases List.append_eq_append_iff.1 h with ⟨a, hs, ha⟩ | ⟨a, hs, ha⟩
  · cases a with
    | nil =>
        rw [List.append_nil] at hs
        exact ⟨hs.symm, (List.cons.inj ha).2⟩
    | cons y a =>
        have hmem : x ∈ d := by
          rw [(List.cons.inj ha).2]
          exact List.mem_append_right _ List.mem_cons_self
        exact absurd hmem hd
  · cases a with
    | nil =>
        rw [List.append_nil] at hs
        exact ⟨hs, (List.cons.inj ha).2.symm⟩
    | cons y a =>
        have hmem : x ∈ d' := by
          rw [(List.cons.inj ha).2]
          exact List.mem_append_right _ List.mem_cons_self
        exact absurd hmem hd'

theorem outpointKey_injective {i j : TxInput} (h : outpointKey i = outpointKey j) :
    i.outpoint = j.outpoint := by
  have hcolon (n : Int32) : (58 : UInt8) ∉ decimalInt n := not_mem_decimalInt rfl (by decide)
  obtain ⟨hhash, hindex⟩ := append_cons_inj (hcolon _) (hcolon _) h
  rw [TxInput.outpoint, TxInput.outpoint, hhash, decimalInt_injective hindex]

theorem hasDuplicateTxInBlock_of_nodup {txs : List Transaction}
    (h : (txs.map Transaction.txHash).Nodup) : hasDuplicateTxInBlock txs = false := by
  rw [hasDuplicateTxInBlock, decide_eq_true (h.filter _), Bool.not_true]

/-! ### The checks of a transaction -/

/-- The input refers to an unspent output; if the transaction is signed, it is by the owner. -/
def Spends (E : Secp256k1) (coins : Coins) (tx : Transaction) (input : TxInput) : Prop :=
  ∃ coin, coins.lookup input.outpoint = some coin ∧
    (tx.isSigned = true → tx.signedBy E coin.address = true)

/-- **The checks of a transaction other than the first.** -/
structure Checked (E : Secp256k1) (coins : Coins) (tx : Transaction) : Prop where
  valid : tx.txHash.length = 64
  inputs : ∀ input ∈ tx.inputs, Spends E coins tx input
  distinct : (tx.inputs.map outpointKey).Nodup
  covered : tx.outputTotal % 2 ^ 64 ≤ spentValue coins tx % 2 ^ 64

/-- The keys of what a transaction spends. -/
def Transaction.spentKeys (tx : Transaction) : List Str := tx.inputs.map outpointKey

theorem nodup_outpoints {inputs : List TxInput} (h : (inputs.map outpointKey).Nodup) :
    (inputs.map TxInput.outpoint).Nodup := by
  have hkeys : inputs.map outpointKey =
      (inputs.map TxInput.outpoint).map fun o => o.1 ++ 58 :: decimalInt o.2 := by
    rw [List.map_map]
    rfl
  rw [hkeys] at h
  exact h.of_map

theorem spentValue_of_nodup {coins : Coins} {tx : Transaction}
    (h : (tx.inputs.map outpointKey).Nodup) :
    spentValue coins tx = (tx.inputs.map fun input => coinValue coins input.outpoint).sum := by
  rw [spentValue, (nodup_outpoints h).dedup, List.map_map]
  rfl

namespace Blockchain

variable {U : UtxoSet} {E : Secp256k1} {utxo : U.State} {tx : Transaction}

/-! ### The loops of the validation -/

theorem checkInput_cases (E : Secp256k1) (utxo : U.State) (tx : Transaction) (input : TxInput)
    (st : List Str × UInt64) :
    ((checkInput E utxo tx input st).1 = true ∧ outpointKey input ∉ st.1 ∧
        Spends E (U.coins utxo) tx input ∧
        (checkInput E utxo tx input st).2.1 = outpointKey input :: st.1 ∧
        (checkInput E utxo tx input st).2.2.toNat =
          (st.2.toNat + coinValue (U.coins utxo) input.outpoint) % 2 ^ 64) ∨
      ((checkInput E utxo tx input st).1 = false ∧
        ¬ (outpointKey input ∉ st.1 ∧ Spends E (U.coins utxo) tx input)) := by
  unfold checkInput
  by_cases hspent : outpointKey input ∈ st.1
  · rw [if_pos hspent]
    exact Or.inr ⟨rfl, fun h => h.1 hspent⟩
  rw [if_neg hspent]
  have hget := U.getUTXO_eq utxo input.prevTxHash input.outputIndex
  cases hcoin : U.getUTXO utxo input.prevTxHash input.outputIndex with
  | none =>
      rw [hcoin] at hget
      refine Or.inr ⟨rfl, ?_⟩
      rintro ⟨-, coin, hlookup, -⟩
      rw [TxInput.outpoint, ← hget] at hlookup
      exact absurd hlookup (by simp)
  | some coin =>
      rw [hcoin] at hget
      have hlookup : (U.coins utxo).lookup input.outpoint = some coin := hget.symm
      by_cases hsigned : tx.isSigned && !tx.signedBy E coin.address
      · simp only [hsigned, if_true]
        refine Or.inr ⟨trivial, ?_⟩
        rintro ⟨-, coin', hlookup', hby⟩
        rw [hlookup] at hlookup'
        cases hlookup'
        rw [Bool.and_eq_true] at hsigned
        rw [hby hsigned.1] at hsigned
        exact Bool.noConfusion hsigned.2
      · simp only [hsigned, Bool.false_eq_true, if_false]
        refine Or.inl ⟨trivial, hspent, ⟨coin, hlookup, ?_⟩, trivial, ?_⟩
        · intro his
          rw [his, Bool.true_and, Bool.not_eq_true', Bool.not_eq_false] at hsigned
          exact hsigned
        · rw [UInt64.toNat_add, coinValue, hlookup]
          rfl

theorem forEach_checkInput (E : Secp256k1) (utxo : U.State) (tx : Transaction)
    (inputs : List TxInput) (st : List Str × UInt64) :
    ((forEach (checkInput E utxo tx) inputs st).1 = true ↔
      (∀ input ∈ inputs, Spends E (U.coins utxo) tx input) ∧
        (inputs.map outpointKey).Nodup ∧ ∀ key ∈ inputs.map outpointKey, key ∉ st.1) ∧
    ((forEach (checkInput E utxo tx) inputs st).1 = true →
      (∀ key, key ∈ (forEach (checkInput E utxo tx) inputs st).2.1 ↔
        key ∈ inputs.map outpointKey ∨ key ∈ st.1) ∧
      (forEach (checkInput E utxo tx) inputs st).2.2.toNat =
        (st.2.toNat + (inputs.map fun input => coinValue (U.coins utxo) input.outpoint).sum) %
          2 ^ 64) := by
  induction inputs generalizing st with
  | nil =>
      refine ⟨by simp, fun _ => ⟨by simp, ?_⟩⟩
      simp [Nat.mod_eq_of_lt st.2.toNat_lt]
  | cons input inputs ih =>
      rcases checkInput_cases E utxo tx input st with
        ⟨hok, hspent, hspends, hkeys, hsum⟩ | ⟨hfail, hnot⟩
      · obtain ⟨ihiff, ihstate⟩ := ih (checkInput E utxo tx input st).2
        rw [forEach_cons_true hok]
        constructor
        · rw [ihiff, hkeys]
          simp only [List.mem_cons, List.map_cons, List.nodup_cons, forall_eq_or_imp, not_or]
          constructor
          · rintro ⟨hall, hnodup, hfree⟩
            exact ⟨⟨hspends, hall⟩, ⟨fun hmem => (hfree _ hmem).1 rfl, hnodup⟩, hspent,
              fun key hkey => (hfree key hkey).2⟩
          · rintro ⟨⟨-, hall⟩, ⟨hnew, hnodup⟩, -, hfree⟩
            exact ⟨hall, hnodup, fun key hkey => ⟨fun h => hnew (h ▸ hkey), hfree key hkey⟩⟩
        · intro hdone
          obtain ⟨hmem, htotal⟩ := ihstate hdone
          constructor
          · intro key
            rw [hmem, hkeys, List.map_cons, List.mem_cons, List.mem_cons]
            tauto
          · rw [htotal, hsum, Nat.mod_add_mod, List.map_cons, List.sum_cons, Nat.add_assoc]
      · rw [forEach_cons_false hfail, hfail]
        refine ⟨⟨fun h => Bool.noConfusion h, ?_⟩, fun h => Bool.noConfusion h⟩
        rintro ⟨hall, -, hfree⟩
        exact absurd ⟨hfree _ List.mem_cons_self, hall input List.mem_cons_self⟩ hnot

theorem checkTransaction_iff (E : Secp256k1) (utxo : U.State) (tx : Transaction)
    (spent : List Str) :
    ((checkTransaction E utxo tx spent).1 = true ↔
      Checked E (U.coins utxo) tx ∧ ∀ key ∈ tx.spentKeys, key ∉ spent) ∧
    ((checkTransaction E utxo tx spent).1 = true →
      ∀ key, key ∈ (checkTransaction E utxo tx spent).2 ↔ key ∈ tx.spentKeys ∨ key ∈ spent) := by
  obtain ⟨hiff, hstate⟩ := forEach_checkInput E utxo tx tx.inputs (spent, 0)
  unfold checkTransaction
  by_cases hvalid : tx.txHash = [] || !tx.isValid
  · rw [if_pos hvalid]
    refine ⟨⟨fun h => Bool.noConfusion h, ?_⟩, fun h => Bool.noConfusion h⟩
    rintro ⟨hchecked, -⟩
    have hisValid := tx.isValid_iff.2 hchecked.valid
    have hne : tx.txHash ≠ [] := by
      intro hnil
      have hlength := hchecked.valid
      rw [hnil] at hlength
      exact absurd hlength (by decide)
    simp [hisValid, hne] at hvalid
  rw [if_neg hvalid]
  have hlength : tx.txHash.length = 64 := by
    rw [← tx.isValid_iff]
    simp only [Bool.or_eq_true, decide_eq_true_eq, Bool.not_eq_true', not_or,
      Bool.not_eq_false] at hvalid
    exact hvalid.2
  have hcovered (h : (forEach (checkInput E utxo tx) tx.inputs (spent, 0)).1 = true)
      (hnodup : (tx.inputs.map outpointKey).Nodup) :
      wrapSum tx.outputValues ≤ (forEach (checkInput E utxo tx) tx.inputs (spent, 0)).2.2 ↔
        tx.outputTotal % 2 ^ 64 ≤ spentValue (U.coins utxo) tx % 2 ^ 64 := by
    rw [UInt64.le_iff_toNat_le, tx.toNat_wrapSum_outputValues, (hstate h).2,
      spentValue_of_nodup hnodup]
    simp
  constructor
  · simp only [Bool.and_eq_true, decide_eq_true_eq]
    constructor
    · rintro ⟨hinputs, hle⟩
      obtain ⟨hspends, hnodup, hfree⟩ := hiff.1 hinputs
      exact ⟨⟨hlength, hspends, hnodup, (hcovered hinputs hnodup).1 hle⟩, hfree⟩
    · rintro ⟨hchecked, hfree⟩
      have hinputs := hiff.2 ⟨hchecked.inputs, hchecked.distinct, hfree⟩
      exact ⟨hinputs, (hcovered hinputs hchecked.distinct).2 hchecked.covered⟩
  · intro h
    exact (hstate (Bool.and_eq_true _ _ ▸ h).1).1

theorem forEach_checkTransaction (txs : List Transaction) (spent : List Str) :
    (forEach (checkTransaction E utxo) txs spent).1 = true ↔
      (∀ tx ∈ txs, Checked E (U.coins utxo) tx) ∧
        (txs.flatMap Transaction.spentKeys).Nodup ∧
        ∀ key ∈ txs.flatMap Transaction.spentKeys, key ∉ spent := by
  induction txs generalizing spent with
  | nil => simp
  | cons tx txs ih =>
      obtain ⟨hiff, hstate⟩ := checkTransaction_iff E utxo tx spent
      cases hok : (checkTransaction E utxo tx spent).1 with
      | true =>
          obtain ⟨hchecked, hfree⟩ := hiff.1 hok
          have hkeys := hstate hok
          rw [forEach_cons_true hok, ih]
          simp only [List.mem_cons, forall_eq_or_imp, List.flatMap_cons, List.nodup_append,
            List.mem_append, hkeys, not_or]
          constructor
          · rintro ⟨hall, hnodup, hnot⟩
            refine ⟨⟨hchecked, hall⟩, ⟨hchecked.distinct, hnodup, ?_⟩, ?_⟩
            · rintro key hkey key' hkey' rfl
              exact (hnot key hkey').1 hkey
            · rintro key (hkey | hkey)
              · exact hfree key hkey
              · exact (hnot key hkey).2
          · rintro ⟨⟨-, hall⟩, ⟨-, hnodup, hdisjoint⟩, hnot⟩
            exact ⟨hall, hnodup, fun key hkey =>
              ⟨fun hmem => hdisjoint key hmem key hkey rfl, hnot key (Or.inr hkey)⟩⟩
      | false =>
          rw [forEach_cons_false hok, hok]
          refine ⟨fun h => Bool.noConfusion h, ?_⟩
          rintro ⟨hall, -, hnot⟩
          have hpass := hiff.2 ⟨hall tx List.mem_cons_self, fun key hkey =>
            hnot key (List.mem_flatMap.2 ⟨tx, List.mem_cons_self, hkey⟩)⟩
          rw [hok] at hpass
          exact Bool.noConfusion hpass

/-- **Acceptance**: no hash is claimed twice, the first transaction pays out at most the reward,
the others pass their checks and spend distinct outputs between them. -/
theorem validateTransactions_cons {s : Blockchain U} {now : UInt64} {first : Transaction}
    {rest : List Transaction} :
    s.validateTransactions E now (first :: rest) = true ↔
      hasDuplicateTxInBlock (first :: rest) = false ∧
        first.outputTotal % 2 ^ 64 ≤ (s.cappedReward now).toNat ∧
        (∀ tx ∈ rest, Checked E (U.coins s.utxoSet) tx) ∧
        (rest.flatMap Transaction.spentKeys).Nodup := by
  rw [validateTransactions, Bool.and_eq_true, Bool.and_eq_true, decide_eq_true_eq,
    UInt64.le_iff_toNat_le, first.toNat_wrapSum_outputValues, Bool.not_eq_true',
    forEach_checkTransaction]
  simp only [List.not_mem_nil, not_false_eq_true, implies_true, and_true, and_assoc]

end Blockchain

end Node
