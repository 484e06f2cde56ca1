/-
**What an application does to the unspent outputs.**

A transaction that is applied takes the outputs it spends out of the set and puts its own in; it is
applied exactly if it fits the set: what it spends is there, and old enough if it is of a coinbase,
and what it creates is not there.

Main definitions:

* `Node.Transaction.spent`, `Node.Transaction.created`, `Node.Transaction.effect`;
* `Node.Mature` — an output may be spent at a height;
* `Node.Past` — no coinbase is of a later block than the height;
* `Node.Transaction.Fits` — the transaction fits the unspent outputs.

Main results:

* `Node.Blockchain.coins_applyTransaction` — **the effect** of a transaction that was applied;
* `Node.Blockchain.applyTransaction_of_fits`, `Node.Blockchain.fits_of_applyTransaction` — **it is
  applied exactly if it fits**.
-/

import MedorCoin.Ledger.Outputs
import MedorCoin.Node.Application

set_option autoImplicit false

namespace Node

open Cpp

/-! ### Spent and created outputs -/

/-- The outputs a transaction spends. -/
def Transaction.spent (tx : Transaction) : List Outpoint := tx.inputs.map TxInput.outpoint

/-- Outputs of a transaction, as they are kept. -/
def createdFrom (hash : Str) (height : UInt64) (coinbase : Bool) (outputs : List (TxOutput × ℕ)) :
    List (Outpoint × Utxo) :=
  outputs.map fun out =>
    ((hash, Int32.ofNat out.2), ⟨out.1.value, out.1.address, height, coinbase⟩)

/-- The outputs a transaction creates, as they are kept. -/
def Transaction.created (tx : Transaction) (height : UInt64) (coinbase : Bool) :
    List (Outpoint × Utxo) := createdFrom tx.txHash height coinbase tx.outputs.zipIdx

/-- The unspent outputs after a transaction. -/
def Transaction.effect (tx : Transaction) (height : UInt64) (coinbase : Bool) (coins : Coins) :
    Coins := Ledger.create (Ledger.spend coins tx.spent) (tx.created height coinbase)

theorem Transaction.map_fst_created (tx : Transaction) (height : UInt64) (coinbase : Bool) :
    (tx.created height coinbase).map Prod.fst = tx.outpoints := by
  have hindices : (List.range tx.outputs.length).map (fun i => (tx.txHash, Int32.ofNat i)) =
      (tx.outputs.zipIdx.map Prod.snd).map fun i => (tx.txHash, Int32.ofNat i) := by
    rw [List.zipIdx_map_snd, List.range_eq_range']
  rw [Transaction.outpoints, hindices, List.map_map, created, createdFrom, List.map_map]
  rfl

theorem Transaction.mem_effect {tx : Transaction} {height : UInt64} {coinbase : Bool}
    {coins : Coins} {o : Outpoint} :
    o ∈ tx.effect height coinbase coins ↔ (o ∈ coins ∧ o ∉ tx.spent) ∨ o ∈ tx.outpoints := by
  rw [effect, Ledger.mem_create, Ledger.mem_spend, map_fst_created]

theorem Transaction.lookup_effect_of_not_mem {tx : Transaction} (height : UInt64) (coinbase : Bool)
    (coins : Coins) {o : Outpoint} (h : o ∉ tx.outpoints) :
    (tx.effect height coinbase coins).lookup o =
      if o ∈ tx.spent then none else coins.lookup o := by
  rw [effect, Ledger.lookup_create_of_not_mem (by rwa [map_fst_created]), Ledger.lookup_spend]
  by_cases hspent : o ∈ tx.spent
  · rw [if_pos hspent, if_pos hspent]
  · rw [if_neg hspent, if_neg hspent]

theorem Transaction.exists_lookup_effect {tx : Transaction} (height : UInt64) (coinbase : Bool)
    (coins : Coins) {o : Outpoint} (h : o ∈ tx.outpoints) :
    ∃ coin, (tx.effect height coinbase coins).lookup o = some coin ∧ coin.blockHeight = height ∧
      coin.isCoinbase = coinbase := by
  rw [← tx.map_fst_created height coinbase] at h
  obtain ⟨coin, hlookup, hmem⟩ := Ledger.exists_lookup_create (m := Ledger.spend coins tx.spent) h
  obtain ⟨out, -, hout⟩ := List.mem_map.1 hmem
  obtain rfl := congrArg Prod.snd hout
  exact ⟨_, hlookup, rfl, rfl⟩

/-! ### What may be spent -/

/-- An output may be spent at a height: it is there, and if it is of a coinbase it is old enough. -/
def Mature (coins : Coins) (height : UInt64) (o : Outpoint) : Prop :=
  ∃ coin, coins.lookup o = some coin ∧ (coin.isCoinbase = false ∨
    coin.blockHeight.toNat + coinbaseMaturity ≤ height.toNat ∨ height = rollbackHeight)

/-- No coinbase is of a later block than the height. -/
def Past (coins : Coins) (height : UInt64) : Prop :=
  ∀ o coin, coins.lookup o = some coin → coin.isCoinbase = true →
    coin.blockHeight.toNat ≤ height.toNat

theorem mature_congr {coins coins' : Coins} {height : UInt64} {o : Outpoint}
    (h : coins.lookup o = coins'.lookup o) : Mature coins height o ↔ Mature coins' height o := by
  rw [Mature, h, Mature]

theorem Past.spend {coins : Coins} {height : UInt64} (h : Past coins height)
    (keys : List Outpoint) : Past (Ledger.spend coins keys) height := by
  intro o coin hlookup hcoinbase
  rw [Ledger.lookup_spend] at hlookup
  split at hlookup
  · exact absurd hlookup (by simp)
  · exact h o coin hlookup hcoinbase

theorem Past.effect {coins : Coins} {height : UInt64} (h : Past coins height) (tx : Transaction)
    (coinbase : Bool) : Past (tx.effect height coinbase coins) height := by
  intro o coin hlookup hcoinbase
  by_cases ho : o ∈ tx.outpoints
  · obtain ⟨coin', hlookup', hheight, -⟩ :=
      Transaction.exists_lookup_effect height coinbase coins ho
    rw [hlookup, Option.some_inj] at hlookup'
    rw [hlookup', hheight]
  · rw [Transaction.lookup_effect_of_not_mem height coinbase coins ho] at hlookup
    split at hlookup
    · exact absurd hlookup (by simp)
    · exact h o coin hlookup hcoinbase

/-! ### Which transactions are applied -/

/-- The outputs of a transaction can be kept at all. -/
structure Transaction.Placeable (tx : Transaction) : Prop where
  addresses : ∀ out ∈ tx.outputs, out.address ≠ []
  hash : tx.outputs ≠ [] → tx.txHash ≠ []
  count : tx.outputs.length ≤ 2 ^ 31

theorem toInt_ofNat_nonneg {n : ℕ} (h : n ≤ 2 ^ 31) :
    0 ≤ (Int32.ofNat n).toInt ↔ n < 2 ^ 31 := by
  rcases Nat.lt_or_eq_of_le h with hlt | rfl
  · rw [Int32.toInt_ofNat_of_lt hlt]
    exact ⟨fun _ => hlt, fun _ => Int.natCast_nonneg n⟩
  · decide

theorem ofNat_injective {m n : ℕ} (hm : m < 2 ^ 31) (hn : n < 2 ^ 31)
    (h : Int32.ofNat m = Int32.ofNat n) : m = n := by
  have hint := congrArg Int32.toInt h
  rw [Int32.toInt_ofNat_of_lt hm, Int32.toInt_ofNat_of_lt hn] at hint
  exact Int.ofNat_inj.1 hint

theorem Transaction.nodup_outpoints {tx : Transaction} (h : tx.outputs.length ≤ 2 ^ 31) :
    tx.outpoints.Nodup := by
  refine List.Nodup.map_on (fun i hi j hj heq => ?_) List.nodup_range
  rw [List.mem_range] at hi hj
  exact ofNat_injective (by omega) (by omega) (congrArg Prod.snd heq)

/-- **The transaction fits the unspent outputs.** -/
structure Transaction.Fits (tx : Transaction) (coins : Coins) (height : UInt64) : Prop where
  distinct : tx.spent.Nodup
  mature : ∀ o ∈ tx.spent, Mature coins height o
  placeable : tx.Placeable
  fresh : ∀ o ∈ tx.outpoints, o ∈ coins → o ∈ tx.spent

namespace Blockchain

variable {U : UtxoSet} {cfg : Config} {height : UInt64} {st : U.State × AccountDB}

theorem coins_forEach_spendInput {inputs : List TxInput}
    (h : (forEach (spendInput height) inputs st).1 = true) :
    U.coins (forEach (spendInput height) inputs st).2.1 =
        Ledger.spend (U.coins st.1) (inputs.map TxInput.outpoint) ∧
      (forEach (spendInput height) inputs st).2.2 = st.2 := by
  induction inputs generalizing st with
  | nil => exact ⟨rfl, rfl⟩
  | cons input inputs ih =>
      obtain ⟨hspend, hrest⟩ := forEach_cons_fst h
      obtain ⟨hcoins, hdb⟩ := ih hrest
      have hstep : U.coins (spendInput height input st).2.1 =
          (U.coins st.1).erase input.outpoint := U.coins_spendUTXO_true hspend
      rw [forEach_cons_true hspend, hcoins, hstep, List.map_cons, Ledger.spend_cons]
      exact ⟨rfl, hdb⟩

theorem forEach_spendInput_of {inputs : List TxInput}
    (hdistinct : (inputs.map TxInput.outpoint).Nodup)
    (hmature : ∀ o ∈ inputs.map TxInput.outpoint, Mature (U.coins st.1) height o) :
    (forEach (spendInput height) inputs st).1 = true := by
  induction inputs generalizing st with
  | nil => rfl
  | cons input inputs ih =>
      obtain ⟨hnew, hdistinct⟩ := List.nodup_cons.1 hdistinct
      obtain ⟨coin, hlookup, hold⟩ := hmature input.outpoint List.mem_cons_self
      have hspend : (spendInput height input st).1 = true :=
        U.spendUTXO_present st.1 input.prevTxHash input.outputIndex height coin hlookup hold
      have hstep : U.coins (spendInput height input st).2.1 =
          (U.coins st.1).erase input.outpoint := U.coins_spendUTXO_true hspend
      rw [forEach_cons_true hspend]
      refine ih hdistinct fun o ho => ?_
      have hne : o ≠ input.outpoint := fun heq => hnew (heq ▸ ho)
      have hlookup : (U.coins (spendInput height input st).2.1).lookup o =
          (U.coins st.1).lookup o := by rw [hstep, Finmap.lookup_erase_ne hne]
      exact (mature_congr hlookup).2 (hmature o (List.mem_cons_of_mem _ ho))

theorem mem_of_forEach_spendInput {inputs : List TxInput}
    (h : (forEach (spendInput height) inputs st).1 = true) :
    (inputs.map TxInput.outpoint).Nodup ∧
      ∀ o ∈ inputs.map TxInput.outpoint, o ∈ U.coins st.1 := by
  induction inputs generalizing st with
  | nil => exact ⟨List.nodup_nil, fun o ho => absurd ho List.not_mem_nil⟩
  | cons input inputs ih =>
      obtain ⟨hspend, hrest⟩ := forEach_cons_fst h
      have hstep : U.coins (spendInput height input st).2.1 =
          (U.coins st.1).erase input.outpoint := U.coins_spendUTXO_true hspend
      obtain ⟨hdistinct, hmem⟩ := ih hrest
      rw [hstep] at hmem
      refine ⟨List.nodup_cons.2 ⟨fun hagain => Finmap.notMem_erase_self (hmem _ hagain),
        hdistinct⟩, fun o ho => ?_⟩
      rcases List.mem_cons.1 ho with rfl | ho
      · exact U.mem_of_spendUTXO hspend
      · exact (Finmap.mem_erase.1 (hmem o ho)).2

theorem mature_of_forEach_spendInput {inputs : List TxInput} (hpast : Past (U.coins st.1) height)
    (h : (forEach (spendInput height) inputs st).1 = true) :
    ∀ o ∈ inputs.map TxInput.outpoint, Mature (U.coins st.1) height o := by
  induction inputs generalizing st with
  | nil => exact fun o ho => absurd ho List.not_mem_nil
  | cons input inputs ih =>
      obtain ⟨hspend, hrest⟩ := forEach_cons_fst h
      have hstep : U.coins (spendInput height input st).2.1 =
          Ledger.spend (U.coins st.1) [input.outpoint] := U.coins_spendUTXO_true hspend
      have hmature := ih (by rw [hstep]; exact hpast.spend _) hrest
      intro o ho
      rcases List.mem_cons.1 ho with rfl | ho
      · obtain ⟨coin, hlookup⟩ := Finmap.mem_iff.1 (U.mem_of_spendUTXO hspend)
        refine ⟨coin, hlookup, ?_⟩
        by_contra hnot
        rw [not_or, not_or, Bool.not_eq_false, Nat.not_le] at hnot
        have himmature := U.spendUTXO_immature st.1 _ _ height coin hlookup hnot.1
          (hpast _ coin hlookup hnot.1) hnot.2.1 hnot.2.2
        change (U.spendUTXO st.1 input.prevTxHash input.outputIndex height).1 = true at hspend
        rw [himmature] at hspend
        exact Bool.noConfusion hspend
      · obtain ⟨coin, hlookup, hold⟩ := hmature o ho
        rw [hstep, Ledger.lookup_spend] at hlookup
        split at hlookup
        · exact absurd hlookup (by simp)
        · exact ⟨coin, hlookup, hold⟩

theorem coins_forEach_addOutput {coinbase : Bool} {hash : Str} {outputs : List (TxOutput × ℕ)}
    (h : (forEach (addOutput cfg height coinbase hash) outputs st).1 = true) :
    U.coins (forEach (addOutput cfg height coinbase hash) outputs st).2.1 =
      Ledger.create (U.coins st.1) (createdFrom hash height coinbase outputs) := by
  induction outputs generalizing st with
  | nil => rfl
  | cons out outputs ih =>
      obtain ⟨hadd, hrest⟩ := forEach_cons_fst h
      rw [forEach_cons_true hadd, ih hrest, coins_addOutput hadd]
      rfl

theorem forEach_addOutput_iff {coinbase : Bool} {hash : Str} {outputs : List TxOutput} {k : ℕ}
    (hk : k ≤ 2 ^ 31) :
    (forEach (addOutput cfg height coinbase hash) (outputs.zipIdx k) st).1 = true ↔
      (∀ out ∈ outputs, out.address ≠ []) ∧ (outputs ≠ [] → hash ≠ []) ∧
        k + outputs.length ≤ 2 ^ 31 ∧
        ∀ i < outputs.length, (hash, Int32.ofNat (k + i)) ∉ U.coins st.1 := by
  induction outputs generalizing k st with
  | nil => simpa using hk
  | cons out outputs ih =>
      have hadd : (addOutput cfg height coinbase hash (out, k) st).1 = true ↔
          (hash, Int32.ofNat k) ∉ U.coins st.1 ∧ out.address ≠ [] ∧ hash ≠ [] ∧ k < 2 ^ 31 := by
        rw [← toInt_ofNat_nonneg hk]
        exact U.addUTXO_fst st.1 out hash (Int32.ofNat k) height coinbase
      rw [List.zipIdx_cons]
      cases hok : (addOutput cfg height coinbase hash (out, k) st).1 with
      | false =>
          rw [forEach_cons_false hok, hok]
          refine ⟨fun h => Bool.noConfusion h, ?_⟩
          rintro ⟨haddresses, hhash, hcount, hfresh⟩
          have hlt : k < 2 ^ 31 := by
            rw [List.length_cons] at hcount
            omega
          rw [hadd.2 ⟨hfresh 0 (by simp), haddresses out List.mem_cons_self,
            hhash (List.cons_ne_nil _ _), hlt⟩] at hok
          exact Bool.noConfusion hok
      | true =>
          obtain ⟨habsent, haddress, hhash, hlt⟩ := hadd.1 hok
          rw [forEach_cons_true hok, ih hlt, coins_addOutput hok]
          simp only [List.mem_cons, forall_eq_or_imp, List.length_cons, Finmap.mem_insert, not_or]
          constructor
          · rintro ⟨haddresses, -, hcount, hfresh⟩
            refine ⟨⟨haddress, haddresses⟩, fun _ => hhash, by omega, fun i hi => ?_⟩
            cases i with
            | zero => exact habsent
            | succ i =>
                have hshift : k + (i + 1) = k + 1 + i := by omega
                rw [hshift]
                exact (hfresh i (by omega)).2
          · rintro ⟨⟨-, haddresses⟩, -, hcount, hfresh⟩
            refine ⟨haddresses, fun _ => hhash, by omega, fun i hi => ⟨fun heq => ?_, ?_⟩⟩
            · have hindex := ofNat_injective (by omega) hlt (congrArg Prod.snd heq)
              omega
            · have hshift : k + (i + 1) = k + 1 + i := by omega
              have hnext := hfresh (i + 1) (by omega)
              rwa [hshift] at hnext

/-- **The effect** of a transaction that was applied. -/
theorem coins_applyTransaction {tx : Transaction × ℕ}
    (h : (applyTransaction cfg height tx st).1 = true) :
    U.coins (applyTransaction cfg height tx st).2.1 =
      tx.1.effect height (tx.2 == 0) (U.coins st.1) := by
  simp only [applyTransaction] at h ⊢
  cases hspend : (forEach (spendInput height) tx.1.inputs st).1 with
  | false =>
      rw [hspend, if_neg Bool.false_ne_true, hspend] at h
      exact Bool.noConfusion h
  | true =>
      rw [hspend, if_pos rfl] at h
      rw [if_pos rfl, coins_forEach_addOutput h, (coins_forEach_spendInput hspend).1]
      rfl

theorem applyTransaction_fst_iff {tx : Transaction × ℕ} :
    (applyTransaction cfg height tx st).1 = true ↔
      (forEach (spendInput height) tx.1.inputs st).1 = true ∧
        tx.1.Placeable ∧ ∀ o ∈ tx.1.outpoints, o ∈ U.coins st.1 → o ∈ tx.1.spent := by
  simp only [applyTransaction]
  cases hspend : (forEach (spendInput height) tx.1.inputs st).1 with
  | false =>
      rw [if_neg Bool.false_ne_true, hspend]
      exact ⟨fun h => Bool.noConfusion h, fun h => Bool.noConfusion h.1⟩
  | true =>
      rw [if_pos rfl, forEach_addOutput_iff (Nat.zero_le _), (coins_forEach_spendInput hspend).1]
      have hfresh : (∀ i < tx.1.outputs.length, (tx.1.txHash, Int32.ofNat (0 + i)) ∉
          Ledger.spend (U.coins st.1) (tx.1.inputs.map TxInput.outpoint)) ↔
          ∀ o ∈ tx.1.outpoints, o ∈ U.coins st.1 → o ∈ tx.1.spent := by
        simp only [Transaction.outpoints, List.forall_mem_map, List.mem_range, Nat.zero_add,
          Ledger.mem_spend, not_and_not_right]
        rfl
      rw [hfresh, Nat.zero_add]
      constructor
      · rintro ⟨haddresses, hhash, hcount, hfree⟩
        exact ⟨rfl, ⟨haddresses, hhash, hcount⟩, hfree⟩
      · rintro ⟨-, ⟨haddresses, hhash, hcount⟩, hfree⟩
        exact ⟨haddresses, hhash, hcount, hfree⟩

/-- **A transaction that fits is applied.** -/
theorem applyTransaction_of_fits {tx : Transaction × ℕ} (h : tx.1.Fits (U.coins st.1) height) :
    (applyTransaction cfg height tx st).1 = true :=
  applyTransaction_fst_iff.2 ⟨forEach_spendInput_of h.distinct h.mature, h.placeable, h.fresh⟩

/-- **What is applied fits**, unless there are coinbases of later blocks. -/
theorem fits_of_applyTransaction {tx : Transaction × ℕ} (hpast : Past (U.coins st.1) height)
    (h : (applyTransaction cfg height tx st).1 = true) : tx.1.Fits (U.coins st.1) height := by
  obtain ⟨hspend, hplaceable, hfresh⟩ := applyTransaction_fst_iff.1 h
  exact ⟨(mem_of_forEach_spendInput hspend).1, mature_of_forEach_spendInput hpast hspend,
    hplaceable, hfresh⟩

end Blockchain

end Node
