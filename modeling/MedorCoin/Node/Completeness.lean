/-
**Which validated transactions can be applied.**

The validation looks at the inputs of all transactions but the first, and at no output; it asks
whether an output is unspent, not whether it may be spent.  So what is validated may still fail when
it is applied.  It does not exactly if the first transaction fits the unspent outputs and every
other one fits what is left out by the validation: its outputs can be kept and are new, and what it
spends is old enough.

Main definitions:

* `Node.Transaction.FitsBehind` — what the validation leaves out, of a transaction behind others;
* `Node.Applicable` — the same of a list of transactions;
* `Node.Behind` — the unspent outputs behind the first transactions of a validated list.

Main results:

* `Node.Behind.fits_iff` — behind others, a validated transaction fits exactly if it meets what is
  left out;
* `Node.Blockchain.validated_applies` — **a validated list is applied exactly if it is applicable**;
* `Node.Blockchain.validated_applies_fails` — a block that is mined and written, and then fails.
-/

import MedorCoin.Node.Effect
import MedorCoin.Node.FailedBlock

set_option autoImplicit false

namespace Node

open Cpp

/-- **What the validation leaves out** of a transaction that stands behind others: its outputs can
be kept; what it spends may be spent at the height, or was spent by the first transaction and
created again in between; what it creates is not there any more. -/
structure Transaction.FitsBehind (tx : Transaction) (coins : Coins) (height : UInt64)
    (first : Transaction) (before : List Transaction) : Prop where
  placeable : tx.Placeable
  mature : ∀ o ∈ tx.spent, (o ∉ first.spent ∧ Mature coins height o) ∨
    (o ∈ first.spent ∧ (o ∈ before.flatMap Transaction.outpoints ∨
      (height = rollbackHeight ∧ o ∈ first.outpoints)))
  fresh : ∀ o ∈ tx.outpoints, o ∈ coins →
    o ∈ (first :: before).flatMap Transaction.spent ∨ o ∈ tx.spent

/-- **What the validation leaves out** of a list of transactions. -/
def Applicable (coins : Coins) (height : UInt64) : List Transaction → Prop
  | [] => True
  | first :: rest => first.Fits coins height ∧ ∀ before tx after,
      rest = before ++ tx :: after → tx.FitsBehind coins height first before

/-! ### What the validation establishes -/

/-- The facts on inputs and hashes that the validation establishes. -/
structure Validated (coins : Coins) (first : Transaction) (rest : List Transaction) : Prop where
  present : ∀ tx ∈ rest, ∀ o ∈ tx.spent, o ∈ coins
  distinct : (rest.flatMap Transaction.spent).Nodup
  hashes : ∀ before tx after, rest = before ++ tx :: after →
    ∀ tx' ∈ first :: before, tx'.txHash ≠ tx.txHash

theorem nodup_spent {txs : List Transaction} (h : (txs.flatMap Transaction.spentKeys).Nodup) :
    (txs.flatMap Transaction.spent).Nodup := by
  have hkeys : txs.flatMap Transaction.spentKeys =
      (txs.flatMap Transaction.inputs).map outpointKey := List.map_flatMap.symm
  have hspent : txs.flatMap Transaction.spent =
      (txs.flatMap Transaction.inputs).map TxInput.outpoint := List.map_flatMap.symm
  rw [hkeys] at h
  rw [hspent]
  exact nodup_outpoints h

theorem txHash_ne {txs before after : List Transaction} {tx tx' : Transaction}
    (h : hasDuplicateTxInBlock txs = false) (htxs : txs = before ++ tx :: after)
    (hhash : tx.txHash ≠ []) (htx' : tx' ∈ before) : tx'.txHash ≠ tx.txHash := by
  intro heq
  rw [hasDuplicateTxInBlock, Bool.not_eq_false', decide_eq_true_eq, htxs, List.map_append,
    List.filter_append, List.nodup_append] at h
  have hfirst : tx.txHash ∈ (before.map Transaction.txHash).filter (· != []) :=
    List.mem_filter.2 ⟨heq ▸ List.mem_map_of_mem htx', bne_iff_ne.2 hhash⟩
  have hsecond : tx.txHash ∈ ((tx :: after).map Transaction.txHash).filter (· != []) :=
    List.mem_filter.2 ⟨List.mem_map_of_mem List.mem_cons_self, bne_iff_ne.2 hhash⟩
  exact h.2.2 _ hfirst _ hsecond rfl

theorem Blockchain.validated {U : UtxoSet} {E : Secp256k1} {s : Blockchain U} {now : UInt64}
    {first : Transaction} {rest : List Transaction}
    (h : s.validateTransactions E now (first :: rest) = true) :
    Validated (U.coins s.utxoSet) first rest := by
  obtain ⟨hduplicate, -, hchecked, hdistinct⟩ := validateTransactions_cons.1 h
  refine ⟨fun tx htx o ho => ?_, nodup_spent hdistinct, ?_⟩
  · obtain ⟨input, hinput, rfl⟩ := List.mem_map.1 ho
    obtain ⟨coin, hlookup, -⟩ := (hchecked tx htx).inputs input hinput
    exact Finmap.mem_iff.2 ⟨coin, hlookup⟩
  · rintro before tx after rfl tx' htx'
    have hlength := (hchecked tx (by simp)).valid
    have hhash : tx.txHash ≠ [] := fun hnil => by
      rw [hnil] at hlength
      exact absurd hlength (by decide)
    exact txHash_ne hduplicate rfl hhash htx'

/-! ### Behind the first transactions -/

/-- **The unspent outputs behind the first transactions**: which of them may be spent, and which
there are, in terms of those before the block. -/
structure Behind (coins : Coins) (height : UInt64) (first : Transaction)
    (before : List Transaction) (now : Coins) : Prop where
  mature : ∀ o ∉ before.flatMap Transaction.spent, Mature now height o ↔
    o ∈ before.flatMap Transaction.outpoints ∨ (height = rollbackHeight ∧ o ∈ first.outpoints) ∨
      (o ∉ first.outpoints ∧ o ∉ first.spent ∧ Mature coins height o)
  mem : ∀ o ∉ (first :: before).flatMap Transaction.outpoints, o ∈ now ↔
    o ∈ coins ∧ o ∉ (first :: before).flatMap Transaction.spent
  fresh : ∀ o ∈ (first :: before).flatMap Transaction.outpoints, o ∈ coins →
    o ∈ (first :: before).flatMap Transaction.spent

variable {coins now : Coins} {height : UInt64} {first tx : Transaction}
  {before after rest : List Transaction}

/-- Behind the first transaction, if it fits. -/
theorem Transaction.Fits.behind (h : first.Fits coins height) :
    Behind coins height first [] (first.effect height true coins) where
  mature := by
    intro o _
    rw [List.flatMap_nil]
    by_cases ho : o ∈ first.outpoints
    · obtain ⟨coin, hlookup, hheight, hcoinbase⟩ := Transaction.exists_lookup_effect height true
        coins ho
      constructor
      · rintro ⟨coin', hlookup', hold⟩
        rw [hlookup, Option.some_inj] at hlookup'
        obtain rfl := hlookup'
        rw [hcoinbase, hheight] at hold
        rcases hold with hold | hold | hold
        · exact Bool.noConfusion hold
        · exact absurd hold (by rw [coinbaseMaturity]; omega)
        · exact Or.inr (Or.inl ⟨hold, ho⟩)
      · rintro (hnil | ⟨hrollback, -⟩ | ⟨hnot, -⟩)
        · exact absurd hnil List.not_mem_nil
        · exact ⟨coin, hlookup, Or.inr (Or.inr hrollback)⟩
        · exact absurd ho hnot
    · have hlookup := Transaction.lookup_effect_of_not_mem height true coins ho
      by_cases hspent : o ∈ first.spent
      · rw [if_pos hspent] at hlookup
        constructor
        · rintro ⟨coin, hcoin, -⟩
          rw [hlookup] at hcoin
          exact absurd hcoin (by simp)
        · rintro (hnil | ⟨-, hmem⟩ | ⟨-, hnot, -⟩)
          · exact absurd hnil List.not_mem_nil
          · exact absurd hmem ho
          · exact absurd hspent hnot
      · rw [if_neg hspent] at hlookup
        rw [mature_congr hlookup]
        constructor
        · exact fun hmature => Or.inr (Or.inr ⟨ho, hspent, hmature⟩)
        · rintro (hnil | ⟨-, hmem⟩ | ⟨-, -, hmature⟩)
          · exact absurd hnil List.not_mem_nil
          · exact absurd hmem ho
          · exact hmature
  mem := by
    intro o ho
    rw [List.flatMap_singleton] at ho ⊢
    rw [Transaction.mem_effect]
    tauto
  fresh := by
    intro o ho
    rw [List.flatMap_singleton] at ho ⊢
    exact h.fresh o ho

theorem Behind.concat (h : Behind coins height first before now)
    (hfresh : ∀ o ∈ tx.outpoints, o ∈ coins →
      o ∈ (first :: before).flatMap Transaction.spent ∨ o ∈ tx.spent) :
    Behind coins height first (before ++ [tx]) (tx.effect height false now) where
  mature := by
    intro o ho
    rw [List.flatMap_append, List.flatMap_singleton, List.mem_append, not_or] at ho
    rw [List.flatMap_append, List.flatMap_singleton, List.mem_append]
    by_cases hcreated : o ∈ tx.outpoints
    · obtain ⟨coin, hlookup, -, hcoinbase⟩ := Transaction.exists_lookup_effect height false now
        hcreated
      exact ⟨fun _ => Or.inl (Or.inr hcreated), fun _ => ⟨coin, hlookup, Or.inl hcoinbase⟩⟩
    · have hlookup := Transaction.lookup_effect_of_not_mem height false now hcreated
      rw [if_neg ho.2] at hlookup
      rw [mature_congr hlookup, h.mature o ho.1]
      tauto
  mem := by
    intro o ho
    rw [← List.cons_append, List.flatMap_append, List.flatMap_singleton, List.mem_append,
      not_or] at ho
    rw [← List.cons_append, List.flatMap_append, List.flatMap_singleton, List.mem_append,
      Transaction.mem_effect, h.mem o ho.1]
    tauto
  fresh := by
    intro o ho hcoins
    rw [← List.cons_append, List.flatMap_append, List.flatMap_singleton, List.mem_append] at ho
    rw [← List.cons_append, List.flatMap_append, List.flatMap_singleton, List.mem_append]
    rcases ho with ho | ho
    · exact Or.inl (h.fresh o ho hcoins)
    · exact hfresh o ho hcoins

/-- **Behind others, a validated transaction fits exactly if it meets what is left out.** -/
theorem Behind.fits_iff (hvalid : Validated coins first rest) (hrest : rest = before ++ tx :: after)
    (h : Behind coins height first before now) :
    tx.Fits now height ↔ tx.FitsBehind coins height first before := by
  subst hrest
  -- the validation knows that what is spent is there, and not spent by the others
  have hpresent := hvalid.present tx (by simp)
  have hnodup := hvalid.distinct
  rw [List.flatMap_append, List.flatMap_cons, List.nodup_append, List.nodup_append] at hnodup
  obtain ⟨-, ⟨hdistinct, -, -⟩, hdisjoint⟩ := hnodup
  have hbefore : ∀ o ∈ tx.spent, o ∉ before.flatMap Transaction.spent := fun o ho hmem =>
    hdisjoint o hmem o (List.mem_append_left _ ho) rfl
  -- what it creates was not created before
  have hnew : ∀ o ∈ tx.outpoints, o ∉ (first :: before).flatMap Transaction.outpoints := by
    intro o ho hmem
    obtain ⟨tx', htx', ho'⟩ := List.mem_flatMap.1 hmem
    refine hvalid.hashes before tx after rfl tx' htx' ?_
    rw [← Transaction.fst_of_mem_outpoints ho', Transaction.fst_of_mem_outpoints ho]
  -- what was there and is created again was spent by the first
  have hagain : ∀ o ∈ tx.spent, o ∈ (first :: before).flatMap Transaction.outpoints →
      o ∈ first.spent := by
    intro o ho hmem
    have hspent := h.fresh o hmem (hpresent o ho)
    rw [List.flatMap_cons, List.mem_append] at hspent
    exact hspent.resolve_right (hbefore o ho)
  have hmature : ∀ o ∈ tx.spent, Mature now height o ↔
      ((o ∉ first.spent ∧ Mature coins height o) ∨
        (o ∈ first.spent ∧ (o ∈ before.flatMap Transaction.outpoints ∨
          (height = rollbackHeight ∧ o ∈ first.outpoints)))) := by
    intro o ho
    rw [h.mature o (hbefore o ho)]
    have hback := hagain o ho
    rw [List.flatMap_cons, List.mem_append] at hback
    tauto
  have hfresh : ∀ o ∈ tx.outpoints, (o ∈ now → o ∈ tx.spent) ↔
      (o ∈ coins → o ∈ (first :: before).flatMap Transaction.spent ∨ o ∈ tx.spent) := by
    intro o ho
    rw [h.mem o (hnew o ho)]
    tauto
  constructor
  · intro hfits
    exact ⟨hfits.placeable, fun o ho => (hmature o ho).1 (hfits.mature o ho),
      fun o ho => (hfresh o ho).1 (hfits.fresh o ho)⟩
  · intro hfits
    exact ⟨hdistinct, fun o ho => (hmature o ho).2 (hfits.mature o ho), hfits.placeable,
      fun o ho => (hfresh o ho).2 (hfits.fresh o ho)⟩

namespace Blockchain

variable {U : UtxoSet} {cfg : Config} {st : U.State × AccountDB}

/-- The loop over the transactions behind the first: it succeeds if they all fit, and only then
unless there are coinbases of later blocks. -/
theorem forEach_applyTransaction_behind (cfg : Config) (st : U.State × AccountDB)
    (before after : List Transaction) (hvalid : Validated coins first rest)
    (hrest : rest = before ++ after) (h : Behind coins height first before (U.coins st.1)) (k : ℕ) :
    ((∀ before' tx after', after = before' ++ tx :: after' →
        tx.FitsBehind coins height first (before ++ before')) →
      (forEach (applyTransaction cfg height) (after.zipIdx (k + 1)) st).1 = true) ∧
    (Past (U.coins st.1) height →
      (forEach (applyTransaction cfg height) (after.zipIdx (k + 1)) st).1 = true →
      ∀ before' tx after', after = before' ++ tx :: after' →
        tx.FitsBehind coins height first (before ++ before')) := by
  induction after generalizing before st k with
  | nil => exact ⟨fun _ => rfl, fun _ _ before' tx after' hnil => absurd hnil (by simp)⟩
  | cons tx after ih =>
      have hfits := h.fits_iff hvalid hrest
      have hnext (happly : (applyTransaction cfg height (tx, k + 1) st).1 = true)
          (hbehind : tx.FitsBehind coins height first before) :=
        ih (applyTransaction cfg height (tx, k + 1) st).2 (before ++ [tx])
          (by rw [hrest, List.append_cons])
          (by rw [coins_applyTransaction happly]; exact h.concat hbehind.fresh) (k + 1)
      constructor
      · intro hall
        have hbehind := hall [] tx after rfl
        rw [List.append_nil] at hbehind
        have happly : (applyTransaction cfg height (tx, k + 1) st).1 = true :=
          applyTransaction_of_fits (hfits.2 hbehind)
        rw [List.zipIdx_cons, forEach_cons_true happly]
        refine (hnext happly hbehind).1 fun before' tx' after' hsplit => ?_
        rw [← List.append_cons]
        exact hall (tx :: before') tx' after' (by rw [hsplit, List.cons_append])
      · intro hpast hdone
        rw [List.zipIdx_cons] at hdone
        obtain ⟨happly, hafter⟩ := forEach_cons_fst hdone
        have hbehind := hfits.1 (fits_of_applyTransaction hpast happly)
        have hpast' : Past (U.coins (applyTransaction cfg height (tx, k + 1) st).2.1) height := by
          rw [coins_applyTransaction happly]
          exact hpast.effect _ _
        have hlater := (hnext happly hbehind).2 hpast' hafter
        intro before' tx' after' hsplit
        cases before' with
        | nil =>
            obtain rfl := (List.cons.inj hsplit).1
            rwa [List.append_nil]
        | cons tx'' before' =>
            obtain ⟨rfl, htail⟩ := List.cons.inj hsplit
            rw [List.append_cons]
            exact hlater before' tx' after' htail

/-- **A validated list of transactions is applied exactly if it is applicable**; for the converse
there must be no coinbase of a later block than the height. -/
theorem validated_applies {E : Secp256k1} {s : Blockchain U} {now : UInt64} {block : Block}
    (hvalid : s.validateTransactions E now block.transactions = true) (db : AccountDB) :
    (Applicable (U.coins s.utxoSet) height block.transactions →
      (applyBlockToState s.cfg block height (s.utxoSet, db)).1 = true) ∧
    (Past (U.coins s.utxoSet) height →
      (applyBlockToState s.cfg block height (s.utxoSet, db)).1 = true →
      Applicable (U.coins s.utxoSet) height block.transactions) := by
  rw [applyBlockToState]
  generalize block.transactions = txs at hvalid ⊢
  cases txs with
  | nil => exact ⟨fun _ => rfl, fun _ _ => trivial⟩
  | cons first rest =>
      have hvalidated := validated hvalid
      have hrest (happly : (applyTransaction s.cfg height (first, 0) (s.utxoSet, db)).1 = true)
          (hfits : first.Fits (U.coins s.utxoSet) height) :=
        forEach_applyTransaction_behind s.cfg
          (applyTransaction s.cfg height (first, 0) (s.utxoSet, db)).2 [] rest hvalidated rfl
          (by rw [coins_applyTransaction happly]; exact hfits.behind) 0
      rw [List.zipIdx_cons]
      constructor
      · rintro ⟨hfits, hbehind⟩
        have happly : (applyTransaction s.cfg height (first, 0) (s.utxoSet, db)).1 = true :=
          applyTransaction_of_fits hfits
        rw [forEach_cons_true happly]
        exact (hrest happly hfits).1 hbehind
      · intro hpast hdone
        obtain ⟨happly, hafter⟩ := forEach_cons_fst hdone
        have hfits : first.Fits (U.coins s.utxoSet) height :=
          @fits_of_applyTransaction U s.cfg height (s.utxoSet, db) (first, 0) hpast happly
        have hpast' : Past (U.coins (applyTransaction s.cfg height (first, 0)
            (s.utxoSet, db)).2.1) height := by
          rw [coins_applyTransaction happly]
          exact hpast.effect _ _
        exact ⟨hfits, (hrest happly hfits).2 hpast' hafter⟩

theorem validated_applies_fresh :
    (applyBlockToState sampleEasy.cfg
      { transactions := [{ outputs := [⟨0, str "owner"⟩], txHash := str "t" }] } 0
      (sampleEasy.utxoSet, {})).1 = true := by
  have hvalid : sampleEasy.validateTransactions sampleLibrary 0
      [{ outputs := [⟨0, str "owner"⟩], txHash := str "t" }] = true :=
    validateTransactions_cons.2 ⟨by decide, by decide, by simp, List.nodup_nil⟩
  refine (@validated_applies 0 UtxoSet.ofMap sampleLibrary sampleEasy 0
    { transactions := [{ outputs := [⟨0, str "owner"⟩], txHash := str "t" }] } hvalid _).1 ?_
  refine ⟨⟨List.nodup_nil, fun o ho => absurd ho List.not_mem_nil, ⟨by simp [str], by simp [str],
    by decide⟩, fun o _ ho => absurd ho not_mem_coins_fresh⟩, fun before tx after h => ?_⟩
  exact absurd h (by simp)

/-- **A block that is mined and written, and then fails**: the second block of the owner is valid,
but its coinbase creates the outputs of the first one again. -/
theorem validated_applies_fails :
    sampleStarted.validateTransactions sampleLibrary 1001
        (sampleStarted.blockTransactions (sampleOwnerCall 1001)) = true ∧
      sampleStarted.writtenBlock sampleLibrary (sampleOwnerCall 1001) = some sampleSecondBlock ∧
      sampleSecondBlock.transactions = sampleStarted.blockTransactions (sampleOwnerCall 1001) ∧
      (applyBlockToState sampleStarted.cfg sampleSecondBlock sampleStarted.nextHeight
        (sampleStarted.utxoSet, { sampleStarted.accountDB with outcomes := [] })).1 = false := by
  have hwritten := writtenBlock_spec sampleStarted_writtenBlock
  refine ⟨hwritten.valid, sampleStarted_writtenBlock, hwritten.transactions, ?_⟩
  cases happlied : (sampleStarted.applied (sampleOwnerCall 1001) sampleSecondBlock).1 with
  | false => exact happlied
  | true =>
      have hdone := addBlock_of_applied sampleStarted_writtenBlock happlied
      rw [sampleStarted_addBlock] at hdone
      exact absurd (congrArg Prod.fst hdone) (by simp)

end Blockchain

end Node
