/-
**Applying a block to the unspent outputs, and rolling it back.**

Applying a block spends and adds outputs one by one and stops at the first failure; rolling it
back spends every output of the block, and nothing else.  So whatever was applied, none of the
outputs of the block is left afterwards — and what the block had spent is not put back.

Main definitions:

* `Node.Transaction.outpoints`, `Node.Block.outpoints` — the outputs a block creates.

Main results:

* `Node.Blockchain.mem_coins_apply` — an application adds outputs of the block only;
* `Node.Blockchain.lookup_rollback` — **what a rollback leaves**: everything but the outputs of the
  block;
* `Node.Blockchain.apply_blank` — a block that spends and creates nothing;
* `Node.Blockchain.apply_coinbase` — **a block with a coinbase alone** can be applied exactly if its
  two outputs are not there yet.
-/

import MedorCoin.Node.Validation

set_option autoImplicit false

namespace Node

open Cpp

/-- The outputs a transaction creates. -/
def Transaction.outpoints (tx : Transaction) : List Outpoint :=
  (List.range tx.outputs.length).map fun i => (tx.txHash, Int32.ofNat i)

/-- The outputs a block creates. -/
def Block.outpoints (b : Block) : List Outpoint := b.transactions.flatMap Transaction.outpoints

theorem Transaction.mem_outpoints {tx : Transaction} {i : ℕ} (h : i < tx.outputs.length) :
    (tx.txHash, Int32.ofNat i) ∈ tx.outpoints :=
  List.mem_map.2 ⟨i, List.mem_range.2 h, rfl⟩

theorem Transaction.fst_of_mem_outpoints {tx : Transaction} {o : Outpoint}
    (h : o ∈ tx.outpoints) : o.1 = tx.txHash := by
  obtain ⟨i, -, rfl⟩ := List.mem_map.1 h
  rfl

theorem Block.mem_outpoints {b : Block} {o : Outpoint} :
    o ∈ b.outpoints ↔ ∃ tx ∈ b.transactions, o ∈ tx.outpoints := List.mem_flatMap

namespace Blockchain

variable {U : UtxoSet} {cfg : Config} {height : UInt64} {block : Block}

/-! ### What an application adds -/

theorem mem_coins_spendInputs {inputs : List TxInput} {st : U.State × AccountDB} {o : Outpoint}
    (h : o ∈ U.coins (forEach (spendInput height) inputs st).2.1) : o ∈ U.coins st.1 := by
  have hinvariant := forEach_invariant (spendInput (U := U) height)
    (fun st' => ∀ o ∈ U.coins st'.1, o ∈ U.coins st.1) (l := inputs) (s := st)
    (fun input _ st' ih o ho => ih o (U.mem_coins_spend ho)) (fun o ho => ho)
  exact hinvariant o h

theorem mem_coins_applyTransaction {tx : Transaction × ℕ} {st : U.State × AccountDB}
    {o : Outpoint} (h : o ∈ U.coins (applyTransaction cfg height tx st).2.1) :
    o ∈ U.coins st.1 ∨ o ∈ tx.1.outpoints := by
  simp only [applyTransaction] at h
  split at h
  · refine forEach_invariant (addOutput (U := U) cfg height (tx.2 == 0) tx.1.txHash)
      (fun st' => ∀ o ∈ U.coins st'.1, o ∈ U.coins st.1 ∨ o ∈ tx.1.outpoints) ?_ ?_ o h
    · rintro ⟨out, i⟩ hmem st' ih o ho
      rcases U.mem_coins_add ho with ho | rfl
      · exact ih o ho
      · have hlt := List.snd_lt_of_mem_zipIdx hmem
        exact Or.inr (Transaction.mem_outpoints (by simpa using hlt))
    · exact fun o ho => Or.inl (mem_coins_spendInputs ho)
  · exact Or.inl (mem_coins_spendInputs h)

/-- **Applying a block adds outputs of the block only**, whether it fails or not. -/
theorem mem_coins_apply {st : U.State × AccountDB} {o : Outpoint}
    (h : o ∈ U.coins (applyBlockToState cfg block height st).2.1) :
    o ∈ U.coins st.1 ∨ o ∈ block.outpoints := by
  refine forEach_invariant (applyTransaction (U := U) cfg height)
    (fun st' => ∀ o ∈ U.coins st'.1, o ∈ U.coins st.1 ∨ o ∈ block.outpoints) ?_
    (fun o ho => Or.inl ho) o h
  intro tx hmem st' ih o ho
  rcases mem_coins_applyTransaction ho with ho | ho
  · exact ih o ho
  · exact Or.inr (Block.mem_outpoints.2 ⟨tx.1, List.fst_mem_of_mem_zipIdx hmem, ho⟩)

/-! ### What a rollback leaves -/

theorem lookup_foldl_spend (h : Str) (indices : List ℕ) (utxo : U.State) (o : Outpoint) :
    (U.coins (indices.foldl
      (fun utxo i => (U.spendUTXO utxo h (Int32.ofNat i) rollbackHeight).2) utxo)).lookup o =
      if o ∈ indices.map (fun i => (h, Int32.ofNat i)) then none else (U.coins utxo).lookup o := by
  induction indices generalizing utxo with
  | nil => rfl
  | cons i indices ih =>
      rw [List.foldl_cons, ih, U.coins_spendUTXO_max, List.map_cons]
      by_cases hrest : o ∈ indices.map fun i => (h, Int32.ofNat i)
      · rw [if_pos hrest, if_pos (List.mem_cons_of_mem _ hrest)]
      · rw [if_neg hrest]
        by_cases hi : o = (h, Int32.ofNat i)
        · rw [hi, Finmap.lookup_erase, if_pos List.mem_cons_self]
        · have hnot : o ∉ (h, Int32.ofNat i) :: indices.map fun i => (h, Int32.ofNat i) :=
            fun hmem => (List.mem_cons.1 hmem).elim hi hrest
          rw [Finmap.lookup_erase_ne hi, if_neg hnot]

theorem lookup_foldl_rollback (txs : List Transaction) (utxo : U.State) (o : Outpoint) :
    (U.coins (txs.foldl rollbackTransaction utxo)).lookup o =
      if ∃ tx ∈ txs, o ∈ tx.outpoints then none else (U.coins utxo).lookup o := by
  induction txs generalizing utxo with
  | nil => simp
  | cons tx txs ih =>
      have htx : (U.coins (rollbackTransaction utxo tx)).lookup o =
          if o ∈ tx.outpoints then none else (U.coins utxo).lookup o := lookup_foldl_spend _ _ _ _
      rw [List.foldl_cons, ih, htx]
      by_cases hrest : ∃ tx ∈ txs, o ∈ tx.outpoints
      · obtain ⟨tx', htx', ho⟩ := hrest
        rw [if_pos ⟨tx', htx', ho⟩, if_pos ⟨tx', List.mem_cons_of_mem _ htx', ho⟩]
      · rw [if_neg hrest]
        by_cases ho : o ∈ tx.outpoints
        · rw [if_pos ho, if_pos ⟨tx, List.mem_cons_self, ho⟩]
        · have hnot : ¬ ∃ tx' ∈ tx :: txs, o ∈ tx'.outpoints := by
            rintro ⟨tx', htx', ho'⟩
            rcases List.mem_cons.1 htx' with rfl | htx'
            · exact ho ho'
            · exact hrest ⟨tx', htx', ho'⟩
          rw [if_neg ho, if_neg hnot]

/-- **What a rollback leaves**: everything but the outputs of the block. -/
theorem lookup_rollback (utxo : U.State) (o : Outpoint) :
    (U.coins (rollbackBlockFromState block utxo)).lookup o =
      if o ∈ block.outpoints then none else (U.coins utxo).lookup o := by
  rw [rollbackBlockFromState, lookup_foldl_rollback]
  simp only [List.mem_reverse, Block.mem_outpoints]

theorem mem_coins_rollback {st : U.State × AccountDB} {o : Outpoint}
    (h : o ∈ U.coins (rollbackBlockFromState block
      (applyBlockToState cfg block height st).2.1)) :
    o ∈ U.coins st.1 ∧ o ∉ block.outpoints := by
  obtain ⟨coin, hlookup⟩ := Finmap.mem_iff.1 h
  rw [lookup_rollback] at hlookup
  split at hlookup
  · exact absurd hlookup (by simp)
  · next hnot =>
      rcases mem_coins_apply (Finmap.mem_iff.2 ⟨coin, hlookup⟩) with ho | ho
      · exact ⟨ho, hnot⟩
      · exact absurd ho hnot

/-! ### Two kinds of blocks -/

theorem apply_blank (h : ∀ tx ∈ block.transactions, tx.inputs = [] ∧ tx.outputs = [])
    (st : U.State × AccountDB) : applyBlockToState cfg block height st = (true, st) := by
  have hlist (l : List (Transaction × ℕ)) (hl : ∀ tx ∈ l, tx.1.inputs = [] ∧ tx.1.outputs = []) :
      forEach (applyTransaction (U := U) cfg height) l st = (true, st) := by
    induction l with
    | nil => rfl
    | cons tx l ih =>
        obtain ⟨hinputs, houtputs⟩ := hl tx List.mem_cons_self
        have htx : applyTransaction (U := U) cfg height tx st = (true, st) := by
          simp only [applyTransaction, hinputs, houtputs, forEach_nil, List.zipIdx_nil, if_true]
        rw [forEach_cons, htx, if_pos rfl]
        exact ih fun tx' htx' => hl tx' (List.mem_cons_of_mem _ htx')
  exact hlist _ fun tx htx => h tx.1 (List.fst_mem_of_mem_zipIdx htx)

theorem coinbaseTx_outpoints (reward : UInt64) (minerAddr ownerAddress : Str) :
    (coinbaseTx reward minerAddr ownerAddress).outpoints =
      [((coinbaseTx reward minerAddr ownerAddress).txHash, 0),
        ((coinbaseTx reward minerAddr ownerAddress).txHash, 1)] := rfl

theorem addOutput_fst {hash : Str} (hhash : hash ≠ []) {out : TxOutput} (hout : out.address ≠ [])
    {i : ℕ} (hi : 0 ≤ (Int32.ofNat i).toInt) {coinbase : Bool} (st : U.State × AccountDB) :
    (addOutput cfg height coinbase hash (out, i) st).1 = true ↔
      (hash, Int32.ofNat i) ∉ U.coins st.1 := by
  rw [addOutput, U.addUTXO_fst]
  exact ⟨fun h => h.1, fun h => ⟨h, hout, hhash, hi⟩⟩

theorem coins_addOutput {hash : Str} {out : TxOutput} {i : ℕ} {coinbase : Bool}
    {st : U.State × AccountDB}
    (h : (addOutput cfg height coinbase hash (out, i) st).1 = true) :
    U.coins (addOutput cfg height coinbase hash (out, i) st).2.1 =
      (U.coins st.1).insert (hash, Int32.ofNat i) ⟨out.value, out.address, height, coinbase⟩ :=
  U.coins_addUTXO_true h

/-- **A block with a coinbase alone** can be applied exactly if its two outputs are not there yet;
they are afterwards.  If it cannot, at most the first of them was added. -/
theorem apply_coinbase {reward : UInt64} {minerAddr ownerAddress : Str}
    (htxs : block.transactions = [coinbaseTx reward minerAddr ownerAddress])
    (hminer : minerAddr ≠ []) (howner : ownerAddress ≠ []) (st : U.State × AccountDB) :
    ((applyBlockToState cfg block height st).1 = true ↔
      ∀ o ∈ block.outpoints, o ∉ U.coins st.1) ∧
    ((applyBlockToState cfg block height st).1 = true →
      ∀ o ∈ block.outpoints, o ∈ U.coins (applyBlockToState cfg block height st).2.1) := by
  have houtpoints : block.outpoints = [((coinbaseTx reward minerAddr ownerAddress).txHash, 0),
      ((coinbaseTx reward minerAddr ownerAddress).txHash, 1)] := by
    rw [Block.outpoints, htxs, List.flatMap_singleton, coinbaseTx_outpoints]
  -- the application is the loop over the two outputs
  have happly : applyBlockToState cfg block height st =
      forEach (addOutput cfg height true (coinbaseTx reward minerAddr ownerAddress).txHash)
        [(⟨reward * 90 / 100, minerAddr⟩, 0), (⟨reward - reward * 90 / 100, ownerAddress⟩, 1)]
        st := by
    rw [applyBlockToState, htxs, List.zipIdx_singleton, forEach_cons]
    simp only [forEach_nil]
    split
    · next h => exact Prod.ext h.symm rfl
    · rfl
  have hhash : (coinbaseTx reward minerAddr ownerAddress).txHash ≠ [] := Keccak.hex_ne_nil _
  rw [happly, houtpoints]
  generalize (coinbaseTx reward minerAddr ownerAddress).txHash = hash at hhash ⊢
  have hfirst : (addOutput cfg height true hash (⟨reward * 90 / 100, minerAddr⟩, 0) st).1 = true ↔
      (hash, (0 : Int32)) ∉ U.coins st.1 := addOutput_fst hhash hminer (by decide) st
  cases hok : (addOutput cfg height true hash (⟨reward * 90 / 100, minerAddr⟩, 0) st).1 with
  | false =>
      rw [forEach_cons_false hok, hok]
      refine ⟨⟨fun h => Bool.noConfusion h, fun h => ?_⟩, fun h => Bool.noConfusion h⟩
      rw [hfirst.2 (h _ List.mem_cons_self)] at hok
      exact Bool.noConfusion hok
  | true =>
      have hcoins := coins_addOutput hok
      have habsent := hfirst.1 hok
      rw [forEach_cons_true hok]
      generalize (addOutput cfg height true hash (⟨reward * 90 / 100, minerAddr⟩, 0) st).2 = st'
        at hcoins
      have hsecond : (addOutput cfg height true hash
          (⟨reward - reward * 90 / 100, ownerAddress⟩, 1) st').1 = true ↔
            (hash, (1 : Int32)) ∉ U.coins st'.1 := addOutput_fst hhash howner (by decide) st'
      have hmem (o : Outpoint) : o ∈ U.coins st'.1 ↔ o = (hash, 0) ∨ o ∈ U.coins st.1 := by
        rw [hcoins]
        exact Finmap.mem_insert
      have hindex : (1 : Int32) ≠ 0 := by decide
      have hne : ((hash, 1) : Outpoint) ≠ (hash, 0) := fun h => hindex (congrArg Prod.snd h)
      rw [hmem] at hsecond
      cases hok' : (addOutput cfg height true hash
          (⟨reward - reward * 90 / 100, ownerAddress⟩, 1) st').1 with
      | false =>
          rw [forEach_cons_false hok', hok']
          refine ⟨⟨fun h => Bool.noConfusion h, fun h => ?_⟩, fun h => Bool.noConfusion h⟩
          rw [hsecond.2 (not_or.2 ⟨hne, h _ (by simp)⟩)] at hok'
          exact Bool.noConfusion hok'
      | true =>
          have hcoins' := coins_addOutput hok'
          rw [forEach_cons_true hok', forEach_nil]
          refine ⟨⟨fun _ => ?_, fun _ => rfl⟩, fun _ => ?_⟩
          · intro o ho
            rcases List.mem_cons.1 ho with rfl | ho
            · exact habsent
            · rw [List.mem_singleton.1 ho]
              exact (not_or.1 (hsecond.1 hok')).2
          · intro o ho
            rw [hcoins', Finmap.mem_insert, hmem]
            rcases List.mem_cons.1 ho with rfl | ho
            · exact Or.inr (Or.inl rfl)
            · exact Or.inl (List.mem_singleton.1 ho)

theorem applied_coinbase {s : Blockchain U} {reward : UInt64} {minerAddr ownerAddress : Str}
    (htxs : block.transactions = [coinbaseTx reward minerAddr ownerAddress])
    (hminer : minerAddr ≠ []) (howner : ownerAddress ≠ []) (c : Call) :
    ((s.applied c block).1 = true ↔ ∀ o ∈ block.outpoints, o ∉ U.coins s.utxoSet) ∧
      ((s.applied c block).1 = true →
        ∀ o ∈ block.outpoints, o ∈ U.coins (s.applied c block).2.1) :=
  apply_coinbase htxs hminer howner _

theorem not_mem_coins_fresh {o : Outpoint} : o ∉ U.coins U.fresh := by
  rw [U.coins_fresh]
  exact Finmap.notMem_empty

end Blockchain

end Node
