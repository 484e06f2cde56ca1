/-
**The values of admitted transactions.**

The pool sums up the outputs that a transaction spends over its list of inputs, and looks for their
keys among those of the other transactions; an output that one transaction names twice is counted
twice and noticed by neither.  The validation of blocks remembers every input, and takes the second
one for a double spend.

Main definitions:

* `Node.Covered` — what the validation of blocks asks of the inputs and values of a transaction;
* `Node.Mempool.ValueRule` — a transaction that got in takes out no more than it puts in, of outputs
  that exist and that no other one spends.

Main results:

* `Node.checked_iff` — the checks of a block split into those of values and those of signatures;
* `Node.Mempool.validateTx_sums` — **what the pool has summed up**;
* `Node.Mempool.valueRule_iff`, `Node.Mempool.admitted_valueRule_iff` — **where the rule holds**;
* `Node.Mempool.not_valueRule` — a transaction that spends one output twice gets in.
-/

import MedorCoin.Node.MempoolAccounting

set_option autoImplicit false

namespace Node

open Cpp Ledger Transition

/-! ### What blocks are asked for -/

/-- What the validation of blocks asks of the inputs and values of a transaction: the outputs it
spends exist, none is spent twice, and they cover its own, in `uint64_t`. -/
structure Covered (coins : Coins) (tx : Transaction) : Prop where
  exist : ∀ input ∈ tx.inputs, input.outpoint ∈ coins
  distinct : (tx.inputs.map outpointKey).Nodup
  covered : tx.outputTotal % 2 ^ 64 ≤ spentValue coins tx % 2 ^ 64

/-- What it asks of the hash and the signature. -/
structure Authentic (E : Secp256k1) (coins : Coins) (tx : Transaction) : Prop where
  valid : tx.txHash.length = 64
  signed : ∀ input ∈ tx.inputs, ∀ coin, coins.lookup input.outpoint = some coin →
    tx.isSigned = true → tx.signedBy E coin.address = true

theorem checked_iff {E : Secp256k1} {coins : Coins} {tx : Transaction} :
    Checked E coins tx ↔ Authentic E coins tx ∧ Covered coins tx := by
  constructor
  · intro h
    refine ⟨⟨h.valid, fun input hinput coin hcoin hsigned => ?_⟩,
      ⟨fun input hinput => ?_, h.distinct, h.covered⟩⟩
    · obtain ⟨coin', hcoin', hby⟩ := h.inputs input hinput
      obtain rfl := Option.some_inj.1 (hcoin.symm.trans hcoin')
      exact hby hsigned
    · obtain ⟨coin, hcoin, -⟩ := h.inputs input hinput
      exact Finmap.lookup_isSome.1 (by rw [hcoin]; rfl)
  · rintro ⟨hauthentic, hcovered⟩
    refine ⟨hauthentic.valid, fun input hinput => ?_, hcovered.distinct, hcovered.covered⟩
    obtain ⟨coin, hcoin⟩ := Option.isSome_iff_exists.1
      (Finmap.lookup_isSome.2 (hcovered.exist input hinput))
    exact ⟨coin, hcoin, hauthentic.signed input hinput coin hcoin⟩

namespace Mempool

variable {P : Platform} {cfg : Config} {s s' : Mempool} {tx : Transaction}

/-! ### Sums -/

theorem addChecked_eq_some {sum value r : UInt64} (h : addChecked sum value = some r) :
    r.toNat = sum.toNat + value.toNat := by
  rw [addChecked] at h
  split_ifs at h with hover
  obtain rfl := Option.some_inj.1 h
  rw [gt_max_sub_iff rfl, Nat.not_le] at hover
  exact toNat_add_of_lt hover

theorem foldlM_addChecked {α : Type} (value : α → Option UInt64) {l : List α} {sum r : UInt64}
    (h : (l.foldlM (fun sum a => do
      let v ← value a
      addChecked sum v) sum) = some r) :
    (∀ a ∈ l, (value a).isSome) ∧
      r.toNat = sum.toNat + (l.map fun a => ((value a).getD 0).toNat).sum := by
  induction l generalizing sum with
  | nil =>
      obtain rfl := Option.some_inj.1 h
      exact ⟨fun a ha => absurd ha List.not_mem_nil, rfl⟩
  | cons a l ih =>
      rw [List.foldlM_cons] at h
      obtain ⟨sum', hsum', h⟩ := Option.bind_eq_some_iff.1 h
      obtain ⟨v, hv, hadd⟩ := Option.bind_eq_some_iff.1 hsum'
      obtain ⟨hsome, hr⟩ := ih h
      refine ⟨fun b hb => ?_, ?_⟩
      · rcases List.mem_cons.1 hb with rfl | hb
        · rw [hv]
          rfl
        · exact hsome b hb
      · rw [hr, addChecked_eq_some hadd, List.map_cons, List.sum_cons, hv, Option.getD_some,
          Nat.add_assoc]

/-- The values of the outputs that are spent, each as often as it is named. -/
def namedValue (coins : Coins) (tx : Transaction) : ℕ :=
  (tx.inputs.map fun input => coinValue coins input.outpoint).sum

theorem sum_inputs {U : UtxoSet} {utxo : U.State} {sum : UInt64}
    (h : tx.inputs.foldlM (fun sum input => do
      let coin ← U.getUTXO utxo input.prevTxHash input.outputIndex
      addChecked sum coin.value) 0 = some sum) :
    (∀ input ∈ tx.inputs, input.outpoint ∈ U.coins utxo) ∧
      sum.toNat = namedValue (U.coins utxo) tx := by
  have hstep (sum : UInt64) (input : TxInput) :
      (do
        let coin ← U.getUTXO utxo input.prevTxHash input.outputIndex
        addChecked sum coin.value) =
      (do
        let v ← ((U.coins utxo).lookup input.outpoint).map Utxo.value
        addChecked sum v) := by
    rw [U.getUTXO_eq, TxInput.outpoint]
    cases (U.coins utxo).lookup (input.prevTxHash, input.outputIndex) with
    | none => rfl
    | some coin => rfl
  simp only [hstep] at h
  obtain ⟨hsome, hsum⟩ := foldlM_addChecked _ h
  refine ⟨fun input hinput => ?_, ?_⟩
  · have hlookup := hsome input hinput
    rw [Option.isSome_map] at hlookup
    exact Finmap.lookup_isSome.1 hlookup
  · rw [hsum, UInt64.toNat_zero, Nat.zero_add, namedValue]
    refine congrArg List.sum (List.map_congr_left fun input _ => ?_)
    rw [coinValue]
    cases (U.coins utxo).lookup input.outpoint with
    | none => rfl
    | some coin => rfl

theorem exists_sums {getUTXO : Str → Int32 → Option Utxo} {baseFee : UInt64} (hne : tx.inputs ≠ [])
    (h : validateTx cfg getUTXO tx baseFee = true) :
    ∃ inSum outSum : UInt64, tx.inputs.foldlM (fun sum input => do
        let coin ← getUTXO input.prevTxHash input.outputIndex
        addChecked sum coin.value) 0 = some inSum ∧
      tx.outputs.foldlM (fun sum output => addChecked sum output.value) 0 = some outSum ∧
      outSum ≤ inSum := by
  have hempty : ¬ tx.inputs.isEmpty = true := fun h => hne (List.isEmpty_iff.1 h)
  unfold validateTx at h
  rw [if_neg hempty] at h
  split_ifs at h
  dsimp only at h
  split at h
  · next inSum outSum hin hout =>
      rw [Bool.not_eq_true', decide_eq_false_iff_not, gt_iff_lt, UInt64.not_lt] at h
      exact ⟨inSum, outSum, hin, hout, h⟩
  · exact Bool.noConfusion h

theorem sum_outputs {sum : UInt64}
    (h : tx.outputs.foldlM (fun sum output => addChecked sum output.value) 0 = some sum) :
    sum.toNat = tx.outputTotal := by
  have hstep (sum : UInt64) (output : TxOutput) : addChecked sum output.value = (do
      let v ← some output.value
      addChecked sum v) := (Option.bind_some _ _).symm
  simp only [hstep] at h
  obtain ⟨-, hsum⟩ := foldlM_addChecked _ h
  rw [hsum, UInt64.toNat_zero, Nat.zero_add, Transaction.outputTotal]
  rfl

/-- **What the pool has summed up**: the outputs that are spent, each as often as it is named. -/
theorem validateTx_sums {U : UtxoSet} {utxo : U.State} {baseFee : UInt64} (hne : tx.inputs ≠ [])
    (h : validateTx cfg (U.getUTXO utxo) tx baseFee = true) :
    (∀ input ∈ tx.inputs, input.outpoint ∈ U.coins utxo) ∧
      tx.outputTotal ≤ namedValue (U.coins utxo) tx ∧ namedValue (U.coins utxo) tx < 2 ^ 64 := by
  obtain ⟨inSum, outSum, hin, hout, hle⟩ := exists_sums hne h
  obtain ⟨hexist, hinputs⟩ := sum_inputs hin
  rw [← sum_outputs hout, ← hinputs]
  exact ⟨hexist, UInt64.le_iff_toNat_le.1 hle, inSum.toNat_lt⟩

/-! ### What stays in the pool -/

/-- The books agree, the entries there were are there, and the others satisfy `Q`. -/
structure Grown (Q : Transaction → Prop) (cfg : Config) (s s' : Mempool) : Prop where
  accounted : Accounted cfg s'
  entries : ∀ hash entry, s.entries.lookup hash = some entry →
    s'.entries.lookup hash = some entry
  fresh : ∀ hash entry, s'.entries.lookup hash = some entry → hash ∈ s.entries ∨ Q entry.tx

section Grown

variable {Q : Transaction → Prop}

theorem Grown.refl (h : Accounted cfg s) : Grown Q cfg s s :=
  ⟨h, fun _ _ => id, fun _ _ h => .inl (mem_of_lookup h)⟩

theorem Grown.trans {s₁ s₂ s₃ : Mempool} (h₁ : Grown Q cfg s₁ s₂) (h₂ : Grown Q cfg s₂ s₃) :
    Grown Q cfg s₁ s₃ where
  accounted := h₂.accounted
  entries hash entry h := h₂.entries hash entry (h₁.entries hash entry h)
  fresh hash entry h := by
    rcases h₂.fresh hash entry h with hmem | hQ
    · -- an entry that is kept is the same entry
      obtain ⟨entry', hentry'⟩ := exists_lookup hmem
      obtain rfl := Option.some_inj.1 ((h₂.entries hash entry' hentry').symm.trans h)
      exact h₁.fresh hash entry' hentry'
    · exact .inr hQ

theorem grown_addEach {add : Mempool → Transaction → Except Stuck (Bool × Mempool)}
    (hadd : ∀ {s tx r}, Accounted cfg s → add s tx = .ok r → Grown Q cfg s r.2)
    {txs : List Transaction} (hs : Accounted cfg s) (h : addEach add txs s = .ok s') :
    Grown Q cfg s s' := by
  induction txs generalizing s with
  | nil =>
      obtain rfl : s = s' := Except.ok.inj h
      exact Grown.refl hs
  | cons t txs ih =>
      rw [addEach] at h
      cases hfirst : add s t with
      | error e =>
          rw [hfirst] at h
          exact nomatch h
      | ok r =>
          rw [hfirst] at h
          have hgrown := hadd hs hfirst
          exact hgrown.trans (ih hgrown.accounted h)

theorem grown_insertEntry {baseFee txBytes : UInt64} (hnew : tx.txHash ∉ s.entries) (hQ : Q tx)
    (h : Accounted P.cfg (insertEntry P s tx baseFee txBytes)) :
    Grown Q P.cfg s (insertEntry P s tx baseFee txBytes) where
  accounted := h
  entries hash entry hentry := by
    have hne : hash ≠ tx.txHash := fun heq => hnew (heq ▸ mem_of_lookup hentry)
    rw [insertEntry_entries, AList.lookup_insert_ne hne, hentry]
  fresh hash entry hentry := by
    rw [insertEntry_entries] at hentry
    rcases lookup_insert_cases hentry with ⟨-, rfl⟩ | ⟨-, hold⟩
    · exact .inr hQ
    · exact .inl (mem_of_lookup hold)

theorem Grown.of_entries (h : Accounted cfg s') (hentries : s'.entries = s.entries) :
    Grown Q cfg s s' where
  accounted := h
  entries hash entry hentry := by rw [hentries, hentry]
  fresh hash entry hentry := .inl (hentries ▸ mem_of_lookup hentry)

theorem grown_takeDependents (h : Accounted cfg s) (hash : Str) :
    Grown Q cfg s (takeDependents P s hash).2 :=
  .of_entries ⟨h.spent, h.disjoint, h.totalBytes, h.count, h.bytes⟩ rfl

end Grown

/-- **What an addition does to the entries**, by induction on the fuel: those that are new, the
transaction and the orphans that follow it, are valid. -/
theorem addWithin_grown {getUTXO : Str → Int32 → Option Utxo} {baseFee : UInt64} (fuel : ℕ)
    {held : List ℕ} {r : Bool × Mempool} (hs : Accounted P.cfg s)
    (h : addWithin P getUTXO baseFee fuel held s tx = .ok r) :
    Grown (fun t => validateTx P.cfg getUTXO t baseFee = true) P.cfg s r.2 ∧
      (r.1 = true → tx.txHash ∉ s.entries ∧
        ∃ entry, r.2.entries.lookup tx.txHash = some entry ∧ entry.tx = tx) := by
  induction fuel generalizing s tx held r with
  | zero => cases h
  | succ fuel ih =>
      rw [addWithin] at h
      dsimp only at h
      have hrefused {s' : Mempool} (hgrown : Grown (fun t => validateTx P.cfg getUTXO t baseFee =
          true) P.cfg s s') (h : Except.ok (ε := Stuck) (false, s') = .ok r) :
          Grown (fun t => validateTx P.cfg getUTXO t baseFee = true) P.cfg s r.2 ∧
            (r.1 = true → tx.txHash ∉ s.entries ∧
              ∃ entry, r.2.entries.lookup tx.txHash = some entry ∧ entry.tx = tx) := by
        obtain rfl := Except.ok.inj h
        exact ⟨hgrown, fun h => Bool.noConfusion h⟩
      split_ifs at h with hvalid hover hheld
      -- not valid, or too large for the counter of bytes; a stripe that is held gives no result
      · exact hrefused (Grown.refl hs) h
      · exact hrefused (Grown.refl hs) h
      · rw [Bool.not_eq_true', Bool.not_eq_false] at hvalid
        rcases addLocked_cases hs tx baseFee (estimateTxBytes tx) with
          ⟨hlocked, hnew, hspend, -, hfull⟩ | ⟨hlocked, hnew⟩ | hlocked
        · rw [hlocked] at h
          have hinserted := hs.insertEntry baseFee hnew hspend hfull (UInt64.not_lt.1 hover)
          have hgrown := grown_insertEntry (Q := fun t => validateTx P.cfg getUTXO t baseFee = true)
            hnew hvalid hinserted
          -- it is an entry, and its dependents are added while its stripe is held
          have htaken := grown_takeDependents (P := P)
            (Q := fun t => validateTx P.cfg getUTXO t baseFee = true) hinserted tx.txHash
          dsimp only at h
          cases hadded : addEach (addWithin P getUTXO baseFee fuel
              (stripeFor P tx.txHash :: held))
              (takeDependents P (insertEntry P s tx baseFee (estimateTxBytes tx)) tx.txHash).1
              (takeDependents P (insertEntry P s tx baseFee (estimateTxBytes tx)) tx.txHash).2 with
          | error e =>
              rw [hadded] at h
              cases h
          | ok s' =>
              rw [hadded] at h
              obtain rfl := Except.ok.inj h
              have hrest := htaken.trans
                (grown_addEach (fun hs h => (ih hs h).1) htaken.accounted hadded)
              exact ⟨hgrown.trans hrest,
                fun _ => ⟨hnew, _, hrest.entries _ _ (AList.lookup_insert _), rfl⟩⟩
        · rw [hlocked] at h
          exact hrefused (Grown.of_entries hs.addOrphanLocked addOrphanLocked_entries) h
        · rw [hlocked] at h
          exact hrefused (Grown.refl hs) h

/-! ### The rule -/

/-- **The rule for a transaction that got in**: it takes out no more than it puts in, in unbounded
integers, of outputs that exist and that no other entry spends; and the validation of blocks has
nothing against its inputs and values. -/
structure ValueRule (coins : Coins) (s : Mempool) (hash : Str) (tx : Transaction) : Prop where
  value : tx.outputTotal ≤ spentValue coins tx
  exist : ∀ input ∈ tx.inputs, input.outpoint ∈ coins
  alone : ∀ hash' entry, s.entries.lookup hash' = some entry → hash' ≠ hash →
    ∀ input ∈ tx.inputs, input ∉ entry.tx.inputs
  accepted : Covered coins tx

theorem nodup_outpointKey {inputs : List TxInput} (h : (inputs.map TxInput.outpoint).Nodup) :
    (inputs.map outpointKey).Nodup := by
  refine List.Nodup.map_on (fun i hi j hj hkey => ?_) (h.of_map _)
  exact List.inj_on_of_nodup_map h hi hj (outpointKey_injective hkey)

/-- **Where the rule holds**: a valid transaction keeps it if it names no output twice. -/
theorem valueRule_iff {U : UtxoSet} {utxo : U.State} {baseFee : UInt64} (hs : Accounted cfg s)
    {hash : Str} {entry : MempoolEntry} (hentry : s.entries.lookup hash = some entry)
    (hne : entry.tx.inputs ≠ []) (h : validateTx cfg (U.getUTXO utxo) entry.tx baseFee = true) :
    ValueRule (U.coins utxo) s hash entry.tx ↔
      (entry.tx.inputs.map TxInput.outpoint).Nodup := by
  constructor
  · intro hrule
    exact nodup_outpoints hrule.accepted.distinct
  · intro hnodup
    obtain ⟨hexist, hle, hlt⟩ := validateTx_sums hne h
    have hkeys := nodup_outpointKey hnodup
    have hspent : spentValue (U.coins utxo) entry.tx = namedValue (U.coins utxo) entry.tx :=
      spentValue_of_nodup hkeys
    refine ⟨hspent ▸ hle, hexist, fun hash' entry' hentry' hother => ?_, hexist, hkeys, ?_⟩
    · exact hs.disjoint hentry hentry' (Ne.symm hother)
    · -- neither sum wraps around
      rw [hspent, Nat.mod_eq_of_lt hlt, Nat.mod_eq_of_lt (hle.trans_lt hlt)]
      exact hle

theorem validateTransactions_iff_covered {U : UtxoSet} {E : Secp256k1} {b : Blockchain U}
    {now : UInt64} {first : Transaction} {rest : List Transaction} :
    b.validateTransactions E now (first :: rest) = true ↔
      (hasDuplicateTxInBlock (first :: rest) = false ∧
        first.outputTotal % 2 ^ 64 ≤ (b.cappedReward now).toNat ∧
        ∀ tx ∈ rest, Authentic E (U.coins b.utxoSet) tx) ∧
      (∀ tx ∈ rest, Covered (U.coins b.utxoSet) tx) ∧
      (rest.flatMap Transaction.spentKeys).Nodup := by
  rw [Blockchain.validateTransactions_cons]
  simp only [checked_iff, forall_and, and_assoc]

theorem grown_addTransaction {calls : List Call} {getUTXO : Str → Int32 → Option Utxo}
    {baseFee : UInt64} {r : Bool × Mempool} (hrun : run (step P) {} calls = some s)
    (h : addTransaction P getUTXO baseFee s tx = .ok r) :
    Grown (fun t => validateTx P.cfg getUTXO t baseFee = true) P.cfg s r.2 ∧
      (r.1 = true → tx.txHash ∉ s.entries ∧
        ∃ entry, r.2.entries.lookup tx.txHash = some entry ∧ entry.tx = tx) :=
  addWithin_grown _ (accounting hrun).1 h

/-- **Where the rule holds**: of the transactions that an addition lets in, the one that is added
and the orphans that follow it, those with inputs keep the rule if and only if they name no output
twice.  The validation of blocks asks the same of a transaction's inputs and values. -/
theorem admitted_valueRule_iff {U : UtxoSet} {utxo : U.State} {calls : List Call}
    {baseFee : UInt64} {r : Bool × Mempool} (hrun : run (step P) {} calls = some s)
    (h : addTransaction P (U.getUTXO utxo) baseFee s tx = .ok r) :
    (r.1 = true → tx.txHash ∉ s.entries ∧
      ∃ entry, r.2.entries.lookup tx.txHash = some entry ∧ entry.tx = tx) ∧
    (∀ hash entry, r.2.entries.lookup hash = some entry → hash ∉ s.entries →
      entry.tx.inputs ≠ [] →
      (ValueRule (U.coins utxo) r.2 hash entry.tx ↔
        (entry.tx.inputs.map TxInput.outpoint).Nodup)) ∧
    ∀ (E : Secp256k1) (b : Blockchain U) (now : UInt64) (first : Transaction)
      (rest : List Transaction), U.coins b.utxoSet = U.coins utxo →
      (b.validateTransactions E now (first :: rest) = true ↔
        (hasDuplicateTxInBlock (first :: rest) = false ∧
          first.outputTotal % 2 ^ 64 ≤ (b.cappedReward now).toNat ∧
          ∀ tx ∈ rest, Authentic E (U.coins utxo) tx) ∧
        (∀ tx ∈ rest, Covered (U.coins utxo) tx) ∧
        (rest.flatMap Transaction.spentKeys).Nodup) := by
  obtain ⟨hgrown, hadmitted⟩ := grown_addTransaction hrun h
  refine ⟨hadmitted, fun hash entry hentry hnew hne => ?_, fun E b now first rest hcoins => ?_⟩
  · have hvalid := (hgrown.fresh hash entry hentry).resolve_left hnew
    exact valueRule_iff hgrown.accounted hentry hne hvalid
  · rw [validateTransactions_iff_covered, hcoins]

/-! ### An output that is spent twice -/

def sampleFive : UtxoSet.ofMap.State :=
  Finmap.insert (str "a", 0) ⟨5, str "owner", 0, false⟩ (∅ : Coins)

def samplePayment (times : ℕ) (value : UInt64) : Transaction where
  maxFeePerGas := 10
  toAddress := str "m"
  txHash := List.replicate 64 97
  inputs := List.replicate times ⟨str "a", 0⟩
  outputs := [⟨value, str "m"⟩]

theorem exists_addTransaction {getUTXO : Str → Int32 → Option Utxo} {baseFee : UInt64}
    (h : ((addTransaction P getUTXO baseFee s tx).toOption.map Prod.fst) = some true) :
    ∃ s', addTransaction P getUTXO baseFee s tx = .ok (true, s') := by
  cases hadd : addTransaction P getUTXO baseFee s tx with
  | error e =>
      rw [hadd] at h
      cases h
  | ok r =>
      rw [hadd] at h
      obtain ⟨admitted, s'⟩ := r
      cases h
      exact ⟨s', rfl⟩

/-- Ten are taken out of five. -/
theorem not_valueRule :
    ¬ ∀ (P : Platform) (U : UtxoSet) (utxo : U.State) (calls : List Call) (s s' : Mempool)
      (tx : Transaction) (baseFee : UInt64), run (step P) {} calls = some s →
      addTransaction P (U.getUTXO utxo) baseFee s tx = .ok (true, s') → tx.inputs ≠ [] →
      ValueRule (U.coins utxo) s' tx.txHash tx := by
  intro h
  have hadmitted : (addTransaction samplePlatform (UtxoSet.ofMap.getUTXO sampleFive) 1 {}
      (samplePayment 2 10)).toOption.map Prod.fst = some true := by decide +kernel
  obtain ⟨s', hadd⟩ := exists_addTransaction hadmitted
  have hrule := h samplePlatform UtxoSet.ofMap sampleFive [] {} s' (samplePayment 2 10) 1 rfl hadd
    (by decide)
  exact absurd hrule.value (by decide +kernel)

theorem admitted_valueRule_samplePayment :
    ∃ s', addTransaction samplePlatform (UtxoSet.ofMap.getUTXO sampleFive) 1 {}
        (samplePayment 1 5) = .ok (true, s') ∧
      ValueRule (UtxoSet.ofMap.coins sampleFive) s' (samplePayment 1 5).txHash
        (samplePayment 1 5) := by
  have hadmitted : (addTransaction samplePlatform (UtxoSet.ofMap.getUTXO sampleFive) 1 {}
      (samplePayment 1 5)).toOption.map Prod.fst = some true := by decide +kernel
  obtain ⟨s', hadd⟩ := exists_addTransaction hadmitted
  have hrun : run (step samplePlatform) {} [] = some {} := rfl
  obtain ⟨hnew, hrule, -⟩ := admitted_valueRule_iff hrun hadd
  obtain ⟨hnew, entry, hentry, htx⟩ := hnew rfl
  have hiff := hrule _ entry hentry hnew (by rw [htx]; decide)
  rw [htx] at hiff
  exact ⟨s', hadd, hiff.2 (by decide)⟩

end Mempool

end Node
