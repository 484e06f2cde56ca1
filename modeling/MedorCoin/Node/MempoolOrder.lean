/-
**The order in which two transactions come to the mempool.**

Two transactions that have nothing to do with each other are added one after the other.  The nonce
of a transaction has to be above those of the entries that pay to the same address: the pool looks
at the recipient, not at the sender.  So of two payments to one address the one with the greater
nonce keeps the other one out if it comes first, whoever sends them, and the order matters.  For
payments to different addresses it does not, as long as no orphan gets in with one of them.

The time at which an entry was made is left out of the comparison.

Main definitions:

* `Mempool.Unrelated` — two valid transactions with room for both, that share no input and of which
  neither spends an output of the other;
* `Mempool.Commutes` — both get in, in either order, and the pool is the same afterwards;
* `Mempool.Separate` — each one is new, spends nothing twice and has a nonce above those of its
  recipient, and the recipients differ; `Mempool.Unfollowed` — no orphan gets in with it.

Main results:

* `Mempool.checkNonceOrdering_iff` — **what the order of nonces asks**;
* `Mempool.addTransaction_of_unfollowed` — what the addition of one transaction does;
* `Mempool.commutes_iff` — **where the order does not matter**.
-/

import MedorCoin.Node.MempoolCapacity
import MedorCoin.Node.MempoolLocks
import MedorCoin.Node.MempoolValue

set_option autoImplicit false

namespace Node

namespace Mempool

open Cpp Ledger Transition

variable {P : Platform} {cfg : Config} {s : Mempool} {tx : Transaction} {baseFee : UInt64}
  {getUTXO : Str → Int32 → Option Utxo}

/-! ### The order of nonces -/

/-- A nonce is above the greatest one so far, if there is one. -/
def Above (nonce : UInt64) (found : Option UInt64) : Prop := ∀ n, found = some n → n < nonce

theorem above_foldl {α : Type} {f : Option UInt64 → α → Option UInt64} {Q : α → Prop}
    {nonce : UInt64} (hf : ∀ found a, Above nonce (f found a) ↔ Above nonce found ∧ Q a)
    (l : List α) (found : Option UInt64) :
    Above nonce (l.foldl f found) ↔ Above nonce found ∧ ∀ a ∈ l, Q a := by
  induction l generalizing found with
  | nil => simp
  | cons a l ih => rw [List.foldl_cons, ih, hf, List.forall_mem_cons, and_assoc]

theorem above_maxNonce (address : Str) (nonce : UInt64)
    (entries : List (Σ _ : Str, MempoolEntry)) :
    Above nonce (maxNonce address entries) ↔
      ∀ entry ∈ entries, entry.2.tx.toAddress = address → entry.2.tx.nonce < nonce := by
  rw [maxNonce, above_foldl (Q := fun entry : Σ _ : Str, MempoolEntry =>
    entry.2.tx.toAddress = address → entry.2.tx.nonce < nonce)]
  · exact and_iff_right fun n hn => nomatch hn
  intro found entry
  by_cases haddress : entry.2.tx.toAddress = address
  · simp only [haddress, if_true, true_imp_iff]
    cases found with
    | none => simp [Above]
    | some n =>
        by_cases hgt : entry.2.tx.nonce > n
        · -- the nonce before is below the greater one
          simp only [hgt, if_true, Above, Option.some.injEq, forall_eq']
          exact ⟨fun h => ⟨UInt64.lt_trans hgt h, h⟩, And.right⟩
        · simp only [hgt, if_false, Above, Option.some.injEq, forall_eq']
          exact ⟨fun h => ⟨h, UInt64.lt_of_le_of_lt (UInt64.not_lt.1 hgt) h⟩, And.left⟩
  · simp [haddress]

/-- **What the order of nonces asks**: a nonce above those of the entries with the same
recipient. -/
theorem checkNonceOrdering_iff :
    checkNonceOrdering P s tx = true ↔ ∀ hash entry, s.entries.lookup hash = some entry →
      entry.tx.toAddress = tx.toAddress → entry.tx.nonce < tx.nonce := by
  have habove : checkNonceOrdering P s tx = true ↔
      Above tx.nonce (maxNonce tx.toAddress (P.order s.entries.entries)) := by
    unfold checkNonceOrdering
    cases maxNonce tx.toAddress (P.order s.entries.entries) with
    | none => simp [Above]
    | some n => simp [Above, UInt64.not_le]
  rw [habove, above_maxNonce]
  constructor
  · intro h hash entry hentry
    exact h ⟨hash, entry⟩ ((P.order_perm _).mem_iff.2 (AList.mem_lookup_iff.1 hentry))
  · intro h entry hentry
    exact h entry.1 entry.2 (AList.mem_lookup_iff.2 ((P.order_perm _).mem_iff.1 hentry))

/-! ### What stays as it is -/

/-- The orphans are some of those there were, perhaps made anew. -/
def OrphansAmong (s s' : Mempool) : Prop :=
  ∀ hash orphan, s'.orphans.lookup hash = some orphan →
    ∃ hash' orphan', s.orphans.lookup hash' = some orphan' ∧ orphan'.tx = orphan.tx

/-- The entries and what is counted of them are the same. -/
structure Unmoved (s s' : Mempool) : Prop where
  entries : s'.entries = s.entries
  spentOutpoints : s'.spentOutpoints = s.spentOutpoints
  totalBytes : s'.totalBytes = s.totalBytes

theorem Unmoved.refl (s : Mempool) : Unmoved s s := ⟨rfl, rfl, rfl⟩

theorem Unmoved.trans {s₁ s₂ s₃ : Mempool} (h₁ : Unmoved s₁ s₂) (h₂ : Unmoved s₂ s₃) :
    Unmoved s₁ s₃ :=
  ⟨h₂.entries.trans h₁.entries, h₂.spentOutpoints.trans h₁.spentOutpoints,
    h₂.totalBytes.trans h₁.totalBytes⟩

theorem unmoved_addOrphanLocked (s : Mempool) (tx : Transaction) :
    Unmoved s (addOrphanLocked P s tx) := by
  unfold addOrphanLocked nowSecs
  simp only
  split
  · exact ⟨rfl, rfl, rfl⟩
  · exact ⟨rfl, rfl, rfl⟩

/-- The pool has grown: there are no fewer entries and no fewer spent outputs. -/
structure Grows (s s' : Mempool) : Prop where
  entries : ∀ hash entry, s.entries.lookup hash = some entry →
    s'.entries.lookup hash = some entry
  spentOutpoints : s.spentOutpoints ⊆ s'.spentOutpoints

theorem Unmoved.grows {s' : Mempool} (h : Unmoved s s') : Grows s s' where
  entries hash entry hentry := by rw [h.entries, hentry]
  spentOutpoints := by rw [h.spentOutpoints]

theorem Grows.trans {s₁ s₂ s₃ : Mempool} (h₁ : Grows s₁ s₂) (h₂ : Grows s₂ s₃) : Grows s₁ s₃ where
  entries hash entry h := h₂.entries hash entry (h₁.entries hash entry h)
  spentOutpoints := h₁.spentOutpoints.trans h₂.spentOutpoints

theorem Acceptable.of_grows {s' : Mempool} (hgrows : Grows s s')
    (h : Acceptable P getUTXO baseFee s' tx) : Acceptable P getUTXO baseFee s tx where
  valid := h.valid
  fresh hmem := by
    obtain ⟨entry, hentry⟩ := exists_lookup hmem
    exact h.fresh (mem_of_lookup (hgrows.entries _ entry hentry))
  unspent := isDoubleSpend_eq_false.2 fun key hkey hmem =>
    isDoubleSpend_eq_false.1 h.unspent key hkey (hgrows.spentOutpoints hmem)
  nonce := checkNonceOrdering_iff.2 fun hash entry hentry =>
    checkNonceOrdering_iff.1 h.nonce hash entry (hgrows.entries hash entry hentry)

/-! ### One transaction -/

/-- An orphan that does nothing when the transaction `tx` gets in: it is not valid, or it comes to
another stripe and is refused there. -/
def Idle (P : Platform) (getUTXO : Str → Int32 → Option Utxo) (baseFee : UInt64) (s : Mempool)
    (tx orphan : Transaction) : Prop :=
  validateTx P.cfg getUTXO orphan baseFee = true →
    stripeFor P orphan.txHash ≠ stripeFor P tx.txHash ∧ ¬ Acceptable P getUTXO baseFee s orphan

/-- **No orphan gets in with a transaction**: those that wait for it do nothing. -/
def Unfollowed (P : Platform) (getUTXO : Str → Int32 → Option Utxo) (baseFee : UInt64)
    (s : Mempool) (tx : Transaction) : Prop :=
  ∀ hash orphan, s.orphans.lookup hash = some orphan → dependsOn orphan.tx tx.txHash = true →
    Idle P getUTXO baseFee s tx orphan.tx

theorem Idle.grows {s' : Mempool} {orphan : Transaction} (hgrows : Grows s s')
    (h : Idle P getUTXO baseFee s tx orphan) : Idle P getUTXO baseFee s' tx orphan :=
  fun hvalid => ⟨(h hvalid).1, fun hacceptable => (h hvalid).2 (hacceptable.of_grows hgrows)⟩

theorem Unfollowed.grows {s' : Mempool} (hgrows : Grows s s') (horphans : OrphansAmong s s')
    (h : Unfollowed P getUTXO baseFee s tx) : Unfollowed P getUTXO baseFee s' tx := by
  intro hash orphan horphan hdepends
  obtain ⟨hash', orphan', horphan', htx⟩ := horphans hash orphan horphan
  rw [← htx] at hdepends ⊢
  exact (h hash' orphan' horphan' hdepends).grows hgrows

theorem Room.not_full (h : Room cfg s tx) :
    isFull cfg s (estimateTxBytes tx) = false ∧ estimateTxBytes tx ≤ uint64Max - s.totalBytes := by
  have hle : estimateTxBytes tx ≤ uint64Max - s.totalBytes :=
    (le_max_sub_iff rfl).2 (h.2.trans_lt cfg.maxTotalBytes.toNat_lt)
  refine ⟨isFull_eq_false.2 ⟨h.1, UInt64.le_iff_toNat_le.2 ?_⟩, hle⟩
  rw [toNat_add_of_lt ((le_max_sub_iff rfl).1 hle)]
  exact h.2

theorem addLocked_of_not_acceptable (txBytes : UInt64)
    (hvalid : validateTx P.cfg getUTXO tx baseFee = true)
    (h : ¬ Acceptable P getUTXO baseFee s tx) :
    addLocked P s tx baseFee txBytes = (false, s) ∨
      addLocked P s tx baseFee txBytes = (false, addOrphanLocked P s tx) := by
  unfold addLocked
  by_cases hentry : tx.txHash ∈ s.entries
  · exact .inl (if_pos hentry)
  rw [if_neg hentry]
  cases hspend : isDoubleSpend s tx with
  | true => exact .inl rfl
  | false =>
      cases hnonce : checkNonceOrdering P s tx with
      | false => exact .inr rfl
      | true => exact absurd ⟨hvalid, hentry, hspend, hnonce⟩ h

theorem addWithin_of_idle (fuel : ℕ) (held : List ℕ)
    (h : validateTx P.cfg getUTXO tx baseFee = true →
      stripeFor P tx.txHash ∉ held ∧ ¬ Acceptable P getUTXO baseFee s tx) :
    ∃ s', addWithin P getUTXO baseFee (fuel + 1) held s tx = .ok (false, s') ∧ Unmoved s s' ∧
      ∀ hash orphan, s'.orphans.lookup hash = some orphan →
        s.orphans.lookup hash = some orphan ∨ orphan.tx = tx := by
  by_cases hreach : ReachesStripe P getUTXO baseFee s tx
  · obtain ⟨hheld, hrefused⟩ := h hreach.1
    rcases addLocked_of_not_acceptable (estimateTxBytes tx) hreach.1 hrefused with
      hlocked | hlocked
    · refine ⟨s, ?_, .refl s, fun _ _ => .inl⟩
      rw [addWithin_of_refused hreach hlocked, if_neg hheld]
    · refine ⟨addOrphanLocked P s tx, ?_, unmoved_addOrphanLocked s tx, ?_⟩
      · rw [addWithin_of_refused hreach hlocked, if_neg hheld]
      · intro hash orphan horphan
        exact (lookup_addOrphanLocked horphan).imp_right And.right
  · exact ⟨s, addWithin_of_not_reaches hreach, .refl s, fun _ _ => .inl⟩

theorem addEach_of_idle {fuel : ℕ} {txs : List Transaction} (hfuel : txs = [] ∨ 0 < fuel)
    (h : ∀ t ∈ txs, Idle P getUTXO baseFee s tx t) :
    ∃ s', addEach (addWithin P getUTXO baseFee fuel [stripeFor P tx.txHash]) txs s = .ok s' ∧
      Unmoved s s' ∧ ∀ hash orphan, s'.orphans.lookup hash = some orphan →
        s.orphans.lookup hash = some orphan ∨ orphan.tx ∈ txs := by
  induction txs generalizing s with
  | nil => exact ⟨s, rfl, .refl s, fun _ _ => .inl⟩
  | cons t txs ih =>
      have hpos : 0 < fuel := hfuel.resolve_left (List.cons_ne_nil _ _)
      obtain ⟨n, rfl⟩ : ∃ n, fuel = n + 1 := ⟨fuel - 1, by omega⟩
      have hidle := h t List.mem_cons_self
      obtain ⟨s₁, hadd, hunmoved, horphans⟩ := addWithin_of_idle n [stripeFor P tx.txHash]
        fun hvalid => ⟨fun hmem => (hidle hvalid).1 (List.mem_singleton.1 hmem), (hidle hvalid).2⟩
      obtain ⟨s', hrest, hunmoved', horphans'⟩ := ih (s := s₁) (.inr hpos) fun t' ht' =>
        (h t' (List.mem_cons_of_mem _ ht')).grows hunmoved.grows
      refine ⟨s', ?_, hunmoved.trans hunmoved', fun hash orphan horphan => ?_⟩
      · rw [addEach, hadd]
        exact hrest
      · rcases horphans' hash orphan horphan with hold | hmem
        · rcases horphans hash orphan hold with hold | heq
          · exact .inl hold
          · exact .inr (heq ▸ List.mem_cons_self)
        · exact .inr (List.mem_cons_of_mem _ hmem)

/-- What the addition of a transaction does that no orphan follows. -/
structure Added (s : Mempool) (tx : Transaction) (baseFee : UInt64) (s' : Mempool) : Prop where
  entries : ∃ addedAt, s'.entries = s.entries.insert tx.txHash
    { tx, addedAt, effectiveFee := effectiveFee tx baseFee, txBytes := estimateTxBytes tx }
  spentOutpoints : s'.spentOutpoints = s.spentOutpoints ∪ (spentKeys tx).toFinset
  totalBytes : s'.totalBytes = s.totalBytes + estimateTxBytes tx
  orphans : OrphansAmong s s'

theorem Added.grows {s' : Mempool} (h : Added s tx baseFee s') (hfresh : tx.txHash ∉ s.entries) :
    Grows s s' where
  entries hash entry hentry := by
    obtain ⟨addedAt, hentries⟩ := h.entries
    have hne : hash ≠ tx.txHash := fun heq => hfresh (heq ▸ mem_of_lookup hentry)
    rw [hentries, AList.lookup_insert_ne hne, hentry]
  spentOutpoints := by
    rw [h.spentOutpoints]
    exact Finset.subset_union_left

/-- **The addition of one transaction** for which there is room and that no orphan follows. -/
theorem addTransaction_of_unfollowed (h : Acceptable P getUTXO baseFee s tx)
    (hroom : Room P.cfg s tx) (hwait : Unfollowed P getUTXO baseFee s tx) :
    ∃ s', addTransaction P getUTXO baseFee s tx = .ok (true, s') ∧ Added s tx baseFee s' := by
  obtain ⟨hfull, hle⟩ := hroom.not_full
  set s₁ := insertEntry P s tx baseFee (estimateTxBytes tx) with hs₁
  have hlocked : addLocked P s tx baseFee (estimateTxBytes tx) = (true, s₁) := by
    simp [addLocked, h.fresh, h.unspent, h.nonce, hfull, hs₁]
  have hinserted : Added s tx baseFee s₁ :=
    ⟨⟨P.clock s.readings, rfl⟩, rfl, rfl, fun hash orphan horphan => ⟨hash, orphan, horphan, rfl⟩⟩
  -- an orphan that depends on the transaction was one before
  have htaken : ∀ t ∈ (takeDependents P s₁ tx.txHash).1,
      Idle P getUTXO baseFee s tx t ∧
        ∃ hash orphan, s.orphans.lookup hash = some orphan ∧ orphan.tx = t := by
    intro t ht
    obtain ⟨orphan, horphan, rfl⟩ := List.mem_map.1 ht
    obtain ⟨hmem, hdepends⟩ := List.mem_filter.1 horphan
    have hlookup : s.orphans.lookup orphan.1 = some orphan.2 :=
      AList.mem_lookup_iff.2 ((P.order_perm _).mem_iff.1 hmem)
    exact ⟨hwait _ _ hlookup hdepends, _, _, hlookup, rfl⟩
  have hfuel : (takeDependents P s₁ tx.txHash).1 = [] ∨ 0 < s.orphans.keys.length := by
    have hlen := length_takeDependents (P := P) s₁ tx.txHash
    rw [hs₁, insertEntry_orphans, ← hs₁] at hlen
    rcases Nat.eq_zero_or_pos (takeDependents P s₁ tx.txHash).1.length with hzero | hpos
    · exact .inl (List.length_eq_zero_iff.1 hzero)
    · exact .inr (by omega)
  have hgrows : Grows s (takeDependents P s₁ tx.txHash).2 :=
    (hinserted.grows h.fresh).trans (Unmoved.grows ⟨rfl, rfl, rfl⟩)
  obtain ⟨s', hpromoted, hunmoved, horphans⟩ :=
    addEach_of_idle hfuel fun t ht => (htaken t ht).1.grows hgrows
  refine ⟨s', ?_, ⟨P.clock s.readings, hunmoved.entries⟩, hunmoved.spentOutpoints,
    hunmoved.totalBytes, fun hash orphan horphan => ?_⟩
  · rw [addTransaction, addWithin]
    simp only [h.valid, UInt64.not_lt.2 hle, hlocked, Bool.not_true, Bool.false_eq_true,
      if_false, List.not_mem_nil]
    rw [hpromoted]
    rfl
  · rcases horphans hash orphan horphan with hold | hmem
    · exact ⟨hash, orphan, (lookup_eraseAll hold).2, rfl⟩
    · exact (htaken _ hmem).2

theorem acceptable_of_added {s' : Mempool} (hs : Accounted P.cfg s)
    (h : addTransaction P getUTXO baseFee s tx = .ok (true, s')) :
    Acceptable P getUTXO baseFee s tx := by
  rw [addTransaction, addWithin] at h
  dsimp only at h
  split_ifs at h with hvalid hover hheld
  · cases h
  · cases h
  · rw [Bool.not_eq_true', Bool.not_eq_false] at hvalid
    rcases addLocked_cases hs tx baseFee (estimateTxBytes tx) with
      ⟨-, hnew, hspend, hnonce, -⟩ | ⟨hlocked, -⟩ | hlocked
    · exact ⟨hvalid, hnew, hspend, hnonce⟩
    · rw [hlocked] at h
      cases h
    · rw [hlocked] at h
      cases h

/-! ### Two transactions -/

/-- **Two transactions that have nothing to do with each other**, each with its base fee: both are
valid, there is room for both, they share no input, and neither spends an output of the other. -/
structure Unrelated (P : Platform) (getUTXO : Str → Int32 → Option Utxo) (s : Mempool)
    (a : Transaction) (feeA : UInt64) (b : Transaction) (feeB : UInt64) : Prop where
  validA : validateTx P.cfg getUTXO a feeA = true
  validB : validateTx P.cfg getUTXO b feeB = true
  hashes : a.txHash ≠ b.txHash
  inputs : ∀ input ∈ a.inputs, input ∉ b.inputs
  notOnA : dependsOn b a.txHash = false
  notOnB : dependsOn a b.txHash = false
  count : s.entries.keys.length + 2 ≤ P.cfg.maxTxCount
  bytes : s.totalBytes.toNat + (estimateTxBytes a).toNat + (estimateTxBytes b).toNat ≤
    P.cfg.maxTotalBytes.toNat

/-- An entry without the time at which it was made. -/
def timeless (entry : MempoolEntry) : MempoolEntry := { entry with addedAt := 0 }

/-- **The same entries and the same spent outputs.** -/
structure Same (s s' : Mempool) : Prop where
  entries : ∀ hash, (s.entries.lookup hash).map timeless = (s'.entries.lookup hash).map timeless
  spentOutpoints : s.spentOutpoints = s'.spentOutpoints

/-- **Both transactions get in, in either order, and the pool is the same afterwards.** -/
def Commutes (P : Platform) (getUTXO : Str → Int32 → Option Utxo) (s : Mempool)
    (a : Transaction) (feeA : UInt64) (b : Transaction) (feeB : UInt64) : Prop :=
  ∃ s₁ s₂ t₁ t₂, addTransaction P getUTXO feeA s a = .ok (true, s₁) ∧
    addTransaction P getUTXO feeB s₁ b = .ok (true, s₂) ∧
    addTransaction P getUTXO feeB s b = .ok (true, t₁) ∧
    addTransaction P getUTXO feeA t₁ a = .ok (true, t₂) ∧ Same s₂ t₂

/-- A transaction that the pool takes when it comes first. -/
structure Eligible (P : Platform) (s : Mempool) (tx : Transaction) : Prop where
  fresh : tx.txHash ∉ s.entries
  unspent : isDoubleSpend s tx = false
  nonce : checkNonceOrdering P s tx = true

/-- **Each of the two is taken when it comes first, and they have different recipients.** -/
structure Separate (P : Platform) (s : Mempool) (a b : Transaction) : Prop where
  eligibleA : Eligible P s a
  eligibleB : Eligible P s b
  recipients : a.toAddress ≠ b.toAddress

theorem Unrelated.symm {a b : Transaction} {feeA feeB : UInt64}
    (h : Unrelated P getUTXO s a feeA b feeB) : Unrelated P getUTXO s b feeB a feeA where
  validA := h.validB
  validB := h.validA
  hashes := h.hashes.symm
  inputs input hb ha := h.inputs input ha hb
  notOnA := h.notOnB
  notOnB := h.notOnA
  count := h.count
  bytes := by
    have := h.bytes
    omega

theorem Separate.symm {a b : Transaction} (h : Separate P s a b) : Separate P s b a :=
  ⟨h.eligibleB, h.eligibleA, h.recipients.symm⟩

section Pair

variable {a b : Transaction} {feeA feeB : UInt64}

/-- There is room for the first transaction. -/
theorem Unrelated.room (h : Unrelated P getUTXO s a feeA b feeB) : Room P.cfg s a := by
  have hcount := h.count
  have hbytes := h.bytes
  exact ⟨by omega, by omega⟩

theorem Unrelated.spentKeys (h : Unrelated P getUTXO s a feeA b feeB) :
    ∀ key ∈ spentKeys b, key ∉ spentKeys a := by
  intro key hb ha
  obtain ⟨input, hinput, rfl⟩ := List.mem_map.1 ha
  obtain ⟨input', hinput', heq⟩ := List.mem_map.1 hb
  have hsame : input'.outpoint = input.outpoint := outpointKey_injective heq
  obtain ⟨prevTxHash, outputIndex⟩ := input
  cases hsame
  exact h.inputs _ hinput hinput'

theorem acceptable_after {s₁ : Mempool} (h : Unrelated P getUTXO s a feeA b feeB)
    (hsep : Separate P s a b) (hadded : Added s a feeA s₁) :
    Acceptable P getUTXO feeB s₁ b ∧ Room P.cfg s₁ b := by
  obtain ⟨addedAt, hentries⟩ := hadded.entries
  refine ⟨⟨h.validB, ?_, ?_, ?_⟩, ?_, ?_⟩
  · rw [hentries, AList.mem_insert]
    rintro (heq | hmem)
    · exact h.hashes heq.symm
    · exact hsep.eligibleB.fresh hmem
  · rw [isDoubleSpend_eq_false, hadded.spentOutpoints]
    intro key hkey hmem
    rcases Finset.mem_union.1 hmem with hold | hnew
    · exact isDoubleSpend_eq_false.1 hsep.eligibleB.unspent key hkey hold
    · exact h.spentKeys key hkey (List.mem_toFinset.1 hnew)
  · rw [checkNonceOrdering_iff, hentries]
    intro hash entry hentry haddress
    rcases lookup_insert_cases hentry with ⟨-, rfl⟩ | ⟨-, hold⟩
    · exact absurd haddress hsep.recipients
    · exact checkNonceOrdering_iff.1 hsep.eligibleB.nonce hash entry hold haddress
  · rw [hentries, AList.insert_of_notMem hsep.eligibleA.fresh]
    have := h.count
    change s.entries.keys.length + 1 < P.cfg.maxTxCount
    omega
  · have hbytes := h.bytes
    have hlt := P.cfg.maxTotalBytes.toNat_lt
    rw [hadded.totalBytes, toNat_add_of_lt (by omega)]
    exact hbytes

theorem exists_added (h : Unrelated P getUTXO s a feeA b feeB) (hsep : Separate P s a b)
    (hwaitA : Unfollowed P getUTXO feeA s a) (hwaitB : Unfollowed P getUTXO feeB s b) :
    ∃ s₁ s₂, addTransaction P getUTXO feeA s a = .ok (true, s₁) ∧
      addTransaction P getUTXO feeB s₁ b = .ok (true, s₂) ∧
      Added s a feeA s₁ ∧ Added s₁ b feeB s₂ := by
  have hacceptable : Acceptable P getUTXO feeA s a :=
    ⟨h.validA, hsep.eligibleA.fresh, hsep.eligibleA.unspent, hsep.eligibleA.nonce⟩
  obtain ⟨s₁, hfirst, hadded⟩ := addTransaction_of_unfollowed hacceptable h.room hwaitA
  obtain ⟨hacceptable', hroom'⟩ := acceptable_after h hsep hadded
  have hwaitB' := hwaitB.grows (hadded.grows hacceptable.fresh) hadded.orphans
  obtain ⟨s₂, hsecond, hadded'⟩ := addTransaction_of_unfollowed hacceptable' hroom' hwaitB'
  exact ⟨s₁, s₂, hfirst, hsecond, hadded, hadded'⟩

theorem same_of_added {s₁ s₂ t₁ t₂ : Mempool} (hne : a.txHash ≠ b.txHash)
    (hs₁ : Added s a feeA s₁) (hs₂ : Added s₁ b feeB s₂) (ht₁ : Added s b feeB t₁)
    (ht₂ : Added t₁ a feeA t₂) : Same s₂ t₂ where
  entries hash := by
    obtain ⟨_, hs₁⟩ := hs₁.entries
    obtain ⟨_, hs₂⟩ := hs₂.entries
    obtain ⟨_, ht₁⟩ := ht₁.entries
    obtain ⟨_, ht₂⟩ := ht₂.entries
    rw [hs₂, ht₂, hs₁, ht₁]
    by_cases hb : hash = b.txHash
    · rw [hb, AList.lookup_insert, AList.lookup_insert_ne hne.symm, AList.lookup_insert]
      rfl
    · rw [AList.lookup_insert_ne hb]
      by_cases ha : hash = a.txHash
      · rw [ha, AList.lookup_insert, AList.lookup_insert]
        rfl
      · rw [AList.lookup_insert_ne ha, AList.lookup_insert_ne ha, AList.lookup_insert_ne hb]
  spentOutpoints := by
    rw [hs₂.spentOutpoints, hs₁.spentOutpoints, ht₂.spentOutpoints, ht₁.spentOutpoints,
      Finset.union_right_comm]

theorem nonce_lt_of_added {s₁ s₂ : Mempool} (hs : Accounted P.cfg s)
    (hfirst : addTransaction P getUTXO feeA s a = .ok (true, s₁))
    (hsecond : addTransaction P getUTXO feeB s₁ b = .ok (true, s₂))
    (haddress : a.toAddress = b.toAddress) : a.nonce < b.nonce := by
  obtain ⟨hgrown, hadmitted⟩ := addWithin_grown _ hs hfirst
  obtain ⟨-, entry, hentry, htx⟩ := hadmitted rfl
  have hnonce := checkNonceOrdering_iff.1 (acceptable_of_added hgrown.accounted hsecond).nonce
  have hlt := hnonce a.txHash entry hentry (by rw [htx, haddress])
  rwa [htx] at hlt

/-- **Where the order does not matter.**  If both transactions get in in either order, then each is
one that the pool takes when it comes first, and they have different recipients.  This is enough
when no orphan gets in with one of them. -/
theorem commutes_iff {calls : List Call} (hrun : run (step P) {} calls = some s)
    (h : Unrelated P getUTXO s a feeA b feeB) :
    (Commutes P getUTXO s a feeA b feeB → Separate P s a b) ∧
      (Separate P s a b → Unfollowed P getUTXO feeA s a → Unfollowed P getUTXO feeB s b →
        Commutes P getUTXO s a feeA b feeB) := by
  have hs := (accounting hrun).1
  constructor
  · rintro ⟨s₁, s₂, t₁, t₂, hs₁, hs₂, ht₁, ht₂, -⟩
    have hacceptA := acceptable_of_added hs hs₁
    have hacceptB := acceptable_of_added hs ht₁
    refine ⟨⟨hacceptA.fresh, hacceptA.unspent, hacceptA.nonce⟩,
      ⟨hacceptB.fresh, hacceptB.unspent, hacceptB.nonce⟩, fun haddress => ?_⟩
    have hlt := nonce_lt_of_added hs hs₁ hs₂ haddress
    have hlt' := nonce_lt_of_added hs ht₁ ht₂ haddress.symm
    exact UInt64.lt_asymm hlt hlt'
  · intro hsep hwaitA hwaitB
    obtain ⟨s₁, s₂, hfirst, hsecond, hs₁, hs₂⟩ := exists_added h hsep hwaitA hwaitB
    obtain ⟨t₁, t₂, hfirst', hsecond', ht₁, ht₂⟩ := exists_added h.symm hsep.symm hwaitB hwaitA
    exact ⟨s₁, s₂, t₁, t₂, hfirst, hsecond, hfirst', hsecond',
      same_of_added h.hashes hs₁ hs₂ ht₁ ht₂⟩

end Pair

/-! ### Payments to one address and to two -/

def sampleElsewhere : Transaction := { sampleEarlier with toAddress := str "n" }

theorem unrelated_sample (b : Transaction)
    (hvalid : validateTx samplePlatform.cfg (fun _ _ => none) b 1 = true)
    (hhash : sampleLater.txHash ≠ b.txHash) (hinputs : b.inputs = [])
    (hbytes : (estimateTxBytes b).toNat ≤ 1000) :
    Unrelated samplePlatform (fun _ _ => none) {} sampleLater 1 b 1 where
  validA := by decide +kernel
  validB := hvalid
  hashes := hhash
  inputs _ hinput := absurd hinput List.not_mem_nil
  notOnA := by rw [dependsOn, hinputs, List.any_nil]
  notOnB := rfl
  count := by decide
  bytes := by
    have hlater : (estimateTxBytes sampleLater).toNat ≤ 1000 := by decide +kernel
    have hzero : ({} : Mempool).totalBytes.toNat = 0 := rfl
    have hmax : samplePlatform.cfg.maxTotalBytes.toNat = 268435456 := by decide +kernel
    omega

/-- The payment with the greater nonce keeps the other one out if it comes first. -/
theorem not_commutes :
    ¬ ∀ (P : Platform) (getUTXO : Str → Int32 → Option Utxo) (calls : List Call) (s : Mempool)
      (a : Transaction) (feeA : UInt64) (b : Transaction) (feeB : UInt64),
      run (step P) {} calls = some s → Unrelated P getUTXO s a feeA b feeB →
      Commutes P getUTXO s a feeA b feeB := by
  intro h
  have hunrelated := unrelated_sample sampleEarlier (by decide +kernel) (by decide +kernel) rfl
    (by decide +kernel)
  obtain ⟨s₁, s₂, t₁, t₂, hfirst, hsecond, -⟩ := h samplePlatform _ [] {} _ 1 _ 1 rfl hunrelated
  have hlt := nonce_lt_of_added (accounted_empty samplePlatform.cfg) hfirst hsecond rfl
  exact absurd hlt (by decide)

theorem commutes_sampleElsewhere :
    Commutes samplePlatform (fun _ _ => none) {} sampleLater 1 sampleElsewhere 1 := by
  have hunrelated := unrelated_sample sampleElsewhere (by decide +kernel) (by decide +kernel) rfl
    (by decide +kernel)
  have hrun : run (step samplePlatform) {} [] = some {} := rfl
  have hunfollowed (tx : Transaction) :
      Unfollowed samplePlatform (fun _ _ => none) 1 {} tx := by
    intro hash orphan horphan
    rw [AList.lookup_empty] at horphan
    cases horphan
  refine (commutes_iff hrun hunrelated).2 ⟨⟨AList.notMem_empty _, rfl, by decide +kernel⟩,
    ⟨AList.notMem_empty _, rfl, by decide +kernel⟩, by decide +kernel⟩ (hunfollowed _)
    (hunfollowed _)

end Mempool

end Node
