/-
**The books of the mempool.**

The set of spent outputs, the count and the number of bytes always agree with the entries: a
transaction gets in only if none of its inputs is spent by an entry, and the limits are checked
right before it gets in.  Since the limits hold all the time, `trimToCapacity` finds nothing to
remove, so that a full pool refuses a transaction whatever its fee.

An orphan, however, stays an orphan when the same transaction is added again and gets in.

Main definitions:

* `Mempool.Accounted` — the books agree with the entries, and the limits hold;
* `Mempool.Apart` — no transaction is both an entry and an orphan;
* `Mempool.Admits` — the transactions that get in; `Mempool.Unqueued` — no call lets an orphan in.

Main results:

* `Mempool.Accounted.removeTransaction`, `Mempool.Accounted.insertEntry` — **one change**;
* `Mempool.addWithin_spec` — adding a transaction, with the orphans that follow, keeps the books and
  comes to an end;
* `Mempool.perform_spec` — **a call**;
* `Mempool.accounting` — **the books after any run, and when orphans and entries are apart**.
-/

import MedorCoin.Cpp.Numbers
import MedorCoin.Ledger.Outputs
import MedorCoin.Ledger.Table
import MedorCoin.Node.Mempool
import MedorCoin.Node.Validation
import MedorCoin.Transition.Run

set_option autoImplicit false

namespace Node

open Cpp Ledger Transition

namespace Mempool

/-! ### The books -/

/-- **The books agree with the entries, and the limits hold.** -/
structure Accounted (cfg : Config) (s : Mempool) : Prop where
  spent : ∀ key, key ∈ s.spentOutpoints ↔
    ∃ hash entry, s.entries.lookup hash = some entry ∧ key ∈ spentKeys entry.tx
  disjoint : ∀ {hash hash' entry entry'}, s.entries.lookup hash = some entry →
    s.entries.lookup hash' = some entry' → hash ≠ hash' →
    ∀ input ∈ entry.tx.inputs, input ∉ entry'.tx.inputs
  totalBytes : s.totalBytes.toNat = (s.entries.entries.map fun e => e.2.txBytes.toNat).sum
  count : s.entries.keys.length ≤ cfg.maxTxCount
  bytes : s.totalBytes ≤ cfg.maxTotalBytes

/-- **No transaction is both an entry and an orphan.** -/
def Apart (s : Mempool) : Prop := ∀ hash ∈ s.orphans, hash ∉ s.entries

/-- An orphan is filed under its hash. -/
def Filed (s : Mempool) : Prop :=
  ∀ hash entry, s.orphans.lookup hash = some entry → entry.tx.txHash = hash

variable {P : Platform} {cfg : Config} {s : Mempool} {tx : Transaction}

/-- The bytes of the entries. -/
def weigh : Str → MempoolEntry → ℕ := fun _ entry => entry.txBytes.toNat

theorem sum_eq_total (m : EntryMap) :
    (m.entries.map fun e => e.2.txBytes.toNat).sum = Ledger.total weigh m.toFinmap := rfl

theorem Accounted.not_mem_spentKeys (h : Accounted cfg s) {hash hash' : Str}
    {entry entry' : MempoolEntry} (hentry : s.entries.lookup hash = some entry)
    (hentry' : s.entries.lookup hash' = some entry') (hne : hash ≠ hash') {key : Str}
    (hkey : key ∈ spentKeys entry.tx) : key ∉ spentKeys entry'.tx := by
  intro hkey'
  obtain ⟨input, hinput, rfl⟩ := List.mem_map.1 hkey
  obtain ⟨input', hinput', heq⟩ := List.mem_map.1 hkey'
  have hsame : input'.outpoint = input.outpoint := outpointKey_injective heq
  obtain ⟨prevTxHash, outputIndex⟩ := input
  cases hsame
  exact h.disjoint hentry hentry' hne _ hinput hinput'

theorem Accounted.fits (h : Accounted cfg s) : fits cfg s := by
  simp only [Mempool.fits, Bool.and_eq_true, decide_eq_true_eq]
  exact ⟨h.count, h.bytes⟩

theorem Accounted.trimToCapacity (h : Accounted P.cfg s) (baseFee : UInt64) :
    trimToCapacity P s baseFee = s := if_pos h.fits

theorem accounted_empty (cfg : Config) : Accounted cfg {} where
  spent key := by
    constructor
    · intro h
      exact absurd h (Finset.notMem_empty key)
    · rintro ⟨hash, entry, h, -⟩
      rw [AList.lookup_empty] at h
      cases h
  disjoint h := by
    rw [AList.lookup_empty] at h
    cases h
  totalBytes := rfl
  count := Nat.zero_le _
  bytes := UInt64.le_iff_toNat_le.2 (Nat.zero_le _)

/-! ### Removing an entry -/

theorem Accounted.totalBytes_erase (h : Accounted cfg s) {hash : Str} {entry : MempoolEntry}
    (hentry : s.entries.lookup hash = some entry) :
    entry.txBytes.toNat ≤ s.totalBytes.toNat ∧
      ((s.entries.erase hash).entries.map fun e => e.2.txBytes.toNat).sum =
        s.totalBytes.toNat - entry.txBytes.toNat := by
  have hweight : Ledger.weightAt weigh s.entries.toFinmap hash = entry.txBytes.toNat := by
    rw [Ledger.weightAt, Finmap.lookup_toFinmap, hentry]
    rfl
  have herase := Ledger.total_erase weigh s.entries.toFinmap hash
  rw [hweight, Finmap.erase_toFinmap, ← sum_eq_total, ← sum_eq_total, ← h.totalBytes] at herase
  omega

/-- **An entry is removed.** -/
theorem Accounted.removeTransaction (h : Accounted cfg s) (hash : Str) :
    Accounted cfg (removeTransaction s hash) := by
  unfold Mempool.removeTransaction
  cases hentry : s.entries.lookup hash with
  | none => exact h
  | some entry =>
      obtain ⟨hle, hsum⟩ := h.totalBytes_erase hentry
      have hbytes : (s.totalBytes - entry.txBytes).toNat =
          s.totalBytes.toNat - entry.txBytes.toNat :=
        UInt64.toNat_sub_of_le _ _ (UInt64.le_iff_toNat_le.2 hle)
      refine ⟨fun key => ?_, ?_, hbytes.trans hsum.symm, ?_, ?_⟩
      · rw [Finset.mem_sdiff, List.mem_toFinset, h.spent]
        constructor
        · rintro ⟨⟨hash', entry', hentry', hkey⟩, hnot⟩
          refine ⟨hash', entry', ?_, hkey⟩
          have hne : hash' ≠ hash := by
            rintro rfl
            rw [hentry, Option.some.injEq] at hentry'
            exact hnot (hentry' ▸ hkey)
          change (s.entries.erase hash).lookup hash' = _
          rw [AList.lookup_erase_ne hne, hentry']
        · rintro ⟨hash', entry', hentry', hkey⟩
          obtain ⟨hne, hentry'⟩ := lookup_erase_cases hentry'
          exact ⟨⟨hash', entry', hentry', hkey⟩, h.not_mem_spentKeys hentry' hentry hne hkey⟩
      · intro hash₁ hash₂ entry₁ entry₂ h₁ h₂ hne
        exact h.disjoint (lookup_erase_cases h₁).2 (lookup_erase_cases h₂).2 hne
      · exact (length_keys_erase_le s.entries hash).trans h.count
      · refine UInt64.le_iff_toNat_le.2 ?_
        have := UInt64.le_iff_toNat_le.1 h.bytes
        change (s.totalBytes - entry.txBytes).toNat ≤ _
        omega

/-! ### Putting an entry in -/

theorem isDoubleSpend_eq_false :
    isDoubleSpend s tx = false ↔ ∀ key ∈ spentKeys tx, key ∉ s.spentOutpoints := by
  simp [isDoubleSpend]

theorem isFull_eq_false {txBytes : UInt64} :
    isFull cfg s txBytes = false ↔
      s.entries.keys.length < cfg.maxTxCount ∧ s.totalBytes + txBytes ≤ cfg.maxTotalBytes := by
  simp [isFull, UInt64.not_lt]

/-- The entry that is made of a transaction. -/
def newEntry (P : Platform) (s : Mempool) (tx : Transaction) (baseFee txBytes : UInt64) :
    MempoolEntry :=
  { tx, addedAt := P.clock s.readings, effectiveFee := effectiveFee tx baseFee, txBytes }

@[simp] theorem insertEntry_entries (P : Platform) (s : Mempool) (tx : Transaction)
    (baseFee txBytes : UInt64) :
    (insertEntry P s tx baseFee txBytes).entries =
      s.entries.insert tx.txHash (newEntry P s tx baseFee txBytes) := rfl

@[simp] theorem insertEntry_spentOutpoints (P : Platform) (s : Mempool) (tx : Transaction)
    (baseFee txBytes : UInt64) :
    (insertEntry P s tx baseFee txBytes).spentOutpoints =
      s.spentOutpoints ∪ (spentKeys tx).toFinset := rfl

@[simp] theorem insertEntry_orphans (P : Platform) (s : Mempool) (tx : Transaction)
    (baseFee txBytes : UInt64) : (insertEntry P s tx baseFee txBytes).orphans = s.orphans := rfl

/-- **An entry is put in.** -/
theorem Accounted.insertEntry (h : Accounted P.cfg s) (baseFee : UInt64) {txBytes : UInt64}
    (hnew : tx.txHash ∉ s.entries) (hspend : isDoubleSpend s tx = false)
    (hfull : isFull P.cfg s txBytes = false) (hle : txBytes ≤ uint64Max - s.totalBytes) :
    Accounted P.cfg (insertEntry P s tx baseFee txBytes) := by
  rw [isDoubleSpend_eq_false] at hspend
  obtain ⟨hcount, hbytes⟩ := isFull_eq_false.1 hfull
  have hadd : (s.totalBytes + txBytes).toNat = s.totalBytes.toNat + txBytes.toNat :=
    toNat_add_of_lt ((le_max_sub_iff rfl).1 hle)
  refine ⟨fun key => ?_, ?_, ?_, ?_, hbytes⟩
  · rw [insertEntry_spentOutpoints, insertEntry_entries, Finset.mem_union, List.mem_toFinset,
      h.spent]
    constructor
    · rintro (⟨hash, entry, hentry, hkey⟩ | hkey)
      · have hne : hash ≠ tx.txHash := by
          rintro rfl
          exact hnew (AList.lookup_isSome.1 (by rw [hentry]; rfl))
        exact ⟨hash, entry, (AList.lookup_insert_ne hne).trans hentry, hkey⟩
      · exact ⟨tx.txHash, _, AList.lookup_insert _, hkey⟩
    · rintro ⟨hash, entry, hentry, hkey⟩
      rcases lookup_insert_cases hentry with ⟨-, rfl⟩ | ⟨-, hentry⟩
      · exact .inr hkey
      · exact .inl ⟨hash, entry, hentry, hkey⟩
  · -- an input of the new entry and of another one would be spent twice
    have hfresh : ∀ {hash entry}, s.entries.lookup hash = some entry →
        ∀ input ∈ tx.inputs, input ∉ entry.tx.inputs := by
      intro hash entry hentry input hinput hinput'
      exact hspend _ (List.mem_map_of_mem hinput)
        ((h.spent _).2 ⟨hash, entry, hentry, List.mem_map_of_mem hinput'⟩)
    intro hash hash' entry entry' hentry hentry' hne input hinput hinput'
    rw [insertEntry_entries] at hentry hentry'
    rcases lookup_insert_cases hentry with ⟨heq, rfl⟩ | ⟨-, hold⟩
    · rcases lookup_insert_cases hentry' with ⟨heq', -⟩ | ⟨-, hold'⟩
      · exact hne (heq.trans heq'.symm)
      · exact hfresh hold' input hinput hinput'
    · rcases lookup_insert_cases hentry' with ⟨-, rfl⟩ | ⟨-, hold'⟩
      · exact hfresh hold input hinput' hinput
      · exact h.disjoint hold hold' hne input hinput hinput'
  · rw [insertEntry_entries, sum_eq_total, ← Finmap.insert_toFinmap,
      Ledger.total_insert weigh (by rwa [Finmap.mem_toFinmap]), ← sum_eq_total, ← h.totalBytes]
    exact hadd.trans (Nat.add_comm _ _)
  · rw [insertEntry_entries, AList.insert_of_notMem hnew]
    exact hcount

/-! ### Orphans -/

theorem lookup_eraseAll {keys : List Str} {m : EntryMap} {hash : Str} {entry : MempoolEntry}
    (h : (eraseAll m keys).lookup hash = some entry) :
    hash ∉ keys ∧ m.lookup hash = some entry := by
  induction keys generalizing m with
  | nil => exact ⟨List.not_mem_nil, h⟩
  | cons key keys ih =>
      obtain ⟨hnot, hlookup⟩ := ih h
      obtain ⟨hne, hlookup⟩ := lookup_erase_cases hlookup
      exact ⟨List.not_mem_cons_of_ne_of_not_mem hne hnot, hlookup⟩

/-- Some of the orphans are left, each with its entry. -/
def OrphansOf (s s' : Mempool) : Prop :=
  ∀ hash entry, s'.orphans.lookup hash = some entry → s.orphans.lookup hash = some entry

theorem OrphansOf.filed {s s' : Mempool} (h : OrphansOf s s') (hs : Filed s) : Filed s' :=
  fun hash entry hentry => hs hash entry (h hash entry hentry)

theorem OrphansOf.mem {s s' : Mempool} (h : OrphansOf s s') {hash : Str}
    (hmem : hash ∈ s'.orphans) : hash ∈ s.orphans := by
  obtain ⟨entry, hentry⟩ := exists_lookup hmem
  exact mem_of_lookup (h hash entry hentry)

theorem lookup_orphansWithRoom {hash : Str} {entry : MempoolEntry}
    (h : (orphansWithRoom P s).lookup hash = some entry) : s.orphans.lookup hash = some entry := by
  unfold orphansWithRoom at h
  split at h
  · split at h
    · exact (lookup_erase_cases h).2
    · exact h
  · exact h

theorem lookup_addOrphanLocked {hash : Str} {entry : MempoolEntry}
    (h : (addOrphanLocked P s tx).orphans.lookup hash = some entry) :
    s.orphans.lookup hash = some entry ∨ (hash = tx.txHash ∧ entry.tx = tx) := by
  unfold addOrphanLocked nowSecs at h
  simp only at h
  split at h
  · exact .inl (lookup_orphansWithRoom h)
  · rcases lookup_insert_cases h with ⟨hhash, rfl⟩ | ⟨-, hold⟩
    · exact .inr ⟨hhash, rfl⟩
    · exact .inl (lookup_orphansWithRoom hold)

@[simp] theorem addOrphanLocked_entries : (addOrphanLocked P s tx).entries = s.entries := by
  unfold addOrphanLocked nowSecs
  simp only
  split <;> rfl

theorem Accounted.addOrphanLocked (h : Accounted cfg s) :
    Accounted cfg (addOrphanLocked P s tx) := by
  unfold Mempool.addOrphanLocked nowSecs
  simp only
  split
  · exact ⟨h.spent, h.disjoint, h.totalBytes, h.count, h.bytes⟩
  · exact ⟨h.spent, h.disjoint, h.totalBytes, h.count, h.bytes⟩

theorem takeDependents_spec (hs : Filed s) (hash : Str) :
    OrphansOf s (takeDependents P s hash).2 ∧
      ((takeDependents P s hash).1.map Transaction.txHash).Nodup ∧
      ∀ t ∈ (takeDependents P s hash).1,
        t.txHash ∈ s.orphans ∧ t.txHash ∉ (takeDependents P s hash).2.orphans := by
  set dependents := (P.order s.orphans.entries).filter fun entry => dependsOn entry.2.tx hash
    with hdependents
  have hmem : ∀ entry ∈ dependents, s.orphans.lookup entry.1 = some entry.2 := by
    intro entry hentry
    rw [hdependents, List.mem_filter, (P.order_perm _).mem_iff] at hentry
    exact AList.mem_lookup_iff.2 hentry.1
  have hkeys : dependents.map (fun entry => entry.2.tx.txHash) = dependents.map Sigma.fst :=
    List.map_congr_left fun entry hentry => hs _ _ (hmem entry hentry)
  have hnodup : (dependents.map Sigma.fst).Nodup := by
    have hperm := (P.order_perm s.orphans.entries).map Sigma.fst
    exact (hperm.nodup_iff.2 s.orphans.nodupKeys).sublist (List.filter_sublist.map _)
  refine ⟨fun hash entry h => (lookup_eraseAll h).2, ?_, ?_⟩
  · rw [takeDependents, List.map_map]
    change (dependents.map fun entry => entry.2.tx.txHash).Nodup
    rwa [hkeys]
  · intro t ht
    obtain ⟨entry, hentry, rfl⟩ := List.mem_map.1 ht
    have hfiled := hs _ _ (hmem entry hentry)
    rw [hfiled]
    refine ⟨mem_of_lookup (hmem entry hentry), fun h => ?_⟩
    obtain ⟨entry', hentry'⟩ := exists_lookup h
    exact (lookup_eraseAll hentry').1 (List.mem_map_of_mem hentry)

/-! ### Which transactions get in -/

/-- **A transaction gets in**, by the checks that the pool makes. -/
def Admits (P : Platform) (getUTXO : Str → Int32 → Option Utxo) (s : Mempool) (tx : Transaction)
    (baseFee : UInt64) : Bool :=
  validateTx P.cfg getUTXO tx baseFee && estimateTxBytes tx ≤ uint64Max - s.totalBytes &&
    !(tx.txHash ∈ s.entries) && !isDoubleSpend s tx && checkNonceOrdering P s tx &&
    !isFull P.cfg s (estimateTxBytes tx)

theorem addLocked_cases (h : Accounted P.cfg s) (tx : Transaction) (baseFee txBytes : UInt64) :
    (addLocked P s tx baseFee txBytes = (true, insertEntry P s tx baseFee txBytes) ∧
      tx.txHash ∉ s.entries ∧ isDoubleSpend s tx = false ∧ checkNonceOrdering P s tx = true ∧
      isFull P.cfg s txBytes = false) ∨
    (addLocked P s tx baseFee txBytes = (false, addOrphanLocked P s tx) ∧
      tx.txHash ∉ s.entries) ∨
    addLocked P s tx baseFee txBytes = (false, s) := by
  unfold addLocked
  by_cases hentry : tx.txHash ∈ s.entries
  · exact .inr (.inr (if_pos hentry))
  rw [if_neg hentry]
  cases hspend : isDoubleSpend s tx with
  | true => exact .inr (.inr rfl)
  | false =>
      cases hnonce : checkNonceOrdering P s tx with
      | false => exact .inr (.inl ⟨rfl, hentry⟩)
      | true =>
          cases hfull : isFull P.cfg s txBytes with
          | false => exact .inl ⟨rfl, hentry, rfl, rfl, rfl⟩
          | true =>
              -- trimming leaves the pool as it is, which is still full
              refine .inr (.inr ?_)
              simp [h.trimToCapacity, hentry, hspend, hfull]

/-! ### Adding a transaction -/

/-- A call returns with `Q`, or it waits for a stripe that it holds itself. -/
def Returns {α : Type} (r : Except Stuck α) (Q : α → Prop) : Prop :=
  match r with
  | .ok a => Q a
  | .error e => e = .deadlock

theorem Returns.bind {α β : Type} {r : Except Stuck α} {f : α → Except Stuck β} {Q : α → Prop}
    {R : β → Prop} (h : Returns r Q) (hf : ∀ a, Q a → Returns (f a) R) : Returns (r >>= f) R := by
  cases r with
  | ok a => exact hf a h
  | error e => exact h

theorem Returns.mono {α : Type} {r : Except Stuck α} {Q R : α → Prop} (h : Returns r Q)
    (hQR : ∀ a, Q a → R a) : Returns r R := by
  cases r with
  | ok a => exact hQR a h
  | error e => exact h

theorem Returns.map {α β : Type} {r : Except Stuck α} {f : α → β} {Q : β → Prop}
    (h : Returns r fun a => Q (f a)) : Returns (r.map f) Q := by
  cases r with
  | ok a => exact h
  | error e => exact h

/-- The books agree with the entries, and the orphans are filed under their hashes. -/
structure Sound (P : Platform) (s : Mempool) : Prop where
  accounted : Accounted P.cfg s
  filed : Filed s

/-- The pool stays sound, and its orphans are among `K`. -/
structure Kept (P : Platform) (K : List Str) (s : Mempool) : Prop where
  sound : Sound P s
  orphans : ∀ hash ∈ s.orphans, hash ∈ K

theorem Sound.addOrphanLocked (h : Sound P s) (tx : Transaction) :
    Sound P (addOrphanLocked P s tx) where
  accounted := h.accounted.addOrphanLocked
  filed := by
    intro hash entry hentry
    rcases lookup_addOrphanLocked hentry with hold | ⟨rfl, htx⟩
    · exact h.filed hash entry hold
    · rw [htx]

theorem Apart.addOrphanLocked (h : Apart s) (hnew : tx.txHash ∉ s.entries) :
    Apart (addOrphanLocked P s tx) := by
  intro hash hmem
  rw [addOrphanLocked_entries]
  obtain ⟨entry, hentry⟩ := exists_lookup hmem
  rcases lookup_addOrphanLocked hentry with hold | ⟨rfl, -⟩
  · exact h hash (mem_of_lookup hold)
  · exact hnew

theorem length_orphans_lt {K : List Str} {hash : Str} (hK : ∀ hash ∈ s.orphans, hash ∈ K)
    (hmem : hash ∈ K) (hnot : hash ∉ s.orphans) : s.orphans.keys.length < K.length := by
  have hsub : (hash :: s.orphans.keys) ⊆ K := by
    intro k hk
    rcases List.mem_cons.1 hk with rfl | hk
    · exact hmem
    · exact hK k hk
  exact (List.nodup_cons.2 ⟨hnot, s.orphans.keys_nodup⟩).length_le_of_subset hsub

theorem addEach_spec {add : Mempool → Transaction → Except Stuck (Bool × Mempool)} {K : List Str}
    (hadd : ∀ {s tx}, Sound P s → s.orphans.keys.length < K.length → tx.txHash ∉ s.orphans →
      Returns (add s tx) fun r =>
        Kept P (tx.txHash :: s.orphans.keys) r.2 ∧ (Apart s → Apart r.2))
    {txs : List Transaction} (hs : Kept P K s) (hnodup : (txs.map Transaction.txHash).Nodup)
    (htxs : ∀ t ∈ txs, t.txHash ∈ K ∧ t.txHash ∉ s.orphans) :
    Returns (addEach add txs s) fun s' => Kept P K s' ∧ (Apart s → Apart s') := by
  induction txs generalizing s with
  | nil => exact ⟨hs, id⟩
  | cons t txs ih =>
      obtain ⟨hmem, hnot⟩ := htxs t List.mem_cons_self
      obtain ⟨hfirst, hnodup⟩ := List.nodup_cons.1 hnodup
      refine (hadd hs.sound (length_orphans_lt hs.orphans hmem hnot) hnot).bind ?_
      rintro ⟨_, s'⟩ ⟨hkept, hapart⟩
      have horphans : ∀ hash ∈ s'.orphans, hash = t.txHash ∨ hash ∈ s.orphans := fun hash h =>
        List.mem_cons.1 (hkept.orphans hash h)
      refine (ih ⟨hkept.sound, fun hash h => ?_⟩ hnodup fun t' ht' => ?_).mono
        fun s'' h => ⟨h.1, h.2 ∘ hapart⟩
      · rcases horphans hash h with rfl | h
        · exact hmem
        · exact hs.orphans hash h
      · obtain ⟨hmem', hnot'⟩ := htxs t' (List.mem_cons_of_mem _ ht')
        refine ⟨hmem', fun h => ?_⟩
        rcases horphans _ h with heq | h
        · exact hfirst (heq ▸ List.mem_map_of_mem ht')
        · exact hnot' h

theorem promote_spec {add : Mempool → Transaction → Except Stuck (Bool × Mempool)}
    {s₁ : Mempool} (hs : Sound P s) (hs₁ : Accounted P.cfg s₁) (horphans₁ : s₁.orphans = s.orphans)
    (hentries₁ : ∀ hash, hash ∈ s₁.entries → hash = tx.txHash ∨ hash ∈ s.entries)
    (hadd : ∀ {s' t}, Sound P s' → s'.orphans.keys.length < s.orphans.keys.length →
      t.txHash ∉ s'.orphans → Returns (add s' t) fun r =>
        Kept P (t.txHash :: s'.orphans.keys) r.2 ∧ (Apart s' → Apart r.2)) :
    Returns (addEach add (takeDependents P s₁ tx.txHash).1 (takeDependents P s₁ tx.txHash).2)
      fun s' => Kept P s.orphans.keys s' ∧ (tx.txHash ∉ s.orphans → Apart s → Apart s') := by
  have hfiled₁ : Filed s₁ := by
    rw [Filed, horphans₁]
    exact hs.filed
  obtain ⟨hsub, hnodup, htaken⟩ := takeDependents_spec hfiled₁ tx.txHash
  have hmem : ∀ hash ∈ (takeDependents P s₁ tx.txHash).2.orphans, hash ∈ s.orphans :=
    fun hash h => horphans₁ ▸ hsub.mem h
  have hkept : Kept P s.orphans.keys (takeDependents P s₁ tx.txHash).2 :=
    ⟨⟨⟨hs₁.spent, hs₁.disjoint, hs₁.totalBytes, hs₁.count, hs₁.bytes⟩, hsub.filed hfiled₁⟩, hmem⟩
  refine (addEach_spec hadd hkept hnodup fun t ht => ?_).mono
    fun s' h => ⟨h.1, fun hnot hapart => h.2 fun hash horphan hentry => ?_⟩
  · obtain ⟨horphan, hgone⟩ := htaken t ht
    exact ⟨horphans₁ ▸ horphan, hgone⟩
  · rcases hentries₁ hash hentry with rfl | hentry
    · exact hnot (hmem _ horphan)
    · exact hapart hash (hmem hash horphan) hentry

/-- **Adding a transaction**, with the orphans that follow, by induction on the fuel: a transaction
that gets in takes its dependents out of the orphans, so that there are fewer orphans whenever one
of these is added. -/
theorem addWithin_spec (getUTXO : Str → Int32 → Option Utxo) (baseFee : UInt64) (fuel : ℕ)
    {held : List ℕ} (hs : Sound P s) (hfuel : s.orphans.keys.length < fuel) :
    Returns (addWithin P getUTXO baseFee fuel held s tx) fun r =>
      Kept P (tx.txHash :: s.orphans.keys) r.2 ∧
        ((tx.txHash ∈ s.orphans → Admits P getUTXO s tx baseFee = false) → Apart s →
          Apart r.2) := by
  induction fuel generalizing s tx held with
  | zero => omega
  | succ fuel ih =>
      have hself : Kept P (tx.txHash :: s.orphans.keys) s :=
        ⟨hs, fun _ h => List.mem_cons_of_mem _ h⟩
      rw [addWithin]
      cases hvalid : validateTx P.cfg getUTXO tx baseFee with
      | false => exact ⟨hself, fun _ h => h⟩
      | true =>
          by_cases hover : estimateTxBytes tx > uint64Max - s.totalBytes
          · simp only [hover, if_true]
            exact ⟨hself, fun _ h => h⟩
          by_cases hheld : stripeFor P tx.txHash ∈ held
          · simp only [hover, hheld, if_true, if_false]
            exact rfl
          simp only [hover, hheld, if_false, Bool.not_true, Bool.false_eq_true]
          rcases addLocked_cases hs.accounted tx baseFee (estimateTxBytes tx) with
            ⟨hlocked, hnew, hspend, hnonce, hfull⟩ | ⟨hlocked, hnew⟩ | hlocked
          · rw [hlocked]
            have hinserted := hs.accounted.insertEntry baseFee hnew hspend hfull
              (UInt64.not_lt.1 hover)
            have hentries (hash : Str)
                (h : hash ∈ (insertEntry P s tx baseFee (estimateTxBytes tx)).entries) :
                hash = tx.txHash ∨ hash ∈ s.entries := (AList.mem_insert _).1 h
            refine (promote_spec hs hinserted rfl hentries fun hs' hlt hnot => ?_).bind ?_
            · refine (ih hs' (by omega)).mono fun r hr => ⟨hr.1, hr.2 fun h => absurd h hnot⟩
            · rintro s' ⟨hkept, hapart⟩
              refine ⟨⟨hkept.sound, fun hash h => List.mem_cons_of_mem _ (hkept.orphans hash h)⟩,
                fun hfresh => hapart fun horphan => ?_⟩
              have hadmits : Admits P getUTXO s tx baseFee = true := by
                simp [Admits, hvalid, UInt64.not_lt.1 hover, hnew, hspend, hnonce, hfull]
              rw [hfresh horphan] at hadmits
              cases hadmits
          · rw [hlocked]
            refine ⟨⟨hs.addOrphanLocked tx, fun hash h => ?_⟩, fun _ h => h.addOrphanLocked hnew⟩
            obtain ⟨entry, hentry⟩ := exists_lookup h
            rcases lookup_addOrphanLocked hentry with hold | ⟨rfl, -⟩
            · exact List.mem_cons_of_mem _ (mem_of_lookup hold)
            · exact List.mem_cons_self
          · rw [hlocked]
            exact ⟨hself, fun _ h => h⟩

theorem addTransaction_spec (getUTXO : Str → Int32 → Option Utxo) (baseFee : UInt64)
    (hs : Sound P s) (tx : Transaction) :
    Returns (addTransaction P getUTXO baseFee s tx) fun r => Sound P r.2 ∧
      ((tx.txHash ∈ s.orphans → Admits P getUTXO s tx baseFee = false) → Apart s →
        Apart r.2) :=
  (addWithin_spec getUTXO baseFee _ hs (Nat.lt_succ_self _)).mono
    fun _ h => ⟨h.1.sound, h.2⟩

/-! ### Removing and evicting -/

/-- Entries and orphans are only taken away. -/
structure Evicted (cfg : Config) (s s' : Mempool) : Prop where
  accounted : Accounted cfg s → Accounted cfg s'
  orphans : OrphansOf s s'
  entries : ∀ hash ∈ s'.entries, hash ∈ s.entries

theorem Evicted.refl (s : Mempool) : Evicted cfg s s := ⟨id, fun _ _ => id, fun _ => id⟩

theorem Evicted.trans {s₁ s₂ s₃ : Mempool} (h₁ : Evicted cfg s₁ s₂) (h₂ : Evicted cfg s₂ s₃) :
    Evicted cfg s₁ s₃ :=
  ⟨h₂.accounted ∘ h₁.accounted, fun hash entry h => h₁.orphans hash entry (h₂.orphans hash entry h),
    fun hash h => h₁.entries hash (h₂.entries hash h)⟩

theorem Evicted.sound {s s' : Mempool} (h : Evicted P.cfg s s') (hs : Sound P s) : Sound P s' :=
  ⟨h.accounted hs.accounted, h.orphans.filed hs.filed⟩

theorem Evicted.apart {s s' : Mempool} (h : Evicted cfg s s') (hs : Apart s) : Apart s' :=
  fun hash hmem hentry => hs hash (h.orphans.mem hmem) (h.entries hash hentry)

theorem evicted_nowSecs (s : Mempool) : Evicted cfg s (nowSecs P s).2 :=
  ⟨fun h => ⟨h.spent, h.disjoint, h.totalBytes, h.count, h.bytes⟩, fun _ _ => id, fun _ => id⟩

theorem evicted_removeTransaction (s : Mempool) (hash : Str) :
    Evicted cfg s (removeTransaction s hash) where
  accounted h := h.removeTransaction hash
  orphans := by
    unfold Mempool.removeTransaction
    split
    · exact fun _ _ => id
    · exact fun _ _ => id
  entries := by
    unfold Mempool.removeTransaction
    split
    · exact fun _ => id
    · exact fun _ h => (AList.mem_erase.1 h).2

theorem evicted_removeAll (hashes : List Str) (s : Mempool) :
    Evicted cfg s (removeAll s hashes) := by
  induction hashes generalizing s with
  | nil => exact .refl s
  | cons hash hashes ih => exact (evicted_removeTransaction s hash).trans (ih _)

theorem evicted_trimLoop (hashes : List Str) (s : Mempool) :
    Evicted cfg s (trimLoop cfg hashes s) := by
  induction hashes generalizing s with
  | nil => exact .refl s
  | cons hash hashes ih =>
      unfold trimLoop
      split
      · exact .refl s
      · exact (evicted_removeTransaction s hash).trans (ih _)

theorem evicted_trimToCapacity (s : Mempool) (baseFee : UInt64) :
    Evicted P.cfg s (trimToCapacity P s baseFee) := by
  unfold Mempool.trimToCapacity
  split
  · exact .refl s
  · exact evicted_trimLoop _ s

theorem evicted_evictStaleOrphans (s : Mempool) : Evicted P.cfg s (evictStaleOrphans P s) := by
  refine (evicted_nowSecs (P := P) s).trans
    ⟨fun h => ?_, fun _ _ h => (lookup_eraseAll h).2, fun _ => id⟩
  exact ⟨h.spent, h.disjoint, h.totalBytes, h.count, h.bytes⟩

theorem evicted_evictStale (s : Mempool) : Evicted P.cfg s (evictStale P s) :=
  ((evicted_nowSecs (P := P) s).trans (evicted_removeAll _ _)).trans (evicted_evictStaleOrphans _)

/-! ### Runs of calls -/

/-- **No call lets a transaction in that is an orphan.** -/
def Unqueued (P : Platform) (s : Mempool) : Call → Prop
  | .addTransaction getUTXO tx baseFee =>
      tx.txHash ∈ s.orphans → Admits P getUTXO s tx baseFee = false
  | .reorgRestore getUTXO reorgedOut =>
      ∀ pre tx post s', reorgedOut = pre ++ tx :: post →
        reorgRestore P getUTXO pre s = .ok s' →
        tx.txHash ∈ s'.orphans → Admits P getUTXO s' tx P.cfg.minFeePerGas = false
  | _ => True

theorem reorgRestore_spec (getUTXO : Str → Int32 → Option Utxo) {reorgedOut : List Transaction}
    (hs : Sound P s) :
    Returns (reorgRestore P getUTXO reorgedOut s) fun s' => Sound P s' ∧
      (Unqueued P s (.reorgRestore getUTXO reorgedOut) → Apart s → Apart s') := by
  induction reorgedOut generalizing s with
  | nil => exact ⟨hs, fun _ h => h⟩
  | cons tx txs ih =>
      unfold reorgRestore addEach
      by_cases hentry : tx.txHash ∈ s.entries
      · simp only [hentry, if_true]
        refine (ih hs).mono fun s' h => ⟨h.1, fun hfresh => h.2 ?_⟩
        intro pre t post s'' hsplit hrun
        refine hfresh (tx :: pre) t post s'' (by rw [hsplit]; rfl) ?_
        unfold reorgRestore addEach
        simp only [hentry, if_true]
        exact hrun
      · simp only [hentry, if_false]
        cases hadd : addTransaction P getUTXO P.cfg.minFeePerGas s tx with
        | error e =>
            have hspec := addTransaction_spec getUTXO P.cfg.minFeePerGas hs tx
            rw [hadd] at hspec
            exact hspec
        | ok r =>
            have hspec := addTransaction_spec getUTXO P.cfg.minFeePerGas hs tx
            rw [hadd] at hspec
            refine (ih hspec.1).mono fun s' h =>
              ⟨h.1, fun hfresh hapart => h.2 ?_ (hspec.2 ?_ hapart)⟩
            · intro pre t post s'' hsplit hrun
              refine hfresh (tx :: pre) t post s'' (by rw [hsplit]; rfl) ?_
              unfold reorgRestore addEach
              simp only [hentry, if_false, hadd]
              exact hrun
            · exact hfresh [] tx txs s rfl rfl

/-- **A call** returns unless it waits for a stripe that it holds; it keeps the books, and it keeps
entries and orphans apart unless it lets an orphan in. -/
theorem perform_spec (hs : Sound P s) (call : Call) :
    Returns (perform P s call) fun s' => Sound P s' ∧ (Unqueued P s call → Apart s → Apart s') := by
  have hevicted {s' : Mempool} (h : Evicted P.cfg s s') :
      Sound P s' ∧ (Unqueued P s call → Apart s → Apart s') :=
    ⟨h.sound hs, fun _ => h.apart⟩
  cases call with
  | addTransaction getUTXO tx baseFee =>
      exact (addTransaction_spec getUTXO baseFee hs tx).map
  | removeTransaction txHash => exact hevicted (evicted_removeTransaction s txHash)
  | removeConfirmed block => exact hevicted (evicted_removeAll _ s)
  | reorgRestore getUTXO reorgedOut => exact reorgRestore_spec getUTXO hs
  | evictStale baseFee => exact hevicted (evicted_evictStale s)
  | evictLowFee newBaseFee => exact hevicted (evicted_removeAll _ s)
  | trimToCapacity baseFee => exact hevicted (evicted_trimToCapacity s baseFee)

theorem step_spec (hs : Sound P s) {call : Call} {s' : Mempool} (h : step P s call = some s') :
    Sound P s' ∧ (Unqueued P s call → Apart s → Apart s') := by
  have hspec := perform_spec hs call
  unfold step at h
  cases hperform : perform P s call with
  | ok s'' =>
      rw [hperform] at hspec h
      cases h
      exact hspec
  | error e =>
      rw [hperform] at h
      cases h

theorem sound_empty (P : Platform) : Sound P {} where
  accounted := accounted_empty P.cfg
  filed hash entry h := by
    rw [AList.lookup_empty] at h
    cases h

theorem apart_empty : Apart {} := fun hash h => absurd h (AList.notMem_empty hash)

/-- **The books after any run.**  They agree with the entries and the limits hold whatever is
called; orphans and entries are apart in every run in which no call lets an orphan in. -/
theorem accounting {calls : List Call} (hrun : run (step P) {} calls = some s) :
    Accounted P.cfg s ∧
      (EveryStep (step P) (fun s call _ => Unqueued P s call) {} calls → Apart s) := by
  constructor
  · exact (run_invariant (fun s call s' h hstep => (step_spec h hstep).1) (sound_empty P)
      hrun).accounted
  · intro hfresh
    exact (run_induction (I := fun s => Sound P s ∧ Apart s)
      (fun s call s' h hcall hstep =>
        have hspec := step_spec h.1 hstep
        ⟨hspec.1, hspec.2 hcall h.2⟩) ⟨sound_empty P, apart_empty⟩ hfresh hrun).2

/-! ### An orphan that is added again -/

def samplePlatform : Platform where
  cfg := {}
  hash := fun _ => 0
  order := id
  order_perm := fun _ => .refl _
  clock := fun n => UInt64.ofNat n

def sampleLater : Transaction where
  nonce := 5
  maxFeePerGas := 10
  toAddress := str "m"
  txHash := List.replicate 64 97

def sampleEarlier : Transaction where
  nonce := 3
  maxFeePerGas := 10
  toAddress := str "m"
  txHash := List.replicate 64 98

def sampleCalls : List Call :=
  [.addTransaction (fun _ _ => none) sampleLater 1,
    .addTransaction (fun _ _ => none) sampleEarlier 1,
    .removeConfirmed [sampleLater],
    .addTransaction (fun _ _ => none) sampleEarlier 1]

theorem not_apart :
    ¬ ∀ (P : Platform) (calls : List Call) (s : Mempool), run (step P) {} calls = some s →
      Accounted P.cfg s ∧ Apart s := by
  intro h
  have hrun : ((run (step samplePlatform) {} sampleCalls).map fun s =>
      decide (sampleEarlier.txHash ∈ s.orphans ∧ sampleEarlier.txHash ∈ s.entries)) =
        some true := by decide +kernel
  obtain ⟨s, hs, hboth⟩ := Option.map_eq_some_iff.1 hrun
  obtain ⟨horphan, hentry⟩ := of_decide_eq_true hboth
  exact (h samplePlatform sampleCalls s hs).2 _ horphan hentry

theorem accounting_sampleCalls :
    ∃ s, run (step samplePlatform) {} (sampleCalls.take 3) = some s ∧
      Accounted samplePlatform.cfg s ∧ Apart s := by
  have hsome : (run (step samplePlatform) {} (sampleCalls.take 3)).isSome := by decide +kernel
  obtain ⟨s, hrun⟩ := Option.isSome_iff_exists.1 hsome
  obtain ⟨haccounted, hapart⟩ := accounting hrun
  refine ⟨s, hrun, haccounted, hapart fun s₁ h₁ => ⟨fun h => ?_, fun s₂ _ => ⟨fun h => ?_, ?_⟩⟩⟩
  · exact absurd h (AList.notMem_empty _)
  · have hnot : (step samplePlatform {} (.addTransaction (fun _ _ => none) sampleLater 1)).map
        (fun s => decide (sampleEarlier.txHash ∈ s.orphans)) = some false := by decide +kernel
    rw [h₁, Option.map_some, Option.some.injEq] at hnot
    exact absurd h (of_decide_eq_false hnot)
  · exact fun s₃ _ => ⟨trivial, trivial⟩

end Mempool

end Node
