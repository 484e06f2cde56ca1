/-
**Fees and the limits of the mempool.**

When there is no room for a transaction, `addTransaction` calls `trimToCapacity`, which goes through
the entries from the lowest fee on.  It stops as soon as the limits hold, and looks at the limits
without the transaction.  These hold all the time, so that nothing is ever removed, and the
transaction is refused whatever it pays.

Main definitions:

* `Node.Mempool.Room` — there is room for a transaction;
* `Node.Mempool.Outbid`, `Node.Mempool.Entitled` — it pays more than enough of the lowest entries;
* `Node.Mempool.Crowded` — the entries that pay as much take all the room;
* `Node.Mempool.Replacement` — a transaction that is entitled gets in, and another one does not.

Main results:

* `Node.Mempool.entries_removeAll` — **what several removals leave**;
* `Node.Mempool.entitled_iff` — a transaction is entitled unless the pool is crowded;
* `Node.Mempool.addTransaction_full` — **a full pool refuses** and keeps its entries;
* `Node.Mempool.replacement_iff` — **where the replacement works**.
-/

import MedorCoin.Node.MempoolAccounting

set_option autoImplicit false

namespace Node

namespace Mempool

open Cpp Ledger Transition

variable {P : Platform} {cfg : Config} {s : Mempool} {tx : Transaction} {baseFee : UInt64}

/-! ### Removing several entries -/

theorem entries_removeTransaction (s : Mempool) (hash : Str) :
    (removeTransaction s hash).entries.entries =
      s.entries.entries.filter fun e => e.1 ≠ hash := by
  rw [← entries_erase]
  unfold removeTransaction
  cases hentry : s.entries.lookup hash with
  | none => exact (List.kerase_of_notMem_keys (AList.lookup_eq_none.1 hentry)).symm
  | some entry => rfl

/-- **What several removals leave.** -/
theorem entries_removeAll (s : Mempool) (hashes : List Str) :
    (removeAll s hashes).entries.entries =
      s.entries.entries.filter fun e => e.1 ∉ hashes := by
  induction hashes generalizing s with
  | nil => simp [removeAll]
  | cons hash hashes ih =>
      change (removeAll (removeTransaction s hash) hashes).entries.entries = _
      rw [ih, entries_removeTransaction, List.filter_filter]
      refine List.filter_congr fun e _ => ?_
      simp [Bool.and_comm]

/-! ### Room -/

/-- **There is room** for a transaction, in unbounded integers. -/
def Room (cfg : Config) (s : Mempool) (tx : Transaction) : Prop :=
  s.entries.keys.length < cfg.maxTxCount ∧
    s.totalBytes.toNat + (estimateTxBytes tx).toNat ≤ cfg.maxTotalBytes.toNat

instance (cfg : Config) (s : Mempool) (tx : Transaction) : Decidable (Room cfg s tx) :=
  inferInstanceAs (Decidable (_ ∧ _))

/-- The bytes of some entries. -/
def bytesOf (entries : List (Σ _ : Str, MempoolEntry)) : ℕ :=
  (entries.map fun e => e.2.txBytes.toNat).sum

theorem Accounted.room_iff (h : Accounted cfg s) :
    Room cfg s tx ↔ s.entries.entries.length < cfg.maxTxCount ∧
      bytesOf s.entries.entries + (estimateTxBytes tx).toNat ≤ cfg.maxTotalBytes.toNat := by
  rw [Room, h.totalBytes, AList.keys, List.keys, List.length_map]
  rfl

theorem isFull_of_not_room (hfull : ¬ Room cfg s tx)
    (hle : estimateTxBytes tx ≤ uint64Max - s.totalBytes) :
    isFull cfg s (estimateTxBytes tx) = true := by
  rw [← Bool.not_eq_false, isFull_eq_false]
  rintro ⟨hcount, hbytes⟩
  have hbytes := UInt64.le_iff_toNat_le.1 hbytes
  rw [toNat_add_of_lt ((le_max_sub_iff rfl).1 hle)] at hbytes
  exact hfull ⟨hcount, hbytes⟩

/-! ### Who pays more -/

/-- **A transaction pays more** than each of some entries, and no other entry pays less than one of
these. -/
structure Outbid (s : Mempool) (tx : Transaction) (baseFee : UInt64) (victims : List Str) :
    Prop where
  lower : ∀ hash ∈ victims, ∃ entry, s.entries.lookup hash = some entry ∧
    effectiveFee entry.tx baseFee < effectiveFee tx baseFee
  lowest : ∀ hash ∈ victims, ∀ entry, s.entries.lookup hash = some entry →
    ∀ hash' ∉ victims, ∀ entry', s.entries.lookup hash' = some entry' →
      effectiveFee entry.tx baseFee ≤ effectiveFee entry'.tx baseFee

/-- **It pays more than enough of the lowest entries**: without these there is room for it. -/
def Entitled (cfg : Config) (s : Mempool) (tx : Transaction) (baseFee : UInt64) : Prop :=
  ∃ victims, Outbid s tx baseFee victims ∧ Room cfg (removeAll s victims) tx

/-- The entries that pay at least as much as a transaction. -/
def rivals (s : Mempool) (tx : Transaction) (baseFee : UInt64) :
    List (Σ _ : Str, MempoolEntry) :=
  s.entries.entries.filter fun e => effectiveFee tx baseFee ≤ effectiveFee e.2.tx baseFee

/-- **These alone take all the room.** -/
def Crowded (cfg : Config) (s : Mempool) (tx : Transaction) (baseFee : UInt64) : Prop :=
  cfg.maxTxCount ≤ (rivals s tx baseFee).length ∨
    cfg.maxTotalBytes.toNat < bytesOf (rivals s tx baseFee) + (estimateTxBytes tx).toNat

instance (cfg : Config) (s : Mempool) (tx : Transaction) (baseFee : UInt64) :
    Decidable (Crowded cfg s tx baseFee) :=
  inferInstanceAs (Decidable (_ ∨ _))

/-- The entries that pay less. -/
def cheaper (s : Mempool) (tx : Transaction) (baseFee : UInt64) : List Str :=
  (s.entries.entries.filter fun e => effectiveFee e.2.tx baseFee < effectiveFee tx baseFee).map
    Sigma.fst

theorem mem_cheaper {hash : Str} :
    hash ∈ cheaper s tx baseFee ↔ ∃ entry, s.entries.lookup hash = some entry ∧
      effectiveFee entry.tx baseFee < effectiveFee tx baseFee := by
  simp only [cheaper, List.mem_map, List.mem_filter, decide_eq_true_eq]
  constructor
  · rintro ⟨e, ⟨hmem, hlt⟩, rfl⟩
    exact ⟨e.2, AList.mem_lookup_iff.2 hmem, hlt⟩
  · rintro ⟨entry, hentry, hlt⟩
    exact ⟨⟨hash, entry⟩, ⟨AList.mem_lookup_iff.1 hentry, hlt⟩, rfl⟩

theorem outbid_cheaper : Outbid s tx baseFee (cheaper s tx baseFee) where
  lower hash hmem := mem_cheaper.1 hmem
  lowest hash hmem entry hentry hash' hnot entry' hentry' := by
    obtain ⟨entry₁, hentry₁, hlt⟩ := mem_cheaper.1 hmem
    obtain rfl := Option.some_inj.1 (hentry.symm.trans hentry₁)
    refine UInt64.le_trans (UInt64.le_of_lt hlt) (UInt64.not_lt.1 fun hlt' => hnot ?_)
    exact mem_cheaper.2 ⟨entry', hentry', hlt'⟩

theorem removeAll_cheaper :
    (removeAll s (cheaper s tx baseFee)).entries.entries = rivals s tx baseFee := by
  rw [entries_removeAll, rivals]
  refine List.filter_congr fun e he => decide_eq_decide.2 ?_
  rw [mem_cheaper]
  constructor
  · intro hnot
    exact UInt64.not_lt.1 fun hlt => hnot ⟨e.2, AList.mem_lookup_iff.2 he, hlt⟩
  · rintro hle ⟨entry, hentry, hlt⟩
    obtain rfl := Option.some_inj.1 (hentry.symm.trans (AList.mem_lookup_iff.2 he))
    exact absurd hlt (UInt64.not_lt.2 hle)

theorem Outbid.rivals_sublist {victims : List Str} (h : Outbid s tx baseFee victims) :
    (rivals s tx baseFee).Sublist (removeAll s victims).entries.entries := by
  rw [entries_removeAll, ← removeAll_cheaper, entries_removeAll]
  refine List.monotone_filter_right _ fun e hcheaper => ?_
  rw [decide_eq_true_eq] at hcheaper ⊢
  exact fun hmem => hcheaper (mem_cheaper.2 (h.lower _ hmem))

theorem accounted_removeAll (h : Accounted cfg s) (hashes : List Str) :
    Accounted cfg (removeAll s hashes) :=
  (evicted_removeAll hashes s).accounted h

/-- **Who is entitled**: a transaction for which there is room beside those that pay as much. -/
theorem entitled_iff (hs : Accounted cfg s) :
    Entitled cfg s tx baseFee ↔ ¬ Crowded cfg s tx baseFee := by
  rw [Crowded, not_or, not_le, not_lt]
  constructor
  · -- whatever the victims are, those that pay as much are left
    rintro ⟨victims, houtbid, hroom⟩
    obtain ⟨hcount, hbytes⟩ := (accounted_removeAll hs victims).room_iff.1 hroom
    have hsublist := houtbid.rivals_sublist
    have hsum : bytesOf (rivals s tx baseFee) ≤
        bytesOf (removeAll s victims).entries.entries :=
      (hsublist.map fun e : Σ _ : Str, MempoolEntry => e.2.txBytes.toNat).sum_le_sum
        fun _ _ => Nat.zero_le _
    exact ⟨hsublist.length_le.trans_lt hcount, (Nat.add_le_add_right hsum _).trans hbytes⟩
  · -- all that pay less are the victims
    intro h
    refine ⟨_, outbid_cheaper, (accounted_removeAll hs _).room_iff.2 ?_⟩
    rwa [removeAll_cheaper]

/-! ### A full pool -/

/-- **Nothing but the limits keeps the transaction out.** -/
structure Acceptable (P : Platform) (getUTXO : Str → Int32 → Option Utxo) (baseFee : UInt64)
    (s : Mempool) (tx : Transaction) : Prop where
  valid : validateTx P.cfg getUTXO tx baseFee = true
  fresh : tx.txHash ∉ s.entries
  unspent : isDoubleSpend s tx = false
  nonce : checkNonceOrdering P s tx = true

/-- **A full pool refuses**, whatever the fee. -/
theorem addTransaction_full {getUTXO : Str → Int32 → Option Utxo} (hs : Accounted P.cfg s)
    (h : Acceptable P getUTXO baseFee s tx) (hfull : ¬ Room P.cfg s tx) :
    addTransaction P getUTXO baseFee s tx = .ok (false, s) := by
  rw [addTransaction, addWithin]
  simp only [h.valid, Bool.not_true, Bool.false_eq_true, if_false, List.not_mem_nil]
  by_cases hover : estimateTxBytes tx > uint64Max - s.totalBytes
  · rw [if_pos hover]
  · -- trimming changes nothing, so that the second test finds what the first one found
    have hlocked : addLocked P s tx baseFee (estimateTxBytes tx) = (false, s) := by
      simp [addLocked, h.fresh, h.unspent, h.nonce, hs.trimToCapacity,
        isFull_of_not_room hfull (UInt64.not_lt.1 hover)]
    rw [if_neg hover, hlocked]

/-- **Replacement by fee**: a transaction that is entitled gets in and only entries that it outbids
go; another one is refused and nothing goes. -/
structure Replacement (P : Platform) (getUTXO : Str → Int32 → Option Utxo) (baseFee : UInt64)
    (s : Mempool) (tx : Transaction) : Prop where
  admitted : Entitled P.cfg s tx baseFee → ∃ s' victims,
    addTransaction P getUTXO baseFee s tx = .ok (true, s') ∧ Outbid s tx baseFee victims ∧
      ∀ hash ∈ s.entries, hash ∉ s'.entries → hash ∈ victims
  refused : ¬ Entitled P.cfg s tx baseFee → ∃ s',
    addTransaction P getUTXO baseFee s tx = .ok (false, s') ∧ s'.entries = s.entries

theorem replacement_of_accounted {getUTXO : Str → Int32 → Option Utxo}
    (hs : Accounted P.cfg s) (h : Acceptable P getUTXO baseFee s tx) (hfull : ¬ Room P.cfg s tx) :
    Replacement P getUTXO baseFee s tx ↔ Crowded P.cfg s tx baseFee := by
  have hrefused := addTransaction_full hs h hfull
  constructor
  · intro hreplacement
    by_contra hroom
    obtain ⟨s', victims, hadd, -⟩ := hreplacement.admitted ((entitled_iff hs).2 hroom)
    rw [hrefused] at hadd
    exact Bool.noConfusion (congrArg Prod.fst (Except.ok.inj hadd))
  · intro hcrowded
    refine ⟨fun hentitled => absurd hcrowded ((entitled_iff hs).1 hentitled), fun _ => ?_⟩
    exact ⟨s, hrefused, rfl⟩

/-- **Where the replacement works**: in a full pool that a run leads to, for a transaction that
nothing but the limits keeps out, exactly if the entries that pay at least as much take all the
room. -/
theorem replacement_iff {getUTXO : Str → Int32 → Option Utxo} {calls : List Call}
    (hrun : run (step P) {} calls = some s) (h : Acceptable P getUTXO baseFee s tx)
    (hfull : ¬ Room P.cfg s tx) :
    Replacement P getUTXO baseFee s tx ↔ Crowded P.cfg s tx baseFee :=
  replacement_of_accounted (accounting hrun).1 h hfull

/-! ### A pool of one -/

def sampleNarrow : Platform := { samplePlatform with cfg := { maxTxCount := 1 } }

def sampleTipping (nonce tip : UInt64) (digit : UInt8) : Transaction where
  nonce := nonce
  maxPriorityFeePerGas := tip
  maxFeePerGas := 100
  toAddress := str "m"
  txHash := List.replicate 64 digit

def sampleTaken : List Call :=
  [.addTransaction (fun _ _ => none) (sampleTipping 1 1 97) 1]

theorem exists_sampleTaken (tip : UInt64) (crowded : Bool)
    (h : ((run (step sampleNarrow) {} sampleTaken).map fun s =>
      (validateTx sampleNarrow.cfg (fun _ _ => none) (sampleTipping 2 tip 98) 1 &&
        decide ((sampleTipping 2 tip 98).txHash ∉ s.entries) &&
        !isDoubleSpend s (sampleTipping 2 tip 98) &&
        checkNonceOrdering sampleNarrow s (sampleTipping 2 tip 98) &&
        decide (¬ Room sampleNarrow.cfg s (sampleTipping 2 tip 98)),
        decide (Crowded sampleNarrow.cfg s (sampleTipping 2 tip 98) 1))) =
      some (true, crowded)) :
    ∃ s, run (step sampleNarrow) {} sampleTaken = some s ∧
      Acceptable sampleNarrow (fun _ _ => none) 1 s (sampleTipping 2 tip 98) ∧
      ¬ Room sampleNarrow.cfg s (sampleTipping 2 tip 98) ∧
      decide (Crowded sampleNarrow.cfg s (sampleTipping 2 tip 98) 1) = crowded := by
  obtain ⟨s, hrun, heq⟩ := Option.map_eq_some_iff.1 h
  obtain ⟨hall, hcrowded⟩ := Prod.mk.inj heq
  simp only [Bool.and_eq_true, Bool.not_eq_true', decide_eq_true_eq] at hall
  obtain ⟨⟨⟨⟨hvalid, hfresh⟩, hspend⟩, hnonce⟩, hfull⟩ := hall
  exact ⟨s, hrun, ⟨hvalid, hfresh, hspend, hnonce⟩, hfull, hcrowded⟩

/-- A tip of nine is refused in favour of a tip of one. -/
theorem not_replacement :
    ¬ ∀ (P : Platform) (getUTXO : Str → Int32 → Option Utxo) (baseFee : UInt64)
      (calls : List Call) (s : Mempool) (tx : Transaction), run (step P) {} calls = some s →
      Acceptable P getUTXO baseFee s tx → ¬ Room P.cfg s tx →
      Replacement P getUTXO baseFee s tx := by
  intro h
  obtain ⟨s, hrun, hacceptable, hfull, hcrowded⟩ :=
    exists_sampleTaken 9 false (by decide +kernel)
  have hreplacement := h sampleNarrow _ 1 sampleTaken s _ hrun hacceptable hfull
  have hs := (accounting hrun).1
  exact of_decide_eq_false hcrowded ((replacement_of_accounted hs hacceptable hfull).1 hreplacement)

theorem replacement_sampleTaken :
    ∃ s, run (step sampleNarrow) {} sampleTaken = some s ∧
      Replacement sampleNarrow (fun _ _ => none) 1 s (sampleTipping 2 0 98) := by
  obtain ⟨s, hrun, hacceptable, hfull, hcrowded⟩ :=
    exists_sampleTaken 0 true (by decide +kernel)
  exact ⟨s, hrun, (replacement_iff hrun hacceptable hfull).2 (of_decide_eq_true hcrowded)⟩

end Mempool

end Node
