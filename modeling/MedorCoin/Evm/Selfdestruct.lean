/-
**Moving a balance when a contract destroys itself.**

Every outcome of the reads but success counts as a balance of zero, a carry out of the first byte is
only logged, and when the second write fails the first is not taken back.  So the balances are
conserved if none of these matters, and only then.

Main definitions:

* `Evm.balance` — the balance that the record of an address stands for;
* `Evm.Conserves` — **what is asked of a call**;
* `Evm.Movable` — the condition under which a call does it.

Main results:

* `Evm.selfdestruct_cases` — **what a call does**, case by case;
* `Evm.conserves_iff` — a call conserves the balances exactly if the condition holds.
-/

import MedorCoin.Evm.Host

set_option autoImplicit false

namespace Evm

open Cpp

/-! ### Balances -/

/-- The balance that the record of an address stands for: zero if there is none, no number if it has
not 32 bytes. -/
def balance (db : RocksDBWrapper) (addr : Vector UInt8 20) : Option ℕ :=
  match db.entries.get? (balanceRecord addr) with
  | none => some 0
  | some raw => if raw.length = 32 then some (readBE raw) else none

/-- The read after the next one succeeds. -/
def canReadNext (db : RocksDBWrapper) : Bool := db.isOpen && db.reads.tail.headD true

/-- The write after the next one succeeds. -/
def canWriteNext (db : RocksDBWrapper) : Bool := db.isOpen && db.writes.tail.headD true

/-- What a read is taken for: zero, if it fails or the record is corrupt. -/
def seen (success : Bool) (b : Option ℕ) : ℕ := if success then b.getD 0 else 0

variable {host : Host} {db db' : RocksDBWrapper} {addr ben : Vector UInt8 20}
  {key key' : Str}

theorem readBE_zero32 : readBE zero32.toList = 0 := by decide

theorem isAllZero_iff (v : Vector UInt8 32) : isAllZero v = true ↔ readBE v.toList = 0 := by
  rw [isAllZero]
  generalize v.toList = l
  induction l with
  | nil => simp
  | cons b l ih =>
      rw [List.all_cons, Bool.and_eq_true, ih, readBE_cons, beq_iff_eq, Nat.add_eq_zero_iff,
        Nat.mul_eq_zero, or_iff_left (Nat.pow_pos (by decide)).ne', ← UInt8.toNat_inj]
      rfl

theorem readBalance_get (db : RocksDBWrapper) (addr : Vector UInt8 20) :
    readBE (readBalance (db.get (balanceRecord addr)).1).2.toList =
        seen db.canRead (balance db addr) ∧
      ((readBalance (db.get (balanceRecord addr)).1).1 ≠ .ok →
        seen db.canRead (balance db addr) = 0) := by
  rw [RocksDBWrapper.get_fst (balanceRecord_ne_nil addr), seen, balance]
  cases db.canRead with
  | false => exact ⟨readBE_zero32, fun _ => rfl⟩
  | true =>
      simp only [if_true]
      cases db.entries.get? (balanceRecord addr) with
      | none => exact ⟨readBE_zero32, fun _ => rfl⟩
      | some raw =>
          rw [readBalance]
          by_cases hsize : raw.length = 32
          · have harray : raw.toArray.size = 32 := by rw [List.size_toArray, hsize]
            simp [harray, hsize]
          · have harray : ¬ raw.toArray.size = 32 := by rwa [List.size_toArray]
            simp [hsize, readBE_zero32]

theorem readBE_addBalances (x y : Vector UInt8 32) :
    readBE (addBalances x y).1.toList = (readBE x.toList + readBE y.toList) % 2 ^ 256 := by
  have hlength : x.toList.length = y.toList.length := by simp
  obtain ⟨hvalue, -⟩ := readBE_addCarry x.toList y.toList hlength
  have hlt := readBE_lt (addCarry x.toList y.toList).1
  rw [length_addCarry _ _ hlength, Vector.length_toList] at hlt
  rw [Vector.length_toList] at hvalue
  have hsum : (addBalances x y).1.toList = (addCarry x.toList y.toList).1 := by
    simp [addBalances, Vector.toList]
  rw [hsum, ← hvalue, show (2 : ℕ) ^ 256 = 256 ^ 32 by norm_num, Nat.add_mul_mod_self_right,
    Nat.mod_eq_of_lt hlt]

/-! ### What a call does -/

theorem canRead_get (hkey : key ≠ []) : (db.get key).2.canRead = canReadNext db := by
  rw [RocksDBWrapper.get, RocksDBWrapper.canRead, canReadNext]
  cases hopen : db.isOpen <;> simp [hopen, hkey]

theorem canWrite_get (db : RocksDBWrapper) (key : Str) :
    (db.get key).2.canWrite = db.canWrite := by
  rw [RocksDBWrapper.canWrite, RocksDBWrapper.get_isOpen, RocksDBWrapper.get_writes,
    RocksDBWrapper.canWrite]

theorem canWrite_put (hkey : key ≠ []) (value : Str) :
    (db.put key value).2.canWrite = canWriteNext db := by
  rw [RocksDBWrapper.put, RocksDBWrapper.canWrite, canWriteNext]
  cases hopen : db.isOpen <;> simp [hopen, hkey]

theorem canWriteNext_get (db : RocksDBWrapper) (key : Str) :
    canWriteNext (db.get key).2 = canWriteNext db := by
  rw [canWriteNext, RocksDBWrapper.get_isOpen, RocksDBWrapper.get_writes, canWriteNext]

theorem balance_congr (h : db'.entries = db.entries) (addr : Vector UInt8 20) :
    balance db' addr = balance db addr := by
  rw [balance, h, balance]

theorem put_after_reads (db : RocksDBWrapper) (key : Str) (hwrite : key' ≠ []) (value : Str) :
    let r := ((db.get key).2.get key').2.put key' value
    r.1 = db.canWrite ∧
      r.2.entries = (if db.canWrite then db.entries.set key' value else db.entries) ∧
      r.2.canWrite = canWriteNext db := by
  refine ⟨?_, ?_, ?_⟩
  · rw [RocksDBWrapper.put_fst hwrite, canWrite_get, canWrite_get]
  · rw [RocksDBWrapper.put_entries hwrite, canWrite_get, canWrite_get, RocksDBWrapper.get_entries,
      RocksDBWrapper.get_entries]
  · rw [canWrite_put hwrite, canWriteNext_get, canWriteNext_get]

/-- **What a call does**: nothing if it sees no balance; else it writes the sum of what it sees and
then the zero, until a write fails. -/
theorem selfdestruct_cases (h : host.inSelfdestruct = false) (hdb : host.storageDB = db) {a b : ℕ}
    (ha : seen db.canRead (balance db addr) = a) (hb : seen (canReadNext db) (balance db ben) = b) :
    if a = 0 then
      (selfdestruct host addr ben).1 = true ∧
        (selfdestruct host addr ben).2.storageDB.entries = db.entries
    else if db.canWrite = false then
      (selfdestruct host addr ben).1 = false ∧
        (selfdestruct host addr ben).2.storageDB.entries = db.entries
    else ∃ t : Vector UInt8 32, readBE t.toList = (a + b) % 2 ^ 256 ∧
      (selfdestruct host addr ben).1 = canWriteNext db ∧
      (selfdestruct host addr ben).2.storageDB.entries =
        if canWriteNext db then
          (db.entries.set (balanceRecord ben) t.toList).set (balanceRecord addr) zero32.toList
        else db.entries.set (balanceRecord ben) t.toList := by
  obtain ⟨haddr, hstatus⟩ := readBalance_get db addr
  obtain ⟨hben, -⟩ := readBalance_get (db.get (balanceRecord addr)).2 ben
  rw [canRead_get (balanceRecord_ne_nil addr), balance_congr (RocksDBWrapper.get_entries _ _),
    hb] at hben
  rw [ha] at haddr hstatus
  have hany : (decide ((readBalance (db.get (balanceRecord addr)).1).1 = .ok) &&
      !isAllZero (readBalance (db.get (balanceRecord addr)).1).2) = decide (a ≠ 0) := by
    rw [Bool.eq_iff_iff, Bool.and_eq_true, decide_eq_true_eq, Bool.not_eq_true',
      Bool.eq_false_iff, Ne, isAllZero_iff, haddr, decide_eq_true_eq]
    exact ⟨And.right, fun hne => ⟨not_not.1 fun hs => hne (hstatus hs), hne⟩⟩
  simp only [selfdestruct, h, hdb, getBalance_hexEncode, putBalance_hexEncode, hany]
  by_cases hzero : a = 0
  · simp [hzero]
  have hsum := readBE_addBalances (readBalance (db.get (balanceRecord addr)).1).2
    (readBalance ((db.get (balanceRecord addr)).2.get (balanceRecord ben)).1).2
  rw [haddr, hben] at hsum
  generalize (addBalances (readBalance (db.get (balanceRecord addr)).1).2
    (readBalance ((db.get (balanceRecord addr)).2.get (balanceRecord ben)).1).2).1 = t at hsum ⊢
  obtain ⟨hfst, hentries, hnext⟩ := put_after_reads db (balanceRecord addr)
    (balanceRecord_ne_nil ben) t.toList
  generalize ((db.get (balanceRecord addr)).2.get (balanceRecord ben)).2.put (balanceRecord ben)
    t.toList = first at hfst hentries hnext ⊢
  have hsecond : (first.2.put (balanceRecord addr) zero32.toList).1 = canWriteNext db := by
    rw [RocksDBWrapper.put_fst (balanceRecord_ne_nil addr), hnext]
  have hafter : (first.2.put (balanceRecord addr) zero32.toList).2.entries =
      if canWriteNext db then first.2.entries.set (balanceRecord addr) zero32.toList
      else first.2.entries := by
    rw [RocksDBWrapper.put_entries (balanceRecord_ne_nil addr), hnext]
  simp only [hfst, hsecond]
  rw [if_neg hzero]
  cases hwrite : db.canWrite with
  | false => simp [hzero, hentries, hwrite]
  | true =>
      rw [if_neg (Bool.noConfusion : ¬ true = false)]
      refine ⟨t, hsum, ?_⟩
      rw [hwrite] at hentries
      cases hlast : canWriteNext db with
      | false => simp [hzero, hafter, hentries, hlast]
      | true => simp [hzero, hafter, hentries, hlast]

/-! ### Conservation -/

/-- **What is asked of a call.** Where it reports success, the balance of the contract has a record
that can be read, is zero afterwards, and was added to that of the beneficiary in unbounded
integers; where it does not, both records are as they were. -/
def Conserves (host : Host) (addr ben : Vector UInt8 20) : Prop :=
  match selfdestruct host addr ben with
  | (true, host') =>
      ∃ a, balance host.storageDB addr = some a ∧ balance host'.storageDB addr = some 0 ∧
        ((∃ b, balance host.storageDB ben = some b ∧
          balance host'.storageDB ben = some (a + b)) ∨
        a = 0 ∧ host'.storageDB.entries.get? (balanceRecord ben) =
          host.storageDB.entries.get? (balanceRecord ben))
  | (false, host') =>
      ∀ x ∈ [addr, ben], host'.storageDB.entries.get? (balanceRecord x) =
        host.storageDB.entries.get? (balanceRecord x)

/-- **The condition under which a call conserves the balances.** There is nothing to move; or the
balance is read and the first write fails; or both writes succeed and the beneficiary has no corrupt
record, which is read without a carry, or is empty.  (If the read of the beneficiary and the second
write fail, a beneficiary with the same balance keeps it.) -/
def Movable (host : Host) (addr ben : Vector UInt8 20) : Prop :=
  host.inSelfdestruct = true ∨ balance host.storageDB addr = some 0 ∨
  ∃ a, balance host.storageDB addr = some a ∧ host.storageDB.canRead = true ∧
    (host.storageDB.canWrite = false ∨ ∃ b, balance host.storageDB ben = some b ∧
      (if canWriteNext host.storageDB then
        if canReadNext host.storageDB then a + b < 2 ^ 256 else b = 0
      else canReadNext host.storageDB = false ∧ b = a))

theorem balance_of_get? {t : Vector UInt8 32}
    (h : db.entries.get? (balanceRecord addr) = some t.toList) :
    balance db addr = some (readBE t.toList) := by
  rw [balance, h]
  simp

theorem balance_lt {a : ℕ} (h : balance db addr = some a) : a < 2 ^ 256 := by
  rw [balance] at h
  split at h
  · cases h
    norm_num
  · next raw _ =>
      split at h
      · next hlength =>
          obtain rfl := Option.some.inj h
          have hlt := readBE_lt raw
          rw [hlength] at hlt
          exact hlt.trans_eq (by norm_num)
      · cases h

theorem get?_of_balance {t : Vector UInt8 32} (h : balance db addr = some (readBE t.toList))
    (hne : readBE t.toList ≠ 0) : db.entries.get? (balanceRecord addr) = some t.toList := by
  rw [balance] at h
  split at h
  · exact absurd (Option.some.inj h).symm hne
  · next raw hraw =>
      split at h
      · next hlength =>
          have hwrite := writeBE_readBE raw
          rw [Option.some.inj h, hlength] at hwrite
          have hwrite' := writeBE_readBE t.toList
          rw [Vector.length_toList] at hwrite'
          rw [hraw, ← hwrite, hwrite']
      · cases h

theorem conserves_of_unseen {host' : Host} (hcall : selfdestruct host addr ben = (true, host'))
    (hentries : host'.storageDB.entries = host.storageDB.entries) :
    Conserves host addr ben ↔ balance host.storageDB addr = some 0 := by
  rw [Conserves, hcall]
  simp only [hentries, balance_congr hentries]
  constructor
  · rintro ⟨a, -, hzero, -⟩
    exact hzero
  · exact fun hzero => ⟨0, hzero, hzero, .inr ⟨rfl, trivial⟩⟩

theorem eq_some_of_seen_ne_zero {success : Bool} {x : Option ℕ} (h : seen success x ≠ 0) :
    success = true ∧ x = some (seen success x) := by
  cases success with
  | false => exact absurd rfl h
  | true =>
      cases x with
      | none => exact absurd rfl h
      | some n => exact ⟨rfl, rfl⟩

/-- After both writes the beneficiary has the sum of what was seen; it is the sum of the balances
unless there was a carry, or what was seen is not what was there. -/
theorem seen_sum_iff {a : ℕ} (ha : a < 2 ^ 256) (success : Bool) (x : Option ℕ)
    (hx : ∀ b, x = some b → b < 2 ^ 256) :
    (∃ b, x = some b ∧ (a + seen success x) % 2 ^ 256 = a + b) ↔
      ∃ b, x = some b ∧ if success then a + b < 2 ^ 256 else b = 0 := by
  refine exists_congr fun b => and_congr_right fun hb => ?_
  have hlt := hx b hb
  rw [hb, seen, Option.getD_some]
  cases success with
  | false =>
      simp only [Bool.false_eq_true, if_false]
      omega
  | true =>
      simp only [if_true]
      omega

/-- After the first write alone the beneficiary has what it had only if what was seen is not what
was there. -/
theorem seen_same_iff {a : ℕ} (ha : a < 2 ^ 256) (hne : a ≠ 0) (success : Bool) (x : Option ℕ)
    (hx : ∀ b, x = some b → b < 2 ^ 256) :
    x = some ((a + seen success x) % 2 ^ 256) ↔ ∃ b, x = some b ∧ success = false ∧ b = a := by
  cases x with
  | none => simp
  | some b =>
      have hlt := hx b rfl
      rw [seen, Option.getD_some, Option.some.injEq]
      cases success with
      | false =>
          simp only [Bool.false_eq_true, if_false]
          constructor
          · exact fun h => ⟨b, rfl, trivial, by omega⟩
          · rintro ⟨_, h, -, rfl⟩
            obtain rfl := Option.some.inj h
            omega
      | true =>
          simp only [if_true]
          constructor
          · exact fun h => absurd h (by omega)
          · rintro ⟨_, -, h, -⟩
            cases h

theorem conserves_of_both {host' : Host} {a : ℕ} {t : Vector UInt8 32} (hne : addr ≠ ben)
    (hcall : selfdestruct host addr ben = (true, host'))
    (ha : balance host.storageDB addr = some a) (hpos : a ≠ 0)
    (hentries : host'.storageDB.entries = (host.storageDB.entries.set (balanceRecord ben)
      t.toList).set (balanceRecord addr) zero32.toList) :
    Conserves host addr ben ↔
      ∃ b, balance host.storageDB ben = some b ∧ readBE t.toList = a + b := by
  have hrecord : balanceRecord addr ≠ balanceRecord ben :=
    fun heq => hne (balanceRecord_injective heq)
  have haddr : balance host'.storageDB addr = some 0 := by
    rw [← readBE_zero32]
    exact balance_of_get? (by rw [hentries, Js.Map.get?_set_self])
  have hben : balance host'.storageDB ben = some (readBE t.toList) :=
    balance_of_get? (by
      rw [hentries, Js.Map.get?_set_of_ne _ _ hrecord, Js.Map.get?_set_self])
  rw [Conserves, hcall]
  simp only [ha, haddr, hben, Option.some.injEq, true_and]
  constructor
  · rintro ⟨_, rfl, h | ⟨h, -⟩⟩
    · exact h
    · exact absurd h hpos
  · exact fun h => ⟨a, rfl, .inl h⟩

theorem conserves_of_first {host' : Host} {t : Vector UInt8 32} (hne : addr ≠ ben)
    (hcall : selfdestruct host addr ben = (false, host'))
    (hentries : host'.storageDB.entries = host.storageDB.entries.set (balanceRecord ben) t.toList) :
    Conserves host addr ben ↔
      host.storageDB.entries.get? (balanceRecord ben) = some t.toList := by
  have hrecord : balanceRecord ben ≠ balanceRecord addr :=
    fun heq => hne (balanceRecord_injective heq).symm
  rw [Conserves, hcall]
  simp only [hentries, List.forall_mem_cons, Js.Map.get?_set_of_ne _ _ hrecord,
    Js.Map.get?_set_self, true_and]
  exact ⟨fun h => h.1.symm, fun h => ⟨h.symm, fun _ hx => absurd hx List.not_mem_nil⟩⟩

theorem movable_iff_of_balance {a : ℕ} (hself : host.inSelfdestruct = false)
    (ha : balance host.storageDB addr = some a) (hpos : a ≠ 0)
    (hread : host.storageDB.canRead = true) :
    Movable host addr ben ↔ host.storageDB.canWrite = false ∨
      ∃ b, balance host.storageDB ben = some b ∧
        (if canWriteNext host.storageDB then
          if canReadNext host.storageDB then a + b < 2 ^ 256 else b = 0
        else canReadNext host.storageDB = false ∧ b = a) := by
  rw [Movable, hself, ha]
  constructor
  · rintro (h | h | ⟨_, h, -, hrest⟩)
    · cases h
    · exact absurd (Option.some.inj h) hpos
    · obtain rfl := Option.some.inj h
      exact hrest
  · exact fun h => .inr (.inr ⟨a, rfl, hread, h⟩)

/-- **A call conserves the balances exactly if the condition holds.** -/
theorem conserves_iff (hne : addr ≠ ben) : Conserves host addr ben ↔ Movable host addr ben := by
  cases hself : host.inSelfdestruct with
  | true =>
      have hcall : selfdestruct host addr ben = (false, host) := by
        rw [selfdestruct, if_pos hself]
      rw [Conserves, hcall]
      exact iff_of_true (fun _ _ => rfl) (.inl hself)
  | false =>
      obtain ⟨a, ha⟩ : ∃ a, seen host.storageDB.canRead (balance host.storageDB addr) = a :=
        ⟨_, rfl⟩
      obtain ⟨b, hb⟩ : ∃ b, seen (canReadNext host.storageDB) (balance host.storageDB ben) = b :=
        ⟨_, rfl⟩
      have hcases := selfdestruct_cases hself rfl ha hb
      obtain ⟨⟨ok, host'⟩, hcall⟩ : ∃ r, selfdestruct host addr ben = r := ⟨_, rfl⟩
      rw [hcall] at hcases
      by_cases hzero : a = 0
      · -- nothing is seen, and nothing changes
        rw [if_pos hzero] at hcases
        obtain ⟨rfl, hentries⟩ := hcases
        rw [conserves_of_unseen hcall hentries, Movable, hself]
        constructor
        · exact fun h => .inr (.inl h)
        · rintro (h | h | ⟨a', ha', hread, -⟩)
          · cases h
          · exact h
          · rw [ha', hread, hzero] at ha
            exact ha'.trans (congrArg some ha)
      · rw [if_neg hzero] at hcases
        obtain ⟨hread, hbalance⟩ := eq_some_of_seen_ne_zero (ha ▸ hzero)
        rw [ha] at hbalance
        have hlt := balance_lt hbalance
        rw [movable_iff_of_balance hself hbalance hzero hread]
        cases hfirst : host.storageDB.canWrite with
        | false =>
            rw [if_pos hfirst] at hcases
            obtain ⟨rfl, hentries⟩ := hcases
            rw [Conserves, hcall]
            exact iff_of_true (fun _ _ => by rw [hentries]) (.inl rfl)
        | true =>
            rw [if_neg (by rw [hfirst]; exact Bool.noConfusion)] at hcases
            obtain ⟨t, ht, rfl, hentries⟩ := hcases
            rw [← hb] at ht
            rw [or_iff_right (by exact Bool.noConfusion)]
            cases hsecond : canWriteNext host.storageDB with
            | true =>
                rw [hsecond] at hentries hcall
                rw [conserves_of_both hne hcall hbalance hzero hentries, ht,
                  seen_sum_iff hlt _ _ fun b => balance_lt]
                rfl
            | false =>
                -- the beneficiary keeps what was written for it
                rw [hsecond] at hentries hcall
                have hsame := seen_same_iff hlt hzero (canReadNext host.storageDB)
                  (balance host.storageDB ben) fun b => balance_lt
                rw [← ht] at hsame
                rw [conserves_of_first hne hcall hentries]
                refine ⟨fun h => hsame.1 (balance_of_get? h),
                  fun h => get?_of_balance (hsame.2 h) ?_⟩
                obtain ⟨b, hb, hskip, rfl⟩ := h
                rw [ht, hskip, seen, if_neg Bool.false_ne_true, Nat.add_zero, Nat.mod_eq_of_lt hlt]
                exact hzero

/-- A host whose contract and beneficiary have the given records. -/
def hostWith (contract beneficiary : List UInt8) (writes : List Bool) : Host :=
  { storageDB :=
      { entries := (Js.Map.empty.set (balanceRecord (Vector.replicate 20 1)) contract).set
          (balanceRecord (Vector.replicate 20 2)) beneficiary
        writes } }

theorem conserves_five_seven :
    Conserves (hostWith (writeBE 32 5) (writeBE 32 7) []) (Vector.replicate 20 1)
      (Vector.replicate 20 2) :=
  (conserves_iff (by decide)).2
    (.inr (.inr ⟨5, by decide +kernel, rfl, .inr ⟨7, by decide +kernel, by decide +kernel⟩⟩))

theorem not_conserves_of_true (hcall : (selfdestruct host addr ben).1 = true)
    (haddr : balance host.storageDB addr ≠ some 0)
    (hben : balance (selfdestruct host addr ben).2.storageDB ben ≠
      (balance host.storageDB addr).bind fun a => (balance host.storageDB ben).map (a + ·)) :
    ¬ Conserves host addr ben := by
  have hpair : selfdestruct host addr ben = (true, (selfdestruct host addr ben).2) :=
    Prod.ext hcall rfl
  rw [Conserves, hpair]
  rintro ⟨a, ha, -, ⟨b, hb, hsum⟩ | ⟨rfl, -⟩⟩
  · exact hben (by rw [hsum, ha, hb]; rfl)
  · exact haddr ha

theorem not_conserves_of_false (hcall : (selfdestruct host addr ben).1 = false)
    (hben : (selfdestruct host addr ben).2.storageDB.entries.get? (balanceRecord ben) ≠
      host.storageDB.entries.get? (balanceRecord ben)) : ¬ Conserves host addr ben := by
  have hpair : selfdestruct host addr ben = (false, (selfdestruct host addr ben).2) :=
    Prod.ext hcall rfl
  rw [Conserves, hpair]
  exact fun h => hben (h ben (by simp))

/-- **Four ways to burn or to make money**: a second write that fails, a corrupt record of the
beneficiary, a corrupt record of the contract, and a sum that does not fit. -/
theorem not_conserves :
    ¬ Conserves (hostWith (writeBE 32 5) (writeBE 32 7) [true, false]) (Vector.replicate 20 1)
        (Vector.replicate 20 2) ∧
      ¬ Conserves (hostWith (writeBE 32 5) [7] []) (Vector.replicate 20 1)
        (Vector.replicate 20 2) ∧
      ¬ Conserves (hostWith [5] (writeBE 32 7) []) (Vector.replicate 20 1)
        (Vector.replicate 20 2) ∧
      ¬ Conserves (hostWith (writeBE 32 (2 ^ 256 - 1)) (writeBE 32 7) []) (Vector.replicate 20 1)
        (Vector.replicate 20 2) := by
  refine ⟨not_conserves_of_false ?_ ?_, not_conserves_of_true ?_ ?_ ?_,
    not_conserves_of_true ?_ ?_ ?_, not_conserves_of_true ?_ ?_ ?_⟩
  all_goals decide +kernel

end Evm
