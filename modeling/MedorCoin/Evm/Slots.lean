/-
**Absent slots and slots that hold zero.**

A slot that was never written counts as zero, and so does one to which zero was written, since the
host writes zeros like any other value.  Reading cannot tell the two apart; `set_storage` can, as it
asks whether there is a record.  So two stores with the same values answer a sequence of calls alike
exactly if, at each write, both have a record of the slot or neither has.

Main definitions:

* `Evm.slotValue` — the value of a slot, zero where there is none;
* `Evm.Call`, `Evm.call` — the calls of a transaction, with the gas they charge;
* `Evm.Alike` — hosts with the same values and the same access list;
* `Evm.SameRecords` — **the condition under which they answer a call alike**.

Main results:

* `Evm.call_alike` — hosts that are alike stay so, whatever is called;
* `Evm.call_eq_iff` — **when one call is answered alike**;
* `Evm.answers_alike_iff` — **when a sequence of calls is**.
-/

import MedorCoin.Evm.Host
import MedorCoin.Transition.Run

set_option autoImplicit false

namespace Evm

open Cpp Lockstep

/-! ### The calls -/

/-- The calls that have to do with slots, and the start of a transaction. -/
inductive Call where
  | getStorage (addr : Vector UInt8 20) (key : Vector UInt8 32)
  | setStorage (addr : Vector UInt8 20) (key val : Vector UInt8 32)
  | accessStorage (addr : Vector UInt8 20) (key : Vector UInt8 32)
  | beginTransaction

/-- What a call returns. -/
inductive Answer where
  | value (v : Vector UInt8 32)
  | status (s : StorageStatus)
  | access (s : AccessStatus)
  | done
  deriving DecidableEq

/-- What a call returns and the gas it charges. -/
def call (host : Host) : Call → (Answer × UInt64) × Host
  | .getStorage addr key =>
      let (v, host') := get_storage host addr key
      ((.value v, host'.gas.total - host.gas.total), host')
  | .setStorage addr key val =>
      let (s, host') := set_storage host addr key val
      ((.status s, host'.gas.total - host.gas.total), host')
  | .accessStorage addr key =>
      let (s, host') := access_storage host addr key
      ((.access s, host'.gas.total - host.gas.total), host')
  | .beginTransaction => ((.done, 0), Evm.beginTransaction host)

/-! ### Values of slots -/

/-- The value of a slot: zero where there is no record, or a corrupt one. -/
def slotValue (db : RocksDBWrapper) (addr : Vector UInt8 20) (key : Vector UInt8 32) :
    Vector UInt8 32 :=
  match readSlot (db.entries.get? (slotRecord addr key)) with
  | (.ok, valueHex) => (hexToBytes32 valueHex).getD zero32
  | _ => zero32

/-- The records of slots are those that the host writes, or corrupt ones. -/
def Written (db : RocksDBWrapper) : Prop :=
  ∀ addr key raw, db.entries.get? (slotRecord addr key) = some raw →
    (readSlot (some raw)).1 = .ok → ∃ v : Vector UInt8 32, raw = hexEncode v

/-- Hosts with the same values, the same access list and the same luck with the disk. -/
structure Alike (s t : Host) : Prop where
  isOpen : s.storageDB.isOpen = t.storageDB.isOpen
  reads : s.storageDB.reads = t.storageDB.reads
  writes : s.storageDB.writes = t.storageDB.writes
  values : ∀ addr key, slotValue s.storageDB addr key = slotValue t.storageDB addr key
  accessed : s.accessedStorageSlots = t.accessedStorageSlots
  written_left : Written s.storageDB
  written_right : Written t.storageDB

/-! ### Reading and writing a slot -/

variable {host s t : Host} {db db' : RocksDBWrapper} {addr : Vector UInt8 20}
  {key val : Vector UInt8 32}

theorem slotValue_congr (h : db'.entries = db.entries) (addr : Vector UInt8 20)
    (key : Vector UInt8 32) : slotValue db' addr key = slotValue db addr key := by
  rw [slotValue, h, slotValue]

theorem readSlot_hexEncode (v : Vector UInt8 32) :
    readSlot (some (hexEncode v)) = (.ok, hexEncode v) := by
  have hvalid := isValidSlotHex_hexEncode v
  have hlength := hvalid
  rw [isValidSlotHex, isValidHex, Bool.and_eq_true, beq_iff_eq] at hlength
  rw [readSlot]
  simp only [hlength.1, hvalid, ne_eq, not_true, if_false, Bool.not_true, Bool.false_eq_true]

theorem readSlot_eq_notFound_iff (raw : Option Str) :
    (readSlot raw).1 = .notFound ↔ raw = none := by
  cases raw with
  | none => exact iff_of_true rfl rfl
  | some raw =>
      refine iff_of_false ?_ (Option.some_ne_none raw)
      rw [readSlot]
      split_ifs <;> simp

theorem readSlot_of_ne_ok {raw : Str} (h : (readSlot (some raw)).1 ≠ .ok) :
    readSlot (some raw) = (.corrupt, []) := by
  rw [readSlot] at h ⊢
  split_ifs at h ⊢
  · rfl
  · rfl
  · exact absurd rfl h

theorem hexEncode_ne_nil (v : Vector UInt8 32) : hexEncode v ≠ [] := by
  have hvalid := isValidHex_hexEncode v
  rw [isValidHex, Bool.and_eq_true, beq_iff_eq] at hvalid
  exact List.ne_nil_of_length_pos (by rw [hvalid.1]; decide)

theorem get_storage_snd (host : Host) (addr : Vector UInt8 20) (key : Vector UInt8 32) :
    (get_storage host addr key).2.storageDB = (host.storageDB.get (slotRecord addr key)).2 ∧
      (get_storage host addr key).2.accessedStorageSlots =
        insert (addr, key) host.accessedStorageSlots ∧
      (get_storage host addr key).2.gas.total - host.gas.total =
        if (addr, key) ∈ host.accessedStorageSlots then GAS_SLOAD_WARM else GAS_SLOAD_COLD := by
  have hgas (cost : UInt64) : host.gas.total + cost - host.gas.total = cost :=
    by rw [UInt64.add_comm, UInt64.add_sub_cancel]
  simp only [get_storage, getContractStorage_hexEncode, decide_eq_true_eq]
  by_cases hs : (readSlot (host.storageDB.get (slotRecord addr key)).1).1 = .ok
  · simp only [if_pos hs]
    cases hexToBytes32 (readSlot (host.storageDB.get (slotRecord addr key)).1).2 with
    | none => simp only [hgas, and_self]
    | some out => simp only [hgas, and_self]
  · simp only [if_neg hs, hgas, and_self]

theorem get_storage_fst (host : Host) (addr : Vector UInt8 20) (key : Vector UInt8 32) :
    (get_storage host addr key).1 =
      if host.storageDB.canRead then slotValue host.storageDB addr key else zero32 := by
  simp only [get_storage, getContractStorage_hexEncode, slotValue,
    RocksDBWrapper.get_fst (slotRecord_ne_nil addr key)]
  cases host.storageDB.canRead with
  | false => rfl
  | true =>
      simp only [if_true]
      cases hread : readSlot (host.storageDB.entries.get? (slotRecord addr key)) with
      | mk rs valueHex =>
          by_cases hs : rs = .ok
          · subst hs
            simp only [if_true]
            cases hexToBytes32 valueHex <;> rfl
          · simp only [if_neg hs]
            cases rs with
            | ok => exact absurd rfl hs
            | notFound => rfl
            | corrupt => rfl
            | dbError => rfl

/-- What `set_storage` answers, of a slot that is warm or has no record, and a value that is zero or
what is there. -/
def statusOf (empty zero same ok : Bool) : StorageStatus :=
  if !ok then .unchanged
  else if empty && !zero then .added
  else if !empty && zero then .deleted
  else if !empty && same then .unchanged
  else .modified

/-- What `set_storage` charges. -/
def costOf (warm empty zero : Bool) : UInt64 :=
  if warm then GAS_SSTORE_WARM else if empty && !zero then GAS_SSTORE_SET else GAS_SSTORE_RESET

/-- The database has no record of the slot, or does not give it away. -/
def unseen (db : RocksDBWrapper) (addr : Vector UInt8 20) (key : Vector UInt8 32) : Bool :=
  (db.get (slotRecord addr key)).1.isNone

/-- The record of the slot that is seen is that of a value. -/
def sameText (db : RocksDBWrapper) (addr : Vector UInt8 20) (key val : Vector UInt8 32) : Bool :=
  (readSlot (db.get (slotRecord addr key)).1).2 == hexEncode val

/-- The database after a write of a slot. -/
def afterWrite (db : RocksDBWrapper) (addr : Vector UInt8 20) (key val : Vector UInt8 32) :
    RocksDBWrapper :=
  ((db.get (slotRecord addr key)).2.put (slotRecord addr key) (hexEncode val)).2

/-- **What writing a slot answers and does.** -/
theorem set_storage_spec (host : Host) (addr : Vector UInt8 20) (key val : Vector UInt8 32) :
    let r := set_storage host addr key val
    r.1 = statusOf (unseen host.storageDB addr key) (isAllZero val)
        (sameText host.storageDB addr key val) host.storageDB.canWrite ∧
      r.2.gas.total - host.gas.total =
        costOf (decide ((addr, key) ∈ host.accessedStorageSlots))
          (unseen host.storageDB addr key) (isAllZero val) ∧
      r.2.accessedStorageSlots = insert (addr, key) host.accessedStorageSlots ∧
      r.2.storageDB = afterWrite host.storageDB addr key val := by
  have hempty : decide ((readSlot (host.storageDB.get (slotRecord addr key)).1).1 = .notFound) =
      unseen host.storageDB addr key := by
    rw [unseen, Bool.eq_iff_iff, decide_eq_true_eq, readSlot_eq_notFound_iff,
      Option.isNone_iff_eq_none]
  have hok : ((host.storageDB.get (slotRecord addr key)).2.put (slotRecord addr key)
      (hexEncode val)).1 = host.storageDB.canWrite := by
    rw [RocksDBWrapper.put_fst (slotRecord_ne_nil addr key), RocksDBWrapper.canWrite,
      RocksDBWrapper.get_isOpen, RocksDBWrapper.get_writes, RocksDBWrapper.canWrite]
  have hgas (cost : UInt64) : host.gas.total + cost - host.gas.total = cost :=
    by rw [UInt64.add_comm, UInt64.add_sub_cancel]
  simp only [set_storage, getContractStorage_hexEncode, putContractStorage_hexEncode, hempty, hok]
  rw [statusOf, ← sameText, costOf, afterWrite]
  split_ifs <;> simp [*]

/-! ### Values after a write -/

theorem afterWrite_entries (db : RocksDBWrapper) (addr : Vector UInt8 20)
    (key val : Vector UInt8 32) :
    (afterWrite db addr key val).entries =
      if db.canWrite then db.entries.set (slotRecord addr key) (hexEncode val) else db.entries := by
  rw [afterWrite, RocksDBWrapper.put_entries (slotRecord_ne_nil addr key), RocksDBWrapper.canWrite,
    RocksDBWrapper.get_isOpen, RocksDBWrapper.get_writes, RocksDBWrapper.get_entries,
    RocksDBWrapper.canWrite]

theorem slotValue_of_get? (h : db.entries.get? (slotRecord addr key) = some (hexEncode val)) :
    slotValue db addr key = val := by
  rw [slotValue, h, readSlot_hexEncode]
  simp only [hexToBytes32_hexEncode, Option.getD_some]

/-- **The values after a write** that succeeds. -/
theorem slotValue_afterWrite (hwrite : db.canWrite = true) (addr : Vector UInt8 20)
    (key val : Vector UInt8 32) (addr' : Vector UInt8 20) (key' : Vector UInt8 32) :
    slotValue (afterWrite db addr key val) addr' key' =
      if addr = addr' ∧ key = key' then val else slotValue db addr' key' := by
  have hentries := afterWrite_entries db addr key val
  rw [hwrite, if_pos rfl] at hentries
  split
  · next hsame =>
      obtain ⟨rfl, rfl⟩ := hsame
      exact slotValue_of_get? (by rw [hentries, Js.Map.get?_set_self])
  · next hother =>
      have hrecord : slotRecord addr key ≠ slotRecord addr' key' :=
        fun heq => hother (slotRecord_injective heq)
      rw [slotValue, hentries, Js.Map.get?_set_of_ne _ _ hrecord, slotValue]

theorem slotValue_afterWrite_of_false (hwrite : db.canWrite = false) (addr : Vector UInt8 20)
    (key val : Vector UInt8 32) (addr' : Vector UInt8 20) (key' : Vector UInt8 32) :
    slotValue (afterWrite db addr key val) addr' key' = slotValue db addr' key' := by
  refine slotValue_congr ?_ addr' key'
  rw [afterWrite_entries, hwrite, if_neg Bool.false_ne_true]

theorem Written.congr (h : Written db) (hentries : db'.entries = db.entries) : Written db' := by
  intro addr key raw hraw
  rw [hentries] at hraw
  exact h addr key raw hraw

theorem Written.afterWrite (h : Written db) (addr : Vector UInt8 20) (key val : Vector UInt8 32) :
    Written (afterWrite db addr key val) := by
  intro addr' key' raw hraw hok
  rw [afterWrite_entries] at hraw
  split at hraw
  · rw [Js.Map.get?_set] at hraw
    split at hraw
    · obtain rfl := Option.some.inj hraw
      exact ⟨val, rfl⟩
    · exact h addr' key' raw hraw hok
  · exact h addr' key' raw hraw hok

theorem sameText_iff (hwritten : Written db) (hseen : unseen db addr key = false)
    (hne : isAllZero val = false) :
    sameText db addr key val = true ↔ slotValue db addr key = val := by
  have hval : val ≠ zero32 := by
    rintro rfl
    exact Bool.noConfusion (hne.symm.trans (by decide : isAllZero zero32 = true))
  rw [unseen, RocksDBWrapper.get_fst (slotRecord_ne_nil addr key)] at hseen
  rw [sameText, RocksDBWrapper.get_fst (slotRecord_ne_nil addr key), slotValue, beq_iff_eq]
  cases hread : db.canRead with
  | false =>
      rw [hread] at hseen
      exact Bool.noConfusion hseen
  | true =>
      rw [hread, if_pos rfl] at hseen
      rw [if_pos rfl]
      cases hraw : db.entries.get? (slotRecord addr key) with
      | none =>
          rw [hraw] at hseen
          exact Bool.noConfusion hseen
      | some raw =>
          by_cases hok : (readSlot (some raw)).1 = .ok
          · obtain ⟨v, rfl⟩ := hwritten addr key raw hraw hok
            rw [readSlot_hexEncode]
            simp only [hexToBytes32_hexEncode, Option.getD_some]
            exact ⟨hexEncode_injective, fun h => h ▸ rfl⟩
          · rw [readSlot_of_ne_ok hok]
            exact iff_of_false (hexEncode_ne_nil val).symm hval.symm

/-! ### Hosts that are alike -/

/-- Both stores have a record of the slot that a call writes, or neither has; or the write fails,
and the gas does not tell. -/
def SameRecords (s t : Host) : Call → Prop
  | .setStorage addr key val =>
      unseen s.storageDB addr key = unseen t.storageDB addr key ∨
        s.storageDB.canWrite = false ∧
          ((addr, key) ∈ s.accessedStorageSlots ∨ isAllZero val = true)
  | _ => True

theorem Alike.canRead (h : Alike s t) : s.storageDB.canRead = t.storageDB.canRead := by
  rw [RocksDBWrapper.canRead, h.isOpen, h.reads, RocksDBWrapper.canRead]

theorem Alike.canWrite (h : Alike s t) : s.storageDB.canWrite = t.storageDB.canWrite := by
  rw [RocksDBWrapper.canWrite, h.isOpen, h.writes, RocksDBWrapper.canWrite]

/-- **When a write is answered alike**, for the two things it depends on. -/
theorem statusOf_costOf_iff (warm zero ok empty empty' same same' : Bool)
    (hsame : empty = false → empty' = false → zero = false → same = same') :
    (statusOf empty zero same ok = statusOf empty' zero same' ok ∧
        costOf warm empty zero = costOf warm empty' zero) ↔
      (empty = empty' ∨ ok = false ∧ (warm = true ∨ zero = true)) := by
  revert warm zero ok empty empty' same same'
  decide

/-- **When one call is answered alike.** -/
theorem call_eq_iff (h : Alike s t) (c : Call) :
    (call s c).1 = (call t c).1 ↔ SameRecords s t c := by
  cases c with
  | beginTransaction => exact iff_of_true rfl trivial
  | accessStorage addr key =>
      refine iff_of_true ?_ trivial
      simp only [call, access_storage, h.accessed]
      split_ifs <;> simp
  | getStorage addr key =>
      refine iff_of_true ?_ trivial
      obtain ⟨-, -, hgas⟩ := get_storage_snd s addr key
      obtain ⟨-, -, hgas'⟩ := get_storage_snd t addr key
      simp only [call, hgas, hgas', get_storage_fst, h.canRead, h.values, h.accessed]
  | setStorage addr key val =>
      obtain ⟨hstatus, hgas, -⟩ := set_storage_spec s addr key val
      obtain ⟨hstatus', hgas', -⟩ := set_storage_spec t addr key val
      simp only [call, hstatus, hstatus', hgas, hgas', Prod.mk.injEq, Answer.status.injEq,
        ← h.canWrite, ← h.accessed]
      rw [statusOf_costOf_iff, SameRecords, decide_eq_true_eq]
      intro hseen hseen' hzero
      rw [Bool.eq_iff_iff, sameText_iff h.written_left hseen hzero,
        sameText_iff h.written_right hseen' hzero, h.values]

/-- **Hosts that are alike stay so**, whatever is called. -/
theorem call_alike (h : Alike s t) (c : Call) : Alike (call s c).2 (call t c).2 := by
  cases c with
  | beginTransaction =>
      exact ⟨h.isOpen, h.reads, h.writes, h.values, rfl, h.written_left, h.written_right⟩
  | accessStorage addr key =>
      simp only [call, access_storage, h.accessed]
      split_ifs
      · exact h
      · exact ⟨h.isOpen, h.reads, h.writes, h.values, rfl, h.written_left, h.written_right⟩
  | getStorage addr key =>
      obtain ⟨hdb, haccessed, -⟩ := get_storage_snd s addr key
      obtain ⟨hdb', haccessed', -⟩ := get_storage_snd t addr key
      have hentries := RocksDBWrapper.get_entries s.storageDB (slotRecord addr key)
      have hentries' := RocksDBWrapper.get_entries t.storageDB (slotRecord addr key)
      have hkey := slotRecord_ne_nil addr key
      refine ⟨?_, ?_, ?_, fun a k => ?_, ?_, ?_, ?_⟩
      · simp only [call, hdb, hdb', RocksDBWrapper.get_isOpen, h.isOpen]
      · simp only [call, hdb, hdb', RocksDBWrapper.get_reads hkey, h.isOpen, h.reads]
      · simp only [call, hdb, hdb', RocksDBWrapper.get_writes, h.writes]
      · simp only [call, hdb, hdb', slotValue_congr hentries, slotValue_congr hentries', h.values]
      · simp only [call, haccessed, haccessed', h.accessed]
      · simp only [call, hdb]
        exact h.written_left.congr hentries
      · simp only [call, hdb']
        exact h.written_right.congr hentries'
  | setStorage addr key val =>
      obtain ⟨-, -, haccessed, hdb⟩ := set_storage_spec s addr key val
      obtain ⟨-, -, haccessed', hdb'⟩ := set_storage_spec t addr key val
      have hkey := slotRecord_ne_nil addr key
      refine ⟨?_, ?_, ?_, fun a k => ?_, ?_, ?_, ?_⟩
      · simp only [call, hdb, hdb', afterWrite, RocksDBWrapper.put_isOpen,
          RocksDBWrapper.get_isOpen, h.isOpen]
      · simp only [call, hdb, hdb', afterWrite, RocksDBWrapper.put_reads,
          RocksDBWrapper.get_reads hkey, h.isOpen, h.reads]
      · simp only [call, hdb, hdb', afterWrite, RocksDBWrapper.put_writes hkey,
          RocksDBWrapper.get_isOpen, RocksDBWrapper.get_writes, h.isOpen, h.writes]
      · simp only [call, hdb, hdb']
        cases hwrite : t.storageDB.canWrite with
        | false =>
            rw [slotValue_afterWrite_of_false hwrite,
              slotValue_afterWrite_of_false (h.canWrite.trans hwrite), h.values]
        | true =>
            rw [slotValue_afterWrite hwrite, slotValue_afterWrite (h.canWrite.trans hwrite),
              h.values]
      · simp only [call, haccessed, haccessed', h.accessed]
      · simp only [call, hdb]
        exact h.written_left.afterWrite addr key val
      · simp only [call, hdb']
        exact h.written_right.afterWrite addr key val

/-! ### Sequences of calls -/

/-- **When a sequence of calls is answered alike.** Two hosts with the same values and the same
access list return the same and charge the same, over any sequence of calls, exactly if at each
write both stores have a record of the slot or neither has (or the write fails and the gas does not
tell).  They have the same values and access list at the end in any case. -/
theorem answers_alike_iff (h : Alike s t) (calls : List Call) :
    (answers call s calls = answers call t calls ↔ EveryPair call SameRecords s t calls) ∧
      Alike (after call s calls) (after call t calls) :=
  ⟨answers_eq_iff (R := Alike) (fun _ _ c hst => call_alike hst c)
      (fun _ _ c hst => call_eq_iff hst c) h calls,
    after_related (R := Alike) (fun _ _ c hst => call_alike hst c) h calls⟩

/-- A fresh host, and one to whose slot zero was written in an earlier transaction. -/
def zeroWritten : Host :=
  after call {} [.setStorage (Vector.replicate 20 1) (Vector.replicate 32 2) zero32,
    .beginTransaction]

theorem alike_zeroWritten : Alike {} zeroWritten := by
  have hempty : Written {} := fun addr key raw hraw => nomatch hraw
  obtain ⟨-, -, -, hdb⟩ := set_storage_spec {} (Vector.replicate 20 1) (Vector.replicate 32 2)
    zero32
  have hstore : zeroWritten.storageDB =
      afterWrite {} (Vector.replicate 20 1) (Vector.replicate 32 2) zero32 := hdb
  refine ⟨rfl, rfl, rfl, fun addr key => ?_, rfl, hempty, hstore ▸ hempty.afterWrite _ _ _⟩
  rw [hstore, slotValue_afterWrite rfl]
  split <;> rfl

theorem answers_zeroWritten :
    answers call {} [.getStorage (Vector.replicate 20 1) (Vector.replicate 32 2)] =
      answers call zeroWritten [.getStorage (Vector.replicate 20 1) (Vector.replicate 32 2)] :=
  (answers_alike_iff alike_zeroWritten _).1.2 ⟨trivial, trivial⟩

/-- **Writing does**: of a slot that was never written it answers `added` and charges 20000, after a
write of zero `modified` and 2900. -/
theorem zero_observable :
    Alike {} zeroWritten ∧
      answers call {} [.setStorage (Vector.replicate 20 1) (Vector.replicate 32 2)
        (Vector.replicate 32 1)] = [(.status .added, 20000)] ∧
      answers call zeroWritten [.setStorage (Vector.replicate 20 1) (Vector.replicate 32 2)
        (Vector.replicate 32 1)] = [(.status .modified, 2900)] :=
  ⟨alike_zeroWritten, by decide +kernel, by decide +kernel⟩

/-- **Zero and absent can be told apart.** -/
theorem not_indistinguishable :
    ¬ ∀ s t : Host, Alike s t → ∀ calls, answers call s calls = answers call t calls := by
  intro h
  obtain ⟨halike, hfresh, hzero⟩ := zero_observable
  have heq := h _ _ halike [.setStorage (Vector.replicate 20 1) (Vector.replicate 32 2)
    (Vector.replicate 32 1)]
  rw [hfresh, hzero] at heq
  exact absurd heq (by decide)

end Evm
