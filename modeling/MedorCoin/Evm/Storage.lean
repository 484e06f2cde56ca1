/-
**The storage of the virtual machine.**

Balances are records of 32 bytes and storage slots records of 64 hexadecimal digits, each under a
key of its own in a database that can fail.  The database says of a read that failed the same as of
a record that is not there; whether the reads and writes to come succeed is part of its state.  A
record of another form is reported as corrupt.

Main definitions:

* `Evm.RocksDBWrapper`, with `get` and `put`;
* `Evm.getBalance`, `Evm.putBalance`, `Evm.getContractStorage`, `Evm.putContractStorage`;
* `Evm.hexEncode`, `Evm.hexToBytes32`.

Main results:

* `Evm.getBalance_hexEncode`, `Evm.putBalance_hexEncode` — what the database is asked for an
  address;
* `Evm.getContractStorage_hexEncode`, `Evm.putContractStorage_hexEncode` — the same of a slot;
* `Evm.hexToBytes32_hexEncode` — **what is written is read**.
-/

import MedorCoin.Cpp.Text
import MedorCoin.Js.Map

set_option autoImplicit false

namespace Evm

open Cpp

/-! ### The database -/

/-- The database: its records, and whether each of the reads and writes to come succeeds.  Those
beyond the lists do. -/
structure RocksDBWrapper where
  isOpen : Bool := true
  entries : Js.Map Str Str := Js.Map.empty
  reads : List Bool := []
  writes : List Bool := []

namespace RocksDBWrapper

/-- `get(key, valueOut)`; there is no value if the read fails. -/
def get (db : RocksDBWrapper) (key : Str) : Option Str × RocksDBWrapper :=
  if db.isOpen && key != [] then
    (if db.reads.headD true then db.entries.get? key else none,
      { db with reads := db.reads.tail })
  else (none, db)

/-- `put(key, value)`. -/
def put (db : RocksDBWrapper) (key value : Str) : Bool × RocksDBWrapper :=
  if db.isOpen && key != [] then
    (db.writes.headD true,
      { db with
        entries := if db.writes.headD true then db.entries.set key value else db.entries
        writes := db.writes.tail })
  else (false, db)

/-- The next read succeeds. -/
def canRead (db : RocksDBWrapper) : Bool := db.isOpen && db.reads.headD true

/-- The next write succeeds. -/
def canWrite (db : RocksDBWrapper) : Bool := db.isOpen && db.writes.headD true

variable {db : RocksDBWrapper} {key : Str}

theorem get_fst (hkey : key ≠ []) :
    (db.get key).1 = if db.canRead then db.entries.get? key else none := by
  rw [get, canRead]
  cases db.isOpen <;> cases db.reads.headD true <;> simp [hkey]

@[simp] theorem get_entries (db : RocksDBWrapper) (key : Str) :
    (db.get key).2.entries = db.entries := by
  rw [get]
  split <;> rfl

@[simp] theorem get_writes (db : RocksDBWrapper) (key : Str) :
    (db.get key).2.writes = db.writes := by
  rw [get]
  split <;> rfl

@[simp] theorem get_isOpen (db : RocksDBWrapper) (key : Str) :
    (db.get key).2.isOpen = db.isOpen := by
  rw [get]
  split <;> rfl

theorem get_reads (hkey : key ≠ []) :
    (db.get key).2.reads = if db.isOpen then db.reads.tail else db.reads := by
  rw [get]
  cases db.isOpen <;> simp [hkey]

theorem put_fst (hkey : key ≠ []) (value : Str) : (db.put key value).1 = db.canWrite := by
  rw [put, canWrite]
  cases db.isOpen <;> simp [hkey]

theorem put_entries (hkey : key ≠ []) (value : Str) :
    (db.put key value).2.entries =
      if db.canWrite then db.entries.set key value else db.entries := by
  rw [put, canWrite]
  cases db.isOpen <;> cases db.writes.headD true <;> simp [hkey]

theorem put_writes (hkey : key ≠ []) (value : Str) :
    (db.put key value).2.writes = if db.isOpen then db.writes.tail else db.writes := by
  rw [put]
  cases db.isOpen <;> simp [hkey]

@[simp] theorem put_reads (db : RocksDBWrapper) (key value : Str) :
    (db.put key value).2.reads = db.reads := by
  rw [put]
  split <;> rfl

@[simp] theorem put_isOpen (db : RocksDBWrapper) (key value : Str) :
    (db.put key value).2.isOpen = db.isOpen := by
  rw [put]
  split <;> rfl

end RocksDBWrapper

/-! ### Hexadecimal -/

/-- `std::isxdigit`. -/
def isxdigit (c : UInt8) : Bool := isLowerHexDigit c || (65 ≤ c && c ≤ 70)

/-- `std::tolower`. -/
def tolower (c : UInt8) : UInt8 := if 65 ≤ c && c ≤ 90 then c + 32 else c

/-- `isValidHex(s, requiredLen)`. -/
def isValidHex (s : Str) (requiredLen : ℕ) : Bool := s.length == requiredLen && s.all isxdigit

def isValidAddrHex (s : Str) : Bool := isValidHex s 40

def isValidSlotHex (s : Str) : Bool := isValidHex s 64

/-- `hexEncode(data, len)`. -/
def hexEncode {n : ℕ} (data : Vector UInt8 n) : Str := toHex data.toList

/-- The value of a hexadecimal digit in lower case. -/
def nibble (c : UInt8) : UInt8 := if isDigit c then c - 48 else c - 97 + 10

/-- The bytes of pairs of digits. -/
def hexPairs : Str → Option (List UInt8)
  | hi :: lo :: rest =>
      let hi := tolower hi
      let lo := tolower lo
      if !isxdigit hi || !isxdigit lo then none
      else (hexPairs rest).map (((nibble hi <<< 4) ||| nibble lo) :: ·)
  | _ => some []

/-- `hexToBytes32(hex, out)`. -/
def hexToBytes32 (hex : Str) : Option (Vector UInt8 32) :=
  if hex.length ≠ 64 then none
  else (hexPairs hex).bind fun bytes => if h : bytes.toArray.size = 32 then some ⟨bytes.toArray, h⟩
    else none

theorem isxdigit_of_isLowerHexDigit {c : UInt8} (h : isLowerHexDigit c) : isxdigit c := by
  rw [isxdigit, h, Bool.true_or]

theorem isValidHex_hexEncode {n : ℕ} (data : Vector UInt8 n) :
    isValidHex (hexEncode data) (2 * n) = true := by
  have hlower := isLowerHex_toHex data.toList
  rw [isLowerHex, Bool.and_eq_true, List.all_eq_true, Vector.length_toList] at hlower
  rw [isValidHex, Bool.and_eq_true, List.all_eq_true]
  exact ⟨hlower.1, fun c hc => isxdigit_of_isLowerHexDigit (hlower.2 c hc)⟩

theorem isValidAddrHex_hexEncode (addr : Vector UInt8 20) :
    isValidAddrHex (hexEncode addr) = true := isValidHex_hexEncode addr

theorem isValidSlotHex_hexEncode (key : Vector UInt8 32) :
    isValidSlotHex (hexEncode key) = true := isValidHex_hexEncode key

theorem hexEncode_injective {n : ℕ} {a b : Vector UInt8 n} (h : hexEncode a = hexEncode b) :
    a = b := Vector.toList_inj.1 (toHex_injective h)

theorem hexPairs_toHex (bytes : List UInt8) : hexPairs (toHex bytes) = some bytes := by
  have hdigit : ∀ n < 16, tolower (hexDigit n) = hexDigit n ∧ isxdigit (hexDigit n) = true ∧
      nibble (hexDigit n) = UInt8.ofNat n := by decide
  induction bytes with
  | nil => rfl
  | cons b bytes ih =>
      obtain ⟨hhi, hxhi, hnhi⟩ := hdigit (b.toNat / 16) (by have := b.toNat_lt; omega)
      obtain ⟨hlo, hxlo, hnlo⟩ := hdigit (b.toNat % 16) (Nat.mod_lt _ (by decide))
      have hbyte : (UInt8.ofNat (b.toNat / 16) <<< 4) ||| UInt8.ofNat (b.toNat % 16) = b := by
        have key : ∀ n < 256, (UInt8.ofNat (n / 16) <<< 4) ||| UInt8.ofNat (n % 16) =
            UInt8.ofNat n := by decide +kernel
        rw [key b.toNat b.toNat_lt, UInt8.ofNat_toNat]
      have hcons : toHex (b :: bytes) =
          hexDigit (b.toNat / 16) :: hexDigit (b.toNat % 16) :: toHex bytes := rfl
      rw [hcons, hexPairs]
      simp only [hhi, hlo, hxhi, hxlo, hnhi, hnlo, hbyte, ih, Bool.not_true, Bool.or_self,
        Bool.false_eq_true, if_false, Option.map_some]

/-- **What is written is read.** -/
theorem hexToBytes32_hexEncode (v : Vector UInt8 32) : hexToBytes32 (hexEncode v) = some v := by
  have hvalid := isValidHex_hexEncode v
  rw [isValidHex, Bool.and_eq_true, beq_iff_eq] at hvalid
  rw [hexToBytes32, if_neg (not_not.2 hvalid.1), hexEncode, hexPairs_toHex, Option.bind_some,
    dif_pos (by simp)]
  exact congrArg some (Vector.toArray_inj.1 Array.toArray_toList)

/-! ### Records -/

/-- `enum class ReadStatus`. -/
inductive ReadStatus where
  | ok
  | notFound
  | corrupt
  | dbError
  deriving DecidableEq

def storageKey (addr slot : Str) : Str := str "storage:" ++ addr ++ str ":" ++ slot

def balanceKey (addr : Str) : Str := str "balance:" ++ addr

/-- Thirty-two bytes of zero. -/
def zero32 : Vector UInt8 32 := Vector.replicate 32 0

/-- `putBalance(addrHex, balance)`. -/
def putBalance (db : RocksDBWrapper) (addrHex : Str) (balance : Vector UInt8 32) :
    Bool × RocksDBWrapper :=
  if isValidAddrHex addrHex then db.put (balanceKey addrHex) balance.toList else (false, db)

/-- What is made of a record of a balance. -/
def readBalance (raw : Option Str) : ReadStatus × Vector UInt8 32 :=
  match raw with
  | none => (.notFound, zero32)
  | some raw =>
      if h : raw.toArray.size = 32 then (.ok, ⟨raw.toArray, h⟩)
      else (.corrupt, zero32)

/-- `getBalance(addrHex, balanceOut)`. -/
def getBalance (db : RocksDBWrapper) (addrHex : Str) :
    (ReadStatus × Vector UInt8 32) × RocksDBWrapper :=
  if isValidAddrHex addrHex then
    let (raw, db) := db.get (balanceKey addrHex)
    (readBalance raw, db)
  else ((.dbError, zero32), db)

/-- `putContractStorage(addrHex, slotHex, valueHex)`. -/
def putContractStorage (db : RocksDBWrapper) (addrHex slotHex valueHex : Str) :
    Bool × RocksDBWrapper :=
  if isValidAddrHex addrHex && isValidSlotHex slotHex && isValidSlotHex valueHex then
    db.put (storageKey addrHex slotHex) valueHex
  else (false, db)

/-- What is made of a record of a slot. -/
def readSlot (raw : Option Str) : ReadStatus × Str :=
  match raw with
  | none => (.notFound, [])
  | some value =>
      if value.length ≠ 64 then (.corrupt, [])
      else if !isValidSlotHex value then (.corrupt, [])
      else (.ok, value)

/-- `getContractStorage(addrHex, slotHex, valueOut)`. -/
def getContractStorage (db : RocksDBWrapper) (addrHex slotHex : Str) :
    (ReadStatus × Str) × RocksDBWrapper :=
  if isValidAddrHex addrHex && isValidSlotHex slotHex then
    let (raw, db) := db.get (storageKey addrHex slotHex)
    (readSlot raw, db)
  else ((.dbError, []), db)

/-! ### The records of an address -/

variable (db : RocksDBWrapper) (addr : Vector UInt8 20) (key value : Vector UInt8 32)

/-- The key of the balance of an address. -/
def balanceRecord (addr : Vector UInt8 20) : Str := balanceKey (hexEncode addr)

/-- The key of a slot of an account. -/
def slotRecord (addr : Vector UInt8 20) (key : Vector UInt8 32) : Str :=
  storageKey (hexEncode addr) (hexEncode key)

theorem balanceRecord_ne_nil : balanceRecord addr ≠ [] := by
  rw [balanceRecord, balanceKey]
  exact List.append_ne_nil_of_left_ne_nil (by decide) _

theorem slotRecord_ne_nil : slotRecord addr key ≠ [] := by
  rw [slotRecord, storageKey, List.append_assoc, List.append_assoc]
  exact List.append_ne_nil_of_left_ne_nil (by decide) _

theorem balanceRecord_injective {a b : Vector UInt8 20} (h : balanceRecord a = balanceRecord b) :
    a = b := hexEncode_injective (List.append_cancel_left h)

theorem slotRecord_injective {a b : Vector UInt8 20} {k l : Vector UInt8 32}
    (h : slotRecord a k = slotRecord b l) : a = b ∧ k = l := by
  have hlength : ∀ a : Vector UInt8 20, (hexEncode a).length = 40 := fun a => by
    have hvalid := isValidHex_hexEncode a
    rw [isValidHex, Bool.and_eq_true, beq_iff_eq] at hvalid
    exact hvalid.1
  rw [slotRecord, slotRecord, storageKey, storageKey, List.append_assoc, List.append_assoc,
    List.append_assoc, List.append_assoc] at h
  obtain ⟨haddr, hkey⟩ := List.append_inj (List.append_cancel_left h) (by rw [hlength, hlength])
  exact ⟨hexEncode_injective haddr, hexEncode_injective (List.append_cancel_left hkey)⟩

theorem getBalance_hexEncode : getBalance db (hexEncode addr) =
    (readBalance (db.get (balanceRecord addr)).1, (db.get (balanceRecord addr)).2) := by
  rw [getBalance, if_pos (isValidAddrHex_hexEncode addr)]
  rfl

theorem putBalance_hexEncode : putBalance db (hexEncode addr) value =
    db.put (balanceRecord addr) value.toList := by
  rw [putBalance, if_pos (isValidAddrHex_hexEncode addr)]
  rfl

theorem getContractStorage_hexEncode : getContractStorage db (hexEncode addr) (hexEncode key) =
    (readSlot (db.get (slotRecord addr key)).1, (db.get (slotRecord addr key)).2) := by
  rw [getContractStorage, isValidAddrHex_hexEncode, isValidSlotHex_hexEncode]
  rfl

theorem putContractStorage_hexEncode :
    putContractStorage db (hexEncode addr) (hexEncode key) (hexEncode value) =
      db.put (slotRecord addr key) (hexEncode value) := by
  rw [putContractStorage, isValidAddrHex_hexEncode, isValidSlotHex_hexEncode,
    isValidSlotHex_hexEncode]
  rfl

end Evm
