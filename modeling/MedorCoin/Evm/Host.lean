/-
**The host of the virtual machine.**

The host reads and writes slots and balances for contracts, and counts the gas; a slot costs less
when it was accessed before in the transaction.  When a contract destroys itself, its balance is
added to that of the beneficiary, byte by byte with a carry; then the two balances are written, one
after the other.

Main definitions:

* `Evm.Host`, `Evm.beginTransaction`;
* `Evm.get_storage`, `Evm.set_storage`, `Evm.access_storage`;
* `Evm.addCarry`, `Evm.selfdestruct`.

Main results:

* `Evm.readBE_addCarry` — **the addition is that of numbers**, with the carry in front.
-/

import MedorCoin.Cpp.BigEndian
import MedorCoin.Evm.Storage
import Mathlib.Data.Finset.Insert
import Mathlib.Tactic.Linarith

set_option autoImplicit false

namespace Evm

open Cpp

/-- `struct GasUsage`. -/
structure GasUsage where
  storageReads : UInt64 := 0
  storageWrites : UInt64 := 0
  codeReads : UInt64 := 0
  balanceReads : UInt64 := 0
  selfdestructs : UInt64 := 0
  total : UInt64 := 0

/-- The host, with the database behind it and the slots that the transaction has accessed. -/
structure Host where
  storageDB : RocksDBWrapper := {}
  gas : GasUsage := {}
  storageErrorOccurred : Bool := false
  inSelfdestruct : Bool := false
  accessedStorageSlots : Finset (Vector UInt8 20 × Vector UInt8 32) := ∅

def GAS_SLOAD_COLD : UInt64 := 2100
def GAS_SLOAD_WARM : UInt64 := 100
def GAS_SSTORE_SET : UInt64 := 20000
def GAS_SSTORE_RESET : UInt64 := 2900
def GAS_SSTORE_WARM : UInt64 := 100
def GAS_SELFDESTRUCT : UInt64 := 5000

/-- `isAllZero(v)`. -/
def isAllZero (v : Vector UInt8 32) : Bool := v.toList.all (· == 0)

/-- `beginTransaction()`. -/
def beginTransaction (host : Host) : Host :=
  { host with
    gas := {}
    storageErrorOccurred := false
    inSelfdestruct := false
    accessedStorageSlots := ∅ }

/-! ### Slots -/

/-- `get_storage(addr, key)`. -/
def get_storage (host : Host) (addr : Vector UInt8 20) (key : Vector UInt8 32) :
    Vector UInt8 32 × Host :=
  let warm := decide ((addr, key) ∈ host.accessedStorageSlots)
  let gas := { host.gas with
    storageReads := host.gas.storageReads + 1
    total := host.gas.total + if warm then GAS_SLOAD_WARM else GAS_SLOAD_COLD }
  let ((s, valueHex), storageDB) :=
    getContractStorage host.storageDB (hexEncode addr) (hexEncode key)
  let host := { host with
    storageDB, gas, accessedStorageSlots := insert (addr, key) host.accessedStorageSlots }
  if s = .ok then
    match hexToBytes32 valueHex with
    | none => (zero32, { host with storageErrorOccurred := true })
    | some out => (out, host)
  else (zero32, host)

/-- `evmc_storage_status`. -/
inductive StorageStatus where
  | unchanged
  | modified
  | added
  | deleted
  deriving DecidableEq

/-- `set_storage(addr, key, val)`. -/
def set_storage (host : Host) (addr : Vector UInt8 20) (key val : Vector UInt8 32) :
    StorageStatus × Host :=
  let addrHex := hexEncode addr
  let keyHex := hexEncode key
  let ((rs, currentHex), storageDB) := getContractStorage host.storageDB addrHex keyHex
  let currentEmpty := decide (rs = .notFound)
  let newIsZero := isAllZero val
  let warm := decide ((addr, key) ∈ host.accessedStorageSlots)
  let gas := { host.gas with
    storageWrites := host.gas.storageWrites + 1
    total := host.gas.total +
      if warm then GAS_SSTORE_WARM
      else if currentEmpty && !newIsZero then GAS_SSTORE_SET else GAS_SSTORE_RESET }
  let newValHex := hexEncode val
  let (ok, storageDB) := putContractStorage storageDB addrHex keyHex newValHex
  let host := { host with
    storageDB, gas, accessedStorageSlots := insert (addr, key) host.accessedStorageSlots }
  if !ok then (.unchanged, { host with storageErrorOccurred := true })
  else if currentEmpty && !newIsZero then (.added, host)
  else if !currentEmpty && newIsZero then (.deleted, host)
  else if !currentEmpty && currentHex == newValHex then (.unchanged, host)
  else (.modified, host)

/-- `evmc_access_status`. -/
inductive AccessStatus where
  | cold
  | warm
  deriving DecidableEq

/-- `access_storage(addr, key)`. -/
def access_storage (host : Host) (addr : Vector UInt8 20) (key : Vector UInt8 32) :
    AccessStatus × Host :=
  if (addr, key) ∈ host.accessedStorageSlots then (.warm, host)
  else
    (.cold, { host with accessedStorageSlots := insert (addr, key) host.accessedStorageSlots })

/-! ### Addition with carry -/

/-- The loop over the bytes, from the last to the first: the sum and the carry. -/
def addCarry : List UInt8 → List UInt8 → List UInt8 × UInt16
  | a :: as, b :: bs =>
      let (rest, carry) := addCarry as bs
      let sum := a.toUInt16 + b.toUInt16 + carry
      ((sum &&& 0xFF).toUInt8 :: rest, sum >>> 8)
  | _, _ => ([], 0)

theorem length_addCarry (as bs : List UInt8) (h : as.length = bs.length) :
    (addCarry as bs).1.length = as.length := by
  induction as generalizing bs with
  | nil => rfl
  | cons a as ih =>
      cases bs with
      | nil => cases h
      | cons b bs =>
          rw [addCarry]
          exact congrArg Nat.succ (ih bs (Nat.succ.inj h))

/-- **The addition is that of numbers**, with the carry in front. -/
theorem readBE_addCarry (as bs : List UInt8) (h : as.length = bs.length) :
    readBE (addCarry as bs).1 + (addCarry as bs).2.toNat * 256 ^ as.length =
        readBE as + readBE bs ∧ (addCarry as bs).2.toNat ≤ 1 := by
  induction as generalizing bs with
  | nil =>
      cases bs with
      | nil => exact ⟨rfl, Nat.zero_le _⟩
      | cons b bs => cases h
  | cons a as ih =>
      cases bs with
      | nil => cases h
      | cons b bs =>
          have hlength := Nat.succ.inj h
          obtain ⟨hvalue, hcarry⟩ := ih bs hlength
          have hsum : (a.toUInt16 + b.toUInt16 + (addCarry as bs).2).toNat =
              a.toNat + b.toNat + (addCarry as bs).2.toNat := by
            have ha := a.toNat_lt
            have hb := b.toNat_lt
            rw [UInt16.toNat_add, UInt16.toNat_add, UInt8.toNat_toUInt16, UInt8.toNat_toUInt16]
            omega
          simp only [addCarry]
          generalize a.toUInt16 + b.toUInt16 + (addCarry as bs).2 = sum at hsum ⊢
          have ha := a.toNat_lt
          have hb := b.toNat_lt
          have hlow : (sum &&& 0xFF).toUInt8.toNat = sum.toNat % 256 := by
            rw [UInt16.toNat_toUInt8, UInt16.toNat_and]
            exact congrArg (· % 2 ^ 8) (Nat.and_two_pow_sub_one_eq_mod sum.toNat 8) |>.trans
              (Nat.mod_mod _ _)
          have hhigh : (sum >>> 8).toNat = sum.toNat / 256 := by
            rw [UInt16.toNat_shiftRight, Nat.shiftRight_eq_div_pow]
            rfl
          have hsplit := Nat.div_add_mod sum.toNat 256
          have hmul := congrArg (· * 256 ^ as.length) (hsplit.trans hsum)
          simp only [readBE_cons, hlow, hhigh, length_addCarry as bs hlength, ← hlength,
            List.length_cons, Nat.pow_succ]
          simp only [Nat.add_mul] at hmul
          constructor
          · linarith
          · omega

/-! ### Destroying a contract -/

/-- The sum of two balances, and the carry out of the first byte. -/
def addBalances (addrBal benBal : Vector UInt8 32) : Vector UInt8 32 × UInt16 :=
  (⟨(addCarry addrBal.toList benBal.toList).1.toArray, by
      rw [List.size_toArray, length_addCarry _ _ (by simp), Vector.length_toList]⟩,
    (addCarry addrBal.toList benBal.toList).2)

/-- `selfdestruct(addr, beneficiary)`. -/
def selfdestruct (host : Host) (addr beneficiary : Vector UInt8 20) : Bool × Host :=
  if host.inSelfdestruct then (false, host)
  else
    let gas := { host.gas with
      selfdestructs := host.gas.selfdestructs + 1
      total := host.gas.total + GAS_SELFDESTRUCT }
    let addrHex := hexEncode addr
    let benHex := hexEncode beneficiary
    let ((status, addrBal), storageDB) := getBalance host.storageDB addrHex
    let anyBalance := decide (status = .ok) && !isAllZero addrBal
    if anyBalance then
      let ((_, benBal), storageDB) := getBalance storageDB benHex
      -- the carry is only logged
      let (benBal, _) := addBalances addrBal benBal
      let (ok, storageDB) := putBalance storageDB benHex benBal
      if ok then
        let (ok, storageDB) := putBalance storageDB addrHex zero32
        if ok then (true, { host with storageDB, gas, inSelfdestruct := false })
        else
          (false, { host with
            storageDB, gas, storageErrorOccurred := true, inSelfdestruct := false })
      else
        (false, { host with
          storageDB, gas, storageErrorOccurred := true, inSelfdestruct := false })
    else (true, { host with storageDB, gas, inSelfdestruct := false })

end Evm
