/-
**Records of code and of balances.**

The code of a contract is stored after its length and its checksum, four bytes each, most
significant first.  Whoever reads a record compares both with the bytes that follow.  The checksum
is computed bit by bit; it is the one of the reflected polynomial `0xEDB88320`.  A balance is a
record of 32 bytes, of which a number of 64 bits takes the last eight.

Main definitions:

* `Evm.crc32c`, `Evm.codeRecord`, `Evm.putContractCode`, `Evm.getContractCode`;
* `Evm.putBalance64`, `Evm.getBalance64`;
* `Evm.Damaged` — a record that was cut, extended or hit by a burst.

Main results:

* `Evm.crc32c_eq_crcIeee` — the loop computes the checksum of the polynomial;
* `Evm.readCode_codeRecord` — **what is written is read**;
* `Evm.readCode_of_damaged` — **damage is found**;
* `Evm.readBalance64_balance64Bytes`, `Evm.readBalance64_of_le` — balances of 64 bits, and greater
  ones.
-/

import MedorCoin.Cpp.BigEndian
import MedorCoin.Evm.Storage
import MedorCoin.Net.PeerStoreChecksum

set_option autoImplicit false

namespace Evm

open Cpp
open Net.StoreChecksum (Burst crcIeee crcIeee_ne_of_burst ieeeByte ieeePoly)

/-! ### The checksum -/

/-- A turn of the inner loop: the mask is all ones if the lowest bit is one. -/
def crcShift (crc : UInt32) : UInt32 := (crc >>> 1) ^^^ (0xEDB88320 &&& ~~~((crc &&& 1) - 1))

/-- `crc32c(data, length)`. -/
def crc32c (data : Str) : UInt32 :=
  data.foldl (fun crc b => crcShift^[8] (crc ^^^ b.toUInt32)) 0xFFFFFFFF ^^^ 0xFFFFFFFF

theorem toBitVec_crcShift (crc : UInt32) :
    (crcShift crc).toBitVec = Crc.step ieeePoly crc.toBitVec := by
  rw [crcShift, Crc.step, Codec.and_one_eq]
  cases crc.toBitVec.getLsbD 0
  · exact BitVec.xor_zero
  · rfl

theorem toBitVec_iterate_crcShift (crc : UInt32) (n : ℕ) :
    (crcShift^[n] crc).toBitVec = (Crc.step ieeePoly)^[n] crc.toBitVec := by
  induction n with
  | zero => rfl
  | succ n ih =>
      rw [Function.iterate_succ_apply', Function.iterate_succ_apply', toBitVec_crcShift, ih]

/-- **The loop computes the checksum of the polynomial.** -/
theorem crc32c_eq_crcIeee (data : Str) : crc32c data = crcIeee data := by
  have hbyte :
      (fun (crc : UInt32) (b : UInt8) => crcShift^[8] (crc ^^^ b.toUInt32)) = ieeeByte := by
    funext crc b
    rw [← UInt32.toBitVec_inj, toBitVec_iterate_crcShift]
    rfl
  rw [crc32c, hbyte]
  rfl

/-! ### Code -/

/-- Four bytes of a record, most significant first. -/
def putBE32 (v : UInt32) : Str :=
  [((v >>> 24) &&& 0xFF).toUInt8, ((v >>> 16) &&& 0xFF).toUInt8, ((v >>> 8) &&& 0xFF).toUInt8,
    (v &&& 0xFF).toUInt8]

/-- Four bytes of a record, from an offset on. -/
def getBE32 (raw : Str) (offset : ℕ) : UInt32 :=
  ((raw.getD offset 0).toUInt32 <<< 24) ||| ((raw.getD (offset + 1) 0).toUInt32 <<< 16) |||
    ((raw.getD (offset + 2) 0).toUInt32 <<< 8) ||| (raw.getD (offset + 3) 0).toUInt32

def codeKey (addr : Str) : Str := str "code:" ++ addr

/-- The record of a code: length, checksum, code. -/
def codeRecord (code : Str) : Str :=
  putBE32 (UInt32.ofNat code.length) ++ putBE32 (crc32c code) ++ code

/-- `putContractCode(addrHex, code)`. -/
def putContractCode (db : RocksDBWrapper) (addrHex code : Str) : Bool × RocksDBWrapper :=
  if isValidAddrHex addrHex then db.put (codeKey addrHex) (codeRecord code) else (false, db)

/-- What is made of a record of a code. -/
def readCode (raw : Option Str) : ReadStatus × Str :=
  match raw with
  | none => (.notFound, [])
  | some raw =>
      if raw.length < 8 then (.corrupt, [])
      else
        let storedLen := getBE32 raw 0
        if raw.length ≠ 8 + storedLen.toNat then (.corrupt, [])
        else
          let storedCRC := getBE32 raw 4
          let body := (raw.drop 8).take storedLen.toNat
          if crc32c body ≠ storedCRC then (.corrupt, []) else (.ok, body)

/-- `getContractCode(addrHex, codeOut)`. -/
def getContractCode (db : RocksDBWrapper) (addrHex : Str) :
    (ReadStatus × Str) × RocksDBWrapper :=
  if isValidAddrHex addrHex then
    let (raw, db) := db.get (codeKey addrHex)
    (readCode raw, db)
  else ((.dbError, []), db)

theorem putBE32_eq (v : UInt32) : putBE32 v = Codec.beWrite32 v := by
  have hbyte (w : UInt32) : (w &&& 0xFF).toUInt8 = w.toUInt8 := by
    rw [← UInt8.toNat_inj, UInt32.toNat_toUInt8, UInt32.toNat_toUInt8, UInt32.toNat_and]
    exact (congrArg (· % 2 ^ 8) (Nat.and_two_pow_sub_one_eq_mod w.toNat 8)).trans (Nat.mod_mod _ _)
  simp only [putBE32, Codec.beWrite32, hbyte]

theorem getBE32_eq (raw : Str) (offset : ℕ) :
    getBE32 raw offset = Codec.beRead32 (raw.drop offset) := by
  simp only [getBE32, Codec.beRead32, List.getD_eq_getElem?_getD, List.getElem?_drop,
    Nat.add_zero]

theorem getBE32_putBE32 {before : Str} {offset : ℕ} (h : before.length = offset) (v : UInt32)
    (rest : Str) : getBE32 (before ++ (putBE32 v ++ rest)) offset = v := by
  rw [getBE32_eq, List.drop_left' h, putBE32_eq, Codec.beRead32_beWrite32]

/-- What stands in front of a code. -/
def header (code : Str) : Str := putBE32 (UInt32.ofNat code.length) ++ putBE32 (crc32c code)

@[simp] theorem length_header (code : Str) : (header code).length = 8 := rfl

/-- **What is made of the header of a code before any body**: only one of the same length and
checksum passes. -/
theorem readCode_header {code : Str} (hcode : code.length < 2 ^ 32) (body : Str) :
    readCode (some (header code ++ body)) =
      if body.length = code.length ∧ crc32c body = crc32c code then (.ok, body)
      else (.corrupt, []) := by
  have hlen : getBE32 (header code ++ body) 0 = UInt32.ofNat code.length := by
    rw [header, List.append_assoc]
    exact getBE32_putBE32 List.length_nil _ _
  have hcrc : getBE32 (header code ++ body) 4 = crc32c code := by
    rw [header, List.append_assoc]
    exact getBE32_putBE32 rfl _ _
  have hstored : (UInt32.ofNat code.length).toNat = code.length := UInt32.toNat_ofNat_of_lt' hcode
  have hsize : ¬ (header code ++ body).length < 8 := by simp
  have hdrop : (header code ++ body).drop 8 = body := List.drop_left' (length_header code)
  have hlong : (header code ++ body).length = 8 + body.length := by simp
  rw [readCode, if_neg hsize]
  simp only [hlen, hcrc, hstored, hdrop, hlong]
  by_cases hlength : body.length = code.length
  · rw [if_neg (not_not.2 (congrArg (8 + ·) hlength)), ← hlength, List.take_length]
    simp only [ite_not, true_and]
  · have hne : 8 + body.length ≠ 8 + code.length := by omega
    rw [if_pos hne, if_neg fun h => hlength h.1]

/-- **What is written is read.** -/
theorem readCode_codeRecord {code : Str} (hcode : code.length < 2 ^ 32) :
    readCode (some (codeRecord code)) = (.ok, code) := by
  rw [codeRecord, ← header, readCode_header hcode, if_pos ⟨rfl, rfl⟩]

/-- **A record that was cut, that something was added to, or whose code was hit by a burst.** -/
inductive Damaged (code : Str) : Str → Prop
  | cut (n : ℕ) : n < (codeRecord code).length → Damaged code ((codeRecord code).take n)
  | extended (suffix : Str) : suffix ≠ [] → Damaged code (codeRecord code ++ suffix)
  | burst (body : Str) : Burst code body → Damaged code (header code ++ body)

theorem readCode_of_length_lt {raw : Str} (h : raw.length < 8) :
    readCode (some raw) = (.corrupt, []) := if_pos h

/-- **Damage is found.** -/
theorem readCode_of_damaged {code raw : Str} (hcode : code.length < 2 ^ 32)
    (h : Damaged code raw) : readCode (some raw) = (.corrupt, []) := by
  cases h with
  | cut n hn =>
      rw [codeRecord, ← header] at hn ⊢
      rw [List.length_append, length_header] at hn
      rcases Nat.lt_or_ge n 8 with hheader | hbody
      · refine readCode_of_length_lt ?_
        rw [List.length_take, List.length_append, length_header]
        omega
      · have hne : (code.take (n - 8)).length ≠ code.length := by
          rw [List.length_take]
          omega
        rw [List.take_append, List.take_of_length_le (by rw [length_header]; exact hbody),
          length_header, readCode_header hcode, if_neg fun h => hne h.1]
  | extended suffix hsuffix =>
      have hne : (code ++ suffix).length ≠ code.length := by
        have hpos := List.length_pos_iff.2 hsuffix
        rw [List.length_append]
        omega
      rw [codeRecord, ← header, List.append_assoc, readCode_header hcode, if_neg fun h => hne h.1]
  | burst body hburst =>
      have hne : crc32c body ≠ crc32c code := by
        rw [crc32c_eq_crcIeee, crc32c_eq_crcIeee]
        exact (crcIeee_ne_of_burst hburst).symm
      rw [readCode_header hcode, if_neg fun h => hne h.2]

/-! ### Balances of 64 bits -/

/-- The record of a balance of 64 bits: zeros, and the number in the last eight bytes. -/
def balance64Bytes (balance : UInt64) : Vector UInt8 32 :=
  ⟨(List.replicate 24 0 ++
      [7, 6, 5, 4, 3, 2, 1, 0].map fun i : UInt64 => (balance >>> (8 * i)).toUInt8).toArray,
    by simp⟩

/-- `putBalance64(addrHex, balance)`. -/
def putBalance64 (db : RocksDBWrapper) (addrHex : Str) (balance : UInt64) : Bool × RocksDBWrapper :=
  putBalance db addrHex (balance64Bytes balance)

/-- What is made of a balance that was read. -/
def readBalance64 : ReadStatus × Vector UInt8 32 → ReadStatus × UInt64
  | (.ok, buf) =>
      if (buf.toList.take 24).any (· != 0) then (.corrupt, 0)
      else (.ok, (buf.toList.drop 24).foldl shiftIn 0)
  | (status, _) => (status, 0)

/-- `getBalance64(addrHex, balanceOut)`. -/
def getBalance64 (db : RocksDBWrapper) (addrHex : Str) :
    (ReadStatus × UInt64) × RocksDBWrapper :=
  let (balance, db) := getBalance db addrHex
  (readBalance64 balance, db)

theorem toList_balance64Bytes (balance : UInt64) :
    (balance64Bytes balance).toList = List.replicate 24 0 ++ writeBE 8 balance.toNat := by
  have hbyte (i : UInt64) (hi : (8 * i).toNat < 64) :
      (balance >>> (8 * i)).toUInt8 = UInt8.ofNat (balance.toNat / 2 ^ (8 * i).toNat) := by
    rw [← UInt8.toNat_inj, toNat_ofNat_byte, UInt64.toNat_toUInt8, UInt64.toNat_shiftRight,
      Nat.mod_eq_of_lt hi, Nat.shiftRight_eq_div_pow]
  have hlast : balance.toNat / 2 ^ (8 * 0 : UInt64).toNat = balance.toNat := Nat.div_one _
  have hlist : (balance64Bytes balance).toList = List.replicate 24 0 ++
      [7, 6, 5, 4, 3, 2, 1, 0].map fun i : UInt64 => (balance >>> (8 * i)).toUInt8 := rfl
  rw [hlist]
  congr 1
  simp only [List.map_cons, List.map_nil]
  rw [hbyte 7 (by decide), hbyte 6 (by decide), hbyte 5 (by decide), hbyte 4 (by decide),
    hbyte 3 (by decide), hbyte 2 (by decide), hbyte 1 (by decide), hbyte 0 (by decide), hlast]
  simp only [writeBE, List.nil_append, List.cons_append, Nat.div_div_eq_div_mul]
  rfl

theorem readBalance64_balance64Bytes (balance : UInt64) :
    readBalance64 (.ok, balance64Bytes balance) = (.ok, balance) := by
  have hzeros : ¬ ((balance64Bytes balance).toList.take 24).any (· != 0) := by
    rw [toList_balance64Bytes, List.take_left' List.length_replicate]
    decide
  have hread : ((balance64Bytes balance).toList.drop 24).foldl shiftIn 0 = balance := by
    rw [toList_balance64Bytes, List.drop_left' List.length_replicate, ← UInt64.toNat_inj,
      toNat_foldl_shiftIn_zero (by rw [length_writeBE]), readBE_writeBE_of_lt balance.toNat_lt]
  rw [readBalance64, if_neg hzeros, hread]

theorem readBE_lt_of_zeros {l : List UInt8} (h : ∀ b ∈ l.take 24, b = 0) (hlength : l.length = 32) :
    readBE l < 2 ^ 64 := by
  have hfront : l.take 24 = List.replicate 24 0 :=
    List.eq_replicate_iff.2 ⟨by rw [List.length_take]; omega, h⟩
  have hzero : readBE (List.replicate 24 0) = 0 := by decide
  have hrest := readBE_lt (l.drop 24)
  rw [List.length_drop, hlength] at hrest
  rw [← List.take_append_drop 24 l, readBE_append, hfront, hzero, Nat.zero_mul, Nat.zero_add]
  exact hrest

theorem readBalance64_of_le {buf : Vector UInt8 32} (h : 2 ^ 64 ≤ readBE buf.toList) :
    readBalance64 (.ok, buf) = (.corrupt, 0) := by
  rw [readBalance64, if_pos]
  by_contra hany
  rw [List.any_eq_true] at hany
  push Not at hany
  have hlt := readBE_lt_of_zeros (fun b hb => by simpa using hany b hb) buf.length_toList
  omega

/-! ### The storage -/

variable {db : RocksDBWrapper} {addrHex : Str}

theorem codeKey_ne_nil (addr : Str) : codeKey addr ≠ [] :=
  List.append_ne_nil_of_left_ne_nil (by decide) _

theorem balanceKey_ne_nil (addr : Str) : balanceKey addr ≠ [] :=
  List.append_ne_nil_of_left_ne_nil (by decide) _

theorem get_fst_of_canRead {key raw : Str} (hkey : key ≠ []) (hread : db.canRead)
    (hraw : db.entries.get? key = some raw) : (db.get key).1 = some raw := by
  rw [RocksDBWrapper.get_fst hkey, if_pos hread, hraw]

theorem put_get? {key value : Str} (hkey : key ≠ []) (h : (db.put key value).1 = true) :
    (db.put key value).2.entries.get? key = some value := by
  rw [RocksDBWrapper.put_fst hkey] at h
  rw [RocksDBWrapper.put_entries hkey, if_pos h, Js.Map.get?_set_self]

theorem getContractCode_fst (haddr : isValidAddrHex addrHex) (hread : db.canRead) {raw : Str}
    (hraw : db.entries.get? (codeKey addrHex) = some raw) :
    (getContractCode db addrHex).1 = readCode (some raw) := by
  rw [getContractCode, if_pos haddr, ← get_fst_of_canRead (codeKey_ne_nil addrHex) hread hraw]

theorem getBalance64_fst (haddr : isValidAddrHex addrHex) (hread : db.canRead)
    {buf : Vector UInt8 32} (hraw : db.entries.get? (balanceKey addrHex) = some buf.toList) :
    (getBalance64 db addrHex).1 = readBalance64 (.ok, buf) := by
  have hrecord : readBalance (some buf.toList) = (.ok, buf) := by
    rw [readBalance, dif_pos (by simp)]
    exact congrArg (ReadStatus.ok, ·) (Vector.toArray_inj.1 Array.toArray_toList)
  rw [getBalance64, getBalance, if_pos haddr]
  simp only [get_fst_of_canRead (balanceKey_ne_nil addrHex) hread hraw, hrecord]

/-- **The records are faithful**: code that was put is got; a record of code that was damaged is
reported as corrupt; a balance of 64 bits that was put is got, and a greater one is reported as
corrupt. -/
theorem records_faithful :
    (∀ (db : RocksDBWrapper) (addrHex code : Str), code.length < 2 ^ 32 →
      (putContractCode db addrHex code).1 = true → (putContractCode db addrHex code).2.canRead →
      (getContractCode (putContractCode db addrHex code).2 addrHex).1 = (.ok, code)) ∧
    (∀ (db : RocksDBWrapper) (addrHex code raw : Str), isValidAddrHex addrHex →
      code.length < 2 ^ 32 → Damaged code raw → db.entries.get? (codeKey addrHex) = some raw →
      db.canRead → (getContractCode db addrHex).1 = (.corrupt, [])) ∧
    (∀ (db : RocksDBWrapper) (addrHex : Str) (balance : UInt64),
      (putBalance64 db addrHex balance).1 = true → (putBalance64 db addrHex balance).2.canRead →
      (getBalance64 (putBalance64 db addrHex balance).2 addrHex).1 = (.ok, balance)) ∧
    (∀ (db : RocksDBWrapper) (addrHex : Str) (buf : Vector UInt8 32), isValidAddrHex addrHex →
      2 ^ 64 ≤ readBE buf.toList → db.entries.get? (balanceKey addrHex) = some buf.toList →
      db.canRead → (getBalance64 db addrHex).1 = (.corrupt, 0)) := by
  refine ⟨?_, ?_, ?_, ?_⟩
  · intro db addrHex code hcode hput hread
    by_cases haddr : isValidAddrHex addrHex
    · rw [putContractCode, if_pos haddr] at hput hread ⊢
      rw [getContractCode_fst haddr hread (put_get? (codeKey_ne_nil addrHex) hput),
        readCode_codeRecord hcode]
    · rw [putContractCode, if_neg haddr] at hput
      cases hput
  · intro db addrHex code raw haddr hcode hdamaged hraw hread
    rw [getContractCode_fst haddr hread hraw, readCode_of_damaged hcode hdamaged]
  · intro db addrHex balance hput hread
    by_cases haddr : isValidAddrHex addrHex
    · rw [putBalance64, putBalance, if_pos haddr] at hput hread ⊢
      rw [getBalance64_fst haddr hread (put_get? (balanceKey_ne_nil addrHex) hput),
        readBalance64_balance64Bytes]
    · rw [putBalance64, putBalance, if_neg haddr] at hput
      cases hput
  · intro db addrHex buf haddr hgreat hraw hread
    rw [getBalance64_fst haddr hread hraw, readBalance64_of_le hgreat]

theorem records_faithful_two_bytes :
    (getContractCode (putContractCode {} (List.replicate 40 48) [0x60, 0x00]).2
      (List.replicate 40 48)).1 = (.ok, [0x60, 0x00]) :=
  records_faithful.1 {} (List.replicate 40 48) [0x60, 0x00] (by decide) (by decide +kernel)
    (by decide +kernel)

end Evm
