/-
**Amounts as words of a call.**

An amount comes as a text and goes into a call as 32 bytes, the highest first.  The encoder reads it
with `std::stoull` into 64 bits and takes whatever that throws for zero.  So the amounts that are
encoded as themselves are those below `2 ^ 64`, and no text is refused.

Main definitions:

* `ABIEncoder.encodeUint256` — the word of an amount;
* `ABIEncoder.Encodes` — **what is asked of the encoder**;
* `ABIEncoder.isAmount` — a text of digits whose number fits into 64 bits.

Main results:

* `ABIEncoder.encodeUint256_eq` — the word is that of a number of 64 bits;
* `ABIEncoder.encodes_iff` — **the texts for which the encoder does what is asked**.
-/

import MedorCoin.Cpp.BigEndian
import MedorCoin.Cpp.Text

set_option autoImplicit false

namespace ABIEncoder

open Cpp

/-! ### The encoder -/

/-- The loop from the last byte to the first, with the bytes before it still to be written. -/
def writeBytes : ℕ → UInt64 → List UInt8 → List UInt8
  | 0, _, result => result
  | i + 1, v, result => writeBytes i (v >>> 8) (result.set i (v &&& 0xFF).toUInt8)

/-- `ABIEncoder::encodeUint256(value)`; what `std::stoull` throws is caught. -/
def encodeUint256 (value : Str) : List UInt8 :=
  let v := (stoull value).getD 0
  writeBytes 32 v (List.replicate 32 0)

/-! ### What is asked -/

/-- The number of a text of digits. -/
def integer? (value : Str) : Option ℕ :=
  if value ≠ [] ∧ value.all isDigit then some (digitsValue value) else none

/-- **What is asked of an encoder**, which returns `none` where it fails: the word of every number
below `2 ^ 256`, and nothing for any other text. -/
def Encodes (encode : Str → Option (List UInt8)) (value : Str) : Prop :=
  encode value = (integer? value).bind fun n => if n < 2 ^ 256 then some (writeBE 32 n) else none

/-- A text of digits whose number fits into 64 bits. -/
def isAmount (value : Str) : Bool := (integer? value).any (· < 2 ^ 64)

/-! ### What the encoder does -/

theorem writeBytes_eq (i : ℕ) (v : UInt64) {result : List UInt8} (h : i ≤ result.length) :
    writeBytes i v result = writeBE i v.toNat ++ result.drop i := by
  induction i generalizing v result with
  | zero => rfl
  | succ i ih =>
      have hlow : (v &&& 0xFF).toUInt8 = UInt8.ofNat v.toNat := by
        have hand : v.toNat &&& 255 = v.toNat % 2 ^ 8 := Nat.and_two_pow_sub_one_eq_mod _ 8
        rw [← UInt8.toNat_inj, toNat_ofNat_byte, UInt64.toNat_toUInt8, UInt64.toNat_and]
        change (v.toNat &&& 255) % 2 ^ 8 = v.toNat % 2 ^ 8
        rw [hand, Nat.mod_mod]
      have hshift : (v >>> 8).toNat = v.toNat / 256 := by
        rw [UInt64.toNat_shiftRight, Nat.shiftRight_eq_div_pow]
        rfl
      have hdrop : (result.set i (UInt8.ofNat v.toNat)).drop i =
          UInt8.ofNat v.toNat :: result.drop (i + 1) := by
        rw [List.drop_set, if_neg (Nat.lt_irrefl i), Nat.sub_self, List.drop_eq_getElem_cons h,
          List.set_cons_zero]
      rw [writeBytes, ih _ (by rw [List.length_set]; omega), hshift, hlow, writeBE, hdrop,
        List.append_assoc, List.singleton_append]

theorem encodeUint256_eq (value : Str) :
    encodeUint256 value = writeBE 32 ((stoull value).getD 0).toNat := by
  rw [encodeUint256, writeBytes_eq 32 _ (Nat.le_of_eq List.length_replicate.symm),
    List.drop_of_length_le (Nat.le_of_eq List.length_replicate), List.append_nil]

theorem toNat_stoull_integer {value : Str} {n : ℕ} (h : integer? value = some n) :
    ((stoull value).getD 0).toNat = if n < 2 ^ 64 then n else 0 := by
  rw [integer?] at h
  split at h
  · next hdigits =>
      obtain rfl := Option.some.inj h
      rw [stoull_of_digits hdigits.1 (List.all_eq_true.1 hdigits.2)]
      split
      · next hlt => exact UInt64.toNat_ofNat_of_lt' hlt
      · rfl
  · cases h

/-- **The texts for which the encoder does what is asked**: those of the numbers below `2 ^ 64`. -/
theorem encodes_iff (value : Str) :
    Encodes (fun value => some (encodeUint256 value)) value ↔ isAmount value = true := by
  rw [Encodes, isAmount, encodeUint256_eq]
  cases hinteger : integer? value with
  | none => simp
  | some n =>
      rw [toNat_stoull_integer hinteger, Option.bind_some, Option.any_some, decide_eq_true_iff]
      constructor
      · intro h
        by_contra hlarge
        rw [if_neg hlarge] at h
        split at h
        · next hlt =>
            have hzero : 0 = n := writeBE_injective (by decide) hlt (Option.some.inj h)
            exact hlarge (hzero ▸ by decide)
        · cases h
      · intro hlt
        rw [if_pos hlt, if_pos (hlt.trans (by decide))]

/-- **Ten tokens of eighteen decimals** are encoded as nothing. -/
theorem not_encodes_tokens :
    ¬ ∀ value, Encodes (fun value => some (encodeUint256 value)) value := by
  intro h
  have hfails := h (str "100000000000000000000")
  revert hfails
  unfold Encodes
  decide +kernel

end ABIEncoder
