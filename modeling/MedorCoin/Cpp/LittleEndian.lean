/-
**Numbers as bytes, the least significant first.**

This is how a number lies in memory, and so how it gets into a file or a digest that is fed with the
memory of a variable.

Main definitions:

* `Cpp.leWrite` — a number in so many bytes;
* `Cpp.leRead` — the number that a list of bytes stands for.

Main results:

* `Cpp.leRead_leWrite` — **reading back**;
* `Cpp.leWrite_injective` — a number that fits is determined by its bytes;
* `Cpp.Keccak.leWrite64_eq` — the bytes of a word, shifted out one by one.
-/

import MedorCoin.Cpp.BigEndian
import MedorCoin.Cpp.Keccak

set_option autoImplicit false

namespace Cpp

/-- A number in so many bytes, the lowest first; what does not fit is lost. -/
def leWrite (width n : ℕ) : Str := (writeBE width n).reverse

/-- The number that bytes stand for, the lowest first. -/
def leRead (p : Str) : ℕ := readBE p.reverse

@[simp] theorem length_leWrite (width n : ℕ) : (leWrite width n).length = width := by
  rw [leWrite, List.length_reverse, length_writeBE]

@[simp] theorem drop_leWrite {width k : ℕ} (h : width ≤ k) (n : ℕ) :
    (leWrite width n).drop k = [] := List.drop_of_length_le (by rwa [length_leWrite])

/-- **Reading back.** -/
theorem leRead_leWrite (width n : ℕ) : leRead (leWrite width n) = n % 256 ^ width := by
  rw [leRead, leWrite, List.reverse_reverse, readBE_writeBE]

theorem leWrite_injective {width m n : ℕ} (hm : m < 256 ^ width) (hn : n < 256 ^ width)
    (h : leWrite width m = leWrite width n) : m = n := by
  have hread := congrArg leRead h
  rwa [leRead_leWrite, leRead_leWrite, Nat.mod_eq_of_lt hm, Nat.mod_eq_of_lt hn] at hread

@[simp] theorem ofNat_leRead_16 (v : UInt16) : UInt16.ofNat (leRead (leWrite 2 v.toNat)) = v := by
  rw [leRead_leWrite, Nat.mod_eq_of_lt (v.toNat_lt.trans_eq (by decide)), UInt16.ofNat_toNat]

@[simp] theorem ofNat_leRead_32 (v : UInt32) : UInt32.ofNat (leRead (leWrite 4 v.toNat)) = v := by
  rw [leRead_leWrite, Nat.mod_eq_of_lt (v.toNat_lt.trans_eq (by decide)), UInt32.ofNat_toNat]

@[simp] theorem ofNat_leRead_64 (v : UInt64) : UInt64.ofNat (leRead (leWrite 8 v.toNat)) = v := by
  rw [leRead_leWrite, Nat.mod_eq_of_lt (v.toNat_lt.trans_eq (by decide)), UInt64.ofNat_toNat]

theorem leWrite_eq_map (width n : ℕ) :
    leWrite width n = (List.range width).map fun i => UInt8.ofNat (n / 256 ^ i) := by
  induction width generalizing n with
  | zero => rfl
  | succ width ih =>
      have hrest : leWrite (width + 1) n = UInt8.ofNat n :: leWrite width (n / 256) := by
        rw [leWrite, writeBE, List.reverse_append, List.reverse_singleton]
        rfl
      rw [hrest, ih, List.range_succ_eq_map, List.map_cons, List.map_map, Nat.pow_zero,
        Nat.div_one]
      congr 1
      refine List.map_congr_left fun i _ => ?_
      rw [Function.comp_apply, Nat.div_div_eq_div_mul, Nat.pow_succ']

/-- **The bytes of a word, shifted out one by one.** -/
theorem Keccak.leWrite64_eq (v : UInt64) : Keccak.leWrite64 v = leWrite 8 v.toNat := by
  rw [Keccak.leWrite64, leWrite_eq_map]
  refine List.map_congr_left fun i hi => ?_
  have hi' := List.mem_range.1 hi
  have hshift : (8 * i).toUInt64.toNat % 64 = 8 * i := by
    rw [Nat.toUInt64_eq, UInt64.toNat_ofNat']
    omega
  rw [← UInt8.toNat_inj, UInt64.toNat_toUInt8, UInt64.toNat_shiftRight, hshift,
    Nat.shiftRight_eq_div_pow, toNat_ofNat_byte, Nat.pow_mul]

end Cpp
