/-
**Numbers as bytes, the most significant first.**

Wire formats write a number in a fixed number of bytes, or in as few as it needs.  Both are read
back by one fold over the bytes.

Main definitions:

* `Cpp.readBE` — the number a list of bytes stands for;
* `Cpp.writeBE` — a number in so many bytes, of which it may need fewer;
* `Cpp.minimalBE` — a number in as few bytes as it needs, zero in none;
* `Cpp.shiftIn` — the fold of a reader in `uint64_t`.

Main results:

* `Cpp.readBE_writeBE`, `Cpp.writeBE_readBE` — **reading back a fixed width**, and the converse;
* `Cpp.readBE_minimalBE`, `Cpp.minimalBE_readBE` — the same of the shortest form: it is the only one
  that does not begin with a zero;
* `Cpp.toNat_shiftIn` — the fold reads the number modulo `2 ^ 64`.
-/

import MedorCoin.Cpp.Text
import Mathlib.Data.Nat.Digits.Lemmas

set_option autoImplicit false

namespace Cpp

/-! ### Reading -/

/-- The number that a list of bytes stands for. -/
def readBE (l : List UInt8) : ℕ := Nat.ofDigits 256 (l.reverse.map UInt8.toNat)

@[simp] theorem readBE_nil : readBE [] = 0 := rfl

theorem readBE_append (l l' : List UInt8) :
    readBE (l ++ l') = readBE l * 256 ^ l'.length + readBE l' := by
  rw [readBE, List.reverse_append, List.map_append, Nat.ofDigits_append, List.length_map,
    List.length_reverse, Nat.mul_comm, Nat.add_comm]
  rfl

@[simp] theorem readBE_singleton (b : UInt8) : readBE [b] = b.toNat := by
  rw [readBE, List.reverse_singleton, List.map_singleton, Nat.ofDigits_singleton]

theorem readBE_cons (b : UInt8) (l : List UInt8) :
    readBE (b :: l) = b.toNat * 256 ^ l.length + readBE l := by
  rw [← List.singleton_append, readBE_append, readBE_singleton]

theorem readBE_concat (l : List UInt8) (b : UInt8) :
    readBE (l ++ [b]) = readBE l * 256 + b.toNat := by
  rw [readBE_append, readBE_singleton, List.length_singleton, Nat.pow_one]

theorem readBE_lt (l : List UInt8) : readBE l < 256 ^ l.length := by
  have h := Nat.ofDigits_lt_base_pow_length (b := 256) (l := l.reverse.map UInt8.toNat) (by decide)
    fun n hn => by
      obtain ⟨b, -, rfl⟩ := List.mem_map.1 hn
      exact b.toNat_lt
  rwa [List.length_map, List.length_reverse] at h

/-! ### A fixed width -/

/-- A number in `width` bytes; what does not fit is lost. -/
def writeBE : ℕ → ℕ → List UInt8
  | 0, _ => []
  | width + 1, n => writeBE width (n / 256) ++ [UInt8.ofNat n]

@[simp] theorem length_writeBE (width n : ℕ) : (writeBE width n).length = width := by
  induction width generalizing n with
  | zero => rfl
  | succ width ih => rw [writeBE, List.length_append, ih, List.length_singleton]

theorem toNat_ofNat_byte (n : ℕ) : (UInt8.ofNat n).toNat = n % 256 := UInt8.toNat_ofNat'

/-- **Reading back a fixed width.** -/
theorem readBE_writeBE (width n : ℕ) : readBE (writeBE width n) = n % 256 ^ width := by
  induction width generalizing n with
  | zero => rw [Nat.pow_zero, Nat.mod_one, writeBE, readBE_nil]
  | succ width ih =>
      rw [writeBE, readBE_concat, ih, toNat_ofNat_byte, Nat.pow_succ, Nat.mul_comm (256 ^ width),
        Nat.mod_mul, Nat.mul_comm, Nat.add_comm]

theorem readBE_writeBE_of_lt {width n : ℕ} (h : n < 256 ^ width) :
    readBE (writeBE width n) = n := by
  rw [readBE_writeBE, Nat.mod_eq_of_lt h]

theorem writeBE_readBE (l : List UInt8) : writeBE l.length (readBE l) = l := by
  induction l using List.reverseRecOn with
  | nil => rfl
  | append_singleton l b ih =>
      have hb : b.toNat < 256 := b.toNat_lt
      have hdiv : (readBE l * 256 + b.toNat) / 256 = readBE l := by omega
      have hmod : UInt8.ofNat (readBE l * 256 + b.toNat) = b := by
        rw [← UInt8.toNat_inj, toNat_ofNat_byte]
        omega
      rw [List.length_append, List.length_singleton, writeBE, readBE_concat, hdiv, ih, hmod]

theorem writeBE_injective {width m n : ℕ} (hm : m < 256 ^ width) (hn : n < 256 ^ width)
    (h : writeBE width m = writeBE width n) : m = n := by
  rw [← readBE_writeBE_of_lt hm, h, readBE_writeBE_of_lt hn]

/-! ### The shortest form -/

/-- A number in as few bytes as it needs. -/
def minimalBE (n : ℕ) : List UInt8 := ((Nat.digits 256 n).map UInt8.ofNat).reverse

@[simp] theorem minimalBE_zero : minimalBE 0 = [] := by
  rw [minimalBE, Nat.digits_zero]
  rfl

theorem map_toNat_digits (n : ℕ) :
    ((Nat.digits 256 n).map UInt8.ofNat).map UInt8.toNat = Nat.digits 256 n := by
  rw [List.map_map]
  refine (List.map_congr_left fun d hd => ?_).trans (List.map_id _)
  have hlt : d < 256 := Nat.digits_lt_base (by decide) hd
  rw [Function.comp_apply, toNat_ofNat_byte, Nat.mod_eq_of_lt hlt, id]

/-- **Reading back the shortest form.** -/
theorem readBE_minimalBE (n : ℕ) : readBE (minimalBE n) = n := by
  rw [readBE, minimalBE, List.reverse_reverse, map_toNat_digits, Nat.ofDigits_digits]

theorem length_minimalBE (n : ℕ) : (minimalBE n).length = (Nat.digits 256 n).length := by
  rw [minimalBE, List.length_reverse, List.length_map]

theorem length_minimalBE_le {n k : ℕ} (h : n < 256 ^ k) : (minimalBE n).length ≤ k := by
  rw [length_minimalBE]
  exact (Nat.digits_length_le_iff (by decide) n).2 h

theorem minimalBE_ne_nil {n : ℕ} (h : n ≠ 0) : minimalBE n ≠ [] := by
  intro hnil
  have hread := readBE_minimalBE n
  rw [hnil, readBE_nil] at hread
  exact h hread.symm

theorem head?_minimalBE (n : ℕ) : (minimalBE n).head? ≠ some 0 := by
  by_cases hn : n = 0
  · rw [hn, minimalBE_zero]
    exact fun h => absurd h (by simp)
  have hne : Nat.digits 256 n ≠ [] := Nat.digits_ne_nil_iff_ne_zero.2 hn
  have hlast := Nat.getLast_digit_ne_zero 256 hn
  have hlt : (Nat.digits 256 n).getLast hne < 256 :=
    Nat.digits_lt_base (by decide) (List.getLast_mem hne)
  rw [minimalBE, List.head?_reverse, List.getLast?_map, List.getLast?_eq_getLast_of_ne_nil hne,
    Option.map_some]
  intro h
  have hzero := congrArg UInt8.toNat (Option.some.inj h)
  rw [toNat_ofNat_byte, Nat.mod_eq_of_lt hlt] at hzero
  exact hlast hzero

/-- **Bytes that do not begin with a zero are the shortest form** of the number they stand for. -/
theorem minimalBE_readBE {l : List UInt8} (h : l.head? ≠ some 0) : minimalBE (readBE l) = l := by
  have hdigits : Nat.digits 256 (readBE l) = l.reverse.map UInt8.toNat := by
    refine Nat.digits_ofDigits 256 (by decide) _ ?_ ?_
    · intro n hn
      obtain ⟨b, -, rfl⟩ := List.mem_map.1 hn
      exact b.toNat_lt
    · intro hne hlast
      have hlast' : (l.reverse.map UInt8.toNat).getLast? = some 0 := by
        rw [List.getLast?_eq_getLast_of_ne_nil hne, hlast]
      rw [List.getLast?_map, List.getLast?_reverse] at hlast'
      obtain ⟨b, hb, hzero⟩ := Option.map_eq_some_iff.1 hlast'
      rw [hb, UInt8.toNat_inj.1 (hzero.trans UInt8.toNat_zero.symm)] at h
      exact h rfl
  have hbytes : (l.reverse.map UInt8.toNat).map UInt8.ofNat = l.reverse := by
    rw [List.map_map]
    refine (List.map_congr_left fun b _ => ?_).trans (List.map_id _)
    exact UInt8.ofNat_toNat
  rw [minimalBE, hdigits, hbytes, List.reverse_reverse]

theorem readBE_dropWhile (l : List UInt8) : readBE (l.dropWhile (· == 0)) = readBE l := by
  induction l with
  | nil => rfl
  | cons b l ih =>
      rw [List.dropWhile_cons]
      split
      · next hb =>
          rw [ih, readBE_cons, eq_of_beq hb, UInt8.toNat_zero, Nat.zero_mul, Nat.zero_add]
      · rfl

theorem minimalBE_readBE_eq_dropWhile (l : List UInt8) :
    minimalBE (readBE l) = l.dropWhile (· == 0) := by
  rw [← readBE_dropWhile, minimalBE_readBE]
  intro hhead
  have hnot := List.head?_dropWhile_not (· == (0 : UInt8)) l
  rw [hhead] at hnot
  exact absurd hnot (by simp)

/-! ### The fold in `uint64_t` -/

/-- Shift a byte in at the right end. -/
def shiftIn (n : UInt64) (b : UInt8) : UInt64 := (n <<< 8) ||| b.toUInt64

theorem toNat_shiftIn (n : UInt64) (b : UInt8) :
    (shiftIn n b).toNat = (n.toNat * 256 + b.toNat) % 2 ^ 64 := by
  have hb : b.toNat < 2 ^ 8 := b.toNat_lt
  have hn : n.toNat < 2 ^ 64 := n.toNat_lt
  have hshift : (n <<< 8).toNat = 2 ^ 8 * (n.toNat % 2 ^ 56) := by
    rw [UInt64.toNat_shiftLeft, Nat.shiftLeft_eq]
    have h8 : (8 : UInt64).toNat % 64 = 8 := rfl
    rw [h8]
    omega
  rw [shiftIn, UInt64.toNat_or, hshift, UInt8.toNat_toUInt64, ← Nat.two_pow_add_eq_or_of_lt hb]
  omega

/-- **The fold reads the number** modulo `2 ^ 64`. -/
theorem toNat_foldl_shiftIn (l : List UInt8) (n : UInt64) :
    (l.foldl shiftIn n).toNat = (n.toNat * 256 ^ l.length + readBE l) % 2 ^ 64 := by
  induction l generalizing n with
  | nil => simp [Nat.mod_eq_of_lt n.toNat_lt]
  | cons b l ih =>
      have hmod : ((n.toNat * 256 + b.toNat) % 2 ^ 64 * 256 ^ l.length + readBE l) % 2 ^ 64 =
          ((n.toNat * 256 + b.toNat) * 256 ^ l.length + readBE l) % 2 ^ 64 :=
        Nat.ModEq.add_right _ (Nat.ModEq.mul_right _ (Nat.mod_modEq _ _))
      rw [List.foldl_cons, ih, toNat_shiftIn, hmod, readBE_cons, List.length_cons, Nat.pow_succ']
      ring_nf

theorem toNat_foldl_shiftIn_zero {l : List UInt8} (h : l.length ≤ 8) :
    (l.foldl shiftIn 0).toNat = readBE l := by
  have hlt : readBE l < 2 ^ 64 :=
    (readBE_lt l).trans_le (Nat.pow_le_pow_right (by decide) h)
  rw [toNat_foldl_shiftIn, UInt64.toNat_zero, Nat.zero_mul, Nat.zero_add, Nat.mod_eq_of_lt hlt]

end Cpp
