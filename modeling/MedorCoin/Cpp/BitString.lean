/-
**The bits of a byte string, most significant first.**

A format that packs items of some width into bytes addresses single bits: bit `p` of a byte string
is bit `7 - p % 8` of its byte `p / 8`.  The bits of all items in a row are those of one number,
that of the items as digits.  So what is packed and unpacked is compared through that number.

Main definitions:

* `Cpp.bitAt`, `Cpp.orBit` — reading and setting a bit;
* `Cpp.packBE` — the number whose digits of a given width are the items;
* `Cpp.groupBE` — the digits of a number.

Main results:

* `Cpp.testBit_packBE` — **bit `p` of the number is bit `p % w` of item `p / w`**;
* `Cpp.bitAt_eq_testBit` — the bits of a byte string are those of the number it stands for;
* `Cpp.packBE_map_groupBE` — a number is put together from its digits.
-/

import MedorCoin.Cpp.BigEndian
import Mathlib.Data.Nat.Bitwise

set_option autoImplicit false

namespace Cpp

/-! ### Items as digits -/

/-- The number whose digits of `w` bits are the items, the most significant first. -/
def packBE (w : ℕ) (l : List ℕ) : ℕ := l.foldl (fun n x => n * 2 ^ w + x) 0

variable {w p n : ℕ} {l : List ℕ} {bytes : List UInt8}

@[simp] theorem packBE_nil (w : ℕ) : packBE w [] = 0 := rfl

@[simp] theorem packBE_concat (w : ℕ) (l : List ℕ) (x : ℕ) :
    packBE w (l ++ [x]) = packBE w l * 2 ^ w + x := by
  rw [packBE, List.foldl_append]
  rfl

theorem packBE_lt (h : ∀ x ∈ l, x < 2 ^ w) : packBE w l < 2 ^ (w * l.length) := by
  induction l using List.reverseRecOn with
  | nil => exact Nat.one_pos
  | append_singleton l x ih =>
      have hx := h x (List.mem_append_right _ List.mem_cons_self)
      have hl := ih fun y hy => h y (List.mem_append_left _ hy)
      rw [packBE_concat, List.length_append, List.length_singleton, Nat.mul_succ, Nat.pow_add]
      calc packBE w l * 2 ^ w + x < packBE w l * 2 ^ w + 2 ^ w := Nat.add_lt_add_left hx _
        _ = (packBE w l + 1) * 2 ^ w := (Nat.succ_mul _ _).symm
        _ ≤ 2 ^ (w * l.length) * 2 ^ w := Nat.mul_le_mul_right _ hl

/-- **Bit `p` of the number is bit `p % w` of item `p / w`.** -/
theorem testBit_packBE (hw : 0 < w) (h : ∀ x ∈ l, x < 2 ^ w) (hp : p < w * l.length) :
    (packBE w l).testBit (w * l.length - 1 - p) = (l.getD (p / w) 0).testBit (w - 1 - p % w) := by
  induction l using List.reverseRecOn with
  | nil => exact absurd hp (Nat.not_lt_zero p)
  | append_singleton l x ih =>
      have hx := h x (List.mem_append_right _ List.mem_cons_self)
      have hdecomp := Nat.div_add_mod p w
      have hmod := Nat.mod_lt p hw
      rw [List.length_append, List.length_singleton, Nat.mul_succ] at hp ⊢
      rw [packBE_concat, Nat.mul_comm, Nat.testBit_two_pow_mul_add _ hx]
      by_cases hlast : p < w * l.length
      · -- the bit is in one of the items before
        have hdiv : p / w < l.length := (Nat.div_lt_iff_lt_mul hw).2 (by rwa [Nat.mul_comm])
        rw [if_neg (by omega), List.getD_append _ _ _ _ hdiv,
          ← ih (fun y hy => h y (List.mem_append_left _ hy)) hlast]
        congr 1
        omega
      · -- the bit is in the last item
        have hdiv : p / w = l.length := by
          refine Nat.div_eq_of_lt_le ?_ ?_
          · rw [Nat.mul_comm]
            exact not_lt.1 hlast
          · rw [Nat.mul_comm]
            exact hp
        rw [hdiv] at hdecomp
        rw [if_pos (by omega), hdiv, List.getD_append_right _ _ _ _ le_rfl, Nat.sub_self]
        change x.testBit _ = x.testBit _
        congr 1
        omega

/-! ### Digits of a number -/

/-- Digit `i` of a number with `n` digits of `w` bits. -/
def groupBE (w n N i : ℕ) : ℕ := N / 2 ^ (w * (n - 1 - i)) % 2 ^ w

theorem groupBE_lt (w n N i : ℕ) : groupBE w n N i < 2 ^ w := Nat.mod_lt _ (Nat.two_pow_pos w)

/-- **A number is put together from its digits.** -/
theorem packBE_map_groupBE (w n N : ℕ) :
    packBE w ((List.range n).map (groupBE w n N)) = N % 2 ^ (w * n) := by
  induction n generalizing N with
  | zero => rw [Nat.mul_zero, Nat.pow_zero, Nat.mod_one]; rfl
  | succ n ih =>
      have hshift : (List.range n).map (groupBE w (n + 1) N) =
          (List.range n).map (groupBE w n (N / 2 ^ w)) := by
        refine List.map_congr_left fun i hi => ?_
        have hlt := List.mem_range.1 hi
        rw [groupBE, groupBE, Nat.div_div_eq_div_mul, ← Nat.pow_add]
        congr 3
        rw [show n + 1 - 1 - i = n - 1 - i + 1 by omega, Nat.mul_succ, Nat.add_comm]
      have hlast : groupBE w (n + 1) N n = N % 2 ^ w := by
        rw [groupBE, Nat.add_sub_cancel, Nat.sub_self, Nat.mul_zero, Nat.pow_zero, Nat.div_one]
      rw [List.range_succ, List.map_append, List.map_singleton, packBE_concat, hshift, ih, hlast,
        Nat.mul_succ, Nat.add_comm (w * n) w, Nat.pow_add, Nat.mod_mul, Nat.add_comm, Nat.mul_comm]

/-! ### Bits of a byte string -/

/-- Bit `p` of a byte string. -/
def bitAt (bytes : List UInt8) (p : ℕ) : Bool := (bytes.getD (p / 8) 0).toNat.testBit (7 - p % 8)

/-- `bytes[p / 8] |= 1 << (7 - p % 8)`. -/
def orBit (bytes : List UInt8) (p : ℕ) : List UInt8 :=
  bytes.modify (p / 8) fun b => b ||| UInt8.ofNat (1 <<< (7 - p % 8))

theorem readBE_eq_packBE (bytes : List UInt8) :
    readBE bytes = packBE 8 (bytes.map UInt8.toNat) := by
  induction bytes using List.reverseRecOn with
  | nil => rfl
  | append_singleton l b ih =>
      rw [readBE_concat, List.map_append, List.map_singleton, packBE_concat, ih]
      rfl

/-- **The bits of a byte string** are those of the number it stands for. -/
theorem bitAt_eq_testBit (hp : p < 8 * bytes.length) :
    bitAt bytes p = (readBE bytes).testBit (8 * bytes.length - 1 - p) := by
  have hlt : ∀ x ∈ bytes.map UInt8.toNat, x < 2 ^ 8 := by
    intro x hx
    obtain ⟨b, -, rfl⟩ := List.mem_map.1 hx
    exact b.toNat_lt
  have hpack := testBit_packBE (p := p) (by decide) hlt (by rwa [List.length_map])
  rw [List.length_map] at hpack
  rw [readBE_eq_packBE, hpack, bitAt]
  congr 1
  exact (List.getD_map bytes 0 UInt8.toNat).symm

@[simp] theorem length_orBit (bytes : List UInt8) (p : ℕ) :
    (orBit bytes p).length = bytes.length := List.length_modify _ _ _

/-- **Reading a bit after setting one.** -/
theorem bitAt_orBit (hp : p < 8 * bytes.length) (q : ℕ) :
    bitAt (orBit bytes p) q = (decide (q = p) || bitAt bytes q) := by
  have hbyte : p / 8 < bytes.length := Nat.div_lt_of_lt_mul hp
  rw [bitAt, bitAt, orBit, List.getD_eq_getElem?_getD, List.getD_eq_getElem?_getD,
    List.getElem?_modify]
  by_cases hdiv : p / 8 = q / 8
  · simp only [if_pos hdiv]
    rw [← hdiv, List.getElem?_eq_getElem hbyte, Option.map_eq_map, Option.map_some,
      Option.getD_some, Option.getD_some, UInt8.toNat_or, Nat.testBit_or, Bool.or_comm]
    congr 1
    have hlt : 1 <<< (7 - p % 8) < 2 ^ 8 := by
      rw [Nat.one_shiftLeft]
      exact Nat.pow_lt_pow_right (by decide) (by omega)
    rw [UInt8.toNat_ofNat', Nat.mod_eq_of_lt hlt, Nat.one_shiftLeft, Nat.testBit_two_pow]
    exact decide_eq_decide.2 ⟨fun h => by omega, fun h => by omega⟩
  · have hne : q ≠ p := fun heq => hdiv (by rw [heq])
    simp only [if_neg hdiv, decide_eq_false hne, Bool.false_or, Option.map_eq_map, Option.map_id']

end Cpp
