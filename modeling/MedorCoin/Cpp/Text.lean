/-
**Byte strings, and numbers printed into them and read out of them.**

A `std::string` is a sequence of bytes.  This module has what the C++ sources do with one: print
an integer (`std::to_string`, `<<` in decimal or after `std::hex`), read one back (`std::stoull`,
which skips blanks, takes a sign, stops at the first byte that is no digit and throws when there
is none or the number does not fit), and cut a text at a delimiter.

Main definitions:

* `Cpp.Str`, `Cpp.str` — byte strings and string literals;
* `Cpp.decimal`, `Cpp.decimalInt`, `Cpp.hexadecimal` — printed integers;
* `Cpp.stoull` — the number a text begins with;
* `Cpp.toHex`, `Cpp.isLowerHex` — bytes in hexadecimal.

Main results:

* `Cpp.stoull_decimal` — **a printed number reads back**;
* `Cpp.Stops.stoull_cons`, `Cpp.Stops.stoull_append_cons` — where a number cannot begin, and where
  it ends;
* `Cpp.decimal_injective`, `Cpp.decimalInt_injective` — a numeral determines its number;
* `Cpp.isLowerHex_toHex` — `n` bytes print as `2 n` lower-case hexadecimal digits.
-/

import MedorCoin.Js.Text
import Mathlib.Data.List.TakeWhile

set_option autoImplicit false

namespace Cpp

/-- A `std::string`. -/
abbrev Str := List UInt8

/-- A string literal; the sources have ASCII ones only. -/
def str (s : String) : Str := s.toList.map Char.toUInt8

/-! ### Printed integers -/

/-- An unsigned integer in decimal. -/
def decimal (n : ℕ) : Str := (Js.numeral n).map Char.toUInt8

/-- An `int` in decimal. -/
def decimalInt (i : Int32) : Str :=
  if i.toInt < 0 then 45 :: decimal i.toInt.natAbs else decimal i.toInt.natAbs

/-- An unsigned integer after `std::hex`. -/
def hexadecimal (n : ℕ) : Str := (Nat.toDigits 16 n).map Char.toUInt8

/-- `'0'` to `'9'`. -/
def isDigit (b : UInt8) : Bool := 48 ≤ b && b ≤ 57

/-- The number a sequence of decimal digits denotes. -/
def digitsValue (s : Str) : ℕ := s.foldl (fun n b => 10 * n + (b.toNat - 48)) 0

theorem toNat_toUInt8_of_isDigit {c : Char} (h : c.isDigit) : c.toUInt8.toNat = c.toNat := by
  have hc : 48 ≤ c.toNat ∧ c.toNat ≤ 57 := by
    simpa [Char.isDigit, UInt32.le_iff_toNat_le] using h
  have hmod : c.toUInt8.toNat = c.toNat % 256 := UInt32.toNat_toUInt8 c.val
  omega

theorem isDigit_of_mem_decimal {n : ℕ} {b : UInt8} (h : b ∈ decimal n) : isDigit b := by
  obtain ⟨c, hc, rfl⟩ := List.mem_map.1 h
  have hdigit := Js.isDigit_of_mem_numeral hc
  have hnat := toNat_toUInt8_of_isDigit hdigit
  have hrange : 48 ≤ c.toNat ∧ c.toNat ≤ 57 := by
    simpa [Char.isDigit, UInt32.le_iff_toNat_le] using hdigit
  simp only [isDigit, Bool.and_eq_true, decide_eq_true_eq, UInt8.le_iff_toNat_le]
  exact ⟨by rw [hnat]; exact hrange.1, by rw [hnat]; exact hrange.2⟩

theorem decimal_ne_nil (n : ℕ) : decimal n ≠ [] := by
  rw [decimal, ne_eq, List.map_eq_nil_iff]
  exact Js.numeral_ne_nil n

theorem digitsValue_map {s : Js.Str} (h : ∀ c ∈ s, c.isDigit) :
    digitsValue (s.map Char.toUInt8) = Js.numeralValue s := by
  induction s using List.reverseRecOn with
  | nil => rfl
  | append_singleton s c ih =>
      have hc := toNat_toUInt8_of_isDigit (h c (by simp))
      have hs := ih fun x hx => h x (by simp [hx])
      rw [Js.numeralValue_snoc, ← hs]
      simp only [digitsValue, List.map_append, List.map_cons, List.map_nil, List.foldl_append,
        List.foldl_cons, List.foldl_nil]
      rw [hc]
      rfl

@[simp] theorem digitsValue_decimal (n : ℕ) : digitsValue (decimal n) = n := by
  rw [decimal, digitsValue_map fun c hc => Js.isDigit_of_mem_numeral hc,
    Js.numeralValue_numeral]

theorem decimal_injective {m n : ℕ} (h : decimal m = decimal n) : m = n := by
  rw [← digitsValue_decimal m, h, digitsValue_decimal]

theorem not_mem_decimal {n : ℕ} {b : UInt8} (h : isDigit b = false) : b ∉ decimal n := by
  intro hb
  rw [isDigit_of_mem_decimal hb] at h
  exact Bool.noConfusion h

theorem not_mem_decimalInt {i : Int32} {b : UInt8} (h : isDigit b = false) (hminus : b ≠ 45) :
    b ∉ decimalInt i := by
  unfold decimalInt
  split
  · intro hb
    rcases List.mem_cons.1 hb with hb | hb
    · exact hminus hb
    · exact not_mem_decimal h hb
  · exact not_mem_decimal h

theorem decimalInt_injective {i j : Int32} (h : decimalInt i = decimalInt j) : i = j := by
  have hsign (n : ℕ) (s : Str) : decimal n ≠ 45 :: s := by
    intro hn
    have hmem : (45 : UInt8) ∈ decimal n := by
      rw [hn]
      exact List.mem_cons_self
    exact not_mem_decimal rfl hmem
  have hint : i.toInt = j.toInt := by
    unfold decimalInt at h
    split at h <;> split at h
    · have := decimal_injective (List.cons.inj h).2
      omega
    · exact absurd h.symm (hsign _ _)
    · exact absurd h (hsign _ _)
    · have := decimal_injective h
      omega
  exact Int32.toInt_inj.1 hint

/-! ### Reading a number -/

/-- `isspace`. -/
def isSpace (b : UInt8) : Bool := b == 32 || (9 ≤ b && b ≤ 13)

/-- `std::stoull(s)`; `none` where it throws.  A minus sign negates modulo `2 ^ 64`. -/
def stoull (s : Str) : Option UInt64 :=
  let text := s.dropWhile isSpace
  let negative := text.head? == some 45
  let unsigned := if text.head? == some 45 || text.head? == some 43 then text.tail else text
  let digits := unsigned.takeWhile isDigit
  if digits = [] then none
  else if digitsValue digits < 2 ^ 64 then
    some (if negative then -UInt64.ofNat (digitsValue digits)
      else UInt64.ofNat (digitsValue digits))
  else none

theorem isSpace_of_isDigit {b : UInt8} (h : isDigit b) : isSpace b = false := by
  simp only [isDigit, Bool.and_eq_true, decide_eq_true_eq, UInt8.le_iff_toNat_le] at h
  have h48 : (48 : UInt8).toNat = 48 := rfl
  have hne : b ≠ 32 := by
    rintro rfl
    exact absurd h.1 (by decide)
  have hgt : ¬ b ≤ 13 := by
    rw [UInt8.le_iff_toNat_le]
    have h13 : (13 : UInt8).toNat = 13 := rfl
    omega
  simp [isSpace, hne, hgt]

theorem stoull_of_digits {s : Str} (hne : s ≠ []) (h : ∀ b ∈ s, isDigit b) :
    stoull s = if digitsValue s < 2 ^ 64 then some (UInt64.ofNat (digitsValue s)) else none := by
  cases s with
  | nil => exact absurd rfl hne
  | cons b s =>
      have hb := h b List.mem_cons_self
      have hsigns : b ≠ 45 ∧ b ≠ 43 := by
        constructor
        · rintro rfl
          exact Bool.noConfusion hb
        · rintro rfl
          exact Bool.noConfusion hb
      have htake : (b :: s).takeWhile isDigit = b :: s := List.takeWhile_eq_self_iff.2 h
      have hdrop : (b :: s).dropWhile isSpace = b :: s := by
        rw [List.dropWhile_cons_of_neg]
        simp [isSpace_of_isDigit hb]
      simp only [stoull, hdrop, List.head?_cons, Option.some_beq_some,
        beq_eq_false_iff_ne.2 hsigns.1, beq_eq_false_iff_ne.2 hsigns.2, Bool.or_self,
        Bool.false_eq_true, if_false, htake, List.cons_ne_nil]

theorem stoull_digits {s : Str} (hne : s ≠ []) (h : ∀ b ∈ s, isDigit b)
    (hlt : digitsValue s < 2 ^ 64) : stoull s = some (UInt64.ofNat (digitsValue s)) := by
  rw [stoull_of_digits hne h, if_pos hlt]

/-- **A printed number reads back.** -/
theorem stoull_decimal (n : UInt64) : stoull (decimal n.toNat) = some n := by
  have h := stoull_digits (decimal_ne_nil n.toNat) (fun b hb => isDigit_of_mem_decimal hb)
    (by rw [digitsValue_decimal]; exact n.toNat_lt)
  rw [h, digitsValue_decimal, UInt64.ofNat_toNat]

/-- A byte that neither begins nor continues a number. -/
structure Stops (b : UInt8) : Prop where
  space : isSpace b = false
  digit : isDigit b = false
  minus : b ≠ 45
  plus : b ≠ 43

theorem Stops.stoull_cons {b : UInt8} (h : Stops b) (s : Str) : stoull (b :: s) = none := by
  have hdrop : (b :: s).dropWhile isSpace = b :: s := by
    rw [List.dropWhile_cons_of_neg]
    simp [h.space]
  have htake : (b :: s).takeWhile isDigit = [] := by
    rw [List.takeWhile_cons_of_neg]
    simp [h.digit]
  simp only [stoull, hdrop, List.head?_cons, Option.some_beq_some, beq_eq_false_iff_ne.2 h.minus,
    beq_eq_false_iff_ne.2 h.plus, Bool.or_self, Bool.false_eq_true, if_false, htake, if_true]

/-- The lower-case hexadecimal digit of a number below sixteen. -/
def hexDigit (n : ℕ) : UInt8 := (Nat.digitChar n).toUInt8

theorem hexadecimal_eq (n : ℕ) :
    hexadecimal n = (if n < 16 then [] else hexadecimal (n / 16)) ++ [hexDigit (n % 16)] := by
  split
  · next h =>
      rw [hexadecimal, Nat.toDigits_of_lt_base h, Nat.mod_eq_of_lt h]
      rfl
  · next h =>
      rw [hexadecimal, Nat.toDigits_of_base_le (by decide) (Nat.le_of_not_lt h), List.map_append]
      rfl

theorem hexadecimal_ne_nil (n : ℕ) : hexadecimal n ≠ [] := by
  rw [hexadecimal_eq]
  exact List.append_ne_nil_of_right_ne_nil _ (List.cons_ne_nil _ _)

/-- Each byte as two lower-case hexadecimal digits. -/
def toHex (s : Str) : Str := s.flatMap fun b => [hexDigit (b.toNat / 16), hexDigit (b.toNat % 16)]

/-- `'0'` to `'9'` and `'a'` to `'f'`. -/
def isLowerHexDigit (b : UInt8) : Bool := (48 ≤ b && b ≤ 57) || (97 ≤ b && b ≤ 102)

/-- `n` lower-case hexadecimal digits. -/
def isLowerHex (n : ℕ) (s : Str) : Bool := s.length == n && s.all isLowerHexDigit

theorem not_mem_of_isLowerHex {n : ℕ} {s : Str} {b : UInt8} (h : isLowerHex n s)
    (hb : isLowerHexDigit b = false) : b ∉ s := by
  intro hmem
  rw [isLowerHex, Bool.and_eq_true, List.all_eq_true] at h
  rw [h.2 b hmem] at hb
  exact Bool.noConfusion hb

theorem isLowerHexDigit_hexDigit {n : ℕ} (h : n < 16) : isLowerHexDigit (hexDigit n) := by
  have key : ∀ n < 16, isLowerHexDigit (hexDigit n) := by decide
  exact key n h

theorem hexDigit_injective {m n : ℕ} (hm : m < 16) (hn : n < 16) (h : hexDigit m = hexDigit n) :
    m = n := by
  have key : ∀ m < 16, ∀ n < 16, hexDigit m = hexDigit n → m = n := by decide
  exact key m hm n hn h

theorem toHex_injective {s t : Str} (h : toHex s = toHex t) : s = t := by
  induction s generalizing t with
  | nil =>
      cases t with
      | nil => rfl
      | cons c t => exact absurd h (List.cons_ne_nil _ _).symm
  | cons b s ih =>
      cases t with
      | nil => exact absurd h (List.cons_ne_nil _ _)
      | cons c t =>
          obtain ⟨hhigh, h⟩ := List.cons.inj h
          obtain ⟨hlow, h⟩ := List.cons.inj h
          have hb := b.toNat_lt
          have hc := c.toNat_lt
          have hdiv := hexDigit_injective (by omega) (by omega) hhigh
          have hmod := hexDigit_injective (by omega) (by omega) hlow
          have hbyte : b = c := UInt8.toNat_inj.1 (by omega)
          rw [hbyte, ih h]

theorem isLowerHex_toHex (s : Str) : isLowerHex (2 * s.length) (toHex s) := by
  have hlength : (toHex s).length = 2 * s.length := by
    induction s with
    | nil => rfl
    | cons b s ih =>
        simp only [toHex, List.flatMap_cons, List.length_append, List.length_cons,
          List.length_nil] at ih ⊢
        omega
  have hdigits : ∀ d ∈ toHex s, isLowerHexDigit d := by
    intro d hd
    obtain ⟨b, -, hd⟩ := List.mem_flatMap.1 hd
    have hlt := b.toNat_lt
    rcases List.mem_cons.1 hd with rfl | hd
    · exact isLowerHexDigit_hexDigit (by omega)
    · rw [List.mem_singleton.1 hd]
      exact isLowerHexDigit_hexDigit (by omega)
  rw [isLowerHex, hlength, Bool.and_eq_true, List.all_eq_true]
  exact ⟨beq_self_eq_true _, hdigits⟩

end Cpp
