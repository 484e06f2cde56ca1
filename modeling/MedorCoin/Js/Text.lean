/-
**Text: decimal numerals and hexadecimal strings.**

The JavaScript sources move numbers and hashes around as text: a `bigint` is printed with
`toString()` and read back with `BigInt(..)`, an address or a digest is a string of hexadecimal
digits checked by a regular expression.  This module fixes text as lists of characters and
proves the facts about numerals and hexadecimal strings on which the rest relies.

Main definitions:

* `Js.Str` — text;
* `Js.numeral`, `Js.numeralValue` — the canonical decimal numeral of a number, and the number a
  string of digits denotes;
* `Js.isNumeral`, `Js.isPositiveNumeral` — the regular expressions `^(0|[1-9][0-9]*)$` and
  `^[1-9][0-9]*$`;
* `Js.isHex`, `Js.isLowerHex`, `Js.lower`, `Js.hexValue` — hexadecimal strings.

Main results:

* `Js.numeralValue_numeral`, `Js.numeral_numeralValue` — **numerals and numbers determine each
  other**: a string accepted by the regular expression is the numeral of its value;
* `Js.lower_isLowerHex`, `Js.lower_of_isLowerHex` — lower-casing a hexadecimal string normalises
  it, and does nothing the second time.
-/

import Mathlib.Data.List.Induction
import Mathlib.Tactic.Linarith

set_option autoImplicit false

namespace Js

/-- Text, as the list of its characters. -/
abbrev Str := List Char

/-! ### Decimal numerals -/

/-- The decimal numeral of a number, as `toString()` prints it. -/
def numeral (n : ℕ) : Str := Nat.toDigits 10 n

/-- The number a string of decimal digits denotes, as `BigInt(..)` reads it. -/
def numeralValue (s : Str) : ℕ := Nat.ofDigitChars 10 s 0

/-- The regular expression `^[1-9][0-9]*$`. -/
def isPositiveNumeral : Str → Bool
  | [] => false
  | c :: s => c.isDigit && c != '0' && s.all Char.isDigit

/-- The regular expression `^(0|[1-9][0-9]*)$`. -/
def isNumeral (s : Str) : Bool := s == ['0'] || isPositiveNumeral s

theorem numeralValue_numeral (n : ℕ) : numeralValue (numeral n) = n :=
  Nat.ofDigitChars_ten_toDigits

theorem numeral_injective {m n : ℕ} (h : numeral m = numeral n) : m = n := by
  rw [← numeralValue_numeral m, h, numeralValue_numeral]

theorem numeral_ne_nil (n : ℕ) : numeral n ≠ [] := Nat.toDigits_ne_nil

theorem isDigit_of_mem_numeral {n : ℕ} {c : Char} (h : c ∈ numeral n) : c.isDigit :=
  Nat.isDigit_of_mem_toDigits (by decide) (by decide) h

theorem numeral_snoc {n d : ℕ} (hn : 0 < n) (hd : d < 10) :
    numeral (10 * n + d) = numeral n ++ [d.digitChar] := by
  rw [numeral, ← Nat.toDigits_append_toDigits (by decide) hn hd, Nat.toDigits_of_lt_base hd]
  rfl

theorem numeral_of_lt {d : ℕ} (hd : d < 10) : numeral d = [d.digitChar] :=
  Nat.toDigits_of_lt_base hd

theorem numeralValue_snoc (s : Str) (c : Char) :
    numeralValue (s ++ [c]) = 10 * numeralValue s + (c.toNat - '0'.toNat) := by
  simp [numeralValue, Nat.ofDigitChars_append, Nat.ofDigitChars_cons]

theorem digitChar_of_isDigit {c : Char} (h : c.isDigit) :
    ∃ d < 10, c = Nat.digitChar d ∧ c.toNat - '0'.toNat = d := by
  have hc : 48 ≤ c.toNat ∧ c.toNat ≤ 57 := by
    simpa [Char.isDigit, UInt32.le_iff_toNat_le] using h
  refine ⟨c.toNat - 48, by omega, ?_, rfl⟩
  have key : ∀ d < 10, Char.ofNat (48 + d) = Nat.digitChar d := by decide
  rw [← key _ (by omega), Nat.add_sub_cancel' hc.1, Char.ofNat_toNat]

theorem digitChar_ne_zero_iff {d : ℕ} (hd : d < 10) : Nat.digitChar d ≠ '0' ↔ 0 < d := by
  have key : ∀ d < 10, (Nat.digitChar d ≠ '0' ↔ 0 < d) := by decide
  exact key d hd

theorem isPositiveNumeral_cons {c : Char} {s : Str} :
    isPositiveNumeral (c :: s) ↔ c.isDigit ∧ c ≠ '0' ∧ ∀ x ∈ s, x.isDigit := by
  simp [isPositiveNumeral, and_assoc]

/-- A numeral without leading zero denotes a positive number, and is that number's numeral.
The induction adds digits at the end, where the value is multiplied by ten. -/
theorem numeral_numeralValue_of_positive {s : Str} (h : isPositiveNumeral s) :
    0 < numeralValue s ∧ numeral (numeralValue s) = s := by
  induction s using List.reverseRecOn with
  | nil => simp [isPositiveNumeral] at h
  | append_singleton s c ih =>
      cases s with
      | nil =>
          obtain ⟨hc, hc0, -⟩ := isPositiveNumeral_cons.1 h
          obtain ⟨d, hd, rfl, hval⟩ := digitChar_of_isDigit hc
          have hv : numeralValue ([] ++ [Nat.digitChar d]) = d := by
            rw [numeralValue_snoc, hval]
            simp [numeralValue]
          rw [hv]
          exact ⟨(digitChar_ne_zero_iff hd).1 hc0, numeral_of_lt hd⟩
      | cons b s =>
          obtain ⟨hb, hb0, hall⟩ := isPositiveNumeral_cons.1 h
          have hpre : isPositiveNumeral (b :: s) :=
            isPositiveNumeral_cons.2 ⟨hb, hb0, fun x hx => hall x (by simp [hx])⟩
          obtain ⟨hpos, hnum⟩ := ih hpre
          obtain ⟨d, hd, rfl, hval⟩ := digitChar_of_isDigit (hall c (by simp))
          rw [numeralValue_snoc, hval, numeral_snoc hpos hd, hnum]
          exact ⟨by omega, rfl⟩

/-- **A string accepted by `^(0|[1-9][0-9]*)$` is the numeral of its value.** -/
theorem numeral_numeralValue {s : Str} (h : isNumeral s) : numeral (numeralValue s) = s := by
  rcases (by simpa [isNumeral] using h : s = ['0'] ∨ isPositiveNumeral s) with rfl | h
  · rfl
  · exact (numeral_numeralValue_of_positive h).2

theorem isNumeral_of_positive {s : Str} (h : isPositiveNumeral s) : isNumeral s := by
  simp [isNumeral, h]

theorem isPositiveNumeral_numeral {n : ℕ} (hn : 0 < n) : isPositiveNumeral (numeral n) := by
  induction n using Nat.strong_induction_on with
  | _ n ih =>
      rcases Nat.lt_or_ge n 10 with hlt | hge
      · rw [numeral_of_lt hlt, isPositiveNumeral_cons]
        exact ⟨isDigit_of_mem_numeral (n := n) (by simp [numeral_of_lt hlt]),
          (digitChar_ne_zero_iff hlt).2 hn, by simp⟩
      · have hdiv : 0 < n / 10 := by omega
        have heq : n = 10 * (n / 10) + n % 10 := by omega
        have hmod : n % 10 < 10 := by omega
        have hpre := ih (n / 10) (by omega) hdiv
        rw [heq, numeral_snoc hdiv hmod]
        cases hs : numeral (n / 10) with
        | nil => exact absurd hs (numeral_ne_nil _)
        | cons c s =>
            rw [hs] at hpre
            obtain ⟨hc, hc0, hall⟩ := isPositiveNumeral_cons.1 hpre
            refine isPositiveNumeral_cons.2 ⟨hc, hc0, ?_⟩
            intro x hx
            rcases List.mem_append.1 hx with hx | hx
            · exact hall x hx
            · have hd : x ∈ numeral (n % 10) := by rw [numeral_of_lt hmod]; exact hx
              exact isDigit_of_mem_numeral hd

theorem isNumeral_numeral (n : ℕ) : isNumeral (numeral n) := by
  rcases Nat.eq_zero_or_pos n with rfl | hn
  · rfl
  · exact isNumeral_of_positive (isPositiveNumeral_numeral hn)

theorem length_numeral_le_iff {n k : ℕ} (hk : 0 < k) : (numeral n).length ≤ k ↔ n < 10 ^ k :=
  Nat.length_toDigits_le_iff (by decide) hk

/-! ### Hexadecimal strings -/

/-- The digits matched by `[0-9a-f]`. -/
def lowerHexDigits : Str :=
  ['0', '1', '2', '3', '4', '5', '6', '7', '8', '9', 'a', 'b', 'c', 'd', 'e', 'f']

/-- The digits matched by `[0-9a-fA-F]`. -/
def hexDigits : Str := lowerHexDigits ++ ['A', 'B', 'C', 'D', 'E', 'F']

/-- `n` lower-case hexadecimal digits: `^[0-9a-f]{n}$`. -/
def isLowerHex (n : ℕ) (s : Str) : Bool := s.length == n && s.all (lowerHexDigits.contains ·)

/-- `n` hexadecimal digits of either case: `^[0-9a-fA-F]{n}$`. -/
def isHex (n : ℕ) (s : Str) : Bool := s.length == n && s.all (hexDigits.contains ·)

/-- `toLowerCase()`, for the ASCII strings it is applied to. -/
def lower (s : Str) : Str := s.map Char.toLower

/-- The value of a hexadecimal digit. -/
def hexDigitValue (c : Char) : ℕ := lowerHexDigits.idxOf c.toLower

/-- The number a hexadecimal string denotes, as ``BigInt(`0x${s}`)`` reads it. -/
def hexValue (s : Str) : ℕ := s.foldl (fun v c => 16 * v + hexDigitValue c) 0

theorem forall_mem_of_all {α : Type} {p : α → Prop} [DecidablePred p] {l : List α}
    (h : l.all fun a => decide (p a)) : ∀ a ∈ l, p a := by
  intro a ha
  exact of_decide_eq_true (List.all_eq_true.1 h a ha)

theorem isLowerHex_iff {n : ℕ} {s : Str} :
    isLowerHex n s ↔ s.length = n ∧ ∀ c ∈ s, c ∈ lowerHexDigits := by
  simp [isLowerHex]

theorem isHex_iff {n : ℕ} {s : Str} : isHex n s ↔ s.length = n ∧ ∀ c ∈ s, c ∈ hexDigits := by
  simp [isHex]

@[simp] theorem lower_length (s : Str) : (lower s).length = s.length := by simp [lower]

theorem lower_isLowerHex {n : ℕ} {s : Str} (h : isHex n s) : isLowerHex n (lower s) := by
  have key : ∀ c ∈ hexDigits, c.toLower ∈ lowerHexDigits := forall_mem_of_all (by decide)
  obtain ⟨hlen, hall⟩ := isHex_iff.1 h
  refine isLowerHex_iff.2 ⟨by simpa using hlen, ?_⟩
  intro c hc
  obtain ⟨d, hd, rfl⟩ := List.mem_map.1 hc
  exact key d (hall d hd)

theorem isHex_of_isLowerHex {n : ℕ} {s : Str} (h : isLowerHex n s) : isHex n s := by
  obtain ⟨hlen, hall⟩ := isLowerHex_iff.1 h
  exact isHex_iff.2 ⟨hlen, fun c hc => List.mem_append_left _ (hall c hc)⟩

theorem lower_of_isLowerHex {n : ℕ} {s : Str} (h : isLowerHex n s) : lower s = s := by
  have key : ∀ c ∈ lowerHexDigits, c.toLower = c := forall_mem_of_all (by decide)
  refine (List.map_congr_left fun c hc => ?_).trans (List.map_id s)
  exact key c ((isLowerHex_iff.1 h).2 c hc)

theorem hexValue_lt {n : ℕ} {s : Str} (h : isHex n s) : hexValue s < 16 ^ n := by
  have key : ∀ c ∈ hexDigits, hexDigitValue c < 16 := forall_mem_of_all (by decide)
  obtain ⟨rfl, hall⟩ := isHex_iff.1 h
  clear h
  induction s using List.reverseRecOn with
  | nil => simp [hexValue]
  | append_singleton s c ih =>
      have hc : hexDigitValue c < 16 := key c (hall c (by simp))
      have hs : hexValue s < 16 ^ s.length := ih fun x hx => hall x (by simp [hx])
      have hval : hexValue (s ++ [c]) = 16 * hexValue s + hexDigitValue c := by simp [hexValue]
      rw [hval, List.length_append, List.length_singleton, pow_succ]
      omega

end Js
