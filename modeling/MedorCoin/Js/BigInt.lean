/-
**Integers from texts and JSON values.**

`BigInt(value)` takes an integer from a text or from another value, and throws an error where there
is none.

Main definitions:

* `Js.bigInt?` — the integer of a text; `Js.Json.bigInt?`, `Js.Json.toBigInt` — that of a value.

Main result:

* `Js.bigInt?_of_digits`, `Js.bigInt?_numeral` — **decimal digits are read as their number**.
-/

import MedorCoin.Js.Error
import MedorCoin.Js.Json
import MedorCoin.Js.Lines

set_option autoImplicit false

namespace Js

/-- `text.trim()` -/
def trim (s : Str) : Str := ((s.dropWhile isBlank).reverse.dropWhile isBlank).reverse

/-- The number of digits in a base, of which there must be one. -/
def digits? (digit : Char → Bool) (value : Str → ℕ) (s : Str) : Option ℕ :=
  if s ≠ [] ∧ s.all digit then some (value s) else none

def decimal? (s : Str) : Option ℕ := digits? Char.isDigit numeralValue s

/-- `BigInt(text)`, `none` where it throws an error. -/
def bigInt? (s : Str) : Option ℤ :=
  match trim s with
  | [] => some 0
  | '0' :: 'x' :: s => (digits? (hexDigits.contains ·) hexValue s).map (↑)
  | '0' :: 'X' :: s => (digits? (hexDigits.contains ·) hexValue s).map (↑)
  | '0' :: 'o' :: s => (digits? (fun c => '0' ≤ c ∧ c ≤ '7') (Nat.ofDigitChars 8 · 0) s).map (↑)
  | '0' :: 'O' :: s => (digits? (fun c => '0' ≤ c ∧ c ≤ '7') (Nat.ofDigitChars 8 · 0) s).map (↑)
  | '0' :: 'b' :: s => (digits? (fun c => c = '0' ∨ c = '1') (Nat.ofDigitChars 2 · 0) s).map (↑)
  | '0' :: 'B' :: s => (digits? (fun c => c = '0' ∨ c = '1') (Nat.ofDigitChars 2 · 0) s).map (↑)
  | '+' :: s => (decimal? s).map (↑)
  | '-' :: s => (decimal? s).map fun n => -(n : ℤ)
  | s => (decimal? s).map (↑)

theorem trim_eq_self {s : Str} (h : ∀ c ∈ s, isBlank c = false) : trim s = s := by
  have hfront : s.dropWhile isBlank = s := by
    cases s with
    | nil => rfl
    | cons c s => rw [List.dropWhile_cons_of_neg (by simp [h c (List.mem_cons_self ..)])]
  have hback : s.reverse.dropWhile isBlank = s.reverse := by
    cases hreverse : s.reverse with
    | nil => rfl
    | cons c t =>
        have hc : c ∈ s := List.mem_reverse.1 (hreverse ▸ List.mem_cons_self ..)
        rw [List.dropWhile_cons_of_neg (by simp [h c hc])]
  rw [trim, hfront, hback, List.reverse_reverse]

/-- **A text of decimal digits is read as the number they denote.** -/
theorem bigInt?_of_digits {s : Str} (hne : s ≠ []) (h : ∀ c ∈ s, c.isDigit = true) :
    bigInt? s = some (numeralValue s : ℤ) := by
  have hblank : ∀ c ∈ s, isBlank c = false := by
    intro c hc
    obtain ⟨d, hd, rfl, -⟩ := digitChar_of_isDigit (h c hc)
    have key : ∀ d < 10, isBlank (Nat.digitChar d) = false := by decide
    exact key d hd
  have hdecimal : decimal? s = some (numeralValue s) := by
    rw [decimal?, digits?, if_pos ⟨hne, List.all_eq_true.2 h⟩]
  rw [bigInt?, trim_eq_self hblank]
  -- what is not a digit is not in the text
  split
  · exact absurd rfl hne
  · exact absurd (h 'x' (by simp)) (by decide)
  · exact absurd (h 'X' (by simp)) (by decide)
  · exact absurd (h 'o' (by simp)) (by decide)
  · exact absurd (h 'O' (by simp)) (by decide)
  · exact absurd (h 'b' (by simp)) (by decide)
  · exact absurd (h 'B' (by simp)) (by decide)
  · exact absurd (h '+' (by simp)) (by decide)
  · exact absurd (h '-' (by simp)) (by decide)
  · rw [hdecimal, Option.map_some]

theorem bigInt?_numeral (n : ℕ) : bigInt? (numeral n) = some (n : ℤ) := by
  rw [bigInt?_of_digits (numeral_ne_nil n) fun _ hc => isDigit_of_mem_numeral hc,
    numeralValue_numeral]

/-- `BigInt(value)` for a value that is neither an array nor an object. -/
def Json.bigInt? : Option Json → Option ℤ
  | some (.num n) => some n
  | some (.bool b) => some (if b then 1 else 0)
  | some (.str s) => Js.bigInt? s
  | _ => none

/-- `BigInt(value)` with the error it throws. -/
def Json.toBigInt (value : Option Json) : Except Error ℤ :=
  match Json.bigInt? value with
  | some n => .ok n
  | none =>
      match value with
      | some (.str s) =>
          .error (.syntaxError ("Cannot convert " ++ String.ofList s ++ " to a BigInt"))
      | some (.frac s) => .error (.rangeError ("The number " ++ String.ofList s ++
          " cannot be converted to a BigInt because it is not an integer"))
      | _ => .error (.typeError "Cannot convert the value to a BigInt")

theorem Json.toBigInt_eq_ok {value : Option Json} {n : ℤ} :
    Json.toBigInt value = .ok n ↔ Json.bigInt? value = some n := by
  unfold Json.toBigInt
  split
  · next m h => rw [h, Except.ok.injEq, Option.some.injEq]
  · next h =>
      rw [h]
      split <;> exact ⟨nofun, nofun⟩

/-- Whether a value counts as true in a condition. -/
def Json.truthy : Option Json → Bool
  | none => false
  | some .null => false
  | some (.bool b) => b
  | some (.num n) => n ≠ 0
  | some (.str s) => !s.isEmpty
  | some _ => true

end Js
