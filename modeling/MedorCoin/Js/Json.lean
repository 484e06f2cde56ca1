/-
**JSON values and their texts.**

The program hashes, signs, stores and sends JSON texts.  This module models the values that
`JSON.parse` returns and the text that `JSON.stringify` prints for them.

Two values that JavaScript keeps apart are not told apart here, because nothing the program does
with them depends on it: `-0` is `0` (they are `===` and print alike).  A number that is not an
integer is kept as the text it prints as (`Js.Json.frac`); wherever the program reads a number
it rejects such a value.  Strings are lists of Unicode characters, so lone surrogates are left
out.

Main definitions:

* `Js.Json` — JSON values; `Js.Json.get?` — reading a property, `none` for `undefined`;
* `Js.Json.quote`, `Js.Json.stringify` — the text of a string and of a value;
* `Js.Json.plain` — values that survive a trip through their text: all numbers are integers and
  no object has a key twice;
* `Js.Json.safeInteger?` — the test `Number.isSafeInteger`, with the integer it lets pass.

Main results:

* `Js.Json.newline_not_mem_stringify` — the text of a value has no line break in it;
* `Js.Json.stringify_head` — how the text of a value can begin.
-/

import MedorCoin.Js.Text
import MedorCoin.Js.Map

set_option autoImplicit false

namespace Js

/-- A JSON value. -/
inductive Json
  | null
  | bool (b : Bool)
  /-- An integer. -/
  | num (n : ℤ)
  /-- A number that is not an integer, by the text it prints as. -/
  | frac (text : Str)
  | str (s : Str)
  | arr (items : List Json)
  /-- An object, as the list of its members in order. -/
  | obj (members : List (Str × Json))

namespace Json

/-! ### Reading values -/

/-- `value.key`: reading a property of an object.  Everything else has none of the properties
the program asks for. -/
def get? (v : Json) (key : Str) : Option Json :=
  match v with
  | obj m => lookup key m
  | _ => none

/-- `typeof value === "object"` for a value that is not `null`. -/
def isObject : Json → Bool
  | arr _ => true
  | obj _ => true
  | _ => false

/-- `Number.MAX_SAFE_INTEGER`. -/
def maxSafeInteger : ℕ := 2 ^ 53 - 1

/-- The integer of a value that passes `Number.isSafeInteger`. -/
def safeInteger? : Option Json → Option ℤ
  | some (num n) => if n.natAbs ≤ maxSafeInteger then some n else none
  | _ => none

/-- The natural number of a value that passes `Number.isSafeInteger` and is not negative. -/
def safeNat? (v : Option Json) : Option ℕ :=
  match safeInteger? v with
  | some (Int.ofNat n) => some n
  | _ => none

/-- The text of a value that is a string. -/
def string? : Option Json → Option Str
  | some (str s) => some s
  | _ => none

/-- The items of a value that is an array. -/
def array? : Option Json → Option (List Json)
  | some (arr l) => some l
  | _ => none

@[simp] theorem get?_obj (m : List (Str × Json)) (k : Str) : (obj m).get? k = lookup k m := rfl

@[simp] theorem string?_str (s : Str) : string? (some (str s)) = some s := rfl

@[simp] theorem array?_arr (l : List Json) : array? (some (arr l)) = some l := rfl

theorem safeNat?_num {n : ℕ} (h : n ≤ maxSafeInteger) : safeNat? (some (num n)) = some n := by
  simp [safeNat?, safeInteger?, h]

theorem string?_eq_some {v : Option Json} {s : Str} : string? v = some s ↔ v = some (str s) := by
  rcases v with - | v
  · simp [string?]
  · cases v <;> simp [string?]

theorem array?_eq_some {v : Option Json} {l : List Json} :
    array? v = some l ↔ v = some (arr l) := by
  rcases v with - | v
  · simp [array?]
  · cases v <;> simp [array?]

theorem safeNat?_eq_some {v : Option Json} {n : ℕ} :
    safeNat? v = some n ↔ v = some (num n) ∧ n ≤ maxSafeInteger := by
  constructor
  · intro h
    rw [safeNat?] at h
    split at h
    · next m hm =>
        cases h
        rcases v with - | v
        · simp [safeInteger?] at hm
        · cases v with
          | num k =>
              simp only [safeInteger?] at hm
              split at hm
              · next hk =>
                  cases hm
                  exact ⟨rfl, by simpa using hk⟩
              · cases hm
          | _ => simp [safeInteger?] at hm
    · cases h
  · rintro ⟨rfl, h⟩
    exact safeNat?_num h

/-! ### The text of a value -/

/-- One character inside the quotes, escaped where `JSON.stringify` escapes it. -/
def escapeChar (c : Char) : Str :=
  if c = '"' then ['\\', '"']
  else if c = '\\' then ['\\', '\\']
  else if c.toNat = 8 then ['\\', 'b']
  else if c.toNat = 9 then ['\\', 't']
  else if c.toNat = 10 then ['\\', 'n']
  else if c.toNat = 12 then ['\\', 'f']
  else if c.toNat = 13 then ['\\', 'r']
  else if c.toNat < 32 then
    ['\\', 'u', '0', '0', Nat.digitChar (c.toNat / 16), Nat.digitChar (c.toNat % 16)]
  else [c]

/-- The characters of a string, escaped. -/
def escape (s : Str) : Str := s.flatMap escapeChar

/-- The text of a string. -/
def quote (s : Str) : Str := '"' :: (escape s ++ ['"'])

/-- The text of an integer. -/
def intText (n : ℤ) : Str :=
  if n < 0 then '-' :: numeral n.natAbs else numeral n.natAbs

mutual

/-- **The text `JSON.stringify` prints for a value.** -/
def stringify : Json → Str
  | null => ['n', 'u', 'l', 'l']
  | bool true => ['t', 'r', 'u', 'e']
  | bool false => ['f', 'a', 'l', 's', 'e']
  | num n => intText n
  | frac t => t
  | str s => quote s
  | arr [] => ['[', ']']
  | arr (v :: l) => '[' :: (stringify v ++ stringifyItems l)
  | obj [] => ['{', '}']
  | obj ((k, v) :: m) => '{' :: (quote k ++ ':' :: (stringify v ++ stringifyMembers m))

/-- The items of an array after the first, and the closing bracket. -/
def stringifyItems : List Json → Str
  | [] => [']']
  | v :: l => ',' :: (stringify v ++ stringifyItems l)

/-- The members of an object after the first, and the closing brace. -/
def stringifyMembers : List (Str × Json) → Str
  | [] => ['}']
  | (k, v) :: m => ',' :: (quote k ++ ':' :: (stringify v ++ stringifyMembers m))

end

mutual

/-- Values that survive a trip through their text: numbers are integers, keys are distinct. -/
def plain : Json → Bool
  | frac _ => false
  | arr l => plainItems l
  | obj m => decide (m.map Prod.fst).Nodup && plainMembers m
  | _ => true

/-- `Js.Json.plain` for the items of an array. -/
def plainItems : List Json → Bool
  | [] => true
  | v :: l => plain v && plainItems l

/-- `Js.Json.plain` for the members of an object. -/
def plainMembers : List (Str × Json) → Bool
  | [] => true
  | (_, v) :: m => plain v && plainMembers m

end

theorem plainItems_iff {l : List Json} : plainItems l ↔ ∀ v ∈ l, plain v := by
  induction l with
  | nil => simp [plainItems]
  | cons v l ih => simp [plainItems, ih]

theorem plain_arr {l : List Json} : plain (arr l) ↔ ∀ v ∈ l, plain v := by
  rw [plain, plainItems_iff]

theorem plainMembers_iff {m : List (Str × Json)} :
    plainMembers m ↔ ∀ e ∈ m, plain e.2 := by
  induction m with
  | nil => simp [plainMembers]
  | cons e m ih => obtain ⟨k, v⟩ := e; simp [plainMembers, ih]

theorem plain_obj {m : List (Str × Json)} :
    plain (obj m) ↔ (m.map Prod.fst).Nodup ∧ ∀ e ∈ m, plain e.2 := by
  rw [plain, Bool.and_eq_true, decide_eq_true_iff, plainMembers_iff]

/-! ### What the text of a value looks like -/

/-- Text without control characters. -/
def Printable (s : Str) : Prop := ∀ d ∈ s, 32 ≤ d.toNat

@[simp] theorem printable_nil : Printable [] := by simp [Printable]

@[simp] theorem printable_cons {c : Char} {s : Str} :
    Printable (c :: s) ↔ 32 ≤ c.toNat ∧ Printable s := by
  simp [Printable]

@[simp] theorem printable_append {s t : Str} :
    Printable (s ++ t) ↔ Printable s ∧ Printable t := by
  simp only [Printable, List.mem_append]
  exact ⟨fun h => ⟨fun d hd => h d (Or.inl hd), fun d hd => h d (Or.inr hd)⟩,
    fun h d hd => hd.elim (h.1 d) (h.2 d)⟩

theorem printable_digitChar {n : ℕ} (h : n < 16) : 32 ≤ (Nat.digitChar n).toNat := by
  have key : ∀ n < 16, 32 ≤ (Nat.digitChar n).toNat := by decide
  exact key n h

theorem printable_escapeChar (c : Char) : Printable (escapeChar c) := by
  unfold escapeChar
  split_ifs with h₁ h₂ h₃ h₄ h₅ h₆ h₇ h₈
  all_goals simp
  · exact ⟨printable_digitChar (by omega), printable_digitChar (by omega)⟩
  · omega

theorem printable_quote (s : Str) : Printable (quote s) := by
  have hesc : Printable (escape s) := by
    intro d hd
    obtain ⟨c, -, hc⟩ := List.mem_flatMap.1 hd
    exact printable_escapeChar c d hc
  simp [quote, hesc]

theorem printable_numeral (n : ℕ) : Printable (numeral n) := by
  intro d hd
  have hdigit : 48 ≤ d.toNat ∧ d.toNat ≤ 57 := by
    simpa [Char.isDigit, UInt32.le_iff_toNat_le] using isDigit_of_mem_numeral hd
  omega

theorem printable_intText (n : ℤ) : Printable (intText n) := by
  unfold intText
  split
  · simp [printable_numeral]
  · exact printable_numeral _

mutual

theorem printable_stringify : ∀ v : Json, plain v → Printable (stringify v)
  | null, _ => by simp [stringify]
  | bool true, _ => by simp [stringify]
  | bool false, _ => by simp [stringify]
  | num n, _ => by rw [stringify]; exact printable_intText n
  | frac t, h => by simp [plain] at h
  | str s, _ => by rw [stringify]; exact printable_quote s
  | arr [], _ => by simp [stringify]
  | arr (v :: l), h => by
      have hall := plain_arr.1 h
      have hv := printable_stringify v (hall v (by simp))
      have hl := printable_stringifyItems l fun w hw => hall w (by simp [hw])
      simp [stringify, hv, hl]
  | obj [], _ => by simp [stringify]
  | obj ((k, v) :: m), h => by
      have hall := (plain_obj.1 h).2
      have hv := printable_stringify v (hall (k, v) (by simp))
      have hm := printable_stringifyMembers m fun e he => hall e (by simp [he])
      simp [stringify, printable_quote, hv, hm]

theorem printable_stringifyItems : ∀ l : List Json, (∀ v ∈ l, plain v) →
    Printable (stringifyItems l)
  | [], _ => by simp [stringifyItems]
  | v :: l, h => by
      have hv := printable_stringify v (h v (by simp))
      have hl := printable_stringifyItems l fun w hw => h w (by simp [hw])
      simp [stringifyItems, hv, hl]

theorem printable_stringifyMembers : ∀ m : List (Str × Json), (∀ e ∈ m, plain e.2) →
    Printable (stringifyMembers m)
  | [], _ => by simp [stringifyMembers]
  | (k, v) :: m, h => by
      have hv := printable_stringify v (h (k, v) (by simp))
      have hm := printable_stringifyMembers m fun e he => h e (by simp [he])
      simp [stringifyMembers, printable_quote, hv, hm]

end

/-- **The text of a plain value is a single line.** -/
theorem newline_not_mem_stringify {v : Json} (h : plain v) : '\n' ∉ stringify v := by
  intro hmem
  have hcontrol : 32 ≤ '\n'.toNat := printable_stringify v h '\n' hmem
  simp at hcontrol

/-- The characters with which the text of a value can begin. -/
def startsValue (c : Char) : Bool :=
  c == 'n' || c == 't' || c == 'f' || c == '"' || c == '[' || c == '{' || c == '-' || c.isDigit

theorem intText_head (n : ℤ) : ∃ c s, intText n = c :: s ∧ (c = '-' ∨ c.isDigit) := by
  unfold intText
  split
  · exact ⟨_, _, rfl, Or.inl rfl⟩
  · cases h : numeral n.natAbs with
    | nil => exact absurd h (numeral_ne_nil _)
    | cons c s =>
        exact ⟨c, s, rfl, Or.inr (isDigit_of_mem_numeral (n := n.natAbs) (by rw [h]; simp))⟩

theorem stringify_head (v : Json) (h : plain v) :
    ∃ c s, stringify v = c :: s ∧ startsValue c := by
  match v with
  | null => exact ⟨'n', _, rfl, rfl⟩
  | bool true => exact ⟨'t', _, rfl, rfl⟩
  | bool false => exact ⟨'f', _, rfl, rfl⟩
  | num n =>
      obtain ⟨c, s, hs, hc⟩ := intText_head n
      refine ⟨c, s, by rw [stringify, hs], ?_⟩
      rcases hc with rfl | hc
      · rfl
      · simp [startsValue, hc]
  | frac t => simp [plain] at h
  | str s => exact ⟨'"', _, by rw [stringify, quote], rfl⟩
  | arr [] => exact ⟨'[', _, by rw [stringify], rfl⟩
  | arr (v :: l) => exact ⟨'[', _, by rw [stringify], rfl⟩
  | obj [] => exact ⟨'{', _, by rw [stringify], rfl⟩
  | obj ((k, v) :: m) => exact ⟨'{', _, by rw [stringify], rfl⟩

end Json

end Js
