/-
**Reading JSON texts back.**

`JSON.parse` as a recursive-descent reader, and the theorem that it inverts `JSON.stringify`
on plain values (`Js.Json.parse_stringify`).  Two facts the program depends on follow: a plain
value is determined by its text (`Js.Json.stringify_injective`), so that whatever commits to the
text commits to the value, and a value written to a file or to a socket is the value read back.

The reader covers the texts the program writes.  Numbers with a fraction or an exponent and
escaped surrogates, which it never writes, are rejected.

The recursion is on a fuel that bounds the nesting; `Js.Json.parse` starts it with the length of
the text, and the round trip shows that this is enough.
-/

import MedorCoin.Js.Json

set_option autoImplicit false

namespace Js

namespace Json

/-! ### The reader -/

/-- The white space JSON allows between tokens. -/
def isSpace (c : Char) : Bool := c == ' ' || c == '\t' || c == '\n' || c == '\r'

/-- Skip white space. -/
def skipSpace (s : Str) : Str := s.dropWhile isSpace

/-- The rest of a text that begins with a given word. -/
def expect : Str → Str → Option Str
  | [], s => some s
  | _ :: _, [] => none
  | w :: ws, c :: s => if w = c then expect ws s else none

/-- The character a one-letter escape stands for. -/
def unescape (c : Char) : Option Char :=
  if c = '"' then some '"'
  else if c = '\\' then some '\\'
  else if c = '/' then some '/'
  else if c = 'b' then some (Char.ofNat 8)
  else if c = 'f' then some (Char.ofNat 12)
  else if c = 'n' then some '\n'
  else if c = 'r' then some '\r'
  else if c = 't' then some '\t'
  else none

/-- The character a `\u` escape stands for; escaped surrogates are not read. -/
def unicodeEscape (digits : Str) : Option Char :=
  if isHex 4 digits && Nat.isValidChar (hexValue digits) then some (Char.ofNat (hexValue digits))
  else none

/-- The string up to the closing quote, and what follows it. -/
def parseString : Str → Option (Str × Str)
  | [] => none
  | '\\' :: 'u' :: a :: b :: c :: d :: s => do
      let ch ← unicodeEscape [a, b, c, d]
      let (t, s) ← parseString s
      some (ch :: t, s)
  | '\\' :: e :: s => do
      let ch ← unescape e
      let (t, s) ← parseString s
      some (ch :: t, s)
  | c :: s =>
      if c = '"' then some ([], s)
      else if c.toNat < 32 then none
      else do
        let (t, s) ← parseString s
        some (c :: t, s)

/-- Whether a text goes on with a fraction or an exponent. -/
def continuesNumber : Str → Bool
  | c :: _ => c == '.' || c == 'e' || c == 'E'
  | [] => false

/-- A numeral, and what follows it. -/
def parseNumeral (s : Str) : Option (ℕ × Str) :=
  let digits := s.takeWhile Char.isDigit
  let rest := s.dropWhile Char.isDigit
  if isNumeral digits && !continuesNumber rest then some (numeralValue digits, rest) else none

/-- An integer, and what follows it. -/
def parseNumber : Str → Option (Json × Str)
  | [] => none
  | c :: s =>
      if c = '-' then (parseNumeral s).map fun p => (num (-p.1), p.2)
      else (parseNumeral (c :: s)).map fun p => (num p.1, p.2)

/-- The members of an object, where a later member with the same key overwrites an earlier
one. -/
def collect (m : List (Str × Json)) : List (Str × Json) :=
  m.foldl (fun acc e => store e.1 e.2 acc) []

mutual

/-- A value, and what follows it. -/
def parseValue : ℕ → Str → Option (Json × Str)
  | 0, _ => none
  | fuel + 1, s =>
      match skipSpace s with
      | [] => none
      | c :: s =>
          if c = '"' then (parseString s).map fun p => (str p.1, p.2)
          else if c = '[' then
            if (skipSpace s).head? = some ']' then some (arr [], (skipSpace s).tail)
            else do
              let (v, s) ← parseValue fuel s
              let (l, s) ← parseItems fuel s
              some (arr (v :: l), s)
          else if c = '{' then
            if (skipSpace s).head? = some '}' then some (obj [], (skipSpace s).tail)
            else do
              let (e, s) ← parseMember fuel s
              let (m, s) ← parseMembers fuel s
              some (obj (collect (e :: m)), s)
          else if c = 'n' then (expect ['u', 'l', 'l'] s).map fun s => (null, s)
          else if c = 't' then (expect ['r', 'u', 'e'] s).map fun s => (bool true, s)
          else if c = 'f' then (expect ['a', 'l', 's', 'e'] s).map fun s => (bool false, s)
          else parseNumber (c :: s)

/-- The items of an array after the first, and what follows the closing bracket. -/
def parseItems : ℕ → Str → Option (List Json × Str)
  | 0, _ => none
  | fuel + 1, s =>
      match skipSpace s with
      | [] => none
      | c :: s =>
          if c = ']' then some ([], s)
          else if c = ',' then do
            let (v, s) ← parseValue fuel s
            let (l, s) ← parseItems fuel s
            some (v :: l, s)
          else none

/-- A member of an object, and what follows it. -/
def parseMember : ℕ → Str → Option ((Str × Json) × Str)
  | 0, _ => none
  | fuel + 1, s => do
      let s ← expect ['"'] (skipSpace s)
      let (k, s) ← parseString s
      let s ← expect [':'] (skipSpace s)
      let (v, s) ← parseValue fuel s
      some ((k, v), s)

/-- The members of an object after the first, and what follows the closing brace. -/
def parseMembers : ℕ → Str → Option (List (Str × Json) × Str)
  | 0, _ => none
  | fuel + 1, s =>
      match skipSpace s with
      | [] => none
      | c :: s =>
          if c = '}' then some ([], s)
          else if c = ',' then do
            let (e, s) ← parseMember fuel s
            let (m, s) ← parseMembers fuel s
            some (e :: m, s)
          else none

end

/-- **`JSON.parse`.**  A text that is not the text of a value reads as `none`. -/
def parse (s : Str) : Option Json :=
  match parseValue (s.length + 1) s with
  | some (v, rest) => if skipSpace rest = [] then some v else none
  | none => none

/-! ### Strings -/

@[simp] theorem expect_append (w s : Str) : expect w (w ++ s) = some s := by
  induction w with
  | nil => rfl
  | cons c w ih => simp [expect, ih]

theorem unicodeEscape_control {n : ℕ} (h : n < 32) :
    unicodeEscape ['0', '0', Nat.digitChar (n / 16), Nat.digitChar (n % 16)] =
      some (Char.ofNat n) := by
  have key : ∀ n < 32, unicodeEscape ['0', '0', Nat.digitChar (n / 16), Nat.digitChar (n % 16)] =
      some (Char.ofNat n) := by decide
  exact key n h

theorem char_eq_ofNat {c : Char} {n : ℕ} (h : c.toNat = n) : c = Char.ofNat n := by
  rw [← h, Char.ofNat_toNat]

theorem parseString_escapeChar (c : Char) (s : Str) :
    parseString (escapeChar c ++ s) = (parseString s).map fun p => (c :: p.1, p.2) := by
  unfold escapeChar
  split_ifs with h₁ h₂ h₃ h₄ h₅ h₆ h₇ h₈
  · subst h₁
    simp [parseString, unescape, Option.map_eq_bind]
  · subst h₂
    simp [parseString, unescape, Option.map_eq_bind]
  · obtain rfl := char_eq_ofNat h₃
    simp [parseString, unescape, Option.map_eq_bind]
  · obtain rfl := char_eq_ofNat h₄
    simp [parseString, unescape, Option.map_eq_bind]
  · obtain rfl := char_eq_ofNat h₅
    simp [parseString, unescape, Option.map_eq_bind]
  · obtain rfl := char_eq_ofNat h₆
    simp [parseString, unescape, Option.map_eq_bind]
  · obtain rfl := char_eq_ofNat h₇
    simp [parseString, unescape, Option.map_eq_bind]
  · have hctrl := unicodeEscape_control h₈
    rw [Char.ofNat_toNat] at hctrl
    simp [parseString, hctrl, Option.map_eq_bind]
  · -- an ordinary character: neither a quote, nor a backslash, nor a control character
    rw [List.singleton_append, parseString.eq_def]
    split <;> simp_all [Option.map_eq_bind]

/-- **A quoted string is read back.** -/
theorem parseString_escape (t s : Str) : parseString (escape t ++ '"' :: s) = some (t, s) := by
  induction t with
  | nil => simp [escape, parseString]
  | cons c t ih =>
      rw [escape, List.flatMap_cons, List.append_assoc, parseString_escapeChar]
      rw [← escape, ih]
      rfl

/-! ### Numbers -/

/-- What follows a value inside a text: nothing, or a character that ends a value. -/
def Stops (s : Str) : Prop := ∀ c, s.head? = some c → c = ',' ∨ c = ']' ∨ c = '}'

theorem stops_nil : Stops [] := by simp [Stops]

theorem stops_stringifyItems (l : List Json) (s : Str) : Stops (stringifyItems l ++ s) := by
  intro c hc
  cases l <;> simp [stringifyItems] at hc <;> simp [← hc]

theorem stops_stringifyMembers (m : List (Str × Json)) (s : Str) :
    Stops (stringifyMembers m ++ s) := by
  intro c hc
  rcases m with - | ⟨⟨k, v⟩, m⟩ <;> simp [stringifyMembers] at hc <;> simp [← hc]

theorem Stops.not_number {s : Str} (h : Stops s) :
    (∀ c, s.head? = some c → c.isDigit = false) ∧ continuesNumber s = false := by
  cases s with
  | nil => simp [continuesNumber]
  | cons c s =>
      have hc : c = ',' ∨ c = ']' ∨ c = '}' := h c rfl
      rcases hc with rfl | rfl | rfl <;> simp [continuesNumber]

theorem parseNumeral_numeral {n : ℕ} {s : Str} (hs : Stops s) :
    parseNumeral (numeral n ++ s) = some (n, s) := by
  obtain ⟨hdigit, hcont⟩ := hs.not_number
  have hall : ∀ c ∈ numeral n, c.isDigit := fun c hc => isDigit_of_mem_numeral hc
  have htake : (numeral n ++ s).takeWhile Char.isDigit = numeral n := by
    rw [List.takeWhile_append_of_pos hall]
    cases s with
    | nil => simp
    | cons c s => simp [hdigit c rfl]
  have hdrop : (numeral n ++ s).dropWhile Char.isDigit = s := by
    rw [List.dropWhile_append_of_pos hall]
    cases s with
    | nil => simp
    | cons c s => simp [hdigit c rfl]
  simp [parseNumeral, htake, hdrop, hcont, isNumeral_numeral, numeralValue_numeral]

theorem ne_of_isDigit {c d : Char} (hc : c.isDigit) (hd : d.isDigit = false) : c ≠ d := by
  rintro rfl
  simp [hc] at hd

theorem parseNumber_intText {n : ℤ} {s : Str} (hs : Stops s) :
    parseNumber (intText n ++ s) = some (num n, s) := by
  unfold intText
  split
  · next hneg =>
      have habs : -(n.natAbs : ℤ) = n := by omega
      simp only [List.cons_append, parseNumber, if_true, parseNumeral_numeral hs, Option.map_some,
        habs]
  · next hpos =>
      have habs : (n.natAbs : ℤ) = n := by omega
      have hparse := parseNumeral_numeral (n := n.natAbs) hs
      cases hnum : numeral n.natAbs with
      | nil => exact absurd hnum (numeral_ne_nil _)
      | cons c t =>
          have hc : c.isDigit := isDigit_of_mem_numeral (n := n.natAbs) (by simp [hnum])
          rw [hnum] at hparse
          rw [List.cons_append, parseNumber, if_neg (ne_of_isDigit hc rfl), ← List.cons_append,
            hparse, Option.map_some, habs]

/-! ### The round trip -/

theorem skipSpace_cons {c : Char} {s : Str} (h : isSpace c = false) :
    skipSpace (c :: s) = c :: s := by
  simp [skipSpace, h]

theorem startsValue_not_space {c : Char} (h : startsValue c) : isSpace c = false := by
  simp only [startsValue, Bool.or_eq_true, beq_iff_eq] at h
  rcases h with ((((((rfl | rfl) | rfl) | rfl) | rfl) | rfl) | rfl) | hdigit
  all_goals first | rfl | skip
  simp [isSpace, ne_of_isDigit hdigit]

theorem startsValue_ne {c d : Char} (h : startsValue c) (hd : startsValue d = false) : c ≠ d := by
  rintro rfl
  simp [h] at hd

theorem collect_eq_self {m : List (Str × Json)} (h : (m.map Prod.fst).Nodup) : collect m = m := by
  suffices hgen : ∀ (l acc : List (Str × Json)), ((acc ++ l).map Prod.fst).Nodup →
      l.foldl (fun acc e => store e.1 e.2 acc) acc = acc ++ l from hgen m [] (by simpa using h)
  intro l
  induction l with
  | nil => intro acc _; simp
  | cons e l ih =>
      intro acc hacc
      have hnew : e.1 ∉ acc.map Prod.fst := by
        intro hmem
        rw [List.map_append, List.nodup_append] at hacc
        exact hacc.2.2 e.1 hmem e.1 (by simp) rfl
      rw [List.foldl_cons, store_of_not_mem hnew, ih _ (by simpa using hacc)]
      simp

mutual

theorem parseValue_stringify : ∀ (v : Json), plain v → ∀ (fuel : ℕ) (s : Str),
    (stringify v).length < fuel → Stops s → parseValue fuel (stringify v ++ s) = some (v, s)
  | null, _, fuel + 1, s, _, _ => by
      simp [stringify, parseValue, skipSpace, isSpace, expect]
  | bool true, _, fuel + 1, s, _, _ => by
      simp [stringify, parseValue, skipSpace, isSpace, expect]
  | bool false, _, fuel + 1, s, _, _ => by
      simp [stringify, parseValue, skipSpace, isSpace, expect]
  | num n, _, fuel + 1, s, _, hs => by
      have hparse := parseNumber_intText (n := n) hs
      obtain ⟨c, t, ht, hc⟩ := intText_head n
      rw [ht, List.cons_append] at hparse
      rw [stringify, ht, List.cons_append, parseValue]
      rcases hc with rfl | hc
      · simp [skipSpace, isSpace, hparse]
      · have hspace : isSpace c = false := by simp [isSpace, ne_of_isDigit hc]
        simp [skipSpace_cons hspace, ne_of_isDigit hc, hparse]
  | frac t, h, _, _, _, _ => by simp [plain] at h
  | str t, _, fuel + 1, s, _, _ => by
      simp [stringify, quote, parseValue, skipSpace, isSpace, parseString_escape]
  | arr [], _, fuel + 1, s, _, _ => by
      simp [stringify, parseValue, skipSpace, isSpace]
  | arr (v :: l), h, fuel + 1, s, hlen, hs => by
      have hall := plain_arr.1 h
      simp only [stringify, List.length_cons, List.length_append] at hlen
      have hv := parseValue_stringify v (hall v (by simp)) fuel (stringifyItems l ++ s) (by omega)
        (stops_stringifyItems l s)
      have hl := parseItems_stringify l (fun w hw => hall w (by simp [hw])) fuel s (by omega)
      obtain ⟨c, t, ht, hc⟩ := stringify_head v (hall v (by simp))
      have hskip : (skipSpace (stringify v ++ (stringifyItems l ++ s))).head? ≠ some ']' := by
        rw [ht, List.cons_append, skipSpace_cons (startsValue_not_space hc)]
        simpa using startsValue_ne hc rfl
      rw [stringify, List.cons_append, List.append_assoc, parseValue,
        skipSpace_cons rfl]
      simp [hskip, hv, hl]
  | obj [], _, fuel + 1, s, _, _ => by
      simp [stringify, parseValue, skipSpace, isSpace]
  | obj ((k, v) :: m), h, fuel + 1, s, hlen, hs => by
      obtain ⟨hnodup, hall⟩ := plain_obj.1 h
      simp only [stringify, List.length_cons, List.length_append] at hlen
      have hv := parseMember_stringify k v (hall (k, v) (by simp)) fuel (stringifyMembers m ++ s)
        (by simp only [List.length_append, List.length_cons]; omega) (stops_stringifyMembers m s)
      have hm := parseMembers_stringify m (fun e he => hall e (by simp [he])) fuel s (by omega)
      have hskip :
          (skipSpace (quote k ++ ':' :: (stringify v ++ (stringifyMembers m ++ s)))).head? ≠
            some '}' := by
        rw [quote, List.cons_append, skipSpace_cons rfl]
        simp
      rw [stringify, List.cons_append, List.append_assoc, List.cons_append, List.append_assoc,
        parseValue, skipSpace_cons rfl]
      rw [List.append_assoc, List.cons_append] at hv
      simp [hskip, hv, hm, collect_eq_self hnodup]

theorem parseItems_stringify : ∀ (l : List Json), (∀ v ∈ l, plain v) → ∀ (fuel : ℕ) (s : Str),
    (stringifyItems l).length < fuel → parseItems fuel (stringifyItems l ++ s) = some (l, s)
  | [], _, fuel + 1, s, _ => by
      simp [stringifyItems, parseItems, skipSpace, isSpace]
  | v :: l, h, fuel + 1, s, hlen => by
      simp only [stringifyItems, List.length_cons, List.length_append] at hlen
      have hv := parseValue_stringify v (h v (by simp)) fuel (stringifyItems l ++ s) (by omega)
        (stops_stringifyItems l s)
      have hl := parseItems_stringify l (fun w hw => h w (by simp [hw])) fuel s (by omega)
      rw [stringifyItems, List.cons_append, List.append_assoc, parseItems, skipSpace_cons rfl]
      simp [hv, hl]

theorem parseMember_stringify : ∀ (k : Str) (v : Json), plain v → ∀ (fuel : ℕ) (s : Str),
    (quote k ++ ':' :: stringify v).length < fuel → Stops s →
    parseMember fuel ((quote k ++ ':' :: stringify v) ++ s) = some ((k, v), s)
  | k, v, h, fuel + 1, s, hlen, hs => by
      simp only [List.length_cons, List.length_append] at hlen
      have hv := parseValue_stringify v h fuel s (by omega) hs
      rw [quote, List.append_assoc, List.cons_append, List.append_assoc, parseMember,
        skipSpace_cons rfl]
      simp [expect, parseString_escape, skipSpace, isSpace, hv]

theorem parseMembers_stringify : ∀ (m : List (Str × Json)), (∀ e ∈ m, plain e.2) →
    ∀ (fuel : ℕ) (s : Str), (stringifyMembers m).length < fuel →
    parseMembers fuel (stringifyMembers m ++ s) = some (m, s)
  | [], _, fuel + 1, s, _ => by
      simp [stringifyMembers, parseMembers, skipSpace, isSpace]
  | (k, v) :: m, h, fuel + 1, s, hlen => by
      simp only [stringifyMembers, List.length_cons, List.length_append] at hlen
      have hv := parseMember_stringify k v (h (k, v) (by simp)) fuel (stringifyMembers m ++ s)
        (by simp only [List.length_append, List.length_cons]; omega) (stops_stringifyMembers m s)
      have hm := parseMembers_stringify m (fun e he => h e (by simp [he])) fuel s (by omega)
      rw [stringifyMembers, List.cons_append, List.append_assoc, List.cons_append,
        List.append_assoc, parseMembers, skipSpace_cons rfl]
      rw [List.append_assoc, List.cons_append] at hv
      simp [hv, hm]

end

/-- **`JSON.parse` inverts `JSON.stringify` on plain values.** -/
theorem parse_stringify {v : Json} (h : plain v) : parse (stringify v) = some v := by
  have hparse := parseValue_stringify v h ((stringify v).length + 1) [] (by omega) stops_nil
  rw [List.append_nil] at hparse
  simp [parse, hparse, skipSpace]

/-- **A plain value is determined by its text.** -/
theorem stringify_injective {v w : Json} (hv : plain v) (hw : plain w)
    (h : stringify v = stringify w) : v = w := by
  have hparse := parse_stringify hv
  rw [h, parse_stringify hw] at hparse
  exact (Option.some.inj hparse).symm

end Json

end Js
