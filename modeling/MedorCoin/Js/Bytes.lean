/-
**Text as bytes: UTF-8 and hexadecimal.**

Files hold bytes, programs read and write text.  `Js.utf8` is the encoding done when text is
written, `Js.decode` the decoding done when a file is read with `"utf8"`.  A file whose last
write was cut short need not hold well-formed text: the decoder puts U+FFFD in place of a byte
it cannot read (one for each such byte; how many it puts is of no consequence here).  A buffer is
printed in hexadecimal and read back.

Main definitions:

* `Js.bufferToHex`, `Js.bufferFromHex` — `buffer.toString('hex')` and `Buffer.from(s, 'hex')`.

Main results:

* `Js.decode_utf8_append` — **decoding undoes encoding**, whatever follows the encoded text;
* `Js.newline_mem_utf8`, `Js.newline_mem_decode` — a line break is encoded as one byte that
  nothing else contains, so torn text has a line break only where its bytes have one;
* `Js.bufferFromHex_bufferToHex` — **a printed buffer is read back**;
* `Js.bufferToHex_injective` — different buffers print differently.
-/

import MedorCoin.Js.Text

set_option autoImplicit false

namespace Js

/-- The contents of a file. -/
abbrev Bytes := List UInt8

/-! ### Encoding -/

/-- The UTF-8 encoding of a text. -/
def utf8 (s : Str) : Bytes := s.flatMap String.utf8EncodeChar

/-- `Buffer.byteLength(s)`. -/
def byteLength (s : Str) : ℕ := (utf8 s).length

@[simp] theorem utf8_nil : utf8 [] = [] := rfl

@[simp] theorem utf8_append (s t : Str) : utf8 (s ++ t) = utf8 s ++ utf8 t := by
  simp [utf8]

theorem utf8_cons (c : Char) (s : Str) : utf8 (c :: s) = String.utf8EncodeChar c ++ utf8 s := by
  simp [utf8]

@[simp] theorem byteLength_append (s t : Str) :
    byteLength (s ++ t) = byteLength s + byteLength t := by
  simp [byteLength]

theorem utf8EncodeChar_of_lt {c : Char} (h : c.toNat < 128) :
    String.utf8EncodeChar c = [UInt8.ofNat c.toNat] := by
  have hle : c.val.toNat ≤ 0x7f := Nat.le_of_lt_succ h
  simp only [String.utf8EncodeChar]
  rw [if_pos hle]
  rfl

theorem utf8EncodeChar_ge {c : Char} (h : 128 ≤ c.toNat) :
    ∀ b ∈ String.utf8EncodeChar c, 128 ≤ b.toNat := by
  have hgt : ¬ c.val.toNat ≤ 0x7f := by
    have : c.toNat = c.val.toNat := rfl
    omega
  intro b hb
  simp only [String.utf8EncodeChar] at hb
  rw [if_neg hgt] at hb
  split_ifs at hb
  all_goals simp only [List.mem_cons, List.not_mem_nil, or_false] at hb
  · rcases hb with rfl | rfl <;> simp only [UInt8.toNat_ofNat'] <;> omega
  · rcases hb with rfl | rfl | rfl <;> simp only [UInt8.toNat_ofNat'] <;> omega
  · rcases hb with rfl | rfl | rfl | rfl <;> simp only [UInt8.toNat_ofNat'] <;> omega

theorem newline_mem_utf8EncodeChar {c : Char} (h : (10 : UInt8) ∈ String.utf8EncodeChar c) :
    c = '\n' := by
  rcases Nat.lt_or_ge c.toNat 128 with hlt | hge
  · rw [utf8EncodeChar_of_lt hlt, List.mem_singleton] at h
    have hval : c.toNat = 10 := by
      have := congrArg UInt8.toNat h
      simp only [UInt8.toNat_ofNat'] at this
      have h10 : (10 : UInt8).toNat = 10 := rfl
      omega
    rw [← Char.ofNat_toNat c, hval]
  · have := utf8EncodeChar_ge hge 10 h
    simp at this

/-- **The encoding of a text has the byte 10 only if the text has a line break.** -/
theorem newline_mem_utf8 {s : Str} (h : (10 : UInt8) ∈ utf8 s) : '\n' ∈ s := by
  obtain ⟨c, hc, hb⟩ := List.mem_flatMap.1 h
  exact newline_mem_utf8EncodeChar hb ▸ hc

/-! ### Decoding -/

/-- The character whose encoding the bytes begin with, if they begin with one. -/
def decodeChar? (b : Bytes) : Option Char := b.toByteArray.utf8DecodeChar? 0

/-- Decode at most `fuel` characters. -/
def decodeFrom : ℕ → Bytes → Str
  | 0, _ => []
  | _ + 1, [] => []
  | fuel + 1, b :: bs =>
      if b.toNat < 128 then Char.ofNat b.toNat :: decodeFrom fuel bs
      else
        match decodeChar? (b :: bs) with
        | some c => c :: decodeFrom fuel ((b :: bs).drop c.utf8Size)
        | none => Char.ofNat 0xFFFD :: decodeFrom fuel bs

/-- **The text a file holds.** -/
def decode (b : Bytes) : Str := decodeFrom b.length b

theorem decodeFrom_nil (fuel : ℕ) : decodeFrom fuel [] = [] := by
  cases fuel <;> rfl

theorem decodeChar?_utf8EncodeChar_append (c : Char) (t : Bytes) :
    decodeChar? (String.utf8EncodeChar c ++ t) = some c := by
  rw [decodeChar?, List.toByteArray_append, ByteArray.utf8DecodeChar?_utf8EncodeChar_append]

/-- The fuel does not matter once it is at least the number of bytes: every decoded character
uses up at least one byte. -/
theorem decodeFrom_eq_of_le : ∀ (n : ℕ) (b : Bytes) (f₁ f₂ : ℕ), b.length ≤ n → b.length ≤ f₁ →
    b.length ≤ f₂ → decodeFrom f₁ b = decodeFrom f₂ b := by
  intro n
  induction n with
  | zero =>
      intro b f₁ f₂ hb _ _
      rw [List.length_eq_zero_iff.1 (Nat.le_zero.1 hb), decodeFrom_nil, decodeFrom_nil]
  | succ n ih =>
      intro b f₁ f₂ hb h₁ h₂
      cases b with
      | nil => rw [decodeFrom_nil, decodeFrom_nil]
      | cons b bs =>
          simp only [List.length_cons] at hb h₁ h₂
          obtain ⟨k₁, rfl⟩ : ∃ k, f₁ = k + 1 := ⟨f₁ - 1, by omega⟩
          obtain ⟨k₂, rfl⟩ : ∃ k, f₂ = k + 1 := ⟨f₂ - 1, by omega⟩
          have htail := ih bs k₁ k₂ (by omega) (by omega) (by omega)
          simp only [decodeFrom]
          split
          · rw [htail]
          · cases hc : decodeChar? (b :: bs) with
            | none => simp only [htail]
            | some c =>
                have hpos := c.utf8Size_pos
                have hlen : ((b :: bs).drop c.utf8Size).length ≤ bs.length := by
                  rw [List.length_drop, List.length_cons]; omega
                have hrest : decodeFrom k₁ ((b :: bs).drop c.utf8Size) =
                    decodeFrom k₂ ((b :: bs).drop c.utf8Size) :=
                  ih _ k₁ k₂ (by omega) (by omega) (by omega)
                simp only [hrest]

theorem decodeFrom_eq_decode {b : Bytes} {fuel : ℕ} (h : b.length ≤ fuel) :
    decodeFrom fuel b = decode b :=
  decodeFrom_eq_of_le b.length b fuel b.length le_rfl h le_rfl

@[simp] theorem decode_nil : decode [] = [] := rfl

theorem decode_utf8EncodeChar_append (c : Char) (t : Bytes) :
    decode (String.utf8EncodeChar c ++ t) = c :: decode t := by
  rcases Nat.lt_or_ge c.toNat 128 with hlt | hge
  · have hb : (UInt8.ofNat c.toNat).toNat = c.toNat := by
      rw [UInt8.toNat_ofNat']; omega
    rw [utf8EncodeChar_of_lt hlt, List.singleton_append, decode, List.length_cons, decodeFrom, hb,
      if_pos hlt, Char.ofNat_toNat]
    rfl
  · have hdec := decodeChar?_utf8EncodeChar_append c t
    have hsize := String.length_utf8EncodeChar c
    cases henc : String.utf8EncodeChar c with
    | nil => exact absurd henc String.utf8EncodeChar_ne_nil
    | cons b bs =>
        have hb : ¬ b.toNat < 128 := by
          have := utf8EncodeChar_ge hge b (by simp [henc])
          omega
        have hdrop : ((b :: bs) ++ t).drop c.utf8Size = t := by
          rw [← hsize, henc, List.drop_left]
        rw [henc] at hdec
        rw [decode, List.cons_append, List.length_cons, decodeFrom, if_neg hb]
        rw [List.cons_append] at hdec hdrop
        simp only [hdec, hdrop]
        rw [decodeFrom_eq_decode (by simp)]

/-- **Decoding undoes encoding**, whatever follows the encoded text. -/
theorem decode_utf8_append (s : Str) (t : Bytes) : decode (utf8 s ++ t) = s ++ decode t := by
  induction s with
  | nil => rfl
  | cons c s ih =>
      rw [utf8_cons, List.append_assoc, decode_utf8EncodeChar_append, ih, List.cons_append]

theorem decode_utf8 (s : Str) : decode (utf8 s) = s := by
  simpa using decode_utf8_append s []

theorem mem_of_decodeChar? {b : Bytes} {c : Char} (h : decodeChar? b = some c) :
    ∀ x ∈ String.utf8EncodeChar c, x ∈ b := by
  intro x hx
  obtain ⟨l, hl⟩ := ByteArray.exists_of_utf8DecodeChar?_eq_some h
  have hdata := congrArg (fun a => a.data.toList) hl
  simp only [List.data_toByteArray, ByteArray.data_append, Array.toList_append] at hdata
  rw [hdata]
  exact List.mem_append_left _ hx

/-- **Bytes without a line break decode to text without one.** -/
theorem newline_mem_decode {b : Bytes} (h : '\n' ∈ decode b) : (10 : UInt8) ∈ b := by
  suffices hgen : ∀ (fuel : ℕ) (b : Bytes), '\n' ∈ decodeFrom fuel b → (10 : UInt8) ∈ b from
    hgen b.length b h
  intro fuel
  induction fuel with
  | zero => intro b hb; simp [decodeFrom] at hb
  | succ fuel ih =>
      intro b hb
      cases b with
      | nil => simp [decodeFrom] at hb
      | cons b bs =>
          rw [decodeFrom] at hb
          split at hb
          · next hlt =>
              rcases List.mem_cons.1 hb with heq | hb
              · have key : ∀ n < 128, '\n' = Char.ofNat n → n = 10 := by decide
                have hten := key b.toNat hlt heq
                have hb10 : b = 10 := UInt8.toNat_inj.1 hten
                simp [hb10]
              · exact List.mem_cons_of_mem _ (ih bs hb)
          · split at hb
            · next c hc =>
                rcases List.mem_cons.1 hb with heq | hb
                · subst heq
                  refine mem_of_decodeChar? hc 10 ?_
                  rw [utf8EncodeChar_of_lt (by decide)]
                  exact List.mem_singleton.2 rfl
                · exact List.mem_of_mem_drop (ih _ hb)
            · rcases List.mem_cons.1 hb with heq | hb
              · exact absurd heq (by decide)
              · exact List.mem_cons_of_mem _ (ih bs hb)

/-! ### Buffers in hexadecimal -/

/-- `buffer.toString('hex')`. -/
def bufferToHex (b : Bytes) : Str :=
  b.flatMap fun x => [Nat.digitChar (x.toNat / 16), Nat.digitChar (x.toNat % 16)]

/-- `Buffer.from(s, 'hex')`: two digits of either case make a byte, and what is read ends before
the first pair that is not two digits. -/
def bufferFromHex : Str → Bytes
  | high :: low :: s =>
      if high ∈ hexDigits ∧ low ∈ hexDigits then
        UInt8.ofNat (16 * hexDigitValue high + hexDigitValue low) :: bufferFromHex s
      else []
  | _ => []

@[simp] theorem bufferToHex_nil : bufferToHex [] = [] := rfl

theorem bufferToHex_cons (x : UInt8) (b : Bytes) :
    bufferToHex (x :: b) =
      Nat.digitChar (x.toNat / 16) :: Nat.digitChar (x.toNat % 16) :: bufferToHex b := rfl

theorem hexDigitValue_digitChar {n : ℕ} (h : n < 16) :
    Nat.digitChar n ∈ hexDigits ∧ hexDigitValue (Nat.digitChar n) = n := by
  have key : ∀ n < 16, Nat.digitChar n ∈ hexDigits ∧ hexDigitValue (Nat.digitChar n) = n := by
    decide
  exact key n h

/-- **A printed buffer is read back.** -/
@[simp] theorem bufferFromHex_bufferToHex (b : Bytes) : bufferFromHex (bufferToHex b) = b := by
  induction b with
  | nil => rfl
  | cons x b ih =>
      have hlt := x.toNat_lt
      obtain ⟨hhigh, hhighValue⟩ := hexDigitValue_digitChar (n := x.toNat / 16) (by omega)
      obtain ⟨hlow, hlowValue⟩ := hexDigitValue_digitChar (n := x.toNat % 16) (by omega)
      have hbyte : UInt8.ofNat (16 * (x.toNat / 16) + x.toNat % 16) = x := by
        rw [Nat.div_add_mod, UInt8.ofNat_toNat]
      rw [bufferToHex_cons, bufferFromHex, if_pos ⟨hhigh, hlow⟩, hhighValue, hlowValue, hbyte, ih]

theorem bufferToHex_injective {a b : Bytes} (h : bufferToHex a = bufferToHex b) : a = b := by
  have hread := congrArg bufferFromHex h
  simpa using hread

end Js
