/-
**Decoding UTF-8 byte by byte.**

`Buffer.toString()` decodes the bytes of a buffer.  The decoder reads one byte after the other and
remembers, in the middle of a character, the bits so far, how many bytes are to come and between
which bounds the next one must lie.  Where a byte does not fit, U+FFFD stands for what was read of
the character, and the byte is read anew; at the end of the buffer U+FFFD stands for a character
that is not complete.

So a text that is cut inside a character and decoded in two pieces is not the text: each of the
pieces has something in place of the character.

Main definitions:

* `Js.Pending` — the decoder in the middle of a character; `Js.readByte` — one byte;
* `Js.decodeText`, `Js.bufferToString` — decoding;
* `Js.isContinuation` — the bytes inside of a character.

Main results:

* `Js.bufferToString_utf8` — **decoding undoes encoding**;
* `Js.length_decodeText` — every byte that is not inside of a character begins one;
* `Js.flatMap_bufferToString_iff` — **a text that is decoded in pieces is the text exactly if every
  piece is the encoding of a text**;
* `Js.decodeText_newline` — a line break ends whatever was being read.
-/

import MedorCoin.Js.Bytes
import Mathlib.Algebra.BigOperators.Group.List.Basic

set_option autoImplicit false

namespace Js

/-! ### The decoder -/

/-- The decoder in the middle of a character: the bits so far, the number of bytes to come, and the
bounds of the next one.  The character will not be one of ASCII. -/
structure Pending where
  code : ℕ
  needed : ℕ
  lower : ℕ
  upper : ℕ
  needed_pos : 0 < needed
  lower_ge : 0x80 ≤ lower
  upper_le : upper ≤ 0xBF
  wide : 128 ≤ (code * 64 + (lower - 0x80)) * 64 ^ (needed - 1)

/-- The character that stands for bytes which are no text. -/
def replacement : Char := Char.ofNat 0xFFFD

/-- What stands for a character that is not complete. -/
def flush : Option Pending → Str
  | none => []
  | some _ => [replacement]

/-- A byte where a character begins. -/
def firstByte (b : UInt8) : Str × Option Pending :=
  if b.toNat < 0x80 then ([Char.ofNat b.toNat], none)
  else if h : 0xC2 ≤ b.toNat ∧ b.toNat ≤ 0xDF then
    ([], some ⟨b.toNat - 0xC0, 1, 0x80, 0xBF, by decide, le_rfl, le_rfl, by omega⟩)
  else if h : 0xE0 ≤ b.toNat ∧ b.toNat ≤ 0xEF then
    ([], some ⟨b.toNat - 0xE0, 2, if b.toNat = 0xE0 then 0xA0 else 0x80,
      if b.toNat = 0xED then 0x9F else 0xBF, by decide, by split <;> omega, by split <;> omega,
      by split <;> omega⟩)
  else if h : 0xF0 ≤ b.toNat ∧ b.toNat ≤ 0xF4 then
    ([], some ⟨b.toNat - 0xF0, 3, if b.toNat = 0xF0 then 0x90 else 0x80,
      if b.toNat = 0xF4 then 0x8F else 0xBF, by decide, by split <;> omega, by split <;> omega,
      by split <;> omega⟩)
  else ([replacement], none)

/-- The decoder after a byte that fits, with more to come. -/
def Pending.next (p : Pending) (n : ℕ) (hlower : p.lower ≤ n) (hneeded : p.needed ≠ 1) :
    Pending where
  code := p.code * 64 + (n - 0x80)
  needed := p.needed - 1
  lower := 0x80
  upper := 0xBF
  needed_pos := by
    have := p.needed_pos
    omega
  lower_ge := le_rfl
  upper_le := le_rfl
  wide := by
    obtain ⟨k, hk⟩ : ∃ k, p.needed = k + 2 := ⟨p.needed - 2, by have := p.needed_pos; omega⟩
    have hwide := p.wide
    simp only [hk, Nat.add_one_sub_one, Nat.sub_self, Nat.add_zero] at hwide ⊢
    refine hwide.trans ?_
    calc (p.code * 64 + (p.lower - 0x80)) * 64 ^ (k + 1)
        ≤ (p.code * 64 + (n - 0x80)) * 64 ^ (k + 1) := Nat.mul_le_mul_right _ (by omega)
      _ = (p.code * 64 + (n - 0x80)) * 64 * 64 ^ k := by
          rw [pow_succ, Nat.mul_comm (64 ^ k), Nat.mul_assoc]

/-- One byte: what comes of it, and the decoder after it. -/
def readByte : Option Pending → UInt8 → Str × Option Pending
  | none, b => firstByte b
  | some p, b =>
      if h : p.lower ≤ b.toNat ∧ b.toNat ≤ p.upper then
        if hneeded : p.needed = 1 then ([Char.ofNat (p.code * 64 + (b.toNat - 0x80))], none)
        else ([], some (p.next b.toNat h.1 hneeded))
      else (replacement :: (firstByte b).1, (firstByte b).2)

/-- The text of the bytes from some moment on. -/
def decodeText : Option Pending → Bytes → Str
  | p, [] => flush p
  | p, b :: bs => (readByte p b).1 ++ decodeText (readByte p b).2 bs

/-- `buffer.toString()`. -/
def bufferToString (b : Bytes) : Str := decodeText none b

/-! ### Decoding undoes encoding -/

theorem readByte_last {p : Pending} {b : UInt8} (h : p.lower ≤ b.toNat ∧ b.toNat ≤ p.upper)
    (hneeded : p.needed = 1) :
    readByte (some p) b = ([Char.ofNat (p.code * 64 + (b.toNat - 0x80))], none) := by
  rw [readByte, dif_pos h, dif_pos hneeded]

theorem readByte_more {p : Pending} {b : UInt8} (h : p.lower ≤ b.toNat ∧ b.toNat ≤ p.upper)
    (hneeded : p.needed ≠ 1) :
    readByte (some p) b = ([], some (p.next b.toNat h.1 hneeded)) := by
  rw [readByte, dif_pos h, dif_neg hneeded]

theorem readByte_misfit {p : Pending} {b : UInt8} (h : ¬ (p.lower ≤ b.toNat ∧ b.toNat ≤ p.upper)) :
    readByte (some p) b = (replacement :: (firstByte b).1, (firstByte b).2) := by
  rw [readByte, dif_neg h]

theorem decodeText_pending {p : Pending} (ds : List ℕ) (t : Bytes) (hlen : ds.length = p.needed)
    (hds : ∀ d ∈ ds, d < 64)
    (hfirst : ∀ d, ds.head? = some d → p.lower ≤ d + 0x80 ∧ d + 0x80 ≤ p.upper) :
    decodeText (some p) (ds.map (fun d => UInt8.ofNat (d + 0x80)) ++ t) =
      Char.ofNat (ds.foldl (fun n d => n * 64 + d) p.code) :: decodeText none t := by
  induction ds generalizing p with
  | nil => exact absurd hlen (Nat.ne_of_lt p.needed_pos)
  | cons d ds ih =>
      have hd := hds d List.mem_cons_self
      have hbyte : (UInt8.ofNat (d + 0x80)).toNat = d + 0x80 := by
        rw [UInt8.toNat_ofNat']
        omega
      have hfits : p.lower ≤ (UInt8.ofNat (d + 0x80)).toNat ∧
          (UInt8.ofNat (d + 0x80)).toNat ≤ p.upper := by
        rw [hbyte]
        exact hfirst d rfl
      have hadded : d + 0x80 - 0x80 = d := Nat.add_sub_cancel d 0x80
      rw [List.map_cons, List.cons_append, decodeText]
      rw [List.length_cons] at hlen
      by_cases hneeded : p.needed = 1
      · obtain rfl : ds = [] := List.length_eq_zero_iff.1 (by omega)
        rw [readByte_last hfits hneeded, hbyte, hadded]
        rfl
      · rw [readByte_more hfits hneeded, List.nil_append, List.foldl_cons,
          ih (by change ds.length = p.needed - 1; omega)
            (fun d' hd' => hds d' (List.mem_cons_of_mem _ hd'))]
        · change Char.ofNat (ds.foldl _ (p.code * 64 + _)) :: _ = _
          rw [hbyte, hadded]
        · intro d' hd'
          have hlt := hds d' (List.mem_cons_of_mem _ (List.mem_of_head? hd'))
          change 0x80 ≤ d' + 0x80 ∧ d' + 0x80 ≤ 0xBF
          omega

theorem firstByte_one {b : UInt8} (h : b.toNat < 0x80) :
    firstByte b = ([Char.ofNat b.toNat], none) := by
  rw [firstByte, if_pos h]

theorem firstByte_two {b : UInt8} (h : 0xC2 ≤ b.toNat ∧ b.toNat ≤ 0xDF) :
    ∃ p, firstByte b = ([], some p) ∧ p.code = b.toNat - 0xC0 ∧ p.needed = 1 ∧
      p.lower = 0x80 ∧ p.upper = 0xBF := by
  rw [firstByte, if_neg (by omega), dif_pos h]
  exact ⟨_, rfl, rfl, rfl, rfl, rfl⟩

theorem firstByte_three {b : UInt8} (h : 0xE0 ≤ b.toNat ∧ b.toNat ≤ 0xEF) :
    ∃ p, firstByte b = ([], some p) ∧ p.code = b.toNat - 0xE0 ∧ p.needed = 2 ∧
      p.lower = (if b.toNat = 0xE0 then 0xA0 else 0x80) ∧
      p.upper = (if b.toNat = 0xED then 0x9F else 0xBF) := by
  rw [firstByte, if_neg (by omega), dif_neg (by omega), dif_pos h]
  exact ⟨_, rfl, rfl, rfl, rfl, rfl⟩

theorem firstByte_four {b : UInt8} (h : 0xF0 ≤ b.toNat ∧ b.toNat ≤ 0xF4) :
    ∃ p, firstByte b = ([], some p) ∧ p.code = b.toNat - 0xF0 ∧ p.needed = 3 ∧
      p.lower = (if b.toNat = 0xF0 then 0x90 else 0x80) ∧
      p.upper = (if b.toNat = 0xF4 then 0x8F else 0xBF) := by
  rw [firstByte, if_neg (by omega), dif_neg (by omega), dif_neg (by omega), dif_pos h]
  exact ⟨_, rfl, rfl, rfl, rfl, rfl⟩

theorem decodeText_first {b : UInt8} {p : Pending} (hp : firstByte b = ([], some p)) (ds : List ℕ)
    (t : Bytes) (hlen : ds.length = p.needed) (hds : ∀ d ∈ ds, d < 64)
    (hfirst : ∀ d, ds.head? = some d → p.lower ≤ d + 0x80 ∧ d + 0x80 ≤ p.upper) :
    decodeText none (b :: (ds.map (fun d => UInt8.ofNat (d + 0x80)) ++ t)) =
      Char.ofNat (ds.foldl (fun n d => n * 64 + d) p.code) :: decodeText none t := by
  rw [decodeText, readByte, hp, List.nil_append]
  exact decodeText_pending ds t hlen hds hfirst

/-- **One encoded character.**  The bounds on its second byte leave out the encodings that are too
long, the surrogates and what is above the last character. -/
theorem decodeText_utf8EncodeChar_append (c : Char) (t : Bytes) :
    decodeText none (String.utf8EncodeChar c ++ t) = c :: decodeText none t := by
  have hvalid : c.val.toNat < 0xD800 ∨ 0xDFFF < c.val.toNat ∧ c.val.toNat < 0x110000 := c.valid
  have hchar : Char.ofNat c.val.toNat = c := Char.ofNat_toNat c
  simp only [String.utf8EncodeChar]
  generalize c.val.toNat = v at hvalid hchar
  split_ifs with h₁ h₂ h₃
  · have hb : (UInt8.ofNat v).toNat = v := by
      rw [UInt8.toNat_ofNat']
      omega
    rw [List.singleton_append, decodeText, readByte, firstByte_one (by omega), hb, hchar]
    rfl
  · have hb : (UInt8.ofNat (v / 64 % 0x20 + 0xC0)).toNat = v / 64 + 0xC0 := by
      rw [UInt8.toNat_ofNat']
      omega
    obtain ⟨p, hp, hcode, hneeded, hlower, hupper⟩ :=
      firstByte_two (b := UInt8.ofNat (v / 64 % 0x20 + 0xC0)) (by omega)
    refine (decodeText_first hp [v % 64] t (by rw [hneeded]; rfl) ?_ ?_).trans ?_
    · intro d hd
      rw [List.mem_singleton] at hd
      omega
    · rintro d ⟨⟩
      omega
    · rw [List.foldl_cons, List.foldl_nil, hcode, hb, Nat.add_sub_cancel,
        show v / 64 * 64 + v % 64 = v by omega, hchar]
  · have hb : (UInt8.ofNat (v / 4096 % 0x10 + 0xE0)).toNat = v / 4096 + 0xE0 := by
      rw [UInt8.toNat_ofNat']
      omega
    obtain ⟨p, hp, hcode, hneeded, hlower, hupper⟩ :=
      firstByte_three (b := UInt8.ofNat (v / 4096 % 0x10 + 0xE0)) (by omega)
    refine (decodeText_first hp [v / 64 % 64, v % 64] t (by rw [hneeded]; rfl) ?_ ?_).trans ?_
    · intro d hd
      simp only [List.mem_cons, List.not_mem_nil, or_false] at hd
      omega
    · rintro d ⟨⟩
      rw [hlower, hupper, hb]
      constructor
      · split <;> omega
      · split <;> omega
    · rw [List.foldl_cons, List.foldl_cons, List.foldl_nil, hcode, hb, Nat.add_sub_cancel,
        show (v / 4096 * 64 + v / 64 % 64) * 64 + v % 64 = v by omega, hchar]
  · have hb : (UInt8.ofNat (v / 262144 % 0x08 + 0xF0)).toNat = v / 262144 + 0xF0 := by
      rw [UInt8.toNat_ofNat']
      omega
    obtain ⟨p, hp, hcode, hneeded, hlower, hupper⟩ :=
      firstByte_four (b := UInt8.ofNat (v / 262144 % 0x08 + 0xF0)) (by omega)
    refine (decodeText_first hp [v / 4096 % 64, v / 64 % 64, v % 64] t
      (by rw [hneeded]; rfl) ?_ ?_).trans ?_
    · intro d hd
      simp only [List.mem_cons, List.not_mem_nil, or_false] at hd
      omega
    · rintro d ⟨⟩
      rw [hlower, hupper, hb]
      constructor
      · split <;> omega
      · split <;> omega
    · rw [List.foldl_cons, List.foldl_cons, List.foldl_cons, List.foldl_nil, hcode, hb,
        Nat.add_sub_cancel, show ((v / 262144 * 64 + v / 4096 % 64) * 64 + v / 64 % 64) * 64 +
          v % 64 = v by omega, hchar]

theorem decodeText_utf8_append (s : Str) (t : Bytes) :
    decodeText none (utf8 s ++ t) = s ++ decodeText none t := by
  induction s with
  | nil => rfl
  | cons c s ih =>
      rw [utf8_cons, List.append_assoc, decodeText_utf8EncodeChar_append, ih, List.cons_append]

/-- **Decoding undoes encoding.** -/
@[simp] theorem bufferToString_utf8 (s : Str) : bufferToString (utf8 s) = s := by
  have h := decodeText_utf8_append s []
  rwa [List.append_nil, decodeText, flush, List.append_nil] at h

theorem utf8_injective {s t : Str} (h : utf8 s = utf8 t) : s = t := by
  rw [← bufferToString_utf8 s, h, bufferToString_utf8]

/-! ### How many characters there are -/

/-- A byte inside of a character. -/
def isContinuation (b : UInt8) : Bool := 0x80 ≤ b.toNat && b.toNat < 0xC0

/-- The bytes that begin a character. -/
def starts (b : Bytes) : ℕ := b.countP fun x => !isContinuation x

/-- A character that is being read is one. -/
def pendingLength : Option Pending → ℕ
  | none => 0
  | some _ => 1

theorem length_flush (p : Option Pending) : (flush p).length = pendingLength p := by
  cases p with
  | none => rfl
  | some p => rfl

theorem length_firstByte (b : UInt8) :
    (firstByte b).1.length + pendingLength (firstByte b).2 = 1 := by
  unfold firstByte
  split_ifs <;> rfl

theorem length_readByte (p : Option Pending) (b : UInt8) :
    pendingLength p + starts [b] ≤
      (readByte p b).1.length + pendingLength (readByte p b).2 := by
  have hle : starts [b] ≤ 1 := List.countP_le_length
  have hfirst := length_firstByte b
  cases p with
  | none =>
      rw [readByte, hfirst]
      exact (Nat.zero_add _).trans_le hle
  | some p =>
      by_cases hfits : p.lower ≤ b.toNat ∧ b.toNat ≤ p.upper
      · have hcont : starts [b] = 0 := by
          have hlower := p.lower_ge
          have hupper := p.upper_le
          rw [starts, List.countP_singleton]
          refine if_neg ?_
          simp only [isContinuation, Bool.not_eq_true', Bool.not_eq_false, Bool.and_eq_true,
            decide_eq_true_eq]
          omega
        rw [hcont]
        by_cases hneeded : p.needed = 1
        · rw [readByte_last hfits hneeded]
          rfl
        · rw [readByte_more hfits hneeded]
          rfl
      · rw [readByte_misfit hfits, List.length_cons]
        change 1 + starts [b] ≤ (firstByte b).1.length + 1 + pendingLength (firstByte b).2
        omega

/-- **Every byte that is not inside of a character begins one.** -/
theorem length_decodeText (p : Option Pending) (b : Bytes) :
    pendingLength p + starts b ≤ (decodeText p b).length := by
  induction b generalizing p with
  | nil => exact (length_flush p).ge
  | cons x b ih =>
      have hstep := length_readByte p x
      have hrest := ih (readByte p x).2
      have hcons : starts (x :: b) = starts [x] + starts b := by
        rw [starts, ← List.singleton_append, List.countP_append]
        rfl
      rw [decodeText, List.length_append]
      omega

theorem length_decodeText_of_continuation {x : UInt8} {b : Bytes} (h : isContinuation x = true) :
    starts (x :: b) < (decodeText none (x :: b)).length := by
  have hcons : starts (x :: b) = starts b := List.countP_cons_of_neg (by simp [h])
  have hfirst := length_firstByte x
  have hrest := length_decodeText (firstByte x).2 b
  rw [decodeText, readByte, List.length_append]
  omega

theorem utf8EncodeChar_eq (c : Char) : ∃ x conts, String.utf8EncodeChar c = x :: conts ∧
    isContinuation x = false ∧ ∀ y ∈ conts, isContinuation y = true := by
  have hvalid : c.val.toNat < 0x110000 := by
    have := c.valid
    simp only [UInt32.isValidChar, Nat.isValidChar] at this
    omega
  have hnot {n : ℕ} (h : n < 256) (h' : n < 0x80 ∨ 0xC0 ≤ n) :
      isContinuation (UInt8.ofNat n) = false := by
    rw [isContinuation, UInt8.toNat_ofNat', Nat.mod_eq_of_lt h]
    simp only [Bool.and_eq_false_iff, decide_eq_false_iff_not]
    omega
  have hcont (n : ℕ) : isContinuation (UInt8.ofNat (n % 0x40 + 0x80)) = true := by
    rw [isContinuation, UInt8.toNat_ofNat']
    simp only [Bool.and_eq_true, decide_eq_true_eq]
    omega
  simp only [String.utf8EncodeChar]
  split_ifs
  · exact ⟨_, _, rfl, hnot (by omega) (by omega), fun y hy => absurd hy List.not_mem_nil⟩
  · exact ⟨_, _, rfl, hnot (by omega) (by omega), List.forall_mem_singleton.2 (hcont _)⟩
  · exact ⟨_, _, rfl, hnot (by omega) (by omega),
      List.forall_mem_cons.2 ⟨hcont _, List.forall_mem_singleton.2 (hcont _)⟩⟩
  · exact ⟨_, _, rfl, hnot (by omega) (by omega), List.forall_mem_cons.2 ⟨hcont _,
      List.forall_mem_cons.2 ⟨hcont _, List.forall_mem_singleton.2 (hcont _)⟩⟩⟩

theorem starts_utf8 (s : Str) : starts (utf8 s) = s.length := by
  induction s with
  | nil => rfl
  | cons c s ih =>
      obtain ⟨x, conts, henc, hx, hconts⟩ := utf8EncodeChar_eq c
      have hzero : conts.countP (fun x => !isContinuation x) = 0 :=
        List.countP_eq_zero.2 fun y hy => by simp [hconts y hy]
      rw [utf8_cons, starts, List.countP_append, henc, List.countP_cons_of_pos (by simp [hx]),
        hzero, ← starts, ih, List.length_cons]
      omega

/-! ### Decoding in pieces -/

theorem exists_utf8_of_append {b : Bytes} {x : UInt8} {rest : Bytes} {s : Str}
    (h : b ++ x :: rest = utf8 s) (hx : isContinuation x = false) :
    ∃ s₁ s₂, s = s₁ ++ s₂ ∧ b = utf8 s₁ ∧ x :: rest = utf8 s₂ := by
  induction s generalizing b with
  | nil => exact absurd h (by simp)
  | cons c s ih =>
      obtain ⟨y, conts, henc, -, hconts⟩ := utf8EncodeChar_eq c
      rcases List.eq_nil_or_concat b with rfl | ⟨_, _, hne⟩
      · exact ⟨[], c :: s, rfl, rfl, h⟩
      · have hpos : 0 < b.length := by
          rw [hne, List.length_concat]
          omega
        rw [utf8_cons] at h
        rcases List.append_eq_append_iff.1 h with ⟨q, hq, hrest⟩ | ⟨q, hq, hrest⟩
        · cases q with
          | nil =>
              refine ⟨[c], s, rfl, ?_, ?_⟩
              · rw [List.append_nil] at hq
                rw [← hq, utf8_cons, utf8_nil, List.append_nil]
              · rw [hrest, List.nil_append]
          | cons z q =>
              -- the cut is inside of the character, before a byte of its inside
              rw [List.cons_append, List.cons.injEq] at hrest
              obtain ⟨rfl, -⟩ := hrest
              obtain ⟨b₀, b, rfl⟩ := List.exists_cons_of_length_pos hpos
              rw [henc, List.cons_append, List.cons.injEq] at hq
              have hmem : x ∈ conts := hq.2 ▸ List.mem_append_right _ List.mem_cons_self
              rw [hconts x hmem] at hx
              cases hx
        · obtain ⟨s₁, s₂, rfl, rfl, hs₂⟩ := ih hrest.symm
          exact ⟨c :: s₁, s₂, rfl, by rw [hq, utf8_cons], hs₂⟩

theorem exists_cons_mem_of_flatten {pieces : List Bytes} {x : UInt8} {bs : Bytes}
    (h : pieces.flatten = x :: bs) : ∃ b, x :: b ∈ pieces := by
  induction pieces with
  | nil => cases h
  | cons b pieces ih =>
      rw [List.flatten_cons] at h
      cases b with
      | nil =>
          obtain ⟨b, hmem⟩ := ih h
          exact ⟨b, List.mem_cons_of_mem _ hmem⟩
      | cons y b =>
          rw [List.cons_append, List.cons.injEq] at h
          obtain ⟨rfl, -⟩ := h
          exact ⟨b, List.mem_cons_self⟩

theorem exists_utf8_of_flatten {pieces : List Bytes} {s : Str} (h : pieces.flatten = utf8 s)
    (hpieces : ∀ x b, x :: b ∈ pieces → isContinuation x = false) :
    ∀ piece ∈ pieces, ∃ t, piece = utf8 t := by
  induction pieces generalizing s with
  | nil => exact fun piece hpiece => absurd hpiece List.not_mem_nil
  | cons b pieces ih =>
      have hrest := fun x b' hmem => hpieces x b' (List.mem_cons_of_mem _ hmem)
      rw [List.flatten_cons] at h
      -- where the rest begins, if anything is left
      have hsplit : ∃ s₁ s₂, b = utf8 s₁ ∧ pieces.flatten = utf8 s₂ := by
        cases hflat : pieces.flatten with
        | nil => exact ⟨s, [], by rw [← h, hflat, List.append_nil], rfl⟩
        | cons x bs =>
            obtain ⟨b', hmem⟩ := exists_cons_mem_of_flatten hflat
            have hx := hrest x b' hmem
            rw [hflat] at h
            obtain ⟨s₁, s₂, -, hs₁, hs₂⟩ := exists_utf8_of_append h hx
            exact ⟨s₁, s₂, hs₁, hs₂⟩
      obtain ⟨s₁, s₂, hs₁, hs₂⟩ := hsplit
      intro piece hpiece
      rcases List.mem_cons.1 hpiece with rfl | hpiece
      · exact ⟨s₁, hs₁⟩
      · exact ih hs₂ hrest piece hpiece

/-- Every piece gives at least the characters that begin in it, and one that begins inside of a
character gives more. -/
theorem starts_flatten_le (pieces : List Bytes) :
    starts pieces.flatten ≤ (pieces.flatMap bufferToString).length ∧
      ((∃ x b, x :: b ∈ pieces ∧ isContinuation x = true) →
        starts pieces.flatten < (pieces.flatMap bufferToString).length) := by
  induction pieces with
  | nil => exact ⟨le_rfl, fun ⟨x, b, hmem, _⟩ => absurd hmem List.not_mem_nil⟩
  | cons piece pieces ih =>
      have hpiece : starts piece ≤ (bufferToString piece).length :=
        (Nat.zero_add _).ge.trans (length_decodeText none piece)
      have happend : starts (piece :: pieces).flatten = starts piece + starts pieces.flatten := by
        rw [List.flatten_cons, starts, List.countP_append]
        rfl
      rw [happend, List.flatMap_cons, List.length_append]
      refine ⟨Nat.add_le_add hpiece ih.1, ?_⟩
      rintro ⟨x, b, hmem, hx⟩
      rcases List.mem_cons.1 hmem with rfl | hmem
      · exact Nat.add_lt_add_of_lt_of_le (length_decodeText_of_continuation hx) ih.1
      · exact Nat.add_lt_add_of_le_of_lt hpiece (ih.2 ⟨x, b, hmem, hx⟩)

/-- **A text that is decoded in pieces is the text exactly if every piece is the encoding of a
text.**  Where a character is cut there are too many characters. -/
theorem flatMap_bufferToString_iff {pieces : List Bytes} {s : Str}
    (h : pieces.flatten = utf8 s) :
    pieces.flatMap bufferToString = s ↔ ∀ piece ∈ pieces, ∃ t, piece = utf8 t := by
  constructor
  · intro hdecode
    refine exists_utf8_of_flatten h fun x b hmem => ?_
    by_contra hx
    rw [Bool.not_eq_false] at hx
    have hlt := (starts_flatten_le pieces).2 ⟨x, b, hmem, hx⟩
    rw [h, starts_utf8, hdecode] at hlt
    exact lt_irrefl _ hlt
  · intro hpieces
    refine utf8_injective (Eq.trans ?_ h)
    clear h
    induction pieces with
    | nil => rfl
    | cons piece pieces ih =>
        obtain ⟨t, rfl⟩ := hpieces piece List.mem_cons_self
        rw [List.flatMap_cons, List.flatten_cons, bufferToString_utf8, utf8_append,
          ih fun piece hpiece => hpieces piece (List.mem_cons_of_mem _ hpiece)]

/-! ### Line breaks -/

theorem replacement_ne_newline : replacement ≠ '\n' := by decide

theorem newline_not_mem_flush (p : Option Pending) : '\n' ∉ flush p := by
  cases p with
  | none => exact List.not_mem_nil
  | some p => exact fun h => replacement_ne_newline (List.mem_singleton.1 h).symm

theorem ofNat_ne_newline {n : ℕ} (h : 128 ≤ n) : Char.ofNat n ≠ '\n' := by
  intro heq
  by_cases hvalid : n.isValidChar
  · rw [Char.ofNat, dif_pos hvalid] at heq
    have hten : n = 10 := congrArg Char.toNat heq
    omega
  · rw [Char.ofNat, dif_neg hvalid] at heq
    cases heq

theorem firstByte_of_ge {b : UInt8} (h : ¬ b.toNat < 0x80) :
    (firstByte b).1 = [] ∨ (firstByte b).1 = [replacement] := by
  by_cases h₂ : 0xC2 ≤ b.toNat ∧ b.toNat ≤ 0xDF
  · obtain ⟨p, hp, -⟩ := firstByte_two h₂
    exact .inl (by rw [hp])
  by_cases h₃ : 0xE0 ≤ b.toNat ∧ b.toNat ≤ 0xEF
  · obtain ⟨p, hp, -⟩ := firstByte_three h₃
    exact .inl (by rw [hp])
  by_cases h₄ : 0xF0 ≤ b.toNat ∧ b.toNat ≤ 0xF4
  · obtain ⟨p, hp, -⟩ := firstByte_four h₄
    exact .inl (by rw [hp])
  · exact .inr (by rw [firstByte, if_neg h, dif_neg h₂, dif_neg h₃, dif_neg h₄])

theorem count_newline_firstByte (b : UInt8) :
    (firstByte b).1.count '\n' = if b = 10 then 1 else 0 := by
  by_cases hlt : b.toNat < 0x80
  · have key : ∀ n < 0x80, [Char.ofNat n].count '\n' = if n = 10 then 1 else 0 := by decide
    have hten : b.toNat = 10 ↔ b = 10 := UInt8.toNat_inj (b := 10)
    rw [firstByte_one hlt, key b.toNat hlt]
    exact if_congr hten rfl rfl
  · have hne : b ≠ 10 := by
      rintro rfl
      exact hlt (by decide)
    rw [if_neg hne]
    rcases firstByte_of_ge hlt with hnil | hreplaced
    · rw [hnil]
      rfl
    · rw [hreplaced]
      rfl

theorem count_newline_readByte (p : Option Pending) (b : UInt8) :
    (readByte p b).1.count '\n' = if b = 10 then 1 else 0 := by
  cases p with
  | none => exact count_newline_firstByte b
  | some p =>
      by_cases hfits : p.lower ≤ b.toNat ∧ b.toNat ≤ p.upper
      · have hne : b ≠ 10 := by
          rintro rfl
          have hlower := p.lower_ge
          have hten : (10 : UInt8).toNat = 10 := rfl
          omega
        rw [if_neg hne]
        by_cases hneeded : p.needed = 1
        · rw [readByte_last hfits hneeded]
          refine List.count_eq_zero.2 fun hmem =>
            ofNat_ne_newline ?_ (List.mem_singleton.1 hmem).symm
          have hwide := p.wide
          rw [hneeded, Nat.sub_self, pow_zero, Nat.mul_one] at hwide
          omega
        · rw [readByte_more hfits hneeded]
          rfl
      · rw [readByte_misfit hfits, List.count_cons_of_ne replacement_ne_newline]
        exact count_newline_firstByte b

theorem count_newline_decodeText (p : Option Pending) (b : Bytes) :
    (decodeText p b).count '\n' = b.count 10 := by
  induction b generalizing p with
  | nil => exact List.count_eq_zero.2 (newline_not_mem_flush p)
  | cons x b ih =>
      rw [decodeText, List.count_append, ih, count_newline_readByte, List.count_cons, Nat.add_comm]
      simp only [beq_iff_eq]

theorem count_newline_flatMap (pieces : List Bytes) :
    (pieces.flatMap bufferToString).count '\n' = pieces.flatten.count 10 := by
  induction pieces with
  | nil => rfl
  | cons piece pieces ih =>
      rw [List.flatMap_cons, List.flatten_cons, List.count_append, List.count_append, ih,
        bufferToString, count_newline_decodeText]

/-- **A line break ends whatever was being read.** -/
theorem readByte_newline (p : Option Pending) : readByte p 10 = (flush p ++ ['\n'], none) := by
  have hfirst : firstByte 10 = (['\n'], none) := firstByte_one (by decide)
  cases p with
  | none => exact hfirst
  | some p =>
      have hlower := p.lower_ge
      have hten : (10 : UInt8).toNat = 10 := rfl
      rw [readByte_misfit (by omega), hfirst]
      rfl

theorem decodeText_newline (p : Option Pending) (b t : Bytes) :
    decodeText p (b ++ 10 :: t) = decodeText p b ++ '\n' :: decodeText none t := by
  induction b generalizing p with
  | nil =>
      rw [List.nil_append, decodeText, decodeText, readByte_newline, List.append_assoc]
      rfl
  | cons x b ih => rw [List.cons_append, decodeText, ih, decodeText, List.append_assoc]

theorem exists_of_flatten_newline {pieces : List Bytes} {b : Bytes}
    (h : pieces.flatten = b ++ [10]) :
    ∃ s, pieces.flatMap bufferToString = s ++ ['\n'] := by
  induction pieces generalizing b with
  | nil => exact absurd h.symm (by simp)
  | cons piece pieces ih =>
      rw [List.flatten_cons] at h
      rw [List.flatMap_cons]
      rcases List.eq_nil_or_concat pieces.flatten with hnil | ⟨rest, x, hrest⟩
      · -- the line break is the end of this piece
        have hpieces : pieces.flatMap bufferToString = [] := by
          rw [List.flatMap_eq_nil_iff]
          intro piece' hpiece'
          rw [List.flatten_eq_nil_iff.1 hnil piece' hpiece']
          rfl
        rw [hnil, List.append_nil] at h
        rw [hpieces, List.append_nil, h]
        exact ⟨bufferToString b, decodeText_newline none b []⟩
      · rw [List.concat_eq_append] at hrest
        rw [hrest, ← List.append_assoc] at h
        obtain ⟨-, hx⟩ := List.append_inj_right' h rfl
        obtain ⟨s, hs⟩ := ih hrest
        exact ⟨bufferToString piece ++ s, by rw [hs, List.append_assoc]⟩

end Js
