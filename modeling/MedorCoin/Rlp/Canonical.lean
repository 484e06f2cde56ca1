/-
**Encodings that are longer than they have to be.**

An encoding is to be the only one of its value.  The decoders refuse a long header for a length
below 56, but not a header for a single byte below `0x80`, nor a length that begins with a zero; and
a single zero byte is read as the integer zero, which is encoded as the empty string.

Main definitions:

* `Rlp.skip`, `Rlp.starts` — **the places where an element begins**, found from the headers alone;
* `Rlp.Minimal` — the header in a place is no longer than it has to be;
* `Rlp.extent` — the length of the first element;
* `Rlp.CanonicalAt` — all headers of the element at an offset are minimal.

Main results:

* `Rlp.starts_lenient` — by induction on the grammar: the headers are minimal exactly if the bytes
  are the encoding;
* `Rlp.decode_canonical` — **what is decoded is the encoding exactly if its headers are minimal**;
* `Rlp.decode_canonical_single` — the byte `0x05` has two encodings.
-/

import MedorCoin.Rlp.Grammar
import Mathlib.Algebra.Order.BigOperators.Group.List

set_option autoImplicit false

namespace Rlp

open Cpp

/-! ### Headers -/

/-- The number of bytes from the beginning of an element to that of the next, without the first:
behind the payload of a byte string, and behind the header of a list. -/
def skip (first : UInt8) (rest : List UInt8) : ℕ :=
  if first < 0x80 then 0
  else if first ≤ 0xB7 then first.toNat - 0x80
  else if first < 0xC0 then
    first.toNat - 0xB7 + readBE (rest.take (first.toNat - 0xB7))
  else if first ≤ 0xF7 then 0
  else first.toNat - 0xF7

/-- **The places where an element begins**, nested ones included: what is left of the bytes
there. -/
def starts : List UInt8 → List (List UInt8)
  | [] => []
  | first :: rest => (first :: rest) :: starts (rest.drop (skip first rest))
termination_by w => w.length
decreasing_by
  rw [List.length_drop, List.length_cons]
  omega

/-- **The header is no longer than it has to be**: it is not that of a single byte below `0x80`, and
a length in bytes of its own does not begin with a zero. -/
def Minimal : List UInt8 → Prop
  | first :: next :: _ =>
      (first = 0x81 → 0x80 ≤ next) ∧
        ((0xB7 < first ∧ first < 0xC0) ∨ 0xF7 < first → next ≠ 0)
  | _ => True

/-- All headers are minimal. -/
def AllMinimal (w : List UInt8) : Prop := ∀ place ∈ starts w, Minimal place

/-- The length of the first element, from its header. -/
def extent : List UInt8 → ℕ
  | [] => 0
  | first :: rest =>
      if first < 0xC0 then 1 + skip first rest
      else if first ≤ 0xF7 then 1 + (first.toNat - 0xC0)
      else 1 + (first.toNat - 0xF7) + readBE (rest.take (first.toNat - 0xF7))

/-- **All headers of the element at an offset are minimal**, those of its elements included. -/
def CanonicalAt (data : List UInt8) (offset : ℕ) : Prop :=
  AllMinimal ((data.drop offset).take (extent (data.drop offset)))

theorem starts_nil : starts [] = [] := by
  rw [starts]

theorem starts_cons (first : UInt8) (rest : List UInt8) :
    starts (first :: rest) = (first :: rest) :: starts (rest.drop (skip first rest)) := by
  rw [starts]

theorem allMinimal_nil : AllMinimal [] := by
  intro place hplace
  rw [starts_nil] at hplace
  exact absurd hplace List.not_mem_nil

theorem allMinimal_cons (first : UInt8) (rest : List UInt8) :
    AllMinimal (first :: rest) ↔
      Minimal (first :: rest) ∧ AllMinimal (rest.drop (skip first rest)) := by
  rw [AllMinimal, starts_cons]
  simp only [List.mem_cons, forall_eq_or_imp]
  rfl

theorem LengthBytes.eq_encodeLength_iff {base : UInt8} {len : ℕ} {header : List UInt8}
    (h : LengthBytes base len header) :
    encodeLength len base = header ↔ header.tail.head? ≠ some 0 := by
  cases h with
  | short hlen =>
      rw [encodeLength_of_lt hlen]
      simp
  | @long digits hlength hvalue =>
      rw [encodeLength_of_le hvalue, List.tail_cons]
      constructor
      · intro heq
        rw [← (List.cons.inj heq).2]
        exact head?_minimalBE _
      · intro hhead
        rw [minimalBE_readBE hhead]

theorem LengthBytes.length_encodeLength_le {base : UInt8} {len : ℕ} {header : List UInt8}
    (h : LengthBytes base len header) : (encodeLength len base).length ≤ header.length := by
  cases h with
  | short hlen => rw [encodeLength_of_lt hlen]
  | long hlength hvalue =>
      rw [encodeLength_of_le hvalue, List.length_cons, List.length_cons]
      exact Nat.succ_le_succ (length_minimalBE_le (readBE_lt _))

theorem toNat_short (base : UInt8) (hmax : base.toNat + 63 < 256) {len : ℕ} (h : len < 56) :
    (base + UInt8.ofNat len).toNat = base.toNat + len := by
  rw [UInt8.toNat_add, toNat_ofNat_byte]
  omega

theorem toNat_long (base : UInt8) (hmax : base.toNat + 63 < 256) {n : ℕ} (h : n ≤ 8) :
    (base + 55 + UInt8.ofNat n).toNat = base.toNat + 55 + n := by
  have h55 : (55 : UInt8).toNat = 55 := rfl
  rw [UInt8.toNat_add, UInt8.toNat_add, toNat_ofNat_byte]
  omega

theorem ne_nil_of_le_readBE {digits : List UInt8} (h : 56 ≤ readBE digits) :
    0 < digits.length := by
  rw [List.length_pos_iff]
  rintro rfl
  exact absurd h (by decide)

theorem minimal_small {b : UInt8} (hb : b < 0x80) (rest : List UInt8) : Minimal (b :: rest) := by
  have h80 : (0x80 : UInt8).toNat = 128 := rfl
  have hb7 : (0xB7 : UInt8).toNat = 183 := rfl
  have hf7 : (0xF7 : UInt8).toNat = 247 := rfl
  rw [UInt8.lt_iff_toNat_lt] at hb
  cases rest with
  | nil => trivial
  | cons x rest =>
      refine ⟨fun hone => ?_, fun hbig => ?_⟩
      · rw [hone] at hb
        exact absurd hb (by decide)
      · simp only [UInt8.lt_iff_toNat_lt] at hbig
        omega

theorem encodeBytes_eq_iff {header b : List UInt8} (h : LengthBytes 0x80 b.length header) :
    encodeBytes b = header ++ b ↔
      header.tail.head? ≠ some 0 ∧ ¬ (b.length = 1 ∧ b.headD 0 < 0x80) := by
  rw [← h.eq_encodeLength_iff, encodeBytes]
  have hpos := h.length_pos
  by_cases hsingle : b.length = 1 ∧ b.headD 0 < 0x80
  · rw [if_pos hsingle]
    refine ⟨fun heq => ?_, fun hnot => absurd hsingle hnot.2⟩
    have hlength := congrArg List.length heq
    rw [List.length_singleton, List.length_append] at hlength
    omega
  · rw [if_neg hsingle]
    exact ⟨fun heq => ⟨List.append_cancel_right heq, hsingle⟩, fun heq => by rw [heq.1]⟩

theorem minimal_bytes {header b : List UInt8} (h : LengthBytes 0x80 b.length header)
    (rest : List UInt8) :
    Minimal (header ++ b ++ rest) ↔
      header.tail.head? ≠ some 0 ∧ ¬ (b.length = 1 ∧ b.headD 0 < 0x80) := by
  have h80 : (0x80 : UInt8).toNat = 128 := rfl
  have h81 : (0x81 : UInt8).toNat = 129 := rfl
  have hb7 : (0xB7 : UInt8).toNat = 183 := rfl
  have hc0 : (0xC0 : UInt8).toNat = 192 := rfl
  have hf7 : (0xF7 : UInt8).toNat = 247 := rfl
  generalize hlen : b.length = len at h ⊢
  cases h with
  | short hlt =>
      have hfirst := toNat_short 0x80 (by decide) hlt
      have hbig : ¬ ((0xB7 < 0x80 + UInt8.ofNat len ∧ 0x80 + UInt8.ofNat len < 0xC0) ∨
          0xF7 < 0x80 + UInt8.ofNat len) := by
        simp only [UInt8.lt_iff_toNat_lt, hfirst]
        omega
      have hone : 0x80 + UInt8.ofNat len = 0x81 ↔ len = 1 := by
        rw [← UInt8.toNat_inj, hfirst, h81, h80]
        omega
      cases b with
      | nil =>
          rw [List.length_nil] at hlen
          subst hlen
          cases rest with
          | nil => simp [Minimal]
          | cons x rest => simp [Minimal]
      | cons x b =>
          simp only [List.cons_append, List.nil_append, Minimal, hone, List.tail_cons,
            List.head?_nil, List.headD_cons, ne_eq, reduceCtorEq, not_false_eq_true, true_and,
            not_and, UInt8.not_lt, and_iff_left_iff_imp]
          exact fun _ h => absurd h hbig
  | @long digits hlength hvalue =>
      have hpos := ne_nil_of_le_readBE hvalue
      have hfirst := toNat_long 0x80 (by decide) hlength
      cases digits with
      | nil => exact absurd hpos (by simp)
      | cons d digits =>
          have hbig : (0xB7 < 0x80 + 55 + UInt8.ofNat (d :: digits).length ∧
              0x80 + 55 + UInt8.ofNat (d :: digits).length < 0xC0) ∨
                0xF7 < 0x80 + 55 + UInt8.ofNat (d :: digits).length := by
            simp only [UInt8.lt_iff_toNat_lt, hfirst]
            omega
          have hone : ¬ 0x80 + 55 + UInt8.ofNat (d :: digits).length = 0x81 := by
            rw [← UInt8.toNat_inj, hfirst, h81, h80]
            omega
          have hnot : ¬ readBE (d :: digits) = 1 := by omega
          simp only [List.cons_append, Minimal, hone, false_implies, hbig, forall_const, true_and,
            List.tail_cons, List.head?_cons, ne_eq, Option.some.injEq, hnot, false_and,
            not_false_eq_true, and_true]

theorem skip_bytes {header b : List UInt8} (h : LengthBytes 0x80 b.length header)
    (rest : List UInt8) :
    ∃ first tail, header = first :: tail ∧ 0x80 ≤ first ∧ first < 0xC0 ∧
      skip first (tail ++ b ++ rest) = (tail ++ b).length := by
  have h80 : (0x80 : UInt8).toNat = 128 := rfl
  have hb7 : (0xB7 : UInt8).toNat = 183 := rfl
  have hc0 : (0xC0 : UInt8).toNat = 192 := rfl
  generalize hlen : b.length = len at h
  cases h with
  | short hlt =>
      have hfirst := toNat_short 0x80 (by decide) hlt
      refine ⟨_, [], rfl, ?_, ?_, ?_⟩
      · rw [UInt8.le_iff_toNat_le]
        omega
      · rw [UInt8.lt_iff_toNat_lt]
        omega
      · rw [skip, if_neg, if_pos, hfirst, List.nil_append, hlen]
        · omega
        · rw [UInt8.le_iff_toNat_le]
          omega
        · rw [UInt8.lt_iff_toNat_lt]
          omega
  | @long digits hlength hvalue =>
      have hpos := ne_nil_of_le_readBE hvalue
      have hfirst := toNat_long 0x80 (by decide) hlength
      have hle : 0x80 ≤ 0x80 + 55 + UInt8.ofNat digits.length := by
        rw [UInt8.le_iff_toNat_le]
        omega
      have hlt : 0x80 + 55 + UInt8.ofNat digits.length < 0xC0 := by
        rw [UInt8.lt_iff_toNat_lt]
        omega
      refine ⟨_, digits, rfl, hle, hlt, ?_⟩
      have hdigits : (digits ++ b ++ rest).take digits.length = digits := by
        rw [List.append_assoc, List.take_left]
      have hcount : (0x80 + 55 + UInt8.ofNat digits.length).toNat - 0xB7 = digits.length := by
        omega
      rw [skip, if_neg, if_neg, if_pos hlt, hcount, hdigits, List.length_append, hlen]
      · rw [UInt8.le_iff_toNat_le]
        omega
      · rw [UInt8.lt_iff_toNat_lt]
        omega

theorem starts_bytes {header b : List UInt8} (h : LengthBytes 0x80 b.length header)
    (rest : List UInt8) :
    starts (header ++ b ++ rest) = (header ++ b ++ rest) :: starts rest := by
  obtain ⟨first, tail, rfl, -, -, hskip⟩ := skip_bytes h rest
  rw [List.cons_append, List.cons_append, starts_cons, hskip, List.drop_left]

theorem minimal_list {header : List UInt8} {len : ℕ} (h : LengthBytes 0xC0 len header)
    (rest : List UInt8) : Minimal (header ++ rest) ↔ header.tail.head? ≠ some 0 := by
  have h81 : (0x81 : UInt8).toNat = 129 := rfl
  have hc0 : (0xC0 : UInt8).toNat = 192 := rfl
  have hf7 : (0xF7 : UInt8).toNat = 247 := rfl
  cases h with
  | short hlt =>
      have hfirst := toNat_short 0xC0 (by decide) hlt
      have hbig : ¬ ((0xB7 < 0xC0 + UInt8.ofNat len ∧ 0xC0 + UInt8.ofNat len < 0xC0) ∨
          0xF7 < 0xC0 + UInt8.ofNat len) := by
        simp only [UInt8.lt_iff_toNat_lt, hfirst]
        omega
      have hone : ¬ 0xC0 + UInt8.ofNat len = 0x81 := by
        rw [← UInt8.toNat_inj, hfirst, h81, hc0]
        omega
      cases rest with
      | nil => simp [Minimal]
      | cons x rest =>
          simp only [List.cons_append, List.nil_append, Minimal, hone, false_implies, hbig,
            true_and, List.tail_cons, List.head?_nil, ne_eq, reduceCtorEq, not_false_eq_true]
  | @long digits hlength hvalue =>
      have hpos := ne_nil_of_le_readBE hvalue
      have hfirst := toNat_long 0xC0 (by decide) hlength
      cases digits with
      | nil => exact absurd hpos (by simp)
      | cons d digits =>
          have hbig : (0xB7 < 0xC0 + 55 + UInt8.ofNat (d :: digits).length ∧
              0xC0 + 55 + UInt8.ofNat (d :: digits).length < 0xC0) ∨
                0xF7 < 0xC0 + 55 + UInt8.ofNat (d :: digits).length := by
            simp only [UInt8.lt_iff_toNat_lt, hfirst]
            omega
          have hone : ¬ 0xC0 + 55 + UInt8.ofNat (d :: digits).length = 0x81 := by
            rw [← UInt8.toNat_inj, hfirst, h81, hc0]
            omega
          simp only [List.cons_append, Minimal, hone, false_implies, hbig, forall_const, true_and,
            List.tail_cons, List.head?_cons, ne_eq, Option.some.injEq]

theorem starts_list {header : List UInt8} {len : ℕ} (h : LengthBytes 0xC0 len header)
    (rest : List UInt8) : starts (header ++ rest) = (header ++ rest) :: starts rest := by
  have h80 : (0x80 : UInt8).toNat = 128 := rfl
  have hb7 : (0xB7 : UInt8).toNat = 183 := rfl
  have hc0 : (0xC0 : UInt8).toNat = 192 := rfl
  have hf7 : (0xF7 : UInt8).toNat = 247 := rfl
  cases h with
  | short hlt =>
      have hfirst := toNat_short 0xC0 (by decide) hlt
      have hskip : skip (0xC0 + UInt8.ofNat len) rest = 0 := by
        rw [skip, if_neg, if_neg, if_neg, if_pos]
        · rw [UInt8.le_iff_toNat_le]
          omega
        · rw [UInt8.lt_iff_toNat_lt]
          omega
        · rw [UInt8.le_iff_toNat_le]
          omega
        · rw [UInt8.lt_iff_toNat_lt]
          omega
      rw [List.singleton_append, starts_cons, hskip, List.drop_zero]
  | @long digits hlength hvalue =>
      have hpos := ne_nil_of_le_readBE hvalue
      have hfirst := toNat_long 0xC0 (by decide) hlength
      have hskip : skip (0xC0 + 55 + UInt8.ofNat digits.length) (digits ++ rest) =
          digits.length := by
        rw [skip, if_neg, if_neg, if_neg, if_neg]
        · omega
        · rw [UInt8.le_iff_toNat_le]
          omega
        · rw [UInt8.lt_iff_toNat_lt]
          omega
        · rw [UInt8.le_iff_toNat_le]
          omega
        · rw [UInt8.lt_iff_toNat_lt]
          omega
      rw [List.cons_append, starts_cons, hskip, List.drop_left]

/-! ### The grammar -/

/-- Lists of byte strings of which each is no longer than its counterpart are equal if they are of
the same total length and begin the same. -/
theorem forall_eq_of_flatten {α : Type} {f g : α → List UInt8} {items : List α}
    (hle : ∀ item ∈ items, (f item).length ≤ (g item).length)
    (h : (items.map f).flatten = (items.map g).flatten) : ∀ item ∈ items, f item = g item := by
  induction items with
  | nil => exact fun item hitem => absurd hitem List.not_mem_nil
  | cons item items ih =>
      have hle' : ∀ item ∈ items, (f item).length ≤ (g item).length :=
        fun item' h' => hle item' (List.mem_cons_of_mem _ h')
      have hrest : (items.map f).flatten.length ≤ (items.map g).flatten.length := by
        rw [List.length_flatten, List.length_flatten, List.map_map, List.map_map]
        exact List.sum_le_sum hle'
      have hlength := congrArg List.length h
      simp only [List.map_cons, List.flatten_cons] at h hlength
      rw [List.length_append, List.length_append] at hlength
      have hfirst := hle item List.mem_cons_self
      obtain ⟨heq, hflatten⟩ := List.append_inj h (by omega)
      intro item' hitem'
      rcases List.mem_cons.1 hitem' with rfl | hitem'
      · exact heq
      · exact ih hle' hflatten item' hitem'

theorem allMinimal_flatten {items : List (List UInt8 × RlpValue)}
    (h : ∀ item ∈ items, ∀ rest, AllMinimal (item.1 ++ rest) ↔
      encodeValue item.2 = item.1 ∧ AllMinimal rest) (rest : List UInt8) :
    AllMinimal ((items.map Prod.fst).flatten ++ rest) ↔
      (∀ item ∈ items, encodeValue item.2 = item.1) ∧ AllMinimal rest := by
  induction items with
  | nil => simp
  | cons item items ih =>
      rw [List.map_cons, List.flatten_cons, List.append_assoc, h item List.mem_cons_self,
        ih fun item' h' => h item' (List.mem_cons_of_mem _ h')]
      simp only [List.mem_cons, forall_eq_or_imp, and_assoc]

theorem encodePayload_map_snd (items : List (List UInt8 × RlpValue)) :
    encodePayload (items.map Prod.snd) = (items.map fun item => encodeValue item.2).flatten := by
  rw [encodePayload_eq_flatten, List.map_map]
  rfl

/-- **The headers are minimal exactly if the bytes are the encoding**, which is no longer. -/
theorem starts_lenient {w : List UInt8} {v : RlpValue} (h : Lenient w v) :
    (encodeValue v).length ≤ w.length ∧
      ∀ rest, AllMinimal (w ++ rest) ↔ encodeValue v = w ∧ AllMinimal rest := by
  induction h with
  | @single b hb =>
      have hencode : encodeValue (.bytes [b]) = [b] := by
        rw [encodeValue_bytes, encodeBytes, if_pos ⟨rfl, hb⟩]
        rfl
      refine ⟨by rw [hencode], fun rest => ?_⟩
      have hskip : skip b rest = 0 := if_pos hb
      rw [List.singleton_append, allMinimal_cons, hskip, List.drop_zero, hencode]
      exact ⟨fun h => ⟨rfl, h.2⟩, fun h => ⟨minimal_small hb rest, h.2⟩⟩
  | @bytes header b hheader =>
      rw [encodeValue_bytes]
      constructor
      · have hle := hheader.length_encodeLength_le
        have hpos := hheader.length_pos
        unfold encodeBytes
        split
        · rw [List.length_singleton, List.length_append]
          omega
        · rw [List.length_append, List.length_append]
          omega
      · intro rest
        rw [AllMinimal, starts_bytes hheader]
        simp only [List.mem_cons, forall_eq_or_imp]
        rw [minimal_bytes hheader, encodeBytes_eq_iff hheader]
        rfl
  | @list header items hheader hall ih =>
      have hle : (items.map fun item => encodeValue item.2).flatten.length ≤
          (items.map Prod.fst).flatten.length := by
        rw [List.length_flatten, List.length_flatten, List.map_map, List.map_map]
        exact List.sum_le_sum fun item hitem => (ih item hitem).1
      have hheader' := (length_encodeLength_mono hle 0xC0).trans hheader.length_encodeLength_le
      rw [encodeValue, encodePayload_map_snd]
      refine ⟨?_, fun rest => ?_⟩
      · rw [List.length_append, List.length_append]
        omega
      · rw [List.append_assoc, AllMinimal, starts_list hheader]
        simp only [List.mem_cons, forall_eq_or_imp]
        rw [minimal_list hheader, ← hheader.eq_encodeLength_iff]
        have hflatten := allMinimal_flatten (fun item hitem => (ih item hitem).2) rest
        rw [AllMinimal] at hflatten
        rw [hflatten, ← and_assoc]
        refine and_congr_left fun _ => ?_
        constructor
        · rintro ⟨hencode, hitems⟩
          have hmap : items.map (fun item => encodeValue item.2) = items.map Prod.fst :=
            List.map_congr_left hitems
          rw [hmap, hencode]
        · intro heq
          have hlength := congrArg List.length heq
          rw [List.length_append, List.length_append] at hlength
          obtain ⟨hencode, hitems⟩ := List.append_inj heq (by omega)
          rw [hitems] at hencode
          exact ⟨hencode, forall_eq_of_flatten (fun item hitem => (ih item hitem).1) hitems⟩

theorem extent_list {header payload : List UInt8} (h : LengthBytes 0xC0 payload.length header)
    (rest : List UInt8) : extent (header ++ payload ++ rest) = (header ++ payload).length := by
  have hc0 : (0xC0 : UInt8).toNat = 192 := rfl
  have hf7 : (0xF7 : UInt8).toNat = 247 := rfl
  generalize hlen : payload.length = len at h
  cases h with
  | short hlt =>
      have hfirst := toNat_short 0xC0 (by decide) hlt
      rw [List.singleton_append, List.cons_append, extent, if_neg, if_pos, List.length_cons, hlen]
      · omega
      · rw [UInt8.le_iff_toNat_le]
        omega
      · rw [UInt8.lt_iff_toNat_lt]
        omega
  | @long digits hlength hvalue =>
      have hpos := ne_nil_of_le_readBE hvalue
      have hfirst := toNat_long 0xC0 (by decide) hlength
      have hdigits : (digits ++ payload ++ rest).take digits.length = digits := by
        rw [List.append_assoc, List.take_left]
      have hcount : (0xC0 + 55 + UInt8.ofNat digits.length).toNat - 0xF7 = digits.length := by
        omega
      rw [List.cons_append, List.cons_append, extent, if_neg, if_neg, hcount, hdigits,
        List.length_cons, List.length_append, hlen]
      · omega
      · rw [UInt8.le_iff_toNat_le]
        omega
      · rw [UInt8.lt_iff_toNat_lt]
        omega

/-- **The length of the first element is found from its header.** -/
theorem extent_lenient {w : List UInt8} {v : RlpValue} (h : Lenient w v) (rest : List UInt8) :
    extent (w ++ rest) = w.length := by
  cases h with
  | @single b hb =>
      have hlt : b < 0xC0 := by
        rw [UInt8.lt_iff_toNat_lt] at hb ⊢
        exact hb.trans (by decide)
      rw [List.singleton_append, extent, if_pos hlt, skip, if_pos hb, List.length_singleton]
  | bytes hheader =>
      obtain ⟨first, tail, rfl, -, hlt, hskip⟩ := skip_bytes hheader rest
      rw [List.cons_append, List.cons_append, extent, if_pos hlt, hskip, List.length_cons]
      omega
  | list hheader _ => exact extent_list hheader rest

/-! ### Integers -/

/-- An integer that is given by its bytes, encoded without the zeros in front. -/
def encodeInteger (b : List UInt8) : List UInt8 :=
  if b.dropWhile (· == 0) = [] then [0x80] else encodeBytes (b.dropWhile (· == 0))

theorem encodeUInt_foldl {b : List UInt8} (h : b.length ≤ 8) :
    encodeUInt (b.foldl shiftIn 0) = encodeInteger b := by
  have hvalue := toNat_foldl_shiftIn_zero h
  rw [encodeUInt, hvalue, minimalBE_readBE_eq_dropWhile, encodeInteger]
  by_cases hzero : b.foldl shiftIn 0 = 0
  · have hread : readBE b = 0 := by
      rw [← hvalue, hzero]
      rfl
    rw [if_pos hzero, if_pos]
    rw [← minimalBE_readBE_eq_dropWhile, hread, minimalBE_zero]
  · rw [if_neg hzero, if_neg]
    rw [← minimalBE_readBE_eq_dropWhile]
    refine minimalBE_ne_nil fun hread => hzero ?_
    rw [← UInt64.toNat_inj, hvalue, hread]
    rfl

theorem encodeUInt256_alignRight {b : List UInt8} (h : b.length ≤ 32) :
    encodeUInt256 (alignRight b h) = encodeInteger b := by
  have hdrop : (alignRight b h).toList.dropWhile (· == 0) = b.dropWhile (· == 0) := by
    have hlist : (alignRight b h).toList = List.replicate (32 - b.length) 0 ++ b := rfl
    rw [hlist, List.dropWhile_append, List.dropWhile_replicate]
    simp
  rw [encodeUInt256, hdrop, encodeInteger]

/-- The header of an integer is minimal, and it is not a zero byte, exactly if the bytes are its
encoding. -/
theorem encodeInteger_eq_iff {w b : List UInt8} (h : Lenient w (.bytes b))
    (hzero : ¬ (b.length > 1 ∧ b.headD 0 = 0)) (rest : List UInt8) :
    encodeInteger b = w ↔ Minimal (w ++ rest) ∧ w.head? ≠ some 0 := by
  cases h with
  | @single x hx =>
      by_cases hx0 : x = 0
      · subst hx0
        simp [encodeInteger]
      · have hencode : encodeInteger [x] = [x] := by
          have hdrop : [x].dropWhile (· == 0) = [x] := by simp [hx0]
          rw [encodeInteger, hdrop, if_neg (by simp), encodeBytes, if_pos ⟨rfl, hx⟩]
          rfl
        rw [hencode]
        refine ⟨fun _ => ⟨minimal_small hx rest, ?_⟩, fun _ => rfl⟩
        simpa using hx0
  | @bytes header b hheader =>
      obtain ⟨first, tail, hshape, hle, -, -⟩ := skip_bytes hheader rest
      have hfirst : (header ++ b).head? ≠ some 0 := by
        rw [hshape, List.cons_append, List.head?_cons, ne_eq, Option.some.injEq]
        rintro rfl
        exact absurd hle (by decide)
      rw [minimal_bytes hheader, ← encodeBytes_eq_iff hheader, and_iff_left hfirst]
      cases b with
      | nil => rfl
      | cons x b =>
          by_cases hx0 : x = 0
          · -- a zero that stands alone, behind a header
            have hb : b = [] := by
              by_contra hne
              refine hzero ⟨?_, hx0⟩
              rw [List.length_cons]
              have hpos := List.length_pos_iff.2 hne
              omega
            subst hb hx0
            have hpos := hheader.length_pos
            have hlong : ∀ y : UInt8, [y] ≠ header ++ [0] := by
              intro y heq
              have hlength := congrArg List.length heq
              rw [List.length_append, List.length_singleton, List.length_singleton] at hlength
              omega
            exact ⟨fun heq => absurd heq (hlong _), fun heq => absurd heq (hlong _)⟩
          · have hdrop : (x :: b).dropWhile (· == 0) = x :: b := by simp [hx0]
            rw [encodeInteger, hdrop, if_neg (List.cons_ne_nil _ _)]

/-! ### What is decoded -/

section Decoded

variable {data : List UInt8} {offset next : UInt64}

theorem drop_eq_slice_append (h : offset.toNat ≤ next.toNat) :
    data.drop offset.toNat =
      slice data offset.toNat next.toNat ++ data.drop next.toNat := by
  have hnext : offset.toNat + (next.toNat - offset.toNat) = next.toNat := by omega
  have hsplit := List.take_append_drop (next.toNat - offset.toNat) (data.drop offset.toNat)
  rw [List.drop_drop, hnext] at hsplit
  exact hsplit.symm

theorem canonicalAt_iff {v : RlpValue} (h : offset.toNat ≤ next.toNat)
    (hlenient : Lenient (slice data offset.toNat next.toNat) v) :
    CanonicalAt data offset.toNat ↔ encodeValue v = slice data offset.toNat next.toNat := by
  rw [CanonicalAt, drop_eq_slice_append h, extent_lenient hlenient, List.take_left]
  have hiff := (starts_lenient hlenient).2 []
  rw [List.append_nil] at hiff
  rw [hiff]
  exact and_iff_left allMinimal_nil

theorem canonicalAt_of_ok (hdata : data.length < 2 ^ 63) {fuel : ℕ} (hfuel : data.length < fuel)
    {v : RlpValue} (h : decodeValue data fuel offset = .ok (v, next)) :
    CanonicalAt data offset.toNat ↔ encodeValue v = slice data offset.toNat next.toNat := by
  obtain ⟨hprogress, hroom, hlenient⟩ :=
    (ensures_decodeValue hdata fuel offset (by omega) (by omega)).of_eq h
  exact canonicalAt_iff hprogress.le hlenient

theorem decodeUInt64_eq_ok {x : UInt64} (h : decodeUInt64 data offset = .ok (x, next)) :
    ∃ b, decodeBytes data offset = .ok (b, next) ∧ b.length ≤ 8 ∧
      ¬ (b.length > 1 ∧ b.headD 0 = 0) ∧ x = b.foldl shiftIn 0 := by
  obtain ⟨⟨b, next'⟩, hbytes, h⟩ := bind_eq_ok.1 h
  simp only at h
  split at h
  · exact nomatch h
  · next hlength =>
      split at h
      · exact nomatch h
      · next hzero =>
          cases h
          exact ⟨b, hbytes, not_lt.1 hlength, hzero, rfl⟩

theorem decodeUInt256_eq_ok {x : Vector UInt8 32}
    (h : decodeUInt256 data offset = .ok (x, next)) :
    ∃ b, ∃ hlength : b.length ≤ 32, decodeBytes data offset = .ok (b, next) ∧
      ¬ (b.length > 1 ∧ b.headD 0 = 0) ∧ x = alignRight b hlength := by
  obtain ⟨⟨b, next'⟩, hbytes, h⟩ := bind_eq_ok.1 h
  simp only at h
  split at h
  · exact nomatch h
  · next hlength =>
      split at h
      · exact nomatch h
      · next hzero =>
          cases h
          exact ⟨b, not_lt.1 hlength, hbytes, hzero, rfl⟩

theorem integer_iff (hdata : data.length < 2 ^ 63) {b : List UInt8}
    (h : decodeBytes data offset = .ok (b, next))
    (hzero : ¬ (b.length > 1 ∧ b.headD 0 = 0)) :
    encodeInteger b = slice data offset.toNat next.toNat ↔
      Minimal (data.drop offset.toNat) ∧ data[offset.toNat]? ≠ some 0 := by
  obtain ⟨hprogress, hroom, hlenient⟩ := (ensures_decodeBytes hdata).of_eq h
  simp only at hprogress hroom hlenient
  have hdrop : data.drop offset.toNat =
      slice data offset.toNat next.toNat ++ data.drop next.toNat :=
    drop_eq_slice_append hprogress.le
  have hhead : data[offset.toNat]? = (slice data offset.toNat next.toNat).head? := by
    rw [slice, List.head?_take, if_neg (by omega), List.head?_drop]
  rw [hdrop, hhead]
  exact encodeInteger_eq_iff hlenient hzero _

end Decoded

/-- **What is decoded is the encoding exactly if its headers are minimal**; for an integer, exactly
if its header is, and it is not a zero byte.  So where all headers are minimal no two byte strings
are decoded to the same value. -/
theorem decode_canonical {data : List UInt8} (hdata : data.length < 2 ^ 63) {fuel : ℕ}
    (hfuel : data.length < fuel) (offset : UInt64) :
    (∀ v next, decodeValue data fuel offset = .ok (v, next) →
      (encodeValue v = slice data offset.toNat next.toNat ↔ CanonicalAt data offset.toNat) ∧
      ∀ data' : List UInt8, data'.length < 2 ^ 63 → ∀ fuel', data'.length < fuel' →
        ∀ offset' next', decodeValue data' fuel' offset' = .ok (v, next') →
          CanonicalAt data offset.toNat → CanonicalAt data' offset'.toNat →
            slice data offset.toNat next.toNat = slice data' offset'.toNat next'.toNat) ∧
    (∀ x next, decodeUInt64 data offset = .ok (x, next) →
      (encodeUInt x = slice data offset.toNat next.toNat ↔
        Minimal (data.drop offset.toNat) ∧ data[offset.toNat]? ≠ some 0)) ∧
    ∀ x next, decodeUInt256 data offset = .ok (x, next) →
      (encodeUInt256 x = slice data offset.toNat next.toNat ↔
        Minimal (data.drop offset.toNat) ∧ data[offset.toNat]? ≠ some 0) := by
  refine ⟨?_, ?_, ?_⟩
  · intro v next h
    have hiff := canonicalAt_of_ok hdata hfuel h
    refine ⟨hiff.symm, ?_⟩
    intro data' hdata' fuel' hfuel' offset' next' h' hcanonical hcanonical'
    rw [← hiff.1 hcanonical, (canonicalAt_of_ok hdata' hfuel' h').1 hcanonical']
  · intro x next h
    obtain ⟨b, hbytes, hlength, hzero, rfl⟩ := decodeUInt64_eq_ok h
    rw [encodeUInt_foldl hlength]
    exact integer_iff hdata hbytes hzero
  · intro x next h
    obtain ⟨b, hlength, hbytes, hzero, rfl⟩ := decodeUInt256_eq_ok h
    rw [encodeUInt256_alignRight hlength]
    exact integer_iff hdata hbytes hzero

theorem decode_canonical_list :
    encodeValue (.list [.bytes [1, 2]]) = slice [0xC3, 0x82, 1, 2] 0 4 ↔
      CanonicalAt [0xC3, 0x82, 1, 2] 0 :=
  ((@decode_canonical [0xC3, 0x82, 1, 2] (by decide) 5 (by decide) 0).1
    (.list [.bytes [1, 2]]) 4 rfl).1

/-- **The byte `0x05` has two encodings**, a string of 56 bytes has another one with a zero in front
of its length, and the zero byte is read as an integer. -/
theorem decode_canonical_single :
    (decodeValue [0x81, 5] 3 0 = .ok (.bytes [5], 2) ∧
      encodeValue (.bytes [5]) ≠ slice [0x81, 5] 0 2) ∧
    (decodeBytes (0xB9 :: 0 :: 56 :: List.replicate 56 7) 0 = .ok (List.replicate 56 7, 59) ∧
      encodeBytes (List.replicate 56 7) ≠
        slice (0xB9 :: 0 :: 56 :: List.replicate 56 7) 0 59) ∧
    (decodeUInt64 [0] 0 = .ok (0, 1) ∧ encodeUInt 0 ≠ slice [0] 0 1) := by
  refine ⟨⟨rfl, by decide⟩, ⟨rfl, ?_⟩, rfl, by decide⟩
  intro h
  have hlength := congrArg List.length h
  exact absurd hlength (by decide)

end Rlp
