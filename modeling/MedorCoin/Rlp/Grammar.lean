/-
**What the RLP decoders accept.**

`Rlp.Lenient` is the grammar of the byte strings that the decoders accept: that of the encodings,
except that a header may be longer than it has to be.  The decoders are safe, what they accept is in
the grammar, and what is in the grammar they accept.  An encoding is in the grammar, so that it is
decoded, wherever in a buffer it stands.

Main definitions:

* `Rlp.LengthBytes` — the headers that are accepted for a length;
* `Rlp.Lenient` — **the byte strings that are accepted for a value**.

Main results:

* `Rlp.ensures_decodeLength`, `Rlp.ensures_decodeBytes`, `Rlp.ensures_decodeValue` — **soundness**,
  together with safety: all arithmetic is in `size_t`, and may wrap around;
* `Rlp.decodeValue_of_lenient` — **completeness**;
* `Rlp.lenient_encodeValue` — an encoding is in the grammar;
* `Rlp.decodeValue_encodeValue` — **decoding undoes encoding**, at any offset and before any suffix.
-/

import MedorCoin.Rlp.Coding

set_option autoImplicit false

namespace Rlp

open Cpp

/-! ### The grammar -/

/-- The headers that are accepted for a payload of a given length.  One that gives the length in
bytes of its own may begin with zeros. -/
inductive LengthBytes (base : UInt8) : ℕ → List UInt8 → Prop
  | short {len : ℕ} : len < 56 → LengthBytes base len [base + UInt8.ofNat len]
  | long {digits : List UInt8} : digits.length ≤ 8 → 56 ≤ readBE digits →
      LengthBytes base (readBE digits) ((base + 55 + UInt8.ofNat digits.length) :: digits)

/-- **The byte strings that are accepted for a value.**  A single byte below `0x80` may have a
header that it does not need. -/
inductive Lenient : List UInt8 → RlpValue → Prop
  | single {b : UInt8} : b < 0x80 → Lenient [b] (.bytes [b])
  | bytes {header b : List UInt8} :
      LengthBytes 0x80 b.length header → Lenient (header ++ b) (.bytes b)
  | list {header : List UInt8} {items : List (List UInt8 × RlpValue)} :
      LengthBytes 0xC0 (items.map Prod.fst).flatten.length header →
      (∀ item ∈ items, Lenient item.1 item.2) →
      Lenient (header ++ (items.map Prod.fst).flatten) (.list (items.map Prod.snd))

theorem LengthBytes.length_pos {base : UInt8} {len : ℕ} {header : List UInt8}
    (h : LengthBytes base len header) : 0 < header.length := by
  cases h <;> simp

theorem Lenient.length_pos {w : List UInt8} {v : RlpValue} (h : Lenient w v) : 0 < w.length := by
  cases h with
  | single hb => exact Nat.one_pos
  | bytes hheader =>
      have := hheader.length_pos
      rw [List.length_append]
      omega
  | list hheader _ =>
      have := hheader.length_pos
      rw [List.length_append]
      omega

/-! ### Headers: soundness -/

section Soundness

variable {data : List UInt8} {offset : UInt64}

theorem readLength_eq (n : ℕ) (index decodedLen : UInt64) (hdata : data.length < 2 ^ 64)
    (h : index.toNat + n ≤ data.length) :
    readLength data n index decodedLen =
      .ok ((slice data index.toNat (index.toNat + n)).foldl shiftIn decodedLen) := by
  induction n generalizing index decodedLen with
  | zero => rw [readLength, Nat.add_zero, slice_self, List.foldl_nil]
  | succ n ih =>
      have hlt : index.toNat < data.length := by omega
      have hbyte : byteAt data index = .ok data[index.toNat] :=
        byteAt_eq_ok.2 (List.getElem?_eq_getElem hlt)
      have hnext : (index + 1).toNat = index.toNat + 1 := by
        rw [UInt64.toNat_add, UInt64.toNat_one]
        omega
      have hsplit : slice data index.toNat (index.toNat + (n + 1)) =
          data[index.toNat] :: slice data (index + 1).toNat ((index + 1).toNat + n) := by
        have hstop : index.toNat + (n + 1) = index.toNat + 1 + n := by omega
        rw [hnext, hstop, slice_append (index.toNat + 1) (by omega) (by omega),
          slice_succ (List.getElem?_eq_getElem hlt), List.singleton_append]
      rw [readLength, bind_of_ok hbyte, ih _ _ (by omega), hsplit, List.foldl_cons]

theorem safeByte_of_lt (hdata : data.length < 2 ^ 64) (h : offset.toNat < data.length)
    (context : String) : safeByte data offset context = byteAt data offset := by
  rw [safeByte, if_neg]
  rw [ge_iff_le, UInt64.le_iff_toNat_le, toNat_size hdata]
  omega

/-- **A header that is read** begins at the offset, ends inside the buffer and is one that is
accepted for the length it gives. -/
theorem ensures_decodeLength (hdata : data.length < 2 ^ 63) {base first : UInt8}
    (hfirst : data[offset.toNat]? = some first) (hbase : base ≤ first)
    (hlong : first.toNat ≤ base.toNat + 63) (hmax : base.toNat + 63 < 256) (context : String) :
    Ensures (decodeLength data offset base context) fun h =>
      offset.toNat < h.start.toNat ∧ h.start.toNat ≤ data.length ∧
        LengthBytes base h.payloadLen.toNat (slice data offset.toNat h.start.toNat) := by
  have hlt : offset.toNat < data.length := (List.getElem?_eq_some_iff.1 hfirst).1
  have hnext : (offset + 1).toNat = offset.toNat + 1 := by
    rw [UInt64.toNat_add, UInt64.toNat_one]
    omega
  have hlimit : (base + 55).toNat = base.toNat + 55 := by
    rw [UInt8.toNat_add]
    have h55 : (55 : UInt8).toNat = 55 := rfl
    omega
  have hbase' := UInt8.le_iff_toNat_le.1 hbase
  rw [decodeLength, safeByte_of_lt (by omega) hlt, bind_of_ok (byteAt_eq_ok.2 hfirst)]
  refine Ensures.ite (fun hshort => ?_) fun hnot => Ensures.ite (fun hgt => ?_) fun hle => ?_
  · -- one byte
    have hle' := UInt8.le_iff_toNat_le.1 hshort.2
    have hlen : (first - base).toNat = first.toNat - base.toNat :=
      UInt8.toNat_sub_of_le _ _ hbase
    refine Ensures.ok ⟨by simp only [hnext]; omega, by simp only [hnext]; omega, ?_⟩
    have hsum : base + UInt8.ofNat (first - base).toNat = first := by
      rw [UInt8.ofNat_toNat, UInt8.add_comm, UInt8.sub_add_cancel]
    have hheader : LengthBytes base (first - base).toNat
        [base + UInt8.ofNat (first - base).toNat] := .short (by omega)
    simp only [hnext, UInt8.toNat_toUInt64]
    rw [slice_succ hfirst]
    rwa [hsum] at hheader
  · -- a length of a length
    have hgt' := UInt8.lt_iff_toNat_lt.1 hgt
    have hlol : ((first - (base + 55)).toUInt64).toNat = first.toNat - (base.toNat + 55) := by
      rw [UInt8.toNat_toUInt64, UInt8.toNat_sub_of_le _ _ (UInt8.le_of_lt hgt), hlimit]
    have hstart : (offset + 1 + (first - (base + 55)).toUInt64).toNat =
        offset.toNat + 1 + (first.toNat - (base.toNat + 55)) := by
      rw [UInt64.toNat_add, hnext, hlol]
      omega
    refine Ensures.ite (fun _ => Ensures.throw _) fun hroom => ?_
    have hroom' : offset.toNat + 1 + (first.toNat - (base.toNat + 55)) ≤ data.length := by
      rw [gt_iff_lt, UInt64.lt_iff_toNat_lt, hstart, toNat_size (by omega)] at hroom
      omega
    have hread := readLength_eq ((first - (base + 55)).toUInt64).toNat (offset + 1) 0
      (by omega : data.length < 2 ^ 64) (by omega)
    set digits := slice data (offset + 1).toNat
      ((offset + 1).toNat + ((first - (base + 55)).toUInt64).toNat) with hdigits
    have hlength : digits.length = first.toNat - (base.toNat + 55) := by
      rw [hdigits, length_slice (by omega)]
      omega
    have hvalue : (digits.foldl shiftIn 0).toNat = readBE digits :=
      toNat_foldl_shiftIn_zero (by omega)
    rw [bind_of_ok hread]
    refine Ensures.ite (fun _ => Ensures.throw _) fun hcanonical => ?_
    have hcanonical' : 56 ≤ readBE digits := by
      rw [UInt64.lt_iff_toNat_lt, hvalue] at hcanonical
      have h56 : (56 : UInt64).toNat = 56 := rfl
      omega
    refine Ensures.ok ⟨by simp only [hstart]; omega, by simp only [hstart]; omega, ?_⟩
    have hsum : base + 55 + UInt8.ofNat digits.length = first := by
      rw [← UInt8.toNat_inj, UInt8.toNat_add, hlimit, toNat_ofNat_byte, hlength]
      have hlt' := first.toNat_lt
      omega
    have hheader : LengthBytes base (readBE digits)
        ((base + 55 + UInt8.ofNat digits.length) :: digits) := .long (by omega) hcanonical'
    rw [hsum] at hheader
    have hstop : offset.toNat + 1 + (first.toNat - (base.toNat + 55)) =
        (offset + 1).toNat + ((first - (base + 55)).toUInt64).toNat := by omega
    simp only [hstart, hvalue]
    rw [slice_append (offset.toNat + 1) (by omega) (by omega), slice_succ hfirst, hstop,
      ← hnext, ← hdigits]
    exact hheader
  · exact Ensures.throw _

/-! ### Byte strings: soundness -/

theorem toNat_add_of_lt {a b : UInt64} (h : a.toNat + b.toNat < 2 ^ 64) :
    (a + b).toNat = a.toNat + b.toNat := by
  rw [UInt64.toNat_add, Nat.mod_eq_of_lt h]

theorem toNat_succ_of_lt (hdata : data.length < 2 ^ 63) (h : offset.toNat < data.length) :
    (offset + 1).toNat = offset.toNat + 1 :=
  toNat_add_of_lt (by rw [UInt64.toNat_one]; omega)

theorem lt_of_not_ge_size (hdata : data.length < 2 ^ 64) (h : ¬ offset ≥ size data) :
    offset.toNat < data.length := by
  rw [ge_iff_le, UInt64.le_iff_toNat_le, toNat_size hdata] at h
  omega

/-- **A byte string that is decoded** is inside the buffer, and in the grammar. -/
theorem ensures_decodeBytes (hdata : data.length < 2 ^ 63) :
    Ensures (decodeBytes data offset) fun r =>
      offset.toNat < r.2.toNat ∧ r.2.toNat ≤ data.length ∧
        Lenient (slice data offset.toNat r.2.toNat) (.bytes r.1) := by
  refine Ensures.ite (fun _ => Ensures.throw _) fun hoffset => ?_
  have hlt := lt_of_not_ge_size (by omega) hoffset
  have hnext := toNat_succ_of_lt hdata hlt
  refine (ensures_byteAt hlt).bind fun first hfirst => ?_
  refine Ensures.ite (fun hsmall => ?_) fun hlarge => Ensures.ite (fun _ => Ensures.throw _)
    fun hbytes => ?_
  · refine Ensures.ok ⟨by simp only [hnext]; omega, by simp only [hnext]; omega, ?_⟩
    simp only [hnext]
    rw [slice_succ hfirst]
    exact Lenient.single hsmall
  · rw [UInt8.not_lt] at hlarge hbytes
    have hle := UInt8.le_iff_toNat_le.1 hbytes
    have hbf : (0xBF : UInt8).toNat = 191 := rfl
    have h80 : (0x80 : UInt8).toNat = 128 := rfl
    refine (ensures_decodeLength hdata hfirst hlarge (by omega) (by decide) _).bind ?_
    rintro ⟨payloadLen, headerLen, start⟩ ⟨hstart, hroom, hheader⟩
    simp only at hstart hroom hheader ⊢
    refine Ensures.ite (fun _ => Ensures.throw _) fun hfits => ?_
    -- a sum that wraps around has a payload that no vector can hold
    have hsum : payloadLen.toNat ≤ maxSize → start.toNat + payloadLen.toNat ≤ data.length := by
      intro hmax
      rw [maxSize] at hmax
      rw [gt_iff_lt, UInt64.lt_iff_toNat_lt, toNat_size (by omega),
        toNat_add_of_lt (by omega)] at hfits
      omega
    refine (ensures_copyBytes hsum).bind ?_
    rintro bytes ⟨hle', rfl⟩
    have hstop : (start + payloadLen).toNat = start.toNat + payloadLen.toNat :=
      toNat_add_of_lt (by omega)
    refine Ensures.ok ⟨by simp only [hstop]; omega, by simp only [hstop]; omega, ?_⟩
    simp only [hstop]
    rw [slice_append start.toNat (by omega) (by omega)]
    refine Lenient.bytes ?_
    rwa [length_slice hle', Nat.add_sub_cancel_left]

/-! ### Lists and values: soundness -/

/-- The elements of a list, as the loop has found them between two positions. -/
def ItemsAt (data : List UInt8) (start stop : ℕ) (items : List RlpValue) : Prop :=
  ∃ l : List (List UInt8 × RlpValue), l.map Prod.snd = items ∧
    (∀ item ∈ l, Lenient item.1 item.2) ∧ slice data start stop = (l.map Prod.fst).flatten

/-- The loop over the elements, if their decoder is sound: it needs a turn for each element, and
one to find the end. -/
theorem ensures_decodeItems {decodeChild : UInt64 → Checked (RlpValue × UInt64)} {stop : UInt64}
    (hstop : stop.toNat ≤ data.length) (turns : ℕ) (pos : UInt64)
    (hchild : ∀ p : UInt64, pos.toNat ≤ p.toNat → p.toNat < data.length →
      Ensures (decodeChild p) fun r => p.toNat < r.2.toNat ∧ r.2.toNat ≤ data.length ∧
        Lenient (slice data p.toNat r.2.toNat) r.1)
    (hturns : stop.toNat < turns + pos.toNat) (hpos : 0 < turns) :
    Ensures (decodeItems decodeChild stop turns pos) fun r =>
      pos.toNat ≤ r.2.toNat ∧ (pos.toNat ≤ data.length → r.2.toNat ≤ data.length) ∧
        ItemsAt data pos.toNat r.2.toNat r.1 := by
  induction turns generalizing pos with
  | zero => omega
  | succ turns ih =>
      refine Ensures.ite (fun hlt => ?_) fun _ => ?_
      · rw [UInt64.lt_iff_toNat_lt] at hlt
        refine (hchild pos (le_refl _) (by omega)).bind ?_
        rintro ⟨child, childNext⟩ ⟨hprogress, hroom, hlenient⟩
        refine Ensures.ite (fun _ => Ensures.throw _) fun _ => ?_
        simp only at hprogress hroom hlenient
        refine (ih childNext (fun p hp => hchild p (by omega)) (by omega) (by omega)).bind ?_
        rintro ⟨items, last⟩ ⟨hle, hroom', l, hitems, hall, hslice⟩
        simp only at hle hroom' hitems hslice
        refine Ensures.ok ⟨by simp only; omega, fun _ => hroom' hroom,
          (slice data pos.toNat childNext.toNat, child) :: l, ?_, ?_, ?_⟩
        · rw [List.map_cons, hitems]
        · intro item hitem
          rcases List.mem_cons.1 hitem with rfl | hitem
          · exact hlenient
          · exact hall item hitem
        · simp only [List.map_cons, List.flatten_cons]
          rw [slice_append childNext.toNat (by omega) hle, hslice]
      · refine Ensures.ok ⟨le_refl _, fun h => h, [], rfl, ?_, ?_⟩
        · exact fun item hitem => absurd hitem List.not_mem_nil
        · exact slice_self _

theorem ensures_decodeListWith {decodeChild : UInt64 → Checked (RlpValue × UInt64)}
    (hdata : data.length < 2 ^ 63)
    (hchild : ∀ p : UInt64, offset.toNat < p.toNat → p.toNat < data.length →
      Ensures (decodeChild p) fun r => p.toNat < r.2.toNat ∧ r.2.toNat ≤ data.length ∧
        Lenient (slice data p.toNat r.2.toNat) r.1) {turns : ℕ}
    (hturns : data.length ≤ turns + offset.toNat) (hpos : 0 < turns) :
    Ensures (decodeListWith decodeChild turns data offset) fun r =>
      offset.toNat < r.2.toNat ∧ r.2.toNat ≤ data.length ∧
        Lenient (slice data offset.toNat r.2.toNat) (.list r.1) := by
  refine Ensures.ite (fun _ => Ensures.throw _) fun hoffset => ?_
  have hlt := lt_of_not_ge_size (by omega) hoffset
  refine (ensures_byteAt hlt).bind fun first hfirst => ?_
  refine Ensures.ite (fun _ => Ensures.throw _) fun hlist => ?_
  rw [UInt8.not_lt] at hlist
  have hc0 : (0xC0 : UInt8).toNat = 192 := rfl
  have hmax := first.toNat_lt
  refine (ensures_decodeLength hdata hfirst hlist (by omega) (by decide) _).bind ?_
  rintro ⟨payloadLen, headerLen, start⟩ ⟨hstart, hroom, hheader⟩
  simp only at hstart hroom hheader ⊢
  refine Ensures.ite (fun _ => Ensures.throw _) fun hfits => ?_
  have hstop : (start + payloadLen).toNat ≤ data.length := by
    rw [gt_iff_lt, UInt64.lt_iff_toNat_lt, toNat_size (by omega)] at hfits
    omega
  refine (ensures_decodeItems hstop turns start (fun p hp => hchild p (by omega)) (by omega)
    hpos).bind ?_
  rintro ⟨items, last⟩ ⟨hle, -, l, hitems, hall, hslice⟩
  simp only at hle hitems hslice ⊢
  refine Ensures.ite (fun _ => Ensures.throw _) fun hlast => ?_
  rw [not_not] at hlast
  -- the loop has stopped behind the start, so that the sum has not wrapped around
  have hsum : (start + payloadLen).toNat = start.toNat + payloadLen.toNat := by
    rw [hlast, UInt64.toNat_add] at hle
    rw [UInt64.toNat_add]
    have hlt64 := payloadLen.toNat_lt
    omega
  have hslice' : slice data start.toNat (start + payloadLen).toNat = (l.map Prod.fst).flatten := by
    rw [← hlast, hslice]
  refine Ensures.ok ⟨by simp only; omega, hstop, ?_⟩
  simp only
  rw [slice_append start.toNat (by omega) (by omega), hslice', ← hitems]
  refine Lenient.list ?_ hall
  rwa [← hslice', length_slice hstop, hsum, Nat.add_sub_cancel_left]

/-- **A value that is decoded** is inside the buffer, and in the grammar; as many nested calls are
enough as there are bytes left. -/
theorem ensures_decodeValue (hdata : data.length < 2 ^ 63) (fuel : ℕ) (offset : UInt64)
    (hfuel : data.length < fuel + offset.toNat) (hpos : 0 < fuel) :
    Ensures (decodeValue data fuel offset) fun r =>
      offset.toNat < r.2.toNat ∧ r.2.toNat ≤ data.length ∧
        Lenient (slice data offset.toNat r.2.toNat) r.1 := by
  induction fuel generalizing offset with
  | zero => omega
  | succ fuel ih =>
      refine Ensures.ite (fun _ => Ensures.throw _) fun hoffset => ?_
      have hlt := lt_of_not_ge_size (by omega) hoffset
      refine (ensures_byteAt hlt).bind fun first hfirst => ?_
      refine Ensures.ite (fun _ => ?_) fun _ => ?_
      · refine (ensures_decodeListWith hdata (fun p hp hp' => ih p (by omega) (by omega))
          (by omega) (by omega)).bind ?_
        exact fun _ h => Ensures.ok h
      · exact (ensures_decodeBytes hdata).bind fun _ h => Ensures.ok h

theorem ensures_decodeList (hdata : data.length < 2 ^ 63) {fuel : ℕ} (hfuel : data.length < fuel)
    (offset : UInt64) :
    Ensures (decodeList data fuel offset) fun r =>
      offset.toNat < r.2.toNat ∧ r.2.toNat ≤ data.length ∧
        Lenient (slice data offset.toNat r.2.toNat) (.list r.1) :=
  ensures_decodeListWith hdata
    (fun p _ _ => ensures_decodeValue hdata fuel p (by omega) (by omega)) (by omega) (by omega)

end Soundness

/-! ### Completeness -/

section Completeness

variable {data rest : List UInt8} {offset : UInt64}

theorem getElem?_of_drop {n : ℕ} {b : UInt8} (h : data.drop n = b :: rest) :
    data[n]? = some b := by
  have hget : (data.drop n)[0]? = some b := by
    rw [h]
    rfl
  rwa [List.getElem?_drop, Nat.add_zero] at hget

theorem le_length_of_drop {n : ℕ} {w : List UInt8} (hw : 0 < w.length)
    (h : data.drop n = w ++ rest) : n + w.length ≤ data.length := by
  have hlength := congrArg List.length h
  rw [List.length_drop, List.length_append] at hlength
  omega

theorem toNat_ofNat_of_le {n : ℕ} (hdata : data.length < 2 ^ 64) (h : n ≤ data.length) :
    (UInt64.ofNat n).toNat = n := UInt64.toNat_ofNat_of_lt' (lt_of_le_of_lt h hdata)

theorem toNat_shortByte {base : UInt8} (hmax : base.toNat + 63 < 256) {len : ℕ} (hlen : len < 56) :
    (base + UInt8.ofNat len).toNat = base.toNat + len := by
  rw [UInt8.toNat_add, toNat_ofNat_byte]
  omega

theorem toNat_longByte {base : UInt8} (hmax : base.toNat + 63 < 256) {digits : List UInt8}
    (hlength : digits.length ≤ 8) :
    (base + 55).toNat = base.toNat + 55 ∧
      (base + 55 + UInt8.ofNat digits.length).toNat = base.toNat + 55 + digits.length := by
  have h55 : (55 : UInt8).toNat = 55 := rfl
  have hlimit : (base + 55).toNat = base.toNat + 55 := by
    rw [UInt8.toNat_add]
    omega
  refine ⟨hlimit, ?_⟩
  rw [UInt8.toNat_add, hlimit, toNat_ofNat_byte]
  omega

theorem decodeLength_short (hdata : data.length < 2 ^ 64) {base : UInt8}
    (hmax : base.toNat + 63 < 256) {len : ℕ} (hlen : len < 56)
    (hlt : offset.toNat < data.length)
    (hfirst : data[offset.toNat]? = some (base + UInt8.ofNat len)) (context : String) :
    decodeLength data offset base context =
      .ok ⟨UInt64.ofNat len, 1, UInt64.ofNat (offset.toNat + 1)⟩ := by
  have h55 : (55 : UInt8).toNat = 55 := rfl
  have hvalue := toNat_shortByte hmax hlen
  have hle : base ≤ base + UInt8.ofNat len := by
    rw [UInt8.le_iff_toNat_le]
    omega
  have hshort : base ≤ base + UInt8.ofNat len ∧ base + UInt8.ofNat len ≤ base + 55 := by
    refine ⟨hle, ?_⟩
    rw [UInt8.le_iff_toNat_le, hvalue, UInt8.toNat_add]
    omega
  have hlen64 : (base + UInt8.ofNat len - base).toUInt64 = UInt64.ofNat len := by
    have hlen' : len < 2 ^ 64 := by omega
    rw [← UInt64.toNat_inj, UInt8.toNat_toUInt64, UInt8.toNat_sub_of_le _ _ hle, hvalue,
      UInt64.toNat_ofNat_of_lt' hlen']
    omega
  have hstart : offset + 1 = UInt64.ofNat (offset.toNat + 1) := by
    rw [UInt64.ofNat_add, UInt64.ofNat_toNat]
    rfl
  rw [decodeLength, safeByte_of_lt hdata hlt, bind_of_ok (byteAt_eq_ok.2 hfirst)]
  simp only [if_pos hshort, hlen64, hstart]

theorem decodeLength_long (hdata : data.length < 2 ^ 64) {base : UInt8}
    (hmax : base.toNat + 63 < 256) {digits : List UInt8} (hlength : digits.length ≤ 8)
    (hvalue : 56 ≤ readBE digits)
    (hdrop : data.drop offset.toNat = (base + 55 + UInt8.ofNat digits.length) :: digits ++ rest)
    (hroom : offset.toNat + (digits.length + 1) ≤ data.length) (context : String) :
    ∃ headerLen, decodeLength data offset base context =
      .ok ⟨UInt64.ofNat (readBE digits), headerLen,
        UInt64.ofNat (offset.toNat + (digits.length + 1))⟩ := by
  have hlt : offset.toNat < data.length := by omega
  have hpos : 0 < digits.length := by
    rw [List.length_pos_iff]
    rintro rfl
    exact absurd hvalue (by decide)
  have hfirst : data[offset.toNat]? = some (base + 55 + UInt8.ofNat digits.length) :=
    getElem?_of_drop hdrop
  obtain ⟨hlimit, hfirst'⟩ := toNat_longByte hmax hlength
  have hread64 : readBE digits < 2 ^ 64 :=
    (readBE_lt digits).trans_le (Nat.pow_le_pow_right (by decide) hlength)
  have hnot : ¬ (base ≤ base + 55 + UInt8.ofNat digits.length ∧
      base + 55 + UInt8.ofNat digits.length ≤ base + 55) := by
    rintro ⟨-, hle⟩
    rw [UInt8.le_iff_toNat_le] at hle
    omega
  have hgt : base + 55 < base + 55 + UInt8.ofNat digits.length := by
    rw [UInt8.lt_iff_toNat_lt]
    omega
  have hlol : ((base + 55 + UInt8.ofNat digits.length - (base + 55)).toUInt64).toNat =
      digits.length := by
    rw [UInt8.toNat_toUInt64, UInt8.toNat_sub_of_le _ _ (UInt8.le_of_lt hgt)]
    omega
  have hnext : (offset + 1).toNat = offset.toNat + 1 :=
    toNat_add_of_lt (by rw [UInt64.toNat_one]; omega)
  have hstart : offset + 1 + (base + 55 + UInt8.ofNat digits.length - (base + 55)).toUInt64 =
      UInt64.ofNat (offset.toNat + (digits.length + 1)) := by
    rw [← UInt64.toNat_inj, toNat_add_of_lt (by omega), hnext, hlol,
      toNat_ofNat_of_le hdata (by omega)]
    omega
  have hdigits :
      slice data (offset + 1).toNat ((offset + 1).toNat + digits.length) = digits := by
    have hbehind : data.drop (offset + 1).toNat = digits ++ rest := by
      rw [hnext, ← List.drop_drop, hdrop]
      rfl
    exact slice_of_drop hbehind
  have hread : readLength data
      ((base + 55 + UInt8.ofNat digits.length - (base + 55)).toUInt64).toNat (offset + 1) 0 =
        .ok (UInt64.ofNat (readBE digits)) := by
    rw [hlol, readLength_eq _ _ _ hdata (by omega), hdigits]
    congr 1
    rw [← UInt64.toNat_inj, toNat_foldl_shiftIn_zero hlength, UInt64.toNat_ofNat_of_lt' hread64]
  have hfits : ¬ UInt64.ofNat (offset.toNat + (digits.length + 1)) > size data := by
    rw [gt_iff_lt, UInt64.lt_iff_toNat_lt, toNat_size hdata, toNat_ofNat_of_le hdata hroom]
    omega
  have hcanonical : ¬ UInt64.ofNat (readBE digits) < 56 := by
    have h56 : (56 : UInt64).toNat = 56 := rfl
    rw [UInt64.lt_iff_toNat_lt, UInt64.toNat_ofNat_of_lt' hread64]
    omega
  refine ⟨1 + (base + 55 + UInt8.ofNat digits.length - (base + 55)).toUInt64, ?_⟩
  rw [decodeLength, safeByte_of_lt hdata hlt, bind_of_ok (byteAt_eq_ok.2 hfirst)]
  simp only [if_neg hnot, if_pos hgt, hstart, if_neg hfits]
  rw [bind_of_ok hread, if_neg hcanonical]

/-- **A header of the grammar is read.** -/
theorem decodeLength_of_lengthBytes (hdata : data.length < 2 ^ 64) {base : UInt8}
    (hmax : base.toNat + 63 < 256) {len : ℕ} {header : List UInt8}
    (hheader : LengthBytes base len header) (hdrop : data.drop offset.toNat = header ++ rest)
    (context : String) :
    (∃ first, data[offset.toNat]? = some first ∧ base ≤ first ∧
        first.toNat ≤ base.toNat + 63) ∧
      len < 2 ^ 64 ∧
      ∃ headerLen, decodeLength data offset base context =
        .ok ⟨UInt64.ofNat len, headerLen, UInt64.ofNat (offset.toNat + header.length)⟩ := by
  have hroom := le_length_of_drop hheader.length_pos hdrop
  have hlt : offset.toNat < data.length := by
    have := hheader.length_pos
    omega
  cases hheader with
  | short hlen =>
      have hfirst : data[offset.toNat]? = some (base + UInt8.ofNat len) := getElem?_of_drop hdrop
      have hvalue := toNat_shortByte hmax hlen
      refine ⟨⟨_, hfirst, by rw [UInt8.le_iff_toNat_le]; omega, by omega⟩, by omega, 1, ?_⟩
      exact decodeLength_short hdata hmax hlen hlt hfirst context
  | @long digits hlength hvalue =>
      have hfirst : data[offset.toNat]? = some (base + 55 + UInt8.ofNat digits.length) :=
        getElem?_of_drop hdrop
      have hfirst' := (toNat_longByte hmax hlength).2
      have hread64 : readBE digits < 2 ^ 64 :=
        (readBE_lt digits).trans_le (Nat.pow_le_pow_right (by decide) hlength)
      refine ⟨⟨_, hfirst, by rw [UInt8.le_iff_toNat_le]; omega, by omega⟩, hread64, ?_⟩
      exact decodeLength_long hdata hmax hlength hvalue hdrop hroom context

/-- **A byte string of the grammar is decoded.** -/
theorem decodeBytes_of_lenient (hdata : data.length < 2 ^ 64) {w b : List UInt8}
    (h : Lenient w (.bytes b)) (hstorable : b.length ≤ maxSize)
    (hdrop : data.drop offset.toNat = w ++ rest) :
    decodeBytes data offset = .ok (b, UInt64.ofNat (offset.toNat + w.length)) := by
  have hroom := le_length_of_drop h.length_pos hdrop
  have hpos := h.length_pos
  have hoffset : ¬ offset ≥ size data := by
    rw [ge_iff_le, UInt64.le_iff_toNat_le, toNat_size hdata]
    omega
  rw [decodeBytes, if_neg hoffset]
  cases h with
  | single hb =>
      have hnext : offset + 1 = UInt64.ofNat (offset.toNat + 1) := by
        rw [UInt64.ofNat_add, UInt64.ofNat_toNat]
        rfl
      rw [bind_of_ok (byteAt_eq_ok.2 (getElem?_of_drop hdrop)), if_pos hb, hnext]
      rfl
  | @bytes header b hheader =>
      rw [List.append_assoc] at hdrop
      obtain ⟨⟨first, hfirst, hle, hle'⟩, hlen, headerLen, hdecode⟩ :=
        decodeLength_of_lengthBytes (by assumption) (by decide) hheader hdrop "decodeBytes"
      have h80 : (0x80 : UInt8).toNat = 128 := rfl
      have hbf : (0xBF : UInt8).toNat = 191 := rfl
      have hsmall : ¬ first < 0x80 := UInt8.not_lt.2 hle
      have hlist : ¬ first > 0xBF := by
        rw [gt_iff_lt, UInt8.lt_iff_toNat_lt]
        omega
      rw [List.length_append] at hroom
      have hstart : (UInt64.ofNat (offset.toNat + header.length)).toNat =
          offset.toNat + header.length := toNat_ofNat_of_le hdata (by omega)
      have hpayload : (UInt64.ofNat b.length).toNat = b.length :=
        toNat_ofNat_of_le hdata (by omega)
      have hsum : UInt64.ofNat (offset.toNat + header.length) + UInt64.ofNat b.length =
          UInt64.ofNat (offset.toNat + (header ++ b).length) := by
        rw [← UInt64.ofNat_add, List.length_append, Nat.add_assoc]
      have hfits : ¬ UInt64.ofNat (offset.toNat + (header ++ b).length) > size data := by
        rw [gt_iff_lt, UInt64.lt_iff_toNat_lt, toNat_size hdata,
          toNat_ofNat_of_le hdata (by rw [List.length_append]; omega), List.length_append]
        omega
      have hcopy : copyBytes data (UInt64.ofNat (offset.toNat + header.length))
          (UInt64.ofNat b.length) = .ok b := by
        rw [copyBytes_of_le (by omega) (by omega), hstart, hpayload,
          slice_of_drop (drop_of_drop hdrop)]
      rw [bind_of_ok (byteAt_eq_ok.2 hfirst), if_neg hsmall, if_neg hlist, bind_of_ok hdecode]
      simp only [hsum, if_neg hfits]
      rw [bind_of_ok hcopy]

/-- The loop decodes the elements of a list, if they are decoded one by one: it takes a turn for
each, and one to find the end. -/
theorem decodeItems_of_lenient (decodeChild : UInt64 → Checked (RlpValue × UInt64))
    (hdata : data.length < 2 ^ 64) (items : List (List UInt8 × RlpValue)) (turns : ℕ)
    (offset : UInt64)
    (hchild : ∀ item ∈ items, ∀ p : UInt64, ∀ rest,
      data.drop p.toNat = item.1 ++ rest →
        decodeChild p = .ok (item.2, UInt64.ofNat (p.toNat + item.1.length)))
    (hpos : ∀ item ∈ items, 0 < item.1.length)
    (hdrop : data.drop offset.toNat = (items.map Prod.fst).flatten ++ rest)
    (hroom : offset.toNat + (items.map Prod.fst).flatten.length ≤ data.length)
    (hturns : (items.map Prod.fst).flatten.length < turns) :
    decodeItems decodeChild
        (UInt64.ofNat (offset.toNat + (items.map Prod.fst).flatten.length)) turns offset =
      .ok (items.map Prod.snd,
        UInt64.ofNat (offset.toNat + (items.map Prod.fst).flatten.length)) := by
  induction items generalizing turns offset with
  | nil =>
      obtain ⟨turns, rfl⟩ : ∃ n, turns = n + 1 := ⟨turns - 1, by omega⟩
      have hstop : UInt64.ofNat (offset.toNat + (List.map Prod.fst
          ([] : List (List UInt8 × RlpValue))).flatten.length) = offset := by
        rw [List.map_nil, List.flatten_nil, List.length_nil, Nat.add_zero, UInt64.ofNat_toNat]
      rw [hstop, decodeItems, if_neg (UInt64.lt_irrefl _)]
      rfl
  | cons item items ih =>
      obtain ⟨turns, rfl⟩ : ∃ n, turns = n + 1 := ⟨turns - 1, by omega⟩
      have hitem := hpos item List.mem_cons_self
      simp only [List.map_cons, List.flatten_cons, List.length_append, List.append_assoc]
        at hdrop hroom hturns ⊢
      have hnext : (UInt64.ofNat (offset.toNat + item.1.length)).toNat =
          offset.toNat + item.1.length := toNat_ofNat_of_le hdata (by omega)
      have hlt : offset < UInt64.ofNat
          (offset.toNat + (item.1.length + (items.map Prod.fst).flatten.length)) := by
        rw [UInt64.lt_iff_toNat_lt, toNat_ofNat_of_le hdata (by omega)]
        omega
      have hprogress : ¬ UInt64.ofNat (offset.toNat + item.1.length) ≤ offset := by
        rw [UInt64.le_iff_toNat_le, hnext]
        omega
      have hrest := ih turns (UInt64.ofNat (offset.toNat + item.1.length))
        (fun item' h => hchild item' (List.mem_cons_of_mem _ h))
        (fun item' h => hpos item' (List.mem_cons_of_mem _ h))
        (by rw [hnext]; exact drop_of_drop hdrop) (by omega) (by omega)
      rw [hnext, Nat.add_assoc] at hrest
      rw [decodeItems, if_pos hlt, bind_of_ok (hchild item List.mem_cons_self _ _ hdrop)]
      simp only [if_neg hprogress]
      rw [bind_of_ok hrest]

theorem RlpValue.Storable.of_mem {l : List RlpValue} (h : (RlpValue.list l).Storable)
    {v : RlpValue} (hv : v ∈ l) : v.Storable := by
  cases h with
  | list hall => exact hall v hv

theorem length_le_flatten {α : Type} {l : List (List α)} {a : List α} (h : a ∈ l) :
    a.length ≤ l.flatten.length := (List.sublist_flatten_of_mem h).length_le

theorem not_ge_size_of_lt (hdata : data.length < 2 ^ 64) (h : offset.toNat < data.length) :
    ¬ offset ≥ size data := by
  rw [ge_iff_le, UInt64.le_iff_toNat_le, toNat_size hdata]
  omega

theorem decodeValue_of_bytes (hdata : data.length < 2 ^ 64) {fuel : ℕ} {first : UInt8}
    (hfirst : data[offset.toNat]? = some first) (hlt : first < 0xC0) {b : List UInt8}
    {next : UInt64} (hdecode : decodeBytes data offset = .ok (b, next)) :
    decodeValue data (fuel + 1) offset = .ok (.bytes b, next) := by
  have hoffset := not_ge_size_of_lt hdata (List.getElem?_eq_some_iff.1 hfirst).1
  rw [decodeValue, if_neg hoffset, bind_of_ok (byteAt_eq_ok.2 hfirst),
    if_neg (UInt8.not_le.2 hlt), bind_of_ok hdecode]

/-- **A value of the grammar is decoded**, with as many nested calls as it has bytes. -/
theorem decodeValue_of_lenient (hdata : data.length < 2 ^ 64) {w : List UInt8} {v : RlpValue}
    (h : Lenient w v) (hstorable : v.Storable) (fuel : ℕ) (hfuel : w.length ≤ fuel)
    (offset : UInt64) (rest : List UInt8) (hdrop : data.drop offset.toNat = w ++ rest) :
    decodeValue data fuel offset = .ok (v, UInt64.ofNat (offset.toNat + w.length)) := by
  have hpos := h.length_pos
  obtain ⟨fuel, rfl⟩ : ∃ n, fuel = n + 1 := ⟨fuel - 1, by omega⟩
  induction h generalizing fuel offset rest with
  | @single b hb =>
      have hlt : b < 0xC0 := by
        rw [UInt8.lt_iff_toNat_lt] at hb ⊢
        exact hb.trans (by decide)
      cases hstorable with
      | bytes hmax =>
          exact decodeValue_of_bytes hdata (getElem?_of_drop hdrop) hlt
            (decodeBytes_of_lenient hdata (Lenient.single hb) hmax hdrop)
  | @bytes header b hheader =>
      have hdrop' := hdrop
      rw [List.append_assoc] at hdrop'
      obtain ⟨⟨first, hfirst, -, hle⟩, -⟩ :=
        decodeLength_of_lengthBytes hdata (by decide) hheader hdrop' "decodeBytes"
      have hlt : first < 0xC0 := by
        rw [UInt8.lt_iff_toNat_lt]
        exact Nat.lt_of_le_of_lt hle (by decide)
      cases hstorable with
      | bytes hmax =>
          exact decodeValue_of_bytes hdata hfirst hlt
            (decodeBytes_of_lenient hdata (Lenient.bytes hheader) hmax hdrop)
  | @list header items hheader hall ih =>
      have hroom := le_length_of_drop (Lenient.list hheader hall).length_pos hdrop
      have hdrop' := hdrop
      rw [List.append_assoc] at hdrop'
      obtain ⟨⟨first, hfirst, hle, -⟩, hlen, headerLen, hdecode⟩ :=
        decodeLength_of_lengthBytes hdata (by decide) hheader hdrop' "decodeList"
      have hheaderPos := hheader.length_pos
      rw [List.length_append] at hroom hfuel
      have hoffset : ¬ offset ≥ size data := not_ge_size_of_lt hdata (by omega)
      have hstart : (UInt64.ofNat (offset.toNat + header.length)).toNat =
          offset.toNat + header.length := toNat_ofNat_of_le hdata (by omega)
      have hsum : UInt64.ofNat (offset.toNat + header.length) +
          UInt64.ofNat (items.map Prod.fst).flatten.length =
            UInt64.ofNat (offset.toNat + header.length + (items.map Prod.fst).flatten.length) := by
        rw [← UInt64.ofNat_add]
      have hfits : ¬ UInt64.ofNat (offset.toNat + header.length +
          (items.map Prod.fst).flatten.length) > size data := by
        rw [gt_iff_lt, UInt64.lt_iff_toNat_lt, toNat_size hdata,
          toNat_ofNat_of_le hdata (by omega)]
        omega
      have hitems := decodeItems_of_lenient (decodeValue data fuel) hdata items (fuel + 1)
        (UInt64.ofNat (offset.toNat + header.length))
        (fun item hitem p rest' hp => by
          have hmem : item.1 ∈ items.map Prod.fst := List.mem_map.2 ⟨item, hitem, rfl⟩
          have hle' := length_le_flatten hmem
          have hpos' := (hall item hitem).length_pos
          obtain ⟨fuel', rfl⟩ : ∃ n, fuel = n + 1 := ⟨fuel - 1, by omega⟩
          exact ih item hitem (hstorable.of_mem (List.mem_map.2 ⟨item, hitem, rfl⟩)) p rest' hp
            hpos' fuel' (by omega))
        (fun item hitem => (hall item hitem).length_pos)
        (by rw [hstart]; exact drop_of_drop hdrop') (by omega) (by omega)
      rw [hstart] at hitems
      rw [decodeValue, if_neg hoffset, bind_of_ok (byteAt_eq_ok.2 hfirst), if_pos hle,
        decodeListWith, if_neg hoffset, bind_of_ok (byteAt_eq_ok.2 hfirst),
        if_neg (UInt8.not_lt.2 hle), bind_of_ok hdecode]
      simp only [hsum, if_neg hfits]
      rw [bind_of_ok hitems]
      simp only [ne_eq, not_true_eq_false, if_false, List.length_append, Nat.add_assoc]
      rfl

end Completeness

/-! ### Decoding undoes encoding -/

section RoundTrip

theorem lengthBytes_encodeLength {len : ℕ} (h : len < 2 ^ 64) (base : UInt8) :
    LengthBytes base len (encodeLength len base) := by
  by_cases hshort : len < 56
  · rw [encodeLength_of_lt hshort]
    exact LengthBytes.short hshort
  · rw [encodeLength_of_le (not_lt.1 hshort)]
    have hlen := readBE_minimalBE len
    have hlong : LengthBytes base (readBE (minimalBE len))
        ((base + 55 + UInt8.ofNat (minimalBE len).length) :: minimalBE len) :=
      .long (length_minimalBE_le h) (by omega)
    rwa [hlen] at hlong

theorem lenient_encodeBytes {b : List UInt8} (h : b.length < 2 ^ 64) :
    Lenient (encodeBytes b) (.bytes b) := by
  unfold encodeBytes
  split
  · next hsingle =>
      obtain ⟨x, rfl⟩ := List.length_eq_one_iff.1 hsingle.1
      exact Lenient.single hsingle.2
  · exact Lenient.bytes (lengthBytes_encodeLength h _)

theorem length_le_encodeBytes (b : List UInt8) : b.length ≤ (encodeBytes b).length := by
  unfold encodeBytes
  split
  · next hsingle => exact hsingle.1.le
  · rw [List.length_append]
    exact Nat.le_add_left _ _

/-- **An encoding is in the grammar.** -/
theorem lenient_encodeValue (v : RlpValue) (h : (encodeValue v).length < 2 ^ 64) :
    Lenient (encodeValue v) v := by
  induction v using RlpValue.induct with
  | hbytes b =>
      rw [encodeValue_bytes] at h ⊢
      exact lenient_encodeBytes ((length_le_encodeBytes b).trans_lt h)
  | hlist l ih =>
      rw [encodeValue, List.length_append] at h
      have hfst : (l.map fun v => (encodeValue v, v)).map Prod.fst = l.map encodeValue := by
        rw [List.map_map]
        rfl
      have hsnd : (l.map fun v => (encodeValue v, v)).map Prod.snd = l := by
        rw [List.map_map]
        exact List.map_id l
      have hlenient := @Lenient.list (encodeLength (encodePayload l).length 0xC0)
        (l.map fun v => (encodeValue v, v))
        (by
          rw [hfst, ← encodePayload_eq_flatten]
          exact lengthBytes_encodeLength (by omega) _)
        (by
          intro item hitem
          obtain ⟨v, hv, rfl⟩ := List.mem_map.1 hitem
          have hle := length_le_flatten (List.mem_map.2 ⟨v, hv, rfl⟩ :
            encodeValue v ∈ l.map encodeValue)
          rw [← encodePayload_eq_flatten] at hle
          exact ih v hv (by omega))
      rw [hfst, hsnd, ← encodePayload_eq_flatten] at hlenient
      rwa [encodeValue]

/-- **Decoding undoes encoding**, at any offset of a buffer and before any suffix: the value comes
back, and the next offset is that of the suffix.  As many nested calls are enough as the encoding
has bytes. -/
theorem decodeValue_encodeValue (v : RlpValue) (hstorable : v.Storable)
    (before suffix : List UInt8) (hsize : (before ++ encodeValue v ++ suffix).length < 2 ^ 64)
    (fuel : ℕ) (hfuel : (encodeValue v).length ≤ fuel) :
    decodeValue (before ++ encodeValue v ++ suffix) fuel (UInt64.ofNat before.length) =
      .ok (v, UInt64.ofNat (before.length + (encodeValue v).length)) := by
  have hlength : (before ++ encodeValue v ++ suffix).length =
      before.length + (encodeValue v).length + suffix.length := by
    rw [List.length_append, List.length_append]
  have hoffset : (UInt64.ofNat before.length).toNat = before.length :=
    toNat_ofNat_of_le hsize (by omega)
  have hdrop : (before ++ encodeValue v ++ suffix).drop (UInt64.ofNat before.length).toNat =
      encodeValue v ++ suffix := by
    rw [hoffset, List.append_assoc, List.drop_left]
  have hdecode := decodeValue_of_lenient hsize (lenient_encodeValue v (by omega)) hstorable fuel
    hfuel _ suffix hdrop
  rwa [hoffset] at hdecode

theorem decodeValue_encodeValue_nested :
    decodeValue ([7] ++ encodeValue (.list [.bytes [1, 200], .list []]) ++ [9]) 6 1 =
      .ok (.list [.bytes [1, 200], .list []], 6) := by
  refine decodeValue_encodeValue (.list [.bytes [1, 200], .list []]) ?_ [7] [9] (by decide) 6
    (by decide)
  refine RlpValue.Storable.list fun v hv => ?_
  rcases List.mem_cons.1 hv with rfl | hv
  · exact RlpValue.Storable.bytes (by decide)
  · rw [List.mem_singleton.1 hv]
    exact RlpValue.Storable.list fun v hv => absurd hv List.not_mem_nil

end RoundTrip

end Rlp
