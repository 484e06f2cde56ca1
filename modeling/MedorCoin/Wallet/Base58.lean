/-
**Addresses in base 58.**

An address is written with its checksum as a number in base 58; a zero byte in front, which does not
count in the number, is written as a `1` of its own.  The digits are computed byte by byte: what is
there is multiplied by 256, the byte is added, and the carry goes through the digits from the lowest
on.  There are two such encoders, one for the mnemonics, which walks by indices, and one for the
wallet, which walks over ranges.

Main definitions:

* `Base58.base58check`, `Base58.encodeBase58Check` — the two encoders;
* `Base58.decodeBase58` — the bytes that a text stands for;
* `Base58.Shows` — the digits of a number.

Main results:

* `Base58.base58check_eq` — **the two encoders agree**;
* `Base58.shows_digitsOf` — the loop computes the digits of the bytes;
* `Base58.decodeBase58_encodeBase58Check` — **a payload is read back with its checksum**;
* `Base58.encoders_faithful` — the same for both, and different payloads have different texts.
-/

import MedorCoin.Cpp.BigEndian
import MedorCoin.Cpp.Text
import Mathlib.Data.FinEnum
import Mathlib.Data.List.GetD

set_option autoImplicit false

namespace Base58

open Cpp

/-- `BASE58_CHARS`. -/
def BASE58_CHARS : Str := str "123456789ABCDEFGHJKLMNPQRSTUVWXYZabcdefghijkmnopqrstuvwxyz"

/-! ### The encoders -/

/-- `while (carry > 0)`: what is left of the carry goes behind the digits. -/
def pushCarry (carry : UInt32) (digits : List UInt8) : List UInt8 :=
  if 0 < carry then pushCarry (carry / 58) (digits ++ [(carry % 58).toUInt8]) else digits
termination_by carry.toNat
decreasing_by
  have hcarry : (0 : UInt32).toNat < carry.toNat := UInt32.lt_iff_toNat_lt.1 ‹_›
  rw [UInt32.toNat_div]
  exact Nat.div_lt_self hcarry (by decide)

/-- A turn of the loop over the digits by their indices. -/
def digitAt (acc : UInt32 × List UInt8) (j : ℕ) : UInt32 × List UInt8 :=
  let carry := acc.1 + (acc.2.getD j 0).toUInt32 <<< 8
  (carry / 58, acc.2.set j (carry % 58).toUInt8)

/-- A turn of the loop over the bytes by their indices. -/
def byteAt (full : List UInt8) (digits : List UInt8) (i : ℕ) : List UInt8 :=
  let r := (List.range digits.length).foldl digitAt ((full.getD i 0).toUInt32, digits)
  pushCarry r.1 r.2

/-- The loop over the digits from one to the next. -/
def eachDigit : UInt32 → List UInt8 → UInt32 × List UInt8
  | carry, [] => (carry, [])
  | carry, d :: digits =>
      let carry := carry + d.toUInt32 <<< 8
      let r := eachDigit (carry / 58) digits
      (r.1, (carry % 58).toUInt8 :: r.2)

/-- A turn of the loop over the bytes from one to the next. -/
def eachByte (digits : List UInt8) (byte : UInt8) : List UInt8 :=
  let r := eachDigit byte.toUInt32 digits
  pushCarry r.1 r.2

section Encoders

variable (sha256 : List UInt8 → Vector UInt8 32)

/-- `base58check(payload)` of the mnemonics. -/
def base58check (payload : List UInt8) : Except Str Str :=
  if payload = [] then .error (str "base58check: empty payload")
  else
    let h2 := sha256 (sha256 payload).toList
    let full := payload ++ h2.toList.take 4
    let leadingZeros :=
      ((List.range payload.length).takeWhile fun i => payload.getD i 0 == 0).length
    let digits := (List.range full.length).foldl (byteAt full) [0]
    .ok (List.replicate leadingZeros 49 ++
      (List.range digits.length).reverse.map fun i => BASE58_CHARS.getD (digits.getD i 0).toNat 0)

/-- `encodeBase58Check(payload)` of the wallet. -/
def encodeBase58Check (payload : List UInt8) : Except Str Str :=
  if payload = [] then .error (str "encodeBase58Check: empty payload")
  else
    let h2 := sha256 (sha256 payload).toList
    let full := payload ++ h2.toList.take 4
    let leadingZeros := (payload.takeWhile (· == 0)).length
    let digits := full.foldl eachByte [0]
    .ok (List.replicate leadingZeros 49 ++
      digits.reverse.map fun d => BASE58_CHARS.getD d.toNat 0)

end Encoders

/-! ### Walking by indices -/

theorem map_getD_range (l : List UInt8) : (List.range l.length).map (fun i => l.getD i 0) = l := by
  refine List.ext_getElem (by simp) fun i _ hi => ?_
  rw [List.getElem_map, List.getElem_range, List.getD_eq_getElem _ _ hi]

theorem length_takeWhile_range (l : List UInt8) :
    ((List.range l.length).takeWhile fun i => l.getD i 0 == 0).length =
      (l.takeWhile (· == 0)).length := by
  conv_rhs => rw [← map_getD_range l, List.takeWhile_map, List.length_map]
  rfl

/-- **The loop by indices over the digits is the loop from one to the next.** -/
theorem foldl_digitAt (carry : UInt32) (front digits : List UInt8) :
    (List.range' front.length digits.length).foldl digitAt (carry, front ++ digits) =
      ((eachDigit carry digits).1, front ++ (eachDigit carry digits).2) := by
  induction digits generalizing carry front with
  | nil => rfl
  | cons d digits ih =>
      have hget : (front ++ d :: digits).getD front.length 0 = d := by simp
      have hset (x : UInt8) :
          (front ++ d :: digits).set front.length x = (front ++ [x]) ++ digits := by
        simp
      have hlength (x : UInt8) : front.length + 1 = (front ++ [x]).length := by simp
      rw [List.length_cons, List.range'_succ, List.foldl_cons, digitAt, hget, hset,
        hlength ((carry + d.toUInt32 <<< 8) % 58).toUInt8, ih, eachDigit, List.append_assoc]
      rfl

theorem byteAt_eq (full digits : List UInt8) (i : ℕ) :
    byteAt full digits i = eachByte digits (full.getD i 0) := by
  have h := foldl_digitAt (full.getD i 0).toUInt32 [] digits
  rw [List.length_nil, ← List.range_eq_range', List.nil_append, List.nil_append] at h
  rw [byteAt, eachByte, h]

theorem foldl_byteAt (full digits : List UInt8) :
    (List.range full.length).foldl (byteAt full) digits = full.foldl eachByte digits := by
  have hbyte : byteAt full = fun digits i => eachByte digits (full.getD i 0) := by
    funext digits i
    exact byteAt_eq full digits i
  conv_rhs => rw [← map_getD_range full, List.foldl_map]
  rw [hbyte]

/-- **The two encoders agree.** -/
theorem base58check_eq (sha256 : List UInt8 → Vector UInt8 32) {payload : List UInt8}
    (h : payload ≠ []) : base58check sha256 payload = encodeBase58Check sha256 payload := by
  have hreverse (digits : List UInt8) : (List.range digits.length).reverse.map
      (fun i => BASE58_CHARS.getD (digits.getD i 0).toNat 0) =
        digits.reverse.map fun d => BASE58_CHARS.getD d.toNat 0 := by
    conv_rhs => rw [← map_getD_range digits, ← List.map_reverse, List.map_map]
    rfl
  rw [base58check, encodeBase58Check, if_neg h, if_neg h]
  simp only [length_takeWhile_range, foldl_byteAt, hreverse]

/-! ### The digits of a number -/

/-- The digits are those of the number, of which zero has one. -/
def Shows (digits : List UInt8) (v : ℕ) : Prop :=
  digits.map UInt8.toNat = if v = 0 then [0] else Nat.digits 58 v

theorem toNat_carry {carry : UInt32} {d : UInt8} (hcarry : carry.toNat < 256)
    (hd : d.toNat < 58) :
    ((carry + d.toUInt32 <<< 8) / 58).toNat = (carry.toNat + d.toNat * 256) / 58 ∧
      ((carry + d.toUInt32 <<< 8) % 58).toUInt8.toNat = (carry.toNat + d.toNat * 256) % 58 := by
  have hshift : (d.toUInt32 <<< 8).toNat = d.toNat * 256 := by
    rw [UInt32.toNat_shiftLeft, UInt8.toNat_toUInt32, Nat.shiftLeft_eq]
    exact Nat.mod_eq_of_lt (by change d.toNat * 2 ^ 8 < 2 ^ 32; omega)
  have hsum : (carry + d.toUInt32 <<< 8).toNat = carry.toNat + d.toNat * 256 := by
    rw [UInt32.toNat_add, hshift]
    omega
  constructor
  · rw [UInt32.toNat_div, hsum]
    rfl
  · rw [UInt32.toNat_toUInt8, UInt32.toNat_mod, hsum]
    exact Nat.mod_eq_of_lt (by change _ % 58 < 2 ^ 8; omega)

/-- Going through the digits is long multiplication: the digits stay digits, the carry stays below
256, and what is there with the carry is worth what was there times 256 with the carry before. -/
theorem eachDigit_spec {carry : UInt32} {digits : List UInt8} (hcarry : carry.toNat < 256)
    (hdigits : ∀ d ∈ digits, d.toNat < 58) :
    (eachDigit carry digits).1.toNat < 256 ∧
      (eachDigit carry digits).2.length = digits.length ∧
      (∀ d ∈ (eachDigit carry digits).2, d.toNat < 58) ∧
      Nat.ofDigits 58 ((eachDigit carry digits).2.map UInt8.toNat) +
          58 ^ digits.length * (eachDigit carry digits).1.toNat =
        carry.toNat + 256 * Nat.ofDigits 58 (digits.map UInt8.toNat) := by
  induction digits generalizing carry with
  | nil =>
      refine ⟨hcarry, rfl, by simp [eachDigit], ?_⟩
      simp [eachDigit]
  | cons d digits ih =>
      have hd : d.toNat < 58 := hdigits d (List.mem_cons_self ..)
      obtain ⟨hdiv, hmod⟩ := toNat_carry hcarry hd
      obtain ⟨hless, hlength, hrest, hvalue⟩ :=
        @ih ((carry + d.toUInt32 <<< 8) / 58) (by omega)
          fun d' hd' => hdigits d' (List.mem_cons_of_mem _ hd')
      rw [hdiv] at hvalue
      simp only [eachDigit]
      refine ⟨hless, by rw [List.length_cons, hlength, List.length_cons], ?_, ?_⟩
      · intro d' hd'
        rcases List.mem_cons.1 hd' with rfl | hd'
        · rw [hmod]
          omega
        · exact hrest d' hd'
      · rw [List.map_cons, List.map_cons, Nat.ofDigits_cons, Nat.ofDigits_cons, hmod,
          List.length_cons, Nat.pow_succ]
        have hsplit := Nat.mod_add_div (carry.toNat + d.toNat * 256) 58
        calc (carry.toNat + d.toNat * 256) % 58 +
                58 * Nat.ofDigits 58 ((eachDigit ((carry + d.toUInt32 <<< 8) / 58) digits).2.map
                  UInt8.toNat) +
              58 ^ digits.length * 58 *
                (eachDigit ((carry + d.toUInt32 <<< 8) / 58) digits).1.toNat
            = (carry.toNat + d.toNat * 256) % 58 +
                58 * (Nat.ofDigits 58 ((eachDigit ((carry + d.toUInt32 <<< 8) / 58) digits).2.map
                  UInt8.toNat) + 58 ^ digits.length *
                (eachDigit ((carry + d.toUInt32 <<< 8) / 58) digits).1.toNat) := by ring
          _ = carry.toNat + 256 * (d.toNat + 58 * Nat.ofDigits 58 (digits.map UInt8.toNat)) := by
              rw [hvalue]
              linarith

theorem pushCarry_eq (carry : UInt32) (digits : List UInt8) :
    pushCarry carry digits = digits ++ (Nat.digits 58 carry.toNat).map UInt8.ofNat := by
  fun_induction pushCarry carry digits with
  | case1 carry digits hcarry ih =>
      have hpos : 0 < carry.toNat := UInt32.lt_iff_toNat_lt.1 hcarry
      have hmod : (carry % 58).toUInt8 = UInt8.ofNat (carry.toNat % 58) := by
        rw [← UInt8.toNat_inj, UInt32.toNat_toUInt8, UInt32.toNat_mod, toNat_ofNat_byte]
        rfl
      have hdiv : (carry / 58).toNat = carry.toNat / 58 := UInt32.toNat_div ..
      rw [ih, hdiv, Nat.digits_def' (by decide) hpos, List.map_cons, hmod, List.append_assoc,
        List.singleton_append]
  | case2 carry digits hcarry =>
      have hzero : carry.toNat = 0 := by
        have h := UInt32.lt_iff_toNat_lt.not.1 hcarry
        exact Nat.eq_zero_of_not_pos h
      rw [hzero, Nat.digits_zero, List.map_nil, List.append_nil]

theorem map_toNat_pushCarry (carry : UInt32) (digits : List UInt8) :
    (pushCarry carry digits).map UInt8.toNat =
      digits.map UInt8.toNat ++ Nat.digits 58 carry.toNat := by
  rw [pushCarry_eq, List.map_append, List.map_map]
  congr 1
  refine (List.map_congr_left fun d hd => ?_).trans (List.map_id _)
  have hlt : d < 58 := Nat.digits_lt_base (by decide) hd
  rw [Function.comp_apply, toNat_ofNat_byte, Nat.mod_eq_of_lt (by omega), id]

/-- Digits with those of a carry behind them are the digits of the sum, where the last is not
zero. -/
theorem digits_eq_append {l : List ℕ} {c : ℕ} (hl : ∀ d ∈ l, d < 58)
    (hlast : c = 0 → ∀ h : l ≠ [], l.getLast h ≠ 0) :
    Nat.digits 58 (Nat.ofDigits 58 l + 58 ^ l.length * c) = l ++ Nat.digits 58 c := by
  conv_lhs => rw [← Nat.ofDigits_digits 58 c, ← Nat.ofDigits_append]
  refine Nat.digits_ofDigits 58 (by decide) _ ?_ fun hne => ?_
  · intro d hd
    rcases List.mem_append.1 hd with hd | hd
    · exact hl d hd
    · exact Nat.digits_lt_base (by decide) hd
  · by_cases hc : c = 0
    · simp only [hc, Nat.digits_zero, List.append_nil] at hne ⊢
      exact hlast hc hne
    · rw [List.getLast_append_of_right_ne_nil _ _ (Nat.digits_ne_nil_iff_ne_zero.2 hc)]
      exact Nat.getLast_digit_ne_zero 58 hc

theorem shows_zero : Shows [0] 0 := rfl

namespace Shows

variable {digits : List UInt8} {v : ℕ}

theorem ofDigits_eq (h : Shows digits v) : Nat.ofDigits 58 (digits.map UInt8.toNat) = v := by
  rw [h]
  split
  · next hv => rw [hv, Nat.ofDigits_singleton]
  · exact Nat.ofDigits_digits 58 v

theorem lt (h : Shows digits v) {d : UInt8} (hd : d ∈ digits) : d.toNat < 58 := by
  have hmem : d.toNat ∈ digits.map UInt8.toNat := List.mem_map_of_mem hd
  rw [h] at hmem
  split at hmem
  · rw [List.mem_singleton.1 hmem]
    decide
  · exact Nat.digits_lt_base (by decide) hmem

theorem pow_le (h : Shows digits v) (hv : v ≠ 0) : 58 ^ digits.length ≤ 58 * v := by
  have hlength : digits.length = (Nat.digits 58 v).length := by
    rw [← List.length_map UInt8.toNat, h, if_neg hv]
  rw [hlength]
  exact Nat.base_pow_length_digits_le 58 v (by decide) hv

/-- **A turn of the loop over the bytes keeps it:** the digits show 256 times the number plus the
byte.  Behind a number that is not zero the carry is never zero, so that no digit in front is. -/
theorem eachByte (h : Shows digits v) (byte : UInt8) :
    Shows (eachByte digits byte) (256 * v + byte.toNat) := by
  have hbyte : byte.toUInt32.toNat < 256 := by
    rw [UInt8.toNat_toUInt32]
    exact byte.toNat_lt
  obtain ⟨-, hlength, hdigits, hvalue⟩ := eachDigit_spec hbyte fun _ hd => h.lt hd
  rw [UInt8.toNat_toUInt32, h.ofDigits_eq, Nat.add_comm byte.toNat, ← hlength,
    ← List.length_map UInt8.toNat] at hvalue
  have hless : ∀ d ∈ (eachDigit byte.toUInt32 digits).2.map UInt8.toNat, d < 58 := by
    intro d hd
    obtain ⟨b, hb, rfl⟩ := List.mem_map.1 hd
    exact hdigits b hb
  rw [← List.length_map UInt8.toNat] at hlength
  rw [Shows, Base58.eachByte, map_toNat_pushCarry]
  generalize (eachDigit byte.toUInt32 digits).2.map UInt8.toNat = l at *
  generalize (eachDigit byte.toUInt32 digits).1.toNat = c at *
  have hlt : Nat.ofDigits 58 l < 58 ^ l.length := Nat.ofDigits_lt_base_pow_length (by decide) hless
  by_cases hv : v = 0
  · -- one digit, and the byte goes through it
    have hone : digits.length = 1 := by
      rw [← List.length_map UInt8.toNat, h, if_pos hv, List.length_singleton]
    obtain ⟨x, rfl⟩ := List.length_eq_one_iff.1 (hlength.trans hone)
    rw [Nat.ofDigits_singleton, List.length_singleton, Nat.pow_one] at hvalue
    split
    · next hw =>
        obtain ⟨rfl, rfl⟩ : x = 0 ∧ c = 0 := by omega
        rw [Nat.digits_zero, List.append_nil]
    · next hw =>
        rw [← hvalue, ← digits_eq_append hless, Nat.ofDigits_singleton, List.length_singleton,
          Nat.pow_one]
        intro hc hne
        rw [List.getLast_singleton]
        omega
  · -- the carry is not zero, as the digits alone would be worth too little
    have hpow := h.pow_le hv
    rw [← hlength] at hpow
    have hc : c ≠ 0 := by
      rintro rfl
      omega
    rw [if_neg (by omega), ← hvalue, digits_eq_append hless fun h => absurd h hc]

end Shows

/-- **The loop over the bytes computes the digits** of the number that they stand for. -/
theorem shows_digitsOf (full : List UInt8) : Shows (full.foldl eachByte [0]) (readBE full) := by
  induction full using List.reverseRecOn with
  | nil => exact shows_zero
  | append_singleton full byte ih =>
      rw [List.foldl_append, List.foldl_cons, List.foldl_nil, readBE_concat, Nat.mul_comm]
      exact ih.eachByte byte

/-! ### Reading back -/

/-- What a character is worth. -/
def digitOf (c : UInt8) : ℕ := BASE58_CHARS.idxOf c

/-- The bytes that a text stands for: one zero for each `1` in front, and those of the number. -/
def decodeBase58 (text : Str) : Option (List UInt8) :=
  if ∀ c ∈ text, c ∈ BASE58_CHARS then
    some (List.replicate (text.takeWhile (· == 49)).length 0 ++
      minimalBE (Nat.ofDigits 58 (text.reverse.map digitOf)))
  else none

theorem digitOf_getD {n : ℕ} (h : n < 58) : digitOf (BASE58_CHARS.getD n 0) = n := by
  have hlength : BASE58_CHARS.length = 58 := by decide
  rw [digitOf, List.getD_eq_getElem _ _ (hlength ▸ h)]
  exact List.Nodup.idxOf_getElem (by decide) n (hlength ▸ h)

theorem getD_mem {n : ℕ} (h : n < 58) : BASE58_CHARS.getD n 0 ∈ BASE58_CHARS := by
  have hlength : BASE58_CHARS.length = 58 := by decide
  rw [List.getD_eq_getElem _ _ (hlength ▸ h)]
  exact List.getElem_mem _

theorem map_digitOf {digits : List UInt8} (h : ∀ d ∈ digits, d.toNat < 58) :
    (digits.map fun d => BASE58_CHARS.getD d.toNat 0).map digitOf = digits.map UInt8.toNat := by
  rw [List.map_map]
  exact List.map_congr_left fun d hd => digitOf_getD (h d hd)

theorem takeWhile_ones {digits : List UInt8} {v : ℕ} (h : Shows digits v) (hv : v ≠ 0) :
    (digits.reverse.map fun d => BASE58_CHARS.getD d.toNat 0).takeWhile (· == 49) = [] := by
  have hdigits : digits.map UInt8.toNat = Nat.digits 58 v := by rw [h, if_neg hv]
  cases hreverse : digits.reverse with
  | nil => rfl
  | cons d front =>
      have hsplit : digits = front.reverse ++ [d] := by
        rw [← List.reverse_reverse digits, hreverse, List.reverse_cons]
      have hd : d.toNat < 58 := h.lt (by rw [hsplit]; simp)
      have hne : d.toNat ≠ 0 := by
        have hlast := Nat.getLast_digit_ne_zero 58 hv
        rw [hsplit, List.map_append] at hdigits
        simpa [← hdigits] using hlast
      have hone : BASE58_CHARS.getD d.toNat 0 ≠ 49 := by
        intro hone
        have hworth := digitOf_getD hd
        rw [hone] at hworth
        exact hne hworth.symm
      rw [List.map_cons, List.takeWhile_cons_of_neg (by simpa using hone)]

theorem readBE_ne_zero {payload rest : List UInt8} (h : ∃ b ∈ payload, b ≠ 0) :
    (payload ++ rest).dropWhile (· == 0) = payload.dropWhile (· == 0) ++ rest ∧
      readBE (payload ++ rest) ≠ 0 := by
  have hdrop : payload.dropWhile (· == 0) ≠ [] := by
    intro hnil
    obtain ⟨b, hb, hne⟩ := h
    exact hne (eq_of_beq (List.dropWhile_eq_nil_iff.1 hnil b hb))
  have happend : (payload ++ rest).dropWhile (· == 0) = payload.dropWhile (· == 0) ++ rest := by
    rw [List.dropWhile_append, if_neg (by simpa using hdrop)]
  refine ⟨happend, fun hzero => ?_⟩
  have hshort := minimalBE_readBE_eq_dropWhile (payload ++ rest)
  rw [hzero, minimalBE_zero, happend] at hshort
  exact hdrop (List.append_eq_nil_iff.1 hshort.symm).1

/-- **A payload is read back with its checksum.** -/
theorem decodeBase58_encode {payload rest : List UInt8} (h : ∃ b ∈ payload, b ≠ 0) :
    decodeBase58 (List.replicate (payload.takeWhile (· == 0)).length (49 : UInt8) ++
      ((payload ++ rest).foldl eachByte [0]).reverse.map fun d => BASE58_CHARS.getD d.toNat 0) =
        some (payload ++ rest) := by
  have hshows := shows_digitsOf (payload ++ rest)
  obtain ⟨hdrop, hne⟩ := @readBE_ne_zero payload rest h
  generalize (payload ++ rest).foldl eachByte [0] = digits at *
  have hzeros : List.replicate (payload.takeWhile (· == 0)).length (0 : UInt8) =
      payload.takeWhile (· == 0) := by
    refine (List.eq_replicate_of_mem fun b hb => ?_).symm
    have hb0 := List.mem_takeWhile_imp (p := fun c : UInt8 => c == 0) hb
    exact eq_of_beq hb0
  have hchars : ∀ c ∈ List.replicate (payload.takeWhile (· == 0)).length (49 : UInt8) ++
      digits.reverse.map fun d => BASE58_CHARS.getD d.toNat 0, c ∈ BASE58_CHARS := by
    intro c hc
    rcases List.mem_append.1 hc with hc | hc
    · rw [List.eq_of_mem_replicate hc]
      decide
    · obtain ⟨d, hd, rfl⟩ := List.mem_map.1 hc
      exact getD_mem (hshows.lt (List.mem_reverse.1 hd))
  have hvalue : Nat.ofDigits 58 ((List.replicate (payload.takeWhile (· == 0)).length (49 : UInt8) ++
      digits.reverse.map fun d : UInt8 => BASE58_CHARS.getD d.toNat 0).reverse.map digitOf) =
        readBE (payload ++ rest) := by
    have hone : digitOf (49 : UInt8) = 0 := by decide
    rw [List.reverse_append, List.map_append, List.reverse_replicate, List.map_replicate, hone,
      Nat.ofDigits_append_replicate_zero, ← List.map_reverse, List.reverse_reverse,
      map_digitOf fun d => hshows.lt, hshows.ofDigits_eq]
  rw [decodeBase58, if_pos hchars, hvalue, minimalBE_readBE_eq_dropWhile, hdrop,
    List.takeWhile_append_of_pos (by simp), takeWhile_ones hshows hne, List.append_nil,
    List.length_replicate, hzeros, ← List.append_assoc, List.takeWhile_append_dropWhile]

section Faithful

variable (sha256 : List UInt8 → Vector UInt8 32)

/-- `payload` with the first four bytes of its double hash. -/
def withChecksum (payload : List UInt8) : List UInt8 :=
  payload ++ (sha256 (sha256 payload).toList).toList.take 4

theorem withChecksum_injective {payload payload' : List UInt8}
    (h : withChecksum sha256 payload = withChecksum sha256 payload') : payload = payload' := by
  refine (List.append_inj' h ?_).1
  simp

theorem decodeBase58_encodeBase58Check {payload : List UInt8} (h : ∃ b ∈ payload, b ≠ 0) :
    ∃ text, encodeBase58Check sha256 payload = .ok text ∧
      decodeBase58 text = some (withChecksum sha256 payload) := by
  have hne : payload ≠ [] := by
    rintro rfl
    obtain ⟨b, hb, -⟩ := h
    exact absurd hb List.not_mem_nil
  refine ⟨_, ?_, decodeBase58_encode h⟩
  rw [encodeBase58Check, if_neg hne]

/-- **The encoders agree and are faithful.**  On every payload both return the same text; where a
byte of it is not zero, the text stands for the payload and its checksum, so that two such payloads
with one text are the same. -/
theorem encoders_faithful :
    (∀ payload : List UInt8, payload ≠ [] → ∃ text, base58check sha256 payload = .ok text ∧
      encodeBase58Check sha256 payload = .ok text) ∧
    (∀ payload : List UInt8, (∃ b ∈ payload, b ≠ 0) → ∃ text,
      base58check sha256 payload = .ok text ∧ encodeBase58Check sha256 payload = .ok text ∧
        decodeBase58 text = some (withChecksum sha256 payload)) ∧
    (∀ payload payload' : List UInt8, (∃ b ∈ payload, b ≠ 0) → (∃ b ∈ payload', b ≠ 0) →
      encodeBase58Check sha256 payload = encodeBase58Check sha256 payload' →
        payload = payload') := by
  refine ⟨fun payload hne => ?_, fun payload h => ?_, fun payload payload' h h' hsame => ?_⟩
  · rw [base58check_eq sha256 hne, encodeBase58Check, if_neg hne]
    exact ⟨_, rfl, rfl⟩
  · obtain ⟨text, htext, hdecode⟩ := decodeBase58_encodeBase58Check sha256 h
    have hne : payload ≠ [] := by
      rintro rfl
      exact absurd htext (by simp [encodeBase58Check])
    exact ⟨text, (base58check_eq sha256 hne).trans htext, htext, hdecode⟩
  · obtain ⟨text, htext, hdecode⟩ := decodeBase58_encodeBase58Check sha256 h
    obtain ⟨text', htext', hdecode'⟩ := decodeBase58_encodeBase58Check sha256 h'
    rw [hsame, htext'] at htext
    cases htext
    rw [hdecode'] at hdecode
    exact (withChecksum_injective sha256 (Option.some.inj hdecode)).symm

end Faithful

end Base58
