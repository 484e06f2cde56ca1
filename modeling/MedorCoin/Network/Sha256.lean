/-
**The checksum of the network.**

The network has an implementation of SHA-256 of its own for the checksums of the files it keeps.  It
pads the message in a loop, computes the whole message schedule of a block in an array before the
rounds, and prints the eight words of the state at the end.

Main definitions:

* `Network.Sha256.pad` — the message with the padding;
* `Network.Sha256.schedule`, `Network.Sha256.compress` — the array of a block, and its rounds;
* `Network.sha256hex` — the checksum.

Main results:

* `Network.Sha256.pad_eq` — the loop of the padding comes to its end, where it should;
* `Network.Sha256.toRegisters_compress` — **a block does what it does in SHA-256**;
* `Network.sha256hex_eq` — **the checksum is SHA-256**, of every byte string.
-/

import MedorCoin.Cpp.Text
import MedorCoin.Js.Sha256
import Mathlib.Data.List.Basic
import Mathlib.Data.List.GetD

set_option autoImplicit false

namespace Network

open Cpp

namespace Sha256

/-! ### The source -/

/-- `sha256_rotr(x, n)`. -/
def sha256_rotr (x n : UInt32) : UInt32 := (x >>> n) ||| (x <<< (32 - n))

/-- `K[64]`. -/
def K : List UInt32 :=
  [0x428a2f98, 0x71374491, 0xb5c0fbcf, 0xe9b5dba5, 0x3956c25b, 0x59f111f1, 0x923f82a4, 0xab1c5ed5,
   0xd807aa98, 0x12835b01, 0x243185be, 0x550c7dc3, 0x72be5d74, 0x80deb1fe, 0x9bdc06a7, 0xc19bf174,
   0xe49b69c1, 0xefbe4786, 0x0fc19dc6, 0x240ca1cc, 0x2de92c6f, 0x4a7484aa, 0x5cb0a9dc, 0x76f988da,
   0x983e5152, 0xa831c66d, 0xb00327c8, 0xbf597fc7, 0xc6e00bf3, 0xd5a79147, 0x06ca6351, 0x14292967,
   0x27b70a85, 0x2e1b2138, 0x4d2c6dfc, 0x53380d13, 0x650a7354, 0x766a0abb, 0x81c2c92e, 0x92722c85,
   0xa2bfe8a1, 0xa81a664b, 0xc24b8b70, 0xc76c51a3, 0xd192e819, 0xd6990624, 0xf40e3585, 0x106aa070,
   0x19a4c116, 0x1e376c08, 0x2748774c, 0x34b0bcb5, 0x391c0cb3, 0x4ed8aa4a, 0x5b9cca4f, 0x682e6ff3,
   0x748f82ee, 0x78a5636f, 0x84c87814, 0x8cc70208, 0x90befffa, 0xa4506ceb, 0xbef9a3f7, 0xc67178f2]

/-- The words `h[8]`, and the working variables `a` to `hh`. -/
structure Words where
  (a b c d e f g hh : UInt32)

/-- `h[8]` at the start. -/
def initial : Words :=
  ⟨0x6a09e667, 0xbb67ae85, 0x3c6ef372, 0xa54ff53a, 0x510e527f, 0x9b05688c, 0x1f83d9ab, 0x5be0cd19⟩

/-- `while (msg.size() % 64 != 56) msg.push_back(0)`, at most so many times. -/
def pushZeros : ℕ → Str → Str
  | 0, msg => msg
  | n + 1, msg => if msg.length % 64 ≠ 56 then pushZeros n (msg ++ [0]) else msg

/-- The message, the byte `0x80`, zeros, and the number of bits in eight bytes. -/
def pad (data : Str) : Str :=
  let msg := pushZeros 64 (data ++ [0x80])
  let bits := UInt64.ofNat data.length * 8
  msg ++ ([7, 6, 5, 4, 3, 2, 1, 0] : List UInt64).map fun i =>
    ((bits >>> (i * 8)) &&& 0xFF).toUInt8

/-- A byte of the message, as a word. -/
def byte (msg : Str) (i : ℕ) : UInt32 := (msg.getD i 0).toUInt32

/-- `w[j]` for `j < 16`, of the block at `i`. -/
def loaded (msg : Str) (i j : ℕ) : UInt32 :=
  (byte msg (i + j * 4) <<< 24) ||| (byte msg (i + j * 4 + 1) <<< 16) |||
    (byte msg (i + j * 4 + 2) <<< 8) ||| byte msg (i + j * 4 + 3)

/-- A word from those sixteen, fifteen, seven and two places before. -/
def next (w16 w15 w7 w2 : UInt32) : UInt32 :=
  let s0 := sha256_rotr w15 7 ^^^ sha256_rotr w15 18 ^^^ (w15 >>> 3)
  let s1 := sha256_rotr w2 17 ^^^ sha256_rotr w2 19 ^^^ (w2 >>> 10)
  w16 + s0 + w7 + s1

/-- `w[j]` from the words before. -/
def extended (w : List UInt32) (j : ℕ) : UInt32 :=
  next (w.getD (j - 16) 0) (w.getD (j - 15) 0) (w.getD (j - 7) 0) (w.getD (j - 2) 0)

/-- `w[64]`, of the block at `i`. -/
def schedule (msg : Str) (i : ℕ) : List UInt32 :=
  (List.range' 16 48).foldl (fun w j => w ++ [extended w j]) ((List.range 16).map (loaded msg i))

/-- A turn of the loop over the rounds. -/
def round (v : Words) (k w : UInt32) : Words :=
  let S1 := sha256_rotr v.e 6 ^^^ sha256_rotr v.e 11 ^^^ sha256_rotr v.e 25
  let ch := (v.e &&& v.f) ^^^ (~~~v.e &&& v.g)
  let tmp1 := v.hh + S1 + ch + k + w
  let S0 := sha256_rotr v.a 2 ^^^ sha256_rotr v.a 13 ^^^ sha256_rotr v.a 22
  let maj := (v.a &&& v.b) ^^^ (v.a &&& v.c) ^^^ (v.b &&& v.c)
  let tmp2 := S0 + maj
  ⟨tmp1 + tmp2, v.a, v.b, v.c, v.d + tmp1, v.e, v.f, v.g⟩

/-- `h[0] += a`, and so on. -/
def Words.add (h v : Words) : Words :=
  ⟨h.a + v.a, h.b + v.b, h.c + v.c, h.d + v.d, h.e + v.e, h.f + v.f, h.g + v.g, h.hh + v.hh⟩

/-- What the block at `i` does to `h[8]`. -/
def compress (msg : Str) (h : Words) (i : ℕ) : Words :=
  let w := schedule msg i
  h.add ((List.range 64).foldl (fun v j => round v (K.getD j 0) (w.getD j 0)) h)

/-- `for (size_t i = 0; i < msg.size(); i += 64)`. -/
def absorb (msg : Str) (h : Words) : Words :=
  (List.range ((msg.length + 63) / 64)).foldl (fun h n => compress msg h (n * 64)) h

/-- `std::setw(8) << std::setfill('0') << h[i]`, in hexadecimal. -/
def hexWord (w : UInt32) : Str :=
  List.replicate (8 - (hexadecimal w.toNat).length) 48 ++ hexadecimal w.toNat

def Words.list (h : Words) : List UInt32 := [h.a, h.b, h.c, h.d, h.e, h.f, h.g, h.hh]

end Sha256

/-- `sha256hex(data, len)`. -/
def sha256hex (data : Str) : Str :=
  (Sha256.absorb (Sha256.pad data) Sha256.initial).list.flatMap Sha256.hexWord

namespace Sha256

/-! ### Words -/

/-- A word is a number below `2 ^ 32`. -/
def toRegisters (v : Words) : Js.Sha256.Registers :=
  ⟨v.a.toNat, v.b.toNat, v.c.toNat, v.d.toNat, v.e.toNat, v.f.toNat, v.g.toNat, v.hh.toNat⟩

theorem toNat_sha256_rotr (x n : UInt32) (hpos : 0 < n.toNat) (hlt : n.toNat < 32) :
    (sha256_rotr x n).toNat = Js.Sha256.rotr x.toNat n.toNat := by
  have hsub : (32 - n).toNat = 32 - n.toNat := by
    rw [UInt32.toNat_sub_of_le _ _ (by rw [UInt32.le_iff_toNat_le]; exact hlt.le)]
    rfl
  have hshift : x.toNat >>> n.toNat < 2 ^ 32 := by
    rw [Nat.shiftRight_eq_div_pow]
    exact (Nat.div_le_self _ _).trans_lt x.toNat_lt
  rw [sha256_rotr, UInt32.toNat_or, UInt32.toNat_shiftRight, UInt32.toNat_shiftLeft, hsub,
    Nat.mod_eq_of_lt hlt, Nat.mod_eq_of_lt (by omega : 32 - n.toNat < 32), Js.Sha256.rotr,
    show (4294967296 : ℕ) = 2 ^ 32 by rfl, Nat.or_mod_two_pow, Nat.mod_eq_of_lt hshift]

theorem toNat_choose (x y z : UInt32) :
    ((x &&& y) ^^^ (~~~x &&& z)).toNat = Js.Sha256.choose x.toNat y.toNat z.toNat := by
  rw [UInt32.toNat_xor, UInt32.toNat_and, UInt32.toNat_and, UInt32.toNat_not]
  rfl

/-- **A round.** -/
theorem toRegisters_round (v : Words) (k w : UInt32) :
    toRegisters (round v k w) = (toRegisters v).round k.toNat w.toNat := by
  have hS1 : (sha256_rotr v.e 6 ^^^ sha256_rotr v.e 11 ^^^ sha256_rotr v.e 25).toNat =
      Js.Sha256.bigSigma1 v.e.toNat := by
    rw [UInt32.toNat_xor, UInt32.toNat_xor, toNat_sha256_rotr v.e 6 (by decide) (by decide),
      toNat_sha256_rotr v.e 11 (by decide) (by decide),
      toNat_sha256_rotr v.e 25 (by decide) (by decide)]
    rfl
  have hS0 : (sha256_rotr v.a 2 ^^^ sha256_rotr v.a 13 ^^^ sha256_rotr v.a 22).toNat =
      Js.Sha256.bigSigma0 v.a.toNat := by
    rw [UInt32.toNat_xor, UInt32.toNat_xor, toNat_sha256_rotr v.a 2 (by decide) (by decide),
      toNat_sha256_rotr v.a 13 (by decide) (by decide),
      toNat_sha256_rotr v.a 22 (by decide) (by decide)]
    rfl
  have hmaj : ((v.a &&& v.b) ^^^ (v.a &&& v.c) ^^^ (v.b &&& v.c)).toNat =
      Js.Sha256.majority v.a.toNat v.b.toNat v.c.toNat := by
    simp only [UInt32.toNat_xor, UInt32.toNat_and]
    rfl
  have hch := toNat_choose v.e v.f v.g
  simp only [toRegisters, round, Js.Sha256.Registers.round, UInt32.toNat_add, hS1, hS0, hmaj, hch]
  congr 1 <;> omega

theorem toRegisters_add (h v : Words) :
    toRegisters (h.add v) = (toRegisters h).add (toRegisters v) := by
  simp only [toRegisters, Words.add, Js.Sha256.Registers.add, UInt32.toNat_add]

/-! ### The padding -/

/-- **The loop comes to its end**: it pushes as many zeros as are missing. -/
theorem pushZeros_eq (n : ℕ) (msg : Str) (h : (119 - (msg.length + 63) % 64) % 64 ≤ n) :
    pushZeros n msg = msg ++ List.replicate ((119 - (msg.length + 63) % 64) % 64) 0 := by
  induction n generalizing msg with
  | zero =>
      rw [Nat.le_zero.1 h, List.replicate_zero, List.append_nil, pushZeros]
  | succ n ih =>
      rw [pushZeros]
      split
      · next hne =>
          have hlen : (msg ++ [(0 : UInt8)]).length = msg.length + 1 := by simp
          have hnext : (119 - (msg.length + 63) % 64) % 64 =
              (119 - (msg.length + 1 + 63) % 64) % 64 + 1 := by omega
          rw [ih _ (by rw [hlen]; omega), hlen, hnext, List.append_assoc, List.replicate_succ]
          rfl
      · next heq =>
          have hzero : (119 - (msg.length + 63) % 64) % 64 = 0 := by omega
          rw [hzero, List.replicate_zero, List.append_nil]

theorem toNat_lengthByte (n : ℕ) (i : UInt64) (hi : i.toNat < 8) :
    (((UInt64.ofNat n * 8) >>> (i * 8)) &&& 0xFF).toUInt8.toNat =
      (8 * n) >>> (8 * i.toNat) % 256 := by
  have hshift : (i * 8).toNat = 8 * i.toNat := by
    rw [UInt64.toNat_mul, show (8 : UInt64).toNat = 8 by rfl]
    omega
  have hbits : (UInt64.ofNat n * 8).toNat = 8 * n % 2 ^ 64 := by
    rw [UInt64.toNat_mul, UInt64.toNat_ofNat', show (8 : UInt64).toNat = 8 by rfl]
    omega
  have hpow : (2 : ℕ) ^ 64 = 2 ^ (8 * i.toNat) * 2 ^ (64 - 8 * i.toNat) := by
    rw [← Nat.pow_add]
    congr 1
    omega
  have hdvd : 256 ∣ 2 ^ (64 - 8 * i.toNat) := by
    have h : (256 : ℕ) = 2 ^ 8 := by rfl
    exact h ▸ Nat.pow_dvd_pow 2 (by omega)
  rw [UInt64.toNat_toUInt8, UInt64.toNat_and, UInt64.toNat_shiftRight, hshift,
    Nat.mod_eq_of_lt (by omega : 8 * i.toNat < 64), hbits, show (255 : UInt64).toNat = 2 ^ 8 - 1 by rfl,
    Nat.and_two_pow_sub_one_eq_mod, Nat.shiftRight_eq_div_pow, Nat.shiftRight_eq_div_pow, hpow,
    Nat.mod_mul_right_div_self]
  rw [show (2 : ℕ) ^ 8 = 256 by rfl, Nat.mod_mod, Nat.mod_mod_of_dvd _ hdvd]

/-- **The padding** is that of SHA-256. -/
theorem pad_eq (data : Str) : (pad data).map UInt8.toNat = Js.Sha256.pad (data.map UInt8.toNat) := by
  have hlen : (data ++ [(0x80 : UInt8)]).length = data.length + 1 := by simp
  have hzeros : (119 - (data.length + 1 + 63) % 64) % 64 = (119 - data.length % 64) % 64 := by
    omega
  have hpush := pushZeros_eq 64 (data ++ [0x80]) (by omega)
  rw [hlen, hzeros] at hpush
  rw [pad, hpush, Js.Sha256.pad]
  simp only [List.map_append, List.map_cons, List.map_nil, List.map_replicate, List.length_map]
  congr 1
  · rw [List.append_assoc]
    rfl
  · have hbyte := toNat_lengthByte data.length
    rw [hbyte 7 (by decide), hbyte 6 (by decide), hbyte 5 (by decide), hbyte 4 (by decide),
      hbyte 3 (by decide), hbyte 2 (by decide), hbyte 1 (by decide), hbyte 0 (by decide)]
    rfl

/-! ### The schedule -/

/-- The words of a block, as they follow from the first sixteen. -/
def wordAt (w₀ : ℕ → UInt32) (j : ℕ) : UInt32 :=
  if j < 16 then w₀ j
  else next (wordAt w₀ (j - 16)) (wordAt w₀ (j - 15)) (wordAt w₀ (j - 7)) (wordAt w₀ (j - 2))

theorem wordAt_of_lt (w₀ : ℕ → UInt32) {j : ℕ} (h : j < 16) : wordAt w₀ j = w₀ j := by
  rw [wordAt, if_pos h]

theorem wordAt_add (w₀ : ℕ → UInt32) (j : ℕ) :
    wordAt w₀ (j + 16) =
      next (wordAt w₀ j) (wordAt w₀ (j + 1)) (wordAt w₀ (j + 9)) (wordAt w₀ (j + 14)) := by
  rw [wordAt, if_neg (by omega)]
  rfl

theorem extended_map (w₀ : ℕ → UInt32) (j : ℕ) :
    extended ((List.range (j + 16)).map (wordAt w₀)) (j + 16) = wordAt w₀ (j + 16) := by
  have hget (i : ℕ) (hi : i < j + 16) :
      ((List.range (j + 16)).map (wordAt w₀)).getD i 0 = wordAt w₀ i := by
    rw [List.getD_eq_getElem _ _ (by simpa using hi), List.getElem_map, List.getElem_range]
  rw [extended, hget _ (by omega), hget _ (by omega), hget _ (by omega), hget _ (by omega),
    wordAt_add]
  rfl

/-- **The array of a block** has the words that follow from those of the message. -/
theorem schedule_eq (msg : Str) (i : ℕ) :
    schedule msg i = (List.range 64).map (wordAt (loaded msg i)) := by
  have hloop (n : ℕ) : (List.range' 16 n).foldl (fun w j => w ++ [extended w j])
      ((List.range 16).map (loaded msg i)) = (List.range (n + 16)).map (wordAt (loaded msg i)) := by
    induction n with
    | zero =>
        refine List.map_congr_left fun j hj => ?_
        rw [wordAt_of_lt _ (by simpa using hj)]
    | succ n ih =>
        have hsucc : List.range (n + 1 + 16) = List.range (n + 16) ++ [n + 16] := by
          rw [← List.range_succ]
        rw [List.range'_concat, List.foldl_append, ih, List.foldl_cons, List.foldl_nil,
          show 16 + 1 * n = n + 16 by omega, extended_map, hsucc, List.map_append]
        rfl
  exact hloop 48

/-! ### The rounds -/

theorem toNat_next (w0 w1 w9 w14 : UInt32) :
    (next w0 w1 w9 w14).toNat = (Js.Sha256.smallSigma1 w14.toNat + w9.toNat +
      Js.Sha256.smallSigma0 w1.toNat + w0.toNat) % 4294967296 := by
  have hs0 : (sha256_rotr w1 7 ^^^ sha256_rotr w1 18 ^^^ (w1 >>> 3)).toNat =
      Js.Sha256.smallSigma0 w1.toNat := by
    rw [UInt32.toNat_xor, UInt32.toNat_xor, toNat_sha256_rotr w1 7 (by decide) (by decide),
      toNat_sha256_rotr w1 18 (by decide) (by decide), UInt32.toNat_shiftRight]
    rfl
  have hs1 : (sha256_rotr w14 17 ^^^ sha256_rotr w14 19 ^^^ (w14 >>> 10)).toNat =
      Js.Sha256.smallSigma1 w14.toNat := by
    rw [UInt32.toNat_xor, UInt32.toNat_xor, toNat_sha256_rotr w14 17 (by decide) (by decide),
      toNat_sha256_rotr w14 19 (by decide) (by decide), UInt32.toNat_shiftRight]
    rfl
  simp only [next, UInt32.toNat_add, hs0, hs1]
  omega

/-- **The rounds**, with the constants that are left: the window of sixteen words runs along the
array. -/
theorem toRegisters_rounds (w₀ : ℕ → UInt32) (ks : List UInt32) (j : ℕ) (v : Words) :
    toRegisters ((List.range' j ks.length).foldl
        (fun v i => round v (ks.getD (i - j) 0) (wordAt w₀ i)) v) =
      Js.Sha256.rounds (ks.map UInt32.toNat) (wordAt w₀ j).toNat (wordAt w₀ (j + 1)).toNat
        (wordAt w₀ (j + 2)).toNat (wordAt w₀ (j + 3)).toNat (wordAt w₀ (j + 4)).toNat
        (wordAt w₀ (j + 5)).toNat (wordAt w₀ (j + 6)).toNat (wordAt w₀ (j + 7)).toNat
        (wordAt w₀ (j + 8)).toNat (wordAt w₀ (j + 9)).toNat (wordAt w₀ (j + 10)).toNat
        (wordAt w₀ (j + 11)).toNat (wordAt w₀ (j + 12)).toNat (wordAt w₀ (j + 13)).toNat
        (wordAt w₀ (j + 14)).toNat (wordAt w₀ (j + 15)).toNat (toRegisters v) := by
  induction ks generalizing j v with
  | nil => rfl
  | cons k ks ih =>
      have htail : ∀ v, ∀ i ∈ List.range' (j + 1) ks.length,
          round v ((k :: ks).getD (i - j) 0) (wordAt w₀ i) =
            round v (ks.getD (i - (j + 1)) 0) (wordAt w₀ i) := by
        intro v i hi
        have hle := (List.mem_range'_1.1 hi).1
        rw [show i - j = i - (j + 1) + 1 by omega, List.getD_cons_succ]
      rw [List.length_cons, List.range'_succ, List.foldl_cons, Nat.sub_self, List.getD_cons_zero,
        List.foldl_ext _ _ _ htail, ih, toRegisters_round, List.map_cons, Js.Sha256.rounds,
        show j + 1 + 15 = j + 16 by omega, wordAt_add, toNat_next]

/-! ### Blocks -/

theorem toNat_byte_shift (b : UInt8) (n : UInt32) (h : n.toNat ≤ 24) :
    (b.toUInt32 <<< n).toNat = b.toNat * 2 ^ n.toNat := by
  have hb : b.toNat < 256 := b.toNat_lt
  have hlt : b.toNat * 2 ^ n.toNat < 2 ^ 32 := calc
    b.toNat * 2 ^ n.toNat < 256 * 2 ^ n.toNat := Nat.mul_lt_mul_of_pos_right hb (Nat.two_pow_pos _)
    _ ≤ 256 * 2 ^ 24 := Nat.mul_le_mul_left _ (Nat.pow_le_pow_right (by decide) h)
    _ = 2 ^ 32 := by rfl
  rw [UInt32.toNat_shiftLeft, UInt8.toNat_toUInt32, Nat.mod_eq_of_lt (by omega : n.toNat < 32),
    Nat.shiftLeft_eq, Nat.mod_eq_of_lt hlt]

theorem toNat_loaded (msg : Str) (i j : ℕ) :
    (loaded msg i j).toNat = (msg.getD (i + j * 4) 0).toNat * 16777216 +
      (msg.getD (i + j * 4 + 1) 0).toNat * 65536 + (msg.getD (i + j * 4 + 2) 0).toNat * 256 +
      (msg.getD (i + j * 4 + 3) 0).toNat := by
  have h₁ := (msg.getD (i + j * 4 + 1) 0).toNat_lt
  have h₂ := (msg.getD (i + j * 4 + 2) 0).toNat_lt
  have h₃ := (msg.getD (i + j * 4 + 3) 0).toNat_lt
  have hor (a b c d : ℕ) (hb : b < 256) (hc : c < 256) (hd : d < 256) :
      (a <<< 24) ||| (b <<< 16) ||| (c <<< 8) ||| d =
        a * 16777216 + b * 65536 + c * 256 + d := by
    rw [Nat.or_assoc, Nat.or_assoc, ← Nat.shiftLeft_add_eq_or_of_lt (by omega : d < 2 ^ 8),
      ← Nat.shiftLeft_add_eq_or_of_lt (by omega : c <<< 8 + d < 2 ^ 16),
      ← Nat.shiftLeft_add_eq_or_of_lt (by omega : b <<< 16 + (c <<< 8 + d) < 2 ^ 24)]
    omega
  simp only [loaded, byte, UInt32.toNat_or, toNat_byte_shift _ 24 (by decide),
    toNat_byte_shift _ 16 (by decide), toNat_byte_shift _ 8 (by decide), UInt8.toNat_toUInt32]
  rw [← hor _ _ _ _ h₁ h₂ h₃]
  simp only [Nat.shiftLeft_eq]
  rfl

/-- **A block does what it does in SHA-256.** -/
theorem toRegisters_compress (msg : Str) (h : Words) (i : ℕ) :
    toRegisters (compress msg h i) = (toRegisters h).add
      (Js.Sha256.rounds Js.Sha256.roundConstants (loaded msg i 0).toNat (loaded msg i 1).toNat
        (loaded msg i 2).toNat (loaded msg i 3).toNat (loaded msg i 4).toNat
        (loaded msg i 5).toNat (loaded msg i 6).toNat (loaded msg i 7).toNat
        (loaded msg i 8).toNat (loaded msg i 9).toNat (loaded msg i 10).toNat
        (loaded msg i 11).toNat (loaded msg i 12).toNat (loaded msg i 13).toNat
        (loaded msg i 14).toNat (loaded msg i 15).toNat (toRegisters h)) := by
  have hw : ∀ v, ∀ j ∈ List.range 64, round v (K.getD j 0) ((schedule msg i).getD j 0) =
      round v (K.getD (j - 0) 0) (wordAt (loaded msg i) j) := by
    intro v j hj
    have hlt : j < 64 := List.mem_range.1 hj
    have hget : (schedule msg i).getD j 0 = wordAt (loaded msg i) j := by
      rw [schedule_eq, List.getD_eq_getElem _ _ (by simpa using hlt), List.getElem_map,
        List.getElem_range]
    rw [hget, Nat.sub_zero]
  have hfirst (j : ℕ) (hj : j < 16) := wordAt_of_lt (loaded msg i) hj
  have hrounds := toRegisters_rounds (loaded msg i) K 0 h
  have hconstants : K.map UInt32.toNat = Js.Sha256.roundConstants := by decide
  have hlength : List.range' 0 K.length = List.range 64 := by rfl
  simp only [Nat.zero_add] at hrounds
  rw [hconstants, hlength, hfirst 0 (by decide), hfirst 1 (by decide), hfirst 2 (by decide),
    hfirst 3 (by decide), hfirst 4 (by decide), hfirst 5 (by decide), hfirst 6 (by decide),
    hfirst 7 (by decide), hfirst 8 (by decide), hfirst 9 (by decide), hfirst 10 (by decide),
    hfirst 11 (by decide), hfirst 12 (by decide), hfirst 13 (by decide), hfirst 14 (by decide),
    hfirst 15 (by decide)] at hrounds
  rw [compress, toRegisters_add, List.foldl_ext _ _ _ hw, ← hrounds]

/-- The `j`th word of a message. -/
def wordOf (msg : List ℕ) (j : ℕ) : ℕ :=
  msg.getD (j * 4) 0 * 16777216 + msg.getD (j * 4 + 1) 0 * 65536 +
    msg.getD (j * 4 + 2) 0 * 256 + msg.getD (j * 4 + 3) 0

theorem words_eq (n : ℕ) (msg : List ℕ) (h : 4 * n ≤ msg.length) :
    Js.Sha256.words msg =
      (List.range n).map (wordOf msg) ++ Js.Sha256.words (msg.drop (4 * n)) := by
  induction n generalizing msg with
  | zero => rfl
  | succ n ih =>
      match msg with
      | a :: b :: c :: d :: msg =>
          have hget (i : ℕ) : (a :: b :: c :: d :: msg).getD (i + 4) 0 = msg.getD i 0 := rfl
          have htail (j : ℕ) : (a :: b :: c :: d :: msg).getD ((j + 1) * 4) 0 = msg.getD (j * 4) 0 ∧
              (a :: b :: c :: d :: msg).getD ((j + 1) * 4 + 1) 0 = msg.getD (j * 4 + 1) 0 ∧
              (a :: b :: c :: d :: msg).getD ((j + 1) * 4 + 2) 0 = msg.getD (j * 4 + 2) 0 ∧
              (a :: b :: c :: d :: msg).getD ((j + 1) * 4 + 3) 0 = msg.getD (j * 4 + 3) 0 := by
            refine ⟨?_, ?_, ?_, ?_⟩
            all_goals
              rw [← hget]
              congr 1
              omega
          have hrest : ((List.range n).map Nat.succ).map (fun j => wordOf (a :: b :: c :: d :: msg) j) =
              (List.range n).map (wordOf msg) := by
            rw [List.map_map]
            refine List.map_congr_left fun j _ => ?_
            obtain ⟨h₀, h₁, h₂, h₃⟩ := htail j
            simp only [Function.comp, wordOf, Nat.succ_eq_add_one, h₀, h₁, h₂, h₃]
          have hlen : 4 * n ≤ msg.length := by
            simp only [List.length_cons] at h
            omega
          have hdrop : (a :: b :: c :: d :: msg).drop (4 * (n + 1)) = msg.drop (4 * n) := by
            rw [Nat.mul_succ]
            rfl
          rw [Js.Sha256.words, ih msg hlen, List.range_succ_eq_map, List.map_cons, hrest, hdrop]
          rfl

/-- **The block at a place**, and those behind it. -/
theorem absorb_words (msg : Str) (h : Words) (i : ℕ) (hlen : i + 64 ≤ msg.length) :
    Js.Sha256.absorb (toRegisters h) (Js.Sha256.words ((msg.drop i).map UInt8.toNat)) =
      Js.Sha256.absorb (toRegisters (compress msg h i))
        (Js.Sha256.words ((msg.drop (i + 64)).map UInt8.toNat)) := by
  have hget (k : ℕ) (hk : k < 64) :
      ((msg.drop i).map UInt8.toNat).getD k 0 = (msg.getD (i + k) 0).toNat := by
    rw [List.getD_eq_getElem _ _ (by rw [List.length_map, List.length_drop]; omega),
      List.getD_eq_getElem _ _ (by omega), List.getElem_map, List.getElem_drop]
  have hmap : (List.range 16).map (wordOf ((msg.drop i).map UInt8.toNat)) =
      (List.range 16).map fun j => (loaded msg i j).toNat := by
    refine List.map_congr_left fun j hj => ?_
    have hlt : j < 16 := List.mem_range.1 hj
    rw [toNat_loaded, wordOf, hget _ (by omega), hget _ (by omega), hget _ (by omega), hget _ (by omega)]
    rfl
  have hwords := words_eq 16 ((msg.drop i).map UInt8.toNat)
    (by rw [List.length_map, List.length_drop]; omega)
  rw [hmap, ← List.map_drop, List.drop_drop] at hwords
  rw [hwords, toRegisters_compress]
  rfl

/-- **The blocks from a place on**, by induction on how many there are. -/
theorem toRegisters_foldl_compress (msg : Str) (n k : ℕ) (h : Words)
    (hlen : msg.length = (k + n) * 64) :
    toRegisters ((List.range' k n).foldl (fun h i => compress msg h (i * 64)) h) =
      Js.Sha256.absorb (toRegisters h)
        (Js.Sha256.words ((msg.drop (k * 64)).map UInt8.toNat)) := by
  induction n generalizing k h with
  | zero =>
      rw [List.drop_of_length_le (by omega)]
      rfl
  | succ n ih =>
      rw [List.range'_succ, List.foldl_cons, ih (k + 1) _ (by omega),
        absorb_words msg h (k * 64) (by omega), Nat.succ_mul]

theorem toRegisters_absorb (msg : Str) (h : Words) (hlen : 64 ∣ msg.length) :
    toRegisters (absorb msg h) =
      Js.Sha256.absorb (toRegisters h) (Js.Sha256.words (msg.map UInt8.toNat)) := by
  have hcount : (msg.length + 63) / 64 = msg.length / 64 := by omega
  have hblocks := toRegisters_foldl_compress msg (msg.length / 64) 0 h (by omega)
  rw [absorb, hcount, List.range_eq_range', hblocks, Nat.zero_mul, List.drop_zero]

/-! ### The digest -/

theorem hexWord_eq (n w : ℕ) (h : w < 16 ^ n) (hpos : 0 < n) :
    List.replicate (n - (hexadecimal w).length) 48 ++ hexadecimal w =
      (Js.Sha256.hexWord n w).map Char.toUInt8 := by
  have hdigit : (48 : UInt8) = hexDigit 0 := by rfl
  induction n generalizing w with
  | zero => exact absurd hpos (Nat.lt_irrefl 0)
  | succ n ih =>
      have hlast : [Nat.digitChar (w % 16)].map Char.toUInt8 = [hexDigit (w % 16)] := by rfl
      rw [Js.Sha256.hexWord, List.map_append, hlast, hexadecimal_eq]
      by_cases hw : w < 16
      · have hzeros (n : ℕ) :
            (Js.Sha256.hexWord n 0).map Char.toUInt8 = List.replicate n 48 := by
          induction n with
          | zero => rfl
          | succ n ih =>
              rw [Js.Sha256.hexWord, List.map_append, ih, List.replicate_succ']
              rfl
        rw [if_pos hw, Nat.div_eq_of_lt hw, hzeros]
        rfl
      · have hn : 0 < n := by
          by_contra hzero
          rw [Nat.eq_zero_of_not_pos hzero] at h
          omega
        have hdiv : w / 16 < 16 ^ n := by
          rw [Nat.pow_succ] at h
          omega
        rw [if_neg hw, ← ih (w / 16) hdiv hn, List.length_append, List.length_singleton,
          Nat.add_sub_add_right, List.append_assoc]

theorem hexWord_word (w : UInt32) :
    hexWord w = (Js.Sha256.hexWord 8 w.toNat).map Char.toUInt8 :=
  hexWord_eq 8 w.toNat w.toNat_lt (by decide)

end Sha256

open Sha256 in
theorem length_sha256hex (data : Str) : (sha256hex data).length = 64 := by
  have hword (w : UInt32) : (Sha256.hexWord w).length = 8 := by
    rw [hexWord_word, List.length_map]
    exact (Js.isLowerHex_iff.1 (Js.Sha256.isLowerHex_hexWord 8 w.toNat)).1
  simp only [sha256hex, Words.list, List.flatMap_cons, List.flatMap_nil, List.length_append, hword,
    List.length_nil]

open Sha256 in
/-- **The checksum of the network is SHA-256.** -/
theorem sha256hex_eq (data : Str) :
    sha256hex data = (Js.Sha256.digest (data.map UInt8.toNat)).hex.map Char.toUInt8 := by
  have hlength : 64 ∣ (pad data).length := by
    have hpad := congrArg List.length (pad_eq data)
    rw [List.length_map, Js.Sha256.pad] at hpad
    simp only [List.length_append, List.length_cons, List.length_replicate, List.length_map,
      List.length_range] at hpad
    omega
  have hdigest : toRegisters (absorb (pad data) initial) =
      Js.Sha256.digest (data.map UInt8.toNat) := by
    rw [toRegisters_absorb _ _ hlength, pad_eq]
    rfl
  rw [← hdigest, sha256hex, Js.Sha256.Registers.hex, List.map_flatMap, Words.list]
  simp only [List.flatMap_cons, List.flatMap_nil, hexWord_word]
  rfl

end Network
