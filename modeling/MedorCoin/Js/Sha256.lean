/-
**SHA-256.**

The compression function of FIPS 180-4 on words represented as numbers below `2 ^ 32`, and the
hash `Js.Sha256.hex` of a text, printed in hexadecimal: what
`crypto.createHash("sha256").update(text).digest("hex")` returns.

The development is about any hash function; this one makes it possible to evaluate the models
on concrete inputs, where they then compute the digests the program computes.

Main result:

* `Js.Sha256.isLowerHex_hex` — a digest is 64 lower-case hexadecimal digits.
-/

import MedorCoin.Js.Bytes

set_option autoImplicit false

namespace Js

namespace Sha256

/-! ### The compression function -/

/-- The round constants. -/
def roundConstants : List ℕ :=
  [0x428a2f98, 0x71374491, 0xb5c0fbcf, 0xe9b5dba5, 0x3956c25b, 0x59f111f1, 0x923f82a4, 0xab1c5ed5,
   0xd807aa98, 0x12835b01, 0x243185be, 0x550c7dc3, 0x72be5d74, 0x80deb1fe, 0x9bdc06a7, 0xc19bf174,
   0xe49b69c1, 0xefbe4786, 0x0fc19dc6, 0x240ca1cc, 0x2de92c6f, 0x4a7484aa, 0x5cb0a9dc, 0x76f988da,
   0x983e5152, 0xa831c66d, 0xb00327c8, 0xbf597fc7, 0xc6e00bf3, 0xd5a79147, 0x06ca6351, 0x14292967,
   0x27b70a85, 0x2e1b2138, 0x4d2c6dfc, 0x53380d13, 0x650a7354, 0x766a0abb, 0x81c2c92e, 0x92722c85,
   0xa2bfe8a1, 0xa81a664b, 0xc24b8b70, 0xc76c51a3, 0xd192e819, 0xd6990624, 0xf40e3585, 0x106aa070,
   0x19a4c116, 0x1e376c08, 0x2748774c, 0x34b0bcb5, 0x391c0cb3, 0x4ed8aa4a, 0x5b9cca4f, 0x682e6ff3,
   0x748f82ee, 0x78a5636f, 0x84c87814, 0x8cc70208, 0x90befffa, 0xa4506ceb, 0xbef9a3f7, 0xc67178f2]

/-- Rotation of a word to the right. -/
def rotr (x n : ℕ) : ℕ := ((x >>> n) ||| (x <<< (32 - n))) % 4294967296

/-- `σ₀`, of the message schedule. -/
def smallSigma0 (x : ℕ) : ℕ := rotr x 7 ^^^ rotr x 18 ^^^ (x >>> 3)

/-- `σ₁`, of the message schedule. -/
def smallSigma1 (x : ℕ) : ℕ := rotr x 17 ^^^ rotr x 19 ^^^ (x >>> 10)

/-- `Σ₀`, of a round. -/
def bigSigma0 (x : ℕ) : ℕ := rotr x 2 ^^^ rotr x 13 ^^^ rotr x 22

/-- `Σ₁`, of a round. -/
def bigSigma1 (x : ℕ) : ℕ := rotr x 6 ^^^ rotr x 11 ^^^ rotr x 25

/-- `Ch`. -/
def choose (x y z : ℕ) : ℕ := (x &&& y) ^^^ ((4294967295 - x) &&& z)

/-- `Maj`. -/
def majority (x y z : ℕ) : ℕ := (x &&& y) ^^^ (x &&& z) ^^^ (y &&& z)

/-- The eight working variables. -/
structure Registers where
  (a b c d e f g h : ℕ)

/-- One round, with its constant and its word of the message schedule. -/
def Registers.round (r : Registers) (k w : ℕ) : Registers :=
  let t₁ := r.h + bigSigma1 r.e + choose r.e r.f r.g + k + w
  let t₂ := bigSigma0 r.a + majority r.a r.b r.c
  ⟨(t₁ + t₂) % 4294967296, r.a, r.b, r.c, (r.d + t₁) % 4294967296, r.e, r.f, r.g⟩

/-- The rounds, with the message schedule computed along the way: the sixteen numbers are the
window of schedule words from the current round on. -/
def rounds : List ℕ → ℕ → ℕ → ℕ → ℕ → ℕ → ℕ → ℕ → ℕ → ℕ → ℕ → ℕ → ℕ → ℕ → ℕ → ℕ → ℕ →
    Registers → Registers
  | [], _, _, _, _, _, _, _, _, _, _, _, _, _, _, _, _, r => r
  | k :: ks, w0, w1, w2, w3, w4, w5, w6, w7, w8, w9, w10, w11, w12, w13, w14, w15, r =>
      rounds ks w1 w2 w3 w4 w5 w6 w7 w8 w9 w10 w11 w12 w13 w14 w15
        ((smallSigma1 w14 + w9 + smallSigma0 w1 + w0) % 4294967296) (r.round k w0)

/-- The sum of two register files, word by word. -/
def Registers.add (r s : Registers) : Registers :=
  ⟨(r.a + s.a) % 4294967296, (r.b + s.b) % 4294967296, (r.c + s.c) % 4294967296,
    (r.d + s.d) % 4294967296, (r.e + s.e) % 4294967296, (r.f + s.f) % 4294967296,
    (r.g + s.g) % 4294967296, (r.h + s.h) % 4294967296⟩

/-- Absorb as many blocks of sixteen words as there are. -/
def absorb : Registers → List ℕ → Registers
  | r, w0 :: w1 :: w2 :: w3 :: w4 :: w5 :: w6 :: w7 :: w8 :: w9 :: w10 :: w11 :: w12 :: w13 ::
      w14 :: w15 :: ws =>
      absorb
        (r.add (rounds roundConstants w0 w1 w2 w3 w4 w5 w6 w7 w8 w9 w10 w11 w12 w13 w14 w15 r)) ws
  | r, _ => r

/-! ### Padding and the digest -/

/-- The initial register file. -/
def initial : Registers :=
  ⟨0x6a09e667, 0xbb67ae85, 0x3c6ef372, 0xa54ff53a, 0x510e527f, 0x9b05688c, 0x1f83d9ab, 0x5be0cd19⟩

/-- The message, a one bit, zeros up to eight bytes short of a multiple of 64, and the length of
the message in bits. -/
def pad (l : List ℕ) : List ℕ :=
  l ++ 128 :: List.replicate ((119 - l.length % 64) % 64) 0 ++
    (List.range 8).map fun i => (8 * l.length) >>> (8 * (7 - i)) % 256

/-- Four bytes to a word, the most significant first. -/
def words : List ℕ → List ℕ
  | a :: b :: c :: d :: l => (a * 16777216 + b * 65536 + c * 256 + d) :: words l
  | _ => []

/-- The digest of a sequence of bytes. -/
def digest (l : List ℕ) : Registers := absorb initial (words (pad l))

/-- The lowest `n` hexadecimal digits of a word, the most significant first. -/
def hexWord : ℕ → ℕ → Str
  | 0, _ => []
  | n + 1, w => hexWord n (w / 16) ++ [Nat.digitChar (w % 16)]

/-- A register file in hexadecimal. -/
def Registers.hex (r : Registers) : Str :=
  [r.a, r.b, r.c, r.d, r.e, r.f, r.g, r.h].flatMap (hexWord 8)

/-- **The SHA-256 digest of a text, in hexadecimal.** -/
def hex (s : Str) : Str := (digest ((utf8 s).map UInt8.toNat)).hex

theorem isLowerHex_hexWord (n w : ℕ) : isLowerHex n (hexWord n w) := by
  have key : ∀ d < 16, Nat.digitChar d ∈ lowerHexDigits := by decide
  induction n generalizing w with
  | zero => rfl
  | succ n ih =>
      obtain ⟨hlen, hall⟩ := isLowerHex_iff.1 (ih (w / 16))
      refine isLowerHex_iff.2 ⟨by simp [hexWord, hlen], ?_⟩
      intro c hc
      rcases List.mem_append.1 hc with hc | hc
      · exact hall c hc
      · rw [List.mem_singleton.1 hc]
        exact key _ (Nat.mod_lt _ (by omega))

theorem Registers.isLowerHex_hex (r : Registers) : isLowerHex 64 r.hex := by
  have hlen : ∀ w, (hexWord 8 w).length = 8 := fun w =>
    (isLowerHex_iff.1 (isLowerHex_hexWord 8 w)).1
  refine isLowerHex_iff.2 ⟨by simp [Registers.hex, hlen], ?_⟩
  intro c hc
  obtain ⟨w, -, hw⟩ := List.mem_flatMap.1 hc
  exact (isLowerHex_iff.1 (isLowerHex_hexWord 8 w)).2 c hw

/-- **A digest is 64 lower-case hexadecimal digits.** -/
theorem isLowerHex_hex (s : Str) : isLowerHex 64 (hex s) := by
  rw [hex]
  exact Registers.isLowerHex_hex _

example : hex ['a', 'b', 'c'] =
    "ba7816bf8f01cfea414140de5dae2223b00361a396177a9cb410ff61f20015ad".toList := by
  decide +kernel

end Sha256

end Js
