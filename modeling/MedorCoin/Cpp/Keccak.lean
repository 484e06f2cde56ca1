/-
**Keccak-256.**

The Keccak sponge with rate 1088 and capacity 512 over the permutation Keccak-f[1600], with the
padding `10*1` of the original submission (domain byte `0x01`, not that of SHA-3), as the source
has it, constants included.  A state is a list of twenty-five lanes, the lane at column `x` and row
`y` in place `x + 5 y`.

Main definitions:

* `Cpp.Keccak.keccakF1600` — the permutation: twenty-four rounds of θ, ρ and π, χ, ι;
* `Cpp.Keccak.keccak256` — the digest of a byte string;
* `Cpp.Keccak.hex` — the digest in hexadecimal.

Main result:

* `Cpp.Keccak.isLowerHex_hex` — a digest is 64 lower-case hexadecimal digits.
-/

import MedorCoin.Cpp.Text

set_option autoImplicit false

namespace Cpp

namespace Keccak

/-! ### The permutation -/

/-- The round constants of the source; the last two are not those of the reference. -/
def roundConstants : List UInt64 :=
  [0x0000000000000001, 0x0000000000008082, 0x800000000000808A, 0x8000000080008000,
   0x000000000000808B, 0x0000000080000001, 0x8000000080008081, 0x8000000000008009,
   0x000000000000008A, 0x0000000000000088, 0x0000000080008009, 0x000000008000000A,
   0x000000008000808B, 0x800000000000008B, 0x8000000000008089, 0x8000000000008003,
   0x8000000000008002, 0x8000000000000080, 0x000000000000800A, 0x800000008000000A,
   0x8000000080008081, 0x8000000000008080, 0x0000000000000001, 0x8000000000008008]

/-- The rotation offsets, in the order of the lanes. -/
def rotations : List UInt64 :=
  [ 0,  1, 62, 28, 27,
   36, 44,  6, 55, 20,
    3, 10, 43, 25, 39,
   41, 45, 15, 21,  8,
   18,  2, 61, 56, 14]

/-- Rotation of a lane to the left. -/
def rotl64 (x n : UInt64) : UInt64 := (x <<< n) ||| (x >>> (64 - n))

/-- The lanes of a state. -/
abbrev Lanes := List UInt64

/-- The lane in a place. -/
def lane (st : Lanes) (i : ℕ) : UInt64 := st.getD i 0

/-- θ: add to each lane the parities of two columns. -/
def theta (st : Lanes) : Lanes :=
  let c := (List.range 5).map fun x =>
    lane st x ^^^ lane st (x + 5) ^^^ lane st (x + 10) ^^^ lane st (x + 15) ^^^ lane st (x + 20)
  let d := (List.range 5).map fun x => lane c ((x + 4) % 5) ^^^ rotl64 (lane c ((x + 1) % 5)) 1
  (List.range 25).map fun i => lane st i ^^^ lane d (i % 5)

/-- ρ and π: rotate each lane and move it. -/
def rhoPi (st : Lanes) : Lanes :=
  (List.range 25).foldl (fun b i =>
    b.set (i / 5 + 5 * ((2 * (i % 5) + 3 * (i / 5)) % 5)) (rotl64 (lane st i) (lane rotations i)))
    (List.replicate 25 0)

/-- χ: combine each lane with the next two of its row. -/
def chi (b : Lanes) : Lanes :=
  (List.range 25).map fun i =>
    lane b i ^^^ (~~~lane b ((i % 5 + 1) % 5 + 5 * (i / 5)) &&&
      lane b ((i % 5 + 2) % 5 + 5 * (i / 5)))

/-- ι: add a round constant to the first lane. -/
def iota (rc : UInt64) (st : Lanes) : Lanes := st.set 0 (lane st 0 ^^^ rc)

/-- Keccak-f[1600]. -/
def keccakF1600 (st : Lanes) : Lanes :=
  roundConstants.foldl (fun st rc => iota rc (chi (rhoPi (theta st)))) st

/-! ### The sponge -/

/-- The rate, in bytes. -/
def rate : ℕ := 136

/-- Eight bytes as a lane, the lowest first. -/
def leRead64 (p : Str) : UInt64 :=
  ((List.range 8).map fun i => (p.getD i 0).toUInt64 <<< (8 * i).toUInt64).foldl (· ||| ·) 0

/-- A lane as eight bytes, the lowest first. -/
def leWrite64 (v : UInt64) : Str := (List.range 8).map fun i => (v >>> (8 * i).toUInt64).toUInt8

/-- Add a block to the rate part of the state and permute. -/
def absorbBlock (st : Lanes) (block : Str) : Lanes :=
  keccakF1600 ((List.range 25).map fun i =>
    if i < rate / 8 then lane st i ^^^ leRead64 (block.drop (8 * i)) else lane st i)

/-- The last block: what is left of the data, the domain byte, and the end marker. -/
def lastBlock (data : Str) : Str :=
  let pad := data ++ List.replicate (rate - data.length) 0
  let pad := pad.set data.length (pad.getD data.length 0 ^^^ 0x01)
  pad.set (rate - 1) (pad.getD (rate - 1) 0 ^^^ 0x80)

/-- Absorb the full blocks, then the last one.  There are at most `fuel` bytes. -/
def absorb : ℕ → Lanes → Str → Lanes
  | 0, st, data => absorbBlock st (lastBlock data)
  | fuel + 1, st, data =>
      if data.length < rate then absorbBlock st (lastBlock data)
      else absorb fuel (absorbBlock st (data.take rate)) (data.drop rate)

/-- **Keccak-256.**  It is irreducible: no proof evaluates a digest by accident. -/
@[irreducible] def keccak256 (data : Str) : Str :=
  (List.range 4).flatMap fun i =>
    leWrite64 (lane (absorb data.length (List.replicate 25 0) data) i)

@[simp] theorem length_keccak256 (data : Str) : (keccak256 data).length = 32 := by
  simp only [keccak256, leWrite64, List.length_flatMap, List.length_map, List.length_range]
  rfl

/-- The digest in hexadecimal. -/
def hex (data : Str) : Str := toHex (keccak256 data)

theorem isLowerHex_hex (data : Str) : isLowerHex 64 (hex data) := by
  have h := isLowerHex_toHex (keccak256 data)
  rwa [length_keccak256] at h

theorem length_hex (data : Str) : (hex data).length = 64 := by
  have h := isLowerHex_hex data
  rw [isLowerHex, Bool.and_eq_true, beq_iff_eq] at h
  exact h.1

theorem hex_ne_of_mem {data s : Str} {b : UInt8} (hb : b ∈ s) (h : isLowerHexDigit b = false) :
    hex data ≠ s := by
  rintro rfl
  have hhex := isLowerHex_hex data
  rw [isLowerHex, Bool.and_eq_true, List.all_eq_true] at hhex
  rw [hhex.2 b hb] at h
  exact Bool.noConfusion h

theorem hex_ne_nil (data : Str) : hex data ≠ [] := by
  intro h
  have hlength := length_hex data
  rw [h] at hlength
  exact absurd hlength (by decide)

end Keccak

end Cpp
