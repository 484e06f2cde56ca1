/-
**The two paths of the checksum.**

Where the processor has the instruction, `crc32c` takes eight bytes at a time, and what is left byte
by byte from the table; elsewhere it takes all bytes from the table.  The instruction is not part of
the sources: it is a parameter, with what its description says of the result, in polynomials.

Main definitions:

* `Codec.crcBitwise` — the checksum bit by bit;
* `Codec.crcByte` — a byte from the table;
* `Codec.Crc32Instruction` — what the instruction computes;
* `Codec.crc32cHardware` — the path with the instruction.

Main results:

* `Codec.toBitVec_crcByte` — **a byte from the table** is its eight shifts;
* `Codec.mm_crc32_u64_eq` — **a word is eight bytes**;
* `Codec.crc32c_paths_agree` — the two paths and the bits agree.
-/

import MedorCoin.Codec.Frame
import MedorCoin.Crc.Residue

set_option autoImplicit false

namespace Codec

open Crc

/-! ### Bits -/

/-- A shift of the register, bit by bit. -/
def crcShift (crc : UInt32) : UInt32 :=
  if crc &&& 1 = 1 then (crc >>> 1) ^^^ crc32cPoly else crc >>> 1

/-- The checksum bit by bit. -/
def crcBitwise (data : List UInt8) : UInt32 :=
  data.foldl (fun crc b => crcShift^[8] (crc ^^^ b.toUInt32)) 0xFFFFFFFF ^^^ 0xFFFFFFFF

theorem toBitVec_and_one (crc : UInt32) :
    (crc &&& 1).toBitVec = (BitVec.ofBool (crc.toBitVec.getLsbD 0)).setWidth 32 := by
  rw [UInt32.toBitVec_and]
  exact BitVec.and_one_eq_setWidth_ofBool_getLsbD

theorem and_one_eq (crc : UInt32) :
    crc &&& 1 = if crc.toBitVec.getLsbD 0 then 1 else 0 := by
  rw [← UInt32.toBitVec_inj, toBitVec_and_one]
  cases crc.toBitVec.getLsbD 0 <;> rfl

theorem toBitVec_crcShift (crc : UInt32) :
    (crcShift crc).toBitVec = step crc32cPoly.toBitVec crc.toBitVec := by
  rw [crcShift, step, and_one_eq]
  cases crc.toBitVec.getLsbD 0 <;> rfl

theorem toBitVec_iterate_crcShift (crc : UInt32) (n : ℕ) :
    (crcShift^[n] crc).toBitVec = (step crc32cPoly.toBitVec)^[n] crc.toBitVec := by
  induction n with
  | zero => rfl
  | succ n ih =>
      rw [Function.iterate_succ_apply', Function.iterate_succ_apply', toBitVec_crcShift, ih]

/-! ### The table -/

theorem crcShift_eq (crc : UInt32) :
    crcShift crc = (crc >>> 1) ^^^ (crc32cPoly &&& (0 - (crc &&& 1))) := by
  rw [crcShift, and_one_eq]
  cases crc.toBitVec.getLsbD 0
  · exact (UInt32.xor_zero).symm
  · rfl

theorem crcEntry_eq (i : UInt32) : crcEntry i = crcShift^[8] i := by
  simp only [crcEntry, ← crcShift_eq]
  rw [List.foldl_const, List.length_range]

/-- A byte from the table. -/
def crcByte (crc : UInt32) (b : UInt8) : UInt32 :=
  (crc >>> 8) ^^^ crcTable.getD ((crc ^^^ b.toUInt32) &&& 0xFF).toNat 0

theorem crc32c_eq (data : List UInt8) :
    crc32c data = data.foldl crcByte 0xFFFFFFFF ^^^ 0xFFFFFFFF := rfl

theorem getD_crcTable (i : UInt32) :
    crcTable.getD (i &&& 0xFF).toNat 0 = crcEntry (i &&& 0xFF) := by
  have hlt : (i &&& 0xFF).toNat < 256 := by
    rw [UInt32.toNat_and]
    exact Nat.lt_succ_of_le Nat.and_le_right
  rw [crcTable, List.getD_eq_getElem?_getD, List.getElem?_map, List.getElem?_range hlt,
    Option.map_some, Option.getD_some, UInt32.ofNat_toNat]

theorem and_low (x : BitVec 32) : x &&& 0xFF#32 = (x.setWidth 8).setWidth 32 := by
  refine BitVec.eq_of_getLsbD_eq fun i hi => ?_
  have hmask : (0xFF#32).getLsbD i = decide (i < 8) := by
    change Nat.testBit (2 ^ 8 - 1) i = decide (i < 8)
    exact Nat.testBit_two_pow_sub_one 8 i
  rw [BitVec.getLsbD_and, hmask, BitVec.getLsbD_setWidth, BitVec.getLsbD_setWidth,
    decide_eq_true hi, Bool.true_and, Bool.and_comm]

theorem shiftRight_byte (c : BitVec 32) (b : BitVec 8) :
    (c ^^^ b.setWidth 32) >>> 8 = c >>> 8 := by
  refine BitVec.eq_of_getLsbD_eq fun i _ => ?_
  rw [BitVec.getLsbD_ushiftRight, BitVec.getLsbD_ushiftRight, BitVec.getLsbD_xor,
    BitVec.getLsbD_setWidth, BitVec.getLsbD_of_ge b (8 + i) (Nat.le_add_right 8 i),
    Bool.and_false, Bool.xor_false]

/-- **A byte from the table** is its eight shifts. -/
theorem toBitVec_crcByte (crc : UInt32) (b : UInt8) :
    (crcByte crc b).toBitVec = feed crc32cPoly.toBitVec crc.toBitVec b.toBitVec := by
  have hindex : ((crc ^^^ b.toUInt32) &&& 0xFF).toBitVec =
      ((crc.toBitVec ^^^ b.toBitVec.setWidth 32).setWidth 8).setWidth 32 := by
    rw [← and_low]
    rfl
  rw [crcByte, getD_crcTable, crcEntry_eq, UInt32.toBitVec_xor, toBitVec_iterate_crcShift, hindex,
    feed_eq_table _ _ _ (by decide), shiftRight_byte]
  rfl

theorem crcShift_byte (crc : UInt32) (b : UInt8) :
    crcShift^[8] (crc ^^^ b.toUInt32) = crcByte crc b := by
  rw [← UInt32.toBitVec_inj, toBitVec_crcByte, toBitVec_iterate_crcShift]
  rfl

/-- **The table and the bits agree.** -/
theorem crc32c_eq_crcBitwise (data : List UInt8) : crc32c data = crcBitwise data := by
  simp only [crcBitwise, crcShift_byte]
  rfl

/-! ### The instruction -/

/-- What the description of the instruction says of the lower half of its result: source and
destination are reflected and put in front of 32 and 64 zeros, their sum is divided by the
polynomial, and the remainder is reflected. -/
structure Crc32Instruction (mm_crc32_u64 : UInt64 → UInt64 → UInt64) : Prop where
  remainder : ∀ crc src : UInt64,
    poly (mm_crc32_u64 crc src).toUInt32.toBitVec.reverse =
      poly ((src.toBitVec.reverse.setWidth 96 <<< 32) ^^^
        (crc.toUInt32.toBitVec.reverse.setWidth 96 <<< 64)) %ₘ poly 0x11EDC6F41#33

theorem poly_castagnoli : poly 0x11EDC6F41#33 = generator crc32cPoly.toBitVec := by
  have hreverse : (0x11EDC6F41#33 : BitVec 33) = (crc32cPoly.toBitVec ++ 1#1).reverse := by
    decide +kernel
  have hone : poly (1#1).reverse = 1 := by
    ext i
    rw [coeff_poly, BitVec.getLsbD_reverse, Polynomial.coeff_one]
    cases i with
    | zero => rfl
    | succ i => rw [BitVec.getMsbD_of_ge _ _ (Nat.le_add_left 1 i), if_neg i.succ_ne_zero]; rfl
  rw [hreverse, poly_reverse_append, hone, mul_one, generator]

section

variable {mm_crc32_u64 : UInt64 → UInt64 → UInt64}

theorem crc32Instruction_iff : Crc32Instruction mm_crc32_u64 ↔ ∀ crc src : UInt64,
    Absorbs crc32cPoly.toBitVec crc.toUInt32.toBitVec src.toBitVec
      (mm_crc32_u64 crc src).toUInt32.toBitVec := by
  have hdividend (crc src : UInt64) :
      poly ((src.toBitVec.reverse.setWidth 96 <<< 32) ^^^
        (crc.toUInt32.toBitVec.reverse.setWidth 96 <<< 64)) =
      Polynomial.X ^ 64 * poly crc.toUInt32.toBitVec.reverse +
        Polynomial.X ^ 32 * poly src.toBitVec.reverse := by
    rw [poly_xor, poly_shiftLeft _ (by decide), poly_shiftLeft _ (by decide), add_comm]
  constructor
  · intro h crc src
    rw [absorbs_iff_modByMonic, h.remainder, poly_castagnoli, hdividend]
  · intro h
    refine ⟨fun crc src => ?_⟩
    rw [absorbs_iff_modByMonic.1 (h crc src), poly_castagnoli, hdividend]

/-! ### The path with the instruction -/

/-- `std::memcpy(&word, p, 8)`, on a processor that has the lowest byte first. -/
def memcpyWord (b₀ b₁ b₂ b₃ b₄ b₅ b₆ b₇ : UInt8) : UInt64 :=
  ⟨b₇.toBitVec ++ (b₆.toBitVec ++ (b₅.toBitVec ++ (b₄.toBitVec ++ (b₃.toBitVec ++
    (b₂.toBitVec ++ (b₁.toBitVec ++ b₀.toBitVec))))))⟩

/-- The loop over the words: the register after the last one, and the bytes that are left. -/
def crcWords (mm_crc32_u64 : UInt64 → UInt64 → UInt64) : UInt64 → List UInt8 → UInt64 × List UInt8
  | crc64, b₀ :: b₁ :: b₂ :: b₃ :: b₄ :: b₅ :: b₆ :: b₇ :: rest =>
      crcWords mm_crc32_u64 (mm_crc32_u64 crc64 (memcpyWord b₀ b₁ b₂ b₃ b₄ b₅ b₆ b₇)) rest
  | crc64, rest => (crc64, rest)

/-- `crc32c(data, len)`, on the path with the instruction. -/
def crc32cHardware (mm_crc32_u64 : UInt64 → UInt64 → UInt64) (data : List UInt8) : UInt32 :=
  let (crc64, rest) := crcWords mm_crc32_u64 0xFFFFFFFF data
  rest.foldl crcByte crc64.toUInt32 ^^^ 0xFFFFFFFF

theorem absorbs_crcByte (crc : UInt32) (b : UInt8) :
    Absorbs crc32cPoly.toBitVec crc.toBitVec b.toBitVec (crcByte crc b).toBitVec := by
  rw [toBitVec_crcByte]
  exact absorbs_feed _ _ _ (by decide) (by decide)

theorem absorbs_memcpyWord (crc : UInt32) (b₀ b₁ b₂ b₃ b₄ b₅ b₆ b₇ : UInt8) :
    Absorbs crc32cPoly.toBitVec crc.toBitVec (memcpyWord b₀ b₁ b₂ b₃ b₄ b₅ b₆ b₇).toBitVec
      ([b₀, b₁, b₂, b₃, b₄, b₅, b₆, b₇].foldl crcByte crc).toBitVec := by
  have hbyte := absorbs_crcByte
  exact (((((((hbyte _ b₀).append (hbyte _ b₁)).append (hbyte _ b₂)).append (hbyte _ b₃)).append
    (hbyte _ b₄)).append (hbyte _ b₅)).append (hbyte _ b₆)).append (hbyte _ b₇)

/-- **A word is eight bytes.** -/
theorem mm_crc32_u64_eq (h : Crc32Instruction mm_crc32_u64) (crc : UInt64)
    (b₀ b₁ b₂ b₃ b₄ b₅ b₆ b₇ : UInt8) :
    (mm_crc32_u64 crc (memcpyWord b₀ b₁ b₂ b₃ b₄ b₅ b₆ b₇)).toUInt32 =
      [b₀, b₁, b₂, b₃, b₄, b₅, b₆, b₇].foldl crcByte crc.toUInt32 := by
  rw [← UInt32.toBitVec_inj]
  exact (crc32Instruction_iff.1 h crc _).unique (absorbs_memcpyWord _ b₀ b₁ b₂ b₃ b₄ b₅ b₆ b₇)

theorem crcWords_spec (h : Crc32Instruction mm_crc32_u64) (crc64 : UInt64) (data : List UInt8) :
    (crcWords mm_crc32_u64 crc64 data).2.foldl crcByte
        (crcWords mm_crc32_u64 crc64 data).1.toUInt32 =
      data.foldl crcByte crc64.toUInt32 := by
  fun_induction crcWords mm_crc32_u64 crc64 data with
  | case1 crc64 b₀ b₁ b₂ b₃ b₄ b₅ b₆ b₇ rest ih =>
      rw [ih, mm_crc32_u64_eq h]
      rfl
  | case2 => rfl

end

/-! ### An instruction -/

/-- The instruction, as eight bytes from the table. -/
def crc32Bytes (crc src : UInt64) : UInt64 :=
  ([src.toUInt8, (src >>> 8).toUInt8, (src >>> 16).toUInt8, (src >>> 24).toUInt8,
    (src >>> 32).toUInt8, (src >>> 40).toUInt8, (src >>> 48).toUInt8,
    (src >>> 56).toUInt8].foldl crcByte crc.toUInt32).toUInt64

theorem memcpyWord_bytes (src : UInt64) :
    memcpyWord src.toUInt8 (src >>> 8).toUInt8 (src >>> 16).toUInt8 (src >>> 24).toUInt8
        (src >>> 32).toUInt8 (src >>> 40).toUInt8 (src >>> 48).toUInt8 (src >>> 56).toUInt8 =
      src := by
  rw [← UInt64.toBitVec_inj, memcpyWord]
  refine BitVec.eq_of_getLsbD_eq fun i hi => ?_
  change ((src.toBitVec >>> 56).setWidth 8 ++ ((src.toBitVec >>> 48).setWidth 8 ++
    ((src.toBitVec >>> 40).setWidth 8 ++ ((src.toBitVec >>> 32).setWidth 8 ++
      ((src.toBitVec >>> 24).setWidth 8 ++ ((src.toBitVec >>> 16).setWidth 8 ++
        ((src.toBitVec >>> 8).setWidth 8 ++ src.toBitVec.setWidth 8))))))).getLsbD i = _
  simp only [BitVec.getLsbD_append, BitVec.getLsbD_setWidth, BitVec.getLsbD_ushiftRight]
  split_ifs
  all_goals
    rw [decide_eq_true (by omega), Bool.true_and]
    try congr 1; omega

theorem crc32Instruction_crc32Bytes : Crc32Instruction crc32Bytes := by
  refine crc32Instruction_iff.2 fun crc src => ?_
  have hbytes := absorbs_memcpyWord crc.toUInt32 src.toUInt8 (src >>> 8).toUInt8
    (src >>> 16).toUInt8 (src >>> 24).toUInt8 (src >>> 32).toUInt8 (src >>> 40).toUInt8
    (src >>> 48).toUInt8 (src >>> 56).toUInt8
  rw [memcpyWord_bytes] at hbytes
  rw [crc32Bytes, UInt32.toUInt32_toUInt64]
  exact hbytes

/-! ### The paths -/

/-- **The two paths and the bits agree**, for every string of bytes. -/
theorem crc32c_paths_agree {mm_crc32_u64 : UInt64 → UInt64 → UInt64}
    (h : Crc32Instruction mm_crc32_u64) (data : List UInt8) :
    crc32cHardware mm_crc32_u64 data = crc32c data ∧ crc32c data = crcBitwise data := by
  refine ⟨?_, crc32c_eq_crcBitwise data⟩
  rw [crc32cHardware, crc32c_eq]
  exact congrArg (· ^^^ 0xFFFFFFFF) (crcWords_spec h 0xFFFFFFFF data)

def sampleDigits : List UInt8 := [49, 50, 51, 52, 53, 54, 55, 56, 57]

theorem crc32c_paths_agree_sampleDigits :
    crc32cHardware crc32Bytes sampleDigits = crc32c sampleDigits ∧
      crc32c sampleDigits = crcBitwise sampleDigits ∧ crcBitwise sampleDigits = 0xE3069283 := by
  obtain ⟨hpaths, hbits⟩ := crc32c_paths_agree crc32Instruction_crc32Bytes sampleDigits
  exact ⟨hpaths, hbits, by decide +kernel⟩

end Codec
