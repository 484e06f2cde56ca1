/-
**The checksum of the file of peers.**

`crc32` takes a byte at a time, by a table of 256 words that stands in the source.  Only 180 words
are written there, so the last 76 are zero, and some of those that are written are not the words of
the polynomial.  The checksum is the one of the polynomial as long as no other word is looked up.

Main definitions:

* `Net.StoreChecksum.CRC32_TABLE`, `Net.StoreChecksum.crc32` — the table; the checksum;
* `Net.StoreChecksum.crcIeee` — the checksum, bit by bit, of the reflected polynomial `0xEDB88320`;
* `Net.StoreChecksum.LooksUpRight` — no word is looked up that is not the one of the polynomial;
* `Net.StoreChecksum.Burst` — two strings differ, within 32 bits at most.

Main results:

* `Net.StoreChecksum.crcByte_eq_iff` — **one byte**: the word that is looked up is right;
* `Net.StoreChecksum.crc32_eq_crcIeee_iff` — **a string and all its beginnings**;
* `Net.StoreChecksum.crcIeee_ne_of_burst` — the checksum of the polynomial finds every burst.
-/

import MedorCoin.Codec.Checksum
import MedorCoin.Cpp.Text
import MedorCoin.Crc.Residue

set_option autoImplicit false

namespace Net.StoreChecksum

open Cpp Crc

/-! ### The table -/

/-- What is written between the braces of `CRC32_TABLE[256]`. -/
def crc32Words : List UInt32 :=
  [0x00000000, 0x77073096, 0xEE0E612C, 0x990951BA, 0x076DC419, 0x706AF48F, 0xE963A535,
   0x9E6495A3, 0x0EDB8832, 0x79DCB8A4, 0xE0D5E91B, 0x97D2D988, 0x09B64C2B, 0x7EB17CBF,
   0xE7B82D09, 0x90BF1CBB, 0x1DB71064, 0x6AB020F2, 0xF3B97148, 0x84BE41DE, 0x1ADAD47D,
   0x6DDDE4EB, 0xF4D4B551, 0x83D385C7, 0x136C9856, 0x646BA8C0, 0xFD62F97A, 0x8A65C9EC,
   0x14015C4F, 0x63066CD9, 0xFA0F3D63, 0x8D080DF5, 0x3B6E20C8, 0x4C69105E, 0xD56041E4,
   0xA2677172, 0x3C03E4D1, 0x4B04D447, 0xD20D85FD, 0xA50AB56B, 0x35B5A8FA, 0x42B2986C,
   0xDBBBC9D6, 0xACBCF940, 0x32D86CE3, 0x45DF5C75, 0xDCD60DCF, 0xABD13D59, 0x26D930AC,
   0x51DE003A, 0xC8D75180, 0xBFD06116, 0x21B4F927, 0x56B3C9B1, 0xCFBA9899, 0xB8BDA50F,
   0x2802B89E, 0x5F058808, 0xC60CD9B2, 0xB10BE924, 0x2F6F7C87, 0x58684C11, 0xC1611DAB,
   0xB6662D3D, 0x76DC4190, 0x01DB7106, 0x98D220BC, 0xEFD5102A, 0x71B18589, 0x06B6B51F,
   0x9FBFE4A5, 0xE8B8D433, 0x7807C9A2, 0x0F00F934, 0x9609A88E, 0xE10E9818, 0x7F6396BB,
   0x086D3D2D, 0x91646C97, 0xE6635C01, 0x6B6B51F4, 0x1C6C6162, 0x856530D8, 0xF262004E,
   0x6C0695ED, 0x1B01A57B, 0x8208F4C1, 0xF50FC457, 0x65B0D9C6, 0x12B7E950, 0x8BBEB8EA,
   0xFCB9887C, 0x62DD1D7F, 0x15DA2D49, 0x8CD37CF3, 0xFBD44C65, 0x4DB26158, 0x3AB551CE,
   0xA3BC0074, 0xD4BB30E2, 0x4ADFA541, 0x3DD895D7, 0xA4D1C46D, 0xD3D6F4FB, 0x4369E96A,
   0x346ED9FC, 0xAD678846, 0xDA60B8D0, 0x44042D73, 0x33031DE5, 0xAA0A4C5F, 0xDD0D7CC9,
   0x5005713C, 0x270241AA, 0xBE0B1010, 0xC90C2086, 0x5768B525, 0x206F85B3, 0xB966D409,
   0xCE61E49F, 0x5EDEF90E, 0x29D9C998, 0xB0D09822, 0xC7D7A8B4, 0x59B33D17, 0x2EB40D81,
   0xB7BD5C3B, 0xC0BA6CAD, 0xEDB88320, 0x9ABFB3B6, 0x03B6E20C, 0x74B1D29A, 0xEAD54739,
   0x9DD277AF, 0x04DB2615, 0x73DC1683, 0xE3630B12, 0x94643B84, 0x0D6D6A3E, 0x7A6A5AA8,
   0xE40ECF0B, 0x9309FF9D, 0x0A00AE27, 0x7D079EB1, 0xF00F9344, 0x8708A3D2, 0x1E01F268,
   0x6906C2FE, 0xF762575D, 0x806567CB, 0x196C3671, 0x6E6B06E7, 0xFED41B76, 0x89D32BE0,
   0x10DA7A5A, 0x67DD4ACC, 0xF9B9DF6F, 0x8EBEEFF9, 0x17B7BE43, 0x60B08ED5, 0xD6D6A3E8,
   0xA1D1937E, 0x38D8C2C4, 0x4FDFF252, 0xD1BB67F1, 0xA6BC5767, 0x3FB506DD, 0x48B2364B,
   0xD80D2BDA, 0xAF0A1B4C, 0x36034AF6, 0x41047A60, 0xDF60EFC3, 0xA8670955, 0x316658EF,
   0x466856A9, 0xB40BBE37, 0xC30C8EA1, 0x5A05DF1B, 0x2D02EF8D]

/-- `CRC32_TABLE[256]`; the words that are not written are zero. -/
def CRC32_TABLE : List UInt32 := crc32Words ++ List.replicate (256 - crc32Words.length) 0

/-- A turn of the loop of `crc32`. -/
def crcByte (crc : UInt32) (b : UInt8) : UInt32 :=
  (crc >>> 8) ^^^ CRC32_TABLE.getD ((crc ^^^ b.toUInt32) &&& 0xFF).toNat 0

/-- `crc32(data, len)`. -/
def crc32 (data : Str) : UInt32 := data.foldl crcByte 0xFFFFFFFF ^^^ 0xFFFFFFFF

/-! ### The polynomial -/

/-- The reflected polynomial of the checksum. -/
def ieeePoly : BitVec 32 := 0xEDB88320#32

/-- The register after a byte, bit by bit. -/
def ieeeByte (crc : UInt32) (b : UInt8) : UInt32 := ⟨feed ieeePoly crc.toBitVec b.toBitVec⟩

/-- **The checksum of the polynomial**, with ones in the register at first and inverted at the
end. -/
def crcIeee (data : Str) : UInt32 := data.foldl ieeeByte 0xFFFFFFFF ^^^ 0xFFFFFFFF

/-- The word that the polynomial has for an index. -/
def ieeeWord (index : UInt32) : UInt32 := ⟨(step ieeePoly)^[8] index.toBitVec⟩

/-- The index of the word that is looked up for a byte. -/
def tableIndex (crc : UInt32) (b : UInt8) : UInt32 := (crc ^^^ b.toUInt32) &&& 0xFF

/-- The table has the word of the polynomial. -/
def RightWord (index : UInt32) : Prop := CRC32_TABLE.getD index.toNat 0 = ieeeWord index

instance (index : UInt32) : Decidable (RightWord index) := inferInstanceAs (Decidable (_ = _))

/-- No word is looked up that is not the one of the polynomial, when the register is `crc`. -/
def RightFrom : UInt32 → Str → Prop
  | _, [] => True
  | crc, b :: data => RightWord (tableIndex crc b) ∧ RightFrom (ieeeByte crc b) data

instance RightFrom.decidable : ∀ (crc : UInt32) (data : Str), Decidable (RightFrom crc data)
  | _, [] => isTrue trivial
  | crc, b :: data =>
      have := RightFrom.decidable (ieeeByte crc b) data
      inferInstanceAs (Decidable (_ ∧ _))

/-- **No word is looked up that is not the one of the polynomial.** -/
def LooksUpRight (data : Str) : Prop := RightFrom 0xFFFFFFFF data

instance (data : Str) : Decidable (LooksUpRight data) :=
  inferInstanceAs (Decidable (RightFrom _ _))

theorem ieeeByte_eq (crc : UInt32) (b : UInt8) :
    ieeeByte crc b = (crc >>> 8) ^^^ ieeeWord (tableIndex crc b) := by
  have hindex : (tableIndex crc b).toBitVec =
      ((crc.toBitVec ^^^ b.toBitVec.setWidth 32).setWidth 8).setWidth 32 := by
    rw [← Codec.and_low]
    rfl
  rw [← UInt32.toBitVec_inj, ieeeByte, feed_eq_table _ _ _ (by decide), Codec.shiftRight_byte,
    ← hindex]
  rfl

/-- **One byte**: the register is right after it exactly if the word is. -/
theorem crcByte_eq_iff (crc : UInt32) (b : UInt8) :
    crcByte crc b = ieeeByte crc b ↔ RightWord (tableIndex crc b) := by
  rw [ieeeByte_eq, crcByte]
  exact UInt32.xor_right_inj _

theorem crc32_eq_iff {data : Str} {crc : UInt32} :
    data.foldl crcByte crc ^^^ 0xFFFFFFFF = data.foldl ieeeByte crc ^^^ 0xFFFFFFFF ↔
      data.foldl crcByte crc = data.foldl ieeeByte crc := UInt32.xor_left_inj _

theorem foldl_crcByte_eq_iff (crc : UInt32) (data : Str) :
    (∀ p, p <+: data → p.foldl crcByte crc = p.foldl ieeeByte crc) ↔ RightFrom crc data := by
  induction data generalizing crc with
  | nil => exact iff_of_true (fun p hp => by rw [List.prefix_nil.1 hp]; rfl) trivial
  | cons b data ih =>
      rw [RightFrom, ← crcByte_eq_iff, ← ih]
      constructor
      · intro h
        have hbyte : crcByte crc b = ieeeByte crc b := h [b] (by simp)
        refine ⟨hbyte, fun p hp => ?_⟩
        have hrest := h (b :: p) ((List.prefix_cons_inj b).2 hp)
        rwa [List.foldl_cons, List.foldl_cons, hbyte] at hrest
      · rintro ⟨hbyte, hrest⟩ p hp
        cases p with
        | nil => rfl
        | cons b' p =>
            obtain ⟨rfl, hp'⟩ := List.cons_prefix_cons.1 hp
            rw [List.foldl_cons, List.foldl_cons, hbyte, hrest p hp']

/-- **A string and all its beginnings** have the checksum of the polynomial exactly if no other word
is looked up. -/
theorem crc32_eq_crcIeee_iff (data : Str) :
    (∀ p, p <+: data → crc32 p = crcIeee p) ↔ LooksUpRight data := by
  rw [LooksUpRight, ← foldl_crcByte_eq_iff]
  exact forall₂_congr fun p _ => crc32_eq_iff

theorem LooksUpRight.crc32_eq {data : Str} (h : LooksUpRight data) : crc32 data = crcIeee data :=
  (crc32_eq_crcIeee_iff data).2 h data (List.prefix_refl data)

/-! ### Bursts -/

/-- The bits of a string, in the order in which the checksum takes them. -/
def bitsOf (data : Str) : List Bool := data.flatMap fun b => bits b.toBitVec

/-- **Two strings differ, within 32 bits at most.** -/
def Burst (data data' : Str) : Prop :=
  data ≠ data' ∧ data.length = data'.length ∧
    ∃ k, ∀ i, (bitsOf data)[i]? ≠ (bitsOf data')[i]? → k ≤ i ∧ i < k + 32

theorem foldl_ieeeByte (crc : UInt32) (data : Str) :
    (data.foldl ieeeByte crc).toBitVec = feedBits ieeePoly crc.toBitVec (bitsOf data) := by
  induction data generalizing crc with
  | nil => rfl
  | cons b data ih =>
      rw [List.foldl_cons, ih, ieeeByte, feed_eq_feedBits _ _ _ (by decide) (by decide), bitsOf,
        bitsOf, List.flatMap_cons, feedBits, feedBits, feedBits, List.foldl_append]

theorem length_bitsOf (data : Str) : (bitsOf data).length = 8 * data.length := by
  induction data with
  | nil => rfl
  | cons b data ih =>
      rw [bitsOf, List.flatMap_cons, List.length_append, length_bits, ← bitsOf, ih,
        List.length_cons]
      omega

theorem bits_injective {v : ℕ} {x y : BitVec v} (h : bits x = bits y) : x = y := by
  refine BitVec.eq_of_getLsbD_eq fun i hi => ?_
  exact congrFun (List.ofFn_injective h) ⟨i, hi⟩

theorem bitsOf_injective {data data' : Str} (h : bitsOf data = bitsOf data') : data = data' := by
  induction data generalizing data' with
  | nil =>
      have hlength := congrArg List.length h
      rw [length_bitsOf, length_bitsOf] at hlength
      exact (List.length_eq_zero_iff.1 (by simpa using hlength.symm)).symm
  | cons b data ih =>
      cases data' with
      | nil =>
          have hlength := congrArg List.length h
          rw [length_bitsOf, length_bitsOf] at hlength
          simp at hlength
      | cons b' data' =>
          obtain ⟨hbits, hrest⟩ := List.append_inj h (by rw [length_bits, length_bits])
          rw [UInt8.toBitVec_inj.1 (bits_injective hbits), ih hrest]

/-- **The checksum of the polynomial finds every burst.** -/
theorem crcIeee_ne_of_burst {data data' : Str} (h : Burst data data') :
    crcIeee data ≠ crcIeee data' := by
  obtain ⟨hne, hlength, k, hk⟩ := h
  intro hcrc
  have hregister := congrArg UInt32.toBitVec ((UInt32.xor_left_inj _).1 hcrc)
  rw [foldl_ieeeByte, foldl_ieeeByte] at hregister
  exact feedBits_ne_of_within ieeePoly (by decide) (by decide) _
    (by rw [length_bitsOf, length_bitsOf, hlength]) (fun h => hne (bitsOf_injective h)) hk hregister

theorem burst_set (before after : Str) {b b' : UInt8} (h : b ≠ b') :
    Burst (before ++ b :: after) (before ++ b' :: after) := by
  refine ⟨fun heq => h (List.cons.inj (List.append_cancel_left heq)).1, by simp,
    8 * before.length, fun i hi => ?_⟩
  have hbits (b : UInt8) : bitsOf (before ++ b :: after) =
      bitsOf before ++ (bits b.toBitVec ++ bitsOf after) := by
    rw [bitsOf, List.flatMap_append, List.flatMap_cons]
    rfl
  rw [hbits, hbits] at hi
  constructor
  · by_contra hlt
    rw [List.getElem?_append_left (by rw [length_bitsOf]; omega),
      List.getElem?_append_left (by rw [length_bitsOf]; omega)] at hi
    exact hi rfl
  · by_contra hge
    have hbefore : (bitsOf before).length ≤ i := by rw [length_bitsOf]; omega
    have hbyte (b : UInt8) : (bits b.toBitVec).length ≤ i - (bitsOf before).length := by
      rw [length_bitsOf, length_bits]
      omega
    rw [List.getElem?_append_right hbefore, List.getElem?_append_right hbefore,
      List.getElem?_append_right (hbyte b), List.getElem?_append_right (hbyte b'), length_bits,
      length_bits] at hi
    exact hi rfl

/-- The errors of several words can cancel each other. -/
example : crc32 [82, 160, 62, 113] = crcIeee [82, 160, 62, 113] ∧
    ¬ LooksUpRight [82, 160, 62, 113] := by decide +kernel

end Net.StoreChecksum
