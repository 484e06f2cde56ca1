/-
**Writing to buffers.**

A buffer has a fixed length.  Writing a number to it throws when the number does not fit the width,
or the width the buffer at the offset; copying to it leaves out what does not fit.

Main definitions:

* `Js.bufferAlloc`, `Js.bufferCopy` — `Buffer.alloc(n)` and `source.copy(target, offset)`;
* `Js.writeUInt32LE`, `Js.writeBigUInt64LE` — writing a number, the lowest byte first.

Main results:

* `Js.length_overwrite`, `Js.length_writeLE`, `Js.length_bufferCopy` — **the length stays**;
* `Js.writeLE_eq_ok`, `Js.writeLE_of_length_lt` — when a number is written, and when it is not.
-/

import MedorCoin.Cpp.LittleEndian
import MedorCoin.Js.Bytes
import MedorCoin.Js.Error

set_option autoImplicit false

namespace Js

/-- `Buffer.alloc(n)` -/
def bufferAlloc (n : ℕ) : Bytes := List.replicate n 0

/-- The bytes from an offset on replaced by others. -/
def overwrite (buffer : Bytes) (offset : ℕ) (bytes : Bytes) : Bytes :=
  buffer.take offset ++ bytes ++ buffer.drop (offset + bytes.length)

/-- `source.copy(target, offset)` -/
def bufferCopy (source target : Bytes) (offset : ℕ) : Bytes :=
  overwrite target offset (source.take (target.length - offset))

/-- Writing a number in so many bytes, the lowest first. -/
def writeLE (width : ℕ) (buffer : Bytes) (value : ℤ) (offset : ℕ) : Except Error Bytes :=
  if value < 0 ∨ 256 ^ width ≤ value then
    .error (.rangeError "The value of \"value\" is out of range.")
  else if buffer.length < offset + width then
    .error (.rangeError "The value of \"offset\" is out of range.")
  else .ok (overwrite buffer offset (Cpp.leWrite width value.toNat))

/-- `buffer.writeUInt32LE(value, offset)` -/
def writeUInt32LE (buffer : Bytes) (value : ℤ) (offset : ℕ) : Except Error Bytes :=
  writeLE 4 buffer value offset

/-- `buffer.writeBigUInt64LE(value, offset)` -/
def writeBigUInt64LE (buffer : Bytes) (value : ℤ) (offset : ℕ) : Except Error Bytes :=
  writeLE 8 buffer value offset

@[simp] theorem length_bufferAlloc (n : ℕ) : (bufferAlloc n).length = n := List.length_replicate

theorem length_overwrite {buffer bytes : Bytes} {offset : ℕ}
    (h : offset + bytes.length ≤ buffer.length) :
    (overwrite buffer offset bytes).length = buffer.length := by
  simp only [overwrite, List.length_append, List.length_take, List.length_drop]
  omega

@[simp] theorem length_bufferCopy {source target : Bytes} {offset : ℕ}
    (h : offset ≤ target.length) : (bufferCopy source target offset).length = target.length := by
  refine length_overwrite ?_
  rw [List.length_take]
  omega

section Write

variable {width offset : ℕ} {buffer : Bytes} {value : ℤ}

theorem writeLE_eq_ok {buffer' : Bytes} :
    writeLE width buffer value offset = .ok buffer' ↔
      0 ≤ value ∧ value < 256 ^ width ∧ offset + width ≤ buffer.length ∧
        buffer' = overwrite buffer offset (Cpp.leWrite width value.toNat) := by
  rw [writeLE]
  split
  · next hvalue =>
      refine ⟨nofun, fun ⟨hpos, hlt, _, _⟩ => ?_⟩
      omega
  · next hvalue =>
      split
      · next hlength =>
          refine ⟨nofun, fun ⟨_, _, hle, _⟩ => ?_⟩
          omega
      · next hlength =>
          rw [Except.ok.injEq]
          constructor
          · rintro rfl
            exact ⟨by omega, by omega, by omega, rfl⟩
          · exact fun h => h.2.2.2.symm

theorem length_writeLE {buffer' : Bytes} (h : writeLE width buffer value offset = .ok buffer') :
    buffer'.length = buffer.length := by
  obtain ⟨-, -, hle, rfl⟩ := writeLE_eq_ok.1 h
  exact length_overwrite (by rwa [Cpp.length_leWrite])

theorem writeLE_of_length_lt (h : buffer.length < offset + width) (buffer' : Bytes) :
    writeLE width buffer value offset ≠ .ok buffer' := by
  intro hok
  obtain ⟨-, -, hle, -⟩ := writeLE_eq_ok.1 hok
  omega

end Write

end Js
