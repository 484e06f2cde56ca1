/-
**Computations that may throw, with checked reads.**

A C++ function that decodes a buffer returns or throws; if it is wrong, it reads outside the buffer
or does not return.  `Cpp.Checked` keeps the four apart, so that safety is a statement about the
result: `Cpp.Ensures` says that a computation returns a value with a property or throws, and
nothing else.

Main definitions:

* `Cpp.Failure`, `Cpp.Checked` — the ways not to return, and computations;
* `Cpp.byteAt`, `Cpp.copyBytes` — the reads;
* `Cpp.Ensures` — a computation returns a value with a property, or throws.

Main results:

* `Cpp.Ensures.bind` — **the rule of composition**;
* `Cpp.ensures_byteAt`, `Cpp.ensures_copyBytes` — a read inside the buffer is safe.
-/

import MedorCoin.Cpp.BigEndian

set_option autoImplicit false

namespace Cpp

/-- The ways in which a call does not return. -/
inductive Failure where
  /-- It throws a `std::runtime_error` with this text. -/
  | runtimeError (what : String)
  /-- It throws the `std::length_error` of a container that would be too long. -/
  | lengthError
  /-- It reads outside the buffer. -/
  | outOfBounds
  /-- It has not returned within the given number of nested calls or turns. -/
  | outOfFuel
  deriving DecidableEq

/-- A computation that may not return. -/
abbrev Checked := Except Failure

/-- The failure is an exception. -/
def Failure.Thrown : Failure → Prop
  | .runtimeError _ => True
  | .lengthError => True
  | .outOfBounds => False
  | .outOfFuel => False

/-- `std::vector<uint8_t>::max_size()`. -/
def maxSize : ℕ := 2 ^ 63 - 1

/-- The length of a buffer as a `size_t`. -/
def size (data : List UInt8) : UInt64 := UInt64.ofNat data.length

/-- `data[i]`. -/
def byteAt (data : List UInt8) (i : UInt64) : Checked UInt8 :=
  match data[i.toNat]? with
  | some b => .ok b
  | none => .error .outOfBounds

/-- The bytes of a buffer from one place up to another. -/
def slice (data : List UInt8) (start stop : ℕ) : List UInt8 := (data.drop start).take (stop - start)

/-- `std::vector<uint8_t>(data + start, data + start + len)`: it throws if the distance is more than
a vector can hold, and copies every byte otherwise. -/
def copyBytes (data : List UInt8) (start len : UInt64) : Checked (List UInt8) :=
  if len.toNat > maxSize then .error .lengthError
  else if start.toNat + len.toNat ≤ data.length then
    .ok (slice data start.toNat (start.toNat + len.toNat))
  else .error .outOfBounds

/-- **The computation returns a value with a property, or throws**: it reads nothing outside the
buffer, and it does come to an end. -/
def Ensures {α : Type} (r : Checked α) (P : α → Prop) : Prop :=
  match r with
  | .ok a => P a
  | .error e => e.Thrown

section Ensures

variable {α β : Type} {r : Checked α} {P Q : α → Prop}

/-! ### Rules -/

theorem Ensures.ok {a : α} (h : P a) : Ensures (.ok a) P := h

theorem Ensures.throw (what : String) : Ensures (.error (.runtimeError what)) P := trivial

theorem Ensures.of_eq {a : α} (h : Ensures r P) (hr : r = .ok a) : P a := by
  rw [hr] at h
  exact h

theorem Ensures.mono (h : Ensures r P) (hPQ : ∀ a, P a → Q a) : Ensures r Q := by
  cases r with
  | ok a => exact hPQ a h
  | error e => exact h

/-- **The rule of composition.** -/
theorem Ensures.bind {f : α → Checked β} {R : β → Prop} (h : Ensures r P)
    (hf : ∀ a, P a → Ensures (f a) R) : Ensures (r >>= f) R := by
  cases r with
  | ok a => exact hf a h
  | error e => exact h

theorem Ensures.ite {p : Prop} [Decidable p] {r' : Checked α} (h : p → Ensures r P)
    (h' : ¬ p → Ensures r' P) : Ensures (if p then r else r') P := by
  split
  · next hp => exact h hp
  · next hp => exact h' hp

theorem Ensures.ne_outOfFuel (h : Ensures r P) : r ≠ .error .outOfFuel := by
  rintro rfl
  exact h

theorem bind_eq_ok {f : α → Checked β} {b : β} :
    (r >>= f) = .ok b ↔ ∃ a, r = .ok a ∧ f a = .ok b := by
  cases r with
  | ok a => exact ⟨fun h => ⟨a, rfl, h⟩, fun ⟨a', ha, h⟩ => by cases ha; exact h⟩
  | error e => exact ⟨fun h => (nomatch h), fun ⟨a', ha, _⟩ => (nomatch ha)⟩

theorem bind_of_ok {f : α → Checked β} {a : α} (h : r = .ok a) : (r >>= f) = f a := by
  rw [h]
  rfl

end Ensures

/-! ### Reads -/

variable {data : List UInt8}

theorem toNat_size (h : data.length < 2 ^ 64) : (size data).toNat = data.length :=
  UInt64.toNat_ofNat_of_lt' h

theorem byteAt_eq_ok {i : UInt64} {b : UInt8} :
    byteAt data i = .ok b ↔ data[i.toNat]? = some b := by
  unfold byteAt
  split
  · next b' hb =>
      rw [hb, Option.some.injEq]
      exact ⟨fun h => by cases h; rfl, fun h => h ▸ rfl⟩
  · next hb =>
      rw [hb]
      exact ⟨fun h => (nomatch h), fun h => (nomatch h)⟩

theorem ensures_byteAt {i : UInt64} (h : i.toNat < data.length) :
    Ensures (byteAt data i) fun b => data[i.toNat]? = some b := by
  rw [byteAt, List.getElem?_eq_getElem h]
  exact Ensures.ok rfl

theorem length_slice {start stop : ℕ} (h : stop ≤ data.length) :
    (slice data start stop).length = stop - start := by
  rw [slice, List.length_take, List.length_drop]
  omega

theorem slice_of_drop {start : ℕ} {w rest : List UInt8} (h : data.drop start = w ++ rest) :
    slice data start (start + w.length) = w := by
  rw [slice, h, Nat.add_sub_cancel_left, List.take_left]

theorem drop_of_drop {start : ℕ} {w rest : List UInt8} (h : data.drop start = w ++ rest) :
    data.drop (start + w.length) = rest := by
  rw [← List.drop_drop, h, List.drop_left]

theorem slice_append {start stop : ℕ} (mid : ℕ) (h : start ≤ mid) (h' : mid ≤ stop) :
    slice data start stop = slice data start mid ++ slice data mid stop := by
  have hsplit : stop - start = (mid - start) + (stop - mid) := by omega
  have hmid : start + (mid - start) = mid := by omega
  rw [slice, hsplit, List.take_add, List.drop_drop, hmid]
  rfl

theorem slice_self (start : ℕ) : slice data start start = [] := by
  rw [slice, Nat.sub_self, List.take_zero]

theorem slice_succ {start : ℕ} {b : UInt8} (h : data[start]? = some b) :
    slice data start (start + 1) = [b] := by
  obtain ⟨hlt, hb⟩ := List.getElem?_eq_some_iff.1 h
  rw [slice, List.drop_eq_getElem_cons hlt, hb, Nat.add_sub_cancel_left, List.take_succ_cons,
    List.take_zero]

theorem ensures_copyBytes {start len : UInt64}
    (h : len.toNat ≤ maxSize → start.toNat + len.toNat ≤ data.length) :
    Ensures (copyBytes data start len) fun bytes =>
      start.toNat + len.toNat ≤ data.length ∧
        bytes = slice data start.toNat (start.toNat + len.toNat) := by
  unfold copyBytes
  refine Ensures.ite (fun _ => trivial) fun hmax => ?_
  have hle := h (not_lt.1 hmax)
  rw [if_pos hle]
  exact Ensures.ok ⟨hle, rfl⟩

theorem copyBytes_of_le {start len : UInt64} (hmax : len.toNat ≤ maxSize)
    (hle : start.toNat + len.toNat ≤ data.length) :
    copyBytes data start len = .ok (slice data start.toNat (start.toNat + len.toNat)) := by
  rw [copyBytes, if_neg (not_lt.2 hmax), if_pos hle]

end Cpp
