/-
**Machine numbers: the test for overflow, and floating point as far as it is used.**

Before they add to a counter in `uint64_t`, the C++ sources ask whether the addend is more than the
difference of the greatest number and the counter.  The difference does not wrap around, so the test
is right, and a sum that passes it is the sum.

`double` is any type with the operations below.  Nothing is assumed of them, so that what is proved
holds however they round.

Main definitions:

* `Cpp.Double` — the literals and the operations;
* `Cpp.Double.min`, `Cpp.Double.max`, `Cpp.Double.clamp` — what the library makes of the comparison.

Main results:

* `Cpp.le_max_sub_iff` — **what the test finds out**;
* `Cpp.toNat_add_of_lt` — a sum that fits.
-/

import Mathlib.Data.UInt
import Mathlib.Data.Rat.Defs

set_option autoImplicit false

namespace Cpp

variable {a b max : UInt64}

/-- **The test**, at the greatest number. -/
theorem le_max_sub_iff (hmax : max.toNat = 2 ^ 64 - 1) :
    b ≤ max - a ↔ a.toNat + b.toNat < 2 ^ 64 := by
  have hlt := a.toNat_lt
  have hle : a ≤ max := by
    rw [UInt64.le_iff_toNat_le, hmax]
    omega
  rw [UInt64.le_iff_toNat_le, UInt64.toNat_sub_of_le _ _ hle, hmax]
  omega

theorem gt_max_sub_iff (hmax : max.toNat = 2 ^ 64 - 1) :
    b > max - a ↔ 2 ^ 64 ≤ a.toNat + b.toNat := by
  rw [gt_iff_lt, ← UInt64.not_le, le_max_sub_iff hmax, Nat.not_lt]

theorem toNat_add_of_lt (h : a.toNat + b.toNat < 2 ^ 64) :
    (a + b).toNat = a.toNat + b.toNat := by
  rw [UInt64.toNat_add, Nat.mod_eq_of_lt h]

end Cpp

namespace Cpp

/-- The operations of `double`, and its literals. -/
structure Double (D : Type) where
  lit : ℚ → D
  ofUInt64 : UInt64 → D
  add : D → D → D
  sub : D → D → D
  mul : D → D → D
  div : D → D → D
  less : D → D → Bool
  lessEq : D → D → Bool

namespace Double

variable {D : Type} (double : Double D)

/-- `std::min(a, b)`. -/
def min (a b : D) : D := if double.less b a then b else a

/-- `std::max(a, b)`. -/
def max (a b : D) : D := if double.less a b then b else a

/-- `std::clamp(x, lo, hi)`. -/
def clamp (x lo hi : D) : D :=
  if double.less x lo then lo else if double.less hi x then hi else x

end Double

end Cpp
