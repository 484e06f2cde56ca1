/-
**The Keccak reference, bit by bit.**

A state is 1600 bits, in five columns, five rows and sixty-four slices.  The permutation
Keccak-f[1600] applies five step mappings in each of twenty-four rounds; the rotation offsets come
from a walk through the columns and rows, and the round constants from a shift register.  The sponge
with rate 1088 absorbs a message that is padded by `10*1`, and gives out 256 bits.

Main definitions:

* `KeccakReference.State`;
* `KeccakReference.theta`, `KeccakReference.rho`, `KeccakReference.pi`, `KeccakReference.chi`,
  `KeccakReference.iota`, `KeccakReference.keccakF`;
* `KeccakReference.pad`, `KeccakReference.absorb`, `KeccakReference.squeeze`,
  `KeccakReference.keccak256`.

Main results:

* `KeccakReference.getD_bitsOf` — a bit of a byte string;
* `KeccakReference.absorb_append` — absorbing a block, then the rest.
-/

import MedorCoin.Cpp.Text
import Mathlib.Data.List.GetD

set_option autoImplicit false

namespace KeccakReference

/-! ### The permutation -/

/-- A state: its bit in column `x`, row `y` and slice `z`. -/
abbrev State := Fin 5 → Fin 5 → Fin 64 → Bool

/-- The parity of a column in a slice. -/
def parity (a : State) (x : Fin 5) (z : Fin 64) : Bool :=
  a x 0 z ^^ a x 1 z ^^ a x 2 z ^^ a x 3 z ^^ a x 4 z

/-- θ adds to each bit the parities of the column before it, and of the one behind it in the slice
before. -/
def theta (a : State) : State := fun x y z =>
  a x y z ^^ (parity a (x - 1) z ^^ parity a (x + 1) (z - 1))

/-- The walk through the columns and rows, from column 1 and row 0. -/
def walk : ℕ → Fin 5 × Fin 5
  | 0 => (1, 0)
  | t + 1 => ((walk t).2, 2 * (walk t).1 + 3 * (walk t).2)

/-- How far a lane is rotated: a triangular number, by when the walk comes to it. -/
def offset (x y : Fin 5) : ℕ :=
  match (List.range 24).find? fun t => walk t = (x, y) with
  | some t => (t + 1) * (t + 2) / 2
  | none => 0

/-- ρ rotates each lane. -/
def rho (a : State) : State := fun x y z => a x y (z - Fin.ofNat 64 (offset x y))

/-- π moves the lanes. -/
def pi (a : State) : State := fun x y z => a (x + 3 * y) x z

/-- χ adds to each bit the product of the next two in its row, the first of them negated. -/
def chi (a : State) : State := fun x y z => a x y z ^^ (!a (x + 1) y z && a (x + 2) y z)

/-- The shift register, with feedback at the bits 0, 4, 5 and 6. -/
def register : ℕ → BitVec 8
  | 0 => 1
  | t + 1 =>
      let r := register t
      (r <<< 1) ^^^ if r.msb then 0x71 else 0

/-- A bit of the constant of a round: bit `2 ^ j - 1` is what the register gives out at
`j + 7 i`. -/
def roundConstant (i : ℕ) (z : Fin 64) : Bool :=
  (List.range 7).any fun j => z.val == 2 ^ j - 1 && (register (j + 7 * i)).getLsbD 0

/-- ι adds the constant of the round to one lane. -/
def iota (i : ℕ) (a : State) : State := fun x y z =>
  if x = 0 ∧ y = 0 then a x y z ^^ roundConstant i z else a x y z

/-- A round. -/
def round (i : ℕ) (a : State) : State := iota i (chi (pi (rho (theta a))))

/-- **Keccak-f[1600].** -/
def keccakF (a : State) : State := (List.range 24).foldl (fun a i => round i a) a

/-! ### The sponge -/

/-- The bits of a byte string, of each byte the lowest first. -/
def bitsOf (data : List UInt8) : List Bool :=
  data.flatMap fun b => (List.range 8).map fun i => b.toBitVec.getLsbD i

def rate : ℕ := 1088

/-- The padding `10*1` of a message of `m` bits. -/
def pad (m : ℕ) : List Bool :=
  true :: (List.replicate ((rate - (m + 2) % rate) % rate) false ++ [true])

/-- The place of a bit in the bit string that a state is. -/
def place (x y : Fin 5) (z : Fin 64) : ℕ := 64 * (5 * y.val + x.val) + z.val

/-- Add a block to the state. -/
def addBlock (a : State) (block : List Bool) : State := fun x y z =>
  a x y z ^^ block.getD (place x y z) false

/-- Absorb a padded message, block by block. -/
def absorb (a : State) (p : List Bool) : State :=
  if p = [] then a else absorb (keccakF (addBlock a (p.take rate))) (p.drop rate)
termination_by p.length
decreasing_by
  have hpos := List.length_pos_iff.2 (by assumption : p ≠ [])
  rw [List.length_drop, rate]
  omega

/-- The first 256 bits of a state. -/
def squeeze (a : State) : List Bool :=
  (List.range 256).map fun k => a (Fin.ofNat 5 (k / 64)) (Fin.ofNat 5 (k / 320)) (Fin.ofNat 64 k)

/-- **Keccak-256**, in bits. -/
def keccak256 (data : List UInt8) : List Bool :=
  squeeze (absorb (fun _ _ _ => false) (bitsOf data ++ pad (8 * data.length)))

/-! ### Bits and blocks -/

theorem bitsOf_cons (b : UInt8) (data : List UInt8) :
    bitsOf (b :: data) = (List.range 8).map (fun i => b.toBitVec.getLsbD i) ++ bitsOf data :=
  List.flatMap_cons

theorem bitsOf_append (data data' : List UInt8) :
    bitsOf (data ++ data') = bitsOf data ++ bitsOf data' := List.flatMap_append

@[simp] theorem length_bitsOf (data : List UInt8) : (bitsOf data).length = 8 * data.length := by
  induction data with
  | nil => rfl
  | cons b data ih =>
      rw [bitsOf_cons, List.length_append, ih, List.length_map, List.length_range,
        List.length_cons]
      omega

/-- **A bit of a byte string.** -/
theorem getD_bitsOf (data : List UInt8) (k : ℕ) :
    (bitsOf data).getD k false = (data.getD (k / 8) 0).toBitVec.getLsbD (k % 8) := by
  induction data generalizing k with
  | nil => simp [bitsOf]
  | cons b data ih =>
      rw [bitsOf_cons]
      by_cases hk : k < 8
      · have hdiv : k / 8 = 0 := Nat.div_eq_of_lt hk
        rw [List.getD_append _ _ _ _ (by simpa using hk), hdiv, List.getD_cons_zero,
          Nat.mod_eq_of_lt hk]
        simp [List.getD_eq_getElem?_getD, hk]
      · have hdiv : k / 8 = (k - 8) / 8 + 1 := by omega
        have hmod : k % 8 = (k - 8) % 8 := by omega
        rw [List.getD_append_right _ _ _ _ (by simpa using hk), List.length_map,
          List.length_range, ih, hdiv, List.getD_cons_succ, hmod]

theorem absorb_nil (a : State) : absorb a [] = a := by
  rw [absorb, if_pos rfl]

/-- **Absorbing a block, then the rest.** -/
theorem absorb_append (a : State) {block : List Bool} (h : block.length = rate) (p : List Bool) :
    absorb a (block ++ p) = absorb (keccakF (addBlock a block)) p := by
  have hne : block ++ p ≠ [] := by
    intro hnil
    have hlength := congrArg List.length hnil
    rw [List.length_append, h, rate] at hlength
    exact absurd hlength (by simp)
  rw [absorb, if_neg hne, ← h, List.take_left, List.drop_left]

end KeccakReference
