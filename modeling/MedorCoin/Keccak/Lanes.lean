/-
**Lanes are columns of bits.**

The source keeps a state as twenty-five lanes and computes on whole lanes.  `Keccak.stateOf` reads
them as the bits of the reference; under it each step of the source is the step mapping of the
reference, so that with the round constants of the reference the whole computation is that of the
reference.

Main definitions:

* `Keccak.stateOf` — the bits of a list of lanes;
* `Keccak.rounds`, `Keccak.digestWith` — the permutation and the digest for any round constants;
* `Keccak.referenceConstants` — the constants of the source, with the last two mended.

Main results:

* `Keccak.stateOf_theta`, `Keccak.stateOf_rhoPi`, `Keccak.stateOf_chi`, `Keccak.stateOf_iota` —
  **the steps are those of the reference**;
* `Keccak.bitsOf_digestWith` — **with the mended constants the digest is Keccak-256**.
-/

import MedorCoin.Cpp.Keccak
import MedorCoin.Keccak.Reference
import Mathlib.Data.Fintype.Basic

set_option autoImplicit false

namespace Keccak

open Cpp Cpp.Keccak KeccakReference

/-- The place of the lane in column `x` and row `y`. -/
def index (x y : Fin 5) : ℕ := x.val + 5 * y.val

/-- **The bits of a list of lanes.** -/
def stateOf (st : Lanes) : State := fun x y z => (lane st (index x y)).toBitVec.getLsbD z.val

theorem index_lt (x y : Fin 5) : index x y < 25 := by
  have hx := x.isLt
  have hy := y.isLt
  rw [index]
  omega

theorem index_mod (x y : Fin 5) : index x y % 5 = x.val := by
  have hx := x.isLt
  rw [index]
  omega

theorem index_div (x y : Fin 5) : index x y / 5 = y.val := by
  have hx := x.isLt
  rw [index]
  omega

/-! ### Bits of words -/

theorem lane_map_range (f : ℕ → UInt64) {n i : ℕ} (h : i < n) :
    lane ((List.range n).map f) i = f i := by
  rw [lane, List.getD_eq_getElem?_getD, List.getElem?_map, List.getElem?_range h]
  rfl

/-- **A bit of a rotated lane.** -/
theorem getLsbD_rotl64 (v : UInt64) {n : UInt64} (hn : n.toNat < 64) {z : ℕ} (hz : z < 64) :
    (rotl64 v n).toBitVec.getLsbD z = v.toBitVec.getLsbD ((z + 64 - n.toNat) % 64) := by
  have hleft : (n.toBitVec % 64).toNat = n.toNat := by
    rw [BitVec.toNat_umod]
    exact Nat.mod_eq_of_lt hn
  have hright : ((64 - n).toBitVec % 64).toNat = (64 - n.toNat) % 64 := by
    have hle : n ≤ 64 := UInt64.le_iff_toNat_le.2 hn.le
    rw [BitVec.toNat_umod]
    exact congrArg (· % 64) (UInt64.toNat_sub_of_le _ _ hle)
  rw [rotl64, UInt64.toBitVec_or, UInt64.toBitVec_shiftLeft, UInt64.toBitVec_shiftRight,
    BitVec.getLsbD_or, BitVec.shiftLeft_eq', BitVec.ushiftRight_eq', hleft, hright,
    BitVec.getLsbD_shiftLeft, BitVec.getLsbD_ushiftRight, decide_eq_true hz, Bool.true_and]
  by_cases hlt : z < n.toNat
  · -- the bit has come in at the right end
    have hz' : (64 - n.toNat) % 64 + z = (z + 64 - n.toNat) % 64 := by omega
    rw [decide_eq_true hlt, Bool.not_true, Bool.false_and, Bool.false_or, hz']
  · have hz' : z - n.toNat = (z + 64 - n.toNat) % 64 := by omega
    rw [decide_eq_false hlt, Bool.not_false, Bool.true_and, ← hz']
    by_cases hzero : n.toNat = 0
    · rw [hzero, Nat.sub_zero, Nat.mod_self, Nat.zero_add, Bool.or_self]
    · have hbig : 64 ≤ (64 - n.toNat) % 64 + z := by omega
      rw [BitVec.getLsbD_of_ge _ _ hbig, Bool.or_false]

/-! ### θ -/

theorem val_sub_one (x : Fin 5) : (x - 1).val = (x.val + 4) % 5 := by
  revert x
  decide

theorem val_add_one (x : Fin 5) : (x + 1).val = (x.val + 1) % 5 := by
  revert x
  decide

theorem val_add_two (x : Fin 5) : (x + 2).val = (x.val + 2) % 5 := by
  revert x
  decide

theorem stateOf_theta (st : Lanes) :
    stateOf (Cpp.Keccak.theta st) = KeccakReference.theta (stateOf st) := by
  have hparity (x : Fin 5) (z : Fin 64) : parity (stateOf st) x z =
      (lane st x.val ^^^ lane st (x.val + 5) ^^^ lane st (x.val + 10) ^^^ lane st (x.val + 15) ^^^
        lane st (x.val + 20)).toBitVec.getLsbD z.val := by
    simp only [UInt64.toBitVec_xor, BitVec.getLsbD_xor]
    rfl
  funext x y z
  have hz : ((z.val + 64 - (1 : UInt64).toNat) % 64) = (z - 1).val := by
    rw [Fin.sub_def]
    change (z.val + 64 - 1) % 64 = (64 - 1 + z.val) % 64
    congr 1
    omega
  have hx := x.isLt
  rw [stateOf, Cpp.Keccak.theta, lane_map_range _ (index_lt x y), index_mod, lane_map_range _ hx,
    lane_map_range _ (Nat.mod_lt _ (by decide)), lane_map_range _ (Nat.mod_lt _ (by decide)),
    UInt64.toBitVec_xor, UInt64.toBitVec_xor, BitVec.getLsbD_xor, BitVec.getLsbD_xor,
    getLsbD_rotl64 _ (by decide) z.isLt, hz, ← val_sub_one, ← val_add_one, ← hparity, ← hparity]
  rfl

/-! ### ρ and π -/

/-- Where ρ and π put a lane. -/
def target (i : ℕ) : ℕ := i / 5 + 5 * ((2 * (i % 5) + 3 * (i / 5)) % 5)

theorem lane_foldl_set_of_notMem (g : ℕ → UInt64) {l : List ℕ} (b : Lanes) {k : ℕ}
    (h : k ∉ l.map target) :
    lane (l.foldl (fun b i => b.set (target i) (g i)) b) k = lane b k := by
  induction l generalizing b with
  | nil => rfl
  | cons i l ih =>
      rw [List.map_cons, List.mem_cons, not_or] at h
      rw [List.foldl_cons, ih _ h.2, lane, lane, List.getD_eq_getElem?_getD,
        List.getD_eq_getElem?_getD, List.getElem?_set_ne (Ne.symm h.1)]

theorem lane_foldl_set (g : ℕ → UInt64) {l : List ℕ} (b : Lanes) {j : ℕ} (hj : j ∈ l)
    (hnodup : (l.map target).Nodup) (hlt : target j < b.length) :
    lane (l.foldl (fun b i => b.set (target i) (g i)) b) (target j) = g j := by
  induction l generalizing b with
  | nil => exact absurd hj List.not_mem_nil
  | cons i l ih =>
      rw [List.map_cons, List.nodup_cons] at hnodup
      rw [List.foldl_cons]
      rcases List.mem_cons.1 hj with rfl | hj
      · rw [lane_foldl_set_of_notMem g _ hnodup.1, lane, List.getD_eq_getElem?_getD,
          List.getElem?_set_self hlt]
        rfl
      · exact ih _ hj hnodup.2 (by rwa [List.length_set])

theorem lane_rhoPi_target (st : Lanes) {i : ℕ} (h : i < 25) :
    lane (rhoPi st) (target i) = rotl64 (lane st i) (lane rotations i) := by
  refine lane_foldl_set (fun i => rotl64 (lane st i) (lane rotations i)) (List.replicate 25 0)
    (List.mem_range.2 h) (by decide) ?_
  rw [List.length_replicate, target]
  omega

theorem lane_rhoPi (st : Lanes) (x y : Fin 5) :
    lane (rhoPi st) (index x y) =
      rotl64 (lane st (index (x + 3 * y) x)) (lane rotations (index (x + 3 * y) x)) := by
  have htarget : index x y = target (index (x + 3 * y) x) := by
    revert x y
    decide
  rw [htarget, lane_rhoPi_target st (index_lt _ _)]

theorem lane_rotations (x y : Fin 5) :
    (lane rotations (index x y)).toNat = offset x y % 64 := by
  revert x y
  decide +kernel

theorem stateOf_rhoPi (st : Lanes) : stateOf (rhoPi st) = pi (rho (stateOf st)) := by
  funext x y z
  have hrot := lane_rotations (x + 3 * y) x
  have hlt : (lane rotations (index (x + 3 * y) x)).toNat < 64 := by
    rw [hrot]
    exact Nat.mod_lt _ (by decide)
  have hz : (z - Fin.ofNat 64 (offset (x + 3 * y) x)).val =
      (z.val + 64 - (lane rotations (index (x + 3 * y) x)).toNat) % 64 := by
    rw [hrot, Fin.sub_def]
    change (64 - offset (x + 3 * y) x % 64 + z.val) % 64 = _
    have hlt' := Nat.mod_lt (offset (x + 3 * y) x) (by decide : 64 > 0)
    congr 1
    omega
  change (lane (rhoPi st) (index x y)).toBitVec.getLsbD z.val =
    (lane st (index (x + 3 * y) x)).toBitVec.getLsbD
      (z - Fin.ofNat 64 (offset (x + 3 * y) x)).val
  rw [lane_rhoPi, getLsbD_rotl64 _ hlt z.isLt, hz]

/-! ### χ and ι -/

theorem stateOf_chi (b : Lanes) : stateOf (Cpp.Keccak.chi b) = KeccakReference.chi (stateOf b) := by
  funext x y z
  have hz := z.isLt
  rw [stateOf, Cpp.Keccak.chi, lane_map_range _ (index_lt x y), index_mod, index_div,
    ← val_add_one, ← val_add_two, UInt64.toBitVec_xor, UInt64.toBitVec_and, UInt64.toBitVec_not,
    BitVec.getLsbD_xor, BitVec.getLsbD_and, BitVec.getLsbD_not, decide_eq_true hz, Bool.true_and]
  rfl

@[simp] theorem length_chi (b : Lanes) : (Cpp.Keccak.chi b).length = 25 := by
  rw [Cpp.Keccak.chi, List.length_map, List.length_range]

theorem lane_iota {rc : UInt64} {st : Lanes} (h : 0 < st.length) (i : ℕ) :
    lane (Cpp.Keccak.iota rc st) i = if i = 0 then lane st 0 ^^^ rc else lane st i := by
  rw [Cpp.Keccak.iota, lane, List.getD_eq_getElem?_getD]
  split
  · next hi =>
      rw [hi, List.getElem?_set_self h]
      rfl
  · next hi =>
      rw [List.getElem?_set_ne (Ne.symm hi), ← List.getD_eq_getElem?_getD, lane]

theorem stateOf_iota {rc : UInt64} {i : ℕ}
    (hrc : ∀ z : Fin 64, rc.toBitVec.getLsbD z.val = roundConstant i z) {st : Lanes}
    (h : 0 < st.length) :
    stateOf (Cpp.Keccak.iota rc st) = KeccakReference.iota i (stateOf st) := by
  funext x y z
  rw [stateOf, lane_iota h, KeccakReference.iota]
  have hindex : index x y = 0 ↔ x = 0 ∧ y = 0 := by
    rw [index, Fin.ext_iff, Fin.ext_iff]
    change _ ↔ x.val = 0 ∧ y.val = 0
    omega
  by_cases hxy : x = 0 ∧ y = 0
  · rw [if_pos (hindex.2 hxy), if_pos hxy, UInt64.toBitVec_xor, BitVec.getLsbD_xor, hrc, hxy.1,
      hxy.2]
    rfl
  · rw [if_neg (mt hindex.1 hxy), if_neg hxy]
    rfl

/-! ### The rounds -/

/-- The rounds of the permutation, for any constants. -/
def rounds (constants : List UInt64) (st : Lanes) : Lanes :=
  constants.foldl (fun st rc =>
    Cpp.Keccak.iota rc (Cpp.Keccak.chi (rhoPi (Cpp.Keccak.theta st)))) st

theorem keccakF1600_eq_rounds : keccakF1600 = rounds roundConstants := rfl

/-- **The constants of the reference**: those of the source, but for the last two. -/
def referenceConstants : List UInt64 :=
  roundConstants.take 22 ++ [0x0000000080000001, 0x8000000080008008]

theorem getLsbD_referenceConstants :
    ∀ i < 24, ∀ z : Fin 64,
      (referenceConstants.getD i 0).toBitVec.getLsbD z.val = roundConstant i z := by
  decide +kernel

theorem stateOf_round {rc : UInt64} {i : ℕ}
    (hrc : ∀ z : Fin 64, rc.toBitVec.getLsbD z.val = roundConstant i z) (st : Lanes) :
    stateOf (Cpp.Keccak.iota rc (Cpp.Keccak.chi (rhoPi (Cpp.Keccak.theta st)))) =
      round i (stateOf st) := by
  rw [stateOf_iota hrc (by rw [length_chi]; decide), stateOf_chi, stateOf_rhoPi, stateOf_theta]
  rfl

/-- **With the constants of the reference the permutation is that of the reference.** -/
theorem stateOf_rounds (st : Lanes) :
    stateOf (rounds referenceConstants st) = keccakF (stateOf st) := by
  have hlist : referenceConstants = (List.range 24).map fun i => referenceConstants.getD i 0 := by
    decide
  have hfold (l : List ℕ) (hl : ∀ i ∈ l, i < 24) (st : Lanes) :
      stateOf (rounds (l.map fun i => referenceConstants.getD i 0) st) =
        l.foldl (fun a i => round i a) (stateOf st) := by
    induction l generalizing st with
    | nil => rfl
    | cons i l ih =>
        have hi := getLsbD_referenceConstants i (hl i List.mem_cons_self)
        rw [List.foldl_cons, ← stateOf_round hi]
        exact ih (fun j hj => hl j (List.mem_cons_of_mem _ hj)) _
  rw [hlist]
  exact hfold _ (fun i hi => List.mem_range.1 hi) st

/-! ### Blocks -/

theorem toNat_shift {i : ℕ} (hi : i < 8) : ((8 * i).toUInt64.toBitVec % 64).toNat = 8 * i := by
  have hvalue : (8 * i).toUInt64.toNat = 8 * i := UInt64.toNat_ofNat_of_lt' (by
    change 8 * i < 2 ^ 64
    omega)
  rw [BitVec.toNat_umod]
  change (8 * i).toUInt64.toNat % 64 = 8 * i
  rw [hvalue]
  omega

theorem getLsbD_shifted (b : UInt8) {i z : ℕ} (hi : i < 8) (hz : z < 64) :
    (b.toUInt64 <<< (8 * i).toUInt64).toBitVec.getLsbD z =
      (decide (z / 8 = i) && b.toBitVec.getLsbD (z % 8)) := by
  have hshift : ((8 * i).toUInt64.toBitVec % 64).toNat = 8 * i := toNat_shift hi
  rw [UInt64.toBitVec_shiftLeft, BitVec.shiftLeft_eq', hshift, BitVec.getLsbD_shiftLeft,
    UInt8.toBitVec_toUInt64, BitVec.getLsbD_setWidth, decide_eq_true hz, Bool.true_and,
    decide_eq_true (by omega : z - 8 * i < 64), Bool.true_and]
  by_cases hlt : z < 8 * i
  · rw [decide_eq_true hlt, decide_eq_false (by omega : ¬ z / 8 = i)]
    rfl
  · rw [decide_eq_false hlt, Bool.not_false, Bool.true_and]
    by_cases hdiv : z / 8 = i
    · have hmod : z - 8 * i = z % 8 := by omega
      rw [decide_eq_true hdiv, Bool.true_and, hmod]
    · rw [decide_eq_false hdiv, Bool.false_and, BitVec.getLsbD_of_ge _ _ (by omega)]

theorem getLsbD_foldl_or (l : List UInt64) (v : UInt64) (z : ℕ) :
    (l.foldl (· ||| ·) v).toBitVec.getLsbD z =
      (v.toBitVec.getLsbD z || l.any fun w => w.toBitVec.getLsbD z) := by
  induction l generalizing v with
  | nil => rw [List.foldl_nil, List.any_nil, Bool.or_false]
  | cons w l ih =>
      rw [List.foldl_cons, ih, UInt64.toBitVec_or, BitVec.getLsbD_or, List.any_cons, Bool.or_assoc]

/-- **A bit of eight bytes that are read as a lane.** -/
theorem getLsbD_leRead64 (p : Str) {z : ℕ} (hz : z < 64) :
    (leRead64 p).toBitVec.getLsbD z = (p.getD (z / 8) 0).toBitVec.getLsbD (z % 8) := by
  have hzero : (0 : UInt64).toBitVec.getLsbD z = false := by simp
  rw [leRead64, getLsbD_foldl_or, hzero, Bool.false_or, List.any_map, Bool.eq_iff_iff,
    List.any_eq_true]
  constructor
  · rintro ⟨i, hi, hbit⟩
    rw [Function.comp_apply, getLsbD_shifted _ (List.mem_range.1 hi) hz, Bool.and_eq_true,
      decide_eq_true_eq] at hbit
    rw [hbit.1]
    exact hbit.2
  · intro hbit
    have hi : z / 8 < 8 := by omega
    refine ⟨z / 8, List.mem_range.2 hi, ?_⟩
    rw [Function.comp_apply, getLsbD_shifted _ hi hz, decide_eq_true rfl, Bool.true_and]
    exact hbit

/-- Add a block to the lanes of the rate. -/
def addLanes (st : Lanes) (block : Str) : Lanes :=
  (List.range 25).map fun i =>
    if i < Cpp.Keccak.rate / 8 then lane st i ^^^ leRead64 (block.drop (8 * i)) else lane st i

theorem stateOf_addLanes (st : Lanes) {block : Str} (h : block.length = Cpp.Keccak.rate) :
    stateOf (addLanes st block) = addBlock (stateOf st) (bitsOf block) := by
  funext x y z
  have hz := z.isLt
  have hplace : place x y z = 64 * index x y + z.val := by
    rw [place, index, Nat.add_comm (5 * y.val)]
  have hdiv : place x y z / 8 = 8 * index x y + z.val / 8 := by omega
  have hmod : place x y z % 8 = z.val % 8 := by omega
  rw [addBlock, getD_bitsOf, hdiv, hmod, stateOf, addLanes, lane_map_range _ (index_lt x y)]
  split
  · next hlt =>
      rw [UInt64.toBitVec_xor, BitVec.getLsbD_xor, getLsbD_leRead64 _ hz,
        List.getD_eq_getElem?_getD, List.getElem?_drop, ← List.getD_eq_getElem?_getD]
      rfl
  · next hge =>
      have hout : block.length ≤ 8 * index x y + z.val / 8 := by
        rw [h]
        rw [Cpp.Keccak.rate] at hge ⊢
        omega
      rw [List.getD_eq_default _ _ hout]
      simp [stateOf]

/-! ### The padding -/

theorem set_append_cons {α : Type} (l l' : List α) (a b : α) :
    (l ++ a :: l').set l.length b = l ++ b :: l' := by
  rw [List.set_append_right _ _ (le_refl _), Nat.sub_self, List.set_cons_zero]

theorem getD_append_cons (l l' : Str) (a : UInt8) : (l ++ a :: l').getD l.length 0 = a := by
  rw [List.getD_append_right _ _ _ _ (le_refl _), Nat.sub_self, List.getD_cons_zero]

theorem lastBlock_eq {data : Str} (h : data.length < Cpp.Keccak.rate) :
    lastBlock data = if data.length = 135 then data ++ [0x81]
      else data ++ (0x01 :: (List.replicate (134 - data.length) 0 ++ [0x80])) := by
  rw [Cpp.Keccak.rate] at h
  have hzeros : List.replicate (Cpp.Keccak.rate - data.length) (0 : UInt8) =
      0 :: List.replicate (135 - data.length) 0 := by
    have hcount : Cpp.Keccak.rate - data.length = 135 - data.length + 1 := by
      rw [Cpp.Keccak.rate]
      omega
    rw [hcount, List.replicate_succ]
  have hlast : Cpp.Keccak.rate - 1 = 135 := rfl
  simp only [lastBlock]
  rw [hzeros, getD_append_cons, set_append_cons, hlast]
  split
  · next hfull =>
      rw [hfull]
      have hget := getD_append_cons data [] (0 ^^^ 0x01)
      have hset := set_append_cons data [] (0 ^^^ 0x01) ((0 ^^^ 0x01) ^^^ 0x80)
      rw [hfull] at hget hset
      rw [Nat.sub_self, List.replicate_zero, hget, hset]
      rfl
  · next hshort =>
      have hcount : 135 - data.length = 134 - data.length + 1 := by omega
      have hlength : (data ++ (0 ^^^ 0x01) :: List.replicate (134 - data.length) 0).length =
          135 := by
        rw [List.length_append, List.length_cons, List.length_replicate]
        omega
      have hshape : data ++ (0 ^^^ 0x01) :: List.replicate (135 - data.length) 0 =
          (data ++ (0 ^^^ 0x01) :: List.replicate (134 - data.length) 0) ++ [0] := by
        rw [hcount, List.replicate_succ', List.append_assoc, List.cons_append]
      have hget := getD_append_cons (data ++ (0 ^^^ 0x01) :: List.replicate (134 - data.length) 0)
        [] 0
      have hset := set_append_cons (data ++ (0 ^^^ 0x01) :: List.replicate (134 - data.length) 0)
        [] 0 (0 ^^^ 0x80)
      rw [hlength] at hget hset
      rw [hshape, hget, hset, List.append_assoc, List.cons_append]
      rfl

theorem bitsOf_replicate_zero (n : ℕ) :
    bitsOf (List.replicate n 0) = List.replicate (8 * n) false := by
  induction n with
  | zero => rfl
  | succ n ih =>
      rw [List.replicate_succ, bitsOf_cons, ih, Nat.mul_succ, Nat.add_comm, List.replicate_add]
      rfl

/-- **The bits of the last block** are those that are left, padded. -/
theorem bitsOf_lastBlock {data : Str} (h : data.length < Cpp.Keccak.rate) :
    bitsOf (lastBlock data) = bitsOf data ++ pad (8 * data.length) := by
  rw [Cpp.Keccak.rate] at h
  have hzeros : (KeccakReference.rate - (8 * data.length + 2) % KeccakReference.rate) %
      KeccakReference.rate = 1086 - 8 * data.length := by
    rw [KeccakReference.rate]
    omega
  rw [lastBlock_eq h, pad, hzeros]
  split
  · next hlast =>
      rw [hlast, bitsOf_append]
      rfl
  · next hlast =>
      have hcount : 1086 - 8 * data.length = 7 + (8 * (134 - data.length) + 7) := by omega
      rw [bitsOf_append, bitsOf_cons, bitsOf_append, bitsOf_replicate_zero, hcount,
        List.replicate_add, List.replicate_add]
      have hone : (List.range 8).map (fun i => (0x01 : UInt8).toBitVec.getLsbD i) =
          true :: List.replicate 7 false := by decide
      have hend : bitsOf [0x80] = List.replicate 7 false ++ [true] := by decide
      rw [hone, hend]
      simp only [List.cons_append, List.append_assoc]

/-! ### The digest -/

/-- The absorption of the source, for any round constants. -/
def absorbWith (constants : List UInt64) : ℕ → Lanes → Str → Lanes
  | 0, st, data => rounds constants (addLanes st (lastBlock data))
  | fuel + 1, st, data =>
      if data.length < Cpp.Keccak.rate then rounds constants (addLanes st (lastBlock data))
      else absorbWith constants fuel
        (rounds constants (addLanes st (data.take Cpp.Keccak.rate))) (data.drop Cpp.Keccak.rate)

/-- The first four lanes, as bytes. -/
def output (st : Lanes) : Str := (List.range 4).flatMap fun i => leWrite64 (lane st i)

/-- **The digest of the source, for any round constants.** -/
def digestWith (constants : List UInt64) (data : Str) : Str :=
  output (absorbWith constants data.length (List.replicate 25 0) data)

theorem absorb_eq (fuel : ℕ) (st : Lanes) (data : Str) :
    Cpp.Keccak.absorb fuel st data = absorbWith roundConstants fuel st data := by
  induction fuel generalizing st data with
  | zero => rfl
  | succ fuel ih =>
      rw [Cpp.Keccak.absorb, absorbWith, ih]
      rfl

theorem keccak256_eq_digestWith (data : Str) :
    Cpp.Keccak.keccak256 data = digestWith roundConstants data := by
  rw [Cpp.Keccak.keccak256, absorb_eq]
  rfl

theorem length_lastBlock {data : Str} (h : data.length < Cpp.Keccak.rate) :
    (lastBlock data).length = Cpp.Keccak.rate := by
  rw [lastBlock, List.length_set, List.length_set, List.length_append, List.length_replicate]
  omega

theorem stateOf_lastBlock (st : Lanes) {data : Str} (h : data.length < Cpp.Keccak.rate) :
    stateOf (rounds referenceConstants (addLanes st (lastBlock data))) =
      KeccakReference.absorb (stateOf st) (bitsOf data ++ pad (8 * data.length)) := by
  have hlength : (bitsOf (lastBlock data)).length = KeccakReference.rate := by
    rw [length_bitsOf, length_lastBlock h]
    rfl
  rw [stateOf_rounds, stateOf_addLanes _ (length_lastBlock h), ← bitsOf_lastBlock h,
    ← List.append_nil (bitsOf (lastBlock data)), absorb_append _ hlength, absorb_nil,
    List.append_nil]

/-- **With the constants of the reference the absorption is that of the reference.** -/
theorem stateOf_absorbWith (fuel : ℕ) (st : Lanes) (data : Str) (h : data.length ≤ fuel) :
    stateOf (absorbWith referenceConstants fuel st data) =
      KeccakReference.absorb (stateOf st) (bitsOf data ++ pad (8 * data.length)) := by
  induction fuel generalizing st data with
  | zero =>
      refine stateOf_lastBlock st ?_
      rw [Cpp.Keccak.rate]
      omega
  | succ fuel ih =>
      rw [absorbWith]
      split
      · next hlast => exact stateOf_lastBlock st hlast
      · next hfull =>
          have hrate : Cpp.Keccak.rate = 136 := rfl
          have hdrop : (data.drop Cpp.Keccak.rate).length = data.length - Cpp.Keccak.rate :=
            List.length_drop
          have htake : (data.take Cpp.Keccak.rate).length = Cpp.Keccak.rate := by
            rw [List.length_take]
            omega
          have hblock : (bitsOf (data.take Cpp.Keccak.rate)).length = KeccakReference.rate := by
            rw [length_bitsOf, htake]
            rfl
          -- the padding depends on the length up to whole blocks
          have hpad : pad (8 * (data.drop Cpp.Keccak.rate).length) = pad (8 * data.length) := by
            have hmod : (8 * (data.length - Cpp.Keccak.rate) + 2) % KeccakReference.rate =
                (8 * data.length + 2) % KeccakReference.rate := by
              rw [KeccakReference.rate]
              omega
            rw [pad, pad, hdrop, hmod]
          have hsplit : bitsOf data =
              bitsOf (data.take Cpp.Keccak.rate) ++ bitsOf (data.drop Cpp.Keccak.rate) := by
            rw [← bitsOf_append, List.take_append_drop]
          rw [ih _ _ (by omega), hpad, hsplit, List.append_assoc, absorb_append _ hblock,
            stateOf_rounds, stateOf_addLanes _ htake]

theorem flatMap_range_map {α : Type} (g : ℕ → ℕ → α) {m : ℕ} (hm : 0 < m) (n : ℕ) :
    ((List.range n).flatMap fun i => (List.range m).map (g i)) =
      (List.range (m * n)).map fun k => g (k / m) (k % m) := by
  induction n with
  | zero => rfl
  | succ n ih =>
      rw [List.range_succ, List.flatMap_append, ih, List.flatMap_singleton, Nat.mul_succ,
        List.range_add, List.map_append, List.map_map]
      congr 1
      refine List.map_congr_left fun j hj => ?_
      have hlt := List.mem_range.1 hj
      rw [Function.comp_apply, Nat.mul_add_div hm, Nat.div_eq_of_lt hlt, Nat.add_zero,
        Nat.mul_add_mod, Nat.mod_eq_of_lt hlt]

theorem getLsbD_byte (v : UInt64) {i j : ℕ} (hi : i < 8) (hj : j < 8) :
    (v >>> (8 * i).toUInt64).toUInt8.toBitVec.getLsbD j = v.toBitVec.getLsbD (8 * i + j) := by
  have hshift : ((8 * i).toUInt64.toBitVec % 64).toNat = 8 * i := toNat_shift hi
  rw [UInt64.toBitVec_toUInt8, BitVec.getLsbD_setWidth, decide_eq_true hj, Bool.true_and,
    UInt64.toBitVec_shiftRight, BitVec.ushiftRight_eq', hshift, BitVec.getLsbD_ushiftRight]

theorem bitsOf_leWrite64 (v : UInt64) :
    bitsOf (leWrite64 v) = (List.range 64).map fun z => v.toBitVec.getLsbD z := by
  rw [bitsOf, leWrite64, List.flatMap_map, flatMap_range_map _ (by decide)]
  refine List.map_congr_left fun k hk => ?_
  have hk' := List.mem_range.1 hk
  rw [getLsbD_byte v (by omega) (Nat.mod_lt _ (by decide)), Nat.div_add_mod]

theorem bitsOf_output (st : Lanes) : bitsOf (output st) = squeeze (stateOf st) := by
  have houtput : bitsOf (output st) =
      (List.range 4).flatMap fun i => bitsOf (leWrite64 (lane st i)) := by
    rw [output, bitsOf, List.flatMap_assoc]
    rfl
  simp only [houtput, bitsOf_leWrite64]
  rw [flatMap_range_map (fun i z => (lane st i).toBitVec.getLsbD z) (by decide), squeeze]
  refine List.map_congr_left fun k hk => ?_
  have hk' := List.mem_range.1 hk
  have hindex : index (Fin.ofNat 5 (k / 64)) (Fin.ofNat 5 (k / 320)) = k / 64 := by
    rw [index]
    change k / 64 % 5 + 5 * (k / 320 % 5) = k / 64
    omega
  rw [stateOf, hindex]
  rfl

/-- **With the constants of the reference the digest is Keccak-256.** -/
theorem bitsOf_digestWith (data : Str) :
    bitsOf (digestWith referenceConstants data) = KeccakReference.keccak256 data := by
  have hzero : stateOf (List.replicate 25 0) = fun _ _ _ => false := by
    funext x y z
    have hlt := index_lt x y
    rw [stateOf, lane, List.getD_eq_getElem?_getD, List.getElem?_replicate, if_pos hlt]
    simp
  rw [digestWith, bitsOf_output, stateOf_absorbWith _ _ _ (le_refl _), hzero]
  rfl

end Keccak
