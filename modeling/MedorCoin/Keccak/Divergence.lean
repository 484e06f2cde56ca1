/-
**The digest of the source is not Keccak-256.**

Two of the twenty-four round constants of the source are not those of the reference: the last but
one and the last.  The first of them changes a lane that the last round moves into the digest, so
that the permutation differs from the reference on every state, and the digest on every input of one
block.  Everything else is as in the reference: with the two constants mended the digest is
Keccak-256.

Main results:

* `Keccak.lane_one_ne` — another constant in the last round but one changes the second lane;
* `Keccak.beforeLastBlock_ne` — digests agree only if the states before the last block do not;
* `Keccak.keccak256_diverges` — **the digest and the permutation differ from the reference**.
-/

import MedorCoin.Keccak.Lanes

set_option autoImplicit false

namespace Keccak

open Cpp Cpp.Keccak KeccakReference

/-! ### The last two rounds -/

theorem rotl64_injective {u v n : UInt64} (hn : n.toNat < 64) (h : rotl64 u n = rotl64 v n) :
    u = v := by
  rw [← UInt64.toBitVec_inj]
  refine BitVec.eq_of_getLsbD_eq fun z hz => ?_
  have hplace : ((z + n.toNat) % 64 + 64 - n.toNat) % 64 = z := by omega
  have hbit := getLsbD_rotl64 u hn (Nat.mod_lt (z + n.toNat) (by decide))
  rw [h, getLsbD_rotl64 v hn (Nat.mod_lt _ (by decide)), hplace] at hbit
  exact hbit.symm

/-- A round, after the constant of the round before it was added. -/
def lastRounds (a b : UInt64) (st : Lanes) : Lanes :=
  Cpp.Keccak.iota b (Cpp.Keccak.chi (rhoPi (Cpp.Keccak.theta (Cpp.Keccak.iota a st))))

/-- The parity of a column of lanes. -/
def column (st : Lanes) (x : ℕ) : UInt64 :=
  lane st x ^^^ lane st (x + 5) ^^^ lane st (x + 10) ^^^ lane st (x + 15) ^^^ lane st (x + 20)

theorem lane_theta (st : Lanes) {i : ℕ} (h : i < 25) :
    lane (Cpp.Keccak.theta st) i =
      lane st i ^^^ (column st ((i % 5 + 4) % 5) ^^^ rotl64 (column st ((i % 5 + 1) % 5)) 1) := by
  rw [Cpp.Keccak.theta, lane_map_range _ h, lane_map_range _ (Nat.mod_lt _ (by decide)),
    lane_map_range _ (Nat.mod_lt _ (by decide)), lane_map_range _ (Nat.mod_lt _ (by decide))]
  rfl

theorem column_iota {a : UInt64} {st : Lanes} (h : 0 < st.length) {x : ℕ} (hx : x ≠ 0) :
    column (Cpp.Keccak.iota a st) x = column st x := by
  simp only [column, lane_iota h]
  rw [if_neg hx, if_neg (by omega), if_neg (by omega), if_neg (by omega), if_neg (by omega)]

theorem lane_lastRounds (a b : UInt64) (st : Lanes) :
    lane (lastRounds a b st) 1 =
      rotl64 (lane (Cpp.Keccak.theta (Cpp.Keccak.iota a st)) 6) 44 ^^^
        (~~~rotl64 (lane (Cpp.Keccak.theta (Cpp.Keccak.iota a st)) 12) 43 &&&
          rotl64 (lane (Cpp.Keccak.theta (Cpp.Keccak.iota a st)) 18) 21) := by
  have h1 := lane_rhoPi_target (Cpp.Keccak.theta (Cpp.Keccak.iota a st)) (i := 6) (by decide)
  have h2 := lane_rhoPi_target (Cpp.Keccak.theta (Cpp.Keccak.iota a st)) (i := 12) (by decide)
  have h3 := lane_rhoPi_target (Cpp.Keccak.theta (Cpp.Keccak.iota a st)) (i := 18) (by decide)
  rw [lastRounds, lane_iota (by rw [length_chi]; decide), if_neg (by decide), Cpp.Keccak.chi,
    lane_map_range _ (by decide)]
  rw [show target 6 = 1 from rfl] at h1
  rw [show target 12 = 2 from rfl] at h2
  rw [show target 18 = 3 from rfl] at h3
  rw [h1, h2, h3]
  rfl

/-- **Another constant in the last round but one changes the second lane.** -/
theorem lane_one_ne {st : Lanes} (h : 0 < st.length) {a a' : UInt64} (ha : a ≠ a')
    (b b' : UInt64) : lane (lastRounds a b st) 1 ≠ lane (lastRounds a' b' st) 1 := by
  have htheta (c : UInt64) {i : ℕ} (hi : i < 25) (h0 : i ≠ 0) (h1 : (i % 5 + 4) % 5 ≠ 0)
      (h2 : (i % 5 + 1) % 5 ≠ 0) :
      lane (Cpp.Keccak.theta (Cpp.Keccak.iota c st)) i = lane (Cpp.Keccak.theta st) i := by
    rw [lane_theta _ hi, lane_theta _ hi, lane_iota h, if_neg h0, column_iota h h1,
      column_iota h h2]
  have hsix (c : UInt64) : lane (Cpp.Keccak.theta (Cpp.Keccak.iota c st)) 6 =
      c ^^^ lane (Cpp.Keccak.theta st) 6 := by
    have hcolumn : column (Cpp.Keccak.iota c st) 0 = c ^^^ column st 0 := by
      simp only [column, lane_iota h, Nat.zero_add, if_true, OfNat.ofNat_ne_zero, if_false]
      ac_rfl
    rw [lane_theta _ (by decide), lane_theta _ (by decide), lane_iota h, if_neg (by decide),
      column_iota h (by decide : (6 % 5 + 1) % 5 ≠ 0)]
    change lane st 6 ^^^ (column (Cpp.Keccak.iota c st) 0 ^^^ rotl64 (column st 2) 1) =
      c ^^^ (lane st 6 ^^^ (column st 0 ^^^ rotl64 (column st 2) 1))
    rw [hcolumn]
    ac_rfl
  intro heq
  rw [lane_lastRounds, lane_lastRounds, htheta a (i := 12) (by decide) (by decide) (by decide)
    (by decide), htheta a (i := 18) (by decide) (by decide) (by decide) (by decide),
    htheta a' (i := 12) (by decide) (by decide) (by decide) (by decide),
    htheta a' (i := 18) (by decide) (by decide) (by decide) (by decide)] at heq
  have hrot := rotl64_injective (by decide) ((UInt64.xor_left_inj _).1 heq)
  rw [hsix, hsix] at hrot
  exact ha ((UInt64.xor_left_inj _).1 hrot)

/-! ### The permutation and the digest -/

/-- The state before the last two constants are added. -/
def beforeLast (st : Lanes) : Lanes :=
  Cpp.Keccak.chi (rhoPi (Cpp.Keccak.theta (rounds (roundConstants.take 22) st)))

theorem rounds_eq_lastRounds (st : Lanes) :
    rounds roundConstants st = lastRounds 0x0000000000000001 0x8000000000008008 (beforeLast st) ∧
      rounds referenceConstants st =
        lastRounds 0x0000000080000001 0x8000000080008008 (beforeLast st) := by
  have hsource : roundConstants =
      roundConstants.take 22 ++ [0x0000000000000001, 0x8000000000008008] := by decide
  constructor
  · conv_lhs => rw [hsource]
    rw [rounds, List.foldl_append]
    rfl
  · rw [rounds, referenceConstants, List.foldl_append]
    rfl

/-- **The second lane is never that of the reference.** -/
theorem lane_one_rounds_ne (st : Lanes) :
    lane (rounds roundConstants st) 1 ≠ lane (rounds referenceConstants st) 1 := by
  rw [(rounds_eq_lastRounds st).1, (rounds_eq_lastRounds st).2]
  exact lane_one_ne (by rw [beforeLast, length_chi]; decide) (by decide) _ _

theorem lane_eq_of_stateOf {st st' : Lanes} {x y : Fin 5} (h : stateOf st x y = stateOf st' x y) :
    lane st (index x y) = lane st' (index x y) := by
  rw [← UInt64.toBitVec_inj]
  exact BitVec.eq_of_getLsbD_eq fun z hz => congrFun h ⟨z, hz⟩

theorem lane_one_of_squeeze {a a' : State} (h : squeeze a = squeeze a') : a 1 0 = a' 1 0 := by
  funext z
  have hz := z.isLt
  have hget (b : State) : (squeeze b)[64 + z.val]? = some (b 1 0 z) := by
    have hlt : 64 + z.val < 256 := by omega
    rw [squeeze, List.getElem?_map, List.getElem?_range hlt, Option.map_some]
    have hx : Fin.ofNat 5 ((64 + z.val) / 64) = 1 := by
      have hdiv : (64 + z.val) / 64 = 1 := by omega
      rw [hdiv]
      rfl
    have hy : Fin.ofNat 5 ((64 + z.val) / 320) = 0 := by
      have hdiv : (64 + z.val) / 320 = 0 := by omega
      rw [hdiv]
      rfl
    have hz' : Fin.ofNat 64 (64 + z.val) = z := by
      rw [Fin.ext_iff]
      change (64 + z.val) % 64 = z.val
      omega
    rw [hx, hy, hz']
  have heq := hget a
  rw [h, hget a'] at heq
  exact (Option.some.inj heq).symm

/-- The state after the full blocks of a message, and what is left of it. -/
def absorbFull (constants : List UInt64) : ℕ → Lanes → Str → Lanes × Str
  | 0, st, data => (st, data)
  | fuel + 1, st, data =>
      if data.length < Cpp.Keccak.rate then (st, data)
      else absorbFull constants fuel
        (rounds constants (addLanes st (data.take Cpp.Keccak.rate))) (data.drop Cpp.Keccak.rate)

theorem absorbWith_eq (constants : List UInt64) (fuel : ℕ) (st : Lanes) (data : Str) :
    absorbWith constants fuel st data =
      rounds constants (addLanes (absorbFull constants fuel st data).1
        (lastBlock (absorbFull constants fuel st data).2)) := by
  induction fuel generalizing st data with
  | zero => rfl
  | succ fuel ih =>
      rw [absorbWith, absorbFull]
      split
      · rfl
      · exact ih _ _

theorem absorbFull_snd (constants constants' : List UInt64) (fuel : ℕ) (st st' : Lanes)
    (data : Str) :
    (absorbFull constants fuel st data).2 = (absorbFull constants' fuel st' data).2 := by
  induction fuel generalizing st st' data with
  | zero => rfl
  | succ fuel ih =>
      rw [absorbFull, absorbFull]
      split
      · rfl
      · exact ih _ _ _

/-- **The state of a message before its last block**, for any constants. -/
def beforeLastBlock (constants : List UInt64) (data : Str) : Lanes :=
  (absorbFull constants data.length (List.replicate 25 0) data).1

theorem beforeLastBlock_of_lt {data : Str} (h : data.length < Cpp.Keccak.rate)
    (constants : List UInt64) : beforeLastBlock constants data = List.replicate 25 0 := by
  cases data with
  | nil => rfl
  | cons b data => rw [beforeLastBlock, List.length_cons, absorbFull, if_pos h]

theorem beforeLastBlock_ne {data : Str}
    (h : bitsOf (Cpp.Keccak.keccak256 data) = KeccakReference.keccak256 data) :
    beforeLastBlock roundConstants data ≠ beforeLastBlock referenceConstants data := by
  intro hstate
  rw [beforeLastBlock, beforeLastBlock] at hstate
  rw [← bitsOf_digestWith, keccak256_eq_digestWith, digestWith, digestWith, absorbWith_eq,
    absorbWith_eq, bitsOf_output, bitsOf_output, hstate,
    absorbFull_snd roundConstants referenceConstants _ _ (List.replicate 25 0)] at h
  exact lane_one_rounds_ne _ (lane_eq_of_stateOf (lane_one_of_squeeze h))

/-- **The digest and the permutation differ from the reference**: the permutation on every state,
and the digest on every input whose states before the last block are the same, as they are on every
input shorter than a block; with the last two constants mended the digest is that of the reference
on every input. -/
theorem keccak256_diverges (data : Str) :
    (∀ st : Lanes, stateOf (keccakF1600 st) ≠ keccakF (stateOf st)) ∧
    (beforeLastBlock roundConstants data = beforeLastBlock referenceConstants data →
      bitsOf (Cpp.Keccak.keccak256 data) ≠ KeccakReference.keccak256 data) ∧
    (data.length < Cpp.Keccak.rate →
      bitsOf (Cpp.Keccak.keccak256 data) ≠ KeccakReference.keccak256 data) ∧
    bitsOf (digestWith referenceConstants data) = KeccakReference.keccak256 data := by
  refine ⟨fun st heq => ?_, fun h heq => beforeLastBlock_ne heq h, fun h heq => ?_,
    bitsOf_digestWith data⟩
  · rw [← stateOf_rounds, keccakF1600_eq_rounds] at heq
    exact lane_one_rounds_ne st (lane_eq_of_stateOf (congrFun (congrFun heq 1) 0))
  · refine beforeLastBlock_ne heq ?_
    rw [beforeLastBlock_of_lt h, beforeLastBlock_of_lt h]

theorem keccak256_diverges_byte :
    bitsOf (Cpp.Keccak.keccak256 [97]) ≠ KeccakReference.keccak256 [97] :=
  (keccak256_diverges [97]).2.2.1 (by decide)

/-- **The digest of the empty string is not Keccak-256.** -/
theorem keccak256_diverges_empty :
    ¬ ∀ data, bitsOf (Cpp.Keccak.keccak256 data) = KeccakReference.keccak256 data := by
  intro h
  exact beforeLastBlock_ne (h []) rfl

end Keccak
