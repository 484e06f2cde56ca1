/-
**Proof of work of the C++ node.**

A block is hashed by Keccak-256 of its header bytes; its difficulty is the number of leading
zeros its hash is to have in hexadecimal.  Mining tries the nonces in order.

The difficulty is adjusted after every block: by a tenth, and by one at least, if the block took
less than half or more than twice the target time.  The sums are in `uint32_t` and `uint64_t`.

Main definitions:

* `Node.ProofOfWork.computeHash`, `Node.ProofOfWork.hashMeetsTarget`,
  `Node.ProofOfWork.validateHash`;
* `Node.ProofOfWork.mine` — the first nonce whose hash meets the target;
* `Node.ProofOfWork`, `Node.ProofOfWork.adjustDifficulty` — a configuration in order; the
  adjustment;
* `Node.ProofOfWork.Adjusts` — what an adjustment is to be.

Main results:

* `Node.ProofOfWork.mine_spec` — **a mined block** is the given one with a nonce and with the hash
  of its own header, which meets the target;
* `Node.ProofOfWork.mine_of_difficulty_zero` — at difficulty zero the first nonce is found;
* `Node.ProofOfWork.adjusts_adjustDifficulty` — **the adjustment of the difficulty**.
-/

import MedorCoin.Node.Block

set_option autoImplicit false

namespace Node

namespace ProofOfWork

open Cpp

/-- The hash of a block's header. -/
def computeHash (b : Block) : Str := Keccak.hex b.serializeHeader

/-- `difficulty` leading `'0'` characters. -/
def hashMeetsTarget (hash : Str) (difficulty : UInt32) : Bool :=
  difficulty.toNat ≤ hash.length && (hash.take difficulty.toNat).all (· == 48)

/-- `validateHash`: the block carries the hash of its own header, and the hash meets a target
that is not trivial. -/
def validateHash (b : Block) : Bool :=
  b.hash != [] && b.difficulty != 0 && computeHash b == b.hash &&
    hashMeetsTarget b.hash b.difficulty

/-- The block with a nonce and with the hash its header has then. -/
def withNonce (b : Block) (nonce : UInt64) : Block :=
  { b with nonce, hash := computeHash { b with nonce } }

/-- Try `tries` nonces from `nonce` on. -/
def mineFrom : ℕ → UInt64 → Block → Option Block
  | 0, _, _ => none
  | tries + 1, nonce, b =>
      if hashMeetsTarget (withNonce b nonce).hash b.difficulty then some (withNonce b nonce)
      else mineFrom tries (nonce + 1) b

/-- `mine`: the nonces below `maxNonce`, the greatest `uint64_t`.  The callers neither abort the
search nor keep a nonce between searches. -/
def mine (b : Block) : Option Block := mineFrom (2 ^ 64 - 1) 0 b

/-- The hash a block gets with a nonce is that of its header: the hash it carries is not part of
it. -/
theorem computeHash_withNonce (b : Block) (nonce : UInt64) :
    computeHash (withNonce b nonce) = (withNonce b nonce).hash := rfl

theorem isLowerHex_withNonce (b : Block) (nonce : UInt64) :
    isLowerHex 64 (withNonce b nonce).hash :=
  Keccak.isLowerHex_hex _

theorem mineFrom_spec {tries : ℕ} {nonce : UInt64} {b mined : Block}
    (h : mineFrom tries nonce b = some mined) :
    ∃ nonce, mined = withNonce b nonce ∧ hashMeetsTarget mined.hash b.difficulty := by
  induction tries generalizing nonce with
  | zero => exact absurd h (by simp [mineFrom])
  | succ tries ih =>
      rw [mineFrom] at h
      split at h
      · next hmeets =>
          cases h
          exact ⟨nonce, rfl, hmeets⟩
      · exact ih h

/-- **A mined block** is the given one with a nonce and the hash of its header. -/
theorem mine_spec {b mined : Block} (h : mine b = some mined) :
    ∃ nonce, mined = withNonce b nonce ∧ hashMeetsTarget mined.hash b.difficulty :=
  mineFrom_spec h

theorem validateHash_of_mine {b mined : Block} (h : mine b = some mined)
    (hdifficulty : b.difficulty ≠ 0) : validateHash mined := by
  obtain ⟨nonce, rfl, hmeets⟩ := mine_spec h
  have hne : (withNonce b nonce).hash ≠ [] := Keccak.hex_ne_nil _
  rw [validateHash, computeHash_withNonce]
  simp only [Bool.and_eq_true, bne_iff_ne, beq_iff_eq]
  exact ⟨⟨⟨hne, hdifficulty⟩, trivial⟩, hmeets⟩

theorem hashMeetsTarget_zero (hash : Str) : hashMeetsTarget hash 0 := by
  have h : (0 : UInt32).toNat = 0 := rfl
  simp [hashMeetsTarget, h]

theorem mine_of_difficulty_zero {b : Block} (h : b.difficulty = 0) :
    mine b = some (withNonce b 0) := by
  have htries : (2 ^ 64 - 1 : ℕ) = (2 ^ 64 - 2) + 1 := by norm_num
  rw [mine, htries, mineFrom, h, if_pos (hashMeetsTarget_zero _)]

/-! ### Adjusting the difficulty -/

/-- The part of the configuration that the difficulty is adjusted by, with the defaults. -/
structure DifficultyConfig where
  targetBlockTimeSecs : UInt64 := 10
  minDifficulty : UInt32 := 1
  maxDifficulty : UInt32 := 256

end ProofOfWork

/-- A configuration the constructor has put in order: the bounds are not zero, and the one is not
above the other. -/
structure ProofOfWork where
  cfg : ProofOfWork.DifficultyConfig
  one_le_minDifficulty : 1 ≤ cfg.minDifficulty.toNat
  minDifficulty_le_maxDifficulty : cfg.minDifficulty.toNat ≤ cfg.maxDifficulty.toNat

namespace ProofOfWork

theorem toNat_max (a b : UInt32) : (max a b).toNat = max a.toNat b.toNat := by
  have hmax : max a b = if a ≤ b then b else a := rfl
  rw [hmax]
  split
  · next h => exact (max_eq_right (UInt32.le_iff_toNat_le.1 h)).symm
  · next h =>
      have hle : b.toNat ≤ a.toNat := by
        rw [UInt32.le_iff_toNat_le] at h
        omega
      exact (max_eq_left hle).symm

/-- The constructor. -/
def ofConfig (cfg : DifficultyConfig) : ProofOfWork where
  cfg :=
    { cfg with
      minDifficulty := max cfg.minDifficulty 1
      maxDifficulty := max cfg.maxDifficulty (max cfg.minDifficulty 1) }
  one_le_minDifficulty := by
    rw [toNat_max]
    exact le_max_right _ _
  minDifficulty_le_maxDifficulty := by
    rw [toNat_max cfg.maxDifficulty]
    exact le_max_right _ _

/-- `std::clamp`. -/
def clamp (v lo hi : UInt32) : UInt32 := if v < lo then lo else if hi < v then hi else v

/-- The step, in `uint32_t`. -/
def stepOf (next : UInt32) : UInt32 := max 1 (next / 10)

/-- After a block that came too fast.  The sum wraps around. -/
def increase (cfg : DifficultyConfig) (next : UInt32) : UInt32 :=
  if cfg.maxDifficulty < next + stepOf next then cfg.maxDifficulty else next + stepOf next

/-- After a block that came too late.  The sum wraps around. -/
def decrease (cfg : DifficultyConfig) (next : UInt32) : UInt32 :=
  if next ≤ cfg.minDifficulty + stepOf next then cfg.minDifficulty else next - stepOf next

/-- `adjustDifficulty`.  Twice the target time wraps around. -/
def adjustDifficulty (p : ProofOfWork) (currentDifficulty : UInt32) (actualBlockTimeSecs : UInt64) :
    UInt32 :=
  if p.cfg.targetBlockTimeSecs = 0 then currentDifficulty
  else
    let next :=
      if actualBlockTimeSecs = 0 ∨ actualBlockTimeSecs < p.cfg.targetBlockTimeSecs / 2 then
        increase p.cfg currentDifficulty
      else if p.cfg.targetBlockTimeSecs * 2 < actualBlockTimeSecs then
        decrease p.cfg currentDifficulty
      else currentDifficulty
    clamp next p.cfg.minDifficulty p.cfg.maxDifficulty

theorem toNat_clamp {v lo hi : UInt32} (h : lo.toNat ≤ hi.toNat) :
    (clamp v lo hi).toNat = max lo.toNat (min v.toNat hi.toNat) := by
  simp only [clamp, UInt32.lt_iff_toNat_lt]
  split
  · omega
  · split <;> omega

theorem toNat_stepOf (next : UInt32) : (stepOf next).toNat = max 1 (next.toNat / 10) := by
  rw [stepOf, toNat_max, UInt32.toNat_div]
  rfl

theorem toNat_increase {cfg : DifficultyConfig} {next : UInt32}
    (h : next.toNat + (stepOf next).toNat < 2 ^ 32) :
    (increase cfg next).toNat = min (next.toNat + (stepOf next).toNat) cfg.maxDifficulty.toNat := by
  have hsum : (next + stepOf next).toNat = next.toNat + (stepOf next).toNat := by
    rw [UInt32.toNat_add, Nat.mod_eq_of_lt h]
  rw [increase]
  split
  · next hlt =>
      rw [UInt32.lt_iff_toNat_lt, hsum] at hlt
      omega
  · next hge =>
      rw [UInt32.lt_iff_toNat_lt, hsum] at hge
      rw [hsum]
      omega

/-- A decrease, cut off at the lower bound.  Whether the sum wraps around is of no consequence: the
cut comes to the same. -/
theorem max_decrease (cfg : DifficultyConfig) {next : UInt32} (hpos : 1 ≤ next.toNat) :
    max cfg.minDifficulty.toNat (decrease cfg next).toNat =
      max cfg.minDifficulty.toNat (next.toNat - (stepOf next).toNat) := by
  have hstep : (stepOf next).toNat ≤ next.toNat := by
    rw [toNat_stepOf]
    omega
  have hdiff : (next - stepOf next).toNat = next.toNat - (stepOf next).toNat :=
    UInt32.toNat_sub_of_le _ _ (UInt32.le_iff_toNat_le.2 hstep)
  rw [decrease]
  split
  · next hle =>
      rw [UInt32.le_iff_toNat_le, UInt32.toNat_add] at hle
      have hmod := Nat.mod_le (cfg.minDifficulty.toNat + (stepOf next).toNat) (2 ^ 32)
      omega
  · rw [hdiff]

/-- **What an adjustment is to be**: within the bounds, in the direction of the block time, which is
measured in unbounded integers, and by no more than a limit. -/
structure Adjusts (p : ProofOfWork) (limit : ℕ) (current : UInt32) (actual : UInt64)
    (next : UInt32) : Prop where
  min_le : p.cfg.minDifficulty.toNat ≤ next.toNat
  le_max : next.toNat ≤ p.cfg.maxDifficulty.toNat
  faster : 2 * actual.toNat < p.cfg.targetBlockTimeSecs.toNat → current.toNat ≤ next.toNat
  slower : 2 * p.cfg.targetBlockTimeSecs.toNat < actual.toNat → next.toNat ≤ current.toNat
  otherwise : p.cfg.targetBlockTimeSecs.toNat ≤ 2 * actual.toNat →
    actual.toNat ≤ 2 * p.cfg.targetBlockTimeSecs.toNat → next = current
  next_le : next.toNat ≤ current.toNat + limit
  le_next : current.toNat ≤ next.toNat + limit

/-- At the defaults difficulty one becomes two after a block that came in no time: more than an
eighth. -/
theorem not_adjusts_eighth :
    ¬ ∀ (cfg : DifficultyConfig) (current : UInt32) (actual : UInt64),
        cfg.minDifficulty ≤ cfg.maxDifficulty →
        (ofConfig cfg).cfg.minDifficulty ≤ current → current ≤ (ofConfig cfg).cfg.maxDifficulty →
        Adjusts (ofConfig cfg) (current.toNat / 8) current actual
          ((ofConfig cfg).adjustDifficulty current actual) := by
  intro h
  have hstart := (h {} 1 0 (by decide) (by decide) (by decide)).next_le
  exact absurd hstart (by decide)

variable {p : ProofOfWork} {current : UInt32} {actual : UInt64}

theorem adjustDifficulty_mem (actual : UInt64) (hmin : p.cfg.minDifficulty ≤ current)
    (hmax : current ≤ p.cfg.maxDifficulty) :
    p.cfg.minDifficulty.toNat ≤ (p.adjustDifficulty current actual).toNat ∧
      (p.adjustDifficulty current actual).toNat ≤ p.cfg.maxDifficulty.toNat := by
  rw [UInt32.le_iff_toNat_le] at hmin hmax
  have hbounds := p.minDifficulty_le_maxDifficulty
  rw [adjustDifficulty]
  split
  · exact ⟨hmin, hmax⟩
  · rw [toNat_clamp hbounds]
    omega

theorem fast_iff (p : ProofOfWork) (actual : UInt64) :
    actual = 0 ∨ actual < p.cfg.targetBlockTimeSecs / 2 ↔
    actual.toNat = 0 ∨ actual.toNat < p.cfg.targetBlockTimeSecs.toNat / 2 := by
  rw [← UInt64.toNat_inj, UInt64.lt_iff_toNat_lt, UInt64.toNat_div]
  rfl

theorem late_iff (actual : UInt64) (h : 2 * p.cfg.targetBlockTimeSecs.toNat < 2 ^ 64) :
    p.cfg.targetBlockTimeSecs * 2 < actual ↔
      2 * p.cfg.targetBlockTimeSecs.toNat < actual.toNat := by
  have htwo : (2 : UInt64).toNat = 2 := rfl
  rw [UInt64.lt_iff_toNat_lt, UInt64.toNat_mul, htwo, Nat.mul_comm, Nat.mod_eq_of_lt h]

theorem toNat_adjustDifficulty_of_fast (hzero : p.cfg.targetBlockTimeSecs ≠ 0)
    (hfast : actual = 0 ∨ actual < p.cfg.targetBlockTimeSecs / 2)
    (hsum : current.toNat + (stepOf current).toNat < 2 ^ 32)
    (hmin : p.cfg.minDifficulty.toNat ≤ current.toNat) :
    (p.adjustDifficulty current actual).toNat =
      min (current.toNat + (stepOf current).toNat) p.cfg.maxDifficulty.toNat := by
  have hbounds := p.minDifficulty_le_maxDifficulty
  rw [adjustDifficulty, if_neg hzero, if_pos hfast, toNat_clamp hbounds, toNat_increase hsum]
  omega

theorem toNat_adjustDifficulty_of_late (hzero : p.cfg.targetBlockTimeSecs ≠ 0)
    (hslow : ¬ (actual = 0 ∨ actual < p.cfg.targetBlockTimeSecs / 2))
    (hlate : p.cfg.targetBlockTimeSecs * 2 < actual)
    (hmin : p.cfg.minDifficulty.toNat ≤ current.toNat)
    (hmax : current.toNat ≤ p.cfg.maxDifficulty.toNat) :
    (p.adjustDifficulty current actual).toNat =
      max p.cfg.minDifficulty.toNat (current.toNat - (stepOf current).toNat) := by
  have hbounds := p.minDifficulty_le_maxDifficulty
  have hcut := max_decrease p.cfg (p.one_le_minDifficulty.trans hmin)
  rw [adjustDifficulty, if_neg hzero, if_neg hslow, if_pos hlate, toNat_clamp hbounds]
  omega

theorem adjustDifficulty_of_not_late (hmin : p.cfg.minDifficulty.toNat ≤ current.toNat)
    (hmax : current.toNat ≤ p.cfg.maxDifficulty.toNat)
    (hslow : p.cfg.targetBlockTimeSecs = 0 ∨
      ¬ (actual = 0 ∨ actual < p.cfg.targetBlockTimeSecs / 2) ∧
        ¬ p.cfg.targetBlockTimeSecs * 2 < actual) :
    p.adjustDifficulty current actual = current := by
  rcases hslow with hzero | ⟨hslow, hlate⟩
  · exact if_pos hzero
  · by_cases hzero : p.cfg.targetBlockTimeSecs = 0
    · exact if_pos hzero
    · have hbounds := p.minDifficulty_le_maxDifficulty
      rw [← UInt32.toNat_inj, adjustDifficulty, if_neg hzero, if_neg hslow, if_neg hlate,
        toNat_clamp hbounds]
      omega

/-- **The adjustment of the difficulty**, by a tenth or one.  The bounds hold whatever wraps around;
the rest, while the sum does not after a block that came too fast, nor twice the target time after
another one. -/
theorem adjusts_adjustDifficulty (p : ProofOfWork) (current : UInt32) (actual : UInt64)
    (hmin : p.cfg.minDifficulty ≤ current) (hmax : current ≤ p.cfg.maxDifficulty) :
    (p.cfg.minDifficulty.toNat ≤ (p.adjustDifficulty current actual).toNat ∧
      (p.adjustDifficulty current actual).toNat ≤ p.cfg.maxDifficulty.toNat) ∧
    ((2 * actual.toNat < p.cfg.targetBlockTimeSecs.toNat →
        current.toNat + max 1 (current.toNat / 10) < 2 ^ 32) →
      (p.cfg.targetBlockTimeSecs.toNat / 2 ≤ actual.toNat →
        2 * p.cfg.targetBlockTimeSecs.toNat < 2 ^ 64) →
      Adjusts p (max 1 (current.toNat / 10)) current actual
        (p.adjustDifficulty current actual)) := by
  have hmem := adjustDifficulty_mem actual hmin hmax
  refine ⟨hmem, fun hsum htarget => ?_⟩
  rw [UInt32.le_iff_toNat_le] at hmin hmax
  have hpos := p.one_le_minDifficulty
  rw [← toNat_stepOf] at hsum ⊢
  have hfast := fast_iff p actual
  by_cases hzero : p.cfg.targetBlockTimeSecs = 0
  · -- without a target time nothing is adjusted
    rw [adjustDifficulty_of_not_late hmin hmax (Or.inl hzero)]
    exact ⟨hmin, hmax, fun _ => le_rfl, fun _ => le_rfl, fun _ _ => rfl, by omega, by omega⟩
  have hne : p.cfg.targetBlockTimeSecs.toNat ≠ 0 := fun h => hzero (UInt64.toNat_inj.1 h)
  by_cases hf : actual = 0 ∨ actual < p.cfg.targetBlockTimeSecs / 2
  · have htwice : 2 * actual.toNat < p.cfg.targetBlockTimeSecs.toNat := by
      have hcases := hfast.1 hf
      omega
    have hnext := toNat_adjustDifficulty_of_fast hzero hf (hsum htwice) hmin
    exact ⟨hmem.1, hmem.2, fun _ => by omega, fun h => by omega, fun h => by omega, by omega,
      by omega⟩
  · have hhalf : p.cfg.targetBlockTimeSecs.toNat / 2 ≤ actual.toNat := by
      rw [hfast] at hf
      omega
    have hlate := late_iff actual (htarget hhalf)
    by_cases hl : p.cfg.targetBlockTimeSecs * 2 < actual
    · have htwice := hlate.1 hl
      have hnext := toNat_adjustDifficulty_of_late hzero hf hl hmin hmax
      exact ⟨hmem.1, hmem.2, fun h => by omega, fun _ => by omega, fun _ h => by omega, by omega,
        by omega⟩
    · rw [adjustDifficulty_of_not_late hmin hmax (Or.inr ⟨hf, hl⟩)]
      exact ⟨hmin, hmax, fun _ => le_rfl, fun _ => le_rfl, fun _ _ => rfl, by omega, by omega⟩

theorem adjusts_adjustDifficulty_default :
    Adjusts (ofConfig {}) 20 200 0 ((ofConfig {}).adjustDifficulty 200 0) :=
  (adjusts_adjustDifficulty (ofConfig {}) 200 0 (by decide) (by decide)).2 (by decide) (by decide)

end ProofOfWork

end Node
