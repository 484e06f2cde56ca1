/-
**The chain of difficulty targets.**

A block has the target that its hash must not exceed.  Every 2016 blocks the next target is worked
out from the time that these blocks took: the target of the last block is scaled by it, by a factor
of four at the most, and written in hexadecimal, padded to 64 digits.  The next block has this text
as its target, and both the test of its hash and the next retarget read it with `BigInt`, for which
a text without `0x` in front is decimal.

Main definitions:

* `ConsensusEngine.verifyPoW`, `ConsensusEngine.calculateNextTarget` — the two functions;
* `ConsensusEngine.newTarget` — the integer that is worked out;
* `ConsensusEngine.step` — a chain of blocks, each with the target that its predecessor yields;
* `ConsensusEngine.KeepsTarget` — what a block does to the target if all is well.

Main results:

* `ConsensusEngine.bigInt?_targetText` — **the text of a target is read as the target only below
  10**;
* `ConsensusEngine.newTarget_bounds` — the integer stays within the bounds and grows by a factor of
  four at the most;
* `ConsensusEngine.le_newTarget_iff` — when it shrinks by a factor of four at the most;
* `ConsensusEngine.chain_keepsTarget_iff` — which chains keep their targets.
-/

import MedorCoin.Js.BigInt
import MedorCoin.Transition.Run

set_option autoImplicit false

namespace ConsensusEngine

open Js

/-! ### The functions -/

/-- `RETARGET_INTERVAL` -/
def RETARGET_INTERVAL : ℤ := 2016

/-- `TARGET_BLOCK_TIME` -/
def TARGET_BLOCK_TIME : ℤ := 600

/-- `MAX_TARGET` -/
def MAX_TARGET : ℤ := 0x00000000FFFFFFFFFFFFFFFFFFFFFFFFFFFFFFFFFFFFFFFFFFFFFFFFFFFFFFFF

/-- What the engine reads of a block. -/
structure Block where
  height : ℤ
  timestamp : ℤ
  difficultyTarget : Option Json

/-- `verifyPoW(blockHash, difficultyTarget)` -/
def verifyPoW (blockHash difficultyTarget : Option Json) : Bool :=
  match blockHash with
  | some (.str []) => false
  | some (.str hash) =>
      match Js.bigInt? ('0' :: 'x' :: hash.filter (hexDigits.contains ·)),
        Json.bigInt? difficultyTarget with
      | some hashInt, some target => hashInt ≤ target
      | _, _ => false
  | _ => false

def expectedTime : ℤ := RETARGET_INTERVAL * TARGET_BLOCK_TIME

/-- `boundedActualTime`, of the timestamps. -/
def boundedActualTime (lastRetarget last : ℤ) : ℤ :=
  let actualTime := max 1 (last - lastRetarget)
  if actualTime * 4 < expectedTime then expectedTime.tdiv 4
  else if actualTime > expectedTime * 4 then expectedTime * 4
  else actualTime

/-- The new target, of the old one. -/
def scaled (old lastRetarget last : ℤ) : ℤ :=
  let newTarget := (old * boundedActualTime lastRetarget last).tdiv expectedTime
  let newTarget := if newTarget > MAX_TARGET then MAX_TARGET else newTarget
  if newTarget < 1 then 1 else newTarget

/-- `newTarget.toString(16).padStart(64, '0')` -/
def targetText (target : ℕ) : Str := (Nat.toDigits 16 target).leftpad 64 '0'

/-- `calculateNextTarget(lastRetargetBlock, lastBlock)` -/
def calculateNextTarget (lastRetargetBlock lastBlock : Option Block) :
    Except Error (Option Json) := do
  match lastRetargetBlock, lastBlock with
  | some lastRetargetBlock, some lastBlock =>
      if lastBlock.height.tmod RETARGET_INTERVAL ≠ 0 then
        return lastBlock.difficultyTarget
      let old ← Json.toBigInt lastBlock.difficultyTarget
      let newTarget := scaled old lastRetargetBlock.timestamp lastBlock.timestamp
      return some (.str (targetText newTarget.toNat))
  | _, _ => throw (.error "INVALID_RETARGET_PARAMETERS")

/-! ### Reading the text of a target -/

theorem digitChar_spec {d : ℕ} (h : d < 16) :
    isBlank (Nat.digitChar d) = false ∧ ((Nat.digitChar d).isDigit = true → d < 10) ∧
      (d < 10 → (Nat.digitChar d).isDigit = true ∧ (Nat.digitChar d).toNat - '0'.toNat = d) := by
  have key : ∀ d < 16, isBlank (Nat.digitChar d) = false ∧
      ((Nat.digitChar d).isDigit = true → d < 10) ∧
      (d < 10 → (Nat.digitChar d).isDigit = true ∧ (Nat.digitChar d).toNat - '0'.toNat = d) := by
    decide
  exact key d h

theorem numeralValue_digitChar {d : ℕ} (h : d < 10) : numeralValue [Nat.digitChar d] = d := by
  have hvalue := ((digitChar_spec (Nat.lt_trans h (by decide : 10 < 16))).2.2 h).2
  rw [← List.nil_append [Nat.digitChar d], numeralValue_snoc, hvalue]
  simp [numeralValue]

/-- The hexadecimal digits of a number are no blanks; and where they happen to be decimal, they are
worth no more in decimal, and less from 10 on. -/
theorem toDigits_sixteen (n : ℕ) :
    (∀ c ∈ Nat.toDigits 16 n, isBlank c = false) ∧
      ((∀ c ∈ Nat.toDigits 16 n, c.isDigit = true) →
        numeralValue (Nat.toDigits 16 n) ≤ n ∧
          (10 ≤ n → numeralValue (Nat.toDigits 16 n) < n)) := by
  induction n using Nat.strongRecOn with
  | ind n ih =>
      by_cases hn : n < 16
      · obtain ⟨hblank, hless, -⟩ := digitChar_spec hn
        rw [Nat.toDigits_of_lt_base hn]
        refine ⟨by simpa using hblank, fun hdigit => ?_⟩
        have hten : n < 10 := hless (hdigit _ (List.mem_singleton_self _))
        rw [numeralValue_digitChar hten]
        exact ⟨Nat.le_refl _, by omega⟩
      · have hmod : n % 16 < 16 := Nat.mod_lt _ (by decide)
        obtain ⟨hblank, hless, hvalue⟩ := digitChar_spec hmod
        obtain ⟨hblanks, hsmall⟩ := ih (n / 16) (Nat.div_lt_self (by omega) (by decide))
        rw [Nat.toDigits_of_base_le (by decide) (by omega)]
        constructor
        · intro c hc
          rcases List.mem_append.1 hc with hc | hc
          · exact hblanks c hc
          · rw [List.mem_singleton.1 hc]
            exact hblank
        · intro hdigit
          have hlast : n % 16 < 10 := hless (hdigit _ (by simp))
          have hle := (hsmall fun c hc => hdigit c (by simp [hc])).1
          rw [numeralValue_snoc, (hvalue hlast).2]
          omega

/-- **The text of a target is read in decimal,** as it begins with two zeros. -/
theorem bigInt?_targetText_eq {target : ℕ} (h : target ≤ MAX_TARGET.toNat) :
    Js.bigInt? (targetText target) =
      if (Nat.toDigits 16 target).all Char.isDigit then
        some (numeralValue (Nat.toDigits 16 target) : ℤ)
      else none := by
  have hlength : (Nat.toDigits 16 target).length ≤ 56 := by
    refine (Nat.length_toDigits_le_iff (by decide) (by decide)).2 (Nat.lt_of_le_of_lt h ?_)
    decide
  obtain ⟨k, hk⟩ : ∃ k, 64 - (Nat.toDigits 16 target).length = k + 2 :=
    ⟨62 - (Nat.toDigits 16 target).length, by omega⟩
  have hzeros : targetText target = List.replicate (k + 2) '0' ++ Nat.toDigits 16 target := by
    rw [targetText, List.leftpad, hk]
  have htext : targetText target =
      '0' :: '0' :: (List.replicate k '0' ++ Nat.toDigits 16 target) := hzeros
  have htrim : trim (targetText target) = targetText target := by
    refine trim_eq_self fun c hc => ?_
    rw [hzeros] at hc
    rcases List.mem_append.1 hc with hc | hc
    · rw [List.eq_of_mem_replicate hc]
      rfl
    · exact (toDigits_sixteen target).1 c hc
  have hnumeral : numeralValue (targetText target) = numeralValue (Nat.toDigits 16 target) := by
    rw [hzeros, numeralValue, Nat.ofDigitChars_append, Nat.ofDigitChars_replicate_zero,
      Nat.mul_zero]
    rfl
  have hall : (targetText target ≠ [] ∧ (targetText target).all Char.isDigit) ↔
      (Nat.toDigits 16 target).all Char.isDigit := by
    have hne : targetText target ≠ [] := by
      rw [htext]
      exact List.cons_ne_nil _ _
    have hdigits : (List.replicate (k + 2) '0').all Char.isDigit = true := by
      rw [List.all_replicate]
      rfl
    rw [and_iff_right hne, hzeros, List.all_append, hdigits, Bool.true_and]
  have hread : Js.bigInt? (targetText target) = (decimal? (targetText target)).map (↑) := by
    rw [Js.bigInt?, htrim, htext]
    rfl
  rw [hread, decimal?, digits?, hnumeral, if_congr hall rfl rfl]
  split <;> rfl

/-- **The text of a target is read as the target only below 10.** -/
theorem bigInt?_targetText {target : ℕ} (h : target ≤ MAX_TARGET.toNat) :
    Js.bigInt? (targetText target) = some (target : ℤ) ↔ target < 10 := by
  rw [bigInt?_targetText_eq h]
  constructor
  · intro hsome
    split at hsome
    · next hall =>
        have hsame : numeralValue (Nat.toDigits 16 target) = target :=
          Int.ofNat_inj.1 (Option.some.inj hsome)
        have hless := ((toDigits_sixteen target).2 (List.all_eq_true.1 hall)).2
        omega
    · cases hsome
  · intro hten
    have hdigits : Nat.toDigits 16 target = [Nat.digitChar target] :=
      Nat.toDigits_of_lt_base (by omega)
    have hdigit : (Nat.digitChar target).isDigit = true :=
      ((digitChar_spec (Nat.lt_trans hten (by decide : 10 < 16))).2.2 hten).1
    rw [hdigits, numeralValue_digitChar hten, List.all_cons, hdigit]
    rfl

/-! ### The integer -/

theorem boundedActualTime_bounds (lastRetarget last : ℤ) :
    302400 ≤ boundedActualTime lastRetarget last ∧
      boundedActualTime lastRetarget last ≤ 4838400 := by
  have hexpected : expectedTime = 1209600 := by decide
  have hquarter : Int.tdiv 1209600 4 = 302400 := by decide
  simp only [boundedActualTime, hexpected, hquarter]
  split
  · omega
  · split <;> omega

section Scaled

variable {old : ℤ} (lastRetarget last : ℤ)

theorem scaled_eq (hold : 1 ≤ old) : scaled old lastRetarget last =
    max 1 (min MAX_TARGET (old * boundedActualTime lastRetarget last / expectedTime)) := by
  have hbounded := (boundedActualTime_bounds lastRetarget last).1
  have hmul : 0 ≤ old * boundedActualTime lastRetarget last := by positivity
  have hmax : 1 ≤ MAX_TARGET := by decide
  rw [scaled, Int.tdiv_eq_ediv_of_nonneg hmul]
  split <;> split <;> omega

/-- **The integer stays within the bounds and grows by a factor of four at the most.** -/
theorem scaled_bounds (hold : 1 ≤ old) :
    1 ≤ scaled old lastRetarget last ∧ scaled old lastRetarget last ≤ MAX_TARGET ∧
      scaled old lastRetarget last ≤ 4 * old := by
  have hmax : 1 ≤ MAX_TARGET := by decide
  have hexpected : expectedTime = 1209600 := by decide
  have hbounded := (boundedActualTime_bounds lastRetarget last).2
  have hgrow : old * boundedActualTime lastRetarget last / expectedTime ≤ 4 * old := by
    rw [hexpected]
    refine Int.ediv_le_of_le_mul (by decide) ?_
    nlinarith
  rw [scaled_eq lastRetarget last hold]
  omega

theorem le_scaled_iff (hold : 1 ≤ old) (hmax : old ≤ MAX_TARGET) :
    old ≤ 4 * scaled old lastRetarget last ↔
      old ≤ 4 ∨ (old + 3) / 4 * expectedTime ≤ old * boundedActualTime lastRetarget last := by
  have hexpected : 0 < expectedTime := by decide
  rw [scaled_eq lastRetarget last hold, ← Int.le_ediv_iff_mul_le hexpected]
  omega

theorem scaled_lt_ten_iff (hold : 1 ≤ old) :
    scaled old lastRetarget last < 10 ↔
      old * boundedActualTime lastRetarget last < 10 * expectedTime := by
  have hmax : 10 ≤ MAX_TARGET := by decide
  have hexpected : 0 < expectedTime := by decide
  rw [scaled_eq lastRetarget last hold, ← Int.ediv_lt_iff_lt_mul hexpected]
  omega

end Scaled

/-! ### Chains -/

/-- What is added to a chain: the block that the retarget looks back to, and the time of the new
block. -/
structure Next where
  lastRetargetBlock : Block
  timestamp : ℤ

/-- The next block has the target that its predecessor yields; there is none when it throws. -/
def step (last : Block) (next : Next) : Option Block :=
  match calculateNextTarget (some next.lastRetargetBlock) (some last) with
  | .ok target => some ⟨last.height + 1, next.timestamp, target⟩
  | .error _ => none

/-- The integer that the next target is computed as, where the last one is `old`. -/
def newTarget (old : ℤ) (last : Block) (next : Next) : ℤ :=
  if RETARGET_INTERVAL ∣ last.height then
    scaled old next.lastRetargetBlock.timestamp last.timestamp
  else old

/-- Both functions read a value as an integer. -/
def Reads (value : Option Json) (target : ℤ) : Prop :=
  Json.bigInt? value = some target ∧
    ∀ blockHash, verifyPoW blockHash value = verifyPoW blockHash (some (.num target))

/-- **All is well with the target of a block:** it is read back as the integer that it was computed
as, which is within the bounds and has changed by a factor of four at the most. -/
def KeepsTarget (last : Block) (next : Next) (block : Block) : Prop :=
  ∃ old, Json.bigInt? last.difficultyTarget = some old ∧
    Reads block.difficultyTarget (newTarget old last next) ∧
    1 ≤ newTarget old last next ∧ newTarget old last next ≤ MAX_TARGET ∧
    old ≤ 4 * newTarget old last next ∧ newTarget old last next ≤ 4 * old

/-- There is no retarget, or its result is below 10 and does not suffer from the rounding. -/
def RetargetFits (last : Block) (next : Next) (_ : Block) : Prop :=
  RETARGET_INTERVAL ∣ last.height →
    ∀ old ∈ Json.bigInt? last.difficultyTarget,
      old * boundedActualTime next.lastRetargetBlock.timestamp last.timestamp < 10 * expectedTime ∧
        (old ≤ 4 ∨ (old + 3) / 4 * expectedTime ≤
          old * boundedActualTime next.lastRetargetBlock.timestamp last.timestamp)

instance (last : Block) (next : Next) (block : Block) :
    Decidable (RetargetFits last next block) := by
  unfold RetargetFits
  infer_instance

/-- A block has a target within the bounds. -/
def HasTarget (block : Block) : Prop :=
  ∃ target, Json.bigInt? block.difficultyTarget = some target ∧ 1 ≤ target ∧ target ≤ MAX_TARGET

theorem reads_iff {value : Option Json} {target : ℤ} :
    Reads value target ↔ Json.bigInt? value = some target := by
  constructor
  · exact And.left
  · intro h
    refine ⟨h, fun blockHash => ?_⟩
    unfold verifyPoW
    rw [h]
    rfl

theorem step_eq {last : Block} {old : ℤ} (next : Next)
    (h : Json.bigInt? last.difficultyTarget = some old) :
    step last next = some ⟨last.height + 1, next.timestamp,
      if RETARGET_INTERVAL ∣ last.height then
        some (.str (targetText (newTarget old last next).toNat))
      else last.difficultyTarget⟩ := by
  have hbigInt : Json.toBigInt last.difficultyTarget = .ok old := Json.toBigInt_eq_ok.2 h
  by_cases hheight : RETARGET_INTERVAL ∣ last.height
  · have hmod : last.height.tmod RETARGET_INTERVAL = 0 := Int.tmod_eq_zero_of_dvd hheight
    rw [step, calculateNextTarget, if_neg (not_not.2 hmod), hbigInt, if_pos hheight, newTarget,
      if_pos hheight]
    rfl
  · have hmod : last.height.tmod RETARGET_INTERVAL ≠ 0 :=
      fun hmod => hheight (Int.dvd_of_tmod_eq_zero hmod)
    rw [step, calculateNextTarget, if_pos hmod, if_neg hheight]
    rfl

/-- **One block keeps its target exactly if the retarget fits,** and then it has one again. -/
theorem keepsTarget_iff {last block : Block} {next : Next} (hlast : HasTarget last)
    (hstep : step last next = some block) :
    (KeepsTarget last next block ↔ RetargetFits last next block) ∧
      (RetargetFits last next block → HasTarget block) := by
  obtain ⟨old, hold, hpos, hmax⟩ := hlast
  rw [step_eq next hold, Option.some.injEq] at hstep
  subst hstep
  by_cases hheight : RETARGET_INTERVAL ∣ last.height
  · have hnew : newTarget old last next =
        scaled old next.lastRetargetBlock.timestamp last.timestamp := if_pos hheight
    obtain ⟨hone, hle, hgrow⟩ :=
      scaled_bounds next.lastRetargetBlock.timestamp last.timestamp hpos
    have hshrink := le_scaled_iff next.lastRetargetBlock.timestamp last.timestamp hpos hmax
    have hten := scaled_lt_ten_iff next.lastRetargetBlock.timestamp last.timestamp hpos
    rw [← hnew] at hone hle hgrow hshrink hten
    have hnat : ((newTarget old last next).toNat : ℤ) = newTarget old last next :=
      Int.toNat_of_nonneg (by omega)
    have hread := @bigInt?_targetText (newTarget old last next).toNat (by omega)
    rw [hnat] at hread
    have hfits : RetargetFits last next ⟨last.height + 1, next.timestamp,
          if RETARGET_INTERVAL ∣ last.height then
            some (.str (targetText (newTarget old last next).toNat))
          else last.difficultyTarget⟩ ↔
        newTarget old last next < 10 ∧ old ≤ 4 * newTarget old last next := by
      rw [hten, hshrink, RetargetFits, hold]
      exact ⟨fun h => h hheight old rfl, fun h _ old' hold' => Option.some.inj hold' ▸ h⟩
    rw [hfits]
    constructor
    · constructor
      · rintro ⟨old', hold', hreads, -, -, hshrink', -⟩
        rw [hold, Option.some.injEq] at hold'
        subst hold'
        simp only [if_pos hheight, reads_iff] at hreads
        exact ⟨by have := hread.1 hreads; omega, hshrink'⟩
      · rintro ⟨hless, hshrink'⟩
        refine ⟨old, hold, ?_, hone, hle, hshrink', hgrow⟩
        simp only [if_pos hheight, reads_iff]
        exact hread.2 (by omega)
    · rintro ⟨hless, -⟩
      refine ⟨newTarget old last next, ?_, hone, hle⟩
      simp only [if_pos hheight]
      exact hread.2 (by omega)
  · have hnew : newTarget old last next = old := if_neg hheight
    simp only [if_neg hheight]
    refine ⟨⟨fun _ h => absurd h hheight, fun _ => ?_⟩, fun _ => ⟨old, hold, hpos, hmax⟩⟩
    refine ⟨old, hold, reads_iff.2 (hnew.symm ▸ hold), ?_⟩
    rw [hnew]
    omega

/-- **Which chains keep their targets.** -/
theorem chain_keepsTarget_iff {start : Block} (hstart : HasTarget start) (nexts : List Next) :
    Transition.EveryStep step KeepsTarget start nexts ↔
      Transition.EveryStep step RetargetFits start nexts :=
  Transition.everyStep_iff (P := KeepsTarget) (Q := RetargetFits) (I := HasTarget)
    (fun _ _ _ hlast hstep => keepsTarget_iff hlast hstep) hstart

theorem chain_keepsTarget_eight :
    Transition.EveryStep step KeepsTarget ⟨2016, 1209600, some (.num 8)⟩
      [⟨⟨0, 0, none⟩, 1210200⟩, ⟨⟨0, 0, none⟩, 1210800⟩] :=
  (chain_keepsTarget_iff ⟨8, rfl, by decide, by decide⟩ _).2 (by decide)

/-- **From the largest target the first retarget is not read back**, though the blocks took as long
as they should. -/
theorem not_keepsTarget_first :
    ¬ Transition.EveryStep step KeepsTarget ⟨2016, 1209600, some (.num MAX_TARGET)⟩
      [⟨⟨0, 0, none⟩, 1210200⟩] := by
  intro h
  obtain ⟨⟨old, -, hreads, -⟩, -⟩ := h _ (step_eq _ rfl)
  have hsome := congrArg Option.isSome hreads.1
  rw [Option.isSome_some] at hsome
  exact absurd hsome (by decide +kernel)

end ConsensusEngine
