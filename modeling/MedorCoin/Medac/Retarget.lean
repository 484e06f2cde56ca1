/-
**The law of the retarget.**

Once in a window `calculateNextTarget` scales the target by the time the window took, within a
factor and within the bounds of the network.  A window of `N` blocks has `N - 1` gaps: the time is
measured from its first block to its last, the block that closes it, and compared with `N - 1`
block times.

Main definitions:

* `Medac.clamp`, `Medac.retargeted` — the law;
* `Medac.Spaced` — blocks at a fixed distance in time.

Main results:

* `Medac.Reachable.anchor_eq` — **the window is measured from its first block**;
* `Medac.retargeted_monotone` — the longer a window took, the higher the target;
* `Medac.retargeted_of_expected` — a window that took the expected time leaves the target alone;
* `Medac.reachable_retarget` — **the law on the chain of a network**.
-/

import MedorCoin.Medac.Prefix

set_option autoImplicit false

namespace Medac

open Js

/-! ### The law -/

/-- A number moved into an interval. -/
def clamp (low high x : ℕ) : ℕ := max low (min x high)

/-- The target after a window that took some time. -/
def retargeted (config : Consensus) (old elapsed : ℕ) : ℕ :=
  let expected := config.expectedSpan
  clamp 1 config.maxTarget (old * clamp (expected / 4) (4 * expected) elapsed / expected)

section Law

variable {config : Consensus}

theorem clamp_monotone (low high : ℕ) : Monotone (clamp low high) := by
  intro x y hxy
  exact max_le_max le_rfl (min_le_min hxy le_rfl)

theorem clamp_of_mem {low high x : ℕ} (hlow : low ≤ x) (hhigh : x ≤ high) :
    clamp low high x = x := by
  rw [clamp, min_eq_left hhigh, max_eq_right hlow]

/-- **The longer a window took, the higher the target.** -/
theorem retargeted_monotone (config : Consensus) (old : ℕ) : Monotone (retargeted config old) := by
  intro elapsed elapsed' h
  refine clamp_monotone _ _ ?_
  exact Nat.div_le_div_right (Nat.mul_le_mul_left old (clamp_monotone _ _ h))

/-- **A window that took the expected time leaves the target alone.** -/
theorem retargeted_of_expected {old : ℕ} (hpos : 1 ≤ old) (hmax : old ≤ config.maxTarget) :
    retargeted config old config.expectedSpan = old := by
  have hspan := expectedSpan_pos config
  have hclamp : clamp (config.expectedSpan / 4) (4 * config.expectedSpan) config.expectedSpan =
      config.expectedSpan := clamp_of_mem (Nat.div_le_self _ _) (by omega)
  rw [retargeted, hclamp, Nat.mul_div_cancel _ hspan]
  exact clamp_of_mem hpos hmax

theorem expectedSpan_of_lt (h : (config.retargetWindow - 1) * config.targetBlockTime < 2 ^ 53) :
    config.expectedSpan = (config.retargetWindow - 1) * config.targetBlockTime := by
  rw [Consensus.expectedSpan, roundDouble, if_pos h]

theorem calculateNextTarget_eq_retargeted {s : State} {nextHeight : ℕ} (timestamp : ℕ)
    (h : s.consensus.retargetWindow ∣ nextHeight) :
    calculateNextTarget s nextHeight timestamp =
      retargeted s.consensus s.target (max 1 (timestamp - s.anchor)) := by
  have hone : 1 ≤ s.consensus.maxTarget :=
    le_trans s.consensus.one_le_initialTarget s.consensus.initialTarget_le
  rw [calculateNextTarget, if_neg (not_not.2 (Nat.mod_eq_zero_of_dvd h)), retargeted, clamp, clamp,
    retargetFactor, Nat.mul_comm 4]
  dsimp only
  split_ifs <;> omega

theorem calculateNextTarget_of_not_dvd {s : State} {nextHeight : ℕ} (timestamp : ℕ)
    (h : ¬ s.consensus.retargetWindow ∣ nextHeight) :
    calculateNextTarget s nextHeight timestamp = s.target := by
  rw [calculateNextTarget, if_pos]
  intro hmod
  exact h (Nat.dvd_of_mod_eq_zero hmod)

end Law

/-! ### The first block of a window -/

section Window

variable {c : Crypto} {config : Consensus} {s s' : State}

/-- **The window is measured from its first block**, whose index is not negative. -/
theorem Reachable.anchor_eq (h : Reachable c config s)
    (hend : config.retargetWindow ∣ s.height + 1) :
    config.retargetWindow - 1 ≤ s.blocks.length ∧
      ∃ first, s.blocks[s.blocks.length - (config.retargetWindow - 1)]? = some first ∧
        first.height + config.retargetWindow = s.height + 2 ∧ s.anchor = first.timestamp ∧
        first.timestamp ≤ s.timestamp := by
  have hwindow := config.two_le_retargetWindow
  obtain ⟨hheight, hnumbered⟩ := h.height_eq
  have hle : config.retargetWindow ≤ s.height + 1 := Nat.le_of_dvd (Nat.succ_pos _) hend
  have hindex : config.retargetWindow - 1 ≤ s.blocks.length := by omega
  have hlt : s.blocks.length - (config.retargetWindow - 1) < s.blocks.length := by omega
  obtain ⟨first, hfirst⟩ : ∃ first,
      s.blocks[s.blocks.length - (config.retargetWindow - 1)]? = some first :=
    ⟨_, List.getElem?_eq_getElem hlt⟩
  refine ⟨hindex, first, hfirst, ?_, ?_, h.timestamp_le first (List.mem_of_getElem? hfirst)⟩
  · have hnumber := hnumbered _ first hfirst
    omega
  · rw [State.anchor, h.consensus_eq, if_pos hindex, hfirst]
    rfl

/-- The blocks from the one at an index on follow one another at a fixed distance in time. -/
def Spaced (blockTime start : ℕ) (blocks : List Block) : Prop :=
  ∀ i a b, start ≤ i → blocks[i]? = some a → blocks[i + 1]? = some b →
    b.timestamp = a.timestamp + blockTime

theorem Spaced.timestamp_eq {blockTime start k : ℕ} {blocks : List Block} {first b : Block}
    (h : Spaced blockTime start blocks) (hfirst : blocks[start]? = some first)
    (hb : blocks[start + k]? = some b) : b.timestamp = first.timestamp + k * blockTime := by
  induction k generalizing b with
  | zero =>
      rw [Nat.add_zero, hfirst] at hb
      rw [Option.some.inj hb, Nat.zero_mul, Nat.add_zero]
  | succ k ih =>
      have hlt : start + k < blocks.length := by
        have := (List.getElem?_eq_some_iff.1 hb).1
        omega
      obtain ⟨a, ha⟩ : ∃ a, blocks[start + k]? = some a := ⟨_, List.getElem?_eq_getElem hlt⟩
      rw [h (start + k) a b (Nat.le_add_right _ _) ha hb, ih ha, Nat.succ_mul, Nat.add_assoc]

theorem Spaced.elapsed_eq {blocks : List Block} {first last : Block}
    (h : Spaced config.targetBlockTime (blocks.length - (config.retargetWindow - 1))
      (blocks ++ [last]))
    (hle : config.retargetWindow - 1 ≤ blocks.length)
    (hfirst : blocks[blocks.length - (config.retargetWindow - 1)]? = some first)
    (hsafe : last.timestamp ≤ Json.maxSafeInteger) :
    last.timestamp - first.timestamp = config.expectedSpan := by
  have hlt := (List.getElem?_eq_some_iff.1 hfirst).1
  have hstart : (blocks ++ [last])[blocks.length - (config.retargetWindow - 1)]? = some first := by
    rw [List.getElem?_append_left hlt, hfirst]
  have hlast : (blocks ++ [last])[blocks.length - (config.retargetWindow - 1) +
      (config.retargetWindow - 1)]? = some last := by
    rw [Nat.sub_add_cancel hle, List.getElem?_concat_length]
  have htime := h.timestamp_eq hstart hlast
  rw [Json.maxSafeInteger] at hsafe
  rw [expectedSpan_of_lt (by omega)]
  omega

/-- **The law on the chain of a network.**  The target stays between one and the maximum.  An
accepted block leaves it alone unless it closes a window; then the window is measured from its
first block, whose index is not negative, the target obeys the law, and it is unchanged when the
blocks of the window are a block time apart.  The law never divides by zero and is monotone in the
time. -/
theorem reachable_retarget (h : Reachable c config s) :
    (1 ≤ s.target ∧ s.target ≤ config.maxTarget) ∧
    (0 < config.expectedSpan ∧
      ((config.retargetWindow - 1) * config.targetBlockTime < 2 ^ 53 →
        config.expectedSpan = (config.retargetWindow - 1) * config.targetBlockTime)) ∧
    (∀ old, Monotone (retargeted config old)) ∧
    ∀ {now : ℕ} {block : Json} {s' : State}, applyMinedBlock c now s block = .ok s' →
      (¬ config.retargetWindow ∣ s'.height → s'.target = s.target) ∧
      (config.retargetWindow ∣ s'.height →
        config.retargetWindow - 1 ≤ s.blocks.length ∧
        (∃ first, s.blocks[s.blocks.length - (config.retargetWindow - 1)]? = some first ∧
          first.height + config.retargetWindow = s'.height + 1 ∧ s.anchor = first.timestamp ∧
          first.timestamp < s'.timestamp ∧
          s'.target = retargeted config s.target (s'.timestamp - first.timestamp)) ∧
        (Spaced config.targetBlockTime (s.blocks.length - (config.retargetWindow - 1)) s'.blocks →
          s'.target = s.target)) := by
  have hvalid := h.valid
  have hconsensus := h.consensus_eq
  have hmem : 1 ≤ s.target ∧ s.target ≤ config.maxTarget :=
    ⟨hvalid.one_le_target, hconsensus ▸ hvalid.target_le⟩
  refine ⟨hmem, ⟨expectedSpan_pos config, expectedSpan_of_lt⟩, retargeted_monotone config, ?_⟩
  intro now block s' hblock
  obtain ⟨-, b, reward, l, -, haccepts, rfl⟩ := applyMinedBlock_eq_ok.1 hblock
  have hheight : (s.next b reward l).height = s.height + 1 := haccepts.height_eq
  have htarget : (s.next b reward l).target =
      calculateNextTarget s (s.next b reward l).height b.timestamp := rfl
  constructor
  · intro hinside
    rw [htarget, calculateNextTarget_of_not_dvd _ (by rwa [hconsensus])]
  · intro hend
    -- the anchor is the time of the first block of the window
    obtain ⟨hindex, first, hfirst, hnumber, hanchor, hle⟩ := h.anchor_eq (hheight ▸ hend)
    have hlt : first.timestamp < b.timestamp := lt_of_le_of_lt hle haccepts.lt_timestamp
    have hlaw : (s.next b reward l).target =
        retargeted config s.target (b.timestamp - first.timestamp) := by
      rw [htarget, calculateNextTarget_eq_retargeted _ (by rwa [hconsensus]), hconsensus, hanchor,
        max_eq_right (by omega)]
    refine ⟨hindex, ⟨first, hfirst, by rw [hheight, hnumber], hanchor, hlt, hlaw⟩, ?_⟩
    intro hspaced
    rw [hlaw, hspaced.elapsed_eq hindex hfirst haccepts.timestamp_safe,
      retargeted_of_expected hmem.1 hmem.2]

end Window

/-! ### A window of two blocks -/

/-- The small network with the shortest window. -/
def pairConsensus : Consensus :=
  { sampleConsensus with
    retargetWindow := 2
    two_le_retargetWindow := le_rfl
    retargetWindow_le := by decide }

/-- Its genesis state. -/
def pairGenesis : State := genesisState sampleCrypto pairConsensus

/-- The state after the first block of a window. -/
def pairFirst : State :=
  pairGenesis.next (sampleBlock pairGenesis 1000 []) initialBlockReward pairGenesis.ledger

/-- The state after the second block, a block time later, which closes the window. -/
def pairSecond : State :=
  pairFirst.next (sampleBlock pairFirst 1060 []) initialBlockReward pairFirst.ledger

theorem pairFirst_accepts :
    pairGenesis.Accepts sampleCrypto 1000 (sampleBlock pairGenesis 1000 []) initialBlockReward
      pairGenesis.ledger :=
  sampleBlock_accepts (by decide) (Nat.zero_le _) (by decide) (by decide) rfl (Nat.zero_le _)
    (by simp) (.nil _) rfl

theorem pairSecond_accepts :
    pairFirst.Accepts sampleCrypto 1060 (sampleBlock pairFirst 1060 []) initialBlockReward
      pairFirst.ledger := by
  have hissued : pairFirst.miningIssued ≤ initialBlockReward := by
    simp only [pairFirst, State.next, pairGenesis, genesisState, Nat.zero_add, le_refl]
  have htarget : calculateNextTarget pairGenesis 1 1000 = pairGenesis.target :=
    calculateNextTarget_of_not_dvd 1000 (by decide)
  exact sampleBlock_accepts (by decide) hissued (by decide) (by decide) (by decide)
    (Nat.zero_le _) (by simp) (.nil _) htarget

theorem reachable_retarget_pairFirst :
    1 ≤ pairFirst.target ∧ 2 ∣ pairSecond.height ∧ pairSecond.target = pairFirst.target := by
  have hreach : Reachable sampleCrypto pairConsensus pairFirst :=
    Reachable.genesis.accepted pairFirst_accepts
  obtain ⟨hmem, -, -, hlaw⟩ := reachable_retarget hreach
  have hsecond : applyMinedBlock sampleCrypto 1060 pairFirst
      (sampleBlock pairFirst 1060 []).toJson = .ok pairSecond := applyMinedBlock_eq_ok.2
    ⟨hreach.valid, _, _, _, pairSecond_accepts.readFrom_toJson, pairSecond_accepts, rfl⟩
  have hend : 2 ∣ pairSecond.height := by decide
  refine ⟨hmem.1, hend, ((hlaw hsecond).2 hend).2.2 ?_⟩
  intro i a b _ ha hb
  have hblocks : pairSecond.blocks =
      [sampleBlock pairGenesis 1000 [], sampleBlock pairFirst 1060 []] := rfl
  rw [hblocks] at ha hb
  cases i with
  | zero =>
      cases ha
      cases hb
      rfl
  | succ i => simp at hb

end Medac
