/-
**The consensus state of the chain.**

The parameters of a network (`parseConsensusConfig`), the blocks as the chain keeps them, the
state that `medac_consensus.cjs` threads from block to block, its first value
(`createGenesisState`) and the check it is put through before and after every block
(`assertValidState`).

Main definitions:

* `Medac.Consensus` — parameters that passed the check; `Medac.parseConsensusConfig`;
* `Medac.Block`, `Medac.State`;
* `Medac.getGenesisHash`, `Medac.createGenesisState`;
* `Medac.assertValidState`, and `Medac.State.Valid`, what it checks.

Main results:

* `Medac.parseConsensusConfig_toOptions` — parameters that passed the check pass it again;
* `Medac.createGenesisState_eq_ok` — the genesis state of a network in closed form;
* `Medac.assertValidState_eq_ok` — the check passes exactly on the valid states;
* `Medac.genesisState_valid`.
-/

import MedorCoin.Js.Map
import MedorCoin.Medac.Transaction

set_option autoImplicit false

namespace Medac

open Js

/-! ### Consensus parameters -/

/-- The options a network is created with.  The targets are what `BigInt(..)` makes of them. -/
structure ConsensusOptions where
  initialTarget : Option ℤ
  maxTarget : Option ℤ
  targetBlockTime : Option Json
  retargetWindow : Option Json

/-- Consensus parameters that passed the check. -/
structure Consensus where
  initialTarget : ℕ
  maxTarget : ℕ
  targetBlockTime : ℕ
  retargetWindow : ℕ
  one_le_initialTarget : 1 ≤ initialTarget
  initialTarget_le : initialTarget ≤ maxTarget
  maxTarget_le : maxTarget ≤ maxHash
  one_le_targetBlockTime : 1 ≤ targetBlockTime
  targetBlockTime_le : targetBlockTime ≤ Json.maxSafeInteger
  two_le_retargetWindow : 2 ≤ retargetWindow
  retargetWindow_le : retargetWindow ≤ 10000
  deriving DecidableEq

/-- The error of a rejected configuration. -/
def invalidConfiguration : Error := .rangeError "Invalid MEDAC consensus configuration"

/-- The bounds on the parameters. -/
def checkConsensus (initialTarget maxTarget : ℤ) (blockTime window : ℕ) : Except Error Consensus :=
  if h : 1 ≤ initialTarget ∧ initialTarget ≤ maxTarget ∧ maxTarget ≤ maxHash ∧
      1 ≤ blockTime ∧ blockTime ≤ Json.maxSafeInteger ∧ 2 ≤ window ∧ window ≤ 10000 then
    .ok { initialTarget := initialTarget.toNat
          maxTarget := maxTarget.toNat
          targetBlockTime := blockTime
          retargetWindow := window
          one_le_initialTarget := by omega
          initialTarget_le := by omega
          maxTarget_le := by omega
          one_le_targetBlockTime := h.2.2.2.1
          targetBlockTime_le := h.2.2.2.2.1
          two_le_retargetWindow := h.2.2.2.2.2.1
          retargetWindow_le := h.2.2.2.2.2.2 }
  else .error invalidConfiguration

/-- **`parseConsensusConfig`.**  A number that is not a safe integer or is negative fails the
checks on its bounds or on its type alike, with the same error. -/
def parseConsensusConfig (options : ConsensusOptions) : Except Error Consensus :=
  match Json.safeNat? (some (options.targetBlockTime.getD (.num targetBlockTime))),
    Json.safeNat? (some (options.retargetWindow.getD (.num retargetWindow))) with
  | some blockTime, some window =>
      checkConsensus (options.initialTarget.getD defaultInitialTarget)
        (options.maxTarget.getD defaultMaxTarget) blockTime window
  | _, _ => .error invalidConfiguration

/-- The parameters as options, as the state hands them to the check. -/
def Consensus.toOptions (config : Consensus) : ConsensusOptions where
  initialTarget := some config.initialTarget
  maxTarget := some config.maxTarget
  targetBlockTime := some (.num config.targetBlockTime)
  retargetWindow := some (.num config.retargetWindow)

theorem checkConsensus_self (config : Consensus) :
    checkConsensus config.initialTarget config.maxTarget config.targetBlockTime
      config.retargetWindow = .ok config := by
  obtain ⟨initialTarget, maxTarget, blockTime, window, h₁, h₂, h₃, h₄, h₅, h₆, h₇⟩ := config
  have hcheck : (1 : ℤ) ≤ initialTarget ∧ (initialTarget : ℤ) ≤ maxTarget ∧
      (maxTarget : ℤ) ≤ maxHash ∧ 1 ≤ blockTime ∧ blockTime ≤ Json.maxSafeInteger ∧
      2 ≤ window ∧ window ≤ 10000 := by omega
  simp only [checkConsensus, dif_pos hcheck, Int.toNat_natCast]

/-- **Parameters that passed the check pass it again.** -/
theorem parseConsensusConfig_toOptions (config : Consensus) :
    parseConsensusConfig config.toOptions = .ok config := by
  have hwindow : config.retargetWindow ≤ Json.maxSafeInteger :=
    le_trans config.retargetWindow_le (by decide)
  simp only [parseConsensusConfig, Consensus.toOptions, Option.getD_some,
    Json.safeNat?_num config.targetBlockTime_le, Json.safeNat?_num hwindow]
  exact checkConsensus_self config

/-! ### Blocks and states -/

/-- What the hash of a block covers, in normal form. -/
structure BlockHeader where
  height : ℕ
  previousHash : Str
  timestamp : ℕ
  nonce : Str
  minerAddress : Address
  reward : Str
  target : Str
  transactions : List Transaction
  deriving DecidableEq

/-- A block as the chain keeps it. -/
structure Block extends BlockHeader where
  hash : Str
  deriving DecidableEq

/-- The object of a block. -/
def Block.toJson (b : Block) : Json :=
  .obj [("height".toList, .num b.height), ("previousHash".toList, .str b.previousHash),
    ("timestamp".toList, .num b.timestamp), ("nonce".toList, .str b.nonce),
    ("minerAddress".toList, b.minerAddress.toJson), ("reward".toList, .str b.reward),
    ("target".toList, .str b.target),
    ("transactions".toList, .arr (b.transactions.map Transaction.toJson)),
    ("hash".toList, .str b.hash)]

theorem plain_transactions (l : List Transaction) :
    Json.plain (.arr (l.map Transaction.toJson)) := by
  rw [Json.plain_arr]
  intro v hv
  obtain ⟨t, -, rfl⟩ := List.mem_map.1 hv
  exact t.plain_toJson

@[simp] theorem Block.plain_toJson (b : Block) : Json.plain b.toJson := by
  simp [toJson, Json.plain, Json.plainMembers, Address.toJson]
  simpa [Json.plain] using plain_transactions b.transactions

/-- The consensus state.  A balance is a `bigint` and could be negative as far as its type goes. -/
structure State where
  height : ℕ
  tipHash : Str
  genesisHash : Str
  timestamp : ℕ
  target : ℕ
  cumulativeWork : ℕ
  totalSupply : ℕ
  balanceTotal : ℕ
  miningIssued : ℕ
  balances : Map Address ℤ
  nonces : Map Address ℕ
  blocks : List Block
  consensus : Consensus
  deriving DecidableEq

/-! ### Genesis -/

/-- The genesis allocations with their addresses in normal form. -/
def normalizedAllocations : Except Error (List (Address × ℕ)) :=
  genesisAllocations.mapM fun a => do
    let address ← normalizeAddress (some (.str a.1))
    return (address, a.2)

/-- The value whose text is hashed to the genesis hash. -/
def genesisPreimage (allocations : List (Address × ℕ)) (config : Consensus) : Json :=
  .arr [.str networkId, .str "GENESIS".toList,
    .arr (allocations.map fun a => .arr [a.1.toJson, .str (numeral a.2)]),
    .str (numeral config.initialTarget), .str (numeral config.maxTarget),
    .num config.targetBlockTime, .num config.retargetWindow]

/-- **`getGenesisHash`.** -/
def getGenesisHash (c : Crypto) (config : Consensus) : Except Error Str := do
  let allocations ← normalizedAllocations
  return c.sha256 (Json.stringify (genesisPreimage allocations config))

/-- **`createGenesisState`.** -/
def createGenesisState (c : Crypto) (options : ConsensusOptions) : Except Error State := do
  let consensus ← parseConsensusConfig options
  let allocations ← normalizedAllocations
  let balances := allocations.foldl (fun m a => m.set a.1 (a.2 : ℤ)) Map.empty
  let genesisHash ← getGenesisHash c consensus
  return { height := 0, tipHash := genesisHash, genesisHash, timestamp := 0,
           target := consensus.initialTarget, cumulativeWork := 0, totalSupply := genesisSupply,
           balanceTotal := genesisSupply, miningIssued := 0, balances, nonces := Map.empty,
           blocks := [], consensus }

/-- The addresses funded at genesis, in normal form. -/
def allocations : List (Address × ℕ) :=
  [(⟨"0xd81e7078bee7ad3a313a74ed171e2941b7455f1d".toList, by decide +kernel⟩, 10000000 * token),
   (⟨"0x75e642510d48df5fff33d507748f6de2fab3592a".toList, by decide +kernel⟩, 10000000 * token),
   (⟨"0xa44fe7604f3b26b8def551fa7a6f25e06381d07f".toList, by decide +kernel⟩, 10000000 * token)]

theorem normalizedAllocations_eq : normalizedAllocations = .ok allocations := by
  decide +kernel

/-- The genesis hash of a network. -/
def genesisHash (c : Crypto) (config : Consensus) : Str :=
  c.sha256 (Json.stringify (genesisPreimage allocations config))

theorem getGenesisHash_eq (c : Crypto) (config : Consensus) :
    getGenesisHash c config = .ok (genesisHash c config) := by
  rw [getGenesisHash, normalizedAllocations_eq]
  rfl

/-- The balances at genesis. -/
def genesisBalances : Map Address ℤ :=
  allocations.foldl (fun m a => m.set a.1 (a.2 : ℤ)) Map.empty

/-- The genesis state of a network. -/
def genesisState (c : Crypto) (config : Consensus) : State where
  height := 0
  tipHash := genesisHash c config
  genesisHash := genesisHash c config
  timestamp := 0
  target := config.initialTarget
  cumulativeWork := 0
  totalSupply := genesisSupply
  balanceTotal := genesisSupply
  miningIssued := 0
  balances := genesisBalances
  nonces := Map.empty
  blocks := []
  consensus := config

/-- **The genesis state of a network in closed form.** -/
theorem createGenesisState_eq_ok {c : Crypto} {options : ConsensusOptions} {s : State} :
    createGenesisState c options = .ok s ↔
      ∃ config, parseConsensusConfig options = .ok config ∧ s = genesisState c config := by
  rw [createGenesisState, bind_eq_ok]
  refine exists_congr fun config => and_congr_right fun _ => ?_
  rw [normalizedAllocations_eq, ok_bind, getGenesisHash_eq, ok_bind, pure_eq_ok, Except.ok.injEq]
  exact eq_comm

/-! ### Valid states -/

/-- The last block of a state. -/
def State.lastBlock? (s : State) : Option Block := s.blocks[s.height - 1]?

/-- **`assertValidState`.**  The types leave out the checks that a value is a number, a `bigint`,
a `Map` or an array, and that a natural number is not negative. -/
def assertValidState (c : Crypto) (s : State) : Except Error Unit := do
  require (s.height ≤ Json.maxSafeInteger && s.timestamp ≤ Json.maxSafeInteger &&
    isLowerHex 64 s.tipHash && isLowerHex 64 s.genesisHash &&
    s.totalSupply == genesisSupply + s.miningIssued && s.balanceTotal == s.totalSupply &&
    s.miningIssued ≤ miningReserve && s.totalSupply ≤ totalSupply && s.blocks.length == s.height &&
    1 ≤ s.target) (.error "Invalid MEDAC consensus state")
  let config ← parseConsensusConfig s.consensus.toOptions
  let expected ← getGenesisHash c config
  require (expected == s.genesisHash && s.target ≤ config.maxTarget &&
    (s.height == 0 || (s.lastBlock?.map Block.hash == some s.tipHash &&
      s.lastBlock?.map (·.timestamp) == some s.timestamp)))
    (.error "MEDAC consensus state integrity mismatch")

/-- What the check demands of a state. -/
structure State.Valid (c : Crypto) (s : State) : Prop where
  height_le : s.height ≤ Json.maxSafeInteger
  timestamp_le : s.timestamp ≤ Json.maxSafeInteger
  tipHash_hex : isLowerHex 64 s.tipHash
  totalSupply_eq : s.totalSupply = genesisSupply + s.miningIssued
  balanceTotal_eq : s.balanceTotal = s.totalSupply
  miningIssued_le : s.miningIssued ≤ miningReserve
  length_blocks : s.blocks.length = s.height
  one_le_target : 1 ≤ s.target
  target_le : s.target ≤ s.consensus.maxTarget
  genesisHash_eq : s.genesisHash = Medac.genesisHash c s.consensus
  tip : s.height ≠ 0 → s.lastBlock?.map Block.hash = some s.tipHash ∧
    s.lastBlock?.map (·.timestamp) = some s.timestamp

variable {c : Crypto}

theorem isLowerHex_genesisHash (config : Consensus) : isLowerHex 64 (genesisHash c config) :=
  c.isLowerHex_sha256 _

theorem totalSupply_eq : totalSupply = genesisSupply + miningReserve := by
  have hle : genesisSupply ≤ totalSupply := Nat.mul_le_mul_right token (by decide)
  rw [miningReserve, Nat.add_sub_cancel' hle]

theorem genesisSupply_add_le {issued : ℕ} (h : issued ≤ miningReserve) :
    genesisSupply + issued ≤ totalSupply := by
  rw [totalSupply_eq]
  exact Nat.add_le_add_left h _

/-- **The check passes exactly on the valid states.** -/
theorem assertValidState_eq_ok {s : State} : assertValidState c s = .ok () ↔ s.Valid c := by
  rw [assertValidState, bind_require_eq_ok, parseConsensusConfig_toOptions, ok_bind,
    getGenesisHash_eq, ok_bind, require_eq_ok]
  simp only [Bool.and_eq_true, Bool.or_eq_true, decide_eq_true_eq, beq_iff_eq]
  constructor
  · rintro ⟨⟨⟨⟨⟨⟨⟨⟨⟨⟨h₁, h₂⟩, h₃⟩, -⟩, h₄⟩, h₅⟩, h₆⟩, -⟩, h₇⟩, h₈⟩, ⟨h₉, h₁₀⟩, htip⟩
    exact ⟨h₁, h₂, h₃, h₄, h₅, h₆, h₇, h₈, h₁₀, h₉.symm, fun h => htip.resolve_left h⟩
  · intro h
    have hgenesis : isLowerHex 64 s.genesisHash := by
      rw [h.genesisHash_eq]
      exact isLowerHex_genesisHash _
    have hsupply : s.totalSupply ≤ totalSupply := by
      rw [h.totalSupply_eq]
      exact genesisSupply_add_le h.miningIssued_le
    refine ⟨⟨⟨⟨⟨⟨⟨⟨⟨⟨h.height_le, h.timestamp_le⟩, h.tipHash_hex⟩, hgenesis⟩, h.totalSupply_eq⟩,
      h.balanceTotal_eq⟩, h.miningIssued_le⟩, hsupply⟩, h.length_blocks⟩, h.one_le_target⟩,
      ⟨h.genesisHash_eq.symm, h.target_le⟩, ?_⟩
    rcases Nat.eq_zero_or_pos s.height with h0 | hpos
    · exact Or.inl h0
    · exact Or.inr (h.tip (Nat.ne_of_gt hpos))

/-- **The genesis state of a network is valid.** -/
theorem genesisState_valid (config : Consensus) : (genesisState c config).Valid c where
  height_le := Nat.zero_le _
  timestamp_le := Nat.zero_le _
  tipHash_hex := isLowerHex_genesisHash config
  totalSupply_eq := (Nat.add_zero genesisSupply).symm
  balanceTotal_eq := rfl
  miningIssued_le := Nat.zero_le _
  length_blocks := rfl
  one_le_target := config.one_le_initialTarget
  target_le := config.initialTarget_le
  genesisHash_eq := rfl
  tip := fun h => absurd rfl h

end Medac
