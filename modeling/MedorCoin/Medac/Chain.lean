/-
**The chain object and its fork choice.**

`MedacChain` of `medac_chain.cjs` holds the state of one chain.  `appendBlock` extends it by a
block; `considerChain` replays a whole candidate from genesis and adopts it if it carries more
work.  Both hand the new blocks to the store before they change the state; here a call carries
what its call of the store comes to.

Main definitions:

* `Medac.MedacChain` — the object; `Medac.MedacChain.create`, `Medac.MedacChain.open`;
* `Medac.MedacChain.appendBlock`, `Medac.MedacChain.considerChain`;
* `Medac.ChainCall`, `Medac.MedacChain.calls` — sequences of calls.

Main results:

* `Medac.Reachable.cumulativeWork_eq` — the accumulated work is the sum over the blocks;
* `Medac.MedacChain.call_cases` — what one call can do;
* `Medac.MedacChain.considerAll_cumulativeWork` — considering candidates ends at the most work;
* `Medac.fork_choice` — **fork choice**.
-/

import MedorCoin.Medac.Mine

set_option autoImplicit false

namespace Medac

open Js

def maxChainBlocks : ℕ := 2000000

/-! ### The object and its methods -/

/-- A `MedacChain`, apart from its store. -/
structure MedacChain where
  consensusOptions : ConsensusOptions
  state : State
  opened : Bool

/-- What a call of `considerChain` returns. -/
structure ConsiderResult where
  adopted : Bool
  state : State
  previousTip : Option Str
  candidateWork : ℕ

/-- Pair every block of a list with the reading of the clock when its turn comes. -/
def timed (clock : ℕ → ℕ) (blocks : List Json) : List (ℕ × Json) :=
  blocks.mapIdx fun i b => (clock i, b)

/-- Replay a list of blocks from genesis. -/
def replayBlocks (c : Crypto) (options : ConsensusOptions) (clock : ℕ → ℕ) (blocks : List Json) :
    Except Error State := do
  let genesis ← createGenesisState c options
  applyBlocks c genesis (timed clock blocks)

namespace MedacChain

/-- The constructor. -/
def create (c : Crypto) (options : ConsensusOptions) : Except Error MedacChain := do
  let state ← createGenesisState c options
  return { consensusOptions := options, state, opened := false }

/-- **`open`**, on what opening the store came to if there is one.  When it throws the object
stays as it was. -/
def «open» (c : Crypto) (clock : ℕ → ℕ) (chain : MedacChain)
    (stored : Option (Except Error (List Json))) : Except Error MedacChain :=
  if chain.opened then .ok chain
  else match stored with
    | none => .ok { chain with opened := true }
    | some outcome => do
        let blocks ← outcome
        require (blocks.length ≤ maxChainBlocks) (.error "MEDAC chain exceeds replay limit")
        let state ← replayBlocks c chain.consensusOptions clock blocks
        return { chain with state, opened := true }

/-- **`appendBlock`**, on what appending to the store comes to. -/
def appendBlock (c : Crypto) (now : ℕ) (chain : MedacChain) (store : Except Error Unit)
    (block : Json) : Except Error MedacChain := do
  let nextState ← applyMinedBlock c now chain.state block
  store
  return { chain with state := nextState }

/-- **`considerChain`**, on what replacing the store's chain comes to. -/
def considerChain (c : Crypto) (clock : ℕ → ℕ) (chain : MedacChain) (store : Except Error Unit)
    (blocks : Json) : Except Error (MedacChain × ConsiderResult) :=
  match Json.array? (some blocks) with
  | some items => do
      require (items.length ≤ maxChainBlocks) (.error "Invalid MEDAC candidate chain length")
      let candidate ← replayBlocks c chain.consensusOptions clock items
      if candidate.cumulativeWork ≤ chain.state.cumulativeWork then
        return (chain, { adopted := false, state := chain.state, previousTip := none,
                         candidateWork := candidate.cumulativeWork })
      else
        store
        return ({ chain with state := candidate },
          { adopted := true, state := candidate, previousTip := some chain.state.tipHash,
            candidateWork := candidate.cumulativeWork })
  | none => throw (.error "Invalid MEDAC candidate chain length")

end MedacChain

/-- A call, with the readings of the clock and what the call of the store comes to. -/
inductive ChainCall
  | append (now : ℕ) (store : Except Error Unit) (block : Json)
  | consider (clock : ℕ → ℕ) (store : Except Error Unit) (blocks : Json)

namespace MedacChain

/-- The object after a call, and what the call threw.  The assignment to `this.state` comes last,
so that a call which throws leaves the object as it was. -/
def call (c : Crypto) (chain : MedacChain) : ChainCall → MedacChain × Option Error
  | .append now store block =>
      match chain.appendBlock c now store block with
      | .ok next => (next, none)
      | .error e => (chain, some e)
  | .consider clock store blocks =>
      match chain.considerChain c clock store blocks with
      | .ok (next, _) => (next, none)
      | .error e => (chain, some e)

/-- The object after a sequence of calls. -/
def calls (c : Crypto) (chain : MedacChain) (l : List ChainCall) : MedacChain :=
  l.foldl (fun chain call => (chain.call c call).1) chain

theorem calls_snoc (c : Crypto) (chain : MedacChain) (l : List ChainCall) (call : ChainCall) :
    chain.calls c (l ++ [call]) = ((chain.calls c l).call c call).1 := by
  rw [calls, List.foldl_append]
  rfl

end MedacChain

/-! ### Accumulated work -/

variable {c : Crypto} {config : Consensus} {s : State}

/-- `BigInt(block.target)`. -/
def Block.targetValue (b : Block) : ℕ := numeralValue b.target

/-- **The accumulated work is the sum over the blocks**, each of which adds some. -/
theorem Reachable.cumulativeWork_eq (h : Reachable c config s) :
    s.cumulativeWork = (s.blocks.map fun b => blockWork b.targetValue).sum ∧
      ∀ b ∈ s.blocks, 1 ≤ blockWork b.targetValue := by
  let P (s : State) : Prop :=
    s.cumulativeWork = (s.blocks.map fun b => blockWork b.targetValue).sum ∧
      ∀ b ∈ s.blocks, 1 ≤ blockWork b.targetValue
  refine h.induction (P := P) ⟨rfl, by simp [genesisState]⟩ ?_
  intro s now b reward l _ hs haccepts ih
  obtain ⟨hsum, hall⟩ := ih
  have htarget : b.targetValue = s.target := by
    rw [Block.targetValue, haccepts.target_eq, numeralValue_numeral]
  have hwork : 1 ≤ blockWork s.target :=
    one_le_blockWork (le_trans hs.target_le s.consensus.maxTarget_le)
  refine ⟨by simp [State.next, hsum, htarget], ?_⟩
  intro b' hb'
  rcases List.mem_append.1 hb' with hold | hnew
  · exact hall b' hold
  · rw [List.mem_singleton.1 hnew, htarget]
    exact hwork

theorem cumulativeWork_lt {now : ℕ} {block : Json} {s' : State}
    (h : applyMinedBlock c now s block = .ok s') : s.cumulativeWork < s'.cumulativeWork := by
  obtain ⟨hs, b, reward, l, -, -, rfl⟩ := applyMinedBlock_eq_ok.1 h
  have hwork : 1 ≤ blockWork s.target :=
    one_le_blockWork (le_trans hs.target_le s.consensus.maxTarget_le)
  exact Nat.lt_add_of_pos_right hwork

/-! ### What the calls do -/

theorem reachable_of_replayBlocks {options : ConsensusOptions} {clock : ℕ → ℕ}
    {blocks : List Json} (h : replayBlocks c options clock blocks = .ok s) :
    ∃ config, parseConsensusConfig options = .ok config ∧ Reachable c config s := by
  obtain ⟨genesis, hgenesis, hblocks⟩ := bind_eq_ok.1 h
  obtain ⟨config, hconfig, rfl⟩ := createGenesisState_eq_ok.1 hgenesis
  exact ⟨config, hconfig, reachable_iff.2 ⟨_, hblocks⟩⟩

namespace MedacChain

variable {chain : MedacChain} {options : ConsensusOptions}

/-- What holds of a chain object between calls: its state is reachable from its own genesis. -/
structure Sound (c : Crypto) (options : ConsensusOptions) (config : Consensus)
    (chain : MedacChain) : Prop where
  options_eq : chain.consensusOptions = options
  parsed : parseConsensusConfig options = .ok config
  reachable : Reachable c config chain.state

theorem appendBlock_eq_ok {now : ℕ} {store : Except Error Unit} {block : Json}
    {next : MedacChain} :
    chain.appendBlock c now store block = .ok next ↔
      ∃ nextState, applyMinedBlock c now chain.state block = .ok nextState ∧ store = .ok () ∧
        next = { chain with state := nextState } := by
  rw [appendBlock, bind_eq_ok]
  refine exists_congr fun nextState => and_congr_right fun _ => ?_
  rw [bind_eq_ok]
  constructor
  · rintro ⟨⟨⟩, hstore, h⟩
    rw [pure_eq_ok, Except.ok.injEq] at h
    exact ⟨hstore, h.symm⟩
  · rintro ⟨hstore, rfl⟩
    exact ⟨(), hstore, rfl⟩

theorem considerChain_eq_ok {clock : ℕ → ℕ} {store : Except Error Unit} {blocks : Json}
    {next : MedacChain} {result : ConsiderResult} :
    chain.considerChain c clock store blocks = .ok (next, result) ↔
      ∃ items candidate, blocks = .arr items ∧ items.length ≤ maxChainBlocks ∧
        replayBlocks c chain.consensusOptions clock items = .ok candidate ∧
        ((candidate.cumulativeWork ≤ chain.state.cumulativeWork ∧ next = chain ∧
            result = ⟨false, chain.state, none, candidate.cumulativeWork⟩) ∨
          (chain.state.cumulativeWork < candidate.cumulativeWork ∧ store = .ok () ∧
            next = { chain with state := candidate } ∧
            result = ⟨true, candidate, some chain.state.tipHash, candidate.cumulativeWork⟩)) := by
  rw [considerChain]
  constructor
  · intro h
    split at h
    · next items hitems =>
        obtain ⟨hlen, h⟩ := bind_require_eq_ok.1 h
        obtain ⟨candidate, hcandidate, h⟩ := bind_eq_ok.1 h
        have hblocks : blocks = .arr items := by simpa using Json.array?_eq_some.1 hitems
        refine ⟨items, candidate, hblocks, of_decide_eq_true hlen, hcandidate, ?_⟩
        split at h
        · next hle =>
            cases h
            exact Or.inl ⟨hle, rfl, rfl⟩
        · next hgt =>
            obtain ⟨⟨⟩, hstore, h⟩ := bind_eq_ok.1 h
            cases h
            exact Or.inr ⟨not_le.1 hgt, hstore, rfl, rfl⟩
    · cases h
  · rintro ⟨items, candidate, rfl, hlen, hcandidate, hcases⟩
    simp only [Json.array?_arr]
    refine bind_require_eq_ok.2 ⟨decide_eq_true hlen, ?_⟩
    rw [hcandidate, ok_bind]
    rcases hcases with ⟨hle, rfl, rfl⟩ | ⟨hgt, rfl, rfl, rfl⟩
    · rw [if_pos hle]
      rfl
    · rw [if_neg (not_le.2 hgt)]
      rfl

theorem call_append (chain : MedacChain) (now : ℕ) (store : Except Error Unit) (block : Json) :
    chain.call c (.append now store block) =
      match chain.appendBlock c now store block with
      | .ok next => (next, none)
      | .error e => (chain, some e) := by
  unfold call
  dsimp only

theorem call_consider (chain : MedacChain) (clock : ℕ → ℕ) (store : Except Error Unit)
    (blocks : Json) :
    chain.call c (.consider clock store blocks) =
      match chain.considerChain c clock store blocks with
      | .ok (next, _) => (next, none)
      | .error e => (chain, some e) := rfl

/-- **What one call can do**: leave the object as it is, or return with a reachable state of more
work.  A call that throws does the former. -/
theorem call_cases (hsound : chain.Sound c options config) (call : ChainCall) :
    (chain.call c call).1 = chain ∨
      ((chain.call c call).2 = none ∧ (chain.call c call).1.Sound c options config ∧
        chain.state.cumulativeWork < (chain.call c call).1.state.cumulativeWork) := by
  obtain ⟨hoptions, hconfig, hreach⟩ := hsound
  cases call with
  | append now store block =>
      rw [call_append]
      cases hcall : chain.appendBlock c now store block with
      | error e => exact Or.inl rfl
      | ok next =>
          obtain ⟨nextState, hnext, -, rfl⟩ := appendBlock_eq_ok.1 hcall
          exact Or.inr ⟨rfl, ⟨hoptions, hconfig, .block hreach hnext⟩, cumulativeWork_lt hnext⟩
  | consider clock store blocks =>
      rw [call_consider]
      cases hcall : chain.considerChain c clock store blocks with
      | error e => exact Or.inl rfl
      | ok result =>
          obtain ⟨items, candidate, -, -, hcandidate, hcases⟩ := considerChain_eq_ok.1 hcall
          rcases hcases with ⟨-, hnext, -⟩ | ⟨hgt, -, hnext, -⟩
          · exact Or.inl hnext
          · obtain ⟨config', hconfig', hreach'⟩ := reachable_of_replayBlocks hcandidate
            rw [hoptions, hconfig, Except.ok.injEq] at hconfig'
            subst hconfig'
            refine Or.inr ⟨rfl, ?_⟩
            simp only [hnext]
            exact ⟨⟨hoptions, hconfig, hreach'⟩, hgt⟩

theorem calls_sound (hsound : chain.Sound c options config) (l : List ChainCall) :
    (chain.calls c l).Sound c options config := by
  induction l generalizing chain with
  | nil => exact hsound
  | cons call l ih =>
      have hcall : (chain.call c call).1.Sound c options config := by
        rcases call_cases hsound call with h | ⟨-, h, -⟩
        · rw [h]
          exact hsound
        · exact h
      exact ih hcall

/-- A candidate that replays to a state, with the clock at which it is considered. -/
def ValidCandidate (c : Crypto) (options : ConsensusOptions) (candidate : (ℕ → ℕ) × List Json)
    (final : State) : Prop :=
  candidate.2.length ≤ maxChainBlocks ∧
    replayBlocks c options candidate.1 candidate.2 = .ok final

/-- The call that considers a candidate, the store succeeding. -/
def considerCall (candidate : (ℕ → ℕ) × List Json) : ChainCall :=
  .consider candidate.1 (.ok ()) (.arr candidate.2)

theorem call_considerCall {candidate : (ℕ → ℕ) × List Json} {final : State}
    (h : ValidCandidate c chain.consensusOptions candidate final) :
    (chain.call c (considerCall candidate)).1.state.cumulativeWork =
        max chain.state.cumulativeWork final.cumulativeWork ∧
      (chain.call c (considerCall candidate)).1.consensusOptions = chain.consensusOptions := by
  obtain ⟨hlen, hreplay⟩ := h
  rw [considerCall, call_consider]
  by_cases hle : final.cumulativeWork ≤ chain.state.cumulativeWork
  · have hcall : chain.considerChain c candidate.1 (.ok ()) (.arr candidate.2) = .ok (chain, _) :=
      considerChain_eq_ok.2 ⟨_, final, rfl, hlen, hreplay, Or.inl ⟨hle, rfl, rfl⟩⟩
    rw [hcall]
    exact ⟨(max_eq_left hle).symm, rfl⟩
  · have hgt := not_le.1 hle
    have hcall : chain.considerChain c candidate.1 (.ok ()) (.arr candidate.2) =
        .ok ({ chain with state := final }, _) :=
      considerChain_eq_ok.2 ⟨_, final, rfl, hlen, hreplay, Or.inr ⟨hgt, rfl, rfl, rfl⟩⟩
    rw [hcall]
    exact ⟨(max_eq_right (le_of_lt hgt)).symm, rfl⟩

/-- **Considering candidates ends at the most work**, in whatever order they come. -/
theorem considerAll_cumulativeWork {candidates : List ((ℕ → ℕ) × List Json)} {finals : List State}
    (h : List.Forall₂ (ValidCandidate c chain.consensusOptions) candidates finals) :
    (chain.calls c (candidates.map considerCall)).state.cumulativeWork =
      (finals.map (·.cumulativeWork)).foldl max chain.state.cumulativeWork := by
  induction candidates generalizing chain finals with
  | nil =>
      cases h
      rfl
  | cons candidate candidates ih =>
      cases h with
      | cons hfirst hrest =>
          obtain ⟨hwork, hoptions⟩ := call_considerCall hfirst
          rw [← hoptions] at hrest
          rw [List.map_cons, List.map_cons, List.foldl_cons, ← hwork, ← ih hrest]
          rfl

theorem open_sound {clock : ℕ → ℕ} {stored : Option (Except Error (List Json))}
    {created : MedacChain} (hcreate : create c options = .ok created)
    (hopen : created.open c clock stored = .ok chain) : ∃ config, chain.Sound c options config := by
  obtain ⟨genesis, hgenesis, hcreated⟩ := bind_eq_ok.1 hcreate
  rw [pure_eq_ok, Except.ok.injEq] at hcreated
  subst hcreated
  rw [MedacChain.open.eq_def, if_neg (by simp)] at hopen
  cases stored with
  | none =>
      rw [Except.ok.injEq] at hopen
      subst hopen
      obtain ⟨config, hconfig, rfl⟩ := createGenesisState_eq_ok.1 hgenesis
      exact ⟨config, rfl, hconfig, .genesis⟩
  | some outcome =>
      obtain ⟨blocks, -, hopen⟩ := bind_eq_ok.1 hopen
      obtain ⟨-, hopen⟩ := bind_require_eq_ok.1 hopen
      obtain ⟨state, hstate, hopen⟩ := bind_eq_ok.1 hopen
      rw [pure_eq_ok, Except.ok.injEq] at hopen
      subst hopen
      obtain ⟨config, hconfig, hreach⟩ := reachable_of_replayBlocks hstate
      exact ⟨config, rfl, hconfig, hreach⟩

end MedacChain

open MedacChain in
/-- **Fork choice.**  For an open chain object and any sequence of calls on it: the state is
reachable from the object's own genesis, and its work is the sum over its blocks, each of which
adds some; a further call leaves the state as it is or changes it to one of more work, and does
the former if it throws; and considering valid candidates in any order, the store succeeding, ends
at the most work among theirs and the one before. -/
theorem fork_choice {options : ConsensusOptions} {clock : ℕ → ℕ}
    {stored : Option (Except Error (List Json))} {created chain : MedacChain}
    (hcreate : create c options = .ok created) (hopen : created.open c clock stored = .ok chain)
    (l : List ChainCall) :
    (∃ config, parseConsensusConfig options = .ok config ∧
      Reachable c config (chain.calls c l).state) ∧
    (chain.calls c l).state.cumulativeWork =
      ((chain.calls c l).state.blocks.map fun b => blockWork b.targetValue).sum ∧
    (∀ b ∈ (chain.calls c l).state.blocks, 1 ≤ blockWork b.targetValue) ∧
    (∀ call, (((chain.calls c l).call c call).1.state = (chain.calls c l).state ∨
        (chain.calls c l).state.cumulativeWork <
          ((chain.calls c l).call c call).1.state.cumulativeWork) ∧
      (((chain.calls c l).call c call).2 ≠ none →
        ((chain.calls c l).call c call).1 = chain.calls c l)) ∧
    ∀ candidates finals, List.Forall₂ (ValidCandidate c options) candidates finals →
      ((chain.calls c l).calls c (candidates.map considerCall)).state.cumulativeWork =
        (finals.map (·.cumulativeWork)).foldl max (chain.calls c l).state.cumulativeWork := by
  obtain ⟨config, hsound⟩ := open_sound hcreate hopen
  have hcalls := calls_sound hsound l
  obtain ⟨hsum, hall⟩ := hcalls.reachable.cumulativeWork_eq
  refine ⟨⟨config, hcalls.parsed, hcalls.reachable⟩, hsum, hall, ?_, ?_⟩
  · intro call
    rcases call_cases hcalls call with h | ⟨hnone, -, hlt⟩
    · exact ⟨Or.inl (by rw [h]), fun _ => h⟩
    · exact ⟨Or.inr hlt, fun hthrown => absurd hnone hthrown⟩
  · intro candidates finals h
    rw [← hcalls.options_eq] at h
    exact considerAll_cumulativeWork h

def sampleObject : MedacChain :=
  { consensusOptions := sampleConsensus.toOptions, state := sampleGenesis, opened := true }

theorem fork_choice_sampleObject :
    (sampleObject.calls sampleCrypto
        [.append 1000 (.ok ()) (sampleBlock sampleGenesis 1000 []).toJson]).state.cumulativeWork =
      ((sampleObject.calls sampleCrypto
        [.append 1000 (.ok ()) (sampleBlock sampleGenesis 1000 []).toJson]).state.blocks.map
          fun b => blockWork b.targetValue).sum := by
  have hcreate : MedacChain.create sampleCrypto sampleConsensus.toOptions =
      .ok { sampleObject with opened := false } :=
    bind_eq_ok.2 ⟨sampleGenesis,
      createGenesisState_eq_ok.2 ⟨_, parseConsensusConfig_toOptions _, rfl⟩, rfl⟩
  have hopen : MedacChain.open sampleCrypto (fun _ => 0) { sampleObject with opened := false }
      none = .ok sampleObject := rfl
  obtain ⟨-, hsum, -⟩ := fork_choice hcreate hopen
    [.append 1000 (.ok ()) (sampleBlock sampleGenesis 1000 []).toJson]
  exact hsum

end Medac
