/-
**Fork choice.**

`resolveLongestChain` replaces the chain in memory by a candidate that is longer.  It looks at the
hashes the blocks carry and at the links between them, at the timestamps, and at nothing else:
neither at proofs of work nor at difficulties.

Main definitions:

* `Node.resolveLongestChain`;
* `Node.Longer` — the rule by which it replaces a chain;
* `Node.Heavier` — the rule of the heaviest chain.

Main results:

* `Node.longest_chain` — **the chain is replaced exactly if the candidate is longer**, and is left
  as it is otherwise;
* `Node.longest_chain_fabricated` — a fabricated block displaces the tip.
-/

import MedorCoin.Node.ProofOfWork

set_option autoImplicit false

namespace Node

open Cpp

/-- `Block::clone`. -/
def Block.clone (b : Block) : Block where
  previousHash := b.previousHash
  data := b.data
  difficulty := b.difficulty
  minerAddress := b.minerAddress
  timestamp := b.timestamp
  nonce := b.nonce
  reward := b.reward
  baseFee := b.baseFee
  gasUsed := b.gasUsed
  gasLimit := b.gasLimit
  hash := b.hash
  signature := b.signature
  transactions := b.transactions

theorem Block.clone_eq (b : Block) : b.clone = b := rfl

/-- The loop over a candidate: hash, timestamp, and link to the block before. -/
def checkCandidate (previous : Option Block) : List Block → Bool
  | [] => true
  | b :: blocks =>
      b.hash != [] && b.timestamp != 0 && previous.all (fun p => b.previousHash == p.hash) &&
        checkCandidate (some b) blocks

/-- `resolveLongestChain(candidateChain, currentChain)`: whether it replaced the chain, and the
chain afterwards. -/
def resolveLongestChain (candidateChain currentChain : List Block) : Bool × List Block :=
  match candidateChain, currentChain with
  | candidateFirst :: _, currentFirst :: _ =>
      if candidateFirst.hash ≠ currentFirst.hash then (false, currentChain)
      else if candidateChain.length ≤ currentChain.length then (false, currentChain)
      else if checkCandidate none candidateChain then (true, candidateChain.map Block.clone)
      else (false, currentChain)
  | _, _ => (false, currentChain)

/-! ### The rules -/

/-- Each block names the hash of the one before. -/
def HashLinked (blocks : List Block) : Prop :=
  blocks.IsChain fun a b => b.previousHash = a.hash

/-- The two chains begin with the same hash. -/
def SameGenesis (candidate current : List Block) : Prop :=
  ∃ b b', candidate.head? = some b ∧ current.head? = some b' ∧ b.hash = b'.hash

/-- **The longest-chain rule**, for chains that are linked by hashes that are there. -/
structure Longer (candidate current : List Block) : Prop where
  genesis : SameGenesis candidate current
  longer : current.length < candidate.length
  named : ∀ b ∈ candidate, b.hash ≠ [] ∧ b.timestamp ≠ 0
  linked : HashLinked candidate

/-- The difficulty accumulated by a chain. -/
def totalDifficulty (blocks : List Block) : ℕ := (blocks.map fun b => b.difficulty.toNat).sum

/-- **The heaviest-chain rule.** -/
structure Heavier (candidate current : List Block) : Prop where
  genesis : SameGenesis candidate current
  linked : HashLinked candidate
  work : ∀ b ∈ candidate, ProofOfWork.validateHash b = true
  heavier : totalDifficulty current < totalDifficulty candidate

/-! ### What is replaced -/

theorem checkCandidate_some (p : Block) (blocks : List Block) :
    checkCandidate (some p) blocks = true ↔
      (∀ b ∈ blocks, b.hash ≠ [] ∧ b.timestamp ≠ 0) ∧ HashLinked (p :: blocks) := by
  induction blocks generalizing p with
  | nil => simp [checkCandidate, HashLinked]
  | cons b blocks ih =>
      rw [checkCandidate]
      simp only [Bool.and_eq_true, bne_iff_ne, Option.all_some, beq_iff_eq, ih, List.mem_cons,
        forall_eq_or_imp, HashLinked, List.isChain_cons_cons]
      tauto

theorem checkCandidate_none (blocks : List Block) :
    checkCandidate none blocks = true ↔
      (∀ b ∈ blocks, b.hash ≠ [] ∧ b.timestamp ≠ 0) ∧ HashLinked blocks := by
  cases blocks with
  | nil => simp [checkCandidate, HashLinked]
  | cons b blocks =>
      rw [checkCandidate]
      simp only [Bool.and_eq_true, bne_iff_ne, Option.all_none, checkCandidate_some,
        List.mem_cons, forall_eq_or_imp]
      tauto

theorem resolveLongestChain_eq (candidate current : List Block) :
    (Longer candidate current → resolveLongestChain candidate current = (true, candidate)) ∧
      (¬ Longer candidate current → resolveLongestChain candidate current = (false, current)) := by
  unfold resolveLongestChain
  split
  · next b blocks b' blocks' =>
      constructor
      · rintro ⟨⟨_, _, hhead, hhead', hhash⟩, hlonger, hnamed, hlinked⟩
        cases hhead
        cases hhead'
        rw [if_neg (fun hne => hne hhash), if_neg (Nat.not_le.2 hlonger),
          if_pos ((checkCandidate_none _).2 ⟨hnamed, hlinked⟩)]
        have hclones : (b :: blocks).map Block.clone = b :: blocks :=
          List.map_id'' Block.clone_eq _
        rw [hclones]
      · intro hnot
        split
        · rfl
        · next hhash =>
            split
            · rfl
            · next hlonger =>
                split
                · next hcheck =>
                    obtain ⟨hnamed, hlinked⟩ := (checkCandidate_none _).1 hcheck
                    exact absurd ⟨⟨b, b', rfl, rfl, not_not.1 hhash⟩, Nat.not_le.1 hlonger, hnamed,
                      hlinked⟩ hnot
                · rfl
  · next hempty =>
      refine ⟨fun hlonger => ?_, fun _ => rfl⟩
      obtain ⟨b, b', hhead, hhead', -⟩ := hlonger.genesis
      obtain ⟨blocks, hcandidate⟩ := List.head?_eq_some_iff.1 hhead
      obtain ⟨blocks', hcurrent⟩ := List.head?_eq_some_iff.1 hhead'
      exact absurd hcurrent (hempty b blocks b' blocks' hcandidate)

/-- **The chain is replaced exactly if the candidate is longer**, by the candidate; it is left as it
is otherwise. -/
theorem longest_chain (candidate current : List Block) :
    ((resolveLongestChain candidate current).1 = true ↔ Longer candidate current) ∧
      (resolveLongestChain candidate current).2 =
        if (resolveLongestChain candidate current).1 then candidate else current := by
  obtain ⟨hreplaced, hkept⟩ := resolveLongestChain_eq candidate current
  by_cases hlonger : Longer candidate current
  · rw [hreplaced hlonger, if_pos rfl]
    exact ⟨⟨fun _ => hlonger, fun _ => rfl⟩, rfl⟩
  · rw [hkept hlonger, if_neg Bool.false_ne_true]
    exact ⟨⟨fun h => Bool.noConfusion h, fun h => absurd h hlonger⟩, rfl⟩

/-! ### A fabricated chain -/

def sampleTip : Block := { difficulty := 4, timestamp := 1000, hash := str "genesis" }

def sampleFabricated : Block :=
  { previousHash := str "genesis", timestamp := 1001, hash := str "fabricated" }

theorem sampleFabricated_longer : Longer [sampleTip, sampleFabricated] [sampleTip] where
  genesis := ⟨sampleTip, sampleTip, rfl, rfl, rfl⟩
  longer := by decide
  named := by decide
  linked := List.isChain_cons_cons.2 ⟨rfl, List.IsChain.singleton _⟩

/-- **A fabricated block displaces the tip**: the candidate replaces the chain, and is not
heavier. -/
theorem longest_chain_fabricated :
    resolveLongestChain [sampleTip, sampleFabricated] [sampleTip] =
        (true, [sampleTip, sampleFabricated]) ∧
      ¬ Heavier [sampleTip, sampleFabricated] [sampleTip] := by
  refine ⟨(resolveLongestChain_eq _ _).1 sampleFabricated_longer, fun hheavier => ?_⟩
  exact absurd hheavier.heavier (by decide)

end Node
