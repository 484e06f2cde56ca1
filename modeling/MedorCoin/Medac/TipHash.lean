/-
**The tip hash commits to the whole state.**

The hash of a block covers its header with the hash of the block before, down to the genesis
hash, which covers the parameters of the network.  So two chains with the same tip hash, whose
texts SHA-256 does not confuse, are block for block the same; and since every other field of the
state is computed from the blocks and the parameters, the states are the same.

Main definitions:

* `Medac.State.preimages` — the texts that were hashed to the hashes on a chain.

Main results:

* `Medac.headerPreimage_injective`, `Medac.genesisPreimage_injective`,
  `Medac.genesisPreimage_ne_headerPreimage` — different things are hashed as different texts;
* `Medac.Reachable.eq_of_tipHash_eq` — **equal tip hashes, equal states**;
* `Medac.tipHash_commits` — all of this together.
-/

import MedorCoin.Medac.Mine
import Mathlib.Data.Set.Function

set_option autoImplicit false

namespace Medac

open Js

/-! ### The hashed texts -/

/-- The text hashed to the genesis hash of a network. -/
def genesisText (config : Consensus) : Str := Json.stringify (genesisPreimage allocations config)

/-- The text hashed to the hash of a block. -/
def headerText (genesisHash : Str) (b : BlockHeader) : Str :=
  Json.stringify (headerPreimage genesisHash b)

theorem plain_headerPreimage (g : Str) (b : BlockHeader) : Json.plain (headerPreimage g b) := by
  have htransactions := plain_transactions b.transactions
  rw [Json.plain] at htransactions
  simp [headerPreimage, Json.plain, Json.plainItems, Address.toJson, htransactions]

theorem plain_genesisPreimage (config : Consensus) :
    Json.plain (genesisPreimage allocations config) := by
  simp [genesisPreimage, Json.plain, Json.plainItems, allocations, Address.toJson]

/-- **Different headers are hashed as different texts.** -/
theorem headerPreimage_injective {g g' : Str} {b b' : BlockHeader}
    (h : headerText g b = headerText g' b') : g = g' ∧ b = b' := by
  have hjson : headerPreimage g b = headerPreimage g' b' :=
    Json.stringify_injective (plain_headerPreimage g b) (plain_headerPreimage g' b') h
  obtain ⟨height, previousHash, timestamp, nonce, miner, reward, target, transactions⟩ := b
  obtain ⟨height', previousHash', timestamp', nonce', miner', reward', target', transactions'⟩ := b'
  have hinj : Function.Injective Transaction.toJson := fun _ _ => Transaction.toJson_injective
  simpa [headerPreimage, Address.toJson, Subtype.ext_iff, hinj.list_map.eq_iff] using hjson

/-- **Different parameters are hashed as different texts.** -/
theorem genesisPreimage_injective {config config' : Consensus}
    (h : genesisText config = genesisText config') : config = config' := by
  have hjson : genesisPreimage allocations config = genesisPreimage allocations config' :=
    Json.stringify_injective (plain_genesisPreimage config) (plain_genesisPreimage config') h
  obtain ⟨initialTarget, maxTarget, blockTime, window⟩ := config
  obtain ⟨initialTarget', maxTarget', blockTime', window'⟩ := config'
  have hinj : Function.Injective numeral := fun _ _ => numeral_injective
  simpa [genesisPreimage, hinj.eq_iff] using hjson

/-- **No genesis is hashed as a header**: the lists have different lengths. -/
theorem genesisPreimage_ne_headerPreimage (config : Consensus) (g : Str) (b : BlockHeader) :
    genesisText config ≠ headerText g b := by
  intro h
  have hjson : genesisPreimage allocations config = headerPreimage g b :=
    Json.stringify_injective (plain_genesisPreimage config) (plain_headerPreimage g b) h
  simp [genesisPreimage, headerPreimage] at hjson

/-! ### Equal tip hashes -/

/-- The texts that were hashed to the hashes on a chain. -/
def State.preimages (s : State) : Set Str :=
  insert (genesisText s.consensus)
    {text | ∃ b ∈ s.blocks, text = headerText s.genesisHash b.toBlockHeader}

variable {c : Crypto} {config config₁ config₂ : Consensus} {now : ℕ} {s s₁ s₂ : State} {b : Block}
  {reward : ℕ} {l : Ledger}

theorem State.genesisText_mem (s : State) : genesisText s.consensus ∈ s.preimages :=
  Set.mem_insert _ _

theorem State.preimages_next (s : State) (b : Block) (reward : ℕ) (l : Ledger) :
    (s.next b reward l).preimages =
      insert (headerText s.genesisHash b.toBlockHeader) s.preimages := by
  ext text
  simp only [preimages, next, List.mem_append, List.mem_singleton, Set.mem_insert_iff,
    Set.mem_ofPred_eq]
  constructor
  · rintro (rfl | ⟨b', hb | rfl, rfl⟩)
    · exact Or.inr (Or.inl rfl)
    · exact Or.inr (Or.inr ⟨b', hb, rfl⟩)
    · exact Or.inl rfl
  · rintro (rfl | rfl | ⟨b', hb, rfl⟩)
    · exact Or.inr ⟨b, Or.inr rfl, rfl⟩
    · exact Or.inl rfl
    · exact Or.inr ⟨b', Or.inl hb, rfl⟩

theorem Reachable.cases_next (h : Reachable c config s) :
    s = genesisState c config ∨
      ∃ s₀ now b reward l, Reachable c config s₀ ∧ s₀.Accepts c now b reward l ∧
        s = s₀.next b reward l := by
  cases h with
  | genesis => exact Or.inl rfl
  | block hbefore hblock =>
      obtain ⟨-, b, reward, l, -, haccepts, rfl⟩ := applyMinedBlock_eq_ok.1 hblock
      exact Or.inr ⟨_, _, b, reward, l, hbefore, haccepts, rfl⟩

theorem State.Accepts.next_eq {now' reward' : ℕ} {l' : Ledger} (h : s.Accepts c now b reward l)
    (h' : s.Accepts c now' b reward' l') : s.next b reward l = s.next b reward' l' := by
  have hreward : reward = reward' := by
    have hr := h.reward
    rw [h'.reward, Except.ok.injEq] at hr
    exact hr.symm
  rw [hreward, h.ledger.unique h'.ledger]

theorem genesis_ne_next {S : Set Str} (hinj : Set.InjOn c.sha256 S)
    (hgenesis : genesisText config ∈ S) (h : s.Accepts c now b reward l)
    (hheader : headerText s.genesisHash b.toBlockHeader ∈ S) :
    genesisHash c config ≠ b.hash := by
  intro heq
  rw [h.hash_eq] at heq
  exact genesisPreimage_ne_headerPreimage config _ _ (hinj hgenesis hheader heq)

/-- **Equal tip hashes, equal states.**  The induction goes down one chain; the other is taken
apart beside it. -/
theorem Reachable.eq_of_tipHash_eq {S : Set Str} (hinj : Set.InjOn c.sha256 S)
    (h₁ : Reachable c config₁ s₁) (h₂ : Reachable c config₂ s₂) (hS₁ : s₁.preimages ⊆ S)
    (hS₂ : s₂.preimages ⊆ S) (htip : s₁.tipHash = s₂.tipHash) : s₁ = s₂ := by
  induction h₁ generalizing s₂ with
  | genesis =>
      have hgenesis : genesisText config₁ ∈ S := hS₁ (State.genesisText_mem _)
      rcases h₂.cases_next with rfl | ⟨s₀, now, b, reward, l, -, haccepts, rfl⟩
      · have htext := hinj hgenesis (hS₂ (State.genesisText_mem _)) htip
        have hconfig : config₁ = config₂ := genesisPreimage_injective htext
        rw [hconfig]
      · rw [State.preimages_next] at hS₂
        exact absurd htip (genesis_ne_next hinj hgenesis haccepts (hS₂ (Set.mem_insert _ _)))
  | @block s s' now block hbefore hblock ih =>
      obtain ⟨-, b, reward, l, -, haccepts, rfl⟩ := applyMinedBlock_eq_ok.1 hblock
      rw [State.preimages_next] at hS₁
      have hheader := hS₁ (Set.mem_insert _ _)
      rcases h₂.cases_next with rfl | ⟨s₀, now', b', reward', l', hreach, haccepts', rfl⟩
      · have hgenesis : genesisText config₂ ∈ S := hS₂ (State.genesisText_mem _)
        exact absurd htip.symm (genesis_ne_next hinj hgenesis haccepts hheader)
      · rw [State.preimages_next] at hS₂
        -- the same header, so the same block and the same hash before it
        have hhash : c.sha256 (headerText s.genesisHash b.toBlockHeader) =
            c.sha256 (headerText s₀.genesisHash b'.toBlockHeader) := by
          rw [headerText, headerText, ← haccepts.hash_eq, ← haccepts'.hash_eq]
          exact htip
        obtain ⟨-, hsame⟩ :=
          headerPreimage_injective (hinj hheader (hS₂ (Set.mem_insert _ _)) hhash)
        have hblocks : b = b' := by
          obtain ⟨header, hash⟩ := b
          obtain ⟨header', hash'⟩ := b'
          exact congrArg₂ Block.mk hsame htip
        subst hblocks
        have hprevious := haccepts.previousHash_eq.symm.trans haccepts'.previousHash_eq
        have hstate := ih hreach ((Set.subset_insert _ _).trans hS₁)
          ((Set.subset_insert _ _).trans hS₂) hprevious
        subst hstate
        exact haccepts.next_eq haccepts'

/-- **The tip hash commits to the whole state.**  For two chains, of one network or of two, on
whose texts SHA-256 has no collision, equal tip hashes mean equal states; in particular the same
blocks, height, balances, nonces, target, work, issued sum and supply.  The texts that are hashed
determine the headers and the parameters, and no genesis is hashed as a header. -/
theorem tipHash_commits (h₁ : Reachable c config₁ s₁) (h₂ : Reachable c config₂ s₂)
    (hinj : Set.InjOn c.sha256 (s₁.preimages ∪ s₂.preimages)) (htip : s₁.tipHash = s₂.tipHash) :
    s₁ = s₂ ∧
      (∀ g g' b b', headerText g b = headerText g' b' → g = g' ∧ b = b') ∧
      (∀ config config', genesisText config = genesisText config' → config = config') ∧
      ∀ config g b, genesisText config ≠ headerText g b :=
  ⟨h₁.eq_of_tipHash_eq hinj h₂ Set.subset_union_left Set.subset_union_right htip,
    fun _ _ _ _ => headerPreimage_injective, fun _ _ => genesisPreimage_injective,
    genesisPreimage_ne_headerPreimage⟩

theorem sampleFirst_injOn : Set.InjOn sampleCrypto.sha256 sampleFirst.preimages := by
  have hdigests : Sha256.hex (genesisText sampleConsensus) ≠
      Sha256.hex (headerText sampleGenesisHash
        (sampleBlock sampleGenesis 1000 []).toBlockHeader) := by
    simp only [sampleBlock, BlockHeader.withHash, initialBlockReward_eq]
    decide +kernel
  have hpreimages : sampleFirst.preimages = {headerText sampleGenesisHash
      (sampleBlock sampleGenesis 1000 []).toBlockHeader, genesisText sampleConsensus} := by
    rw [sampleFirst, State.preimages_next]
    simp [State.preimages, sampleGenesis, genesisState]
    rfl
  rw [hpreimages]
  rintro x (rfl | rfl) y (rfl | rfl) hxy
  · rfl
  · exact absurd hxy.symm hdigests
  · exact absurd hxy hdigests
  · rfl

theorem tipHash_commits_sampleFirst :
    sampleGenesis.next (sampleBlock sampleGenesis 1000 []) initialBlockReward
        sampleGenesis.ledger = sampleFirst ∧
      genesisText sampleConsensus ≠
        headerText sampleGenesisHash (sampleBlock sampleGenesis 1000 []).toBlockHeader := by
  have hreach : Reachable sampleCrypto sampleConsensus sampleFirst :=
    Reachable.genesis.accepted sampleFirst_accepts
  have hinj : Set.InjOn sampleCrypto.sha256 (sampleFirst.preimages ∪ sampleFirst.preimages) := by
    rw [Set.union_self]
    exact sampleFirst_injOn
  obtain ⟨hstate, -, -, hne⟩ := tipHash_commits hreach hreach hinj rfl
  exact ⟨hstate, hne _ _ _⟩

end Medac
