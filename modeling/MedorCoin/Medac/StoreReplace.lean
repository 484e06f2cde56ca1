/-
**Replacing the chain when a call fails.**

When `considerChain` adopts a candidate, `replace` writes the new journal under a temporary name,
renames it, and then exchanges the append descriptor and the list of the object.  If a call up to
the renaming fails, everything is as it was.  If one of the five calls after it fails, the journal
describes the new chain and the object the old one.

Main definitions:

* `Medac.Coherent`, `Medac.StoredChain.Describes` — the journal, the descriptor, the object and the
  chain describe the same blocks;
* `Medac.StoredChain.Atomic` — all describe the old chain, or all the new one;
* `Medac.SplitAt` — a call after the renaming fails;
* `Medac.AppendRun` — appending afterwards, with failures.

Main results:

* `Medac.Coherent.appendRun`, `Medac.Coherent.reopens` — what is appended is found by the next
  `open`;
* `Medac.StoredChain.Describes.atomic_iff` — a replacement is atomic exactly if no call after the
  renaming fails;
* `Medac.replacing` — **atomic replacement**.
-/

import MedorCoin.Medac.Replay
import MedorCoin.Medac.StoredChain

set_option autoImplicit false

namespace Medac

open Js Crash Crash.Prog MedacStore

variable {c : Crypto} {pid : ℕ} {g : Digest} {w w' : World} {plan : Plan} {L : List Json}
  {options : ConsensusOptions} {config : Consensus} {s : StoredChain}

/-! ### Agreement -/

/-- The journal, the append descriptor and the object describe the same blocks. -/
structure Coherent (c : Crypto) (g : Digest) (w : World) (L : List Json) : Prop where
  lockFd : w.vars.lockFd ≠ none
  genesisHash : w.vars.genesisHash = some g.val
  onChain : ∃ fd, OnChain w fd
  journal : ∃ t, chainBytes w.disk = some (utf8 t) ∧ JournalText c g.val L t ∧
    byteLength t ≤ maxStoreBytes
  blocks : w.vars.blocks = L

/-- The chain describes them too. -/
structure StoredChain.Describes (c : Crypto) (options : ConsensusOptions) (config : Consensus)
    (s : StoredChain) (L : List Json) : Prop where
  chain : s.chain.Sound c options config
  coherent : Coherent c (config.digest c) s.world L
  state : ∃ clock, replayBlocks c options clock L = .ok s.chain.state

/-- Appending afterwards: blocks are appended, or their calls throw.  At most one call of the
system fails in each. -/
inductive AppendRun (c : Crypto) (g : Digest) : World → List Json → World → Prop
  | refl (w : World) : AppendRun c g w [] w
  | returned {w w₁ w' : World} {plan rest : Plan} {blocks : List Json} (b : StoredBlock)
      (hrun : MedacStore.append c g.val b.val w plan = .returned () w₁ rest)
      (h : AppendRun c g w₁ blocks w') : AppendRun c g w (b.val :: blocks) w'
  | thrown {w w₁ w' : World} {plan rest : Plan} {blocks : List Json} {e : Exception Error}
      (b : StoredBlock) (hrun : MedacStore.append c g.val b.val w plan = .thrown e w₁ rest)
      (h : AppendRun c g w₁ blocks w') : AppendRun c g w blocks w'

/-- The next process to open the directory, once the lock is gone, finds the blocks. -/
def Reopens (c : Crypto) (g : Digest) (d : Disk StorePath) (L : List Json) : Prop :=
  ∀ pid, ∃ w', MedacStore.open c pid g.val
    (Machine.boot (d.unlink .lock) MedacStore.create) none = .returned L w' none

theorem chainBytes_unlink (d : Disk StorePath) : chainBytes (d.unlink .lock) = chainBytes d := by
  rw [chainBytes, chainBytes, Disk.unlink_entry, Function.update_of_ne (by simp)]
  rfl

theorem reopens_of_recorded (husable : Usable (chainBytes w.disk))
    (hL : w.recorded c g.val = .ok L) : Reopens c g w.disk L := by
  intro pid
  have hsame := chainBytes_unlink w.disk
  have hsteady : World.Steady c (Machine.boot (w.disk.unlink .lock) MedacStore.create) :=
    .boot (hsame ▸ husable)
  have hrecorded : World.recorded c g.val
      (Machine.boot (w.disk.unlink .lock) MedacStore.create) = .ok L := by
    rw [← hL]
    exact World.recorded_congr hsame
  have hfree : (w.disk.unlink .lock).entry StorePath.lock = none := by simp
  exact hsteady.open_returns pid g hrecorded hfree

namespace Coherent

theorem append_ends (h : Coherent c g w L) (b : StoredBlock) (plan : Plan) :
    Ends (MedacStore.append c g.val b.val) w plan
      (fun _ w' _ => Coherent c g w' (L ++ [b.val])) (fun _ w' _ => Coherent c g w' L)
      fun _ => True := by
  obtain ⟨k, hlock⟩ := Option.ne_none_iff_exists'.1 h.lockFd
  obtain ⟨fd, hchain⟩ := h.onChain
  obtain ⟨t, hbytes, ht, hle⟩ := h.journal
  refine (MedacStore.append_ends c b.val plan hlock h.genesisHash hchain hbytes).mono ?_ ?_
    fun _ _ => trivial
  · rintro _ w' rest ⟨hframe, hvars, hafter, hfits⟩
    rw [← utf8_append] at hafter hfits
    refine ⟨by rw [hvars]; exact h.lockFd, by rw [hvars]; exact h.genesisHash, ⟨fd, ?_⟩,
      ⟨_, hafter, ht.append b, hfits⟩, by rw [hvars, h.blocks]⟩
    exact hchain.frame hframe (Set.notMem_empty _) (Set.notMem_empty _) (by rw [hvars])
  · rintro e w' rest ⟨hframe, hvars, hafter, -⟩
    refine ⟨by rw [hvars]; exact h.lockFd, by rw [hvars]; exact h.genesisHash, ⟨fd, ?_⟩,
      ⟨t, hafter, ht, hle⟩, by rw [hvars, h.blocks]⟩
    exact hchain.frame hframe (Set.notMem_empty _) (Set.notMem_empty _) (by rw [hvars])

/-- **What is appended is added**, in the order of the calls. -/
theorem appendRun {blocks : List Json} (hrun : AppendRun c g w blocks w') :
    ∀ {L}, Coherent c g w L → Coherent c g w' (L ++ blocks) := by
  induction hrun with
  | refl w =>
      intro L h
      rw [List.append_nil]
      exact h
  | returned b hrun _ ih =>
      intro L h
      have hnext := ih ((h.append_ends b _).returned hrun)
      rw [List.append_assoc, List.singleton_append] at hnext
      exact hnext
  | thrown b hrun _ ih =>
      intro L h
      exact ih ((h.append_ends b _).thrown hrun)

/-- **The next process finds what is described.** -/
theorem reopens (h : Coherent c g w L) : Reopens c g w.disk L := by
  obtain ⟨t, hbytes, ht, hle⟩ := h.journal
  refine reopens_of_recorded (hbytes ▸ usable_utf8 ht.complete hle) ?_
  rw [World.recorded_utf8 ht.complete hbytes, ht.decode_eq]

end Coherent

/-! ### Replacing -/

/-- How the object comes out of a replacement: if it throws, everything describes the old chain,
and if it returns, everything describes the new one. -/
def StoredChain.Atomic (c : Crypto) (options : ConsensusOptions) (config : Consensus)
    (s : StoredChain) (old new : List Json) :
    Outcome World (Exception Error) (MedacChain × ConsiderResult) → Prop
  | .returned (next, _) w _ => Describes c options config ⟨next, w⟩ new
  | .thrown _ w _ => Describes c options config ⟨s.chain, w⟩ old
  | .crashed _ => False

/-- The call number `k` of `replace`, counted from 0, comes after the renaming.  The calls before
are those that create, write and measure the new journal, sync it, close it and rename it. -/
def SplitAt (c : Crypto) (g : Digest) (w : World) (temporaryPath : StorePath)
    (blocks : List Json) (k : ℕ) : Prop :=
  2 * blocks.length + 5 ≤ k ∧ k < 2 * blocks.length + 10 ∧ Fits c g.val blocks ∧
    w.disk.entry temporaryPath = none

namespace StoredChain.Describes

variable {clock : ℕ → ℕ} {candidate : Json} {next : MedacChain} {result : ConsiderResult}

theorem adopted (h : s.Describes c options config L)
    (haccept : s.chain.considerChain c clock (.ok ()) candidate = .ok (next, result))
    (hadopted : result.adopted = true) :
    ∃ state, next = { s.chain with state } ∧ Reachable c config state ∧
      s.chain.state.cumulativeWork < state.cumulativeWork ∧
      replayBlocks c options clock (state.stored.map Subtype.val) = .ok state := by
  obtain ⟨items, state, -, -, hreplay, hcases⟩ := MedacChain.considerChain_eq_ok.1 haccept
  obtain ⟨config', hconfig', hreach⟩ := reachable_of_replayBlocks hreplay
  rw [h.chain.options_eq, h.chain.parsed, Except.ok.injEq] at hconfig'
  subst hconfig'
  rcases hcases with ⟨-, -, rfl⟩ | ⟨hlt, -, rfl, -⟩
  · cases hadopted
  · refine ⟨state, rfl, hreach, hlt, ?_⟩
    have hstored : state.stored.map Subtype.val = state.blocks.map Block.toJson := by
      rw [State.stored, List.map_map]
      rfl
    rw [hstored]
    rw [h.chain.options_eq] at hreplay
    exact replayBlocks_stored hreplay

theorem consider_ends (h : s.Describes c options config L)
    (haccept : s.chain.considerChain c clock (.ok ()) candidate = .ok (next, result))
    (hadopted : result.adopted = true) (pid : ℕ) (suffix : Str) (k x : ℕ) :
    Ends (s.chain.considerStored c pid suffix clock candidate) s.world (some (k, .fail x))
      (fun r w _ => StoredChain.Describes c options config ⟨r.1, w⟩
          (next.state.stored.map Subtype.val) ∧
        ¬ SplitAt c (config.digest c) s.world (.temporary pid suffix)
          (next.state.stored.map Subtype.val) k)
      (fun _ w _ =>
        (StoredChain.Describes c options config ⟨s.chain, w⟩ L ∧
          ¬ SplitAt c (config.digest c) s.world (.temporary pid suffix)
            (next.state.stored.map Subtype.val) k) ∨
        (¬ StoredChain.Describes c options config ⟨s.chain, w⟩ L ∧
          SplitAt c (config.digest c) s.world (.temporary pid suffix)
            (next.state.stored.map Subtype.val) k))
      fun _ => False := by
  obtain ⟨state, rfl, hreach, hlt, hreplay⟩ := h.adopted haccept hadopted
  set blocks := state.stored.map Subtype.val with hblocks
  set g := config.digest c with hg
  obtain ⟨k', hlock⟩ := Option.ne_none_iff_exists'.1 h.coherent.lockFd
  obtain ⟨fd, hchain⟩ := h.coherent.onChain
  obtain ⟨t, hbytes, ht, hle⟩ := h.coherent.journal
  have htext : JournalText c g.val blocks (journalText c g.val blocks) :=
    journalText_journalText c g.val state.stored
  have hends := (noCrash_replace c pid suffix g.val blocks).ends (Plan.mild_fail k x)
    (MedacStore.replace_ends c pid suffix blocks (some (k, .fail x)) hlock
      h.coherent.genesisHash hchain.exists_handle)
  rw [MedacChain.considerStored, haccept]
  refine Ends.bind (Ends.pure ?_)
  simp only [hadopted, if_true]
  rw [hreach.genesisHash_digest]
  refine Ends.bind (hends.mono ?_ ?_ fun _ h => h)
  · rintro _ w rest ⟨⟨⟨⟨hframe, hafter⟩, fd', -, hchain', hvars⟩, -, hfits, -, hplan⟩, -⟩
    have hk := Plan.le_of_delay hplan
    refine Ends.pure ⟨⟨⟨h.chain.options_eq, h.chain.parsed, hreach⟩, ?_, clock, hreplay⟩, ?_⟩
    · refine ⟨by rw [hvars]; exact h.coherent.lockFd,
        by rw [hvars]; exact h.coherent.genesisHash, ⟨fd', hchain'⟩,
        ⟨_, hafter, htext, hfits.byteLength_le⟩, by rw [hvars]⟩
    · rintro ⟨-, hlt', -⟩
      omega
  · rintro e w rest ⟨⟨⟨hframe, fd', hvars⟩, hreason⟩ | ⟨⟨⟨hframe, hafter⟩, fd', hvars⟩, hfree,
      hfits, hreason⟩, -⟩
    · -- nothing was renamed
      refine Or.inl ⟨⟨h.chain, ?_, h.state⟩, ?_⟩
      · refine ⟨by rw [hvars]; exact h.coherent.lockFd,
          by rw [hvars]; exact h.coherent.genesisHash, ⟨fd, ?_⟩, ⟨t, ?_, ht, hle⟩,
          by rw [hvars]; exact h.coherent.blocks⟩
        · exact hchain.frame hframe (by simp) (Set.notMem_empty _) (by rw [hvars])
        · rw [chainBytes_frame hframe (by simp) fun _ _ => Set.notMem_empty _, hbytes]
      · rintro ⟨hge, -, hfits, hfree⟩
        rcases hreason with hfails | htaken | hnot
        · have hk := hfails.lt
          omega
        · exact htaken hfree
        · exact hnot hfits
    · -- the new journal is in place, but the object is still the old one
      refine Or.inr ⟨?_, ?_⟩
      · intro hdescribes
        obtain ⟨t', hbytes', ht', -⟩ := hdescribes.coherent.journal
        obtain ⟨clock', hclock'⟩ := h.state
        have hsame : (Except.ok L : Except Error (List Json)) = .ok blocks := by
          rw [← ht'.decode_eq, ← htext.decode_eq, ← World.recorded_utf8 ht'.complete hbytes',
            ← World.recorded_utf8 htext.complete hafter]
        rw [Except.ok.inj hsame] at hclock'
        rw [replayBlocks_unique hclock' hreplay] at hlt
        exact lt_irrefl _ hlt
      · rcases hreason with ⟨rest', hplan, hfails⟩ | hnone
        · rcases rest' with - | ⟨k'', f⟩
          · exact absurd rfl hfails.ne_none
          · rw [Plan.delay_some, Option.some.injEq, Prod.mk.injEq] at hplan
            have hk := hfails.lt
            exact ⟨by omega, by omega, hfits, hfree⟩
        · rw [hchain.chainFd] at hnone
          cases hnone

/-- **A replacement is atomic** exactly if no call after the renaming fails. -/
theorem atomic_iff (h : s.Describes c options config L)
    (haccept : s.chain.considerChain c clock (.ok ()) candidate = .ok (next, result))
    (hadopted : result.adopted = true) (pid : ℕ) (suffix : Str) (k x : ℕ) :
    s.Atomic c options config L (next.state.stored.map Subtype.val)
        (s.chain.considerStored c pid suffix clock candidate s.world (some (k, .fail x))) ↔
      ¬ SplitAt c (config.digest c) s.world (.temporary pid suffix)
        (next.state.stored.map Subtype.val) k := by
  have hends := h.consider_ends haccept hadopted pid suffix k x
  cases hrun : s.chain.considerStored c pid suffix clock candidate s.world
      (some (k, .fail x)) with
  | returned r w rest =>
      obtain ⟨hdescribes, hnot⟩ := hends.returned hrun
      exact iff_of_true hdescribes hnot
  | thrown e w rest =>
      rcases hends.thrown hrun with ⟨hdescribes, hnot⟩ | ⟨hnot, hsplit⟩
      · exact iff_of_true hdescribes hnot
      · exact iff_of_false hnot fun hnot' => hnot' hsplit
  | crashed w => exact (hends.crashed hrun).elim

end StoredChain.Describes

/-- **Atomic replacement.**  While everything describes the old chain a candidate is adopted, and
one call inside `replace` fails.  Everything describes the old chain afterwards if the call throws,
and the new one if it returns, exactly if the failing call does not come after the renaming.  In
that case whatever is appended later is found by the next process, after the blocks of the old or
of the new chain. -/
theorem replacing {old : List Json} {clock : ℕ → ℕ} {candidate : Json} {next : MedacChain}
    {result : ConsiderResult} (h : s.Describes c options config old)
    (haccept : s.chain.considerChain c clock (.ok ()) candidate = .ok (next, result))
    (hadopted : result.adopted = true) (pid : ℕ) (suffix : Str) (k x : ℕ) :
    (s.Atomic c options config old (next.state.stored.map Subtype.val)
        (s.chain.considerStored c pid suffix clock candidate s.world (some (k, .fail x))) ↔
      ¬ SplitAt c (config.digest c) s.world (.temporary pid suffix)
        (next.state.stored.map Subtype.val) k) ∧
    (¬ SplitAt c (config.digest c) s.world (.temporary pid suffix)
        (next.state.stored.map Subtype.val) k →
      (∀ r w rest appended w',
        s.chain.considerStored c pid suffix clock candidate s.world (some (k, .fail x)) =
            .returned r w rest → AppendRun c (config.digest c) w appended w' →
          Reopens c (config.digest c) w'.disk (next.state.stored.map Subtype.val ++ appended)) ∧
      ∀ e w rest appended w',
        s.chain.considerStored c pid suffix clock candidate s.world (some (k, .fail x)) =
            .thrown e w rest → AppendRun c (config.digest c) w appended w' →
          Reopens c (config.digest c) w'.disk (old ++ appended)) := by
  have hiff := h.atomic_iff haccept hadopted pid suffix k x
  refine ⟨hiff, fun hnot => ?_⟩
  have hatomic := hiff.2 hnot
  constructor
  · rintro ⟨next', result'⟩ w rest appended w' hrun happend
    rw [hrun] at hatomic
    exact (hatomic.coherent.appendRun happend).reopens
  · intro e w rest appended w' hrun happend
    rw [hrun] at hatomic
    exact (hatomic.coherent.appendRun happend).reopens

/-! ### A replacement that is split -/

def sampleWorld : World :=
  ((((Machine.boot Disk.empty
      { lockFd := some 0, chainFd := some 1,
        genesisHash := some (sampleConsensus.digest sampleCrypto).val, blocks := [],
        fd := none }).create .lock).create .chain).put 1
    (utf8 (encodeRecord sampleCrypto (headerRecord (sampleConsensus.digest sampleCrypto).val))))

def sampleStore : StoredChain := ⟨sampleObject, sampleWorld⟩

theorem sampleStore_describes :
    sampleStore.Describes sampleCrypto sampleConsensus.toOptions sampleConsensus [] where
  chain := ⟨rfl, parseConsensusConfig_toOptions _, .genesis⟩
  coherent :=
    { lockFd := Option.some_ne_none 0
      genesisHash := rfl
      onChain := ⟨1, rfl, 1, by simp [sampleStore, sampleWorld], by simp [sampleStore, sampleWorld]⟩
      journal := by
        refine ⟨_, chainBytes_eq_some.2 ⟨1, ?_, ?_⟩, journalText_header _ _,
          byteLength_header_le _ (sampleConsensus.digest sampleCrypto).property⟩
        · simp [sampleStore, sampleWorld]
        · simp [sampleStore, sampleWorld]
      blocks := rfl }
  state := ⟨fun _ => 0, bind_eq_ok.2
    ⟨_, createGenesisState_eq_ok.2 ⟨_, parseConsensusConfig_toOptions _, rfl⟩, rfl⟩⟩

def sampleCandidate : Json := .arr [(sampleBlock sampleGenesis 1000 []).toJson]

def sampleNext : MedacChain := { sampleObject with state := sampleFirst }

def sampleResult : ConsiderResult where
  adopted := true
  state := sampleFirst
  previousTip := some sampleGenesis.tipHash
  candidateWork := sampleFirst.cumulativeWork

theorem sampleStore_considers :
    sampleStore.chain.considerChain sampleCrypto (fun _ => 1000) (.ok ()) sampleCandidate =
      .ok (sampleNext, sampleResult) := by
  have hgenesis := genesisState_valid (c := sampleCrypto) sampleConsensus
  have hfirst : applyMinedBlock sampleCrypto 1000 sampleGenesis
      (sampleBlock sampleGenesis 1000 []).toJson = .ok sampleFirst :=
    applyMinedBlock_eq_ok.2
      ⟨hgenesis, _, _, _, sampleFirst_accepts.readFrom_toJson, sampleFirst_accepts, rfl⟩
  have hreplay : replayBlocks sampleCrypto sampleConsensus.toOptions (fun _ => 1000)
      [(sampleBlock sampleGenesis 1000 []).toJson] = .ok sampleFirst :=
    bind_eq_ok.2 ⟨sampleGenesis,
      createGenesisState_eq_ok.2 ⟨_, parseConsensusConfig_toOptions _, rfl⟩,
      foldlM_cons_eq_ok.2 ⟨sampleFirst, hfirst, rfl⟩⟩
  exact MedacChain.considerChain_eq_ok.2 ⟨_, sampleFirst, rfl, by decide, hreplay,
    Or.inr ⟨cumulativeWork_lt hfirst, rfl, rfl, rfl⟩⟩

theorem replacing_sampleStore :
    sampleStore.Atomic sampleCrypto sampleConsensus.toOptions sampleConsensus []
      (sampleNext.state.stored.map Subtype.val)
      (sampleStore.chain.considerStored sampleCrypto 1 [] (fun _ => 1000) sampleCandidate
        sampleStore.world (some (0, .fail 0))) := by
  rw [(replacing sampleStore_describes sampleStore_considers rfl 1 [] 0 0).1]
  intro hsplit
  exact Nat.not_succ_le_zero _ hsplit.1

/-- When the directory cannot be opened for syncing, which is the eighth call of `replace`, the
journal and the object describe different chains. -/
theorem replacing_split :
    ¬ sampleStore.Atomic sampleCrypto sampleConsensus.toOptions sampleConsensus []
      (sampleNext.state.stored.map Subtype.val)
      (sampleStore.chain.considerStored sampleCrypto 1 [] (fun _ => 1000) sampleCandidate
        sampleStore.world (some (7, .fail 0))) := by
  rw [sampleStore_describes.atomic_iff sampleStore_considers rfl 1 [] 7 0, not_not]
  have hstored : sampleNext.state.stored.map Subtype.val =
      [(sampleBlock sampleGenesis 1000 []).toJson] := rfl
  refine ⟨?_, ?_, fun _ => ?_, by simp [sampleStore, sampleWorld]⟩
  · rw [hstored]
    decide
  · rw [hstored]
    decide
  · rw [hstored]
    decide +kernel

end Medac
