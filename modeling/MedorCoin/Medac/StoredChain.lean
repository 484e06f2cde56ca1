/-
**A chain object with its store.**

`MedacChain` of `medac_chain.cjs` with a data directory hands every change of the chain to its
`MedacStore` before it makes the change itself.  Its methods are programs of the store; one that
throws leaves the object as it was.

Main definitions:

* `Medac.MedacChain.openStored`, `Medac.MedacChain.appendStored`,
  `Medac.MedacChain.considerStored`, `Medac.MedacChain.closeStored` — the methods;
* `Medac.StoredChain`, `Medac.StoredChain.afterAll` — the object with its machine, and sequences of
  calls in which nothing goes wrong.

Main results:

* `Medac.StoredChain.Sound.after` — what holds between the calls;
* `Medac.reopening` — **when a store, and a chain, can be opened again**.
-/

import MedorCoin.Medac.Chain
import MedorCoin.Medac.StoreReopen
import MedorCoin.Medac.TipHash

set_option autoImplicit false

namespace Medac

open Js Crash Crash.Prog

/-! ### The methods -/

/-- A block as it is handed to the store. -/
def Block.stored (b : Block) : StoredBlock := ⟨b.toJson, b.plain_toJson, rfl⟩

/-- The blocks of a chain as they are handed to the store. -/
def State.stored (s : State) : List StoredBlock := s.blocks.map Block.stored

namespace MedacChain

/-- **`open`**, with a store. -/
def openStored (c : Crypto) (pid : ℕ) (clock : ℕ → ℕ) (chain : MedacChain) :
    StoreProg MedacChain :=
  if chain.opened then pure chain
  else
    Prog.attempt
      (do
        let blocks ← MedacStore.open c pid chain.state.genesisHash
        Fs.ofExcept (chain.open c clock (some (.ok blocks))))
      fun e => do
        MedacStore.close
        Prog.raise e

/-- **`appendBlock`**, with a store. -/
def appendStored (c : Crypto) (now : ℕ) (chain : MedacChain) (block : Json) :
    StoreProg MedacChain := do
  let next ← Fs.ofExcept (chain.appendBlock c now (.ok ()) block)
  MedacStore.append c next.state.genesisHash ((next.state.lastBlock?.map Block.toJson).getD .null)
  return next

/-- **`considerChain`**, with a store. -/
def considerStored (c : Crypto) (pid : ℕ) (suffix : Str) (clock : ℕ → ℕ) (chain : MedacChain)
    (blocks : Json) : StoreProg (MedacChain × ConsiderResult) := do
  let (next, result) ← Fs.ofExcept (chain.considerChain c clock (.ok ()) blocks)
  if result.adopted then
    MedacStore.replace c pid suffix next.state.genesisHash (next.state.stored.map Subtype.val)
    return (next, result)
  else return (next, result)

/-- **`close`**, with a store. -/
def closeStored (chain : MedacChain) : StoreProg MedacChain := do
  MedacStore.close
  return { chain with opened := false }

end MedacChain

/-! ### Sequences of calls -/

/-- A chain object with the machine of its store. -/
structure StoredChain where
  chain : MedacChain
  world : World

/-- A call of a method, with what is random in it. -/
inductive StoredCall
  | «open» (clock : ℕ → ℕ)
  | append (now : ℕ) (block : Json)
  | consider (suffix : Str) (clock : ℕ → ℕ) (blocks : Json)
  | close

/-- The program of a call. -/
def StoredCall.run (c : Crypto) (pid : ℕ) (chain : MedacChain) :
    StoredCall → StoreProg MedacChain
  | .open clock => chain.openStored c pid clock
  | .append now block => chain.appendStored c now block
  | .consider suffix clock blocks => do
      let (next, _) ← chain.considerStored c pid suffix clock blocks
      return next
  | .close => chain.closeStored

theorem StoredCall.noCrash_run (c : Crypto) (pid : ℕ) (chain : MedacChain) (call : StoredCall) :
    NoCrash (call.run c pid chain) := by
  cases call with
  | «open» clock =>
      change NoCrash (chain.openStored c pid clock)
      rw [MedacChain.openStored]
      by_cases hopened : chain.opened = true
      · rw [if_pos hopened]
        exact .pure _
      · rw [if_neg hopened]
        exact .attempt (.bind (MedacStore.noCrash_open _ _ _) fun _ => .ofExcept _) fun _ =>
          .bind MedacStore.noCrash_close fun _ => .raise _
  | append now block =>
      exact .bind (.ofExcept _) fun _ => .bind (MedacStore.noCrash_append _ _ _) fun _ => .pure _
  | consider suffix clock blocks =>
      refine .bind (.bind (.ofExcept _) ?_) fun _ => .pure _
      rintro ⟨next, result⟩
      by_cases hadopted : result.adopted = true
      · simp only [if_pos hadopted]
        exact .bind (MedacStore.noCrash_replace _ _ _ _ _) fun _ => .pure _
      · simp only [if_neg hadopted]
        exact .pure _
  | close => exact .bind MedacStore.noCrash_close fun _ => .pure _

/-- The object at the end of a call: one that throws leaves it as it was. -/
def StoredChain.ended (chain : MedacChain) :
    Outcome World (Exception Error) MedacChain → StoredChain
  | .returned next w _ => ⟨next, w⟩
  | .thrown _ w _ => ⟨chain, w⟩
  | .crashed w => ⟨chain, w⟩

namespace StoredChain

/-- The object after a call in which nothing goes wrong. -/
def after (c : Crypto) (pid : ℕ) (s : StoredChain) (call : StoredCall) : StoredChain :=
  ended s.chain (call.run c pid s.chain s.world none)

/-- The object after a sequence of calls. -/
def afterAll (c : Crypto) (pid : ℕ) (s : StoredChain) (calls : List StoredCall) : StoredChain :=
  calls.foldl (StoredChain.after c pid) s

end StoredChain

/-! ### What holds between the calls -/

variable {c : Crypto} {pid : ℕ} {options : ConsensusOptions} {config : Consensus}
  {s : StoredChain}

/-- The genesis hash of a network. -/
def Consensus.digest (c : Crypto) (config : Consensus) : Digest :=
  ⟨genesisHash c config, isLowerHex_genesisHash config⟩

theorem length_applyBlocks {s s' : State} {inputs : List (ℕ × Json)}
    (h : applyBlocks c s inputs = .ok s') :
    s'.blocks.length = s.blocks.length + inputs.length := by
  induction inputs generalizing s with
  | nil =>
      obtain rfl := foldlM_nil_eq_ok.1 h
      simp
  | cons input inputs ih =>
      obtain ⟨s₁, hfirst, hrest⟩ := foldlM_cons_eq_ok.1 h
      obtain ⟨-, b, reward, l, -, -, rfl⟩ := applyMinedBlock_eq_ok.1 hfirst
      rw [ih hrest, State.next]
      simp only [List.length_append, List.length_cons, List.length_nil]
      omega

theorem length_replayBlocks {s : State} {clock : ℕ → ℕ} {blocks : List Json}
    (h : replayBlocks c options clock blocks = .ok s) : s.blocks.length = blocks.length := by
  obtain ⟨genesis, hgenesis, hblocks⟩ := bind_eq_ok.1 h
  obtain ⟨config, -, rfl⟩ := createGenesisState_eq_ok.1 hgenesis
  rw [length_applyBlocks hblocks, timed, List.length_mapIdx, genesisState]
  simp

theorem Reachable.genesisHash_digest {s : State} (h : Reachable c config s) :
    s.genesisHash = (config.digest c).val := h.genesisHash_eq

theorem Reachable.eq_genesisState {s : State} (h : Reachable c config s) (hnil : s.blocks = []) :
    s = genesisState c config := by
  rcases h.cases_next with hgenesis | ⟨s₀, now, b, reward, l, -, -, rfl⟩
  · exact hgenesis
  · simp [State.next] at hnil

namespace MedacChain

theorem open_some_eq_ok {clock : ℕ → ℕ} {chain next : MedacChain} {blocks : List Json}
    (hclosed : chain.opened = false) :
    chain.open c clock (some (.ok blocks)) = .ok next ↔ blocks.length ≤ maxChainBlocks ∧
      ∃ state, replayBlocks c chain.consensusOptions clock blocks = .ok state ∧
        next = { chain with state, opened := true } := by
  rw [MedacChain.open.eq_def, hclosed, if_neg Bool.false_ne_true]
  simp only [ok_bind]
  rw [bind_require_eq_ok, decide_eq_true_iff, bind_eq_ok]
  refine and_congr_right fun _ => exists_congr fun state => and_congr_right fun _ => ?_
  rw [pure_eq_ok, Except.ok.injEq, eq_comm]

end MedacChain

/-- An open object appends to the journal of its network, and has as many blocks as its chain. -/
structure StoredChain.Live (c : Crypto) (g : Digest) (s : StoredChain) : Prop where
  genesisHash : s.world.vars.genesisHash = some g.val
  chainFd : s.world.vars.chainFd ≠ none
  length_eq : s.world.vars.blocks.length = s.chain.state.blocks.length
  recorded : s.world.vars.blocks = [] → s.world.recorded c g.val = .ok []

/-- **What holds between the calls.** -/
structure StoredChain.Sound (c : Crypto) (options : ConsensusOptions) (config : Consensus)
    (s : StoredChain) : Prop where
  chain : s.chain.Sound c options config
  steady : s.world.Steady c
  empty : s.world.recorded c (config.digest c).val = .ok [] → s.world.vars.blocks = []
  live : s.chain.opened = true → s.Live c (config.digest c)
  closed : s.chain.opened = false → s.world.vars.lockFd = none ∧ s.world.vars.chainFd = none

namespace StoredChain

theorem Sound.create {d : Disk StorePath} {chain : MedacChain}
    (hcreate : MedacChain.create c options = .ok chain)
    (hd : Usable (MedacStore.chainBytes d)) :
    ∃ config, Sound c options config ⟨chain, Machine.boot d MedacStore.create⟩ := by
  obtain ⟨genesis, hgenesis, hchain⟩ := bind_eq_ok.1 hcreate
  rw [pure_eq_ok, Except.ok.injEq] at hchain
  subst hchain
  obtain ⟨config, hconfig, rfl⟩ := createGenesisState_eq_ok.1 hgenesis
  exact ⟨config,
    { chain := ⟨rfl, hconfig, .genesis⟩
      steady := .boot hd
      empty := fun _ => rfl
      live := fun h => by cases h
      closed := fun _ => ⟨rfl, rfl⟩ }⟩

namespace Sound

theorem open_ends (h : s.Sound c options config) (clock : ℕ → ℕ) :
    Ends (s.chain.openStored c pid clock) s.world none
      (fun next w _ => Sound c options config ⟨next, w⟩)
      (fun _ w _ => Sound c options config ⟨s.chain, w⟩) fun _ => True := by
  rw [MedacChain.openStored]
  cases hopened : s.chain.opened with
  | true => exact Ends.pure h
  | false =>
      rw [if_neg Bool.false_ne_true, h.chain.reachable.genesisHash_digest]
      have hclose : ∀ {w : World} {e : Exception Error} {plan : Plan}, plan = none →
          World.Steady c w →
          (World.recorded c (config.digest c).val w = .ok [] → w.vars.blocks = []) →
          Ends (do
            MedacStore.close
            Prog.raise e) w plan (fun next w _ => Sound c options config ⟨next, w⟩)
            (fun _ w _ => Sound c options config ⟨s.chain, w⟩) fun _ => True := by
        rintro w e plan rfl hsteady hempty
        refine Ends.bind (hsteady.close_ends.mono ?_ (fun _ _ _ h => h.elim) fun _ _ => trivial)
        rintro _ w' rest ⟨hsteady', hvars, hbytes, -⟩
        refine Ends.raise ⟨h.chain, hsteady', ?_, ?_, ?_⟩
        · intro hrecorded
          rw [World.recorded_congr hbytes] at hrecorded
          rw [hvars]
          exact hempty hrecorded
        · intro htrue
          rw [hopened] at htrue
          cases htrue
        · intro _
          rw [hvars]
          exact ⟨rfl, rfl⟩
      refine Ends.attempt (Ends.bind
        (((MedacStore.noCrash_open c pid _).ends Plan.mild_none
          (h.steady.open_ends (config.digest c))).mono ?_ ?_
          fun _ _ => trivial))
      · rintro blocks w rest ⟨⟨hsteady, ⟨L, hL, hL', rfl⟩, k, fd, hopened'⟩, hrest⟩
        obtain rfl := hrest.eq_none
        have hempty : World.recorded c (config.digest c).val w = .ok [] →
            s.world.vars.blocks ++ L = [] := by
          intro hrecorded
          obtain rfl : L = [] := Except.ok.inj (hL'.symm.trans hrecorded)
          rw [h.empty hL]
          rfl
        refine Ends.ofExcept ?_ ?_
        · intro next hnext
          obtain ⟨-, state, hstate, rfl⟩ := (MedacChain.open_some_eq_ok hopened).1 hnext
          obtain ⟨config', hconfig', hreach⟩ := reachable_of_replayBlocks hstate
          rw [h.chain.options_eq, h.chain.parsed, Except.ok.injEq] at hconfig'
          subst hconfig'
          refine ⟨⟨h.chain.options_eq, h.chain.parsed, hreach⟩, hsteady, ?_, ?_, ?_⟩
          · intro hrecorded
            rw [hopened'.blocks_eq]
            exact hempty hrecorded
          · intro _
            refine ⟨hopened'.genesisHash, ?_, ?_, ?_⟩
            · rw [hopened'.onChain.chainFd]
              exact Option.some_ne_none fd
            · rw [hopened'.blocks_eq, length_replayBlocks hstate]
            · intro hnil
              rw [hopened'.blocks_eq, List.append_eq_nil_iff] at hnil
              rw [hL', hnil.2]
          · intro hfalse
            cases hfalse
        · intro e _
          refine hclose rfl hsteady ?_
          rw [hopened'.blocks_eq]
          exact hempty
      · rintro e w rest ⟨⟨hsteady, hsame, htaken⟩, hrest⟩
        obtain rfl := hrest.eq_none
        refine hclose rfl hsteady ?_
        intro hrecorded
        rw [hsame] at hrecorded
        obtain ⟨rfl, -⟩ := htaken _ hrecorded
        exact h.empty hrecorded

theorem unchanged (h : s.Sound c options config) {w : World} (hsteady : World.Steady c w)
    (hvars : ∃ fd, w.vars = { s.world.vars with fd })
    (hbytes : MedacStore.chainBytes w.disk = MedacStore.chainBytes s.world.disk) :
    Sound c options config ⟨s.chain, w⟩ := by
  obtain ⟨fd, hvars⟩ := hvars
  have hrecorded : ∀ g, World.recorded c g w = s.world.recorded c g := fun _ =>
    World.recorded_congr hbytes
  refine ⟨h.chain, hsteady, ?_, ?_, ?_⟩
  · intro hnil
    rw [hrecorded] at hnil
    rw [hvars]
    exact h.empty hnil
  · intro hopened
    have hlive := h.live hopened
    refine ⟨by rw [hvars]; exact hlive.genesisHash, by rw [hvars]; exact hlive.chainFd,
      by rw [hvars]; exact hlive.length_eq, ?_⟩
    intro hnil
    rw [hvars] at hnil
    rw [hrecorded]
    exact hlive.recorded hnil
  · intro hclosed
    rw [hvars]
    exact h.closed hclosed

theorem append_ends (h : s.Sound c options config) (now : ℕ) (block : Json) :
    Ends (s.chain.appendStored c now block) s.world none
      (fun next w _ => Sound c options config ⟨next, w⟩)
      (fun _ w _ => Sound c options config ⟨s.chain, w⟩) fun _ => True := by
  refine Ends.bind (Ends.ofExcept ?_ fun _ _ => h)
  intro next hnext
  obtain ⟨nextState, hnextState, -, rfl⟩ := MedacChain.appendBlock_eq_ok.1 hnext
  have hreach : Reachable c config nextState := .block h.chain.reachable hnextState
  obtain ⟨hvalid, b, reward, l, -, haccepts, hstate⟩ := applyMinedBlock_eq_ok.1 hnextState
  have hlast : (nextState.lastBlock?.map Block.toJson).getD .null = b.stored.val := by
    rw [hstate, haccepts.lastBlock_next hvalid]
    rfl
  change Ends (MedacStore.append c nextState.genesisHash
    ((nextState.lastBlock?.map Block.toJson).getD .null) >>= fun _ => _) _ _ _ _ _
  rw [hlast, hreach.genesisHash_digest]
  refine Ends.bind ((h.steady.append_ends (config.digest c) b.stored).mono ?_ ?_
    fun _ _ => trivial)
  · rintro _ w rest ⟨hsteady, hvars, L, -, hrecorded⟩
    refine Ends.pure ⟨⟨h.chain.options_eq, h.chain.parsed, hreach⟩, hsteady, ?_, ?_, ?_⟩
    · intro hnil
      rw [hrecorded, Except.ok.injEq] at hnil
      simp at hnil
    · intro hopened
      have hlive := h.live hopened
      refine ⟨by rw [hvars]; exact hlive.genesisHash, by rw [hvars]; exact hlive.chainFd, ?_, ?_⟩
      · rw [hvars, hstate, State.next]
        simp only [List.length_append, List.length_singleton, hlive.length_eq]
      · intro hnil
        rw [hvars] at hnil
        simp at hnil
    · intro hclosed
      rw [hvars]
      exact h.closed hclosed
  · rintro e w rest ⟨hsteady, hvars, hbytes⟩
    exact h.unchanged hsteady ⟨w.vars.fd, by rw [hvars]⟩ hbytes

theorem consider_ends (h : s.Sound c options config) (suffix : Str) (clock : ℕ → ℕ)
    (blocks : Json) :
    Ends (s.chain.considerStored c pid suffix clock blocks) s.world none
      (fun next w _ => Sound c options config ⟨next.1, w⟩)
      (fun _ w _ => Sound c options config ⟨s.chain, w⟩) fun _ => True := by
  refine Ends.bind (Ends.ofExcept ?_ fun _ _ => h)
  rintro ⟨next, result⟩ hnext
  obtain ⟨items, candidate, -, -, hreplay, hcases⟩ := MedacChain.considerChain_eq_ok.1 hnext
  obtain ⟨config', hconfig', hreach⟩ := reachable_of_replayBlocks hreplay
  rw [h.chain.options_eq, h.chain.parsed, Except.ok.injEq] at hconfig'
  subst hconfig'
  rcases hcases with ⟨-, rfl, rfl⟩ | ⟨-, -, rfl, rfl⟩
  · exact Ends.pure h
  · change Ends (MedacStore.replace c pid suffix candidate.genesisHash
      (candidate.stored.map Subtype.val) >>= fun _ => _) _ _ _ _ _
    rw [hreach.genesisHash_digest]
    refine Ends.bind ((h.steady.replace_ends suffix (config.digest c) candidate.stored).mono ?_ ?_
      fun _ _ => trivial)
    · rintro _ w rest ⟨hsteady, ⟨fd, chainFd, hvars⟩, hrecorded, hsome⟩
      refine Ends.pure ⟨⟨h.chain.options_eq, h.chain.parsed, hreach⟩, hsteady, ?_, ?_, ?_⟩
      · intro hnil
        rw [hrecorded, Except.ok.injEq] at hnil
        rw [hvars]
        exact hnil
      · intro hopened
        have hlive := h.live hopened
        refine ⟨by rw [hvars]; exact hlive.genesisHash, by rw [hvars]; exact Option.some_ne_none _,
          ?_, ?_⟩
        · rw [hvars]
          simp [State.stored]
        · intro hnil
          rw [hvars] at hnil
          rw [hrecorded]
          exact congrArg _ hnil
      · intro hclosed
        -- a closed store replaces nothing
        exact absurd (h.closed hclosed).2 hsome
    · rintro e w rest ⟨hsteady, hvars, hbytes⟩
      refine h.unchanged hsteady hvars (hbytes ?_)
      cases hopened : s.chain.opened with
      | true => exact Or.inl (h.live hopened).chainFd
      | false => exact Or.inr (h.closed hopened).1

theorem close_ends (h : s.Sound c options config) :
    Ends s.chain.closeStored s.world none
      (fun next w _ => Sound c options config ⟨next, w⟩)
      (fun _ w _ => Sound c options config ⟨s.chain, w⟩) fun _ => True := by
  refine Ends.bind (h.steady.close_ends.mono ?_ (fun _ _ _ h => h.elim) fun _ _ => trivial)
  rintro _ w rest ⟨hsteady, hvars, hbytes, -⟩
  refine Ends.pure ⟨⟨h.chain.options_eq, h.chain.parsed, h.chain.reachable⟩, hsteady, ?_, ?_, ?_⟩
  · intro hrecorded
    rw [World.recorded_congr hbytes] at hrecorded
    rw [hvars]
    exact h.empty hrecorded
  · intro htrue
    cases htrue
  · intro _
    rw [hvars]
    exact ⟨rfl, rfl⟩

/-- **Every call keeps it.** -/
theorem after (h : s.Sound c options config) (pid : ℕ) (call : StoredCall) :
    (s.after c pid call).Sound c options config := by
  have hends : Ends (call.run c pid s.chain) s.world none
      (fun next w _ => Sound c options config ⟨next, w⟩)
      (fun _ w _ => Sound c options config ⟨s.chain, w⟩) fun _ => True := by
    cases call with
    | «open» clock => exact h.open_ends clock
    | append now block => exact h.append_ends now block
    | consider suffix clock blocks =>
        exact Ends.bind ((h.consider_ends suffix clock blocks).mono (fun _ _ _ h' => Ends.pure h')
          (fun _ _ _ h' => h') fun _ h' => h')
    | close => exact h.close_ends
  have hrun := (call.noCrash_run c pid s.chain).ends Plan.mild_none hends
  rw [StoredChain.after]
  cases hcall : call.run c pid s.chain s.world none with
  | returned next w rest => exact (hrun.returned hcall).1
  | thrown e w rest => exact (hrun.thrown hcall).1
  | crashed w => exact (hrun.crashed hcall).elim

theorem afterAll (h : s.Sound c options config) (calls : List StoredCall) :
    (s.afterAll c pid calls).Sound c options config := by
  induction calls generalizing s with
  | nil => exact h
  | cons call calls ih => exact ih (h.after pid call)

end Sound

theorem openStored_ends (clock : ℕ → ℕ) (chain : MedacChain) {w w' : World} {blocks : List Json}
    (hclosed : chain.opened = false)
    (hrun : MedacStore.open c pid chain.state.genesisHash w none = .returned blocks w' none) :
    Ends (chain.openStored c pid clock) w none
      (fun next _ _ => chain.open c clock (some (.ok blocks)) = .ok next)
      (fun _ _ _ => ∃ e, chain.open c clock (some (.ok blocks)) = .error e)
      fun _ => ∃ e, chain.open c clock (some (.ok blocks)) = .error e := by
  rw [MedacChain.openStored, hclosed, if_neg Bool.false_ne_true]
  refine Ends.attempt (Ends.bind (Ends.of_returned hrun (Ends.ofExcept (fun _ h => h) ?_)))
  intro e he
  have hthrown : ∃ e, chain.open c clock (some (.ok blocks)) = .error e := ⟨e, he⟩
  exact Ends.bind ((Ends.const hthrown).mono (fun _ _ _ h => Ends.raise h) (fun _ _ _ h => h)
    fun _ h => h)

namespace Sound

/-- **Opening again.**  A chain that was open and is closed is opened again, in the state in which
it was, exactly if it has no blocks. -/
theorem reopen_iff (h : s.Sound c options config) (hopened : s.chain.opened = true)
    (clock : ℕ → ℕ) :
    (((s.after c pid .close).after c pid (.open clock)).chain.opened = true ∧
      ((s.after c pid .close).after c pid (.open clock)).chain.state = s.chain.state) ↔
        s.chain.state.blocks = [] := by
  have hlive := h.live hopened
  obtain ⟨fd, hfd⟩ := Option.ne_none_iff_exists'.1 hlive.chainFd
  obtain ⟨-, ⟨k, hlocked, -⟩, g, t, hg, hbytes, L, ht⟩ := h.steady.chain fd hfd
  obtain rfl : g = (config.digest c).val := Option.some.inj (hg.symm.trans hlive.genesisHash)
  have hL : s.world.recorded c (config.digest c).val = .ok L := by
    rw [World.recorded_utf8 ht.complete hbytes, ht.decode_eq]
  -- closing
  obtain ⟨w₁, hclose, hvars₁, hrecorded₁, hfree₁⟩ := h.steady.close_returns
  have hafter : s.after c pid .close = ⟨{ s.chain with opened := false }, w₁⟩ := by
    rw [StoredChain.after]
    change ended s.chain ((MedacStore.close >>= fun _ => _) s.world none) = _
    rw [Prog.bind_of_returned hclose]
    rfl
  have hsteady₁ : World.Steady c w₁ := by
    have hsound := h.after pid .close
    rw [hafter] at hsound
    exact hsound.steady
  -- opening the store
  obtain ⟨w₂, hopen⟩ := hsteady₁.open_returns pid (config.digest c)
    ((hrecorded₁ _).trans hL) (hfree₁ (by rw [hlocked.lockFd]; exact Option.some_ne_none k))
  rw [hvars₁, ← h.chain.reachable.genesisHash_digest] at hopen
  have hends := openStored_ends clock { s.chain with opened := false } rfl hopen
  -- what is read leads to the state exactly if there is nothing to read
  have hback : s.chain.state.blocks = [] →
      MedacChain.open c clock { s.chain with opened := false }
        (some (.ok (s.world.vars.blocks ++ L))) = .ok { s.chain with opened := true } := by
    intro hnil
    have hlen := hlive.length_eq
    rw [hnil, List.length_nil, List.length_eq_zero_iff] at hlen
    obtain rfl : L = [] := Except.ok.inj (hL.symm.trans (hlive.recorded hlen))
    rw [hlen]
    refine (MedacChain.open_some_eq_ok rfl).2 ⟨Nat.zero_le _, s.chain.state, ?_, rfl⟩
    rw [h.chain.reachable.eq_genesisState hnil, h.chain.options_eq]
    exact bind_eq_ok.2 ⟨_, createGenesisState_eq_ok.2 ⟨config, h.chain.parsed, rfl⟩, rfl⟩
  have hfailed : (∃ e, MedacChain.open c clock { s.chain with opened := false }
      (some (.ok (s.world.vars.blocks ++ L))) = .error e) → s.chain.state.blocks ≠ [] := by
    rintro ⟨e, he⟩ hnil
    rw [hback hnil] at he
    cases he
  have hagain : (s.after c pid .close).after c pid (.open clock) =
      ended { s.chain with opened := false }
        (MedacChain.openStored c pid clock { s.chain with opened := false } w₁ none) := by
    rw [hafter]
    rfl
  rw [hagain]
  cases hcall : MedacChain.openStored c pid clock { s.chain with opened := false } w₁ none with
  | returned next w rest =>
      have hnext := hends.returned hcall
      obtain ⟨-, state, hstate, rfl⟩ := (MedacChain.open_some_eq_ok rfl).1 hnext
      constructor
      · rintro ⟨-, hsame⟩
        have hsame' : state = s.chain.state := hsame
        have hlen := length_replayBlocks hstate
        rw [hsame', List.length_append, hlive.length_eq, Nat.left_eq_add,
          List.length_eq_zero_iff] at hlen
        subst hlen
        rw [← List.length_eq_zero_iff, ← hlive.length_eq, h.empty hL]
        rfl
      · intro hnil
        have heq := hback hnil
        rw [hnext, Except.ok.injEq] at heq
        rw [ended, heq]
        exact ⟨rfl, rfl⟩
  | thrown e w rest =>
      refine ⟨?_, fun hnil => absurd hnil (hfailed (hends.thrown hcall))⟩
      rintro ⟨htrue, -⟩
      cases htrue
  | crashed w =>
      refine ⟨?_, fun hnil => absurd hnil (hfailed (hends.crashed hcall))⟩
      rintro ⟨htrue, -⟩
      cases htrue

end Sound

end StoredChain

/-! ### Opening again -/

/-- **When a store, and a chain, can be opened again.**  Whatever calls have been made on a store,
its books are kept: what was appended, or put in the place of the chain, is what is recorded, and
`open` returns what is recorded exactly if the object has no blocks at that time.  And whatever
calls have been made on a chain object with a store, an open chain that is closed and opened again
is open in the state in which it was exactly if it has no blocks. -/
theorem reopening (c : Crypto) (pid : ℕ) {d : Disk StorePath}
    (hd : Usable (MedacStore.chainBytes d)) :
    (∀ calls : List StoreCall,
      (World.afterAll c pid (Machine.boot d MedacStore.create) calls).Books c pid) ∧
    ∀ (options : ConsensusOptions) (chain : MedacChain) (calls : List StoredCall)
      (s : StoredChain) (clock : ℕ → ℕ), MedacChain.create c options = .ok chain →
      s = StoredChain.afterAll c pid ⟨chain, Machine.boot d MedacStore.create⟩ calls →
      s.chain.opened = true →
      ((((s.after c pid .close).after c pid (.open clock)).chain.opened = true ∧
        ((s.after c pid .close).after c pid (.open clock)).chain.state = s.chain.state) ↔
          s.chain.state.blocks = []) := by
  constructor
  · intro calls
    exact ((World.Steady.boot hd).afterAll calls).books
  · rintro options chain calls s clock hcreate rfl hopened
    obtain ⟨config, hsound⟩ := StoredChain.Sound.create hcreate hd
    exact (hsound.afterAll calls).reopen_iff hopened clock

theorem usable_empty : Usable (MedacStore.chainBytes Disk.empty) := usable_none

def sampleStored : StoredBlock :=
  ⟨.obj [], Json.plain_obj.2 ⟨List.nodup_nil, fun _ h => by cases h⟩, rfl⟩

theorem open_empty (c : Crypto) (pid : ℕ) (g : Digest) : ∃ w,
    MedacStore.open c pid g.val (Machine.boot Disk.empty MedacStore.create) none =
      .returned [] w none ∧ World.Steady c w ∧ World.recorded c g.val w = .ok [] ∧
    (∃ k fd, MedacStore.Opened w g.val [] k fd) ∧
    MedacStore.chainBytes w.disk = some (utf8 (encodeRecord c (headerRecord g.val))) := by
  have hboot : World.Steady c (Machine.boot Disk.empty MedacStore.create) := .boot usable_empty
  have hrecorded : World.recorded c g.val (Machine.boot Disk.empty MedacStore.create) = .ok [] :=
    rfl
  obtain ⟨w, hopen⟩ := hboot.open_returns pid g hrecorded rfl
  obtain ⟨hsteady, ⟨L, hL, hrecorded', -⟩, hopened⟩ := (hboot.open_ends g).returned hopen
  obtain rfl : [] = L := Except.ok.inj (hrecorded.symm.trans hL)
  obtain ⟨t, L, hfinds, -, -, hbytes⟩ :=
    ((MedacStore.open_ends c pid g.val hboot.usable.readable none).returned hopen).journal
  rw [hfinds.unique (Or.inl ⟨rfl, rfl⟩)] at hbytes
  exact ⟨w, hopen, hsteady, hrecorded', hopened, hbytes⟩

theorem openStored_empty {chain : MedacChain} (pid : ℕ)
    (hcreate : MedacChain.create c options = .ok chain) (clock : ℕ → ℕ) :
    (StoredChain.afterAll c pid ⟨chain, Machine.boot Disk.empty MedacStore.create⟩
      [.open clock]).chain = { chain with opened := true } := by
  obtain ⟨genesis, hgenesis, hchain⟩ := bind_eq_ok.1 hcreate
  rw [pure_eq_ok, Except.ok.injEq] at hchain
  subst hchain
  obtain ⟨config, hconfig, rfl⟩ := createGenesisState_eq_ok.1 hgenesis
  obtain ⟨w, hopen, -⟩ := open_empty c pid (config.digest c)
  have hends := StoredChain.openStored_ends clock
    { consensusOptions := options, state := genesisState c config, opened := false } rfl hopen
  have hopened : MedacChain.open c clock
      { consensusOptions := options, state := genesisState c config, opened := false }
      (some (.ok [])) =
        .ok { consensusOptions := options, state := genesisState c config, opened := true } :=
    (MedacChain.open_some_eq_ok rfl).2
      ⟨Nat.zero_le _, _, bind_eq_ok.2 ⟨_, hgenesis, rfl⟩, rfl⟩
  have hfailed : ¬ ∃ e, MedacChain.open c clock
      { consensusOptions := options, state := genesisState c config, opened := false }
      (some (.ok [])) = .error e := by
    rintro ⟨e, he⟩
    rw [hopened] at he
    cases he
  rw [StoredChain.afterAll, List.foldl_cons, List.foldl_nil, StoredChain.after]
  change (StoredChain.ended _ (MedacChain.openStored c pid clock _ _ none)).chain = _
  cases hcall : MedacChain.openStored c pid clock
      { consensusOptions := options, state := genesisState c config, opened := false }
      (Machine.boot Disk.empty MedacStore.create) none with
  | returned next w rest => exact Except.ok.inj ((hends.returned hcall).symm.trans hopened)
  | thrown e w rest => exact absurd (hends.thrown hcall) hfailed
  | crashed w => exact absurd (hends.crashed hcall) hfailed

theorem reopening_sample :
    (((StoredChain.afterAll sampleCrypto 1
      ⟨{ sampleObject with opened := false }, Machine.boot Disk.empty MedacStore.create⟩
      [.open fun _ => 0]).after sampleCrypto 1 .close).after sampleCrypto 1
        (.open fun _ => 0)).chain.opened = true := by
  have hcreate : MedacChain.create sampleCrypto sampleConsensus.toOptions =
      .ok { sampleObject with opened := false } :=
    bind_eq_ok.2 ⟨sampleGenesis,
      createGenesisState_eq_ok.2 ⟨_, parseConsensusConfig_toOptions _, rfl⟩, rfl⟩
  have hobject := openStored_empty 1 hcreate fun _ => 0
  exact (((reopening sampleCrypto 1 usable_empty).2 _ _ _ _ (fun _ => 0) hcreate rfl
    (by rw [hobject])).2 (by rw [hobject]; rfl)).1

theorem open_twice (g : Digest) (b : StoredBlock)
    (hsize : (utf8 (encodeRecord c (headerRecord g.val)) ++
      utf8 (encodeRecord c (blockRecord b.val))).length ≤ maxStoreBytes) : ∃ w w',
    w = World.afterAll c pid (Machine.boot Disk.empty MedacStore.create)
      [.open g, .append g b, .close] ∧
    w.recorded c g.val = .ok [b.val] ∧
    MedacStore.open c pid g.val w none = .returned [b.val, b.val] w' none := by
  obtain ⟨w₁, hopen, hsteady₁, hrecorded₁, ⟨k, fd, hopened⟩, hbytes⟩ :=
    open_empty c pid g
  -- appending
  have hends := MedacStore.append_ends c b.val none hopened.locked.lockFd hopened.genesisHash
    hopened.onChain hbytes
  obtain ⟨w₂, happend⟩ : ∃ w₂, MedacStore.append c g.val b.val w₁ none = .returned () w₂ none := by
    rcases (MedacStore.noCrash_append c g.val b.val).returned_or_thrown w₁ with
      ⟨⟨⟩, w₂, hrun⟩ | ⟨e, w₂, hrun⟩
    · exact ⟨w₂, hrun⟩
    · obtain ⟨-, -, -, hne | hlarge⟩ := hends.thrown hrun
      · exact absurd rfl hne
      · exact absurd hsize (not_le.2 hlarge)
  obtain ⟨hsteady₂, hvars₂, L, hL, hrecorded₂⟩ := (hsteady₁.append_ends g b).returned happend
  obtain rfl : [] = L := Except.ok.inj (hrecorded₁.symm.trans hL)
  -- closing and opening again
  obtain ⟨w₃, hclose, hvars₃, hsame, hfree⟩ := hsteady₂.close_returns
  have hsteady₃ := (hsteady₂.close_ends.returned hclose).1
  have hrecorded₃ := (hsame g.val).trans hrecorded₂
  have hlocked : w₂.vars.lockFd ≠ none := by
    rw [hvars₂, hopened.locked.lockFd]
    exact Option.some_ne_none k
  obtain ⟨w₄, hagain⟩ := hsteady₃.open_returns pid g hrecorded₃ (hfree hlocked)
  refine ⟨w₃, w₄, ?_, hrecorded₃, ?_⟩
  · have hfirst : World.after c pid (Machine.boot Disk.empty MedacStore.create) (.open g) = w₁ := by
      rw [World.after]
      change ((MedacStore.open c pid g.val >>= fun _ => _) _ none).machine = w₁
      rw [Prog.bind_of_returned hopen]
      rfl
    have hsecond : World.after c pid w₁ (.append g b) = w₂ := congrArg _ happend
    have hthird : World.after c pid w₂ .close = w₃ := congrArg _ hclose
    rw [World.afterAll, List.foldl_cons, List.foldl_cons, List.foldl_cons, List.foldl_nil, hfirst,
      hsecond, hthird]
  · rw [hvars₃, hvars₂, hopened.blocks_eq] at hagain
    exact hagain

/-- The small network: its journal records one block, and `open` returns two. -/
theorem reopening_twice : ∃ w w',
    w = World.afterAll sampleCrypto 1 (Machine.boot Disk.empty MedacStore.create)
      [.open (sampleConsensus.digest sampleCrypto),
        .append (sampleConsensus.digest sampleCrypto) sampleStored, .close] ∧
    w.recorded sampleCrypto (sampleConsensus.digest sampleCrypto).val =
      .ok [sampleStored.val] ∧
    MedacStore.open sampleCrypto 1 (sampleConsensus.digest sampleCrypto).val w none =
      .returned [sampleStored.val, sampleStored.val] w' none := by
  refine open_twice _ _ ?_
  decide +kernel

end Medac
