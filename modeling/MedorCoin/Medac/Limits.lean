/-
**The limits on the size of a chain.**

A chain meets two limits: the bytes of a journal, which the store checks when it opens one, appends
to it or replaces it, and the number of blocks, which is checked when a journal is replayed, when a
candidate is considered and when a peer names its height.  Appending a block to a chain without a
store checks neither.

A record has more bytes than its share of a journal of as many blocks as a chain may have.  So a
chain that fits into a journal is accepted everywhere, and a chain with a store always fits.

Main definitions:

* `Medac.versionMessage`, `Medac.acceptsVersion` — the message `version` and its check;
* `Medac.Due` — the clocks at which a chain is not from the future;
* `Medac.Welcome` — a state that is accepted everywhere;
* `Medac.Grown` — what a chain with a store of its own grows to.

Main results:

* `Medac.Reachable.le_length_record` — a record has at least 269 bytes;
* `Medac.Reachable.length_le_of_fits` — a chain that fits has not too many blocks;
* `Medac.Reachable.welcome_iff` — **a state is accepted everywhere exactly if it fits**;
* `Medac.limits_agree` — for what chains grow to.
-/

import MedorCoin.Medac.LongChain
import MedorCoin.Medac.StoreReplace

set_option autoImplicit false

namespace Medac

open Js Crash Crash.Prog MedacStore

/-! ### The message `version` -/

/-- The message `version` of a node. -/
def versionMessage (s : State) : Json :=
  .obj [("type".toList, .str "version".toList), ("networkId".toList, .str networkId),
    ("genesisHash".toList, .str s.genesisHash), ("height".toList, .num s.height),
    ("tipHash".toList, .str s.tipHash), ("cumulativeWork".toList, .str (numeral s.cumulativeWork))]

/-- The check of `_handleMessage` on a message `version`. -/
def acceptsVersion (s : State) (message : Json) : Bool :=
  Json.string? (message.get? "networkId".toList) == some networkId &&
    Json.string? (message.get? "genesisHash".toList) == some s.genesisHash &&
    (Json.safeNat? (message.get? "height".toList)).any (· ≤ maxChainBlocks) &&
    (Json.string? (message.get? "cumulativeWork".toList)).any fun work =>
      work.length ≤ 100 && isNumeral work

variable {c : Crypto} {config : Consensus} {options : ConsensusOptions} {pid : ℕ} {s s' : State}

theorem versionMessage_get (s : State) :
    (versionMessage s).get? "networkId".toList = some (.str networkId) ∧
    (versionMessage s).get? "genesisHash".toList = some (.str s.genesisHash) ∧
    (versionMessage s).get? "height".toList = some (.num s.height) ∧
    (versionMessage s).get? "cumulativeWork".toList = some (.str (numeral s.cumulativeWork)) :=
  ⟨rfl, rfl, rfl, rfl⟩

theorem Reachable.length_cumulativeWork_le (h : Reachable c config s)
    (hlen : s.blocks.length ≤ maxChainBlocks) : (numeral s.cumulativeWork).length ≤ 100 := by
  have hsum : ∀ blocks : List Block,
      (blocks.map fun b => blockWork b.targetValue).sum ≤ blocks.length * 2 ^ 256 := by
    intro blocks
    induction blocks with
    | nil => exact Nat.zero_le _
    | cons b blocks ih =>
        have hwork : blockWork b.targetValue ≤ 2 ^ 256 := by
          rw [blockWork, Nat.one_shiftLeft]
          exact Nat.div_le_self _ _
        rw [List.map_cons, List.sum_cons, List.length_cons, Nat.add_mul]
        omega
  rw [length_numeral_le_iff (by decide), h.cumulativeWork_eq.1]
  have hbound : maxChainBlocks * 2 ^ 256 < 10 ^ 100 := by decide +kernel
  exact lt_of_le_of_lt (le_trans (hsum s.blocks) (Nat.mul_le_mul_right _ hlen)) hbound

/-- **A node accepts the message of another** of its network exactly if this has not too many
blocks. -/
theorem Reachable.acceptsVersion_iff (h : Reachable c config s) (h' : Reachable c config s') :
    acceptsVersion s' (versionMessage s) ↔ s.blocks.length ≤ maxChainBlocks := by
  obtain ⟨hnetwork, hgenesis, hheight, hwork⟩ := versionMessage_get s
  have hsame : s.genesisHash = s'.genesisHash := by rw [h.genesisHash_eq, h'.genesisHash_eq]
  rw [acceptsVersion, hnetwork, hgenesis, hheight, hwork, Json.safeNat?_num h.valid.height_le]
  simp only [Json.string?_str, Option.any_some, isNumeral_numeral, Bool.and_true, Bool.and_eq_true,
    beq_iff_eq, decide_eq_true_eq, hsame, true_and, h.height_eq.1]
  exact ⟨fun hand => hand.1, fun hlen => ⟨hlen, h.length_cumulativeWork_le hlen⟩⟩

/-! ### The size of a record -/

theorem le_length_quote (s : Str) : s.length + 2 ≤ (Json.quote s).length := by
  have hchar : ∀ d, 1 ≤ (Json.escapeChar d).length := by
    intro d
    unfold Json.escapeChar
    split_ifs <;> simp
  have hescape : s.length ≤ (Json.escape s).length := by
    induction s with
    | nil => exact Nat.zero_le _
    | cons d s ih =>
        have hd := hchar d
        rw [Json.escape] at ih ⊢
        rw [List.flatMap_cons, List.length_append, List.length_cons]
        omega
  simp only [Json.quote, List.length_cons, List.length_append, List.length_nil]
  omega

theorem le_byteLength (s : Str) : s.length ≤ byteLength s := by
  induction s with
  | nil => exact Nat.zero_le _
  | cons d s ih =>
      have hd : 1 ≤ (String.utf8EncodeChar d).length := by
        rw [String.length_utf8EncodeChar]
        exact d.utf8Size_pos
      rw [byteLength] at ih ⊢
      rw [utf8_cons, List.length_append, List.length_cons]
      omega

theorem le_length_encodeRecord {b : Block} (hprevious : b.previousHash.length = 64)
    (hhash : b.hash.length = 64) : 269 ≤ (encodeRecord c (blockRecord b.toJson)).length := by
  have hblock : 64 + 64 + 42 + 28 ≤ (Json.stringify (blockRecord b.toJson)).length := by
    have hkeys : 28 ≤ (Json.quote "previousHash".toList).length +
        (Json.quote "minerAddress".toList).length := by
      decide
    have hquote₁ := le_length_quote b.previousHash
    have hquote₂ := le_length_quote b.hash
    have hquote₃ := le_length_quote b.minerAddress.val
    rw [length_address] at hquote₃
    simp only [blockRecord, Block.toJson, Address.toJson, Json.stringify, Json.stringifyMembers,
      List.length_cons, List.length_append, List.length_nil]
    omega
  have hkeys :
      18 ≤ (Json.quote "payload".toList).length + (Json.quote "checksum".toList).length := by
    decide
  have hpayload := le_length_quote (Json.stringify (blockRecord b.toJson))
  have hdigest := le_length_quote (c.sha256 (Json.stringify (blockRecord b.toJson)))
  rw [(isLowerHex_iff.1 (c.isLowerHex_sha256 _)).1] at hdigest
  simp only [encodeRecord, recordLine, envelope, Json.stringify, Json.stringifyMembers,
    List.length_cons, List.length_append, List.length_nil]
  omega

/-- **A record has at least 269 bytes.** -/
theorem Reachable.le_length_record (h : Reachable c config s) :
    ∀ b ∈ s.blocks, 269 ≤ (encodeRecord c (blockRecord b.toJson)).length := by
  refine h.induction
    (P := fun s => ∀ b ∈ s.blocks, 269 ≤ (encodeRecord c (blockRecord b.toJson)).length) ?_ ?_
  · intro b hb
    simp [genesisState] at hb
  · intro s now b reward l _ hvalid haccepts ih b' hb'
    rcases List.mem_append.1 hb' with hold | hnew
    · exact ih b' hold
    · rw [List.mem_singleton.1 hnew]
      refine le_length_encodeRecord ?_ (isLowerHex_iff.1 haccepts.hash_hex).1
      rw [haccepts.previousHash_eq]
      exact (isLowerHex_iff.1 hvalid.tipHash_hex).1

/-- The blocks of a state as objects. -/
def State.objects (s : State) : List Json := s.blocks.map Block.toJson

theorem State.stored_val (s : State) : s.stored.map Subtype.val = s.objects := by
  rw [State.stored, State.objects, List.map_map]
  rfl

/-- The blocks of the state fit into a journal. -/
def State.Fits (c : Crypto) (s : State) : Prop :=
  byteLength (journalText c s.genesisHash s.objects) ≤ maxStoreBytes

/-- **A chain that fits has not too many blocks.** -/
theorem Reachable.length_le_of_fits (h : Reachable c config s) (hfits : s.Fits c) :
    s.blocks.length ≤ maxChainBlocks := by
  have hrecords : ∀ blocks : List Block,
      (∀ b ∈ blocks, 269 ≤ (encodeRecord c (blockRecord b.toJson)).length) →
      269 * blocks.length ≤ ((blocks.map Block.toJson).flatMap
        fun block => encodeRecord c (blockRecord block)).length := by
    intro blocks hall
    induction blocks with
    | nil => exact Nat.zero_le _
    | cons b blocks ih =>
        have hb := hall b List.mem_cons_self
        have hrest := ih fun b' hb' => hall b' (List.mem_cons_of_mem b hb')
        rw [List.map_cons, List.flatMap_cons, List.length_append, List.length_cons]
        omega
  have hsize := hrecords s.blocks h.le_length_record
  have hbytes := le_trans (le_byteLength _) hfits
  rw [journalText, List.length_append] at hbytes
  have hbound : maxStoreBytes < 269 * (maxChainBlocks + 1) := by decide
  rw [State.objects] at hbytes
  omega

/-! ### Where a chain must be accepted -/

/-- The clocks at which the blocks of a chain are not from the future. -/
def Due (clock : ℕ → ℕ) (s : State) : Prop := ∀ i, s.timestamp ≤ clock i + maxFutureSeconds

theorem Reachable.replayBlocks_objects {clock : ℕ → ℕ}
    (hparsed : parseConsensusConfig options = .ok config) (h : Reachable c config s)
    (hdue : Due clock s) : replayBlocks c options clock s.objects = .ok s := by
  refine h.induction (P := fun s => Due clock s →
    replayBlocks c options clock s.objects = .ok s) ?_ ?_ hdue
  · intro _
    exact bind_eq_ok.2 ⟨_, createGenesisState_eq_ok.2 ⟨config, hparsed, rfl⟩, rfl⟩
  · intro s now b reward l _ hvalid haccepts ih hdue
    have hold : Due clock s := by
      intro i
      exact le_trans (le_of_lt haccepts.lt_timestamp) (hdue i)
    have hobjects : (s.next b reward l).objects = s.objects ++ [b.toJson] := by
      rw [State.objects, State.objects, State.next, List.map_append, List.map_singleton]
    have hnow : s.Accepts c (clock s.objects.length) b reward l :=
      { haccepts with timestamp_le := hdue _ }
    rw [hobjects]
    refine replayBlocks_append.2 ⟨s, ih hold, foldlM_cons_eq_ok.2 ⟨_, ?_, rfl⟩⟩
    exact applyMinedBlock_eq_ok.2 ⟨hvalid, b, reward, l, hnow.readFrom_toJson, hnow, rfl⟩

/-- **A state that is accepted without a store**: by every chain of less work to which it is
offered, and by every node of its network that is told about it. -/
structure Admitted (c : Crypto) (options : ConsensusOptions) (config : Consensus) (s : State) :
    Prop where
  considered : ∀ clock chain, MedacChain.Sound c options config chain →
    chain.state.cumulativeWork < s.cumulativeWork → Due clock s →
    ∃ next result, chain.considerChain c clock (.ok ()) (.arr s.objects) = .ok (next, result) ∧
      next.state = s
  announced : ∀ s', Reachable c config s' → acceptsVersion s' (versionMessage s)

/-- **A state that is accepted everywhere**: besides, by a new process that opens a journal of its
blocks, and by every chain of less work that has a store. -/
structure Welcome (c : Crypto) (options : ConsensusOptions) (config : Consensus) (s : State) : Prop
    extends Admitted c options config s where
  opened : ∀ pid clock d chain, MedacChain.create c options = .ok chain → Due clock s →
    chainBytes d = some (utf8 (journalText c s.genesisHash s.objects)) → d.entry .lock = none →
    ∃ next w, chain.openStored c pid clock (Machine.boot d MedacStore.create) none =
      .returned next w none ∧ next.state = s
  stored : ∀ pid suffix clock (other : StoredChain) L, other.Describes c options config L →
    other.chain.state.cumulativeWork < s.cumulativeWork → Due clock s →
    other.world.disk.entry (.temporary pid suffix) = none →
    ∃ next result w, other.chain.considerStored c pid suffix clock (.arr s.objects) other.world
      none = .returned (next, result) w none ∧ next.state = s

theorem Reachable.fits_iff (h : Reachable c config s) :
    s.Fits c ↔ MedacStore.Fits c (config.digest c).val s.objects := by
  rw [State.Fits, h.genesisHash_digest]
  exact ⟨fun hfits _ => hfits, fun hfits => hfits.byteLength_le⟩

theorem genesisState_fits (c : Crypto) (config : Consensus) : (genesisState c config).Fits c := by
  have hobjects : (genesisState c config).objects = [] := rfl
  rw [State.Fits, hobjects, journalText_nil]
  exact byteLength_header_le c (config.digest c).property

theorem Reachable.openStored_returns {clock : ℕ → ℕ} {d : Disk StorePath} {chain : MedacChain}
    (hparsed : parseConsensusConfig options = .ok config) (h : Reachable c config s)
    (hfits : s.Fits c) (hdue : Due clock s) (hcreate : MedacChain.create c options = .ok chain)
    (hbytes : chainBytes d = some (utf8 (journalText c s.genesisHash s.objects)))
    (hfree : d.entry .lock = none) (pid : ℕ) :
    ∃ next w, chain.openStored c pid clock (Machine.boot d MedacStore.create) none =
      .returned next w none ∧ next.state = s := by
  obtain ⟨genesis, hgenesis, hchain⟩ := bind_eq_ok.1 hcreate
  rw [pure_eq_ok, Except.ok.injEq] at hchain
  subst hchain
  obtain ⟨config', hconfig', rfl⟩ := createGenesisState_eq_ok.1 hgenesis
  obtain rfl : config = config' := Except.ok.inj (hparsed.symm.trans hconfig')
  rw [h.genesisHash_digest] at hbytes
  -- the store finds the blocks
  have htext : JournalText c (config.digest c).val s.objects
      (journalText c (config.digest c).val s.objects) := by
    rw [← s.stored_val]
    exact journalText_journalText c _ s.stored
  have hle := (h.fits_iff.1 hfits).byteLength_le
  have hsteady : World.Steady c (Machine.boot d MedacStore.create) :=
    .boot (hbytes ▸ usable_utf8 htext.complete hle)
  have hrecorded : World.recorded c (config.digest c).val (Machine.boot d MedacStore.create) =
      .ok s.objects := by
    rw [World.recorded_utf8 htext.complete hbytes, htext.decode_eq]
  obtain ⟨w, hopen⟩ : ∃ w, MedacStore.open c pid (config.digest c).val
      (Machine.boot d MedacStore.create) none = .returned s.objects w none :=
    hsteady.open_returns pid (config.digest c) hrecorded hfree
  -- and they lead back to the state
  have hback : MedacChain.open c clock
      { consensusOptions := options, state := genesisState c config, opened := false }
      (some (.ok s.objects)) =
        .ok { consensusOptions := options, state := s, opened := true } := by
    have hlen : s.objects.length ≤ maxChainBlocks := by
      rw [State.objects, List.length_map]
      exact h.length_le_of_fits hfits
    exact (MedacChain.open_some_eq_ok rfl).2
      ⟨hlen, s, h.replayBlocks_objects hparsed hdue, rfl⟩
  have hends := StoredChain.openStored_ends clock
    { consensusOptions := options, state := genesisState c config, opened := false } rfl hopen
  have hnoCrash := StoredCall.noCrash_run c pid
    { consensusOptions := options, state := genesisState c config, opened := false } (.open clock)
  rcases hnoCrash.returned_or_thrown (Machine.boot d MedacStore.create) with
    ⟨next, w', hrun⟩ | ⟨e, w', hrun⟩
  · refine ⟨next, w', hrun, ?_⟩
    have hnext := hends.returned hrun
    rw [hback, Except.ok.injEq] at hnext
    rw [← hnext]
  · obtain ⟨e', he'⟩ := hends.thrown hrun
    rw [hback] at he'
    cases he'

/-- **A chain of less work adopts a candidate** exactly if this has not too many blocks. -/
theorem Reachable.considerChain_iff {clock : ℕ → ℕ} {chain : MedacChain}
    (h : Reachable c config s) (hsound : chain.Sound c options config)
    (hwork : chain.state.cumulativeWork < s.cumulativeWork) (hdue : Due clock s) :
    chain.considerChain c clock (.ok ()) (.arr s.objects) =
        .ok ({ chain with state := s },
          ⟨true, s, some chain.state.tipHash, s.cumulativeWork⟩) ↔
      s.blocks.length ≤ maxChainBlocks := by
  have hlen : s.objects.length = s.blocks.length := List.length_map _
  constructor
  · intro hcall
    obtain ⟨items, candidate, hitems, hle, -⟩ := MedacChain.considerChain_eq_ok.1 hcall
    cases hitems
    rw [← hlen]
    exact hle
  · intro hle
    refine MedacChain.considerChain_eq_ok.2 ⟨_, s, rfl, by rw [hlen]; exact hle, ?_,
      Or.inr ⟨hwork, rfl, rfl, rfl⟩⟩
    rw [hsound.options_eq]
    exact h.replayBlocks_objects hsound.parsed hdue

theorem StoredChain.Describes.consider_returns {clock : ℕ → ℕ} {suffix : Str}
    {other : StoredChain} {candidate : Json} {L : List Json} {next : MedacChain}
    {result : ConsiderResult} (h : other.Describes c options config L)
    (haccept : other.chain.considerChain c clock (.ok ()) candidate = .ok (next, result))
    (hadopted : result.adopted = true) (hnext : Reachable c config next.state)
    (hfree : other.world.disk.entry (.temporary pid suffix) = none) :
    (MedacStore.Fits c (config.digest c).val next.state.objects →
      ∃ w, other.chain.considerStored c pid suffix clock candidate other.world none =
        .returned (next, result) w none) ∧
    ∀ r w rest, other.chain.considerStored c pid suffix clock candidate other.world none =
      .returned r w rest → MedacStore.Fits c (config.digest c).val next.state.objects := by
  obtain ⟨k, hlock⟩ := Option.ne_none_iff_exists'.1 h.coherent.lockFd
  obtain ⟨fd, hchain⟩ := h.coherent.onChain
  have hends := MedacStore.replace_ends c pid suffix next.state.objects none hlock
    h.coherent.genesisHash hchain.exists_handle
  have hrun : other.chain.considerStored c pid suffix clock candidate other.world none =
      (MedacStore.replace c pid suffix (config.digest c).val next.state.objects >>= fun _ =>
        pure (next, result)) other.world none := by
    rw [MedacChain.considerStored, haccept]
    change (if result.adopted then _ else _ : StoreProg _) other.world none = _
    rw [if_pos hadopted, hnext.genesisHash_digest, next.state.stored_val]
  rw [hrun]
  rcases (noCrash_replace c pid suffix (config.digest c).val
    next.state.objects).returned_or_thrown other.world with ⟨⟨⟩, w, hreplace⟩ | ⟨e, w, hreplace⟩
  · rw [Prog.bind_of_returned hreplace]
    exact ⟨fun _ => ⟨w, rfl⟩, fun _ _ _ _ => (hends.returned hreplace).2.2.1⟩
  · rw [Prog.bind_of_thrown hreplace]
    refine ⟨fun hfits => ?_, fun _ _ _ hreturned => by cases hreturned⟩
    rcases hends.thrown hreplace with ⟨-, hfails | htaken | hlarge⟩ | ⟨-, -, -, hfails | hnone⟩
    · exact absurd rfl hfails.ne_none
    · exact absurd hfree htaken
    · exact absurd hfits hlarge
    · obtain ⟨rest, hplan, hfails⟩ := hfails
      obtain ⟨k', x, -, rfl⟩ := hfails
      exact absurd hplan.symm (by simp)
    · rw [hchain.chainFd] at hnone
      cases hnone

/-- An open store whose journal has no blocks: the lock is file 0, the journal file 1. -/
def freshWorld (c : Crypto) (g : Digest) : World :=
  ((((Machine.boot Disk.empty
      { lockFd := some 0, chainFd := some 1, genesisHash := some g.val, blocks := [],
        fd := none }).create .lock).create .chain).put 1
    (utf8 (encodeRecord c (headerRecord g.val))))

/-- A chain without blocks, with its store. -/
def freshStore (c : Crypto) (options : ConsensusOptions) (config : Consensus) : StoredChain where
  chain := { consensusOptions := options, state := genesisState c config, opened := true }
  world := freshWorld c (config.digest c)

theorem freshStore_describes (hparsed : parseConsensusConfig options = .ok config) :
    (freshStore c options config).Describes c options config [] where
  chain := ⟨rfl, hparsed, .genesis⟩
  coherent :=
    { lockFd := Option.some_ne_none 0
      genesisHash := rfl
      onChain := ⟨1, rfl, 1, by simp [freshStore, freshWorld], by simp [freshStore, freshWorld]⟩
      journal := by
        refine ⟨_, chainBytes_eq_some.2 ⟨1, ?_, ?_⟩, journalText_header _ _,
          byteLength_header_le _ (config.digest c).property⟩
        · simp [freshStore, freshWorld]
        · simp [freshStore, freshWorld]
      blocks := rfl }
  state := ⟨fun _ => 0, bind_eq_ok.2 ⟨_, createGenesisState_eq_ok.2 ⟨config, hparsed, rfl⟩, rfl⟩⟩

theorem Reachable.cumulativeWork_pos (h : Reachable c config s) (hne : s.blocks ≠ []) :
    0 < s.cumulativeWork := by
  obtain ⟨hsum, hall⟩ := h.cumulativeWork_eq
  rw [hsum]
  obtain ⟨b, blocks, hblocks⟩ := List.exists_cons_of_ne_nil hne
  have hb := hall b (by rw [hblocks]; exact List.mem_cons_self)
  rw [hblocks, List.map_cons, List.sum_cons]
  omega

/-- **Accepted without a store** is a state exactly if it has not too many blocks. -/
theorem Reachable.admitted_iff (h : Reachable c config s) :
    Admitted c options config s ↔ s.blocks.length ≤ maxChainBlocks := by
  constructor
  · intro hadmitted
    exact (h.acceptsVersion_iff .genesis).1 (hadmitted.announced _ .genesis)
  · intro hlen
    exact ⟨fun clock chain hsound hwork hdue =>
      ⟨_, _, (h.considerChain_iff hsound hwork hdue).2 hlen, rfl⟩,
      fun s' hs' => (h.acceptsVersion_iff hs').2 hlen⟩

/-- **A state is accepted everywhere exactly if it fits.** -/
theorem Reachable.welcome_iff (hparsed : parseConsensusConfig options = .ok config)
    (h : Reachable c config s) : Welcome c options config s ↔ s.Fits c := by
  constructor
  · intro hwelcome
    rw [h.fits_iff]
    intro hne
    have hblocks : s.blocks ≠ [] := by
      intro hnil
      rw [State.objects, hnil] at hne
      exact hne rfl
    -- a chain without blocks, which has a store, adopts it
    have hlen := (h.admitted_iff).1 hwelcome.toAdmitted
    have hfresh := freshStore_describes (c := c) hparsed
    have hdue : Due (fun _ => s.timestamp) s := fun _ => Nat.le_add_right _ _
    have hwork := h.cumulativeWork_pos hblocks
    have haccept := (h.considerChain_iff hfresh.chain hwork hdue).2 hlen
    have hfree : (freshStore c options config).world.disk.entry (.temporary 0 []) = none := by
      simp [freshStore, freshWorld]
    obtain ⟨next, result, w, hrun, -⟩ := hwelcome.stored 0 [] _ _ _ hfresh hwork hdue hfree
    exact (hfresh.consider_returns haccept rfl h hfree).2 _ _ _ hrun hne
  · intro hfits
    have hlen := h.length_le_of_fits hfits
    refine ⟨(h.admitted_iff).2 hlen, ?_, ?_⟩
    · intro pid clock d chain hcreate hdue hbytes hfree
      exact h.openStored_returns hparsed hfits hdue hcreate hbytes hfree pid
    · intro pid suffix clock other L hdescribes hwork hdue hfree
      have haccept := (h.considerChain_iff hdescribes.chain hwork hdue).2 hlen
      obtain ⟨w, hrun⟩ := (hdescribes.consider_returns haccept rfl h hfree).1 (h.fits_iff.1 hfits)
      exact ⟨_, _, w, hrun, rfl⟩

/-! ### Chains with a store -/

/-- **What a chain with a store of its own grows to**: it is opened in an empty directory, then
`appendBlock` and `considerChain` return, whatever fails besides, and from time to time another
process opens the directory. -/
inductive Grown (c : Crypto) (options : ConsensusOptions) : StoredChain → Prop
  | opened {chain next : MedacChain} {w : World} {pid : ℕ} {clock : ℕ → ℕ} {plan rest : Plan}
      (hcreate : MedacChain.create c options = .ok chain)
      (hrun : chain.openStored c pid clock (Machine.boot Disk.empty MedacStore.create) plan =
        .returned next w rest) : Grown c options ⟨next, w⟩
  | appended {s : StoredChain} {next : MedacChain} {w : World} {now : ℕ} {block : Json}
      {plan rest : Plan} (before : Grown c options s)
      (hrun : s.chain.appendStored c now block s.world plan = .returned next w rest) :
      Grown c options ⟨next, w⟩
  | considered {s : StoredChain} {next : MedacChain} {w : World} {pid : ℕ} {suffix : Str}
      {clock : ℕ → ℕ} {blocks : Json} {result : ConsiderResult} {plan rest : Plan}
      (before : Grown c options s)
      (hrun : s.chain.considerStored c pid suffix clock blocks s.world plan =
        .returned (next, result) w rest) : Grown c options ⟨next, w⟩
  | reopened {s : StoredChain} {chain next : MedacChain} {w : World} {pid : ℕ} {clock : ℕ → ℕ}
      {plan rest : Plan} (before : Grown c options s)
      (hcreate : MedacChain.create c options = .ok chain)
      (hrun : chain.openStored c pid clock
        (Machine.boot (s.world.disk.unlink .lock) MedacStore.create) plan =
          .returned next w rest) : Grown c options ⟨next, w⟩

/-- The journal is that of the blocks of the chain, and it is not too large. -/
structure Kept (c : Crypto) (options : ConsensusOptions) (config : Consensus) (s : StoredChain) :
    Prop where
  chain : s.chain.Sound c options config
  lockFd : s.world.vars.lockFd ≠ none
  genesisHash : s.world.vars.genesisHash = some (config.digest c).val
  onChain : ∃ fd, OnChain s.world fd
  bytes : chainBytes s.world.disk =
    some (utf8 (journalText c (config.digest c).val s.chain.state.objects))
  fits : s.chain.state.Fits c

namespace Kept

variable {chain : StoredChain}

/-- A chain that is opened in a directory whose journal, if there is one, is that of a chain that
fits. -/
theorem open_ends {created : MedacChain} {d : Disk StorePath}
    (hparsed : parseConsensusConfig options = .ok config)
    (hcreate : MedacChain.create c options = .ok created) (hs : Reachable c config s)
    (hfits : s.Fits c) (hreadable : Readable (chainBytes d))
    (hfinds : Finds c (config.digest c).val (chainBytes d)
      (journalText c (config.digest c).val s.objects)) (clock : ℕ → ℕ) (plan : Plan) :
    Ends (created.openStored c pid clock) (Machine.boot d MedacStore.create) plan
      (fun next w _ => Kept c options config ⟨next, w⟩) (fun _ _ _ => True) fun _ => True := by
  obtain ⟨genesis, hgenesis, hchain⟩ := bind_eq_ok.1 hcreate
  rw [pure_eq_ok, Except.ok.injEq] at hchain
  subst hchain
  obtain ⟨config', hconfig', rfl⟩ := createGenesisState_eq_ok.1 hgenesis
  obtain rfl : config = config' := Except.ok.inj (hparsed.symm.trans hconfig')
  rw [MedacChain.openStored, if_neg (by simp)]
  have hclose : ∀ (e : Exception Error) (w : World) (rest : Plan),
      Ends (MedacStore.close >>= fun _ => (Prog.raise e : StoreProg MedacChain)) w rest
        (fun next w _ => Kept c options config ⟨next, w⟩) (fun _ _ _ => True) fun _ => True := by
    intro e w rest
    exact Ends.bind ((Ends.const trivial).mono (fun _ _ _ _ => Ends.raise trivial)
      (fun _ _ _ h => h) fun _ h => h)
  refine Ends.attempt (Ends.bind ((MedacStore.open_ends c pid (config.digest c).val
    (m := Machine.boot d MedacStore.create) hreadable plan).mono ?_
      (fun e w rest _ => hclose e w rest) fun _ _ => trivial))
  intro blocks w rest hreturns
  obtain ⟨t, L, hfound, hL, hblocks, hbytes⟩ := hreturns.journal
  obtain ⟨k, fd, hopened⟩ := hreturns.opened
  -- the store finds the blocks of the chain
  have htext : JournalText c (config.digest c).val s.objects
      (journalText c (config.digest c).val s.objects) := by
    rw [← s.stored_val]
    exact journalText_journalText c _ s.stored
  obtain rfl := hfound.unique hfinds
  rw [htext.decode_eq, Except.ok.injEq] at hL
  subst hL
  obtain rfl : blocks = s.objects := hblocks
  refine Ends.ofExcept ?_ fun e _ => hclose _ _ _
  intro next hnext
  obtain ⟨-, state, hstate, rfl⟩ := (MedacChain.open_some_eq_ok rfl).1 hnext
  have hdue : Due (fun _ => s.timestamp) s := fun _ => Nat.le_add_right _ _
  obtain rfl := replayBlocks_unique hstate (hs.replayBlocks_objects hparsed hdue)
  refine ⟨⟨rfl, hparsed, hs⟩, ?_, hopened.genesisHash, ⟨fd, hopened.onChain⟩, hbytes, hfits⟩
  rw [hopened.locked.lockFd]
  exact Option.some_ne_none k

theorem finds (h : Kept c options config chain) :
    Finds c (config.digest c).val (chainBytes (chain.world.disk.unlink .lock))
      (journalText c (config.digest c).val chain.chain.state.objects) ∧
    Readable (chainBytes (chain.world.disk.unlink .lock)) := by
  have htext : Complete (journalText c (config.digest c).val chain.chain.state.objects) := by
    rw [← State.stored_val]
    exact (journalText_journalText c _ _).complete
  rw [chainBytes_unlink, h.bytes]
  exact ⟨Or.inr ⟨[], htext, List.not_mem_nil, by rw [List.append_nil]⟩,
    (usable_utf8 htext (h.chain.reachable.fits_iff.1 h.fits).byteLength_le).readable⟩

theorem append_ends (h : Kept c options config chain) (now : ℕ) (block : Json) (plan : Plan) :
    Ends (chain.chain.appendStored c now block) chain.world plan
      (fun next w _ => Kept c options config ⟨next, w⟩) (fun _ _ _ => True) fun _ => True := by
  refine Ends.bind (Ends.ofExcept ?_ fun _ _ => trivial)
  intro next hnext
  obtain ⟨state, hstate, -, rfl⟩ := MedacChain.appendBlock_eq_ok.1 hnext
  have hreach : Reachable c config state := .block h.chain.reachable hstate
  obtain ⟨hvalid, b, reward, l, -, haccepts, hstate⟩ := applyMinedBlock_eq_ok.1 hstate
  have hlast : (state.lastBlock?.map Block.toJson).getD .null = b.toJson := by
    rw [hstate, haccepts.lastBlock_next hvalid]
    rfl
  have hobjects : state.objects = chain.chain.state.objects ++ [b.toJson] := by
    rw [State.objects, State.objects, hstate, State.next, List.map_append, List.map_singleton]
  change Ends (MedacStore.append c state.genesisHash
    ((state.lastBlock?.map Block.toJson).getD .null) >>= fun _ => _) _ _ _ _ _
  rw [hlast, hreach.genesisHash_digest]
  obtain ⟨k, hlock⟩ := Option.ne_none_iff_exists'.1 h.lockFd
  obtain ⟨fd, hchain⟩ := h.onChain
  refine Ends.bind ((MedacStore.append_ends c b.toJson plan hlock h.genesisHash hchain
    h.bytes).mono ?_ (fun _ _ _ _ => trivial) fun _ _ => trivial)
  rintro _ w rest ⟨hframe, hvars, hafter, hle⟩
  rw [← utf8_append, ← journalText_snoc, ← hobjects] at hafter hle
  refine Ends.pure ⟨⟨h.chain.options_eq, h.chain.parsed, hreach⟩, ?_, ?_, ⟨fd, ?_⟩, hafter, ?_⟩
  · rw [hvars]
    exact h.lockFd
  · rw [hvars]
    exact h.genesisHash
  · exact hchain.frame hframe (Set.notMem_empty _) (Set.notMem_empty _) (by rw [hvars])
  · rw [State.Fits, hreach.genesisHash_digest]
    exact hle

theorem consider_ends (h : Kept c options config chain) (suffix : Str) (clock : ℕ → ℕ)
    (blocks : Json) (plan : Plan) :
    Ends (chain.chain.considerStored c pid suffix clock blocks) chain.world plan
      (fun next w _ => Kept c options config ⟨next.1, w⟩) (fun _ _ _ => True) fun _ => True := by
  refine Ends.bind (Ends.ofExcept ?_ fun _ _ => trivial)
  rintro ⟨next, result⟩ hnext
  obtain ⟨items, candidate, -, -, hreplay, hcases⟩ := MedacChain.considerChain_eq_ok.1 hnext
  obtain ⟨config', hconfig', hreach⟩ := reachable_of_replayBlocks hreplay
  rw [h.chain.options_eq, h.chain.parsed, Except.ok.injEq] at hconfig'
  subst hconfig'
  rcases hcases with ⟨-, rfl, rfl⟩ | ⟨-, -, rfl, rfl⟩
  · exact Ends.pure h
  · change Ends (MedacStore.replace c pid suffix candidate.genesisHash
      (candidate.stored.map Subtype.val) >>= fun _ => _) _ _ _ _ _
    rw [hreach.genesisHash_digest, candidate.stored_val]
    obtain ⟨k, hlock⟩ := Option.ne_none_iff_exists'.1 h.lockFd
    obtain ⟨fd, hchain⟩ := h.onChain
    refine Ends.bind ((MedacStore.replace_ends c pid suffix candidate.objects plan hlock
      h.genesisHash hchain.exists_handle).mono ?_ (fun _ _ _ _ => trivial) fun _ _ => trivial)
    rintro _ w rest ⟨⟨⟨-, hafter⟩, fd', -, hchain', hvars⟩, -, hfits, -, -⟩
    refine Ends.pure ⟨⟨h.chain.options_eq, h.chain.parsed, hreach⟩, ?_, ?_, ⟨fd', hchain'⟩, hafter,
      hreach.fits_iff.2 hfits⟩
    · rw [hvars]
      exact h.lockFd
    · rw [hvars]
      exact h.genesisHash

end Kept

/-- **A chain with a store of its own keeps its journal**, step by step. -/
theorem Grown.kept {chain : StoredChain} (hparsed : parseConsensusConfig options = .ok config)
    (h : Grown c options chain) : Kept c options config chain := by
  induction h with
  | opened hcreate hrun =>
      have hfinds : Finds c (config.digest c).val (chainBytes Disk.empty)
          (journalText c (config.digest c).val (genesisState c config).objects) :=
        Or.inl ⟨rfl, journalText_nil c _⟩
      exact (Kept.open_ends hparsed hcreate .genesis (genesisState_fits c config)
        usable_empty.readable hfinds _ _).returned hrun
  | appended _ hrun ih => exact (ih.append_ends _ _ _).returned hrun
  | considered _ hrun ih => exact (ih.consider_ends _ _ _ _).returned hrun
  | reopened _ hcreate hrun ih =>
      exact (Kept.open_ends hparsed hcreate ih.chain.reachable ih.fits ih.finds.2 ih.finds.1 _
        _).returned hrun

/-- **The limits, for what chains grow to.**  A chain without a store, whatever calls have been made
on it, is accepted by every chain without a store and by every peer exactly if it has not too many
blocks, and everywhere exactly if its blocks fit into a journal.  A chain with a store of its own
is accepted everywhere. -/
theorem limits_agree {clock : ℕ → ℕ} {created chain : MedacChain}
    (hparsed : parseConsensusConfig options = .ok config)
    (hcreate : MedacChain.create c options = .ok created)
    (hopen : created.open c clock none = .ok chain) :
    (∀ calls,
      (Admitted c options config (chain.calls c calls).state ↔
        (chain.calls c calls).state.blocks.length ≤ maxChainBlocks) ∧
      (Welcome c options config (chain.calls c calls).state ↔
        (chain.calls c calls).state.Fits c)) ∧
    ∀ stored, Grown c options stored → Welcome c options config stored.chain.state := by
  constructor
  · intro calls
    obtain ⟨config', hsound⟩ := MedacChain.open_sound hcreate hopen
    obtain rfl : config = config' := Except.ok.inj (hparsed.symm.trans hsound.parsed)
    have hreach := (MedacChain.calls_sound hsound calls).reachable
    exact ⟨hreach.admitted_iff, hreach.welcome_iff hparsed⟩
  · intro stored hgrown
    have hkept := hgrown.kept hparsed
    exact (hkept.chain.reachable.welcome_iff hparsed).2 hkept.fits

theorem limits_agree_sampleObject :
    Welcome sampleCrypto sampleConsensus.toOptions sampleConsensus sampleGenesis := by
  have hcreate : MedacChain.create sampleCrypto sampleConsensus.toOptions =
      .ok { sampleObject with opened := false } :=
    bind_eq_ok.2 ⟨sampleGenesis,
      createGenesisState_eq_ok.2 ⟨_, parseConsensusConfig_toOptions _, rfl⟩, rfl⟩
  have hopen : MedacChain.open sampleCrypto (fun _ => 0) { sampleObject with opened := false }
      none = .ok sampleObject := rfl
  obtain ⟨hcalls, -⟩ := limits_agree (parseConsensusConfig_toOptions _) hcreate hopen
  exact (hcalls []).2.2 (genesisState_fits _ _)

/-- **A chain that is not accepted.**  A chain of the small network without a store takes one block
more than a chain may have, in as many calls of `appendBlock`; a peer without blocks then takes it
for a node of another network, and no chain without blocks adopts it. -/
theorem limits_agree_long : ∃ calls : List ChainCall,
    calls.length = maxChainBlocks + 1 ∧
    (sampleObject.calls sampleCrypto calls).state.blocks.length = maxChainBlocks + 1 ∧
    acceptsVersion sampleGenesis
      (versionMessage (sampleObject.calls sampleCrypto calls).state) = false ∧
    ∀ clock, sampleObject.considerChain sampleCrypto clock (.ok ())
        (.arr (sampleObject.calls sampleCrypto calls).state.objects) =
      .error (.error "Invalid MEDAC candidate chain length") := by
  obtain ⟨calls, hcalls, hs, hlen⟩ := exists_sparse_calls (n := maxChainBlocks + 1) (by decide)
  refine ⟨calls, hcalls, hlen, ?_, fun clock => ?_⟩
  · have hgenesis : Reachable sampleCrypto sampleConsensus sampleGenesis := .genesis
    rw [← Bool.not_eq_true, hs.reachable.acceptsVersion_iff hgenesis, hlen]
    omega
  · have htoo : decide ((sampleObject.calls sampleCrypto calls).state.objects.length ≤
        maxChainBlocks) = false := by
      rw [State.objects, List.length_map, hlen]
      exact decide_eq_false (by omega)
    rw [MedacChain.considerChain, Json.array?_arr]
    simp only [htoo]
    rfl

end Medac
