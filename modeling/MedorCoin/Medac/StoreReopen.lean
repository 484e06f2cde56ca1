/-
**A store that is used again.**

One `MedacStore` may be opened, written to, closed and opened again.  Its journal keeps the books:
a block that was appended is recorded after the others, a list that was put in their place is
recorded instead of them, and nothing else changes what is recorded.  But `open` puts the blocks
it reads after those that the object has from before, and `close` leaves these where they are.

Main definitions:

* `Medac.StoreCall`, `Medac.World.afterAll` — sequences of calls in which nothing goes wrong;
* `Medac.World.recorded` — the blocks recorded in the journal;
* `Medac.World.Steady` — what holds between the calls.

Main results:

* `Medac.World.Steady.after` — every call keeps it;
* `Medac.World.Steady.open_returned`, `Medac.World.Steady.open_returns` — what `open` returns, and
  when;
* `Medac.World.Steady.append_returned`, `Medac.World.Steady.replace_returned` — the books.
-/

import MedorCoin.Medac.StoreWrite

set_option autoImplicit false

namespace Medac

open Js Crash Crash.Prog

/-- The genesis hashes of networks. -/
abbrev Digest : Type := {g : Str // isLowerHex 64 g}

/-! ### Sequences of calls -/

/-- A call of a method of the store.  What is random in `replace` is a part of the call. -/
inductive StoreCall
  | «open» (genesisHash : Digest)
  | append (genesisHash : Digest) (block : StoredBlock)
  | replace (suffix : Str) (genesisHash : Digest) (blocks : List StoredBlock)
  | close

/-- The program of a call. -/
def StoreCall.run (c : Crypto) (pid : ℕ) : StoreCall → StoreProg Unit
  | .open g => do
      let _ ← MedacStore.open c pid g.val
      return ()
  | .append g b => MedacStore.append c g.val b.val
  | .replace suffix g blocks => MedacStore.replace c pid suffix g.val (blocks.map Subtype.val)
  | .close => MedacStore.close

theorem StoreCall.noCrash_run (c : Crypto) (pid : ℕ) (call : StoreCall) :
    NoCrash (call.run c pid) := by
  cases call with
  | «open» g => exact .bind (MedacStore.noCrash_open c pid g.val) fun _ => .pure _
  | append g b => exact MedacStore.noCrash_append c g.val b.val
  | replace suffix g blocks => exact MedacStore.noCrash_replace c pid suffix g.val _
  | close => exact MedacStore.noCrash_close

namespace World

/-- The machine after a call in which nothing goes wrong. -/
def after (c : Crypto) (pid : ℕ) (w : World) (call : StoreCall) : World :=
  (call.run c pid w none).machine

/-- The machine after a sequence of calls. -/
def afterAll (c : Crypto) (pid : ℕ) (w : World) (calls : List StoreCall) : World :=
  calls.foldl (World.after c pid) w

/-- **The blocks recorded in the journal.** -/
def recorded (c : Crypto) (genesisHash : Str) (w : World) : Except Error (List Json) :=
  match MedacStore.chainBytes w.disk with
  | none => .ok []
  | some bytes => recordedBlocks c genesisHash bytes

end World

variable {c : Crypto} {pid : ℕ} {w w' : World} {plan : Plan} {L : List Json}

open MedacStore

theorem World.recorded_congr {g : Str} (h : chainBytes w'.disk = chainBytes w.disk) :
    w'.recorded c g = w.recorded c g := by
  rw [World.recorded, World.recorded, h]

theorem World.recorded_eq {g t : Str} (h : Finds c g (chainBytes w.disk) t) :
    w.recorded c g = decodeJournal c g t := by
  rw [World.recorded]
  rcases h with ⟨hnone, rfl⟩ | ⟨tail, ht, htail, hsome⟩
  · rw [hnone, (journalText_header c g).decode_eq]
  · rw [hsome]
    change recordedBlocks c g (utf8 t ++ tail) = decodeJournal c g t
    rw [recordedBlocks, completePart_decode ht htail]

theorem World.recorded_utf8 {g t : Str} (ht : Complete t) (h : chainBytes w.disk = some (utf8 t)) :
    w.recorded c g = decodeJournal c g t :=
  World.recorded_eq (Or.inr ⟨[], ht, List.not_mem_nil, by rw [h, List.append_nil]⟩)

/-! ### What holds between the calls -/

/-- A journal that `open` can take apart and that is not too large. -/
structure Usable (before : Option Bytes) : Prop where
  readable : Readable before
  length_le : ∀ bytes, before = some bytes → bytes.length ≤ maxStoreBytes

/-- The journal records what it should, and the object appends to it. -/
structure Appending (c : Crypto) (w : World) (fd : ℕ) : Prop where
  onChain : OnChain w fd
  locked : ∃ k, Locked w k ∧ k ≠ fd
  journal : ∃ g t, w.vars.genesisHash = some g ∧ chainBytes w.disk = some (utf8 t) ∧
    ∃ L, JournalText c g L t

/-- **What holds between the calls.** -/
structure World.Steady (c : Crypto) (w : World) : Prop where
  usable : Usable (chainBytes w.disk)
  lock : ∀ k, w.vars.lockFd = some k → Locked w k
  chain : ∀ fd, w.vars.chainFd = some fd → Appending c w fd

theorem MedacStore.Fits.byteLength_le {g : Digest} {blocks : List Json} (h : Fits c g.val blocks) :
    byteLength (journalText c g.val blocks) ≤ maxStoreBytes := by
  by_cases hnil : blocks = []
  · rw [hnil, journalText_nil]
    exact byteLength_header_le c g.property
  · exact h hnil

theorem usable_utf8 {t : Str} (ht : Complete t) (hle : byteLength t ≤ maxStoreBytes) :
    Usable (some (utf8 t)) where
  readable := by
    rintro bytes ⟨⟩
    exact ⟨t, [], ht, List.not_mem_nil, (List.append_nil _).symm⟩
  length_le := by
    rintro bytes ⟨⟩
    exact hle

theorem usable_none : Usable none where
  readable := fun _ h => by cases h
  length_le := fun _ h => by cases h

theorem World.Steady.boot {d : Disk StorePath} (hd : Usable (chainBytes d)) :
    World.Steady c (Machine.boot d MedacStore.create) where
  usable := hd
  lock := fun k hk => by cases hk
  chain := fun fd hfd => by cases hfd

theorem MedacStore.OpenReturns.steady {g : Digest} {blocks : List Json}
    (husable : Usable (chainBytes w.disk)) (h : OpenReturns c g.val w blocks w') :
    World.Steady c w' := by
  obtain ⟨t, L, hfinds, hL, -, hbytes⟩ := h.journal
  obtain ⟨k, fd, hopened⟩ := h.opened
  have htext : Complete t ∧ byteLength t ≤ maxStoreBytes := by
    rcases hfinds with ⟨-, rfl⟩ | ⟨tail, ht, -, hsome⟩
    · exact ⟨complete_line _, byteLength_header_le c g.property⟩
    · have hle := husable.length_le _ hsome
      rw [List.length_append] at hle
      exact ⟨ht, le_trans (Nat.le_add_right _ _) hle⟩
  refine ⟨hbytes ▸ usable_utf8 htext.1 htext.2, ?_, ?_⟩
  · intro k' hk'
    rw [hopened.locked.lockFd] at hk'
    cases hk'
    exact hopened.locked
  · intro fd' hfd'
    rw [hopened.onChain.chainFd] at hfd'
    cases hfd'
    exact ⟨hopened.onChain, ⟨k, hopened.locked, hopened.ne⟩, g.val, t, hopened.genesisHash, hbytes,
      L, htext.1, hL⟩

theorem MedacStore.OpenLeaves.usable {g : Digest} {before after : Option Bytes} (h : Usable before)
    (hleaves : OpenLeaves (utf8 (encodeRecord c (headerRecord g.val))) none before after) :
    Usable after := by
  cases hleaves with
  | same => exact h
  | repaired ht htail hsome =>
      have hle := h.length_le _ hsome
      rw [List.length_append] at hle
      exact usable_utf8 ht (le_trans (Nat.le_add_right _ _) hle)
  | created hnone hafter =>
      rcases hafter with rfl | ⟨x, hcut | hcut, -⟩
      · exact usable_utf8 (complete_line _) (byteLength_header_le c g.property)
      · cases hcut
      · cases hcut

namespace World.Steady

theorem exists_finds (h : World.Steady c w) (g : Str) :
    ∃ t, Finds c g (chainBytes w.disk) t ∧ w.recorded c g = decodeJournal c g t := by
  cases hbytes : chainBytes w.disk with
  | none =>
      have hfinds : Finds c g (chainBytes w.disk) (encodeRecord c (headerRecord g)) :=
        Or.inl ⟨hbytes, rfl⟩
      exact ⟨_, hbytes ▸ hfinds, World.recorded_eq hfinds⟩
  | some bytes =>
      obtain ⟨t, tail, ht, htail, rfl⟩ := h.usable.readable bytes hbytes
      have hfinds : Finds c g (chainBytes w.disk) t := Or.inr ⟨tail, ht, htail, hbytes⟩
      exact ⟨t, hbytes ▸ hfinds, World.recorded_eq hfinds⟩

theorem recorded_leaves {g : Digest} {after : Option Bytes} (h : OpenLeaves
      (utf8 (encodeRecord c (headerRecord g.val))) none (chainBytes w.disk) after)
    (hafter : chainBytes w'.disk = after) : World.recorded c g.val w' = w.recorded c g.val := by
  cases h with
  | same => exact World.recorded_congr hafter
  | repaired ht htail hsome =>
      rw [World.recorded_utf8 ht hafter, World.recorded_eq (Or.inr ⟨_, ht, htail, hsome⟩)]
  | created hnone hwritten =>
      rcases hwritten with rfl | ⟨x, hcut | hcut, -⟩
      · rw [World.recorded_utf8 (complete_line _) hafter, World.recorded_eq (Or.inl ⟨hnone, rfl⟩)]
        rfl
      · cases hcut
      · cases hcut

/-- `open` keeps it, and what is recorded.  When it returns, the blocks of the object are those it
had and those recorded; when it throws although the journal is in order, another process holds the
lock. -/
theorem open_ends (h : World.Steady c w) (g : Digest) :
    Ends (MedacStore.open c pid g.val) w none
      (fun blocks w' _ => World.Steady c w' ∧ (∃ L, w.recorded c g.val = .ok L ∧
          World.recorded c g.val w' = .ok L ∧ blocks = w.vars.blocks ++ L) ∧
        ∃ k fd, Opened w' g.val blocks k fd)
      (fun _ w' _ => World.Steady c w' ∧ World.recorded c g.val w' = w.recorded c g.val ∧
        ∀ L, w.recorded c g.val = .ok L → w' = w ∧ w.disk.entry .lock ≠ none)
      fun _ => True := by
  refine (MedacStore.open_ends c pid g.val h.usable.readable none).mono ?_ ?_ fun _ _ => trivial
  · intro blocks w' rest hreturns
    refine ⟨hreturns.steady h.usable, ?_, hreturns.opened⟩
    obtain ⟨t, L, hfinds, hL, hblocks, hbytes⟩ := hreturns.journal
    have ht : Complete t := by
      rcases hfinds with ⟨-, rfl⟩ | ⟨tail, ht, -⟩
      · exact complete_line _
      · exact ht
    refine ⟨L, ?_, ?_, hblocks⟩
    · rw [World.recorded_eq hfinds, hL]
    · rw [World.recorded_utf8 ht hbytes, hL]
  · intro e w' rest hthrows
    have husable := hthrows.leaves.usable (g := g) h.usable
    have hrecorded := recorded_leaves (g := g) hthrows.leaves rfl
    rcases hthrows.reason with hne | ⟨rfl, htaken⟩ | ⟨hfree, ⟨k, hlocked⟩, hlarge⟩
    · exact absurd rfl hne
    · exact ⟨h, rfl, fun _ _ => ⟨rfl, htaken⟩⟩
    · refine ⟨⟨husable, ?_, ?_⟩, hrecorded, ?_⟩
      · intro k' hk'
        rw [hlocked.lockFd] at hk'
        cases hk'
        exact hlocked
      · -- the lock was free, so the object was not open
        intro fd hfd
        rw [hthrows.chainFd] at hfd
        obtain ⟨k', hlocked', -⟩ := (h.chain fd hfd).locked
        exact absurd hfree hlocked'.entry
      · intro L hL
        obtain ⟨t, hfinds, heq⟩ := h.exists_finds g.val
        have hgt := hlarge t L hfinds (heq.symm.trans hL)
        cases hbytes : chainBytes w.disk with
        | none =>
            rw [hbytes] at hgt
            exact absurd hgt (not_lt.2 (byteLength_header_le c g.property))
        | some bytes =>
            rw [hbytes] at hgt
            exact absurd hgt (not_lt.2 (h.usable.length_le bytes hbytes))

theorem of_appending {fd k : ℕ} {g t : Str} (hlocked : Locked w k) (hne : k ≠ fd)
    (hchain : OnChain w fd) (hgenesis : w.vars.genesisHash = some g)
    (hbytes : chainBytes w.disk = some (utf8 t)) (hle : byteLength t ≤ maxStoreBytes)
    (ht : JournalText c g L t) : World.Steady c w := by
  refine ⟨hbytes ▸ usable_utf8 ht.complete hle, ?_, ?_⟩
  · intro k' hk'
    rw [hlocked.lockFd] at hk'
    cases hk'
    exact hlocked
  · intro fd' hfd'
    rw [hchain.chainFd] at hfd'
    cases hfd'
    exact ⟨hchain, ⟨k, hlocked, hne⟩, g, t, hgenesis, hbytes, L, ht⟩

theorem keep {P : Set StorePath} {F : Set ℕ} (h : World.Steady c w) (hframe : w.Frame P F ∅ w')
    (hlockP : StorePath.lock ∉ P) (hchainP : StorePath.chain ∉ P)
    (hlockFd : w'.vars.lockFd = w.vars.lockFd) (hchainFd : w'.vars.chainFd = w.vars.chainFd)
    (hgenesis : w'.vars.genesisHash = w.vars.genesisHash)
    (hbytes : chainBytes w'.disk = chainBytes w.disk) : World.Steady c w' := by
  have hlocked : ∀ k, Locked w k → Locked w' k := by
    intro k hk
    exact hk.frame hframe hlockP (Set.notMem_empty k) hlockFd
  refine ⟨hbytes ▸ h.usable, ?_, ?_⟩
  · intro k hk
    rw [hlockFd] at hk
    exact hlocked k (h.lock k hk)
  · intro fd hfd
    rw [hchainFd] at hfd
    obtain ⟨hchain, ⟨k, hk, hne⟩, g, t, hg, ht, hL⟩ := h.chain fd hfd
    exact ⟨hchain.frame hframe hchainP (Set.notMem_empty fd) hchainFd, ⟨k, hlocked k hk, hne⟩,
      g, t, hgenesis.trans hg, hbytes.trans ht, hL⟩

/-- `append` keeps it.  When it returns the block was put after those recorded; when it throws the
journal is as it was. -/
theorem append_ends (h : World.Steady c w) (g : Digest) (b : StoredBlock) :
    Ends (MedacStore.append c g.val b.val) w none
      (fun _ w' _ => World.Steady c w' ∧
        w'.vars = { w.vars with blocks := w.vars.blocks ++ [b.val] } ∧
        ∃ L, w.recorded c g.val = .ok L ∧ World.recorded c g.val w' = .ok (L ++ [b.val]))
      (fun _ w' _ => World.Steady c w' ∧ w'.vars = w.vars ∧
        chainBytes w'.disk = chainBytes w.disk)
      fun _ => True := by
  by_cases hopen : ∃ k fd, w.vars.lockFd = some k ∧ w.vars.chainFd = some fd ∧
      w.vars.genesisHash = some g.val
  · obtain ⟨k, fd, hlock, hfd, hgenesis⟩ := hopen
    obtain ⟨hchain, ⟨k', hlocked, hne⟩, g', t, hgenesis', hbytes, L, ht⟩ := h.chain fd hfd
    obtain rfl : g' = g.val := Option.some.inj (hgenesis'.symm.trans hgenesis)
    have htext := ht.append b
    refine (MedacStore.append_ends c b.val none hlock hgenesis hchain hbytes).mono ?_ ?_
      fun _ _ => trivial
    · rintro _ w' rest ⟨hframe, hvars, hafter, hle⟩
      rw [← utf8_append] at hafter hle
      have hlocked' : Locked w' k' :=
        hlocked.frame hframe (Set.notMem_empty _) (Set.notMem_empty _) (by rw [hvars])
      have hchain' : OnChain w' fd :=
        hchain.frame hframe (Set.notMem_empty _) (Set.notMem_empty _) (by rw [hvars])
      have hgenesis'' : w'.vars.genesisHash = some g.val := by rw [hvars, hgenesis]
      refine ⟨of_appending hlocked' hne hchain' hgenesis'' hafter hle htext, hvars, L, ?_, ?_⟩
      · rw [World.recorded_utf8 ht.complete hbytes, ht.decode_eq]
      · rw [World.recorded_utf8 htext.complete hafter, htext.decode_eq]
    · rintro e w' rest ⟨hframe, hvars, hafter, -⟩
      have hsame := hafter.trans hbytes.symm
      refine ⟨h.keep hframe (Set.notMem_empty _) (Set.notMem_empty _) ?_ ?_ ?_ hsame, hvars, hsame⟩
        <;> rw [hvars]
  · refine (append_closed_ends c b.val none ?_).mono (fun _ _ _ h => h.elim) ?_ fun _ _ => trivial
    · intro k fd hlock hfd hgenesis
      exact hopen ⟨k, fd, hlock, hfd, hgenesis⟩
    · rintro e w' rest rfl
      exact ⟨h, rfl, rfl⟩

/-- `replace` keeps it.  When it returns the blocks it was given are recorded; when it throws the
journal is as it was, if the store was open. -/
theorem replace_ends (h : World.Steady c w) (suffix : Str) (g : Digest)
    (blocks : List StoredBlock) :
    Ends (MedacStore.replace c pid suffix g.val (blocks.map Subtype.val)) w none
      (fun _ w' _ => World.Steady c w' ∧ (∃ fd chainFd, w'.vars = { w.vars with
          fd, chainFd := some chainFd, blocks := blocks.map Subtype.val }) ∧
        World.recorded c g.val w' = .ok (blocks.map Subtype.val) ∧ w.vars.chainFd ≠ none)
      (fun _ w' _ => World.Steady c w' ∧ (∃ fd, w'.vars = { w.vars with fd }) ∧
        (w.vars.chainFd ≠ none ∨ w.vars.lockFd = none →
          chainBytes w'.disk = chainBytes w.disk))
      fun _ => True := by
  by_cases hopen : ∃ k, w.vars.lockFd = some k ∧ w.vars.genesisHash = some g.val
  · obtain ⟨k, hlock, hgenesis⟩ := hopen
    have hlocked := h.lock k hlock
    have hhandles : ∀ fd, w.vars.chainFd = some fd → ∃ target, w.handles fd = some target := by
      intro fd hfd
      obtain ⟨i, hi, -⟩ := (h.chain fd hfd).onChain.file
      exact ⟨_, hi⟩
    have hne : ∀ fd, w.vars.chainFd = some fd → k ≠ fd := by
      intro fd hfd
      obtain ⟨k', hk', hne⟩ := (h.chain fd hfd).locked
      rw [Option.some.inj (hlock.symm.trans hk'.lockFd)]
      exact hne
    have htext := journalText_journalText c g.val blocks
    have hstill : ∀ {w' : World}, w.Frame {.temporary pid suffix, .chain} ∅
        {h | w.vars.chainFd = some h} w' → w'.vars.lockFd = w.vars.lockFd → Locked w' k := by
      intro w' hframe hvars
      exact hlocked.frame hframe (by simp) (fun hk => hne k hk rfl) hvars
    refine (MedacStore.replace_ends c pid suffix _ none hlock hgenesis hhandles).mono ?_ ?_
      fun _ _ => trivial
    · rintro _ w' rest ⟨⟨⟨hframe, hbytes⟩, fd, hfd, hchain', hvars⟩, -, hle, hsome, -⟩
      have hlt : k < w.nextHandle := by
        obtain ⟨target, htarget⟩ := hlocked.handle
        exact w.handle_lt htarget
      have hlocked' : Locked w' k := hstill hframe (by rw [hvars])
      have hgenesis' : w'.vars.genesisHash = some g.val := by rw [hvars, hgenesis]
      refine ⟨of_appending hlocked' (by omega) hchain' hgenesis' hbytes hle.byteLength_le htext,
        ⟨none, fd, ?_⟩, ?_, hsome⟩
      · rw [hvars]
      · rw [World.recorded_utf8 htext.complete hbytes, htext.decode_eq]
    · rintro e w' rest (⟨⟨hframe, fd, hvars⟩, -⟩ | ⟨⟨⟨hframe, hbytes⟩, fd, hvars⟩, -, hle, hreason⟩)
      · have hsame : chainBytes w'.disk = chainBytes w.disk :=
          chainBytes_frame hframe (by simp) fun _ _ => Set.notMem_empty _
        refine ⟨h.keep hframe (by simp) (by simp) ?_ ?_ ?_ hsame, ⟨fd, hvars⟩, fun _ => hsame⟩
          <;> rw [hvars]
      · have hnone : w.vars.chainFd = none := by
          rcases hreason with ⟨rest', hplan, hfails⟩ | hnone
          · obtain rfl := Plan.eq_none_of_delay hplan
            exact absurd rfl hfails.ne_none
          · exact hnone
        refine ⟨⟨hbytes ▸ usable_utf8 htext.complete hle.byteLength_le, ?_, ?_⟩, ⟨fd, hvars⟩, ?_⟩
        · intro k' hk'
          rw [hvars] at hk'
          obtain rfl : k = k' := Option.some.inj (hlock.symm.trans hk')
          exact hstill hframe (by rw [hvars])
        · intro fd' hfd'
          rw [hvars, hnone] at hfd'
          cases hfd'
        · rintro (hsome | hfree)
          · exact absurd hnone hsome
          · rw [hlock] at hfree
            cases hfree
  · refine (replace_closed_ends c pid suffix _ none ?_).mono (fun _ _ _ h => h.elim) ?_
      fun _ _ => trivial
    · intro k hlock hgenesis
      exact hopen ⟨k, hlock, hgenesis⟩
    · rintro e w' rest rfl
      exact ⟨h, ⟨w'.vars.fd, rfl⟩, fun _ => rfl⟩

theorem close_ends (h : World.Steady c w) :
    Ends MedacStore.close w none
      (fun _ w' _ => World.Steady c w' ∧
        w'.vars = { w.vars with chainFd := none, lockFd := none } ∧
        chainBytes w'.disk = chainBytes w.disk ∧
        (w.vars.lockFd ≠ none ∨ w.disk.entry .lock = none → w'.disk.entry .lock = none))
      (fun _ _ _ => False) fun _ => True := by
  have hhandles : ∀ fd, w.vars.chainFd = some fd → ∃ target, w.handles fd = some target := by
    intro fd hfd
    obtain ⟨i, hi, -⟩ := (h.chain fd hfd).onChain.file
    exact ⟨_, hi⟩
  have hlock : ∀ k, w.vars.lockFd = some k → w.vars.chainFd ≠ some k ∧
      ∃ target, w.handles k = some target := by
    intro k hk
    refine ⟨?_, (h.lock k hk).handle⟩
    intro hfd
    obtain ⟨k', hk', hne⟩ := (h.chain k hfd).locked
    exact hne (Option.some.inj (hk'.lockFd.symm.trans hk))
  refine (MedacStore.close_ends hhandles hlock).mono ?_ (fun _ _ _ h => h) fun _ _ => trivial
  rintro _ w' rest ⟨hvars, hbytes, hfree⟩
  refine ⟨⟨hbytes ▸ h.usable, ?_, ?_⟩, hvars, hbytes, hfree⟩
  · intro k hk
    rw [hvars] at hk
    cases hk
  · intro fd hfd
    rw [hvars] at hfd
    cases hfd

/-- **Every call keeps it.** -/
theorem after (h : World.Steady c w) (call : StoreCall) : (w.after c pid call).Steady c := by
  have hends : Ends (call.run c pid) w none (fun _ w' _ => World.Steady c w')
      (fun _ w' _ => World.Steady c w') fun _ => True := by
    cases call with
    | «open» g =>
        exact Ends.bind ((h.open_ends g).mono (fun _ _ _ h' => Ends.pure h'.1)
          (fun _ _ _ h' => h'.1) fun _ h' => h')
    | append g b =>
        exact (h.append_ends g b).mono (fun _ _ _ h' => h'.1) (fun _ _ _ h' => h'.1) fun _ h' => h'
    | replace suffix g blocks =>
        exact (h.replace_ends suffix g blocks).mono (fun _ _ _ h' => h'.1) (fun _ _ _ h' => h'.1)
          fun _ h' => h'
    | close =>
        exact h.close_ends.mono (fun _ _ _ h' => h'.1) (fun _ _ _ h' => h'.elim) fun _ h' => h'
  have hrun := (call.noCrash_run c pid).ends Plan.mild_none hends
  exact hrun.machine (fun _ _ _ h' => h'.1) (fun _ _ _ h' => h'.1) fun _ h' => h'.elim

theorem afterAll (h : World.Steady c w) (calls : List StoreCall) :
    (w.afterAll c pid calls).Steady c := by
  induction calls generalizing w with
  | nil => exact h
  | cons call calls ih => exact ih (h.after call)

/-! ### What the calls return -/

/-- **What `open` returns** is what is recorded, exactly if the object had no blocks. -/
theorem open_returned (h : World.Steady c w) (g : Digest) {blocks : List Json} {rest : Plan}
    (hrun : MedacStore.open c pid g.val w none = .returned blocks w' rest) :
    (w.recorded c g.val = .ok blocks ↔ w.vars.blocks = []) ∧
      World.recorded c g.val w' = w.recorded c g.val := by
  obtain ⟨-, ⟨L, hL, hL', hblocks⟩, -⟩ := (h.open_ends g).returned hrun
  refine ⟨?_, by rw [hL, hL']⟩
  rw [hL, hblocks, Except.ok.injEq, List.self_eq_append_left]

/-- **When `open` returns**: if the store is closed and the journal is in order. -/
theorem open_returns (h : World.Steady c w) (pid : ℕ) (g : Digest) (hL : w.recorded c g.val = .ok L)
    (hfree : w.disk.entry .lock = none) :
    ∃ w', MedacStore.open c pid g.val w none = .returned (w.vars.blocks ++ L) w' none := by
  rcases (noCrash_open c pid g.val).returned_or_thrown w with ⟨blocks, w', hrun⟩ | ⟨e, w', hrun⟩
  · obtain ⟨-, ⟨L', hL', -, rfl⟩, -⟩ := (h.open_ends g).returned hrun
    obtain rfl : L = L' := Except.ok.inj (hL.symm.trans hL')
    exact ⟨w', hrun⟩
  · obtain ⟨-, -, htaken⟩ := (h.open_ends g).thrown hrun
    exact absurd hfree (htaken L hL).2

/-- **What is appended is recorded**, after what was. -/
theorem append_returned (h : World.Steady c w) (g : Digest) (b : StoredBlock) {rest : Plan}
    (hrun : MedacStore.append c g.val b.val w none = .returned () w' rest) :
    ∃ L, w.recorded c g.val = .ok L ∧ World.recorded c g.val w' = .ok (L ++ [b.val]) :=
  ((h.append_ends g b).returned hrun).2.2

/-- **What is put in the place of the chain is recorded**, and nothing else. -/
theorem replace_returned (h : World.Steady c w) (suffix : Str) (g : Digest)
    (blocks : List StoredBlock) {rest : Plan}
    (hrun : MedacStore.replace c pid suffix g.val (blocks.map Subtype.val) w none =
      .returned () w' rest) :
    World.recorded c g.val w' = .ok (blocks.map Subtype.val) :=
  ((h.replace_ends suffix g blocks).returned hrun).2.2.1

/-- **Closing** returns, changes nothing that is recorded and gives the lock back. -/
theorem close_returns (h : World.Steady c w) :
    ∃ w', MedacStore.close w none = .returned () w' none ∧
      w'.vars = { w.vars with chainFd := none, lockFd := none } ∧
      (∀ g, World.recorded c g w' = w.recorded c g) ∧
      (w.vars.lockFd ≠ none → w'.disk.entry .lock = none) := by
  rcases noCrash_close.returned_or_thrown w with ⟨⟨⟩, w', hrun⟩ | ⟨e, w', hrun⟩
  · obtain ⟨-, hvars, hbytes, hfree⟩ := h.close_ends.returned hrun
    exact ⟨w', hrun, hvars, fun _ => World.recorded_congr hbytes, fun hne => hfree (Or.inl hne)⟩
  · exact (h.close_ends.thrown hrun).elim

end World.Steady

/-- **The books of a store**: what the next call returns, and what it does to the blocks that are
recorded. -/
structure World.Books (c : Crypto) (pid : ℕ) (w : World) : Prop where
  open_returned : ∀ (g : Digest) blocks w' rest,
    MedacStore.open c pid g.val w none = .returned blocks w' rest →
      (w.recorded c g.val = .ok blocks ↔ w.vars.blocks = []) ∧
        World.recorded c g.val w' = w.recorded c g.val
  open_thrown : ∀ (g : Digest) e w' rest,
    MedacStore.open c pid g.val w none = .thrown e w' rest →
      World.recorded c g.val w' = w.recorded c g.val
  open_returns : ∀ (g : Digest) L, w.recorded c g.val = .ok L → w.disk.entry .lock = none →
    ∃ w', MedacStore.open c pid g.val w none = .returned (w.vars.blocks ++ L) w' none
  append_returned : ∀ (g : Digest) (b : StoredBlock) w' rest,
    MedacStore.append c g.val b.val w none = .returned () w' rest →
      ∃ L, w.recorded c g.val = .ok L ∧ World.recorded c g.val w' = .ok (L ++ [b.val])
  append_thrown : ∀ (g : Digest) (b : StoredBlock) e w' rest,
    MedacStore.append c g.val b.val w none = .thrown e w' rest →
      ∀ h, World.recorded c h w' = w.recorded c h
  replace_returned : ∀ (suffix : Str) (g : Digest) (blocks : List StoredBlock) w' rest,
    MedacStore.replace c pid suffix g.val (blocks.map Subtype.val) w none =
        .returned () w' rest →
      World.recorded c g.val w' = .ok (blocks.map Subtype.val)
  replace_thrown : ∀ (suffix : Str) (g : Digest) (blocks : List StoredBlock) e w' rest,
    MedacStore.replace c pid suffix g.val (blocks.map Subtype.val) w none = .thrown e w' rest →
      w.vars.chainFd ≠ none → ∀ h, World.recorded c h w' = w.recorded c h
  close_returns : ∃ w', MedacStore.close w none = .returned () w' none ∧
    w'.vars = { w.vars with chainFd := none, lockFd := none } ∧
    (∀ g, World.recorded c g w' = w.recorded c g) ∧
    (w.vars.lockFd ≠ none → w'.disk.entry .lock = none)

/-- The books of a store are kept. -/
theorem World.Steady.books (h : World.Steady c w) : w.Books c pid where
  open_returned g _ _ _ hrun := h.open_returned g hrun
  open_thrown g _ _ _ hrun := ((h.open_ends g).thrown hrun).2.1
  open_returns g _ hL hfree := h.open_returns pid g hL hfree
  append_returned g b _ _ hrun := h.append_returned g b hrun
  append_thrown g b _ _ _ hrun _ := World.recorded_congr ((h.append_ends g b).thrown hrun).2.2
  replace_returned suffix g blocks _ _ hrun := h.replace_returned suffix g blocks hrun
  replace_thrown suffix g blocks _ _ _ hrun hsome _ :=
    World.recorded_congr (((h.replace_ends suffix g blocks).thrown hrun).2.2 (Or.inl hsome))
  close_returns := h.close_returns

end Medac
