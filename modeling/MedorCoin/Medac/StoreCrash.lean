/-
**Recovering after crashes.**

A process may die at any call while it opens the store, appends to it or replaces its chain; any
first part of the bytes being written may have reached the disk.  Once its lock file is gone the
directory is opened again, perhaps after more crashes on the way.  The blocks found then are those
before or those after the operation that was cut off, with one exception: if a process dies while
it writes the header of a new journal, that journal can never be opened again.

Main definitions:

* `Medac.Sane`, `Medac.Torn` — a journal, or none, that records some blocks, and the first part of
  a header;
* `Medac.TearsHeader` — a crash before the end of the header is written;
* `Medac.Interrupted`, `Medac.Crashes` — an operation that was cut off, and recoveries that were.

Main results:

* `Medac.Sane.crash`, `Medac.Torn.crash` — what a crash while opening leaves;
* `Medac.crash_recovery` — **crash recovery**.
-/

import MedorCoin.Medac.StoreReplace

set_option autoImplicit false

namespace Medac

open Js Crash Crash.Prog MedacStore

variable {c : Crypto} {g : Digest} {d d' : Disk StorePath} {w w' : World} {L : List Json} {pid : ℕ}
  {k x : ℕ}

/-! ### What is on the disk -/

/-- The bytes of the header of a new journal. -/
def headerBytes (c : Crypto) (g : Digest) : Bytes := utf8 (encodeRecord c (headerRecord g.val))

/-- A directory in which the blocks are recorded, or, if there are none, one without a journal. -/
def Sane (c : Crypto) (g : Digest) (d : Disk StorePath) (L : List Json) : Prop :=
  (chainBytes d = none ∧ L = []) ∨
    ∃ bytes, chainBytes d = some bytes ∧ Journal c g.val L bytes ∧ bytes.length ≤ maxStoreBytes

/-- A directory whose journal is a part of a header. -/
def Torn (c : Crypto) (g : Digest) (d : Disk StorePath) : Prop :=
  ∃ x, x < (headerBytes c g).length ∧ chainBytes d = some ((headerBytes c g).take x)

/-- **A process that dies at the call `k`, after the extent `x`, does not finish the header**: the
journal has just been created, which is the call number 5 of `open`, and the call number 6 writes
its header. -/
def TearsHeader (c : Crypto) (g : Digest) (d : Disk StorePath) (k x : ℕ) : Prop :=
  chainBytes d = none ∧ k = 6 ∧ x < (headerBytes c g).length

theorem Sane.congr (h : Sane c g d L) (hsame : chainBytes d' = chainBytes d) : Sane c g d' L := by
  rw [Sane, hsame]
  exact h

theorem Sane.usable (h : Sane c g d L) : Usable (chainBytes d) := by
  rcases h with ⟨hnone, -⟩ | ⟨bytes, hsome, ⟨t, tail, ht, htail, rfl⟩, hle⟩
  · rw [hnone]
    exact usable_none
  · rw [hsome]
    refine ⟨?_, ?_⟩
    · rintro _ ⟨⟩
      exact ⟨t, tail, ht.complete, htail, rfl⟩
    · rintro _ ⟨⟩
      exact hle

/-- **A sane directory is opened**, and its blocks are found. -/
theorem Sane.reopens (h : Sane c g d L) : Reopens c g d L := by
  have hrecorded : World.recorded c g.val (Machine.boot d MedacStore.create) = .ok L := by
    rcases h with ⟨hnone, rfl⟩ | ⟨bytes, hsome, hjournal, -⟩
    · rw [World.recorded, Machine.boot_disk, hnone]
    · rw [World.recorded, Machine.boot_disk, hsome]
      exact hjournal.recordedBlocks_eq
  exact reopens_of_recorded (w := Machine.boot d MedacStore.create) h.usable hrecorded

theorem newline_not_mem_headerBytes (h : x < (headerBytes c g).length) :
    (10 : UInt8) ∉ (headerBytes c g).take x := newline_not_mem_take h

theorem eq_nil_of_complete {t : Str} {tail bytes : Bytes} (ht : Complete t)
    (hbytes : (10 : UInt8) ∉ bytes) (h : bytes = utf8 t ++ tail) : t = [] := by
  rcases ht with rfl | ⟨s, rfl⟩
  · rfl
  · refine absurd ?_ hbytes
    have hnewline : (10 : UInt8) ∈ utf8 ['\n'] := by decide
    rw [h, utf8_append, List.append_assoc]
    exact List.mem_append_right _ (List.mem_append_left _ hnewline)

theorem Torn.finds (h : Torn c g d) {t : Str} (hfinds : Finds c g.val (chainBytes d) t) :
    t = [] := by
  obtain ⟨x, hx, hbytes⟩ := h
  rw [hbytes] at hfinds
  rcases hfinds with ⟨hnone, -⟩ | ⟨tail, ht, -, hsome⟩
  · cases hnone
  · exact eq_nil_of_complete ht (newline_not_mem_headerBytes hx) (Option.some.inj hsome)

theorem Torn.readable (h : Torn c g d) : Readable (chainBytes d) := by
  obtain ⟨x, hx, hbytes⟩ := h
  rw [hbytes]
  rintro _ ⟨⟩
  exact ⟨[], _, complete_nil, newline_not_mem_headerBytes hx, rfl⟩

/-- **A torn journal is never opened.** -/
theorem Torn.not_reopens (h : Torn c g d) : ¬ Reopens c g d L := by
  intro hreopens
  obtain ⟨w, hrun⟩ := hreopens 0
  have htorn : Torn c g (d.unlink .lock) := by
    rw [Torn, chainBytes_unlink]
    exact h
  have hends := MedacStore.open_ends (m := Machine.boot (d.unlink .lock) MedacStore.create) c 0
    g.val htorn.readable none
  obtain ⟨t, L', hfinds, hL', -⟩ := (hends.returned hrun).journal
  rw [htorn.finds hfinds] at hL'
  cases hL'

/-! ### Crashes while opening -/

/-- What a process that dies while opening leaves of a torn journal is torn. -/
theorem Torn.crash (h : Torn c g d) (hrun : MedacStore.open c pid g.val
      (Machine.boot d MedacStore.create) (some (k, .crash x)) = .crashed w) :
    Torn c g w.disk := by
  have hends := MedacStore.open_ends (m := Machine.boot d MedacStore.create) c pid g.val h.readable
    (some (k, .crash x))
  have hleaves := hends.crashed hrun
  obtain ⟨x', hx', hbytes⟩ := h
  rw [Machine.boot_disk] at hleaves
  generalize hafter : chainBytes w.disk = after at hleaves
  cases hleaves with
  | same => exact ⟨x', hx', hafter.trans hbytes⟩
  | repaired ht htail hsome =>
      rw [hbytes, Option.some.injEq] at hsome
      rw [eq_nil_of_complete ht (newline_not_mem_headerBytes hx') hsome] at hafter
      exact ⟨0, by omega, by rw [hafter, utf8_nil, List.take_zero]⟩
  | created hnone _ =>
      rw [hbytes] at hnone
      cases hnone

/-- **What a process that dies while opening leaves** of a sane directory is sane, unless the
header is torn. -/
theorem Sane.crash (h : Sane c g d L) (hrun : MedacStore.open c pid g.val
      (Machine.boot d MedacStore.create) (some (k, .crash x)) = .crashed w)
    (hheader : ¬ TearsHeader c g d k x) : Sane c g w.disk L := by
  have hends := MedacStore.open_ends (m := Machine.boot d MedacStore.create) c pid g.val
    h.usable.readable (some (k, .crash x))
  have hleaves := hends.crashed hrun
  rw [Machine.boot_disk] at hleaves
  generalize hafter : chainBytes w.disk = after at hleaves
  cases hleaves with
  | same => exact h.congr hafter
  | repaired ht htail hsome =>
      rcases h with ⟨hnone, -⟩ | ⟨bytes, hbytes, hjournal, hle⟩
      · rw [hnone] at hsome
        cases hsome
      · obtain ⟨t', tail', ht', htail', rfl⟩ := hjournal
        have hsplit := Option.some.inj (hbytes.symm.trans hsome)
        have htext := completePart_decode ht'.complete htail'
        rw [hsplit, completePart_decode ht htail] at htext
        subst htext
        rw [hsplit, List.length_append] at hle
        exact Or.inr ⟨_, hafter, ht'.journal, le_trans (Nat.le_add_right _ _) hle⟩
  | created hnone hwritten =>
      have hnil : L = [] := by
        rcases h with ⟨-, hnil⟩ | ⟨bytes, hbytes, -⟩
        · exact hnil
        · rw [hnone] at hbytes
          cases hbytes
      have hfull : chainBytes w.disk = some (headerBytes c g) → Sane c g w.disk L := by
        intro hbytes
        rw [hnil]
        exact Or.inr ⟨_, hbytes, (journalText_header c g.val).journal,
          byteLength_header_le c g.property⟩
      rcases hwritten with hheader' | ⟨x', hcut, hpart⟩
      · exact hfull (hafter.trans hheader')
      · rcases hcut with hcut | hcut
        · cases hcut
        · cases hcut
          rcases Nat.lt_or_ge x (headerBytes c g).length with hlt | hge
          · exact absurd ⟨hnone, rfl, hlt⟩ hheader
          · refine hfull (hafter.trans ?_)
            rw [hpart]
            exact congrArg some (List.take_of_length_le hge)

theorem acquireLock_run {f : Fault} (hlock : w.disk.entry .lock = none) :
    acquireLock pid w (some (4, f)) = .returned ()
      (((w.create .lock).setVars { w.vars with lockFd := some w.nextHandle }).put w.disk.next
        (utf8 (numeral pid ++ ['\n']))) (some (1, f)) := by
  simp only [acquireLock, Prog.attempt, bind, andThen, Fs.openNew, Prog.call, hlock, assign,
    Prog.update, Fs.write, Fs.sync]
  simp

theorem acquireLock_taken (pid : ℕ) {f : Fault} {i : ℕ} (hlock : w.disk.entry .lock = some i) :
    ∃ e, acquireLock pid w (some (4, f)) = .thrown e w (some (3, f)) := by
  simp only [acquireLock, Prog.attempt, bind, andThen, Fs.openNew, Prog.call, hlock]
  exact ⟨_, rfl⟩

theorem createJournal_run (hchain : w.disk.entry .chain = none) :
    createJournal c g.val w (some (1, .crash x)) =
      .crashed ((w.create .chain).put w.disk.next ((headerBytes c g).take x)) := by
  simp only [createJournal, Prog.ensure, Prog.attempt, bind, andThen, Fs.openNew, Prog.call, hchain,
    Fs.write]
  simp [headerBytes]

/-- What `open` does once it holds the lock. -/
def openLocked (c : Crypto) (genesisHash : Str) : StoreProg (List Json) := do
  assign fun store => { store with genesisHash := some genesisHash }
  let found ← Fs.exists .chain
  if found then pure () else createJournal c genesisHash
  let contents ← readJournal
  loadBlocks c genesisHash contents
  let fd ← Fs.openAppend .chain
  assign fun store => { store with chainFd := some fd }
  Prog.read fun m => m.vars.blocks

theorem open_start {f : Fault} : MedacStore.open c pid g.val w (some (6, f)) =
    (acquireLock pid >>= fun _ => openLocked c g.val) w (some (4, f)) := rfl

theorem open_cutHeader (c : Crypto) (g : Digest) (pid : ℕ) (hchain : w.disk.entry .chain = none)
    (hlock : w.disk.entry .lock = none) (x : ℕ) :
    ∃ w', MedacStore.open c pid g.val w (some (6, .crash x)) = .crashed w' ∧
      chainBytes w'.disk = some ((headerBytes c g).take x) := by
  rw [open_start, Prog.bind_of_returned (acquireLock_run hlock), openLocked]
  set w₁ : World := ((w.create .lock).setVars { w.vars with lockFd := some w.nextHandle }).put
    w.disk.next (utf8 (numeral pid ++ ['\n'])) with hw₁
  set w₂ : World := w₁.setVars { w₁.vars with genesisHash := some g.val } with hw₂
  have hassign : assign (fun store => { store with genesisHash := some g.val }) w₁
      (some (1, .crash x)) = .returned () w₂ (some (1, .crash x)) := rfl
  have hchain₂ : w₂.disk.entry .chain = none := by simp [hw₂, hw₁, hchain]
  have hexists : (Fs.exists .chain : StoreProg Bool) w₂ (some (1, .crash x)) =
      .returned false w₂ (some (1, .crash x)) := by
    rw [Fs.exists, Prog.read, hchain₂]
    rfl
  rw [Prog.bind_of_returned hassign, Prog.bind_of_returned hexists, if_neg Bool.false_ne_true,
    Prog.bind_of_crashed (createJournal_run hchain₂)]
  exact ⟨_, rfl, chainBytes_eq_some.2 ⟨w₂.disk.next, by simp, by simp⟩⟩

/-- **A process that dies while it writes the header tears it.** -/
theorem torn_of_tearsHeader (hrun : MedacStore.open c pid g.val
      (Machine.boot d MedacStore.create) (some (k, .crash x)) = .crashed w)
    (hheader : TearsHeader c g d k x) : Torn c g w.disk := by
  obtain ⟨hnone, rfl, hx⟩ := hheader
  cases hlock : d.entry .lock with
  | some i =>
      obtain ⟨e, htaken⟩ := acquireLock_taken (w := Machine.boot d MedacStore.create) pid
        (f := .crash x) hlock
      rw [open_start, Prog.bind_of_thrown htaken] at hrun
      cases hrun
  | none =>
      obtain ⟨w', hrun', hbytes⟩ := open_cutHeader c g pid
        (w := Machine.boot d MedacStore.create) (chainBytes_eq_none.1 hnone) hlock x
      rw [hrun'] at hrun
      cases hrun
      exact ⟨x, hx, hbytes⟩

/-! ### Crashes and recoveries -/

/-- An operation that was cut off: the disk it leaves, the blocks that were recorded before it and
would have been after it, and whether it tore a header. -/
inductive Interrupted (c : Crypto) (g : Digest) :
    Disk StorePath → List Json → List Json → Prop → Prop
  | «open» {d : Disk StorePath} {L : List Json} {pid k x : ℕ} {w : World} (h : Sane c g d L)
      (hrun : MedacStore.open c pid g.val (Machine.boot d MedacStore.create)
        (some (k, .crash x)) = .crashed w) :
      Interrupted c g w.disk L L (TearsHeader c g d k x)
  | append {w w' : World} {L : List Json} {k x : ℕ} (b : StoredBlock) (h : Coherent c g w L)
      (hrun : MedacStore.append c g.val b.val w (some (k, .crash x)) = .crashed w') :
      Interrupted c g w'.disk L (L ++ [b.val]) False
  | replace {w w' : World} {L : List Json} {pid k x : ℕ} {suffix : Str} (blocks : List StoredBlock)
      (h : Coherent c g w L)
      (hrun : MedacStore.replace c pid suffix g.val (blocks.map Subtype.val) w
        (some (k, .crash x)) = .crashed w') :
      Interrupted c g w'.disk L (blocks.map Subtype.val) False

/-- Recoveries that were cut off, each after the lock of the process before was removed, and
whether one of them tore a header. -/
inductive Crashes (c : Crypto) (g : Digest) : Disk StorePath → Disk StorePath → Prop → Prop
  | nil (d : Disk StorePath) : Crashes c g d d False
  | cons {d d' : Disk StorePath} {pid k x : ℕ} {w : World} {torn : Prop}
      (hrun : MedacStore.open c pid g.val (Machine.boot (d.unlink .lock) MedacStore.create)
        (some (k, .crash x)) = .crashed w)
      (h : Crashes c g w.disk d' torn) : Crashes c g d d' (TearsHeader c g d k x ∨ torn)

theorem TearsHeader.unlink : TearsHeader c g (d.unlink .lock) k x ↔ TearsHeader c g d k x := by
  rw [TearsHeader, chainBytes_unlink, TearsHeader]

theorem Coherent.sane (h : Coherent c g w L) : Sane c g w.disk L := by
  obtain ⟨t, hbytes, ht, hle⟩ := h.journal
  exact Or.inr ⟨_, hbytes, ht.journal, hle⟩

theorem Torn.unlink (h : Torn c g d) : Torn c g (d.unlink .lock) := by
  rw [Torn, chainBytes_unlink]
  exact h

/-- **What an operation that was cut off leaves.** -/
theorem Interrupted.sane {before after : List Json} {torn : Prop}
    (h : Interrupted c g d before after torn) :
    (torn ∧ Torn c g d) ∨ (¬ torn ∧ (Sane c g d before ∨ Sane c g d after)) := by
  cases h with
  | @«open» d L pid k x w hsane hrun =>
      by_cases hheader : TearsHeader c g d k x
      · exact Or.inl ⟨hheader, torn_of_tearsHeader hrun hheader⟩
      · exact Or.inr ⟨hheader, Or.inl (hsane.crash hrun hheader)⟩
  | @append w w' L k x b hcoherent hrun =>
      refine Or.inr ⟨not_false, ?_⟩
      obtain ⟨k', hlock⟩ := Option.ne_none_iff_exists'.1 hcoherent.lockFd
      obtain ⟨fd, hchain⟩ := hcoherent.onChain
      obtain ⟨t, hbytes, ht, hle⟩ := hcoherent.journal
      have hends := MedacStore.append_ends c b.val (some (k, .crash x)) hlock
        hcoherent.genesisHash hchain hbytes
      rcases hends.crashed hrun with hsame | ⟨hfits, y, hpart⟩
      · exact Or.inl (Or.inr ⟨_, hsame, ht.journal, hle⟩)
      · have hlen : (utf8 t ++ (utf8 (encodeRecord c (blockRecord b.val))).take y).length ≤
            maxStoreBytes := by
          refine le_trans ?_ hfits
          rw [List.length_append, List.length_append, List.length_take]
          exact Nat.add_le_add_left (Nat.min_le_right _ _) _
        rcases ht.tear b y with htear | hfull
        · exact Or.inl (Or.inr ⟨_, hpart, htear, hlen⟩)
        · exact Or.inr (Or.inr ⟨_, hpart, hfull, hlen⟩)
  | @replace w w' L pid k x suffix blocks hcoherent hrun =>
      refine Or.inr ⟨not_false, ?_⟩
      obtain ⟨k', hlock⟩ := Option.ne_none_iff_exists'.1 hcoherent.lockFd
      have hhandles : ∀ fd, w.vars.chainFd = some fd → ∃ target, w.handles fd = some target := by
        intro fd' hfd'
        obtain ⟨fd, hchain⟩ := hcoherent.onChain
        obtain rfl : fd' = fd := Option.some.inj (hfd'.symm.trans hchain.chainFd)
        obtain ⟨i, hi, -⟩ := hchain.file
        exact ⟨_, hi⟩
      have hends := MedacStore.replace_ends c pid suffix (blocks.map Subtype.val)
        (some (k, .crash x)) hlock hcoherent.genesisHash hhandles
      rcases hends.crashed hrun with hframe | ⟨hbytes, hfits⟩
      · refine Or.inl (hcoherent.sane.congr ?_)
        exact chainBytes_frame hframe (by simp) fun _ _ => Set.notMem_empty _
      · refine Or.inr (Or.inr ⟨_, hbytes, ?_, hfits.byteLength_le⟩)
        exact (journalText_journalText c g.val blocks).journal

theorem Crashes.torn {torn : Prop} (h : Crashes c g d d' torn) (htorn : Torn c g d) :
    Torn c g d' := by
  induction h with
  | nil d => exact htorn
  | cons hrun _ ih => exact ih (htorn.unlink.crash hrun)

theorem Crashes.sane {torn : Prop} (h : Crashes c g d d' torn) (hsane : Sane c g d L) :
    (torn ∧ Torn c g d') ∨ (¬ torn ∧ Sane c g d' L) := by
  induction h with
  | nil d => exact Or.inr ⟨not_false, hsane⟩
  | @cons d d' pid k x w torn hrun h ih =>
      have hsane' : Sane c g (d.unlink .lock) L := hsane.congr (chainBytes_unlink d)
      by_cases hheader : TearsHeader c g d k x
      · have htorn := torn_of_tearsHeader hrun (TearsHeader.unlink.2 hheader)
        exact Or.inl ⟨Or.inl hheader, h.torn htorn⟩
      · rcases ih (hsane'.crash hrun fun h => hheader (TearsHeader.unlink.1 h)) with
          ⟨htears, htorn⟩ | ⟨hnot, hend⟩
        · exact Or.inl ⟨Or.inr htears, htorn⟩
        · exact Or.inr ⟨fun hor => hor.elim hheader hnot, hend⟩

/-- **Crash recovery.**  An operation is cut off by a crash, and so may be any number of
recoveries after it.  The next process to open the directory finds the blocks before or after the
operation, exactly if no crash came between the creation of a journal and the end of its header. -/
theorem crash_recovery {before after : List Json} {torn torn' : Prop}
    (h : Interrupted c g d before after torn) (h' : Crashes c g d d' torn') :
    (Reopens c g d' before ∨ Reopens c g d' after) ↔ ¬ (torn ∨ torn') := by
  have hnever : Torn c g d' → ¬ (Reopens c g d' before ∨ Reopens c g d' after) := by
    rintro htorn (hreopens | hreopens)
    · exact htorn.not_reopens hreopens
    · exact htorn.not_reopens hreopens
  rcases h.sane with ⟨htears, htorn⟩ | ⟨hnot, hsane | hsane⟩
  · exact iff_of_false (hnever (h'.torn htorn)) fun hneither => hneither (Or.inl htears)
  · rcases h'.sane hsane with ⟨htears, htorn⟩ | ⟨hnot', hend⟩
    · exact iff_of_false (hnever htorn) fun hneither => hneither (Or.inr htears)
    · exact iff_of_true (Or.inl hend.reopens) fun hor => hor.elim hnot hnot'
  · rcases h'.sane hsane with ⟨htears, htorn⟩ | ⟨hnot', hend⟩
    · exact iff_of_false (hnever htorn) fun hneither => hneither (Or.inr htears)
    · exact iff_of_true (Or.inr hend.reopens) fun hor => hor.elim hnot hnot'

theorem append_cut (h : Coherent c g w L) (b : StoredBlock) (x : ℕ) :
    MedacStore.append c g.val b.val w (some (0, .crash x)) = .crashed w := by
  obtain ⟨k, hlock⟩ := Option.ne_none_iff_exists'.1 h.lockFd
  obtain ⟨fd, hchain⟩ := h.onChain
  have hread : (Prog.read fun m => m.vars : StoreProg MedacStore) w (some (0, .crash x)) =
      .returned w.vars w (some (0, .crash x)) := rfl
  rw [MedacStore.append, Prog.bind_of_returned hread]
  simp only [hlock, hchain.chainFd, h.genesisHash, beq_self_eq_true]
  exact Prog.bind_of_crashed rfl

theorem crash_recovery_sample :
    Reopens sampleCrypto (sampleConsensus.digest sampleCrypto) sampleStore.world.disk [] ∨
      Reopens sampleCrypto (sampleConsensus.digest sampleCrypto) sampleStore.world.disk
        ([] ++ [sampleStored.val]) := by
  have hcoherent := sampleStore_describes.coherent
  have hcut := append_cut hcoherent sampleStored 0
  rw [crash_recovery (Interrupted.append sampleStored hcoherent hcut) (Crashes.nil _), or_self]
  exact not_false

/-- A process that creates the journal dies before it writes the header: no process finds anything
in the directory again. -/
theorem exists_torn (c : Crypto) (g : Digest) : ∃ d before after torn,
    Interrupted c g d before after torn ∧ ¬ (Reopens c g d before ∨ Reopens c g d after) := by
  obtain ⟨w, hrun, hbytes⟩ := open_cutHeader c g 1
    (w := Machine.boot Disk.empty MedacStore.create) rfl rfl 0
  have hlen : 0 < (headerBytes c g).length := by
    rw [headerBytes, encodeRecord, utf8_append, List.length_append]
    exact Nat.succ_pos _
  have htorn : Torn c g w.disk := ⟨0, hlen, hbytes⟩
  refine ⟨w.disk, [], [], _, .open (Or.inl ⟨rfl, rfl⟩) hrun, ?_⟩
  rintro (h | h)
  · exact htorn.not_reopens h
  · exact htorn.not_reopens h

/-- That happens to the small network. -/
theorem crash_recovery_torn : ∃ d before after torn,
    Interrupted sampleCrypto (sampleConsensus.digest sampleCrypto) d before after torn ∧
      ¬ (Reopens sampleCrypto (sampleConsensus.digest sampleCrypto) d before ∨
        Reopens sampleCrypto (sampleConsensus.digest sampleCrypto) d after) :=
  exists_torn _ _

end Medac
