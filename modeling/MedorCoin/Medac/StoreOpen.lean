/-
**What opening the store does.**

`open` is followed call by call, under every plan.  Each part has one lemma, which says what it
leaves of the directory when it returns, when it throws and when it crashes; the next part uses
that lemma and nothing else.

Main definitions:

* `Medac.MedacStore.chainBytes` — the contents of the journal file;
* `Medac.MedacStore.Locked`, `Medac.MedacStore.OnChain`, `Medac.MedacStore.Opened` — an object that
  holds its lock, and one that appends to the journal file;
* `Medac.MedacStore.Finds` — the complete lines that `open` finds;
* `Medac.MedacStore.OpenReturns`, `Medac.MedacStore.OpenThrows`, `Medac.MedacStore.OpenLeaves` — the
  ends of `open`.

Main results:

* `Medac.MedacStore.acquireLock_ends`, `Medac.MedacStore.createJournal_ends`,
  `Medac.MedacStore.readJournal_ends`, `Medac.MedacStore.loadBlocks_ends` — the parts;
* `Medac.MedacStore.open_ends` — **opening**.
-/

import MedorCoin.Medac.Store

set_option autoImplicit false

namespace Medac

open Js Crash Crash.Prog

namespace MedacStore

variable {c : Crypto} {g : Str} {m m' : World} {plan : Plan}

/-! ### The directory and the lock -/

theorem syncDirectory_ends (m : World) (plan : Plan) :
    Ends syncDirectory m plan
      (fun _ m' rest => m.Frame ∅ ∅ ∅ m' ∧ m'.vars = m.vars ∧ plan = Plan.delay 3 rest)
      (fun _ m' _ => m.Frame ∅ ∅ ∅ m' ∧ m'.vars = m.vars ∧ plan.FailsBefore 3)
      (fun m' => m.Frame ∅ ∅ ∅ m') := by
  have hframe : m.Frame ∅ ∅ ∅ m.openDirectory := (Machine.Frame.refl _ _ _ m).openDirectory
  have hhandle : m.openDirectory.handles m.nextHandle = some .directory := by simp
  refine Ends.bind (Ends.openDirectory ?_ ?_ (Machine.Frame.refl _ _ _ m))
  · intro r₁ h₁
    refine Ends.ensure (Ends.sync hhandle ?_ ?_ hframe)
    · intro r₂ h₂
      have h₂' := Plan.delay_succ h₁ h₂
      refine (Ends.closeNew hframe (Or.inl le_rfl) hhandle).mono ?_ ?_ fun m' hm' => hm'.1
      · rintro _ m' r₃ ⟨hm', hvars, -, h₃⟩
        exact ⟨hm', hvars, Plan.delay_succ h₂' h₃⟩
      · rintro e m' r₃ ⟨hm', hvars, -, h₃⟩
        exact ⟨hm', hvars, h₂' ▸ h₃.delay⟩
    · intro x h₂
      have hfails := (Plan.failsBefore_of_delay h₁ h₂).mono (Nat.le_succ 2)
      refine (Ends.closeNew hframe (Or.inl le_rfl) hhandle).mono ?_ ?_ fun m' hm' => hm'.1
      · rintro _ m' r₃ ⟨hm', hvars, -⟩
        exact ⟨hm', hvars, hfails⟩
      · rintro e m' r₃ ⟨hm', hvars, -⟩
        exact ⟨hm', hvars, hfails⟩
  · intro x h₁
    have hfails := Plan.failsBefore_of_delay (Plan.delay_zero plan).symm h₁
    exact ⟨Machine.Frame.refl _ _ _ m, rfl, hfails.mono (by omega)⟩

/-- **Taking the lock.** -/
theorem acquireLock_ends (pid : ℕ) (m : World) (plan : Plan) :
    Ends (acquireLock pid) m plan
      (fun _ m' rest => m.Frame {.lock} ∅ ∅ m' ∧
        m'.vars = { m.vars with lockFd := some m.nextHandle } ∧
        m'.handles m.nextHandle = some (.file m.disk.next) ∧ m.disk.entry .lock = none ∧
        m'.disk.entry .lock = some m.disk.next ∧ plan = Plan.delay 3 rest)
      (fun _ m' _ => (m' = m ∧ m.disk.entry .lock ≠ none) ∨
        (m.Frame {.lock} ∅ ∅ m' ∧ (∃ fd, m'.vars = { m.vars with lockFd := fd }) ∧
          plan.FailsBefore 3))
      (fun m' => m.Frame {.lock} ∅ ∅ m') := by
  let m₁ : World := (m.create .lock).setVars { m.vars with lockFd := some m.nextHandle }
  have hframe : m.Frame {.lock} ∅ ∅ m₁ :=
    ((Machine.Frame.refl _ _ _ m).create (Set.mem_singleton _)).setVars _
  have hput : ∀ bytes, m.Frame {.lock} ∅ ∅ (m₁.put m.disk.next bytes) := by
    intro bytes
    exact hframe.put (Or.inl le_rfl) bytes
  have hhandle : m₁.handles m.nextHandle = some (.file m.disk.next) := by simp [m₁]
  refine Ends.attempt (Ends.bind (Ends.openNew ?_ ?_ ?_ (Machine.Frame.refl _ _ _ m)))
  · intro r₁ hfree h₁
    have h₁' : plan = Plan.delay 1 r₁ := h₁
    refine Ends.bind (Ends.update (Ends.bind (Ends.write hhandle ?_ ?_ fun x _ => hput _)))
    · intro r₂ h₂
      have h₂' := Plan.delay_succ h₁' h₂
      refine Ends.sync hhandle ?_ ?_ (hput _)
      · intro r₃ h₃
        refine ⟨hput _, rfl, hhandle, hfree, ?_, Plan.delay_succ h₂' h₃⟩
        simp
      · intro x h₃
        exact Ends.raise (Or.inr ⟨hput _, ⟨_, rfl⟩, Plan.failsBefore_of_delay h₂' h₃⟩)
    · intro x h₂
      have hfails := (Plan.failsBefore_of_delay h₁' h₂).mono (Nat.le_succ 2)
      exact Ends.raise (Or.inr ⟨hput _, ⟨_, rfl⟩, hfails⟩)
  · intro i rest htaken _
    refine Ends.raise (Or.inl ⟨rfl, ?_⟩)
    rw [htaken]
    exact Option.some_ne_none i
  · intro x h₁
    have hfails := Plan.failsBefore_of_delay (Plan.delay_zero plan).symm h₁
    exact Ends.raise (Or.inr ⟨Machine.Frame.refl _ _ _ m, ⟨_, rfl⟩, hfails.mono (by omega)⟩)

/-! ### The journal file -/

/-- What is in the file at `chainPath`, if there is one. -/
def chainBytes (d : Disk StorePath) : Option Bytes := (d.entry .chain).map d.content

theorem chainBytes_of_entry {d : Disk StorePath} {i : ℕ} (h : d.entry .chain = some i) :
    chainBytes d = some (d.content i) := by
  rw [chainBytes, h]
  rfl

theorem chainBytes_eq_some {d : Disk StorePath} {bytes : Bytes} :
    chainBytes d = some bytes ↔ ∃ i, d.entry .chain = some i ∧ d.content i = bytes :=
  Option.map_eq_some_iff

theorem chainBytes_eq_none {d : Disk StorePath} : chainBytes d = none ↔ d.entry .chain = none :=
  Option.map_eq_none_iff

theorem chainBytes_frame {P : Set StorePath} {F H : Set ℕ} (h : m.Frame P F H m')
    (hP : StorePath.chain ∉ P) (hF : ∀ i, m.disk.entry .chain = some i → i ∉ F) :
    chainBytes m'.disk = chainBytes m.disk := by
  cases hchain : m.disk.entry .chain with
  | none =>
      rw [chainBytes_eq_none.2 hchain, chainBytes_eq_none.2 (by rw [h.entry _ hP, hchain])]
  | some i =>
      rw [chainBytes_of_entry hchain, chainBytes_of_entry (by rw [h.entry _ hP, hchain]),
        h.content_eq hchain (hF i hchain)]

/-- How far the header has been written, when the next call but `n` writes it. -/
def Written (header : Bytes) (n : ℕ) (plan : Plan) (after : Option Bytes) : Prop :=
  after = some header ∨ ∃ x, plan.Cuts n x ∧ after = some (header.take x)

theorem Written.delay {header : Bytes} {n k : ℕ} {after : Option Bytes}
    (h : Written header n plan after) : Written header (k + n) (Plan.delay k plan) after := by
  rcases h with h | ⟨x, hcut, h⟩
  · exact Or.inl h
  · exact Or.inr ⟨x, hcut.delay, h⟩

theorem writeHeader_ends (m : World) (plan : Plan) (header : Bytes) :
    Ends (ensure
        (do
          Fs.write m.nextHandle header
          Fs.sync m.nextHandle)
        (Fs.close m.nextHandle) : StoreProg Unit) (m.create .chain) plan
      (fun _ m' rest => m.Frame {.chain} ∅ ∅ m' ∧ m'.vars = m.vars ∧
        chainBytes m'.disk = some header ∧ plan = Plan.delay 3 rest)
      (fun _ m' _ => m.Frame {.chain} ∅ ∅ m' ∧ m'.vars = m.vars ∧
        Written header 0 plan (chainBytes m'.disk) ∧ plan.FailsBefore 3)
      (fun m' => m.Frame {.chain} ∅ ∅ m' ∧ Written header 0 plan (chainBytes m'.disk)) := by
  have hcreate : m.Frame {.chain} ∅ ∅ (m.create .chain) :=
    (Machine.Frame.refl _ _ _ m).create (Set.mem_singleton _)
  have hhandle : (m.create .chain).handles m.nextHandle = some (.file m.disk.next) := by simp
  have hput : ∀ bytes, m.Frame {.chain} ∅ ∅ ((m.create .chain).put m.disk.next bytes) :=
    fun bytes => hcreate.put (Or.inl le_rfl) bytes
  have hbytes : ∀ bytes, chainBytes ((m.create .chain).put m.disk.next bytes).disk =
      some bytes := by
    intro bytes
    exact chainBytes_eq_some.2 ⟨m.disk.next, by simp, by simp⟩
  have hempty : (m.create .chain).disk.content m.disk.next = [] := by simp
  refine Ends.ensure (Ends.bind (Ends.write hhandle ?_ ?_ ?_))
  · intro r₁ h₁
    rw [hempty, List.nil_append]
    refine Ends.sync hhandle ?_ ?_ ⟨hput _, Or.inl (hbytes _)⟩
    · intro r₂ h₂
      have h₂' := Plan.delay_succ h₁ h₂
      refine (Ends.closeNew (hput _) (Or.inl le_rfl) hhandle).mono ?_ ?_ ?_
      · rintro _ m' r₃ ⟨hframe, hvars, hdisk, h₃⟩
        exact ⟨hframe, hvars, hdisk ▸ hbytes _, Plan.delay_succ h₂' h₃⟩
      · rintro e m' r₃ ⟨hframe, hvars, hdisk, h₃⟩
        exact ⟨hframe, hvars, Or.inl (hdisk ▸ hbytes _), h₂' ▸ h₃.delay⟩
      · rintro m' ⟨hframe, hdisk⟩
        exact ⟨hframe, Or.inl (hdisk ▸ hbytes _)⟩
    · intro x h₂
      have hfails := (Plan.failsBefore_of_delay h₁ h₂).mono (Nat.le_succ 2)
      refine (Ends.closeNew (hput _) (Or.inl le_rfl) hhandle).mono ?_ ?_ ?_
      · rintro _ m' r₃ ⟨hframe, hvars, hdisk, -⟩
        exact ⟨hframe, hvars, Or.inl (hdisk ▸ hbytes _), hfails⟩
      · rintro e m' r₃ ⟨hframe, hvars, hdisk, -⟩
        exact ⟨hframe, hvars, Or.inl (hdisk ▸ hbytes _), hfails⟩
      · rintro m' ⟨hframe, hdisk⟩
        exact ⟨hframe, Or.inl (hdisk ▸ hbytes _)⟩
  · intro x h₁
    have hfails : plan.FailsBefore 3 :=
      (Plan.failsBefore_of_delay (Plan.delay_zero plan).symm h₁).mono (by omega)
    have hcut : ∀ after, after = some (header.take x) → Written header 0 plan after :=
      fun after h => Or.inr ⟨x, Or.inl h₁, h⟩
    rw [hempty, List.nil_append]
    refine (Ends.closeNew (hput _) (Or.inl le_rfl) hhandle).mono ?_ ?_ ?_
    · rintro _ m' r₃ ⟨hframe, hvars, hdisk, -⟩
      exact ⟨hframe, hvars, hcut _ (hdisk ▸ hbytes _), hfails⟩
    · rintro e m' r₃ ⟨hframe, hvars, hdisk, -⟩
      exact ⟨hframe, hvars, hcut _ (hdisk ▸ hbytes _), hfails⟩
    · rintro m' ⟨hframe, hdisk⟩
      exact ⟨hframe, hcut _ (hdisk ▸ hbytes _)⟩
  · intro x h₁
    rw [hempty, List.nil_append]
    exact ⟨hput _, Or.inr ⟨x, Or.inr h₁, hbytes _⟩⟩

/-- **Creating the journal.** -/
theorem createJournal_ends (c : Crypto) (g : Str) (plan : Plan)
    (hnone : m.disk.entry .chain = none) :
    Ends (createJournal c g) m plan
      (fun _ m' rest => m.Frame {.chain} ∅ ∅ m' ∧ m'.vars = m.vars ∧
        chainBytes m'.disk = some (utf8 (encodeRecord c (headerRecord g))) ∧
        plan = Plan.delay 7 rest)
      (fun _ m' _ => m.Frame {.chain} ∅ ∅ m' ∧ m'.vars = m.vars ∧
        (chainBytes m'.disk = none ∨
          Written (utf8 (encodeRecord c (headerRecord g))) 1 plan (chainBytes m'.disk)) ∧
        plan.FailsBefore 7)
      (fun m' => m.Frame {.chain} ∅ ∅ m' ∧ (chainBytes m'.disk = none ∨
        Written (utf8 (encodeRecord c (headerRecord g))) 1 plan (chainBytes m'.disk))) := by
  have hstart : m.Frame {.chain} ∅ ∅ m := Machine.Frame.refl _ _ _ m
  have habsent := chainBytes_eq_none.2 hnone
  refine Ends.bind (Ends.openNew ?_ ?_ ?_ ⟨hstart, Or.inl habsent⟩)
  · intro r₁ _ h₁
    refine Ends.bind ((writeHeader_ends m r₁ _).mono ?_ ?_ ?_)
    · rintro _ m₂ r₂ ⟨hframe, hvars, hbytes, h₂⟩
      have h₂' : plan = Plan.delay 4 r₂ := by rw [h₁, h₂, Plan.delay_delay]
      have hkeep : ∀ {m'}, m₂.Frame ∅ ∅ ∅ m' → m.Frame {.chain} ∅ ∅ m' ∧
          chainBytes m'.disk = some (utf8 (encodeRecord c (headerRecord g))) := by
        intro m' h
        refine ⟨hframe.trans (h.mono (Set.empty_subset _) subset_rfl subset_rfl), ?_⟩
        rw [chainBytes_frame h (Set.notMem_empty _) fun _ _ => Set.notMem_empty _, hbytes]
      refine (syncDirectory_ends m₂ r₂).mono ?_ ?_ ?_
      · rintro _ m₃ r₃ ⟨hsync, hvars', h₃⟩
        exact ⟨(hkeep hsync).1, hvars'.trans hvars, (hkeep hsync).2,
          by rw [h₂', h₃, Plan.delay_delay]⟩
      · rintro e m₃ r₃ ⟨hsync, hvars', h₃⟩
        exact ⟨(hkeep hsync).1, hvars'.trans hvars, Or.inr (Or.inl (hkeep hsync).2),
          h₂' ▸ h₃.delay⟩
      · intro m₃ hsync
        exact ⟨(hkeep hsync).1, Or.inr (Or.inl (hkeep hsync).2)⟩
    · rintro e m₂ r₂ ⟨hframe, hvars, hwritten, hfails⟩
      exact ⟨hframe, hvars, Or.inr (h₁ ▸ hwritten.delay),
        (h₁ ▸ hfails.delay : plan.FailsBefore (1 + 3)).mono (by omega)⟩
    · rintro m₂ ⟨hframe, hwritten⟩
      exact ⟨hframe, Or.inr (h₁ ▸ hwritten.delay)⟩
  · intro i rest hsome
    rw [hnone] at hsome
    cases hsome
  · intro x h₁
    have hfails := Plan.failsBefore_of_delay (Plan.delay_zero plan).symm h₁
    exact ⟨hstart, rfl, Or.inl habsent, hfails.mono (by omega)⟩

/-! ### Reading the journal -/

/-- The file at `chainPath`. -/
def chainFile (d : Disk StorePath) : Set ℕ := {i | d.entry .chain = some i}

/-- What reading the journal leaves behind: the journal with or without its torn end. -/
structure Repaired (m m' : World) (t : Str) (tail : Bytes) : Prop where
  frame : m.Frame ∅ (chainFile m.disk) ∅ m'
  bytes : chainBytes m'.disk = some (utf8 t ++ tail) ∨ chainBytes m'.disk = some (utf8 t)

theorem cutTail_ends {i : ℕ} {t : Str} {tail : Bytes} (hentry : m.disk.entry .chain = some i)
    (hcontent : m.disk.content i = utf8 t ++ tail) (plan : Plan) :
    Ends (ensure
        (do
          Fs.truncate m.nextHandle (byteLength t)
          Fs.sync m.nextHandle)
        (Fs.close m.nextHandle) : StoreProg Unit) (m.openEntry hentry) plan
      (fun _ m' rest => Repaired m m' t tail ∧ m'.vars = m.vars ∧
        chainBytes m'.disk = some (utf8 t) ∧ ∃ n, plan = Plan.delay n rest)
      (fun _ m' _ => Repaired m m' t tail ∧ m'.vars = m.vars ∧ plan ≠ none)
      (fun m' => Repaired m m' t tail) := by
  have hopen : m.Frame ∅ (chainFile m.disk) ∅ (m.openEntry hentry) :=
    (Machine.Frame.refl _ _ _ m).openEntry hentry
  have hhandle : (m.openEntry hentry).handles m.nextHandle = some (.file i) := by simp
  have hbefore : chainBytes (m.openEntry hentry).disk = some (utf8 t ++ tail) :=
    chainBytes_eq_some.2 ⟨i, hentry, hcontent⟩
  have hstart : Repaired m (m.openEntry hentry) t tail := ⟨hopen, Or.inl hbefore⟩
  have hcut : m.Frame ∅ (chainFile m.disk) ∅ ((m.openEntry hentry).put i (utf8 t)) :=
    hopen.put (Or.inr hentry) _
  have hafter : chainBytes ((m.openEntry hentry).put i (utf8 t)).disk = some (utf8 t) :=
    chainBytes_eq_some.2 ⟨i, hentry, by simp⟩
  have hend : Repaired m ((m.openEntry hentry).put i (utf8 t)) t tail := ⟨hcut, Or.inr hafter⟩
  have hfail : ∀ {x rest n}, plan = Plan.delay n rest → rest = some (0, .fail x) →
      plan ≠ none := by
    intro x rest n h h'
    exact Plan.ne_none_of_delay h (by rw [h']; exact Option.some_ne_none _)
  refine Ends.ensure (Ends.bind (Ends.truncate hhandle ?_ ?_ hstart))
  · intro r₁ h₁
    have hbytes : ((m.openEntry hentry).disk.content i).take (byteLength t) ++
        List.replicate (byteLength t - ((m.openEntry hentry).disk.content i).length) 0 =
        utf8 t := by
      rw [Machine.openEntry_disk, hcontent, byteLength, List.take_left, List.length_append,
        Nat.sub_eq_zero_of_le (Nat.le_add_right _ _), List.replicate_zero, List.append_nil]
    rw [hbytes]
    refine Ends.sync hhandle ?_ ?_ hend
    · intro r₂ h₂
      have h₂' := Plan.delay_succ h₁ h₂
      refine (Ends.closeNew hcut (Or.inl le_rfl) hhandle).mono ?_ ?_ ?_
      · rintro _ m' r₃ ⟨hframe, hvars, hdisk, h₃⟩
        have hbytes' := hdisk ▸ hafter
        exact ⟨⟨hframe, Or.inr hbytes'⟩, hvars, hbytes', 3, Plan.delay_succ h₂' h₃⟩
      · rintro e m' r₃ ⟨hframe, hvars, hdisk, h₃⟩
        exact ⟨⟨hframe, Or.inr (hdisk ▸ hafter)⟩, hvars, Plan.ne_none_of_delay h₂' h₃.ne_none⟩
      · rintro m' ⟨hframe, hdisk⟩
        exact ⟨hframe, Or.inr (hdisk ▸ hafter)⟩
    · intro x h₂
      refine (Ends.closeNew hcut (Or.inl le_rfl) hhandle).mono ?_ ?_ ?_
      · rintro _ m' r₃ ⟨hframe, hvars, hdisk, -⟩
        exact ⟨⟨hframe, Or.inr (hdisk ▸ hafter)⟩, hvars, hfail h₁ h₂⟩
      · rintro e m' r₃ ⟨hframe, hvars, hdisk, -⟩
        exact ⟨⟨hframe, Or.inr (hdisk ▸ hafter)⟩, hvars, hfail h₁ h₂⟩
      · rintro m' ⟨hframe, hdisk⟩
        exact ⟨hframe, Or.inr (hdisk ▸ hafter)⟩
  · intro x h₁
    have hne := hfail (Plan.delay_zero plan).symm h₁
    refine (Ends.closeNew hopen (Or.inl le_rfl) hhandle).mono ?_ ?_ ?_
    · rintro _ m' r₃ ⟨hframe, hvars, hdisk, -⟩
      exact ⟨⟨hframe, Or.inl (hdisk ▸ hbefore)⟩, hvars, hne⟩
    · rintro e m' r₃ ⟨hframe, hvars, hdisk, -⟩
      exact ⟨⟨hframe, Or.inl (hdisk ▸ hbefore)⟩, hvars, hne⟩
    · rintro m' ⟨hframe, hdisk⟩
      exact ⟨hframe, Or.inl (hdisk ▸ hbefore)⟩

theorem eq_nil_of_decode_length {t : Str} {tail : Bytes}
    (h : t.length = (decode (utf8 t ++ tail)).length) : tail = [] := by
  rw [decode_utf8_append, List.length_append] at h
  have hdecode : decode tail = [] := List.length_eq_zero_iff.1 (by omega)
  cases tail with
  | nil => rfl
  | cons b tail =>
      rw [decode, List.length_cons, decodeFrom] at hdecode
      split at hdecode
      · cases hdecode
      · split at hdecode
        · cases hdecode
        · cases hdecode

/-- **Reading the journal** gives its complete lines, which are all that is left in the file. -/
theorem readJournal_ends {t : Str} {tail : Bytes}
    (hbytes : chainBytes m.disk = some (utf8 t ++ tail)) (ht : Complete t)
    (htail : (10 : UInt8) ∉ tail) (plan : Plan) :
    Ends readJournal m plan
      (fun contents m' rest => contents = t ∧ Repaired m m' t tail ∧ m'.vars = m.vars ∧
        chainBytes m'.disk = some (utf8 t) ∧ ∃ n, plan = Plan.delay n rest)
      (fun _ m' _ => Repaired m m' t tail ∧ m'.vars = m.vars ∧
        (plan ≠ none ∨ maxStoreBytes < (utf8 t ++ tail).length))
      (fun m' => Repaired m m' t tail) := by
  obtain ⟨i, hentry, hcontent⟩ := chainBytes_eq_some.1 hbytes
  have hstart : Repaired m m t tail := ⟨Machine.Frame.refl _ _ _ m, Or.inl hbytes⟩
  have hfail : ∀ {x rest n}, plan = Plan.delay n rest → rest = some (0, .fail x) →
      plan ≠ none := by
    intro x rest n h h'
    exact Plan.ne_none_of_delay h (by rw [h']; exact Option.some_ne_none _)
  refine Ends.bind (Ends.stat hentry ?_ ?_ hstart)
  · intro r₁ h₁
    refine Ends.bind (Ends.ofExcept ?_ ?_)
    · intro _ _
      refine Ends.bind (Ends.readFile hentry ?_ ?_ hstart)
      · intro r₂ h₂
        have h₂' := Plan.delay_succ h₁ h₂
        simp only [hcontent, completePart_decode ht htail]
        split
        · -- the torn end is cut off
          refine Ends.bind (Ends.openExisting hentry ?_ ?_ hstart)
          · intro r₃ h₃
            have h₃' := Plan.delay_succ h₂' h₃
            refine Ends.bind ((cutTail_ends hentry hcontent r₃).mono ?_ ?_ fun m' hm' => hm')
            · rintro _ m' r₄ ⟨hrepaired, hvars, hcut, n, h₄⟩
              exact Ends.pure ⟨rfl, hrepaired, hvars, hcut, _,
                by rw [h₃', h₄, Plan.delay_delay]⟩
            · rintro e m' r₄ ⟨hrepaired, hvars, hne⟩
              exact ⟨hrepaired, hvars, Or.inl (Plan.ne_none_of_delay h₃' hne)⟩
          · intro x h₃
            exact ⟨hstart, rfl, Or.inl (hfail h₂' h₃)⟩
        · next hlen =>
            have hcomplete : tail = [] := eq_nil_of_decode_length (not_not.1 hlen)
            subst hcomplete
            rw [List.append_nil] at hbytes ⊢
            exact Ends.pure ⟨decode_utf8 t, hstart, rfl, hbytes, 2, h₂'⟩
      · intro x h₂
        exact ⟨hstart, rfl, Or.inl (hfail h₁ h₂)⟩
    · intro e he
      have hlarge := of_decide_eq_false (require_eq_error.1 he).1
      exact ⟨hstart, rfl, Or.inr (by rw [← hcontent]; exact not_le.1 hlarge)⟩
  · intro x h₁
    exact ⟨hstart, rfl, Or.inl (hfail (Plan.delay_zero plan).symm h₁)⟩

/-- **Loading the blocks** puts those of the journal after those that are there. -/
theorem loadBlocks_ends (c : Crypto) (g t : Str) (m : World) (plan : Plan) :
    Ends (loadBlocks c g t) m plan
      (fun _ m' rest => ∃ L, decodeJournal c g t = .ok L ∧
        m' = m.setVars { m.vars with blocks := m.vars.blocks ++ L } ∧ rest = plan)
      (fun _ m' _ => (∃ blocks, m' = m.setVars { m.vars with blocks }) ∧
        ∀ L, decodeJournal c g t ≠ .ok L)
      (fun _ => False) := by
  have hself : m = m.setVars { m.vars with blocks := m.vars.blocks ++ [] } := by
    rw [List.append_nil]
    rfl
  rw [loadBlocks]
  cases hlines : nonemptyLines t with
  | nil =>
      refine Ends.raise ⟨⟨_, hself⟩, ?_⟩
      intro L hL
      rw [decodeJournal, hlines] at hL
      cases hL
  | cons line lines =>
      have hjournal : decodeJournal c g t = (do
          decodeHeader c g line
          lines.mapM (decodeBlock c)) := by
        rw [decodeJournal, hlines]
      refine Ends.bind (Ends.ofExcept ?_ ?_)
      · rintro ⟨⟩ hheader
        rw [hheader, ok_bind] at hjournal
        let Inv (done : List Str) (m' : World) (rest : Plan) : Prop := ∃ L,
          List.Forall₂ (fun line b => decodeBlock c line = .ok b) done L ∧
            m' = m.setVars { m.vars with blocks := m.vars.blocks ++ L } ∧ rest = plan
        refine Ends.forEach (I := Inv) ⟨[], List.Forall₂.nil, hself, rfl⟩ ?_ ?_
        · rintro done line' todo m' rest hall ⟨L, hdone, rfl, rfl⟩
          have hmem : line' ∈ lines := by simp [hall]
          refine Ends.bind (Ends.ofExcept ?_ ?_)
          · intro b hb
            refine Ends.update ⟨L ++ [b], List.rel_append hdone (.cons hb .nil), ?_, rfl⟩
            rw [← List.append_assoc]
            rfl
          · intro e he
            refine ⟨⟨_, rfl⟩, ?_⟩
            intro L' hL'
            rw [hjournal] at hL'
            obtain ⟨b, hb⟩ := exists_of_mapM_eq_ok hL' hmem
            rw [he] at hb
            cases hb
        · rintro m' rest ⟨L, hdone, hm', hrest⟩
          exact ⟨L, hjournal.trans (mapM_eq_ok_iff.2 hdone), hm', hrest⟩
      · intro e he
        refine ⟨⟨_, hself⟩, ?_⟩
        intro L hL
        rw [hjournal, he] at hL
        cases hL

/-! ### Opening -/

/-- The store holds its lock through the handle `k`. -/
structure Locked (m : World) (k : ℕ) : Prop where
  lockFd : m.vars.lockFd = some k
  handle : ∃ t, m.handles k = some t
  entry : m.disk.entry .lock ≠ none

/-- The append descriptor `fd` refers to the file at `chainPath`. -/
structure OnChain (m : World) (fd : ℕ) : Prop where
  chainFd : m.vars.chainFd = some fd
  file : ∃ i, m.handles fd = some (.file i) ∧ m.disk.entry .chain = some i

theorem OnChain.exists_handle {fd : ℕ} (h : OnChain m fd) :
    ∀ fd', m.vars.chainFd = some fd' → ∃ t, m.handles fd' = some t := by
  intro fd' hfd'
  rw [h.chainFd] at hfd'
  cases hfd'
  obtain ⟨i, hi, -⟩ := h.file
  exact ⟨_, hi⟩

theorem Locked.frame {k : ℕ} {P : Set StorePath} {F H : Set ℕ} (h : Locked m k)
    (hframe : m.Frame P F H m') (hP : StorePath.lock ∉ P) (hH : k ∉ H)
    (hvars : m'.vars.lockFd = m.vars.lockFd) : Locked m' k := by
  obtain ⟨target, htarget⟩ := h.handle
  refine ⟨hvars.trans h.lockFd, ⟨target, hframe.handle_eq htarget hH⟩, ?_⟩
  rw [hframe.entry _ hP]
  exact h.entry

theorem OnChain.frame {fd : ℕ} {P : Set StorePath} {F H : Set ℕ} (h : OnChain m fd)
    (hframe : m.Frame P F H m') (hP : StorePath.chain ∉ P) (hH : fd ∉ H)
    (hvars : m'.vars.chainFd = m.vars.chainFd) : OnChain m' fd := by
  obtain ⟨i, hhandle, hentry⟩ := h.file
  refine ⟨hvars.trans h.chainFd, i, hframe.handle_eq hhandle hH, ?_⟩
  rw [hframe.entry _ hP, hentry]

theorem openJournal_ends (c : Crypto) (g : Str) {t : Str} {tail : Bytes}
    (hbytes : chainBytes m.disk = some (utf8 t ++ tail)) (ht : Complete t)
    (htail : (10 : UInt8) ∉ tail) (plan : Plan) :
    Ends (do
        let contents ← readJournal
        loadBlocks c g contents
        let fd ← Fs.openAppend .chain
        assign fun store => { store with chainFd := some fd }
        Prog.read fun m => m.vars.blocks) m plan
      (fun blocks m' rest => (∃ L, decodeJournal c g t = .ok L ∧ blocks = m.vars.blocks ++ L) ∧
        m.Frame ∅ (chainFile m.disk) ∅ m' ∧ chainBytes m'.disk = some (utf8 t) ∧
        (∃ fd, m.nextHandle ≤ fd ∧ OnChain m' fd ∧
          m'.vars = { m.vars with chainFd := some fd, blocks }) ∧ ∃ n, plan = Plan.delay n rest)
      (fun _ m' _ => Repaired m m' t tail ∧ (∃ blocks, m'.vars = { m.vars with blocks }) ∧
        (plan ≠ none ∨ maxStoreBytes < (utf8 t ++ tail).length ∨
          ∀ L, decodeJournal c g t ≠ .ok L))
      (fun m' => Repaired m m' t tail) := by
  refine Ends.bind ((readJournal_ends hbytes ht htail plan).mono ?_ ?_ fun m' hm' => hm')
  · rintro contents m₁ r₁ ⟨rfl, hrepaired, hvars₁, hcut, n, h₁⟩
    obtain ⟨i, hchain, hcontent⟩ := chainBytes_eq_some.1 hcut
    refine Ends.bind ((loadBlocks_ends c g contents m₁ r₁).mono ?_ ?_ fun _ h => h.elim)
    · rintro _ m₂ r₂ ⟨L, hL, rfl, rfl⟩
      set m₂ := m₁.setVars { m₁.vars with blocks := m₁.vars.blocks ++ L }
      have hframe : m.Frame ∅ (chainFile m.disk) ∅ m₂ := hrepaired.frame.setVars _
      have hentry₂ : m₂.disk.entry .chain = some i := hchain
      refine Ends.bind (Ends.openAppend hentry₂ ?_ ?_ ⟨hframe, hrepaired.bytes⟩)
      · intro r₃ h₃
        refine Ends.bind (Ends.update (Ends.read ⟨⟨L, hL, ?_⟩, ?_, hcut, ?_, _,
          Plan.delay_succ h₁ h₃⟩))
        · rw [← hvars₁]
          rfl
        · exact (hframe.openEntry hentry₂).setVars _
        · refine ⟨m₂.nextHandle, hframe.nextHandle_le, ⟨rfl, i, ?_, hentry₂⟩, ?_⟩
          · simp
          · rw [← hvars₁]
            rfl
      · intro x h₃
        refine ⟨⟨hframe, hrepaired.bytes⟩, ⟨m₁.vars.blocks ++ L, ?_⟩, Or.inl ?_⟩
        · rw [← hvars₁]
          rfl
        · exact Plan.ne_none_of_delay h₁ (by rw [h₃]; exact Option.some_ne_none _)
    · rintro e m₂ r₂ ⟨⟨blocks, rfl⟩, hnot⟩
      refine ⟨⟨hrepaired.frame.setVars _, hrepaired.bytes⟩, ⟨blocks, ?_⟩, Or.inr (Or.inr hnot)⟩
      rw [← hvars₁]
      rfl
  · rintro e m₁ r₁ ⟨hrepaired, hvars, hreason⟩
    refine ⟨hrepaired, ⟨m.vars.blocks, hvars⟩, ?_⟩
    rcases hreason with hne | hlarge
    · exact Or.inl hne
    · exact Or.inr (Or.inl hlarge)

/-- Contents that `open` can take apart: complete lines, then a torn one. -/
def Readable (before : Option Bytes) : Prop :=
  ∀ bytes, before = some bytes →
    ∃ t tail, Complete t ∧ (10 : UInt8) ∉ tail ∧ bytes = utf8 t ++ tail

/-- The complete lines that `open` finds, once it has created a missing journal. -/
def Finds (c : Crypto) (g : Str) (before : Option Bytes) (t : Str) : Prop :=
  (before = none ∧ t = encodeRecord c (headerRecord g)) ∨
    ∃ tail, Complete t ∧ (10 : UInt8) ∉ tail ∧ before = some (utf8 t ++ tail)

theorem Finds.unique {before : Option Bytes} {t t' : Str} (h : Finds c g before t)
    (h' : Finds c g before t') : t = t' := by
  rcases h with ⟨rfl, rfl⟩ | ⟨tail, ht, htail, rfl⟩
  · rcases h' with ⟨-, rfl⟩ | ⟨tail', -, -, hsome⟩
    · rfl
    · cases hsome
  · rcases h' with ⟨hnone, -⟩ | ⟨tail', ht', htail', hsome⟩
    · cases hnone
    · rw [← completePart_decode ht htail, Option.some.inj hsome, completePart_decode ht' htail']

/-- What `open` may leave of the journal when it does not return. -/
inductive OpenLeaves (header : Bytes) (plan : Plan) (before : Option Bytes) : Option Bytes → Prop
  | same : OpenLeaves header plan before before
  | repaired {t : Str} {tail : Bytes} (ht : Complete t) (htail : (10 : UInt8) ∉ tail)
      (h : before = some (utf8 t ++ tail)) : OpenLeaves header plan before (some (utf8 t))
  | created {after : Option Bytes} (h : before = none) (hafter : Written header 6 plan after) :
      OpenLeaves header plan before after

/-- The state of the object after `open` returned. -/
structure Opened (m : World) (g : Str) (blocks : List Json) (k fd : ℕ) : Prop where
  locked : Locked m k
  onChain : OnChain m fd
  ne : k ≠ fd
  genesisHash : m.vars.genesisHash = some g
  blocks_eq : m.vars.blocks = blocks

/-- How `open` returns: the journal was found or created, its blocks come after those that the
object had, and the object holds the lock and appends to the journal. -/
structure OpenReturns (c : Crypto) (g : Str) (m : World) (blocks : List Json) (m' : World) :
    Prop where
  lock : m.disk.entry .lock = none
  journal : ∃ t L, Finds c g (chainBytes m.disk) t ∧ decodeJournal c g t = .ok L ∧
    blocks = m.vars.blocks ++ L ∧ chainBytes m'.disk = some (utf8 t)
  opened : ∃ k fd, Opened m' g blocks k fd

/-- How `open` throws.  If nothing failed, another process holds the lock, or there is no journal
of the network, or it is too large. -/
structure OpenThrows (c : Crypto) (g : Str) (m : World) (plan : Plan) (m' : World) : Prop where
  leaves : OpenLeaves (utf8 (encodeRecord c (headerRecord g))) plan (chainBytes m.disk)
    (chainBytes m'.disk)
  chainFd : m'.vars.chainFd = m.vars.chainFd
  reason : plan ≠ none ∨ (m' = m ∧ m.disk.entry .lock ≠ none) ∨
    (m.disk.entry .lock = none ∧ (∃ k, Locked m' k) ∧
      ∀ t L, Finds c g (chainBytes m.disk) t → decodeJournal c g t = .ok L →
        maxStoreBytes < ((chainBytes m.disk).getD (utf8 (encodeRecord c (headerRecord g)))).length)

theorem openFound_ends {m₁ : World} {plan rest : Plan} {k n : ℕ} {t : Str} {tail : Bytes}
    (hlock : m.disk.entry .lock = none) (hlocked : Locked m₁ k)
    (hvars : m₁.vars = { m.vars with lockFd := some k, genesisHash := some g })
    (hbytes : chainBytes m₁.disk = some (utf8 t ++ tail)) (ht : Complete t)
    (htail : (10 : UInt8) ∉ tail) (hfinds : Finds c g (chainBytes m.disk) t)
    (hlen : ((chainBytes m.disk).getD (utf8 (encodeRecord c (headerRecord g)))).length =
      (utf8 t ++ tail).length)
    (hleaves : ∀ after, after = some (utf8 t ++ tail) ∨ after = some (utf8 t) →
      OpenLeaves (utf8 (encodeRecord c (headerRecord g))) plan (chainBytes m.disk) after)
    (hplan : plan = Plan.delay n rest) :
    Ends (do
        let contents ← readJournal
        loadBlocks c g contents
        let fd ← Fs.openAppend .chain
        assign fun store => { store with chainFd := some fd }
        Prog.read fun m => m.vars.blocks) m₁ rest
      (fun blocks m' _ => OpenReturns c g m blocks m') (fun _ m' _ => OpenThrows c g m plan m')
      (fun m' => OpenLeaves (utf8 (encodeRecord c (headerRecord g))) plan (chainBytes m.disk)
        (chainBytes m'.disk)) := by
  have hstill : ∀ {m'}, m₁.Frame ∅ (chainFile m₁.disk) ∅ m' → m'.vars.lockFd = m₁.vars.lockFd →
      Locked m' k := by
    intro m' hframe hm'
    exact hlocked.frame hframe (Set.notMem_empty _) (Set.notMem_empty _) hm'
  refine (openJournal_ends c g hbytes ht htail rest).mono ?_ ?_ ?_
  · rintro blocks m' r ⟨⟨L, hL, hblocks⟩, hframe, hafter, ⟨fd, hfd, honChain, hvars'⟩, -⟩
    have hhandle : k < m₁.nextHandle := by
      obtain ⟨target, htarget⟩ := hlocked.handle
      exact m₁.handle_lt htarget
    refine ⟨hlock, ⟨t, L, hfinds, hL, by rw [hblocks, hvars], hafter⟩, k, fd, ?_⟩
    exact
      { locked := hstill hframe (by rw [hvars'])
        onChain := honChain
        ne := by omega
        genesisHash := by rw [hvars', hvars]
        blocks_eq := by rw [hvars'] }
  · rintro e m' r ⟨hrepaired, ⟨blocks, hvars'⟩, hreason⟩
    refine ⟨hleaves _ hrepaired.bytes, by rw [hvars', hvars], ?_⟩
    rcases hreason with hne | hlarge | hnot
    · exact Or.inl (Plan.ne_none_of_delay hplan hne)
    · refine Or.inr (Or.inr ⟨hlock, ⟨k, hstill hrepaired.frame (by rw [hvars'])⟩, ?_⟩)
      intro t' L hfinds' hL
      rw [hlen]
      exact hlarge
    · refine Or.inr (Or.inr ⟨hlock, ⟨k, hstill hrepaired.frame (by rw [hvars'])⟩, ?_⟩)
      intro t' L hfinds' hL
      rw [← hfinds.unique hfinds'] at hL
      exact absurd hL (hnot L)
  · intro m' hrepaired
    exact hleaves _ hrepaired.bytes

/-- **Opening.** -/
theorem open_ends (c : Crypto) (pid : ℕ) (g : Str) (hreadable : Readable (chainBytes m.disk))
    (plan : Plan) :
    Ends (MedacStore.open c pid g) m plan
      (fun blocks m' _ => OpenReturns c g m blocks m') (fun _ m' _ => OpenThrows c g m plan m')
      (fun m' => OpenLeaves (utf8 (encodeRecord c (headerRecord g))) plan (chainBytes m.disk)
        (chainBytes m'.disk)) := by
  have hfail : ∀ {x rest n}, plan = Plan.delay n rest → rest = some (0, .fail x) →
      OpenThrows c g m plan m := by
    intro x rest n h h'
    refine ⟨.same, rfl, Or.inl (Plan.ne_none_of_delay h ?_)⟩
    rw [h']
    exact Option.some_ne_none _
  refine Ends.bind (Ends.check ?_ (fun x => hfail (Plan.delay_zero plan).symm) .same)
  intro r₁ h₁
  refine Ends.bind (Ends.check ?_ (fun x => hfail h₁) .same)
  intro r₂ h₂
  have h₂' := Plan.delay_succ h₁ h₂
  have hchain : ∀ {m' : World}, m.Frame {.lock} ∅ ∅ m' →
      chainBytes m'.disk = chainBytes m.disk := by
    intro m' h
    exact chainBytes_frame h (by simp) fun _ _ => Set.notMem_empty _
  refine Ends.bind ((acquireLock_ends pid m r₂).mono ?_ ?_ ?_)
  · rintro _ m₁ r₃ ⟨hframe, hvars, hhandle, hlock, hentry, h₃⟩
    have h₃' : plan = Plan.delay 5 r₃ := by rw [h₂', h₃, Plan.delay_delay]
    have hbytes := hchain hframe
    refine Ends.bind (Ends.update (Ends.bind (Ends.read ?_)))
    set m₂ := m₁.setVars { m₁.vars with genesisHash := some g } with hm₂
    have hvars₂ : m₂.vars =
        { m.vars with lockFd := some m.nextHandle, genesisHash := some g } := by
      rw [hm₂, Machine.setVars_vars, hvars]
    have hlocked : Locked m₂ m.nextHandle := by
      refine ⟨by rw [hvars₂], ⟨_, hhandle⟩, ?_⟩
      rw [hm₂, Machine.setVars_disk, hentry]
      exact Option.some_ne_none _
    have hcreates : ∀ {after}, chainBytes m.disk = none →
        (after = none ∨ Written (utf8 (encodeRecord c (headerRecord g))) 1 r₃ after) →
        OpenLeaves (utf8 (encodeRecord c (headerRecord g))) plan (chainBytes m.disk) after := by
      rintro after hnone (rfl | hwritten)
      · rw [← hnone]
        exact .same
      · exact .created hnone (h₃' ▸ hwritten.delay)
    cases hfound : m₁.disk.entry .chain with
    | none =>
        have hnone : chainBytes m.disk = none := by
          rw [← hbytes]
          exact chainBytes_eq_none.2 hfound
        have hisNone : (m₂.disk.entry .chain).isSome = false := by
          rw [hm₂, Machine.setVars_disk, hfound]
          rfl
        rw [hisNone, if_neg Bool.false_ne_true]
        refine Ends.bind ((createJournal_ends c g r₃ (m := m₂) hfound).mono ?_ ?_ ?_)
        · rintro _ m₃ r₄ ⟨hframe₃, hvars₃, hbytes₃, h₄⟩
          have hlocked₃ : Locked m₃ m.nextHandle :=
            hlocked.frame hframe₃ (by simp) (Set.notMem_empty _) (by rw [hvars₃])
          have htext : Complete (encodeRecord c (headerRecord g)) := complete_line _
          rw [← List.append_nil (utf8 (encodeRecord c (headerRecord g)))] at hbytes₃
          refine openFound_ends hlock hlocked₃ (hvars₃.trans hvars₂) hbytes₃ htext
            List.not_mem_nil (Or.inl ⟨hnone, rfl⟩) (by rw [hnone, List.append_nil]; rfl) ?_
            (by rw [h₃', h₄, Plan.delay_delay])
          rw [List.append_nil]
          rintro after (h | h)
          · exact .created hnone (Or.inl h)
          · exact .created hnone (Or.inl h)
        · rintro e m₃ r₄ ⟨hframe₃, hvars₃, hcreated, hfails⟩
          refine ⟨hcreates hnone hcreated, by rw [hvars₃, hvars₂], Or.inl ?_⟩
          exact Plan.ne_none_of_delay h₃' hfails.ne_none
        · rintro m₃ ⟨hframe₃, hcreated⟩
          exact hcreates hnone hcreated
    | some i =>
        have hsome : (m₂.disk.entry .chain).isSome = true := by
          rw [hm₂, Machine.setVars_disk, hfound]
          rfl
        rw [hsome, if_pos rfl]
        have hcontent : chainBytes m.disk = some (m₁.disk.content i) := by
          rw [← hbytes]
          exact chainBytes_of_entry hfound
        obtain ⟨t, tail, ht, htail, hsplit⟩ := hreadable _ hcontent
        rw [hsplit] at hcontent
        refine openFound_ends hlock hlocked hvars₂ (hbytes.trans hcontent) ht htail
          (Or.inr ⟨tail, ht, htail, hcontent⟩) (by rw [hcontent]; rfl) ?_ h₃'
        rintro after (rfl | rfl)
        · rw [← hcontent]
          exact .same
        · exact .repaired ht htail hcontent
  · rintro e m₁ r₃ (⟨rfl, htaken⟩ | ⟨hframe, ⟨fd, hvars⟩, hfails⟩)
    · exact ⟨.same, rfl, Or.inr (Or.inl ⟨rfl, htaken⟩)⟩
    · refine ⟨by rw [hchain hframe]; exact .same, by rw [hvars], Or.inl ?_⟩
      exact Plan.ne_none_of_delay h₂' hfails.ne_none
  · intro m₁ hframe
    rw [hchain hframe]
    exact .same

end MedacStore

end Medac
