/-
**What writing to the store does.**

`append`, `replace` and `close`, call by call, under every plan.  A failed `append` takes back what
it has written.  `replace` has two parts: up to the renaming the old journal is in place, after it
the new one, whatever happens.

Main definitions:

* `Medac.MedacStore.AppendLeaves` — what a crash during `append` leaves;
* `Medac.MedacStore.Fits` — the size check of `replace`;
* `Medac.MedacStore.KeepsOld`, `Medac.MedacStore.LeavesNew`, `Medac.MedacStore.Replaced` — the ends
  of `replace`.

Main results:

* `Medac.MedacStore.append_ends` — **appending**;
* `Medac.MedacStore.writeTemporary_ends`, `Medac.MedacStore.install_ends`,
  `Medac.MedacStore.abandon_ends` — the parts of `replace`;
* `Medac.MedacStore.replace_ends` — **replacing**;
* `Medac.MedacStore.close_ends` — **closing**, when nothing goes wrong.
-/

import MedorCoin.Medac.StoreOpen

set_option autoImplicit false

namespace Medac

open Js Crash Crash.Prog

namespace MedacStore

variable {c : Crypto} {g : Str} {m m' : World} {plan : Plan} {b : Json} {k fd : ℕ}

/-! ### Appending -/

theorem append_closed_ends (c : Crypto) (b : Json) (plan : Plan)
    (hclosed : ∀ k fd, m.vars.lockFd = some k → m.vars.chainFd = some fd →
      m.vars.genesisHash ≠ some g) :
    Ends (append c g b) m plan (fun _ _ _ => False) (fun _ m' _ => m' = m) (fun _ => False) := by
  refine Ends.bind (Ends.read ?_)
  cases hlock : m.vars.lockFd with
  | none => exact Ends.raise rfl
  | some k =>
      cases hchain : m.vars.chainFd with
      | none => exact Ends.raise rfl
      | some fd =>
          have hgenesis : (m.vars.genesisHash == some g) = false :=
            beq_eq_false_iff_ne.2 (hclosed k fd hlock hchain)
          rw [hgenesis]
          exact Ends.raise rfl

/-- What a crash during `append` leaves of the journal. -/
def AppendLeaves (bytes record : Bytes) (after : Option Bytes) : Prop :=
  after = some bytes ∨
    ((bytes ++ record).length ≤ maxStoreBytes ∧ ∃ x, after = some (bytes ++ record.take x))

theorem undoAppend_ends {i : ℕ} {bytes written : Bytes} (hhandle : m.handles fd = some (.file i))
    (hentry : m.disk.entry .chain = some i) (e : Exception Error) :
    Ends (do
        Fs.truncate fd bytes.length
        Fs.sync fd
        Prog.raise e : StoreProg Unit) (m.put i (bytes ++ written)) none
      (fun _ _ _ => False)
      (fun _ m' _ => m.Frame ∅ (chainFile m.disk) ∅ m' ∧ m'.vars = m.vars ∧
        chainBytes m'.disk = some bytes)
      (fun m' => chainBytes m'.disk = some (bytes ++ written) ∨
        chainBytes m'.disk = some bytes) := by
  have hstart : m.Frame ∅ (chainFile m.disk) ∅ m := Machine.Frame.refl _ _ _ m
  have hframe : m.Frame ∅ (chainFile m.disk) ∅ ((m.put i (bytes ++ written)).put i bytes) :=
    (hstart.put (Or.inr hentry) _).put (Or.inr hentry) _
  have hbytes : chainBytes ((m.put i (bytes ++ written)).put i bytes).disk = some bytes :=
    chainBytes_eq_some.2 ⟨i, hentry, by simp⟩
  refine Ends.bind (Ends.truncate hhandle ?_ (fun x h => by cases h)
    (Or.inl (chainBytes_eq_some.2 ⟨i, hentry, by simp⟩)))
  intro r₁ h₁
  have hcut : ((m.put i (bytes ++ written)).disk.content i).take bytes.length ++
      List.replicate (bytes.length - ((m.put i (bytes ++ written)).disk.content i).length) 0 =
      bytes := by
    rw [Machine.put_disk_content, Function.update_self, List.take_left, List.length_append,
      Nat.sub_eq_zero_of_le (Nat.le_add_right _ _), List.replicate_zero, List.append_nil]
  rw [hcut]
  refine Ends.bind (Ends.sync hhandle ?_ ?_ (Or.inr hbytes))
  · intro r₂ _
    exact Ends.raise ⟨hframe, rfl, hbytes⟩
  · intro x _
    exact ⟨hframe, rfl, hbytes⟩

/-- **Appending** adds the record and the block, or leaves both as they were; a crash leaves a
part of the record. -/
theorem append_ends (c : Crypto) (b : Json) (plan : Plan) (hlock : m.vars.lockFd = some k)
    (hgenesis : m.vars.genesisHash = some g) (hchain : OnChain m fd) {bytes : Bytes}
    (hbytes : chainBytes m.disk = some bytes) :
    Ends (append c g b) m plan
      (fun _ m' _ => m.Frame ∅ (chainFile m.disk) ∅ m' ∧
        m'.vars = { m.vars with blocks := m.vars.blocks ++ [b] } ∧
        chainBytes m'.disk = some (bytes ++ utf8 (encodeRecord c (blockRecord b))) ∧
        (bytes ++ utf8 (encodeRecord c (blockRecord b))).length ≤ maxStoreBytes)
      (fun _ m' _ => m.Frame ∅ (chainFile m.disk) ∅ m' ∧ m'.vars = m.vars ∧
        chainBytes m'.disk = some bytes ∧ (plan ≠ none ∨
          maxStoreBytes < (bytes ++ utf8 (encodeRecord c (blockRecord b))).length))
      (fun m' => AppendLeaves bytes (utf8 (encodeRecord c (blockRecord b)))
        (chainBytes m'.disk)) := by
  obtain ⟨i, hhandle, hentry⟩ := hchain.file
  have hcontent : m.disk.content i = bytes := by
    rw [chainBytes_of_entry hentry] at hbytes
    exact Option.some.inj hbytes
  have hstart : m.Frame ∅ (chainFile m.disk) ∅ m := Machine.Frame.refl _ _ _ m
  have hfail : ∀ {x rest n}, plan = Plan.delay n rest → rest = some (0, .fail x) →
      plan ≠ none := by
    intro x rest n h h'
    exact Plan.ne_none_of_delay h (by rw [h']; exact Option.some_ne_none _)
  set record := encodeRecord c (blockRecord b) with hrecord
  have hput : ∀ bs, m.Frame ∅ (chainFile m.disk) ∅ (m.put i bs) ∧
      chainBytes (m.put i bs).disk = some bs := by
    intro bs
    exact ⟨hstart.put (Or.inr hentry) bs, chainBytes_eq_some.2 ⟨i, hentry, by simp⟩⟩
  refine Ends.bind (Ends.read ?_)
  rw [hlock, hchain.chainFd, hgenesis, beq_self_eq_true]
  refine Ends.bind (Ends.size hhandle ?_ ?_ (Or.inl hbytes))
  · intro r₁ h₁
    rw [hcontent]
    refine Ends.bind (Ends.ofExcept ?_ ?_)
    · intro _ hfits
      have hle : (bytes ++ utf8 record).length ≤ maxStoreBytes := by
        rw [require_eq_ok, decide_eq_true_iff] at hfits
        rw [List.length_append]
        exact hfits
      have hpart : ∀ x, chainBytes (m.put i (bytes ++ (utf8 record).take x)).disk =
          some (bytes ++ (utf8 record).take x) := fun x => (hput _).2
      have hfull : AppendLeaves bytes (utf8 record) (some (bytes ++ utf8 record)) :=
        Or.inr ⟨hle, (utf8 record).length, by rw [List.take_length]⟩
      refine Ends.attempt (Ends.bind (Ends.write hhandle ?_ ?_ ?_))
      · intro r₂ h₂
        have h₂' := Plan.delay_succ h₁ h₂
        rw [hcontent]
        refine Ends.bind (Ends.sync hhandle ?_ ?_ (by rw [(hput _).2]; exact hfull))
        · intro r₃ _
          exact Ends.update ⟨(hput _).1.setVars _, rfl, (hput _).2, hle⟩
        · intro x h₃
          refine (undoAppend_ends hhandle hentry _).mono (fun _ _ _ h => h.elim) ?_ ?_
          · rintro e m' rest ⟨hframe, hvars, hafter⟩
            exact ⟨hframe, hvars, hafter, Or.inl (hfail h₂' h₃)⟩
          · rintro m' (hafter | hafter)
            · rw [hafter]
              exact hfull
            · exact Or.inl hafter
      · intro x h₂
        rw [hcontent]
        refine (undoAppend_ends hhandle hentry _).mono (fun _ _ _ h => h.elim) ?_ ?_
        · rintro e m' rest ⟨hframe, hvars, hafter⟩
          exact ⟨hframe, hvars, hafter, Or.inl (hfail h₁ h₂)⟩
        · rintro m' (hafter | hafter)
          · exact Or.inr ⟨hle, x, hafter⟩
          · exact Or.inl hafter
      · intro x _
        rw [hcontent]
        exact Or.inr ⟨hle, x, hpart x⟩
    · intro e hlarge
      refine ⟨hstart, rfl, hbytes, Or.inr ?_⟩
      rw [List.length_append]
      exact not_le.1 (of_decide_eq_false (require_eq_error.1 hlarge).1)
  · intro x h₁
    exact ⟨hstart, rfl, hbytes, Or.inl (hfail (Plan.delay_zero plan).symm h₁)⟩

/-! ### The temporary file -/

/-- A file under construction: its name is `p`, it was not there in `m`, and `replace` holds the
first handle that was free in `m` on it. -/
structure Drafting (m : World) (p : StorePath) (bytes : Bytes) (m' : World) : Prop where
  frame : m.Frame {p} ∅ ∅ m'
  entry : m'.disk.entry p = some m.disk.next
  handle : m'.handles m.nextHandle = some (.file m.disk.next)
  content : m'.disk.content m.disk.next = bytes
  vars : m'.vars = { m.vars with fd := some m.nextHandle }

theorem Drafting.put {p : StorePath} {bytes : Bytes} (h : Drafting m p bytes m')
    (bytes' : Bytes) : Drafting m p bytes' (m'.put m.disk.next bytes') where
  frame := h.frame.put (Or.inl le_rfl) bytes'
  entry := h.entry
  handle := h.handle
  content := by simp
  vars := h.vars

/-- The journal of the blocks is not too large: it is measured after every block. -/
def Fits (c : Crypto) (g : Str) (blocks : List Json) : Prop :=
  blocks ≠ [] → byteLength (journalText c g blocks) ≤ maxStoreBytes

theorem writeBlock_ends {m₁ : World} {p : StorePath} {bytes : Bytes}
    (hdraft : Drafting m p bytes m₁) (c : Crypto) (b : Json) (plan : Plan) :
    Ends (writeBlock c m.nextHandle b) m₁ plan
      (fun _ m' rest => Drafting m p (bytes ++ utf8 (encodeRecord c (blockRecord b))) m' ∧
        (bytes ++ utf8 (encodeRecord c (blockRecord b))).length ≤ maxStoreBytes ∧
        plan = Plan.delay 2 rest)
      (fun _ m' _ => (∃ bytes', Drafting m p bytes' m') ∧ (plan.FailsBefore 2 ∨
        maxStoreBytes < (bytes ++ utf8 (encodeRecord c (blockRecord b))).length))
      (fun m' => m.Frame {p} ∅ ∅ m') := by
  refine Ends.bind (Ends.write hdraft.handle ?_ ?_ ?_)
  · intro r₁ h₁
    rw [hdraft.content]
    have hnext := hdraft.put (bytes ++ utf8 (encodeRecord c (blockRecord b)))
    refine Ends.bind (Ends.size hnext.handle ?_ ?_ hnext.frame)
    · intro r₂ h₂
      rw [hnext.content]
      refine Ends.ofExcept ?_ ?_
      · intro _ hfits
        rw [require_eq_ok, decide_eq_true_iff] at hfits
        exact ⟨hnext, hfits, Plan.delay_succ h₁ h₂⟩
      · intro e hlarge
        have hgt := not_le.1 (of_decide_eq_false (require_eq_error.1 hlarge).1)
        exact ⟨⟨_, hnext⟩, Or.inr hgt⟩
    · intro x h₂
      exact ⟨⟨_, hnext⟩, Or.inl (Plan.failsBefore_of_delay h₁ h₂)⟩
  · intro x h₁
    have hfails := Plan.failsBefore_of_delay (Plan.delay_zero plan).symm h₁
    exact ⟨⟨_, hdraft.put _⟩, Or.inl (hfails.mono (by omega))⟩
  · intro x h₁
    exact (hdraft.put _).frame

/-- The new journal is there, under its temporary name. -/
structure Drafted (m : World) (p : StorePath) (bytes : Bytes) (m' : World) : Prop where
  frame : m.Frame {p} ∅ ∅ m'
  entry : m'.disk.entry p = some m.disk.next
  content : m'.disk.content m.disk.next = bytes
  vars : m'.vars = m.vars

/-- Writing the new journal was given up. -/
structure Undrafted (m : World) (p : StorePath) (m' : World) : Prop where
  frame : m.Frame {p} ∅ ∅ m'
  vars : m'.vars = m.vars ∨ m'.vars = { m.vars with fd := some m.nextHandle }

theorem Drafting.undrafted {p : StorePath} {bytes : Bytes} (h : Drafting m p bytes m') :
    Undrafted m p m' :=
  ⟨h.frame, Or.inr h.vars⟩

theorem byteLength_journalText_le (c : Crypto) (g : Str) (L L' : List Json) :
    byteLength (journalText c g L) ≤ byteLength (journalText c g (L ++ L')) := by
  rw [journalText_append, byteLength_append]
  exact Nat.le_add_right _ _

/-- The new journal has the first blocks in it. -/
def DraftedTo (c : Crypto) (g : Str) (m : World) (p : StorePath) (plan : Plan) (done : List Json)
    (m' : World) (rest : Plan) : Prop :=
  Drafting m p (utf8 (journalText c g done)) m' ∧ Fits c g done ∧
    plan = Plan.delay (2 * done.length + 2) rest

theorem DraftedTo.writeBlock_ends {p : StorePath} {done todo blocks : List Json} {m₁ : World}
    {rest : Plan} (h : DraftedTo c g m p plan done m₁ rest) (hall : blocks = done ++ b :: todo) :
    Ends (writeBlock c m.nextHandle b) m₁ rest
      (fun _ m' rest' => DraftedTo c g m p plan (done ++ [b]) m' rest')
      (fun _ m' _ => Undrafted m p m' ∧ (plan.FailsBefore (2 * blocks.length + 4) ∨
        m.disk.entry p ≠ none ∨ ¬ Fits c g blocks))
      (fun m' => m.Frame {p} ∅ ∅ m') := by
  obtain ⟨hdone, hfits, hplan⟩ := h
  have hlen : blocks.length = done.length + 1 + todo.length := by
    rw [hall, List.length_append, List.length_cons]
    omega
  have htext : utf8 (journalText c g done) ++ utf8 (encodeRecord c (blockRecord b)) =
      utf8 (journalText c g (done ++ [b])) := by
    rw [journalText_snoc, utf8_append]
  have hstep := MedacStore.writeBlock_ends hdone c b rest
  rw [htext] at hstep
  refine hstep.mono ?_ ?_ fun m' hm' => hm'
  · rintro _ m₂ r₂ ⟨hnext, hle, h₂⟩
    refine ⟨hnext, fun _ => hle, ?_⟩
    rw [hplan, h₂, Plan.delay_delay, List.length_append, List.length_singleton]
    congr 1
  · rintro e m₂ r₂ ⟨⟨bytes', hnext⟩, hreason⟩
    refine ⟨hnext.undrafted, ?_⟩
    rcases hreason with hfails | hlarge
    · have hfails' : plan.FailsBefore (2 * done.length + 2 + 2) := hplan ▸ hfails.delay
      exact Or.inl (hfails'.mono (by omega))
    · refine Or.inr (Or.inr fun hfits' => ?_)
      have hall' : blocks = (done ++ [b]) ++ todo := by simp [hall]
      have hle := hfits' (by rw [hall]; simp)
      rw [hall'] at hle
      have hmono := byteLength_journalText_le c g (done ++ [b]) todo
      exact absurd hlarge (not_lt.2 (le_trans hmono hle))

/-- **Writing the new journal** under its temporary name. -/
theorem writeTemporary_ends (c : Crypto) (g : Str) (p : StorePath) (blocks : List Json)
    (hfd : m.vars.fd = none) (plan : Plan) :
    Ends (writeTemporary c p g blocks) m plan
      (fun _ m' rest => Drafted m p (utf8 (journalText c g blocks)) m' ∧
        m.disk.entry p = none ∧ Fits c g blocks ∧
        plan = Plan.delay (2 * blocks.length + 4) rest)
      (fun _ m' _ => Undrafted m p m' ∧ (plan.FailsBefore (2 * blocks.length + 4) ∨
        m.disk.entry p ≠ none ∨ ¬ Fits c g blocks))
      (fun m' => m.Frame {p} ∅ ∅ m') := by
  have hstart : m.Frame {p} ∅ ∅ m := Machine.Frame.refl _ _ _ m
  refine Ends.bind (Ends.openNew ?_ ?_ ?_ hstart)
  · intro r₁ hfree h₁
    let m₁ : World := (m.create p).setVars { m.vars with fd := some m.nextHandle }
    have hdraft : Drafting m p [] m₁ :=
      { frame := (hstart.create (Set.mem_singleton _)).setVars _
        entry := by simp [m₁]
        handle := by simp [m₁]
        content := by simp [m₁]
        vars := rfl }
    refine Ends.bind (Ends.update ?_)
    change Ends _ m₁ r₁ _ _ _
    refine Ends.bind (Ends.write hdraft.handle ?_ ?_ ?_)
    · intro r₂ h₂
      rw [hdraft.content, List.nil_append, ← journalText_nil]
      have h₂' := Plan.delay_succ h₁ h₂
      have hheader := hdraft.put (utf8 (journalText c g []))
      refine Ends.bind (Ends.forEach (I := DraftedTo c g m p plan) ?_ ?_ ?_)
      · exact ⟨hheader, fun hne => absurd rfl hne, h₂'⟩
      · intro done b todo m₃ r₃ hall hdone
        exact hdone.writeBlock_ends hall
      · rintro m₃ r₃ ⟨hdone, hfits, h₃⟩
        refine Ends.bind (Ends.sync hdone.handle ?_ ?_ hdone.frame)
        · intro r₄ h₄
          have h₄' := Plan.delay_succ h₃ h₄
          refine Ends.bind ((Ends.closeNew hdone.frame (Or.inl le_rfl) hdone.handle).mono
            ?_ ?_ fun m' hm' => hm'.1)
          · rintro _ m₅ r₅ ⟨hframe, hvars, hdisk, h₅⟩
            refine Ends.update ⟨⟨hframe.setVars _, ?_, ?_, ?_⟩, hfree, hfits,
              Plan.delay_succ h₄' h₅⟩
            · rw [Machine.setVars_disk, hdisk, hdone.entry]
            · rw [Machine.setVars_disk, hdisk, hdone.content]
            · rw [Machine.setVars_vars, hvars, hdone.vars, ← hfd]
          · rintro e m₅ r₅ ⟨hframe, hvars, -, h₅⟩
            have hfails : plan.FailsBefore (2 * blocks.length + 2 + 1 + 1) := h₄' ▸ h₅.delay
            exact ⟨⟨hframe, Or.inr (hvars.trans hdone.vars)⟩, Or.inl (hfails.mono (by omega))⟩
        · intro x h₄
          exact ⟨hdone.undrafted, Or.inl ((Plan.failsBefore_of_delay h₃ h₄).mono (by omega))⟩
    · intro x h₂
      exact ⟨(hdraft.put _).undrafted, Or.inl ((Plan.failsBefore_of_delay h₁ h₂).mono (by omega))⟩
    · intro x h₂
      exact (hdraft.put _).frame
  · intro i rest hsome _
    refine ⟨⟨hstart, Or.inl rfl⟩, Or.inr (Or.inl ?_)⟩
    rw [hsome]
    exact Option.some_ne_none i
  · intro x h₁
    have hfails := Plan.failsBefore_of_delay (Plan.delay_zero plan).symm h₁
    exact ⟨⟨hstart, Or.inl rfl⟩, Or.inl (hfails.mono (by omega))⟩

/-! ### Taking the place of the old journal -/

/-- The new journal, with the given contents, has taken the place of the old one. -/
structure Installed (m : World) (p : StorePath) (bytes : Bytes) (m' : World) : Prop where
  frame : m.Frame {p, .chain} ∅ {h | m.vars.chainFd = some h} m'
  bytes : chainBytes m'.disk = some bytes

theorem Installed.frame_trans {p : StorePath} {bytes : Bytes} {m₁ m₂ : World}
    (h : Installed m p bytes m₁) (hframe : m₁.Frame ∅ ∅ ∅ m₂) : Installed m p bytes m₂ where
  frame := h.frame.trans (hframe.mono (Set.empty_subset _) subset_rfl (Set.empty_subset _))
  bytes := by
    rw [chainBytes_frame hframe (Set.notMem_empty _) fun _ _ => Set.notMem_empty _, h.bytes]

theorem Installed.unlink {p : StorePath} {bytes : Bytes} {m₁ m₂ : World}
    (h : Installed m p bytes m₁) (hp : p ≠ .chain) (hframe : m₁.Frame {p} ∅ ∅ m₂) :
    Installed m p bytes m₂ where
  frame := h.frame.trans (hframe.mono (by simp) subset_rfl (Set.empty_subset _))
  bytes := by
    rw [chainBytes_frame hframe (fun hmem => hp hmem.symm) fun _ _ => Set.notMem_empty _, h.bytes]

/-- **Renaming** the new journal, and opening it for appending. -/
theorem install_ends {p : StorePath} {bytes : Bytes} {j : ℕ} (hp : p ≠ .chain)
    (hentry : m.disk.entry p = some j) (hcontent : m.disk.content j = bytes)
    (hopen : ∀ h, m.vars.chainFd = some h → ∃ t, m.handles h = some t) (blocks : List Json)
    (plan : Plan) :
    Ends (install p blocks) m plan
      (fun _ m' rest => Installed m p bytes m' ∧ m.vars.chainFd ≠ none ∧
        (∃ fd, m.nextHandle ≤ fd ∧ OnChain m' fd ∧
          m'.vars = { m.vars with chainFd := some fd, blocks }) ∧ plan = Plan.delay 6 rest)
      (fun _ m' _ => (m' = m ∧ plan.FailsBefore 1) ∨
        (Installed m p bytes m' ∧ m'.vars = m.vars ∧
          ((∃ rest, plan = Plan.delay 1 rest ∧ rest.FailsBefore 5) ∨ m.vars.chainFd = none)))
      (fun m' => m' = m ∨ Installed m p bytes m') := by
  refine Ends.bind (Ends.rename hentry ?_ ?_ (Or.inl rfl))
  · intro r₁ h₁
    have hrenamed : m.Frame {p, .chain} ∅ {h | m.vars.chainFd = some h} (m.rename p .chain) :=
      (Machine.Frame.refl _ _ _ m).rename (by simp) (by simp)
    have hchain : (m.rename p .chain).disk.entry .chain = some j := by
      simp [Function.update_of_ne (Ne.symm hp), hentry]
    have hinstalled : Installed m p bytes (m.rename p .chain) :=
      ⟨hrenamed, chainBytes_eq_some.2 ⟨j, hchain, hcontent⟩⟩
    refine Ends.bind ((syncDirectory_ends _ r₁).mono ?_ ?_ ?_)
    · rintro _ m₂ r₂ ⟨hsync, hvars, h₂⟩
      have hinstalled₂ := hinstalled.frame_trans hsync
      refine Ends.bind (Ends.bind (Ends.read ?_))
      rw [show m₂.vars.chainFd = m.vars.chainFd by rw [hvars]; rfl]
      cases hchainFd : m.vars.chainFd with
      | none => exact Ends.raise (Or.inr ⟨hinstalled₂, hvars, Or.inr rfl⟩)
      | some h =>
          obtain ⟨t, ht⟩ := hopen h hchainFd
          have hhandle : m₂.handles h = some t := hsync.handle_eq ht (Set.notMem_empty h)
          refine (Ends.closeNew hinstalled₂.frame (Or.inr hchainFd) hhandle).mono ?_ ?_ ?_
          · rintro _ m₃ r₃ ⟨hframe, hvars₃, hdisk, h₃⟩
            have hinstalled₃ : Installed m p bytes m₃ := ⟨hframe, hdisk ▸ hinstalled₂.bytes⟩
            obtain ⟨i, hentry₃, -⟩ := chainBytes_eq_some.1 hinstalled₃.bytes
            have hvars₃' : m₃.vars = m.vars := hvars₃.trans hvars
            refine Ends.bind (Ends.openAppend hentry₃ ?_ ?_ (Or.inr hinstalled₃))
            · intro r₄ h₄
              refine Ends.update ⟨⟨(hframe.openEntry hentry₃).setVars _, hinstalled₃.bytes⟩,
                Option.some_ne_none h,
                ⟨m₃.nextHandle, hframe.nextHandle_le, ⟨rfl, i, by simp, hentry₃⟩, ?_⟩, ?_⟩
              · rw [← hvars₃']
                rfl
              · rw [h₁, h₂, h₃, h₄, Plan.delay_delay, Plan.delay_delay, Plan.delay_delay]
            · intro x h₄
              refine Or.inr ⟨hinstalled₃, hvars₃', Or.inl ⟨r₁, h₁, ?_⟩⟩
              have h₃' : r₁ = Plan.delay (3 + 1) r₃ := by rw [h₂, h₃, Plan.delay_delay]
              exact Plan.failsBefore_of_delay h₃' h₄
          · rintro e m₃ r₃ ⟨hframe, hvars₃, hdisk, h₃⟩
            refine Or.inr ⟨⟨hframe, hdisk ▸ hinstalled₂.bytes⟩, hvars₃.trans hvars,
              Or.inl ⟨r₁, h₁, ?_⟩⟩
            have hfails : r₁.FailsBefore (3 + 1) := h₂ ▸ h₃.delay
            exact hfails.mono (by omega)
          · rintro m₃ ⟨hframe, hdisk⟩
            exact Or.inr ⟨hframe, hdisk ▸ hinstalled₂.bytes⟩
    · rintro e m₂ r₂ ⟨hsync, hvars, h₂⟩
      exact Or.inr ⟨hinstalled.frame_trans hsync, hvars, Or.inl ⟨r₁, h₁, h₂.mono (by omega)⟩⟩
    · intro m₂ hsync
      exact Or.inr (hinstalled.frame_trans hsync)
  · intro x h₁
    exact Or.inl ⟨rfl, Plan.failsBefore_of_delay (Plan.delay_zero plan).symm h₁⟩

/-- **Giving up** throws in any case; at most the temporary name goes away. -/
theorem abandon_ends {p : StorePath} {P : Set StorePath} {F H : Set ℕ} {m₁ : World} (hp : p ∈ P)
    (hframe : m.Frame P F H m₁) (hfd : ∀ k, m₁.vars.fd = some k → m.nextHandle ≤ k)
    (e : Exception Error) (plan : Plan) :
    Ends (abandon p e) m₁ plan (fun _ _ _ => False)
      (fun _ m' _ => m.Frame P F H m' ∧ m'.vars = m₁.vars) (fun m' => m.Frame P F H m') := by
  have hunlink : ∀ {m₂ : World} {plan' : Plan}, m.Frame P F H m₂ → m₂.vars = m₁.vars →
      Ends (do
        Prog.attempt (Fs.unlink p) fun _ => pure ()
        Prog.raise e : StoreProg Unit) m₂ plan' (fun _ _ _ => False)
        (fun _ m' _ => m.Frame P F H m' ∧ m'.vars = m₁.vars) (fun m' => m.Frame P F H m') := by
    intro m₂ plan' hframe₂ hvars
    refine Ends.bind (Ends.attempt (Ends.unlink ?_ ?_ ?_ hframe₂))
    · intro rest _
      exact Ends.raise ⟨hframe₂.unlink hp, hvars⟩
    · intro rest _ _
      exact Ends.pure (Ends.raise ⟨hframe₂, hvars⟩)
    · intro x _
      exact Ends.pure (Ends.raise ⟨hframe₂, hvars⟩)
  refine Ends.bind (Ends.read ?_)
  cases hfd₁ : m₁.vars.fd with
  | none => exact hunlink hframe rfl
  | some k =>
      have hreleased : m.Frame P F H (m₁.release k) := hframe.release (Or.inl (hfd k hfd₁))
      refine Ends.bind (Ends.close ?_ ?_ ?_ ?_)
      · intro rest _
        exact hunlink hreleased rfl
      · intro rest _ _
        exact ⟨hframe, rfl⟩
      · rintro x m' _ (rfl | rfl)
        · exact ⟨hframe, rfl⟩
        · exact ⟨hreleased, rfl⟩
      · rintro m' (rfl | rfl)
        · exact hframe
        · exact hreleased

/-! ### Replacing -/

theorem replace_closed_ends (c : Crypto) (pid : ℕ) (suffix : Str) (blocks : List Json)
    (plan : Plan) (hclosed : ∀ k, m.vars.lockFd = some k → m.vars.genesisHash ≠ some g) :
    Ends (replace c pid suffix g blocks) m plan (fun _ _ _ => False) (fun _ m' _ => m' = m)
      (fun _ => False) := by
  refine Ends.bind (Ends.read ?_)
  cases hlock : m.vars.lockFd with
  | none => exact Ends.raise rfl
  | some k =>
      have hgenesis : (m.vars.genesisHash == some g) = false :=
        beq_eq_false_iff_ne.2 (hclosed k hlock)
      rw [hgenesis]
      exact Ends.raise rfl

/-- `replace` left the old journal as it was. -/
structure KeepsOld (m : World) (p : StorePath) (m' : World) : Prop where
  frame : m.Frame {p} ∅ ∅ m'
  vars : ∃ fd, m'.vars = { m.vars with fd }

/-- `replace` put the new journal in the place of the old one, but not into the object. -/
structure LeavesNew (m : World) (p : StorePath) (bytes : Bytes) (m' : World) : Prop where
  installed : Installed m p bytes m'
  vars : ∃ fd, m'.vars = { m.vars with fd }

/-- `replace` did what it should. -/
structure Replaced (m : World) (p : StorePath) (bytes : Bytes) (blocks : List Json)
    (m' : World) : Prop where
  installed : Installed m p bytes m'
  opened : ∃ fd, m.nextHandle ≤ fd ∧ OnChain m' fd ∧
    m'.vars = { m.vars with fd := none, chainFd := some fd, blocks }

/-- **Replacing.**  It throws with the old journal in place if something fails up to the renaming,
and with the new one in place if something fails after it. -/
theorem replace_ends (c : Crypto) (pid : ℕ) (suffix : Str) (blocks : List Json) (plan : Plan)
    (hlock : m.vars.lockFd = some k) (hgenesis : m.vars.genesisHash = some g)
    (hopen : ∀ h, m.vars.chainFd = some h → ∃ t, m.handles h = some t) :
    Ends (replace c pid suffix g blocks) m plan
      (fun _ m' rest =>
        Replaced m (.temporary pid suffix) (utf8 (journalText c g blocks)) blocks m' ∧
        m.disk.entry (.temporary pid suffix) = none ∧ Fits c g blocks ∧ m.vars.chainFd ≠ none ∧
        plan = Plan.delay (2 * blocks.length + 10) rest)
      (fun _ m' _ =>
        (KeepsOld m (.temporary pid suffix) m' ∧ (plan.FailsBefore (2 * blocks.length + 5) ∨
          m.disk.entry (.temporary pid suffix) ≠ none ∨ ¬ Fits c g blocks)) ∨
        (LeavesNew m (.temporary pid suffix) (utf8 (journalText c g blocks)) m' ∧
          m.disk.entry (.temporary pid suffix) = none ∧ Fits c g blocks ∧
          ((∃ rest, plan = Plan.delay (2 * blocks.length + 5) rest ∧ rest.FailsBefore 5) ∨
            m.vars.chainFd = none)))
      (fun m' => m.Frame {.temporary pid suffix} ∅ ∅ m' ∨
        (chainBytes m'.disk = some (utf8 (journalText c g blocks)) ∧ Fits c g blocks)) := by
  set p : StorePath := .temporary pid suffix with hp
  have hne : p ≠ .chain := by simp [hp]
  have hnotMem : StorePath.chain ∉ ({p} : Set StorePath) := fun h => hne h.symm
  refine Ends.bind (Ends.read ?_)
  rw [hlock, hgenesis, beq_self_eq_true]
  refine Ends.bind (Ends.update ?_)
  set m₀ : World := m.setVars { m.vars with fd := none }
  have hbase : ∀ {P H m'}, m₀.Frame P ∅ H m' → m.Frame P ∅ H m' := fun h =>
    ⟨h.entry, h.content, h.handles, h.next_le, h.nextHandle_le⟩
  refine Ends.attempt (Ends.bind ((writeTemporary_ends c g p blocks rfl plan).mono ?_ ?_ ?_))
  · rintro _ m₁ r₁ ⟨hdrafted, hfree, hfits, h₁⟩
    have hopen₁ : ∀ h, m₁.vars.chainFd = some h → ∃ t, m₁.handles h = some t := by
      intro h hh
      rw [hdrafted.vars] at hh
      obtain ⟨t, ht⟩ := hopen h hh
      exact ⟨t, hdrafted.frame.handle_eq ht (Set.notMem_empty h)⟩
    have hinstalled : ∀ {m'}, Installed m₁ p (utf8 (journalText c g blocks)) m' →
        Installed m p (utf8 (journalText c g blocks)) m' := by
      intro m' h
      have hframe := h.frame
      rw [hdrafted.vars] at hframe
      exact ⟨hbase ((hdrafted.frame.mono (by simp) subset_rfl (Set.empty_subset _)).trans hframe),
        h.bytes⟩
    refine (install_ends hne hdrafted.entry hdrafted.content hopen₁ blocks r₁).mono ?_ ?_ ?_
    · rintro _ m₂ r₂ ⟨h, hchainFd, ⟨fd, hfd, honChain, hvars⟩, h₂⟩
      refine ⟨⟨hinstalled h, fd, ?_, honChain, ?_⟩, hfree, hfits, ?_, ?_⟩
      · exact le_trans hdrafted.frame.nextHandle_le hfd
      · rw [hvars, hdrafted.vars]
        rfl
      · rw [hdrafted.vars] at hchainFd
        exact hchainFd
      · rw [h₁, h₂, Plan.delay_delay]
    · rintro e m₂ r₂ (⟨rfl, hfails⟩ | ⟨h, hvars, hreason⟩)
      · -- the renaming failed
        have hnone : ∀ k, m₂.vars.fd = some k → m₀.nextHandle ≤ k := by
          intro k hk
          rw [hdrafted.vars] at hk
          cases hk
        refine (abandon_ends (Set.mem_singleton p) hdrafted.frame hnone e r₂).mono
          (fun _ _ _ h => h.elim) ?_ fun m' h => Or.inl (hbase h)
        rintro e' m' rest ⟨hframe, hvars⟩
        refine Or.inl ⟨⟨hbase hframe, none, hvars.trans hdrafted.vars⟩, Or.inl ?_⟩
        have hfails' : plan.FailsBefore (2 * blocks.length + 4 + 1) := h₁ ▸ hfails.delay
        exact hfails'
      · -- something failed after the renaming
        have hnone : ∀ k, m₂.vars.fd = some k → m₂.nextHandle ≤ k := by
          intro k hk
          rw [hvars, hdrafted.vars] at hk
          cases hk
        have hreason' : (∃ rest, plan = Plan.delay (2 * blocks.length + 5) rest ∧
            rest.FailsBefore 5) ∨ m.vars.chainFd = none := by
          rcases hreason with ⟨rest, h₂, hfails⟩ | hnone
          · exact Or.inl ⟨rest, by rw [h₁, h₂, Plan.delay_delay], hfails⟩
          · rw [hdrafted.vars] at hnone
            exact Or.inr hnone
        refine (abandon_ends (Set.mem_singleton p) (Machine.Frame.refl {p} ∅ ∅ m₂) hnone e
          r₂).mono (fun _ _ _ h => h.elim) ?_ ?_
        · rintro e' m' rest ⟨hframe, hvars'⟩
          have hvars₂ := hvars'.trans (hvars.trans hdrafted.vars)
          exact Or.inr ⟨⟨(hinstalled h).unlink hne hframe, none, hvars₂⟩, hfree, hfits, hreason'⟩
        · intro m' hframe
          exact Or.inr ⟨((hinstalled h).unlink hne hframe).bytes, hfits⟩
    · rintro m₂ (rfl | h)
      · exact Or.inl (hbase hdrafted.frame)
      · exact Or.inr ⟨h.bytes, hfits⟩
  · rintro e m₁ r₁ ⟨hundrafted, hreason⟩
    have hfd : ∀ k, m₁.vars.fd = some k → m₀.nextHandle ≤ k := by
      intro k hk
      rcases hundrafted.vars with hvars | hvars
      · rw [hvars] at hk
        cases hk
      · rw [hvars] at hk
        exact le_of_eq (Option.some.inj hk)
    refine (abandon_ends (Set.mem_singleton p) hundrafted.frame hfd e r₁).mono
      (fun _ _ _ h => h.elim) ?_ fun m' h => Or.inl (hbase h)
    rintro e' m' rest ⟨hframe, hvars⟩
    refine Or.inl ⟨⟨hbase hframe, ?_⟩, ?_⟩
    · rcases hundrafted.vars with h | h
      · exact ⟨none, hvars.trans h⟩
      · exact ⟨some m₀.nextHandle, hvars.trans h⟩
    · rcases hreason with hfails | hreason
      · exact Or.inl (hfails.mono (by omega))
      · exact Or.inr hreason
  · intro m₁ hframe
    exact Or.inl (hbase hframe)

/-! ### Closing -/

theorem releaseLock_ends (hlock : ∀ k, m.vars.lockFd = some k → ∃ t, m.handles k = some t) :
    Ends releaseLock m none
      (fun _ m' _ => m'.vars = { m.vars with lockFd := none } ∧
        chainBytes m'.disk = chainBytes m.disk ∧
        (m.vars.lockFd ≠ none ∨ m.disk.entry .lock = none → m'.disk.entry .lock = none))
      (fun _ _ _ => False) (fun _ => True) := by
  refine Ends.bind (Ends.read ?_)
  cases hfd : m.vars.lockFd with
  | none =>
      refine Ends.pure ⟨?_, rfl, ?_⟩
      · rw [← hfd]
      · rintro (hne | hfree)
        · exact absurd rfl hne
        · exact hfree
  | some k =>
      obtain ⟨t, ht⟩ := hlock k hfd
      have hframe : m.Frame ∅ ∅ {k} (m.release k) :=
        (Machine.Frame.refl _ _ _ m).release (Or.inr rfl)
      refine Ends.bind (Ends.close ?_ ?_ (fun x m' h => by cases h) fun _ _ => trivial)
      · intro r₁ h₁
        obtain rfl := Plan.eq_none_of_delay h₁
        refine Ends.bind (Ends.update (Ends.attempt (Ends.unlink ?_ ?_ (fun x h => by cases h)
          trivial)))
        · intro r₂ _
          refine ⟨rfl, ?_, fun _ => by simp⟩
          have hunlink : (m.release k).Frame {.lock} ∅ ∅ (((m.release k).setVars
              { m.vars with lockFd := none }).unlink .lock) :=
            ((Machine.Frame.refl _ _ _ (m.release k)).setVars _).unlink (Set.mem_singleton _)
          have hbytes := chainBytes_frame hunlink (by simp) fun _ _ => Set.notMem_empty _
          exact hbytes
        · intro r₂ hnone _
          exact Ends.pure ⟨rfl, rfl, fun _ => hnone⟩
      · intro rest hnone
        rw [ht] at hnone
        cases hnone

/-- **Closing**, when nothing goes wrong. -/
theorem close_ends (hchain : ∀ h, m.vars.chainFd = some h → ∃ t, m.handles h = some t)
    (hlock : ∀ k, m.vars.lockFd = some k → m.vars.chainFd ≠ some k ∧
      ∃ t, m.handles k = some t) :
    Ends close m none
      (fun _ m' _ => m'.vars = { m.vars with chainFd := none, lockFd := none } ∧
        chainBytes m'.disk = chainBytes m.disk ∧
        (m.vars.lockFd ≠ none ∨ m.disk.entry .lock = none → m'.disk.entry .lock = none))
      (fun _ _ _ => False) (fun _ => True) := by
  refine Ends.bind (Ends.read ?_)
  cases hfd : m.vars.chainFd with
  | none =>
      refine (releaseLock_ends fun k hk => (hlock k hk).2).mono ?_ (fun _ _ _ h => h) fun _ h => h
      rintro _ m' rest ⟨hvars, hrest⟩
      refine ⟨?_, hrest⟩
      rw [hvars, ← hfd]
  | some h =>
      obtain ⟨t, ht⟩ := hchain h hfd
      refine Ends.bind (Ends.close ?_ ?_ (fun x m' h => by cases h) fun _ _ => trivial)
      · intro r₁ h₁
        obtain rfl := Plan.eq_none_of_delay h₁
        refine Ends.bind (Ends.update ?_)
        have hstill : ∀ k, m.vars.lockFd = some k → ∃ t, (m.release h).handles k = some t := by
          intro k hk
          obtain ⟨hne, t', ht'⟩ := hlock k hk
          have hkh : k ≠ h := by
            rintro rfl
            exact hne hfd
          exact ⟨t', by rw [Machine.release_handles, Function.update_of_ne hkh, ht']⟩
        refine (releaseLock_ends hstill).mono ?_ (fun _ _ _ h => h) fun _ h => h
        rintro _ m' rest ⟨hvars, hbytes, hentry⟩
        exact ⟨hvars, hbytes, hentry⟩
      · intro rest hnone
        rw [ht] at hnone
        cases hnone

end MedacStore

end Medac
