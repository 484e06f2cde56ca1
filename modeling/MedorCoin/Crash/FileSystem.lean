/-
**A file system and the calls of one process on it.**

A disk maps names to files and files to their contents; a file keeps its contents when its name
goes away or comes to stand for another file.  A process holds handles on files and on the
directory, and has variables of its own.  Handles are never used again once they are closed.

What a call has done when it goes wrong: a write may have written any first part of its bytes, a
failed close may have released the handle or not, and every other call has done nothing.  (A crash
right after such a call is a crash at the next one.)  What was written stays written: a crash loses
the process, its handles and its variables, and nothing else.

Main definitions:

* `Crash.Disk`, `Crash.Target`, `Crash.Machine` — disks, what handles refer to, and a process;
* `Crash.Exception` — an error of the system, or one thrown by the program;
* `Crash.Fs.openNew`, `Crash.Fs.write`, `Crash.Fs.rename` and the others — the calls;
* `Crash.Machine.Frame` — what a run leaves as it was.

Main results:

* `Crash.Prog.Ends.openNew`, `Crash.Prog.Ends.write` and the others — one rule for each call;
* `Crash.Machine.Frame.trans`, `Crash.Machine.Frame.create` and the like — framing.
-/

import Mathlib.Data.Set.Insert
import Mathlib.Logic.Function.Basic
import Mathlib.Tactic.Simps.Basic
import MedorCoin.Crash.Prog

set_option autoImplicit false

namespace Crash

/-! ### Disks and machines -/

/-- A directory with its files. -/
structure Disk (π : Type) where
  /-- The file a name stands for. -/
  entry : π → Option ℕ
  /-- What is in a file. -/
  content : ℕ → List UInt8
  /-- The first file that does not exist yet. -/
  next : ℕ
  /-- Names stand for files that exist. -/
  entry_lt : ∀ {p i}, entry p = some i → i < next

/-- What a handle refers to. -/
inductive Target
  | file (inode : ℕ)
  | directory

/-- A process with its disk. -/
structure Machine (π σ : Type) where
  disk : Disk π
  /-- The open handles. -/
  handles : ℕ → Option Target
  /-- The next handle to be given out. -/
  nextHandle : ℕ
  /-- The variables of the process. -/
  vars : σ
  /-- Open handles have been given out. -/
  handle_lt : ∀ {h t}, handles h = some t → h < nextHandle
  /-- Handles refer to files that exist. -/
  file_lt : ∀ {h i}, handles h = some (.file i) → i < disk.next

/-- The errors of the calls. -/
inductive SystemError
  /-- `EEXIST` -/
  | exists
  /-- `ENOENT` -/
  | notFound
  /-- `EBADF` -/
  | badDescriptor
  /-- Whatever else the hardware or the kernel reports. -/
  | failure
  deriving DecidableEq

/-- An error of the system, or one that the program throws itself. -/
inductive Exception (ε : Type)
  | system (e : SystemError)
  | program (e : ε)

variable {π σ ε : Type}

namespace Disk

/-- An empty directory. -/
@[simps] def empty : Disk π where
  entry := fun _ => none
  content := fun _ => []
  next := 0
  entry_lt := fun h => by cases h

/-- A new empty file under the name `p`. -/
@[simps] def create [DecidableEq π] (d : Disk π) (p : π) : Disk π where
  entry := Function.update d.entry p (some d.next)
  content := Function.update d.content d.next []
  next := d.next + 1
  entry_lt := by
    intro q i h
    by_cases hq : q = p
    · subst hq
      rw [Function.update_self] at h
      cases h
      exact Nat.lt_succ_self _
    · rw [Function.update_of_ne hq] at h
      exact Nat.lt_succ_of_lt (d.entry_lt h)

/-- Other contents of the file `i`. -/
@[simps] def put (d : Disk π) (i : ℕ) (bytes : List UInt8) : Disk π where
  entry := d.entry
  content := Function.update d.content i bytes
  next := d.next
  entry_lt := d.entry_lt

/-- The name `q` stands for the file that `p` stood for. -/
@[simps] def rename [DecidableEq π] (d : Disk π) (p q : π) : Disk π where
  entry := Function.update (Function.update d.entry q (d.entry p)) p none
  content := d.content
  next := d.next
  entry_lt := by
    intro r i h
    by_cases hp : r = p
    · subst hp
      simp at h
    · rw [Function.update_of_ne hp] at h
      by_cases hq : r = q
      · subst hq
        rw [Function.update_self] at h
        exact d.entry_lt h
      · rw [Function.update_of_ne hq] at h
        exact d.entry_lt h

/-- The name `p` goes away. -/
@[simps] def unlink [DecidableEq π] (d : Disk π) (p : π) : Disk π where
  entry := Function.update d.entry p none
  content := d.content
  next := d.next
  entry_lt := by
    intro q i h
    by_cases hq : q = p
    · subst hq
      simp at h
    · rw [Function.update_of_ne hq] at h
      exact d.entry_lt h

end Disk

namespace Machine

/-- The same process with another disk. -/
@[simps] def setDisk (m : Machine π σ) (d : Disk π) (h : m.disk.next ≤ d.next) : Machine π σ where
  disk := d
  handles := m.handles
  nextHandle := m.nextHandle
  vars := m.vars
  handle_lt := m.handle_lt
  file_lt := fun hh => lt_of_lt_of_le (m.file_lt hh) h

/-- A new handle. -/
@[simps] def handOut (m : Machine π σ) (t : Target) (ht : ∀ i, t = .file i → i < m.disk.next) :
    Machine π σ where
  disk := m.disk
  handles := Function.update m.handles m.nextHandle (some t)
  nextHandle := m.nextHandle + 1
  vars := m.vars
  handle_lt := by
    intro h t' hh
    by_cases hn : h = m.nextHandle
    · omega
    · rw [Function.update_of_ne hn] at hh
      exact Nat.lt_succ_of_lt (m.handle_lt hh)
  file_lt := by
    intro h i hh
    by_cases hn : h = m.nextHandle
    · subst hn
      rw [Function.update_self, Option.some.injEq] at hh
      exact ht i hh
    · rw [Function.update_of_ne hn] at hh
      exact m.file_lt hh

/-- The handle `h` is closed. -/
@[simps] def release (m : Machine π σ) (h : ℕ) : Machine π σ where
  disk := m.disk
  handles := Function.update m.handles h none
  nextHandle := m.nextHandle
  vars := m.vars
  handle_lt := by
    intro h' t hh
    by_cases hn : h' = h
    · subst hn
      simp at hh
    · rw [Function.update_of_ne hn] at hh
      exact m.handle_lt hh
  file_lt := by
    intro h' i hh
    by_cases hn : h' = h
    · subst hn
      simp at hh
    · rw [Function.update_of_ne hn] at hh
      exact m.file_lt hh

/-- Other variables. -/
@[simps] def setVars (m : Machine π σ) (v : σ) : Machine π σ where
  disk := m.disk
  handles := m.handles
  nextHandle := m.nextHandle
  vars := v
  handle_lt := m.handle_lt
  file_lt := m.file_lt

/-- A process that has just been started. -/
@[simps] def boot (d : Disk π) (v : σ) : Machine π σ where
  disk := d
  handles := fun _ => none
  nextHandle := 0
  vars := v
  handle_lt := fun h => by cases h
  file_lt := fun h => by cases h

/-- A new empty file under the name `p`, and a handle on it. -/
@[simps!] def create [DecidableEq π] (m : Machine π σ) (p : π) : Machine π σ :=
  (m.setDisk (m.disk.create p) (by rw [Disk.create_next]; exact Nat.le_succ _)).handOut
    (.file m.disk.next) fun i hi => by
      cases hi
      exact Nat.lt_succ_self _

/-- Other contents of the file `i`. -/
@[simps!] def put (m : Machine π σ) (i : ℕ) (bytes : List UInt8) : Machine π σ :=
  m.setDisk (m.disk.put i bytes) (by rw [Disk.put_next])

/-- The name `q` stands for the file that `p` stood for. -/
@[simps!] def rename [DecidableEq π] (m : Machine π σ) (p q : π) : Machine π σ :=
  m.setDisk (m.disk.rename p q) (by rw [Disk.rename_next])

/-- The name `p` goes away. -/
@[simps!] def unlink [DecidableEq π] (m : Machine π σ) (p : π) : Machine π σ :=
  m.setDisk (m.disk.unlink p) (by rw [Disk.unlink_next])

/-- A handle on the file that `p` stands for. -/
@[simps!] def openEntry (m : Machine π σ) {p : π} {i : ℕ} (h : m.disk.entry p = some i) :
    Machine π σ :=
  m.handOut (.file i) fun j hj => by
    cases hj
    exact m.disk.entry_lt h

/-- A handle on the directory. -/
@[simps!] def openDirectory (m : Machine π σ) : Machine π σ :=
  m.handOut .directory fun _ h => by cases h

end Machine

/-! ### The calls -/

namespace Fs

/-- A program of a process. -/
abbrev Proc (π σ ε α : Type) : Type := Prog (Machine π σ) (Exception ε) α

/-- Go on with a result that was computed without a call. -/
def ofExcept {α : Type} : Except ε α → Proc π σ ε α
  | .ok a => pure a
  | .error e => Prog.raise (.program e)

/-- A call that only looks whether all is well. -/
def check : Proc π σ ε Unit :=
  Prog.call (.system .failure) (fun m => .ok ((), m)) fun _ m => m

/-- `openSync(p, "wx")`: create a file that must not exist yet. -/
def openNew [DecidableEq π] (p : π) : Proc π σ ε ℕ :=
  Prog.call (.system .failure)
    (fun m =>
      match m.disk.entry p with
      | some _ => .error (.system .exists)
      | none => .ok (m.nextHandle, m.create p))
    fun _ m => m

/-- `openSync(p, "r+")`: open a file that must exist. -/
def openExisting (p : π) : Proc π σ ε ℕ :=
  Prog.call (.system .failure)
    (fun m =>
      match h : m.disk.entry p with
      | some _ => .ok (m.nextHandle, m.openEntry h)
      | none => .error (.system .notFound))
    fun _ m => m

/-- `openSync(p, "a")`: open a file for appending, and create it if need be. -/
def openAppend [DecidableEq π] (p : π) : Proc π σ ε ℕ :=
  Prog.call (.system .failure)
    (fun m =>
      match h : m.disk.entry p with
      | some _ => .ok (m.nextHandle, m.openEntry h)
      | none => .ok (m.nextHandle, m.create p))
    fun _ m => m

/-- `openSync(directory, "r")` -/
def openDirectory : Proc π σ ε ℕ :=
  Prog.call (.system .failure) (fun m => .ok (m.nextHandle, m.openDirectory)) fun _ m => m

/-- `writeSync(h, bytes)`, until all is written: every write of the program is at the end of its
file. -/
def write (h : ℕ) (bytes : List UInt8) : Proc π σ ε Unit :=
  Prog.call (.system .failure)
    (fun m =>
      match m.handles h with
      | some (.file i) => .ok ((), m.put i (m.disk.content i ++ bytes))
      | _ => .error (.system .badDescriptor))
    fun x m =>
      match m.handles h with
      | some (.file i) => m.put i (m.disk.content i ++ bytes.take x)
      | _ => m

/-- `fstatSync(h).size` -/
def size (h : ℕ) : Proc π σ ε ℕ :=
  Prog.call (.system .failure)
    (fun m =>
      match m.handles h with
      | some (.file i) => .ok ((m.disk.content i).length, m)
      | _ => .error (.system .badDescriptor))
    fun _ m => m

/-- `ftruncateSync(h, n)`, which fills up a shorter file with zeros. -/
def truncate (h n : ℕ) : Proc π σ ε Unit :=
  Prog.call (.system .failure)
    (fun m =>
      match m.handles h with
      | some (.file i) =>
          .ok ((), m.put i ((m.disk.content i).take n ++
            List.replicate (n - (m.disk.content i).length) 0))
      | _ => .error (.system .badDescriptor))
    fun _ m => m

/-- `fsyncSync(h)` -/
def sync (h : ℕ) : Proc π σ ε Unit :=
  Prog.call (.system .failure)
    (fun m =>
      match m.handles h with
      | some _ => .ok ((), m)
      | none => .error (.system .badDescriptor))
    fun _ m => m

/-- `closeSync(h)` -/
def close (h : ℕ) : Proc π σ ε Unit :=
  Prog.call (.system .failure)
    (fun m =>
      match m.handles h with
      | some _ => .ok ((), m.release h)
      | none => .error (.system .badDescriptor))
    fun x m => if x = 0 then m else m.release h

/-- `renameSync(p, q)` -/
def rename [DecidableEq π] (p q : π) : Proc π σ ε Unit :=
  Prog.call (.system .failure)
    (fun m =>
      match m.disk.entry p with
      | some _ => .ok ((), m.rename p q)
      | none => .error (.system .notFound))
    fun _ m => m

/-- `unlinkSync(p)` -/
def unlink [DecidableEq π] (p : π) : Proc π σ ε Unit :=
  Prog.call (.system .failure)
    (fun m =>
      match m.disk.entry p with
      | some _ => .ok ((), m.unlink p)
      | none => .error (.system .notFound))
    fun _ m => m

/-- `existsSync(p)`, which never throws. -/
def «exists» (p : π) : Proc π σ ε Bool := Prog.read fun m => (m.disk.entry p).isSome

/-- `lstatSync(p).size` -/
def stat (p : π) : Proc π σ ε ℕ :=
  Prog.call (.system .failure)
    (fun m =>
      match m.disk.entry p with
      | some i => .ok ((m.disk.content i).length, m)
      | none => .error (.system .notFound))
    fun _ m => m

/-- `readFileSync(p)` -/
def readFile (p : π) : Proc π σ ε (List UInt8) :=
  Prog.call (.system .failure)
    (fun m =>
      match m.disk.entry p with
      | some i => .ok (m.disk.content i, m)
      | none => .error (.system .notFound))
    fun _ m => m

end Fs

/-! ### The rules of the calls -/

namespace Prog

variable {m : Machine π σ} {plan : Plan} {p q : π} {h i : ℕ} {bytes : List UInt8} {t : Target}
  {E : Exception ε → Machine π σ → Plan → Prop} {C : Machine π σ → Prop}

theorem Ends.ofExcept {α : Type} {Q : α → Machine π σ → Plan → Prop} {r : Except ε α}
    (hok : ∀ a, r = .ok a → Q a m plan) (herror : ∀ e, r = .error e → E (.program e) m plan) :
    Ends (Fs.ofExcept r) m plan Q E C := by
  cases r with
  | ok a => exact Ends.pure (hok a rfl)
  | error e => exact Ends.raise (herror e rfl)

theorem NoCrash.ofExcept {α : Type} (r : Except ε α) :
    NoCrash (Fs.ofExcept r : Fs.Proc π σ ε α) := by
  cases r with
  | ok a => exact .pure a
  | error e => exact .raise _

section Unit

variable {Q : Unit → Machine π σ → Plan → Prop}

theorem Ends.check (hok : ∀ rest, plan = Plan.delay 1 rest → Q () m rest)
    (hfail : ∀ x, plan = some (0, .fail x) → E (.system .failure) m none) (hcrash : C m) :
    Ends Fs.check m plan Q E C := by
  refine Ends.call ?_ ?_ hfail fun _ _ => hcrash
  · intro _ m' rest hrun hplan
    cases hrun
    exact hok rest hplan
  · intro e rest hrun
    cases hrun

theorem Ends.write (hh : m.handles h = some (.file i))
    (hok : ∀ rest, plan = Plan.delay 1 rest → Q () (m.put i (m.disk.content i ++ bytes)) rest)
    (hfail : ∀ x, plan = some (0, .fail x) →
      E (.system .failure) (m.put i (m.disk.content i ++ bytes.take x)) none)
    (hcrash : ∀ x, plan = some (0, .crash x) →
      C (m.put i (m.disk.content i ++ bytes.take x))) :
    Ends (Fs.write h bytes) m plan Q E C := by
  refine Ends.call ?_ ?_ ?_ ?_
  · intro _ m' rest hrun hplan
    simp only [hh, Except.ok.injEq, Prod.mk.injEq, true_and] at hrun
    rw [← hrun]
    exact hok rest hplan
  · intro e rest hrun
    simp [hh] at hrun
  · intro x hplan
    simp only [hh]
    exact hfail x hplan
  · intro x hplan
    simp only [hh]
    exact hcrash x hplan

theorem Ends.truncate {n : ℕ} (hh : m.handles h = some (.file i))
    (hok : ∀ rest, plan = Plan.delay 1 rest → Q () (m.put i ((m.disk.content i).take n ++
      List.replicate (n - (m.disk.content i).length) 0)) rest)
    (hfail : ∀ x, plan = some (0, .fail x) → E (.system .failure) m none) (hcrash : C m) :
    Ends (Fs.truncate h n) m plan Q E C := by
  refine Ends.call ?_ ?_ hfail fun _ _ => hcrash
  · intro _ m' rest hrun hplan
    simp only [hh, Except.ok.injEq, Prod.mk.injEq, true_and] at hrun
    rw [← hrun]
    exact hok rest hplan
  · intro e rest hrun
    simp [hh] at hrun

theorem Ends.sync (hh : m.handles h = some t)
    (hok : ∀ rest, plan = Plan.delay 1 rest → Q () m rest)
    (hfail : ∀ x, plan = some (0, .fail x) → E (.system .failure) m none) (hcrash : C m) :
    Ends (Fs.sync h) m plan Q E C := by
  refine Ends.call ?_ ?_ hfail fun _ _ => hcrash
  · intro _ m' rest hrun hplan
    simp only [hh, Except.ok.injEq, Prod.mk.injEq, true_and] at hrun
    rw [← hrun]
    exact hok rest hplan
  · intro e rest hrun
    simp [hh] at hrun

theorem Ends.close (hok : ∀ rest, plan = Plan.delay 1 rest → Q () (m.release h) rest)
    (hbad : ∀ rest, m.handles h = none → plan = Plan.delay 1 rest →
      E (.system .badDescriptor) m rest)
    (hfail : ∀ x m', plan = some (0, .fail x) → m' = m ∨ m' = m.release h →
      E (.system .failure) m' none)
    (hcrash : ∀ m', m' = m ∨ m' = m.release h → C m') :
    Ends (Fs.close h) m plan Q E C := by
  have hcut : ∀ x, (if x = 0 then m else m.release h) = m ∨
      (if x = 0 then m else m.release h) = m.release h := by
    intro x
    by_cases hx : x = 0
    · exact Or.inl (if_pos hx)
    · exact Or.inr (if_neg hx)
  refine Ends.call ?_ ?_ ?_ ?_
  · intro _ m' rest hrun hplan
    cases hh : m.handles h with
    | none => simp [hh] at hrun
    | some t =>
        simp only [hh, Except.ok.injEq, Prod.mk.injEq, true_and] at hrun
        rw [← hrun]
        exact hok rest hplan
  · intro e rest hrun hplan
    cases hh : m.handles h with
    | none =>
        simp only [hh, Except.error.injEq] at hrun
        rw [← hrun]
        exact hbad rest hh hplan
    | some t => simp [hh] at hrun
  · intro x hplan
    exact hfail x _ hplan (hcut x)
  · intro x _
    exact hcrash _ (hcut x)

theorem Ends.rename [DecidableEq π] (hp : m.disk.entry p = some i)
    (hok : ∀ rest, plan = Plan.delay 1 rest →
      Q () (m.rename p q) rest)
    (hfail : ∀ x, plan = some (0, .fail x) → E (.system .failure) m none) (hcrash : C m) :
    Ends (Fs.rename p q) m plan Q E C := by
  refine Ends.call ?_ ?_ hfail fun _ _ => hcrash
  · intro _ m' rest hrun hplan
    simp only [hp, Except.ok.injEq, Prod.mk.injEq, true_and] at hrun
    rw [← hrun]
    exact hok rest hplan
  · intro e rest hrun
    simp [hp] at hrun

theorem Ends.unlink [DecidableEq π]
    (hok : ∀ rest, plan = Plan.delay 1 rest → Q () (m.unlink p) rest)
    (habsent : ∀ rest, m.disk.entry p = none → plan = Plan.delay 1 rest →
      E (.system .notFound) m rest)
    (hfail : ∀ x, plan = some (0, .fail x) → E (.system .failure) m none) (hcrash : C m) :
    Ends (Fs.unlink p) m plan Q E C := by
  refine Ends.call ?_ ?_ hfail fun _ _ => hcrash
  · intro _ m' rest hrun hplan
    cases hp : m.disk.entry p with
    | none => simp [hp] at hrun
    | some i =>
        simp only [hp, Except.ok.injEq, Prod.mk.injEq, true_and] at hrun
        rw [← hrun]
        exact hok rest hplan
  · intro e rest hrun hplan
    cases hp : m.disk.entry p with
    | none =>
        simp only [hp, Except.error.injEq] at hrun
        rw [← hrun]
        exact habsent rest hp hplan
    | some i => simp [hp] at hrun

end Unit

section Handle

variable {Q : ℕ → Machine π σ → Plan → Prop}

theorem Ends.openNew [DecidableEq π]
    (hok : ∀ rest, m.disk.entry p = none → plan = Plan.delay 1 rest →
      Q m.nextHandle (m.create p) rest)
    (hexists : ∀ i rest, m.disk.entry p = some i → plan = Plan.delay 1 rest →
      E (.system .exists) m rest)
    (hfail : ∀ x, plan = some (0, .fail x) → E (.system .failure) m none) (hcrash : C m) :
    Ends (Fs.openNew p) m plan Q E C := by
  refine Ends.call ?_ ?_ hfail fun _ _ => hcrash
  · intro a m' rest hrun hplan
    cases hp : m.disk.entry p with
    | none =>
        simp only [hp, Except.ok.injEq, Prod.mk.injEq] at hrun
        rw [← hrun.1, ← hrun.2]
        exact hok rest hp hplan
    | some i => simp [hp] at hrun
  · intro e rest hrun hplan
    cases hp : m.disk.entry p with
    | none => simp [hp] at hrun
    | some i =>
        simp only [hp, Except.error.injEq] at hrun
        rw [← hrun]
        exact hexists i rest hp hplan

theorem Ends.openExisting (hp : m.disk.entry p = some i)
    (hok : ∀ rest, plan = Plan.delay 1 rest → Q m.nextHandle (m.openEntry hp) rest)
    (hfail : ∀ x, plan = some (0, .fail x) → E (.system .failure) m none) (hcrash : C m) :
    Ends (Fs.openExisting p) m plan Q E C := by
  refine Ends.call ?_ ?_ hfail fun _ _ => hcrash
  · intro a m' rest hrun hplan
    split at hrun
    · next j hj =>
        cases Option.some.inj (hj.symm.trans hp)
        cases hrun
        exact hok rest hplan
    · next hnone =>
        rw [hp] at hnone
        cases hnone
  · intro e rest hrun
    split at hrun
    · cases hrun
    · next hnone =>
        rw [hp] at hnone
        cases hnone

theorem Ends.openAppend [DecidableEq π] (hp : m.disk.entry p = some i)
    (hok : ∀ rest, plan = Plan.delay 1 rest → Q m.nextHandle (m.openEntry hp) rest)
    (hfail : ∀ x, plan = some (0, .fail x) → E (.system .failure) m none) (hcrash : C m) :
    Ends (Fs.openAppend p) m plan Q E C := by
  refine Ends.call ?_ ?_ hfail fun _ _ => hcrash
  · intro a m' rest hrun hplan
    split at hrun
    · next j hj =>
        cases Option.some.inj (hj.symm.trans hp)
        cases hrun
        exact hok rest hplan
    · next hnone =>
        rw [hp] at hnone
        cases hnone
  · intro e rest hrun
    split at hrun
    · cases hrun
    · cases hrun

theorem Ends.openDirectory
    (hok : ∀ rest, plan = Plan.delay 1 rest → Q m.nextHandle m.openDirectory rest)
    (hfail : ∀ x, plan = some (0, .fail x) → E (.system .failure) m none) (hcrash : C m) :
    Ends Fs.openDirectory m plan Q E C := by
  refine Ends.call ?_ ?_ hfail fun _ _ => hcrash
  · intro a m' rest hrun hplan
    cases hrun
    exact hok rest hplan
  · intro e rest hrun
    cases hrun

theorem Ends.size (hh : m.handles h = some (.file i))
    (hok : ∀ rest, plan = Plan.delay 1 rest → Q (m.disk.content i).length m rest)
    (hfail : ∀ x, plan = some (0, .fail x) → E (.system .failure) m none) (hcrash : C m) :
    Ends (Fs.size h) m plan Q E C := by
  refine Ends.call ?_ ?_ hfail fun _ _ => hcrash
  · intro a m' rest hrun hplan
    simp only [hh, Except.ok.injEq, Prod.mk.injEq] at hrun
    rw [← hrun.1, ← hrun.2]
    exact hok rest hplan
  · intro e rest hrun
    simp [hh] at hrun

theorem Ends.stat (hp : m.disk.entry p = some i)
    (hok : ∀ rest, plan = Plan.delay 1 rest → Q (m.disk.content i).length m rest)
    (hfail : ∀ x, plan = some (0, .fail x) → E (.system .failure) m none) (hcrash : C m) :
    Ends (Fs.stat p) m plan Q E C := by
  refine Ends.call ?_ ?_ hfail fun _ _ => hcrash
  · intro a m' rest hrun hplan
    simp only [hp, Except.ok.injEq, Prod.mk.injEq] at hrun
    rw [← hrun.1, ← hrun.2]
    exact hok rest hplan
  · intro e rest hrun
    simp [hp] at hrun

end Handle

theorem Ends.readFile {Q : List UInt8 → Machine π σ → Plan → Prop}
    (hp : m.disk.entry p = some i)
    (hok : ∀ rest, plan = Plan.delay 1 rest → Q (m.disk.content i) m rest)
    (hfail : ∀ x, plan = some (0, .fail x) → E (.system .failure) m none) (hcrash : C m) :
    Ends (Fs.readFile p) m plan Q E C := by
  refine Ends.call ?_ ?_ hfail fun _ _ => hcrash
  · intro a m' rest hrun hplan
    simp only [hp, Except.ok.injEq, Prod.mk.injEq] at hrun
    rw [← hrun.1, ← hrun.2]
    exact hok rest hplan
  · intro e rest hrun
    simp [hp] at hrun

end Prog

/-! ### What a run leaves as it was -/

/-- **Framing**: what was there in `m` is there in `m'`, except for the names in `P`, the contents
of the files in `F` and the handles in `H`. -/
structure Machine.Frame (P : Set π) (F H : Set ℕ) (m m' : Machine π σ) : Prop where
  entry : ∀ p, p ∉ P → m'.disk.entry p = m.disk.entry p
  content : ∀ i, i < m.disk.next → i ∉ F → m'.disk.content i = m.disk.content i
  handles : ∀ h, h < m.nextHandle → h ∉ H → m'.handles h = m.handles h
  next_le : m.disk.next ≤ m'.disk.next
  nextHandle_le : m.nextHandle ≤ m'.nextHandle

namespace Machine.Frame

variable {P P' : Set π} {F F' H H' : Set ℕ} {m m' m'' : Machine π σ}

theorem refl (P : Set π) (F H : Set ℕ) (m : Machine π σ) : Frame P F H m m where
  entry _ _ := rfl
  content _ _ _ := rfl
  handles _ _ _ := rfl
  next_le := le_rfl
  nextHandle_le := le_rfl

theorem trans (h : Frame P F H m m') (h' : Frame P F H m' m'') : Frame P F H m m'' where
  entry p hp := (h'.entry p hp).trans (h.entry p hp)
  content i hi hF := (h'.content i (lt_of_lt_of_le hi h.next_le) hF).trans (h.content i hi hF)
  handles k hk hH :=
    (h'.handles k (lt_of_lt_of_le hk h.nextHandle_le) hH).trans (h.handles k hk hH)
  next_le := le_trans h.next_le h'.next_le
  nextHandle_le := le_trans h.nextHandle_le h'.nextHandle_le

theorem mono (h : Frame P F H m m') (hP : P ⊆ P') (hF : F ⊆ F') (hH : H ⊆ H') :
    Frame P' F' H' m m' where
  entry p hp := h.entry p fun hmem => hp (hP hmem)
  content i hi hi' := h.content i hi fun hmem => hi' (hF hmem)
  handles k hk hk' := h.handles k hk fun hmem => hk' (hH hmem)
  next_le := h.next_le
  nextHandle_le := h.nextHandle_le

theorem handle_eq {k : ℕ} {t : Target} (h : Frame P F H m m') (hk : m.handles k = some t)
    (hH : k ∉ H) : m'.handles k = some t := by
  rw [h.handles k (m.handle_lt hk) hH, hk]

theorem content_eq {p : π} {i : ℕ} (h : Frame P F H m m') (hp : m.disk.entry p = some i)
    (hF : i ∉ F) : m'.disk.content i = m.disk.content i :=
  h.content i (m.disk.entry_lt hp) hF

/-! Each of the changes a call makes. -/

theorem handOut (h : Frame P F H m m') (t : Target) (ht : ∀ i, t = .file i → i < m'.disk.next) :
    Frame P F H m (m'.handOut t ht) where
  entry := h.entry
  content := h.content
  handles := by
    intro k hk hH
    have hne : k ≠ m'.nextHandle := Nat.ne_of_lt (lt_of_lt_of_le hk h.nextHandle_le)
    rw [Machine.handOut_handles, Function.update_of_ne hne, h.handles k hk hH]
  next_le := h.next_le
  nextHandle_le := Nat.le_succ_of_le h.nextHandle_le

theorem openDirectory (h : Frame P F H m m') : Frame P F H m m'.openDirectory := h.handOut _ _

theorem openEntry {p : π} {i : ℕ} (h : Frame P F H m m') (hp : m'.disk.entry p = some i) :
    Frame P F H m (m'.openEntry hp) := h.handOut _ _

theorem release {k : ℕ} (h : Frame P F H m m') (hk : m.nextHandle ≤ k ∨ k ∈ H) :
    Frame P F H m (m'.release k) where
  entry := h.entry
  content := h.content
  handles := by
    intro k' hk' hH
    have hne : k' ≠ k := by
      rintro rfl
      rcases hk with hk | hk
      · exact absurd hk' (not_lt.2 hk)
      · exact hH hk
    rw [Machine.release_handles, Function.update_of_ne hne, h.handles k' hk' hH]
  next_le := h.next_le
  nextHandle_le := h.nextHandle_le

theorem put {i : ℕ} (h : Frame P F H m m') (hi : m.disk.next ≤ i ∨ i ∈ F) (bytes : List UInt8) :
    Frame P F H m (m'.put i bytes) where
  entry := h.entry
  content := by
    intro j hj hF
    have hne : j ≠ i := by
      rintro rfl
      rcases hi with hi | hi
      · exact absurd hj (not_lt.2 hi)
      · exact hF hi
    rw [Machine.put_disk_content, Function.update_of_ne hne, h.content j hj hF]
  handles := h.handles
  next_le := h.next_le
  nextHandle_le := h.nextHandle_le

theorem setVars (h : Frame P F H m m') (v : σ) : Frame P F H m (m'.setVars v) where
  entry := h.entry
  content := h.content
  handles := h.handles
  next_le := h.next_le
  nextHandle_le := h.nextHandle_le

variable [DecidableEq π]

theorem create {p : π} (h : Frame P F H m m') (hp : p ∈ P) : Frame P F H m (m'.create p) where
  entry := by
    intro q hq
    have hne : q ≠ p := fun heq => hq (heq ▸ hp)
    rw [Machine.create_disk_entry, Function.update_of_ne hne, h.entry q hq]
  content := by
    intro i hi hF
    have hne : i ≠ m'.disk.next := Nat.ne_of_lt (lt_of_lt_of_le hi h.next_le)
    rw [Machine.create_disk_content, Function.update_of_ne hne, h.content i hi hF]
  handles := by
    intro k hk hH
    have hne : k ≠ m'.nextHandle := Nat.ne_of_lt (lt_of_lt_of_le hk h.nextHandle_le)
    rw [Machine.create_handles, Function.update_of_ne hne, Machine.setDisk_handles,
      h.handles k hk hH]
  next_le := Nat.le_succ_of_le h.next_le
  nextHandle_le := Nat.le_succ_of_le h.nextHandle_le

theorem rename {p q : π} (h : Frame P F H m m') (hp : p ∈ P) (hq : q ∈ P) :
    Frame P F H m (m'.rename p q) where
  entry := by
    intro r hr
    have hrp : r ≠ p := fun heq => hr (heq ▸ hp)
    have hrq : r ≠ q := fun heq => hr (heq ▸ hq)
    rw [Machine.rename_disk_entry, Function.update_of_ne hrp, Function.update_of_ne hrq,
      h.entry r hr]
  content := h.content
  handles := h.handles
  next_le := h.next_le
  nextHandle_le := h.nextHandle_le

theorem unlink {p : π} (h : Frame P F H m m') (hp : p ∈ P) : Frame P F H m (m'.unlink p) where
  entry := by
    intro r hr
    have hrp : r ≠ p := fun heq => hr (heq ▸ hp)
    rw [Machine.unlink_disk_entry, Function.update_of_ne hrp, h.entry r hr]
  content := h.content
  handles := h.handles
  next_le := h.next_le
  nextHandle_le := h.nextHandle_le

end Machine.Frame

/-- **Closing a handle** that was given out since `m` changes nothing that was there in `m`, and
the disk not at all. -/
theorem Prog.Ends.closeNew {P : Set π} {F H : Set ℕ} {m m₁ : Machine π σ} {plan : Plan} {k : ℕ}
    {t : Target} (hframe : m.Frame P F H m₁) (hk : m.nextHandle ≤ k ∨ k ∈ H)
    (hopen : m₁.handles k = some t) :
    Ends (Fs.close k : Fs.Proc π σ ε Unit) m₁ plan
      (fun _ m' rest => m.Frame P F H m' ∧ m'.vars = m₁.vars ∧ m'.disk = m₁.disk ∧
        plan = Plan.delay 1 rest)
      (fun _ m' _ => m.Frame P F H m' ∧ m'.vars = m₁.vars ∧ m'.disk = m₁.disk ∧
        plan.FailsBefore 1)
      (fun m' => m.Frame P F H m' ∧ m'.disk = m₁.disk) := by
  have hreleased : m.Frame P F H (m₁.release k) := hframe.release hk
  refine Ends.close ?_ ?_ ?_ ?_
  · intro rest h
    exact ⟨hreleased, rfl, rfl, h⟩
  · intro rest hnone
    rw [hopen] at hnone
    cases hnone
  · rintro x m' h (rfl | rfl)
    · exact ⟨hframe, rfl, rfl, Plan.failsBefore_of_delay (Plan.delay_zero plan).symm h⟩
    · exact ⟨hreleased, rfl, rfl, Plan.failsBefore_of_delay (Plan.delay_zero plan).symm h⟩
  · rintro m' (rfl | rfl)
    · exact ⟨hframe, rfl⟩
    · exact ⟨hreleased, rfl⟩

end Crash
