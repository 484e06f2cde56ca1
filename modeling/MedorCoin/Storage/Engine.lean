/-
**The storage engine and its crashes.**

`storage.cjs` takes operations from a queue, one after another.  It puts the line of an operation
into the log, syncs the log, passes the operation to the database, and acknowledges it if the
database accepted it.  A crash may come at any point.  It leaves some part of the line that is being
written, and any of the writes that the database has not synced.  Opening the storage again puts the
entries of the latest snapshot into the database, and then does the operations of the log.

The database is a key-value store outside the program.  Whether it accepts an operation, and which
keys it visits when the entries are listed, is chosen by the events.  The sentinel that its health
check writes is kept apart from the keys of the store.  A log or a directory that is not there yet
is read as an empty one.

Main definitions:

* `Storage.World` — the database, the log and the snapshots;
* `Storage.recovery` — the operations that recovery does;
* `Storage.State`, `Storage.Event`, `Storage.step` — what can happen;
* `Storage.Durable` — **the storage has what was acknowledged**;
* `Storage.Safe` — the steps in which nothing is lost.
-/

import MedorCoin.Storage.Snapshot
import MedorCoin.Storage.Wal
import MedorCoin.Transition.Run

set_option autoImplicit false

namespace Storage

open Js Ledger Transition

/-! ### The model -/

/-- What is outside the process. -/
structure World where
  db : Disk Str Str
  wal : Bytes := []
  snapshots : Files := Map.empty

/-- What became of the operations: those that were acknowledged, the one that was in flight at the
crash unless its line was lost, and those of the lines in the log, with whether the database did not
reject them. -/
structure Past where
  acked : List (Write Str Str) := []
  inFlight : Option (Write Str Str) := none
  logged : List (Operation × Bool) := []

/-- The line of an operation is written to its end. -/
def World.log (world : World) (op : Operation) : World :=
  { world with wal := world.wal ++ utf8 (walEntry op) }

/-- The line of an operation is written, and the database accepts it. -/
def World.process (world : World) (op : Operation) : World :=
  { world.log op with db := op.apply world.db }

def Past.log (past : Past) (op : Operation) (ok : Bool) : Past :=
  { past with logged := past.logged ++ [(op, ok)] }

def Past.acknowledge (past : Past) (op : Operation) : Past :=
  { past.log op true with acked := past.acked ++ [op.write] }

/-- A crash comes before the operation is acknowledged. -/
def Past.interrupt (past : Past) (op : Operation) : Past :=
  { past.log op true with inFlight := some op.write }

/-- What was in flight counts as acknowledged. -/
def Past.reopen (past : Past) : Past :=
  { past with acked := past.acked ++ past.inFlight.toList, inFlight := none }

/-! ### Snapshots -/

/-- The time, the keys that `iteratePrefix` visits, and how far the snapshot gets. -/
structure Snapshot where
  now : ℕ
  visited : List Str
  stage : Stage

/-- The entries that `iteratePrefix` passes on. -/
def Snapshot.entries (s : Snapshot) (world : World) : List (Str × Str) :=
  s.visited.filterMap fun key => (world.db.get key).map (key, ·)

/-- `_takeSnapshot`, as far as it gets. -/
def takeSnapshot (world : World) (s : Snapshot) : World :=
  { world with
    snapshots := filesAt s.now (s.entries world) world.snapshots s.stage
    wal := if s.stage.isTruncated then [] else world.wal }

/-- The end of `_takeSnapshot`.  The temporary file is removed if there was an error, and is not
there otherwise. -/
def caught (world : World) (s : Snapshot) : World :=
  { world with snapshots := world.snapshots.delete (tempName s.now) }

def Past.truncate (past : Past) (s : Snapshot) : Past :=
  if s.stage.isTruncated then { past with logged := [] } else past

/-! ### Recovery -/

/-- `_loadLatestSnapshot` and `_recover`: the operations in order, and whether none of the texts
made it throw. -/
def recovery (world : World) : List Operation × Bool :=
  match loadLatestSnapshot world.snapshots with
  | none => ([], false)
  | some entries =>
      let lines := readLines (nonblankLines (decode world.wal))
      (entries.map (fun e => .put e.1 e.2 false) ++ lines.1, lines.2)

/-- Operations of which the database accepts those it is said to accept. -/
def applyAll : Disk Str Str → List Operation → List Bool → Disk Str Str
  | db, [], _ => db
  | db, op :: ops, accepted =>
      applyAll (if accepted.headD true then op.apply db else db) ops accepted.tail

/-! ### Events -/

/-- A storage that is open, with the number of its operations, one that is not, and one that could
not be opened. -/
inductive State
  | running (world : World) (past : Past) (operationCount : ℕ)
  | down (world : World) (past : Past)
  | failed

/-- What can happen.  The list of a crash has the unsynced writes that are kept. -/
inductive Event
  /-- The storage is opened. -/
  | init (accepted : List Bool) (healthy : Bool)
  /-- A crash when recovery has done so many operations. -/
  | crashInit (done : ℕ) (accepted : List Bool) (kept : List (Write Str Str))
  /-- An operation is processed to its end, with a snapshot if it is time. -/
  | process (op : Operation) (accepted : Bool) (snapshot : Snapshot)
  /-- A crash between two operations. -/
  | crash (kept : List (Write Str Str))
  /-- A crash when so many bytes of the line of an operation are in the log.  If these are all of
  them, the operation may be in the database. -/
  | crashLog (op : Operation) (bytes : ℕ) (kept : List (Write Str Str))
  /-- A crash during the snapshot after an operation. -/
  | crashSnapshot (op : Operation) (snapshot : Snapshot) (kept : List (Write Str Str))

variable (interval : ℕ)

/-- **The state after an event**, `none` where it cannot happen. -/
def step : State → Event → Option State
  | .down world past, .init accepted healthy =>
      let (ops, readable) := recovery world
      if readable && healthy then
        some (.running { world with db := applyAll world.db ops accepted } past.reopen 0)
      else some .failed
  | .down world past, .crashInit done accepted kept =>
      let db := applyAll world.db ((recovery world).1.take done) accepted
      if kept.Sublist db.unsynced then some (.down { world with db := db.crash kept } past)
      else none
  | .running world past count, .process op false _ =>
      some (.running (world.log op) (past.log op false) count)
  | .running world past count, .process op true snapshot =>
      let world := world.process op
      let past := past.acknowledge op
      if (count + 1) % interval = 0 then
        some (.running (caught (takeSnapshot world snapshot) snapshot) (past.truncate snapshot)
          (count + 1))
      else some (.running world past (count + 1))
  | .running world past _, .crash kept =>
      if kept.Sublist world.db.unsynced then
        some (.down { world with db := world.db.crash kept } past)
      else none
  | .running world past _, .crashLog op bytes kept =>
      let line := utf8 (walEntry op)
      let whole := decide (line.length ≤ bytes)
      let unsynced := if whole then world.db.unsynced ++ [op.write] else world.db.unsynced
      if kept.Sublist unsynced then
        some (.down { world with wal := world.wal ++ line.take bytes, db := world.db.crash kept }
          (if whole then past.interrupt op else past))
      else none
  | .running world past count, .crashSnapshot op snapshot kept =>
      let world := takeSnapshot (world.process op) snapshot
      if (count + 1) % interval = 0 ∧ kept.Sublist world.db.unsynced then
        some (.down { world with db := world.db.crash kept }
          ((past.interrupt op).truncate snapshot))
      else none
  | _, _ => none

/-- The first start, on a database with these entries. -/
def fresh (base : Str → Option Str) : State := .down { db := { synced := base } } {}

/-- **The storage has what was acknowledged.**  When it has been opened after a crash, the operation
that was in flight counts as acknowledged, unless its line was lost. -/
def Durable (base : Str → Option Str) : State → Prop
  | .running world past _ => ∀ key, world.db.get key = after key past.acked (base key)
  | .down _ _ => True
  | .failed => False

/-! ### The steps in which nothing is lost -/

/-- The writes of the logged operations that the database did not reject. -/
def accepted (logged : List (Operation × Bool)) : List (Write Str Str) :=
  (logged.filter fun e => e.2).map fun e => e.1.write

/-- Every rejected operation has a later one of its key behind it. -/
def Superseded : List (Operation × Bool) → Prop
  | [] => True
  | e :: logged =>
      (e.2 = true ∨ ∃ e' ∈ logged, e'.1.write.key = e.1.write.key) ∧ Superseded logged

instance Superseded.decidable : ∀ logged, Decidable (Superseded logged)
  | [] => isTrue trivial
  | _ :: logged =>
      have := Superseded.decidable logged
      inferInstanceAs (Decidable (_ ∧ Superseded logged))

/-- The entries of a snapshot as writes. -/
def puts (entries : List (Str × Str)) : List (Write Str Str) :=
  entries.map fun e => .put e.1 e.2

/-- **The snapshot has the last name in the directory, and every key with unsynced writes is in it
or in what is left of the log**, if it replaces the earlier one. -/
def Snapshot.Safe (world : World) (past : Past) (s : Snapshot) : Prop :=
  s.stage.isRenamed = true → Last s.now world.snapshots ∧
    ∀ u ∈ world.db.unsynced,
      ∃ w ∈ puts (s.entries world) ++ accepted (past.truncate s).logged, w.key = u.key

instance (world : World) (past : Past) (s : Snapshot) : Decidable (s.Safe world past) :=
  inferInstanceAs (Decidable (_ → _ ∧ _))

/-- **The steps in which nothing is lost.**  Recovery finds no rejected operation that is the last
of its key, the database accepts what is recovered, a line is torn neither, and snapshots are
safe. -/
def Safe : State → Event → Prop
  | .down _ past, .init accepted healthy =>
      (∀ ok ∈ accepted, ok = true) ∧ healthy = true ∧ Superseded past.logged
  | .down _ past, .crashInit _ _ _ => Superseded past.logged
  | .running world past count, .process op true snapshot =>
      (count + 1) % interval = 0 → snapshot.Safe (world.process op) (past.log op true)
  | .running _ _ _, .crashLog op bytes _ => bytes = 0 ∨ (utf8 (walEntry op)).length ≤ bytes
  | .running world past _, .crashSnapshot op snapshot _ =>
      snapshot.Safe (world.process op) (past.log op true)
  | _, _ => True

instance Safe.decidable : ∀ s e, Decidable (Safe interval s e)
  | .down _ _, .init _ _ => inferInstanceAs (Decidable (_ ∧ _ ∧ _))
  | .down _ past, .crashInit _ _ _ => inferInstanceAs (Decidable (Superseded past.logged))
  | .running _ _ _, .process _ true _ => inferInstanceAs (Decidable (_ → _))
  | .running _ _ _, .crashLog _ _ _ => inferInstanceAs (Decidable (_ ∨ _))
  | .running world past _, .crashSnapshot op snapshot _ =>
      inferInstanceAs (Decidable (snapshot.Safe (world.process op) (past.log op true)))
  | .down _ _, .process _ _ _ => isTrue trivial
  | .down _ _, .crash _ => isTrue trivial
  | .down _ _, .crashLog _ _ _ => isTrue trivial
  | .down _ _, .crashSnapshot _ _ _ => isTrue trivial
  | .running _ _ _, .init _ _ => isTrue trivial
  | .running _ _ _, .crashInit _ _ _ => isTrue trivial
  | .running _ _ _, .process _ false _ => isTrue trivial
  | .running _ _ _, .crash _ => isTrue trivial
  | .failed, _ => isTrue trivial

end Storage
