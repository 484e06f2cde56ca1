/-
**Blocks that are applied at the same time.**

A call of `applyBlock` runs until it waits for the database: for the record of an input that is not
in the cache, and in the end for its batch.  While it waits, other calls go on.  The database
answers a call at one moment, in which it reads the record or takes the batch as a whole, and the
call goes on with the answer at a later one.

The database is an atomic map from keys to texts.  It may answer any request with an error.

Main definitions:

* `UtxoSet.Call`, `UtxoSet.advance` — a call, and how it goes on until it waits;
* `UtxoSet.State`, `UtxoSet.Event`, `UtxoSet.step` — what can happen;
* `UtxoSet.balance` — the sum of the unspent outputs of an address in the database;
* `UtxoSet.Sound` — **what the ledger should have in every step**;
* `UtxoSet.Safe` — the steps in which it does.
-/

import MedorCoin.Transition.Run
import MedorCoin.Utxo.Caches

set_option autoImplicit false

namespace UtxoSet

open Js Ledger Transition

/-! ### Calls -/

def coinbaseMaturity : ℤ := 100

/-- What the visit of an input stages once its record is known, `none` where it throws an error. -/
def spendUtxo? (height : ℤ) (o : Outpoint) (utxo : Json) : Option Change :=
  match utxo with
  | .null => none
  | utxo =>
      if Json.truthy (utxo.get? "cb".toList) then
        match Json.bigInt? (utxo.get? "bh".toList) with
        | none => none
        | some bh =>
            if height < bh + coinbaseMaturity then none else some (.spend o (address? utxo))
      else some (.spend o (address? utxo))

/-- Where a call is: it waits for the record of an input, it has this answer, it waits for its
batch, it has this answer, it has reported a block as applied or rejected. -/
inductive Phase
  | reading
  | read (raw : Option Str)
  | writing
  | written (ok : Bool)
  | done (ok : Bool)
  deriving DecidableEq

/-- A call of `applyBlock`: what is still to be visited, from the input it waits for on, what is
staged, where it is, and whether the database has taken its batch. -/
structure Call where
  block : Block
  tasks : List Task
  staged : List Change := []
  phase : Phase
  wrote : Bool := false

/-- A call that goes on until it waits for the database or has thrown an error. -/
def advance (caches : Caches) (block : Block) : List Task → List Change → Call
  | [], staged => { block, tasks := [], staged, phase := .writing }
  | .create o utxo :: tasks, staged => advance caches block tasks (staged ++ [.create o utxo])
  | .spend o :: tasks, staged =>
      match caches.cacheShards.get o.uKey with
      | none => { block, tasks := .spend o :: tasks, staged, phase := .reading }
      | some utxo =>
          match spendUtxo? block.height o utxo.toJson with
          | none => { block, tasks := .spend o :: tasks, staged, phase := .done false }
          | some change => advance caches block tasks (staged ++ [change])

/-- A call that goes on with the record it waited for. -/
def resumeRead (caches : Caches) (call : Call) (raw : Option Str) : Call :=
  match call.tasks, raw with
  | .spend o :: tasks, some raw =>
      if raw.isEmpty then { call with phase := .done false }
      else
        match (Json.parse raw).bind (spendUtxo? call.block.height o) with
        | none => { call with phase := .done false }
        | some change => advance caches call.block tasks (call.staged ++ [change])
  | _, _ => { call with phase := .done false }

/-! ### What can happen -/

abbrev Database := Js.Map Str Str

/-- A write of a batch. -/
def writeOne (db : Database) : Write Str Str → Database
  | .put key value => db.set key value
  | .delete key => db.delete key

/-- `writeBatch` -/
def writeBatch (db : Database) (ops : List (Write Str Str)) : Database := ops.foldl writeOne db

/-- The database, the caches, and the calls in the order in which they started. -/
structure State where
  db : Database
  caches : Caches := {}
  calls : List Call := []

inductive Event
  /-- `applyBlock` is called. -/
  | start (block : Block)
  /-- The database answers a call, with an error if not `ok`. -/
  | answer (i : ℕ) (ok : Bool)
  /-- A call goes on with its answer. -/
  | resume (i : ℕ)
  /-- `getBalance` is called. -/
  | balance (address : Str)

/-- **The state after an event**, `none` where it cannot happen. -/
def step (s : State) : Event → Option State
  | .start block => some { s with calls := s.calls ++ [advance s.caches block block.tasks []] }
  | .answer i ok =>
      match s.calls[i]? with
      | none => none
      | some call =>
          match call.phase, call.tasks, ok with
          | .reading, .spend o :: _, ok =>
              let raw := if ok then s.db.get? o.uKey else none
              some { s with calls := s.calls.set i { call with phase := .read raw } }
          | .writing, _, true =>
              some { s with
                db := writeBatch s.db (batchOps call.staged)
                calls := s.calls.set i { call with phase := .written true, wrote := true } }
          | .writing, _, false =>
              some { s with calls := s.calls.set i { call with phase := .written false } }
          | _, _, _ => none
  | .resume i =>
      match s.calls[i]? with
      | none => none
      | some call =>
          match call.phase with
          | .read raw => some { s with calls := s.calls.set i (resumeRead s.caches call raw) }
          | .written false =>
              some { s with calls := s.calls.set i { call with phase := .done false } }
          | .written true =>
              let (caches, ok) := applyCacheUpdates s.caches call.staged
              some { s with caches, calls := s.calls.set i { call with phase := .done ok } }
          | _ => none
  | .balance _ => some s

/-- A ledger that was newly constructed on a database. -/
def opened (db : Database) : State := { db }

/-! ### What the ledger should have -/

/-- An unspent output of an address. -/
def owned (address : Str) (record : Str × Str) : Bool :=
  isUtxoKey record.1 && recordAddress? record.2 == some address

/-- **The sum of the values of the unspent outputs of an address in the database.** -/
def balance (db : Database) (address : Str) : ℤ :=
  ((db.entries.filter (owned address)).map fun record => (recordValue? record.2).getD 0).sum

/-- Each outpoint is spent at most once over all blocks reported ok. -/
def SpentOnce (s : State) : Prop :=
  (∀ call ∈ s.calls, call.phase = .done true → call.block.spends.Nodup) ∧
    ∀ (i j : ℕ) (call call' : Call), s.calls[i]? = some call → s.calls[j]? = some call' →
      call.phase = .done true → call'.phase = .done true →
      ∀ o ∈ call.block.spends, o ∈ call'.block.spends → i = j

/-- The database and the caches change only by a call whose batch was taken, and no such call is
reported as rejected. -/
def RejectedUnchanged (s s' : State) : Prop :=
  (∀ call ∈ s'.calls, call.phase = .done false → call.wrote = false) ∧
    (s'.db = s.db ∧ s'.caches = s.caches ∨
      ∃ (i : ℕ) (call : Call), s'.calls[i]? = some call ∧ call.wrote = true ∧
        s.calls[i]? ≠ some call)

/-- **What the ledger should have in every step.** -/
def Sound (s : State) (e : Event) (s' : State) : Prop :=
  SpentOnce s' ∧ RejectedUnchanged s s' ∧
    match e with
    | .answer i true => ∀ call, s.calls[i]? = some call → call.phase = .writing →
        ∀ o ∈ call.block.spends, (s.db.get? o.uKey).isSome
    | .balance address => getBalance s.caches address = some (Json.intText (balance s.db address))
    | _ => True

/-! ### The steps in which it does -/

/-- The call has not come to its end. -/
def Call.inFlight (call : Call) : Bool :=
  match call.phase with
  | .done _ => false
  | _ => true

/-- The database has taken the batch, and the caches have not been changed yet. -/
def Call.applying (call : Call) : Bool := call.phase = .written true

/-- **The steps in which nothing goes wrong.**  A block spends no outpoint twice and files no output
twice, files only outputs that are not there and were not spent, has values that are integers,
touches no outpoint that a block in flight touches, and spends no record without an address.  A
balance is asked for while no block is between the database and the caches, and for an address that
had no unspent outputs when the ledger was constructed. -/
def Safe (db : Database) (s : State) : Event → Prop
  | .start block =>
      block.spends.Nodup ∧ (block.creates.map Prod.fst).Nodup ∧
      (∀ output ∈ block.creates, s.db.get? output.1.uKey = none ∧ (bigInt? output.2.v).isSome ∧
        ∀ call ∈ s.calls, call.wrote = true → output.1 ∉ call.block.spends) ∧
      (∀ call ∈ s.calls, call.inFlight = true → ∀ o ∈ block.touched, o ∉ call.block.touched) ∧
      ∀ o ∈ block.spends, ∀ raw ∈ db.get? o.uKey, (recordAddress? raw).isSome
  | .balance address =>
      (∀ call ∈ s.calls, call.applying = false) ∧
        ∀ record ∈ db.entries, owned address record = false
  | _ => True

instance Safe.decidable (db : Database) (s : State) : ∀ e, Decidable (Safe db s e)
  | .start _ => inferInstanceAs (Decidable (_ ∧ _ ∧ _ ∧ _ ∧ _))
  | .balance _ => inferInstanceAs (Decidable (_ ∧ _))
  | .answer _ _ => isTrue trivial
  | .resume _ => isTrue trivial

end UtxoSet
