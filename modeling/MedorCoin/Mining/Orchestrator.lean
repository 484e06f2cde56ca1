/-
**The mining orchestrator.**

A master has the transaction engine and a number of workers.  Again and again it sends a work load
for the next height to all of them.  A worker gives up what it is doing when a new work load comes
in, and sends the block that it has found.  The master has the engine confirm every block that comes
in, one after another; where that has succeeded, it takes over the height and the hash of the
engine.

The engine runs its tasks in a queue.  Once a task has thrown an error, the queue stays rejected,
and no task is run any more.  `confirmBlock` returns nothing, so that the master never sees a
success.

Which transactions the mempool has, for whom is mined, and which hashes the workers find comes from
other modules, and may be anything.

Main definitions:

* `Orchestrator.WorkLoad`, `Orchestrator.Found` — the messages;
* `Orchestrator.State`, `Orchestrator.Event`, `Orchestrator.step` — the master, the workers, and
  what can happen;
* `Orchestrator.Sound` — **every height and every transaction is confirmed once**, on top of the
  block before, and the master has the tip of the engine;
* `Orchestrator.Safe` — the steps after which this holds.
-/

import MedorCoin.TransactionEngine.Engine
import MedorCoin.Transition.Run

set_option autoImplicit false

namespace Orchestrator

open Js Transition TransactionEngine

structure WorkLoad where
  previousHash : Str
  minerAddress : Str
  height : ℤ
  mempool : List Tx

/-- The message `BLOCK_FOUND`: a work load with a hash. -/
structure Found where
  load : WorkLoad
  hash : Str

/-- The engine, whether its queue is rejected, and the blocks in it; what the master takes for the
tip; the work loads on their way to each worker, and the one it is at; the messages on their way to
the master; and the blocks that were confirmed. -/
structure State where
  engine : Engine
  rejected : Bool
  queue : List Found
  currentHeight : ℤ
  lastBlockHash : Str
  inbox : ℕ → List WorkLoad
  job : ℕ → Option WorkLoad
  messages : List Found
  confirmed : List Found

/-- What can happen.  A dispatch reaches the workers that are connected. -/
inductive Event
  | dispatch (workers : List ℕ) (txs : List Tx) (targetMiner : Str)
  | receive (worker : ℕ)
  | found (worker : ℕ) (hash : Str)
  | giveUp (worker : ℕ)
  | exit (worker : ℕ)
  /-- the handler of a message calls `confirmBlock` -/
  | handle (i : ℕ)
  /-- the engine runs the first task of its queue -/
  | confirm

/-- What the promise of `confirmBlock` has for its value. -/
def confirmBlockValue : Option Json := none

/-- **A step**, if it can happen. -/
def step (computeRoot : List Json → Str) (s : State) : Event → Option State
  | .dispatch workers txs targetMiner =>
      let workLoad : WorkLoad :=
        { previousHash := s.lastBlockHash
          minerAddress := targetMiner
          height := s.currentHeight + 1
          mempool := txs }
      some { s with
        inbox := fun worker =>
          if worker ∈ workers then s.inbox worker ++ [workLoad] else s.inbox worker }
  | .receive worker =>
      match s.inbox worker with
      | [] => none
      | workLoad :: rest =>
          some { s with
            inbox := Function.update s.inbox worker rest
            job := Function.update s.job worker (some workLoad) }
  | .found worker hash =>
      match s.job worker with
      | none => none
      | some workLoad =>
          some { s with
            job := Function.update s.job worker none
            messages := s.messages ++ [{ load := workLoad, hash := hash }] }
  | .giveUp worker => some { s with job := Function.update s.job worker none }
  | .exit worker =>
      some { s with
        inbox := Function.update s.inbox worker []
        job := Function.update s.job worker none }
  | .handle i =>
      match s.messages[i]? with
      | none => none
      | some msg =>
          some { s with
            messages := s.messages.eraseIdx i
            queue := s.queue ++ [msg] }
  | .confirm =>
      match s.queue with
      | [] => none
      | msg :: queue =>
          if s.rejected = true then some { s with queue := queue }
          else
            match s.engine.confirmBlock computeRoot msg.load.mempool msg.load.minerAddress msg.hash
              msg.load.height with
            | none => some { s with queue := queue, rejected := true }
            | some engine =>
                let s' : State :=
                  { s with
                    queue := queue
                    engine := engine
                    confirmed := s.confirmed ++ [msg] }
                if Json.truthy confirmBlockValue = true then
                  some { s' with
                    currentHeight := engine.currentHeight
                    lastBlockHash := engine.lastBlockHash }
                else some s'

/-- The master after `init`, which recovers the engine from a database and its log.  A new engine
has the same tip that the master begins with, so that a failed recovery makes no difference to
it. -/
def start (hmac : Str → Str) (db : Database) (wal : Str) : State :=
  let recovered := (Engine.new db wal).recoverFromCrash hmac
  { engine := recovered.1
    rejected := !recovered.2
    queue := []
    currentHeight := recovered.1.currentHeight
    lastBlockHash := recovered.1.lastBlockHash
    inbox := fun _ => []
    job := fun _ => none
    messages := []
    confirmed := [] }

/-- The hashes of the transactions that were confirmed. -/
def State.txHashes (s : State) : List Str :=
  s.confirmed.flatMap fun block => block.load.mempool.map fun tx => text tx.sig

/-- **Each height is confirmed once**, and each transaction; every block has the hash of the one
before; and the master has the tip of the engine. -/
structure Sound (s : State) : Prop where
  heights : (s.confirmed.map (·.load.height)).Nodup
  transactions : s.txHashes.Nodup
  chained : s.confirmed.IsChain fun block next => next.load.previousHash = block.hash
  currentHeight : s.currentHeight = s.engine.currentHeight
  lastBlockHash : s.lastBlockHash = s.engine.lastBlockHash

/-- **The safe steps**: no confirmation goes through, because the queue of the engine is rejected or
a transaction has no integer for its value or its gas. -/
def Safe (s : State) (e : Event) (_ : State) : Prop :=
  match e, s.queue with
  | .confirm, msg :: _ => s.rejected = true ∨ (msg.load.mempool.mapM transfer?).isSome = false
  | _, _ => True

instance (s : State) (e : Event) (s' : State) : Decidable (Safe s e s') := by
  unfold Safe
  split <;> infer_instance

end Orchestrator
