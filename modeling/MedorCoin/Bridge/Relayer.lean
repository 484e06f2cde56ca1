/-
**The bridge relayers.**

Any number of relayers poll the core for swaps that are locked and pay them out of a vault.  A
relayer takes the swaps of one poll in turn.  For each it asks Redis for the lock of the swap, which
expires after five minutes; whoever gets it validates the destination, has the vault pay, reports
the swap to the core as completed, and deletes the lock.  Where one of these steps fails, the whole
is done again after a while, five times at most, and the poll goes on in the meantime.

Each call of another service has its effect at one moment, or none at all, and then succeeds or
fails, whether it has had an effect or not.  Between two calls anything else may happen: a relayer
may be slow, or crash.  The lock of Redis is exclusive as long as it lasts.

Main definitions:

* `Relayer.validDestination` — the check of the address;
* `Relayer.Task`, `Relayer.State`, `Relayer.Event`, `Relayer.step` — the tasks of the relayers, and
  what can happen;
* `Relayer.Safe` — the steps in a run of which no swap is paid twice.
-/

import MedorCoin.Js.Text
import MedorCoin.Transition.Run
import MedorCoin.Transition.Tasks
import Mathlib.Logic.Function.Basic

set_option autoImplicit false

namespace Relayer

open Js Transition

/-! ### Swaps -/

inductive SwapStatus
  | lockedPending
  | completed
  deriving DecidableEq

structure Swap where
  txHash : Str
  targetAsset : Str
  amount : Str
  destAddr : Str
  status : SwapStatus
  deriving DecidableEq

def isHexDigit (c : Char) : Bool :=
  ('0' ≤ c && c ≤ '9') || ('a' ≤ c && c ≤ 'f') || ('A' ≤ c && c ≤ 'F')

/-- `[a-zA-HJ-NP-Z0-9]` -/
def isBase58 (c : Char) : Bool :=
  ('a' ≤ c && c ≤ 'z') || ('A' ≤ c && c ≤ 'H') || ('J' ≤ c && c ≤ 'N') || ('P' ≤ c && c ≤ 'Z') ||
    ('0' ≤ c && c ≤ '9')

/-- What follows one of the three beginnings of a Bitcoin address. -/
def isBtcRest (s : Str) : Bool := s.all isBase58 && 25 ≤ s.length && s.length ≤ 62

/-- `/^(1|3|bc1)[a-zA-HJ-NP-Z0-9]{25,62}$/` -/
def isBtcAddress : Str → Bool
  | '1' :: rest => isBtcRest rest
  | '3' :: rest => isBtcRest rest
  | 'b' :: 'c' :: '1' :: rest => isBtcRest rest
  | _ => false

/-- `/^0x[a-fA-F0-9]{40}$/` -/
def isEthAddress : Str → Bool
  | '0' :: 'x' :: rest => rest.all isHexDigit && rest.length == 40
  | _ => false

/-- The check of the destination.  An asset without a schema throws an error like an address that
does not match. -/
def validDestination (swap : Swap) : Bool :=
  if swap.targetAsset = "BTC".toList then isBtcAddress swap.destAddr
  else if swap.targetAsset = "ETH".toList then isEthAddress swap.destAddr
  else if swap.targetAsset = "TUSD".toList then isEthAddress swap.destAddr
  else false

/-! ### Tasks -/

/-- Where an attempt is: before the call of the vault, of the core, of Redis, of the alerts. -/
inductive Phase
  | sending
  | completing
  | unlocking
  | alerting
  deriving DecidableEq

/-- A task of a relayer.  An attempt that a poll waits for carries the rest of the poll. -/
inductive Task
  /-- a poll that is about to ask for the lock of the next swap -/
  | polling (relayer : ℕ) (rest : List Swap)
  | executing (relayer : ℕ) (swap : Swap) (attempt : ℕ) (phase : Phase)
      (poll : Option (List Swap))
  /-- a timer of the next attempt -/
  | waiting (relayer : ℕ) (swap : Swap) (attempt : ℕ)
  | done
  deriving DecidableEq

def Task.relayer? : Task → Option ℕ
  | .polling relayer _ => some relayer
  | .executing relayer _ _ _ _ => some relayer
  | .waiting relayer _ _ => some relayer
  | .done => none

/-- The swap that a task has in hand. -/
def Task.swap? : Task → Option Str
  | .executing _ swap _ _ _ => some swap.txHash
  | .waiting _ swap _ => some swap.txHash
  | _ => none

/-- The swap that a task may still have paid. -/
def Task.unpaid? : Task → Option Str
  | .executing _ swap _ .sending _ => some swap.txHash
  | .executing _ swap _ .alerting _ => some swap.txHash
  | .waiting _ swap _ => some swap.txHash
  | _ => none

/-- The swap that a task has had paid, and not yet reported. -/
def Task.unreported? : Task → Option Str
  | .executing _ swap _ .completing _ => some swap.txHash
  | _ => none

/-- The clock in milliseconds; the swaps of the core; when each lock ends; the tasks; which relayers
are polling; the swaps the vault has paid, in order; and the alerts. -/
structure State where
  now : ℕ
  core : List Swap
  locks : Str → Option ℕ
  tasks : List Task
  isPolling : ℕ → Bool
  paid : List Str
  alerts : List Str

/-- Somebody holds the lock of a swap. -/
def State.locked (s : State) (txHash : Str) : Bool := (s.locks txHash).any (s.now < ·)

def lockTime : ℕ := 300000

/-- How a call of another service comes back. -/
inductive Reply
  | success
  | failure
  | throws
  deriving DecidableEq

/-- What can happen.  A number says which task goes on; `effect` says whether its call has the
effect that it should have, and the rest how it comes back. -/
inductive Event
  | tick (ms : ℕ)
  | lockSwap (swap : Swap)
  | poll (relayer : ℕ) (ok : Bool)
  | acquire (i : ℕ) (effect ok : Bool)
  | send (i : ℕ) (effect : Bool) (reply : Reply)
  | complete (i : ℕ) (effect ok : Bool)
  | unlock (i : ℕ) (effect ok : Bool)
  | alert (i : ℕ) (effect ok : Bool)
  | wake (i : ℕ)
  | crash (relayer : ℕ)

/-- The end of a poll. -/
def State.endPoll (s : State) (i relayer : ℕ) : State :=
  { s with
    tasks := s.tasks.set i .done
    isPolling := Function.update s.isPolling relayer false }

/-- A poll goes on with the rest of its swaps, if it was waiting. -/
def State.goOn (s : State) (i relayer : ℕ) : Option (List Swap) → State
  | none => { s with tasks := s.tasks.set i .done }
  | some [] => s.endPoll i relayer
  | some rest => { s with tasks := s.tasks.set i (.polling relayer rest) }

/-- The `catch` of `executeWithRetry`. -/
def State.failed (s : State) (i relayer : ℕ) (swap : Swap) (attempt : ℕ)
    (poll : Option (List Swap)) : State :=
  if attempt < 5 then
    let s' := s.goOn i relayer poll
    { s' with tasks := s'.tasks ++ [.waiting relayer swap (attempt + 1)] }
  else { s with tasks := s.tasks.set i (.executing relayer swap attempt .alerting poll) }

/-- `executeWithRetry` up to the call of the vault. -/
def State.attempt (s : State) (i relayer : ℕ) (swap : Swap) (attempt : ℕ)
    (poll : Option (List Swap)) : State :=
  if validDestination swap then
    { s with tasks := s.tasks.set i (.executing relayer swap attempt .sending poll) }
  else s.failed i relayer swap attempt poll

/-- Report a swap as completed. -/
def completeSwap (core : List Swap) (txHash : Str) : List Swap :=
  core.map fun swap => if swap.txHash = txHash then { swap with status := .completed } else swap

/-- **A step**, if it can happen. -/
def step (s : State) : Event → Option State
  | .tick ms => some { s with now := s.now + ms }
  | .lockSwap swap =>
      if swap.status = .lockedPending ∧ ∀ c ∈ s.core, c.txHash ≠ swap.txHash then
        some { s with core := s.core ++ [swap] }
      else none
  | .poll relayer ok =>
      if s.isPolling relayer = true then some s
      else if ok = false then some s
      else
        match s.core.filter (·.status = .lockedPending) with
        | [] => some s
        | swaps =>
            some { s with
              tasks := s.tasks ++ [.polling relayer swaps]
              isPolling := Function.update s.isPolling relayer true }
  | .acquire i effect ok =>
      match s.tasks[i]? with
      | some (.polling relayer (swap :: rest)) =>
          let free := !s.locked swap.txHash
          let s' :=
            if effect = true ∧ free = true then
              { s with
                locks := Function.update s.locks swap.txHash (some (s.now + lockTime)) }
            else s
          if ok = false then some (s'.endPoll i relayer)
          -- an answer that the lock was taken means that it was
          else if effect = false then none
          else if free = true then some (s'.attempt i relayer swap 1 (some rest))
          else some (s'.goOn i relayer (some rest))
      | _ => none
  | .send i effect reply =>
      match s.tasks[i]? with
      | some (.executing relayer swap attempt .sending poll) =>
          let s' := if effect = true then { s with paid := s.paid ++ [swap.txHash] } else s
          if reply = .success then
            some { s' with
              tasks := s'.tasks.set i (.executing relayer swap attempt .completing poll) }
          else some (s'.failed i relayer swap attempt poll)
      | _ => none
  | .complete i effect ok =>
      match s.tasks[i]? with
      | some (.executing relayer swap attempt .completing poll) =>
          let s' := if effect = true then { s with core := completeSwap s.core swap.txHash } else s
          if ok = true then
            some { s' with
              tasks := s'.tasks.set i (.executing relayer swap attempt .unlocking poll) }
          else some (s'.failed i relayer swap attempt poll)
      | _ => none
  | .unlock i effect ok =>
      match s.tasks[i]? with
      | some (.executing relayer swap attempt .unlocking poll) =>
          let s' :=
            if effect = true then { s with locks := Function.update s.locks swap.txHash none }
            else s
          if ok = true then some (s'.goOn i relayer poll)
          else some (s'.failed i relayer swap attempt poll)
      | _ => none
  | .alert i effect ok =>
      match s.tasks[i]? with
      | some (.executing relayer swap _ .alerting poll) =>
          let s' := if effect = true then { s with alerts := s.alerts ++ [swap.txHash] } else s
          -- an error here goes to the poll, and ends it
          if ok = true then some (s'.goOn i relayer poll)
          else some (s'.goOn i relayer (poll.map fun _ => []))
      | _ => none
  | .wake i =>
      match s.tasks[i]? with
      | some (.waiting relayer swap attempt) => some (s.attempt i relayer swap attempt none)
      | _ => none
  | .crash relayer =>
      some { s with
        tasks := s.tasks.map fun task => if task.relayer? = some relayer then .done else task
        isPolling := Function.update s.isPolling relayer false }

/-- Relayers that have not begun, and a core without swaps. -/
def start : State where
  now := 0
  core := []
  locks _ := none
  tasks := []
  isPolling _ := false
  paid := []
  alerts := []

/-! ### Safe steps -/

/-- **The safe steps.**  A relayer that asks for a lock has the status that the core has; a payment
that is made comes back as a success; its report to the core is taken and comes back; so does the
deletion of the lock; a relayer does not crash between the payment and the report; and no lock ends
while a task has its swap in hand. -/
def Safe (s : State) (e : Event) (_ : State) : Prop :=
  match e with
  | .tick ms => ∀ task ∈ s.tasks, ∀ txHash ∈ task.swap?,
      (s.locks txHash).any (s.now + ms < ·) = true
  | .acquire i _ _ =>
      match s.tasks[i]? with
      | some (.polling _ (swap :: _)) =>
          ∃ c ∈ s.core, c.txHash = swap.txHash ∧ c.status = .lockedPending
      | _ => True
  | .send _ effect reply => effect = true → reply = .success
  | .complete _ effect ok => effect = true ∧ ok = true
  | .unlock _ _ ok => ok = true
  | .crash relayer => ∀ task ∈ s.tasks, task.relayer? = some relayer → task.unreported? = none
  | _ => True

instance (s : State) (e : Event) (s' : State) : Decidable (Safe s e s') := by
  unfold Safe
  split
  · infer_instance
  · split <;> infer_instance
  all_goals infer_instance

end Relayer
