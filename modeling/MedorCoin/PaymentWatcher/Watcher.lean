/-
**The payment watcher.**

A node creates a payment session with two writes: its record goes to the database of the engine, and
its identifier to the set of active sessions in Redis.  Every node goes over the active sessions
again and again, in batches of a hundred.  For each session of a batch it asks Redis for a lock,
which expires after ten seconds unless a timer puts it off, reads the session and the balance of its
address, and confirms the session once the balance suffices: it deletes the record, takes the
identifier out of the set, publishes the confirmation, and writes the session to the archive.

Each call of Redis or of the database has its effect at one moment, or none at all; one that comes
back well has had its effect.  Between two calls anything else may happen on any node, which may be
slow, or crash.  The lock is deleted without a question whose it is.

Main definitions:

* `PaymentWatcher.Session` — the record of a session;
* `PaymentWatcher.Task`, `PaymentWatcher.State` — what the nodes are doing;
* `PaymentWatcher.Event`, `PaymentWatcher.step` — what can happen;
* `PaymentWatcher.Move` — the steps, one by one;
* `PaymentWatcher.Sound` — **no session is lost**, none archived without its deposit, and none
  published twice;
* `PaymentWatcher.Safe` — the steps after which this holds.
-/

import MedorCoin.Js.BigInt
import MedorCoin.Transition.Run
import MedorCoin.Transition.Tasks
import Mathlib.Logic.Function.Basic

set_option autoImplicit false

namespace PaymentWatcher

open Js Transition

/-! ### Sessions -/

inductive Status
  | pending
  | confirmed
  deriving DecidableEq

structure Session where
  userId : Str
  address : Str
  expectedAmount : Str
  status : Status
  createdAt : ℕ
  deriving DecidableEq

/-- `{ ...session, status: 'confirmed' }` -/
def Session.confirm (session : Session) : Session := { session with status := .confirmed }

/-- `BigInt(state.balance || 0)`, where a state that cannot be read has the balance `"0"`. -/
def currentBalance? : Option Str → Option ℤ
  | none => bigInt? ['0']
  | some balance => if balance = [] then some 0 else bigInt? balance

/-- Whether a balance is what a session expects, `none` where one of them is no integer. -/
def Session.suffices? (session : Session) (balance : Option Str) : Option Bool := do
  let currentBalance ← currentBalance? balance
  let expectedAmount ← bigInt? session.expectedAmount
  return expectedAmount ≤ currentBalance

/-! ### Tasks -/

/-- How a call comes back: well, with an error after its effect, or with an error without it. -/
inductive Reply
  | ok
  | lost
  | failed
  deriving DecidableEq

def Reply.effect : Reply → Bool
  | .ok => true
  | .lost => true
  | .failed => false

/-- Where the work on a session is: before the call that takes the lock, reads the session, takes
the identifier of a missing session out of the set, reads the balance, deletes the record, takes the
identifier out, publishes, archives, and deletes the lock. -/
inductive Phase
  | acquiring
  | reading
  | dropping
  | checking (session : Session)
  | deleting (session : Session)
  | removing (session : Session)
  | publishing (session : Session)
  | archiving (session : Session)
  | unlocking
  deriving DecidableEq

/-- A task of a node.  The work on a session belongs to the loop that began it. -/
inductive Task
  /-- `createSession` before its first call -/
  | putting (node : ℕ) (sessionId : Str) (session : Session)
  /-- `createSession` before its second call -/
  | adding (node : ℕ) (sessionId : Str) (session : Session)
  /-- the loop over the batches, with the sessions of those that have not begun -/
  | looping (node : ℕ) (rest : List Str)
  | watching (node loop : ℕ) (sessionId : Str) (phase : Phase)
  | done
  deriving DecidableEq

def Task.node? : Task → Option ℕ
  | .putting node _ _ => some node
  | .adding node _ _ => some node
  | .looping node _ => some node
  | .watching node _ _ _ => some node
  | .done => none

/-- The node whose loop a task is. -/
def Task.looping? : Task → Option ℕ
  | .looping node _ => some node
  | _ => none

/-- The loop that waits for a task. -/
def Task.loop? : Task → Option ℕ
  | .watching _ loop _ _ => some loop
  | _ => none

/-- The clock in milliseconds; the records of the sessions and of the archive; the set of active
sessions; when each lock ends; the balances that the engine has written, the last one first; the
tasks; the sessions that were created; and the confirmations that were published. -/
structure State where
  now : ℕ
  sessions : Str → Option Session
  archive : Str → Option Session
  active : List Str
  locks : Str → Option ℕ
  balances : List (Str × Str)
  tasks : List Task
  created : List (Str × Session)
  published : List (Str × Session)

def State.locked (s : State) (sessionId : Str) : Bool := (s.locks sessionId).any (s.now < ·)

def lockTime : ℕ := 10000

def batchSize : ℕ := 100

/-- What can happen.  A number says which task goes on. -/
inductive Event
  | tick (ms : ℕ)
  | writeBalance (address balance : Str)
  | createSession (node : ℕ) (sessionId userId address expectedAmount : Str)
  | put (i : ℕ) (reply : Reply)
  | sadd (i : ℕ) (reply : Reply)
  /-- the active sessions in the order of the answer, if there is one -/
  | smembers (node : ℕ) (sessionIds : Option (List Str))
  | nextBatch (i : ℕ)
  | acquire (i : ℕ) (reply : Reply)
  | heartbeat (i : ℕ)
  | getSession (i : ℕ) (ok : Bool)
  | getState (i : ℕ) (ok : Bool)
  | del (i : ℕ) (reply : Reply)
  | srem (i : ℕ) (reply : Reply)
  | publish (i : ℕ) (reply : Reply)
  | archive (i : ℕ) (reply : Reply)
  | unlock (i : ℕ) (reply : Reply)
  | crash (node : ℕ)

/-- A task goes on as another. -/
def State.goOn (s : State) (i : ℕ) (task : Task) : State := { s with tasks := s.tasks.set i task }

/-- A task ends with an error, and with it the loop that waits for it. -/
def State.reject (s : State) (i loop : ℕ) : State :=
  { s with tasks := (s.tasks.set i .done).set loop .done }

/-- After a call, the next one, or the `finally` where the call has failed. -/
def State.after (s : State) (i node loop : ℕ) (sessionId : Str) (reply : Reply) (next : Phase) :
    State :=
  s.goOn i (.watching node loop sessionId (if reply = .ok then next else .unlocking))

/-- **A step**, if it can happen. -/
def step (s : State) : Event → Option State
  | .tick ms => some { s with now := s.now + ms }
  | .writeBalance address balance => some { s with balances := (address, balance) :: s.balances }
  | .createSession node sessionId userId address expectedAmount =>
      let session : Session :=
        { userId := userId
          address := address
          expectedAmount := expectedAmount
          status := .pending
          createdAt := s.now }
      some { s with tasks := s.tasks ++ [.putting node sessionId session] }
  | .put i reply =>
      match s.tasks[i]? with
      | some (.putting node sessionId session) =>
          let s' :=
            if reply.effect = true then
              { s with sessions := Function.update s.sessions sessionId (some session) }
            else s
          some (s'.goOn i (if reply = .ok then .adding node sessionId session else .done))
      | _ => none
  | .sadd i reply =>
      match s.tasks[i]? with
      | some (.adding _ sessionId session) =>
          let s' :=
            if reply.effect = true then
              { s with
                active := s.active.insert sessionId
                created := s.created ++ [(sessionId, session)] }
            else s
          some (s'.goOn i .done)
      | _ => none
  | .smembers node sessionIds =>
      -- the next round begins when the last one has ended
      if ∃ task ∈ s.tasks, task.looping? = some node then none
      else
        match sessionIds with
        | none => some s
        | some sessionIds =>
            if sessionIds.Perm s.active then
              some { s with tasks := s.tasks ++ [.looping node sessionIds] }
            else none
  | .nextBatch i =>
      match s.tasks[i]? with
      | some (.looping node rest) =>
          if ∃ task ∈ s.tasks, task.loop? = some i then none
          else if rest = [] then some (s.goOn i .done)
          else
            let s' := s.goOn i (.looping node (rest.drop batchSize))
            let batch := (rest.take batchSize).map (.watching node i · .acquiring)
            some { s' with tasks := s'.tasks ++ batch }
      | _ => none
  | .acquire i reply =>
      match s.tasks[i]? with
      | some (.watching node loop sessionId .acquiring) =>
          let free := !s.locked sessionId
          let s' :=
            if reply.effect = true ∧ free = true then
              { s with locks := Function.update s.locks sessionId (some (s.now + lockTime)) }
            else s
          if reply = .ok then
            some (s'.goOn i (if free then .watching node loop sessionId .reading else .done))
          else some (s'.reject i loop)
      | _ => none
  | .heartbeat i =>
      match s.tasks[i]? with
      | some (.watching _ _ sessionId phase) =>
          if phase = .acquiring ∨ phase = .unlocking then none
          else if s.locked sessionId = true then
            some { s with locks := Function.update s.locks sessionId (some (s.now + lockTime)) }
          else some s
      | _ => none
  | .getSession i ok =>
      match s.tasks[i]? with
      | some (.watching node loop sessionId .reading) =>
          match if ok = true then s.sessions sessionId else none with
          | none => some (s.goOn i (.watching node loop sessionId .dropping))
          | some session => some (s.goOn i (.watching node loop sessionId (.checking session)))
      | _ => none
  | .getState i ok =>
      match s.tasks[i]? with
      | some (.watching node loop sessionId (.checking session)) =>
          let balance := if ok = true then s.balances.lookup session.address else none
          some (s.goOn i (.watching node loop sessionId
            (if session.suffices? balance = some true then .deleting session else .unlocking)))
      | _ => none
  | .del i reply =>
      match s.tasks[i]? with
      | some (.watching node loop sessionId (.deleting session)) =>
          let s' :=
            if reply.effect = true then
              { s with sessions := Function.update s.sessions sessionId none }
            else s
          some (s'.after i node loop sessionId reply (.removing session))
      | _ => none
  | .srem i reply =>
      let s' (sessionId : Str) : State :=
        if reply.effect = true then { s with active := s.active.filter (· ≠ sessionId) } else s
      match s.tasks[i]? with
      | some (.watching node loop sessionId .dropping) =>
          some ((s' sessionId).after i node loop sessionId reply .unlocking)
      | some (.watching node loop sessionId (.removing session)) =>
          some ((s' sessionId).after i node loop sessionId reply (.publishing session))
      | _ => none
  | .publish i reply =>
      match s.tasks[i]? with
      | some (.watching node loop sessionId (.publishing session)) =>
          let s' :=
            if reply.effect = true then
              { s with published := s.published ++ [(sessionId, session.confirm)] }
            else s
          some (s'.after i node loop sessionId reply (.archiving session))
      | _ => none
  | .archive i reply =>
      match s.tasks[i]? with
      | some (.watching node loop sessionId (.archiving session)) =>
          let s' :=
            if reply.effect = true then
              { s with archive := Function.update s.archive sessionId (some session.confirm) }
            else s
          some (s'.after i node loop sessionId reply .unlocking)
      | _ => none
  | .unlock i reply =>
      match s.tasks[i]? with
      | some (.watching _ loop sessionId .unlocking) =>
          let s' :=
            if reply.effect = true then { s with locks := Function.update s.locks sessionId none }
            else s
          -- an error in the `finally` goes to the loop
          if reply = .ok then some (s'.goOn i .done) else some (s'.reject i loop)
      | _ => none
  | .crash node =>
      some { s with
        tasks := s.tasks.map fun task => if task.node? = some node then .done else task }

/-- No sessions, and no node that has begun. -/
def start : State where
  now := 0
  sessions _ := none
  archive _ := none
  active := []
  locks _ := none
  balances := []
  tasks := []
  created := []
  published := []

/-! ### What a step does -/

/-- **The steps**, each with the task that takes it and the state after it. -/
inductive Move (s : State) : Event → State → Prop
  | tick (ms : ℕ) : Move s (.tick ms) { s with now := s.now + ms }
  | writeBalance (address balance : Str) :
      Move s (.writeBalance address balance) { s with balances := (address, balance) :: s.balances }
  | createSession (node : ℕ) (sessionId userId address expectedAmount : Str) (session : Session) :
      Move s (.createSession node sessionId userId address expectedAmount)
        { s with tasks := s.tasks ++ [.putting node sessionId session] }
  | put {i node : ℕ} {sessionId : Str} {session : Session} (reply : Reply)
      (hi : s.tasks[i]? = some (.putting node sessionId session)) :
      Move s (.put i reply)
        ((if reply.effect = true then
          { s with sessions := Function.update s.sessions sessionId (some session) }
        else s).goOn i (if reply = .ok then .adding node sessionId session else .done))
  | sadd {i node : ℕ} {sessionId : Str} {session : Session} (reply : Reply)
      (hi : s.tasks[i]? = some (.adding node sessionId session)) :
      Move s (.sadd i reply)
        ((if reply.effect = true then
          { s with
            active := s.active.insert sessionId
            created := s.created ++ [(sessionId, session)] }
        else s).goOn i .done)
  | smembersFailed (node : ℕ) : Move s (.smembers node none) s
  | smembers (node : ℕ) {sessionIds : List Str} (hperm : sessionIds.Perm s.active) :
      Move s (.smembers node (some sessionIds))
        { s with tasks := s.tasks ++ [.looping node sessionIds] }
  | lastBatch {i node : ℕ} {rest : List Str} (hi : s.tasks[i]? = some (.looping node rest)) :
      Move s (.nextBatch i) (s.goOn i .done)
  | nextBatch {i node : ℕ} {rest : List Str} (hi : s.tasks[i]? = some (.looping node rest)) :
      Move s (.nextBatch i)
        { s.goOn i (.looping node (rest.drop batchSize)) with
          tasks := (s.goOn i (.looping node (rest.drop batchSize))).tasks ++
            (rest.take batchSize).map (.watching node i · .acquiring) }
  | acquire {i node loop : ℕ} {sessionId : Str} (reply : Reply)
      (hi : s.tasks[i]? = some (.watching node loop sessionId .acquiring)) {s' : State}
      (hs' : s' = if reply.effect = true ∧ (!s.locked sessionId) = true then
          { s with locks := Function.update s.locks sessionId (some (s.now + lockTime)) }
        else s) :
      Move s (.acquire i reply)
        (if reply = .ok then
          s'.goOn i (if !s.locked sessionId then .watching node loop sessionId .reading else .done)
        else s'.reject i loop)
  | heartbeat (i : ℕ) (locks : Str → Option ℕ) : Move s (.heartbeat i) { s with locks := locks }
  | dropSession {i node loop : ℕ} {sessionId : Str} (ok : Bool)
      (hi : s.tasks[i]? = some (.watching node loop sessionId .reading)) :
      Move s (.getSession i ok) (s.goOn i (.watching node loop sessionId .dropping))
  | getSession {i node loop : ℕ} {sessionId : Str} (ok : Bool) (session : Session)
      (hi : s.tasks[i]? = some (.watching node loop sessionId .reading)) :
      Move s (.getSession i ok) (s.goOn i (.watching node loop sessionId (.checking session)))
  | getState {i node loop : ℕ} {sessionId : Str} {session : Session} (ok : Bool)
      (hi : s.tasks[i]? = some (.watching node loop sessionId (.checking session))) :
      Move s (.getState i ok)
        (s.goOn i (.watching node loop sessionId
          (if session.suffices? (if ok = true then s.balances.lookup session.address else none)
            = some true then .deleting session else .unlocking)))
  | del {i node loop : ℕ} {sessionId : Str} {session : Session} (reply : Reply)
      (hi : s.tasks[i]? = some (.watching node loop sessionId (.deleting session))) :
      Move s (.del i reply)
        ((if reply.effect = true then
          { s with sessions := Function.update s.sessions sessionId none }
        else s).after i node loop sessionId reply (.removing session))
  | dropMember {i node loop : ℕ} {sessionId : Str} (reply : Reply)
      (hi : s.tasks[i]? = some (.watching node loop sessionId .dropping)) :
      Move s (.srem i reply)
        ((if reply.effect = true then { s with active := s.active.filter (· ≠ sessionId) }
        else s).after i node loop sessionId reply .unlocking)
  | srem {i node loop : ℕ} {sessionId : Str} {session : Session} (reply : Reply)
      (hi : s.tasks[i]? = some (.watching node loop sessionId (.removing session))) :
      Move s (.srem i reply)
        ((if reply.effect = true then { s with active := s.active.filter (· ≠ sessionId) }
        else s).after i node loop sessionId reply (.publishing session))
  | publish {i node loop : ℕ} {sessionId : Str} {session : Session} (reply : Reply)
      (hi : s.tasks[i]? = some (.watching node loop sessionId (.publishing session))) :
      Move s (.publish i reply)
        ((if reply.effect = true then
          { s with published := s.published ++ [(sessionId, session.confirm)] }
        else s).after i node loop sessionId reply (.archiving session))
  | archive {i node loop : ℕ} {sessionId : Str} {session : Session} (reply : Reply)
      (hi : s.tasks[i]? = some (.watching node loop sessionId (.archiving session))) :
      Move s (.archive i reply)
        ((if reply.effect = true then
          { s with archive := Function.update s.archive sessionId (some session.confirm) }
        else s).after i node loop sessionId reply .unlocking)
  | unlock {i node loop : ℕ} {sessionId : Str} (reply : Reply)
      (hi : s.tasks[i]? = some (.watching node loop sessionId .unlocking)) {s' : State}
      (hs' : s' = if reply.effect = true then
          { s with locks := Function.update s.locks sessionId none }
        else s) :
      Move s (.unlock i reply) (if reply = .ok then s'.goOn i .done else s'.reject i loop)
  | crash (node : ℕ) :
      Move s (.crash node)
        { s with
          tasks := s.tasks.map fun task => if task.node? = some node then .done else task }

/-- **What a step does.** -/
theorem move_of_step {s s' : State} {e : Event} (h : step s e = some s') : Move s e s' := by
  cases e with
  | tick ms =>
      cases h
      exact .tick ms
  | writeBalance address balance =>
      cases h
      exact .writeBalance address balance
  | createSession node sessionId userId address expectedAmount =>
      cases h
      exact .createSession node sessionId userId address expectedAmount _
  | put i reply =>
      simp only [step] at h
      split at h
      · next hi =>
          cases h
          exact .put reply hi
      · cases h
  | sadd i reply =>
      simp only [step] at h
      split at h
      · next hi =>
          cases h
          exact .sadd reply hi
      · cases h
  | smembers node sessionIds =>
      simp only [step] at h
      split at h
      · cases h
      cases sessionIds with
      | none =>
          cases h
          exact .smembersFailed node
      | some sessionIds =>
          simp only at h
          split at h
          · next hperm =>
              cases h
              exact .smembers node hperm
          · cases h
  | nextBatch i =>
      simp only [step] at h
      split at h
      · next hi =>
          split at h
          · cases h
          split at h
          · cases h
            exact .lastBatch hi
          · cases h
            exact .nextBatch hi
      · cases h
  | acquire i reply =>
      simp only [step] at h
      split at h
      · next hi =>
          have hmove := Move.acquire reply hi rfl
          split at h
          · next hok =>
              rw [if_pos hok] at hmove
              cases h
              exact hmove
          · next hok =>
              rw [if_neg hok] at hmove
              cases h
              exact hmove
      · cases h
  | heartbeat i =>
      simp only [step] at h
      split at h
      · split at h
        · cases h
        split at h
        · cases h
          exact .heartbeat i _
        · cases h
          exact .heartbeat i s.locks
      · cases h
  | getSession i ok =>
      simp only [step] at h
      split at h
      · next hi =>
          split at h
          · cases h
            exact .dropSession ok hi
          · cases h
            exact .getSession ok _ hi
      · cases h
  | getState i ok =>
      simp only [step] at h
      split at h
      · next hi =>
          cases h
          exact .getState ok hi
      · cases h
  | del i reply =>
      simp only [step] at h
      split at h
      · next hi =>
          cases h
          exact .del reply hi
      · cases h
  | srem i reply =>
      simp only [step] at h
      split at h
      · next hi =>
          cases h
          exact .dropMember reply hi
      · next hi =>
          cases h
          exact .srem reply hi
      · cases h
  | publish i reply =>
      simp only [step] at h
      split at h
      · next hi =>
          cases h
          exact .publish reply hi
      · cases h
  | archive i reply =>
      simp only [step] at h
      split at h
      · next hi =>
          cases h
          exact .archive reply hi
      · cases h
  | unlock i reply =>
      simp only [step] at h
      split at h
      · next hi =>
          have hmove := Move.unlock reply hi rfl
          split at h
          · next hok =>
              rw [if_pos hok] at hmove
              cases h
              exact hmove
          · next hok =>
              rw [if_neg hok] at hmove
              cases h
              exact hmove
      · cases h
  | crash node =>
      cases h
      exact .crash node

/-! ### Sound states and safe steps -/

/-- The balance of a session's address was once what the session expects.  Every account begins
without a record, and with the balance `"0"`. -/
def State.Reached (s : State) (session : Session) : Prop :=
  ∃ balance : Option Str, (∀ b ∈ balance, (session.address, b) ∈ s.balances) ∧
    session.suffices? balance = some true

/-- **No session is lost.**  Every session that was created is stored and active, or archived as
confirmed; what is archived has received its deposit; and no confirmation is published twice. -/
structure Sound (s : State) : Prop where
  kept : ∀ p ∈ s.created,
    (s.sessions p.1 = some p.2 ∧ p.1 ∈ s.active) ∨ s.archive p.1 = some p.2.confirm
  deposited : ∀ sessionId session, s.archive sessionId = some session → s.Reached session
  once : s.published.Nodup

/-- **The safe steps.**  No record is deleted and nothing taken out of the set of active sessions;
the record of a session that was created is not written over by another; and a session that is added
to the set still has its record. -/
def Safe (s : State) (e : Event) (_ : State) : Prop :=
  match e with
  | .put i reply =>
      match s.tasks[i]? with
      | some (.putting _ sessionId session) =>
          reply.effect = true → ∀ p ∈ s.created, p.1 = sessionId → p.2 = session
      | _ => True
  | .sadd i reply =>
      match s.tasks[i]? with
      | some (.adding _ sessionId session) =>
          reply.effect = true → s.sessions sessionId = some session
      | _ => True
  | .del _ reply => reply.effect = false
  | .srem _ reply => reply.effect = false
  | _ => True

instance (s : State) (e : Event) (s' : State) : Decidable (Safe s e s') := by
  unfold Safe
  split
  · split <;> infer_instance
  · split <;> infer_instance
  all_goals infer_instance

end PaymentWatcher
