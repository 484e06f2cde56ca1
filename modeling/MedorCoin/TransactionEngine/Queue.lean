/-
**The queue of the engine.**

The engine runs its tasks one after the other: each is chained to the promise of the one before, and
the promise that this makes is what the caller gets and what the next task is chained to.  A task
that fails rejects its promise, and a task chained to a rejected promise is not run: its own promise
is rejected with the same error.

Main definitions:

* `TransactionEngine.Queue`, `TransactionEngine.Queue.step` — the promises, and what can happen;
* `TransactionEngine.sequentialLog` — the tasks one after the other, each for itself;
* `TransactionEngine.TasksIsolated` — what the queue is for;
* `TransactionEngine.chainLog` — what the chain makes of the tasks.

Main results:

* `TransactionEngine.Follows.step`, `TransactionEngine.Follows.log_eq` — **whatever the schedule,
  the chain does what `chainLog` says**, and does not stop before its end;
* `TransactionEngine.chainLog_eq_sequentialLog_iff` — that is the tasks one after the other only
  when none but the last fails;
* `TransactionEngine.tasksIsolated_iff` — when the tasks are isolated;
  `TransactionEngine.not_tasksIsolated_staging` — two stagings that are not.
-/

import MedorCoin.TransactionEngine.Engine
import MedorCoin.Transition.Run
import MedorCoin.Transition.Tasks

set_option autoImplicit false

namespace TransactionEngine

open Transition

/-! ### The promises -/

/-- A task: its own result, and what it makes of the state. -/
abbrev Task (σ E V : Type) := σ → Except E V × σ

/-- The promise of a task.  While the task waits, the promise before it is not settled or the
reaction to it has not been run. -/
inductive Promise (E V : Type)
  | pending
  | running
  | settled (result : Except E V)

/-- What is seen of a task. -/
inductive Entry (E V : Type)
  | started (i : ℕ)
  | settled (i : ℕ) (result : Except E V)

/-- The engine: the state of which the tasks are about, the promises in the order of the calls, and
what has happened so far. -/
structure Queue (σ E V : Type) where
  state : σ
  promises : List (Promise E V)
  log : List (Entry E V)

/-- What can happen: the next call of `_enqueue`, the reaction of a task to the promise before it,
and the end of a task that runs. -/
inductive Queue.Event
  | enqueue
  | react (i : ℕ)
  | finish (i : ℕ)

section Queue

variable {σ E V : Type}

/-- The error of a result. -/
def failure : Except E V → Option E
  | .ok _ => none
  | .error e => some e

/-- Whether what a task is chained to is settled, and the error if it is rejected.  The first is
chained to `Promise.resolve()`. -/
def Queue.before (q : Queue σ E V) : ℕ → Option (Option E)
  | 0 => some none
  | i + 1 =>
      match q.promises[i]? with
      | some (.settled result) => some (failure result)
      | _ => none

/-- A task reacts to the promise before it: it is started; or, as there is no handler for a
rejection, the error is passed on. -/
def Queue.react (q : Queue σ E V) (i : ℕ) : Option E → Queue σ E V
  | none => { q with promises := q.promises.set i .running, log := q.log ++ [.started i] }
  | some e =>
      { q with
        promises := q.promises.set i (.settled (.error e))
        log := q.log ++ [.settled i (.error e)] }

/-- `_enqueue`, the reactions of the promises and the tasks. -/
def Queue.step (tasks : List (Task σ E V)) (q : Queue σ E V) : Queue.Event → Option (Queue σ E V)
  | .enqueue =>
      if q.promises.length < tasks.length then
        some { q with promises := q.promises ++ [.pending] }
      else none
  | .react i =>
      match q.promises[i]?, q.before i with
      | some .pending, some failed => some (q.react i failed)
      | _, _ => none
  | .finish i =>
      match q.promises[i]?, tasks[i]? with
      | some .running, some task =>
          some {
            state := (task q.state).2
            promises := q.promises.set i (.settled (task q.state).1)
            log := q.log ++ [.settled i (task q.state).1] }
      | _, _ => none

theorem Queue.step_react {tasks : List (Task σ E V)} {q q' : Queue σ E V} {i : ℕ}
    (h : q.step tasks (.react i) = some q') :
    q.promises[i]? = some .pending ∧ ∃ failed, q.before i = some failed ∧
      q' = q.react i failed := by
  rw [Queue.step] at h
  split at h
  · next failed hpromise hbefore => exact ⟨hpromise, failed, hbefore, (Option.some.inj h).symm⟩
  · cases h

theorem Queue.step_finish {tasks : List (Task σ E V)} {q q' : Queue σ E V} {i : ℕ}
    (h : q.step tasks (.finish i) = some q') :
    q.promises[i]? = some .running ∧ ∃ task, tasks[i]? = some task ∧
      q' = {
        state := (task q.state).2
        promises := q.promises.set i (.settled (task q.state).1)
        log := q.log ++ [.settled i (task q.state).1] } := by
  rw [Queue.step] at h
  split at h
  · next task hpromise htask => exact ⟨hpromise, task, htask, (Option.some.inj h).symm⟩
  · cases h

/-! ### What the queue is for -/

/-- The tasks one after the other, each started when the one before is settled, and each settled
with its own result. -/
def sequentialLog : ℕ → σ → List (Task σ E V) → List (Entry E V)
  | _, _, [] => []
  | i, s, task :: tasks =>
      .started i :: .settled i (task s).1 :: sequentialLog (i + 1) (task s).2 tasks

/-- **The tasks are isolated from each other:** whatever the schedule, what has happened so far is
how the tasks one after the other begin; when nothing more can happen, it is all of it, which takes
no more than three events for a task; and what a promise is settled with is what is seen. -/
def TasksIsolated (tasks : List (Task σ E V)) (s : σ) : Prop :=
  ∀ events q, run (Queue.step tasks) ⟨s, [], []⟩ events = some q →
    q.log <+: sequentialLog 0 s tasks ∧
      (Stuck (Queue.step tasks) q → q.log = sequentialLog 0 s tasks) ∧
      events.length ≤ 3 * tasks.length ∧
      ∀ i result, q.promises[i]? = some (.settled result) → .settled i result ∈ q.log

/-! ### What the chain does -/

/-- The tasks chained: behind an error, none is run, and all are settled with it. -/
def chainLog : ℕ → Option E → σ → List (Task σ E V) → List (Entry E V)
  | _, _, _, [] => []
  | i, none, s, task :: tasks =>
      .started i :: .settled i (task s).1 ::
        chainLog (i + 1) (failure (task s).1) (task s).2 tasks
  | i, some e, s, _ :: tasks => .settled i (.error e) :: chainLog (i + 1) (some e) s tasks

/-- No task fails but the last, when they are run one after the other. -/
def OnlyLastFails : σ → List (Task σ E V) → Prop
  | _, [] => True
  | s, task :: tasks =>
      (failure (task s).1 = none ∨ tasks = []) ∧ OnlyLastFails (task s).2 tasks

/-- **The chain is the tasks one after the other** exactly if no task fails but the last. -/
theorem chainLog_eq_sequentialLog_iff (i : ℕ) (s : σ) (tasks : List (Task σ E V)) :
    chainLog i none s tasks = sequentialLog i s tasks ↔ OnlyLastFails s tasks := by
  induction tasks generalizing i s with
  | nil => exact ⟨fun _ => trivial, fun _ => rfl⟩
  | cons task tasks ih =>
      rw [chainLog, sequentialLog, List.cons_inj_right, List.cons_inj_right, OnlyLastFails]
      cases hfailure : failure (task s).1 with
      | none =>
          rw [ih]
          simp
      | some e =>
          -- the next one is settled without being started
          cases tasks with
          | nil => simp [chainLog, sequentialLog, OnlyLastFails]
          | cons task' tasks => simp [chainLog, sequentialLog]

theorem length_chainLog_le (i : ℕ) (failed : Option E) (s : σ) (tasks : List (Task σ E V)) :
    (chainLog i failed s tasks).length ≤ 2 * tasks.length := by
  induction tasks generalizing i failed s with
  | nil => simp [chainLog]
  | cons task tasks ih =>
      cases failed with
      | none =>
          have hle := ih (i + 1) (failure (task s).1) (task s).2
          rw [chainLog, List.length_cons, List.length_cons, List.length_cons]
          omega
      | some e =>
          have hle := ih (i + 1) (some e) s
          rw [chainLog, List.length_cons, List.length_cons]
          omega

/-! ### Whatever the schedule -/

/-- The error of the last of some results, if it is one. -/
def lastFailure (results : List (Except E V)) : Option E := results.getLast?.bind failure

/-- **The chain follows its log:** the settled promises are in front, at most one task runs, the
first that is not settled, and with what is still to come the log is the whole. -/
inductive Follows (tasks : List (Task σ E V)) (whole : List (Entry E V)) : Queue σ E V → Prop
  | idle {s : σ} {results : List (Except E V)} {n : ℕ} {log : List (Entry E V)}
      (length_le : results.length + n ≤ tasks.length)
      (log_append : log ++ chainLog results.length (lastFailure results) s
        (tasks.drop results.length) = whole) :
      Follows tasks whole ⟨s, results.map .settled ++ List.replicate n .pending, log⟩
  | running {s : σ} {results : List (Except E V)} {n : ℕ} {log : List (Entry E V)}
      {task : Task σ E V} {later : List (Task σ E V)}
      (length_le : results.length + 1 + n ≤ tasks.length)
      (drop_eq : tasks.drop results.length = task :: later)
      (log_append : log ++ .settled results.length (task s).1 ::
        chainLog (results.length + 1) (failure (task s).1) (task s).2 later = whole) :
      Follows tasks whole
        ⟨s, results.map .settled ++ .running :: List.replicate n .pending, log⟩

theorem lastFailure_concat (results : List (Except E V)) (result : Except E V) :
    lastFailure (results ++ [result]) = failure result := by
  rw [lastFailure, List.getLast?_concat]
  rfl

theorem follows_start (tasks : List (Task σ E V)) (s : σ) :
    Follows tasks (chainLog 0 none s tasks) ⟨s, [], []⟩ :=
  @Follows.idle σ E V tasks (chainLog 0 none s tasks) s [] 0 [] (Nat.zero_le _) rfl

section Promises

variable {s : σ} {results : List (Except E V)} {rest : List (Promise E V)} {log : List (Entry E V)}

theorem before_length :
    Queue.before ⟨s, results.map .settled ++ rest, log⟩ results.length =
      some (lastFailure results) := by
  induction results using List.reverseRecOn with
  | nil => rfl
  | append_singleton results result _ =>
      have hlast : (((results ++ [result]).map Promise.settled ++ rest))[results.length]? =
          some (.settled result) := by
        simp
      rw [List.length_append, List.length_singleton, Queue.before, hlast, lastFailure_concat]

theorem getElem?_settled {i : ℕ} (h : i < results.length) :
    (results.map Promise.settled ++ rest)[i]? = some (.settled results[i]) := by
  rw [List.getElem?_append_left (by simpa using h), List.getElem?_map,
    List.getElem?_eq_getElem h, Option.map_some]

theorem getElem?_rest (i : ℕ) :
    (results.map Promise.settled ++ rest)[results.length + i]? = rest[i]? := by
  rw [List.getElem?_append_right (by simp), List.length_map, Nat.add_sub_cancel_left]

theorem set_length (p p' : Promise E V) :
    (results.map Promise.settled ++ p :: rest).set results.length p' =
      results.map Promise.settled ++ p' :: rest := by
  rw [List.set_append_right _ _ (by simp), List.length_map, Nat.sub_self, List.set_cons_zero]

theorem map_settled_concat (result : Except E V) :
    results.map Promise.settled ++ Promise.settled result :: rest =
      (results ++ [result]).map Promise.settled ++ rest := by
  simp

theorem index_of_react {i : ℕ} {failed : Option E} (hrest : ∀ p ∈ rest, ∀ r, p ≠ .settled r)
    (hpromise : (results.map Promise.settled ++ rest)[i]? = some .pending)
    (hbefore : Queue.before ⟨s, results.map .settled ++ rest, log⟩ i = some failed) :
    i = results.length ∧ failed = lastFailure results ∧ rest[0]? = some .pending := by
  have hi : results.length ≤ i := by
    by_contra hless
    rw [getElem?_settled (by omega)] at hpromise
    cases hpromise
  obtain ⟨j, rfl⟩ := Nat.exists_eq_add_of_le hi
  cases j with
  | zero =>
      rw [Nat.add_zero, before_length, Option.some.injEq] at hbefore
      rw [getElem?_rest] at hpromise
      exact ⟨rfl, hbefore.symm, hpromise⟩
  | succ j =>
      rw [← Nat.add_assoc, Queue.before] at hbefore
      simp only [getElem?_rest] at hbefore
      cases hget : rest[j]? with
      | none => rw [hget] at hbefore; cases hbefore
      | some p =>
          have hp := hrest p (List.mem_of_getElem? hget)
          rw [hget] at hbefore
          cases p with
          | pending => cases hbefore
          | running => cases hbefore
          | settled r => exact absurd rfl (hp r)

theorem index_of_running {i n : ℕ}
    (hpromise : (results.map Promise.settled ++ .running ::
      List.replicate n (Promise.pending : Promise E V))[i]? = some .running) :
    i = results.length := by
  have hi : results.length ≤ i := by
    by_contra hless
    rw [getElem?_settled (by omega)] at hpromise
    cases hpromise
  obtain ⟨j, rfl⟩ := Nat.exists_eq_add_of_le hi
  rw [getElem?_rest] at hpromise
  cases j with
  | zero => rfl
  | succ j =>
      rw [List.getElem?_cons_succ] at hpromise
      have hmem := List.mem_of_getElem? hpromise
      exact absurd (List.eq_of_mem_replicate hmem) nofun

end Promises

/-- **One event:** the chain goes on following its log. -/
theorem Follows.step {tasks : List (Task σ E V)} {whole : List (Entry E V)} {q q' : Queue σ E V}
    {event : Queue.Event} (h : Follows tasks whole q) (hstep : q.step tasks event = some q') :
    Follows tasks whole q' := by
  cases h with
  | @idle s results n log length_le log_append =>
      cases event with
      | enqueue =>
          rw [Queue.step] at hstep
          split at hstep
          · next hless =>
              cases hstep
              rw [List.append_assoc, ← List.replicate_succ']
              refine .idle ?_ log_append
              simp at hless
              omega
          · cases hstep
      | react i =>
          obtain ⟨hpromise, failed, hbefore, rfl⟩ := Queue.step_react hstep
          have hpending : ∀ p ∈ List.replicate n (Promise.pending : Promise E V), ∀ r,
              p ≠ .settled r := by
            intro p hp r
            rw [List.eq_of_mem_replicate hp]
            nofun
          obtain ⟨rfl, rfl, hfirst⟩ := index_of_react hpending hpromise hbefore
          obtain ⟨m, rfl⟩ : ∃ m, n = m + 1 := by
            cases n with
            | zero => simp at hfirst
            | succ m => exact ⟨m, rfl⟩
          obtain ⟨task, later, hdrop⟩ : ∃ task later,
              tasks.drop results.length = task :: later :=
            List.exists_cons_of_ne_nil (by simp; omega)
          rw [hdrop] at log_append
          cases hfailed : lastFailure results with
          | none =>
              rw [hfailed, chainLog] at log_append
              simp only [Queue.react, List.replicate_succ, set_length]
              refine .running (by omega) hdrop ?_
              rw [List.append_assoc]
              exact log_append
          | some e =>
              rw [hfailed, chainLog] at log_append
              simp only [Queue.react, List.replicate_succ, set_length, map_settled_concat]
              refine .idle (by simp; omega) ?_
              rw [lastFailure_concat, List.append_assoc, List.length_append,
                List.length_singleton, ← List.drop_drop, hdrop]
              exact log_append
      | finish i =>
          obtain ⟨hpromise, -⟩ := Queue.step_finish hstep
          have hmem := List.mem_of_getElem? hpromise
          simp at hmem
  | @running s results n log task later length_le drop_eq log_append =>
      cases event with
      | enqueue =>
          rw [Queue.step] at hstep
          split at hstep
          · next hless =>
              cases hstep
              rw [List.append_assoc, List.cons_append, ← List.replicate_succ']
              refine .running ?_ drop_eq log_append
              simp at hless
              omega
          · cases hstep
      | react i =>
          -- the first that is not settled runs already
          obtain ⟨hpromise, failed, hbefore, -⟩ := Queue.step_react hstep
          have hrest : ∀ p ∈ Promise.running :: List.replicate n (Promise.pending : Promise E V),
              ∀ r, p ≠ .settled r := by
            intro p hp r
            rcases List.mem_cons.1 hp with rfl | hp
            · nofun
            · rw [List.eq_of_mem_replicate hp]
              nofun
          obtain ⟨-, -, hfirst⟩ := index_of_react hrest hpromise hbefore
          cases hfirst
      | finish i =>
          obtain ⟨hpromise, task', htask, rfl⟩ := Queue.step_finish hstep
          obtain rfl := index_of_running hpromise
          have hsame : task' = task := by
            rw [← List.head?_drop, drop_eq, List.head?_cons] at htask
            exact (Option.some.inj htask).symm
          subst hsame
          simp only [set_length, map_settled_concat]
          refine .idle (by simp; omega) ?_
          rw [lastFailure_concat, List.append_assoc, List.length_append, List.length_singleton,
            ← List.drop_drop, drop_eq]
          exact log_append

theorem Follows.log_begins {tasks : List (Task σ E V)} {whole : List (Entry E V)} {q : Queue σ E V}
    (h : Follows tasks whole q) : q.log <+: whole := by
  cases h with
  | idle _ log_append => exact ⟨_, log_append⟩
  | running _ _ log_append => exact ⟨_, log_append⟩

/-- **The chain does not stop before the end of its log.** -/
theorem Follows.log_eq {tasks : List (Task σ E V)} {whole : List (Entry E V)} {q : Queue σ E V}
    (h : Follows tasks whole q) (hstuck : Stuck (Queue.step tasks) q) : q.log = whole := by
  cases h with
  | @idle s results n log length_le log_append =>
      cases n with
      | zero =>
          -- no promise waits, so all tasks have been given to the queue
          have henqueue := hstuck .enqueue
          have hall : tasks.length ≤ results.length := by
            by_contra hless
            simp [Queue.step, not_le.1 hless] at henqueue
          rw [List.drop_eq_nil_of_le hall] at log_append
          rw [← log_append, chainLog, List.append_nil]
      | succ m =>
          have hreact := hstuck (.react results.length)
          simp [Queue.step, before_length, List.replicate_succ] at hreact
  | @running s results n log task later length_le drop_eq log_append =>
      have hfinish := hstuck (.finish results.length)
      have htask : tasks[results.length]? = some task := by
        rw [← List.head?_drop, drop_eq, List.head?_cons]
      simp [Queue.step, htask] at hfinish

theorem Follows.length_promises_le {tasks : List (Task σ E V)} {whole : List (Entry E V)}
    {q : Queue σ E V} (h : Follows tasks whole q) : q.promises.length ≤ tasks.length := by
  cases h with
  | idle length_le => simpa using length_le
  | running length_le =>
      simp
      omega

theorem Queue.step_count {tasks : List (Task σ E V)} {q q' : Queue σ E V} {event : Queue.Event}
    (h : q.step tasks event = some q') :
    q'.promises.length + q'.log.length = q.promises.length + q.log.length + 1 := by
  cases event with
  | enqueue =>
      rw [Queue.step] at h
      split at h
      · cases h
        simp
        omega
      · cases h
  | react i =>
      obtain ⟨-, failed, -, rfl⟩ := Queue.step_react h
      cases failed with
      | none => simp [Queue.react, Nat.add_assoc]
      | some e => simp [Queue.react, Nat.add_assoc]
  | finish i =>
      obtain ⟨-, task, -, rfl⟩ := Queue.step_finish h
      simp [Nat.add_assoc]

theorem Queue.run_count {tasks : List (Task σ E V)} {q q' : Queue σ E V}
    {events : List Queue.Event} (h : run (Queue.step tasks) q events = some q') :
    q'.promises.length + q'.log.length =
      q.promises.length + q.log.length + events.length := by
  induction events generalizing q with
  | nil =>
      rw [run_nil, Option.some.injEq] at h
      rw [h, List.length_nil, Nat.add_zero]
  | cons event events ih =>
      obtain ⟨s, hs, hrest⟩ := run_cons_eq_some.1 h
      have hstep := Queue.step_count hs
      have hrun := ih hrest
      rw [List.length_cons]
      omega

/-- What a promise is settled with is seen. -/
def Queue.Logged (q : Queue σ E V) : Prop :=
  ∀ i result, q.promises[i]? = some (.settled result) → .settled i result ∈ q.log

theorem Queue.Logged.set {q : Queue σ E V} (h : q.Logged) {i : ℕ} {p : Promise E V}
    {entry : Entry E V} (hp : ∀ result, p = .settled result → entry = .settled i result)
    (s : σ) :
    Queue.Logged ⟨s, q.promises.set i p, q.log ++ [entry]⟩ := by
  intro j result hget
  rcases getElem?_set_cases hget with ⟨rfl, heq⟩ | ⟨-, hold⟩
  · rw [hp result heq.symm]
    simp
  · exact List.mem_append_left _ (h j result hold)

theorem Queue.Logged.step {tasks : List (Task σ E V)} {q q' : Queue σ E V} {event : Queue.Event}
    (h : q.Logged) (hstep : q.step tasks event = some q') : q'.Logged := by
  cases event with
  | enqueue =>
      rw [Queue.step] at hstep
      split at hstep
      · cases hstep
        intro i result hget
        rcases getElem?_concat.1 hget with hold | ⟨-, hnew⟩
        · exact h i result hold
        · cases hnew
      · cases hstep
  | react i =>
      obtain ⟨-, failed, -, rfl⟩ := Queue.step_react hstep
      cases failed with
      | none => exact h.set (p := .running) nofun q.state
      | some e =>
          refine h.set (fun result heq => ?_) q.state
          cases heq
          rfl
  | finish i =>
      obtain ⟨-, task, -, rfl⟩ := Queue.step_finish hstep
      refine h.set (fun result heq => ?_) _
      cases heq
      rfl

section Isolation

variable (tasks : List (Task σ E V)) (s : σ)

/-- **Whatever the schedule,** what has happened is how the log of the chain begins. -/
theorem follows_of_run {q : Queue σ E V} {events : List Queue.Event}
    (h : run (Queue.step tasks) ⟨s, [], []⟩ events = some q) :
    Follows tasks (chainLog 0 none s tasks) q :=
  run_invariant (fun _ _ _ hq hstep => hq.step hstep) (follows_start tasks s) h

theorem exists_run_log_eq :
    ∃ events q, run (Queue.step tasks) ⟨s, [], []⟩ events = some q ∧
      Stuck (Queue.step tasks) q ∧ q.log = chainLog 0 none s tasks := by
  have hless : ∀ (q : Queue σ E V) (event : Queue.Event) (q' : Queue σ E V),
      Follows tasks (chainLog 0 none s tasks) q → q.step tasks event = some q' →
        Follows tasks (chainLog 0 none s tasks) q' ∧
          tasks.length + (chainLog 0 none s tasks).length -
              (q'.promises.length + q'.log.length) <
            tasks.length + (chainLog 0 none s tasks).length -
              (q.promises.length + q.log.length) := by
    intro q event q' hq hstep
    have hq' := hq.step hstep
    have hcount := Queue.step_count hstep
    have hpromises := hq'.length_promises_le
    have hlog := hq'.log_begins.length_le
    exact ⟨hq', by omega⟩
  obtain ⟨events, q, hrun, hstuck⟩ := exists_run_stuck hless (follows_start tasks s)
  exact ⟨events, q, hrun, hstuck, (follows_of_run tasks s hrun).log_eq hstuck⟩

theorem tasksIsolated_iff_chainLog_eq :
    TasksIsolated tasks s ↔ chainLog 0 none s tasks = sequentialLog 0 s tasks := by
  constructor
  · intro h
    obtain ⟨events, q, hrun, hstuck, hlog⟩ := exists_run_log_eq tasks s
    rw [← hlog]
    exact (h events q hrun).2.1 hstuck
  · intro hsame events q hrun
    have hfollows := follows_of_run tasks s hrun
    have hcount := Queue.run_count hrun
    have hpromises := hfollows.length_promises_le
    have hlog := hfollows.log_begins.length_le
    have hwhole := length_chainLog_le 0 none s tasks
    have hlogged : q.Logged :=
      run_invariant (fun _ _ _ hq hstep => Queue.Logged.step hq hstep)
        (fun i result hget => by simp at hget) hrun
    rw [← hsame]
    refine ⟨hfollows.log_begins, hfollows.log_eq, ?_, hlogged⟩
    simp at hcount
    omega

/-- **When the tasks are isolated from each other:** exactly if no task fails but the last. -/
theorem tasksIsolated_iff : TasksIsolated tasks s ↔ OnlyLastFails s tasks := by
  rw [tasksIsolated_iff_chainLog_eq, chainLog_eq_sequentialLog_iff]

end Isolation

end Queue

/-! ### Staging -/

/-- `stageToMempool(tx)` as a task. -/
def staging (hmac : Js.Str → Js.Str) (tx : Tx) : Task Engine Unit Js.Str := fun e =>
  match e.stageToMempool hmac tx with
  | some (e', txHash) => (.ok txHash, e')
  | none => (.error (), e)

/-- Two calls on an empty database: the first sender has no funds, and the mint after it, which
would be staged, is rejected with the error of the first. -/
theorem not_tasksIsolated_staging :
    ¬ TasksIsolated
      [staging id [("from".toList, .str "alice".toList), ("value".toList, .num 1)],
        staging id [("from".toList, .str "0x00".toList), ("value".toList, .num 1)]]
      (Engine.new .empty []) := by
  rw [tasksIsolated_iff_chainLog_eq, chainLog_eq_sequentialLog_iff]
  rintro ⟨hfirst | hfirst, -⟩
  · exact absurd hfirst (by decide +kernel)
  · cases hfirst

end TransactionEngine
