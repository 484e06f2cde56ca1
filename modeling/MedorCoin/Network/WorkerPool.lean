/-
**The worker pools of the network.**

A pool runs the tasks that are submitted to it, unless too many wait.  `drain` waits until no task
is left.  It tests this under the lock of the queue, but a worker that has done a task counts it
down and tells those who wait without the lock.  So a worker may do both after a drain has tested,
and before it sleeps; a drain that has missed this may sleep for ever.

A task that throws is a task that is done.  The futures of the tasks are left out.

Main definitions:

* `Network.WorkerPool.State`, `Network.WorkerPool.Drainer` — a pool; a thread in `drain`;
* `Network.WorkerPool.move`, `Network.WorkerPool.step` — what the threads do next that are not
  asleep; this, and calls of `submit`, `drain`, `shutdown` and `resize`.

Main results:

* `Network.WorkerPool.sound_run` — **every task is run once, in the order in which they came**;
* `Network.WorkerPool.settled_run` — **the pool comes to rest with every task done**, and a drain
  that has not come back by then has missed that a task was done.
-/

import MedorCoin.Transition.Workers

set_option autoImplicit false

namespace Network.WorkerPool

open Transition
open Transition.Workers (Worker Pool)

variable {α : Type}

/-- Where a thread in `drain` stands.  While it has tested and does not sleep yet, it has the lock.
Whether a task was done since the test is noted. -/
inductive Drainer
  | testing
  | tested (missed : Bool)
  | asleep (missed : Bool)
  | returned
  deriving DecidableEq

def Drainer.isTested : Drainer → Bool
  | .tested _ => true
  | _ => false

/-- `drainCv_.notify_all()`. -/
def Drainer.woken : Drainer → Drainer
  | .asleep _ => .testing
  | d => d

/-- A task is done. -/
def Drainer.counted : Drainer → Drainer
  | .tested _ => .tested true
  | d => d

/-- The queue and the workers, `maxQueue_`, `activeCount_`, and the threads in `drain`. -/
structure State (α : Type) where
  pool : Pool α
  maxQueue : ℕ
  active : ℕ := 0
  drainers : List Drainer := []
  deriving DecidableEq

/-- `WorkerPool(workers, maxQueue)`. -/
def State.new (workers maxQueue : ℕ) : State α where
  pool := Pool.new (max 1 workers)
  maxQueue := max 1 maxQueue

/-- A thread in `drain` has `mu_`. -/
def State.locked (s : State α) : Bool := s.drainers.any Drainer.isTested

inductive Move
  | pool (m : Workers.Move)
  | drainTest (j : ℕ)
  | drainSleep (j : ℕ)

inductive Event (α : Type)
  | submit (a : α)
  | drain
  | shutdown
  /-- The end of `resize`, when the workers have been joined. -/
  | resize (newWorkers : ℕ)
  /-- A worker wakes up for no reason. -/
  | wake (i : ℕ)
  | drainWake (j : ℕ)
  | move (m : Move)

variable (s : State α)

/-- `activeCount_.fetch_add(1)`, if there is a task. -/
def State.activeAfterTest : ℕ := if s.pool.queue.isEmpty then s.active else s.active + 1

/-- What a worker does, in `run()`, or a thread that notifies the workers. -/
def poolMove (m : Workers.Move) : Option (State α) :=
  match m with
  | .test _ =>
      if s.locked then none
      else (Workers.move s.pool m).map fun pool =>
        { s with pool, active := s.activeAfterTest }
  | .finish _ =>
      (Workers.move s.pool m).map fun pool =>
        { s with pool, active := s.active - 1, drainers := s.drainers.map Drainer.counted }
  | .back _ =>
      (Workers.move s.pool m).map fun pool =>
        { s with pool, drainers := s.drainers.map Drainer.woken }
  | _ => (Workers.move s.pool m).map fun pool => { s with pool }

def move : Move → Option (State α)
  | .pool m => poolMove s m
  | .drainTest j =>
      match s.drainers[j]? with
      | some .testing =>
          if s.locked then none
          else if s.pool.queue.isEmpty ∧ s.active = 0 then
            some { s with drainers := s.drainers.set j .returned }
          else some { s with drainers := s.drainers.set j (.tested false) }
      | _ => none
  | .drainSleep j =>
      match s.drainers[j]? with
      | some (.tested missed) => some { s with drainers := s.drainers.set j (.asleep missed) }
      | _ => none

def step : Event α → Option (State α)
  | .submit a =>
      if s.locked then none
      else if s.pool.stopping ∨ s.pool.queue.length ≥ s.maxQueue then some s
      else (Workers.step s.pool (.push a)).map fun pool => { s with pool }
  | .drain => some { s with drainers := s.drainers ++ [.testing] }
  | .shutdown =>
      if s.locked then none else (Workers.step s.pool .stop).map fun pool => { s with pool }
  | .resize newWorkers =>
      (Workers.step s.pool (.restart (max 1 newWorkers))).map fun pool => { s with pool }
  | .wake i => (Workers.step s.pool (.wake i)).map fun pool => { s with pool }
  | .drainWake j =>
      match s.drainers[j]? with
      | some (.asleep _) => some { s with drainers := s.drainers.set j .testing }
      | _ => none
  | .move m => move s m

/-! ### The invariant -/

variable {s t : State α}

/-- A worker at a task. -/
def isBusy (w : Worker α) : Bool := w.task.isSome

/-- Something tells a drain that sleeps: a task that waits, is run, or was done just now. -/
def Pending (s : State α) : Prop :=
  s.pool.queue ≠ [] ∨ s.active ≠ 0 ∨ .finishing ∈ s.pool.workers

/-- **What every step keeps.** -/
structure Inv (s : State α) : Prop where
  pool : Workers.Inv s.pool
  bound : s.pool.queue.length ≤ s.maxQueue
  active : s.active = s.pool.workers.countP isBusy
  tested : .tested false ∈ s.drainers → s.pool.queue ≠ [] ∨ s.active ≠ 0
  asleep : .asleep false ∈ s.drainers → Pending s

theorem locked_eq_false_iff : s.locked = false ↔ ∀ missed, .tested missed ∉ s.drainers := by
  rw [State.locked, List.any_eq_false]
  constructor
  · intro h missed hmem
    exact h _ hmem rfl
  · intro h d hd htested
    cases d with
    | tested missed => exact h missed hd
    | _ => cases htested

theorem countP_isBusy_woken (l : List (Worker α)) :
    (l.map Worker.woken).countP isBusy = l.countP isBusy := by
  rw [List.countP_map]
  refine List.countP_congr fun w _ => ?_
  cases w <;> exact Iff.rfl

theorem mem_counted {d : Drainer} (h : d ∈ s.drainers.map Drainer.counted) :
    d ∈ s.drainers ∧ d ≠ .tested false ∨ d = .tested true := by
  obtain ⟨d', hd', rfl⟩ := List.mem_map.1 h
  cases d' with
  | tested missed => exact Or.inr rfl
  | _ => exact Or.inl ⟨hd', by simp [Drainer.counted]⟩

theorem mem_woken {d : Drainer} (h : d ∈ s.drainers.map Drainer.woken) :
    d ∈ s.drainers ∧ (∀ missed, d ≠ .asleep missed) ∨ d = .testing := by
  obtain ⟨d', hd', rfl⟩ := List.mem_map.1 h
  cases d' with
  | asleep missed => exact Or.inr rfl
  | testing => exact Or.inr rfl
  | tested missed => exact Or.inl ⟨hd', by simp [Drainer.woken]⟩
  | returned => exact Or.inl ⟨hd', by simp [Drainer.woken]⟩

theorem mem_drainers_of_set {j : ℕ} {d d' : Drainer} (h : d ∈ s.drainers.set j d')
    (hne : d ≠ d') : d ∈ s.drainers := by
  rcases mem_set_cases h with heq | ⟨i, -, hi⟩
  · exact absurd heq hne
  · exact mem_of_getElem? hi

theorem Inv.of_pool {pool : Pool α} (hs : Inv s) (hpool : Workers.Inv pool)
    (hqueue : pool.queue = s.pool.queue)
    (hbusy : pool.workers.countP isBusy = s.pool.workers.countP isBusy)
    (hfinishing : .finishing ∈ s.pool.workers → .finishing ∈ pool.workers) :
    Inv { s with pool } where
  pool := hpool
  bound := hqueue ▸ hs.bound
  active := hs.active.trans hbusy.symm
  tested h := hqueue ▸ hs.tested h
  asleep h := by
    rcases hs.asleep h with hq | hactive | hmem
    · exact Or.inl (hqueue ▸ hq)
    · exact Or.inr (Or.inl hactive)
    · exact Or.inr (Or.inr (hfinishing hmem))

theorem Inv.of_set {pool : Pool α} {i : ℕ} {w w' : Worker α} (hs : Inv s)
    (hpool : Workers.Inv pool) (hi : s.pool.workers[i]? = some w)
    (hworkers : pool.workers = s.pool.workers.set i w') (hqueue : pool.queue = s.pool.queue)
    (hbusy : isBusy w = false) (hbusy' : isBusy w' = false) (hne : w ≠ .finishing) :
    Inv { s with pool } := by
  refine hs.of_pool hpool hqueue ?_ fun hmem => ?_
  · have hcount := Workers.countP_set_add (b := w') isBusy hi
    rw [hbusy, hbusy'] at hcount
    rw [hworkers]
    exact Nat.add_right_cancel hcount
  · rw [hworkers]
    exact mem_set_of_ne hi hmem (Ne.symm hne)

theorem activeAfterTest_of_nil (h : s.pool.queue = []) : s.activeAfterTest = s.active := by
  rw [State.activeAfterTest, h]
  rfl

theorem Inv.poolMove {m : Workers.Move} (hs : Inv s) (h : WorkerPool.poolMove s m = some t) :
    Inv t := by
  have hmove {pool : Pool α} (h : Workers.move s.pool m = some pool) := hs.pool.move h
  cases m with
  | signal i =>
      obtain ⟨pool, hm, rfl⟩ := Option.map_eq_some_iff.1 h
      have hpool := hmove hm
      cases Workers.moved_of_move hm with
      | unheard hsignals hasleep => exact hs.of_pool hpool rfl rfl id
      | signal hsignals hi => exact hs.of_set hpool hi rfl rfl rfl rfl (by simp)
  | broadcast =>
      obtain ⟨pool, hm, rfl⟩ := Option.map_eq_some_iff.1 h
      have hpool := hmove hm
      cases Workers.moved_of_move hm with
      | broadcast hb =>
          exact hs.of_pool hpool rfl (countP_isBusy_woken _) fun hmem =>
            List.mem_map.2 ⟨_, hmem, rfl⟩
  | test i =>
      rw [WorkerPool.poolMove] at h
      split_ifs at h with hlocked
      have hnone := locked_eq_false_iff.1 (Bool.eq_false_iff.2 hlocked)
      obtain ⟨pool, hm, rfl⟩ := Option.map_eq_some_iff.1 h
      have hpool := hmove hm
      cases Workers.moved_of_move hm with
      | @take _ a rest hi hqueue =>
          have hcount := Workers.countP_set_add (b := .busy a) isBusy hi
          simp only [isBusy, Worker.task, Option.isSome_none, Option.isSome_some,
            Bool.false_eq_true, if_false, if_true] at hcount
          have hactive : s.activeAfterTest = s.active + 1 := by
            rw [State.activeAfterTest, hqueue]
            rfl
          have hbound := hs.bound
          rw [hqueue, List.length_cons] at hbound
          refine ⟨hpool, Nat.le_of_succ_le hbound, ?_, fun h => absurd h (hnone false),
            fun _ => Or.inr (Or.inl (hactive ▸ Nat.succ_ne_zero _))⟩
          have hold := hs.active
          exact hactive.trans ((congrArg (· + 1) hold).trans hcount.symm)
      | exit hi hqueue hstop =>
          rw [activeAfterTest_of_nil hqueue]
          exact hs.of_set hpool hi rfl rfl rfl rfl (by simp)
      | sleep hi hqueue hstop =>
          rw [activeAfterTest_of_nil hqueue]
          exact hs.of_set hpool hi rfl rfl rfl rfl (by simp)
  | finish i =>
      obtain ⟨pool, hm, rfl⟩ := Option.map_eq_some_iff.1 h
      have hpool := hmove hm
      cases Workers.moved_of_move hm with
      | @finish _ a hi =>
          have hcount := Workers.countP_set_add (b := .finishing) isBusy hi
          simp only [isBusy, Worker.task, Option.isSome_none, Option.isSome_some,
            Bool.false_eq_true, if_false, if_true] at hcount
          have hold := hs.active
          refine ⟨hpool, hs.bound, ?_, fun h => ?_, fun _ => Or.inr (Or.inr (mem_set_self hi))⟩
          · exact Nat.sub_eq_of_eq_add (hold.trans hcount.symm)
          · rcases mem_counted h with ⟨-, hne⟩ | heq
            · exact absurd rfl hne
            · cases heq
  | back i =>
      obtain ⟨pool, hm, rfl⟩ := Option.map_eq_some_iff.1 h
      have hpool := hmove hm
      cases Workers.moved_of_move hm with
      | back hi =>
          have hcount := Workers.countP_set_add (b := .testing) isBusy hi
          simp only [isBusy, Worker.task, Option.isSome_none, Bool.false_eq_true, if_false] at hcount
          refine ⟨hpool, hs.bound, hs.active.trans hcount.symm, fun h => ?_, fun h => ?_⟩
          · rcases mem_woken h with ⟨hmem, -⟩ | heq
            · exact hs.tested hmem
            · cases heq
          · rcases mem_woken h with ⟨-, hne⟩ | heq
            · exact absurd rfl (hne false)
            · cases heq

/-- **A move keeps the invariant.** -/
theorem Inv.move {m : Move} (hs : Inv s) (h : WorkerPool.move s m = some t) : Inv t := by
  cases m with
  | pool m => exact hs.poolMove h
  | drainTest j =>
      rw [WorkerPool.move] at h
      split at h
      · next hj =>
          split_ifs at h with hlocked hdone
          · obtain rfl := Option.some.inj h
            exact ⟨hs.pool, hs.bound, hs.active,
              fun hmem => hs.tested (mem_drainers_of_set hmem (by simp)),
              fun hmem => hs.asleep (mem_drainers_of_set hmem (by simp))⟩
          · obtain rfl := Option.some.inj h
            refine ⟨hs.pool, hs.bound, hs.active, fun _ => ?_,
              fun hmem => hs.asleep (mem_drainers_of_set hmem (by simp))⟩
            rw [List.isEmpty_iff] at hdone
            exact not_and_or.1 hdone
      · cases h
  | drainSleep j =>
      rw [WorkerPool.move] at h
      split at h
      · next missed hj =>
          obtain rfl := Option.some.inj h
          refine ⟨hs.pool, hs.bound, hs.active,
            fun hmem => hs.tested (mem_drainers_of_set hmem (by simp)), fun hmem => ?_⟩
          cases missed with
          | true => exact hs.asleep (mem_drainers_of_set hmem (by simp))
          | false =>
              rcases hs.tested (mem_of_getElem? hj) with hqueue | hactive
              · exact Or.inl hqueue
              · exact Or.inr (Or.inl hactive)
      · cases h

/-- **A step keeps the invariant.** -/
theorem Inv.step {e : Event α} (hs : Inv s) (h : WorkerPool.step s e = some t) : Inv t := by
  cases e with
  | submit a =>
      rw [WorkerPool.step] at h
      split_ifs at h with hlocked hfull
      · exact Option.some.inj h ▸ hs
      · obtain ⟨pool, hm, rfl⟩ := Option.map_eq_some_iff.1 h
        have hpool := hs.pool.step hm
        rw [not_or, Nat.not_le] at hfull
        have hnone := locked_eq_false_iff.1 (Bool.eq_false_iff.2 hlocked)
        rw [Workers.step, if_neg hfull.1, Option.some.injEq] at hm
        subst hm
        refine ⟨hpool, ?_, hs.active, fun hmem => absurd hmem (hnone false), fun _ => Or.inl ?_⟩
        · simp only [List.length_append, List.length_singleton]
          exact hfull.2
        · exact List.append_ne_nil_of_right_ne_nil _ (List.cons_ne_nil _ _)
  | drain =>
      obtain rfl := Option.some.inj h
      refine ⟨hs.pool, hs.bound, hs.active, fun hmem => ?_, fun hmem => ?_⟩
      · rcases mem_concat_cases hmem with hmem | heq
        · exact hs.tested hmem
        · cases heq
      · rcases mem_concat_cases hmem with hmem | heq
        · exact hs.asleep hmem
        · cases heq
  | shutdown =>
      rw [WorkerPool.step] at h
      split_ifs at h with hlocked
      obtain ⟨pool, hm, rfl⟩ := Option.map_eq_some_iff.1 h
      have hpool := hs.pool.step hm
      obtain rfl := Option.some.inj hm
      exact hs.of_pool hpool rfl rfl id
  | resize n =>
      obtain ⟨pool, hm, rfl⟩ := Option.map_eq_some_iff.1 h
      have hpool := hs.pool.step hm
      obtain ⟨hall, -, -, rfl⟩ := Workers.exited_of_restart hm
      obtain ⟨w, hw⟩ := List.exists_mem_of_ne_nil _ hs.pool.manned
      have hqueue := (hs.pool.gone (hall w hw ▸ hw)).2
      have hactive : s.active = 0 := by
        refine hs.active.trans (List.countP_eq_zero.2 fun w hw => ?_)
        rw [hall w hw]
        exact Bool.false_ne_true
      refine ⟨hpool, hs.bound, hactive.trans ?_, hs.tested, fun hmem => ?_⟩
      · refine (List.countP_eq_zero.2 fun w hw => ?_).symm
        rw [List.eq_of_mem_replicate hw]
        exact Bool.false_ne_true
      · rcases hs.asleep hmem with hne | hne | hfinishing
        · exact absurd hqueue hne
        · exact absurd hactive hne
        · cases hall _ hfinishing
  | wake i =>
      obtain ⟨pool, hm, rfl⟩ := Option.map_eq_some_iff.1 h
      have hpool := hs.pool.step hm
      rw [Workers.step] at hm
      split at hm
      · next hi =>
          obtain rfl := Option.some.inj hm
          exact hs.of_set hpool hi rfl rfl rfl rfl (by simp)
      · cases hm
  | drainWake j =>
      rw [WorkerPool.step] at h
      split at h
      · next hj =>
          obtain rfl := Option.some.inj h
          exact ⟨hs.pool, hs.bound, hs.active,
            fun hmem => hs.tested (mem_drainers_of_set hmem (by simp)),
            fun hmem => hs.asleep (mem_drainers_of_set hmem (by simp))⟩
      · cases h
  | move m => exact hs.move h

theorem inv_new (workers maxQueue : ℕ) : Inv (State.new workers maxQueue : State α) where
  pool := Workers.inv_new (Nat.lt_of_lt_of_le Nat.one_pos (Nat.le_max_left 1 workers))
  bound := Nat.zero_le _
  active := by
    refine (List.countP_eq_zero.2 fun w hw => ?_).symm
    rw [List.eq_of_mem_replicate hw]
    exact Bool.false_ne_true
  tested h := absurd h List.not_mem_nil
  asleep h := absurd h List.not_mem_nil

theorem inv_run {workers maxQueue : ℕ} {es : List (Event α)}
    (hrun : run step (State.new workers maxQueue) es = some s) : Inv s :=
  run_invariant (fun _ _ _ hs hstep => hs.step hstep) (inv_new workers maxQueue) hrun

/-! ### Rest -/

/-- How many moves a thread in `drain` can make. -/
def Drainer.weight : Drainer → ℕ
  | .testing => 2
  | .tested _ => 1
  | .asleep _ => 0
  | .returned => 0

/-- A bound on the moves that are to come: a worker may wake all drains. -/
def State.weight (s : State α) : ℕ :=
  (2 * s.drainers.length + 1) * s.pool.weight + (s.drainers.map Drainer.weight).sum

theorem sum_weight_le (l : List Drainer) : (l.map Drainer.weight).sum ≤ 2 * l.length := by
  induction l with
  | nil => exact Nat.le_refl _
  | cons d l ih =>
      have hd : d.weight ≤ 2 := by cases d <;> simp [Drainer.weight]
      rw [List.map_cons, List.sum_cons, List.length_cons]
      omega

theorem weight_lt_of_pool (hpool : t.pool.weight < s.pool.weight)
    (hlength : t.drainers.length = s.drainers.length) : t.weight < s.weight := by
  have hsum := sum_weight_le t.drainers
  have hmul : (2 * s.drainers.length + 1) * (t.pool.weight + 1) ≤
      (2 * s.drainers.length + 1) * s.pool.weight := Nat.mul_le_mul_left _ hpool
  rw [Nat.mul_succ] at hmul
  rw [State.weight, State.weight, hlength]
  omega

theorem weight_lt_of_drainer {j : ℕ} {d d' : Drainer} (hj : s.drainers[j]? = some d)
    (hlt : d'.weight < d.weight) : ({ s with drainers := s.drainers.set j d' } : State α).weight <
      s.weight := by
  have hsum := Threads.sum_map_set_lt hj hlt
  rw [State.weight, State.weight, List.length_set]
  exact Nat.add_lt_add_left hsum _

/-- **Every move brings the rest closer.** -/
theorem weight_move_lt {m : Move} (h : WorkerPool.move s m = some t) : t.weight < s.weight := by
  cases m with
  | pool m =>
      cases m with
      | test i =>
          rw [WorkerPool.move, poolMove] at h
          split_ifs at h with hlocked
          obtain ⟨pool, hm, rfl⟩ := Option.map_eq_some_iff.1 h
          exact weight_lt_of_pool (Workers.weight_move_lt hm) rfl
      | _ =>
          obtain ⟨pool, hm, rfl⟩ := Option.map_eq_some_iff.1 h
          exact weight_lt_of_pool (Workers.weight_move_lt hm) (by simp)
  | drainTest j =>
      rw [WorkerPool.move] at h
      split at h
      · next hj =>
          split_ifs at h with hlocked hdone
          · obtain rfl := Option.some.inj h
            exact weight_lt_of_drainer hj (by decide)
          · obtain rfl := Option.some.inj h
            exact weight_lt_of_drainer hj (by decide)
      · cases h
  | drainSleep j =>
      rw [WorkerPool.move] at h
      split at h
      · next missed hj =>
          obtain rfl := Option.some.inj h
          exact weight_lt_of_drainer hj Nat.one_pos
      · cases h

theorem drainers_of_stuck (h : Stuck WorkerPool.move s) {d : Drainer} (hd : d ∈ s.drainers) :
    d = .returned ∨ ∃ missed, d = .asleep missed := by
  have htested : ∀ missed, .tested missed ∉ s.drainers := by
    intro missed hmem
    obtain ⟨j, hj⟩ := List.mem_iff_getElem?.1 hmem
    have hmove := h (.drainSleep j)
    rw [WorkerPool.move, hj] at hmove
    cases hmove
  cases d with
  | returned => exact Or.inl rfl
  | asleep missed => exact Or.inr ⟨missed, rfl⟩
  | tested missed => exact absurd hd (htested missed)
  | testing =>
      obtain ⟨j, hj⟩ := List.mem_iff_getElem?.1 hd
      have hmove := h (.drainTest j)
      rw [WorkerPool.move, hj] at hmove
      simp only [locked_eq_false_iff.2 htested, Bool.false_eq_true, if_false] at hmove
      split_ifs at hmove

theorem stuck_pool (h : Stuck WorkerPool.move s) : Stuck Workers.move s.pool := by
  have hunlocked : s.locked = false := by
    refine locked_eq_false_iff.2 fun missed hmem => ?_
    rcases drainers_of_stuck h hmem with heq | ⟨_, heq⟩
    · cases heq
    · cases heq
  intro m
  have hmove := h (.pool m)
  cases m with
  | test i =>
      rw [WorkerPool.move, poolMove, hunlocked] at hmove
      exact Option.map_eq_none_iff.1 hmove
  | _ => exact Option.map_eq_none_iff.1 hmove

/-! ### Runs -/

/-- **Every task is run once, in the order in which they came**, and there are never too many. -/
theorem sound_run {workers maxQueue : ℕ} {es : List (Event α)}
    (hrun : run step (State.new workers maxQueue) es = some s) :
    s.pool.accepted = s.pool.started ++ s.pool.queue ∧
      s.pool.started.Perm (s.pool.finished ++ s.pool.workers.filterMap Worker.task) ∧
      s.pool.queue.length ≤ s.maxQueue ∧ s.active = (s.pool.workers.filterMap Worker.task).length := by
  have hs := inv_run hrun
  refine ⟨hs.pool.order, hs.pool.once, hs.bound, hs.active.trans ?_⟩
  rw [List.length_filterMap_eq_countP]
  rfl

/-- **The pool comes to rest with every task done**, whatever the threads do next.  A drain that has
not come back by then sleeps for ever: it has missed that a task was done. -/
theorem settled_run {workers maxQueue : ℕ} {es : List (Event α)}
    (hrun : run step (State.new workers maxQueue) es = some s) :
    (∀ ms t, run WorkerPool.move s ms = some t → ms.length ≤ s.weight) ∧
      (Stuck WorkerPool.move s → s.pool.queue = [] ∧ s.pool.finished.Perm s.pool.accepted ∧
        ∀ d ∈ s.drainers, d = .returned ∨ d = .asleep true) := by
  have hs := inv_run hrun
  constructor
  · intro ms t hms
    have hle := length_add_le (I := fun _ => True) (μ := State.weight)
      (fun _ _ _ _ hmove => ⟨trivial, weight_move_lt hmove⟩) trivial hms
    omega
  · intro hstuck
    obtain ⟨hqueue, hdone, hworkers⟩ := hs.pool.done_of_stuck (stuck_pool hstuck)
    refine ⟨hqueue, hdone, fun d hd => ?_⟩
    rcases drainers_of_stuck hstuck hd with rfl | ⟨missed, rfl⟩
    · exact Or.inl rfl
    · cases missed with
      | true => exact Or.inr rfl
      | false =>
          have hactive : s.active = 0 := by
            refine hs.active.trans (List.countP_eq_zero.2 fun w hw => ?_)
            rcases hworkers w hw with rfl | rfl
            · exact Bool.false_ne_true
            · exact Bool.false_ne_true
          rcases hs.asleep hd with hne | hne | hfinishing
          · exact absurd hqueue hne
          · exact absurd hactive hne
          · rcases hworkers _ hfinishing with heq | heq
            · cases heq
            · cases heq

/-- A drain tests while the only task is run; the task is done, and everybody told, before the drain
sleeps. -/
def lostRun : List (Event ℕ) :=
  [.submit 7, .move (.pool (.test 0)), .drain, .move (.drainTest 0), .move (.pool (.finish 0)),
   .move (.pool (.back 0)), .move (.drainSleep 0), .move (.pool (.test 0)),
   .move (.pool (.signal (some 0))), .move (.pool (.test 0))]

/-- Nothing is left to do, and the drain sleeps for ever. -/
def lost : State ℕ where
  pool := { workers := [.asleep], accepted := [7], started := [7], finished := [7] }
  maxQueue := 8
  drainers := [.asleep true]

theorem run_lost : run step (State.new 1 8) lostRun = some lost := by decide

theorem sound_run_lost : lost.pool.started.Perm
    (lost.pool.finished ++ lost.pool.workers.filterMap Worker.task) :=
  (sound_run run_lost).2.1

theorem stuck_lost : Stuck WorkerPool.move lost := by
  intro m
  cases m with
  | drainTest j => rcases j with _ | j <;> rfl
  | drainSleep j => rcases j with _ | j <;> rfl
  | pool m =>
      cases m with
      | test i => rcases i with _ | i <;> rfl
      | finish i => rcases i with _ | i <;> rfl
      | back i => rcases i with _ | i <;> rfl
      | broadcast => rfl
      | signal i =>
          cases i with
          | none => rfl
          | some i => rcases i with _ | i <;> rfl

theorem settled_run_lost : lost.pool.queue = [] ∧ lost.pool.finished.Perm lost.pool.accepted ∧
    ∀ d ∈ lost.drainers, d = .returned ∨ d = .asleep true :=
  (settled_run run_lost).2 stuck_lost

end Network.WorkerPool
