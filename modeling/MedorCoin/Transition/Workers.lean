/-
**Workers on a queue.**

Some threads take tasks out of a queue.  The queue is behind a lock; a worker that finds nothing to
do goes to sleep without letting go of the lock in between, and who adds a task wakes one worker
once it has let go of the lock.  The workers end when they are told to and find nothing to do.

A worker may wake up for no reason.  What has to be shown is that a task does not stay in the queue
while the workers sleep, and that every task is done once.

Main definitions:

* `Transition.Workers.Worker`, `Transition.Workers.Pool` — where a worker stands; all of them, and
  the queue;
* `Transition.Workers.move` — what a thread does next that is not asleep;
* `Transition.Workers.step` — this, and tasks that are added, the end, a new start, a worker that
  wakes up;
* `Transition.Workers.Inv` — what every step keeps.

Main results:

* `Transition.Workers.Inv.step` — **the invariant**: every task is done once, in the order in which
  they came, and no task is left to workers who sleep;
* `Transition.Workers.Inv.done_of_stuck` — **where nothing moves, everything is done**;
* `Transition.Workers.weight_move_lt` — and this comes about.
-/

import MedorCoin.Transition.Tasks
import Mathlib.Data.List.Perm.Basic

set_option autoImplicit false

namespace Transition.Workers

variable {α : Type}

/-! ### Lists in which one entry is replaced -/

section

variable {β : Type} {l : List α} {i : ℕ} {a b : α}

theorem filterMap_set_perm (f : α → Option β) (h : l[i]? = some a) :
    ((f a).toList ++ (l.set i b).filterMap f).Perm ((f b).toList ++ l.filterMap f) := by
  induction l generalizing i with
  | nil => cases h
  | cons c l ih =>
      have hcons (x : α) (l : List α) :
          (x :: l).filterMap f = (f x).toList ++ l.filterMap f := by
        cases hx : f x with
        | none => rw [List.filterMap_cons_none hx, Option.toList_none, List.nil_append]
        | some y => rw [List.filterMap_cons_some hx, Option.toList_some, List.singleton_append]
      cases i with
      | zero =>
          obtain rfl : c = a := Option.some.inj h
          rw [List.set_cons_zero, hcons, hcons, ← List.append_assoc, ← List.append_assoc]
          exact List.perm_append_comm.append_right _
      | succ i =>
          rw [List.set_cons_succ, hcons, hcons]
          refine (List.perm_append_comm_assoc _ _ _).trans ?_
          exact ((ih h).append_left _).trans (List.perm_append_comm_assoc _ _ _)

theorem countP_set_add (p : α → Bool) (h : l[i]? = some a) :
    (l.set i b).countP p + (if p a then 1 else 0) = l.countP p + (if p b then 1 else 0) := by
  induction l generalizing i with
  | nil => cases h
  | cons c l ih =>
      cases i with
      | zero =>
          obtain rfl : c = a := Option.some.inj h
          rw [List.set_cons_zero, List.countP_cons, List.countP_cons]
          omega
      | succ i =>
          have hrest := ih (i := i) h
          rw [List.set_cons_succ, List.countP_cons, List.countP_cons]
          omega

theorem sum_map_set {f : α → ℕ} (h : l[i]? = some a) :
    ((l.set i b).map f).sum + f a = (l.map f).sum + f b := by
  induction l generalizing i with
  | nil => cases h
  | cons c l ih =>
      cases i with
      | zero =>
          obtain rfl : c = a := Option.some.inj h
          simp only [List.set_cons_zero, List.map_cons, List.sum_cons]
          omega
      | succ i =>
          have hrest := ih (i := i) h
          simp only [List.set_cons_succ, List.map_cons, List.sum_cons]
          omega

end

/-! ### The system -/

/-- Where a worker stands: before its test, asleep, at a task, behind it, or at its end. -/
inductive Worker (α : Type)
  | testing
  | asleep
  | busy (a : α)
  | finishing
  | exited
  deriving DecidableEq

def Worker.isTesting : Worker α → Bool
  | .testing => true
  | _ => false

def Worker.isAsleep : Worker α → Bool
  | .asleep => true
  | _ => false

/-- The task a worker is at. -/
def Worker.task : Worker α → Option α
  | .busy a => some a
  | _ => none

/-- A worker after all have been told to wake up. -/
def Worker.woken : Worker α → Worker α
  | .asleep => .testing
  | w => w

/-- The queue, whether the workers are to end, the workers, how many threads are about to wake one
worker, whether one is about to wake all, and the tasks that have come, been begun and been done. -/
structure Pool (α : Type) where
  queue : List α := []
  stopping : Bool := false
  workers : List (Worker α)
  signals : ℕ := 0
  broadcast : Bool := false
  accepted : List α := []
  started : List α := []
  finished : List α := []
  deriving DecidableEq

/-- So many workers, and nothing to do. -/
def Pool.new (n : ℕ) : Pool α := { workers := List.replicate n .testing }

/-- What the threads do that are not asleep. -/
inductive Move
  /-- One worker is woken, if there is one asleep. -/
  | signal (i : Option ℕ)
  | test (i : ℕ)
  | finish (i : ℕ)
  | back (i : ℕ)
  /-- All workers are woken. -/
  | broadcast

inductive Event (α : Type)
  | push (a : α)
  | stop
  | wake (i : ℕ)
  | restart (n : ℕ)
  | move (m : Move)

variable (p : Pool α)

def move : Move → Option (Pool α)
  | .signal none =>
      if p.signals = 0 ∨ p.workers.any Worker.isAsleep then none
      else some { p with signals := p.signals - 1 }
  | .signal (some i) =>
      match p.workers[i]? with
      | some .asleep =>
          if p.signals = 0 then none
          else some { p with signals := p.signals - 1, workers := p.workers.set i .testing }
      | _ => none
  | .test i =>
      match p.workers[i]? with
      | some .testing =>
          match p.queue with
          | a :: rest =>
              some { p with
                queue := rest
                workers := p.workers.set i (.busy a)
                started := p.started ++ [a] }
          | [] =>
              some { p with workers := p.workers.set i (if p.stopping then .exited else .asleep) }
      | _ => none
  | .finish i =>
      match p.workers[i]? with
      | some (.busy a) =>
          some { p with workers := p.workers.set i .finishing, finished := p.finished ++ [a] }
      | _ => none
  | .back i =>
      match p.workers[i]? with
      | some .finishing => some { p with workers := p.workers.set i .testing }
      | _ => none
  | .broadcast =>
      if p.broadcast then
        some { p with broadcast := false, workers := p.workers.map Worker.woken }
      else none

def step : Event α → Option (Pool α)
  | .push a =>
      if p.stopping then none
      else some { p with
        queue := p.queue ++ [a]
        accepted := p.accepted ++ [a]
        signals := p.signals + 1 }
  | .stop => some { p with stopping := true, broadcast := true }
  | .wake i =>
      match p.workers[i]? with
      | some .asleep => some { p with workers := p.workers.set i .testing }
      | _ => none
  | .restart n =>
      -- all workers have ended, and have been joined
      if p.stopping ∧ ¬ p.broadcast ∧ p.workers.all (· matches .exited) ∧ 0 < n then
        some { p with stopping := false, workers := List.replicate n .testing }
      else none
  | .move m => move p m

/-! ### What a move is -/

variable {p p' : Pool α}

/-- The moves, one by one. -/
inductive Moved (p : Pool α) : Move → Pool α → Prop
  | unheard (h : 0 < p.signals) (hasleep : .asleep ∉ p.workers) :
      Moved p (.signal none) { p with signals := p.signals - 1 }
  | signal {i : ℕ} (h : 0 < p.signals) (hi : p.workers[i]? = some .asleep) :
      Moved p (.signal (some i))
        { p with signals := p.signals - 1, workers := p.workers.set i .testing }
  | take {i : ℕ} {a : α} {rest : List α} (hi : p.workers[i]? = some .testing)
      (hqueue : p.queue = a :: rest) :
      Moved p (.test i)
        { p with
          queue := rest
          workers := p.workers.set i (.busy a)
          started := p.started ++ [a] }
  | exit {i : ℕ} (hi : p.workers[i]? = some .testing) (hqueue : p.queue = [])
      (h : p.stopping = true) :
      Moved p (.test i) { p with workers := p.workers.set i .exited }
  | sleep {i : ℕ} (hi : p.workers[i]? = some .testing) (hqueue : p.queue = [])
      (h : p.stopping = false) :
      Moved p (.test i) { p with workers := p.workers.set i .asleep }
  | finish {i : ℕ} {a : α} (hi : p.workers[i]? = some (.busy a)) :
      Moved p (.finish i)
        { p with workers := p.workers.set i .finishing, finished := p.finished ++ [a] }
  | back {i : ℕ} (hi : p.workers[i]? = some .finishing) :
      Moved p (.back i) { p with workers := p.workers.set i .testing }
  | broadcast (h : p.broadcast = true) :
      Moved p .broadcast { p with broadcast := false, workers := p.workers.map Worker.woken }

theorem any_isAsleep (l : List (Worker α)) : l.any Worker.isAsleep = true ↔ .asleep ∈ l := by
  rw [List.any_eq_true]
  constructor
  · rintro ⟨w, hw, hasleep⟩
    cases w with
    | asleep => exact hw
    | _ => cases hasleep
  · intro h
    exact ⟨.asleep, h, rfl⟩

theorem moved_of_move {m : Move} (h : move p m = some p') : Moved p m p' := by
  cases m with
  | signal i =>
      cases i with
      | none =>
          rw [move] at h
          split_ifs at h with hnone
          obtain rfl := Option.some.inj h
          rw [not_or, any_isAsleep] at hnone
          exact .unheard (Nat.pos_of_ne_zero hnone.1) hnone.2
      | some i =>
          rw [move] at h
          split at h
          · next hi =>
              split_ifs at h with hzero
              obtain rfl := Option.some.inj h
              exact .signal (Nat.pos_of_ne_zero hzero) hi
          · cases h
  | test i =>
      rw [move] at h
      split at h
      · next hi =>
          split at h
          · next a rest hqueue =>
              obtain rfl := Option.some.inj h
              exact .take hi hqueue
          · next hqueue =>
              by_cases hstop : p.stopping = true
              · rw [if_pos hstop] at h
                obtain rfl := Option.some.inj h
                exact .exit hi hqueue hstop
              · rw [if_neg hstop] at h
                obtain rfl := Option.some.inj h
                exact .sleep hi hqueue (Bool.eq_false_iff.2 hstop)
      · cases h
  | finish i =>
      rw [move] at h
      split at h
      · next a hi =>
          obtain rfl := Option.some.inj h
          exact .finish hi
      · cases h
  | back i =>
      rw [move] at h
      split at h
      · next hi =>
          obtain rfl := Option.some.inj h
          exact .back hi
      · cases h
  | broadcast =>
      rw [move] at h
      split_ifs at h with hb
      obtain rfl := Option.some.inj h
      exact .broadcast hb

/-! ### The invariant -/

/-- **What every step keeps.** -/
structure Inv (p : Pool α) : Prop where
  /-- Tasks are begun in the order in which they came. -/
  order : p.accepted = p.started ++ p.queue
  /-- What has been begun is done, or a worker is at it. -/
  once : p.started.Perm (p.finished ++ p.workers.filterMap Worker.task)
  /-- If a worker sleeps, somebody is about to see to every task. -/
  awake : .asleep ∈ p.workers → p.queue.length ≤ p.signals + p.workers.countP Worker.isTesting
  told : p.stopping = true → .asleep ∈ p.workers → p.broadcast = true
  gone : .exited ∈ p.workers → p.stopping = true ∧ p.queue = []
  heard : p.broadcast = true → p.stopping = true
  manned : p.workers ≠ []

theorem mem_of_mem_set {l : List (Worker α)} {i : ℕ} {w w' : Worker α} (h : w ∈ l.set i w')
    (hne : w ≠ w') : w ∈ l := by
  rcases mem_set_cases h with heq | ⟨j, -, hj⟩
  · exact absurd heq hne
  · exact mem_of_getElem? hj

theorem Inv.set_ne_nil {i : ℕ} {w : Worker α} (hp : Inv p) : p.workers.set i w ≠ [] := by
  rw [Ne, List.set_eq_nil_iff]
  exact hp.manned

theorem filterMap_task_replicate (n : ℕ) :
    (List.replicate n (.testing : Worker α)).filterMap Worker.task = [] := by
  refine List.filterMap_eq_nil_iff.2 fun w hw => ?_
  rw [List.eq_of_mem_replicate hw]
  rfl

theorem inv_new {n : ℕ} (h : 0 < n) : Inv (Pool.new n : Pool α) where
  order := rfl
  once := by rw [Pool.new, filterMap_task_replicate, List.append_nil]
  awake := fun hasleep => absurd (List.eq_of_mem_replicate hasleep) (by simp)
  told := fun hstop => absurd hstop (by simp [Pool.new])
  gone := fun hexited => absurd (List.eq_of_mem_replicate hexited) (by simp)
  heard := fun h => absurd h (by simp [Pool.new])
  manned := fun h => by
    have hlen := congrArg List.length h
    rw [Pool.new, List.length_replicate, List.length_nil] at hlen
    omega

theorem filterMap_task_set {l : List (Worker α)} {i : ℕ} {w w' : Worker α} (hi : l[i]? = some w)
    (h : w.task = none) (h' : w'.task = none) :
    ((l.set i w').filterMap Worker.task).Perm (l.filterMap Worker.task) := by
  have hperm := filterMap_set_perm (b := w') Worker.task hi
  rwa [h, h', Option.toList_none, List.nil_append, List.nil_append] at hperm

theorem filterMap_task_woken (l : List (Worker α)) :
    (l.map Worker.woken).filterMap Worker.task = l.filterMap Worker.task := by
  rw [List.filterMap_map]
  refine List.filterMap_congr fun w _ => ?_
  cases w <;> rfl

theorem asleep_not_mem_woken (l : List (Worker α)) : .asleep ∉ l.map Worker.woken := by
  intro h
  obtain ⟨w, -, hw⟩ := List.mem_map.1 h
  cases w <;> cases hw

theorem exited_of_mem_woken {l : List (Worker α)} (h : .exited ∈ l.map Worker.woken) :
    .exited ∈ l := by
  obtain ⟨w, hw, heq⟩ := List.mem_map.1 h
  cases w with
  | exited => exact hw
  | _ => cases heq

/-- A worker that has no task wakes up. -/
theorem Inv.wake {i : ℕ} {w : Worker α} (hp : Inv p) (hi : p.workers[i]? = some w)
    (htask : w.task = none) (htesting : w.isTesting = false) {k : ℕ}
    (hk : p.signals ≤ k + 1) :
    Inv { p with signals := k, workers := p.workers.set i .testing } where
  order := hp.order
  once := hp.once.trans ((filterMap_task_set hi htask rfl).symm.append_left _)
  awake h := by
    have hnew : (.testing : Worker α).isTesting = true := rfl
    have hcount := countP_set_add (b := .testing) Worker.isTesting hi
    simp only [htesting, hnew, Bool.false_eq_true, if_false, if_true] at hcount
    have hold := hp.awake (mem_of_mem_set h (by simp))
    dsimp only
    omega
  told hstop h := hp.told hstop (mem_of_mem_set h (by simp))
  gone h := hp.gone (mem_of_mem_set h (by simp))
  heard := hp.heard
  manned := hp.set_ne_nil

/-- **A move keeps the invariant.** -/
theorem Inv.move {m : Move} (hp : Inv p) (h : Workers.move p m = some p') : Inv p' := by
  cases moved_of_move h with
  | unheard hsignals hasleep =>
      exact ⟨hp.order, hp.once, fun h => absurd h hasleep, hp.told, hp.gone, hp.heard, hp.manned⟩
  | signal hsignals hi => exact hp.wake hi rfl rfl (by omega)
  | back hi => exact hp.wake hi rfl rfl (Nat.le_succ _)
  | @take i a rest hi hqueue =>
      have hcount := countP_set_add (b := .busy a) Worker.isTesting hi
      simp only [Worker.isTesting, Bool.false_eq_true, if_false, if_true] at hcount
      have hperm := filterMap_set_perm (b := .busy a) Worker.task hi
      refine ⟨?_, ?_, fun h => ?_, fun hstop h => hp.told hstop (mem_of_mem_set h (by simp)),
        fun h => ?_, hp.heard, hp.set_ne_nil⟩
      · rw [hp.order, hqueue, List.append_assoc, List.singleton_append]
      · refine (hp.once.append_right [a]).trans ?_
        rw [List.append_assoc]
        exact (List.perm_append_comm.trans hperm.symm).append_left _
      · have hold := hp.awake (mem_of_mem_set h (by simp))
        rw [hqueue, List.length_cons] at hold
        dsimp only
        omega
      · have hnil := (hp.gone (mem_of_mem_set h (by simp))).2
        rw [hqueue] at hnil
        cases hnil
  | @exit i hi hqueue hstop =>
      refine ⟨hp.order, hp.once.trans ((filterMap_task_set hi rfl rfl).symm.append_left _),
        fun _ => ?_, fun hstop h => hp.told hstop (mem_of_mem_set h (by simp)),
        fun _ => ⟨hstop, hqueue⟩, hp.heard, hp.set_ne_nil⟩
      dsimp only
      rw [hqueue]
      exact Nat.zero_le _
  | @sleep i hi hqueue hstop =>
      refine ⟨hp.order, hp.once.trans ((filterMap_task_set hi rfl rfl).symm.append_left _),
        fun _ => ?_, fun h => ?_, fun h => hp.gone (mem_of_mem_set h (by simp)), hp.heard,
        hp.set_ne_nil⟩
      · dsimp only
        rw [hqueue]
        exact Nat.zero_le _
      · exact absurd (hstop.symm.trans h) (by simp)
  | @finish i a hi =>
      have hcount := countP_set_add (b := .finishing) Worker.isTesting hi
      simp only [Worker.isTesting, Bool.false_eq_true, if_false] at hcount
      have hperm := filterMap_set_perm (b := .finishing) Worker.task hi
      refine ⟨hp.order, ?_, fun h => ?_,
        fun hstop h => hp.told hstop (mem_of_mem_set h (by simp)),
        fun h => hp.gone (mem_of_mem_set h (by simp)), hp.heard, hp.set_ne_nil⟩
      · refine hp.once.trans ?_
        rw [List.append_assoc]
        exact hperm.symm.append_left _
      · have hold := hp.awake (mem_of_mem_set h (by simp))
        dsimp only
        omega
  | broadcast hb =>
      refine ⟨hp.order, ?_, fun h => absurd h (asleep_not_mem_woken _),
        fun _ h => absurd h (asleep_not_mem_woken _), fun h => hp.gone (exited_of_mem_woken h),
        fun h => absurd h (by simp), fun h => hp.manned (List.map_eq_nil_iff.1 h)⟩
      dsimp only
      rw [filterMap_task_woken]
      exact hp.once

theorem exited_of_restart {n : ℕ} (h : Workers.step p (.restart n) = some p') :
    (∀ w ∈ p.workers, w = .exited) ∧ p.broadcast = false ∧ 0 < n ∧
      p' = { p with stopping := false, workers := List.replicate n .testing } := by
  rw [Workers.step] at h
  split_ifs at h with hcond
  obtain rfl := Option.some.inj h
  obtain ⟨-, hbroadcast, hexited, hpos⟩ := hcond
  refine ⟨fun w hw => ?_, Bool.eq_false_iff.2 hbroadcast, hpos, rfl⟩
  have hmatch := List.all_eq_true.1 hexited w hw
  cases w with
  | exited => rfl
  | _ => cases hmatch

/-- **A step keeps the invariant.** -/
theorem Inv.step {e : Event α} (hp : Inv p) (h : Workers.step p e = some p') : Inv p' := by
  cases e with
  | push a =>
      rw [Workers.step] at h
      split_ifs at h with hstop
      obtain rfl := Option.some.inj h
      refine ⟨?_, hp.once, fun hasleep => ?_, hp.told, fun hexited => ?_, hp.heard, hp.manned⟩
      · dsimp only
        rw [hp.order, List.append_assoc]
      · have hold := hp.awake hasleep
        simp only [List.length_append, List.length_singleton]
        omega
      · exact absurd (hp.gone hexited).1 hstop
  | stop =>
      obtain rfl := Option.some.inj h
      exact ⟨hp.order, hp.once, hp.awake, fun _ _ => rfl, fun h => ⟨rfl, (hp.gone h).2⟩,
        fun _ => rfl, hp.manned⟩
  | wake i =>
      rw [Workers.step] at h
      split at h
      · next hi =>
          obtain rfl := Option.some.inj h
          exact hp.wake hi rfl rfl (Nat.le_succ _)
      · cases h
  | restart n =>
      obtain ⟨hall, hbroadcast, hpos, rfl⟩ := exited_of_restart h
      have hnone : p.workers.filterMap Worker.task = [] :=
        List.filterMap_eq_nil_iff.2 fun w hw => by rw [hall w hw]; rfl
      refine ⟨hp.order, ?_, fun h => absurd (List.eq_of_mem_replicate h) (by simp),
        fun h => absurd h (by simp), fun h => absurd (List.eq_of_mem_replicate h) (by simp),
        fun h => ?_, (inv_new (α := α) hpos).manned⟩
      · have honce := hp.once
        rw [hnone, List.append_nil] at honce
        dsimp only
        rwa [filterMap_task_replicate, List.append_nil]
      · exact absurd (hbroadcast.symm.trans h) (by simp)
  | move m => exact hp.move h

/-! ### Where nothing moves -/

/-- **Where nothing moves, everything is done.** -/
theorem Inv.done_of_stuck (hp : Inv p) (h : Stuck Workers.move p) :
    p.queue = [] ∧ p.finished.Perm p.accepted ∧
      ∀ w ∈ p.workers, w = .asleep ∨ w = .exited := by
  have hworkers : ∀ w ∈ p.workers, w = .asleep ∨ w = .exited := by
    intro w hw
    obtain ⟨i, hi⟩ := List.mem_iff_getElem?.1 hw
    cases w with
    | asleep => exact Or.inl rfl
    | exited => exact Or.inr rfl
    | testing =>
        have hmove := h (.test i)
        rw [Workers.move, hi] at hmove
        cases hq : p.queue with
        | nil => simp [hq] at hmove
        | cons a rest => simp [hq] at hmove
    | busy a =>
        have hmove := h (.finish i)
        rw [Workers.move, hi] at hmove
        cases hmove
    | finishing =>
        have hmove := h (.back i)
        rw [Workers.move, hi] at hmove
        cases hmove
  have htesting : p.workers.countP Worker.isTesting = 0 := by
    refine List.countP_eq_zero.2 fun w hw => ?_
    rcases hworkers w hw with rfl | rfl
    · exact Bool.false_ne_true
    · exact Bool.false_ne_true
  have hnone : p.workers.filterMap Worker.task = [] := by
    refine List.filterMap_eq_nil_iff.2 fun w hw => ?_
    rcases hworkers w hw with rfl | rfl
    · rfl
    · rfl
  have hqueue : p.queue = [] := by
    obtain ⟨w, hw⟩ := List.exists_mem_of_ne_nil _ hp.manned
    rcases hworkers w hw with rfl | rfl
    · -- a worker that sleeps would be woken
      have hsignals : p.signals = 0 := by
        by_contra hpos
        obtain ⟨i, hi⟩ := List.mem_iff_getElem?.1 hw
        have hmove := h (.signal (some i))
        rw [Workers.move, hi] at hmove
        simp [hpos] at hmove
      have hlen := hp.awake hw
      rw [hsignals, htesting] at hlen
      exact List.eq_nil_of_length_eq_zero (Nat.le_zero.1 hlen)
    · exact (hp.gone hw).2
  have honce := hp.once
  rw [hnone, List.append_nil] at honce
  have horder := hp.order
  rw [hqueue, List.append_nil] at horder
  exact ⟨hqueue, horder ▸ honce.symm, hworkers⟩

/-- How many moves a worker can make without a task. -/
def Worker.weight : Worker α → ℕ
  | .testing => 2
  | .asleep => 1
  | .busy _ => 4
  | .finishing => 3
  | .exited => 0

/-- A bound on the moves that are to come. -/
def Pool.weight (p : Pool α) : ℕ :=
  3 * p.queue.length + (p.workers.map Worker.weight).sum + 2 * p.signals +
    (if p.broadcast then p.workers.length + 1 else 0)

theorem weight_woken_le (w : Worker α) : w.woken.weight ≤ w.weight + 1 := by
  cases w with
  | asleep => exact Nat.le_refl _
  | _ => exact Nat.le_succ _

theorem sum_weight_woken_le (l : List (Worker α)) :
    ((l.map Worker.woken).map Worker.weight).sum ≤ (l.map Worker.weight).sum + l.length := by
  induction l with
  | nil => exact Nat.le_refl _
  | cons w l ih =>
      have hw := weight_woken_le w
      simp only [List.map_cons, List.sum_cons, List.length_cons]
      omega

/-- **Every move brings the end closer.** -/
theorem weight_move_lt {m : Move} (h : move p m = some p') : p'.weight < p.weight := by
  have hset {i : ℕ} {w v : Worker α} (hi : p.workers[i]? = some w) :=
    sum_map_set (f := Worker.weight) (b := v) hi
  cases moved_of_move h with
  | unheard hsignals hasleep =>
      simp only [Pool.weight]
      omega
  | signal hsignals hi =>
      have hsum := hset hi (v := .testing)
      simp only [Pool.weight, Worker.weight, List.length_set] at hsum ⊢
      omega
  | @take i a rest hi hqueue =>
      have hsum := hset hi (v := .busy a)
      simp only [Pool.weight, Worker.weight, List.length_set, hqueue, List.length_cons] at hsum ⊢
      omega
  | exit hi hqueue hstop =>
      have hsum := hset hi (v := .exited)
      simp only [Pool.weight, Worker.weight, List.length_set] at hsum ⊢
      omega
  | sleep hi hqueue hstop =>
      have hsum := hset hi (v := .asleep)
      simp only [Pool.weight, Worker.weight, List.length_set] at hsum ⊢
      omega
  | finish hi =>
      have hsum := hset hi (v := .finishing)
      simp only [Pool.weight, Worker.weight, List.length_set] at hsum ⊢
      omega
  | back hi =>
      have hsum := hset hi (v := .testing)
      simp only [Pool.weight, Worker.weight, List.length_set] at hsum ⊢
      omega
  | broadcast hb =>
      have hsum := sum_weight_woken_le p.workers
      simp only [Pool.weight, hb, List.length_map, if_true, Bool.false_eq_true, if_false]
      omega

end Transition.Workers
