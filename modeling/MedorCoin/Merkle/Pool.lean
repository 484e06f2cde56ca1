/-
**The Merkle root on a thread pool.**

Where a level has more than 1024 nodes, the node hands one task for each pair to a pool and then
waits for them in turn.  The queue of the pool is bounded: a task that finds it full is dropped, and
the future that the caller gets for it is invalid, so that waiting for it throws.

`Merkle.Roots` takes the pool for an order of the tasks, or a refusal.  Here it is at work: workers
take tasks from the queue and finish them in any order, while the caller submits and waits, and
other threads hand it tasks of their own.

Main definitions:

* `Merkle.Pool`, `Merkle.Fold.State`, `Merkle.Fold.step` — the pool, and the fold on it;
* `Merkle.Fold.Returns` — what the fold on a pool is for.

Main results:

* `Merkle.Fold.length_le_of_run` — **the fold comes to an end**, whatever the schedule;
* `Merkle.Fold.Sound.step`, `Merkle.Fold.Sound.returned_of_stuck` — with a worker and room for all
  tasks, no task is refused, and the caller does not wait for ever;
* `Merkle.Fold.not_returns_of_no_worker`, `Merkle.Fold.not_returns_of_full` — without them it goes
  wrong;
* `Merkle.Fold.returns_iff` — when the fold on a pool returns the root.
-/

import MedorCoin.Merkle.Roots
import MedorCoin.Transition.Run

set_option autoImplicit false

namespace Merkle

open Js (Bytes)
open Transition

/-- A pool: its workers, the bound of its queue, and how many tasks other threads hand to it in the
meantime. -/
structure Pool where
  workers : ℕ
  maxDepth : ℕ
  others : ℕ

namespace Fold

/-- A task: of another thread, or the turn for the pair at `i`. -/
inductive Job
  | other
  | turn (i : ℕ)

/-- The turn of a task. -/
def Job.turn? : Job → Option ℕ
  | .other => none
  | .turn i => some i

/-- Where the caller is: on a level, with what it has to submit and the futures it has to wait for,
of which an invalid one stands for no task; or done. -/
inductive Caller
  | level (layer nextLayer : List UInt256) (todo : List ℕ) (futures : List (Option ℕ))
  | returned (root : UInt256)
  | failed (e : FutureError)

/-- The caller, the queue and the workers of the pool, the turns whose futures are ready, and how
many tasks other threads still hand to the pool. -/
structure State where
  caller : Caller
  queue : List Job
  running : List Job
  idle : ℕ
  ready : List ℕ
  others : ℕ

/-- What can happen: the caller submits its next task or gets its next future, another thread
submits a task, a worker takes one, a worker finishes the one at `k`. -/
inductive Event
  | submit
  | get
  | other
  | take
  | finish (k : ℕ)

section Steps

variable (sha256 : Bytes → UInt256)

theorem length_foldPairs (layer : List UInt256) (turns : List ℕ) :
    (foldPairs sha256 layer turns).length = (layer.length + 1) / 2 := by
  induction turns using List.reverseRecOn with
  | nil => exact List.length_replicate
  | append_singleton turns i ih =>
      rw [foldPairs, List.foldl_append, List.foldl_cons, List.foldl_nil, List.length_set]
      exact ih

/-- The head of `while (layer.size() > 1)`, through the levels that the caller folds itself. -/
def enter (layer : List UInt256) : Caller :=
  if 1 < layer.length then
    if 1024 < layer.length then
      .level layer (List.replicate ((layer.length + 1) / 2) UInt256.zero) (indices layer.length) []
    else enter (foldPairs sha256 layer (indices layer.length))
  else .returned (layer.getD 0 UInt256.zero)
termination_by layer.length
decreasing_by
  rw [length_foldPairs]
  omega

def start (pool : Pool) (leaves : List UInt256) : State where
  caller := enter sha256 leaves
  queue := []
  running := []
  idle := pool.workers
  ready := []
  others := pool.others

/-- What the caller and the pool do. -/
def step (maxDepth : ℕ) (s : State) : Event → Option State
  | .submit =>
      match s.caller with
      | .level layer nextLayer (i :: todo) futures =>
          if maxDepth ≤ s.queue.length then
            some { s with caller := .level layer nextLayer todo (futures ++ [none]) }
          else
            some { s with
              caller := .level layer nextLayer todo (futures ++ [some i])
              queue := s.queue ++ [.turn i] }
      | _ => none
  | .get =>
      match s.caller with
      | .level layer nextLayer [] (some i :: futures) =>
          if i ∈ s.ready then some { s with caller := .level layer nextLayer [] futures } else none
      | .level _ _ [] (none :: _) => some { s with caller := .failed .noState }
      | .level _ nextLayer [] [] => some { s with caller := enter sha256 nextLayer, ready := [] }
      | _ => none
  | .other =>
      if 0 < s.others then
        if maxDepth ≤ s.queue.length then some { s with others := s.others - 1 }
        else some { s with others := s.others - 1, queue := s.queue ++ [.other] }
      else none
  | .take =>
      match s.idle, s.queue with
      | idle + 1, job :: queue =>
          some { s with idle := idle, queue := queue, running := s.running ++ [job] }
      | _, _ => none
  | .finish k =>
      match s.running[k]?, s.caller with
      | some (.turn i), .level layer nextLayer todo futures =>
          some { s with
            caller := .level layer (nextLayer.set (i / 2) (foldPair sha256 layer i)) todo futures
            running := s.running.eraseIdx k
            idle := s.idle + 1
            ready := s.ready ++ [i] }
      | some _, _ => some { s with running := s.running.eraseIdx k, idle := s.idle + 1 }
      | none, _ => none

/-- What a step can do. -/
inductive Moves (maxDepth : ℕ) (s : State) : State → Prop
  | queued {layer nextLayer : List UInt256} {i : ℕ} {todo : List ℕ} {futures : List (Option ℕ)}
      (hcaller : s.caller = .level layer nextLayer (i :: todo) futures)
      (hroom : s.queue.length < maxDepth) :
      Moves maxDepth s { s with
        caller := .level layer nextLayer todo (futures ++ [some i]), queue := s.queue ++ [.turn i] }
  | refused {layer nextLayer : List UInt256} {i : ℕ} {todo : List ℕ} {futures : List (Option ℕ)}
      (hcaller : s.caller = .level layer nextLayer (i :: todo) futures)
      (hfull : maxDepth ≤ s.queue.length) :
      Moves maxDepth s { s with caller := .level layer nextLayer todo (futures ++ [none]) }
  | got {layer nextLayer : List UInt256} {i : ℕ} {futures : List (Option ℕ)}
      (hcaller : s.caller = .level layer nextLayer [] (some i :: futures)) (hready : i ∈ s.ready) :
      Moves maxDepth s { s with caller := .level layer nextLayer [] futures }
  | threw {layer nextLayer : List UInt256} {futures : List (Option ℕ)}
      (hcaller : s.caller = .level layer nextLayer [] (none :: futures)) :
      Moves maxDepth s { s with caller := .failed .noState }
  | folded {layer nextLayer : List UInt256} (hcaller : s.caller = .level layer nextLayer [] []) :
      Moves maxDepth s { s with caller := enter sha256 nextLayer, ready := [] }
  | other (hothers : 0 < s.others) (hroom : s.queue.length < maxDepth) :
      Moves maxDepth s { s with others := s.others - 1, queue := s.queue ++ [.other] }
  | otherRefused (hothers : 0 < s.others) (hfull : maxDepth ≤ s.queue.length) :
      Moves maxDepth s { s with others := s.others - 1 }
  | took {idle : ℕ} {job : Job} {queue : List Job} (hidle : s.idle = idle + 1)
      (hqueue : s.queue = job :: queue) :
      Moves maxDepth s { s with idle := idle, queue := queue, running := s.running ++ [job] }
  | finished {layer nextLayer : List UInt256} {todo : List ℕ} {futures : List (Option ℕ)} {i k : ℕ}
      (hcaller : s.caller = .level layer nextLayer todo futures)
      (hrunning : s.running[k]? = some (.turn i)) :
      Moves maxDepth s { s with
        caller := .level layer (nextLayer.set (i / 2) (foldPair sha256 layer i)) todo futures
        running := s.running.eraseIdx k
        idle := s.idle + 1
        ready := s.ready ++ [i] }
  | finishedOther {k : ℕ} {job : Job} (hrunning : s.running[k]? = some job)
      (hjob : ∀ i layer nextLayer todo futures, job = .turn i →
        s.caller ≠ .level layer nextLayer todo futures) :
      Moves maxDepth s { s with running := s.running.eraseIdx k, idle := s.idle + 1 }

theorem moves_of_step {maxDepth : ℕ} {s s' : State} {event : Event}
    (h : step sha256 maxDepth s event = some s') : Moves sha256 maxDepth s s' := by
  cases event with
  | submit =>
      simp only [step] at h
      split at h
      · next hcaller =>
          split at h
          · next hfull =>
              cases h
              exact .refused hcaller hfull
          · next hroom =>
              cases h
              exact .queued hcaller (Nat.lt_of_not_le hroom)
      · cases h
  | get =>
      simp only [step] at h
      split at h
      · next hcaller =>
          split at h
          · next hready =>
              cases h
              exact .got hcaller hready
          · cases h
      · next hcaller =>
          cases h
          exact .threw hcaller
      · next hcaller =>
          cases h
          exact .folded hcaller
      · cases h
  | other =>
      simp only [step] at h
      split at h
      · next hothers =>
          split at h
          · next hfull =>
              cases h
              exact .otherRefused hothers hfull
          · next hroom =>
              cases h
              exact .other hothers (Nat.lt_of_not_le hroom)
      · cases h
  | take =>
      simp only [step] at h
      split at h
      · next hidle hqueue =>
          cases h
          exact .took hidle hqueue
      · cases h
  | finish k =>
      simp only [step] at h
      split at h
      · next hrunning hcaller =>
          cases h
          exact .finished hcaller hrunning
      · next job hrunning hjob =>
          cases h
          exact .finishedOther hrunning fun i layer nextLayer todo futures hturn hcaller =>
            hjob i layer nextLayer todo futures hcaller hturn
      · cases h

/-! ### What the fold is for -/

/-- **The fold on the pool returns the root:** it comes to an end, and whatever the schedule, it
does not fail, it returns nothing but what the fold without a pool returns, and it does return. -/
def Returns (pool : Pool) (leaves : List UInt256) : Prop :=
  (∃ n, ∀ events s, run (step sha256 pool.maxDepth) (start sha256 pool leaves) events = some s →
      events.length ≤ n) ∧
    ∀ events s, run (step sha256 pool.maxDepth) (start sha256 pool leaves) events = some s →
      (∀ e, s.caller ≠ .failed e) ∧
      (∀ root, s.caller = .returned root → computeIterative sha256 leaves none = .ok root) ∧
      (Stuck (step sha256 pool.maxDepth) s → ∃ root, s.caller = .returned root)

/-! ### The fold comes to an end -/

/-- What is left to do for the caller. -/
def Caller.weight : Caller → ℕ
  | .level _ nextLayer todo futures =>
      4 * todo.length + futures.length + 5 * nextLayer.length + 1
  | .returned _ => 0
  | .failed _ => 0

/-- What is left to do: a task has to be taken and finished, and one of another thread has to be
submitted before. -/
def State.weight (s : State) : ℕ :=
  s.caller.weight + 2 * s.queue.length + s.running.length + 3 * s.others

theorem enter_of_lt {layer : List UInt256} (h : 1024 < layer.length) :
    enter sha256 layer = .level layer
      (List.replicate ((layer.length + 1) / 2) UInt256.zero) (indices layer.length) [] := by
  rw [enter, if_pos (by omega), if_pos h]

theorem enter_of_le {layer : List UInt256} (h : layer.length ≤ 1024) :
    enter sha256 layer = .returned ((fold (node sha256) layer).getD 0 UInt256.zero) := by
  induction layer using fold.induct (node sha256) with
  | case1 layer hlt ih =>
      have hpairs := foldPairs_eq sha256 (List.Perm.refl (indices layer.length))
      rw [enter, if_pos hlt, if_neg (by omega), hpairs, fold_of_lt _ hlt]
      exact ih (by rw [length_nextLevel]; omega)
  | case2 layer hle => rw [enter, if_neg hle, fold_of_le _ (by omega)]

theorem length_indices (n : ℕ) : (indices n).length = (n + 1) / 2 := by
  simp [indices]

theorem weight_enter_le (layer : List UInt256) :
    (enter sha256 layer).weight ≤ 5 * layer.length := by
  rcases Nat.lt_or_ge 1024 layer.length with hlt | hle
  · rw [enter_of_lt sha256 hlt, Caller.weight, length_indices, List.length_replicate,
      List.length_nil]
    omega
  · rw [enter_of_le sha256 hle, Caller.weight]
    exact Nat.zero_le _

theorem weight_step_lt {maxDepth : ℕ} {s s' : State} {event : Event}
    (h : step sha256 maxDepth s event = some s') : s'.weight < s.weight := by
  cases moves_of_step sha256 h with
  | queued hcaller => simp [State.weight, hcaller, Caller.weight]; omega
  | refused hcaller => simp [State.weight, hcaller, Caller.weight]; omega
  | got hcaller => simp [State.weight, hcaller, Caller.weight]
  | threw hcaller => simp [State.weight, hcaller, Caller.weight]
  | @folded layer nextLayer hcaller =>
      have hle := weight_enter_le sha256 nextLayer
      have hweight : s.caller.weight = 5 * nextLayer.length + 1 := by
        rw [hcaller]
        simp [Caller.weight]
      simp only [State.weight, hweight]
      omega
  | other hothers => simp [State.weight]; omega
  | otherRefused hothers => simp [State.weight]; omega
  | took _ hqueue => simp [State.weight, hqueue]; omega
  | finished hcaller hrunning =>
      have hk := (List.getElem?_eq_some_iff.1 hrunning).1
      simp [State.weight, hcaller, Caller.weight, List.length_eraseIdx_of_lt hk]
      omega
  | finishedOther hrunning =>
      have hk := (List.getElem?_eq_some_iff.1 hrunning).1
      simp [State.weight, List.length_eraseIdx_of_lt hk]
      omega

/-- **The fold comes to an end,** whatever the schedule. -/
theorem length_le_of_run {maxDepth : ℕ} {s s' : State} {events : List Event}
    (h : run (step sha256 maxDepth) s events = some s') : events.length ≤ s.weight := by
  have hle := length_add_le (I := fun _ => True) (μ := State.weight)
    (fun _ _ _ _ hstep => ⟨trivial, weight_step_lt sha256 hstep⟩) trivial h
  omega

/-! ### With a worker and room for all tasks -/

/-- The turns of some tasks. -/
def turns (jobs : List Job) : List ℕ := jobs.filterMap Job.turn?

@[simp] theorem turns_nil : turns [] = [] := rfl

@[simp] theorem turns_append (jobs jobs' : List Job) :
    turns (jobs ++ jobs') = turns jobs ++ turns jobs' := List.filterMap_append

@[simp] theorem turns_other_cons (jobs : List Job) : turns (.other :: jobs) = turns jobs := rfl

@[simp] theorem turns_turn_cons (i : ℕ) (jobs : List Job) :
    turns (.turn i :: jobs) = i :: turns jobs := rfl

theorem perm_eraseIdx {running : List Job} {k : ℕ} {job : Job} (h : running[k]? = some job) :
    (turns running).Perm (turns (job :: running.eraseIdx k)) := by
  obtain ⟨hk, rfl⟩ := List.getElem?_eq_some_iff.1 h
  exact (List.getElem_cons_eraseIdx_perm hk).symm.filterMap _

theorem nodup_indices (n : ℕ) : (indices n).Nodup :=
  List.Nodup.map (fun _ _ h => by simpa using h) List.nodup_range

/-- **A level of the fold, with room in the queue:** each turn is waiting, being taken, finished or
still to be submitted; no future is invalid, and those of the turns that are not finished are still
waited for; and however many tasks the other threads submit, there is room for those of the
level. -/
structure SoundLevel (maxDepth : ℕ) (leaves layer nextLayer : List UInt256) (todo : List ℕ)
    (futures : List (Option ℕ)) (s : State) : Prop where
  lt : 1024 < layer.length
  le : layer.length ≤ leaves.length
  fold_eq : fold (node sha256) layer = fold (node sha256) leaves
  turns_perm :
    (turns s.queue ++ turns s.running ++ s.ready ++ todo).Perm (indices layer.length)
  nextLayer_eq : nextLayer = foldPairs sha256 layer s.ready
  valid : ∀ future ∈ futures, ∃ i, future = some i ∧
    i ∈ turns s.queue ++ turns s.running ++ s.ready
  awaited : ∀ i ∈ turns s.queue ++ turns s.running, some i ∈ futures
  room : s.others + s.queue.length + (layer.length + 1) / 2 ≤ maxDepth + (turns s.queue).length

/-- **All is well with the fold:** no worker is lost, the caller has not failed, and what it has
returned is the root. -/
structure Sound (pool : Pool) (leaves : List UInt256) (s : State) : Prop where
  workers : s.idle + s.running.length = pool.workers
  not_failed : ∀ e, s.caller ≠ .failed e
  returned : ∀ root, s.caller = .returned root →
    root = (fold (node sha256) leaves).getD 0 UInt256.zero
  level : ∀ layer nextLayer todo futures, s.caller = .level layer nextLayer todo futures →
    SoundLevel sha256 pool.maxDepth leaves layer nextLayer todo futures s

variable {pool : Pool} {leaves : List UInt256} {s s' : State}

theorem sound_enter {layer : List UInt256} (hlayer : layer.length ≤ leaves.length)
    (hfold : fold (node sha256) layer = fold (node sha256) leaves)
    (hworkers : s.idle + s.running.length = pool.workers) (hqueue : turns s.queue = [])
    (hrunning : turns s.running = [])
    (hroom : layer.length ≤ 1024 ∨
      s.others + s.queue.length + (layer.length + 1) / 2 ≤ pool.maxDepth) :
    Sound sha256 pool leaves { s with caller := enter sha256 layer, ready := [] } := by
  rcases Nat.lt_or_ge 1024 layer.length with hlt | hle
  · rw [enter_of_lt sha256 hlt]
    refine ⟨hworkers, nofun, nofun, fun layer' nextLayer todo futures hcaller => ?_⟩
    cases hcaller
    exact {
      lt := hlt
      le := hlayer
      fold_eq := hfold
      turns_perm := by
        simp only [hqueue, hrunning, List.nil_append]
        exact List.Perm.refl _
      nextLayer_eq := rfl
      valid := nofun
      awaited := by
        simp only [hqueue, hrunning, List.nil_append]
        exact nofun
      room := by
        simp only [hqueue, List.length_nil]
        omega }
  · rw [enter_of_le sha256 hle]
    refine ⟨hworkers, nofun, fun root hcaller => ?_, nofun⟩
    cases hcaller
    rw [hfold]

section Level

variable {maxDepth : ℕ} {layer nextLayer : List UInt256} {todo : List ℕ}
  {futures : List (Option ℕ)}

theorem SoundLevel.of_perm (h : SoundLevel sha256 maxDepth leaves layer nextLayer todo futures s)
    (hperm : (turns s'.queue ++ turns s'.running).Perm (turns s.queue ++ turns s.running))
    (hready : s'.ready = s.ready)
    (hroom : s'.others + s'.queue.length + (layer.length + 1) / 2 ≤
      maxDepth + (turns s'.queue).length) :
    SoundLevel sha256 maxDepth leaves layer nextLayer todo futures s' where
  lt := h.lt
  le := h.le
  fold_eq := h.fold_eq
  turns_perm := by
    rw [hready]
    exact ((hperm.append_right _).append_right _).trans h.turns_perm
  nextLayer_eq := by rw [hready, h.nextLayer_eq]
  valid := by
    intro future hfuture
    obtain ⟨i, hi, hmem⟩ := h.valid future hfuture
    exact ⟨i, hi, hready ▸ (hperm.append_right _).mem_iff.2 hmem⟩
  awaited := fun i hi => h.awaited i (hperm.mem_iff.1 hi)
  room := hroom

theorem SoundLevel.length_queue_lt {i : ℕ}
    (h : SoundLevel sha256 maxDepth leaves layer nextLayer (i :: todo) futures s) :
    s.queue.length < maxDepth := by
  have hlength := h.turns_perm.length_eq
  have hroom := h.room
  simp only [List.length_append, List.length_cons, length_indices] at hlength
  omega

theorem SoundLevel.queued {i : ℕ}
    (h : SoundLevel sha256 maxDepth leaves layer nextLayer (i :: todo) futures s)
    (hs : s'.queue = s.queue ++ [.turn i] ∧ s'.running = s.running ∧ s'.ready = s.ready ∧
      s'.others = s.others) :
    SoundLevel sha256 maxDepth leaves layer nextLayer todo (futures ++ [some i]) s' := by
  obtain ⟨hqueue, hrunning, hready, hothers⟩ := hs
  have hturns : turns s'.queue = turns s.queue ++ [i] := by rw [hqueue]; simp
  exact {
    lt := h.lt
    le := h.le
    fold_eq := h.fold_eq
    turns_perm := by
      refine List.Perm.trans ?_ h.turns_perm
      rw [hturns, hrunning, hready, List.perm_iff_count]
      intro j
      simp only [List.count_append, List.count_cons, List.count_nil]
      omega
    nextLayer_eq := by rw [hready, h.nextLayer_eq]
    valid := by
      intro future hfuture
      rw [hturns, hrunning, hready]
      rcases List.mem_append.1 hfuture with hfuture | hfuture
      · obtain ⟨j, hj, hmem⟩ := h.valid future hfuture
        exact ⟨j, hj, by simp only [List.mem_append] at hmem ⊢; tauto⟩
      · exact ⟨i, List.mem_singleton.1 hfuture, by simp⟩
    awaited := by
      intro j hj
      rw [hturns, hrunning] at hj
      by_cases hi : j = i
      · simp [hi]
      · have hmem : j ∈ turns s.queue ++ turns s.running := by
          simp only [List.mem_append, List.mem_singleton] at hj ⊢
          tauto
        exact List.mem_append_left _ (h.awaited j hmem)
    room := by
      have hroom := h.room
      rw [hturns, hqueue, hothers]
      simp only [List.length_append, List.length_singleton]
      omega }

theorem SoundLevel.got {i : ℕ}
    (h : SoundLevel sha256 maxDepth leaves layer nextLayer todo (some i :: futures) s)
    (hi : i ∈ s.ready) (hs : s'.queue = s.queue ∧ s'.running = s.running ∧ s'.ready = s.ready ∧
      s'.others = s.others) :
    SoundLevel sha256 maxDepth leaves layer nextLayer todo futures s' := by
  obtain ⟨hqueue, hrunning, hready, hothers⟩ := hs
  have hnodup := h.turns_perm.nodup_iff.2 (nodup_indices _)
  have hnotmem : i ∉ turns s.queue ++ turns s.running := by
    intro hmem
    have hdisjoint := List.disjoint_of_nodup_append (List.Nodup.of_append_left hnodup)
    exact hdisjoint hmem hi
  exact {
    lt := h.lt
    le := h.le
    fold_eq := h.fold_eq
    turns_perm := by rw [hqueue, hrunning, hready]; exact h.turns_perm
    nextLayer_eq := by rw [hready, h.nextLayer_eq]
    valid := by
      rw [hqueue, hrunning, hready]
      exact fun future hfuture => h.valid future (List.mem_cons_of_mem _ hfuture)
    awaited := by
      intro j hj
      rw [hqueue, hrunning] at hj
      rcases List.mem_cons.1 (h.awaited j hj) with heq | hmem
      · exact absurd (Option.some.inj heq ▸ hj) hnotmem
      · exact hmem
    room := by rw [hqueue, hothers]; exact h.room }

theorem SoundLevel.finished {i k : ℕ}
    (h : SoundLevel sha256 maxDepth leaves layer nextLayer todo futures s)
    (hk : s.running[k]? = some (.turn i))
    (hs : s'.queue = s.queue ∧ s'.running = s.running.eraseIdx k ∧ s'.ready = s.ready ++ [i] ∧
      s'.others = s.others) :
    SoundLevel sha256 maxDepth leaves layer
      (nextLayer.set (i / 2) (foldPair sha256 layer i)) todo futures s' := by
  obtain ⟨hqueue, hrunning, hready, hothers⟩ := hs
  have hperm := perm_eraseIdx hk
  rw [turns_turn_cons, ← hrunning] at hperm
  have hall : (turns s'.queue ++ turns s'.running ++ s'.ready).Perm
      (turns s.queue ++ turns s.running ++ s.ready) := by
    rw [hqueue, hready, List.perm_iff_count]
    intro j
    have hcount := hperm.count_eq j
    simp only [List.count_append, List.count_cons, List.count_nil] at hcount ⊢
    omega
  exact {
    lt := h.lt
    le := h.le
    fold_eq := h.fold_eq
    turns_perm := (hall.append_right _).trans h.turns_perm
    nextLayer_eq := by
      rw [hready, h.nextLayer_eq, foldPairs, foldPairs, List.foldl_append]
      rfl
    valid := by
      intro future hfuture
      obtain ⟨j, hj, hmem⟩ := h.valid future hfuture
      exact ⟨j, hj, hall.mem_iff.2 hmem⟩
    awaited := by
      intro j hj
      refine h.awaited j ?_
      rw [hqueue] at hj
      rcases List.mem_append.1 hj with hj | hj
      · exact List.mem_append_left _ hj
      · exact List.mem_append_right _ (hperm.mem_iff.2 (List.mem_cons_of_mem _ hj))
    room := by rw [hqueue, hothers]; exact h.room }

theorem SoundLevel.folded (h : SoundLevel sha256 maxDepth leaves layer nextLayer [] [] s) :
    turns s.queue = [] ∧ turns s.running = [] ∧ nextLayer = nextLevel (node sha256) layer := by
  have hnone : turns s.queue ++ turns s.running = [] :=
    List.eq_nil_iff_forall_not_mem.2 fun i hi => absurd (h.awaited i hi) (List.not_mem_nil)
  have hperm := h.turns_perm
  rw [hnone, List.nil_append, List.append_nil] at hperm
  exact ⟨(List.append_eq_nil_iff.1 hnone).1, (List.append_eq_nil_iff.1 hnone).2,
    h.nextLayer_eq.trans (foldPairs_eq sha256 hperm)⟩

end Level

theorem Sound.of_pool (h : Sound sha256 pool leaves s) (hcaller : s'.caller = s.caller)
    (hworkers : s'.idle + s'.running.length = pool.workers)
    (hlevel : ∀ layer nextLayer todo futures, s.caller = .level layer nextLayer todo futures →
      SoundLevel sha256 pool.maxDepth leaves layer nextLayer todo futures s') :
    Sound sha256 pool leaves s' where
  workers := hworkers
  not_failed := by rw [hcaller]; exact h.not_failed
  returned := by rw [hcaller]; exact h.returned
  level := by rw [hcaller]; exact hlevel

theorem Sound.of_level (h : Sound sha256 pool leaves s) {layer nextLayer : List UInt256}
    {todo : List ℕ} {futures : List (Option ℕ)}
    (hcaller : s'.caller = .level layer nextLayer todo futures)
    (hworkers : s'.idle + s'.running.length = s.idle + s.running.length)
    (hlevel : SoundLevel sha256 pool.maxDepth leaves layer nextLayer todo futures s') :
    Sound sha256 pool leaves s' where
  workers := hworkers.trans h.workers
  not_failed := by rw [hcaller]; exact nofun
  returned := by rw [hcaller]; exact nofun
  level := by
    rw [hcaller]
    intro layer' nextLayer' todo' futures' heq
    cases heq
    exact hlevel

/-- **One step:** all stays well, and no task is refused. -/
theorem Sound.step {event : Event} (h : Sound sha256 pool leaves s)
    (hstep : step sha256 pool.maxDepth s event = some s') : Sound sha256 pool leaves s' := by
  cases moves_of_step sha256 hstep with
  | queued hcaller =>
      have hlevel := h.level _ _ _ _ hcaller
      exact h.of_level sha256 rfl rfl (hlevel.queued sha256 ⟨rfl, rfl, rfl, rfl⟩)
  | refused hcaller hfull =>
      have hroom := (h.level _ _ _ _ hcaller).length_queue_lt
      omega
  | got hcaller hready =>
      have hlevel := h.level _ _ _ _ hcaller
      exact h.of_level sha256 rfl rfl (hlevel.got sha256 hready ⟨rfl, rfl, rfl, rfl⟩)
  | threw hcaller =>
      obtain ⟨i, hi, -⟩ := (h.level _ _ _ _ hcaller).valid none (List.mem_cons_self ..)
      cases hi
  | @folded layer nextLayer hcaller =>
      have hlevel := h.level _ _ _ _ hcaller
      obtain ⟨hqueue, hrunning, hnext⟩ := hlevel.folded
      have hlt := hlevel.lt
      have hroom := hlevel.room
      have hlength : nextLayer.length = (layer.length + 1) / 2 := by
        rw [hnext, length_nextLevel]
      have hle := hlevel.le
      refine sound_enter sha256 (by omega) ?_ h.workers hqueue hrunning (Or.inr ?_)
      · rw [hnext, ← fold_of_lt _ (by omega), hlevel.fold_eq]
      · rw [hqueue, List.length_nil] at hroom
        omega
  | other hothers hroom =>
      refine h.of_pool sha256 rfl h.workers fun layer nextLayer todo futures hcaller => ?_
      have hlevel := h.level _ _ _ _ hcaller
      have hroom' := hlevel.room
      refine hlevel.of_perm sha256 (by simp) rfl ?_
      simp
      omega
  | otherRefused hothers hfull =>
      refine h.of_pool sha256 rfl h.workers fun layer nextLayer todo futures hcaller => ?_
      have hlevel := h.level _ _ _ _ hcaller
      have hroom' := hlevel.room
      refine hlevel.of_perm sha256 (List.Perm.refl _) rfl ?_
      simp only []
      omega
  | @took idle job queue hidle hqueue =>
      have hworkers := h.workers
      refine h.of_pool sha256 rfl ?_ fun layer nextLayer todo futures hcaller => ?_
      · simp
        omega
      · have hlevel := h.level _ _ _ _ hcaller
        have hroom := hlevel.room
        have hperm : (turns queue ++ turns (s.running ++ [job])).Perm
            (turns s.queue ++ turns s.running) := by
          rw [hqueue]
          cases job with
          | other => simp
          | turn i =>
              rw [List.perm_iff_count]
              intro j
              simp [List.count_append, List.count_cons]
              omega
        refine hlevel.of_perm sha256 hperm rfl ?_
        rw [hqueue] at hroom
        cases job with
        | other => simp at hroom ⊢; omega
        | turn i => simp at hroom ⊢; omega
  | finished hcaller hrunning =>
      have hk := (List.getElem?_eq_some_iff.1 hrunning).1
      refine h.of_level sha256 rfl ?_
        ((h.level _ _ _ _ hcaller).finished sha256 hrunning ⟨rfl, rfl, rfl, rfl⟩)
      simp [List.length_eraseIdx_of_lt hk]
      omega
  | @finishedOther k job hrunning hjob =>
      have hk := (List.getElem?_eq_some_iff.1 hrunning).1
      have hworkers := h.workers
      refine h.of_pool sha256 rfl ?_ fun layer nextLayer todo futures hcaller => ?_
      · simp [List.length_eraseIdx_of_lt hk]
        omega
      · -- on a level it is a task of another thread
        have hlevel := h.level _ _ _ _ hcaller
        cases job with
        | turn i => exact absurd hcaller (hjob i layer nextLayer todo futures rfl)
        | other =>
            exact hlevel.of_perm sha256 ((perm_eraseIdx hrunning).symm.append_left _) rfl
              hlevel.room

/-- **The caller does not wait for ever:** when nothing can happen any more, it has returned. -/
theorem Sound.returned_of_stuck (h : Sound sha256 pool leaves s)
    (hworkers : leaves.length ≤ 1024 ∨ 0 < pool.workers)
    (hstuck : Stuck (Fold.step sha256 pool.maxDepth) s) :
    ∃ root, s.caller = .returned root := by
  cases hcaller : s.caller with
  | returned root => exact ⟨root, rfl⟩
  | failed e => exact absurd hcaller (h.not_failed e)
  | level layer nextLayer todo futures =>
      exfalso
      have hlevel := h.level _ _ _ _ hcaller
      have hpos : 0 < pool.workers := by
        have hlt := hlevel.lt
        have hle := hlevel.le
        omega
      cases todo with
      | cons i todo =>
          have hsubmit := hstuck .submit
          simp only [Fold.step, hcaller] at hsubmit
          split at hsubmit <;> cases hsubmit
      | nil =>
          cases futures with
          | nil => simpa [Fold.step, hcaller] using hstuck .get
          | cons future futures =>
              obtain ⟨i, rfl, hi⟩ := hlevel.valid future (List.mem_cons_self ..)
              have hget := hstuck .get
              simp only [Fold.step, hcaller] at hget
              split at hget
              · cases hget
              · next hready =>
                  -- its task waits or is being taken, so a worker can go on
                  have hworker := h.workers
                  cases hrunning : s.running with
                  | cons job running =>
                      have hfinish := hstuck (.finish 0)
                      simp only [Fold.step, hrunning, List.getElem?_cons_zero, hcaller] at hfinish
                      cases job <;> cases hfinish
                  | nil =>
                      rw [hrunning, List.length_nil] at hworker
                      obtain ⟨idle, hidle⟩ :=
                        Nat.exists_eq_add_one_of_ne_zero (show s.idle ≠ 0 by omega)
                      cases hqueue : s.queue with
                      | cons job queue => simpa [Fold.step, hidle, hqueue] using hstuck .take
                      | nil =>
                          rw [hqueue, hrunning] at hi
                          exact hready (by simpa using hi)

theorem sound_start
    (h : leaves.length ≤ 1024 ∨ pool.others + (leaves.length + 1) / 2 ≤ pool.maxDepth) :
    Sound sha256 pool leaves (start sha256 pool leaves) := by
  refine sound_enter sha256 (s := start sha256 pool leaves) (Nat.le_refl _) rfl (by simp [start])
    rfl rfl ?_
  simpa [start] using h

/-! ### Without them -/

/-- Where the caller cannot return any more, a run that goes on to its end shows that it does
not. -/
theorem not_returns_of_invariant {J : State → Prop}
    (hstep : ∀ s event s', J s → step sha256 pool.maxDepth s event = some s' → J s')
    (hnot : ∀ s root, J s → s.caller ≠ .returned root) {events : List Event}
    (hrun : run (step sha256 pool.maxDepth) (start sha256 pool leaves) events = some s) (hs : J s) :
    ¬ Returns sha256 pool leaves := by
  intro h
  obtain ⟨events', t, hrest, hstuck⟩ := exists_run_stuck (I := J) (μ := State.weight)
    (fun s event s' hJ hs' => ⟨hstep s event s' hJ hs', weight_step_lt sha256 hs'⟩) hs
  have hall : run (step sha256 pool.maxDepth) (start sha256 pool leaves) (events ++ events') =
      some t := by
    rw [run_append, hrun]
    exact hrest
  obtain ⟨root, hroot⟩ := (h.2 _ _ hall).2.2 hstuck
  exact hnot t root (run_invariant hstep hs hrest) hroot

/-- No worker has taken a task, and the caller has something to submit or to wait for. -/
structure Waits (s : State) : Prop where
  idle : s.idle = 0
  running : s.running = []
  ready : s.ready = []
  caller : (∃ layer nextLayer todo futures, s.caller = .level layer nextLayer todo futures ∧
    0 < todo.length + futures.length) ∨ ∃ e, s.caller = .failed e

theorem Waits.step {maxDepth : ℕ} {event : Event} (h : Waits s)
    (hstep : step sha256 maxDepth s event = some s') : Waits s' := by
  obtain ⟨hidle, hrunning, hready, hcaller'⟩ := h
  cases moves_of_step sha256 hstep with
  | queued => exact ⟨hidle, hrunning, hready, Or.inl ⟨_, _, _, _, rfl, by simp⟩⟩
  | refused => exact ⟨hidle, hrunning, hready, Or.inl ⟨_, _, _, _, rfl, by simp⟩⟩
  | got _ hi =>
      rw [hready] at hi
      exact absurd hi List.not_mem_nil
  | threw => exact ⟨hidle, hrunning, hready, Or.inr ⟨_, rfl⟩⟩
  | folded hcaller =>
      rcases hcaller' with ⟨_, _, _, _, heq, hpos⟩ | ⟨e, heq⟩
      · rw [hcaller] at heq
        cases heq
        exact absurd hpos (by simp)
      · rw [hcaller] at heq
        cases heq
  | other => exact ⟨hidle, hrunning, hready, hcaller'⟩
  | otherRefused => exact ⟨hidle, hrunning, hready, hcaller'⟩
  | took hsome =>
      rw [hidle] at hsome
      cases hsome
  | finished _ hsome =>
      rw [hrunning] at hsome
      cases hsome
  | finishedOther hsome =>
      rw [hrunning] at hsome
      cases hsome

/-- **Without a worker the caller waits for ever.** -/
theorem not_returns_of_no_worker (hlong : 1024 < leaves.length) (hworkers : pool.workers = 0) :
    ¬ Returns sha256 pool leaves := by
  refine not_returns_of_invariant sha256 (fun s event s' h hstep => Waits.step sha256 h hstep)
    ?_ (run_nil _) ⟨hworkers, rfl, rfl, Or.inl ?_⟩
  · rintro s root ⟨-, -, -, ⟨_, _, _, _, heq, -⟩ | ⟨e, heq⟩⟩ hroot
    · rw [hroot] at heq
      cases heq
    · rw [hroot] at heq
      cases heq
  · refine ⟨_, _, _, _, enter_of_lt sha256 hlong, ?_⟩
    rw [length_indices]
    omega

/-- The caller has an invalid future to wait for, or has failed at it. -/
def Refused (s : State) : Prop :=
  (∃ layer nextLayer futures, s.caller = .level layer nextLayer [] futures ∧ none ∈ futures) ∨
    ∃ e, s.caller = .failed e

theorem Refused.of_level {layer nextLayer : List UInt256} {todo : List ℕ}
    {futures : List (Option ℕ)} (h : Refused s)
    (hcaller : s.caller = .level layer nextLayer todo futures) : todo = [] ∧ none ∈ futures := by
  rcases h with ⟨_, _, _, heq, hnone⟩ | ⟨e, heq⟩
  · rw [hcaller] at heq
    cases heq
    exact ⟨rfl, hnone⟩
  · rw [hcaller] at heq
    cases heq

theorem Refused.step {maxDepth : ℕ} {event : Event} (h : Refused s)
    (hstep : step sha256 maxDepth s event = some s') : Refused s' := by
  cases moves_of_step sha256 hstep with
  | queued hcaller => cases (h.of_level hcaller).1
  | refused hcaller => cases (h.of_level hcaller).1
  | got hcaller =>
      have hnone := (h.of_level hcaller).2
      exact Or.inl ⟨_, _, _, rfl, by simpa using hnone⟩
  | threw => exact Or.inr ⟨_, rfl⟩
  | folded hcaller => exact absurd (h.of_level hcaller).2 List.not_mem_nil
  | other => exact h
  | otherRefused => exact h
  | took => exact h
  | finished hcaller =>
      obtain ⟨rfl, hnone⟩ := h.of_level hcaller
      exact Or.inl ⟨_, _, _, rfl, hnone⟩
  | finishedOther => exact h

theorem run_other {maxDepth : ℕ} (hqueue : s.queue.length ≤ maxDepth) :
    ∃ s', run (step sha256 maxDepth) s (List.replicate s.others .other) = some s' ∧
      s'.caller = s.caller ∧ s'.queue.length = min maxDepth (s.queue.length + s.others) := by
  generalize hothers : s.others = n
  induction n generalizing s with
  | zero => exact ⟨s, rfl, rfl, by omega⟩
  | succ n ih =>
      by_cases hfull : maxDepth ≤ s.queue.length
      · obtain ⟨s', hrun, hcaller, hlength⟩ := @ih { s with others := s.others - 1 } hqueue
          (by simp [hothers])
        refine ⟨s', run_cons_eq_some.2 ⟨_, ?_, hrun⟩, hcaller, ?_⟩
        · simp [step, hothers, hfull]
        · simp only [] at hlength
          omega
      · obtain ⟨s', hrun, hcaller, hlength⟩ :=
          @ih { s with others := s.others - 1, queue := s.queue ++ [.other] }
            (by simp; omega) (by simp [hothers])
        refine ⟨s', run_cons_eq_some.2 ⟨_, ?_, hrun⟩, hcaller, ?_⟩
        · simp [step, hothers, hfull]
        · simp at hlength
          omega

theorem run_submit {maxDepth : ℕ} {layer nextLayer : List UInt256} {todo : List ℕ}
    {futures : List (Option ℕ)} (hcaller : s.caller = .level layer nextLayer todo futures)
    (hqueue : s.queue.length ≤ maxDepth)
    (h : maxDepth < s.queue.length + todo.length ∨ none ∈ futures) :
    ∃ s', run (step sha256 maxDepth) s (List.replicate todo.length .submit) = some s' ∧
      Refused s' := by
  induction todo generalizing s futures with
  | nil =>
      refine ⟨s, rfl, Or.inl ⟨layer, nextLayer, futures, hcaller, ?_⟩⟩
      rcases h with h | h
      · rw [List.length_nil] at h
        omega
      · exact h
  | cons i todo ih =>
      by_cases hfull : maxDepth ≤ s.queue.length
      · obtain ⟨s', hrun, hrefused⟩ :=
          @ih { s with caller := .level layer nextLayer todo (futures ++ [none]) }
            (futures ++ [none]) rfl hqueue (Or.inr (by simp))
        refine ⟨s', run_cons_eq_some.2 ⟨_, ?_, hrun⟩, hrefused⟩
        simp [step, hcaller, hfull]
      · obtain ⟨s', hrun, hrefused⟩ :=
          @ih { s with
              caller := .level layer nextLayer todo (futures ++ [some i])
              queue := s.queue ++ [.turn i] } (futures ++ [some i]) rfl (by simp; omega) (by
            rcases h with h | h
            · refine Or.inl ?_
              simp at h ⊢
              omega
            · exact Or.inr (List.mem_append_left _ h))
        refine ⟨s', run_cons_eq_some.2 ⟨_, ?_, hrun⟩, hrefused⟩
        simp [step, hcaller, hfull]

/-- **Without room for all tasks the caller can fail:** when all are submitted before a worker takes
one, the last is refused. -/
theorem not_returns_of_full (hlong : 1024 < leaves.length)
    (hfull : pool.maxDepth < pool.others + (leaves.length + 1) / 2) :
    ¬ Returns sha256 pool leaves := by
  obtain ⟨s, hothers, hcaller, hlength⟩ :=
    @run_other sha256 (start sha256 pool leaves) pool.maxDepth (Nat.zero_le _)
  have hlevel : s.caller = .level leaves (List.replicate ((leaves.length + 1) / 2) UInt256.zero)
      (indices leaves.length) [] := hcaller.trans (enter_of_lt sha256 hlong)
  have hqueue : s.queue.length = min pool.maxDepth pool.others := by
    simpa [start] using hlength
  obtain ⟨s', hsubmit, hrefused⟩ := @run_submit sha256 s pool.maxDepth _ _ _ _ hlevel
    (by omega) (Or.inl (by rw [length_indices]; omega))
  refine not_returns_of_invariant sha256 (fun s event s' h hstep => Refused.step sha256 h hstep) ?_
    (by rw [run_append, hothers]; exact hsubmit) hrefused
  rintro s root (⟨_, _, _, heq, -⟩ | ⟨e, heq⟩) hroot
  · rw [hroot] at heq
    cases heq
  · rw [hroot] at heq
    cases heq

/-- **When the fold on a pool returns the root:** exactly if no level is long, or there are a worker
and room in the queue for all tasks of the first level. -/
theorem returns_iff (sha256 : Bytes → UInt256) (pool : Pool) (leaves : List UInt256) :
    Returns sha256 pool leaves ↔ leaves.length ≤ 1024 ∨
      0 < pool.workers ∧ pool.others + (leaves.length + 1) / 2 ≤ pool.maxDepth := by
  constructor
  · intro h
    by_contra hnot
    obtain ⟨hlong, hbad⟩ := not_or.1 hnot
    rcases Nat.eq_zero_or_pos pool.workers with hzero | hpos
    · exact not_returns_of_no_worker sha256 (Nat.lt_of_not_le hlong) hzero h
    · exact not_returns_of_full sha256 (Nat.lt_of_not_le hlong)
        (Nat.lt_of_not_le fun hroom => hbad ⟨hpos, hroom⟩) h
  · intro h
    have hstart := sound_start sha256 (h.imp_right And.right)
    refine ⟨⟨_, fun events s hrun => length_le_of_run sha256 hrun⟩, fun events s hrun => ?_⟩
    have hsound : Sound sha256 pool leaves s :=
      run_invariant (fun _ _ _ hs hstep => Sound.step sha256 hs hstep) hstart hrun
    refine ⟨hsound.not_failed, fun root hroot => ?_, fun hstuck => ?_⟩
    · rw [computeIterative_eq, takesAll_none, if_pos rfl, hsound.returned root hroot]
    · exact hsound.returned_of_stuck sha256 (h.imp_right And.left) hstuck

end Steps

/-- Four workers, a queue of the default depth and one leaf too many: the future of the last pair
of the first level can be invalid. -/
theorem not_returns_default :
    ¬ Returns Net.sha256Digest ⟨4, 4096, 0⟩ (List.replicate 8193 UInt256.zero) :=
  not_returns_of_full Net.sha256Digest (by rw [List.length_replicate]; decide)
    (by rw [List.length_replicate]; decide)

end Fold

end Merkle
