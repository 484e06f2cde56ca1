/-
**Sessions that get lost, and how they do not.**

The record of a session is deleted first and archived last, so that every confirmation goes through
states in which the session is neither pending nor archived; whatever fails in between loses it.  A
session is lost as well when its record cannot be read for once, because its identifier is then
taken out of the set, and when another session comes to have the same identifier.  No session is
lost exactly where none of this happens.

Whatever happens, a session that is archived has received its deposit.

Main definitions:

* `PaymentWatcher.Task.Early`, `PaymentWatcher.Inv` — **what every safe step keeps**;
* `PaymentWatcher.Task.session?`, `PaymentWatcher.Backed` — the work on a session that is past its
  check has seen the deposit.

Main results:

* `PaymentWatcher.Inv.step` — every safe step keeps the invariant;
* `PaymentWatcher.Inv.safe_of_sound` — a step after which no session is lost is safe;
* `PaymentWatcher.sound_iff_safe` — **no session of a run is lost exactly when its steps are safe**;
* `PaymentWatcher.loses_session` — a confirmation loses its session with the first call;
* `PaymentWatcher.archived_reached` — **what is archived has received its deposit**, in every run.
-/

import MedorCoin.PaymentWatcher.Watcher

set_option autoImplicit false

namespace PaymentWatcher

open Js Transition

/-! ### Tasks -/

/-- Somebody created a session with this identifier. -/
def Known (created : List (Str × Session)) (sessionId : Str) : Prop :=
  ∃ session, (sessionId, session) ∈ created

/-- A phase before the deletion of the record. -/
def Phase.early : Phase → Bool
  | .removing _ => false
  | .publishing _ => false
  | .archiving _ => false
  | _ => true

/-- A task that knows only sessions that were created, and has not deleted any. -/
def Task.Early (created : List (Str × Session)) : Task → Prop
  | .watching _ _ sessionId phase => Known created sessionId ∧ phase.early = true
  | .looping _ rest => ∀ sessionId ∈ rest, Known created sessionId
  | _ => True

theorem Known.append {created : List (Str × Session)} {sessionId : Str} (p : Str × Session)
    (h : Known created sessionId) : Known (created ++ [p]) sessionId := by
  obtain ⟨session, hsession⟩ := h
  exact ⟨session, List.mem_append_left _ hsession⟩

theorem Task.Early.append {created : List (Str × Session)} {task : Task} (p : Str × Session)
    (h : task.Early created) : task.Early (created ++ [p]) := by
  cases task with
  | watching node loop sessionId phase => exact ⟨h.1.append p, h.2⟩
  | looping node rest => exact fun sessionId hmem => (h sessionId hmem).append p
  | putting node sessionId session => trivial
  | adding node sessionId session => trivial
  | done => trivial

theorem State.exists_locks (s : State) (c : Prop) [Decidable c] (locks : Str → Option ℕ) :
    ∃ locks', (if c then { s with locks := locks } else s) = { s with locks := locks' } := by
  split
  · exact ⟨locks, rfl⟩
  · exact ⟨s.locks, rfl⟩

theorem failed_of_effect {reply : Reply} (h : reply.effect = false) : reply = .failed := by
  cases reply with
  | ok => cases h
  | lost => cases h
  | failed => rfl

/-! ### The invariant of safe steps -/

/-- **What every safe step keeps.** -/
structure Inv (s : State) : Prop where
  pending : ∀ p ∈ s.created, s.sessions p.1 = some p.2 ∧ p.1 ∈ s.active
  known : ∀ sessionId ∈ s.active, Known s.created sessionId
  early : ∀ task ∈ s.tasks, task.Early s.created
  archive : ∀ sessionId, s.archive sessionId = none
  published : s.published = []

namespace Inv

variable {s s' : State} {i : ℕ} {old new : Task}

theorem sound (h : Inv s) : Sound s := by
  refine ⟨fun p hp => Or.inl (h.pending p hp), ?_, ?_⟩
  · intro sessionId session harchive
    rw [h.archive] at harchive
    cases harchive
  · rw [h.published]
    exact List.nodup_nil

theorem frame (h : Inv s) {tasks : List Task} (htasks : ∀ task ∈ tasks, task.Early s.created)
    (now : ℕ) (locks : Str → Option ℕ) (balances : List (Str × Str)) :
    Inv { s with tasks := tasks, now := now, locks := locks, balances := balances } :=
  ⟨h.pending, h.known, htasks, h.archive, h.published⟩

theorem early_set (h : Inv s) (hnew : new.Early s.created) :
    ∀ task ∈ s.tasks.set i new, task.Early s.created := by
  intro task htask
  rcases List.mem_or_eq_of_mem_set htask with htask | rfl
  · exact h.early task htask
  · exact hnew

theorem early_concat (h : Inv s) (hnew : new.Early s.created) :
    ∀ task ∈ s.tasks ++ [new], task.Early s.created := by
  intro task htask
  rcases mem_concat_cases htask with htask | rfl
  · exact h.early task htask
  · exact hnew

theorem goOn (h : Inv s) (hnew : new.Early s.created) : Inv (s.goOn i new) :=
  h.frame (h.early_set hnew) s.now s.locks s.balances

theorem reject (h : Inv s) (loop : ℕ) : Inv (s.reject i loop) := by
  refine h.frame ?_ s.now s.locks s.balances
  intro task htask
  rcases List.mem_or_eq_of_mem_set htask with htask | rfl
  · exact h.early_set (show Task.Early s.created .done from trivial) task htask
  · trivial

theorem withLocks (h : Inv s) (locks : Str → Option ℕ) : Inv { s with locks := locks } :=
  h.frame h.early s.now locks s.balances

theorem watching_known (h : Inv s) {node loop : ℕ} {sessionId : Str} {phase : Phase}
    (hi : s.tasks[i]? = some (.watching node loop sessionId phase)) :
    Known s.created sessionId ∧ phase.early = true :=
  h.early _ (mem_of_getElem? hi)

theorem put (h : Inv s) {sessionId : Str} {session : Session}
    (hsafe : ∀ p ∈ s.created, p.1 = sessionId → p.2 = session) :
    Inv { s with sessions := Function.update s.sessions sessionId (some session) } := by
  refine ⟨?_, h.known, h.early, h.archive, h.published⟩
  intro p hp
  obtain ⟨hsession, hactive⟩ := h.pending p hp
  refine ⟨?_, hactive⟩
  by_cases heq : p.1 = sessionId
  · rw [heq, hsafe p hp heq]
    exact Function.update_self _ _ _
  · exact (Function.update_of_ne heq _ _).trans hsession

/-- **A session is created.** -/
theorem sadd (h : Inv s) {sessionId : Str} {session : Session}
    (hsafe : s.sessions sessionId = some session) :
    Inv { s with
      active := s.active.insert sessionId
      created := s.created ++ [(sessionId, session)] } := by
  refine ⟨?_, ?_, fun task htask => (h.early task htask).append _, h.archive, h.published⟩
  · intro p hp
    rcases mem_concat_cases hp with hp | rfl
    · obtain ⟨hsession, hactive⟩ := h.pending p hp
      exact ⟨hsession, List.mem_insert_of_mem hactive⟩
    · exact ⟨hsafe, List.mem_insert_self⟩
  · intro id hid
    rcases List.mem_insert_iff.1 hid with rfl | hid
    · exact ⟨session, List.mem_append_right _ (List.mem_singleton_self _)⟩
    · exact (h.known id hid).append _

theorem after_failed (h : Inv s) {node loop : ℕ} {sessionId : Str} {phase : Phase} (next : Phase)
    (hi : s.tasks[i]? = some (.watching node loop sessionId phase)) :
    Inv (s.after i node loop sessionId .failed next) :=
  h.goOn ⟨(h.watching_known hi).1, rfl⟩

/-- **Every safe step keeps the invariant.** -/
theorem step (h : Inv s) {e : Event} (hsafe : Safe s e s') (hstep : step s e = some s') :
    Inv s' := by
  cases move_of_step hstep with
  | tick ms => exact h.frame h.early _ s.locks s.balances
  | writeBalance address balance => exact h.frame h.early s.now s.locks _
  | createSession node sessionId userId address expectedAmount session =>
      refine h.frame (h.early_concat ?_) s.now s.locks s.balances
      trivial
  | @put i node sessionId session reply hi =>
      simp only [Safe, hi] at hsafe
      have hnext : Task.Early s.created
          (if reply = .ok then .adding node sessionId session else .done) := by
        split <;> trivial
      split
      · next heffect => exact (h.put (hsafe heffect)).goOn hnext
      · exact h.goOn hnext
  | @sadd i node sessionId session reply hi =>
      simp only [Safe, hi] at hsafe
      split
      · next heffect =>
          refine (h.sadd (hsafe heffect)).goOn ?_
          trivial
      · refine h.goOn ?_
        trivial
  | smembersFailed node => exact h
  | smembers node hperm =>
      refine h.frame (h.early_concat ?_) s.now s.locks s.balances
      exact fun sessionId hmem => h.known sessionId (hperm.mem_iff.1 hmem)
  | lastBatch hi =>
      refine h.goOn ?_
      trivial
  | @nextBatch i node rest hi =>
      have hrest : ∀ sessionId ∈ rest, Known s.created sessionId := h.early _ (mem_of_getElem? hi)
      refine h.frame ?_ s.now s.locks s.balances
      intro task htask
      rcases List.mem_append.1 htask with htask | htask
      · refine h.early_set ?_ task htask
        exact fun sessionId hmem => hrest sessionId (List.mem_of_mem_drop hmem)
      · obtain ⟨sessionId, hmem, rfl⟩ := List.mem_map.1 htask
        exact ⟨hrest sessionId (List.mem_of_mem_take hmem), rfl⟩
  | @acquire i node loop sessionId reply hi s₁ hs₁ =>
      have hknown := (h.watching_known hi).1
      obtain ⟨locks, hlocks⟩ := s.exists_locks
        (reply.effect = true ∧ (!s.locked sessionId) = true)
        (Function.update s.locks sessionId (some (s.now + lockTime)))
      rw [hlocks] at hs₁
      subst hs₁
      split
      · refine (h.withLocks locks).goOn ?_
        split
        · exact ⟨hknown, rfl⟩
        · trivial
      · exact (h.withLocks locks).reject loop
  | heartbeat i locks => exact h.withLocks locks
  | dropSession ok hi => exact h.goOn ⟨(h.watching_known hi).1, rfl⟩
  | getSession ok session hi => exact h.goOn ⟨(h.watching_known hi).1, rfl⟩
  | getState ok hi =>
      refine h.goOn ⟨(h.watching_known hi).1, ?_⟩
      rw [apply_ite Phase.early]
      exact ite_self _
  | del reply hi =>
      -- a safe call has failed
      obtain rfl := failed_of_effect hsafe
      exact h.after_failed _ hi
  | dropMember reply hi =>
      obtain rfl := failed_of_effect hsafe
      exact h.after_failed _ hi
  | srem reply hi =>
      obtain rfl := failed_of_effect hsafe
      exact h.after_failed _ hi
  | publish reply hi => cases (h.watching_known hi).2
  | archive reply hi => cases (h.watching_known hi).2
  | @unlock i node loop sessionId reply hi s₁ hs₁ =>
      obtain ⟨locks, hlocks⟩ := s.exists_locks (reply.effect = true)
        (Function.update s.locks sessionId none)
      rw [hlocks] at hs₁
      subst hs₁
      split
      · refine (h.withLocks locks).goOn ?_
        trivial
      · exact (h.withLocks locks).reject loop
  | crash node =>
      refine h.frame ?_ s.now s.locks s.balances
      intro task htask
      obtain ⟨task', htask', rfl⟩ := List.mem_map.1 htask
      split
      · trivial
      · exact h.early task' htask'

/-- **A step after which no session is lost is safe.** -/
theorem safe_of_sound (h : Inv s) {e : Event} (hstep : PaymentWatcher.step s e = some s')
    (hsound : Sound s') : Safe s e s' := by
  cases move_of_step hstep with
  | @put i node sessionId session reply hi =>
      simp only [Safe, hi]
      intro heffect p hp hid
      rw [if_pos heffect] at hsound
      rcases hsound.kept p hp with ⟨hsession, -⟩ | harchive
      · rw [hid] at hsession
        have hwritten : Function.update s.sessions sessionId (some session) sessionId
            = some p.2 := hsession
        rw [Function.update_self, Option.some.injEq] at hwritten
        exact hwritten.symm
      · cases (h.archive p.1).symm.trans harchive
  | @sadd i node sessionId session reply hi =>
      simp only [Safe, hi]
      intro heffect
      rw [if_pos heffect] at hsound
      have hmem : (sessionId, session) ∈ s.created ++ [(sessionId, session)] :=
        List.mem_append_right _ (List.mem_singleton_self _)
      rcases hsound.kept _ hmem with ⟨hsession, -⟩ | harchive
      · exact hsession
      · cases (h.archive sessionId).symm.trans harchive
  | @del i node loop sessionId session reply hi =>
      obtain ⟨created, hcreated⟩ := (h.watching_known hi).1
      cases heffect : reply.effect with
      | false => exact heffect
      | true =>
          -- the record has just been deleted, and the archive is empty
          rw [if_pos heffect] at hsound
          rcases hsound.kept _ hcreated with ⟨hsession, -⟩ | harchive
          · have hdeleted :
                Function.update s.sessions sessionId none sessionId = some created := hsession
            rw [Function.update_self] at hdeleted
            cases hdeleted
          · cases (h.archive sessionId).symm.trans harchive
  | @dropMember i node loop sessionId reply hi =>
      obtain ⟨created, hcreated⟩ := (h.watching_known hi).1
      cases heffect : reply.effect with
      | false => exact heffect
      | true =>
          rw [if_pos heffect] at hsound
          rcases hsound.kept _ hcreated with ⟨-, hactive⟩ | harchive
          · have hne := (List.mem_filter.1 hactive).2
            simp at hne
          · cases (h.archive sessionId).symm.trans harchive
  | srem reply hi => cases (h.watching_known hi).2
  | _ => trivial

theorem start : Inv start := by
  refine ⟨?_, ?_, ?_, fun _ => rfl, rfl⟩ <;> simp [PaymentWatcher.start]

end Inv

/-! ### Runs -/

/-- **No session of a run is lost exactly when its steps are safe.** -/
theorem sound_iff_safe (events : List Event) :
    EveryStep step (fun _ _ s' => Sound s') start events ↔ EveryStep step Safe start events := by
  refine everyStep_iff (I := Inv) ?_ Inv.start
  intro s e s' h hstep
  refine ⟨⟨h.safe_of_sound hstep, fun hsafe => (h.step hsafe hstep).sound⟩, ?_⟩
  exact fun hsafe => h.step hsafe hstep

def sampleEvents : List Event :=
  [.createSession 1 "req_0a0b0c0d".toList "alice".toList "mdr_01".toList "25".toList, .put 0 .ok,
   .sadd 0 .ok, .writeBalance "mdr_01".toList "40".toList,
   .smembers 2 (some ["req_0a0b0c0d".toList]), .nextBatch 1, .acquire 2 .ok, .getSession 2 true,
   .getState 2 true]

/-- **A confirmation loses its session** with the first call: the record is deleted before anything
else is written. -/
theorem loses_session :
    ¬ ∀ events : List Event, EveryStep step (fun _ _ s' => Sound s') start events := by
  intro h
  obtain ⟨t, hsound, ht⟩ := (h (sampleEvents ++ [.del 2 .ok])).exists_end
    (q := fun t => t.created.map Prod.fst == ["req_0a0b0c0d".toList] &&
      t.sessions "req_0a0b0c0d".toList == none && t.archive "req_0a0b0c0d".toList == none)
    (by decide +kernel)
  simp only [Bool.and_eq_true, beq_iff_eq] at ht
  obtain ⟨⟨hcreated, hsession⟩, harchive⟩ := ht
  obtain ⟨p, hp, hid⟩ : ∃ p ∈ t.created, p.1 = "req_0a0b0c0d".toList := by
    rw [← List.mem_map, hcreated]
    exact List.mem_singleton_self _
  rcases hsound.kept p hp with ⟨hpending, -⟩ | hconfirmed
  · rw [hid, hsession] at hpending
    cases hpending
  · rw [hid, harchive] at hconfirmed
    cases hconfirmed

/-! ### Deposits -/

/-- The session that a task has found to be paid. -/
def Task.session? : Task → Option Session
  | .watching _ _ _ (.deleting session) => some session
  | .watching _ _ _ (.removing session) => some session
  | .watching _ _ _ (.publishing session) => some session
  | .watching _ _ _ (.archiving session) => some session
  | _ => none

/-- The sessions that are archived or about to be have received their deposit. -/
structure Backed (s : State) : Prop where
  tasks : ∀ task ∈ s.tasks, ∀ session, task.session? = some session → s.Reached session
  archive : ∀ sessionId session, s.archive sessionId = some session → s.Reached session

namespace Backed

variable {s s' : State} {i : ℕ} {old new : Task}

theorem frame (h : Backed s) {tasks : List Task}
    (htasks : ∀ task ∈ tasks, task ∈ s.tasks ∨
      ∀ session, task.session? = some session → s.Reached session)
    (now : ℕ) (sessions : Str → Option Session) (active : List Str) (locks : Str → Option ℕ)
    (created published : List (Str × Session)) :
    Backed { s with
      tasks := tasks, now := now, sessions := sessions, active := active, locks := locks,
      created := created, published := published } := by
  refine ⟨?_, h.archive⟩
  intro task htask session hsession
  rcases htasks task htask with hold | hnew
  · exact h.tasks task hold session hsession
  · exact hnew session hsession

theorem mem_set {tasks : List Task} (hnew : ∀ session, new.session? = some session →
      s.Reached session) (task : Task) (htask : task ∈ tasks.set i new) :
    task ∈ tasks ∨ ∀ session, task.session? = some session → s.Reached session := by
  rcases List.mem_or_eq_of_mem_set htask with hold | rfl
  · exact Or.inl hold
  · exact Or.inr hnew

theorem goOn (h : Backed s) (hi : s.tasks[i]? = some old)
    (hnew : ∀ session, new.session? = some session → old.session? = some session) :
    Backed (s.goOn i new) := by
  refine h.frame (mem_set ?_) s.now s.sessions s.active s.locks s.created s.published
  intro session hsession
  exact h.tasks old (mem_of_getElem? hi) session (hnew session hsession)

/-- After a call that has found a session to be paid, or after one that has not. -/
theorem after (h : Backed s) {node loop : ℕ} {sessionId : Str} {phase next : Phase}
    (hi : s.tasks[i]? = some (.watching node loop sessionId phase)) (reply : Reply)
    (hnext : ∀ session, Task.session? (.watching node loop sessionId next) = some session →
      Task.session? (.watching node loop sessionId phase) = some session) :
    Backed (s.after i node loop sessionId reply next) := by
  refine h.goOn hi ?_
  split
  · exact hnext
  · intro session hsession
    cases hsession

theorem reject (h : Backed s) (i loop : ℕ) : Backed (s.reject i loop) := by
  refine h.frame ?_ s.now s.sessions s.active s.locks s.created s.published
  intro task htask
  have hdone : ∀ session, Task.done.session? = some session → s.Reached session := by
    intro session hsession
    cases hsession
  rcases mem_set hdone task htask with htask | hnew
  · exact mem_set hdone task htask
  · exact Or.inr hnew

theorem append (h : Backed s) {tasks : List Task}
    (htasks : ∀ task ∈ tasks, task.session? = none) :
    Backed { s with tasks := s.tasks ++ tasks } := by
  refine h.frame ?_ s.now s.sessions s.active s.locks s.created s.published
  intro task htask
  rcases List.mem_append.1 htask with hold | hnew
  · exact Or.inl hold
  · refine Or.inr ?_
    intro session hsession
    rw [htasks task hnew] at hsession
    cases hsession

theorem write (h : Backed s) (c : Prop) [Decidable c] (sessions : Str → Option Session)
    (active : List Str) (locks : Str → Option ℕ) (created published : List (Str × Session)) :
    ∃ s'' : State, Backed s'' ∧ s''.tasks = s.tasks ∧
      (if c then { s with
        sessions := sessions, active := active, locks := locks, created := created,
        published := published } else s) = s'' := by
  split
  · exact ⟨_, h.frame (fun task htask => Or.inl htask) s.now sessions active locks created
      published, rfl, rfl⟩
  · exact ⟨s, h, rfl, rfl⟩

/-- The balance that was found is one that the address has had. -/
theorem check (h : Backed s) {node loop : ℕ} {sessionId : Str} {session : Session}
    (hi : s.tasks[i]? = some (.watching node loop sessionId (.checking session))) (ok : Bool) :
    Backed (s.goOn i (.watching node loop sessionId
      (if session.suffices? (if ok = true then s.balances.lookup session.address else none)
        = some true then .deleting session else .unlocking))) := by
  by_cases hsuffices : session.suffices?
      (if ok = true then s.balances.lookup session.address else none) = some true
  · rw [if_pos hsuffices]
    refine h.frame (mem_set ?_) s.now s.sessions s.active s.locks s.created s.published
    intro session' hsession
    cases hsession
    refine ⟨_, ?_, hsuffices⟩
    intro b hb
    cases ok with
    | false => cases hb
    | true =>
        obtain ⟨l₁, l₂, hl, -⟩ := List.lookup_eq_some_iff.1 hb
        rw [hl]
        exact List.mem_append_right _ List.mem_cons_self
  · rw [if_neg hsuffices]
    refine h.goOn hi ?_
    intro session' hsession
    cases hsession

theorem idle (h : Backed s) (hi : s.tasks[i]? = some old) (hnone : new.session? = none) :
    Backed (s.goOn i new) := by
  refine h.goOn hi ?_
  intro session hsession
  rw [hnone] at hsession
  cases hsession

/-- A session is archived that has received its deposit. -/
theorem archived (h : Backed s) {sessionId : Str} {session : Session}
    (hreached : s.Reached session) :
    Backed { s with
      archive := Function.update s.archive sessionId (some session.confirm) } := by
  refine ⟨h.tasks, ?_⟩
  intro id session' hsession
  by_cases hid : id = sessionId
  · subst hid
    have hwritten : Function.update s.archive id (some session.confirm) id = some session' :=
      hsession
    rw [Function.update_self, Option.some.injEq] at hwritten
    subst hwritten
    exact hreached
  · exact h.archive id session' ((Function.update_of_ne hid _ _).symm.trans hsession)

/-- **Every step** keeps this. -/
theorem step (h : Backed s) {e : Event} (hstep : step s e = some s') : Backed s' := by
  cases move_of_step hstep with
  | tick ms =>
      exact h.frame (fun task htask => Or.inl htask) _ s.sessions s.active s.locks s.created
        s.published
  | writeBalance address balance =>
      have hreached : ∀ session, s.Reached session →
          State.Reached { s with balances := (address, balance) :: s.balances } session := by
        rintro session ⟨b, hb, hsuffices⟩
        exact ⟨b, fun x hx => List.mem_cons_of_mem _ (hb x hx), hsuffices⟩
      refine ⟨?_, ?_⟩
      · intro task htask session hsession
        exact hreached session (h.tasks task htask session hsession)
      · intro sessionId session hsession
        exact hreached session (h.archive sessionId session hsession)
  | createSession node sessionId userId address expectedAmount session =>
      refine h.append ?_
      intro task htask
      rw [List.mem_singleton.1 htask]
      rfl
  | @put i node sessionId session reply hi =>
      obtain ⟨s'', h'', htasks, heq⟩ := h.write (reply.effect = true)
        (Function.update s.sessions sessionId (some session)) s.active s.locks s.created
        s.published
      rw [heq]
      refine h''.goOn (htasks ▸ hi) ?_
      intro session' hsession
      split at hsession <;> cases hsession
  | @sadd i node sessionId session reply hi =>
      obtain ⟨s'', h'', htasks, heq⟩ := h.write (reply.effect = true) s.sessions
        (s.active.insert sessionId) s.locks (s.created ++ [(sessionId, session)]) s.published
      rw [heq]
      refine h''.goOn (htasks ▸ hi) ?_
      intro session' hsession
      cases hsession
  | smembersFailed node => exact h
  | smembers node hperm =>
      refine h.append ?_
      intro task htask
      rw [List.mem_singleton.1 htask]
      rfl
  | lastBatch hi => exact h.idle hi rfl
  | nextBatch hi =>
      refine (h.idle hi rfl).append ?_
      intro task htask
      obtain ⟨sessionId, -, rfl⟩ := List.mem_map.1 htask
      rfl
  | @acquire i node loop sessionId reply hi s₁ hs₁ =>
      obtain ⟨s'', h'', htasks, heq⟩ := h.write
        (reply.effect = true ∧ (!s.locked sessionId) = true) s.sessions s.active
        (Function.update s.locks sessionId (some (s.now + lockTime))) s.created s.published
      obtain rfl := hs₁.trans heq
      split
      · refine h''.goOn (htasks ▸ hi) ?_
        intro session hsession
        split at hsession <;> cases hsession
      · exact h''.reject i loop
  | heartbeat i locks =>
      exact h.frame (fun task htask => Or.inl htask) s.now s.sessions s.active locks s.created
        s.published
  | dropSession ok hi => exact h.idle hi rfl
  | getSession ok session hi => exact h.idle hi rfl
  | getState ok hi => exact h.check hi ok
  | @del i node loop sessionId session reply hi =>
      obtain ⟨s'', h'', htasks, heq⟩ := h.write (reply.effect = true)
        (Function.update s.sessions sessionId none) s.active s.locks s.created s.published
      rw [heq]
      refine h''.after (htasks ▸ hi) reply ?_
      exact fun session' hsession => hsession
  | @dropMember i node loop sessionId reply hi =>
      obtain ⟨s'', h'', htasks, heq⟩ := h.write (reply.effect = true) s.sessions
        (s.active.filter (· ≠ sessionId)) s.locks s.created s.published
      rw [heq]
      refine h''.after (htasks ▸ hi) reply ?_
      intro session' hsession
      cases hsession
  | @srem i node loop sessionId session reply hi =>
      obtain ⟨s'', h'', htasks, heq⟩ := h.write (reply.effect = true) s.sessions
        (s.active.filter (· ≠ sessionId)) s.locks s.created s.published
      rw [heq]
      refine h''.after (htasks ▸ hi) reply ?_
      exact fun session' hsession => hsession
  | @publish i node loop sessionId session reply hi =>
      obtain ⟨s'', h'', htasks, heq⟩ := h.write (reply.effect = true) s.sessions s.active
        s.locks s.created (s.published ++ [(sessionId, session.confirm)])
      rw [heq]
      refine h''.after (htasks ▸ hi) reply ?_
      exact fun session' hsession => hsession
  | @archive i node loop sessionId session reply hi =>
      have hreached : s.Reached session := h.tasks _ (mem_of_getElem? hi) session rfl
      have hnext : ∀ session', Task.session? (.watching node loop sessionId .unlocking)
          = some session' → Task.session? (.watching node loop sessionId (.archiving session))
          = some session' := by
        intro session' hsession
        cases hsession
      split
      · exact (h.archived hreached).after hi reply hnext
      · exact h.after hi reply hnext
  | @unlock i node loop sessionId reply hi s₁ hs₁ =>
      obtain ⟨s'', h'', htasks, heq⟩ := h.write (reply.effect = true) s.sessions s.active
        (Function.update s.locks sessionId none) s.created s.published
      obtain rfl := hs₁.trans heq
      split
      · exact h''.idle (htasks ▸ hi) rfl
      · exact h''.reject i loop
  | crash node =>
      refine h.frame ?_ s.now s.sessions s.active s.locks s.created s.published
      intro task htask
      obtain ⟨task', htask', rfl⟩ := List.mem_map.1 htask
      split
      · refine Or.inr ?_
        intro session hsession
        cases hsession
      · exact Or.inl htask'

end Backed

/-- **What is archived has received its deposit.** -/
theorem archived_reached {events : List Event} {t : State} (hrun : run step start events = some t)
    {sessionId : Str} {session : Session} (h : t.archive sessionId = some session) :
    t.Reached session := by
  have hstart : Backed start := by
    refine ⟨?_, ?_⟩ <;> simp [start]
  exact (run_invariant (I := Backed) (fun _ _ _ hs hstep => hs.step hstep) hstart hrun).archive
    sessionId session h

theorem archived_reached_sample : ∃ t session,
    run step start (sampleEvents ++ [.del 2 .ok, .srem 2 .ok, .publish 2 .ok, .archive 2 .ok]) =
      some t ∧ t.archive "req_0a0b0c0d".toList = some session ∧ t.Reached session := by
  obtain ⟨session, harchived⟩ := Option.isSome_iff_exists.1 (show ((run step start
    (sampleEvents ++ [.del 2 .ok, .srem 2 .ok, .publish 2 .ok, .archive 2 .ok])).bind
      fun t => t.archive "req_0a0b0c0d".toList).isSome by decide +kernel)
  obtain ⟨t, hrun, h⟩ := Option.bind_eq_some_iff.1 harchived
  exact ⟨t, session, hrun, h, archived_reached hrun h⟩

end PaymentWatcher
