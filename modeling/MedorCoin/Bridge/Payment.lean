/-
**Swaps that are paid twice, and how it does not happen.**

The payment and the report that it was made are two calls, and whatever fails is done again from the
beginning.  So a swap is paid again when the vault pays and fails to say so, when the report fails,
when the deletion of the lock fails, and when the relayer crashes in between.  It is also paid again
when a lock ends too early, and when a relayer comes to a swap late in its poll, which another has
completed in the meantime.

Where none of this happens, a task that has a swap in hand holds its lock, so that it is the only
one; and a swap that was paid is either about to be reported or completed.

Main definitions:

* `Relayer.Inv` — **what every safe step keeps**.

Main results:

* `Relayer.Inv.failed`, `Relayer.Inv.take`, `Relayer.Inv.pay`, `Relayer.Inv.report` — an attempt
  that fails, that begins, that pays, that reports;
* `Relayer.Inv.step` — every safe step keeps the invariant;
* `Relayer.paid_once_of_safe` — **in a run of safe steps no swap is paid twice**;
* `Relayer.not_paid_once` — a payment that comes back as an error is made again.
-/

import MedorCoin.Bridge.Relayer

set_option autoImplicit false

namespace Relayer

open Js Transition

/-- **What every safe step keeps.** -/
structure Inv (s : State) : Prop where
  /-- Each swap is in the hand of one task. -/
  single : Distinct Task.swap? s.tasks
  /-- A task that has a swap in hand holds its lock. -/
  held : ∀ task ∈ s.tasks, ∀ h, task.swap? = some h → s.locked h = true
  unpaid : ∀ task ∈ s.tasks, ∀ h, task.unpaid? = some h → h ∉ s.paid
  /-- What was paid is about to be reported, or completed. -/
  reported : ∀ h ∈ s.paid, (∃ task ∈ s.tasks, task.unreported? = some h) ∨
    ∀ c ∈ s.core, c.txHash = h → c.status = .completed
  known : ∀ task ∈ s.tasks, ∀ h, task.swap? = some h → ∃ c ∈ s.core, c.txHash = h
  paidKnown : ∀ h ∈ s.paid, ∃ c ∈ s.core, c.txHash = h
  nodup : s.paid.Nodup

theorem Task.swap?_of_unpaid? {task : Task} {h : Str} (hunpaid : task.unpaid? = some h) :
    task.swap? = some h := by
  cases task with
  | executing relayer swap attempt phase poll => cases phase <;> simp_all [unpaid?, swap?]
  | waiting relayer swap attempt => exact hunpaid
  | polling relayer rest => cases hunpaid
  | done => cases hunpaid

theorem Task.swap?_of_unreported? {task : Task} {h : Str} (hreport : task.unreported? = some h) :
    task.swap? = some h := by
  cases task with
  | executing relayer swap attempt phase poll => cases phase <;> simp_all [unreported?, swap?]
  | waiting relayer swap attempt => cases hreport
  | polling relayer rest => cases hreport
  | done => cases hreport

theorem Task.unpaid?_eq_none {task : Task} (h : task.swap? = none) : task.unpaid? = none := by
  cases hunpaid : task.unpaid? with
  | none => rfl
  | some txHash =>
      rw [Task.swap?_of_unpaid? hunpaid] at h
      cases h

theorem State.goOn_eq (s : State) (i relayer : ℕ) (poll : Option (List Swap)) :
    ∃ task isPolling, task.swap? = none ∧
      s.goOn i relayer poll = { s with tasks := s.tasks.set i task, isPolling := isPolling } := by
  unfold State.goOn
  split
  · exact ⟨.done, s.isPolling, rfl, rfl⟩
  · exact ⟨.done, _, rfl, rfl⟩
  · next rest _ => exact ⟨.polling relayer _, s.isPolling, rfl, rfl⟩

theorem State.failed_set (s : State) (i relayer : ℕ) (swap : Swap) (attempt : ℕ)
    (poll : Option (List Swap)) (task : Task) :
    ({ s with tasks := s.tasks.set i task } : State).failed i relayer swap attempt poll
      = s.failed i relayer swap attempt poll := by
  unfold State.failed
  split
  · cases poll with
    | none => simp [State.goOn]
    | some rest => cases rest <;> simp [State.goOn, State.endPoll]
  · simp

namespace Inv

variable {s : State} {i : ℕ} {old new : Task}

/-- **A task goes on** with the swap it has in hand, or puts it down.  Unless the swap is completed
or has not been paid, it is still to be reported. -/
theorem replace (h : Inv s) (hi : s.tasks[i]? = some old)
    (hswap : ∀ x, new.swap? = some x → old.swap? = some x)
    (hunpaid : ∀ x, new.unpaid? = some x → old.unpaid? = some x)
    (hreport : ∀ x ∈ s.paid, old.unreported? = some x → new.unreported? = some x)
    (isPolling : ℕ → Bool) (alerts : List Str) :
    Inv { s with tasks := s.tasks.set i new, isPolling := isPolling, alerts := alerts } := by
  have hold : old ∈ s.tasks := mem_of_getElem? hi
  refine ⟨h.single.set_of_imp hi hswap, ?_, ?_, ?_, ?_, h.paidKnown, h.nodup⟩
  · intro task htask x hx
    rcases mem_set_cases htask with rfl | ⟨j, -, hj⟩
    · exact h.held old hold x (hswap x hx)
    · exact h.held task (mem_of_getElem? hj) x hx
  · intro task htask x hx
    rcases mem_set_cases htask with rfl | ⟨j, -, hj⟩
    · exact h.unpaid old hold x (hunpaid x hx)
    · exact h.unpaid task (mem_of_getElem? hj) x hx
  · intro x hx
    rcases h.reported x hx with ⟨task, htask, hreported⟩ | hcompleted
    · by_cases hne : task = old
      · subst hne
        exact Or.inl ⟨new, mem_set_self hi, hreport x hx hreported⟩
      · exact Or.inl ⟨task, mem_set_of_ne hi htask hne, hreported⟩
    · exact Or.inr hcompleted
  · intro task htask x hx
    rcases mem_set_cases htask with rfl | ⟨j, -, hj⟩
    · exact h.known old hold x (hswap x hx)
    · exact h.known task (mem_of_getElem? hj) x hx

/-- **A new task** has a swap in hand that no other has. -/
theorem concat (h : Inv s) (hsingle : ∀ x, new.swap? = some x → ∀ task ∈ s.tasks,
      task.swap? ≠ some x)
    (hheld : ∀ x, new.swap? = some x → s.locked x = true ∧ ∃ c ∈ s.core, c.txHash = x)
    (hunpaid : ∀ x, new.unpaid? = some x → x ∉ s.paid) (isPolling : ℕ → Bool) :
    Inv { s with tasks := s.tasks ++ [new], isPolling := isPolling } := by
  refine ⟨h.single.concat hsingle, ?_, ?_, ?_, ?_, h.paidKnown, h.nodup⟩
  · intro task htask x hx
    rcases mem_concat_cases htask with hold | rfl
    · exact h.held task hold x hx
    · exact (hheld x hx).1
  · intro task htask x hx
    rcases mem_concat_cases htask with hold | rfl
    · exact h.unpaid task hold x hx
    · exact hunpaid x hx
  · intro x hx
    rcases h.reported x hx with ⟨task, htask, hreported⟩ | hcompleted
    · exact Or.inl ⟨task, List.mem_append_left _ htask, hreported⟩
    · exact Or.inr hcompleted
  · intro task htask x hx
    rcases mem_concat_cases htask with hold | rfl
    · exact h.known task hold x hx
    · exact (hheld x hx).2

theorem goOn (h : Inv s) (hi : s.tasks[i]? = some old) (hold : old.unreported? = none)
    (relayer : ℕ) (poll : Option (List Swap)) : Inv (s.goOn i relayer poll) := by
  obtain ⟨task, isPolling, hswap, heq⟩ := s.goOn_eq i relayer poll
  rw [heq]
  refine h.replace hi ?_ ?_ ?_ isPolling s.alerts
  · intro x hx
    rw [hswap] at hx
    cases hx
  · intro x hx
    rw [Task.unpaid?_eq_none hswap] at hx
    cases hx
  · intro x _ hx
    rw [hold] at hx
    cases hx

/-- **An attempt fails** before anything was paid: its swap goes to a timer, or to the alerts. -/
theorem failed (h : Inv s) {swap : Swap} (hi : s.tasks[i]? = some old)
    (hold : old.unpaid? = some swap.txHash) (hreport : old.unreported? = none)
    (relayer attempt : ℕ) (poll : Option (List Swap)) :
    Inv (s.failed i relayer swap attempt poll) := by
  have hswap := Task.swap?_of_unpaid? hold
  have hmem : old ∈ s.tasks := mem_of_getElem? hi
  unfold State.failed
  split
  · have hgo := h.goOn hi hreport relayer poll
    obtain ⟨task, isPolling, hnone, heq⟩ := s.goOn_eq i relayer poll
    rw [heq] at hgo ⊢
    refine hgo.concat ?_ ?_ ?_ isPolling
    · intro x hx other hother hx'
      cases hx
      -- the swap has just been put down by the only task that had it
      rcases mem_set_cases hother with rfl | ⟨j, hij, hj⟩
      · rw [hnone] at hx'
        cases hx'
      · exact hij (h.single i j old other _ hi hj hswap hx')
    · intro x hx
      cases hx
      exact ⟨h.held old hmem _ hswap, h.known old hmem _ hswap⟩
    · intro x hx
      cases hx
      exact h.unpaid old hmem _ hold
  · refine h.replace hi ?_ ?_ ?_ s.isPolling s.alerts
    · intro x hx
      cases hx
      exact hswap
    · intro x hx
      cases hx
      exact hold
    · intro x _ hx
      rw [hreport] at hx
      cases hx

/-- An attempt begins with the check of the destination. -/
theorem attempt (h : Inv s) {swap : Swap} (hi : s.tasks[i]? = some old)
    (hold : old.unpaid? = some swap.txHash) (hreport : old.unreported? = none)
    (relayer attempt : ℕ) (poll : Option (List Swap)) :
    Inv (s.attempt i relayer swap attempt poll) := by
  unfold State.attempt
  split
  · refine h.replace hi ?_ ?_ ?_ s.isPolling s.alerts
    · intro x hx
      cases hx
      exact Task.swap?_of_unpaid? hold
    · intro x hx
      cases hx
      exact hold
    · intro x _ hx
      rw [hreport] at hx
      cases hx
  · exact h.failed hi hold hreport relayer attempt poll

/-- **A lock is taken** that is free, and a swap that the core has as pending.  Nobody has this swap
in hand, and it has not been paid. -/
theorem take (h : Inv s) {relayer : ℕ} {swap : Swap} {rest : List Swap}
    (hi : s.tasks[i]? = some (.polling relayer (swap :: rest)))
    (hfree : s.locked swap.txHash = false)
    (hpending : ∃ c ∈ s.core, c.txHash = swap.txHash ∧ c.status = .lockedPending)
    (poll : Option (List Swap)) :
    Inv { s with
      locks := Function.update s.locks swap.txHash (some (s.now + lockTime))
      tasks := s.tasks.set i (.executing relayer swap 1 .sending poll) } := by
  obtain ⟨c, hc, hhash, hstatus⟩ := hpending
  have hnone : ∀ task ∈ s.tasks, task.swap? ≠ some swap.txHash := by
    intro task htask hswap
    rw [h.held task htask _ hswap] at hfree
    cases hfree
  have hunpaid : swap.txHash ∉ s.paid := by
    intro hpaid
    rcases h.reported _ hpaid with ⟨task, htask, hreported⟩ | hcompleted
    · exact hnone task htask (Task.swap?_of_unreported? hreported)
    · rw [hcompleted c hc hhash] at hstatus
      cases hstatus
  refine ⟨?_, ?_, ?_, ?_, ?_, h.paidKnown, h.nodup⟩
  · refine h.single.set ?_
    intro x hx j task _ hj
    cases hx
    exact hnone task (mem_of_getElem? hj)
  · intro task htask x hx
    by_cases heq : x = swap.txHash
    · subst heq
      have hlater : s.now < s.now + lockTime := Nat.lt_add_of_pos_right (by decide)
      change (Function.update s.locks _ (some (s.now + lockTime)) _).any (s.now < ·) = true
      rw [Function.update_self, Option.any_some]
      exact decide_eq_true hlater
    · rcases mem_set_cases htask with rfl | ⟨j, -, hj⟩
      · cases hx
        exact absurd rfl heq
      · have hheld := h.held task (mem_of_getElem? hj) x hx
        simpa only [State.locked, Function.update_of_ne heq] using hheld
  · intro task htask x hx
    rcases mem_set_cases htask with rfl | ⟨j, -, hj⟩
    · cases hx
      exact hunpaid
    · exact h.unpaid task (mem_of_getElem? hj) x hx
  · intro x hx
    rcases h.reported x hx with ⟨task, htask, hreported⟩ | hcompleted
    · refine Or.inl ⟨task, mem_set_of_ne hi htask ?_, hreported⟩
      rintro rfl
      cases hreported
    · exact Or.inr hcompleted
  · intro task htask x hx
    rcases mem_set_cases htask with rfl | ⟨j, -, hj⟩
    · cases hx
      exact ⟨c, hc, hhash⟩
    · exact h.known task (mem_of_getElem? hj) x hx

/-- **The vault pays**, for the first time. -/
theorem pay (h : Inv s) {relayer attempt : ℕ} {swap : Swap} {poll : Option (List Swap)}
    (hi : s.tasks[i]? = some (.executing relayer swap attempt .sending poll)) :
    Inv { s with
      paid := s.paid ++ [swap.txHash]
      tasks := s.tasks.set i (.executing relayer swap attempt .completing poll) } := by
  have hmem : Task.executing relayer swap attempt .sending poll ∈ s.tasks := mem_of_getElem? hi
  have hunpaid : swap.txHash ∉ s.paid := h.unpaid _ hmem _ rfl
  refine ⟨h.single.set_of_imp hi fun x hx => hx, ?_, ?_, ?_, ?_, ?_, ?_⟩
  · intro task htask x hx
    rcases mem_set_cases htask with rfl | ⟨j, -, hj⟩
    · exact h.held _ hmem x hx
    · exact h.held task (mem_of_getElem? hj) x hx
  · intro task htask x hx hpaid
    rcases mem_set_cases htask with rfl | ⟨j, hij, hj⟩
    · cases hx
    · rcases mem_concat_cases hpaid with hpaid | rfl
      · exact h.unpaid task (mem_of_getElem? hj) x hx hpaid
      · exact hij (h.single i j _ task _ hi hj rfl (Task.swap?_of_unpaid? hx))
  · intro x hx
    rcases mem_concat_cases hx with hx | rfl
    · rcases h.reported x hx with ⟨task, htask, hreported⟩ | hcompleted
      · refine Or.inl ⟨task, mem_set_of_ne hi htask ?_, hreported⟩
        rintro rfl
        cases hreported
      · exact Or.inr hcompleted
    · exact Or.inl ⟨_, mem_set_self hi, rfl⟩
  · intro task htask x hx
    rcases mem_set_cases htask with rfl | ⟨j, -, hj⟩
    · exact h.known _ hmem x hx
    · exact h.known task (mem_of_getElem? hj) x hx
  · intro x hx
    rcases mem_concat_cases hx with hx | rfl
    · exact h.paidKnown x hx
    · exact h.known _ hmem _ rfl
  · rw [List.nodup_append]
    refine ⟨h.nodup, List.nodup_cons.2 ⟨List.not_mem_nil, List.nodup_nil⟩, ?_⟩
    rintro x hx y hy rfl
    rw [List.mem_singleton.1 hy] at hx
    exact hunpaid hx

end Inv

theorem mem_completeSwap {core : List Swap} {txHash : Str} {c : Swap}
    (h : c ∈ completeSwap core txHash) :
    ∃ c' ∈ core, c'.txHash = c.txHash ∧ (c.status = .completed ∨ c' = c ∧ c.txHash ≠ txHash) := by
  obtain ⟨c', hc', heq⟩ := List.mem_map.1 h
  refine ⟨c', hc', ?_⟩
  split at heq
  · subst heq
    exact ⟨rfl, Or.inl rfl⟩
  · next hne =>
      subst heq
      exact ⟨rfl, Or.inr ⟨rfl, hne⟩⟩

theorem exists_completeSwap {core : List Swap} (txHash : Str) {x : Str}
    (h : ∃ c ∈ core, c.txHash = x) : ∃ c ∈ completeSwap core txHash, c.txHash = x := by
  obtain ⟨c, hc, hhash⟩ := h
  refine ⟨_, List.mem_map_of_mem hc, ?_⟩
  split <;> exact hhash

namespace Inv

variable {s s' : State} {i : ℕ}

/-- **The payment is reported**, and the swap completed. -/
theorem report (h : Inv s) {relayer attempt : ℕ} {swap : Swap} {poll : Option (List Swap)}
    (hi : s.tasks[i]? = some (.executing relayer swap attempt .completing poll)) :
    Inv { s with
      core := completeSwap s.core swap.txHash
      tasks := s.tasks.set i (.executing relayer swap attempt .unlocking poll) } := by
  have hmem : Task.executing relayer swap attempt .completing poll ∈ s.tasks := mem_of_getElem? hi
  refine ⟨h.single.set_of_imp hi fun x hx => hx, ?_, ?_, ?_, ?_, ?_, h.nodup⟩
  · intro task htask x hx
    rcases mem_set_cases htask with rfl | ⟨j, -, hj⟩
    · exact h.held _ hmem x hx
    · exact h.held task (mem_of_getElem? hj) x hx
  · intro task htask x hx
    rcases mem_set_cases htask with rfl | ⟨j, -, hj⟩
    · cases hx
    · exact h.unpaid task (mem_of_getElem? hj) x hx
  · intro x hx
    by_cases heq : x = swap.txHash
    · subst heq
      refine Or.inr ?_
      intro c hc hhash
      obtain ⟨c', -, -, hstatus | ⟨-, hne⟩⟩ := mem_completeSwap hc
      · exact hstatus
      · exact absurd hhash hne
    · rcases h.reported x hx with ⟨task, htask, hreported⟩ | hcompleted
      · refine Or.inl ⟨task, mem_set_of_ne hi htask ?_, hreported⟩
        rintro rfl
        cases hreported
        exact heq rfl
      · refine Or.inr ?_
        intro c hc hhash
        obtain ⟨c', hc', hhash', hstatus | ⟨rfl, -⟩⟩ := mem_completeSwap hc
        · exact hstatus
        · exact hcompleted c' hc' hhash
  · intro task htask x hx
    refine exists_completeSwap _ ?_
    rcases mem_set_cases htask with rfl | ⟨j, -, hj⟩
    · exact h.known _ hmem x hx
    · exact h.known task (mem_of_getElem? hj) x hx
  · intro x hx
    exact exists_completeSwap _ (h.paidKnown x hx)

/-- **A lock is deleted** whose swap is put down. -/
theorem unlock (h : Inv s) {relayer attempt : ℕ} {swap : Swap} {poll : Option (List Swap)}
    (hi : s.tasks[i]? = some (.executing relayer swap attempt .unlocking poll)) :
    Inv (({ s with locks := Function.update s.locks swap.txHash none } : State).goOn i relayer
      poll) := by
  have hgo := h.goOn hi rfl relayer poll
  obtain ⟨task, isPolling, hnone, heq⟩ := s.goOn_eq i relayer poll
  have heq' : ({ s with locks := Function.update s.locks swap.txHash none } : State).goOn i relayer
      poll = { s.goOn i relayer poll with
        locks := Function.update s.locks swap.txHash none } := by
    cases poll with
    | none => rfl
    | some rest => cases rest <;> rfl
  rw [heq']
  refine ⟨hgo.single, ?_, hgo.unpaid, hgo.reported, hgo.known, hgo.paidKnown, hgo.nodup⟩
  intro other hother x hx
  have hheld := hgo.held other hother x hx
  have hne : x ≠ swap.txHash := by
    rintro rfl
    rw [heq] at hother
    rcases mem_set_cases hother with rfl | ⟨j, hij, hj⟩
    · rw [hnone] at hx
      cases hx
    · exact hij (h.single i j _ other _ hi hj rfl hx)
  rw [heq] at hheld ⊢
  simpa only [State.locked, Function.update_of_ne hne] using hheld

/-- **A relayer crashes** that has no payment to report. -/
theorem crash (h : Inv s) {relayer : ℕ}
    (hsafe : ∀ task ∈ s.tasks, task.relayer? = some relayer → task.unreported? = none)
    (isPolling : ℕ → Bool) :
    Inv { s with
      tasks := s.tasks.map fun task => if task.relayer? = some relayer then .done else task
      isPolling := isPolling } := by
  have hcases : ∀ task ∈ s.tasks.map (fun task =>
      if task.relayer? = some relayer then Task.done else task), task = .done ∨ task ∈ s.tasks := by
    intro task htask
    obtain ⟨task', htask', rfl⟩ := List.mem_map.1 htask
    split
    · exact Or.inl rfl
    · exact Or.inr htask'
  refine ⟨h.single.map ?_, ?_, ?_, ?_, ?_, h.paidKnown, h.nodup⟩
  · intro task x hx
    split at hx
    · cases hx
    · exact hx
  · intro task htask x hx
    rcases hcases task htask with rfl | htask
    · cases hx
    · exact h.held task htask x hx
  · intro task htask x hx
    rcases hcases task htask with rfl | htask
    · cases hx
    · exact h.unpaid task htask x hx
  · intro x hx
    rcases h.reported x hx with ⟨task, htask, hreported⟩ | hcompleted
    · refine Or.inl ⟨task, List.mem_map.2 ⟨task, htask, ?_⟩, hreported⟩
      refine if_neg ?_
      intro hrelayer
      rw [hsafe task htask hrelayer] at hreported
      cases hreported
    · exact Or.inr hcompleted
  · intro task htask x hx
    rcases hcases task htask with rfl | htask
    · cases hx
    · exact h.known task htask x hx

/-- **Every safe step keeps the invariant.** -/
theorem step (h : Inv s) {e : Event} (hsafe : Safe s e s') (hstep : step s e = some s') :
    Inv s' := by
  cases e with
  | tick ms =>
      cases hstep
      refine ⟨h.single, ?_, h.unpaid, h.reported, h.known, h.paidKnown, h.nodup⟩
      intro task htask x hx
      exact hsafe task htask x hx
  | lockSwap swap =>
      simp only [Relayer.step] at hstep
      split at hstep
      · next hnew =>
          cases hstep
          refine ⟨h.single, h.held, h.unpaid, ?_, ?_, ?_, h.nodup⟩
          · intro x hx
            rcases h.reported x hx with hreported | hcompleted
            · exact Or.inl hreported
            · refine Or.inr ?_
              intro c hc hhash
              rcases mem_concat_cases hc with hc | rfl
              · exact hcompleted c hc hhash
              · obtain ⟨c', hc', hhash'⟩ := h.paidKnown x hx
                exact absurd (hhash'.trans hhash.symm) (hnew.2 c' hc')
          · intro task htask x hx
            obtain ⟨c, hc, hhash⟩ := h.known task htask x hx
            exact ⟨c, List.mem_append_left _ hc, hhash⟩
          · intro x hx
            obtain ⟨c, hc, hhash⟩ := h.paidKnown x hx
            exact ⟨c, List.mem_append_left _ hc, hhash⟩
      · cases hstep
  | poll relayer ok =>
      simp only [Relayer.step] at hstep
      split at hstep
      · cases hstep
        exact h
      · split at hstep
        · cases hstep
          exact h
        · split at hstep
          · cases hstep
            exact h
          · cases hstep
            refine h.concat ?_ ?_ ?_ _ <;>
              · intro x hx
                cases hx
  | acquire i effect ok =>
      simp only [Relayer.step] at hstep
      split at hstep
      · next relayer swap rest hi =>
          simp only [Safe, hi] at hsafe
          -- a lock that nobody holds may be written without harm
          have hlocks : ∀ locks, (∀ x, s.locked x = true → locks x = s.locks x) →
              Inv { s with locks := locks } := by
            intro locks hlocks
            refine ⟨h.single, ?_, h.unpaid, h.reported, h.known, h.paidKnown, h.nodup⟩
            intro task htask x hx
            have hheld := h.held task htask x hx
            simp only [State.locked, hlocks x hheld]
            exact hheld
          have hset : s.locked swap.txHash = false → Inv { s with
              locks := Function.update s.locks swap.txHash (some (s.now + lockTime)) } := by
            intro hfree
            refine hlocks _ ?_
            intro x hx
            have hne : x ≠ swap.txHash := by
              rintro rfl
              rw [hfree] at hx
              cases hx
            exact Function.update_of_ne hne _ _
          cases hlocked : s.locked swap.txHash with
          | false =>
              simp only [hlocked, Bool.not_false, and_true] at hstep
              cases effect with
              | false =>
                  cases ok with
                  | false =>
                      cases hstep
                      exact h.goOn hi rfl relayer (some [])
                  | true => cases hstep
              | true =>
                  cases ok with
                  | false =>
                      cases hstep
                      exact (hset hlocked).goOn hi rfl relayer (some [])
                  | true =>
                      simp only [if_true, Bool.true_eq_false, if_false, Option.some.injEq] at hstep
                      subst hstep
                      have htake := h.take hi hlocked hsafe (some rest)
                      have hi' : ({ s with
                          locks := Function.update s.locks swap.txHash (some (s.now + lockTime))
                          tasks := s.tasks.set i (.executing relayer swap 1 .sending (some rest)) }
                          : State).tasks[i]?
                          = some (.executing relayer swap 1 .sending (some rest)) := by
                        obtain ⟨hlt, -⟩ := List.getElem?_eq_some_iff.1 hi
                        exact List.getElem?_set_self hlt
                      have hattempt := htake.attempt hi' rfl rfl relayer 1 (some rest)
                      unfold State.attempt at hattempt ⊢
                      split
                      · next hvalid =>
                          rw [if_pos hvalid] at hattempt
                          simpa only [List.set_set] using hattempt
                      · next hvalid =>
                          rw [if_neg hvalid] at hattempt
                          exact (State.failed_set { s with
                            locks := Function.update s.locks swap.txHash (some (s.now + lockTime)) }
                            i relayer swap 1 (some rest) _) ▸ hattempt
          | true =>
              simp only [hlocked, Bool.not_true, Bool.false_eq_true, and_false, if_false] at hstep
              cases ok with
              | false =>
                  cases hstep
                  exact h.goOn hi rfl relayer (some [])
              | true =>
                  cases effect with
                  | false => cases hstep
                  | true =>
                      cases hstep
                      exact h.goOn hi rfl relayer (some rest)
      · cases hstep
  | send i effect reply =>
      simp only [Relayer.step] at hstep
      split at hstep
      · next relayer swap attempt poll hi =>
          cases effect with
          | true =>
              cases (hsafe rfl : reply = .success)
              cases hstep
              exact h.pay hi
          | false =>
              simp only [Bool.false_eq_true, if_false] at hstep
              split at hstep
              · cases hstep
                have hnew : ∀ x, (Task.executing relayer swap attempt .completing poll).swap?
                    = some x → (Task.executing relayer swap attempt .sending poll).swap?
                    = some x := fun x hx => hx
                refine h.replace hi hnew ?_ ?_ s.isPolling s.alerts
                · intro x hx
                  cases hx
                · intro x _ hx
                  cases hx
              · cases hstep
                exact h.failed hi rfl rfl relayer attempt poll
      · cases hstep
  | complete i effect ok =>
      simp only [Relayer.step] at hstep
      split at hstep
      · next relayer swap attempt poll hi =>
          obtain ⟨rfl, rfl⟩ := hsafe
          cases hstep
          exact h.report hi
      · cases hstep
  | unlock i effect ok =>
      simp only [Relayer.step] at hstep
      split at hstep
      · next relayer swap attempt poll hi =>
          cases (hsafe : ok = true)
          cases effect with
          | true =>
              cases hstep
              exact h.unlock hi
          | false =>
              cases hstep
              exact h.goOn hi rfl relayer poll
      · cases hstep
  | alert i effect ok =>
      simp only [Relayer.step] at hstep
      split at hstep
      · next relayer swap attempt poll hi =>
          have halerts : ∀ alerts, Inv { s with alerts := alerts } := fun _ =>
            ⟨h.single, h.held, h.unpaid, h.reported, h.known, h.paidKnown, h.nodup⟩
          cases effect <;> cases ok <;> cases hstep
          · exact h.goOn hi rfl relayer _
          · exact h.goOn hi rfl relayer poll
          · exact (halerts (s.alerts ++ [swap.txHash])).goOn hi rfl relayer _
          · exact (halerts (s.alerts ++ [swap.txHash])).goOn hi rfl relayer poll
      · cases hstep
  | wake i =>
      simp only [Relayer.step] at hstep
      split at hstep
      · next relayer swap attempt hi =>
          cases hstep
          exact h.attempt hi rfl rfl relayer attempt none
      · cases hstep
  | crash relayer =>
      cases hstep
      exact h.crash hsafe _

end Inv

/-! ### Runs -/

theorem Inv.start : Inv start := by
  refine ⟨Distinct.nil, ?_, ?_, ?_, ?_, ?_, List.nodup_nil⟩ <;> simp [Relayer.start]

/-- **In a run of safe steps no swap is paid twice.** -/
theorem paid_once_of_safe {events : List Event} {t : State}
    (hsafe : EveryStep step Safe start events) (hrun : run step start events = some t) :
    t.paid.Nodup :=
  (run_induction (I := Inv) (P := Safe) (fun _ _ _ h hs hstep => h.step hs hstep) Inv.start hsafe
    hrun).nodup

def sampleSwap (txHash : String) : Swap where
  txHash := txHash.toList
  targetAsset := "ETH".toList
  amount := "1000".toList
  destAddr := "0x52908400098527886E0F7030069857D2E4169EE7".toList
  status := .lockedPending

def sampleEvents : List Event :=
  [.lockSwap (sampleSwap "a1"), .lockSwap (sampleSwap "b2"), .poll 1 true, .poll 2 true,
   .acquire 0 true true, .acquire 1 true true, .acquire 1 true true, .send 0 false .failure,
   .acquire 0 true true, .send 1 true .success, .tick 2000, .wake 2, .send 2 true .success,
   .complete 2 true true, .complete 1 true true, .unlock 2 true true, .unlock 1 true true,
   .tick 400000, .poll 1 true]

theorem paid_once_of_safe_sampleEvents :
    EveryStep step Safe start sampleEvents ∧
      ∃ t, run step start sampleEvents = some t ∧ t.paid = ["b2".toList, "a1".toList] ∧
        t.paid.Nodup := by
  have hsafe : EveryStep step Safe start sampleEvents := by decide +kernel
  have hpaid : (run step start sampleEvents).map State.paid
      = some ["b2".toList, "a1".toList] := by decide +kernel
  obtain ⟨t, hrun, ht⟩ := Option.map_eq_some_iff.1 hpaid
  exact ⟨hsafe, t, hrun, ht, paid_once_of_safe hsafe hrun⟩

/-- **A payment that comes back as an error is made again**: the vault pays and does not say so. -/
theorem not_paid_once :
    ¬ ∀ (events : List Event) (t : State), run step start events = some t → t.paid.Nodup := by
  intro h
  have hpaid : (run step start [.lockSwap (sampleSwap "a1"), .poll 1 true, .acquire 0 true true,
      .send 0 true .throws, .wake 1, .send 1 true .success]).map State.paid
      = some ["a1".toList, "a1".toList] := by decide +kernel
  obtain ⟨t, hrun, ht⟩ := Option.map_eq_some_iff.1 hpaid
  have hnodup := h _ t hrun
  rw [ht] at hnodup
  exact absurd hnodup (by decide)

end Relayer
