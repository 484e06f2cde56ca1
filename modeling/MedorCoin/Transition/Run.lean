/-
**Runs of a system that takes one event after another.**

A system is a partial function that says what an event does to a state, with no value where the
event cannot happen.  What happens next is chosen outside the system, so a run is a list of events.
A claim about a run says something of every step of it: of the state before, the event and the
state after.  Where every event makes something smaller that cannot shrink for ever, a system cannot
go on for ever either, and every state leads to one in which nothing can happen any more.

A machine takes one input after another and answers each; it is in one of two states that a relation
holds between.  If every step keeps the relation, whatever the answers are, then the two runs give
the same answers exactly if they do so at each step.

Main definitions:

* `Transition.run` — the state after a list of events;
* `Transition.EveryStep` — a property of every step of a run;
* `Transition.Stuck` — nothing can happen;
* `Lockstep.answers`, `Lockstep.after` — the answers of a run, and the state at its end;
* `Lockstep.EveryPair` — a property of the two states and the input, for every step.

Main results:

* `Transition.run_induction` — **an invariant of the steps is an invariant of the run**;
* `Transition.EveryStep.of_invariant` — what follows from an invariant at one step holds of every
  step;
* `Transition.everyStep_iff` — **two properties of a step that come to the same under an invariant
  come to the same over a run**;
* `Transition.length_add_le` — a run is no longer than what there is to shrink;
* `Transition.exists_run_stuck` — **some run comes to an end**;
* `Lockstep.after_related` — **what every pair of steps keeps holds at the end of both runs**;
* `Lockstep.answers_eq_iff` — **two runs give the same answers exactly if every pair of steps
  does**.
-/

import Mathlib.Data.List.Basic

set_option autoImplicit false

namespace Transition

variable {σ ε : Type}

/-- The state after a list of events, `none` if one of them cannot happen. -/
def run (step : σ → ε → Option σ) : σ → List ε → Option σ
  | s, [] => some s
  | s, e :: es => (step s e).bind fun s' => run step s' es

/-- A property of the state before, the event and the state after, for every step of a run. -/
def EveryStep (step : σ → ε → Option σ) (P : σ → ε → σ → Prop) : σ → List ε → Prop
  | _, [] => True
  | s, e :: es => ∀ s', step s e = some s' → P s e s' ∧ EveryStep step P s' es

variable {step : σ → ε → Option σ} {P Q : σ → ε → σ → Prop} {I : σ → Prop}

@[simp] theorem run_nil (s : σ) : run step s [] = some s := rfl

theorem run_cons_eq_some {s t : σ} {e : ε} {es : List ε} :
    run step s (e :: es) = some t ↔ ∃ s', step s e = some s' ∧ run step s' es = some t :=
  Option.bind_eq_some_iff

@[simp] theorem everyStep_nil (s : σ) : EveryStep step P s [] := trivial

/-- A property of the steps of a run can be tested. -/
instance EveryStep.decidable [∀ s e s', Decidable (P s e s')] :
    ∀ (s : σ) (es : List ε), Decidable (EveryStep step P s es)
  | _, [] => isTrue trivial
  | s, e :: es =>
      match h : step s e with
      | none => isTrue fun _ hs => nomatch h.symm.trans hs
      | some s' =>
          have := EveryStep.decidable s' es
          decidable_of_iff (P s e s' ∧ EveryStep step P s' es)
            ⟨fun hs _ ht => Option.some.inj (h.symm.trans ht) ▸ hs, fun hs => hs s' h⟩

theorem everyStep_of_forall_mem {R : ε → Prop} {s : σ} {es : List ε} (h : ∀ e ∈ es, R e) :
    EveryStep step (fun _ e _ => R e) s es := by
  induction es generalizing s with
  | nil => trivial
  | cons e es ih =>
      intro s' _
      exact ⟨h e List.mem_cons_self, ih fun e' he' => h e' (List.mem_cons_of_mem e he')⟩

theorem EveryStep.last {s t u : σ} {es : List ε} {e : ε}
    (h : EveryStep step P s (es ++ [e])) (hrun : run step s es = some t)
    (hstep : step t e = some u) : P t e u := by
  induction es generalizing s with
  | nil =>
      rw [run_nil, Option.some.injEq] at hrun
      exact (h u (hrun ▸ hstep)).1 |> (hrun ▸ ·)
  | cons e' es ih =>
      obtain ⟨s', hs, hrest⟩ := run_cons_eq_some.1 hrun
      exact ih (h s' hs).2 hrest

theorem EveryStep.exists_end {R : σ → Prop} {q : σ → Bool} {s : σ} {es : List ε} {e : ε}
    (h : EveryStep step (fun _ _ t => R t) s (es ++ [e]))
    (hrun : (run step s (es ++ [e])).any q = true) : ∃ t, R t ∧ q t = true := by
  induction es generalizing s with
  | nil =>
      obtain ⟨t, ht, hq⟩ := (Option.any_eq_true q _).1 hrun
      obtain ⟨s', hs, hrest⟩ := run_cons_eq_some.1 ht
      rw [run_nil, Option.some.injEq] at hrest
      exact ⟨t, (h t (hrest ▸ hs)).1, hq⟩
  | cons e' es ih =>
      obtain ⟨t, ht, hq⟩ := (Option.any_eq_true q _).1 hrun
      obtain ⟨s', hs, hrest⟩ := run_cons_eq_some.1 ht
      exact ih (h s' hs).2 ((Option.any_eq_true q _).2 ⟨t, hrest, hq⟩)

/-- **What every step keeps holds at the end of a run**, when every step meets the condition under
which it keeps it. -/
theorem run_induction (hstep : ∀ s e s', I s → P s e s' → step s e = some s' → I s') {s t : σ}
    {es : List ε} (hs : I s) (hP : EveryStep step P s es) (hrun : run step s es = some t) :
    I t := by
  induction es generalizing s with
  | nil =>
      rw [run_nil, Option.some.injEq] at hrun
      exact hrun ▸ hs
  | cons e es ih =>
      obtain ⟨s', hs', hrest⟩ := run_cons_eq_some.1 hrun
      obtain ⟨hPs, hPes⟩ := hP s' hs'
      exact ih (hstep s e s' hs hPs hs') hPes hrest

theorem run_invariant (hstep : ∀ s e s', I s → step s e = some s' → I s') {s t : σ} {es : List ε}
    (hs : I s) (hrun : run step s es = some t) : I t := by
  induction es generalizing s with
  | nil =>
      rw [run_nil, Option.some.injEq] at hrun
      exact hrun ▸ hs
  | cons e es ih =>
      obtain ⟨s', hs', hrest⟩ := run_cons_eq_some.1 hrun
      exact ih (hstep s e s' hs hs') hrest

theorem EveryStep.of_invariant
    (hstep : ∀ s e s', I s → P s e s' → step s e = some s' → I s' ∧ Q s e s') {s : σ}
    {es : List ε} (hs : I s) (hP : EveryStep step P s es) : EveryStep step Q s es := by
  induction es generalizing s with
  | nil => trivial
  | cons e es ih =>
      intro s' hs'
      obtain ⟨hPs, hPes⟩ := hP s' hs'
      obtain ⟨hI, hQ⟩ := hstep s e s' hs hPs hs'
      exact ⟨hQ, ih hI hPes⟩

/-- **Two properties that agree on every step from a state with the invariant agree on runs**, when
a step that has the one keeps the invariant. -/
theorem everyStep_iff
    (hstep : ∀ s e s', I s → step s e = some s' → (P s e s' ↔ Q s e s') ∧ (Q s e s' → I s'))
    {s : σ} {es : List ε} (hs : I s) : EveryStep step P s es ↔ EveryStep step Q s es := by
  constructor
  · exact EveryStep.of_invariant (fun s e s' hI hP hs' =>
      have h := hstep s e s' hI hs'
      ⟨h.2 (h.1.1 hP), h.1.1 hP⟩) hs
  · exact EveryStep.of_invariant (fun s e s' hI hQ hs' =>
      have h := hstep s e s' hI hs'
      ⟨h.2 hQ, h.1.2 hQ⟩) hs

/-! ### Runs that come to an end -/

section Stuck

variable {σ ε : Type} {step : σ → ε → Option σ} {I : σ → Prop} {μ : σ → ℕ}

/-- Nothing can happen any more. -/
def Stuck (step : σ → ε → Option σ) (s : σ) : Prop := ∀ e, step s e = none

theorem run_append (s : σ) (es es' : List ε) :
    run step s (es ++ es') = (run step s es).bind fun t => run step t es' := by
  induction es generalizing s with
  | nil => rfl
  | cons e es ih =>
      rw [List.cons_append, run, run, Option.bind_assoc]
      exact Option.bind_congr fun s' _ => ih s'

theorem length_add_le (hμ : ∀ s e s', I s → step s e = some s' → I s' ∧ μ s' < μ s) {s t : σ}
    {es : List ε} (hs : I s) (hrun : run step s es = some t) : es.length + μ t ≤ μ s := by
  induction es generalizing s with
  | nil =>
      rw [run_nil, Option.some.injEq] at hrun
      rw [hrun, List.length_nil]
      omega
  | cons e es ih =>
      obtain ⟨s', hs', hrest⟩ := run_cons_eq_some.1 hrun
      obtain ⟨hI, hless⟩ := hμ s e s' hs hs'
      have hle := ih hI hrest
      rw [List.length_cons]
      omega

/-- **Some run comes to an end.** -/
theorem exists_run_stuck (hμ : ∀ s e s', I s → step s e = some s' → I s' ∧ μ s' < μ s) {s : σ}
    (hs : I s) : ∃ es t, run step s es = some t ∧ Stuck step t := by
  generalize hn : μ s = n
  induction n using Nat.strongRecOn generalizing s with
  | ind n ih =>
      by_cases hstuck : Stuck step s
      · exact ⟨[], s, rfl, hstuck⟩
      · obtain ⟨e, he⟩ := not_forall.1 hstuck
        obtain ⟨s', hs'⟩ := Option.ne_none_iff_exists'.1 he
        obtain ⟨hI, hless⟩ := hμ s e s' hs hs'
        obtain ⟨es, t, hrun, ht⟩ := ih (μ s') (hn ▸ hless) hI rfl
        exact ⟨e :: es, t, run_cons_eq_some.2 ⟨s', hs', hrun⟩, ht⟩

end Stuck

end Transition

namespace Lockstep

variable {σ ι ο : Type}

/-- The answers of a run. -/
def answers (step : σ → ι → ο × σ) : σ → List ι → List ο
  | _, [] => []
  | s, i :: is => (step s i).1 :: answers step (step s i).2 is

/-- The state at the end of a run. -/
def after (step : σ → ι → ο × σ) : σ → List ι → σ
  | s, [] => s
  | s, i :: is => after step (step s i).2 is

/-- A property of the two states before a step and of the input, for every step of two runs. -/
def EveryPair (step : σ → ι → ο × σ) (P : σ → σ → ι → Prop) : σ → σ → List ι → Prop
  | _, _, [] => True
  | s, t, i :: is => P s t i ∧ EveryPair step P (step s i).2 (step t i).2 is

variable {step : σ → ι → ο × σ} {R : σ → σ → Prop} {P Q : σ → σ → ι → Prop}

@[simp] theorem answers_nil (s : σ) : answers step s [] = [] := rfl

@[simp] theorem after_nil (s : σ) : after step s [] = s := rfl

@[simp] theorem after_cons (s : σ) (i : ι) (is : List ι) :
    after step s (i :: is) = after step (step s i).2 is := rfl

/-- **What every pair of steps keeps holds at the end of both runs.** -/
theorem after_related (hstep : ∀ s t i, R s t → R (step s i).2 (step t i).2) {s t : σ}
    (h : R s t) (is : List ι) : R (after step s is) (after step t is) := by
  induction is generalizing s t with
  | nil => exact h
  | cons i is ih => exact ih (hstep s t i h)

/-- **Two runs give the same answers exactly if every pair of steps does.** -/
theorem answers_eq_iff (hstep : ∀ s t i, R s t → R (step s i).2 (step t i).2)
    (hanswer : ∀ s t i, R s t → ((step s i).1 = (step t i).1 ↔ P s t i)) {s t : σ} (h : R s t)
    (is : List ι) : answers step s is = answers step t is ↔ EveryPair step P s t is := by
  induction is generalizing s t with
  | nil => exact iff_of_true rfl trivial
  | cons i is ih =>
      rw [answers, answers, EveryPair, List.cons.injEq, hanswer s t i h, ih (hstep s t i h)]

end Lockstep
