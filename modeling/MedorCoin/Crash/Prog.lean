/-
**Programs that may fail or crash at any system call.**

A program works on a machine and makes system calls one after the other.  A plan says at which
call something goes wrong, and how: the call fails, and the program may catch the error, or the
process dies.  Either way the call may have been done in part.  A program run under a plan returns,
throws or crashes.

The judgement `Crash.Prog.Ends` says what holds at the end of a run for each way in which it can
end.  It has one rule for each way of putting programs together, so that a program is followed
call by call under all plans at once; what is left of the plan at the end tells how many calls
were made.

Main definitions:

* `Crash.Fault`, `Crash.Plan` — what goes wrong, and where;
* `Crash.Outcome`, `Crash.Prog` — ends of runs, and programs;
* `Crash.Prog.call` — a system call; `Crash.Prog.attempt`, `Crash.Prog.ensure` — `try`;
* `Crash.Prog.Ends` — the judgement.

Main results:

* `Crash.Prog.Ends.bind`, `Crash.Prog.Ends.attempt`, `Crash.Prog.Ends.ensure` — composed programs;
* `Crash.Prog.Ends.call` — one call; `Crash.Prog.Ends.forEach` — loops.
-/

import Mathlib.Tactic.TypeStar
import Mathlib.Algebra.Order.Ring.Nat

set_option autoImplicit false

namespace Crash

/-! ### Faults and plans -/

/-- What goes wrong at a call.  The extent says how much of the call was done. -/
inductive Fault
  | fail (extent : ℕ)
  | crash (extent : ℕ)
  deriving DecidableEq

/-- The number of calls that go well before one goes wrong, if one does. -/
abbrev Plan : Type := Option (ℕ × Fault)

/-- The same fault, `n` calls later. -/
def Plan.delay (n : ℕ) (plan : Plan) : Plan := plan.map fun p => (n + p.1, p.2)

/-- One of the next `n` calls fails. -/
def Plan.FailsBefore (n : ℕ) (plan : Plan) : Prop := ∃ k x, k < n ∧ plan = some (k, .fail x)

/-- After `n` more calls one is cut off after the extent `x`. -/
def Plan.Cuts (n x : ℕ) (plan : Plan) : Prop :=
  plan = some (n, .fail x) ∨ plan = some (n, .crash x)

@[simp] theorem Plan.delay_none (n : ℕ) : Plan.delay n none = none := rfl

@[simp] theorem Plan.delay_some (n k : ℕ) (f : Fault) :
    Plan.delay n (some (k, f)) = some (n + k, f) := rfl

theorem Plan.delay_zero (plan : Plan) : Plan.delay 0 plan = plan := by
  rcases plan with - | ⟨k, f⟩ <;> simp

theorem Plan.delay_delay (n m : ℕ) (plan : Plan) :
    Plan.delay n (Plan.delay m plan) = Plan.delay (n + m) plan := by
  rcases plan with - | ⟨k, f⟩ <;> simp [Nat.add_assoc]

theorem Plan.delay_succ {n : ℕ} {plan rest all : Plan} (hall : all = Plan.delay n plan)
    (h : plan = Plan.delay 1 rest) : all = Plan.delay (n + 1) rest := by
  rw [hall, h, Plan.delay_delay]

theorem Plan.eq_none_of_delay {n : ℕ} {rest : Plan} (h : none = Plan.delay n rest) :
    rest = none := by
  rcases rest with - | ⟨k, f⟩
  · rfl
  · cases h

theorem Plan.ne_none_of_delay {n : ℕ} {plan rest : Plan} (h : plan = Plan.delay n rest)
    (hrest : rest ≠ none) : plan ≠ none := by
  rintro rfl
  rcases rest with - | ⟨k, f⟩
  · exact hrest rfl
  · cases h

theorem Plan.FailsBefore.ne_none {n : ℕ} {plan : Plan} (h : plan.FailsBefore n) : plan ≠ none := by
  obtain ⟨k, x, -, rfl⟩ := h
  exact Option.some_ne_none _

theorem Plan.FailsBefore.mono {n m : ℕ} {plan : Plan} (h : plan.FailsBefore n) (hnm : n ≤ m) :
    plan.FailsBefore m := by
  obtain ⟨k, x, hk, hplan⟩ := h
  exact ⟨k, x, lt_of_lt_of_le hk hnm, hplan⟩

theorem Plan.FailsBefore.delay {n m : ℕ} {plan : Plan} (h : plan.FailsBefore n) :
    (Plan.delay m plan).FailsBefore (m + n) := by
  obtain ⟨k, x, hk, rfl⟩ := h
  exact ⟨m + k, x, Nat.add_lt_add_left hk m, rfl⟩

theorem Plan.Cuts.delay {n m x : ℕ} {plan : Plan} (h : plan.Cuts n x) :
    (Plan.delay m plan).Cuts (m + n) x := by
  rcases h with rfl | rfl
  · exact Or.inl rfl
  · exact Or.inr rfl

theorem Plan.failsBefore_of_delay {n x : ℕ} {plan all : Plan} (hall : all = Plan.delay n plan)
    (h : plan = some (0, .fail x)) : all.FailsBefore (n + 1) :=
  ⟨n, x, Nat.lt_succ_self n, by rw [hall, h, Plan.delay_some, Nat.add_zero]⟩

theorem Plan.le_of_delay {n k : ℕ} {f : Fault} {rest : Plan}
    (h : (some (k, f) : Plan) = Plan.delay n rest) : n ≤ k := by
  rcases rest with - | ⟨k', f'⟩
  · cases h
  · rw [delay_some, Option.some.injEq, Prod.mk.injEq] at h
    exact h.1 ▸ Nat.le_add_right n k'

theorem Plan.FailsBefore.lt {n k : ℕ} {f : Fault} (h : Plan.FailsBefore n (some (k, f))) :
    k < n := by
  obtain ⟨k', x, hk', hplan⟩ := h
  cases hplan
  exact hk'

/-- Nothing goes wrong, or a call fails, but there is no crash. -/
def Plan.Mild (plan : Plan) : Prop := ∀ k x, plan ≠ some (k, .crash x)

/-- What a run may leave of its plan: what is left after some calls, or nothing. -/
def Plan.Leaves (plan rest : Plan) : Prop := rest = none ∨ ∃ n, plan = Plan.delay n rest

theorem Plan.mild_none : Plan.Mild none := fun _ _ h => by cases h

theorem Plan.mild_fail (k x : ℕ) : Plan.Mild (some (k, .fail x)) := fun _ _ h => by cases h

theorem Plan.Leaves.refl (plan : Plan) : plan.Leaves plan := Or.inr ⟨0, (delay_zero plan).symm⟩

theorem Plan.Leaves.trans {plan rest rest' : Plan} (h : plan.Leaves rest)
    (h' : rest.Leaves rest') : plan.Leaves rest' := by
  rcases h' with rfl | ⟨n, rfl⟩
  · exact Or.inl rfl
  · rcases h with h | ⟨m, rfl⟩
    · exact Or.inl (eq_none_of_delay h.symm)
    · exact Or.inr ⟨m + n, delay_delay m n rest'⟩

theorem Plan.Leaves.mild {plan rest : Plan} (h : plan.Leaves rest) (hplan : plan.Mild) :
    rest.Mild := by
  rcases h with rfl | ⟨n, rfl⟩
  · exact mild_none
  · rintro k x rfl
    exact hplan (n + k) x rfl

theorem Plan.Leaves.eq_none {rest : Plan} (h : Plan.Leaves none rest) : rest = none := by
  rcases h with rfl | ⟨n, h⟩
  · rfl
  · exact eq_none_of_delay h

/-! ### Outcomes and programs -/

/-- How a run ends, and what is left of its plan. -/
inductive Outcome (μ ε α : Type)
  | returned (a : α) (m : μ) (rest : Plan)
  | thrown (e : ε) (m : μ) (rest : Plan)
  | crashed (m : μ)

/-- A program that works on a machine `μ`, throws errors `ε` and returns values `α`. -/
def Prog (μ ε α : Type) : Type := μ → Plan → Outcome μ ε α

variable {μ ε α β : Type}

/-- The machine at the end of a run. -/
def Outcome.machine : Outcome μ ε α → μ
  | .returned _ m _ => m
  | .thrown _ m _ => m
  | .crashed m => m

/-- What holds at the end of a run, for each way in which it can end. -/
def Outcome.Satisfies (o : Outcome μ ε α) (Q : α → μ → Plan → Prop) (E : ε → μ → Plan → Prop)
    (C : μ → Prop) : Prop :=
  match o with
  | .returned a m rest => Q a m rest
  | .thrown e m rest => E e m rest
  | .crashed m => C m

namespace Prog

/-- One program after the other. -/
def andThen (p : Prog μ ε α) (f : α → Prog μ ε β) : Prog μ ε β := fun m plan =>
  match p m plan with
  | .returned a m' rest => f a m' rest
  | .thrown e m' rest => .thrown e m' rest
  | .crashed m' => .crashed m'

instance : Monad (Prog μ ε) where
  pure a := fun m plan => .returned a m plan
  bind := andThen

/-- `throw e`. -/
def raise (e : ε) : Prog μ ε α := fun m plan => .thrown e m plan

/-- `try { p } catch (e) { handler(e) }`. -/
def attempt (p : Prog μ ε α) (handler : ε → Prog μ ε α) : Prog μ ε α := fun m plan =>
  match p m plan with
  | .thrown e m' rest => handler e m' rest
  | o => o

/-- `try { p } finally { last }`. -/
def ensure (p : Prog μ ε α) (last : Prog μ ε Unit) : Prog μ ε α := do
  let a ← attempt p fun e => do
    last
    raise e
  last
  return a

/-- Read the machine. -/
def read (f : μ → α) : Prog μ ε α := fun m plan => .returned (f m) m plan

/-- Change the machine, without a system call. -/
def update (f : μ → μ) : Prog μ ε Unit := fun m plan => .returned () (f m) plan

/-- A system call: what it does when it goes well, and what it has done when it goes wrong after
some extent. -/
def call (failure : ε) (run : μ → Except ε (α × μ)) (cut : ℕ → μ → μ) : Prog μ ε α :=
  fun m plan =>
    match plan with
    | some (0, .fail extent) => .thrown failure (cut extent m) none
    | some (0, .crash extent) => .crashed (cut extent m)
    | some (k + 1, f) =>
        match run m with
        | .ok (a, m') => .returned a m' (some (k, f))
        | .error e => .thrown e m (some (k, f))
    | none =>
        match run m with
        | .ok (a, m') => .returned a m' none
        | .error e => .thrown e m none

/-- Do something for every item of a list. -/
def forEach (l : List α) (body : α → Prog μ ε Unit) : Prog μ ε Unit :=
  match l with
  | [] => pure ()
  | a :: l => do
      body a
      forEach l body

theorem bind_of_returned {p : Prog μ ε α} {f : α → Prog μ ε β} {m m' : μ} {plan rest : Plan} {a : α}
    (h : p m plan = .returned a m' rest) : (p >>= f) m plan = f a m' rest := by
  change andThen p f m plan = f a m' rest
  rw [andThen, h]

theorem bind_of_thrown {p : Prog μ ε α} {f : α → Prog μ ε β} {m m' : μ} {plan rest : Plan} {e : ε}
    (h : p m plan = .thrown e m' rest) : (p >>= f) m plan = .thrown e m' rest := by
  change andThen p f m plan = _
  rw [andThen, h]

theorem bind_of_crashed {p : Prog μ ε α} {f : α → Prog μ ε β} {m m' : μ} {plan : Plan}
    (h : p m plan = .crashed m') : (p >>= f) m plan = .crashed m' := by
  change andThen p f m plan = _
  rw [andThen, h]

/-! ### The judgement -/

/-- Run on `m` under a plan, the program ends in one of the ways allowed: it returns with `Q`, it
throws with `E`, or it crashes with `C`. -/
def Ends (p : Prog μ ε α) (m : μ) (plan : Plan) (Q : α → μ → Plan → Prop)
    (E : ε → μ → Plan → Prop) (C : μ → Prop) : Prop :=
  (p m plan).Satisfies Q E C

variable {p : Prog μ ε α} {f : α → Prog μ ε β} {m : μ} {plan : Plan} {a : α} {e : ε}
  {Q Q' : α → μ → Plan → Prop} {E E' : ε → μ → Plan → Prop} {C C' : μ → Prop}

theorem Ends.pure (h : Q a m plan) : Ends (Pure.pure a) m plan Q E C := h

theorem Ends.raise (h : E e m plan) : Ends (Prog.raise e) m plan Q E C := h

theorem Ends.read {g : μ → α} (h : Q (g m) m plan) : Ends (Prog.read g) m plan Q E C := h

theorem Ends.update {g : μ → μ} {Q : Unit → μ → Plan → Prop} (h : Q () (g m) plan) :
    Ends (Prog.update g) m plan Q E C := h

theorem Ends.mono (h : Ends p m plan Q' E' C') (hQ : ∀ a m rest, Q' a m rest → Q a m rest)
    (hE : ∀ e m rest, E' e m rest → E e m rest) (hC : ∀ m, C' m → C m) :
    Ends p m plan Q E C := by
  rw [Ends] at h ⊢
  cases hp : p m plan with
  | returned a m' rest =>
      rw [hp] at h
      exact hQ a m' rest h
  | thrown e m' rest =>
      rw [hp] at h
      exact hE e m' rest h
  | crashed m' =>
      rw [hp] at h
      exact hC m' h

/-- **One program after the other.** -/
theorem Ends.bind {Q : β → μ → Plan → Prop}
    (h : Ends p m plan (fun a m' rest => Ends (f a) m' rest Q E C) E C) :
    Ends (p >>= f) m plan Q E C := by
  rw [Ends] at h
  cases hp : p m plan with
  | returned a m' rest =>
      rw [hp] at h
      have hrun : (p >>= f) m plan = f a m' rest := by
        simp only [Bind.bind, andThen, hp]
      rw [Ends, hrun]
      exact h
  | thrown e m' rest =>
      rw [hp] at h
      have hrun : (p >>= f) m plan = .thrown e m' rest := by
        simp only [Bind.bind, andThen, hp]
      rw [Ends, hrun]
      exact h
  | crashed m' =>
      rw [hp] at h
      have hrun : (p >>= f) m plan = .crashed m' := by
        simp only [Bind.bind, andThen, hp]
      rw [Ends, hrun]
      exact h

/-- **Catching**: the handler goes on where the error was thrown. -/
theorem Ends.attempt {handler : ε → Prog μ ε α}
    (h : Ends p m plan Q (fun e m' rest => Ends (handler e) m' rest Q E C) C) :
    Ends (Prog.attempt p handler) m plan Q E C := by
  rw [Ends] at h
  rw [Ends, Prog.attempt]
  cases hp : p m plan with
  | returned a m' rest =>
      rw [hp] at h
      exact h
  | thrown e m' rest =>
      rw [hp] at h
      exact h
  | crashed m' =>
      rw [hp] at h
      exact h

/-- **What comes last** comes after a return and after an error alike, but not after a crash. -/
theorem Ends.ensure {last : Prog μ ε Unit}
    (h : Ends p m plan (fun a m' rest => Ends last m' rest (fun _ => Q a) E C)
      (fun e m' rest => Ends last m' rest (fun _ => E e) E C) C) :
    Ends (Prog.ensure p last) m plan Q E C := by
  refine Ends.bind (Ends.attempt (h.mono ?_ ?_ fun m hm => hm))
  · intro a m' rest hlast
    exact Ends.bind (hlast.mono (fun _ m'' rest' hQ => Ends.pure hQ) (fun e m'' rest' hE => hE)
      fun m'' hC => hC)
  · intro e m' rest hlast
    exact Ends.bind (hlast.mono (fun _ m'' rest' hE => Ends.raise hE) (fun e m'' rest' hE => hE)
      fun m'' hC => hC)

/-- **A system call** goes well and uses up one call of the plan, or goes wrong. -/
theorem Ends.call {failure : ε} {run : μ → Except ε (α × μ)} {cut : ℕ → μ → μ}
    (hok : ∀ a m' rest, run m = .ok (a, m') → plan = Plan.delay 1 rest → Q a m' rest)
    (herror : ∀ e rest, run m = .error e → plan = Plan.delay 1 rest → E e m rest)
    (hfail : ∀ x, plan = some (0, .fail x) → E failure (cut x m) none)
    (hcrash : ∀ x, plan = some (0, .crash x) → C (cut x m)) :
    Ends (Prog.call failure run cut) m plan Q E C := by
  unfold Ends Prog.call
  rcases plan with - | ⟨- | k, x | x⟩
  · cases hrun : run m with
    | ok result => exact hok _ _ _ hrun rfl
    | error e => exact herror _ _ hrun rfl
  · exact hfail x rfl
  · exact hcrash x rfl
  · cases hrun : run m with
    | ok result => exact hok _ _ _ hrun (by rw [Plan.delay_some, Nat.add_comm])
    | error e => exact herror _ _ hrun (by rw [Plan.delay_some, Nat.add_comm])
  · cases hrun : run m with
    | ok result => exact hok _ _ _ hrun (by rw [Plan.delay_some, Nat.add_comm])
    | error e => exact herror _ _ hrun (by rw [Plan.delay_some, Nat.add_comm])

theorem Ends.forEachFrom {body : α → Prog μ ε Unit} {all l done : List α}
    {I : List α → μ → Plan → Prop} {Q : Unit → μ → Plan → Prop} (hall : all = done ++ l)
    (hinv : I done m plan)
    (hstep : ∀ done a todo m plan, all = done ++ a :: todo → I done m plan →
      Ends (body a) m plan (fun _ m' rest => I (done ++ [a]) m' rest) E C)
    (hend : ∀ m plan, I all m plan → Q () m plan) :
    Ends (Prog.forEach l body) m plan Q E C := by
  induction l generalizing done m plan with
  | nil =>
      rw [List.append_nil] at hall
      subst hall
      exact Ends.pure (hend m plan hinv)
  | cons a l ih =>
      rw [Prog.forEach]
      refine Ends.bind ((hstep done a l m plan hall hinv).mono ?_ (fun _ _ _ h => h) fun _ h => h)
      intro _ m' rest hinv'
      exact ih (by rw [hall, List.append_assoc, List.singleton_append]) hinv'

/-- **Loops**: what holds of the items done so far holds of all of them in the end. -/
theorem Ends.forEach {body : α → Prog μ ε Unit} {l : List α} {I : List α → μ → Plan → Prop}
    {Q : Unit → μ → Plan → Prop} (hinv : I [] m plan)
    (hstep : ∀ done a todo m plan, l = done ++ a :: todo → I done m plan →
      Ends (body a) m plan (fun _ m' rest => I (done ++ [a]) m' rest) E C)
    (hend : ∀ m plan, I l m plan → Q () m plan) : Ends (Prog.forEach l body) m plan Q E C :=
  Ends.forEachFrom rfl hinv hstep hend

theorem Ends.const {P : Prop} (hP : P) :
    Ends p m plan (fun _ _ _ => P) (fun _ _ _ => P) fun _ => P := by
  rw [Ends]
  cases p m plan with
  | returned a m' rest => exact hP
  | thrown e m' rest => exact hP
  | crashed m' => exact hP

theorem Ends.of_returned {m' : μ} {rest : Plan} (hrun : p m plan = .returned a m' rest)
    (hQ : Q a m' rest) : Ends p m plan Q E C := by
  rw [Ends, hrun]
  exact hQ

theorem Ends.returned {m' : μ} {rest : Plan} (h : Ends p m plan Q E C)
    (hrun : p m plan = .returned a m' rest) : Q a m' rest := by
  rw [Ends, hrun] at h
  exact h

theorem Ends.thrown {m' : μ} {rest : Plan} (h : Ends p m plan Q E C)
    (hrun : p m plan = .thrown e m' rest) : E e m' rest := by
  rw [Ends, hrun] at h
  exact h

theorem Ends.crashed {m' : μ} (h : Ends p m plan Q E C) (hrun : p m plan = .crashed m') :
    C m' := by
  rw [Ends, hrun] at h
  exact h

/-- What holds in every way in which a run can end holds of the machine at its end. -/
theorem Ends.machine {P : μ → Prop} (h : Ends p m plan Q E C) (hQ : ∀ a m rest, Q a m rest → P m)
    (hE : ∀ e m rest, E e m rest → P m) (hC : ∀ m, C m → P m) : P (p m plan).machine := by
  cases hrun : p m plan with
  | returned a m' rest => exact hQ a m' rest (h.returned hrun)
  | thrown e m' rest => exact hE e m' rest (h.thrown hrun)
  | crashed m' => exact hC m' (h.crashed hrun)

/-! ### Runs without a crash -/

/-- A program that does not crash unless the plan says so. -/
def NoCrash (p : Prog μ ε α) : Prop :=
  ∀ m plan, plan.Mild →
    Ends p m plan (fun _ _ rest => plan.Leaves rest) (fun _ _ rest => plan.Leaves rest)
      fun _ => False

theorem NoCrash.pure (a : α) : NoCrash (Pure.pure a : Prog μ ε α) :=
  fun _ plan _ => Ends.pure (.refl plan)

theorem NoCrash.raise (e : ε) : NoCrash (Prog.raise e : Prog μ ε α) :=
  fun _ plan _ => Ends.raise (.refl plan)

theorem NoCrash.read (g : μ → α) : NoCrash (Prog.read g : Prog μ ε α) :=
  fun _ plan _ => Ends.read (.refl plan)

theorem NoCrash.update (g : μ → μ) : NoCrash (Prog.update g : Prog μ ε Unit) :=
  fun _ plan _ => Ends.update (.refl plan)

theorem NoCrash.call (failure : ε) (run : μ → Except ε (α × μ)) (cut : ℕ → μ → μ) :
    NoCrash (Prog.call failure run cut) := by
  intro m plan hplan
  refine Ends.call ?_ ?_ (fun x _ => Or.inl rfl) fun x h => hplan 0 x h
  · intro a m' rest _ h
    exact Or.inr ⟨1, h⟩
  · intro e rest _ h
    exact Or.inr ⟨1, h⟩

theorem NoCrash.bind (hp : NoCrash p) (hf : ∀ a, NoCrash (f a)) : NoCrash (p >>= f) := by
  intro m plan hplan
  refine Ends.bind ((hp m plan hplan).mono ?_ (fun _ _ _ h => h) fun _ h => h)
  intro a m' rest hrest
  exact (hf a m' rest (hrest.mild hplan)).mono (fun _ _ _ h => hrest.trans h)
    (fun _ _ _ h => hrest.trans h) fun _ h => h

theorem NoCrash.attempt {handler : ε → Prog μ ε α} (hp : NoCrash p)
    (hh : ∀ e, NoCrash (handler e)) : NoCrash (Prog.attempt p handler) := by
  intro m plan hplan
  refine Ends.attempt ((hp m plan hplan).mono (fun _ _ _ h => h) ?_ fun _ h => h)
  intro e m' rest hrest
  exact (hh e m' rest (hrest.mild hplan)).mono (fun _ _ _ h => hrest.trans h)
    (fun _ _ _ h => hrest.trans h) fun _ h => h

theorem NoCrash.ensure {last : Prog μ ε Unit} (hp : NoCrash p) (hl : NoCrash last) :
    NoCrash (Prog.ensure p last) :=
  .bind (.attempt hp fun e => .bind hl fun _ => .raise e) fun a => .bind hl fun _ => .pure a

theorem NoCrash.forEach {body : α → Prog μ ε Unit} (l : List α) (h : ∀ a, NoCrash (body a)) :
    NoCrash (Prog.forEach l body) := by
  induction l with
  | nil => exact .pure ()
  | cons a l ih => exact .bind (h a) fun _ => ih

/-- Without a crash in the plan a judgement need not speak of crashes. -/
theorem NoCrash.ends (h : NoCrash p) (hplan : plan.Mild) (hends : Ends p m plan Q E C) :
    Ends p m plan (fun a m' rest => Q a m' rest ∧ plan.Leaves rest)
      (fun e m' rest => E e m' rest ∧ plan.Leaves rest) fun _ => False := by
  have hleaves := h m plan hplan
  rw [Ends] at hends hleaves ⊢
  cases hrun : p m plan with
  | returned a m' rest =>
      rw [hrun] at hends hleaves
      exact ⟨hends, hleaves⟩
  | thrown e m' rest =>
      rw [hrun] at hends hleaves
      exact ⟨hends, hleaves⟩
  | crashed m' =>
      rw [hrun] at hleaves
      exact hleaves

theorem NoCrash.returned_or_thrown (h : NoCrash p) (m : μ) :
    (∃ a m', p m none = .returned a m' none) ∨ ∃ e m', p m none = .thrown e m' none := by
  have hends := h m none Plan.mild_none
  cases hrun : p m none with
  | returned a m' rest =>
      obtain rfl := (hends.returned hrun).eq_none
      exact Or.inl ⟨a, m', rfl⟩
  | thrown e m' rest =>
      obtain rfl := (hends.thrown hrun).eq_none
      exact Or.inr ⟨e, m', rfl⟩
  | crashed m' => exact (hends.crashed hrun).elim

end Prog

end Crash
