/-
**The mutexes that a thread takes and gives back.**

What a thread does with its mutexes is a list of events.  A mutex that is not recursive must not be
taken by the thread that holds it: the thread would wait for itself.  A trace is disciplined if that
never happens in it.

Most traces are put together of blocks, each of which takes a mutex, does something under it and
gives it back.  Such a trace leaves the thread with the mutexes it had, so that a block is
disciplined just when its mutex is not held and what stands under it is disciplined with the mutex
held as well.

Main definitions:

* `LockTrace.Event`, `LockTrace.heldAfter` — the mutexes that are held after a list of events;
* `LockTrace.Disciplined` — **no mutex is taken by the thread that holds it**;
* `LockTrace.locked` — a block under a mutex; `LockTrace.lockAll` — several taken at once;
* `LockTrace.Balanced` — everything taken is given back;
* `LockTrace.Requires` — a balanced trace is disciplined just under a condition;
* `LockTrace.each` — calls one after the other, with what each makes of the state.

Main results:

* `LockTrace.disciplined_append` — one trace after the other;
* `LockTrace.disciplined_locked` — **a block**;
* `LockTrace.Requires.append`, `LockTrace.Requires.each` — **what a trace requires is what its parts
  require**.
-/

import Mathlib.Data.List.Basic

set_option autoImplicit false

namespace LockTrace

/-- A mutex is taken or given back. -/
inductive Event (M : Type)
  | acquire (m : M)
  | release (m : M)
  deriving DecidableEq

variable {M : Type} [DecidableEq M]

/-- The mutexes that are held after a list of events. -/
def heldAfter : List M → List (Event M) → List M
  | held, [] => held
  | held, .acquire m :: es => heldAfter (m :: held) es
  | held, .release m :: es => heldAfter (held.erase m) es

/-- **No mutex is taken by the thread that holds it.** -/
def Disciplined (held : List M) (es : List (Event M)) : Prop :=
  ∀ pre m post, es = pre ++ .acquire m :: post → m ∉ heldAfter held pre

/-- Whatever is taken is given back. -/
def Balanced (es : List (Event M)) : Prop := ∀ held, heldAfter held es = held

/-- A block under a mutex. -/
def locked (m : M) (body : List (Event M)) : List (Event M) :=
  .acquire m :: (body ++ [.release m])

variable {held : List M} {m : M} {es es' body : List (Event M)}

/-! ### One event -/

@[simp] theorem disciplined_nil : Disciplined held [] := by
  intro pre m post h
  cases pre <;> cases h

@[simp] theorem disciplined_acquire :
    Disciplined held (.acquire m :: es) ↔ m ∉ held ∧ Disciplined (m :: held) es := by
  constructor
  · intro h
    refine ⟨h [] m es rfl, fun pre m' post hsplit => ?_⟩
    exact h (.acquire m :: pre) m' post (by rw [hsplit, List.cons_append])
  · rintro ⟨hnot, h⟩ pre m' post hsplit
    cases pre with
    | nil =>
        cases hsplit
        exact hnot
    | cons e pre =>
        rw [List.cons_append, List.cons.injEq] at hsplit
        obtain ⟨rfl, hsplit⟩ := hsplit
        exact h pre m' post hsplit

@[simp] theorem disciplined_release :
    Disciplined held (.release m :: es) ↔ Disciplined (held.erase m) es := by
  constructor
  · intro h pre m' post hsplit
    exact h (.release m :: pre) m' post (by rw [hsplit, List.cons_append])
  · intro h pre m' post hsplit
    cases pre with
    | nil => cases hsplit
    | cons e pre =>
        rw [List.cons_append, List.cons.injEq] at hsplit
        obtain ⟨rfl, hsplit⟩ := hsplit
        exact h pre m' post hsplit

/-- Whether a trace is disciplined can be tested. -/
instance Disciplined.decidable :
    ∀ (held : List M) (es : List (Event M)), Decidable (Disciplined held es)
  | _, [] => isTrue disciplined_nil
  | held, .acquire m :: es =>
      have := Disciplined.decidable (m :: held) es
      decidable_of_iff (m ∉ held ∧ Disciplined (m :: held) es) disciplined_acquire.symm
  | held, .release m :: es =>
      have := Disciplined.decidable (held.erase m) es
      decidable_of_iff (Disciplined (held.erase m) es) disciplined_release.symm

/-! ### One trace after the other -/

theorem heldAfter_append :
    heldAfter held (es ++ es') = heldAfter (heldAfter held es) es' := by
  induction es generalizing held with
  | nil => rfl
  | cons e es ih =>
      cases e with
      | acquire m => exact ih
      | release m => exact ih

theorem disciplined_append :
    Disciplined held (es ++ es') ↔
      Disciplined held es ∧ Disciplined (heldAfter held es) es' := by
  induction es generalizing held with
  | nil => simp [heldAfter]
  | cons e es ih =>
      cases e with
      | acquire m => simp [heldAfter, ih, and_assoc]
      | release m => simp [heldAfter, ih]

@[simp] theorem balanced_nil : Balanced ([] : List (Event M)) := fun _ => rfl

@[simp] theorem Balanced.append (h : Balanced es) (h' : Balanced es') : Balanced (es ++ es') :=
  fun held => by rw [heldAfter_append, h, h']

theorem Balanced.disciplined_append (h : Balanced es) :
    Disciplined held (es ++ es') ↔ Disciplined held es ∧ Disciplined held es' := by
  rw [LockTrace.disciplined_append, h]

/-! ### Blocks -/

@[simp] theorem Balanced.locked (h : Balanced body) : Balanced (locked m body) := by
  intro held
  change heldAfter (m :: held) (body ++ [.release m]) = held
  rw [heldAfter_append, h]
  exact List.erase_cons_head m held

/-- **A block** is disciplined if its mutex is not held, and what stands under it is disciplined
with the mutex held as well. -/
theorem disciplined_locked (h : Balanced body) :
    Disciplined held (locked m body) ↔ m ∉ held ∧ Disciplined (m :: held) body := by
  rw [locked, disciplined_acquire, h.disciplined_append]
  simp

/-! ### What a trace requires -/

/-- **A balanced trace that is disciplined just under a condition**, if no mutex is held before. -/
structure Requires (es : List (Event M)) (C : Prop) : Prop where
  balanced : Balanced es
  disciplined : Disciplined [] es ↔ C

variable {C C' : Prop}

theorem Requires.nil : Requires ([] : List (Event M)) True :=
  ⟨balanced_nil, iff_true_intro disciplined_nil⟩

theorem Requires.append (h : Requires es C) (h' : Requires es' C') :
    Requires (es ++ es') (C ∧ C') :=
  ⟨h.balanced.append h'.balanced,
    h.balanced.disciplined_append.trans (and_congr h.disciplined h'.disciplined)⟩

theorem Requires.congr (h : Requires es C) (hiff : C ↔ C') : Requires es C' :=
  ⟨h.balanced, h.disciplined.trans hiff⟩

theorem Requires.locked (h : Balanced body) : Requires (locked m body) (Disciplined [m] body) :=
  ⟨h.locked, (disciplined_locked h).trans (and_iff_right List.not_mem_nil)⟩

/-- A block with nothing in it. -/
theorem Requires.block (m : M) : Requires (LockTrace.locked m []) True :=
  (Requires.locked balanced_nil).congr (iff_true_intro disciplined_nil)

theorem not_disciplined_locked_self : ¬ Disciplined [m] (locked m body) := by
  intro h
  exact (disciplined_acquire.1 h).1 List.mem_cons_self

theorem Requires.append_true (h : Requires es True) (h' : Requires es' C) :
    Requires (es ++ es') C :=
  (h.append h').congr (and_iff_right trivial)

/-! ### Several mutexes at once -/

/-- Several mutexes are taken, and after the last they are given back. -/
def lockAll (ms : List M) : List (Event M) := ms.map .acquire ++ ms.map .release

theorem heldAfter_acquireAll (ms held : List M) :
    heldAfter held (ms.map .acquire) = ms.reverse ++ held := by
  induction ms generalizing held with
  | nil => rfl
  | cons m ms ih => rw [List.map_cons, heldAfter, ih, List.reverse_cons, List.append_assoc]; rfl

theorem heldAfter_releaseAll {ms : List M} (h : ms.Nodup) (held : List M) :
    heldAfter (ms.reverse ++ held) (ms.map .release) = held := by
  induction ms with
  | nil => rfl
  | cons m ms ih =>
      obtain ⟨hnot, h⟩ := List.nodup_cons.1 h
      -- the first to be given back stands behind those that were taken later
      have herase : ((m :: ms).reverse ++ held).erase m = ms.reverse ++ held := by
        rw [List.reverse_cons, List.append_assoc,
          List.erase_append_right _ fun hm => hnot (List.mem_reverse.1 hm)]
        exact congrArg _ (List.erase_cons_head m held)
      rw [List.map_cons, heldAfter, herase]
      exact ih h

theorem disciplined_acquireAll {ms held : List M} (h : ms.Nodup) (hheld : ∀ m ∈ ms, m ∉ held) :
    Disciplined held (ms.map .acquire) := by
  induction ms generalizing held with
  | nil => exact disciplined_nil
  | cons m ms ih =>
      obtain ⟨hnot, h⟩ := List.nodup_cons.1 h
      refine disciplined_acquire.2 ⟨hheld m List.mem_cons_self, ih h fun m' hm' hmem => ?_⟩
      rcases List.mem_cons.1 hmem with rfl | hmem
      · exact hnot hm'
      · exact hheld m' (List.mem_cons_of_mem m hm') hmem

theorem disciplined_releaseAll (ms held : List M) : Disciplined held (ms.map .release) := by
  induction ms generalizing held with
  | nil => exact disciplined_nil
  | cons m ms ih => exact disciplined_release.2 (ih _)

/-- **Different mutexes can be taken at once.** -/
theorem Requires.lockAll {ms : List M} (h : ms.Nodup) : Requires (lockAll ms) True where
  balanced held := by
    rw [LockTrace.lockAll, heldAfter_append, heldAfter_acquireAll, heldAfter_releaseAll h]
  disciplined := by
    rw [LockTrace.lockAll, LockTrace.disciplined_append]
    exact iff_true_intro
      ⟨disciplined_acquireAll h fun _ _ => List.not_mem_nil, disciplined_releaseAll ms _⟩

/-! ### Calls one after the other -/

section

variable {σ α : Type} {events : σ → α → List (Event M)} {next : σ → α → σ}

/-- The events of a call for each item. -/
def each (events : σ → α → List (Event M)) (next : σ → α → σ) : List α → σ → List (Event M)
  | [], _ => []
  | a :: as, s => events s a ++ each events next as (next s a)

/-- A condition on each item, in the state in which its call begins. -/
def EachMeets (C : σ → α → Prop) (next : σ → α → σ) : List α → σ → Prop
  | [], _ => True
  | a :: as, s => C s a ∧ EachMeets C next as (next s a)

/-- **Calls one after the other require what each of them requires.** -/
theorem Requires.each {C : σ → α → Prop} (h : ∀ s a, Requires (events s a) (C s a)) (as : List α)
    (s : σ) : Requires (each events next as s) (EachMeets C next as s) := by
  induction as generalizing s with
  | nil => exact Requires.nil
  | cons a as ih => exact (h s a).append (ih (next s a))

theorem eachMeets_iff {C : σ → α → Prop} (h : ∀ s a b, C s a → (C (next s a) b ↔ C s b))
    (as : List α) (s : σ) : EachMeets C next as s ↔ ∀ a ∈ as, C s a := by
  induction as generalizing s with
  | nil => exact iff_of_true trivial fun _ ha => nomatch ha
  | cons a as ih =>
      rw [EachMeets, ih, List.forall_mem_cons]
      exact and_congr_right fun ha => forall₂_congr fun b _ => h s a b ha

end

end LockTrace
