/-
**Exceptions: computations that return a value or throw.**

A JavaScript function that may throw becomes a function into `Except Js.Error`.  The lemmas of
this module take such a computation apart: what must have happened if a sequence of statements
returned (`Js.bind_eq_ok`), if a guard let it pass (`Js.require_eq_ok`) or if a loop over an
array ran to its end (`Js.foldlM_cons_eq_ok`, `Js.mapM_eq_ok_iff`).
-/

import Mathlib.Data.List.Forall2

set_option autoImplicit false

namespace Js

/-- A thrown exception: its class and its message. -/
inductive Error
  | error (message : String)
  | typeError (message : String)
  | rangeError (message : String)
  | syntaxError (message : String)
  deriving DecidableEq, Repr

section Except

variable {α β σ ε : Type}

/-- A guard: throw `e` unless the condition holds. -/
def require (condition : Bool) (e : ε) : Except ε Unit :=
  if condition then .ok () else .error e

@[simp] theorem require_eq_ok {b : Bool} {e : ε} {u : Unit} :
    require b e = .ok u ↔ b = true := by
  cases b <;> simp [require]

theorem require_eq_error {b : Bool} {e e' : ε} : require b e = .error e' ↔ b = false ∧ e = e' := by
  cases b <;> simp [require]

theorem require_true {b : Bool} {e : ε} (h : b = true) : require b e = .ok () := by
  simp [h]

theorem bind_eq_ok {x : Except ε α} {f : α → Except ε β} {b : β} :
    (x >>= f) = .ok b ↔ ∃ a, x = .ok a ∧ f a = .ok b := by
  cases x with
  | error e => simp [bind, Except.bind]
  | ok a => simp [bind, Except.bind]

@[simp] theorem ok_bind (a : α) (f : α → Except ε β) : (.ok a >>= f) = f a := rfl

@[simp] theorem error_bind (e : ε) (f : α → Except ε β) : (.error e >>= f) = .error e := rfl

@[simp] theorem pure_eq_ok (a : α) : (pure a : Except ε α) = .ok a := rfl

@[simp] theorem throw_eq_error (e : ε) : (throw e : Except ε α) = .error e := rfl

theorem bind_require_eq_ok {c : Bool} {e : ε} {f : Unit → Except ε β} {b : β} :
    (require c e >>= f) = .ok b ↔ c = true ∧ f () = .ok b := by
  cases c <;> simp [require]

theorem map_eq_ok {x : Except ε α} {f : α → β} {b : β} :
    (f <$> x) = .ok b ↔ ∃ a, x = .ok a ∧ f a = b := by
  cases x <;> simp [Functor.map, Except.map]

/-! ### Loops -/

theorem foldlM_nil_eq_ok {f : σ → α → Except ε σ} {s t : σ} :
    List.foldlM f s [] = .ok t ↔ s = t := by
  simp

theorem foldlM_cons_eq_ok {f : σ → α → Except ε σ} {s t : σ} {a : α} {l : List α} :
    List.foldlM f s (a :: l) = .ok t ↔ ∃ s', f s a = .ok s' ∧ List.foldlM f s' l = .ok t := by
  rw [List.foldlM_cons, bind_eq_ok]

theorem foldlM_append_eq_ok {f : σ → α → Except ε σ} {s t : σ} {l l' : List α} :
    List.foldlM f s (l ++ l') = .ok t ↔
      ∃ s', List.foldlM f s l = .ok s' ∧ List.foldlM f s' l' = .ok t := by
  rw [List.foldlM_append, bind_eq_ok]

theorem foldlM_snoc_eq_ok {f : σ → α → Except ε σ} {s t : σ} {a : α} {l : List α} :
    List.foldlM f s (l ++ [a]) = .ok t ↔
      ∃ s', List.foldlM f s l = .ok s' ∧ f s' a = .ok t := by
  simp only [foldlM_append_eq_ok, foldlM_cons_eq_ok, foldlM_nil_eq_ok]
  constructor
  · rintro ⟨s', h, s'', h', rfl⟩
    exact ⟨s', h, h'⟩
  · rintro ⟨s', h, h'⟩
    exact ⟨s', h, t, h', rfl⟩

theorem foldlM_invariant {f : σ → α → Except ε σ} {P : σ → Prop} {l : List α} {s t : σ}
    (hs : P s) (hstep : ∀ s a s', P s → f s a = .ok s' → P s')
    (h : List.foldlM f s l = .ok t) : P t := by
  induction l generalizing s with
  | nil => exact foldlM_nil_eq_ok.1 h ▸ hs
  | cons a l ih =>
      obtain ⟨s', h₁, h₂⟩ := foldlM_cons_eq_ok.1 h
      exact ih (hstep s a s' hs h₁) h₂

theorem mapM_eq_ok_iff {f : α → Except ε β} {l : List α} {r : List β} :
    l.mapM f = .ok r ↔ List.Forall₂ (fun a b => f a = .ok b) l r := by
  induction l generalizing r with
  | nil =>
      simp only [List.mapM_nil, pure_eq_ok, Except.ok.injEq, List.forall₂_nil_left_iff]
      exact eq_comm
  | cons a l ih =>
      simp only [List.mapM_cons, bind_eq_ok, ih, pure_eq_ok, Except.ok.injEq]
      constructor
      · rintro ⟨b, hb, bs, hbs, rfl⟩
        exact List.Forall₂.cons hb hbs
      · intro h
        cases h with
        | cons hb hbs => exact ⟨_, hb, _, hbs, rfl⟩

theorem exists_of_mapM_eq_ok {f : α → Except ε β} {l : List α} {r : List β} {a : α}
    (h : l.mapM f = .ok r) (ha : a ∈ l) : ∃ b, f a = .ok b := by
  have hall := mapM_eq_ok_iff.1 h
  clear h
  induction hall with
  | nil => cases ha
  | cons hb _ ih =>
      rcases List.mem_cons.1 ha with rfl | ha
      · exact ⟨_, hb⟩
      · exact ih ha

end Except

end Js
