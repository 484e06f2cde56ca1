/-
**Loops that stop at the first failure.**

A C++ loop whose body may `return false` runs over its elements, changes a state on the way, and
leaves the state as it was when the body failed.  `Cpp.forEach` is that loop: the state survives
a failure, which is what distinguishes it from a loop in an exception monad.

Main definitions:

* `Cpp.forEach`, and `Cpp.turns` — what it runs its body on.

Main results:

* `Cpp.forEach_invariant` — what every turn keeps holds at the end, **failure or not**.
-/

import Mathlib.Data.List.Basic

set_option autoImplicit false

namespace Cpp

section Loop

variable {α σ : Type} {body : α → σ → Bool × σ}

/-- Run the body on each element until it fails; the flag says whether it never did. -/
def forEach (body : α → σ → Bool × σ) : List α → σ → Bool × σ
  | [], s => (true, s)
  | a :: l, s => if (body a s).1 then forEach body l (body a s).2 else body a s

@[simp] theorem forEach_nil (s : σ) : forEach body [] s = (true, s) := rfl

theorem forEach_cons (a : α) (l : List α) (s : σ) :
    forEach body (a :: l) s =
      if (body a s).1 then forEach body l (body a s).2 else body a s := rfl

theorem forEach_cons_true {a : α} {l : List α} {s : σ} (h : (body a s).1 = true) :
    forEach body (a :: l) s = forEach body l (body a s).2 := by
  rw [forEach_cons, if_pos h]

theorem forEach_cons_false {a : α} {l : List α} {s : σ} (h : (body a s).1 = false) :
    forEach body (a :: l) s = body a s := by
  rw [forEach_cons, h, if_neg Bool.false_ne_true]

theorem forEach_cons_fst {a : α} {l : List α} {s : σ} (h : (forEach body (a :: l) s).1 = true) :
    (body a s).1 = true ∧ (forEach body l (body a s).2).1 = true := by
  cases hb : (body a s).1 with
  | false =>
      rw [forEach_cons_false hb, hb] at h
      exact Bool.noConfusion h
  | true =>
      rw [forEach_cons_true hb] at h
      exact ⟨rfl, h⟩

/-- **What every turn keeps holds at the end**, whether the loop failed or not. -/
theorem forEach_invariant (body : α → σ → Bool × σ) (I : σ → Prop) {l : List α} {s : σ}
    (hbody : ∀ a ∈ l, ∀ s, I s → I (body a s).2) (hs : I s) : I (forEach body l s).2 := by
  induction l generalizing s with
  | nil => exact hs
  | cons a l ih =>
      have hnext := hbody a List.mem_cons_self s hs
      cases hb : (body a s).1 with
      | false =>
          rw [forEach_cons_false hb]
          exact hnext
      | true =>
          rw [forEach_cons_true hb]
          exact ih (fun b h => hbody b (List.mem_cons_of_mem a h)) hnext

/-- The elements that have a turn, each with the state it finds. -/
def turns (body : α → σ → Bool × σ) : List α → σ → List (α × σ)
  | [], _ => []
  | a :: l, s => (a, s) :: if (body a s).1 then turns body l (body a s).2 else []

theorem fst_mem_of_mem_turns {l : List α} {s : σ} {t : α × σ} (h : t ∈ turns body l s) :
    t.1 ∈ l := by
  induction l generalizing s with
  | nil => exact absurd h List.not_mem_nil
  | cons a l ih =>
      rw [turns] at h
      rcases List.mem_cons.1 h with rfl | h
      · exact List.mem_cons_self
      · split at h
        · exact List.mem_cons_of_mem _ (ih h)
        · exact absurd h List.not_mem_nil

end Loop

end Cpp
