/-
**Tasks in flight, and threads that share a memory.**

The tasks of a system that does several things at a time stand in a list: a new one is added at the
end, and one that goes on is replaced by what it has become.

Several threads take steps in whatever order.  A step of a thread reads and writes the shared memory
and the thread's own state, and nothing of the others.  So an invariant comes in two parts, one of
the memory and one of every thread: a step has to keep the part of the thread that takes it, and it
must not break the parts of the others.

Main definitions:

* `Transition.Distinct` — different tasks have different keys;
* `Transition.Threads`, `Transition.Threads.step` — threads, and one step of one of them;
* `Transition.Threads.Holds` — an invariant of the memory and of every thread;
* `Transition.Threads.Keeps` — **no thread breaks it**;
* `Transition.Threads.weight` — a bound on the steps that are to come.

Main results:

* `Transition.getElem?_set_cases`, `Transition.getElem?_concat` — what stands at a place after one
  task has been replaced or added;
* `Transition.Distinct.set`, `Transition.Distinct.concat` — **the keys stay different**;
* `Transition.Threads.Keeps.run` — **an invariant that no thread breaks holds after every run**;
* `Transition.Threads.Keeps.length_le_weight` — **threads whose every step counts down come to an
  end**.
-/

import Mathlib.Algebra.GroupWithZero.Nat
import Mathlib.Data.List.Basic
import MedorCoin.Transition.Run

set_option autoImplicit false

namespace Transition

/-! ### Tasks -/

section Tasks

variable {α κ : Type} {l : List α} {i j : ℕ} {a b c : α}

theorem getElem?_set_cases (h : (l.set i b)[j]? = some a) :
    i = j ∧ a = b ∨ i ≠ j ∧ l[j]? = some a := by
  rw [List.getElem?_set] at h
  split at h
  · next hij =>
      split at h
      · exact Or.inl ⟨hij, (Option.some.inj h).symm⟩
      · cases h
  · next hij => exact Or.inr ⟨hij, h⟩

theorem getElem?_concat : (l ++ [b])[i]? = some a ↔ l[i]? = some a ∨ i = l.length ∧ b = a := by
  rcases Nat.lt_trichotomy i l.length with hlt | heq | hgt
  · have hne : i ≠ l.length := by omega
    simp [List.getElem?_append_left hlt, hne]
  · subst heq
    simp
  · have hne : i ≠ l.length := by omega
    have hnone : l[i]? = none := List.getElem?_eq_none (by omega)
    simp [hnone, hne, List.getElem?_eq_none (l := l ++ [b]) (i := i) (by simp; omega)]

theorem mem_of_getElem? (h : l[i]? = some a) : a ∈ l := List.mem_iff_getElem?.2 ⟨i, h⟩

theorem mem_set_cases (h : a ∈ l.set i b) : a = b ∨ ∃ j, i ≠ j ∧ l[j]? = some a := by
  obtain ⟨j, hj⟩ := List.mem_iff_getElem?.1 h
  rcases getElem?_set_cases hj with ⟨-, heq⟩ | ⟨hne, hget⟩
  · exact Or.inl heq
  · exact Or.inr ⟨j, hne, hget⟩

theorem mem_set_of_ne (hi : l[i]? = some a) (hc : c ∈ l) (hne : c ≠ a) : c ∈ l.set i b := by
  obtain ⟨j, hj⟩ := List.mem_iff_getElem?.1 hc
  have hij : i ≠ j := by
    rintro rfl
    exact hne (Option.some.inj (hj.symm.trans hi))
  exact List.mem_iff_getElem?.2 ⟨j, (List.getElem?_set_ne hij).trans hj⟩

theorem mem_set_self (hi : l[i]? = some a) : b ∈ l.set i b := by
  obtain ⟨hlt, -⟩ := List.getElem?_eq_some_iff.1 hi
  exact List.mem_iff_getElem?.2 ⟨i, by rw [List.getElem?_set_self hlt]⟩

theorem mem_concat_cases (h : a ∈ l ++ [b]) : a ∈ l ∨ a = b := by
  rcases List.mem_append.1 h with h | h
  · exact Or.inl h
  · exact Or.inr (List.mem_singleton.1 h)

/-- **Different tasks have different keys**, as far as they have one. -/
def Distinct (key : α → Option κ) (l : List α) : Prop :=
  ∀ (i j : ℕ) (a b : α) (k : κ), l[i]? = some a → l[j]? = some b → key a = some k →
    key b = some k → i = j

namespace Distinct

variable {key : α → Option κ}

theorem nil : Distinct key ([] : List α) := by
  intro i j a b k ha
  cases ha

theorem set (h : Distinct key l)
    (hnew : ∀ k, key b = some k → ∀ (j : ℕ) (a : α), i ≠ j → l[j]? = some a → key a ≠ some k) :
    Distinct key (l.set i b) := by
  intro j j' a a' k ha ha' hk hk'
  rcases getElem?_set_cases ha with ⟨hij, rfl⟩ | ⟨hij, hold⟩
  · rcases getElem?_set_cases ha' with ⟨hij', -⟩ | ⟨hij', hold'⟩
    · exact hij.symm.trans hij'
    · exact absurd hk' (hnew k hk j' a' hij' hold')
  · rcases getElem?_set_cases ha' with ⟨hij', rfl⟩ | ⟨-, hold'⟩
    · exact absurd hk (hnew k hk' j a hij hold)
    · exact h j j' a a' k hold hold' hk hk'

theorem set_of_imp (h : Distinct key l) (hi : l[i]? = some a)
    (himp : ∀ k, key b = some k → key a = some k) : Distinct key (l.set i b) := by
  refine h.set ?_
  intro k hk j c hij hj hc
  exact hij (h i j a c k hi hj (himp k hk) hc)

theorem concat (h : Distinct key l) (hnew : ∀ k, key b = some k → ∀ a ∈ l, key a ≠ some k) :
    Distinct key (l ++ [b]) := by
  intro i j a a' k ha ha' hk hk'
  rcases getElem?_concat.1 ha with hold | ⟨hi, rfl⟩
  · rcases getElem?_concat.1 ha' with hold' | ⟨-, rfl⟩
    · exact h i j a a' k hold hold' hk hk'
    · exact absurd hk (hnew k hk' a (mem_of_getElem? hold))
  · rcases getElem?_concat.1 ha' with hold' | ⟨hj, -⟩
    · exact absurd hk' (hnew k hk a' (mem_of_getElem? hold'))
    · exact hi.trans hj.symm

theorem map (h : Distinct key l) {f : α → α} (hf : ∀ a k, key (f a) = some k → key a = some k) :
    Distinct key (l.map f) := by
  intro i j a b k ha hb hka hkb
  rw [List.getElem?_map, Option.map_eq_some_iff] at ha hb
  obtain ⟨a', ha', rfl⟩ := ha
  obtain ⟨b', hb', rfl⟩ := hb
  exact h i j a' b' k ha' hb' (hf a' k hka) (hf b' k hkb)

end Distinct

end Tasks

/-! ### Threads -/

section Threading

variable {σ τ α : Type}

/-- Threads with their own states, over a shared memory. -/
structure Threads (σ τ : Type) where
  shared : σ
  locals : List τ

namespace Threads

/-- A thread does something, by its number and what it does. -/
def step (act : ℕ → σ → τ → α → Option (σ × τ)) (p : Threads σ τ) (e : ℕ × α) :
    Option (Threads σ τ) :=
  p.locals[e.1]?.bind fun t =>
    (act e.1 p.shared t e.2).map fun r => ⟨r.1, p.locals.set e.1 r.2⟩

variable {act : ℕ → σ → τ → α → Option (σ × τ)} {p p' : Threads σ τ}

theorem step_eq_some {e : ℕ × α} (h : step act p e = some p') :
    ∃ t s t', p.locals[e.1]? = some t ∧ act e.1 p.shared t e.2 = some (s, t') ∧
      p' = ⟨s, p.locals.set e.1 t'⟩ := by
  obtain ⟨t, ht, hmap⟩ := Option.bind_eq_some_iff.1 h
  obtain ⟨⟨s, t'⟩, hact, rfl⟩ := Option.map_eq_some_iff.1 hmap
  exact ⟨t, s, t', ht, hact, rfl⟩

theorem step_of_act {i : ℕ} {a : α} {t t' : τ} {s : σ} (ht : p.locals[i]? = some t)
    (hact : act i p.shared t a = some (s, t')) :
    step act p (i, a) = some ⟨s, p.locals.set i t'⟩ := by
  simp only [step, ht, Option.bind_some, hact, Option.map_some]

/-! ### Invariants -/

/-- An invariant of the memory, and one of every thread over the memory. -/
structure Holds (I : σ → Prop) (J : ℕ → σ → τ → Prop) (p : Threads σ τ) : Prop where
  shared : I p.shared
  locals : ∀ i t, p.locals[i]? = some t → J i p.shared t

/-- **What no thread breaks**: a thread keeps the part of the memory and its own, and it leaves the
parts of the others. -/
structure Keeps (act : ℕ → σ → τ → α → Option (σ × τ)) (I : σ → Prop) (J : ℕ → σ → τ → Prop) :
    Prop where
  own : ∀ i s t a s' t', I s → J i s t → act i s t a = some (s', t') → I s' ∧ J i s' t'
  others : ∀ i s t a s' t', act i s t a = some (s', t') → ∀ j u, J j s u → J j s' u

variable {I : σ → Prop} {J : ℕ → σ → τ → Prop}

/-- **A step keeps an invariant** that no thread breaks. -/
theorem Keeps.step (hkeeps : Keeps act I J) {e : ℕ × α} (h : Holds I J p)
    (hstep : step act p e = some p') : Holds I J p' := by
  obtain ⟨t, s, t', ht, hact, rfl⟩ := step_eq_some hstep
  obtain ⟨hshared, hlocal⟩ := hkeeps.own _ _ _ _ _ _ h.shared (h.locals _ _ ht) hact
  refine ⟨hshared, fun j u hu => ?_⟩
  rcases getElem?_set_cases hu with ⟨rfl, rfl⟩ | ⟨-, hu⟩
  · exact hlocal
  · exact hkeeps.others _ _ _ _ _ _ hact j u (h.locals j u hu)

/-- **An invariant that no thread breaks holds after every run**, and with it whatever its steps
keep of all threads together. -/
theorem Keeps.run (hkeeps : Keeps act I J) {G : Threads σ τ → Prop}
    (hG : ∀ p e p', Holds I J p → G p → Threads.step act p e = some p' → G p')
    {es : List (ℕ × α)} (h : Holds I J p) (hGp : G p)
    (hrun : Transition.run (Threads.step act) p es = some p') : Holds I J p' ∧ G p' := by
  have hboth : ∀ q e q', (Holds I J q ∧ G q) → Threads.step act q e = some q' →
      Holds I J q' ∧ G q' :=
    fun q e q' hq hstep => ⟨hkeeps.step hq.1 hstep, hG q e q' hq.1 hq.2 hstep⟩
  exact run_invariant (I := fun q => Holds I J q ∧ G q) hboth ⟨h, hGp⟩ hrun

/-! ### Runs come to an end -/

/-- The sum of what the threads weigh. -/
def weight (w : τ → ℕ) (p : Threads σ τ) : ℕ := (p.locals.map w).sum

theorem sum_map_set_lt {w : τ → ℕ} {l : List τ} {i : ℕ} {t t' : τ} (ht : l[i]? = some t)
    (hlt : w t' < w t) : ((l.set i t').map w).sum < (l.map w).sum := by
  induction l generalizing i with
  | nil => cases ht
  | cons u l ih =>
      cases i with
      | zero =>
          obtain rfl : u = t := Option.some.inj ht
          rw [List.set_cons_zero, List.map_cons, List.map_cons, List.sum_cons, List.sum_cons]
          exact Nat.add_lt_add_right hlt _
      | succ i =>
          rw [List.set_cons_succ, List.map_cons, List.map_cons, List.sum_cons, List.sum_cons]
          exact Nat.add_lt_add_left (ih ht) _

/-- **Threads whose every step counts down come to an end**: a run is no longer than the sum. -/
theorem Keeps.length_le_weight (hkeeps : Keeps act I J) {w : τ → ℕ}
    (hw : ∀ i s t a s' t', J i s t → act i s t a = some (s', t') → w t' < w t)
    {es : List (ℕ × α)} (h : Holds I J p)
    (hrun : Transition.run (Threads.step act) p es = some p') : es.length ≤ weight w p := by
  induction es generalizing p with
  | nil => exact Nat.zero_le _
  | cons e es ih =>
      obtain ⟨p₁, hstep, hrest⟩ := run_cons_eq_some.1 hrun
      have hle := ih (hkeeps.step h hstep) hrest
      obtain ⟨t, s, t', ht, hact, rfl⟩ := step_eq_some hstep
      have hlt : weight w ⟨s, p.locals.set e.1 t'⟩ < weight w p :=
        sum_map_set_lt ht (hw _ _ _ _ _ _ (h.locals _ _ ht) hact)
      exact Nat.succ_le_of_lt (Nat.lt_of_le_of_lt hle hlt)

end Threads

end Threading

end Transition
