/-
**Token buckets.**

A bucket holds a credit up to a capacity.  The credit grows with the time, and a visit takes the
cost of a token from it if there is that much.  A bucket that was not visited for long can be
forgotten; the next visit then finds a full one.

What the visits of a window are granted is paid for by a full bucket and by the time that has passed
in the window.  Forgetting a bucket does not change that if the time since its last visit fills it
anyway.

Main definitions:

* `TokenBucket.Level`, `TokenBucket.visit` — a bucket at its last visit, and a visit;
* `TokenBucket.Paid` — the grants since the start of a window are paid for;
* `TokenBucket.Metered` — the same for a window that ends.

Main results:

* `TokenBucket.Metered.visit`, `TokenBucket.Metered.forget`, `TokenBucket.Metered.wait` — **what
  happens to a bucket keeps the grants paid for**.
-/

import Mathlib.Tactic.Linarith

set_option autoImplicit false

namespace TokenBucket

/-- A bucket at its last visit. -/
structure Level where
  credit : ℤ
  last : ℤ

/-- The bucket at a later time. -/
def Level.refill (cap now : ℤ) (l : Level) : Level where
  credit := min cap (l.credit + max 0 (now - l.last))
  last := now

/-- The bucket that a visit finds, a full one if there is none. -/
def found (cap now : ℤ) : Option Level → Level
  | none => ⟨cap, now⟩
  | some l => l.refill cap now

/-- A visit: whether a token is granted, and the bucket afterwards. -/
def visit (cost cap now : ℤ) (o : Option Level) : Bool × Level :=
  let l := found cap now o
  if l.credit < cost then (false, l) else (true, { l with credit := l.credit - cost })

variable {cost cap s T now t : ℤ} {g : ℕ} {o : Option Level} {l : Level}

@[simp] theorem last_found : (found cap now o).last = now := by cases o <;> rfl

@[simp] theorem last_visit : (visit cost cap now o).2.last = now := by
  rw [visit]
  split <;> simp

/-- A credit within the capacity stays there. -/
def Level.Within (cap : ℤ) (l : Level) : Prop := 0 ≤ l.credit ∧ l.credit ≤ cap

theorem within_found (hcap : 0 ≤ cap) (h : ∀ l, o = some l → l.Within cap) :
    (found cap now o).Within cap := by
  cases o with
  | none => exact ⟨hcap, le_rfl⟩
  | some l =>
      obtain ⟨hnonneg, -⟩ := h l rfl
      exact ⟨le_min hcap (by positivity), min_le_left _ _⟩

/-- **A visit keeps the credit within the capacity.** -/
theorem within_visit (hcost : 0 ≤ cost) (hcap : 0 ≤ cap) (h : ∀ l, o = some l → l.Within cap) :
    (visit cost cap now o).2.Within cap := by
  have hfound : (found cap now o).Within cap := within_found hcap h
  rw [visit]
  split
  · exact hfound
  · next hcredit =>
      exact ⟨sub_nonneg.2 (not_lt.1 hcredit), (sub_le_self _ hcost).trans hfound.2⟩

/-! ### Windows -/

/-- **The grants since the start of a window are paid for**, at a time that is not before the last
visit: together with the credit that is left they have cost no more than a full bucket and the time
that has passed. -/
structure Paid (cost cap s now : ℤ) (o : Option Level) (g : ℕ) : Prop where
  held : ∀ l, o = some l → l.last ≤ now ∧ l.credit ≤ cap ∧ (l.last < s → g = 0) ∧
    cost * g + l.credit ≤ cap + max 0 (l.last - s)
  forgotten : o = none → (now < s → g = 0) ∧ cost * g ≤ max 0 (now - s)

theorem Paid.wait (h : Paid cost cap s now o g) (hle : now ≤ t) : Paid cost cap s t o g where
  held l hl := by
    obtain ⟨hlast, hrest⟩ := h.held l hl
    exact ⟨hlast.trans hle, hrest⟩
  forgotten ho := by
    obtain ⟨hbefore, hcost⟩ := h.forgotten ho
    exact ⟨fun hlt => hbefore (hle.trans_lt hlt),
      hcost.trans (max_le_max le_rfl (Int.sub_le_sub_right hle s))⟩

theorem Paid.found (h : Paid cost cap s now o g) (hle : now ≤ t) :
    (t < s → g = 0) ∧ (found cap t o).credit ≤ cap ∧
      cost * g + (found cap t o).credit ≤ cap + max 0 (t - s) := by
  cases o with
  | none =>
      obtain ⟨hbefore, hcost⟩ := (h.wait hle).forgotten rfl
      refine ⟨hbefore, le_rfl, ?_⟩
      change cost * g + cap ≤ _
      linarith
  | some l =>
      obtain ⟨hlast, -, hbefore, hpaid⟩ := h.held l rfl
      refine ⟨fun hlt => hbefore ((hlast.trans hle).trans_lt hlt), min_le_left _ _, ?_⟩
      by_cases hs : l.last < s
      · -- nothing was granted in the window, and the bucket holds no more than a full one
        rw [hbefore hs, Nat.cast_zero, mul_zero, zero_add]
        exact (min_le_left _ _).trans (le_add_of_nonneg_right (le_max_left _ _))
      · have hrefill : (l.refill cap t).credit ≤ l.credit + max 0 (t - l.last) := min_le_right _ _
        have htime : max 0 (t - l.last) = t - l.last := max_eq_right (by linarith)
        have hwindow : max 0 (l.last - s) = l.last - s := max_eq_right (by linarith)
        have hlater : t - s ≤ max 0 (t - s) := le_max_right _ _
        change cost * g + (l.refill cap t).credit ≤ _
        linarith

/-- **A visit pays for what it is granted.** -/
theorem Paid.visit (hcost : 0 ≤ cost) (h : Paid cost cap s now o g) (hle : now ≤ t) :
    Paid cost cap s t (some (visit cost cap t o).2)
      (g + if (visit cost cap t o).1 = true ∧ s ≤ t then 1 else 0) where
  held l hl := by
    obtain ⟨hbefore, hcap, hpaid⟩ := h.found hle
    rw [Option.some.injEq] at hl
    subst hl
    have hearly (hlt : t < s) :
        (g + if (TokenBucket.visit cost cap t o).1 = true ∧ s ≤ t then 1 else 0) = 0 := by
      rw [hbefore hlt, if_neg fun hand => absurd hand.2 (not_le.2 hlt)]
    rw [last_visit]
    refine ⟨le_rfl, ?_, hearly, ?_⟩
    · rw [TokenBucket.visit]
      split
      · exact hcap
      · exact (sub_le_self _ hcost).trans hcap
    · rw [TokenBucket.visit]
      split
      · rw [if_neg fun hand => Bool.noConfusion hand.1, Nat.add_zero]
        exact hpaid
      · by_cases hs : s ≤ t
        · rw [if_pos ⟨rfl, hs⟩]
          push_cast
          linarith
        · rw [if_neg fun hand => hs hand.2, Nat.add_zero]
          change cost * g + ((TokenBucket.found cap t o).credit - cost) ≤ _
          linarith
  forgotten ho := by cases ho

/-- **A bucket may be forgotten** once the time since its last visit fills it. -/
theorem Paid.forget (hcredit : 0 ≤ l.credit) (h : Paid cost cap s now (some l) g)
    (hfull : l.last + cap ≤ t) (hcap : 0 ≤ cap) : Paid cost cap s t none g where
  held l' hl' := by cases hl'
  forgotten _ := by
    obtain ⟨-, -, hbefore, hpaid⟩ := h.held l rfl
    by_cases hs : l.last < s
    · rw [hbefore hs, Nat.cast_zero, mul_zero]
      exact ⟨fun _ => rfl, le_max_left _ _⟩
    · have hwindow : max 0 (l.last - s) = l.last - s := max_eq_right (by linarith)
      have hlater : t - s ≤ max 0 (t - s) := le_max_right _ _
      exact ⟨fun hlt => absurd (hlt.trans_le (not_lt.1 hs)) (not_lt.2 (by linarith)),
        by linarith⟩

theorem Paid.bound (hcap : 0 ≤ cap) (h : Paid cost cap s now o g)
    (hcredit : ∀ l, o = some l → l.Within cap) (hT : 0 ≤ T) (hnow : now ≤ s + T) :
    cost * g ≤ cap + T := by
  cases o with
  | none =>
      obtain ⟨-, hpaid⟩ := h.forgotten rfl
      have hmax : max 0 (now - s) ≤ T := max_le hT (by linarith)
      linarith
  | some l =>
      obtain ⟨hlast, -, -, hpaid⟩ := h.held l rfl
      have hmax : max 0 (l.last - s) ≤ T := max_le hT (by linarith)
      have hnonneg := (hcredit l rfl).1
      linarith

/-- **The grants in a window are paid for**: up to its end as above, and afterwards they have cost
no more than a full bucket and the length of the window. -/
structure Metered (cost cap s T now : ℤ) (o : Option Level) (g : ℕ) : Prop where
  within : ∀ l, o = some l → l.Within cap
  paid : now ≤ s + T → Paid cost cap s now o g
  bound : cost * g ≤ cap + T

/-- Nothing was granted yet. -/
theorem Metered.start (hcap : 0 ≤ cap) (hT : 0 ≤ T) : Metered cost cap s T now none 0 where
  within _ h := by cases h
  paid _ :=
    { held := fun _ h => by cases h
      forgotten := fun _ => ⟨fun _ => rfl, by rw [Nat.cast_zero, mul_zero]; exact le_max_left _ _⟩ }
  bound := by
    rw [Nat.cast_zero, mul_zero]
    exact add_nonneg hcap hT

theorem Metered.wait (h : Metered cost cap s T now o g) (hle : now ≤ t) :
    Metered cost cap s T t o g :=
  { h with paid := fun ht => (h.paid (hle.trans ht)).wait hle }

/-- **A visit**, which counts if it is granted in the window. -/
theorem Metered.visit (hcost : 0 ≤ cost) (hcap : 0 ≤ cap) (hT : 0 ≤ T)
    (h : Metered cost cap s T now o g) (hle : now ≤ t) :
    Metered cost cap s T t (some (visit cost cap t o).2)
      (g + if (visit cost cap t o).1 = true ∧ s ≤ t ∧ t ≤ s + T then 1 else 0) := by
  have hwithin : ∀ l, some (TokenBucket.visit cost cap t o).2 = some l → l.Within cap := by
    intro l hl
    rw [← Option.some.inj hl]
    exact within_visit hcost hcap h.within
  by_cases ht : t ≤ s + T
  · have hpaid := (h.paid (hle.trans ht)).visit hcost hle
    simp only [ht, and_true]
    exact ⟨hwithin, fun _ => hpaid, hpaid.bound hcap hwithin hT ht⟩
  · -- the window is over
    rw [if_neg fun hand => ht hand.2.2, Nat.add_zero]
    exact ⟨hwithin, fun hle => absurd hle ht, h.bound⟩

/-- **A bucket is forgotten** when the time since its last visit fills it. -/
theorem Metered.forget (hcap : 0 ≤ cap) (h : Metered cost cap s T now (some l) g)
    (hfull : l.last + cap ≤ t) : Metered cost cap s T (max now t) none g where
  within _ h' := by cases h'
  paid hle :=
    have hpaid := h.paid ((le_max_left now t).trans hle)
    (hpaid.forget (h.within l rfl).1 hfull hcap).wait (le_max_right _ _)
  bound := h.bound

end TokenBucket
