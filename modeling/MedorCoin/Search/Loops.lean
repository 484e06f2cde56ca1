/-
**Searching for a number: the least with a property, the first hit.**

Two loops that together find the least number with a property that persists upwards: double an
upper bound until it has the property, then halve the interval between a number without and a
number with it.  Both are recursions on a fuel, and the specifications say how much fuel is
enough.

A loop over consecutive numbers that stops at the first one at which its body finds something, and
the same loop cut into batches with a check before each.  The body may fail, and then the loop
does.

Main definitions:

* `Search.doubleUntil` — `while (!p(high)) high *= 2`;
* `Search.bisect` — `while (low + 1 < high)`, keep the half with the boundary in it;
* `Search.scan` — `for (; n <= limit; n++)`;
* `Search.scanBatch`, `Search.scanBatches` — the loop in batches.

Main results:

* `Search.doubleUntil_spec`, `Search.bisect_spec` — what the loops return;
* `Search.least_of_boundary` — for a property that persists upwards, a number that has it and
  whose predecessor does not is the least one;
* `Search.scan_eq_some_iff` — **the loop finds the first hit**;
* `Search.scanBatches_eq_scan`, `Search.scan_of_scanBatches` — **batches make no difference**.
-/

import Mathlib.Order.Basic
import Mathlib.Algebra.Order.Ring.Nat
import Mathlib.Tactic.Linarith
import Mathlib.Tactic.Ring

set_option autoImplicit false

namespace Search

variable {p : ℕ → Bool}

/-- Double the bound until it has the property. -/
def doubleUntil (p : ℕ → Bool) : ℕ → ℕ → ℕ
  | 0, high => high
  | fuel + 1, high => if p high then high else doubleUntil p fuel (high * 2)

/-- Halve the interval between `low` and `high` until they are neighbours; the result is the
upper end. -/
def bisect (p : ℕ → Bool) : ℕ → ℕ → ℕ → ℕ
  | 0, _, high => high
  | fuel + 1, low, high =>
      if low + 1 < high then
        if p ((low + high) / 2) then bisect p fuel low ((low + high) / 2)
        else bisect p fuel ((low + high) / 2) high
      else high

theorem doubleUntil_spec {fuel high k : ℕ} (hk : k ≤ fuel) (hp : p (high * 2 ^ k)) :
    p (doubleUntil p fuel high) ∧ high ≤ doubleUntil p fuel high := by
  induction fuel generalizing high k with
  | zero =>
      obtain rfl : k = 0 := by omega
      exact ⟨by simpa [doubleUntil] using hp, le_rfl⟩
  | succ fuel ih =>
      rw [doubleUntil]
      split
      · next h => exact ⟨h, le_rfl⟩
      · next h =>
          cases k with
          | zero => exact absurd (by simpa using hp) h
          | succ k =>
              have hnext : p (high * 2 * 2 ^ k) := by
                rwa [mul_assoc, ← pow_succ']
              obtain ⟨h₁, h₂⟩ := ih (Nat.le_of_succ_le_succ hk) hnext
              exact ⟨h₁, le_trans (by omega) h₂⟩

/-- Starting from a number without and a number with the property, at most `2 ^ fuel` apart, the
result has the property, its predecessor does not, and it lies in the interval. -/
theorem bisect_spec {fuel low high : ℕ} (hlt : low < high) (hlow : ¬ p low) (hhigh : p high)
    (hfuel : high - low ≤ 2 ^ fuel) :
    p (bisect p fuel low high) ∧ ¬ p (bisect p fuel low high - 1) ∧
      low < bisect p fuel low high := by
  induction fuel generalizing low high with
  | zero =>
      have heq : high - 1 = low := by simp only [pow_zero] at hfuel; omega
      exact ⟨hhigh, by rwa [bisect, heq], hlt⟩
  | succ fuel ih =>
      rw [bisect]
      rw [pow_succ] at hfuel
      split
      · next hgap =>
          split
          · next hmid => exact ih (by omega) hlow hmid (by omega)
          · next hmid =>
              obtain ⟨h₁, h₂, h₃⟩ := ih (by omega) hmid hhigh (by omega)
              exact ⟨h₁, h₂, by omega⟩
      · next hgap =>
          have heq : high - 1 = low := by omega
          exact ⟨hhigh, by rwa [heq], hlt⟩

theorem least_of_boundary {n : ℕ} (hmono : ∀ i j, i ≤ j → p i → p j) (hpred : ¬ p (n - 1)) :
    ∀ m < n, ¬ p m := by
  intro m hm hpm
  exact hpred (hmono m (n - 1) (by omega) hpm)

end Search

namespace Search

variable {ε β : Type}

section Loops

variable (body : ℕ → Except ε (Option β))

/-- `for (; n <= limit; n++)`, left at the first hit. -/
def scan (limit n : ℕ) : Except ε (Option β) :=
  if n ≤ limit then
    match body n with
    | .ok (some b) => .ok (some b)
    | .ok none => scan limit (n + 1)
    | .error e => .error e
  else .ok none
termination_by limit + 1 - n

/-- `for (; n < stop && n <= limit; n++)`, left at the first hit; otherwise the number at which it
ends. -/
def scanBatch (stop limit n : ℕ) : Except ε (ℕ ⊕ β) :=
  if n < stop ∧ n ≤ limit then
    match body n with
    | .ok (some b) => .ok (.inr b)
    | .ok none => scanBatch stop limit (n + 1)
    | .error e => .error e
  else .ok (.inl n)
termination_by limit + 1 - n

variable {body} {stop limit n : ℕ}

theorem scan_of_le (h : n ≤ limit) :
    scan body limit n = match body n with
      | .ok (some b) => .ok (some b)
      | .ok none => scan body limit (n + 1)
      | .error e => .error e := by
  rw [scan, if_pos h]

theorem scan_of_lt (h : limit < n) : scan body limit n = .ok none := by
  rw [scan, if_neg (Nat.not_le.2 h)]

theorem le_of_scanBatch {next : ℕ} (h : scanBatch body stop limit n = .ok (.inl next)) :
    n ≤ next ∧ (n < stop → n ≤ limit → n < next) := by
  induction n using scanBatch.induct body stop limit with
  | case1 n hn b hbody =>
      rw [scanBatch, if_pos hn, hbody] at h
      cases h
  | case2 n hn hbody ih =>
      rw [scanBatch, if_pos hn, hbody] at h
      obtain ⟨hle, -⟩ := ih h
      exact ⟨by omega, fun _ _ => by omega⟩
  | case3 n hn e hbody =>
      rw [scanBatch, if_pos hn, hbody] at h
      cases h
  | case4 n hn =>
      rw [scanBatch, if_neg hn] at h
      cases h
      exact ⟨Nat.le_refl _, fun hstop hlimit => absurd ⟨hstop, hlimit⟩ hn⟩

variable (body) (check : ℕ → Except ε Unit)

/-- The loop in batches, with a check before each of them. -/
def scanBatches {batch : ℕ} (hbatch : 0 < batch) (limit n : ℕ) : Except ε (Option β) :=
  if n ≤ limit then
    match check n with
    | .ok () =>
        match _h : scanBatch body (n + batch) limit n with
        | .ok (.inr b) => .ok (some b)
        | .ok (.inl next) => scanBatches hbatch limit next
        | .error e => .error e
    | .error e => .error e
  else .ok none
termination_by limit + 1 - n
decreasing_by
  have hnext := (le_of_scanBatch _h).2 (by omega) ‹_›
  omega

end Loops

variable {body : ℕ → Except ε (Option β)} {limit n : ℕ}

/-- **The loop finds the first hit.** -/
theorem scan_eq_some_iff {b : β} :
    scan body limit n = .ok (some b) ↔
      ∃ k, n ≤ k ∧ k ≤ limit ∧ body k = .ok (some b) ∧ ∀ m, n ≤ m → m < k → body m = .ok none := by
  induction n using scan.induct body limit with
  | case1 n hn b' hbody =>
      rw [scan_of_le hn, hbody]
      constructor
      · rintro ⟨⟩
        exact ⟨n, Nat.le_refl _, hn, hbody, fun m hm hlt => by omega⟩
      · rintro ⟨k, hnk, -, hk, hbefore⟩
        rcases Nat.eq_or_lt_of_le hnk with rfl | hlt
        · exact hbody.symm.trans hk
        · have hnone := hbefore n (Nat.le_refl _) hlt
          rw [hbody] at hnone
          cases hnone
  | case2 n hn hbody ih =>
      -- a miss: the first hit from here on is the first hit behind it
      rw [scan_of_le hn, hbody, ih]
      constructor
      · rintro ⟨k, hnk, hk, hit, hbefore⟩
        refine ⟨k, by omega, hk, hit, ?_⟩
        intro m hm hlt
        rcases Nat.eq_or_lt_of_le hm with rfl | hgt
        · exact hbody
        · exact hbefore m hgt hlt
      · rintro ⟨k, hnk, hk, hit, hbefore⟩
        have hne : n ≠ k := by
          rintro rfl
          rw [hbody] at hit
          cases hit
        exact ⟨k, by omega, hk, hit, fun m hm hlt => hbefore m (by omega) hlt⟩
  | case3 n hn e hbody =>
      rw [scan_of_le hn, hbody]
      constructor
      · rintro ⟨⟩
      · rintro ⟨k, hnk, -, hk, hbefore⟩
        rcases Nat.eq_or_lt_of_le hnk with rfl | hlt
        · exact hbody.symm.trans hk
        · have hnone := hbefore n (Nat.le_refl _) hlt
          rw [hbody] at hnone
          cases hnone
  | case4 n hn =>
      rw [scan_of_lt (by omega)]
      constructor
      · rintro ⟨⟩
      · rintro ⟨k, hnk, hk, -, -⟩
        omega

theorem scan_eq_scanBatch (stop : ℕ) :
    scan body limit n = match scanBatch body stop limit n with
      | .ok (.inr b) => .ok (some b)
      | .ok (.inl next) => scan body limit next
      | .error e => .error e := by
  induction n using scanBatch.induct body stop limit with
  | case1 n hn b hbody => rw [scan_of_le hn.2, scanBatch, if_pos hn, hbody]
  | case2 n hn hbody ih => rw [scan_of_le hn.2, scanBatch, if_pos hn, hbody, ih]
  | case3 n hn e hbody => rw [scan_of_le hn.2, scanBatch, if_pos hn, hbody]
  | case4 n hn => rw [scanBatch, if_neg hn]

/-- **Batches make no difference**, as long as every check passes. -/
theorem scanBatches_eq_scan {batch : ℕ} (hbatch : 0 < batch) {check : ℕ → Except ε Unit}
    (hcheck : ∀ k, check k = .ok ()) :
    scanBatches body check hbatch limit n = scan body limit n := by
  induction hmeasure : limit + 1 - n using Nat.strongRecOn generalizing n with
  | ind measure ih =>
      rw [scanBatches]
      split
      · next hn =>
          rw [hcheck, scan_eq_scanBatch (n + batch)]
          dsimp only
          split
          · next b hb => rw [hb]
          · next next hnext =>
              have hlt := (le_of_scanBatch hnext).2 (by omega) hn
              rw [hnext]
              exact ih _ (by omega) rfl
          · next e he => rw [he]
      · next hn => rw [scan_of_lt (by omega)]

theorem scan_of_scanBatches {batch : ℕ} {hbatch : 0 < batch} {check : ℕ → Except ε Unit}
    {result : Option β} (h : scanBatches body check hbatch limit n = .ok result) :
    scan body limit n = .ok result := by
  -- on the number of turns that are left; a batch takes at least one
  induction hmeasure : limit + 1 - n using Nat.strongRecOn generalizing n with
  | ind measure ih =>
      rw [scanBatches] at h
      split at h
      · next hn =>
          split at h
          · rw [scan_eq_scanBatch (n + batch)]
            split at h
            · next b hb =>
                rw [hb]
                exact h
            · next next hnext =>
                have hlt := (le_of_scanBatch hnext).2 (by omega) hn
                rw [hnext]
                exact ih _ (by omega) h rfl
            · cases h
          · cases h
      · next hn =>
          rw [scan_of_lt (by omega)]
          exact h

end Search
