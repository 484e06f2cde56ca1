/-
**What a limiter grants in a window.**

Calls and sweeps follow each other in any order, as long as no call reads a time before an earlier
reading of the clock.  A sweep may work with a reading that is older than the latest call.

The grants of a key in a window are paid for by the full bucket at its start and by the time that
passes in it.  The janitor breaks that if it erases a bucket that the time since its last call has
not filled, so the idle timeout must not be shorter than the time it takes to fill one.

In every window of `T` nanoseconds the limiter should grant no more than the burst and `⌈T * R / 10
^ 9⌉` requests of a key.  It does if its constants are exact: the burst is not below the rate, the
rate divides the nanoseconds of a second, so that the cost of a token is not rounded, and the time a
bucket must be idle before the janitor erases it is enough to fill it.

Main definitions:

* `RateLimit.Event`, `RateLimit.History`, `RateLimit.step` — calls and sweeps, with the grants so
  far;
* `RateLimit.Schedule` — the order of the readings;
* `RateLimit.granted` — the grants of a key in a window;
* `RateLimit.RateBound` — the bound, for every schedule, key and window;
* `RateLimit.Exact` — exact constants.

Main results:

* `RateLimit.step_spec` — **what a step does**, and that it does not overflow;
* `RateLimit.run_sound` — every schedule runs, and credits stay within the ceiling;
* `RateLimit.run_metered` — **the grants in a window are paid for**, if a bucket that is erased
  would be full;
* `RateLimit.bound_of_exact` — **the bound holds where the constants are exact**.
-/

import MedorCoin.RateLimit.RateLimiter
import MedorCoin.Transition.Run
import Mathlib.Algebra.Order.Floor.Ring
import Mathlib.Data.Rat.Floor

set_option autoImplicit false

namespace RateLimit

open Cpp TokenBucket

/-! ### Calls and sweeps -/

/-- A call for a key, or the janitor at a shard, with the reading of the clock. -/
inductive Event
  | allow (key : Str) (now : ℤ)
  | sweep (shard : ℕ) (now : ℤ)

/-- A limiter, and the calls that it has granted. -/
structure History where
  limiter : RateLimiter
  grants : List (Str × ℤ) := []

variable (hash : Str → UInt64)

/-- A call or a sweep. -/
def step (h : History) : Event → Option History
  | .allow key now => (h.limiter.allow hash now key).map fun r =>
      { limiter := r.2, grants := if r.1 then (key, now) :: h.grants else h.grants }
  | .sweep shard now => (h.limiter.sweep now shard).map fun limiter => { h with limiter }

/-- **No call reads a time before an earlier reading**: of the shards of a limiter, between an
earliest and a latest time. -/
def Schedule (shards : ℕ) (latest : ℤ) : ℤ → List Event → Prop
  | _, [] => True
  | earliest, .allow _ now :: es => earliest ≤ now ∧ now ≤ latest ∧ Schedule shards latest now es
  | earliest, .sweep shard now :: es =>
      shard < shards ∧ 0 < now ∧ now ≤ latest ∧ Schedule shards latest (max earliest now) es

/-- The grants of a key from `s` to `s + T`. -/
def granted (key : Str) (s T : ℤ) (grants : List (Str × ℤ)) : ℕ :=
  grants.countP fun g => decide (g.1 = key ∧ s ≤ g.2 ∧ g.2 ≤ s + T)

/-! ### Steps -/

/-- What a step does to the bucket and to the grants of a key. -/
def Effect (start : RateLimiter) (key : Str) (h h' : History) : Event → Prop
  | .allow key' now =>
      if key = key' ∧ key ≠ [] then
        let r := visit start.nsPerToken start.maxCreditNs now (h.limiter.level hash key)
        h'.limiter.level hash key = some r.2 ∧
          ∀ s T, granted key s T h'.grants =
            granted key s T h.grants + if r.1 = true ∧ s ≤ now ∧ now ≤ s + T then 1 else 0
      else
        h'.limiter.level hash key = h.limiter.level hash key ∧
          ∀ s T, granted key s T h'.grants = granted key s T h.grants
  | .sweep shard now =>
      h'.grants = h.grants ∧
        h'.limiter.level hash key =
          if start.shardFor hash key = shard then
            (h.limiter.level hash key).filter fun l =>
              decide (now - start.cfg.idleTimeoutMs.toNat * 1000000 ≤ l.last)
          else h.limiter.level hash key

variable {hash} {start : RateLimiter} {latest earliest : ℤ} {h : History} {key : Str}

theorem granted_cons (s T now : ℤ) (key' : Str) (grants : List (Str × ℤ)) :
    granted key s T ((key', now) :: grants) =
      granted key s T grants + if key' = key ∧ s ≤ now ∧ now ≤ s + T then 1 else 0 := by
  rw [granted, List.countP_cons, granted]
  simp only [decide_eq_true_eq]

/-- **A step of a schedule** does not overflow, and has its effect on the bucket of every key. -/
theorem step_spec (hash : Str → UInt64) (hvalid : start.Valid)
    (hlatest : latest + start.maxCreditNs < 2 ^ 63)
    (hs : h.limiter.Sound start latest) (hpos : 0 < earliest) {e : Event} {es : List Event}
    (hsched : Schedule start.cfg.shardCount.toNat latest earliest (e :: es)) :
    ∃ h', step hash h e = some h' ∧ h'.limiter.Sound start latest ∧
      ∀ key, Effect hash start key h h' e := by
  cases e with
  | allow key' now =>
      obtain ⟨hle, hnow, -⟩ := hsched
      by_cases hkey : key' = []
      · refine ⟨h, ?_, hs, fun key => ?_⟩
        · rw [step, RateLimiter.allow, if_pos hkey]
          rfl
        · rw [Effect, if_neg fun hand => hand.2 (hand.1.trans hkey)]
          exact ⟨rfl, fun _ _ => rfl⟩
      · obtain ⟨s', hallow, hsound, hlevel⟩ := RateLimiter.allow_spec hash hvalid hs
          hlatest hkey (hpos.trans_le hle) hnow
        refine ⟨_, by rw [step, hallow, Option.map_some], hsound, fun key => ?_⟩
        by_cases heq : key = key'
        · subst heq
          rw [Effect, if_pos ⟨rfl, hkey⟩]
          refine ⟨by rw [hlevel, if_pos rfl], fun s T => ?_⟩
          dsimp only
          split
          · next hgrant => rw [granted_cons]; simp [hgrant]
          · next hdeny => simp [hdeny]
        · rw [Effect, if_neg fun hand => heq hand.1]
          refine ⟨by rw [hlevel, if_neg heq], fun s T => ?_⟩
          dsimp only
          split
          · rw [granted_cons, if_neg fun hand => heq hand.1.symm, Nat.add_zero]
          · rfl
  | sweep shard now =>
      obtain ⟨hshard, hnow, hle, -⟩ := hsched
      obtain ⟨s', hsweep, hsound, hlevel⟩ := RateLimiter.sweep_spec hash hs hshard hnow
        (by linarith [hvalid.ceiling])
      refine ⟨{ h with limiter := s' }, by rw [step, hsweep, Option.map_some], hsound,
        fun key => ⟨rfl, ?_⟩⟩
      rw [hlevel, hs.shardFor_eq]

/-! ### Runs -/

/-- The time before which no later call reads the clock. -/
def Event.next (earliest : ℤ) : Event → ℤ
  | .allow _ now => now
  | .sweep _ now => max earliest now

theorem Schedule.tail {shards : ℕ} {e : Event} {es : List Event}
    (h : Schedule shards latest earliest (e :: es)) :
    Schedule shards latest (e.next earliest) es ∧ earliest ≤ e.next earliest := by
  cases e with
  | allow key now => exact ⟨h.2.2, h.1⟩
  | sweep shard now => exact ⟨h.2.2.2, le_max_left _ _⟩

/-- **Every schedule runs**: nothing overflows, and credits stay within the ceiling. -/
theorem run_sound (hash : Str → UInt64) (hvalid : start.Valid)
    (hlatest : latest + start.maxCreditNs < 2 ^ 63)
    {es : List Event} (hs : h.limiter.Sound start latest) (hpos : 0 < earliest)
    (hsched : Schedule start.cfg.shardCount.toNat latest earliest es) :
    ∃ h', Transition.run (step hash) h es = some h' ∧ h'.limiter.Sound start latest := by
  induction es generalizing h earliest with
  | nil => exact ⟨h, rfl, hs⟩
  | cons e es ih =>
      obtain ⟨h₁, hstep, hsound, -⟩ := step_spec hash hvalid hlatest hs hpos hsched
      obtain ⟨htail, hle⟩ := hsched.tail
      obtain ⟨h', hrun, hs'⟩ := ih hsound (hpos.trans_le hle) htail
      exact ⟨h', Transition.run_cons_eq_some.2 ⟨h₁, hstep, hrun⟩, hs'⟩

/-- A bucket that the janitor erases would be full. -/
def Filled (start : RateLimiter) : Prop :=
  start.maxCreditNs ≤ start.cfg.idleTimeoutMs.toNat * 1000000 + 1

/-- **A step keeps the grants of a window paid for.** -/
theorem metered_step (hvalid : start.Valid) (hfilled : Filled start) {h' : History} {s T : ℤ}
    (hT : 0 ≤ T) {e : Event} {es : List Event}
    (hsched : Schedule start.cfg.shardCount.toNat latest earliest (e :: es))
    (heffect : Effect hash start key h h' e)
    (hm : Metered start.nsPerToken start.maxCreditNs s T earliest (h.limiter.level hash key)
      (granted key s T h.grants)) :
    Metered start.nsPerToken start.maxCreditNs s T (e.next earliest)
      (h'.limiter.level hash key) (granted key s T h'.grants) := by
  cases e with
  | allow key' now =>
      rw [Effect] at heffect
      split at heffect
      · obtain ⟨hlevel, hgranted⟩ := heffect
        rw [hlevel, hgranted]
        exact hm.visit hvalid.cost hvalid.ceiling hT hsched.1
      · obtain ⟨hlevel, hgranted⟩ := heffect
        rw [hlevel, hgranted]
        exact hm.wait hsched.1
  | sweep shard now =>
      obtain ⟨hgrants, hlevel⟩ := heffect
      rw [hgrants, hlevel, Event.next]
      split
      · cases hl : h.limiter.level hash key with
        | none =>
            rw [hl] at hm
            exact hm.wait (le_max_left _ _)
        | some l =>
            rw [hl] at hm
            rw [Option.filter_some]
            split
            · exact hm.wait (le_max_left _ _)
            · next hidle =>
                rw [decide_eq_true_eq, not_le] at hidle
                exact hm.forget hvalid.ceiling (by rw [Filled] at hfilled; linarith)
      · exact hm.wait (le_max_left _ _)

/-- **The grants of a window are paid for** after every run. -/
theorem run_metered (key : Str) (hvalid : start.Valid) (hfilled : Filled start)
    (hlatest : latest + start.maxCreditNs < 2 ^ 63) {h' : History} {es : List Event} {s T : ℤ}
    (hT : 0 ≤ T) (hs : h.limiter.Sound start latest) (hpos : 0 < earliest)
    (hsched : Schedule start.cfg.shardCount.toNat latest earliest es)
    (hm : Metered start.nsPerToken start.maxCreditNs s T earliest (h.limiter.level hash key)
      (granted key s T h.grants))
    (hrun : Transition.run (step hash) h es = some h') :
    start.nsPerToken * granted key s T h'.grants ≤ start.maxCreditNs + T := by
  induction es generalizing h earliest with
  | nil =>
      rw [Transition.run_nil, Option.some.injEq] at hrun
      exact hrun ▸ hm.bound
  | cons e es ih =>
      obtain ⟨h₁, hstep, hrest⟩ := Transition.run_cons_eq_some.1 hrun
      obtain ⟨h₂, hstep', hsound, heffect⟩ := step_spec hash hvalid hlatest hs hpos hsched
      obtain rfl : h₁ = h₂ := Option.some.inj (hstep.symm.trans hstep')
      obtain ⟨htail, hle⟩ := hsched.tail
      exact ih hsound (hpos.trans_le hle) htail
        (metered_step hvalid hfilled hT hsched (heffect key) hm) hrest

end RateLimit

namespace RateLimit

open Cpp TokenBucket

/-! ### A new limiter -/

variable {hash : Str → UInt64} {cfg : Config}

theorem valid_new (cfg : Config) : (RateLimiter.new cfg).Valid := by
  have hcost : (0 : ℤ) ≤ 1000000000 / cfg.checked.requestsPerSecond.toNat :=
    Int.ediv_nonneg (by decide) (Int.natCast_nonneg _)
  exact ⟨cfg.shardCount_checked_pos, hcost, mul_nonneg (Int.natCast_nonneg _) hcost⟩

theorem sound_new (cfg : Config) (latest : ℤ) :
    (RateLimiter.new cfg).Sound (RateLimiter.new cfg) latest where
  constants := rfl
  length := List.length_replicate
  bucket shard hshard key b hb := by
    rw [List.eq_of_mem_replicate hshard] at hb
    cases hb

theorem level_new (key : Str) : (RateLimiter.new cfg).level hash key = none := by
  rw [RateLimiter.level, Option.map_eq_none_iff, RateLimiter.bucket, Option.bind_eq_none_iff]
  intro shard hshard
  rw [List.eq_of_mem_replicate (List.mem_of_getElem? hshard)]
  rfl

/-- **The bound**: in every schedule whose readings are positive and leave room for the ceiling in
`int64_t`, no key is granted more than the burst and its rate in any window, and its credit stays
within the ceiling. -/
def RateBound (hash : Str → UInt64) (cfg : Config) : Prop :=
  ∀ es,
    Schedule cfg.checked.shardCount.toNat (2 ^ 63 - 1 - (RateLimiter.new cfg).maxCreditNs) 1 es →
    ∃ h, Transition.run (step hash) { limiter := RateLimiter.new cfg } es = some h ∧
      ∀ key,
        (∀ s T : ℤ, 0 ≤ T → (granted key s T h.grants : ℤ) ≤
          cfg.burstSize.toNat + ⌈(T * cfg.requestsPerSecond.toNat / 10 ^ 9 : ℚ)⌉) ∧
        ∀ b, h.limiter.bucket hash key = some b →
          0 ≤ b.creditNs ∧ b.creditNs ≤ (RateLimiter.new cfg).maxCreditNs

/-- The configurations for which it holds. -/
structure Exact (cfg : Config) : Prop where
  burst : cfg.requestsPerSecond.toNat ≤ cfg.burstSize.toNat
  rate : cfg.requestsPerSecond.toNat ∣ 10 ^ 9
  idle : cfg.burstSize.toNat * (10 ^ 9 / cfg.requestsPerSecond.toNat) ≤
    cfg.idleTimeoutMs.toNat * 10 ^ 6 + 1

/-! ### Where the bound holds -/

theorem le_ceil_of_paid {g : ℕ} {burst rate cost T : ℤ} (hrate : 0 < rate)
    (hexact : cost * rate = 10 ^ 9) (hpaid : cost * g ≤ burst * cost + T) :
    (g : ℤ) ≤ burst + ⌈(T * rate / 10 ^ 9 : ℚ)⌉ := by
  have hscaled : (g - burst) * 10 ^ 9 ≤ T * rate := by
    rw [← hexact]
    nlinarith
  have hquot : ((g - burst : ℤ) : ℚ) ≤ T * rate / 10 ^ 9 := by
    rw [le_div_iff₀ (by positivity)]
    exact_mod_cast hscaled
  have hceil : (g - burst : ℤ) ≤ ⌈(T * rate / 10 ^ 9 : ℚ)⌉ :=
    Int.cast_le.1 (hquot.trans (Int.le_ceil _))
  linarith

theorem nsPerToken_new (h : 0 < cfg.requestsPerSecond.toNat) :
    (RateLimiter.new cfg).nsPerToken = ((10 ^ 9 / cfg.requestsPerSecond.toNat : ℕ) : ℤ) := by
  rw [RateLimiter.new, cfg.requestsPerSecond_checked h, Int.natCast_ediv]
  rfl

theorem maxCreditNs_new (h : 0 < cfg.requestsPerSecond.toNat) :
    (RateLimiter.new cfg).maxCreditNs =
      (max cfg.burstSize.toNat cfg.requestsPerSecond.toNat : ℕ) *
        ((10 ^ 9 / cfg.requestsPerSecond.toNat : ℕ) : ℤ) := by
  rw [← nsPerToken_new h, ← cfg.burstSize_checked h]
  rfl

/-- **The bound**, where the quotient is exact and the janitor erases full buckets only. -/
theorem bound_of_exact (h : 0 < cfg.requestsPerSecond.toNat) (hexact : Exact cfg) :
    RateBound hash cfg := by
  intro es hsched
  have hvalid := valid_new cfg
  have hlatest : 2 ^ 63 - 1 - (RateLimiter.new cfg).maxCreditNs +
      (RateLimiter.new cfg).maxCreditNs < 2 ^ 63 := by linarith
  have hsound := sound_new cfg (2 ^ 63 - 1 - (RateLimiter.new cfg).maxCreditNs)
  obtain ⟨h', hrun, hsound'⟩ := run_sound hash (h := { limiter := RateLimiter.new cfg })
    hvalid hlatest hsound Int.one_pos hsched
  refine ⟨h', hrun, fun key => ⟨fun s T hT => ?_, fun b hb => ?_⟩⟩
  · have hburst : max cfg.burstSize.toNat cfg.requestsPerSecond.toNat = cfg.burstSize.toNat :=
      max_eq_left hexact.burst
    have hfilled : Filled (RateLimiter.new cfg) := by
      have hidle := hexact.idle
      rw [Filled, maxCreditNs_new h, hburst]
      change _ ≤ (cfg.checked.idleTimeoutMs.toNat : ℤ) * 1000000 + 1
      rw [cfg.idleTimeoutMs_checked]
      exact_mod_cast hidle
    have hpaid := run_metered key (s := s) hvalid hfilled hlatest hT hsound Int.one_pos
      hsched
      (by rw [level_new]; exact Metered.start hvalid.ceiling hT) hrun
    rw [maxCreditNs_new h, nsPerToken_new h, hburst] at hpaid
    refine le_ceil_of_paid (by exact_mod_cast h) ?_ hpaid
    exact_mod_cast Nat.div_mul_cancel hexact.rate
  · obtain ⟨shard, hshard, hb⟩ := Option.bind_eq_some_iff.1 hb
    exact (hsound'.bucket shard (List.mem_of_getElem? hshard) key b hb).credit

end RateLimit
