/-
**Where a limiter grants too much.**

If the constants of a limiter are not exact, some schedule goes beyond the bound.  A burst below the
rate is raised to it, and can be spent at one reading of the clock.  The cost of a token is a
quotient that is rounded down: tokens that are taken one at a time come too fast, by one after
`10 ^ 9` of them at the latest.  And the janitor forgets what a key has spent if it erases a bucket
that is not full yet, which a key can wait for over and over.

Main definitions:

* `RateLimit.burst`, `RateLimit.drip`, `RateLimit.cycles` — calls at one reading of the clock, calls
  at the pace of the tokens, and bursts that each follow a sweep.

Main results:

* `RateLimit.full_spec`, `RateLimit.drip_spec`, `RateLimit.cycles_spec` — **what these are
  granted**;
* `RateLimit.rate_bound_iff` — **the bound holds just where the constants are exact**.
-/

import MedorCoin.RateLimit.Window

set_option autoImplicit false

namespace RateLimit

open Cpp TokenBucket

/-! ### What is granted in a row -/

variable {hash : Str → UInt64} {cfg : Config} {start : RateLimiter} {latest now : ℤ} {h : History}
  {key : Str}

theorem visit_of_le {cost cap : ℤ} {o : Option Level} (h : cost ≤ (found cap now o).credit) :
    visit cost cap now o = (true, ⟨(found cap now o).credit - cost, now⟩) := by
  rw [visit, if_neg (not_lt.2 h)]
  congr 1
  rw [Level.mk.injEq]
  exact ⟨rfl, last_found⟩

/-- **A call that is granted.** -/
theorem call_spec (hash : Str → UInt64) (hvalid : start.Valid)
    (hlatest : latest + start.maxCreditNs < 2 ^ 63)
    (hs : h.limiter.Sound start latest) (hkey : key ≠ []) (hpos : 0 < now) (hnow : now ≤ latest)
    (hcredit : start.nsPerToken ≤
      (found start.maxCreditNs now (h.limiter.level hash key)).credit) :
    ∃ h', (∀ rest, Transition.run (step hash) h (.allow key now :: rest) =
        Transition.run (step hash) h' rest) ∧
      h'.limiter.Sound start latest ∧
      h'.limiter.level hash key =
        some ⟨(found start.maxCreditNs now (h.limiter.level hash key)).credit - start.nsPerToken,
          now⟩ ∧
      ∀ s T, s ≤ now → now ≤ s + T →
        granted key s T h'.grants = granted key s T h.grants + 1 := by
  have hsched : Schedule start.cfg.shardCount.toNat latest now [.allow key now] :=
    ⟨le_rfl, hnow, trivial⟩
  obtain ⟨h', hstep, hsound, heffect⟩ := step_spec hash hvalid hlatest hs hpos hsched
  have heffect := heffect key
  rw [Effect, if_pos ⟨rfl, hkey⟩, visit_of_le hcredit] at heffect
  refine ⟨h', fun rest => ?_, hsound, heffect.1, fun s T hs hT => ?_⟩
  · rw [Transition.run, hstep, Option.bind_some]
  · rw [heffect.2, if_pos ⟨rfl, hs, hT⟩]

/-- Calls at one reading of the clock. -/
def burst (key : Str) (now : ℤ) (m : ℕ) : List Event := List.replicate m (.allow key now)

theorem schedule_burst {shards m : ℕ} {rest : List Event} {earliest : ℤ} (hle : earliest ≤ now)
    (hnow : now ≤ latest) (h : Schedule shards latest now rest) (hm : 0 < m) :
    Schedule shards latest earliest (burst key now m ++ rest) := by
  induction m generalizing earliest with
  | zero => exact absurd hm (lt_irrefl 0)
  | succ m ih =>
      refine ⟨hle, hnow, ?_⟩
      rcases Nat.eq_zero_or_pos m with rfl | hm
      · exact h
      · exact ih le_rfl hm

theorem burst_spec (hvalid : start.Valid) (hlatest : latest + start.maxCreditNs < 2 ^ 63)
    (hs : h.limiter.Sound start latest) (hkey : key ≠ []) (hpos : 0 < now) (hnow : now ≤ latest)
    {m : ℕ} {credit : ℤ} (hlevel : h.limiter.level hash key = some ⟨credit, now⟩)
    (hcap : credit ≤ start.maxCreditNs) (hcredit : m * start.nsPerToken ≤ credit) :
    ∃ h', (∀ rest, Transition.run (step hash) h (burst key now m ++ rest) =
        Transition.run (step hash) h' rest) ∧
      h'.limiter.Sound start latest ∧
      h'.limiter.level hash key = some ⟨credit - m * start.nsPerToken, now⟩ ∧
      ∀ s T, s ≤ now → now ≤ s + T →
        granted key s T h'.grants = granted key s T h.grants + m := by
  induction m generalizing h credit with
  | zero =>
      refine ⟨h, fun _ => rfl, hs, ?_, fun _ _ _ _ => rfl⟩
      rw [hlevel, Nat.cast_zero, zero_mul, sub_zero]
  | succ m ih =>
      have hcost := hvalid.cost
      have hfound : (found start.maxCreditNs now (h.limiter.level hash key)).credit = credit := by
        rw [hlevel]
        change min _ (credit + max 0 (now - now)) = credit
        rw [sub_self, max_self, add_zero, min_eq_right hcap]
      push_cast at hcredit
      have hm : (0 : ℤ) ≤ m * start.nsPerToken := mul_nonneg (Int.natCast_nonneg m) hcost
      obtain ⟨h₁, hrun₁, hs₁, hlevel₁, hgranted₁⟩ := call_spec hash hvalid hlatest hs hkey
        hpos hnow (by rw [hfound]; linarith)
      rw [hfound] at hlevel₁
      obtain ⟨h₂, hrun₂, hs₂, hlevel₂, hgranted₂⟩ := ih hs₁ hlevel₁ (by linarith) (by linarith)
      refine ⟨h₂, fun rest => ?_, hs₂, ?_, fun s T hs hT => ?_⟩
      · rw [burst, List.replicate_succ, List.cons_append, hrun₁]
        exact hrun₂ rest
      · rw [hlevel₂]
        push_cast
        congr 2
        ring
      · rw [hgranted₂ s T hs hT, hgranted₁ s T hs hT]
        omega

/-- **A full bucket** is spent at one reading of the clock. -/
theorem full_spec (hash : Str → UInt64) (hvalid : start.Valid)
    (hlatest : latest + start.maxCreditNs < 2 ^ 63)
    (hs : h.limiter.Sound start latest) (hkey : key ≠ []) (hpos : 0 < now) (hnow : now ≤ latest)
    {m : ℕ} (hm : 0 < m) (hlevel : h.limiter.level hash key = none)
    (hfull : start.maxCreditNs = m * start.nsPerToken) :
    ∃ h', (∀ rest, Transition.run (step hash) h (burst key now m ++ rest) =
        Transition.run (step hash) h' rest) ∧
      h'.limiter.Sound start latest ∧
      h'.limiter.level hash key = some ⟨0, now⟩ ∧
      ∀ s T, s ≤ now → now ≤ s + T →
        granted key s T h'.grants = granted key s T h.grants + m := by
  obtain ⟨m, rfl⟩ := Nat.exists_eq_succ_of_ne_zero hm.ne'
  have hcost := hvalid.cost
  have hfound : (found start.maxCreditNs now (h.limiter.level hash key)).credit =
      start.maxCreditNs := by rw [hlevel]; rfl
  push_cast at hfull
  have hnonneg : (0 : ℤ) ≤ m * start.nsPerToken := mul_nonneg (Int.natCast_nonneg m) hcost
  obtain ⟨h₁, hrun₁, hs₁, hlevel₁, hgranted₁⟩ := call_spec hash hvalid hlatest hs hkey
    hpos hnow (by rw [hfound]; linarith)
  rw [hfound] at hlevel₁
  obtain ⟨h₂, hrun₂, hs₂, hlevel₂, hgranted₂⟩ := burst_spec (m := m) hvalid hlatest hs₁ hkey hpos
    hnow hlevel₁ (by linarith) (by linarith)
  refine ⟨h₂, fun rest => ?_, hs₂, ?_, fun s T hs hT => ?_⟩
  · rw [burst, List.replicate_succ, List.cons_append, hrun₁]
    exact hrun₂ rest
  · rw [hlevel₂, hfull]
    congr 2
    ring
  · rw [hgranted₂ s T hs hT, hgranted₁ s T hs hT]
    omega

/-! ### At the pace of the tokens -/

/-- Calls at the pace at which tokens are earned, after a time. -/
def drip (key : Str) (cost now : ℤ) : ℕ → List Event
  | 0 => []
  | k + 1 => .allow key (now + cost) :: drip key cost (now + cost) k

theorem schedule_drip {shards k : ℕ} {cost : ℤ} (hcost : 0 ≤ cost)
    (hlatest : now + k * cost ≤ latest) :
    Schedule shards latest now (drip key cost now k) := by
  induction k generalizing now with
  | zero => trivial
  | succ k ih =>
      push_cast at hlatest
      have hk : (0 : ℤ) ≤ k * cost := mul_nonneg (Int.natCast_nonneg k) hcost
      exact ⟨by linarith, by linarith, ih (by linarith)⟩

/-- **Calls at the pace of the tokens are all granted.** -/
theorem drip_spec (hvalid : start.Valid) (hlatest : latest + start.maxCreditNs < 2 ^ 63)
    (hs : h.limiter.Sound start latest) (hkey : key ≠ []) (hpos : 0 < now)
    (hcap : start.nsPerToken ≤ start.maxCreditNs) {k : ℕ}
    (hnow : now + k * start.nsPerToken ≤ latest)
    (hlevel : h.limiter.level hash key = some ⟨0, now⟩) :
    ∃ h', Transition.run (step hash) h (drip key start.nsPerToken now k) = some h' ∧
      ∀ s T, s ≤ now → now + k * start.nsPerToken ≤ s + T →
        granted key s T h'.grants = granted key s T h.grants + k := by
  induction k generalizing h now with
  | zero => exact ⟨h, rfl, fun _ _ _ _ => rfl⟩
  | succ k ih =>
      have hcost := hvalid.cost
      push_cast at hnow
      have hk : (0 : ℤ) ≤ k * start.nsPerToken := mul_nonneg (Int.natCast_nonneg k) hcost
      have hfound : (found start.maxCreditNs (now + start.nsPerToken)
          (h.limiter.level hash key)).credit = start.nsPerToken := by
        rw [hlevel]
        change min _ (0 + max 0 (now + start.nsPerToken - now)) = _
        rw [add_sub_cancel_left, max_eq_right hcost, zero_add, min_eq_right hcap]
      obtain ⟨h₁, hrun₁, hs₁, hlevel₁, hgranted₁⟩ := call_spec hash hvalid hlatest hs hkey
        (by linarith : 0 < now + start.nsPerToken) (by linarith) hfound.ge
      rw [hfound, sub_self] at hlevel₁
      obtain ⟨h₂, hrun₂, hgranted₂⟩ := ih hs₁ (by linarith) (by linarith) hlevel₁
      refine ⟨h₂, (hrun₁ _).trans hrun₂, fun s T hs hT => ?_⟩
      push_cast at hT
      rw [hgranted₂ s T (by linarith) (by linarith), hgranted₁ s T (by linarith) (by linarith)]
      omega

/-! ### Waiting for the janitor -/

/-- A sweep of the shard of a key and a burst, each a time after the one before. -/
def cycles (key : Str) (shard : ℕ) (wait : ℤ) (m : ℕ) (now : ℤ) : ℕ → List Event
  | 0 => []
  | j + 1 => .sweep shard (now + wait) ::
      (burst key (now + wait) m ++ cycles key shard wait m (now + wait) j)

theorem schedule_cycles {shards shard m j : ℕ} {wait : ℤ} (hshard : shard < shards)
    (hpos : 0 < now) (hwait : 0 ≤ wait) (hm : 0 < m) (hlatest : now + j * wait ≤ latest) :
    Schedule shards latest now (cycles key shard wait m now j) := by
  induction j generalizing now with
  | zero => trivial
  | succ j ih =>
      push_cast at hlatest
      have hj : (0 : ℤ) ≤ j * wait := mul_nonneg (Int.natCast_nonneg j) hwait
      refine ⟨hshard, by linarith, by linarith, ?_⟩
      exact schedule_burst (max_le (by linarith) le_rfl) (by linarith)
        (ih (by linarith) (by linarith)) hm

/-- **A sweep that comes after the idle timeout** erases the bucket. -/
theorem sweep_idle (hvalid : start.Valid) (hlatest : latest + start.maxCreditNs < 2 ^ 63)
    (hs : h.limiter.Sound start latest) (hpos : 0 < now) (hnow : now ≤ latest) {l : Level}
    (hlevel : h.limiter.level hash key = some l)
    (hidle : l.last + start.cfg.idleTimeoutMs.toNat * 1000000 < now) :
    ∃ h', (∀ rest, Transition.run (step hash) h (.sweep (start.shardFor hash key) now :: rest) =
        Transition.run (step hash) h' rest) ∧
      h'.limiter.Sound start latest ∧ h'.limiter.level hash key = none ∧ h'.grants = h.grants := by
  have hfor : start.shardFor hash key < start.cfg.shardCount.toNat := by
    rw [← hs.shardFor_eq, ← hs.length]
    exact hs.shardFor_lt hash hvalid key
  have hsched : Schedule start.cfg.shardCount.toNat latest now
      [.sweep (start.shardFor hash key) now] := ⟨hfor, hpos, hnow, trivial⟩
  obtain ⟨h', hstep, hsound, heffect⟩ := step_spec hash hvalid hlatest hs hpos hsched
  obtain ⟨hgrants, hlevel'⟩ := heffect key
  refine ⟨h', fun rest => ?_, hsound, ?_, hgrants⟩
  · rw [Transition.run, hstep, Option.bind_some]
  · rw [hlevel', if_pos rfl, hlevel, Option.filter_some, if_neg]
    rw [decide_eq_true_eq, not_le]
    linarith

/-- **A key that waits for the janitor** is granted a burst in every cycle. -/
theorem cycles_spec (hvalid : start.Valid) (hlatest : latest + start.maxCreditNs < 2 ^ 63)
    (hs : h.limiter.Sound start latest) (hkey : key ≠ []) (hpos : 0 < now) {m : ℕ} (hm : 0 < m)
    (hfull : start.maxCreditNs = m * start.nsPerToken) {wait : ℤ}
    (hwait : wait = start.cfg.idleTimeoutMs.toNat * 1000000 + 1) {j : ℕ}
    (hnow : now + j * wait ≤ latest)
    (hlevel : h.limiter.level hash key = some ⟨0, now⟩) :
    ∃ h', Transition.run (step hash) h
        (cycles key (start.shardFor hash key) wait m now j) = some h' ∧
      ∀ s T, s ≤ now → now + j * wait ≤ s + T →
        granted key s T h'.grants = granted key s T h.grants + j * m := by
  induction j generalizing h now with
  | zero => exact ⟨h, rfl, fun _ _ _ _ => by rw [Nat.zero_mul, Nat.add_zero]⟩
  | succ j ih =>
      push_cast at hnow
      have hpause : 0 ≤ wait := by
        linarith [Int.natCast_nonneg start.cfg.idleTimeoutMs.toNat]
      have hj : (0 : ℤ) ≤ j * wait := mul_nonneg (Int.natCast_nonneg j) hpause
      obtain ⟨h₁, hrun₁, hs₁, hlevel₁, hgrants₁⟩ := sweep_idle hvalid hlatest hs
        (by linarith : 0 < now + wait) (by linarith) hlevel (by change now + _ < _; linarith)
      obtain ⟨h₂, hrun₂, hs₂, hlevel₂, hgranted₂⟩ := full_spec hash hvalid hlatest
        hs₁ hkey (by linarith : 0 < now + wait) (by linarith) hm hlevel₁ hfull
      obtain ⟨h₃, hrun₃, hgranted₃⟩ := ih hs₂ (by linarith) (by linarith) hlevel₂
      refine ⟨h₃, (hrun₁ _).trans ((hrun₂ _).trans hrun₃), fun s T hs hT => ?_⟩
      push_cast at hT
      rw [hgranted₃ s T (by linarith) (by linarith), hgranted₂ s T (by linarith) (by linarith),
        hgrants₁]
      ring

/-! ### When the bound holds -/

/-- **Enough cycles** for a burst more than the time pays for, while the clock still has room. -/
theorem exists_cycles {cost burst idle : ℕ} (hcost : cost ∣ 10 ^ 9) (hburst : burst < 2 ^ 32)
    (hidle : idle < 2 ^ 32) (hlt : idle * 10 ^ 6 + 1 < burst * cost) :
    ∃ j, cost ≤ j * (burst * cost - (idle * 10 ^ 6 + 1)) ∧
      1 + j * (idle * 10 ^ 6 + 1) + burst * cost < 2 ^ 63 := by
  have hcostle : cost ≤ 10 ^ 9 := Nat.le_of_dvd (by decide) hcost
  by_cases hgain : cost ≤ burst * cost - (idle * 10 ^ 6 + 1)
  · have hcap : burst * cost ≤ 2 ^ 32 * 10 ^ 9 := Nat.mul_le_mul hburst.le hcostle
    exact ⟨1, by omega, by omega⟩
  · -- the gain of a cycle and one are a multiple of what the cost and `10 ^ 6` have in common
    have hcommon : Nat.gcd cost (10 ^ 6) ≤ burst * cost - (idle * 10 ^ 6 + 1) + 1 := by
      refine Nat.le_of_dvd (by omega) ?_
      have hdvd : Nat.gcd cost (10 ^ 6) ∣ burst * cost - idle * 10 ^ 6 :=
        Nat.dvd_sub (Dvd.dvd.mul_left (Nat.gcd_dvd_left _ _) _)
          (Dvd.dvd.mul_left (Nat.gcd_dvd_right _ _) _)
      rwa [show burst * cost - (idle * 10 ^ 6 + 1) + 1 = burst * cost - idle * 10 ^ 6 by omega]
    have hsmall : cost ≤ Nat.gcd cost (10 ^ 6) * 10 ^ 3 := by
      have hdvd : cost ∣ Nat.gcd cost (10 ^ 6) * Nat.gcd cost (10 ^ 3) := by
        have hmul := Nat.gcd_mul_right_dvd_mul_gcd cost (10 ^ 6) (10 ^ 3)
        rwa [show 10 ^ 6 * 10 ^ 3 = 10 ^ 9 by norm_num, Nat.gcd_eq_left hcost] at hmul
      have hpos : 0 < Nat.gcd cost (10 ^ 6) := Nat.gcd_pos_of_pos_right _ (by decide)
      have hpos' : 0 < Nat.gcd cost (10 ^ 3) := Nat.gcd_pos_of_pos_right _ (by decide)
      exact (Nat.le_of_dvd (Nat.mul_pos hpos hpos') hdvd).trans
        (Nat.mul_le_mul_left _ (Nat.gcd_le_right _ (by decide)))
    exact ⟨2000, by omega, by omega⟩

theorem ceil_le_of_mul_le {T r m : ℤ} (h : T * r ≤ m * 10 ^ 9) :
    ⌈(T * r / 10 ^ 9 : ℚ)⌉ ≤ m := by
  rw [Int.ceil_le, div_le_iff₀ (by positivity)]
  exact_mod_cast h

theorem RateBound.of_run (key : Str) (hbound : RateBound hash cfg) {es : List Event} {h' : History}
    (hsched : Schedule cfg.checked.shardCount.toNat
      (2 ^ 63 - 1 - (RateLimiter.new cfg).maxCreditNs) 1 es)
    (hrun : Transition.run (step hash) { limiter := RateLimiter.new cfg } es = some h') {T : ℤ}
    (hT : 0 ≤ T) :
    (granted key 1 T h'.grants : ℤ) ≤
      cfg.burstSize.toNat + ⌈(T * cfg.requestsPerSecond.toNat / 10 ^ 9 : ℚ)⌉ := by
  obtain ⟨h'', hrun', hkeys⟩ := hbound es hsched
  obtain rfl : h' = h'' := Option.some.inj (hrun.symm.trans hrun')
  exact (hkeys key).1 1 T hT

section Necessity

/-- A key for the schedules below. -/
def aKey : Str := str "k"

theorem aKey_ne_nil : aKey ≠ [] := by decide

variable (hash) (hrate : 0 < cfg.requestsPerSecond.toNat)

include hrate

theorem maxCreditNs_le : (RateLimiter.new cfg).maxCreditNs ≤ 2 ^ 32 * 10 ^ 9 := by
  rw [maxCreditNs_new hrate]
  have hburst : max cfg.burstSize.toNat cfg.requestsPerSecond.toNat ≤ 2 ^ 32 :=
    max_le cfg.burstSize.toNat_lt.le cfg.requestsPerSecond.toNat_lt.le
  exact_mod_cast Nat.mul_le_mul hburst (Nat.div_le_self _ _)

theorem new_spec (hkey : key ≠ []) :
    ∃ h₁, (∀ rest, Transition.run (step hash) { limiter := RateLimiter.new cfg }
        (burst key 1 (max cfg.burstSize.toNat cfg.requestsPerSecond.toNat) ++ rest) =
          Transition.run (step hash) h₁ rest) ∧
      h₁.limiter.Sound (RateLimiter.new cfg) (2 ^ 63 - 1 - (RateLimiter.new cfg).maxCreditNs) ∧
      h₁.limiter.level hash key = some ⟨0, 1⟩ ∧
      ∀ T, 0 ≤ T → granted key 1 T h₁.grants =
        max cfg.burstSize.toNat cfg.requestsPerSecond.toNat := by
  have hmax := maxCreditNs_le hrate
  have hsound := sound_new cfg (2 ^ 63 - 1 - (RateLimiter.new cfg).maxCreditNs)
  obtain ⟨h₁, hrun, hsound, hlevel, hgranted⟩ := full_spec hash
    (h := { limiter := RateLimiter.new cfg }) (valid_new cfg) (by linarith) hsound hkey
    Int.one_pos (by linarith) (lt_max_of_lt_right hrate) (level_new key)
    (by rw [maxCreditNs_new hrate, nsPerToken_new hrate])
  refine ⟨h₁, hrun, hsound, hlevel, fun T hT => ?_⟩
  rw [hgranted 1 T le_rfl (by linarith)]
  exact Nat.zero_add _

theorem schedule_first {rest : List Event}
    (h : Schedule cfg.checked.shardCount.toNat (2 ^ 63 - 1 - (RateLimiter.new cfg).maxCreditNs) 1
      rest) :
    Schedule cfg.checked.shardCount.toNat (2 ^ 63 - 1 - (RateLimiter.new cfg).maxCreditNs) 1
      (burst key 1 (max cfg.burstSize.toNat cfg.requestsPerSecond.toNat) ++ rest) :=
  have hmax := maxCreditNs_le hrate
  schedule_burst le_rfl (by linarith) h (lt_max_of_lt_right hrate)

theorem burst_of_bound (hbound : RateBound hash cfg) :
    cfg.requestsPerSecond.toNat ≤ cfg.burstSize.toNat := by
  obtain ⟨h₁, hrun, -, -, hgranted⟩ := new_spec hash hrate aKey_ne_nil
  have hnone : Schedule cfg.checked.shardCount.toNat
      (2 ^ 63 - 1 - (RateLimiter.new cfg).maxCreditNs) 1 [] := trivial
  have hle := hbound.of_run aKey (schedule_first hrate hnone) (hrun []) le_rfl
  rw [hgranted 0 le_rfl, Int.cast_zero, zero_mul, zero_div, Int.ceil_zero, add_zero,
    Nat.cast_le] at hle
  exact (le_max_right _ _).trans hle

theorem rate_of_bound (hburst : cfg.requestsPerSecond.toNat ≤ cfg.burstSize.toNat)
    (hbound : RateBound hash cfg) : cfg.requestsPerSecond.toNat ∣ 10 ^ 9 := by
  by_contra hdvd
  have hmax := maxCreditNs_le hrate
  have hpos : 0 < cfg.burstSize.toNat := hrate.trans_le hburst
  have hcost := nsPerToken_new hrate
  have hcap : (RateLimiter.new cfg).nsPerToken ≤ (RateLimiter.new cfg).maxCreditNs := by
    rw [maxCreditNs_new hrate, hcost, max_eq_left hburst]
    exact_mod_cast Nat.le_mul_of_pos_left _ hpos
  -- the quotient is rounded down
  have hrounded : (RateLimiter.new cfg).nsPerToken * cfg.requestsPerSecond.toNat < 10 ^ 9 := by
    have hlt := (Nat.div_mul_le_self (10 ^ 9) cfg.requestsPerSecond.toNat).lt_of_ne
      fun heq => hdvd (Dvd.intro_left _ heq)
    rw [hcost]
    exact_mod_cast hlt
  have hle : (RateLimiter.new cfg).nsPerToken ≤ 10 ^ 9 := by
    rw [hcost]
    exact_mod_cast Nat.div_le_self _ _
  have hnonneg := (valid_new cfg).cost
  have hnow : 1 + ((10 ^ 9 : ℕ) : ℤ) * (RateLimiter.new cfg).nsPerToken ≤
      2 ^ 63 - 1 - (RateLimiter.new cfg).maxCreditNs := by
    push_cast
    linarith
  have hT : (0 : ℤ) ≤ ((10 ^ 9 : ℕ) : ℤ) * (RateLimiter.new cfg).nsPerToken :=
    mul_nonneg (Int.natCast_nonneg _) hnonneg
  obtain ⟨h₁, hrun₁, hsound, hlevel, hgranted₁⟩ := new_spec hash hrate aKey_ne_nil
  obtain ⟨h₂, hrun₂, hgranted₂⟩ := drip_spec (valid_new cfg) (by linarith) hsound aKey_ne_nil
    Int.one_pos hcap hnow hlevel
  have hgrants := hbound.of_run aKey
    (schedule_first hrate (schedule_drip hnonneg hnow)) ((hrun₁ _).trans hrun₂) hT
  rw [hgranted₂ 1 _ le_rfl le_rfl, hgranted₁ _ hT, max_eq_left hburst] at hgrants
  have hceil : ⌈(((((10 ^ 9 : ℕ) : ℤ) * (RateLimiter.new cfg).nsPerToken : ℤ) : ℚ) *
      cfg.requestsPerSecond.toNat / 10 ^ 9 : ℚ)⌉ ≤ 10 ^ 9 - 1 := by
    refine ceil_le_of_mul_le (r := cfg.requestsPerSecond.toNat) ?_
    push_cast
    linarith
  push_cast at hgrants hceil
  linarith

theorem idle_of_bound (hburst : cfg.requestsPerSecond.toNat ≤ cfg.burstSize.toNat)
    (hdvd : cfg.requestsPerSecond.toNat ∣ 10 ^ 9) (hbound : RateBound hash cfg) :
    cfg.burstSize.toNat * (10 ^ 9 / cfg.requestsPerSecond.toNat) ≤
      cfg.idleTimeoutMs.toNat * 10 ^ 6 + 1 := by
  by_contra hidle
  rw [not_le] at hidle
  have hmax := maxCreditNs_le hrate
  have hpos : 0 < cfg.burstSize.toNat := hrate.trans_le hburst
  obtain ⟨j, hgain, hroom⟩ := exists_cycles (Nat.div_dvd_of_dvd hdvd) cfg.burstSize.toNat_lt
    cfg.idleTimeoutMs.toNat_lt hidle
  obtain ⟨h₁, hrun₁, hsound, hlevel, hgranted₁⟩ := new_spec hash hrate aKey_ne_nil
  have hfull := maxCreditNs_new hrate
  rw [max_eq_left hburst] at hgranted₁ hfull
  have hwait : (cfg.idleTimeoutMs.toNat : ℤ) * 1000000 + 1 =
      (RateLimiter.new cfg).cfg.idleTimeoutMs.toNat * 1000000 + 1 := by
    change _ = (cfg.checked.idleTimeoutMs.toNat : ℤ) * 1000000 + 1
    rw [cfg.idleTimeoutMs_checked]
  have hnow : 1 + (j : ℤ) * (cfg.idleTimeoutMs.toNat * 1000000 + 1) ≤
      2 ^ 63 - 1 - (RateLimiter.new cfg).maxCreditNs := by
    rw [hfull]
    have hroom' : 1 + (j : ℤ) * (cfg.idleTimeoutMs.toNat * 10 ^ 6 + 1) +
        cfg.burstSize.toNat * ((10 ^ 9 / cfg.requestsPerSecond.toNat : ℕ) : ℤ) < 2 ^ 63 := by
      exact_mod_cast hroom
    linarith
  have hshard : (RateLimiter.new cfg).shardFor hash aKey < cfg.checked.shardCount.toNat := by
    have hlt := hsound.shardFor_lt hash (valid_new cfg) aKey
    rwa [hsound.shardFor_eq, hsound.length] at hlt
  have hpause : (0 : ℤ) ≤ cfg.idleTimeoutMs.toNat * 1000000 + 1 := by
    linarith [Int.natCast_nonneg cfg.idleTimeoutMs.toNat]
  have hT : (0 : ℤ) ≤ j * (cfg.idleTimeoutMs.toNat * 1000000 + 1) :=
    mul_nonneg (Int.natCast_nonneg _) hpause
  obtain ⟨h₂, hrun₂, hgranted₂⟩ := cycles_spec (valid_new cfg) (by linarith) hsound aKey_ne_nil
    Int.one_pos hpos (by rw [hfull, nsPerToken_new hrate]) hwait hnow hlevel
  have hgrants := hbound.of_run aKey
    (schedule_first hrate (schedule_cycles hshard Int.one_pos hpause hpos hnow))
    ((hrun₁ _).trans hrun₂) hT
  rw [hgranted₂ 1 _ le_rfl le_rfl, hgranted₁ _ hT] at hgrants
  -- the time of the cycles is that of their bursts less a token
  have hceil : ⌈((((j : ℤ) * (cfg.idleTimeoutMs.toNat * 1000000 + 1) : ℤ) : ℚ) *
      cfg.requestsPerSecond.toNat / 10 ^ 9 : ℚ)⌉ ≤ j * cfg.burstSize.toNat - 1 := by
    refine ceil_le_of_mul_le (r := cfg.requestsPerSecond.toNat) ?_
    have hcost : ((10 ^ 9 / cfg.requestsPerSecond.toNat : ℕ) : ℤ) *
        cfg.requestsPerSecond.toNat = 10 ^ 9 := by exact_mod_cast Nat.div_mul_cancel hdvd
    generalize 10 ^ 9 / cfg.requestsPerSecond.toNat = cost at hgain hidle hcost
    have htime : (j : ℤ) * (cfg.idleTimeoutMs.toNat * 1000000 + 1) ≤
        j * cfg.burstSize.toNat * cost - cost := by
      zify [hidle.le] at hgain
      linarith
    calc (j : ℤ) * (cfg.idleTimeoutMs.toNat * 1000000 + 1) * cfg.requestsPerSecond.toNat
        ≤ (j * cfg.burstSize.toNat * cost - cost) * cfg.requestsPerSecond.toNat :=
          mul_le_mul_of_nonneg_right htime (Int.natCast_nonneg _)
      _ = (j * cfg.burstSize.toNat - 1) * (cost * cfg.requestsPerSecond.toNat) := by ring
      _ = (j * cfg.burstSize.toNat - 1) * 10 ^ 9 := by rw [hcost]
  push_cast at hgrants hceil
  linarith

end Necessity

/-- **The bound holds just where the constants are exact.** -/
theorem rate_bound_iff (hash : Str → UInt64) (cfg : Config)
    (hrate : 0 < cfg.requestsPerSecond.toNat) : RateBound hash cfg ↔ Exact cfg := by
  refine ⟨fun hbound => ?_, bound_of_exact hrate⟩
  have hburst := burst_of_bound hash hrate hbound
  have hdvd := rate_of_bound hash hrate hburst hbound
  exact ⟨hburst, hdvd, idle_of_bound hash hrate hburst hdvd hbound⟩

theorem rate_bound_default : RateBound (fun _ => 0) {} :=
  (rate_bound_iff (fun _ => 0) {} (by decide)).2 ⟨by decide, by decide, by decide⟩

/-- Three requests in a second, where a token costs a third of a nanosecond too little. -/
theorem not_rateBound_three : ¬ RateBound (fun _ => 0) { requestsPerSecond := 3 } := fun hbound =>
  absurd (rate_of_bound (fun _ => 0) (by decide) (by decide) hbound) (by decide)

end RateLimit
