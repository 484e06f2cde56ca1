/-
**The rate limiter of the API.**

Every key has a bucket of credit in nanoseconds, in one of several shards.  A call adds the time
since the last one, up to a ceiling, and takes the cost of a token if the bucket holds it.  A
janitor erases the buckets that were not seen for long, shard after shard.

A bucket whose `lastSeen` is zero counts as new, so the clock is taken to show a positive time.  The
arithmetic is that of `int64_t`, with no result where it overflows.

Main definitions:

* `RateLimit.Config`, `RateLimit.RateLimiter`, `RateLimiter.new` — the limiter;
* `RateLimiter.allow`, `RateLimiter.sweep` — a call, and the janitor at one shard;
* `RateLimiter.level` — the bucket of a key, as a token bucket;
* `RateLimiter.Sound` — every bucket was seen at a positive time, and holds no more than the
  ceiling.

Main results:

* `RateLimiter.allow_spec`, `RateLimiter.sweep_spec` — **what a call and a sweep do to the bucket of
  every key**, where nothing overflows.
-/

import MedorCoin.Cpp.Text
import MedorCoin.Ledger.Table
import MedorCoin.RateLimit.TokenBucket

set_option autoImplicit false

namespace RateLimit

open Cpp Ledger TokenBucket

/-- A result of arithmetic in `int64_t`. -/
def int64 (x : ℤ) : Option ℤ := if -2 ^ 63 ≤ x ∧ x < 2 ^ 63 then some x else none

theorem int64_of_mem {x : ℤ} (hmin : -2 ^ 63 ≤ x) (hmax : x < 2 ^ 63) : int64 x = some x :=
  if_pos ⟨hmin, hmax⟩

/-! ### The limiter -/

/-- `RateLimiter::Config`. -/
structure Config where
  requestsPerSecond : UInt32 := 20
  burstSize : UInt32 := 40
  idleTimeoutMs : UInt32 := 60000
  shardCount : UInt32 := 16

namespace Config

/-- The constructor puts right a number of shards that is not a power of two. -/
def withShards (cfg : Config) : Config :=
  if cfg.shardCount == 0 || (cfg.shardCount &&& (cfg.shardCount - 1)) != 0 then
    { cfg with shardCount := 16 }
  else cfg

/-- A rate of zero. -/
def withRate (cfg : Config) : Config :=
  if cfg.requestsPerSecond == 0 then { cfg with requestsPerSecond := 1 } else cfg

/-- A burst below the rate. -/
def withBurst (cfg : Config) : Config :=
  if cfg.burstSize < cfg.requestsPerSecond then { cfg with burstSize := cfg.requestsPerSecond }
  else cfg

/-- The configuration that the limiter works with. -/
def checked (cfg : Config) : Config := cfg.withShards.withRate.withBurst

variable (cfg : Config)

@[simp] theorem requestsPerSecond_withShards :
    cfg.withShards.requestsPerSecond = cfg.requestsPerSecond := by
  rw [withShards]
  split <;> rfl

@[simp] theorem burstSize_withShards : cfg.withShards.burstSize = cfg.burstSize := by
  rw [withShards]
  split <;> rfl

@[simp] theorem idleTimeoutMs_checked : cfg.checked.idleTimeoutMs = cfg.idleTimeoutMs := by
  rw [checked, withBurst, withRate, withShards]
  split_ifs <;> rfl

theorem withRate_of_pos (h : 0 < cfg.requestsPerSecond.toNat) :
    cfg.withShards.withRate = cfg.withShards := by
  refine if_neg fun hzero => ?_
  rw [requestsPerSecond_withShards, beq_iff_eq] at hzero
  rw [hzero] at h
  exact absurd h (by decide)

theorem requestsPerSecond_checked (h : 0 < cfg.requestsPerSecond.toNat) :
    cfg.checked.requestsPerSecond = cfg.requestsPerSecond := by
  rw [checked, cfg.withRate_of_pos h, withBurst]
  split <;> exact cfg.requestsPerSecond_withShards

theorem burstSize_checked (h : 0 < cfg.requestsPerSecond.toNat) :
    cfg.checked.burstSize.toNat = max cfg.burstSize.toNat cfg.requestsPerSecond.toNat := by
  rw [checked, cfg.withRate_of_pos h, withBurst, requestsPerSecond_withShards,
    burstSize_withShards]
  split
  · next hlt => exact (max_eq_right (UInt32.lt_iff_toNat_lt.1 hlt).le).symm
  · next hle =>
      rw [UInt32.lt_iff_toNat_lt, not_lt] at hle
      rw [burstSize_withShards, max_eq_left hle]

theorem shardCount_checked_pos : 0 < cfg.checked.shardCount.toNat := by
  have hburst : ∀ c : Config, c.withBurst.shardCount = c.shardCount := by
    intro c
    rw [withBurst]
    split <;> rfl
  have hrate : ∀ c : Config, c.withRate.shardCount = c.shardCount := by
    intro c
    rw [withRate]
    split <;> rfl
  rw [checked, hburst, hrate, withShards]
  split
  · exact Nat.succ_pos 15
  · next hshards =>
      rw [Bool.or_eq_true, not_or, beq_iff_eq] at hshards
      exact Nat.pos_of_ne_zero fun hzero => hshards.1 (UInt32.toNat_inj.1 hzero)

end Config

/-- `RateLimiter::Bucket`. -/
structure Bucket where
  creditNs : ℤ := 0
  lastSeen : ℤ := 0

/-- `RateLimiter::Shard::buckets`. -/
abbrev Shard := AList fun _ : Str => Bucket

structure RateLimiter where
  cfg : Config
  nsPerToken : ℤ
  maxCreditNs : ℤ
  shards : List Shard

/-- Adds the time since the last call to a bucket, and fills a new one. -/
def Bucket.refill (maxCreditNs now : ℤ) (bucket : Bucket) : Option Bucket :=
  if bucket.lastSeen = 0 then some { creditNs := maxCreditNs, lastSeen := now }
  else do
    let elapsed ← int64 (now - bucket.lastSeen)
    if elapsed > 0 then
      let creditNs ← int64 (bucket.creditNs + elapsed)
      some { creditNs := if creditNs > maxCreditNs then maxCreditNs else creditNs, lastSeen := now }
    else some { bucket with lastSeen := now }

namespace RateLimiter

/-- The constructor. -/
def new (cfg : Config) : RateLimiter :=
  let cfg := cfg.checked
  let nsPerToken : ℤ := 1000000000 / cfg.requestsPerSecond.toNat
  { cfg
    nsPerToken
    maxCreditNs := cfg.burstSize.toNat * nsPerToken
    shards := List.replicate cfg.shardCount.toNat ∅ }

variable (hash : Str → UInt64)

/-- `shardFor(key)`. -/
def shardFor (s : RateLimiter) (key : Str) : ℕ :=
  (hash key &&& (s.cfg.shardCount - 1).toUInt64).toNat

/-- The bucket of a key goes back into its shard. -/
def setBucket (s : RateLimiter) (i : ℕ) (shard : Shard) (key : Str) (bucket : Bucket) :
    RateLimiter :=
  { s with shards := s.shards.set i (shard.insert key bucket) }

/-- `allow(key)`, at a reading of the clock. -/
def allow (s : RateLimiter) (now : ℤ) (key : Str) : Option (Bool × RateLimiter) :=
  if key = [] then some (false, s)
  else do
    let i := s.shardFor hash key
    let shard ← s.shards[i]?
    let bucket ← ((shard.lookup key).getD {}).refill s.maxCreditNs now
    if bucket.creditNs < s.nsPerToken then some (false, s.setBucket i shard key bucket)
    else
      some (true, s.setBucket i shard key
        { bucket with creditNs := bucket.creditNs - s.nsPerToken })

/-- `runJanitor()` at one shard, with the reading of the clock of its round. -/
def sweep (s : RateLimiter) (now : ℤ) (i : ℕ) : Option RateLimiter := do
  let cutoffNs ← int64 (now - s.cfg.idleTimeoutMs.toNat * 1000000)
  let shard ← s.shards[i]?
  let idle := (shard.entries.filter fun e => decide (e.2.lastSeen < cutoffNs)).map Sigma.fst
  some { s with shards := s.shards.set i (idle.foldl (fun buckets key => buckets.erase key) shard) }

end RateLimiter

/-! ### What a call does to a bucket -/

/-- A bucket in the terms of the library. -/
def Bucket.level (b : Bucket) : Level := ⟨b.creditNs, b.lastSeen⟩

/-- A bucket that was seen at a positive time, and whose credit is within the ceiling. -/
structure Bucket.Sound (maxCreditNs latest : ℤ) (b : Bucket) : Prop where
  seen : 0 < b.lastSeen
  latest : b.lastSeen ≤ latest
  credit : b.level.Within maxCreditNs

/-- **What a call finds**, where nothing overflows. -/
theorem Bucket.refill_spec {maxCreditNs latest now : ℤ} {o : Option Bucket}
    (hsound : ∀ b, o = some b → b.Sound maxCreditNs latest) (hpos : 0 < now)
    (hnow : now ≤ latest) (hlatest : latest + maxCreditNs < 2 ^ 63) (hmax : 0 ≤ maxCreditNs) :
    ∃ b, (o.getD {}).refill maxCreditNs now = some b ∧
      b.level = found maxCreditNs now (o.map Bucket.level) := by
  cases o with
  | none => exact ⟨⟨maxCreditNs, now⟩, if_pos rfl, rfl⟩
  | some b =>
      obtain ⟨hseen, hlast, hnonneg, hcredit⟩ := hsound b rfl
      simp only [Bucket.level] at hnonneg hcredit
      rw [Option.getD_some, Bucket.refill, if_neg hseen.ne',
        int64_of_mem (by linarith) (by linarith), Option.bind_eq_bind, Option.bind_some]
      by_cases helapsed : now - b.lastSeen > 0
      · rw [if_pos helapsed, int64_of_mem (by linarith) (by linarith), Option.bind_some]
        refine ⟨_, rfl, ?_⟩
        rw [Option.map_some, found, Level.refill, Bucket.level, Bucket.level,
          max_eq_right helapsed.le, Level.mk.injEq]
        refine ⟨?_, rfl⟩
        split
        · next hover => exact (min_eq_left hover.le).symm
        · next hover => exact (min_eq_right (not_lt.1 hover)).symm
      · -- the clock shows no later time than at the last call
        rw [if_neg helapsed]
        refine ⟨_, rfl, ?_⟩
        rw [Option.map_some, found, Level.refill, Bucket.level, Bucket.level,
          max_eq_left (not_lt.1 helapsed), add_zero, min_eq_right hcredit]

namespace RateLimiter

variable (hash : Str → UInt64)

/-! ### The buckets of all keys -/

/-- The bucket of a key. -/
def bucket (s : RateLimiter) (key : Str) : Option Bucket :=
  s.shards[s.shardFor hash key]?.bind fun shard => shard.lookup key

/-- The bucket of a key in the terms of the library. -/
def level (s : RateLimiter) (key : Str) : Option Level := (s.bucket hash key).map Bucket.level

/-- A limiter with the constants of another, whose buckets are sound. -/
structure Sound (s start : RateLimiter) (latest : ℤ) : Prop where
  constants : s = { start with shards := s.shards }
  length : s.shards.length = start.cfg.shardCount.toNat
  bucket : ∀ shard ∈ s.shards, ∀ key b, shard.lookup key = some b →
    b.Sound start.maxCreditNs latest

/-- What is taken of the constants of a limiter. -/
structure Valid (start : RateLimiter) : Prop where
  shards : 0 < start.cfg.shardCount.toNat
  cost : 0 ≤ start.nsPerToken
  ceiling : 0 ≤ start.maxCreditNs

variable {hash} {start s : RateLimiter} {latest now : ℤ} {key : Str}

theorem Sound.shardFor_eq (hs : s.Sound start latest) (key : Str) :
    s.shardFor hash key = start.shardFor hash key := by
  rw [hs.constants]
  rfl

/-- **The shard of a key is one of the shards.** -/
theorem Sound.shardFor_lt (hash : Str → UInt64) (hvalid : start.Valid)
    (hs : s.Sound start latest) (key : Str) :
    s.shardFor hash key < s.shards.length := by
  have hpos := hvalid.shards
  have hone : (1 : UInt32) ≤ start.cfg.shardCount := by
    rw [UInt32.le_iff_toNat_le]
    exact hpos
  rw [hs.shardFor_eq, hs.length, shardFor, UInt64.toNat_and]
  refine Nat.lt_of_le_of_lt Nat.and_le_right ?_
  rw [UInt32.toNat_toUInt64, UInt32.toNat_sub_of_le _ _ hone]
  exact Nat.sub_lt hpos Nat.one_pos

theorem Sound.level_set (hash : Str → UInt64) (hs : s.Sound start latest) {shard shard' : Shard}
    {i : ℕ} (hi : s.shards[i]? = some shard)
    (hshard : ∀ key b, shard'.lookup key = some b → b.Sound start.maxCreditNs latest) :
    ({ s with shards := s.shards.set i shard' } : RateLimiter).Sound start latest ∧
      ∀ key, ({ s with shards := s.shards.set i shard' } : RateLimiter).level hash key =
        if s.shardFor hash key = i then (shard'.lookup key).map Bucket.level
        else s.level hash key := by
  obtain ⟨hlt, -⟩ := List.getElem?_eq_some_iff.1 hi
  refine ⟨⟨?_, ?_, ?_⟩, fun key => ?_⟩
  · rw [hs.constants]
  · rw [List.length_set, hs.length]
  · intro t ht
    rcases List.mem_or_eq_of_mem_set ht with hmem | rfl
    · exact hs.bucket t hmem
    · exact hshard
  · rw [level, RateLimiter.bucket]
    change ((s.shards.set i shard')[s.shardFor hash key]?.bind _).map _ = _
    by_cases heq : s.shardFor hash key = i
    · rw [if_pos heq, heq, List.getElem?_set_self hlt, Option.bind_some]
    · rw [if_neg heq, List.getElem?_set_ne (Ne.symm heq)]
      rfl

theorem Sound.maxCreditNs_eq (hs : s.Sound start latest) : s.maxCreditNs = start.maxCreditNs := by
  rw [hs.constants]

theorem Sound.nsPerToken_eq (hs : s.Sound start latest) : s.nsPerToken = start.nsPerToken := by
  rw [hs.constants]

theorem level_of_shard {shard : Shard} (hi : s.shards[s.shardFor hash key]? = some shard) :
    s.level hash key = (shard.lookup key).map Bucket.level := by
  rw [level, RateLimiter.bucket, hi, Option.bind_some]

theorem Sound.setBucket (hvalid : start.Valid) (hs : s.Sound start latest) (hpos : 0 < now)
    (hnow : now ≤ latest) {shard : Shard} {b : Bucket}
    (hi : s.shards[s.shardFor hash key]? = some shard)
    (hb : b.level = (visit start.nsPerToken start.maxCreditNs now (s.level hash key)).2) :
    (s.setBucket (s.shardFor hash key) shard key b).Sound start latest ∧
      ∀ key', (s.setBucket (s.shardFor hash key) shard key b).level hash key' =
        if key' = key then
          some (visit start.nsPerToken start.maxCreditNs now (s.level hash key)).2
        else s.level hash key' := by
  have hshard := hs.bucket shard (List.mem_of_getElem? hi)
  have hseen : b.lastSeen = now := by
    rw [show b.lastSeen = b.level.last from rfl, hb, last_visit]
  have hwithin : b.level.Within start.maxCreditNs := by
    rw [hb]
    refine within_visit hvalid.cost hvalid.ceiling fun l hl => ?_
    rw [level_of_shard hi] at hl
    obtain ⟨b', hb', rfl⟩ := Option.map_eq_some_iff.1 hl
    exact (hshard key b' hb').credit
  have hinsert : ∀ key' b', (shard.insert key b).lookup key' = some b' →
      b'.Sound start.maxCreditNs latest := by
    intro key' b' hb'
    rcases lookup_insert_cases hb' with ⟨-, rfl⟩ | ⟨-, hb'⟩
    · exact ⟨hseen ▸ hpos, hseen ▸ hnow, hwithin⟩
    · exact hshard key' b' hb'
  obtain ⟨hsound, hlevel⟩ := hs.level_set hash hi hinsert
  refine ⟨hsound, fun key' => ?_⟩
  rw [RateLimiter.setBucket, hlevel]
  by_cases heq : key' = key
  · rw [if_pos heq, heq, if_pos rfl, AList.lookup_insert, Option.map_some, hb]
  · rw [if_neg heq, AList.lookup_insert_ne heq]
    split
    · next hfor => rw [level_of_shard (hfor ▸ hi)]
    · rfl

/-- **What a call does**: it visits the bucket of its key. -/
theorem allow_spec (hash : Str → UInt64) (hvalid : start.Valid) (hs : s.Sound start latest)
    (hlatest : latest + start.maxCreditNs < 2 ^ 63) (hkey : key ≠ []) (hpos : 0 < now)
    (hnow : now ≤ latest) :
    ∃ s', s.allow hash now key =
        some ((visit start.nsPerToken start.maxCreditNs now (s.level hash key)).1, s') ∧
      s'.Sound start latest ∧
      ∀ key', s'.level hash key' =
        if key' = key then
          some (visit start.nsPerToken start.maxCreditNs now (s.level hash key)).2
        else s.level hash key' := by
  have hi := List.getElem?_eq_getElem (hs.shardFor_lt hash hvalid key)
  have hshard := hs.bucket _ (List.mem_of_getElem? hi)
  obtain ⟨b, hrefill, hb⟩ := Bucket.refill_spec (fun b hb => hshard key b hb) hpos hnow hlatest
    hvalid.ceiling
  rw [← level_of_shard hi] at hb
  have hcredit : b.creditNs = (found start.maxCreditNs now (s.level hash key)).credit := by
    rw [← hb]
    rfl
  rw [allow, if_neg hkey]
  simp only [hi, Option.bind_eq_bind, Option.bind_some, hs.maxCreditNs_eq, hs.nsPerToken_eq,
    hrefill]
  by_cases hdeny : b.creditNs < start.nsPerToken
  · rw [if_pos hdeny]
    have hvisit : visit start.nsPerToken start.maxCreditNs now (s.level hash key) =
        (false, b.level) := by
      rw [visit, ← hcredit, if_pos hdeny, hb]
    refine ⟨_, by rw [hvisit], hs.setBucket hvalid hpos hnow hi ?_⟩
    rw [hvisit]
  · rw [if_neg hdeny]
    have hvisit : visit start.nsPerToken start.maxCreditNs now (s.level hash key) =
        (true, { b.level with credit := b.level.credit - start.nsPerToken }) := by
      rw [visit, ← hcredit, if_neg hdeny, ← hb]
      rfl
    refine ⟨_, by rw [hvisit], hs.setBucket hvalid hpos hnow hi ?_⟩
    rw [hvisit]
    rfl

/-- **What a sweep does**: it erases the buckets of its shard that were not seen since the cutoff.
-/
theorem sweep_spec (hash : Str → UInt64) {i : ℕ} (hs : s.Sound start latest)
    (hi : i < start.cfg.shardCount.toNat)
    (hpos : 0 < now) (hnow : now < 2 ^ 63) :
    ∃ s', s.sweep now i = some s' ∧ s'.Sound start latest ∧
      ∀ key, s'.level hash key =
        if s.shardFor hash key = i then
          (s.level hash key).filter fun l =>
            decide (now - start.cfg.idleTimeoutMs.toNat * 1000000 ≤ l.last)
        else s.level hash key := by
  have hidle : (start.cfg.idleTimeoutMs.toNat : ℤ) < 2 ^ 32 := by
    exact_mod_cast start.cfg.idleTimeoutMs.toNat_lt
  have hcfg : s.cfg = start.cfg := by rw [hs.constants]
  have hcutoff : int64 (now - s.cfg.idleTimeoutMs.toNat * 1000000) =
      some (now - start.cfg.idleTimeoutMs.toNat * 1000000) := by
    rw [hcfg]
    exact int64_of_mem (by linarith)
      (by linarith [Int.natCast_nonneg start.cfg.idleTimeoutMs.toNat])
  obtain ⟨shard, hget⟩ : ∃ shard, s.shards[i]? = some shard :=
    ⟨_, List.getElem?_eq_getElem (hs.length ▸ hi)⟩
  have hshard := hs.bucket _ (List.mem_of_getElem? hget)
  rw [sweep]
  simp only [hcutoff, hget, Option.bind_eq_bind, Option.bind_some]
  have hsweep := lookup_sweep (fun m : Shard => m) lookup_erase_eq
    shard (List.Perm.refl _)
    fun b => decide (b.lastSeen < now - start.cfg.idleTimeoutMs.toNat * 1000000)
  obtain ⟨hsound, hlevel⟩ := hs.level_set hash hget fun key b hb => by
    rw [hsweep] at hb
    exact hshard key b (Option.filter_eq_some_iff.1 hb).1
  refine ⟨_, rfl, hsound, fun key => ?_⟩
  rw [hlevel]
  split
  · next hfor =>
      rw [hsweep, level_of_shard (by rw [hfor, hget]), Option.filter_map]
      refine congrArg (Option.map Bucket.level) (congrArg (Option.filter · _) (funext fun b => ?_))
      rw [Bool.eq_iff_iff, Bool.not_eq_true', decide_eq_false_iff_not, not_lt]
      exact (decide_eq_true_iff (p := _ ≤ (Bucket.level b).last)).symm
  · rfl

end RateLimiter

end RateLimit
