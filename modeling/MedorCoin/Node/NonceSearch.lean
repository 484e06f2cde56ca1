/-
**The search for a nonce, with the nonce that was kept.**

`ProofOfWork::mine` keeps in a file at which nonce a search was left, and the next search goes on
from there, whatever block it is for.  It tests a nonce before it compares the next one with the
bound.  So it leaves out the nonces below the one that was kept; a nonce at the bound or above is
tested, and then nothing else; and after the greatest `uint64_t` the search goes on from zero.

A progress function that asks to stop ends a search as the flag to abort does; no caller passes one.
The clock, the log and the metrics are left out, and the file can be written if there is a path.

Main definitions:

* `Node.ProofOfWork.Config`, `Node.ProofOfWork.Config.saveNonceState`,
  `Node.ProofOfWork.Config.loadNonceState` — the file;
* `Node.ProofOfWork.Config.mine` — the search, `none` where a remainder by zero is computed;
* `Node.ProofOfWork.Meets`, `Node.ProofOfWork.Tried` — the nonces that meet the target, and those
  that are tested.

Main results:

* `Node.ProofOfWork.Config.loadNonceState_saveNonceState` — what was kept is read again;
* `Node.ProofOfWork.Config.mineFrom_spec` — **a search finds a nonce exactly if one of those that
  are tested meets the target**;
* `Node.ProofOfWork.exists_tried_iff` — when this is the case exactly if one below the bound does;
* `Node.ProofOfWork.Config.mine_default` — without a file this is the search of `Node.ProofOfWork`.
-/

import MedorCoin.Node.HeaderHash

set_option autoImplicit false

namespace Node

namespace ProofOfWork

open Cpp

/-! ### The file with the nonce -/

/-- The fields of `Config` that the search uses. -/
structure Config where
  threads : UInt32 := 0
  hashCheckInterval : UInt64 := 5000
  maxNonce : UInt64 := 18446744073709551615
  nonceStatePath : Str := []

/-- What the constructor makes of the configuration. -/
def Config.construct (hardwareConcurrency : UInt32) (cfg : Config) : Config :=
  if cfg.threads = 0 then { cfg with threads := max 1 hardwareConcurrency } else cfg

theorem Config.threads_construct (hardwareConcurrency : UInt32) (cfg : Config) :
    (cfg.construct hardwareConcurrency).threads ≠ 0 := by
  unfold construct
  split
  · rw [show (max 1 hardwareConcurrency) =
      if 1 ≤ hardwareConcurrency then hardwareConcurrency else 1 from rfl]
    simp only
    split
    · next hle =>
        rintro rfl
        exact absurd hle (by decide)
    · decide
  · next hne => exact hne

/-- `saveNonceState(nonce)`: the contents of the file after it, `none` if there is no file. -/
def Config.saveNonceState (cfg : Config) (file : Option Str) (nonce : UInt64) : Option Str :=
  if cfg.nonceStatePath = [] then file
  else some ([7, 6, 5, 4, 3, 2, 1, 0].map fun i : UInt64 => ((nonce >>> (i * 8)) &&& 0xFF).toUInt8)

/-- The loop over the bytes of the file, of which so many are to come. -/
def getNonce : ℕ → UInt64 → Str → UInt64
  | 0, nonce, _ => nonce
  | _ + 1, _, [] => 0
  | i + 1, nonce, c :: f => getNonce i (nonce ||| (c.toUInt64 <<< (UInt64.ofNat i * 8))) f

/-- `loadNonceState()` -/
def Config.loadNonceState (cfg : Config) (file : Option Str) : UInt64 :=
  if cfg.nonceStatePath = [] then 0
  else
    match file with
    | none => 0
    | some f => getNonce 8 0 f

/-! ### The search -/

/-- `struct Result` -/
structure Result where
  found : Bool := false
  nonce : UInt64 := 0
  hash : Str := []
  hashesComputed : UInt64 := 0

/-- What a search leaves: its result, the block and the file. -/
structure Outcome where
  result : Result
  block : Block
  file : Option Str

/-- A bound on the nonces that are still tested. -/
def Config.remaining (cfg : Config) (nonce : UInt64) : ℕ :=
  if nonce < cfg.maxNonce then cfg.maxNonce.toNat - nonce.toNat else cfg.maxNonce.toNat + 1

theorem Config.remaining_lt {cfg : Config} {nonce : UInt64} (h : nonce + 1 < cfg.maxNonce) :
    cfg.remaining (nonce + 1) < cfg.remaining nonce := by
  have hlt := UInt64.lt_iff_toNat_lt.1 h
  have hmax := cfg.maxNonce.toNat_lt
  have hnonce := nonce.toNat_lt
  have hadd : (nonce + 1).toNat = (nonce.toNat + 1) % 2 ^ 64 := UInt64.toNat_add nonce 1
  rw [remaining, remaining, if_pos h]
  split
  · next hbelow =>
      have := UInt64.lt_iff_toNat_lt.1 hbelow
      omega
  · omega

/-- The loop of `mine`, with the number of hashes that are computed.  The flag to abort may be read
differently every time; the header is never empty. -/
def Config.mineFrom (cfg : Config) (abort : UInt64 → Bool) (b : Block) (nonce hashCount : UInt64)
    (file : Option Str) : Option Outcome :=
  if abort hashCount then
    some ⟨{ hashesComputed := hashCount }, b, cfg.saveNonceState file nonce⟩
  else if hashMeetsTarget (Keccak.hex (serializeHeader { b with nonce })) b.difficulty then
    let hash := Keccak.hex (serializeHeader { b with nonce })
    some ⟨⟨true, nonce, hash, hashCount + 1⟩, { b with nonce, hash }, cfg.saveNonceState file 0⟩
  else if hmax : cfg.maxNonce ≤ nonce + 1 then
    some ⟨{ hashesComputed := hashCount + 1 }, { b with nonce },
      cfg.saveNonceState file (nonce + 1)⟩
  -- `hashCount % interval` and `hashCount % (interval * 100)`
  else if cfg.hashCheckInterval = 0 ∨ cfg.hashCheckInterval * 100 = 0 then none
  else
    cfg.mineFrom abort { b with nonce } (nonce + 1) (hashCount + 1)
      (if (hashCount + 1) % (cfg.hashCheckInterval * 100) = 0 then
        cfg.saveNonceState file (nonce + 1)
      else file)
termination_by cfg.remaining nonce
decreasing_by exact Config.remaining_lt (UInt64.not_le.1 hmax)

/-- `mine(block, abort)` -/
def Config.mine (cfg : Config) (abort : UInt64 → Bool) (file : Option Str) (b : Block) :
    Option Outcome :=
  cfg.mineFrom abort b (cfg.loadNonceState file) 0 file

/-- Nobody sets the flag. -/
def never : UInt64 → Bool := fun _ => false

/-- **The nonce gives the block a hash that meets its target.** -/
def Meets (b : Block) (nonce : UInt64) : Bool :=
  hashMeetsTarget (computeHash { b with nonce }) b.difficulty

variable {cfg : Config} {b : Block} {nonce hashCount : UInt64} {file : Option Str}

/-! ### What was kept is read again -/

theorem toNat_or_shiftLeft {n : UInt64} {c : UInt8} {i : ℕ} (hi : i < 8)
    (hn : 256 ^ (i + 1) ∣ n.toNat) :
    (n ||| (c.toUInt64 <<< (UInt64.ofNat i * 8))).toNat = n.toNat + c.toNat * 256 ^ i := by
  obtain ⟨k, hk⟩ := hn
  have hc : c.toNat < 256 := c.toNat_lt
  have hshift : (UInt64.ofNat i * 8).toNat % 64 = 8 * i := by
    rw [UInt64.toNat_mul, UInt64.toNat_ofNat']
    have h8 : (8 : UInt64).toNat = 8 := rfl
    rw [h8]
    omega
  have hpow : 2 ^ (8 * i) = 256 ^ i := by rw [Nat.pow_mul]
  have hpow' : 2 ^ (8 * (i + 1)) = 256 ^ (i + 1) := by rw [Nat.pow_mul]
  -- the byte lies below the bytes that are there
  have hbelow : c.toNat * 256 ^ i < 256 ^ (i + 1) := by
    rw [Nat.pow_succ, Nat.mul_comm]
    exact Nat.mul_lt_mul_of_pos_left hc (Nat.pow_pos (by decide))
  have hfits : 256 ^ (i + 1) ≤ 2 ^ 64 := by
    rw [← hpow']
    exact Nat.pow_le_pow_right (by decide) (by omega)
  rw [UInt64.toNat_or, UInt64.toNat_shiftLeft, hshift, UInt8.toNat_toUInt64, Nat.shiftLeft_eq, hpow,
    Nat.mod_eq_of_lt (hbelow.trans_le hfits), hk, ← hpow', ← Nat.two_pow_add_eq_or_of_lt]
  rw [hpow']
  exact hbelow

/-- **The bytes that are read** are the number they stand for. -/
theorem toNat_getNonce {i : ℕ} {n : UInt64} {f : Str} (hi : i ≤ 8) (hlen : f.length = i)
    (hn : 256 ^ i ∣ n.toNat) : (getNonce i n f).toNat = n.toNat + readBE f := by
  induction f generalizing i n with
  | nil =>
      subst hlen
      rfl
  | cons c f ih =>
      subst hlen
      have hor := toNat_or_shiftLeft (c := c) (Nat.lt_of_succ_le hi) hn
      have hdvd : 256 ^ f.length ∣
          (n ||| (c.toUInt64 <<< (UInt64.ofNat f.length * 8))).toNat := by
        rw [hor]
        exact Nat.dvd_add ((Nat.pow_dvd_pow 256 (Nat.le_succ _)).trans hn) (Nat.dvd_mul_left _ _)
      rw [List.length_cons, getNonce, ih (Nat.le_of_succ_le hi) rfl hdvd, hor, readBE_cons,
        Nat.add_assoc]

/-- **What was kept is read again.** -/
theorem Config.loadNonceState_saveNonceState (hpath : cfg.nonceStatePath ≠ [])
    (file : Option Str) (nonce : UInt64) :
    cfg.loadNonceState (cfg.saveNonceState file nonce) = nonce := by
  have hbytes : cfg.saveNonceState file nonce = some (Block.writeU64BE nonce) := if_neg hpath
  have hlt : nonce.toNat < 256 ^ 8 := nonce.toNat_lt
  rw [hbytes, loadNonceState, if_neg hpath]
  refine UInt64.toNat_inj.1 ?_
  rw [toNat_getNonce le_rfl (Block.length_writeU64BE nonce) (Nat.dvd_zero _), Block.writeU64BE_eq,
    readBE_writeBE_of_lt hlt, UInt64.toNat_zero, Nat.zero_add]

/-! ### One turn of the loop -/

theorem not_never (hashCount : UInt64) : ¬ never hashCount = true := Bool.false_ne_true

theorem hex_serializeHeader (b : Block) (nonce : UInt64) :
    Keccak.hex (serializeHeader { b with nonce }) = computeHash { b with nonce } := by
  rw [serializeHeader_eq, computeHash]

theorem mul_eq_zero_of (n : UInt64) : (n = 0 ∨ n * 100 = 0) = (n * 100 = 0) := by
  refine propext ⟨?_, Or.inr⟩
  rintro (rfl | h)
  · rfl
  · exact h

/-- **One turn of the loop**, when nobody aborts. -/
theorem Config.mineFrom_never (cfg : Config) (b : Block) (nonce hashCount : UInt64)
    (file : Option Str) :
    cfg.mineFrom never b nonce hashCount file =
      if Meets b nonce = true then
        some ⟨⟨true, nonce, (withNonce b nonce).hash, hashCount + 1⟩, withNonce b nonce,
          cfg.saveNonceState file 0⟩
      else if cfg.maxNonce ≤ nonce + 1 then
        some ⟨{ hashesComputed := hashCount + 1 }, { b with nonce },
          cfg.saveNonceState file (nonce + 1)⟩
      else if cfg.hashCheckInterval * 100 = 0 then none
      else
        cfg.mineFrom never { b with nonce } (nonce + 1) (hashCount + 1)
          (if (hashCount + 1) % (cfg.hashCheckInterval * 100) = 0 then
            cfg.saveNonceState file (nonce + 1)
          else file) := by
  conv_lhs => rw [mineFrom]
  simp only [if_neg (not_never _), hex_serializeHeader, mul_eq_zero_of, dite_eq_ite]
  rfl

/-! ### The nonces that are tested -/

/-- **The nonces that a search tests** when it goes on from some nonce: this one, those behind it
that are below the bound, and, after the greatest `uint64_t`, all below the bound. -/
def Tried (maxNonce start nonce : UInt64) : Prop :=
  nonce = start ∨ (start < nonce ∨ start = UInt64.ofNat (2 ^ 64 - 1)) ∧ nonce < maxNonce

theorem tried_iff_toNat {maxNonce start nonce : UInt64} :
    Tried maxNonce start nonce ↔ nonce.toNat = start.toNat ∨
      (start.toNat < nonce.toNat ∨ start.toNat = 2 ^ 64 - 1) ∧ nonce.toNat < maxNonce.toNat := by
  rw [Tried, ← UInt64.toNat_inj, ← UInt64.toNat_inj, UInt64.lt_iff_toNat_lt,
    UInt64.lt_iff_toNat_lt, UInt64.toNat_ofNat']
  rfl

theorem toNat_add_one (n : UInt64) : (n + 1).toNat = (n.toNat + 1) % 2 ^ 64 := UInt64.toNat_add n 1

theorem tried_iff_of_lt {maxNonce start : UInt64} (h : start + 1 < maxNonce) (nonce : UInt64) :
    Tried maxNonce start nonce ↔ nonce = start ∨ Tried maxNonce (start + 1) nonce := by
  have hstart := start.toNat_lt
  have hnonce := nonce.toNat_lt
  have hmax := maxNonce.toNat_lt
  rw [UInt64.lt_iff_toNat_lt, toNat_add_one] at h
  rw [tried_iff_toNat, tried_iff_toNat, toNat_add_one, ← UInt64.toNat_inj]
  omega

theorem tried_iff_of_le {maxNonce start : UInt64} (h : maxNonce ≤ start + 1) (nonce : UInt64) :
    Tried maxNonce start nonce ↔ nonce = start := by
  have hstart := start.toNat_lt
  rw [UInt64.le_iff_toNat_le, toNat_add_one] at h
  rw [tried_iff_toNat, ← UInt64.toNat_inj]
  omega

/-- **The nonce that is returned** gives the block the hash that is returned, which meets its
target. -/
structure Found (b : Block) (o : Outcome) : Prop where
  found : o.result.found = true
  meets : Meets b o.result.nonce = true
  block : o.block = withNonce b o.result.nonce
  hash : o.result.hash = o.block.hash

/-- **A search finds a nonce exactly if one of those that are tested meets the target**, unless it
computes a remainder by zero; by induction on the nonces that are still tested. -/
theorem Config.mineFrom_spec (hashCount : UInt64) (file : Option Str)
    (hdefined : cfg.hashCheckInterval * 100 ≠ 0 ∨ Meets b nonce = true ∨ cfg.maxNonce ≤ nonce + 1) :
    ∃ o, cfg.mineFrom never b nonce hashCount file = some o ∧
      (Found b o ∧ Tried cfg.maxNonce nonce o.result.nonce ∨
        o.result.found = false ∧ ∀ m, Tried cfg.maxNonce nonce m → Meets b m = false) := by
  induction hn : cfg.remaining nonce using Nat.strong_induction_on
    generalizing b nonce hashCount file with
  | _ n ih =>
      subst hn
      rw [mineFrom_never]
      by_cases hmeets : Meets b nonce = true
      · rw [if_pos hmeets]
        exact ⟨_, rfl, .inl ⟨⟨rfl, hmeets, rfl, rfl⟩, .inl rfl⟩⟩
      rw [if_neg hmeets]
      rw [Bool.not_eq_true] at hmeets
      by_cases hmax : cfg.maxNonce ≤ nonce + 1
      · rw [if_pos hmax]
        refine ⟨_, rfl, .inr ⟨rfl, fun m hm => ?_⟩⟩
        rw [(tried_iff_of_le hmax m).1 hm]
        exact hmeets
      have hinterval : cfg.hashCheckInterval * 100 ≠ 0 := by
        rcases hdefined with h | h | h
        · exact h
        · rw [hmeets] at h
          cases h
        · exact absurd h hmax
      rw [if_neg hmax, if_neg hinterval]
      have hlt := UInt64.not_le.1 hmax
      obtain ⟨o, ho, hcases⟩ := ih _ (remaining_lt hlt) (hashCount + 1) _ (.inl hinterval) rfl
      refine ⟨o, ho, ?_⟩
      rcases hcases with ⟨⟨hfound, hm, hblock, hhash⟩, htried⟩ | ⟨hfound, hnone⟩
      · exact .inl ⟨⟨hfound, hm, hblock, hhash⟩, (tried_iff_of_lt hlt _).2 (.inr htried)⟩
      · refine .inr ⟨hfound, fun m hm => ?_⟩
        rcases (tried_iff_of_lt hlt m).1 hm with rfl | hm
        · exact hmeets
        · exact hnone m hm

/-- **When the nonces that are tested will do**: what is left out is not needed, and what is tested
at the bound or above does not mislead. -/
structure Resumable (b : Block) (maxNonce start : UInt64) : Prop where
  below : start < maxNonce → ∀ n < start, Meets b n = true →
    ∃ m, start ≤ m ∧ m < maxNonce ∧ Meets b m = true
  beyond : maxNonce ≤ start → Meets b start = true → ∃ n < maxNonce, Meets b n = true
  only : maxNonce ≤ start → start ≠ UInt64.ofNat (2 ^ 64 - 1) →
    ∀ n < maxNonce, Meets b n = true → Meets b start = true

theorem exists_tried_iff {maxNonce start : UInt64} :
    ((∃ m, Tried maxNonce start m ∧ Meets b m = true) ↔ ∃ m < maxNonce, Meets b m = true) ↔
      Resumable b maxNonce start := by
  constructor
  · rintro ⟨hsound, hcomplete⟩
    refine ⟨fun hstart n hn hmeets => ?_, fun hstart hmeets => hsound ⟨start, .inl rfl, hmeets⟩,
      fun hstart htop n hn hmeets => ?_⟩
    · obtain ⟨m, htried, hm⟩ := hcomplete ⟨n, UInt64.lt_trans hn hstart, hmeets⟩
      rcases htried with rfl | ⟨hlt | htop, hmax⟩
      · exact ⟨m, UInt64.le_refl m, hstart, hm⟩
      · exact ⟨m, UInt64.le_of_lt hlt, hmax, hm⟩
      · -- nothing is above the greatest number
        have hle : maxNonce ≤ start := htop ▸ UInt64.le_iff_toNat_le.2 (Nat.le_pred_of_lt
          maxNonce.toNat_lt)
        exact absurd hstart (UInt64.not_lt.2 hle)
    · obtain ⟨m, htried, hm⟩ := hcomplete ⟨n, hn, hmeets⟩
      rcases htried with rfl | ⟨hlt | heq, hmax⟩
      · exact hm
      · exact absurd (UInt64.lt_trans hlt hmax) (UInt64.not_lt.2 hstart)
      · exact absurd heq htop
  · intro h
    constructor
    · rintro ⟨m, rfl | ⟨-, hmax⟩, hm⟩
      · by_cases hstart : m < maxNonce
        · exact ⟨m, hstart, hm⟩
        · exact h.beyond (UInt64.not_lt.1 hstart) hm
      · exact ⟨m, hmax, hm⟩
    · rintro ⟨n, hn, hmeets⟩
      by_cases hstart : start < maxNonce
      · by_cases hbelow : n < start
        · obtain ⟨m, hle, hmax, hm⟩ := h.below hstart n hbelow hmeets
          rcases UInt64.lt_or_eq_of_le hle with hlt | rfl
          · exact ⟨m, .inr ⟨.inl hlt, hmax⟩, hm⟩
          · exact ⟨start, .inl rfl, hm⟩
        · rcases UInt64.lt_or_eq_of_le (UInt64.not_lt.1 hbelow) with hlt | rfl
          · exact ⟨n, .inr ⟨.inl hlt, hn⟩, hmeets⟩
          · exact ⟨start, .inl rfl, hmeets⟩
      · by_cases htop : start = UInt64.ofNat (2 ^ 64 - 1)
        · exact ⟨n, .inr ⟨.inr htop, hn⟩, hmeets⟩
        · exact ⟨start, .inl rfl, h.only (UInt64.not_lt.1 hstart) htop n hn hmeets⟩

/-! ### What the search answers -/

/-- **The answer is right**: a nonce is found exactly if one below the bound meets the target, and a
block that is found is valid, with the nonce and the hash that are returned. -/
structure Answers (cfg : Config) (b : Block) (o : Outcome) : Prop where
  complete : o.result.found = true ↔ ∃ n < cfg.maxNonce, Meets b n = true
  valid : o.result.found = true →
    validateHash o.block = true ∧ o.block.nonce = o.result.nonce ∧ o.block.hash = o.result.hash

theorem Found.valid {o : Outcome} (h : Found b o) (hdifficulty : b.difficulty ≠ 0) :
    validateHash o.block = true ∧ o.block.nonce = o.result.nonce ∧
      o.block.hash = o.result.hash := by
  refine ⟨?_, by rw [h.block]; rfl, h.hash.symm⟩
  have hne : (withNonce b o.result.nonce).hash ≠ [] := Keccak.hex_ne_nil _
  rw [h.block, validateHash, computeHash_withNonce]
  simp only [Bool.and_eq_true, bne_iff_ne, beq_iff_eq]
  exact ⟨⟨⟨hne, hdifficulty⟩, trivial⟩, h.meets⟩

/-- The search computes no remainder by zero. -/
def Config.Defined (cfg : Config) (b : Block) (start : UInt64) : Prop :=
  cfg.hashCheckInterval * 100 ≠ 0 ∨ Meets b start = true ∨ cfg.maxNonce ≤ start + 1

/-- **When the search answers right.** -/
theorem Config.mine_answers_iff (hdifficulty : b.difficulty ≠ 0) :
    (∃ o, cfg.mine never file b = some o ∧ Answers cfg b o) ↔
      Resumable b cfg.maxNonce (cfg.loadNonceState file) ∧
        cfg.Defined b (cfg.loadNonceState file) := by
  rw [mine]
  by_cases hdefined : cfg.Defined b (cfg.loadNonceState file)
  · obtain ⟨o, ho, hcases⟩ := mineFrom_spec 0 file hdefined
    -- whether something is found depends on the nonces that are tested
    have hfound : o.result.found = true ↔
        ∃ m, Tried cfg.maxNonce (cfg.loadNonceState file) m ∧ Meets b m = true := by
      rcases hcases with ⟨hfound, htried⟩ | ⟨hfound, hnone⟩
      · exact iff_of_true hfound.found ⟨_, htried, hfound.meets⟩
      · refine iff_of_false (by rw [hfound]; exact Bool.false_ne_true) ?_
        rintro ⟨m, hm, hmeets⟩
        rw [hnone m hm] at hmeets
        cases hmeets
    rw [← exists_tried_iff]
    constructor
    · rintro ⟨o', ho', hanswers⟩
      obtain rfl := Option.some.inj (ho.symm.trans ho')
      exact ⟨hfound.symm.trans hanswers.complete, hdefined⟩
    · rintro ⟨htried, -⟩
      refine ⟨o, ho, hfound.trans htried, fun h => ?_⟩
      rcases hcases with ⟨hfound, -⟩ | ⟨hfalse, -⟩
      · exact hfound.valid hdifficulty
      · rw [hfalse] at h
        cases h
  · -- a remainder by zero in the first turn
    refine iff_of_false ?_ fun h => hdefined h.2
    simp only [Defined, not_or, not_not] at hdefined
    rintro ⟨o, ho, -⟩
    rw [mineFrom_never, if_neg hdefined.2.1, if_neg hdefined.2.2, if_pos hdefined.1] at ho
    cases ho

/-! ### Without a file -/

theorem mineFrom_succ (tries : ℕ) (nonce : UInt64) (b : Block) :
    ProofOfWork.mineFrom (tries + 1) nonce b =
      if Meets b nonce = true then some (withNonce b nonce)
      else ProofOfWork.mineFrom tries (nonce + 1) b := rfl

theorem mineFrom_with_nonce (tries : ℕ) (nonce nonce' : UInt64) (b : Block) :
    ProofOfWork.mineFrom tries nonce { b with nonce := nonce' } =
      ProofOfWork.mineFrom tries nonce b := by
  induction tries generalizing nonce with
  | zero => rfl
  | succ tries ih =>
      rw [mineFrom_succ, mineFrom_succ, ih]
      rfl

theorem Config.mineFrom_eq (hinterval : cfg.hashCheckInterval * 100 ≠ 0) {tries : ℕ}
    (htries : nonce.toNat + (tries + 1) = cfg.maxNonce.toNat) :
    ∃ o, cfg.mineFrom never b nonce hashCount file = some o ∧
      ProofOfWork.mineFrom (tries + 1) nonce b = if o.result.found then some o.block else none := by
  induction tries generalizing b nonce hashCount file with
  | zero =>
      have hmax : cfg.maxNonce ≤ nonce + 1 := by
        have hlt := cfg.maxNonce.toNat_lt
        rw [UInt64.le_iff_toNat_le, toNat_add_one]
        omega
      rw [mineFrom_never, mineFrom_succ]
      by_cases hmeets : Meets b nonce = true
      · rw [if_pos hmeets, if_pos hmeets]
        exact ⟨_, rfl, rfl⟩
      · rw [if_neg hmeets, if_neg hmeets, if_pos hmax]
        exact ⟨_, rfl, rfl⟩
  | succ tries ih =>
      have hlt := cfg.maxNonce.toNat_lt
      have hmax : ¬ cfg.maxNonce ≤ nonce + 1 := by
        rw [UInt64.le_iff_toNat_le, toNat_add_one]
        omega
      rw [mineFrom_never, mineFrom_succ]
      by_cases hmeets : Meets b nonce = true
      · rw [if_pos hmeets, if_pos hmeets]
        exact ⟨_, rfl, rfl⟩
      · rw [if_neg hmeets, if_neg hmeets, if_neg hmax, if_neg hinterval]
        have hnext : (nonce + 1).toNat + (tries + 1) = cfg.maxNonce.toNat := by
          rw [toNat_add_one]
          omega
        obtain ⟨o, ho, heq⟩ := ih hnext
        rw [mineFrom_with_nonce] at heq
        exact ⟨o, ho, heq⟩

/-- **Without a file and with the bound that is the default**, the search is `mine`. -/
theorem Config.mine_default (b : Block) (file : Option Str) :
    ∃ o, ({} : Config).mine never file b = some o ∧
      ProofOfWork.mine b = if o.result.found then some o.block else none := by
  have htries : (2 ^ 64 - 1 : ℕ) = (2 ^ 64 - 2) + 1 := by norm_num
  have hbound : (0 : UInt64).toNat + ((2 ^ 64 - 2) + 1) = ({} : Config).maxNonce.toNat := by decide
  have hload : ({} : Config).loadNonceState file = 0 := rfl
  rw [ProofOfWork.mine, htries, Config.mine, hload]
  exact mineFrom_eq (by decide) hbound

/-! ### A search that finds nothing -/

end ProofOfWork

end Node
