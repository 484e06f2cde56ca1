/-
**The search for a nonce with several threads.**

`ProofOfWork::mineParallel` splits the nonces below the bound among its threads, of which the last
has what is left over.  A thread tests the nonces of its range until it finds one or sees that
another thread has; who comes first is decided by one compare and swap, and only the winner writes
what was found.  The kept nonce is not read.

A thread takes one step after the other, and the steps of several threads come in any order.  The
loads of the flags are relaxed: a thread may see that the flag is set as soon as it is, but it need
not.  That a thread has not been started yet is that it has not taken a step yet.  Nothing that is
written behind the compare and swap is read before all threads are joined.

Main definitions:

* `Node.ProofOfWork.Config.start`, `Node.ProofOfWork.Config.stop` — the range of a thread;
* `Node.ProofOfWork.Config.act` — one step of a thread;
* `Node.ProofOfWork.Config.mineParallel` — the result, after steps in some order;
* `Node.ProofOfWork.Config.Searches` — **both searches answer right, and so they agree**.

Main results:

* `Node.ProofOfWork.Config.existsUnique_range` — the ranges are a partition;
* `Node.ProofOfWork.answers_collect` — whatever the order, **the threads answer right**;
* `Node.ProofOfWork.Config.searches_iff` — **when both do**.
-/

import MedorCoin.Node.NonceSearch
import MedorCoin.Transition.Tasks

set_option autoImplicit false

namespace Node

namespace ProofOfWork

open Cpp Transition

/-! ### The threads -/

/-- `rng`; the product of a 32-bit and a 64-bit number fits into `unsigned __int128`. -/
def Config.rng (cfg : Config) : ℕ := cfg.maxNonce.toNat / cfg.threads.toNat

/-- Where the range of a thread begins. -/
def Config.start (cfg : Config) (t : ℕ) : UInt64 := UInt64.ofNat (t * cfg.rng)

/-- Where the range of a thread ends. -/
def Config.stop (cfg : Config) (t : ℕ) : UInt64 :=
  if t = cfg.threads.toNat - 1 then cfg.maxNonce else UInt64.ofNat ((t + 1) * cfg.rng)

/-- Where a thread is: at the head of its loop, behind the loads of the flags, behind the compare
and swap that it won, or at its end.  There is no end after a remainder by zero. -/
inductive Place
  | head (nonce : UInt64)
  | test (nonce : UInt64)
  | won (nonce : UInt64) (hash : Str)
  | done
  | undefined
  deriving DecidableEq

/-- The variables of a thread. -/
structure Worker where
  place : Place
  stop : UInt64
  localHashes : UInt64 := 0

/-- The variables that the threads share. -/
structure Shared where
  found : Bool := false
  foundNonce : UInt64 := 0
  foundHash : Str := []
  totalHashes : UInt64 := 0

/-- What a thread does: it goes on, or it sees that it is to stop. -/
inductive Action
  | go
  | leave

/-- The thread counts its hashes and ends. -/
def Worker.finish (w : Worker) (s : Shared) : Shared × Worker :=
  ({ s with totalHashes := s.totalHashes + w.localHashes }, { w with place := .done })

/-- **One step of a thread.**  `abort` says whether the flag to abort may be set. -/
def Config.act (cfg : Config) (b : Block) (abort : Bool) (t : ℕ) (s : Shared) (w : Worker) :
    Action → Option (Shared × Worker)
  | .leave =>
      match w.place with
      | .head nonce =>
          if nonce < w.stop ∧ (abort ∨ s.found) then some (s, { w with place := .done }) else none
      | _ => none
  | .go =>
      match w.place with
      | .head nonce =>
          if nonce < w.stop then some (s, { w with place := .test nonce }) else some (w.finish s)
      | .test nonce =>
          let hash := Keccak.hex (attempt b nonce)
          let w := { w with localHashes := w.localHashes + 1 }
          if hashMeetsTarget hash b.difficulty then
            if s.found then some (w.finish s)
            else some ({ s with found := true }, { w with place := .won nonce hash })
          -- `t == 0 && localHashes % interval == 0`
          else if t = 0 ∧ cfg.hashCheckInterval = 0 then some (s, { w with place := .undefined })
          else some (s, { w with place := .head (nonce + 1) })
      | .won nonce hash => some (w.finish { s with foundNonce := nonce, foundHash := hash })
      | .done => none
      | .undefined => none

/-- The threads before their first step. -/
def Config.workers (cfg : Config) : Threads Shared Worker :=
  ⟨{}, (List.range cfg.threads.toNat).map fun t =>
    { place := .head (cfg.start t), stop := cfg.stop t }⟩

/-- What is done when the threads are joined. -/
def Config.collect (cfg : Config) (file : Option Str) (b : Block) (s : Shared) : Outcome :=
  if s.found then
    if s.foundHash ≠ [] then
      ⟨⟨true, s.foundNonce, s.foundHash, s.totalHashes⟩,
        { b with nonce := s.foundNonce, hash := s.foundHash }, cfg.saveNonceState file 0⟩
    else ⟨{ hashesComputed := s.totalHashes }, b, file⟩
  else ⟨{ hashesComputed := s.totalHashes }, b, cfg.saveNonceState file s.foundNonce⟩

/-- The threads after some steps. -/
def Config.runWorkers (cfg : Config) (b : Block) (abort : Bool) (es : List (ℕ × Action)) :
    Option (Threads Shared Worker) :=
  run (Threads.step (cfg.act b abort)) cfg.workers es

/-- All threads can be joined. -/
def Joined (p : Threads Shared Worker) : Prop := ∀ w ∈ p.locals, w.place = .done

instance (p : Threads Shared Worker) : Decidable (Joined p) :=
  inferInstanceAs (Decidable (∀ w ∈ p.locals, w.place = .done))

/-- `mineParallel(block, abort)`, when the threads take these steps: nothing, unless all of them
can be joined then. -/
def Config.mineParallel (cfg : Config) (abort : Bool) (file : Option Str) (b : Block)
    (es : List (ℕ × Action)) : Option Outcome :=
  (cfg.runWorkers b abort es).bind fun p =>
    if Joined p then some (cfg.collect file b p.shared) else none

variable {cfg : Config} {b : Block} {file : Option Str} {t : ℕ}

/-! ### The ranges -/

theorem range_stop_le {k N : ℕ} (ht : t < k) :
    (if t = k - 1 then N else (t + 1) * (N / k)) ≤ N := by
  split
  · exact le_rfl
  · exact (Nat.mul_le_mul_right _ ht).trans (Nat.mul_div_le N k)

/-- **Every number below `N` lies in one range, and only there.** -/
theorem existsUnique_range {k N n : ℕ} (hk : 0 < k) (hn : n < N) :
    ∃! t, t < k ∧ t * (N / k) ≤ n ∧ n < if t = k - 1 then N else (t + 1) * (N / k) := by
  have hunique {t t' : ℕ} (hlt : t < t') (ht' : t' < k)
      (hstop : n < if t = k - 1 then N else (t + 1) * (N / k)) (hstart : t' * (N / k) ≤ n) :
      False := by
    rw [if_neg (by omega)] at hstop
    have hle : (t + 1) * (N / k) ≤ t' * (N / k) := Nat.mul_le_mul_right _ hlt
    omega
  have hexists : ∃ t, t < k ∧ t * (N / k) ≤ n ∧
      n < if t = k - 1 then N else (t + 1) * (N / k) := by
    by_cases hlast : (k - 1) * (N / k) ≤ n
    · exact ⟨k - 1, by omega, hlast, by rw [if_pos rfl]; exact hn⟩
    · have hpos : 0 < N / k := by
        by_contra hzero
        rw [Nat.eq_zero_of_not_pos hzero, Nat.mul_zero] at hlast
        exact hlast (Nat.zero_le n)
      have hlt : n / (N / k) < k - 1 := (Nat.div_lt_iff_lt_mul hpos).2 (Nat.lt_of_not_le hlast)
      refine ⟨n / (N / k), by omega, Nat.div_mul_le_self n _, ?_⟩
      rw [if_neg (by omega), Nat.mul_comm]
      exact Nat.lt_mul_div_succ n hpos
  obtain ⟨t, ht, hstart, hstop⟩ := hexists
  refine ⟨t, ⟨ht, hstart, hstop⟩, ?_⟩
  rintro t' ⟨ht', hstart', hstop'⟩
  rcases Nat.lt_trichotomy t' t with hlt | heq | hlt
  · exact (hunique hlt ht hstop' hstart).elim
  · exact heq
  · exact (hunique hlt ht' hstop hstart').elim

theorem Config.toNat_start (ht : t < cfg.threads.toNat) : (cfg.start t).toNat = t * cfg.rng := by
  have hle : t * cfg.rng ≤ cfg.maxNonce.toNat :=
    (Nat.mul_le_mul_right _ ht.le).trans (Nat.mul_div_le _ _)
  have hlt := cfg.maxNonce.toNat_lt
  rw [start, UInt64.toNat_ofNat', Nat.mod_eq_of_lt (by omega)]

theorem Config.toNat_stop (ht : t < cfg.threads.toNat) :
    (cfg.stop t).toNat =
      if t = cfg.threads.toNat - 1 then cfg.maxNonce.toNat else (t + 1) * cfg.rng := by
  rw [stop]
  split
  · rfl
  · have hle : (t + 1) * cfg.rng ≤ cfg.maxNonce.toNat :=
      (Nat.mul_le_mul_right _ ht).trans (Nat.mul_div_le _ _)
    have hlt := cfg.maxNonce.toNat_lt
    rw [UInt64.toNat_ofNat', Nat.mod_eq_of_lt (by omega)]

theorem Config.stop_le_maxNonce (ht : t < cfg.threads.toNat) : cfg.stop t ≤ cfg.maxNonce := by
  rw [UInt64.le_iff_toNat_le, toNat_stop ht]
  exact range_stop_le ht

theorem Config.start_le_stop (ht : t < cfg.threads.toNat) : cfg.start t ≤ cfg.stop t := by
  rw [UInt64.le_iff_toNat_le, toNat_start ht, toNat_stop ht]
  split
  · exact (Nat.mul_le_mul_right _ ht.le).trans (Nat.mul_div_le _ _)
  · exact Nat.mul_le_mul_right _ (Nat.le_succ t)

theorem threads_pos (h : cfg.threads ≠ 0) : 0 < cfg.threads.toNat := by
  refine Nat.pos_of_ne_zero fun hzero => h (UInt32.toNat_inj.1 ?_)
  rw [hzero]
  rfl

/-- **The ranges of the threads are a partition** of the nonces below the bound. -/
theorem Config.existsUnique_range (hthreads : cfg.threads ≠ 0) (n : UInt64) :
    n < cfg.maxNonce ↔ ∃! t, t < cfg.threads.toNat ∧ cfg.start t ≤ n ∧ n < cfg.stop t := by
  have hpos := threads_pos hthreads
  constructor
  · intro hn
    rw [UInt64.lt_iff_toNat_lt] at hn
    obtain ⟨t, ⟨ht, hstart, hstop⟩, hunique⟩ := ProofOfWork.existsUnique_range hpos hn
    refine ⟨t, ⟨ht, ?_, ?_⟩, ?_⟩
    · rw [UInt64.le_iff_toNat_le, toNat_start ht]
      exact hstart
    · rw [UInt64.lt_iff_toNat_lt, toNat_stop ht]
      exact hstop
    · rintro t' ⟨ht', hstart', hstop'⟩
      rw [UInt64.le_iff_toNat_le, toNat_start ht'] at hstart'
      rw [UInt64.lt_iff_toNat_lt, toNat_stop ht'] at hstop'
      exact hunique t' ⟨ht', hstart', hstop'⟩
  · rintro ⟨t, ⟨ht, -, hstop⟩, -⟩
    exact UInt64.lt_of_lt_of_le hstop (stop_le_maxNonce ht)

/-! ### What a step does -/

theorem hex_attempt (b : Block) (nonce : UInt64) :
    Keccak.hex (attempt b nonce) = (withNonce b nonce).hash := by
  rw [attempt_eq, hex_serializeHeader]
  rfl

/-- **The steps of a thread**, when nobody aborts. -/
inductive Moves (cfg : Config) (b : Block) (t : ℕ) (s : Shared) :
    Worker → Shared → Worker → Prop
  | leave {nonce stop hashes} (hfound : s.found = true) :
      Moves cfg b t s ⟨.head nonce, stop, hashes⟩ s ⟨.done, stop, hashes⟩
  | enter {nonce stop hashes} (hlt : nonce < stop) :
      Moves cfg b t s ⟨.head nonce, stop, hashes⟩ s ⟨.test nonce, stop, hashes⟩
  | exhaust {nonce stop hashes} (hge : stop ≤ nonce) :
      Moves cfg b t s ⟨.head nonce, stop, hashes⟩
        { s with totalHashes := s.totalHashes + hashes } ⟨.done, stop, hashes⟩
  | lose {nonce stop hashes} (hmeets : Meets b nonce = true) (hfound : s.found = true) :
      Moves cfg b t s ⟨.test nonce, stop, hashes⟩
        { s with totalHashes := s.totalHashes + (hashes + 1) } ⟨.done, stop, hashes + 1⟩
  | win {nonce stop hashes} (hmeets : Meets b nonce = true) (hfound : s.found = false) :
      Moves cfg b t s ⟨.test nonce, stop, hashes⟩ { s with found := true }
        ⟨.won nonce (withNonce b nonce).hash, stop, hashes + 1⟩
  | fault {nonce stop hashes} (hmeets : Meets b nonce = false) (ht : t = 0)
      (hinterval : cfg.hashCheckInterval = 0) :
      Moves cfg b t s ⟨.test nonce, stop, hashes⟩ s ⟨.undefined, stop, hashes + 1⟩
  | next {nonce stop hashes} (hmeets : Meets b nonce = false)
      (hdefined : ¬ (t = 0 ∧ cfg.hashCheckInterval = 0)) :
      Moves cfg b t s ⟨.test nonce, stop, hashes⟩ s ⟨.head (nonce + 1), stop, hashes + 1⟩
  | write {nonce hash stop hashes} :
      Moves cfg b t s ⟨.won nonce hash, stop, hashes⟩
        { s with foundNonce := nonce, foundHash := hash, totalHashes := s.totalHashes + hashes }
        ⟨.done, stop, hashes⟩

variable {s s' : Shared} {w w' : Worker} {a : Action}

/-- **What a step does.** -/
theorem moves_of_act (h : cfg.act b false t s w a = some (s', w')) : Moves cfg b t s w s' w' := by
  obtain ⟨place, stop, hashes⟩ := w
  cases a with
  | leave =>
      cases place with
      | head nonce =>
          simp only [Config.act, Bool.false_eq_true, false_or] at h
          split at h
          · next hcond =>
              cases h
              exact .leave hcond.2
          · cases h
      | test nonce => cases h
      | won nonce hash => cases h
      | done => cases h
      | undefined => cases h
  | go =>
      cases place with
      | head nonce =>
          simp only [Config.act] at h
          split at h
          · next hlt =>
              cases h
              exact .enter hlt
          · next hge =>
              cases h
              exact .exhaust (UInt64.not_lt.1 hge)
      | test nonce =>
          simp only [Config.act, hex_attempt] at h
          split at h
          · next hmeets =>
              split at h
              · next hfound =>
                  cases h
                  exact .lose hmeets hfound
              · next hfound =>
                  cases h
                  exact .win hmeets (Bool.not_eq_true _ ▸ hfound)
          · next hmeets =>
              have hfalse : Meets b nonce = false := Bool.not_eq_true _ ▸ hmeets
              split at h
              · next hundefined =>
                  cases h
                  exact .fault hfalse hundefined.1 hundefined.2
              · next hdefined =>
                  cases h
                  exact .next hfalse hdefined
      | won nonce hash =>
          cases h
          exact .write
      | done => cases h
      | undefined => cases h

theorem exists_act (cfg : Config) (b : Block) (t : ℕ) (s : Shared) (hdone : w.place ≠ .done)
    (hundefined : w.place ≠ .undefined) :
    ∃ r, cfg.act b false t s w .go = some r := by
  obtain ⟨place, stop, hashes⟩ := w
  cases place with
  | head nonce =>
      simp only [Config.act]
      split <;> exact ⟨_, rfl⟩
  | test nonce =>
      simp only [Config.act]
      split
      · split <;> exact ⟨_, rfl⟩
      · split <;> exact ⟨_, rfl⟩
  | won nonce hash => exact ⟨_, rfl⟩
  | done => exact absurd rfl hdone
  | undefined => exact absurd rfl hundefined

/-! ### What the threads keep -/

/-- No nonce of the range meets the target, up to some nonce of it. -/
structure Scanned (cfg : Config) (b : Block) (t : ℕ) (nonce : UInt64) : Prop where
  ge : cfg.start t ≤ nonce
  le : nonce ≤ cfg.stop t
  none : ∀ m, cfg.start t ≤ m → m < nonce → Meets b m = false

/-- What was written by the thread that won. -/
def Written (cfg : Config) (b : Block) (s : Shared) : Prop :=
  s.foundHash ≠ [] → s.found = true ∧ Meets b s.foundNonce = true ∧
    s.foundNonce < cfg.maxNonce ∧ s.foundHash = (withNonce b s.foundNonce).hash

/-- The first thread computes no remainder by zero. -/
def Config.ParallelDefined (cfg : Config) (b : Block) : Prop :=
  cfg.hashCheckInterval ≠ 0 ∨ cfg.maxNonce.toNat < cfg.threads.toNat ∨ Meets b 0 = true

/-- What is known of a thread by where it is.  Where a remainder by zero is to be computed, the
first thread has not come further than its first nonce. -/
def KnownAt (cfg : Config) (b : Block) (t : ℕ) (s : Shared) : Place → Prop
  | .head nonce => Scanned cfg b t nonce ∧ (t = 0 → cfg.hashCheckInterval = 0 → nonce = 0)
  | .test nonce => Scanned cfg b t nonce ∧ (t = 0 → cfg.hashCheckInterval = 0 → nonce = 0) ∧
      nonce < cfg.stop t
  | .won nonce hash => s.found = true ∧ Meets b nonce = true ∧ nonce < cfg.maxNonce ∧
      hash = (withNonce b nonce).hash
  | .done => s.found = true ∨ Scanned cfg b t (cfg.stop t)
  | .undefined => False

/-- **What is known of a thread.** -/
structure Known (cfg : Config) (b : Block) (t : ℕ) (s : Shared) (w : Worker) : Prop where
  lt : t < cfg.threads.toNat
  stop : w.stop = cfg.stop t
  place : KnownAt cfg b t s w.place

theorem not_lt_stop_of_lt (ht : 0 < cfg.threads.toNat)
    (hlt : cfg.maxNonce.toNat < cfg.threads.toNat) (n : UInt64) : ¬ n < cfg.stop 0 := by
  have hrng : cfg.rng = 0 := Nat.div_eq_of_lt hlt
  rw [UInt64.lt_iff_toNat_lt, Config.toNat_stop ht, hrng]
  split <;> omega

theorem Scanned.next {nonce : UInt64} (h : Scanned cfg b t nonce) (hlt : nonce < cfg.stop t)
    (hmeets : Meets b nonce = false) : Scanned cfg b t (nonce + 1) := by
  have hge := UInt64.le_iff_toNat_le.1 h.ge
  rw [UInt64.lt_iff_toNat_lt] at hlt
  have hstop := (cfg.stop t).toNat_lt
  refine ⟨?_, ?_, fun m hm hmlt => ?_⟩
  · rw [UInt64.le_iff_toNat_le, toNat_add_one]
    omega
  · rw [UInt64.le_iff_toNat_le, toNat_add_one]
    omega
  · by_cases heq : m = nonce
    · rw [heq]
      exact hmeets
    · refine h.none m hm ?_
      rw [UInt64.lt_iff_toNat_lt, toNat_add_one] at hmlt
      rw [UInt64.lt_iff_toNat_lt]
      have hne : m.toNat ≠ nonce.toNat := fun h => heq (UInt64.toNat_inj.1 h)
      omega

/-- **A step keeps what is known** of the memory and of the thread. -/
theorem known_of_moves (hdefined : cfg.ParallelDefined b) (hwritten : Written cfg b s)
    (hknown : Known cfg b t s w) (h : Moves cfg b t s w s' w') :
    Written cfg b s' ∧ Known cfg b t s' w' := by
  obtain ⟨hlt, hstop, hplace⟩ := hknown
  cases h with
  | leave hfound => exact ⟨hwritten, hlt, hstop, .inl hfound⟩
  | enter hbelow =>
      obtain ⟨hscanned, hfirst⟩ := hplace
      exact ⟨hwritten, hlt, hstop, hscanned, hfirst, hstop ▸ hbelow⟩
  | exhaust hge =>
      obtain ⟨hscanned, -⟩ := hplace
      refine ⟨hwritten, hlt, hstop, .inr ?_⟩
      have heq := UInt64.le_antisymm hscanned.le (hstop ▸ hge)
      exact heq ▸ hscanned
  | lose hmeets hfound => exact ⟨hwritten, hlt, hstop, .inl hfound⟩
  | win hmeets hfound =>
      obtain ⟨-, -, hbelow⟩ := hplace
      refine ⟨fun hne => ⟨rfl, (hwritten hne).2⟩, hlt, hstop, rfl, hmeets, ?_, rfl⟩
      exact UInt64.lt_of_lt_of_le hbelow (Config.stop_le_maxNonce hlt)
  | fault hmeets ht hinterval =>
      -- the first thread is at its first nonce, which would have to meet the target
      obtain ⟨-, hfirst, hbelow⟩ := hplace
      subst ht
      obtain rfl := hfirst rfl hinterval
      rcases hdefined with hne | hfew | hmeets'
      · exact absurd hinterval hne
      · exact absurd hbelow (not_lt_stop_of_lt hlt hfew 0)
      · rw [hmeets] at hmeets'
        cases hmeets'
  | next hmeets hdefined' =>
      obtain ⟨hscanned, -, hbelow⟩ := hplace
      exact ⟨hwritten, hlt, hstop, hscanned.next hbelow hmeets,
        fun ht hinterval => absurd ⟨ht, hinterval⟩ hdefined'⟩
  | write =>
      obtain ⟨hfound, hmeets, hbelow, hhash⟩ := hplace
      exact ⟨fun _ => ⟨hfound, hmeets, hbelow, hhash⟩, hlt, hstop, .inl hfound⟩

theorem found_of_moves (h : Moves cfg b t s w s' w') (hfound : s.found = true) :
    s'.found = true := by
  cases h with
  | leave => exact hfound
  | enter => exact hfound
  | exhaust => exact hfound
  | lose => exact hfound
  | win => rfl
  | fault => exact hfound
  | next => exact hfound
  | write => exact hfound

/-- **A step leaves what is known of the other threads.** -/
theorem Known.mono {j : ℕ} {u : Worker} (h : Known cfg b j s u)
    (hfound : s.found = true → s'.found = true) : Known cfg b j s' u := by
  obtain ⟨hlt, hstop, hplace⟩ := h
  refine ⟨hlt, hstop, ?_⟩
  revert hplace
  cases u.place with
  | head nonce => exact id
  | test nonce => exact id
  | won nonce hash => exact fun h => ⟨hfound h.1, h.2⟩
  | done => exact Or.imp_left hfound
  | undefined => exact id

/-- **No thread breaks what is known.** -/
theorem keeps_known (hdefined : cfg.ParallelDefined b) :
    Threads.Keeps (cfg.act b false) (Written cfg b) (Known cfg b) where
  own _ _ _ _ _ _ hwritten hknown hact :=
    known_of_moves hdefined hwritten hknown (moves_of_act hact)
  others _ _ _ _ _ _ hact _ _ hknown := hknown.mono (found_of_moves (moves_of_act hact))

theorem holds_workers (cfg : Config) (b : Block) :
    cfg.workers.Holds (Written cfg b) (Known cfg b) := by
  refine ⟨fun hne => absurd rfl hne, fun t w hw => ?_⟩
  obtain ⟨ht, hget⟩ := List.getElem?_eq_some_iff.1 hw
  have hlt : t < cfg.threads.toNat := by
    rw [Config.workers, List.length_map, List.length_range] at ht
    exact ht
  simp only [Config.workers, List.getElem_map, List.getElem_range] at hget
  subst hget
  refine ⟨hlt, rfl, ⟨UInt64.le_refl _, Config.start_le_stop hlt, fun m hm hmlt => ?_⟩, ?_⟩
  · exact absurd hmlt (UInt64.not_lt.2 hm)
  · rintro rfl -
    rw [Config.start, Nat.zero_mul]
    rfl

/-- **Once the flag is set**, what was found is written, or the thread that won is still to write
it. -/
def Claimed (p : Threads Shared Worker) : Prop :=
  p.shared.found = true → p.shared.foundHash ≠ [] ∨
    ∃ w ∈ p.locals, ∃ nonce hash, w.place = .won nonce hash

variable {p p' : Threads Shared Worker}

/-- A step of another thread than the one that won. -/
theorem Claimed.set {i : ℕ} (h : Claimed p) (hi : p.locals[i]? = some w)
    (hw : ∀ nonce hash, w.place ≠ .won nonce hash) (hfound : s.found = p.shared.found)
    (hhash : s.foundHash = p.shared.foundHash) : Claimed ⟨s, p.locals.set i w'⟩ := by
  intro hset
  rcases h (hfound ▸ hset) with hne | ⟨u, hu, nonce, hash, hplace⟩
  · exact .inl (hhash ▸ hne)
  · refine .inr ⟨u, mem_set_of_ne hi hu ?_, nonce, hash, hplace⟩
    rintro rfl
    exact hw nonce hash hplace

theorem claimed_of_step {e : ℕ × Action} (hholds : p.Holds (Written cfg b) (Known cfg b))
    (h : Claimed p) (hstep : Threads.step (cfg.act b false) p e = some p') : Claimed p' := by
  obtain ⟨w, s, w', hi, hact, rfl⟩ := Threads.step_eq_some hstep
  have hknown := hholds.locals _ _ hi
  cases moves_of_act hact with
  | leave => exact h.set hi (by simp) rfl rfl
  | enter => exact h.set hi (by simp) rfl rfl
  | exhaust => exact h.set hi (by simp) rfl rfl
  | lose => exact h.set hi (by simp) rfl rfl
  | win => exact fun _ => .inr ⟨_, mem_set_self hi, _, _, rfl⟩
  | fault => exact h.set hi (by simp) rfl rfl
  | next => exact h.set hi (by simp) rfl rfl
  | write =>
      refine fun _ => .inl ?_
      obtain ⟨-, -, -, hhash⟩ := hknown.place
      rw [hhash]
      exact Keccak.hex_ne_nil _

/-- What is known of the memory and the threads. -/
structure Invariant (cfg : Config) (b : Block) (p : Threads Shared Worker) : Prop where
  holds : p.Holds (Written cfg b) (Known cfg b)
  claimed : Claimed p
  length : p.locals.length = cfg.threads.toNat

/-- **After every run** all of this is known. -/
theorem invariant_of_runWorkers (hdefined : cfg.ParallelDefined b) {es : List (ℕ × Action)}
    (hrun : cfg.runWorkers b false es = some p) : Invariant cfg b p := by
  have hall : ∀ q e q', q.Holds (Written cfg b) (Known cfg b) →
      Claimed q ∧ q.locals.length = cfg.threads.toNat →
      Threads.step (cfg.act b false) q e = some q' →
      Claimed q' ∧ q'.locals.length = cfg.threads.toNat := by
    intro q e q' hholds hq hstep
    refine ⟨claimed_of_step hholds hq.1 hstep, ?_⟩
    obtain ⟨w, s, w', -, -, rfl⟩ := Threads.step_eq_some hstep
    rw [List.length_set]
    exact hq.2
  have hstart : Claimed cfg.workers ∧ cfg.workers.locals.length = cfg.threads.toNat :=
    ⟨fun h => absurd h Bool.false_ne_true, by simp [Config.workers]⟩
  obtain ⟨hholds, hclaimed, hlength⟩ :=
    (keeps_known hdefined).run hall (holds_workers cfg b) hstart hrun
  exact ⟨hholds, hclaimed, hlength⟩

theorem Invariant.place_ne_undefined (h : Invariant cfg b p) (hw : w ∈ p.locals) :
    w.place ≠ .undefined := by
  obtain ⟨i, hi⟩ := List.mem_iff_getElem?.1 hw
  have hplace := (h.holds.locals i w hi).place
  intro heq
  rw [heq] at hplace
  exact hplace

/-! ### The threads come to an end -/

/-- A bound on the steps of a thread that are to come. -/
def Worker.weight (w : Worker) : ℕ :=
  match w.place with
  | .head nonce => 2 * (w.stop.toNat - nonce.toNat) + 1
  | .test nonce => 2 * (w.stop.toNat - nonce.toNat)
  | .won _ _ => 1
  | .done => 0
  | .undefined => 0

theorem two_le_weight {nonce stop hashes : UInt64}
    (h : Known cfg b t s ⟨.test nonce, stop, hashes⟩) :
    nonce.toNat < stop.toNat ∧ 2 ≤ (⟨.test nonce, stop, hashes⟩ : Worker).weight := by
  have hlt : nonce.toNat < stop.toNat := by
    have hstop : stop = cfg.stop t := h.stop
    rw [hstop]
    exact UInt64.lt_iff_toNat_lt.1 h.place.2.2
  refine ⟨hlt, ?_⟩
  change 2 ≤ 2 * (stop.toNat - nonce.toNat)
  omega

theorem weight_lt_of_moves (hknown : Known cfg b t s w) (h : Moves cfg b t s w s' w') :
    w'.weight < w.weight := by
  cases h with
  | leave => exact Nat.succ_pos _
  | enter => exact Nat.lt_succ_self _
  | exhaust => exact Nat.succ_pos _
  | lose => exact Nat.lt_of_lt_of_le Nat.two_pos (two_le_weight hknown).2
  | win => exact Nat.lt_of_lt_of_le Nat.one_lt_two (two_le_weight hknown).2
  | fault => exact Nat.lt_of_lt_of_le Nat.two_pos (two_le_weight hknown).2
  | @next nonce stop hashes =>
      obtain ⟨hlt, -⟩ := two_le_weight hknown
      have hmod := stop.toNat_lt
      change 2 * (stop.toNat - (nonce + 1).toNat) + 1 < 2 * (stop.toNat - nonce.toNat)
      rw [toNat_add_one]
      omega
  | write => exact Nat.one_pos

/-- **A run of the threads is no longer than what they weigh**, and they can go on until they can be
joined. -/
theorem runWorkers_ends (hdefined : cfg.ParallelDefined b) {es : List (ℕ × Action)}
    (hrun : cfg.runWorkers b false es = some p) :
    es.length ≤ cfg.workers.weight Worker.weight ∧
      (Joined p ∨ ∃ e p', Threads.step (cfg.act b false) p e = some p') := by
  constructor
  · exact (keeps_known hdefined).length_le_weight
      (fun _ _ _ _ _ _ hknown hact => weight_lt_of_moves hknown (moves_of_act hact))
      (holds_workers cfg b) hrun
  · by_cases hjoined : Joined p
    · exact .inl hjoined
    · right
      simp only [Joined, not_forall] at hjoined
      obtain ⟨w, hw, hdone⟩ := hjoined
      obtain ⟨i, hi⟩ := List.mem_iff_getElem?.1 hw
      have hundefined := (invariant_of_runWorkers hdefined hrun).place_ne_undefined hw
      obtain ⟨⟨s, w'⟩, hact⟩ := exists_act cfg b i p.shared hdone hundefined
      exact ⟨_, _, Threads.step_of_act hi hact⟩

/-! ### What the threads answer -/

/-- **Whatever the order, the threads answer right.** -/
theorem answers_collect (hthreads : cfg.threads ≠ 0) (hdifficulty : b.difficulty ≠ 0)
    (file : Option Str) (h : Invariant cfg b p) (hjoined : Joined p) :
    Answers cfg b (cfg.collect file b p.shared) := by
  cases hfound : p.shared.found with
  | true =>
      -- the thread that won has written what it found
      have hne : p.shared.foundHash ≠ [] := by
        refine (h.claimed hfound).resolve_right ?_
        rintro ⟨w, hw, nonce, hash, hplace⟩
        rw [hjoined w hw] at hplace
        cases hplace
      obtain ⟨-, hmeets, hlt, hhash⟩ := h.holds.shared hne
      have hcollect : Found b (cfg.collect file b p.shared) := by
        rw [Config.collect, if_pos hfound, if_pos hne]
        refine ⟨rfl, hmeets, ?_, rfl⟩
        simp only [hhash]
        rfl
      refine ⟨iff_of_true hcollect.found ⟨_, hlt, hmeets⟩, fun _ => hcollect.valid hdifficulty⟩
  | false =>
      have hcollect : (cfg.collect file b p.shared).result.found = false := by
        rw [Config.collect, hfound]
        rfl
      refine ⟨?_, fun htrue => ?_⟩
      · rw [hcollect]
        refine iff_of_false Bool.false_ne_true ?_
        rintro ⟨n, hn, hmeets⟩
        -- the thread in whose range the nonce lies has tested it
        obtain ⟨t, ⟨ht, hstart, hstop⟩, -⟩ := (Config.existsUnique_range hthreads n).1 hn
        rw [← h.length] at ht
        have hget := List.getElem?_eq_getElem ht
        have hplace := (h.holds.locals t _ hget).place
        rw [hjoined _ (List.getElem_mem ht)] at hplace
        rcases hplace with hset | hscanned
        · rw [hfound] at hset
          cases hset
        · rw [hscanned.none n hstart hstop] at hmeets
          cases hmeets
      · rw [hcollect] at htrue
        cases htrue

/-! ### Both searches -/

/-- **Both searches answer right**, and so they agree.  The threads compute no remainder by zero
and come to an end, whatever the order of their steps, and each nonce below the bound is in the
range of one of them. -/
structure Config.Searches (cfg : Config) (file : Option Str) (b : Block) : Prop where
  mine : ∃ o, cfg.mine never file b = some o ∧ Answers cfg b o
  defined : ∀ es p, cfg.runWorkers b false es = some p → ∀ w ∈ p.locals, w.place ≠ .undefined
  ends : ∃ bound, ∀ es p, cfg.runWorkers b false es = some p → es.length ≤ bound ∧
    (Joined p ∨ ∃ e p', Threads.step (cfg.act b false) p e = some p')
  mineParallel : ∀ es o, cfg.mineParallel false file b es = some o → Answers cfg b o
  agree : ∀ es o o', cfg.mine never file b = some o → cfg.mineParallel false file b es = some o' →
    o.result.found = o'.result.found
  ranges : ∀ n, n < cfg.maxNonce ↔
    ∃! t, t < cfg.threads.toNat ∧ cfg.start t ≤ n ∧ n < cfg.stop t

/-- Where the first thread tests a nonce that does not meet the target, and the interval is zero,
its second step is a remainder by zero. -/
theorem exists_undefined (hthreads : cfg.threads ≠ 0) (h : ¬ cfg.ParallelDefined b) :
    ∃ es p, cfg.runWorkers b false es = some p ∧ ∃ w ∈ p.locals, w.place = .undefined := by
  simp only [Config.ParallelDefined, not_or, not_not, Nat.not_lt, Bool.not_eq_true] at h
  obtain ⟨hinterval, hle, hmeets⟩ := h
  have hpos := threads_pos hthreads
  have hstart : cfg.start 0 = 0 := by
    rw [Config.start, Nat.zero_mul]
    rfl
  -- the range of the first thread is not empty
  have hstop : 0 < cfg.stop 0 := by
    rw [UInt64.lt_iff_toNat_lt, Config.toNat_stop hpos]
    split
    · exact Nat.lt_of_lt_of_le hpos hle
    · rw [Nat.zero_add, Nat.one_mul]
      exact Nat.div_pos hle hpos
  have hget : cfg.workers.locals[0]? = some { place := .head 0, stop := cfg.stop 0 } := by
    simp only [Config.workers, List.getElem?_map, List.getElem?_range hpos, Option.map_some, hstart]
  have henter : cfg.act b false 0 {} { place := .head 0, stop := cfg.stop 0 } .go =
      some ({}, { place := .test 0, stop := cfg.stop 0 }) := if_pos hstop
  have hfault : cfg.act b false 0 {} { place := .test 0, stop := cfg.stop 0 } .go =
      some ({}, { place := .undefined, stop := cfg.stop 0, localHashes := 1 }) := by
    simp only [Config.act, hex_attempt]
    rw [if_neg (by rw [Bool.not_eq_true]; exact hmeets), if_pos ⟨trivial, hinterval⟩]
    rfl
  have hstep := Threads.step_of_act hget henter
  have hget' : (cfg.workers.locals.set 0 { place := .test 0, stop := cfg.stop 0 })[0]? =
      some { place := .test 0, stop := cfg.stop 0 } := by
    obtain ⟨hlt, -⟩ := List.getElem?_eq_some_iff.1 hget
    rw [List.getElem?_set_self hlt]
  have hstep' := Threads.step_of_act (p := ⟨({} : Shared), _⟩) hget' hfault
  have hrun : cfg.runWorkers b false [(0, .go), (0, .go)] = _ :=
    run_cons_eq_some.2 ⟨_, hstep, run_cons_eq_some.2 ⟨_, hstep', rfl⟩⟩
  exact ⟨_, _, hrun, _, mem_set_self hget', rfl⟩

/-- **When both searches answer right.** -/
theorem Config.searches_iff (hthreads : cfg.threads ≠ 0) (hdifficulty : b.difficulty ≠ 0) :
    cfg.Searches file b ↔
      Resumable b cfg.maxNonce (cfg.loadNonceState file) ∧
        cfg.Defined b (cfg.loadNonceState file) ∧ cfg.ParallelDefined b := by
  rw [← and_assoc, ← mine_answers_iff hdifficulty]
  constructor
  · intro h
    refine ⟨h.mine, ?_⟩
    by_contra hundefined
    obtain ⟨es, p, hrun, w, hw, hplace⟩ := exists_undefined hthreads hundefined
    exact h.defined es p hrun w hw hplace
  · rintro ⟨hmine, hdefined⟩
    have hparallel (es : List (ℕ × Action)) (o : Outcome)
        (ho : cfg.mineParallel false file b es = some o) : Answers cfg b o := by
      obtain ⟨p, hrun, hcollect⟩ := Option.bind_eq_some_iff.1 ho
      split at hcollect
      · next hjoined =>
          cases hcollect
          exact answers_collect hthreads hdifficulty file
            (invariant_of_runWorkers hdefined hrun) hjoined
      · cases hcollect
    refine ⟨hmine, fun es p hrun w hw => ?_, ⟨_, fun es p => runWorkers_ends hdefined⟩,
      hparallel, fun es o o' ho ho' => ?_, existsUnique_range hthreads⟩
    · exact (invariant_of_runWorkers hdefined hrun).place_ne_undefined hw
    · obtain ⟨o₁, ho₁, hanswers⟩ := hmine
      obtain rfl := Option.some.inj (ho.symm.trans ho₁)
      exact Bool.eq_iff_iff.2 (hanswers.complete.trans (hparallel es o' ho').complete.symm)

def sampleSearch : Config :=
  { threads := 2, maxNonce := 1, nonceStatePath := str "nonce.dat" }

def sampleHopeless : Block where
  previousHash := str "0"
  data := str "b6"
  difficulty := 1
  minerAddress := str "m"
  timestamp := 1700000000

def sampleLucky : Block := { sampleHopeless with data := str "b7" }

theorem not_meets_sampleHopeless : Meets sampleHopeless 0 = false := by decide +kernel

theorem meets_sampleLucky : Meets sampleLucky 0 = true ∧ Meets sampleLucky 1 = false := by
  decide +kernel

theorem searches_sampleLucky : sampleSearch.Searches none sampleLucky := by
  refine (Config.searches_iff (by decide) (by decide)).2 ⟨⟨?_, ?_, ?_⟩, ?_, ?_⟩
  · exact fun _ n hn => absurd hn UInt64.not_lt_zero
  · exact fun h => absurd h (by decide)
  · exact fun h => absurd h (by decide)
  · exact .inr (.inl meets_sampleLucky.1)
  · exact .inr (.inr meets_sampleLucky.1)

/-- **After a search in vain for another block**, the search with one thread does not find the nonce
that the search with several threads finds. -/
theorem not_searches_sampleLucky :
    ∃ o, sampleSearch.mine never none sampleHopeless = some o ∧
      (sampleSearch.mine never o.file sampleLucky).map (·.result.found) = some false ∧
      (sampleSearch.mineParallel false o.file sampleLucky
        [(0, .go), (1, .go), (1, .go), (1, .go)]).map (·.result.found) = some true ∧
      ¬ sampleSearch.Searches o.file sampleLucky := by
  have hnone : sampleSearch.loadNonceState none = 0 := rfl
  have hmine : sampleSearch.mine never none sampleHopeless =
      some ⟨{ hashesComputed := 1 }, sampleHopeless, sampleSearch.saveNonceState none 1⟩ := by
    rw [Config.mine, hnone, Config.mineFrom_never,
      if_neg (Bool.not_eq_true _ ▸ not_meets_sampleHopeless), if_pos (by decide)]
    rfl
  have hload : sampleSearch.loadNonceState (sampleSearch.saveNonceState none 1) = 1 :=
    Config.loadNonceState_saveNonceState (by decide) none 1
  have hlucky : sampleSearch.mine never (sampleSearch.saveNonceState none 1) sampleLucky =
      some ⟨{ hashesComputed := 1 }, { sampleLucky with nonce := 1 },
        sampleSearch.saveNonceState none 2⟩ := by
    rw [Config.mine, hload, Config.mineFrom_never,
      if_neg (Bool.not_eq_true _ ▸ meets_sampleLucky.2), if_pos (by decide)]
    rfl
  refine ⟨_, hmine, by rw [hlucky]; rfl, by decide +kernel, fun h => ?_⟩
  obtain ⟨o, ho, hanswers⟩ := h.mine
  obtain rfl := Option.some.inj (hlucky.symm.trans ho)
  have hfound := hanswers.complete.2 ⟨0, by decide, meets_sampleLucky.1⟩
  cases hfound

end ProofOfWork

end Node
