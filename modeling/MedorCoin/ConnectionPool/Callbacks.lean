/-
**Every callback once, and every descriptor counted.**

With a worker of each kind the pool comes to rest when nobody calls, and then nobody waits in one of
the places of `ConnectionPool.Custody`: everyone was answered.  A run in which a request is lost, or
a handshake fails, does not end so.

Main definitions:

* `ConnectionPool.Sound` — **every callback is invoked once, and the counter is right**;
* `ConnectionPool.State.toDo` — how far the pool is from rest.

Main results:

* `ConnectionPool.toDo_work_lt` — the pool comes to rest;
* `ConnectionPool.Owns.called_of_stuck` — a pool at rest has answered everyone;
* `ConnectionPool.sound_of_fits` — **the pool is sound in a run whose steps all fit**;
* `ConnectionPool.not_sound_first` — it is not in every run.
-/

import MedorCoin.ConnectionPool.Custody
import MedorCoin.Transition.Run

set_option autoImplicit false

namespace ConnectionPool

open Cpp Transition

/-! ### What the pool is for -/

/-- How many more steps the threads of the pool can take. -/
def State.toDo (s : State) : ℕ :=
  6 * s.asyncQueue.length + 5 * s.dnsQueue.length + 4 * s.resolving.length +
    3 * s.pendingConnects.length + 2 * s.tlsQueue.length + s.handshaking.length +
    2 * s.opening + s.wrapping.length

/-- **The pool is sound:** the counter is the number of open descriptors, no callback is invoked
twice, the threads come to rest when nobody calls, and then every callback was invoked once. -/
structure Sound (cfg : Config) (s : State) : Prop where
  counted : s.openFds = s.opened.length
  once : ∀ id, s.callsOf id ≤ 1
  rests : ∀ works t, run (work cfg) s works = some t → works.length ≤ s.toDo
  called : Stuck (work cfg) s → ∀ id < s.requests, s.callsOf id = 1

/-- There is a worker of each kind. -/
structure HasWorkers (cfg : Config) : Prop where
  async : 0 < cfg.asyncWorkerCount
  dns : 0 < cfg.dnsWorkerCount
  tls : 0 < cfg.tlsWorkerCount

variable {cfg : Config} {s s' : State} {fd rawFd : Fd} {req : Request}

/-! ### The pool comes to rest -/

@[simp] theorem toDo_cb (fd : Option Fd) : (s.cb req fd).toDo = s.toDo := rfl

@[simp] theorem toDo_close : (s.close fd).toDo = s.toDo := rfl

@[simp] theorem toDo_closeFd : (s.closeFd fd).toDo = s.toDo := rfl

@[simp] theorem toDo_wrap : (s.wrap rawFd fd).toDo = s.toDo := rfl

theorem toDo_foldl_closeFd (dead : List Fd) : (dead.foldl State.closeFd s).toDo = s.toDo := by
  induction dead generalizing s with
  | nil => rfl
  | cons fd dead ih => exact ih

theorem toDo_reuse (alive : Fd → Bool) (key : Str) : (s.reuse alive key).2.toDo = s.toDo :=
  toDo_foldl_closeFd _

theorem toDo_runAsyncWorker_lt {alive : Fd → Bool} (hs : runAsyncWorker cfg alive s = some s') :
    s'.toDo < s.toDo := by
  unfold runAsyncWorker at hs
  split at hs
  · cases hs
  · next req asyncQueue hqueue =>
      have hreuse := toDo_reuse (s := { s with asyncQueue := asyncQueue }) alive
        (makeKey req.host req.port)
      split_ifs at hs
      split at hs
      · next fd t heq =>
          rw [heq] at hreuse
          cases hs
          rw [toDo_cb, hreuse]
          simp only [State.toDo, hqueue, List.length_cons]
          omega
      · next t heq =>
          rw [heq] at hreuse
          cases hs
          simp only [State.toDo, hqueue, List.length_cons, List.length_append,
            List.length_nil] at hreuse ⊢
          omega

theorem toDo_erase_pending_lt {pc : PendingConnect} (hmem : pc ∈ s.pendingConnects) :
    { s with pendingConnects := s.pendingConnects.erase pc }.toDo + 3 = s.toDo := by
  have hlength := List.length_erase_of_mem hmem
  have hpos := List.length_pos_of_mem hmem
  simp only [State.toDo, hlength]
  omega

theorem toDo_handleReactorEvent_lt {pc : PendingConnect} {error soError : Bool}
    (hpc : s.pendingConnects.find? (fun pc => pc.fd == fd) = some pc) :
    (handleReactorEvent fd error soError s).toDo < s.toDo := by
  have herase := toDo_erase_pending_lt (List.mem_of_find?_eq_some hpc)
  simp only [handleReactorEvent, hpc]
  split_ifs
  · rw [toDo_cb, toDo_closeFd]
    omega
  · rw [toDo_cb, toDo_closeFd]
    omega
  · simp only [State.toDo, List.length_append, List.length_cons, List.length_nil] at herase ⊢
    omega
  · rw [toDo_cb]
    omega

theorem toDo_runDnsWorker_lt (hs : runDnsWorker cfg s = some s') : s'.toDo < s.toDo := by
  unfold runDnsWorker at hs
  split at hs
  · cases hs
  · next hqueue =>
      dsimp only at hs
      split_ifs at hs
      · cases hs
        rw [toDo_cb]
        simp only [State.toDo, hqueue, List.length_cons]
        omega
      · cases hs
        simp only [State.toDo, hqueue, List.length_cons, List.length_append, List.length_nil]
        omega

theorem toDo_resolved_lt {addresses : Option (List Attempt)} {now : UInt64}
    (hs : resolved cfg req addresses now s = some s') : s'.toDo < s.toDo := by
  unfold resolved at hs
  split_ifs at hs with hmem
  have hlength := List.length_erase_of_mem hmem
  have hpos := List.length_pos_of_mem hmem
  have herase : { s with resolving := s.resolving.erase req }.toDo + 4 = s.toDo := by
    simp only [State.toDo, hlength]
    omega
  dsimp only at hs
  split at hs
  · cases hs
    rw [toDo_cb]
    omega
  · split at hs
    · split_ifs at hs
      cases hs
      simp only [State.toDo, State.countFd, List.length_append, List.length_cons,
        List.length_nil] at herase ⊢
      omega
    · cases hs
      rw [toDo_cb]
      omega
    · cases hs
      omega

theorem toDo_expire_lt {now : UInt64} (hs : expire fd now s = some s') : s'.toDo < s.toDo := by
  unfold expire at hs
  split at hs
  · cases hs
  · next pc hpc =>
      have herase := toDo_erase_pending_lt (List.mem_of_find?_eq_some hpc)
      split_ifs at hs
      cases hs
      rw [toDo_cb, toDo_closeFd]
      omega

theorem toDo_runTlsWorker_lt (hs : runTlsWorker cfg s = some s') : s'.toDo < s.toDo := by
  unfold runTlsWorker at hs
  split at hs
  · cases hs
  · next hqueue =>
      dsimp only at hs
      split_ifs at hs
      · cases hs
        simp only [State.toDo, hqueue, List.length_cons, List.length_append, List.length_nil]
        omega
      · cases hs
        rw [toDo_cb]
        simp only [State.toDo, hqueue, List.length_cons]
        omega

theorem toDo_handshake_lt {tls : TlsRequest} {finalFd : Option Fd}
    (hs : handshake tls finalFd s = some s') : s'.toDo < s.toDo := by
  unfold handshake at hs
  split_ifs at hs with hmem
  have hlength := List.length_erase_of_mem hmem
  have hpos := List.length_pos_of_mem hmem
  have herase : { s with handshaking := s.handshaking.erase tls }.toDo + 1 = s.toDo := by
    simp only [State.toDo, hlength]
    omega
  dsimp only at hs
  split at hs
  · cases hs
    rw [toDo_cb, toDo_close]
    omega
  · split_ifs at hs
    cases hs
    rw [toDo_cb, toDo_wrap]
    omega

theorem toDo_openBlocking_lt {addresses : Option (List Attempt)}
    (hs : openBlocking addresses s = some s') : s'.toDo < s.toDo := by
  unfold openBlocking at hs
  split_ifs at hs with hpos
  have hless : { s with opening := s.opening - 1 }.toDo + 2 = s.toDo := by
    simp only [State.toDo]
    omega
  dsimp only at hs
  split at hs
  · cases hs
    omega
  · split at hs
    · cases hs
      omega
    · split_ifs at hs
      · cases hs
        simp only [State.toDo, State.countFd, List.length_append, List.length_cons,
          List.length_nil] at hless ⊢
        omega
      · cases hs
        simp only [State.toDo, State.countFd] at hless ⊢
        omega

theorem toDo_applyTlsDirect_lt {tfd : Option Fd} (hs : applyTlsDirect fd tfd s = some s') :
    s'.toDo < s.toDo := by
  unfold applyTlsDirect at hs
  split_ifs at hs with hmem
  have hlength := List.length_erase_of_mem hmem
  have hpos := List.length_pos_of_mem hmem
  have herase : { s with wrapping := s.wrapping.erase fd }.toDo + 1 = s.toDo := by
    simp only [State.toDo, hlength]
    omega
  dsimp only at hs
  split at hs
  · cases hs
    rw [toDo_close]
    omega
  · split_ifs at hs
    cases hs
    simp only [State.toDo, State.wrap] at herase ⊢
    omega

/-- **Each step of the pool leaves it less to do.** -/
theorem toDo_work_lt {w : Work} (hs : work cfg s w = some s') : s'.toDo < s.toDo := by
  cases w with
  | runAsyncWorker alive => exact toDo_runAsyncWorker_lt hs
  | runDnsWorker => exact toDo_runDnsWorker_lt hs
  | resolved req addresses now => exact toDo_resolved_lt hs
  | handleReactorEvent fd error soError =>
      simp only [work] at hs
      split_ifs at hs with hany
      cases hs
      have hsome := List.find?_isSome.2 (List.any_eq_true.1 hany)
      obtain ⟨pc, hpc⟩ := Option.isSome_iff_exists.1 hsome
      exact toDo_handleReactorEvent_lt hpc
  | expire fd now => exact toDo_expire_lt hs
  | runTlsWorker => exact toDo_runTlsWorker_lt hs
  | handshake tls finalFd => exact toDo_handshake_lt hs
  | openBlocking addresses => exact toDo_openBlocking_lt hs
  | applyTlsDirect fd tfd => exact toDo_applyTlsDirect_lt hs

theorem length_le_toDo {works : List Work} {t : State} (hrun : run (work cfg) s works = some t) :
    works.length ≤ s.toDo := by
  have hle := length_add_le (I := fun _ => True) (μ := State.toDo)
    (fun _ _ _ _ hstep => ⟨trivial, toDo_work_lt hstep⟩) trivial hrun
  omega

theorem stuck_of_toDo_eq_zero (h : s.toDo = 0) : Stuck (work cfg) s := by
  intro w
  by_contra hsome
  obtain ⟨s', hs'⟩ := Option.ne_none_iff_exists'.1 hsome
  have hless := toDo_work_lt hs'
  omega

/-! ### A pool at rest -/

section Stuck

variable (hstuck : Stuck (work cfg) s)

include hstuck

theorem asyncQueue_of_stuck (hasync : 0 < cfg.asyncWorkerCount) : s.asyncQueue = [] := by
  have hwork := hstuck (.runAsyncWorker fun _ => true)
  simp only [work, runAsyncWorker, if_pos hasync] at hwork
  split at hwork
  · assumption
  · split at hwork <;> cases hwork

theorem resolving_of_stuck : s.resolving = [] := by
  refine List.eq_nil_iff_forall_not_mem.2 fun req hreq => ?_
  have hwork := hstuck (.resolved req none 0)
  simp only [work, resolved, if_pos hreq] at hwork
  cases hwork

theorem dnsQueue_of_stuck (hdns : 0 < cfg.dnsWorkerCount) : s.dnsQueue = [] := by
  -- nobody is resolving a host, so a worker is free
  have hwork := hstuck .runDnsWorker
  have hidle : s.resolving.length < cfg.dnsWorkerCount := by
    rw [resolving_of_stuck hstuck]
    exact hdns
  simp only [work, runDnsWorker, if_pos hidle] at hwork
  split at hwork
  · assumption
  · split_ifs at hwork

theorem pendingConnects_of_stuck : s.pendingConnects = [] := by
  refine List.eq_nil_iff_forall_not_mem.2 fun pc hpc => ?_
  have hwork := hstuck (.handleReactorEvent pc.fd true true)
  have hany : s.pendingConnects.any (fun pc' => pc'.fd == pc.fd) = true :=
    List.any_eq_true.2 ⟨pc, hpc, beq_self_eq_true pc.fd⟩
  simp only [work, if_pos hany] at hwork
  cases hwork

theorem handshaking_of_stuck : s.handshaking = [] := by
  refine List.eq_nil_iff_forall_not_mem.2 fun tls htls => ?_
  have hwork := hstuck (.handshake tls none)
  simp only [work, handshake, if_pos htls] at hwork
  cases hwork

theorem tlsQueue_of_stuck (htls : 0 < cfg.tlsWorkerCount) : s.tlsQueue = [] := by
  -- nobody is in a handshake, so a worker is free
  have hwork := hstuck .runTlsWorker
  have hidle : s.handshaking.length < cfg.tlsWorkerCount := by
    rw [handshaking_of_stuck hstuck]
    exact htls
  simp only [work, runTlsWorker, if_pos hidle] at hwork
  split at hwork
  · assumption
  · split_ifs at hwork

theorem waiting_of_stuck (hworkers : HasWorkers cfg) : s.waiting = [] := by
  simp only [State.waiting, asyncQueue_of_stuck hstuck hworkers.async,
    dnsQueue_of_stuck hstuck hworkers.dns, resolving_of_stuck hstuck,
    pendingConnects_of_stuck hstuck, tlsQueue_of_stuck hstuck hworkers.tls,
    handshaking_of_stuck hstuck, List.map_nil, List.append_nil]

end Stuck

/-- **A pool at rest has answered everyone.** -/
theorem Owns.called_of_stuck (h : Owns s [] []) (hworkers : HasWorkers cfg)
    (hstuck : Stuck (ConnectionPool.work cfg) s) (id : ℕ) (hid : id < s.requests) :
    s.callsOf id = 1 := by
  have hcount := List.perm_iff_count.1 h.requests id
  have hone : (List.range s.requests).count id = 1 := by rw [List.count_range, if_pos hid]
  rw [waiting_of_stuck hstuck hworkers, hone] at hcount
  exact hcount

/-- **The pool is sound in a run whose steps all fit,** when it has a worker of each kind: in every
state that the run comes to, the counter is the number of open descriptors, no callback was invoked
twice, the threads come to rest when nobody calls, and then each callback was invoked once. -/
theorem sound_of_fits (cfg : Config) (hworkers : HasWorkers cfg) (events : List Event) (s : State)
    (hfits : ∀ event ∈ events, event.fits) (hrun : run (step cfg) {} events = some s) :
    Sound cfg s := by
  have h : Owns s [] [] := by
    refine run_induction (I := fun s => Owns s [] []) (P := fun _ event _ => event.fits)
      (fun s event s' howns hevent hs => ?_) owns_start (everyStep_of_forall_mem hfits) hrun
    cases event with
    | work w => exact howns.work hevent hs
    | call c => exact howns.call hs
  exact {
    counted := h.counted
    once := h.callsOf_le
    rests := fun _ _ => length_le_toDo
    called := h.called_of_stuck hworkers }

/-- A request whose first address fails at once and whose second leads to a connection, with a
handshake. -/
def delivered : List Event :=
  [.call (.setTlsHandshake true), .call (.acquireAsync (str "peer") 30303),
    .work (.runAsyncWorker fun _ => true), .work .runDnsWorker,
    .work (.resolved ⟨0, str "peer", 30303⟩ (some [.refused 7, .underWay 7]) 1000),
    .work (.handleReactorEvent 7 false false), .work .runTlsWorker,
    .work (.handshake ⟨⟨0, str "peer", 30303⟩, 7⟩ (some 7))]

/-- The caller has its connection. -/
def deliveredState : State where
  tlsFn := true
  held := [7]
  openFds := 1
  opened := [7]
  requests := 1
  calls := [(0, some 7)]

theorem sound_of_fits_delivered :
    HasWorkers {} ∧ (∀ event ∈ delivered, event.fits) ∧
      run (step {}) {} delivered = some deliveredState ∧ Sound {} deliveredState :=
  have hworkers : HasWorkers {} := ⟨by decide, by decide, by decide⟩
  have hfits : ∀ event ∈ delivered, event.fits := by decide
  have hrun : run (step {}) {} delivered = some deliveredState := rfl
  ⟨hworkers, hfits, hrun, sound_of_fits {} hworkers delivered deliveredState hfits hrun⟩

/-- A request whose only address fails at once. -/
def refused : List Event :=
  [.call (.acquireAsync (str "peer") 30303), .work (.runAsyncWorker fun _ => true),
    .work .runDnsWorker, .work (.resolved ⟨0, str "peer", 30303⟩ (some [.refused 7]) 1000)]

/-- A request whose handshake fails. -/
def rejected : List Event :=
  [.call (.setTlsHandshake true), .call (.acquireAsync (str "peer") 30303),
    .work (.runAsyncWorker fun _ => true), .work .runDnsWorker,
    .work (.resolved ⟨0, str "peer", 30303⟩ (some [.underWay 7]) 1000),
    .work (.handleReactorEvent 7 false false), .work .runTlsWorker,
    .work (.handshake ⟨⟨0, str "peer", 30303⟩, 7⟩ none)]

/-- **A callback that nobody will invoke,** in a pool at rest; **and a descriptor that is closed
and still counted.** -/
theorem not_sound_first :
    (¬ ∀ events s, run (step {}) {} events = some s → Stuck (work {}) s →
      ∀ id < s.requests, s.callsOf id = 1) ∧
    (¬ ∀ events s, run (step {}) {} events = some s → s.openFds = s.opened.length) := by
  constructor
  · intro hall
    have hcalls := hall refused { requests := 1 } rfl (stuck_of_toDo_eq_zero rfl) 0 Nat.zero_lt_one
    exact Nat.zero_ne_one hcalls
  · intro hall
    have hcounted := hall rejected
      { tlsFn := true, openFds := 1, requests := 1, calls := [(0, none)] } rfl
    exact Nat.one_ne_zero hcounted

end ConnectionPool
