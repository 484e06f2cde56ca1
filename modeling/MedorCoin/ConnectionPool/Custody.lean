/-
**Where the descriptors and the requests of a pool are.**

A request is always in one hand: in a queue, with a worker, or with the reactor, until its callback
is invoked.  A descriptor is always in one hand, too, until it is closed, and the counter changes
where the number of open descriptors does.  So it is after every step that fits; two steps do not.
When every address of a host fails at once, the loop over them has already closed the last socket
and cleared its variable, and what follows for that case is passed over: nobody has the request any
more.  When a handshake fails, the descriptor is closed and the counter is left as it is.

Main definitions:

* `ConnectionPool.Event.fits` — an address leads to a connection, and a handshake succeeds;
* `ConnectionPool.State.descriptors`, `ConnectionPool.State.waiting` — the places;
* `ConnectionPool.Owns` — **each open descriptor and each unanswered request is in one of them**,
  or in the hands of the step that is going on.

Main results:

* `ConnectionPool.Owns.move`, `ConnectionPool.Owns.cb`, `ConnectionPool.Owns.closeFd` — what a part
  of a step does to it;
* `ConnectionPool.Owns.work`, `ConnectionPool.Owns.call` — **a step that fits keeps it**;
* `ConnectionPool.Owns.callsOf_le` — nobody is called twice.
-/

import MedorCoin.ConnectionPool.Pool
import Mathlib.Data.List.Nodup
import Mathlib.Data.List.Perm.Basic
import Mathlib.Data.List.Range

set_option autoImplicit false

namespace ConnectionPool

open Cpp

/-- **What an event must not bring:** a host none of whose addresses leads to a connection under
way, and a handshake that fails. -/
def Event.fits : Event → Bool
  | .work (.resolved _ (some attempts) _) => attempts.any Attempt.isUnderWay
  | .work (.handshake _ finalFd) => finalFd.isSome
  | .work (.applyTlsDirect _ tfd) => tfd.isSome
  | _ => true

/-! ### Where descriptors and requests are -/

def State.descriptors (s : State) : List Fd :=
  s.held ++ s.slots.map Slot.fd ++ s.pendingConnects.map PendingConnect.fd ++
    s.tlsQueue.map TlsRequest.fd ++ s.handshaking.map TlsRequest.fd ++ s.wrapping

def State.waiting (s : State) : List Request :=
  s.asyncQueue ++ s.dnsQueue ++ s.resolving ++
    s.pendingConnects.map PendingConnect.toRequest ++ s.tlsQueue.map TlsRequest.toRequest ++
    s.handshaking.map TlsRequest.toRequest

/-- How often the callback of a request was invoked. -/
def State.callsOf (s : State) (id : ℕ) : ℕ := (s.calls.map Prod.fst).count id

/-- **Each open descriptor and each unanswered request is in one place,** of the pool or in the
hands of the step that is going on, and the counter is right. -/
structure Owns (s : State) (fds : List Fd) (reqs : List Request) : Prop where
  descriptors : (s.descriptors ++ fds).Perm s.opened
  counted : s.openFds = s.opened.length
  requests : ((s.waiting ++ reqs).map Request.id ++ s.calls.map Prod.fst).Perm
    (List.range s.requests)

theorem owns_start : Owns {} [] [] where
  descriptors := List.Perm.refl _
  counted := rfl
  requests := List.Perm.refl _

variable {cfg : Config} {s s' : State} {fd rawFd : Fd} {fds fds' : List Fd} {req : Request}
  {reqs reqs' : List Request}

theorem count_erase_add {α : Type} [DecidableEq α] {x : α} {l : List α} (h : x ∈ l) (a : α) :
    l.count a = (l.erase x).count a + if x == a then 1 else 0 := by
  rw [(List.perm_cons_erase h).count_eq a, List.count_cons]

theorem count_map_erase_add {α β : Type} [DecidableEq α] [DecidableEq β] (f : α → β) {x : α}
    {l : List α} (h : x ∈ l) (b : β) :
    (l.map f).count b = ((l.erase x).map f).count b + if f x == b then 1 else 0 := by
  rw [((List.perm_cons_erase h).map f).count_eq b, List.map_cons, List.count_cons]

theorem count_descriptors (s : State) (a : Fd) :
    s.descriptors.count a = s.held.count a + (s.slots.map Slot.fd).count a +
      (s.pendingConnects.map PendingConnect.fd).count a + (s.tlsQueue.map TlsRequest.fd).count a +
      (s.handshaking.map TlsRequest.fd).count a + s.wrapping.count a := by
  simp only [State.descriptors, List.count_append]

theorem count_waiting (s : State) (a : Request) :
    s.waiting.count a = s.asyncQueue.count a + s.dnsQueue.count a + s.resolving.count a +
      (s.pendingConnects.map PendingConnect.toRequest).count a +
      (s.tlsQueue.map TlsRequest.toRequest).count a +
      (s.handshaking.map TlsRequest.toRequest).count a := by
  simp only [State.waiting, List.count_append]

theorem Owns.move (h : Owns s fds reqs)
    (hfds : ∀ a, s'.descriptors.count a + fds'.count a = s.descriptors.count a + fds.count a)
    (hreqs : ∀ a, s'.waiting.count a + reqs'.count a = s.waiting.count a + reqs.count a)
    (hopened : s'.opened = s.opened) (hopenFds : s'.openFds = s.openFds)
    (hrequests : s'.requests = s.requests) (hcalls : s'.calls = s.calls) :
    Owns s' fds' reqs' where
  descriptors := by
    have hperm : (s'.descriptors ++ fds').Perm (s.descriptors ++ fds) := by
      simpa only [List.perm_iff_count, List.count_append] using hfds
    rw [hopened]
    exact hperm.trans h.descriptors
  counted := by rw [hopened, hopenFds, h.counted]
  requests := by
    have hperm : (s'.waiting ++ reqs').Perm (s.waiting ++ reqs) := by
      simpa only [List.perm_iff_count, List.count_append] using hreqs
    rw [hrequests, hcalls]
    exact ((hperm.map _).append_right _).trans h.requests

theorem Owns.cb {fd : Option Fd} (h : Owns s (fd.toList ++ fds) (req :: reqs)) :
    Owns (s.cb req fd) fds reqs where
  descriptors := by
    refine List.Perm.trans ?_ h.descriptors
    simp only [List.perm_iff_count, State.descriptors, State.cb, List.count_append]
    omega
  counted := h.counted
  requests := by
    refine List.Perm.trans ?_ h.requests
    simp only [List.perm_iff_count, State.waiting, State.cb, List.map_append, List.map_cons,
      List.map_nil, List.count_append, List.count_cons, List.count_nil]
    omega

theorem Owns.closeFd (h : Owns s (fd :: fds) reqs) : Owns (s.closeFd fd) fds reqs := by
  have hopened : (fd :: (s.descriptors ++ fds)).Perm s.opened :=
    List.perm_middle.symm.trans h.descriptors
  have hmem : fd ∈ s.opened := hopened.subset List.mem_cons_self
  have hpos : 0 < s.opened.length := List.length_pos_of_mem hmem
  refine ⟨?_, ?_, h.requests⟩
  · exact (hopened.trans (List.perm_cons_erase hmem)).cons_inv
  · show (if 0 < s.openFds then s.openFds - 1 else s.openFds) = (s.opened.erase fd).length
    rw [List.length_erase_of_mem hmem, h.counted, if_pos hpos]

theorem Owns.countFd (h : Owns s fds reqs) : Owns (s.countFd fd) (fd :: fds) reqs where
  descriptors := List.perm_middle.trans (h.descriptors.cons fd)
  counted := by
    show s.openFds + 1 = (fd :: s.opened).length
    rw [List.length_cons, h.counted]
  requests := h.requests

theorem Owns.wrap (h : Owns s (rawFd :: fds) reqs) : Owns (s.wrap rawFd fd) (fd :: fds) reqs := by
  have hopened : (rawFd :: (s.descriptors ++ fds)).Perm s.opened :=
    List.perm_middle.symm.trans h.descriptors
  have hmem : rawFd ∈ s.opened := hopened.subset List.mem_cons_self
  have hpos : 0 < s.opened.length := List.length_pos_of_mem hmem
  have hrest : (s.descriptors ++ fds).Perm (s.opened.erase rawFd) :=
    (hopened.trans (List.perm_cons_erase hmem)).cons_inv
  refine ⟨List.perm_middle.trans (hrest.cons fd), ?_, h.requests⟩
  show s.openFds = (fd :: s.opened.erase rawFd).length
  rw [List.length_cons, List.length_erase_of_mem hmem, h.counted]
  omega

theorem Owns.foldl_closeFd {dead : List Fd} (h : Owns s (dead ++ fds) reqs) :
    Owns (dead.foldl State.closeFd s) fds reqs := by
  induction dead generalizing s with
  | nil => exact h
  | cons fd dead ih => exact ih h.closeFd

theorem Owns.reuse (h : Owns s fds reqs) (alive : Fd → Bool) (key : Str) :
    Owns (s.reuse alive key).2 ((s.reuse alive key).1.toList ++ fds) reqs := by
  refine Owns.foldl_closeFd (h.move ?_ (fun _ => rfl) rfl rfl rfl rfl)
  have hperm := popSlots_perm alive key s.slots
  simp only [List.perm_iff_count, List.count_append] at hperm
  intro a
  have ha := hperm a
  simp only [count_descriptors, List.count_append]
  show _ + (_ + (List.count a (popSlots alive key s.slots).fd.toList + _)) = _
  omega

theorem Owns.evict (h : Owns s fds reqs) (gone : Slot → Bool) : Owns (s.evict gone) fds reqs := by
  refine Owns.foldl_closeFd (h.move ?_ (fun _ => rfl) rfl rfl rfl rfl)
  have hperm : ((s.slots.filter gone).map Slot.fd ++
      (s.slots.filter fun slot => !gone slot).map Slot.fd).Perm (s.slots.map Slot.fd) := by
    rw [← List.map_append]
    exact (List.filter_append_perm gone s.slots).map _
  simp only [List.perm_iff_count, List.count_append] at hperm
  intro a
  have ha := hperm a
  simp only [count_descriptors, List.count_append]
  omega

/-! ### What a step keeps -/

section Steps

variable (h : Owns s [] [])

include h

theorem Owns.takePending {pc : PendingConnect} (hmem : pc ∈ s.pendingConnects) :
    Owns { s with pendingConnects := s.pendingConnects.erase pc } [pc.fd] [pc.toRequest] := by
  refine h.move (fun a => ?_) (fun a => ?_) rfl rfl rfl rfl
  · have ha := count_map_erase_add PendingConnect.fd hmem a
    simp only [count_descriptors, List.count_cons, List.count_nil]
    omega
  · have ha := count_map_erase_add PendingConnect.toRequest hmem a
    simp only [count_waiting, List.count_cons, List.count_nil]
    omega

theorem Owns.takeHandshake {tls : TlsRequest} (hmem : tls ∈ s.handshaking) :
    Owns { s with handshaking := s.handshaking.erase tls } [tls.fd] [tls.toRequest] := by
  refine h.move (fun a => ?_) (fun a => ?_) rfl rfl rfl rfl
  · have ha := count_map_erase_add TlsRequest.fd hmem a
    simp only [count_descriptors, List.count_cons, List.count_nil]
    omega
  · have ha := count_map_erase_add TlsRequest.toRequest hmem a
    simp only [count_waiting, List.count_cons, List.count_nil]
    omega

theorem Owns.runAsyncWorker {alive : Fd → Bool} (hs : runAsyncWorker cfg alive s = some s') :
    Owns s' [] [] := by
  unfold ConnectionPool.runAsyncWorker at hs
  split at hs
  · cases hs
  · next req asyncQueue hqueue =>
      have htake : Owns { s with asyncQueue := asyncQueue } [] [req] := by
        refine h.move (fun _ => rfl) (fun a => ?_) rfl rfl rfl rfl
        simp only [count_waiting, hqueue, List.count_cons, List.count_nil]
        omega
      -- the dead connections of the bucket are closed before the request goes on
      have hreuse := htake.reuse alive (makeKey req.host req.port)
      split_ifs at hs
      split at hs
      · next fd t heq =>
          rw [heq] at hreuse
          cases hs
          exact hreuse.cb
      · next t heq =>
          rw [heq] at hreuse
          cases hs
          refine hreuse.move (fun _ => rfl) (fun a => ?_) rfl rfl rfl rfl
          simp only [count_waiting, List.count_append, List.count_cons, List.count_nil]
          omega

theorem Owns.runDnsWorker (hs : runDnsWorker cfg s = some s') : Owns s' [] [] := by
  unfold ConnectionPool.runDnsWorker at hs
  split at hs
  · cases hs
  · next req dnsQueue hqueue =>
      have htake : Owns { s with dnsQueue := dnsQueue } [] [req] := by
        refine h.move (fun _ => rfl) (fun a => ?_) rfl rfl rfl rfl
        simp only [count_waiting, hqueue, List.count_cons, List.count_nil]
        omega
      dsimp only at hs
      split_ifs at hs
      · cases hs
        exact htake.cb
      · cases hs
        refine htake.move (fun _ => rfl) (fun a => ?_) rfl rfl rfl rfl
        simp only [count_waiting, List.count_append, List.count_cons, List.count_nil]
        omega

theorem Owns.resolved {addresses : Option (List Attempt)} {now : UInt64}
    (hfits : (Event.work (.resolved req addresses now)).fits)
    (hs : resolved cfg req addresses now s = some s') : Owns s' [] [] := by
  unfold ConnectionPool.resolved at hs
  split_ifs at hs with hmem
  have htake : Owns { s with resolving := s.resolving.erase req } [] [req] := by
    refine h.move (fun _ => rfl) (fun a => ?_) rfl rfl rfl rfl
    have ha := count_erase_add hmem a
    simp only [count_waiting, List.count_cons, List.count_nil]
    omega
  dsimp only at hs
  split at hs
  · cases hs
    exact htake.cb
  · next attempts =>
      have hsome : (connectLoop none attempts).1.isSome := by
        rw [isSome_fst_connectLoop]
        exact hfits
      split at hs
      · next fd _ heq =>
          split_ifs at hs
          cases hs
          have hcount :
              Owns ({ s with resolving := s.resolving.erase req }.countFd fd) [fd] [req] :=
            htake.countFd
          refine hcount.move (fun a => ?_) (fun a => ?_) rfl rfl rfl rfl
          · simp only [count_descriptors, List.map_append, List.map_cons, List.map_nil,
              List.count_append, List.count_cons, List.count_nil]
            omega
          · simp only [count_waiting, List.map_append, List.map_cons, List.map_nil,
              List.count_append, List.count_cons, List.count_nil]
            omega
      -- without a connection under way, the event does not fit
      · next heq => simp [heq] at hsome
      · next heq => simp [heq] at hsome

theorem Owns.handleReactorEvent (error soError : Bool) :
    Owns (handleReactorEvent fd error soError s) [] [] := by
  unfold ConnectionPool.handleReactorEvent
  split
  · exact h
  · next pc hpc =>
      have htake := h.takePending (List.mem_of_find?_eq_some hpc)
      dsimp only
      split_ifs
      · exact htake.closeFd.cb
      · exact htake.closeFd.cb
      · refine htake.move (fun a => ?_) (fun a => ?_) rfl rfl rfl rfl
        · simp only [count_descriptors, List.map_append, List.map_cons, List.map_nil,
            List.count_append, List.count_cons, List.count_nil]
          omega
        · simp only [count_waiting, List.map_append, List.map_cons, List.map_nil,
            List.count_append, List.count_cons, List.count_nil]
          omega
      · exact htake.cb

theorem Owns.expire {now : UInt64} (hs : expire fd now s = some s') : Owns s' [] [] := by
  unfold ConnectionPool.expire at hs
  split at hs
  · cases hs
  · next pc hpc =>
      have htake := h.takePending (List.mem_of_find?_eq_some hpc)
      split_ifs at hs
      cases hs
      exact htake.closeFd.cb

theorem Owns.runTlsWorker (hs : runTlsWorker cfg s = some s') : Owns s' [] [] := by
  unfold ConnectionPool.runTlsWorker at hs
  split at hs
  · cases hs
  · next tls tlsQueue hqueue =>
      have htake : Owns { s with tlsQueue := tlsQueue } [tls.fd] [tls.toRequest] := by
        refine h.move (fun a => ?_) (fun a => ?_) rfl rfl rfl rfl
        · simp only [count_descriptors, hqueue, List.map_cons, List.count_cons, List.count_nil]
          omega
        · simp only [count_waiting, hqueue, List.map_cons, List.count_cons, List.count_nil]
          omega
      dsimp only at hs
      split_ifs at hs
      · cases hs
        refine htake.move (fun a => ?_) (fun a => ?_) rfl rfl rfl rfl
        · simp only [count_descriptors, List.map_append, List.map_cons, List.map_nil,
            List.count_append, List.count_cons, List.count_nil]
          omega
        · simp only [count_waiting, List.map_append, List.map_cons, List.map_nil,
            List.count_append, List.count_cons, List.count_nil]
          omega
      · cases hs
        exact htake.cb

/-- A handshake is over: a failed one would leave the counter as it is. -/
theorem Owns.handshake {tls : TlsRequest} {finalFd : Option Fd}
    (hfits : (Event.work (.handshake tls finalFd)).fits) (hs : handshake tls finalFd s = some s') :
    Owns s' [] [] := by
  unfold ConnectionPool.handshake at hs
  split_ifs at hs with hmem
  have htake := h.takeHandshake hmem
  -- `::close(req.fd)` without the counter is where the handshake fails
  obtain ⟨fd, rfl⟩ := Option.isSome_iff_exists.1 hfits
  dsimp only at hs
  split_ifs at hs
  cases hs
  exact htake.wrap.cb

theorem Owns.openBlocking {addresses : Option (List Attempt)}
    (hs : openBlocking addresses s = some s') : Owns s' [] [] := by
  unfold ConnectionPool.openBlocking at hs
  split_ifs at hs
  have htake : Owns { s with opening := s.opening - 1 } [] [] :=
    h.move (fun _ => rfl) (fun _ => rfl) rfl rfl rfl rfl
  dsimp only at hs
  split at hs
  · cases hs
    exact htake
  · split at hs
    · cases hs
      exact htake
    · next fd _ =>
        have hcount : Owns ({ s with opening := s.opening - 1 }.countFd fd) [fd] [] :=
          htake.countFd
        split_ifs at hs
        · cases hs
          refine hcount.move (fun a => ?_) (fun _ => rfl) rfl rfl rfl rfl
          simp only [count_descriptors, List.count_append, List.count_cons, List.count_nil]
          omega
        · cases hs
          refine hcount.move (fun a => ?_) (fun _ => rfl) rfl rfl rfl rfl
          simp only [count_descriptors, List.count_append, List.count_cons, List.count_nil]
          omega

theorem Owns.applyTlsDirect {tfd : Option Fd} (hfits : (Event.work (.applyTlsDirect fd tfd)).fits)
    (hs : applyTlsDirect fd tfd s = some s') : Owns s' [] [] := by
  unfold ConnectionPool.applyTlsDirect at hs
  split_ifs at hs with hmem
  have htake : Owns { s with wrapping := s.wrapping.erase fd } [fd] [] := by
    refine h.move (fun a => ?_) (fun _ => rfl) rfl rfl rfl rfl
    have ha := count_erase_add hmem a
    simp only [count_descriptors, List.count_cons, List.count_nil]
    omega
  obtain ⟨tfd, rfl⟩ := Option.isSome_iff_exists.1 hfits
  dsimp only at hs
  split_ifs at hs
  cases hs
  have hwrap : Owns ({ s with wrapping := s.wrapping.erase fd }.wrap fd tfd) [tfd] [] := htake.wrap
  refine hwrap.move (fun a => ?_) (fun _ => rfl) rfl rfl rfl rfl
  simp only [count_descriptors, List.count_append, List.count_cons, List.count_nil]
  omega

/-- **A step of the pool loses nothing,** if it fits. -/
theorem Owns.work {w : Work} (hfits : (Event.work w).fits) (hs : work cfg s w = some s') :
    Owns s' [] [] := by
  cases w with
  | runAsyncWorker alive => exact h.runAsyncWorker hs
  | runDnsWorker => exact h.runDnsWorker hs
  | resolved req addresses now => exact h.resolved hfits hs
  | handleReactorEvent fd error soError =>
      simp only [ConnectionPool.work] at hs
      split_ifs at hs
      cases hs
      exact h.handleReactorEvent error soError
  | expire fd now => exact h.expire hs
  | runTlsWorker => exact h.runTlsWorker hs
  | handshake tls finalFd => exact h.handshake hfits hs
  | openBlocking addresses => exact h.openBlocking hs
  | applyTlsDirect fd tfd => exact h.applyTlsDirect hfits hs

theorem Owns.acquire (host : Str) (port : UInt16) (alive : Fd → Bool) :
    Owns (acquire cfg host port alive s) [] [] := by
  have hreuse := h.reuse alive (makeKey host port)
  unfold ConnectionPool.acquire
  split
  · next fd t heq =>
      rw [heq] at hreuse
      refine hreuse.move (fun a => ?_) (fun _ => rfl) rfl rfl rfl rfl
      simp only [count_descriptors, Option.toList_some, List.count_append, List.count_nil]
      omega
  · next t heq =>
      rw [heq] at hreuse
      split_ifs
      · exact hreuse
      · exact hreuse.move (fun _ => rfl) (fun _ => rfl) rfl rfl rfl rfl

theorem Owns.acquireAsync (host : Str) (port : UInt16) :
    Owns (acquireAsync host port s) [] [] where
  descriptors := h.descriptors
  counted := h.counted
  requests := by
    have hrequests := List.perm_iff_count.1 h.requests
    simp only [List.map_append, List.count_append] at hrequests
    refine List.perm_iff_count.2 fun a => ?_
    have ha := hrequests a
    simp only [ConnectionPool.acquireAsync, State.waiting, List.range_succ, List.map_append,
      List.map_cons, List.map_nil, List.count_append] at ha ⊢
    omega

theorem Owns.release {host : Str} {port : UInt16} {fd : Option Fd} {healthy : Bool} {now : UInt64}
    (hs : release cfg host port fd healthy now s = some s') : Owns s' [] [] := by
  unfold ConnectionPool.release at hs
  split at hs
  · cases hs
    exact h
  · next fd =>
      have hmem : fd ∈ s.held := by
        by_contra hnot
        rw [if_neg hnot] at hs
        cases hs
      rw [if_pos hmem] at hs
      dsimp only at hs
      have htake : Owns { s with held := s.held.erase fd } [fd] [] := by
        refine h.move (fun a => ?_) (fun _ => rfl) rfl rfl rfl rfl
        have ha := count_erase_add hmem a
        simp only [count_descriptors, List.count_cons, List.count_nil]
        omega
      split_ifs at hs
      · cases hs
        exact htake.closeFd
      · cases hs
        exact htake.closeFd
      · cases hs
        refine htake.move (fun a => ?_) (fun _ => rfl) rfl rfl rfl rfl
        simp only [count_descriptors, List.map_append, List.map_cons, List.map_nil,
          List.count_append, List.count_cons, List.count_nil]
        omega

/-- **Nor does a call.** -/
theorem Owns.call {c : Call} (hs : call cfg s c = some s') : Owns s' [] [] := by
  cases c with
  | setTlsHandshake fn =>
      cases hs
      exact h.move (fun _ => rfl) (fun _ => rfl) rfl rfl rfl rfl
  | acquire host port alive =>
      cases hs
      exact h.acquire host port alive
  | acquireAsync host port =>
      cases hs
      exact h.acquireAsync host port
  | release host port fd healthy now => exact h.release hs
  | evictPeer host port =>
      cases hs
      exact h.evict _
  | clear =>
      cases hs
      exact h.evict _
  | runJanitorWorker shard now alive =>
      cases hs
      exact h.evict _

theorem Owns.callsOf_le (id : ℕ) : s.callsOf id ≤ 1 := by
  have hcount := List.perm_iff_count.1 h.requests id
  have hle : (List.range s.requests).count id ≤ 1 :=
    List.nodup_iff_count_le_one.1 List.nodup_range id
  rw [List.count_append] at hcount
  unfold State.callsOf
  omega

end Steps

end ConnectionPool
