/-
**What the network manager does with its mutex.**

All records stand under one mutex that is not recursive.  A call takes it in blocks, shared or
alone, and some of what is called within a block takes it again: the ban for too many violations
within the check of the limits, the ban for too many failures within the end of a send, and the plan
to reconnect within the end of a connect that could not send.  A thread that gets there waits for
itself.  The traces below go on there, as if the mutex were free.

The mutexes of the log and of the broadcast queue are left out: nothing is called under them.  A
handler may lock the mutex itself, as that of the node does when it broadcasts.

Main definitions:

* `NetManager.Handlers` — what the handlers do with the mutex;
* `NetManager.Operation`, `NetManager.locks` — the operations and their events;
* `NetManager.Safe` — **when an operation does not wait for itself**.

Main results:

* `NetManager.requires_sendToPeer`, `NetManager.requires_processMessage`,
  `NetManager.requires_connectToPeer` — what the calls require;
* `NetManager.requires_locks` — the same for every operation.
-/

import MedorCoin.NetManager.Manager
import MedorCoin.Transition.LockTrace

set_option autoImplicit false

namespace NetManager

open Cpp LockTrace

/-- The mutex of a manager. -/
inductive Mutex
  | peerMu
  deriving DecidableEq

/-- What a call does with it. -/
abbrev Locks := List (LockTrace.Event Mutex)

/-- A block under the mutex. -/
def underPeerMu (body : Locks) : Locks := locked .peerMu body

/-- What the handlers do with the mutex.  They give back what they take, and those that are called
without it do not wait for themselves. -/
structure Handlers where
  onMessage : Locks := []
  onConnect : Locks := []
  onDisconnect : Locks := []
  message : Requires onMessage True
  connect : Balanced onConnect
  disconnect : Requires onDisconnect True

variable {D Json : Type} (P : Platform D Json) (h : Handlers)

/-! ### The calls, as they stand in the program -/

def banPeerLocks : Locks := underPeerMu []

def scheduleReconnectLocks : Locks := underPeerMu []

def getPeerListLocks : Locks := underPeerMu []

/-- The block of `processMessage` in which the limits are checked. -/
def checkRateLimitLocks (now : UInt64) (peer : PeerState D) (msgBytes : ℕ) : Locks :=
  let peer := Impl.renewed now peer
  if Impl.exceeds peer msgBytes then
    let peer := Impl.violated peer
    if peer.violations ≥ 10 && !peer.trusted then banPeerLocks else []
  else []

def performHandshakeLocks (hello : Json) : Locks :=
  match P.json.get hello (str "chainId"), P.json.get hello (str "protocolVersion"),
      P.json.get hello (str "network") with
  | some peerChainId, some peerProto, some peerNet =>
      match P.json.asInt peerChainId, P.json.asInt peerProto, P.json.asString peerNet with
      | some peerChainId, some _, some _ => if peerChainId ≠ chainId then banPeerLocks else []
      | _, _, _ => []
  | _, _, _ => []

/-- An attempt that throws does so before it has the mutex. -/
def sendToPeerLocks (m : Impl D) (peerId data : Str) (maxRetries : ℕ) : Locks :=
  let r := Impl.sendAttempts P peerId data (maxRetries + 1) m
  if r.1 then underPeerMu []
  else underPeerMu (if Impl.sendBans r.2 peerId then banPeerLocks else [])

/-- The mutex is given back before the reconnect is planned. -/
def disconnectPeerLocks (m : Impl D) (peerId : Str) : Locks :=
  underPeerMu [] ++
    match m.peers.get? peerId with
    | none => []
    | some peer =>
        if !peer.connected then []
        else
          h.onDisconnect ++ underPeerMu [] ++ if peer.trusted then scheduleReconnectLocks else []

def dispatchLocks (m : Impl D) (peerId : Str) (msg : Json) (msgType : UInt8) : Locks :=
  if msgType = MSG_HELLO then
    let r := Impl.performHandshake P m peerId msg
    performHandshakeLocks P msg ++ if r.1 then [] else disconnectPeerLocks h r.2 peerId
  else if msgType = MSG_PING then
    sendToPeerLocks P m.tick peerId (P.dump (.pong (P.nowMs m.readings))) 3
  else if msgType = MSG_PONG then underPeerMu []
  else if msgType = MSG_GET_PEERS then
    getPeerListLocks ++
      sendToPeerLocks P m peerId (P.dump (.peers (Impl.getPeerList P m 10))) 3
  else if Impl.isHandedOn msgType then underPeerMu [] ++ h.onMessage
  else if msgType = MSG_DISCONNECT then disconnectPeerLocks h m peerId
  else []

def handleMessageLocks (m : Impl D) (peerId raw : Str) : Locks :=
  if raw.length > MAX_MESSAGE_BYTES then banPeerLocks
  else
    match P.json.parse raw with
    | none => underPeerMu []
    | some msg =>
        match (P.json.get msg (str "type")).bind P.json.asUInt8 with
        | none => []
        | some msgType => dispatchLocks P h m peerId msg msgType

/-- The block in which the limits are checked, for the peer of a message. -/
def checkLocks (m : Impl D) (peerId : Str) (msgBytes : ℕ) : Locks :=
  underPeerMu
    (match m.peers.get? peerId with
      | none => []
      | some peer => checkRateLimitLocks (P.nowSecs m.readings) peer msgBytes)

def processMessageLocks (m : Impl D) (peerId raw : Str) : Locks :=
  checkLocks P m peerId raw.length ++
    match m.peers.get? peerId with
    | none => []
    | some peer =>
        let r := Impl.checkRateLimit P m peer peerId raw.length
        if r.1 then
          handleMessageLocks P h
            (r.2.tick.modify peerId (Impl.noteReceived (P.nowSecs r.2.readings) raw)) peerId raw
        else []

def finishConnectLocks (m : Impl D) (peerId : Str) (ok : Bool) : Locks :=
  underPeerMu
    (match m.peers.get? peerId with
      | none => []
      | some _ => if ok then h.onConnect else scheduleReconnectLocks)

def connectToPeerLocks (m : Impl D) (peerId : Str) : Locks :=
  underPeerMu [] ++
    match Impl.checkConnect m peerId with
    | none => []
    | some _ =>
        let data := P.dump (.hello (P.nowMs m.readings))
        let r := Impl.sendToPeer P m.tick peerId data MAX_RETRY_ATTEMPTS
        sendToPeerLocks P m.tick peerId data MAX_RETRY_ATTEMPTS ++
          finishConnectLocks h r.2 peerId r.1

/-- The events of a turn of `connectBootstrap`. -/
def connectAddrLocks (m : Impl D) (found : Str × Int32) : Locks :=
  underPeerMu [] ++
    connectToPeerLocks P h (Impl.addBootstrap P m found.1 found.2) (Impl.bootstrapId found.1)

/-- The events of a turn of `pingAllPeers`. -/
def pingPeerLocks (now : UInt64) (m : Impl D) (peerId : Str) : Locks :=
  underPeerMu [] ++
    sendToPeerLocks P (m.modify peerId (Impl.pinged now)) peerId (P.dump (.ping now)) 1

/-- The operations of a manager: those that are public, and those of its threads. -/
inductive Operation
  | setLogger
  | onMessage
  | onConnect
  | onDisconnect
  | start
  | stop
  | connectBootstrap (bootstrap : List Str)
  | addPeer
  | removePeer
  | banPeer
  | broadcastBlock
  | broadcastTx
  | receiveRaw (peerId raw : Str)
  | peerCount
  | trustedPeerCount
  | getMetrics
  | checkRateLimit (peerId : Str) (msgBytes : ℕ)
  | sendToPeer (peerId data : Str) (maxRetries : ℕ)
  | disconnectPeer (peerId : Str)
  | scheduleReconnect
  | getPeerList
  | connectToPeer (peerId : Str)
  | evictPeers
  | unbanExpired
  | pingAllPeers
  | retryDisconnected
  | logMetrics

/-- What an operation does with the mutex. -/
def locks (m : Impl D) : Operation → Locks
  | .setLogger => []
  | .onMessage => []
  | .onConnect => []
  | .onDisconnect => []
  | .start => []
  | .stop => []
  | .connectBootstrap bootstrap =>
      each (connectAddrLocks P h) (Impl.connectAddr P) (Impl.parsedAddrs bootstrap) m
  | .addPeer => underPeerMu []
  | .removePeer => underPeerMu []
  | .banPeer => banPeerLocks
  | .broadcastBlock => underPeerMu []
  | .broadcastTx => underPeerMu []
  | .receiveRaw peerId raw => processMessageLocks P h m peerId raw
  | .peerCount => underPeerMu []
  | .trustedPeerCount => underPeerMu []
  | .getMetrics => underPeerMu []
  | .checkRateLimit peerId msgBytes => checkLocks P m peerId msgBytes
  | .sendToPeer peerId data maxRetries => sendToPeerLocks P m peerId data maxRetries
  | .disconnectPeer peerId => disconnectPeerLocks h m peerId
  | .scheduleReconnect => scheduleReconnectLocks
  | .getPeerList => getPeerListLocks
  | .connectToPeer peerId => connectToPeerLocks P h m peerId
  | .evictPeers => underPeerMu []
  | .unbanExpired => underPeerMu []
  | .pingAllPeers =>
      underPeerMu [] ++ each (pingPeerLocks P (P.nowMs (m.readings + 1)))
        (Impl.pingPeer P (P.nowMs (m.readings + 1))) (Impl.toPing P m) m.tick.tick
  | .retryDisconnected =>
      underPeerMu [] ++
        each (connectToPeerLocks P h) (Impl.connectToPeer P) (Impl.toRetry P m) m.tick
  | .logMetrics => underPeerMu []

/-! ### When they do not wait for themselves -/

/-- All attempts to send throw. -/
def SendFails (m : Impl D) (maxRetries : ℕ) : Prop :=
  ∀ k ≤ maxRetries, P.sendThrows (m.attempts + k) = true

/-- A send gets through, or its failure is not one too many. -/
def SendSafe (m : Impl D) (peerId : Str) (maxRetries : ℕ) : Prop :=
  SendFails P m maxRetries → Impl.sendBans m peerId = false

/-- A message within the limits, or a violation that is not one too many. -/
def CheckSafe (m : Impl D) (peerId : Str) (msgBytes : ℕ) : Prop :=
  ∀ peer, m.peers.get? peerId = some peer →
    Impl.exceeds (Impl.renewed (P.nowSecs m.readings) peer) msgBytes = true →
      peer.violations + 1 < 10 ∨ peer.trusted = true

/-- A message that is answered. -/
def AsksReply (raw : Str) : Prop :=
  raw.length ≤ MAX_MESSAGE_BYTES ∧ ∃ msg, P.json.parse raw = some msg ∧
    ∃ msgType, (P.json.get msg (str "type")).bind P.json.asUInt8 = some msgType ∧
      (msgType = MSG_PING ∨ msgType = MSG_GET_PEERS)

/-- The limits are kept or the violation is not one too many, and an answer can be sent. -/
def ProcessSafe (m : Impl D) (peerId raw : Str) : Prop :=
  CheckSafe P m peerId raw.length ∧
    ∀ peer, m.peers.get? peerId = some peer →
      Impl.exceeds (Impl.renewed (P.nowSecs m.readings) peer) raw.length = false →
        AsksReply P raw → SendSafe P m peerId 3

/-- A peer that may be connected to can be sent to, and the handler does not ask for the mutex. -/
def ConnectSafe (m : Impl D) (peerId : Str) : Prop :=
  (Impl.checkConnect m peerId).isSome = true →
    ¬ SendFails P m MAX_RETRY_ATTEMPTS ∧ Disciplined [.peerMu] h.onConnect

/-- **When an operation does not wait for itself.** -/
def Safe (m : Impl D) : Operation → Prop
  | .connectBootstrap bootstrap =>
      EachMeets (fun m found => ConnectSafe P h (Impl.addBootstrap P m found.1 found.2)
        (Impl.bootstrapId found.1)) (Impl.connectAddr P) (Impl.parsedAddrs bootstrap) m
  | .receiveRaw peerId raw => ProcessSafe P m peerId raw
  | .checkRateLimit peerId msgBytes => CheckSafe P m peerId msgBytes
  | .sendToPeer peerId _ maxRetries => SendSafe P m peerId maxRetries
  | .connectToPeer peerId => ConnectSafe P h m peerId
  | .pingAllPeers =>
      EachMeets (fun m peerId => SendSafe P m peerId 1)
        (Impl.pingPeer P (P.nowMs (m.readings + 1))) (Impl.toPing P m) m.tick.tick
  | .retryDisconnected =>
      EachMeets (ConnectSafe P h) (Impl.connectToPeer P) (Impl.toRetry P m) m.tick
  | _ => True

/-! ### Sending -/

variable {P h} {m : Impl D} {peerId : Str}

theorem requires_block : Requires (underPeerMu []) True := Requires.block Mutex.peerMu

theorem not_disciplined_banPeerLocks : ¬ Disciplined [.peerMu] banPeerLocks :=
  not_disciplined_locked_self

/-- **When no attempt gets through.** -/
theorem sendAttempts_fst_iff (data : Str) (n : ℕ) (m : Impl D) :
    (Impl.sendAttempts P peerId data n m).1 = false ↔
      ∀ k < n, P.sendThrows (m.attempts + k) = true := by
  induction n generalizing m with
  | zero => exact iff_of_true rfl fun k hk => absurd hk (Nat.not_lt_zero k)
  | succ n ih =>
      rw [Impl.sendAttempts]
      by_cases hthrows : P.sendThrows m.attempts = true
      · rw [if_pos hthrows, ih, Nat.forall_lt_succ_left']
        simp only [Nat.add_zero, hthrows, true_and, Nat.add_right_comm, Nat.add_assoc]
      · rw [if_neg hthrows]
        refine iff_of_false (fun heq => Bool.noConfusion heq) fun hall => hthrows ?_
        exact hall 0 n.succ_pos

theorem peers_sendAttempts (data : Str) {n : ℕ} {m : Impl D}
    (hfails : (Impl.sendAttempts P peerId data n m).1 = false) :
    (Impl.sendAttempts P peerId data n m).2.peers = m.peers := by
  induction n generalizing m with
  | zero => rfl
  | succ n ih =>
      rw [Impl.sendAttempts] at hfails ⊢
      split at hfails
      · next hthrows =>
          rw [if_pos hthrows]
          exact ih hfails
      · exact Bool.noConfusion hfails

theorem sendFails_iff (m : Impl D) (peerId data : Str) (maxRetries : ℕ) :
    (Impl.sendAttempts P peerId data (maxRetries + 1) m).1 = false ↔
      SendFails P m maxRetries := by
  rw [sendAttempts_fst_iff, SendFails]
  simp only [Nat.lt_succ_iff]

/-- **What a send requires.** -/
theorem requires_sendToPeer (m : Impl D) (peerId data : Str) (maxRetries : ℕ) :
    Requires (sendToPeerLocks P m peerId data maxRetries) (SendSafe P m peerId maxRetries) := by
  have hfails := sendFails_iff (P := P) m peerId data maxRetries
  rw [sendToPeerLocks, SendSafe, ← hfails]
  cases hsent : (Impl.sendAttempts P peerId data (maxRetries + 1) m).1 with
  | true => exact requires_block.congr (iff_of_true trivial fun hfalse => Bool.noConfusion hfalse)
  | false =>
      have hsame : Impl.sendBans (Impl.sendAttempts P peerId data (maxRetries + 1) m).2 peerId =
          Impl.sendBans m peerId := by
        rw [Impl.sendBans, peers_sendAttempts data hsent, Impl.sendBans]
      simp only [hsame, Bool.false_eq_true, if_false, true_imp_iff]
      cases Impl.sendBans m peerId with
      | false => exact requires_block.congr (iff_of_true trivial rfl)
      | true =>
          refine (Requires.locked requires_block.balanced).congr (iff_of_false ?_ nofun)
          exact not_disciplined_banPeerLocks

/-! ### Receiving -/

theorem requires_disconnectPeer (m : Impl D) (peerId : Str) :
    Requires (disconnectPeerLocks h m peerId) True := by
  rw [disconnectPeerLocks]
  refine requires_block.append_true ?_
  cases m.peers.get? peerId with
  | none => exact Requires.nil
  | some peer =>
      dsimp only
      split
      · exact Requires.nil
      · refine (h.disconnect.append_true requires_block).append_true ?_
        split
        · exact requires_block
        · exact Requires.nil

theorem requires_performHandshake (hello : Json) :
    Requires (performHandshakeLocks P hello) True := by
  rw [performHandshakeLocks]
  split
  · split
    · split
      · exact requires_block
      · exact Requires.nil
    · exact Requires.nil
  · exact Requires.nil

theorem requires_dispatch (m : Impl D) (peerId : Str) (msg : Json) (msgType : UInt8) :
    Requires (dispatchLocks P h m peerId msg msgType)
      (msgType = MSG_PING ∨ msgType = MSG_GET_PEERS → SendSafe P m peerId 3) := by
  have hother {es : Locks} (hes : Requires es True) (hping : msgType ≠ MSG_PING)
      (hpeers : msgType ≠ MSG_GET_PEERS) :
      Requires es (msgType = MSG_PING ∨ msgType = MSG_GET_PEERS → SendSafe P m peerId 3) :=
    hes.congr (iff_of_true trivial fun hor => (hor.elim hping hpeers).elim)
  rw [dispatchLocks]
  split
  · next hhello =>
      refine hother ((requires_performHandshake msg).append_true ?_) (by rw [hhello]; decide)
        (by rw [hhello]; decide)
      split
      · exact Requires.nil
      · exact requires_disconnectPeer _ _
  split
  · next hping =>
      exact (requires_sendToPeer m.tick peerId _ 3).congr
        ⟨fun hsafe _ => hsafe, fun hsafe => hsafe (.inl hping)⟩
  next hping =>
  split
  · next hpong => exact hother requires_block hping (by rw [hpong]; decide)
  split
  · next hpeers =>
      exact (requires_block.append_true (requires_sendToPeer m peerId _ 3)).congr
        ⟨fun hsafe _ => hsafe, fun hsafe => hsafe (.inr hpeers)⟩
  next hpeers =>
  split
  · exact hother (requires_block.append_true h.message) hping hpeers
  split
  · exact hother (requires_disconnectPeer m peerId) hping hpeers
  · exact hother Requires.nil hping hpeers

theorem requires_handleMessage (m : Impl D) (peerId raw : Str) :
    Requires (handleMessageLocks P h m peerId raw) (AsksReply P raw → SendSafe P m peerId 3) := by
  rw [handleMessageLocks]
  split
  · next hlarge =>
      exact requires_block.congr (iff_of_true trivial fun hasks => absurd hasks.1 hlarge.not_ge)
  next hsize =>
  cases hparse : P.json.parse raw with
  | none =>
      refine requires_block.congr (iff_of_true trivial fun hasks => ?_)
      obtain ⟨-, msg, hmsg, -⟩ := hasks
      exact nomatch hparse.symm.trans hmsg
  | some msg =>
      dsimp only
      cases htype : (P.json.get msg (str "type")).bind P.json.asUInt8 with
      | none =>
          refine Requires.nil.congr (iff_of_true trivial fun hasks => ?_)
          obtain ⟨-, msg', hmsg, msgType, hmsgType, -⟩ := hasks
          obtain rfl := Option.some.inj (hparse.symm.trans hmsg)
          exact nomatch htype.symm.trans hmsgType
      | some msgType =>
          refine (requires_dispatch m peerId msg msgType).congr ⟨fun hsafe hasks => ?_, ?_⟩
          · obtain ⟨-, msg', hmsg, msgType', hmsgType, hanswer⟩ := hasks
            obtain rfl := Option.some.inj (hparse.symm.trans hmsg)
            obtain rfl := Option.some.inj (htype.symm.trans hmsgType)
            exact hsafe hanswer
          · exact fun hsafe hanswer =>
              hsafe ⟨not_lt.1 hsize, msg, hparse, msgType, htype, hanswer⟩

theorem renewed_eq (now : UInt64) (peer : PeerState D) :
    (Impl.renewed now peer).trusted = peer.trusted ∧
      (Impl.renewed now peer).violations = peer.violations := by
  rw [Impl.renewed]
  split <;> exact ⟨rfl, rfl⟩

/-- **What the check of the limits requires.** -/
theorem requires_check (m : Impl D) (peerId : Str) (msgBytes : ℕ) :
    Requires (checkLocks P m peerId msgBytes) (CheckSafe P m peerId msgBytes) := by
  rw [checkLocks, CheckSafe]
  cases m.peers.get? peerId with
  | none => exact requires_block.congr (iff_of_true trivial fun _ hpeer => nomatch hpeer)
  | some peer =>
      obtain ⟨htrusted, hviolations⟩ := renewed_eq (P.nowSecs m.readings) peer
      simp only [Option.some.injEq, forall_eq', checkRateLimitLocks, Impl.violated, htrusted,
        hviolations]
      cases Impl.exceeds (Impl.renewed (P.nowSecs m.readings) peer) msgBytes with
      | false =>
          exact requires_block.congr (iff_of_true trivial fun hfalse => Bool.noConfusion hfalse)
      | true =>
          simp only [if_true, true_imp_iff]
          split
          · next hban =>
              rw [Bool.and_eq_true, decide_eq_true_iff, Bool.not_eq_true'] at hban
              refine (Requires.locked requires_block.balanced).congr (iff_of_false ?_ ?_)
              · exact not_disciplined_banPeerLocks
              · rintro (hfew | htrust)
                · exact absurd hban.1 (UInt64.not_le.2 hfew)
                · exact Bool.noConfusion (hban.2.symm.trans htrust)
          · next hban =>
              refine requires_block.congr (iff_of_true trivial ?_)
              by_contra hor
              rw [not_or, UInt64.not_lt, Bool.not_eq_true] at hor
              refine hban ?_
              rw [Bool.and_eq_true, decide_eq_true_iff, Bool.not_eq_true']
              exact hor

/-- **What a message requires.** -/
theorem requires_processMessage (m : Impl D) (peerId raw : Str) :
    Requires (processMessageLocks P h m peerId raw) (ProcessSafe P m peerId raw) := by
  rw [processMessageLocks, ProcessSafe]
  refine (requires_check m peerId raw.length).append ?_
  cases hpeer : m.peers.get? peerId with
  | none => exact Requires.nil.congr (iff_of_true trivial fun _ hnone => nomatch hnone)
  | some peer =>
      obtain ⟨htrusted, hviolations⟩ := renewed_eq (P.nowSecs m.readings) peer
      simp only [Option.some.injEq, forall_eq', Impl.checkRateLimit]
      cases Impl.exceeds (Impl.renewed (P.nowSecs m.readings) peer) raw.length with
      | true => exact Requires.nil.congr (iff_of_true trivial fun htrue => Bool.noConfusion htrue)
      | false =>
          simp only [Bool.false_eq_true, if_false, if_true, true_imp_iff]
          refine (requires_handleMessage _ peerId raw).congr (imp_congr_right fun _ => ?_)
          rw [SendSafe, SendSafe]
          -- what is noted on the way changes neither the violations nor the trust
          simp only [Impl.modify, Impl.tick, Js.Map.get?_set_self, SendFails, Impl.sendBans,
            Option.any_some, Impl.noteReceived, Impl.counted, Impl.violated, htrusted, hviolations,
            hpeer]
          exact Iff.rfl

/-! ### Connecting -/

theorem has_modify (m : Impl D) (id peerId : Str) (f : PeerState D → PeerState D) :
    (m.modify id f).peers.has peerId = m.peers.has peerId := by
  rw [Impl.modify]
  cases hpeer : m.peers.get? id with
  | none => rfl
  | some peer => exact Js.Map.has_set_of_get? hpeer (f peer) peerId

theorem has_banPeer (m : Impl D) (id peerId : Str) :
    (Impl.banPeer P m id).peers.has peerId = m.peers.has peerId := by
  rw [Impl.banPeer]
  split
  · rfl
  split
  · rfl
  · exact has_modify m.tick id peerId _

theorem has_sendAttempts (id data : Str) (n : ℕ) (m : Impl D) :
    (Impl.sendAttempts P id data n m).2.peers.has peerId = m.peers.has peerId := by
  induction n generalizing m with
  | zero => rfl
  | succ n ih =>
      rw [Impl.sendAttempts]
      split
      · exact ih { m with attempts := m.attempts + 1 }
      · exact has_modify { m with attempts := m.attempts + 1 } id peerId _

theorem has_sendToPeer (m : Impl D) (id data : Str) (maxRetries : ℕ) (peerId : Str) :
    (Impl.sendToPeer P m id data maxRetries).2.peers.has peerId = m.peers.has peerId := by
  rw [Impl.sendToPeer]
  split
  · exact has_sendAttempts id data _ m
  · refine Eq.trans ?_ (has_sendAttempts (P := P) id data (maxRetries + 1) m)
    dsimp only
    rw [Impl.sendFailed]
    split
    · exact (has_banPeer _ id peerId).trans (has_modify _ id peerId _)
    · exact has_modify _ id peerId _

theorem sendToPeer_fst (m : Impl D) (peerId data : Str) (maxRetries : ℕ) :
    (Impl.sendToPeer P m peerId data maxRetries).1 = false ↔ SendFails P m maxRetries := by
  rw [← sendFails_iff m peerId data maxRetries, Impl.sendToPeer]
  cases hsent : (Impl.sendAttempts P peerId data (maxRetries + 1) m).1 with
  | true => simp [hsent]
  | false => simp

theorem has_of_checkConnect (hcheck : (Impl.checkConnect m peerId).isSome = true) :
    m.peers.has peerId = true := by
  rw [Impl.checkConnect] at hcheck
  rw [Js.Map.has]
  cases hpeer : m.peers.get? peerId with
  | none =>
      rw [hpeer] at hcheck
      exact Bool.noConfusion hcheck
  | some peer => rfl

theorem requires_finishConnect (ok : Bool) (hhas : m.peers.has peerId = true) :
    Requires (finishConnectLocks h m peerId ok)
      (ok = true ∧ Disciplined [.peerMu] h.onConnect) := by
  obtain ⟨peer, hpeer⟩ := Option.isSome_iff_exists.1 hhas
  rw [finishConnectLocks, hpeer]
  cases ok with
  | true => exact (Requires.locked h.connect).congr (and_iff_right rfl).symm
  | false =>
      refine (Requires.locked requires_block.balanced).congr (iff_of_false ?_ nofun)
      exact not_disciplined_locked_self

/-- **What a connect requires.** -/
theorem requires_connectToPeer (m : Impl D) (peerId : Str) :
    Requires (connectToPeerLocks P h m peerId) (ConnectSafe P h m peerId) := by
  rw [connectToPeerLocks, ConnectSafe]
  refine requires_block.append_true ?_
  cases hcheck : Impl.checkConnect m peerId with
  | none => exact Requires.nil.congr (iff_of_true trivial fun hnone => Bool.noConfusion hnone)
  | some found =>
      have hhas : m.peers.has peerId = true := has_of_checkConnect (by rw [hcheck]; rfl)
      generalize P.dump (.hello (P.nowMs m.readings)) = data
      have hfst := sendToPeer_fst (P := P) m.tick peerId data MAX_RETRY_ATTEMPTS
      have hfinish := requires_finishConnect (h := h)
        (Impl.sendToPeer P m.tick peerId data MAX_RETRY_ATTEMPTS).1
        ((has_sendToPeer (P := P) m.tick peerId data MAX_RETRY_ATTEMPTS peerId).trans hhas)
      refine ((requires_sendToPeer m.tick peerId data MAX_RETRY_ATTEMPTS).append hfinish).congr ?_
      rw [← Bool.not_eq_false, hfst]
      constructor
      · exact fun hsafe _ => hsafe.2
      · intro hsafe
        obtain ⟨hsends, hconnect⟩ := hsafe rfl
        exact ⟨fun hfails => absurd hfails hsends, hsends, hconnect⟩

/-! ### Every operation -/

theorem attempts_modify (m : Impl D) (id : Str) (f : PeerState D → PeerState D) :
    (m.modify id f).attempts = m.attempts := by
  rw [Impl.modify]
  cases m.peers.get? id <;> rfl

theorem sendBans_modify (m : Impl D) (peerId : Str) {f : PeerState D → PeerState D}
    (hf : ∀ peer, (f peer).violations = peer.violations ∧ (f peer).trusted = peer.trusted) :
    Impl.sendBans (m.modify peerId f) peerId = Impl.sendBans m peerId := by
  rw [Impl.modify, Impl.sendBans, Impl.sendBans]
  cases hpeer : m.peers.get? peerId with
  | none => rw [hpeer]
  | some peer =>
      have hviolations : (Impl.violated (f peer)).violations = (Impl.violated peer).violations :=
        congrArg (· + 1) (hf peer).1
      dsimp only
      rw [Js.Map.get?_set_self, Option.any_some, Option.any_some, hviolations, (hf peer).2]

/-- **What an operation requires.** -/
theorem requires_locks (P : Platform D Json) (h : Handlers) (m : Impl D) (op : Operation) :
    Requires (locks P h m op) (Safe P h m op) := by
  cases op with
  | setLogger => exact Requires.nil
  | onMessage => exact Requires.nil
  | onConnect => exact Requires.nil
  | onDisconnect => exact Requires.nil
  | start => exact Requires.nil
  | stop => exact Requires.nil
  | connectBootstrap bootstrap =>
      exact Requires.each (fun m found => requires_block.append_true (requires_connectToPeer _ _))
        _ m
  | addPeer => exact requires_block
  | removePeer => exact requires_block
  | banPeer => exact requires_block
  | broadcastBlock => exact requires_block
  | broadcastTx => exact requires_block
  | receiveRaw peerId raw => exact requires_processMessage m peerId raw
  | peerCount => exact requires_block
  | trustedPeerCount => exact requires_block
  | getMetrics => exact requires_block
  | checkRateLimit peerId msgBytes => exact requires_check m peerId msgBytes
  | sendToPeer peerId data maxRetries => exact requires_sendToPeer m peerId data maxRetries
  | disconnectPeer peerId => exact requires_disconnectPeer m peerId
  | scheduleReconnect => exact requires_block
  | getPeerList => exact requires_block
  | connectToPeer peerId => exact requires_connectToPeer m peerId
  | evictPeers => exact requires_block
  | unbanExpired => exact requires_block
  | pingAllPeers =>
      refine requires_block.append_true (Requires.each (fun m peerId => ?_) _ _)
      refine requires_block.append_true ((requires_sendToPeer _ _ _ _).congr ?_)
      rw [SendSafe, sendBans_modify m peerId (f := Impl.pinged _) fun _ => ⟨rfl, rfl⟩, SendSafe,
        SendFails, SendFails, attempts_modify]
  | retryDisconnected =>
      exact requires_block.append_true
        (Requires.each (fun m peerId => requires_connectToPeer m peerId) _ _)
  | logMetrics => exact requires_block

end NetManager
