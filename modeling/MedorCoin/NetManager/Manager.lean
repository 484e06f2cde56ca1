/-
**The network manager.**

The manager has a record for each peer that it was told of, and it counts the connections of each
host.  The functions below are what its calls do to the records.  What a thread does with the
mutexes on the way, and where it would wait for itself, is not part of them.

`double` and the JSON values are any types with the operations that are used.  The counters of the
metrics, the texts of the log and the queue of the broadcast threads are left out.  The handlers are
taken to leave the records alone.

Main definitions:

* `NetManager.PeerState`, `NetManager.Impl` — a record; the records and the counts;
* `NetManager.Platform` — the clocks, the order of a walk through the records, `double`, JSON, and
  what a send runs into;
* `Impl.checkRateLimit`, `Impl.banPeer`, `Impl.performHandshake`, `Impl.processMessage`,
  `Impl.sendToPeer`, `Impl.disconnectPeer`, `Impl.scheduleReconnect`, `Impl.evictPeers`,
  `Impl.unbanExpired`, `Impl.pingAllPeers`, `Impl.retryDisconnected`, `Impl.connectToPeer`;
* `Impl.connectBootstrap`, `Impl.addPeer`, `Impl.removePeer`.
-/

import MedorCoin.Cpp.Numbers
import MedorCoin.Cpp.Text
import MedorCoin.Js.Map

set_option autoImplicit false

namespace NetManager

open Cpp

/-! ### Constants -/

def PROTOCOL_VERSION : Int32 := 1

def MIN_PROTOCOL_VERSION : Int32 := 1

def MAX_MESSAGE_BYTES : ℕ := 32 * 1024 * 1024

def MAX_PEERS : ℕ := 1000

def MAX_PEERS_PER_IP : ℕ := 5

def MAX_RETRY_ATTEMPTS : ℕ := 5

def INITIAL_RETRY_DELAY_MS : Int32 := 1000

def MAX_RETRY_DELAY_MS : Int32 := 60000

def MAX_MESSAGES_PER_SEC : UInt64 := 100

def MAX_BYTES_PER_SEC : UInt64 := 10 * 1024 * 1024

def BAN_DURATION_SECS : UInt64 := 3600

def MAX_BAN_SECS : UInt64 := 86400

def MSG_HELLO : UInt8 := 0

def MSG_DISCONNECT : UInt8 := 1

def MSG_PING : UInt8 := 2

def MSG_PONG : UInt8 := 3

def MSG_GET_PEERS : UInt8 := 4

def MSG_NEW_BLOCK : UInt8 := 6

def MSG_BLOCKS : UInt8 := 8

def MSG_NEW_TX : UInt8 := 9

def MSG_TXS : UInt8 := 11

def MSG_STATUS : UInt8 := 12

def MSG_RECEIPTS : UInt8 := 14

/-- The chain id of every manager. -/
def chainId : Int32 := 1337

/-! ### Data -/

/-- `struct PeerState`. -/
structure PeerState (D : Type) where
  id : Str
  host : Str
  port : Int32 := 30303
  trusted : Bool := false
  priority : Int32 := 2
  region : Str := []
  connected : Bool := false
  banned : Bool := false
  banCount : Int32 := 0
  bannedUntil : UInt64 := 0
  connectedAt : UInt64 := 0
  lastSeen : UInt64 := 0
  lastPing : UInt64 := 0
  lastPong : UInt64 := 0
  retryCount : Int32 := 0
  retryDelayMs : Int32 := INITIAL_RETRY_DELAY_MS
  nextRetryAt : UInt64 := 0
  latencyMs : D
  bytesReceived : UInt64 := 0
  bytesSent : UInt64 := 0
  blocksRelayed : UInt64 := 0
  txsRelayed : UInt64 := 0
  violations : UInt64 := 0
  score : D
  msgThisSecond : UInt64 := 0
  bytesThisSec : UInt64 := 0
  ratePeriodStart : UInt64 := 0
  tags : List Str := []

/-- What is sent by the manager itself. -/
inductive Reply
  | hello (timestamp : UInt64)
  | ping (timestamp : UInt64)
  | pong (timestamp : UInt64)
  | peers (list : List (Str × Str × Int32 × Str))

/-- What is asked of a JSON value; `none` where the library throws. -/
structure Parser (Json : Type) where
  parse : Str → Option Json
  /-- The member of an object, if the value is one and has it. -/
  get : Json → Str → Option Json
  asUInt8 : Json → Option UInt8
  asInt : Json → Option Int32
  asString : Json → Option Str

/-- What the manager runs on.  The clocks are read by the number of the reading, and attempts to
send are numbered as well. -/
structure Platform (D Json : Type) where
  double : Double D
  json : Parser Json
  dump : Reply → Str
  nowSecs : ℕ → UInt64
  nowMs : ℕ → UInt64
  /-- An attempt to send ends with an exception. -/
  sendThrows : ℕ → Bool
  order : List (Str × PeerState D) → List (Str × PeerState D)
  order_perm : ∀ l, (order l).Perm l

/-- The records and the counts, and how often the clocks were read and something was sent. -/
structure Impl (D : Type) where
  peers : Js.Map Str (PeerState D) := Js.Map.empty
  ipConnectionCount : Js.Map Str ℤ := Js.Map.empty
  bannedIps : List Str := []
  readings : ℕ := 0
  attempts : ℕ := 0

/-- An `int` as a `size_t`. -/
def toSizeT (n : ℤ) : ℕ := (n % 2 ^ 64).toNat

/-- `std::stoi(s)`; `none` where it throws. -/
def stoi (s : Str) : Option Int32 :=
  let text := s.dropWhile isSpace
  let unsigned := if text.head? == some 45 || text.head? == some 43 then text.tail else text
  let digits := unsigned.takeWhile isDigit
  let value : ℤ := if text.head? == some 45 then -digitsValue digits else digitsValue digits
  if digits = [] then none
  else if -2 ^ 31 ≤ value ∧ value < 2 ^ 31 then some (Int32.ofInt value)
  else none

section

variable {D Json : Type}

/-- A new record. -/
def PeerState.new (double : Double D) (id host : Str) : PeerState D where
  id := id
  host := host
  latencyMs := double.lit 0
  score := double.lit 1

/-- `computeScore()`. -/
def PeerState.computeScore (double : Double D) (peer : PeerState D) : D :=
  let uptime := if peer.connectedAt > 0 then
      double.min (double.lit 1) (double.div (double.ofUInt64 (peer.lastSeen - peer.connectedAt))
        (double.lit 86400))
    else double.lit 0
  let latScore := if double.less (double.lit 0) peer.latencyMs then
      double.max (double.lit 0)
        (double.sub (double.lit 1) (double.div peer.latencyMs (double.lit 500)))
    else double.lit (1 / 2)
  let bwScore := if peer.bytesSent > 0 then
      double.min (double.lit 1)
        (double.div (double.ofUInt64 peer.bytesSent) (double.lit (100 * 1024 * 1024)))
    else double.lit 0
  let relayScore := if peer.blocksRelayed > 0 then
      double.min (double.lit 1)
        (double.div (double.ofUInt64 peer.blocksRelayed) (double.lit 1000))
    else double.lit 0
  double.add (double.add (double.add (double.mul (double.lit (3 / 10)) uptime)
    (double.mul (double.lit (3 / 10)) latScore)) (double.mul (double.lit (1 / 5)) bwScore))
    (double.mul (double.lit (1 / 5)) relayScore)

/-- Changes a record, if there is one. -/
def Impl.modify (m : Impl D) (peerId : Str) (f : PeerState D → PeerState D) : Impl D :=
  match m.peers.get? peerId with
  | none => m
  | some peer => { m with peers := m.peers.set peerId (f peer) }

/-- Reads the clock. -/
def Impl.tick (m : Impl D) : Impl D := { m with readings := m.readings + 1 }

end

/-! ### The calls -/

namespace Impl

variable {D Json : Type} (P : Platform D Json)

/-- The ban itself. -/
def banned (now : UInt64) (peer : PeerState D) : PeerState D :=
  let banCount := peer.banCount + 1
  let duration := min (BAN_DURATION_SECS * banCount.toInt64.toUInt64) MAX_BAN_SECS
  { peer with
    banCount := banCount, banned := true, bannedUntil := now + duration, connected := false }

/-- `banPeer(peerId, reason)`. -/
def banPeer (m : Impl D) (peerId : Str) : Impl D :=
  match m.peers.get? peerId with
  | none => m
  | some peer =>
      if peer.trusted then m
      else m.tick.modify peerId (banned (P.nowSecs m.readings))

/-- A new period of the limits begins with every second. -/
def renewed (now : UInt64) (peer : PeerState D) : PeerState D :=
  if now ≠ peer.ratePeriodStart then
    { peer with ratePeriodStart := now, msgThisSecond := 0, bytesThisSec := 0 }
  else peer

/-- A limit is exceeded. -/
def exceeds (peer : PeerState D) (msgBytes : ℕ) : Bool :=
  let msgLimit := if peer.trusted then MAX_MESSAGES_PER_SEC * 2 else MAX_MESSAGES_PER_SEC
  let byteLimit := if peer.trusted then MAX_BYTES_PER_SEC * 2 else MAX_BYTES_PER_SEC
  peer.msgThisSecond ≥ msgLimit || peer.bytesThisSec + UInt64.ofNat msgBytes > byteLimit

/-- What is noted of a message that is let through. -/
def counted (msgBytes : ℕ) (peer : PeerState D) : PeerState D :=
  { peer with
    msgThisSecond := peer.msgThisSecond + 1
    bytesThisSec := peer.bytesThisSec + UInt64.ofNat msgBytes }

/-- One violation more. -/
def violated (peer : PeerState D) : PeerState D := { peer with violations := peer.violations + 1 }

/-- `checkRateLimit(peer, msgBytes)` of the record with this id. -/
def checkRateLimit (m : Impl D) (peer : PeerState D) (peerId : Str) (msgBytes : ℕ) :
    Bool × Impl D :=
  let now := P.nowSecs m.readings
  let m := m.tick
  let peer := renewed now peer
  if exceeds peer msgBytes then
    let peer := violated peer
    let m := { m with peers := m.peers.set peerId peer }
    (false, if peer.violations ≥ 10 && !peer.trusted then banPeer P m peer.id else m)
  else (true, { m with peers := m.peers.set peerId (counted msgBytes peer) })

/-- `performHandshake(peerId, hello)`. -/
def performHandshake (m : Impl D) (peerId : Str) (hello : Json) : Bool × Impl D :=
  match P.json.get hello (str "chainId"), P.json.get hello (str "protocolVersion"),
      P.json.get hello (str "network") with
  | some peerChainId, some peerProto, some peerNet =>
      match P.json.asInt peerChainId, P.json.asInt peerProto, P.json.asString peerNet with
      | some peerChainId, some peerProto, some peerNet =>
          if peerChainId ≠ chainId then (false, banPeer P m peerId)
          else if peerProto < MIN_PROTOCOL_VERSION || peerProto > PROTOCOL_VERSION then (false, m)
          else if peerNet ≠ str "mainnet" then (false, m)
          else (true, m)
      | _, _, _ => (false, m)
  | _, _, _ => (false, m)

/-- What is noted of something sent. -/
def noteSent (data : Str) (peer : PeerState D) : PeerState D :=
  { peer with bytesSent := peer.bytesSent + UInt64.ofNat data.length }

/-- The attempts to send, as many as are left. -/
def sendAttempts (peerId data : Str) : ℕ → Impl D → Bool × Impl D
  | 0, m => (false, m)
  | n + 1, m =>
      let next := { m with attempts := m.attempts + 1 }
      if P.sendThrows m.attempts then sendAttempts peerId data n next
      else (true, next.modify peerId (noteSent data))

/-- A failure to send is one too many. -/
def sendBans (m : Impl D) (peerId : Str) : Bool :=
  (m.peers.get? peerId).any fun peer => (violated peer).violations ≥ 5 && !peer.trusted

/-- What follows when all attempts have failed. -/
def sendFailed (m : Impl D) (peerId : Str) : Impl D :=
  let next := m.modify peerId violated
  if sendBans m peerId then banPeer P next peerId else next

/-- `sendToPeer(peerId, data, maxRetries)`. -/
def sendToPeer (m : Impl D) (peerId data : Str) (maxRetries : ℕ) : Bool × Impl D :=
  let r := sendAttempts P peerId data (maxRetries + 1) m
  if r.1 then r else (false, sendFailed P r.2 peerId)

/-- The next attempt to reconnect, and the delay after it. -/
def rescheduled (now : UInt64) (peer : PeerState D) : PeerState D :=
  { peer with
    nextRetryAt := now + (peer.retryDelayMs / 1000).toInt64.toUInt64
    retryDelayMs := min (peer.retryDelayMs * 2) MAX_RETRY_DELAY_MS
    retryCount := peer.retryCount + 1 }

/-- `scheduleReconnect(peerId)`. -/
def scheduleReconnect (m : Impl D) (peerId : Str) : Impl D :=
  match m.peers.get? peerId with
  | none => m
  | some peer =>
      if peer.retryCount ≥ Int32.ofNat MAX_RETRY_ATTEMPTS then
        m.modify peerId fun peer =>
          { peer with retryCount := 0, retryDelayMs := INITIAL_RETRY_DELAY_MS }
      else m.tick.modify peerId (rescheduled (P.nowSecs m.readings))

/-- The connection is given up in the record. -/
def unlinked (peer : PeerState D) : PeerState D := { peer with connected := false }

/-- `disconnectPeer(peerId, reason)`. -/
def disconnectPeer (m : Impl D) (peerId : Str) : Impl D :=
  match m.peers.get? peerId with
  | none => m
  | some peer =>
      if !peer.connected then m
      else
        let m := m.modify peerId unlinked
        match m.peers.get? peerId with
        | none => m
        | some peer => if peer.trusted then scheduleReconnect P m peerId else m

/-- `getPeerList(maxCount)`. -/
def getPeerList (m : Impl D) (maxCount : ℕ) : List (Str × Str × Int32 × Str) :=
  (((P.order m.peers.entries).filter fun e => e.2.connected).take maxCount).map fun e =>
    (e.2.id, e.2.host, e.2.port, e.2.region)

/-- What is noted of a message that passed the limits. -/
def noteReceived (now : UInt64) (raw : Str) (peer : PeerState D) : PeerState D :=
  { peer with
    lastSeen := now, bytesReceived := peer.bytesReceived + UInt64.ofNat raw.length }

/-- What is noted of a pong. -/
def noteLatency (now : UInt64) (peer : PeerState D) : PeerState D :=
  let sent := peer.lastPing
  let peer := { peer with lastPong := now }
  let peer := if sent > 0 then { peer with latencyMs := P.double.ofUInt64 (now - sent) } else peer
  { peer with score := peer.computeScore P.double }

/-- What is noted of a message that is handed on. -/
def noteRelayed (msgType : UInt8) (peer : PeerState D) : PeerState D :=
  if msgType = MSG_NEW_BLOCK ∨ msgType = MSG_BLOCKS then
    { peer with blocksRelayed := peer.blocksRelayed + 1 }
  else if msgType = MSG_NEW_TX ∨ msgType = MSG_TXS then
    { peer with txsRelayed := peer.txsRelayed + 1 }
  else peer

/-- The messages that are handed to `messageHandler`. -/
def isHandedOn (msgType : UInt8) : Bool :=
  msgType ∈ [MSG_NEW_BLOCK, MSG_NEW_TX, MSG_BLOCKS, MSG_TXS, MSG_STATUS, MSG_RECEIPTS]

/-- The dispatch by type. -/
def dispatch (m : Impl D) (peerId : Str) (msg : Json) (msgType : UInt8) : Impl D :=
  if msgType = MSG_HELLO then
    let r := performHandshake P m peerId msg
    if r.1 then r.2 else disconnectPeer P r.2 peerId
  else if msgType = MSG_PING then
    (sendToPeer P m.tick peerId (P.dump (.pong (P.nowMs m.readings))) 3).2
  else if msgType = MSG_PONG then
    m.tick.modify peerId (noteLatency P (P.nowMs m.readings))
  else if msgType = MSG_GET_PEERS then
    (sendToPeer P m peerId (P.dump (.peers (getPeerList P m 10))) 3).2
  else if isHandedOn msgType then m.modify peerId (noteRelayed msgType)
  else if msgType = MSG_DISCONNECT then disconnectPeer P m peerId
  else m

/-- What follows on the check of the limits. -/
def handleMessage (m : Impl D) (peerId raw : Str) : Impl D :=
  if raw.length > MAX_MESSAGE_BYTES then banPeer P m peerId
  else
    match P.json.parse raw with
    | none => m.modify peerId violated
    | some msg =>
        match (P.json.get msg (str "type")).bind P.json.asUInt8 with
        | none => m
        | some msgType => dispatch P m peerId msg msgType

/-- `processMessage(peerId, raw)`. -/
def processMessage (m : Impl D) (peerId raw : Str) : Impl D :=
  match m.peers.get? peerId with
  | none => m
  | some peer =>
      let r := checkRateLimit P m peer peerId raw.length
      if r.1 then
        handleMessage P (r.2.tick.modify peerId (noteReceived (P.nowSecs r.2.readings) raw))
          peerId raw
      else r.2

/-- `operator<` of a score and an id. -/
def rankedBelow (a b : D × Str) : Bool :=
  P.double.less a.1 b.1 || (!P.double.less b.1 a.1 && decide (a.2 < b.2))

/-- The peers that may be evicted, those of lowest score first. -/
def ranked (m : Impl D) : List (D × Str) :=
  (((P.order m.peers.entries).filter fun e => e.2.connected && !e.2.trusted).map fun e =>
    (e.2.score, e.1)).mergeSort fun a b => !rankedBelow P b a

/-- `evictPeers()`. -/
def evictPeers (m : Impl D) : Impl D :=
  if m.peers.size ≤ MAX_PEERS then m
  else ((ranked P m).take (m.peers.size - MAX_PEERS)).foldl (fun m r => m.modify r.2 unlinked) m

/-- The end of a ban. -/
def unbanned (now : UInt64) (peer : PeerState D) : PeerState D :=
  if peer.banned && peer.bannedUntil ≤ now then { peer with banned := false, bannedUntil := 0 }
  else peer

/-- `unbanExpired()`. -/
def unbanExpired (m : Impl D) : Impl D :=
  m.peers.keys.foldl (fun m' id => m'.modify id (unbanned (P.nowSecs m.readings))) m.tick

/-- What is noted of a ping. -/
def pinged (now : UInt64) (peer : PeerState D) : PeerState D := { peer with lastPing := now }

/-- A turn of the loop of `pingAllPeers`. -/
def pingPeer (now : UInt64) (m : Impl D) (peerId : Str) : Impl D :=
  (sendToPeer P (m.modify peerId (pinged now)) peerId (P.dump (.ping now)) 1).2

/-- The peers that are pinged. -/
def toPing (m : Impl D) : List Str :=
  ((P.order m.peers.entries).filter fun e => e.2.connected).map Prod.fst

/-- `pingAllPeers()`. -/
def pingAllPeers (m : Impl D) : Impl D :=
  (toPing P m).foldl (pingPeer P (P.nowMs (m.readings + 1))) m.tick.tick

/-! ### Connecting -/

/-- A host has no room for another connection. -/
def hostFull (m : Impl D) (host : Str) : Bool :=
  match m.ipConnectionCount.get? host with
  | none => false
  | some n => toSizeT n ≥ MAX_PEERS_PER_IP

/-- The check of `connectToPeer`: the host and port of a peer that may be connected to. -/
def checkConnect (m : Impl D) (peerId : Str) : Option (Str × Int32) :=
  match m.peers.get? peerId with
  | none => none
  | some peer =>
      if peer.banned then none
      else if peer.connected then none
      else if hostFull m peer.host then none
      else some (peer.host, peer.port)

/-- The record of a peer that was connected to. -/
def linked (connectedAt lastSeen : UInt64) (peer : PeerState D) : PeerState D :=
  { peer with
    connected := true, connectedAt := connectedAt, lastSeen := lastSeen, retryCount := 0
    retryDelayMs := INITIAL_RETRY_DELAY_MS }

/-- The end of `connectToPeer`, after the attempt to send. -/
def finishConnect (m : Impl D) (peerId host : Str) (ok : Bool) : Impl D :=
  match m.peers.get? peerId with
  | none => m
  | some _ =>
      if ok then
        let m' := m.tick.tick.modify peerId
          (linked (P.nowSecs m.readings) (P.nowSecs (m.readings + 1)))
        { m' with
          ipConnectionCount :=
            m'.ipConnectionCount.set host ((m'.ipConnectionCount.get? host).getD 0 + 1) }
      else scheduleReconnect P m peerId

/-- `connectToPeer(peerId)`. -/
def connectToPeer (m : Impl D) (peerId : Str) : Impl D :=
  match checkConnect m peerId with
  | none => m
  | some (host, _) =>
      let r := sendToPeer P m.tick peerId (P.dump (.hello (P.nowMs m.readings))) MAX_RETRY_ATTEMPTS
      finishConnect P r.2 peerId host r.1

/-- The peers that are due for another attempt. -/
def toRetry (m : Impl D) : List Str :=
  ((P.order m.peers.entries).filter fun e =>
    !e.2.connected && !e.2.banned && e.2.retryCount < Int32.ofNat MAX_RETRY_ATTEMPTS &&
      e.2.nextRetryAt ≤ P.nowSecs m.readings).map Prod.fst

/-- `retryDisconnected()`. -/
def retryDisconnected (m : Impl D) : Impl D := (toRetry P m).foldl (connectToPeer P) m.tick

/-! ### Records that come and go -/

/-- A host and a port out of `host:port`; `none` where the number is none. -/
def parseAddr (addr : Str) : Option (Str × Int32) :=
  let fromEnd := addr.reverse
  if 58 ∈ addr then
    (stoi (fromEnd.takeWhile (· ≠ 58)).reverse).map fun port =>
      (((fromEnd.dropWhile (· ≠ 58)).drop 1).reverse, port)
  else some (addr, 30303)

/-- The id of a bootstrap peer. -/
def bootstrapId (host : Str) : Str := str "bootstrap-" ++ host

/-- The record of a bootstrap peer, if there is none under its id. -/
def addBootstrap (m : Impl D) (host : Str) (port : Int32) : Impl D :=
  if m.peers.has (bootstrapId host) then m
  else
    { m with
      peers := m.peers.set (bootstrapId host)
        { PeerState.new P.double (bootstrapId host) host with
          port := port, trusted := true, priority := 1, tags := [str "bootstrap"] } }

/-- The addresses up to the first whose port is no number, where the loop throws. -/
def parsedAddrs : List Str → List (Str × Int32)
  | [] => []
  | addr :: bootstrap =>
      match parseAddr addr with
      | none => []
      | some found => found :: parsedAddrs bootstrap

/-- A turn of the loop of `connectBootstrap`. -/
def connectAddr (m : Impl D) (found : Str × Int32) : Impl D :=
  connectToPeer P (addBootstrap P m found.1 found.2) (bootstrapId found.1)

/-- `connectBootstrap(bootstrap)`. -/
def connectBootstrap (m : Impl D) (bootstrap : List Str) : Impl D :=
  (parsedAddrs bootstrap).foldl (connectAddr P) m

/-- `addPeer(id, host, port, trusted, priority, region, tags)`. -/
def addPeer (m : Impl D) (id host : Str) (port : Int32) (trusted : Bool) (priority : Int32)
    (region : Str) (tags : List Str) : Impl D :=
  if !trusted && (decide (host ∈ m.bannedIps) || hostFull m host) then m
  else if m.peers.size ≥ MAX_PEERS && !trusted then m
  else if m.peers.has id then m
  else
    { m with
      peers := m.peers.set id
        { PeerState.new P.double id host with
          port := port, trusted := trusted, priority := priority, region := region, tags := tags } }

/-- `removePeer(id)`. -/
def removePeer (m : Impl D) (id : Str) : Impl D :=
  match m.peers.get? id with
  | none => m
  | some peer =>
      { m with
        peers := m.peers.delete id
        ipConnectionCount := if peer.connected then
            m.ipConnectionCount.set peer.host ((m.ipConnectionCount.get? peer.host).getD 0 - 1)
          else m.ipConnectionCount }

end Impl

def samplePlatform : Platform Unit Unit where
  double := ⟨fun _ => (), fun _ => (), fun _ _ => (), fun _ _ => (), fun _ _ => (),
    fun _ _ => (), fun _ _ => false, fun _ _ => false⟩
  json := ⟨fun _ => none, fun _ _ => none, fun _ => none, fun _ => none, fun _ => none⟩
  dump _ := []
  nowSecs _ := 1
  nowMs _ := 1000
  sendThrows _ := false
  order l := l
  order_perm _ := List.Perm.refl _

end NetManager
