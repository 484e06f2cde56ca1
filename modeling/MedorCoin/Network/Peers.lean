/-
**The peers of the network.**

The network has a record for each peer that it connected to, under the address and the port.  What
comes in over a connection is looked up under the address alone.  The functions below are what the
calls do to the records; what a thread does with the mutexes of the shards is not part of them.

The shards are one map here, since the shard of a record depends on its key alone.  The clock is
read once in each call.  The counters of the metrics other than that of the active peers, the pools,
the sockets and the texts of the log are left out; what a send comes to is an argument.

Main definitions:

* `Network.PeerInfo`, `Network.State` — a record; the records and what else the calls read;
* `State.connectToPeer`, `State.disconnectPeer`, `State.banPeer`, `State.applyScoreChange`,
  `State.isBanned`, `State.deliverToPeer`;
* `State.accept`, `State.handleInbound`, `State.dispatchFrame`, `State.maybeAutoBanPeer` — what
  comes in;
* `State.evictStalePeers`, `State.unbanExpiredPeers`, `State.disconnectSlowPeers`,
  `State.sendPings` — what the threads of the network do from time to time.

Main results:

* `Network.has_deliverToPeer` — a delivery keeps the records.
-/

import MedorCoin.Cpp.Numbers
import MedorCoin.Js.Map
import MedorCoin.Net.Dedup

set_option autoImplicit false

namespace Network

open Cpp
open Net.Broadcast (Frame MessageType encodeFrame decodeBlock decodeTransaction)
open Net.Dedup.Inbound (recvFrameRaw msgId seenMax)
open Node (Block Transaction)

/-- `struct PeerInfo`. -/
structure PeerInfo (D : Type) where
  id : Str
  address : Str
  port : UInt16
  connectedAt : UInt64 := 0
  lastSeenAt : UInt64 := 0
  lastPingSentAt : UInt64 := 0
  lastPongAt : UInt64 := 0
  messagesSent : UInt64 := 0
  messagesRecv : UInt64 := 0
  bytesRecv : UInt64 := 0
  bytesSent : UInt64 := 0
  msgThisSecond : UInt32 := 0
  byteThisSecond : UInt64 := 0
  banExpiresAt : UInt64 := 0
  banCount : UInt32 := 0
  decodeErrorCount : UInt32 := 0
  score : D
  isBanned : Bool := false
  isReachable : Bool := false
  handshakeDone : Bool := false
  sendQueueDepth : ℕ := 0
  tokenMsgBucket : D
  tokenByteBucket : D
  tokenLastRefillEpoch : UInt64 := 0

/-- `struct Config`. -/
structure Config where
  maxPeers : ℕ := 1000
  peerTimeoutSecs : UInt64 := 120
  banDurationSecs : UInt64 := 3600
  pingDeadlineSecs : UInt64 := 90
  maxMsgPerSecPerPeer : UInt32 := 200
  maxBytesPerSecPerPeer : UInt64 := 10 * 1024 * 1024
  tokenBucketBurstMsg : UInt32 := 400
  tokenBucketBurstBytes : UInt64 := 20 * 1024 * 1024
  maxPerPeerSendQueue : ℕ := 256
  peerMapShards : ℕ := 64
  adaptiveSharding : Bool := true
  maxDecodeErrorsBeforeBan : UInt32 := 10

/-- The records, the number of shards, the settings that can change, the messages that were seen,
and whether `onBlockReceivedFn_` and `onTransactionReceivedFn_` are set. -/
structure State (D : Type) where
  peers : Js.Map Str (PeerInfo D) := Js.Map.empty
  shardCount : ℕ
  shardCount_pos : 0 < shardCount
  activePeers : UInt64 := 0
  dynMaxMsgPerSec : UInt32
  dynMaxBytesPerSec : UInt64
  dynMaxPeers : ℕ
  seenMsgIds : Finset Str := ∅
  onBlock : Bool := false
  onTransaction : Bool := false

/-- A call of a callback. -/
inductive Callback
  | block (b : Block) (peerAddr : Str)
  | transaction (tx : Transaction) (peerAddr : Str)

/-- `peerKey(address, port)`. -/
def peerKey (address : Str) (port : UInt16) : Str := address ++ str ":" ++ decimal port.toNat

variable {D : Type} (double : Double D) (cfg : Config)

/-- `Network(cfg)`. -/
def State.new : State D where
  shardCount := max 1 cfg.peerMapShards
  shardCount_pos := lt_max_of_lt_left Nat.one_pos
  dynMaxMsgPerSec := cfg.maxMsgPerSecPerPeer
  dynMaxBytesPerSec := cfg.maxBytesPerSecPerPeer
  dynMaxPeers := cfg.maxPeers

namespace State

variable (s : State D)

/-- Changes a record, if there is one. -/
def modify (peerId : Str) (f : PeerInfo D → PeerInfo D) : State D :=
  match s.peers.get? peerId with
  | none => s
  | some info => { s with peers := s.peers.set peerId (f info) }

/-! ### Limits and bans -/

/-- `refillTokenBucket(peer, nowSec)`. -/
def refillTokenBucket (peer : PeerInfo D) (nowSec : UInt64) : PeerInfo D :=
  if peer.tokenLastRefillEpoch = nowSec then peer
  else
    let elapsed := double.ofUInt64 (nowSec - peer.tokenLastRefillEpoch)
    { peer with
      tokenLastRefillEpoch := nowSec
      tokenMsgBucket := double.min
        (double.add peer.tokenMsgBucket
          (double.mul elapsed (double.ofUInt64 s.dynMaxMsgPerSec.toUInt64)))
        (double.ofUInt64 cfg.tokenBucketBurstMsg.toUInt64)
      tokenByteBucket := double.min
        (double.add peer.tokenByteBucket
          (double.mul elapsed (double.ofUInt64 s.dynMaxBytesPerSec)))
        (double.ofUInt64 cfg.tokenBucketBurstBytes) }

/-- `checkRateLimitLocked(peer)`. -/
def checkRateLimitLocked (peer : PeerInfo D) (now : UInt64) : Bool × PeerInfo D :=
  let peer := refillTokenBucket double cfg s peer now
  if double.less peer.tokenMsgBucket (double.lit 1) then (false, peer)
  else
    (true, { peer with
      tokenMsgBucket := double.sub peer.tokenMsgBucket (double.lit 1)
      msgThisSecond := peer.msgThisSecond + 1 })

/-- `checkByteQuotaLocked(peer, bytes)`. -/
def checkByteQuotaLocked (peer : PeerInfo D) (bytes : UInt64) (now : UInt64) :
    Bool × PeerInfo D :=
  let peer := refillTokenBucket double cfg s peer now
  let b := double.ofUInt64 bytes
  if double.less peer.tokenByteBucket b then (false, peer)
  else
    (true, { peer with
      tokenByteBucket := double.sub peer.tokenByteBucket b
      byteThisSecond := peer.byteThisSecond + bytes })

/-- A ban. -/
def banned (now : UInt64) (info : PeerInfo D) : PeerInfo D :=
  { info with
    isBanned := true
    banExpiresAt := now + cfg.banDurationSecs
    banCount := info.banCount + 1 }

/-- What the limits make of a frame of so many bytes: whether it is let through, and the record. -/
def checkLimits (info : PeerInfo D) (bytes : UInt64) (now : UInt64) : Bool × PeerInfo D :=
  let r := checkRateLimitLocked double cfg s info now
  if !r.1 then (false, banned cfg now r.2)
  else
    let q := checkByteQuotaLocked double cfg s r.2 bytes now
    if !q.1 then (false, banned cfg now q.2)
    else
      (true, { q.2 with
        messagesRecv := q.2.messagesRecv + 1
        lastSeenAt := now
        bytesRecv := q.2.bytesRecv + bytes })

/-- `isBanned(peerId)`. -/
def isBanned (peerId : Str) (now : UInt64) : Bool :=
  (s.peers.get? peerId).any fun info => info.isBanned && now < info.banExpiresAt

/-- `banPeer(peerId)`. -/
def banPeer (peerId : Str) (now : UInt64) : State D := s.modify peerId (banned cfg now)

/-- The record after its score has changed. -/
def scored (delta : D) (isBanCheck : Bool) (now : UInt64) (info : PeerInfo D) : PeerInfo D :=
  let newScore := double.clamp (double.add info.score delta) (double.lit 0) (double.lit 100)
  let info := { info with score := newScore }
  if isBanCheck && double.lessEq newScore (double.lit 0) then banned cfg now info else info

/-- `applyScoreChange(peerId, delta, isBanCheck)`, which is `penalizePeer` and `rewardPeer`. -/
def applyScoreChange (peerId : Str) (delta : D) (isBanCheck : Bool) (now : UInt64) : State D :=
  s.modify peerId (scored double cfg delta isBanCheck now)

/-- One decode error more, and a ban if it is one too many. -/
def decodeFailed (now : UInt64) (info : PeerInfo D) : PeerInfo D :=
  let info := { info with decodeErrorCount := info.decodeErrorCount + 1 }
  if info.decodeErrorCount < cfg.maxDecodeErrorsBeforeBan then info else banned cfg now info

/-- `maybeAutoBanPeer(peerId)`. -/
def maybeAutoBanPeer (peerId : Str) (now : UInt64) : State D :=
  s.modify peerId (decodeFailed cfg now)

/-! ### Peers that come and go -/

/-- `maybeGrowShards()`. -/
def maybeGrowShards : State D :=
  if s.activePeers.toNat ≤ s.shardCount * 8 then s
  else
    { s with
      shardCount := min (s.shardCount * 2) 1024
      shardCount_pos := lt_min (Nat.mul_pos s.shardCount_pos Nat.two_pos) (by decide) }

/-- The record of a new peer. -/
def newPeer (address : Str) (port : UInt16) (now : UInt64) : PeerInfo D where
  id := peerKey address port
  address := address
  port := port
  connectedAt := now
  lastSeenAt := now
  score := double.lit 100
  isReachable := true
  tokenMsgBucket := double.ofUInt64 cfg.tokenBucketBurstMsg.toUInt64
  tokenByteBucket := double.ofUInt64 cfg.tokenBucketBurstBytes
  tokenLastRefillEpoch := now

/-- `connectToPeer(address, port)`. -/
def connectToPeer (address : Str) (port : UInt16) (now : UInt64) : Bool × State D :=
  if address = [] then (false, s)
  else if s.peers.has (peerKey address port) then (false, s)
  else if s.peers.size ≥ s.dynMaxPeers then (false, s)
  else
    let s := { s with
      peers := s.peers.set (peerKey address port) (newPeer double cfg address port now)
      activePeers := s.activePeers + 1 }
    (true, if cfg.adaptiveSharding then s.maybeGrowShards else s)

/-- `disconnectPeer(peerId)`. -/
def disconnectPeer (peerId : Str) : State D :=
  if s.peers.has peerId then
    { s with peers := s.peers.delete peerId, activePeers := s.activePeers - 1 }
  else s

/-- `setRateLimit(maxMsg, maxBytes)`. -/
def setRateLimit (maxMsg : UInt32) (maxBytes : UInt64) : State D :=
  { s with dynMaxMsgPerSec := maxMsg, dynMaxBytesPerSec := maxBytes }

/-- `setMaxPeers(maxPeers)`. -/
def setMaxPeers (maxPeers : ℕ) : State D := { s with dynMaxPeers := max 1 maxPeers }

/-- What is noted of a frame that was sent, or could not be. -/
def noteSent (sent : Bool) (bytes : UInt64) (now : UInt64) (info : PeerInfo D) : PeerInfo D :=
  if sent then
    { info with
      messagesSent := info.messagesSent + 1
      bytesSent := info.bytesSent + bytes
      lastSeenAt := now
      isReachable := true }
  else { info with isReachable := false }

/-- `deliverToPeer(peerId, type, payload)`; the depth of the queue is the same after the call. -/
def deliverToPeer (peerId : Str) (type : MessageType) (payload : Str) (sent : Bool)
    (now : UInt64) : State D :=
  match s.peers.get? peerId with
  | none => s
  | some info =>
      if info.sendQueueDepth ≥ cfg.maxPerPeerSendQueue then s
      else if info.isBanned then s
      else
        match encodeFrame { type, payload } with
        | none => s
        | some encoded => s.modify peerId (noteSent sent (UInt64.ofNat encoded.length) now)

/-! ### What comes in -/

/-- The check of a connection by the listener; the pool may be full. -/
def accept (peerAddr : Str) (submitted : Bool) (now : UInt64) : Bool × State D :=
  if s.isBanned peerAddr now then (false, s)
  else if s.peers.size ≥ s.dynMaxPeers then (false, s)
  else if submitted then (true, { s with activePeers := s.activePeers + 1 })
  else (false, s)

/-- What is noted of a pong. -/
def ponged (now : UInt64) (info : PeerInfo D) : PeerInfo D :=
  { info with lastPongAt := now, lastSeenAt := now, isReachable := true }

/-- `dispatchFrame(frame, peerAddr)`: the callback that is called, and the state. -/
def dispatchFrame (frame : Frame) (peerAddr : Str) (sent : Bool) (now : UInt64) :
    Option Callback × State D :=
  if frame.type = .block then
    match decodeBlock frame.payload with
    | none => (none, s.maybeAutoBanPeer cfg peerAddr now)
    | some b => (if s.onBlock then some (.block b peerAddr) else none, s)
  else if frame.type = .transaction ∨ frame.type = .transactionBatch then
    match decodeTransaction frame.payload with
    | none => (none, s.maybeAutoBanPeer cfg peerAddr now)
    | some tx => (if s.onTransaction then some (.transaction tx peerAddr) else none, s)
  else if frame.type = .ping then (none, s.deliverToPeer cfg peerAddr .pong [] sent now)
  else if frame.type = .pong then (none, s.modify peerAddr (ponged now))
  else (none, s)

/-- The messages that were seen, with one more; too many are forgotten at once. -/
def remember (id : Str) : Finset Str :=
  let seen := insert id s.seenMsgIds
  if seen.card > seenMax then ∅ else seen

/-- What comes of a connection: whether its frame passes the limits, the callback that is called,
and the state. -/
structure Handled (D : Type) where
  admitted : Bool
  callback : Option Callback
  state : State D

/-- A frame that passes the limits. -/
def dispatched (frame : Frame) (peerAddr : Str) (sent : Bool) (now : UInt64) : Handled D :=
  let r := s.dispatchFrame cfg frame peerAddr sent now
  ⟨true, r.1, r.2⟩

/-- The limits of the peer, if it has a record under the address. -/
def limited (frame : Frame) (peerAddr : Str) (sent : Bool) (now : UInt64) : Handled D :=
  match s.peers.get? peerAddr with
  | none => s.dispatched cfg frame peerAddr sent now
  | some info =>
      if info.isBanned then ⟨false, none, s⟩
      else
        let r := checkLimits double cfg s info (UInt64.ofNat frame.payload.length) now
        let s := { s with peers := s.peers.set peerAddr r.2 }
        if r.1 then s.dispatched cfg frame peerAddr sent now
        else ⟨false, none, { s with activePeers := s.activePeers - 1 }⟩

/-- `handleInbound(clientFd, peerAddr)`, with the bytes that the connection brings. -/
def handleInbound (data peerAddr : Str) (sent : Bool) (now : UInt64) : Handled D :=
  match recvFrameRaw data with
  | none => ⟨false, none, s.maybeAutoBanPeer cfg peerAddr now⟩
  | some frame =>
      if msgId frame ∈ s.seenMsgIds then ⟨false, none, s⟩
      else
        ({ s with seenMsgIds := s.remember (msgId frame) } : State D).limited double cfg frame
          peerAddr sent now

/-! ### From time to time -/

/-- `evictStalePeers()`. -/
def evictStalePeers (now : UInt64) : State D :=
  let cutoff := now - cfg.peerTimeoutSecs
  let toEvict := s.peers.entries.filter fun e =>
    !e.2.isBanned && e.2.lastSeenAt > 0 && e.2.lastSeenAt < cutoff
  (toEvict.map Prod.fst).foldl disconnectPeer s

/-- The end of a ban. -/
def unbanned (now : UInt64) (info : PeerInfo D) : PeerInfo D :=
  if info.isBanned && now ≥ info.banExpiresAt then { info with isBanned := false } else info

/-- `unbanExpiredPeers()`. -/
def unbanExpiredPeers (now : UInt64) : State D :=
  s.peers.keys.foldl (fun s key => s.modify key (unbanned now)) s

/-- `disconnectSlowPeers()`. -/
def disconnectSlowPeers : State D :=
  let slow := s.peers.entries.filter fun e => e.2.sendQueueDepth ≥ cfg.maxPerPeerSendQueue
  (slow.map Prod.fst).foldl disconnectPeer s

/-- A peer that has not answered a ping in time. -/
def missedPong (now : UInt64) (info : PeerInfo D) : Bool :=
  info.lastPingSentAt > 0 && info.lastPongAt < info.lastPingSentAt &&
    now - info.lastPingSentAt > cfg.pingDeadlineSecs

/-- A turn of the loop of `sendPings`. -/
def pingPeer (now : UInt64) (s : State D) (c : Str × PeerInfo D) : State D :=
  if missedPong cfg now c.2 then s.disconnectPeer c.1
  else s.modify c.1 fun info => { info with lastPingSentAt := now }

/-- `sendPings()`, up to the sending. -/
def sendPings (now : UInt64) : State D :=
  (s.peers.entries.filter fun e => !e.2.isBanned).foldl (pingPeer cfg now) s

end State

/-! ### The keys of the records -/

variable {cfg}

theorem has_modify (s : State D) (peerId : Str) (f : PeerInfo D → PeerInfo D) (key : Str) :
    (s.modify peerId f).peers.has key = s.peers.has key := by
  rw [State.modify]
  cases hinfo : s.peers.get? peerId with
  | none => rfl
  | some info => exact Js.Map.has_set_of_get? hinfo (f info) key

theorem has_deliverToPeer (s : State D) (peerId : Str) (type : MessageType) (payload : Str)
    (sent : Bool) (now : UInt64) (key : Str) :
    (s.deliverToPeer cfg peerId type payload sent now).peers.has key = s.peers.has key := by
  rw [State.deliverToPeer]
  split
  · rfl
  split
  · rfl
  split
  · rfl
  split
  · rfl
  · exact has_modify s peerId _ key

end Network
