/-
**What the network does with the mutexes of its shards.**

The records are spread over shards, each with a mutex of its own that is not recursive.  A call
takes the mutex of one shard after another, and gives each back before the next, with two
exceptions: a new connection counts the peers of all shards while it holds its own, and growing
takes all of them.  The first waits for itself whatever the hash of the key is, since its own shard
is among those that it counts.  The traces below go on there, as if the mutex were free.

The mutexes of the callbacks, of the log, of the pools and of the messages that were seen are left
out; the callbacks are taken to call nothing of the network.

Main definitions:

* `Network.shardIndex`, `Network.onShard`, `Network.allShards` — the shard of a key, and blocks
  under one mutex and under each in turn;
* `Network.Operation`, `Network.locks` — the operations and their events;
* `Network.Safe` — **when an operation does not wait for itself**.

Main results:

* `Network.requires_connectToPeer` — a connect must not be a new one;
* `Network.requires_locks` — what every operation requires;
* `Network.callsDisciplined_iff` — **when the operations of the network and of the network manager
  do not wait for themselves**.
-/

import MedorCoin.NetManager.LockDiscipline
import MedorCoin.Network.Peers

set_option autoImplicit false

namespace Network

open Cpp LockTrace
open Net.Broadcast (Frame MessageType encodeFrame decodeBlock decodeTransaction)
open Net.Dedup.Inbound (recvFrameRaw msgId)

/-- The mutexes of the shards. -/
inductive Mutex
  | shard (i : ℕ)
  deriving DecidableEq

/-- What a call does with them. -/
abbrev Locks := List (LockTrace.Event Mutex)

/-- `shardIndex(key, count)`, for any hash. -/
def shardIndex (hash : Str → UInt64) (key : Str) (count : ℕ) : ℕ := (hash key).toNat % count

variable {D : Type} (double : Double D) (cfg : Config) (hash : Str → UInt64)
  (onPeerConnected : Bool)

/-! ### The calls, as they stand in the program -/

/-- A block under the mutex of the shard of a key. -/
def onShard (s : State D) (key : Str) (body : Locks) : Locks :=
  locked (.shard (shardIndex hash key s.shardCount)) body

/-- A block under each mutex in turn. -/
def eachShard (shards : List ℕ) : Locks := shards.flatMap fun i => locked (.shard i) []

/-- What goes through all shards. -/
def allShards (s : State D) : Locks := eachShard (List.range s.shardCount)

/-- `maybeGrowShards` takes all mutexes before it gives back the first. -/
def maybeGrowShardsLocks (s : State D) : Locks :=
  if s.activePeers.toNat ≤ s.shardCount * 8 then []
  else lockAll ((List.range s.shardCount).map .shard)

/-- The peers are counted while the mutex of the new key is held. -/
def connectToPeerLocks (s : State D) (address : Str) (port : UInt16) (now : UInt64) : Locks :=
  let key := peerKey address port
  if address = [] then []
  else if s.peers.has key then onShard hash s key []
  else
    let checked := onShard hash s key (allShards s)
    if s.peers.size ≥ s.dynMaxPeers then checked
    else
      let s := { s with
        peers := s.peers.set key (State.newPeer double cfg address port now)
        activePeers := s.activePeers + 1 }
      checked ++ (if onPeerConnected then onShard hash s key [] else []) ++
        if cfg.adaptiveSharding then maybeGrowShardsLocks s else []

/-- A shard has a peer of this address. -/
def shardHas (s : State D) (address : Str) (i : ℕ) : Bool :=
  s.peers.entries.any fun e => shardIndex hash e.1 s.shardCount == i && e.2.address == address

/-- The shards up to the first that has a peer of this address. -/
def isConnectedLocks (s : State D) (address : Str) : Locks :=
  let before := (List.range s.shardCount).takeWhile fun i => !shardHas hash s address i
  eachShard before ++ eachShard ((List.range s.shardCount).drop before.length |>.take 1)

def deliverToPeerLocks (s : State D) (peerId : Str) (type : MessageType) (payload : Str) : Locks :=
  onShard hash s peerId [] ++
    match s.peers.get? peerId with
    | none => []
    | some info =>
        if info.sendQueueDepth ≥ cfg.maxPerPeerSendQueue then []
        else if info.isBanned then []
        else
          match encodeFrame { type, payload } with
          | none => []
          | some _ => onShard hash s peerId [] ++ onShard hash s peerId []

def dispatchFrameLocks (s : State D) (frame : Frame) (peerAddr : Str) : Locks :=
  if frame.type = .block then
    match decodeBlock frame.payload with
    | none => onShard hash s peerAddr []
    | some _ => []
  else if frame.type = .transaction ∨ frame.type = .transactionBatch then
    match decodeTransaction frame.payload with
    | none => onShard hash s peerAddr []
    | some _ => []
  else if frame.type = .ping then deliverToPeerLocks cfg hash s peerAddr .pong []
  else if frame.type = .pong then onShard hash s peerAddr []
  else []

def handleInboundLocks (s : State D) (data peerAddr : Str) (now : UInt64) : Locks :=
  match recvFrameRaw data with
  | none => onShard hash s peerAddr []
  | some frame =>
      if msgId frame ∈ s.seenMsgIds then []
      else
        onShard hash s peerAddr [] ++
          match s.peers.get? peerAddr with
          | none => dispatchFrameLocks cfg hash s frame peerAddr
          | some info =>
              if info.isBanned then []
              else
                let r := State.checkLimits double cfg s info (UInt64.ofNat frame.payload.length) now
                if r.1 then
                  dispatchFrameLocks cfg hash { s with peers := s.peers.set peerAddr r.2 } frame
                    peerAddr
                else []

/-- The checks of the listener. -/
def acceptLocks (s : State D) (peerAddr : Str) (now : UInt64) : Locks :=
  onShard hash s peerAddr [] ++ if s.isBanned peerAddr now then [] else allShards s

/-- A block under the mutex of each key, one after the other. -/
def onEachKey (s : State D) (keys : List Str) : Locks :=
  keys.flatMap fun key => onShard hash s key []

/-- A peer that was saved, or has a message that waits for it. -/
structure Saved where
  address : Str
  port : UInt16

/-- A turn of the loop of `loadPeers`. -/
def loadPeer (now : UInt64) (s : State D) (p : Saved) : State D :=
  (s.connectToPeer double cfg p.address p.port now).2

def loadPeerLocks (now : UInt64) (s : State D) (p : Saved) : Locks :=
  connectToPeerLocks double cfg hash onPeerConnected s p.address p.port now

/-- A turn of the loop of `recoverPendingQueue`, with the message and what its sending comes to. -/
def recoverPeer (now : UInt64) (s : State D) (e : Saved × MessageType × Str × Bool) : State D :=
  (loadPeer double cfg now s e.1).deliverToPeer cfg (peerKey e.1.address e.1.port) e.2.1 e.2.2.1
    e.2.2.2 now

def recoverPeerLocks (now : UInt64) (s : State D) (e : Saved × MessageType × Str × Bool) : Locks :=
  loadPeerLocks double cfg hash onPeerConnected now s e.1 ++
    deliverToPeerLocks cfg hash (loadPeer double cfg now s e.1) (peerKey e.1.address e.1.port)
      e.2.1 e.2.2.1

/-- The operations of the network: those that are public, and those of its threads. -/
inductive Operation
  | connectToPeer (address : Str) (port : UInt16)
  | disconnectPeer (peerId : Str)
  | banPeer (peerId : Str)
  | penalizePeer (peerId : Str)
  | rewardPeer (peerId : Str)
  | isConnected (address : Str)
  | isBanned (peerId : Str)
  | getPeer (peerId : Str)
  | getPeers
  | getActivePeers
  | peerCount
  | activePeerCount
  | broadcastPayload
  | broadcastToPeer (peerId : Str) (type : MessageType) (payload : Str)
  | setRateLimit
  | setMaxPeers
  | accept (peerAddr : Str)
  | handleInbound (data peerAddr : Str)
  | evictStalePeers
  | unbanExpiredPeers
  | disconnectSlowPeers
  | sendPings
  | maybeGrowShards
  | savePeers
  | loadPeers (saved : List Saved)
  | recoverPendingQueue (entries : List (Saved × MessageType × Str × Bool))

/-- What an operation does with the mutexes.  A broadcast is sent by the threads of a pool, each of
which delivers by itself. -/
def locks (s : State D) (now : UInt64) : Operation → Locks
  | .connectToPeer address port =>
      connectToPeerLocks double cfg hash onPeerConnected s address port now
  | .disconnectPeer peerId => onShard hash s peerId []
  | .banPeer peerId => onShard hash s peerId []
  | .penalizePeer peerId => onShard hash s peerId []
  | .rewardPeer peerId => onShard hash s peerId []
  | .isConnected address => isConnectedLocks hash s address
  | .isBanned peerId => onShard hash s peerId []
  | .getPeer peerId => onShard hash s peerId []
  | .getPeers => allShards s
  | .getActivePeers => allShards s
  | .peerCount => allShards s
  | .activePeerCount => []
  | .broadcastPayload => allShards s
  | .broadcastToPeer peerId type payload => deliverToPeerLocks cfg hash s peerId type payload
  | .setRateLimit => []
  | .setMaxPeers => []
  | .accept peerAddr => acceptLocks hash s peerAddr now
  | .handleInbound data peerAddr => handleInboundLocks double cfg hash s data peerAddr now
  | .evictStalePeers =>
      allShards s ++ onEachKey hash s
        ((s.peers.entries.filter fun e => !e.2.isBanned && e.2.lastSeenAt > 0 &&
          e.2.lastSeenAt < now - cfg.peerTimeoutSecs).map Prod.fst)
  | .unbanExpiredPeers =>
      allShards s ++
        if onPeerConnected then
          onEachKey hash s
            ((s.peers.entries.filter fun e => e.2.isBanned && now ≥ e.2.banExpiresAt).map Prod.fst)
        else []
  | .disconnectSlowPeers =>
      allShards s ++ onEachKey hash s
        ((s.peers.entries.filter fun e =>
          e.2.sendQueueDepth ≥ cfg.maxPerPeerSendQueue).map Prod.fst)
  | .sendPings =>
      allShards s ++ onEachKey hash s ((s.peers.entries.filter fun e => !e.2.isBanned).map Prod.fst)
  | .maybeGrowShards => maybeGrowShardsLocks s
  | .savePeers => allShards s
  | .loadPeers saved =>
      each (loadPeerLocks double cfg hash onPeerConnected now) (loadPeer double cfg now) saved s
  | .recoverPendingQueue entries =>
      each (recoverPeerLocks double cfg hash onPeerConnected now) (recoverPeer double cfg now)
        entries s

/-! ### When they do not wait for themselves -/

/-- The address is empty, or there is a record for it. -/
def ConnectSafe (s : State D) (address : Str) (port : UInt16) : Prop :=
  address = [] ∨ s.peers.has (peerKey address port) = true

/-- **When an operation does not wait for itself.** -/
def Safe (s : State D) : Operation → Prop
  | .connectToPeer address port => ConnectSafe s address port
  | .loadPeers saved => ∀ p ∈ saved, ConnectSafe s p.address p.port
  | .recoverPendingQueue entries => ∀ e ∈ entries, ConnectSafe s e.1.address e.1.port
  | _ => True

variable {double cfg hash onPeerConnected} {s : State D}

/-! ### Blocks -/

theorem requires_onShard (s : State D) (key : Str) : Requires (onShard hash s key []) True :=
  Requires.block _

theorem requires_flatMap {α : Type} {f : α → Locks} (hf : ∀ a, Requires (f a) True) (l : List α) :
    Requires (l.flatMap f) True := by
  induction l with
  | nil => exact Requires.nil
  | cons a l ih =>
      rw [List.flatMap_cons]
      exact (hf a).append_true ih

theorem requires_eachShard (shards : List ℕ) : Requires (eachShard shards) True :=
  requires_flatMap (fun _ => Requires.block _) shards

theorem requires_allShards (s : State D) : Requires (allShards s) True := requires_eachShard _

theorem requires_onEachKey (s : State D) (keys : List Str) :
    Requires (onEachKey hash s keys) True :=
  requires_flatMap (fun key => requires_onShard s key) keys

theorem shardIndex_lt (s : State D) (key : Str) :
    shardIndex hash key s.shardCount < s.shardCount := Nat.mod_lt _ s.shardCount_pos

/-- **All shards cannot be gone through while one of them is held.** -/
theorem not_disciplined_eachShard {i : ℕ} {shards : List ℕ} (h : i ∈ shards) :
    ¬ Disciplined [.shard i] (eachShard shards) := by
  induction shards with
  | nil => exact nomatch h
  | cons j shards ih =>
      rw [eachShard, List.flatMap_cons, balanced_nil.locked.disciplined_append,
        disciplined_locked balanced_nil]
      rintro ⟨⟨hnot, -⟩, hrest⟩
      rcases List.mem_cons.1 h with rfl | h
      · exact hnot List.mem_cons_self
      · exact ih h hrest

/-! ### What the calls require -/

theorem requires_maybeGrowShards (s : State D) : Requires (maybeGrowShardsLocks s) True := by
  rw [maybeGrowShardsLocks]
  split
  · exact Requires.nil
  · refine Requires.lockAll (List.nodup_range.map fun i j hij => ?_)
    exact Mutex.shard.inj hij

theorem requires_count (s : State D) (key : Str) :
    Requires (onShard hash s key (allShards s)) False :=
  (Requires.locked (requires_allShards s).balanced).congr <| iff_of_false
    (not_disciplined_eachShard (List.mem_range.2 (shardIndex_lt s key))) id

/-- **What a connect requires.** -/
theorem requires_connectToPeer (s : State D) (address : Str) (port : UInt16) (now : UInt64) :
    Requires (connectToPeerLocks double cfg hash onPeerConnected s address port now)
      (ConnectSafe s address port) := by
  rw [connectToPeerLocks, ConnectSafe]
  split
  · next hempty => exact Requires.nil.congr (iff_of_true trivial (.inl hempty))
  next hempty =>
  split
  · next hhas => exact (requires_onShard s _).congr (iff_of_true trivial (.inr hhas))
  next hhas =>
  have hnew : ¬ (address = [] ∨ s.peers.has (peerKey address port) = true) :=
    not_or.2 ⟨hempty, hhas⟩
  have hcount : Requires (onShard hash s (peerKey address port) (allShards s)) False :=
    requires_count s _
  dsimp only
  split
  · exact hcount.congr (iff_of_false id hnew)
  · have hcallback : Requires
        (if onPeerConnected = true then onShard hash s (peerKey address port) [] else []) True := by
      split
      · exact requires_onShard s _
      · exact Requires.nil
    have hgrow (s : State D) : Requires
        (if cfg.adaptiveSharding = true then maybeGrowShardsLocks s else []) True := by
      split
      · exact requires_maybeGrowShards s
      · exact Requires.nil
    exact ((hcount.append hcallback).append (hgrow _)).congr
      (iff_of_false (fun hfalse => hfalse.1.1) hnew)

theorem requires_isConnected (s : State D) (address : Str) :
    Requires (isConnectedLocks hash s address) True :=
  (requires_eachShard _).append_true (requires_eachShard _)

theorem requires_deliverToPeer (s : State D) (peerId : Str) (type : MessageType) (payload : Str) :
    Requires (deliverToPeerLocks cfg hash s peerId type payload) True := by
  rw [deliverToPeerLocks]
  refine (requires_onShard s peerId).append_true ?_
  split
  · exact Requires.nil
  split
  · exact Requires.nil
  split
  · exact Requires.nil
  split
  · exact Requires.nil
  · exact (requires_onShard s peerId).append_true (requires_onShard s peerId)

theorem requires_dispatchFrame (s : State D) (frame : Frame) (peerAddr : Str) :
    Requires (dispatchFrameLocks cfg hash s frame peerAddr) True := by
  rw [dispatchFrameLocks]
  split
  · split
    · exact requires_onShard s peerAddr
    · exact Requires.nil
  split
  · split
    · exact requires_onShard s peerAddr
    · exact Requires.nil
  split
  · exact requires_deliverToPeer s peerAddr _ _
  split
  · exact requires_onShard s peerAddr
  · exact Requires.nil

theorem requires_handleInbound (s : State D) (data peerAddr : Str) (now : UInt64) :
    Requires (handleInboundLocks double cfg hash s data peerAddr now) True := by
  rw [handleInboundLocks]
  split
  · exact requires_onShard s peerAddr
  split
  · exact Requires.nil
  refine (requires_onShard s peerAddr).append_true ?_
  split
  · exact requires_dispatchFrame s _ peerAddr
  split
  · exact Requires.nil
  dsimp only
  split
  · exact requires_dispatchFrame _ _ peerAddr
  · exact Requires.nil

theorem requires_accept (s : State D) (peerAddr : Str) (now : UInt64) :
    Requires (acceptLocks hash s peerAddr now) True := by
  rw [acceptLocks]
  refine (requires_onShard s peerAddr).append_true ?_
  split
  · exact Requires.nil
  · exact requires_allShards s

/-! ### Connects one after the other -/

theorem ConnectSafe.connectToPeer_eq {address : Str} {port : UInt16}
    (h : ConnectSafe s address port) (now : UInt64) :
    s.connectToPeer double cfg address port now = (false, s) := by
  rw [State.connectToPeer]
  split
  · rfl
  next hempty =>
  rw [if_pos (h.resolve_left hempty)]

/-- **What an operation requires.** -/
theorem requires_locks (double : Double D) (cfg : Config) (hash : Str → UInt64)
    (onPeerConnected : Bool) (s : State D) (now : UInt64) (op : Operation) :
    Requires (locks double cfg hash onPeerConnected s now op) (Safe s op) := by
  cases op with
  | connectToPeer address port => exact requires_connectToPeer s address port now
  | disconnectPeer peerId => exact requires_onShard s peerId
  | banPeer peerId => exact requires_onShard s peerId
  | penalizePeer peerId => exact requires_onShard s peerId
  | rewardPeer peerId => exact requires_onShard s peerId
  | isConnected address => exact requires_isConnected s address
  | isBanned peerId => exact requires_onShard s peerId
  | getPeer peerId => exact requires_onShard s peerId
  | getPeers => exact requires_allShards s
  | getActivePeers => exact requires_allShards s
  | peerCount => exact requires_allShards s
  | activePeerCount => exact Requires.nil
  | broadcastPayload => exact requires_allShards s
  | broadcastToPeer peerId type payload => exact requires_deliverToPeer s peerId type payload
  | setRateLimit => exact Requires.nil
  | setMaxPeers => exact Requires.nil
  | accept peerAddr => exact requires_accept s peerAddr now
  | handleInbound data peerAddr => exact requires_handleInbound s data peerAddr now
  | evictStalePeers => exact (requires_allShards s).append_true (requires_onEachKey s _)
  | unbanExpiredPeers =>
      refine (requires_allShards s).append_true ?_
      split
      · exact requires_onEachKey s _
      · exact Requires.nil
  | disconnectSlowPeers => exact (requires_allShards s).append_true (requires_onEachKey s _)
  | sendPings => exact (requires_allShards s).append_true (requires_onEachKey s _)
  | maybeGrowShards => exact requires_maybeGrowShards s
  | savePeers => exact requires_allShards s
  | loadPeers saved =>
      refine (Requires.each (C := fun s p => ConnectSafe s p.address p.port)
        (fun s p => requires_connectToPeer s p.address p.port now) saved s).congr ?_
      refine eachMeets_iff (fun s p p' hsafe => ?_) saved s
      rw [loadPeer, hsafe.connectToPeer_eq]
  | recoverPendingQueue entries =>
      refine (Requires.each (C := fun s e => ConnectSafe s e.1.address e.1.port) (fun s e => ?_)
        entries s).congr ?_
      · exact ((requires_connectToPeer s _ _ now).append (requires_deliverToPeer _ _ _ _)).congr
          (and_iff_left trivial)
      · refine eachMeets_iff (fun s e e' hsafe => ?_) entries s
        rw [ConnectSafe, recoverPeer, loadPeer, hsafe.connectToPeer_eq, has_deliverToPeer]
        exact Iff.rfl

/-- **When the operations do not wait for themselves**, those of the network and those of the
network manager. -/
theorem callsDisciplined_iff {Json : Type} (double : Double D) (cfg : Config)
    (hash : Str → UInt64) (onPeerConnected : Bool) (P : NetManager.Platform D Json)
    (h : NetManager.Handlers) :
    (∀ (s : State D) (now : UInt64) (op : Operation),
      Disciplined [] (locks double cfg hash onPeerConnected s now op) ↔ Safe s op) ∧
    ∀ (m : NetManager.Impl D) (op : NetManager.Operation),
      Disciplined [] (NetManager.locks P h m op) ↔ NetManager.Safe P h m op :=
  ⟨fun s now op => (requires_locks double cfg hash onPeerConnected s now op).disciplined,
    fun m op => (NetManager.requires_locks P h m op).disciplined⟩

/-! ### The first peer, and a message too many -/

def sampleHandlers : NetManager.Handlers where
  message := Requires.nil
  connect := balanced_nil
  disconnect := Requires.nil

def sampleNoise : NetManager.Impl Unit :=
  (List.replicate 100 (str "x")).foldl
    (fun m raw => NetManager.Impl.processMessage NetManager.samplePlatform m (str "p") raw)
    (NetManager.Impl.addPeer NetManager.samplePlatform {} (str "p") (str "h") 30303 false 2 [] [])

/-- **The first peer of a network waits for itself, and so does a message over the limit.** -/
theorem not_callsDisciplined :
    ¬ ((∀ (s : State Unit) (now : UInt64) (op : Operation),
        Disciplined []
          (locks NetManager.samplePlatform.double {} (fun _ => 0) false s now op)) ∧
      ∀ (m : NetManager.Impl Unit) (op : NetManager.Operation),
        Disciplined [] (NetManager.locks NetManager.samplePlatform sampleHandlers m op)) ∧
    ¬ Disciplined []
      (locks NetManager.samplePlatform.double {} (fun _ => 0) false (State.new {}) 1
        (.connectToPeer (str "h") 30303)) ∧
    ¬ Disciplined []
      (NetManager.locks NetManager.samplePlatform sampleHandlers sampleNoise
        (.receiveRaw (str "p") (str "x"))) := by
  have hconnect : ¬ Disciplined []
      (locks NetManager.samplePlatform.double {} (fun _ => 0) false (State.new {}) 1
        (.connectToPeer (str "h") 30303)) := by
    decide +kernel
  have hmessage : ¬ Disciplined []
      (NetManager.locks NetManager.samplePlatform sampleHandlers sampleNoise
        (.receiveRaw (str "p") (str "x"))) := by
    decide +kernel
  exact ⟨fun hall => hconnect (hall.1 _ _ _), hconnect, hmessage⟩

end Network
