/-
**The table of the peers of a node.**

A node of `medac_node.cjs` dials the peers it knows with `connectTo`, takes the connections that
others open, and enters each connection that is open in `node.peers`.  A connection that closes is
taken out, and is dialled again after a while.

The entry of a dialled peer has the address as its key.  Whether the address is in the table is
asked when the dial starts, and the entry is made when the connection opens.  Two dials to one
address that are under way at the same time both open, the entry of the second takes the place of
the entry of the first, and when either of the two closes the other loses its entry.

Main definitions:

* `Medac.Connections.MedacNode` — the table, the timers and the sockets of a node, with
  `MedacNode.connectTo`, `MedacNode.attachPeer`, `MedacNode.removePeer`,
  `MedacNode.scheduleReconnect`;
* `Medac.Connections.Event`, `Medac.Connections.step` — what can happen to a running node;
* `Medac.Connections.Tabled` — the table holds the peers that are attached, and no others;
* `Medac.Connections.Fresh` — a connection is attached under a key that is not in the table.

Main results:

* `Medac.Connections.Held.step` — **one event**;
* `Medac.Connections.peers_tabled` — the table is right after every event if and only if no
  connection is attached under a key that is in the table.
-/

import Mathlib.Data.List.Nodup
import MedorCoin.Js.Error
import MedorCoin.Js.Map
import MedorCoin.Js.Text
import MedorCoin.Transition.Run

set_option autoImplicit false

namespace Medac.Connections

open Js Transition

/-! ### Addresses -/

/-- What `connectTo` reads of a parsed address. -/
structure Url where
  protocol : Str
  hostname : Str

/-- `new URL(..)`, with no value where it throws.  The empty string is no address. -/
structure UrlParser where
  parse : Str → Option Url
  parse_nil : parse [] = none

def isLoopback (host : Str) : Bool :=
  let value := host.map Char.toLower
  value == "localhost".toList || value == "127.0.0.1".toList || value == "::1".toList ||
    value == "[::1]".toList

/-! ### Sockets and peers -/

inductive ReadyState
  | connecting
  | opened
  | closing
  | closed
  deriving DecidableEq

/-- The fields of a peer that the table depends on. -/
structure Peer where
  id : Str
  label : Str
  peerUrl : Option Str
  /-- The number of its socket. -/
  socket : ℕ
  deriving DecidableEq

/-- A socket, with the functions that wait for it to close. -/
structure Socket where
  readyState : ReadyState
  /-- The address of a socket that `connectTo` made, which schedules the next dial. -/
  dialled : Option Str
  /-- The peer that `_attachPeer` made for the socket, which `_removePeer` takes out. -/
  listener : Option Peer
  deriving DecidableEq

/-- The fields of a node that its connections depend on.  Sockets are numbered in the order in
which they were made. -/
structure MedacNode where
  maxPeers : ℕ
  stopping : Bool
  peers : Js.Map Str Peer
  reconnectAttempts : Js.Map Str ℕ
  /-- The delays, in milliseconds, after which an address is dialled again. -/
  reconnectTimers : Js.Map Str ℕ
  sockets : List Socket
  deriving DecidableEq

namespace MedacNode

variable (urls : UrlParser) (node : MedacNode)

/-- `new WebSocket(..)`, or the socket of a connection that was accepted. -/
def addSocket (socket : Socket) : MedacNode := { node with sockets := node.sockets ++ [socket] }

def updateSocket (n : ℕ) (f : Socket → Socket) : MedacNode :=
  { node with sockets := node.sockets.modify n f }

/-- `socket.close(..)` and `socket.terminate()`: the connection goes down, and the close event
follows. -/
def shut (n : ℕ) : MedacNode :=
  node.updateSocket n fun s =>
    if s.readyState = .closed then s else { s with readyState := .closing }

def scheduleReconnect (peerUrl : Str) : MedacNode :=
  if node.reconnectTimers.has peerUrl || node.stopping then node
  else
    let attempt := (node.reconnectAttempts.get? peerUrl).getD 0 + 1
    let delay := min (1000 * 2 ^ min (attempt - 1) 6) 60000
    { node with
      reconnectAttempts := node.reconnectAttempts.set peerUrl attempt
      reconnectTimers := node.reconnectTimers.set peerUrl delay }

def connectTo (peerUrl : Str) : Except Js.Error MedacNode :=
  if node.stopping || node.maxPeers ≤ node.peers.size then .ok node
  else
    match urls.parse peerUrl with
    | none => .error (.typeError "Invalid MEDAC peer URL")
    | some parsed =>
        if parsed.protocol ≠ "ws:".toList ∧ parsed.protocol ≠ "wss:".toList then
          .error (.typeError "MEDAC peers must use ws:// or wss://")
        else if parsed.protocol = "ws:".toList ∧ isLoopback parsed.hostname = false then
          .error (.error "Unencrypted MEDAC peer connections are allowed only on loopback")
        else if node.peers.values.any fun peer => peer.peerUrl = some peerUrl then .ok node
        else .ok (node.addSocket ⟨.connecting, some peerUrl, none⟩)

/-- The key of a peer.  `drawn` is the text of the clock and of the random number, which make up
the key of a peer that has no address. -/
def peerId (peerUrl : Option Str) (label drawn : Str) : Str :=
  match peerUrl with
  | some (c :: url) => c :: url
  | _ => label ++ ':' :: drawn

/-- `this.peers.set(peer.id, peer)`, and the function that takes the peer out again waits for its
socket to close. -/
def enter (peer : Peer) : MedacNode :=
  { node with peers := node.peers.set peer.id peer }.updateSocket peer.socket
    fun s => { s with listener := some peer }

def attachPeer (socket : ℕ) (peerUrl : Option Str) (label drawn : Str) : MedacNode :=
  if node.stopping || node.maxPeers ≤ node.peers.size then node.shut socket
  else node.enter ⟨peerId peerUrl label drawn, label, peerUrl, socket⟩

def removePeer (peer : Peer) : MedacNode :=
  let node := { node with peers := node.peers.delete peer.id }
  match peer.peerUrl with
  | some (c :: url) => if node.stopping then node else node.scheduleReconnect (c :: url)
  | _ => node

end MedacNode

/-! ### What can happen to a running node -/

/-- What can happen: `connectTo` is called, a socket opens, fails, is shut down by other code of
the node, or has closed, a timer runs out, or a connection is accepted. -/
inductive Event
  | connectTo (peerUrl : Str)
  | opens (socket : ℕ) (drawn : Str)
  | errors (socket : ℕ)
  | shuts (socket : ℕ)
  | closes (socket : ℕ)
  | timer (peerUrl : Str)
  | inbound (address drawn : Str)
  deriving DecidableEq

/-- A call that throws leaves the node as it is. -/
def settle (node : MedacNode) : Except Js.Error MedacNode → MedacNode
  | .ok node' => node'
  | .error _ => node

/-- The functions that wait for socket `n` to close, in the order in which they were registered:
that of `connectTo`, then that of `_attachPeer`. -/
def closed (node : MedacNode) (n : ℕ) (socket : Socket) : MedacNode :=
  let node := node.updateSocket n fun s => { s with readyState := .closed }
  let node := match socket.dialled with
    | some url => if node.peers.has url then node else node.scheduleReconnect url
    | none => node
  match socket.listener with
  | some peer => node.removePeer peer
  | none => node

/-- What an event does, with no value where it cannot happen: a socket opens only after it was
dialled, and closes once. -/
def step (urls : UrlParser) (node : MedacNode) : Event → Option MedacNode
  | .connectTo peerUrl => some (settle node (node.connectTo urls peerUrl))
  | .opens n drawn =>
      match node.sockets[n]? with
      | some ⟨.connecting, some url, _⟩ =>
          let node := node.updateSocket n fun s => { s with readyState := .opened }
          let node := { node with reconnectAttempts := node.reconnectAttempts.delete url }
          some (node.attachPeer n (some url) url drawn)
      | _ => none
  | .errors n =>
      match node.sockets[n]? with
      | some socket =>
          if socket.readyState = .closed then none
          else some (if socket.listener.isSome then node.shut n else node)
      | none => none
  | .shuts n => if n < node.sockets.length then some (node.shut n) else none
  | .closes n =>
      match node.sockets[n]? with
      | some socket =>
          if socket.readyState = .closed then none else some (closed node n socket)
      | none => none
  | .timer url =>
      if node.reconnectTimers.has url then
        let node := { node with reconnectTimers := node.reconnectTimers.delete url }
        some (settle node (node.connectTo urls url))
      else none
  | .inbound address drawn =>
      let socket := node.sockets.length
      some ((node.addSocket ⟨.opened, none, none⟩).attachPeer socket none address drawn)

/-- A node that has started, before it dials. -/
def started (maxPeers : ℕ) : MedacNode :=
  ⟨maxPeers, false, Js.Map.empty, Js.Map.empty, Js.Map.empty, []⟩

/-! ### What the table should be -/

/-- A peer is attached as long as its socket has not closed. -/
def Attached (node : MedacNode) (peer : Peer) : Prop :=
  ∃ (n : ℕ) (socket : Socket), node.sockets[n]? = some socket ∧ socket.readyState ≠ .closed ∧
    socket.listener = some peer

/-- **The table holds the peers that are attached**, each once, not two with one address, and not
more than `maxPeers`. -/
structure Tabled (node : MedacNode) : Prop where
  nodup : node.peers.values.Nodup
  attached : ∀ peer, peer ∈ node.peers.values ↔ Attached node peer
  address : ∀ p ∈ node.peers.values, ∀ q ∈ node.peers.values, ∀ url,
    p.peerUrl = some url → q.peerUrl = some url → p = q
  capacity : node.peers.values.length ≤ node.maxPeers

/-- The close of a socket takes no entry of another peer out. -/
def KeepsOthers (node : MedacNode) (event : Event) (node' : MedacNode) : Prop :=
  ∀ n, event = .closes n → ∀ peer ∈ node.peers.values, peer.socket ≠ n →
    peer ∈ node'.peers.values

/-- What is to hold of every event. -/
def Sound (node : MedacNode) (event : Event) (node' : MedacNode) : Prop :=
  Tabled node' ∧ KeepsOthers node event node'

/-- The key under which an event attaches a connection. -/
def attaching (node : MedacNode) : Event → Option Str
  | .opens n drawn =>
      (node.sockets[n]?).bind fun socket =>
        socket.dialled.map fun url => MedacNode.peerId (some url) url drawn
  | .inbound address drawn => some (MedacNode.peerId none address drawn)
  | _ => none

/-- **A connection that is attached, is attached under a key that is not in the table.** -/
def Fresh (node : MedacNode) (event : Event) : Prop :=
  ∀ key, attaching node event = some key → node.peers.values.length < node.maxPeers →
    key ∉ node.peers.keys

/-! ### The invariant -/

/-- **What holds of a running node whose connections were attached under keys that were not in the
table.** -/
structure Held (node : MedacNode) : Prop where
  running : node.stopping = false
  /-- A peer is entered under its own key. -/
  keyed : ∀ e ∈ node.peers.entries, e.2.id = e.1
  /-- The key of a peer that was dialled is its address. -/
  address : ∀ p ∈ node.peers.values, ∀ url, p.peerUrl = some url → p.id = url
  attached : ∀ peer, peer ∈ node.peers.values ↔ Attached node peer
  capacity : node.peers.values.length ≤ node.maxPeers
  /-- The peer of a socket knows the number of its socket. -/
  listener : ∀ (n : ℕ) (s : Socket) (p : Peer), node.sockets[n]? = some s → s.listener = some p →
    p.socket = n
  /-- A socket that has not opened yet has no peer. -/
  connecting : ∀ (n : ℕ) (s : Socket), node.sockets[n]? = some s → s.readyState = .connecting →
    s.listener = none
  /-- The empty string is not dialled. -/
  dialled : ∀ (n : ℕ) (s : Socket) (url : Str), node.sockets[n]? = some s →
    s.dialled = some url → url ≠ []

variable {urls : UrlParser} {node node' : MedacNode}

theorem held_started (maxPeers : ℕ) : Held (started maxPeers) where
  running := rfl
  keyed := by simp [started, Js.Map.empty]
  address := by simp [started]
  attached := by simp [started, Attached]
  capacity := by simp [started]
  listener := by simp [started]
  connecting := by simp [started]
  dialled := by simp [started]

theorem Held.mem_values (h : Held node) {p : Peer} :
    p ∈ node.peers.values ↔ (p.id, p) ∈ node.peers.entries := by
  constructor
  · intro hp
    obtain ⟨e, he, rfl⟩ := List.mem_map.1 hp
    rw [h.keyed e he]
    exact he
  · exact fun hp => List.mem_map.2 ⟨_, hp, rfl⟩

theorem Held.eq_of_id (h : Held node) {p q : Peer} (hp : p ∈ node.peers.values)
    (hq : q ∈ node.peers.values) (hid : p.id = q.id) : p = q := by
  have hp' := Js.Map.get?_of_mem (h.mem_values.1 hp)
  have hq' := Js.Map.get?_of_mem (h.mem_values.1 hq)
  rw [hid, hq'] at hp'
  exact (Option.some_inj.1 hp').symm

theorem Held.keys (h : Held node) : node.peers.keys = node.peers.values.map Peer.id := by
  rw [Js.Map.keys, Js.Map.values, List.map_map]
  exact List.map_congr_left fun e he => (h.keyed e he).symm

theorem Held.tabled (h : Held node) : Tabled node where
  nodup := by
    have hkeys : (node.peers.values.map Peer.id).Nodup := h.keys ▸ node.peers.nodup
    exact List.Nodup.of_map Peer.id hkeys
  attached := h.attached
  address := by
    intro p hp q hq url hpu hqu
    exact h.eq_of_id hp hq ((h.address p hp url hpu).trans (h.address q hq url hqu).symm)
  capacity := h.capacity

theorem Held.mem_of_listener (h : Held node) {n : ℕ} {s : Socket} {p : Peer}
    (hn : node.sockets[n]? = some s) (hs : s.readyState ≠ .closed) (hp : s.listener = some p) :
    p ∈ node.peers.values :=
  (h.attached p).2 ⟨n, s, hn, hs, hp⟩

theorem Held.congr (h : Held node) (hstop : node'.stopping = node.stopping)
    (hmax : node'.maxPeers = node.maxPeers) (hpeers : node'.peers = node.peers)
    (hsockets : node'.sockets = node.sockets) : Held node' := by
  obtain ⟨max, stop, peers, attempts, timers, sockets⟩ := node
  obtain ⟨max', stop', peers', attempts', timers', sockets'⟩ := node'
  obtain rfl : stop' = stop := hstop
  obtain rfl : max' = max := hmax
  obtain rfl : peers' = peers := hpeers
  obtain rfl : sockets' = sockets := hsockets
  exact ⟨h.running, h.keyed, h.address, h.attached, h.capacity, h.listener, h.connecting,
    h.dialled⟩

/-! ### Sockets -/

theorem getElem?_updateSocket {node : MedacNode} {n m : ℕ} {f : Socket → Socket} {s : Socket} :
    (node.updateSocket n f).sockets[m]? = some s ↔
      ∃ t, node.sockets[m]? = some t ∧ s = if n = m then f t else t := by
  rw [MedacNode.updateSocket, List.getElem?_modify]
  cases node.sockets[m]? with
  | none => simp
  | some t => simp [eq_comm]

theorem attached_updateSocket {n : ℕ} {f : Socket → Socket}
    (hf : ∀ s, node.sockets[n]? = some s →
      (f s).listener = s.listener ∧ ((f s).readyState = .closed ↔ s.readyState = .closed))
    (p : Peer) : Attached (node.updateSocket n f) p ↔ Attached node p := by
  constructor
  · rintro ⟨m, s, hm, hs, hp⟩
    obtain ⟨t, ht, rfl⟩ := getElem?_updateSocket.1 hm
    by_cases hnm : n = m
    · subst hnm
      rw [if_pos rfl] at hs hp
      exact ⟨n, t, ht, fun h => hs ((hf t ht).2.2 h), (hf t ht).1 ▸ hp⟩
    · rw [if_neg hnm] at hs hp
      exact ⟨m, t, ht, hs, hp⟩
  · rintro ⟨m, t, hm, hs, hp⟩
    refine ⟨m, _, getElem?_updateSocket.2 ⟨t, hm, rfl⟩, ?_⟩
    by_cases hnm : n = m
    · subst hnm
      rw [if_pos rfl]
      exact ⟨fun h => hs ((hf t hm).2.1 h), (hf t hm).1.trans hp⟩
    · rw [if_neg hnm]
      exact ⟨hs, hp⟩

/-- A change of a socket that keeps its peer and its address, does not close it, and leaves no peer
on a socket that is connecting. -/
theorem Held.updateSocket (h : Held node) {n : ℕ} {f : Socket → Socket}
    (hf : ∀ s, node.sockets[n]? = some s → (f s).listener = s.listener ∧
      ((f s).readyState = .closed ↔ s.readyState = .closed) ∧ (f s).dialled = s.dialled ∧
      ((f s).readyState = .connecting → s.readyState = .connecting)) :
    Held (node.updateSocket n f) where
  running := h.running
  keyed := h.keyed
  address := h.address
  attached := fun p => (h.attached p).trans
    (attached_updateSocket (fun s hs => ⟨(hf s hs).1, (hf s hs).2.1⟩) p).symm
  capacity := h.capacity
  listener := by
    intro m s p hm hp
    obtain ⟨t, ht, rfl⟩ := getElem?_updateSocket.1 hm
    by_cases hnm : n = m
    · subst hnm
      rw [if_pos rfl, (hf t ht).1] at hp
      exact h.listener n t p ht hp
    · rw [if_neg hnm] at hp
      exact h.listener m t p ht hp
  connecting := by
    intro m s hm hs
    obtain ⟨t, ht, rfl⟩ := getElem?_updateSocket.1 hm
    by_cases hnm : n = m
    · subst hnm
      rw [if_pos rfl] at hs ⊢
      rw [(hf t ht).1]
      exact h.connecting n t ht ((hf t ht).2.2.2 hs)
    · rw [if_neg hnm] at hs ⊢
      exact h.connecting m t ht hs
  dialled := by
    intro m s url hm hs
    obtain ⟨t, ht, rfl⟩ := getElem?_updateSocket.1 hm
    by_cases hnm : n = m
    · subst hnm
      rw [if_pos rfl, (hf t ht).2.2.1] at hs
      exact h.dialled n t url ht hs
    · rw [if_neg hnm] at hs
      exact h.dialled m t url ht hs

theorem Held.shut (h : Held node) (n : ℕ) : Held (node.shut n) := by
  refine h.updateSocket fun s _ => ?_
  by_cases hs : s.readyState = .closed
  · rw [if_pos hs]
    exact ⟨rfl, Iff.rfl, rfl, id⟩
  · rw [if_neg hs]
    exact ⟨rfl, ⟨nofun, fun h => absurd h hs⟩, rfl, nofun⟩

theorem getElem?_addSocket {node : MedacNode} {socket s : Socket} {m : ℕ} :
    (node.addSocket socket).sockets[m]? = some s ↔
      node.sockets[m]? = some s ∨ m = node.sockets.length ∧ socket = s := by
  rw [MedacNode.addSocket, List.getElem?_append]
  split
  case isTrue hm =>
      constructor
      · exact Or.inl
      · rintro (hs | ⟨rfl, -⟩)
        · exact hs
        · exact absurd hm (lt_irrefl _)
  case isFalse hm =>
      rw [List.getElem?_eq_none (not_lt.1 hm), List.getElem?_singleton]
      by_cases hzero : m - node.sockets.length = 0
      · have : m = node.sockets.length := by omega
        simp [this]
      · have : m ≠ node.sockets.length := by omega
        simp [hzero, this]

theorem Held.addSocket (h : Held node) {socket : Socket} (hnone : socket.listener = none)
    (hurl : ∀ url, socket.dialled = some url → url ≠ []) : Held (node.addSocket socket) where
  running := h.running
  keyed := h.keyed
  address := h.address
  attached := by
    intro p
    refine (h.attached p).trans ⟨?_, ?_⟩
    · rintro ⟨n, s, hn, hs⟩
      exact ⟨n, s, getElem?_addSocket.2 (Or.inl hn), hs⟩
    · rintro ⟨n, s, hn, hs, hp⟩
      rcases getElem?_addSocket.1 hn with hn | ⟨-, rfl⟩
      · exact ⟨n, s, hn, hs, hp⟩
      · rw [hnone] at hp
        cases hp
  capacity := h.capacity
  listener := by
    intro n s p hn hp
    rcases getElem?_addSocket.1 hn with hn | ⟨-, rfl⟩
    · exact h.listener n s p hn hp
    · rw [hnone] at hp
      cases hp
  connecting := by
    intro n s hn hs
    rcases getElem?_addSocket.1 hn with hn | ⟨-, rfl⟩
    · exact h.connecting n s hn hs
    · exact hnone
  dialled := by
    intro n s url hn hs
    rcases getElem?_addSocket.1 hn with hn | ⟨-, rfl⟩
    · exact h.dialled n s url hn hs
    · exact hurl url hs


/-! ### Timers and dials -/

theorem scheduleReconnect_keeps (node : MedacNode) (url : Str) :
    (node.scheduleReconnect url).stopping = node.stopping ∧
      (node.scheduleReconnect url).maxPeers = node.maxPeers ∧
      (node.scheduleReconnect url).peers = node.peers ∧
      (node.scheduleReconnect url).sockets = node.sockets := by
  rw [MedacNode.scheduleReconnect]
  split <;> exact ⟨rfl, rfl, rfl, rfl⟩

theorem connectTo_eq_ok {url : Str} (h : node.connectTo urls url = .ok node') :
    node' = node ∨ url ≠ [] ∧ node' = node.addSocket ⟨.connecting, some url, none⟩ := by
  rw [MedacNode.connectTo] at h
  split at h
  · exact Or.inl (Except.ok.inj h).symm
  · cases hparse : urls.parse url with
    | none =>
        rw [hparse] at h
        cases h
    | some parsed =>
        have hne : url ≠ [] := by
          rintro rfl
          rw [urls.parse_nil] at hparse
          cases hparse
        simp only [hparse] at h
        split at h
        · cases h
        · split at h
          · cases h
          · split at h
            · exact Or.inl (Except.ok.inj h).symm
            · exact Or.inr ⟨hne, (Except.ok.inj h).symm⟩

theorem Held.settle_connectTo (h : Held node) (url : Str) :
    Held (settle node (node.connectTo urls url)) ∧
      (settle node (node.connectTo urls url)).peers = node.peers := by
  cases hcall : node.connectTo urls url with
  | error e => exact ⟨h, rfl⟩
  | ok node' =>
      rcases connectTo_eq_ok hcall with rfl | ⟨hne, rfl⟩
      · exact ⟨h, rfl⟩
      · refine ⟨h.addSocket rfl ?_, rfl⟩
        rintro _ ⟨⟩
        exact hne

/-! ### Attaching a connection -/

theorem peerId_of_ne_nil {url : Str} (hurl : url ≠ []) (label drawn : Str) :
    MedacNode.peerId (some url) label drawn = url := by
  cases url with
  | nil => exact absurd rfl hurl
  | cons c url => rfl

variable {n : ℕ} {s : Socket} {peerUrl : Option Str} {label drawn : Str}

theorem attachPeer_of_full (h : node.maxPeers ≤ node.peers.values.length) :
    node.attachPeer n peerUrl label drawn = node.shut n := by
  have hsize : node.maxPeers ≤ node.peers.size := by
    simpa [Js.Map.values, Js.Map.size] using h
  rw [MedacNode.attachPeer, if_pos (by simp [hsize])]

theorem attachPeer_of_room (hrun : node.stopping = false)
    (h : node.peers.values.length < node.maxPeers) :
    node.attachPeer n peerUrl label drawn =
      node.enter ⟨MedacNode.peerId peerUrl label drawn, label, peerUrl, n⟩ := by
  have hsize : ¬ node.maxPeers ≤ node.peers.size := by
    simpa [Js.Map.values, Js.Map.size] using h
  rw [MedacNode.attachPeer, if_neg (by simp [hrun, hsize])]

theorem attached_enter {new : Peer} (hn : node.sockets[new.socket]? = some s)
    (hs : s.readyState ≠ .closed) (hnone : s.listener = none) (p : Peer) :
    Attached (node.enter new) p ↔ Attached node p ∨ p = new := by
  constructor
  · rintro ⟨m, t, hm, ht, hp⟩
    obtain ⟨t, htm, rfl⟩ := getElem?_updateSocket.1 hm
    by_cases hnm : new.socket = m
    · rw [if_pos hnm] at hp
      exact Or.inr (Option.some_inj.1 hp).symm
    · rw [if_neg hnm] at ht hp
      exact Or.inl ⟨m, t, htm, ht, hp⟩
  · rintro (⟨m, t, hm, ht, hp⟩ | rfl)
    · refine ⟨m, t, getElem?_updateSocket.2 ⟨t, hm, ?_⟩, ht, hp⟩
      rw [if_neg]
      rintro rfl
      rw [hn, Option.some_inj] at hm
      rw [← hm, hnone] at hp
      cases hp
    · exact ⟨p.socket, _, getElem?_updateSocket.2 ⟨s, hn, rfl⟩, by rwa [if_pos rfl],
        by rw [if_pos rfl]⟩

/-- **A peer is entered** under a key that is not in the table. -/
theorem Held.enter (h : Held node) (new : Peer) (hn : node.sockets[new.socket]? = some s)
    (hs : s.readyState = .opened) (hnone : s.listener = none)
    (hurl : ∀ url, new.peerUrl = some url → new.id = url)
    (hroom : node.peers.values.length < node.maxPeers) (hfresh : new.id ∉ node.peers.keys) :
    Held (node.enter new) := by
  have hentries : (node.peers.set new.id new).entries = node.peers.entries ++ [(new.id, new)] :=
    store_of_not_mem hfresh
  have hvalues : (node.enter new).peers.values = node.peers.values ++ [new] := by
    change (node.peers.set new.id new).entries.map Prod.snd = _
    rw [hentries, List.map_append]
    rfl
  refine ⟨h.running, ?_, ?_, ?_, ?_, ?_, ?_, ?_⟩
  · intro e he
    change e ∈ (node.peers.set new.id new).entries at he
    rw [hentries, List.mem_append, List.mem_singleton] at he
    rcases he with he | rfl
    · exact h.keyed e he
    · rfl
  · intro p hp url hpu
    rw [hvalues, List.mem_append, List.mem_singleton] at hp
    rcases hp with hp | rfl
    · exact h.address p hp url hpu
    · exact hurl url hpu
  · intro p
    rw [attached_enter hn (by simp [hs]) hnone p, hvalues, List.mem_append, List.mem_singleton,
      h.attached p]
  · rw [hvalues, List.length_append, List.length_singleton]
    exact hroom
  · intro m t p hm hp
    obtain ⟨t, ht, rfl⟩ := getElem?_updateSocket.1 hm
    by_cases hnm : new.socket = m
    · rw [if_pos hnm] at hp
      rw [← Option.some_inj.1 hp]
      exact hnm
    · rw [if_neg hnm] at hp
      exact h.listener m t p ht hp
  · intro m t hm ht
    obtain ⟨t, htm, rfl⟩ := getElem?_updateSocket.1 hm
    by_cases hnm : new.socket = m
    · rw [← hnm, hn, Option.some_inj] at htm
      rw [if_pos hnm, ← htm, hs] at ht
      cases ht
    · rw [if_neg hnm] at ht ⊢
      exact h.connecting m t htm ht
  · intro m t url hm ht
    obtain ⟨t, htm, rfl⟩ := getElem?_updateSocket.1 hm
    refine h.dialled m t url htm ?_
    by_cases hnm : new.socket = m
    · rwa [if_pos hnm] at ht
    · rwa [if_neg hnm] at ht

/-- A peer that is entered under a key of the table pushes a peer out of it that is still
attached. -/
theorem Held.not_tabled_enter (h : Held node) (new : Peer)
    (hn : node.sockets[new.socket]? = some s) (hs : s.readyState = .opened)
    (hnone : s.listener = none) (hkey : new.id ∈ node.peers.keys) : ¬ Tabled (node.enter new) := by
  intro htabled
  rw [h.keys] at hkey
  obtain ⟨old, hold, hid⟩ := List.mem_map.1 hkey
  have hstill : old ∈ (node.peers.set new.id new).values :=
    (htabled.attached old).2 ((attached_enter hn (by simp [hs]) hnone old).2
      (Or.inl ((h.attached old).1 hold)))
  -- what is under the key now is the new peer, and the old peer is entered only there
  obtain ⟨e, he, rfl⟩ := List.mem_map.1 hstill
  have hget := Js.Map.get?_of_mem (show (e.1, e.2) ∈ (node.peers.set new.id new).entries from he)
  have hkey' : e.1 = new.id := by
    by_contra hne
    rw [Js.Map.get?_set_of_ne _ _ (Ne.symm hne)] at hget
    exact hne ((h.keyed _ (mem_of_lookup hget)).symm.trans hid)
  rw [hkey', Js.Map.get?_set_self, Option.some_inj] at hget
  obtain ⟨m, t, hm, -, hp⟩ := (h.attached e.2).1 hold
  have hmn : new.socket = m := by
    rw [← h.listener m t _ hm hp, ← hget]
  rw [← hmn, hn, Option.some_inj] at hm
  rw [← hm, hnone] at hp
  cases hp

/-- **A connection is attached**: the table stays right exactly if there is no room for it, or its
key is not in the table. -/
theorem Held.attachPeer (h : Held node) (peerUrl : Option Str) (label drawn : Str)
    (hn : node.sockets[n]? = some s)
    (hs : s.readyState = .opened) (hnone : s.listener = none)
    (hurl : ∀ url, peerUrl = some url → url ≠ []) :
    (Tabled (node.attachPeer n peerUrl label drawn) ↔
      (node.peers.values.length < node.maxPeers →
        MedacNode.peerId peerUrl label drawn ∉ node.peers.keys)) ∧
    ((node.peers.values.length < node.maxPeers →
        MedacNode.peerId peerUrl label drawn ∉ node.peers.keys) →
      Held (node.attachPeer n peerUrl label drawn)) := by
  rcases Nat.lt_or_ge node.peers.values.length node.maxPeers with hroom | hfull
  · rw [attachPeer_of_room h.running hroom]
    have hurl' : ∀ url, peerUrl = some url → MedacNode.peerId peerUrl label drawn = url := by
      rintro url rfl
      exact peerId_of_ne_nil (hurl url rfl) label drawn
    have hheld := h.enter ⟨MedacNode.peerId peerUrl label drawn, label, peerUrl, n⟩ hn hs hnone
      hurl' hroom
    refine ⟨⟨fun htabled _ hkey => ?_, fun hfresh => (hheld (hfresh hroom)).tabled⟩,
      fun hfresh => hheld (hfresh hroom)⟩
    exact h.not_tabled_enter ⟨_, label, peerUrl, n⟩ hn hs hnone hkey htabled
  · rw [attachPeer_of_full hfull]
    have hheld := h.shut n
    exact ⟨⟨fun _ hroom => absurd hroom (not_lt.2 hfull), fun _ => hheld.tabled⟩, fun _ => hheld⟩

/-! ### The close of a connection -/

theorem closed_keeps (node : MedacNode) (n : ℕ) (s : Socket) :
    (closed node n s).stopping = node.stopping ∧
      (closed node n s).maxPeers = node.maxPeers ∧
      (closed node n s).sockets =
        (node.updateSocket n fun s => { s with readyState := .closed }).sockets ∧
      (closed node n s).peers = match s.listener with
        | some peer => node.peers.delete peer.id
        | none => node.peers := by
  have hdial : ∀ node : MedacNode, ∀ url,
      (if node.peers.has url then node else node.scheduleReconnect url).stopping = node.stopping ∧
      (if node.peers.has url then node else node.scheduleReconnect url).maxPeers = node.maxPeers ∧
      (if node.peers.has url then node else node.scheduleReconnect url).peers = node.peers ∧
      (if node.peers.has url then node else node.scheduleReconnect url).sockets =
        node.sockets := by
    intro node url
    split
    · exact ⟨rfl, rfl, rfl, rfl⟩
    · exact scheduleReconnect_keeps node url
  have hremove : ∀ (node : MedacNode) (peer : Peer),
      (node.removePeer peer).stopping = node.stopping ∧
      (node.removePeer peer).maxPeers = node.maxPeers ∧
      (node.removePeer peer).sockets = node.sockets ∧
      (node.removePeer peer).peers = node.peers.delete peer.id := by
    intro node peer
    rw [MedacNode.removePeer]
    split
    · split
      · exact ⟨rfl, rfl, rfl, rfl⟩
      · obtain ⟨h1, h2, h3, h4⟩ := scheduleReconnect_keeps
          { node with peers := node.peers.delete peer.id } _
        exact ⟨h1, h2, h4, h3⟩
    · exact ⟨rfl, rfl, rfl, rfl⟩
  obtain ⟨state, dialled, listener⟩ := s
  set node' := node.updateSocket n fun s => { s with readyState := .closed } with hnode'
  cases dialled with
  | none =>
      cases listener with
      | none => exact ⟨rfl, rfl, rfl, rfl⟩
      | some peer => exact hremove node' peer
  | some url =>
      obtain ⟨d1, d2, d3, d4⟩ := hdial node' url
      cases listener with
      | none => exact ⟨d1, d2, d4, d3⟩
      | some peer =>
          obtain ⟨r1, r2, r3, r4⟩ := hremove
            (if node'.peers.has url then node' else node'.scheduleReconnect url) peer
          exact ⟨r1.trans d1, r2.trans d2, r3.trans d4, r4.trans (by rw [d3]; rfl)⟩

theorem Held.mem_values_closed (h : Held node) (hn : node.sockets[n]? = some s)
    (hs : s.readyState ≠ .closed) (p : Peer) :
    p ∈ (closed node n s).peers.values ↔ p ∈ node.peers.values ∧ p.socket ≠ n := by
  rw [(closed_keeps node n s).2.2.2]
  cases hl : s.listener with
  | none =>
      simp only
      refine ⟨fun hp => ⟨hp, ?_⟩, And.left⟩
      rintro rfl
      obtain ⟨m, t, hm, -, ht⟩ := (h.attached p).1 hp
      obtain rfl := h.listener m t p hm ht
      rw [hn, Option.some_inj] at hm
      rw [← hm, hl] at ht
      cases ht
  | some peer =>
      simp only
      have hpeer : peer ∈ node.peers.values := h.mem_of_listener hn hs hl
      have hsocket : peer.socket = n := h.listener n s peer hn hl
      constructor
      · intro hp
        obtain ⟨e, he, rfl⟩ := List.mem_map.1 hp
        obtain ⟨hmem, hne⟩ := Js.Map.mem_entries_delete.1 he
        refine ⟨List.mem_map.2 ⟨e, hmem, rfl⟩, fun hsock => hne ?_⟩
        obtain ⟨m, t, hm, -, ht⟩ := (h.attached e.2).1 (List.mem_map.2 ⟨e, hmem, rfl⟩)
        obtain rfl := h.listener m t _ hm ht
        rw [hsock, hn, Option.some_inj] at hm
        rw [← hm, hl, Option.some_inj] at ht
        rw [← h.keyed e hmem, ht]
      · rintro ⟨hp, hne⟩
        refine List.mem_map.2
          ⟨_, Js.Map.mem_entries_delete.2 ⟨h.mem_values.1 hp, fun hid => hne ?_⟩, rfl⟩
        rw [h.eq_of_id hp hpeer hid, hsocket]

/-- **A socket has closed.** -/
theorem Held.closed (h : Held node) (hn : node.sockets[n]? = some s)
    (hs : s.readyState ≠ .closed) : Held (closed node n s) := by
  obtain ⟨hstop, hmax, hsockets, hpeers⟩ := closed_keeps node n s
  have hmem := h.mem_values_closed hn hs
  have hsock : ∀ {m : ℕ} {t : Socket}, (Connections.closed node n s).sockets[m]? = some t ↔
      ∃ t', node.sockets[m]? = some t' ∧ t = if n = m then { t' with readyState := .closed }
        else t' := by
    intro m t
    rw [hsockets]
    exact getElem?_updateSocket
  refine ⟨hstop.trans h.running, ?_, ?_, ?_, ?_, ?_, ?_, ?_⟩
  · intro e he
    rw [hpeers] at he
    cases hl : s.listener with
    | none => exact h.keyed e (by simpa only [hl] using he)
    | some peer =>
        simp only [hl] at he
        exact h.keyed e (Js.Map.mem_entries_delete.1 he).1
  · exact fun p hp => h.address p ((hmem p).1 hp).1
  · intro p
    rw [hmem, h.attached p]
    constructor
    · rintro ⟨⟨m, t, hm, ht, hp⟩, hne⟩
      refine ⟨m, t, hsock.2 ⟨t, hm, ?_⟩, ht, hp⟩
      rw [if_neg]
      rintro rfl
      exact hne (h.listener _ t p hm hp)
    · rintro ⟨m, t, hm, ht, hp⟩
      obtain ⟨t', hm', rfl⟩ := hsock.1 hm
      by_cases hnm : n = m
      · rw [if_pos hnm] at ht
        exact absurd rfl ht
      · rw [if_neg hnm] at ht hp
        refine ⟨⟨m, t', hm', ht, hp⟩, ?_⟩
        rw [h.listener m t' p hm' hp]
        exact Ne.symm hnm
  · rw [hmax]
    refine le_trans ?_ h.capacity
    rw [Js.Map.values, Js.Map.values, List.length_map, List.length_map, hpeers]
    cases s.listener with
    | none => exact le_refl _
    | some peer => exact List.length_filter_le _ _
  · intro m t p hm hp
    obtain ⟨t', hm', rfl⟩ := hsock.1 hm
    refine h.listener m t' p hm' ?_
    by_cases hnm : n = m
    · rwa [if_pos hnm] at hp
    · rwa [if_neg hnm] at hp
  · intro m t hm ht
    obtain ⟨t', hm', rfl⟩ := hsock.1 hm
    by_cases hnm : n = m
    · rw [if_pos hnm] at ht
      cases ht
    · rw [if_neg hnm] at ht ⊢
      exact h.connecting m t' hm' ht
  · intro m t url hm ht
    obtain ⟨t', hm', rfl⟩ := hsock.1 hm
    refine h.dialled m t' url hm' ?_
    by_cases hnm : n = m
    · rwa [if_pos hnm] at ht
    · rwa [if_neg hnm] at ht

/-! ### Every event -/

/-- **One event**: the table is right afterwards exactly if the event attaches no connection under
a key that is in the table. -/
theorem Held.step (h : Held node) {event : Event} (hstep : step urls node event = some node') :
    (Sound node event node' ↔ Fresh node event) ∧ (Fresh node event → Held node') := by
  -- an event that attaches nothing keeps the invariant
  have plain : attaching node event = none → Held node' → KeepsOthers node event node' →
      (Sound node event node' ↔ Fresh node event) ∧ (Fresh node event → Held node') := by
    intro hnone hheld hkeeps
    have hfresh : Fresh node event := fun key hkey => by
      rw [hnone] at hkey
      cases hkey
    exact ⟨iff_of_true ⟨hheld.tabled, hkeeps⟩ hfresh, fun _ => hheld⟩
  have keeps : (∀ n, event ≠ .closes n) → KeepsOthers node event node' :=
    fun hne n hn => absurd hn (hne n)
  cases event with
  | connectTo url =>
      obtain rfl := Option.some_inj.1 hstep
      exact plain rfl (h.settle_connectTo url).1 (keeps nofun)
  | opens n drawn =>
      simp only [Connections.step] at hstep
      split at hstep
      case h_2 => cases hstep
      case h_1 url listener hn =>
        obtain rfl := Option.some_inj.1 hstep
        have hne : url ≠ [] := h.dialled n _ url hn rfl
        have hnone : listener = none := h.connecting n _ hn rfl
        have hopened : Held { node.updateSocket n (fun s => { s with readyState := .opened }) with
            reconnectAttempts := node.reconnectAttempts.delete url } := by
          refine (h.updateSocket (n := n) (f := fun s => { s with readyState := .opened })
            ?_).congr rfl rfl rfl rfl
          intro s hs
          rw [hn, Option.some_inj] at hs
          subst hs
          exact ⟨rfl, by simp, rfl, nofun⟩
        have key := hopened.attachPeer (n := n) (some url) url drawn
          (getElem?_updateSocket.2 ⟨_, hn, rfl⟩) (by rw [if_pos rfl])
          (by rw [if_pos rfl]; exact hnone)
          (by rintro _ ⟨⟩; exact hne)
        have hattaching : attaching node (.opens n drawn) =
            some (MedacNode.peerId (some url) url drawn) := by
          rw [attaching, hn]
          rfl
        have hfresh : Fresh node (.opens n drawn) ↔
            (node.peers.values.length < node.maxPeers →
              MedacNode.peerId (some url) url drawn ∉ node.peers.keys) := by
          constructor
          · exact fun hf => hf _ hattaching
          · intro hf k hk
            rw [hattaching, Option.some_inj] at hk
            exact hk ▸ hf
        exact ⟨⟨fun hsound => hfresh.2 (key.1.1 hsound.1),
          fun hf => ⟨key.1.2 (hfresh.1 hf), keeps nofun⟩⟩, fun hf => key.2 (hfresh.1 hf)⟩
  | errors n =>
      simp only [Connections.step] at hstep
      split at hstep
      case h_2 => cases hstep
      case h_1 s hn =>
        split at hstep
        · cases hstep
        · obtain rfl := Option.some_inj.1 hstep
          refine plain rfl ?_ (keeps nofun)
          split
          · exact h.shut n
          · exact h
  | shuts n =>
      simp only [Connections.step] at hstep
      split at hstep
      · obtain rfl := Option.some_inj.1 hstep
        exact plain rfl (h.shut n) (keeps nofun)
      · cases hstep
  | closes n =>
      simp only [Connections.step] at hstep
      split at hstep
      case h_2 => cases hstep
      case h_1 s hn =>
        split at hstep
        · cases hstep
        · rename_i hs
          obtain rfl := Option.some_inj.1 hstep
          refine plain rfl (h.closed hn hs) ?_
          rintro m ⟨⟩ p hp hne
          exact (h.mem_values_closed hn hs p).2 ⟨hp, hne⟩
  | timer url =>
      simp only [Connections.step] at hstep
      split at hstep
      · obtain rfl := Option.some_inj.1 hstep
        have hdeleted : Held { node with
            reconnectTimers := node.reconnectTimers.delete url } := h.congr rfl rfl rfl rfl
        exact plain rfl (hdeleted.settle_connectTo url).1 (keeps nofun)
      · cases hstep
  | inbound address drawn =>
      obtain rfl := Option.some_inj.1 hstep
      have hadded : Held (node.addSocket ⟨.opened, none, none⟩) := h.addSocket rfl nofun
      have key := hadded.attachPeer (n := node.sockets.length) none address drawn
        (getElem?_addSocket.2 (Or.inr ⟨rfl, rfl⟩)) rfl rfl nofun
      have hfresh : Fresh node (.inbound address drawn) ↔
          (node.peers.values.length < node.maxPeers →
            MedacNode.peerId none address drawn ∉ node.peers.keys) := by
        constructor
        · exact fun hf => hf _ rfl
        · rintro hf _ ⟨⟩
          exact hf
      exact ⟨⟨fun hsound => hfresh.2 (key.1.1 hsound.1),
        fun hf => ⟨key.1.2 (hfresh.1 hf), keeps nofun⟩⟩, fun hf => key.2 (hfresh.1 hf)⟩

theorem Held.everyStep (h : Held node) (urls : UrlParser) (events : List Event) :
    EveryStep (Connections.step urls) Sound node events ↔
      EveryStep (Connections.step urls) (fun node event _ => Fresh node event) node events := by
  refine everyStep_iff (I := Held) ?_ h
  intro s e s' hs hstep
  exact hs.step hstep

/-- **The table is right after every event of a run, and no close takes the entry of another peer
out, exactly if no connection of the run is attached under a key that is in the table.** -/
theorem peers_tabled (urls : UrlParser) (maxPeers : ℕ) (events : List Event) :
    EveryStep (step urls) Sound (started maxPeers) events ↔
      EveryStep (step urls) (fun node event _ => Fresh node event) (started maxPeers) events :=
  (held_started maxPeers).everyStep urls events

def sampleUrls : UrlParser where
  parse url := if url = "ws://localhost:19444".toList then
    some ⟨"ws:".toList, "localhost".toList⟩ else none
  parse_nil := by decide

def sampleEvents : List Event :=
  [.connectTo "ws://localhost:19444".toList, .connectTo "ws://localhost:19444".toList, .opens 0 []]

def sampleDialled : MedacNode := (run (step sampleUrls) (started 32) sampleEvents).getD (started 32)

/-- **An address that is listed twice**: both dials open, and the table holds one of the two peers
that are attached. -/
theorem peers_not_tabled :
    ¬ ∀ (urls : UrlParser) (maxPeers : ℕ) (events : List Event),
      EveryStep (step urls) Sound (started maxPeers) events := by
  intro h
  have hfresh := ((held_started 32).everyStep _ _).1
    (h sampleUrls 32 (sampleEvents ++ [.opens 1 []]))
  have hrun : run (step sampleUrls) (started 32) sampleEvents = some sampleDialled := by
    decide +kernel
  obtain ⟨node', hnode⟩ : ∃ node', step sampleUrls sampleDialled (.opens 1 []) = some node' :=
    Option.isSome_iff_exists.1 (by decide +kernel)
  exact hfresh.last hrun hnode "ws://localhost:19444".toList (by decide +kernel) (by decide +kernel)
    (by decide +kernel)

end Medac.Connections
