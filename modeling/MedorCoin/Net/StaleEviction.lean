/-
**What is evicted for its age.**

The pool of transactions, its orphans, the peer manager and the network evict what was added, or
seen, too long ago.  Each subtracts the greatest age from the clock in `uint64_t`.  The clock counts
from the start of the machine, so that at first it shows less than that age; then the difference is
near the greatest number, and all are evicted at once.

Main definitions:

* `Net.PeerManager.evictStalePeers` — the peer manager;
* `Net.ConnectedPeers`, `ConnectedPeers.disconnectPeer`, `ConnectedPeers.evictStalePeers` — the
  network: its peers, the pooled connections it has closed and the calls of its callback;
* `Net.mayGo`, `Net.ConnectedPeer.mayGo` — a peer that is not banned and was seen.

Main results:

* `Node.Mempool.lookup_evictStale`, `Node.Mempool.lookup_evictStaleOrphans`,
  `Net.PeerManager.lookup_evictStalePeers`, `Net.ConnectedPeers.lookup_evictStalePeers` — **what
  each eviction leaves**;
* `Net.evictions_by_age` — **when each takes exactly what is older**.
-/

import MedorCoin.Ledger.Table
import MedorCoin.Net.PeerStore
import MedorCoin.Node.MempoolCapacity

set_option autoImplicit false

open Cpp Ledger

/-! ### The pool of transactions -/

namespace Node.Mempool

theorem lookup_removeTransaction (s : Mempool) (hash hash' : Str) :
    (removeTransaction s hash).entries.lookup hash' =
      if hash' = hash then none else s.entries.lookup hash' := by
  rw [← lookup_erase_eq]
  unfold removeTransaction
  cases hentry : s.entries.lookup hash with
  | none =>
      rw [lookup_erase_eq]
      split_ifs with heq
      · rw [heq, hentry]
      · rfl
  | some entry => rfl

theorem entries_evictStaleOrphans (P : Platform) (s : Mempool) :
    (evictStaleOrphans P s).entries = s.entries := rfl

/-- **What the eviction leaves in the pool.** -/
theorem lookup_evictStale (P : Platform) (s : Mempool) (hash : Str) :
    (evictStale P s).entries.lookup hash = (s.entries.lookup hash).filter fun entry =>
      !(true && decide (entry.addedAt < P.clock s.readings - P.cfg.maxTxAgeSeconds)) := by
  rw [evictStale, entries_evictStaleOrphans]
  exact lookup_sweep Mempool.entries lookup_removeTransaction
    { s with readings := s.readings + 1 } (P.order_perm s.entries.entries)
    (fun entry => decide (entry.addedAt < P.clock s.readings - P.cfg.maxTxAgeSeconds)) hash

/-- **What the eviction leaves among the orphans.** -/
theorem lookup_evictStaleOrphans (P : Platform) (s : Mempool) (hash : Str) :
    (evictStaleOrphans P s).orphans.lookup hash = (s.orphans.lookup hash).filter fun entry =>
      !(true && decide (entry.addedAt < P.clock s.readings - P.cfg.orphanMaxAgeSecs)) :=
  lookup_sweep id (fun m k k' => lookup_erase_eq m k k') s.orphans (List.Perm.refl _)
    (fun entry => decide (entry.addedAt < P.clock s.readings - P.cfg.orphanMaxAgeSecs)) hash

end Node.Mempool

namespace Net

/-! ### The peer manager -/

/-- A peer that is not banned and was seen. -/
def mayGo {D : Type} (peer : PeerInfo D) : Bool := !peer.isBanned && peer.lastSeenAt > 0

namespace PeerManager

variable {D : Type}

/-- `evictStalePeers()`. -/
def evictStalePeers (P : Platform D) (peerTimeoutSecs : UInt64) (m : PeerManager D)
    (now : UInt64) : PeerManager D :=
  let cutoff := now - peerTimeoutSecs
  let toEvict := (P.order m.peers.entries).filter fun e =>
    !e.2.isBanned && e.2.lastSeenAt > 0 && e.2.lastSeenAt < cutoff
  (toEvict.map Sigma.fst).foldl (fun m id => (m.removePeer id).2) m

theorem lookup_removePeer (m : PeerManager D) (id id' : Str) :
    (m.removePeer id).2.peers.lookup id' = if id' = id then none else m.peers.lookup id' := by
  unfold removePeer
  by_cases hmem : id ∈ m.peers
  · rw [if_pos hmem]
    exact lookup_erase_eq _ _ _
  · rw [if_neg hmem]
    split_ifs with heq
    · rw [heq]
      exact AList.lookup_eq_none.2 hmem
    · rfl

/-- **What the eviction leaves of the peers.** -/
theorem lookup_evictStalePeers (P : Platform D) (peerTimeoutSecs : UInt64) (m : PeerManager D)
    (now : UInt64) (id : Str) :
    (evictStalePeers P peerTimeoutSecs m now).peers.lookup id = (m.peers.lookup id).filter
      fun peer => !(mayGo peer && decide (peer.lastSeenAt < now - peerTimeoutSecs)) :=
  lookup_sweep PeerManager.peers lookup_removePeer m (P.order_perm m.peers.entries)
    (fun peer => mayGo peer && decide (peer.lastSeenAt < now - peerTimeoutSecs)) id

end PeerManager

/-! ### The network -/

/-- What the eviction reads of `Network::PeerInfo`. -/
structure ConnectedPeer where
  address : Str
  port : UInt16
  lastSeenAt : UInt64 := 0
  isBanned : Bool := false

/-- A peer that is not banned and was seen. -/
def ConnectedPeer.mayGo (info : ConnectedPeer) : Bool := !info.isBanned && info.lastSeenAt > 0

/-- The peers of the network, the keys whose pooled connections were closed, the calls of
`onPeerDisconnectedFn_`, and the counters. -/
structure ConnectedPeers where
  peers : AList fun _ : Str => ConnectedPeer := ∅
  closed : List Str := []
  disconnected : List Str := []
  activePeers : UInt64 := 0
  peersEvicted : UInt64 := 0

namespace ConnectedPeers

/-- `disconnectPeer(peerId)`. -/
def disconnectPeer (n : ConnectedPeers) (peerId : Str) : Bool × ConnectedPeers :=
  match n.peers.lookup peerId with
  | none => (false, n)
  | some info =>
      (true, { n with
        peers := n.peers.erase peerId
        closed := n.closed ++ [PeerManager.peerKey info.address info.port]
        disconnected := n.disconnected ++ [peerId]
        activePeers := n.activePeers - 1 })

/-- A turn of the second loop. -/
def evict (n : ConnectedPeers) (key : Str) : ConnectedPeers :=
  let n := (n.disconnectPeer key).2
  { n with peersEvicted := n.peersEvicted + 1 }

/-- `evictStalePeers()`; `order` is the order in which the shards are gone through. -/
def evictStalePeers
    (order : List (Σ _ : Str, ConnectedPeer) → List (Σ _ : Str, ConnectedPeer))
    (peerTimeoutSecs : UInt64) (n : ConnectedPeers) (now : UInt64) : ConnectedPeers :=
  let cutoff := now - peerTimeoutSecs
  let toEvict := (order n.peers.entries).filter fun e =>
    !e.2.isBanned && e.2.lastSeenAt > 0 && e.2.lastSeenAt < cutoff
  (toEvict.map Sigma.fst).foldl evict n

theorem lookup_evict (n : ConnectedPeers) (key key' : Str) :
    (n.evict key).peers.lookup key' = if key' = key then none else n.peers.lookup key' := by
  rw [evict, disconnectPeer]
  cases hinfo : n.peers.lookup key with
  | none =>
      split_ifs with heq
      · rw [heq]
        exact hinfo
      · rfl
  | some info => exact lookup_erase_eq _ _ _

/-- **What the eviction leaves of the peers.** -/
theorem lookup_evictStalePeers
    {order : List (Σ _ : Str, ConnectedPeer) → List (Σ _ : Str, ConnectedPeer)}
    (horder : ∀ l, (order l).Perm l) (peerTimeoutSecs : UInt64) (n : ConnectedPeers)
    (now : UInt64) (key : Str) :
    (evictStalePeers order peerTimeoutSecs n now).peers.lookup key = (n.peers.lookup key).filter
      fun info => !(info.mayGo && decide (info.lastSeenAt < now - peerTimeoutSecs)) :=
  lookup_sweep ConnectedPeers.peers lookup_evict n (horder n.peers.entries)
    (fun info => info.mayGo && decide (info.lastSeenAt < now - peerTimeoutSecs)) key

end ConnectedPeers

/-! ### Age -/

/-- The clock shows as much as the greatest age, or nothing that may go is below the difference that
wrapped around. -/
def ClockReaches {ν : Type} (now maxAge : UInt64) (eligible : ν → Bool) (time : ν → UInt64)
    (m : AList fun _ : Str => ν) : Prop :=
  maxAge ≤ now ∨ ∀ k v, m.lookup k = some v → eligible v = true →
    2 ^ 64 + now.toNat ≤ (time v).toNat + maxAge.toNat

section

variable {D : Type}

theorem sweptByAge_evictStale (P : Node.Mempool.Platform) (s : Node.Mempool) :
    SweptByAge (P.clock s.readings) P.cfg.maxTxAgeSeconds (fun _ => true)
        Node.MempoolEntry.addedAt s.entries (Node.Mempool.evictStale P s).entries ↔
      ClockReaches (P.clock s.readings) P.cfg.maxTxAgeSeconds (fun _ => true)
        Node.MempoolEntry.addedAt s.entries :=
  sweptByAge_iff (Node.Mempool.lookup_evictStale P s)

theorem sweptByAge_evictStaleOrphans (P : Node.Mempool.Platform) (s : Node.Mempool) :
    SweptByAge (P.clock s.readings) P.cfg.orphanMaxAgeSecs (fun _ => true)
        Node.MempoolEntry.addedAt s.orphans (Node.Mempool.evictStaleOrphans P s).orphans ↔
      ClockReaches (P.clock s.readings) P.cfg.orphanMaxAgeSecs (fun _ => true)
        Node.MempoolEntry.addedAt s.orphans :=
  sweptByAge_iff (Node.Mempool.lookup_evictStaleOrphans P s)

theorem PeerManager.sweptByAge_evictStalePeers (P : PeerManager.Platform D)
    (peerTimeoutSecs : UInt64) (m : PeerManager D) (now : UInt64) :
    SweptByAge now peerTimeoutSecs mayGo PeerInfo.lastSeenAt m.peers
        (PeerManager.evictStalePeers P peerTimeoutSecs m now).peers ↔
      ClockReaches now peerTimeoutSecs mayGo PeerInfo.lastSeenAt m.peers :=
  sweptByAge_iff (PeerManager.lookup_evictStalePeers P peerTimeoutSecs m now)

theorem ConnectedPeers.sweptByAge_evictStalePeers
    (order : List (Σ _ : Str, ConnectedPeer) → List (Σ _ : Str, ConnectedPeer))
    (horder : ∀ l, (order l).Perm l) (peerTimeoutSecs : UInt64) (n : ConnectedPeers)
    (now : UInt64) :
    SweptByAge now peerTimeoutSecs ConnectedPeer.mayGo ConnectedPeer.lastSeenAt n.peers
        (ConnectedPeers.evictStalePeers order peerTimeoutSecs n now).peers ↔
      ClockReaches now peerTimeoutSecs ConnectedPeer.mayGo ConnectedPeer.lastSeenAt n.peers :=
  sweptByAge_iff (ConnectedPeers.lookup_evictStalePeers horder peerTimeoutSecs n now)

/-- **When each eviction takes exactly what is older** than the greatest age, in unbounded
integers: the clock shows as much as that age, or nothing that may go is below the difference that
wrapped around. -/
theorem evictions_by_age (pool : Node.Mempool.Platform) (s : Node.Mempool)
    (P : PeerManager.Platform D) (m : PeerManager D)
    (order : List (Σ _ : Str, ConnectedPeer) → List (Σ _ : Str, ConnectedPeer))
    (horder : ∀ l, (order l).Perm l) (n : ConnectedPeers) (peerTimeoutSecs now : UInt64) :
    (SweptByAge (pool.clock s.readings) pool.cfg.maxTxAgeSeconds (fun _ => true)
        Node.MempoolEntry.addedAt s.entries (Node.Mempool.evictStale pool s).entries ↔
      ClockReaches (pool.clock s.readings) pool.cfg.maxTxAgeSeconds (fun _ => true)
        Node.MempoolEntry.addedAt s.entries) ∧
    (SweptByAge (pool.clock s.readings) pool.cfg.orphanMaxAgeSecs (fun _ => true)
        Node.MempoolEntry.addedAt s.orphans (Node.Mempool.evictStaleOrphans pool s).orphans ↔
      ClockReaches (pool.clock s.readings) pool.cfg.orphanMaxAgeSecs (fun _ => true)
        Node.MempoolEntry.addedAt s.orphans) ∧
    (SweptByAge now peerTimeoutSecs mayGo PeerInfo.lastSeenAt m.peers
        (PeerManager.evictStalePeers P peerTimeoutSecs m now).peers ↔
      ClockReaches now peerTimeoutSecs mayGo PeerInfo.lastSeenAt m.peers) ∧
    (SweptByAge now peerTimeoutSecs ConnectedPeer.mayGo ConnectedPeer.lastSeenAt n.peers
        (ConnectedPeers.evictStalePeers order peerTimeoutSecs n now).peers ↔
      ClockReaches now peerTimeoutSecs ConnectedPeer.mayGo ConnectedPeer.lastSeenAt n.peers) :=
  ⟨sweptByAge_evictStale pool s, sweptByAge_evictStaleOrphans pool s,
    PeerManager.sweptByAge_evictStalePeers P peerTimeoutSecs m now,
    ConnectedPeers.sweptByAge_evictStalePeers order horder peerTimeoutSecs n now⟩

end

/-! ### Ten seconds after the start -/

theorem order_id_perm (entries : List ((_ : Str) × Node.MempoolEntry)) :
    (id entries).Perm entries :=
  List.Perm.refl entries

/-- A pool on a machine that was started ten seconds ago. -/
def startedPool : Node.Mempool.Platform where
  cfg := {}
  hash := fun _ => 0
  order := id
  order_perm := order_id_perm
  clock := fun _ => 10

/-- What was added a second ago. -/
def recentEntry : Node.MempoolEntry := { tx := {}, addedAt := 9 }

/-- A peer that was seen a second ago. -/
def recentPeer : PeerInfo ℤ :=
  { PeerManager.samplePeer with lastSeenAt := 9 }

def recentConnection : ConnectedPeer := { address := str "10.0.0.7", port := 8333, lastSeenAt := 9 }

theorem not_clockReaches {ν : Type} (maxAge : UInt64) (eligible : ν → Bool) (time : ν → UInt64)
    {v : ν} (heligible : eligible v = true) (htime : time v = 9) (hage : 10 < maxAge) :
    ¬ ClockReaches 10 maxAge eligible time (AList.singleton (str "a") v) := by
  have hlt := maxAge.toNat_lt
  rintro (hle | h)
  · exact absurd hle (UInt64.not_le.2 hage)
  · have hwrap := h (str "a") v (lookup_singleton _ v) heligible
    rw [htime] at hwrap
    have hnow : (10 : UInt64).toNat = 10 := rfl
    have hnine : (9 : UInt64).toNat = 9 := rfl
    omega

/-- Ten seconds after the start what came a second ago is evicted everywhere. -/
theorem evicted_at_once :
    (¬ ∀ (P : Node.Mempool.Platform) (s : Node.Mempool),
      SweptByAge (P.clock s.readings) P.cfg.maxTxAgeSeconds (fun _ => true)
        Node.MempoolEntry.addedAt s.entries (Node.Mempool.evictStale P s).entries) ∧
    (¬ ∀ (P : Node.Mempool.Platform) (s : Node.Mempool),
      SweptByAge (P.clock s.readings) P.cfg.orphanMaxAgeSecs (fun _ => true)
        Node.MempoolEntry.addedAt s.orphans (Node.Mempool.evictStaleOrphans P s).orphans) ∧
    (¬ ∀ (P : PeerManager.Platform ℤ) (peerTimeoutSecs : UInt64) (m : PeerManager ℤ) (now : UInt64),
      SweptByAge now peerTimeoutSecs mayGo PeerInfo.lastSeenAt m.peers
        (PeerManager.evictStalePeers P peerTimeoutSecs m now).peers) ∧
    (¬ ∀ (peerTimeoutSecs : UInt64) (n : ConnectedPeers) (now : UInt64),
      SweptByAge now peerTimeoutSecs ConnectedPeer.mayGo ConnectedPeer.lastSeenAt n.peers
        (ConnectedPeers.evictStalePeers id peerTimeoutSecs n now).peers) := by
  refine ⟨fun h => ?_, fun h => ?_, fun h => ?_, fun h => ?_⟩
  · have hreaches := (sweptByAge_evictStale startedPool _).1
      (h startedPool { entries := AList.singleton (str "a") recentEntry })
    exact not_clockReaches 3600 (fun _ => true) Node.MempoolEntry.addedAt rfl rfl (by decide)
      hreaches
  · have hreaches := (sweptByAge_evictStaleOrphans startedPool _).1
      (h startedPool { orphans := AList.singleton (str "a") recentEntry })
    exact not_clockReaches 300 (fun _ => true) Node.MempoolEntry.addedAt rfl rfl (by decide)
      hreaches
  · have hreaches := (PeerManager.sweptByAge_evictStalePeers PeerManager.samplePlatform 120 _ 10).1
      (h PeerManager.samplePlatform 120 { peers := AList.singleton (str "a") recentPeer } 10)
    exact not_clockReaches 120 mayGo PeerInfo.lastSeenAt rfl rfl (by decide) hreaches
  · have hreaches := (ConnectedPeers.sweptByAge_evictStalePeers id
      (fun _ => List.Perm.refl _) 120 _ 10).1
        (h 120 { peers := AList.singleton (str "a") recentConnection } 10)
    exact not_clockReaches 120 ConnectedPeer.mayGo ConnectedPeer.lastSeenAt rfl rfl (by decide)
      hreaches

theorem evictions_by_age_twoMinutes :
    SweptByAge 120 120 mayGo PeerInfo.lastSeenAt (AList.singleton (str "a") recentPeer)
      (PeerManager.evictStalePeers PeerManager.samplePlatform 120
        { peers := AList.singleton (str "a") recentPeer } 120).peers :=
  (evictions_by_age startedPool {} PeerManager.samplePlatform
    { peers := AList.singleton (str "a") recentPeer } id (fun _ => List.Perm.refl _) {}
    120 120).2.2.1.2 (.inl (by decide))

end Net
