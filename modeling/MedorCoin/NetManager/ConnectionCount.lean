/-
**The connections of a host.**

The manager counts the connections of each host in a map of its own, next to the records of the
peers.  A connect that succeeds counts one up and removing a connected peer counts one down.  A
disconnect, a ban and an eviction end a connection too, and leave the count as it is.  So a host
runs out of connections that it does not have.

Connecting takes three critical sections: the check of the limit, the sending, and the end, which
counts.  Several connects can be on their way at once, and then each has passed the check before any
of them counts.

Main definitions:

* `NetManager.countOf`, `NetManager.connectedOn` — the count of a host, and its connected peers;
* `NetManager.Accurate` — **the count is right, and a host has room up to the limit**;
* `NetManager.Node`, `NetManager.Event`, `NetManager.step` — the manager with the connects on their
  way, and its critical sections;
* `NetManager.Keeps` — nothing ends a connection but removing the peer, and a connect that ends
  finds its peer as it was, and room for it.

Main results:

* `NetManager.run_connectToPeer` — a connect by itself is the function of the source;
* `NetManager.accurate_step_iff` — **what a step must do**;
* `NetManager.accurate_iff` — the counts are right in a run exactly if its steps do that.
-/

import MedorCoin.Js.Map
import MedorCoin.NetManager.Manager
import MedorCoin.Transition.Run

set_option autoImplicit false

namespace NetManager

open Cpp Transition

variable {D Json : Type}

/-! ### Counts and connections -/

/-- The count of a host. -/
def countOf (m : Impl D) (host : Str) : ℤ := (m.ipConnectionCount.get? host).getD 0

/-- A connected peer with this host. -/
def isOn (host : Str) (peer : PeerState D) : Bool := peer.connected && peer.host == host

/-- How many connected peers have this host. -/
def connectedOn (m : Impl D) (host : Str) : ℕ := m.peers.values.countP (isOn host)

/-- **The count of every host is the number of its connected peers**, which is within the limit; a
peer that is neither banned nor connected can be connected to exactly if its host is below it. -/
structure Accurate (m : Impl D) : Prop where
  counts : ∀ host, countOf m host = connectedOn m host
  limit : ∀ host, connectedOn m host ≤ MAX_PEERS_PER_IP
  room : ∀ peerId peer, m.peers.get? peerId = some peer → peer.banned = false →
    peer.connected = false →
      ((Impl.checkConnect m peerId).isSome ↔ connectedOn m peer.host < MAX_PEERS_PER_IP)

/-! ### The critical sections -/

/-- A change of a record that leaves the host and the connection alone. -/
structure Note (D : Type) where
  apply : PeerState D → PeerState D
  host : ∀ peer, (apply peer).host = peer.host
  connected : ∀ peer, (apply peer).connected = peer.connected

/-- A connect on its way: its check has passed, or it has tried to send. -/
inductive Dial
  | checked (peerId host : Str)
  | sent (peerId host : Str) (ok : Bool)

/-- A manager, and the connects on their way. -/
structure Node (D : Type) where
  manager : Impl D := {}
  dials : List Dial := []

/-- What happens next.  `note` is any critical section that leaves hosts and connections alone. -/
inductive Event (D : Type)
  | addPeer (id host : Str) (port : Int32) (trusted : Bool) (priority : Int32) (region : Str)
    (tags : List Str)
  | addBootstrap (host : Str) (port : Int32)
  | checkConnect (peerId : Str)
  | advance (i : ℕ)
  | disconnectPeer (peerId : Str)
  | banPeer (peerId : Str)
  | evictPeers
  | unbanExpired
  | removePeer (id : Str)
  | note (peerId : Str) (n : Note D)

variable (P : Platform D Json)

/-- The next section of a connect; none if the thread would wait for itself in it. -/
def Dial.advance (m : Impl D) : Dial → Option (Impl D × Option Dial)
  | .checked peerId host =>
      let data := P.dump (.hello (P.nowMs m.readings))
      let r := Impl.sendAttempts P peerId data (MAX_RETRY_ATTEMPTS + 1) m.tick
      if r.1 then some (r.2, some (.sent peerId host true))
      else if Impl.sendBans r.2 peerId then none
      else some (Impl.sendFailed P r.2 peerId, some (.sent peerId host false))
  | .sent peerId host ok =>
      if !ok && m.peers.has peerId then none
      else some (Impl.finishConnect P m peerId host ok, none)

/-- One critical section. -/
def step (s : Node D) : Event D → Option (Node D)
  | .addPeer id host port trusted priority region tags =>
      some { s with manager := Impl.addPeer P s.manager id host port trusted priority region tags }
  | .addBootstrap host port => some { s with manager := Impl.addBootstrap P s.manager host port }
  | .checkConnect peerId =>
      match Impl.checkConnect s.manager peerId with
      | none => some s
      | some (host, _) => some { s with dials := s.dials ++ [.checked peerId host] }
  | .advance i =>
      s.dials[i]?.bind fun dial => (dial.advance P s.manager).map fun r =>
        ⟨r.1, match r.2 with
          | some next => s.dials.set i next
          | none => s.dials.eraseIdx i⟩
  | .disconnectPeer peerId => some { s with manager := Impl.disconnectPeer P s.manager peerId }
  | .banPeer peerId => some { s with manager := Impl.banPeer P s.manager peerId }
  | .evictPeers => some { s with manager := Impl.evictPeers P s.manager }
  | .unbanExpired => some { s with manager := Impl.unbanExpired P s.manager }
  | .removePeer id => some { s with manager := Impl.removePeer s.manager id }
  | .note peerId n => some { s with manager := s.manager.modify peerId n.apply }

/-- **What a step must do to keep the counts right.** -/
def Keeps (s : Node D) : Event D → Prop
  | .advance i =>
      ∀ peerId host, s.dials[i]? = some (.sent peerId host true) →
        ∀ peer, s.manager.peers.get? peerId = some peer →
          peer.connected = false ∧ peer.host = host ∧
            connectedOn s.manager host < MAX_PEERS_PER_IP
  | .disconnectPeer peerId =>
      ∀ peer, s.manager.peers.get? peerId = some peer → peer.connected = false
  | .banPeer peerId =>
      ∀ peer, s.manager.peers.get? peerId = some peer → peer.connected = true →
        peer.trusted = true
  | .evictPeers =>
      s.manager.peers.size ≤ MAX_PEERS ∨
        ∀ id peer, s.manager.peers.get? id = some peer → peer.connected = true →
          peer.trusted = true
  | _ => True

/-! ### What the parts of a call do to them -/

variable {P} {m m' : Impl D} {id host : Str} {peer : PeerState D}

theorem toSizeT_natCast {n : ℕ} (h : n < 2 ^ 64) : toSizeT n = n := by
  rw [toSizeT, Int.emod_eq_of_lt (Int.natCast_nonneg n) (by exact_mod_cast h), Int.toNat_natCast]

theorem hostFull_eq (m : Impl D) (host : Str) :
    Impl.hostFull m host = decide (toSizeT (countOf m host) ≥ MAX_PEERS_PER_IP) := by
  rw [Impl.hostFull, countOf]
  cases m.ipConnectionCount.get? host with
  | none => rfl
  | some n => rfl

theorem accurate_iff_counts :
    Accurate m ↔ (∀ host, countOf m host = connectedOn m host) ∧
      ∀ host, connectedOn m host ≤ MAX_PEERS_PER_IP := by
  constructor
  · exact fun h => ⟨h.counts, h.limit⟩
  · rintro ⟨hcounts, hlimit⟩
    refine ⟨hcounts, hlimit, fun peerId peer hpeer hbanned hconnected => ?_⟩
    have hsmall : connectedOn m peer.host < 2 ^ 64 :=
      lt_of_le_of_lt (hlimit peer.host) (by decide)
    have hfull : Impl.hostFull m peer.host =
        decide (connectedOn m peer.host ≥ MAX_PEERS_PER_IP) := by
      rw [hostFull_eq, hcounts, toSizeT_natCast hsmall]
    have hcheck : Impl.checkConnect m peerId =
        if Impl.hostFull m peer.host then none else some (peer.host, peer.port) := by
      rw [Impl.checkConnect, hpeer]
      simp only [hbanned, hconnected, Bool.false_eq_true, if_false]
    rw [hcheck, hfull]
    by_cases hge : connectedOn m peer.host ≥ MAX_PEERS_PER_IP
    · simp [hge]
    · simp [hge, Nat.lt_of_not_ge hge]

theorem accurate_congr (hcount : ∀ host, countOf m' host = countOf m host)
    (hconnected : ∀ host, connectedOn m' host = connectedOn m host) :
    Accurate m' ↔ Accurate m := by
  simp only [accurate_iff_counts, hcount, hconnected]

theorem accurate_iff_connectedOn (h : Accurate m)
    (hcount : ∀ host, countOf m' host = countOf m host) :
    Accurate m' ↔ ∀ host, connectedOn m' host = connectedOn m host := by
  constructor
  · intro h' host
    have hsame : (connectedOn m' host : ℤ) = connectedOn m host := by
      rw [← h'.counts, hcount, h.counts]
    exact_mod_cast hsame
  · exact fun hsame => (accurate_congr hcount hsame).2 h

/-- **The connections after a record has changed.** -/
theorem connectedOn_modify (h : m.peers.get? id = some peer) (f : PeerState D → PeerState D)
    (host : Str) :
    connectedOn (m.modify id f) host + Js.one (isOn host) peer =
      connectedOn m host + Js.one (isOn host) (f peer) := by
  have hset := Js.Map.countP_set (isOn host) m.peers id (f peer)
  rw [h, Js.oneOf_some] at hset
  rw [Impl.modify, h]
  exact hset

theorem modify_of_none (h : m.peers.get? id = none) (f : PeerState D → PeerState D) :
    m.modify id f = m := by
  rw [Impl.modify, h]

@[simp] theorem countOf_modify (m : Impl D) (id : Str) (f : PeerState D → PeerState D)
    (host : Str) : countOf (m.modify id f) host = countOf m host := by
  rw [Impl.modify]
  cases m.peers.get? id <;> rfl

@[simp] theorem countOf_tick (m : Impl D) (host : Str) : countOf m.tick host = countOf m host := rfl

@[simp] theorem connectedOn_tick (m : Impl D) (host : Str) :
    connectedOn m.tick host = connectedOn m host := rfl

@[simp] theorem get?_tick (m : Impl D) (id : Str) : m.tick.peers.get? id = m.peers.get? id := rfl

theorem connectedOn_note (m : Impl D) (id : Str) (n : Note D) (host : Str) :
    connectedOn (m.modify id n.apply) host = connectedOn m host := by
  cases hpeer : m.peers.get? id with
  | none => rw [modify_of_none hpeer]
  | some peer =>
      have hmodify := connectedOn_modify hpeer n.apply host
      have hsame : isOn host (n.apply peer) = isOn host peer := by
        rw [isOn, n.host, n.connected, isOn]
      rw [Js.one, Js.one, hsame] at hmodify
      exact Nat.add_right_cancel hmodify

/-- The sending leaves hosts and connections alone. -/
def noteSent (data : Str) : Note D := ⟨Impl.noteSent data, fun _ => rfl, fun _ => rfl⟩

/-- So does a violation. -/
def noteViolated : Note D := ⟨Impl.violated, fun _ => rfl, fun _ => rfl⟩

/-- So does the plan to reconnect. -/
def noteRescheduled (now : UInt64) : Note D := ⟨Impl.rescheduled now, fun _ => rfl, fun _ => rfl⟩

/-- And so does giving that up. -/
def noteGivenUp : Note D where
  apply peer := { peer with retryCount := 0, retryDelayMs := INITIAL_RETRY_DELAY_MS }
  host _ := rfl
  connected _ := rfl

/-- The end of a ban as well. -/
def noteUnbanned (now : UInt64) : Note D where
  apply := Impl.unbanned now
  host peer := by rw [Impl.unbanned]; split <;> rfl
  connected peer := by rw [Impl.unbanned]; split <;> rfl

/-- **The same counts and connections.** -/
def Alike (m' m : Impl D) : Prop :=
  (∀ host, countOf m' host = countOf m host) ∧ ∀ host, connectedOn m' host = connectedOn m host

theorem Alike.refl (m : Impl D) : Alike m m := ⟨fun _ => rfl, fun _ => rfl⟩

theorem Alike.trans {m₁ m₂ m₃ : Impl D} (h : Alike m₁ m₂) (h' : Alike m₂ m₃) : Alike m₁ m₃ :=
  ⟨fun host => (h.1 host).trans (h'.1 host), fun host => (h.2 host).trans (h'.2 host)⟩

theorem Alike.same_accurate (h : Alike m' m) : Accurate m' ↔ Accurate m := accurate_congr h.1 h.2

theorem alike_note (m : Impl D) (id : Str) (n : Note D) : Alike (m.modify id n.apply) m :=
  ⟨countOf_modify m id n.apply, connectedOn_note m id n⟩

theorem alike_scheduleReconnect (m : Impl D) (peerId : Str) :
    Alike (Impl.scheduleReconnect P m peerId) m := by
  rw [Impl.scheduleReconnect]
  cases m.peers.get? peerId with
  | none => exact Alike.refl m
  | some peer =>
      dsimp only
      split
      · exact alike_note m peerId noteGivenUp
      · exact alike_note m.tick peerId (noteRescheduled _)

theorem alike_sendAttempts (peerId data : Str) (n : ℕ) (m : Impl D) :
    Alike (Impl.sendAttempts P peerId data n m).2 m := by
  induction n generalizing m with
  | zero => exact Alike.refl m
  | succ n ih =>
      rw [Impl.sendAttempts]
      split
      · exact (ih _).trans (Alike.refl m)
      · exact alike_note { m with attempts := m.attempts + 1 } peerId (noteSent data)

theorem alike_unbanExpired (m : Impl D) : Alike (Impl.unbanExpired P m) m := by
  have hfold (now : UInt64) (ids : List Str) (m : Impl D) :
      Alike (ids.foldl (fun m id => m.modify id (Impl.unbanned now)) m) m := by
    induction ids generalizing m with
    | nil => exact Alike.refl m
    | cons id ids ih => exact (ih _).trans (alike_note m id (noteUnbanned now))
  exact hfold _ _ m.tick

theorem alike_set_new {peer : PeerState D} (hnew : m.peers.get? id = none)
    (hpeer : peer.connected = false) : Alike { m with peers := m.peers.set id peer } m := by
  refine ⟨fun _ => rfl, fun host => ?_⟩
  have hset := Js.Map.countP_set (isOn host) m.peers id peer
  have hone : Js.one (isOn host) peer = 0 := by rw [Js.one, isOn, hpeer]; rfl
  rw [hnew, Js.oneOf_none, hone] at hset
  exact hset

theorem get?_eq_none_of_has (h : m.peers.has id = false) : m.peers.get? id = none :=
  Option.isNone_iff_eq_none.1 (by rw [Js.Map.has] at h; simpa using h)

theorem alike_addPeer (m : Impl D) (id host : Str) (port : Int32) (trusted : Bool)
    (priority : Int32) (region : Str) (tags : List Str) :
    Alike (Impl.addPeer P m id host port trusted priority region tags) m := by
  rw [Impl.addPeer]
  split
  · exact Alike.refl m
  split
  · exact Alike.refl m
  split
  · exact Alike.refl m
  · next hnew => exact alike_set_new (get?_eq_none_of_has (Bool.eq_false_iff.2 hnew)) rfl

theorem alike_addBootstrap (m : Impl D) (host : Str) (port : Int32) :
    Alike (Impl.addBootstrap P m host port) m := by
  rw [Impl.addBootstrap]
  split
  · exact Alike.refl m
  · next hnew => exact alike_set_new (get?_eq_none_of_has (Bool.eq_false_iff.2 hnew)) rfl

/-! ### Connections that end -/

theorem connectedOn_ended {f : PeerState D → PeerState D} (hf : ∀ peer, (f peer).connected = false)
    (h : m.peers.get? id = some peer) (host : Str) :
    connectedOn (m.modify id f) host + Js.one (isOn host) peer = connectedOn m host := by
  have hmodify := connectedOn_modify h f host
  have hone : Js.one (isOn host) (f peer) = 0 := by rw [Js.one, isOn, hf]; rfl
  rwa [hone, Nat.add_zero] at hmodify

/-- **A connection that ends without being counted**: the counts stay right just if there was
none. -/
theorem accurate_ended_iff {f : PeerState D → PeerState D}
    (hf : ∀ peer, (f peer).connected = false) (hm : Accurate m)
    (h : m.peers.get? id = some peer) :
    Accurate (m.modify id f) ↔ peer.connected = false := by
  rw [accurate_iff_connectedOn hm (countOf_modify m id f)]
  constructor
  · intro hsame
    have hended := connectedOn_ended hf h peer.host
    rw [hsame] at hended
    have hone : Js.one (isOn peer.host) peer = 0 := by omega
    rw [Js.one, isOn, beq_self_eq_true, Bool.and_true] at hone
    cases hconnected : peer.connected with
    | false => rfl
    | true =>
        rw [hconnected] at hone
        exact absurd hone (by decide)
  · intro hconnected host
    have hended := connectedOn_ended hf h host
    have hone : Js.one (isOn host) peer = 0 := by rw [Js.one, isOn, hconnected]; rfl
    rwa [hone, Nat.add_zero] at hended

theorem accurate_disconnectPeer_iff (hm : Accurate m) (peerId : Str) :
    Accurate (Impl.disconnectPeer P m peerId) ↔
      ∀ peer, m.peers.get? peerId = some peer → peer.connected = false := by
  rw [Impl.disconnectPeer]
  cases hpeer : m.peers.get? peerId with
  | none => exact iff_of_true hm fun _ h => nomatch h
  | some peer =>
      simp only [Option.some.injEq, forall_eq']
      cases hconnected : peer.connected with
      | false => exact iff_of_true hm rfl
      | true =>
          have hended := accurate_ended_iff (f := Impl.unlinked) (fun _ => rfl) hm hpeer
          rw [hconnected] at hended
          simp only [Bool.not_true, Bool.false_eq_true, if_false]
          rw [← hended]
          split
          · exact Iff.rfl
          · split
            · exact (alike_scheduleReconnect _ _).same_accurate
            · exact Iff.rfl

theorem accurate_banPeer_iff (hm : Accurate m) (peerId : Str) :
    Accurate (Impl.banPeer P m peerId) ↔
      ∀ peer, m.peers.get? peerId = some peer → peer.connected = true → peer.trusted = true := by
  rw [Impl.banPeer]
  cases hpeer : m.peers.get? peerId with
  | none => exact iff_of_true hm fun _ h => nomatch h
  | some peer =>
      simp only [Option.some.injEq, forall_eq']
      cases htrusted : peer.trusted with
      | true => exact iff_of_true hm fun _ => rfl
      | false =>
          have htick : Accurate m.tick :=
            (accurate_congr (countOf_tick m) (connectedOn_tick m)).2 hm
          have hended := accurate_ended_iff (f := Impl.banned (P.nowSecs m.readings))
            (fun _ => rfl) htick hpeer
          rw [if_neg Bool.false_ne_true, hended]
          cases peer.connected <;> simp

theorem mem_ranked {r : D × Str} (h : r ∈ Impl.ranked P m) :
    ∃ peer, m.peers.get? r.2 = some peer ∧ peer.connected = true ∧ peer.trusted = false := by
  rw [Impl.ranked, List.mem_mergeSort, List.mem_map] at h
  obtain ⟨⟨id, peer⟩, hmem, rfl⟩ := h
  rw [List.mem_filter, Bool.and_eq_true, Bool.not_eq_true'] at hmem
  obtain ⟨hmem, hconnected, htrusted⟩ := hmem
  exact ⟨peer, Js.Map.get?_of_mem ((P.order_perm _).mem_iff.1 hmem), hconnected, htrusted⟩

theorem ranked_ne_nil (h : m.peers.get? id = some peer) (hconnected : peer.connected = true)
    (htrusted : peer.trusted = false) : Impl.ranked P m ≠ [] := by
  intro hnil
  have hmem : (peer.score, id) ∈ Impl.ranked P m := by
    rw [Impl.ranked, List.mem_mergeSort, List.mem_map]
    refine ⟨(id, peer), List.mem_filter.2 ⟨?_, ?_⟩, rfl⟩
    · exact (P.order_perm _).mem_iff.2 (Js.mem_of_lookup h)
    · rw [hconnected, htrusted]
      rfl
  rw [hnil] at hmem
  exact nomatch hmem

theorem connectedOn_unlinked_le (m : Impl D) (id host : Str) :
    connectedOn (m.modify id Impl.unlinked) host ≤ connectedOn m host := by
  cases hpeer : m.peers.get? id with
  | none => rw [modify_of_none hpeer]
  | some peer =>
      have hended := connectedOn_ended (f := Impl.unlinked) (fun _ => rfl) hpeer host
      omega

theorem connectedOn_unlink_all_le (l : List (D × Str)) (m : Impl D) (host : Str) :
    connectedOn (l.foldl (fun m r => m.modify r.2 Impl.unlinked) m) host ≤ connectedOn m host := by
  induction l generalizing m with
  | nil => exact le_rfl
  | cons r l ih => exact (ih _).trans (connectedOn_unlinked_le m r.2 host)

theorem countOf_unlink_all (l : List (D × Str)) (m : Impl D) (host : Str) :
    countOf (l.foldl (fun m r => m.modify r.2 Impl.unlinked) m) host = countOf m host := by
  induction l generalizing m with
  | nil => rfl
  | cons r l ih => exact (ih _).trans (countOf_modify m r.2 _ host)

theorem accurate_evictPeers_iff (hm : Accurate m) :
    Accurate (Impl.evictPeers P m) ↔ m.peers.size ≤ MAX_PEERS ∨
      ∀ id peer, m.peers.get? id = some peer → peer.connected = true → peer.trusted = true := by
  rw [Impl.evictPeers]
  split
  · next hle => exact iff_of_true hm (.inl hle)
  · next hgt =>
      have hpos : 0 < m.peers.size - MAX_PEERS := by omega
      rw [accurate_iff_connectedOn hm (countOf_unlink_all _ m), or_iff_right hgt]
      constructor
      · -- the first that is ranked would be missing on its host
        intro hsame id peer hpeer hconnected
        by_contra htrusted
        have hne := ranked_ne_nil (P := P) hpeer hconnected (Bool.eq_false_iff.2 htrusted)
        obtain ⟨r, l, hranked⟩ := List.exists_cons_of_ne_nil hne
        obtain ⟨peer', hpeer', hconnected', -⟩ :=
          mem_ranked (P := P) (m := m) (r := r) (by rw [hranked]; exact List.mem_cons_self)
        have hended := connectedOn_ended (f := Impl.unlinked) (fun _ => rfl) hpeer' peer'.host
        have hone : Js.one (isOn peer'.host) peer' = 1 := by
          rw [Js.one, isOn, hconnected', beq_self_eq_true]
          rfl
        have hrest := connectedOn_unlink_all_le (l.take (m.peers.size - MAX_PEERS - 1))
          (m.modify r.2 Impl.unlinked) peer'.host
        have htake : (r :: l).take (m.peers.size - MAX_PEERS) =
            r :: l.take (m.peers.size - MAX_PEERS - 1) := by
          obtain ⟨n, hn⟩ := Nat.exists_eq_succ_of_ne_zero (Nat.pos_iff_ne_zero.1 hpos)
          rw [hn, Nat.succ_eq_add_one, List.take_succ_cons, Nat.add_sub_cancel]
        have hequal := hsame peer'.host
        rw [hranked, htake, List.foldl_cons] at hequal
        omega
      · -- nobody is ranked
        intro htrusted host
        have hnil : Impl.ranked P m = [] := by
          refine List.eq_nil_iff_forall_not_mem.2 fun r hr => ?_
          obtain ⟨peer, hpeer, hconnected, huntrusted⟩ := mem_ranked hr
          rw [htrusted r.2 peer hpeer hconnected] at huntrusted
          exact Bool.noConfusion huntrusted
        rw [hnil, List.take_nil, List.foldl_nil]

/-! ### Connections that are counted -/

/-- **Removing a peer** takes its connection out of the count. -/
theorem accurate_removePeer (hm : Accurate m) (id : Str) : Accurate (Impl.removePeer m id) := by
  rw [Impl.removePeer]
  cases hpeer : m.peers.get? id with
  | none => exact hm
  | some peer =>
      have hdelete (host : Str) := Js.Map.countP_delete (isOn host) m.peers id
      simp only [hpeer, Js.oneOf_some] at hdelete
      dsimp only
      refine accurate_iff_counts.2 ⟨fun host => ?_, fun host => ?_⟩
      · have hcount := hm.counts host
        have hhost := hdelete host
        rw [countOf] at hcount ⊢
        rw [connectedOn] at hcount ⊢
        rw [Js.one, isOn] at hhost
        dsimp only
        cases hconnected : peer.connected with
        | false =>
            rw [hconnected, Bool.false_and, if_neg Bool.false_ne_true, Nat.add_zero] at hhost
            rw [if_neg Bool.false_ne_true, hhost, hcount]
        | true =>
            rw [hconnected, Bool.true_and] at hhost
            rw [if_pos rfl, Js.Map.get?_set]
            by_cases heq : peer.host = host
            · subst heq
              rw [beq_self_eq_true, if_pos rfl] at hhost
              rw [if_pos rfl, Option.getD_some, hcount]
              omega
            · rw [beq_eq_false_iff_ne.2 heq, if_neg Bool.false_ne_true, Nat.add_zero] at hhost
              rw [if_neg heq, hcount, hhost]
      · have hlimit := hm.limit host
        have hhost := hdelete host
        rw [connectedOn] at hlimit ⊢
        exact (Nat.le_of_add_right_le hhost.le).trans hlimit

theorem one_isOn (host : Str) (peer : PeerState D) :
    Js.one (isOn host) peer = if peer.connected = true ∧ peer.host = host then 1 else 0 := by
  rw [Js.one, isOn]
  simp only [Bool.and_eq_true, beq_iff_eq]

theorem countOf_finishConnect (hpeer : m.peers.get? id = some peer) (host h : Str) :
    countOf (Impl.finishConnect P m id host true) h =
      countOf m h + if host = h then 1 else 0 := by
  have hcount (h : Str) : countOf (m.tick.tick.modify id
      (Impl.linked (P.nowSecs m.readings) (P.nowSecs (m.readings + 1)))) h = countOf m h := by
    rw [countOf_modify, countOf_tick, countOf_tick]
  rw [Impl.finishConnect, hpeer]
  generalize m.tick.tick.modify id
    (Impl.linked (P.nowSecs m.readings) (P.nowSecs (m.readings + 1))) = next at hcount
  simp only [if_true]
  rw [← hcount h, countOf]
  dsimp only
  rw [Js.Map.get?_set]
  by_cases heq : host = h
  · rw [if_pos heq, if_pos heq, Option.getD_some, ← heq, countOf]
  · rw [if_neg heq, if_neg heq, add_zero, countOf]

theorem connectedOn_finishConnect (hpeer : m.peers.get? id = some peer) (host h : Str) :
    connectedOn (Impl.finishConnect P m id host true) h +
        (if peer.connected = true ∧ peer.host = h then 1 else 0) =
      connectedOn m h + if peer.host = h then 1 else 0 := by
  have hmodify := connectedOn_modify (m := m.tick.tick) hpeer
    (Impl.linked (P.nowSecs m.readings) (P.nowSecs (m.readings + 1))) h
  rw [one_isOn, one_isOn] at hmodify
  simp only [Impl.linked, true_and] at hmodify
  rw [Impl.finishConnect, hpeer]
  exact hmodify

/-- **The end of a connect** keeps the counts right just if the peer was not connected, has the host
that was checked, and the host has room. -/
theorem accurate_finishConnect_iff (hm : Accurate m) (peerId host : Str) :
    Accurate (Impl.finishConnect P m peerId host true) ↔
      ∀ peer, m.peers.get? peerId = some peer →
        peer.connected = false ∧ peer.host = host ∧ connectedOn m host < MAX_PEERS_PER_IP := by
  cases hpeer : m.peers.get? peerId with
  | none =>
      rw [Impl.finishConnect, hpeer]
      exact iff_of_true hm fun _ h => nomatch h
  | some peer =>
      simp only [Option.some.injEq, forall_eq']
      have hcount := countOf_finishConnect (P := P) hpeer host
      have hconnected := connectedOn_finishConnect (P := P) hpeer host
      generalize Impl.finishConnect P m peerId host true = next at hcount hconnected
      rw [accurate_iff_counts]
      constructor
      · -- the host that is counted up must have one connection more
        rintro ⟨hcounts, hlimit⟩
        have hmore := hconnected host
        have hle := hlimit host
        have hat := hcounts host
        rw [hcount, if_pos rfl, hm.counts] at hat
        split_ifs at hmore with h₁ h₂ h₂
        · omega
        · exact absurd h₁.2 h₂
        · refine ⟨Bool.eq_false_iff.2 fun hc => h₁ ⟨hc, h₂⟩, h₂, ?_⟩
          omega
        · omega
      · rintro ⟨hfree, rfl, hroom⟩
        have hmore (h : Str) : connectedOn next h =
            connectedOn m h + if peer.host = h then 1 else 0 := by
          have hh := hconnected h
          rwa [hfree, if_neg (by simp), Nat.add_zero] at hh
        refine ⟨fun h => ?_, fun h => ?_⟩
        · rw [hcount, hmore, hm.counts]
          push_cast
          rfl
        · have hlimit := hm.limit h
          rw [hmore]
          by_cases heq : peer.host = h
          · subst heq
            rw [if_pos rfl]
            omega
          · rw [if_neg heq]
            omega

/-! ### Runs -/

theorem alike_sendFailed {peerId : Str} (h : Impl.sendBans m peerId = false) :
    Alike (Impl.sendFailed P m peerId) m := by
  rw [Impl.sendFailed, h]
  exact alike_note m peerId noteViolated

/-- What the next critical section of a connect must do: the end after a send that went through must
find the peer as it was, and room for it. -/
theorem accurate_advance_iff {dial : Dial} {r : Impl D × Option Dial} (h : Accurate m)
    (hadvance : dial.advance P m = some r) :
    Accurate r.1 ↔ ∀ peerId host, dial = .sent peerId host true →
      ∀ peer, m.peers.get? peerId = some peer →
        peer.connected = false ∧ peer.host = host ∧ connectedOn m host < MAX_PEERS_PER_IP := by
  cases dial with
  | checked peerId host =>
      refine iff_of_true ?_ fun _ _ hd => Dial.noConfusion hd
      rw [Dial.advance] at hadvance
      have hsend := alike_sendAttempts (P := P) peerId
        (P.dump (.hello (P.nowMs m.readings))) (MAX_RETRY_ATTEMPTS + 1) m.tick
      have hticked : Accurate m.tick :=
        (accurate_congr (countOf_tick _) (connectedOn_tick _)).2 h
      split at hadvance
      · obtain rfl := Option.some.inj hadvance
        exact hsend.same_accurate.2 hticked
      split at hadvance
      · cases hadvance
      · next hbans =>
          obtain rfl := Option.some.inj hadvance
          exact ((alike_sendFailed (Bool.eq_false_iff.2 hbans)).trans hsend).same_accurate.2 hticked
  | sent peerId host ok =>
      rw [Dial.advance] at hadvance
      cases ok with
      | true =>
          obtain rfl := Option.some.inj hadvance
          simp only [Dial.sent.injEq, and_true]
          refine (accurate_finishConnect_iff h peerId host).trans
            ⟨?_, fun hk => hk _ _ ⟨rfl, rfl⟩⟩
          rintro hk _ _ ⟨rfl, rfl⟩
          exact hk
      | false =>
          refine iff_of_true ?_ fun _ _ hd => Bool.noConfusion (Dial.sent.inj hd).2.2
          split at hadvance
          · cases hadvance
          · next hnone =>
              obtain rfl := Option.some.inj hadvance
              have hget : m.peers.get? peerId = none := get?_eq_none_of_has (by simpa using hnone)
              have hsame : Impl.finishConnect P m peerId host false = m := by
                rw [Impl.finishConnect, hget]
              exact hsame.symm ▸ h

/-- **What a step must do** to keep the counts right. -/
theorem accurate_step_iff {s t : Node D} {e : Event D} (h : Accurate s.manager)
    (hstep : step P s e = some t) : Accurate t.manager ↔ Keeps s e := by
  cases e with
  | addPeer id host port trusted priority region tags =>
      obtain rfl := Option.some.inj hstep
      exact iff_of_true ((alike_addPeer _ _ _ _ _ _ _ _).same_accurate.2 h) trivial
  | addBootstrap host port =>
      obtain rfl := Option.some.inj hstep
      exact iff_of_true ((alike_addBootstrap _ _ _).same_accurate.2 h) trivial
  | checkConnect peerId =>
      refine iff_of_true ?_ trivial
      rw [step] at hstep
      split at hstep
      · obtain rfl := Option.some.inj hstep
        exact h
      · obtain rfl := Option.some.inj hstep
        exact h
  | advance i =>
      obtain ⟨dial, hdial, hmap⟩ := Option.bind_eq_some_iff.1 hstep
      obtain ⟨r, hadvance, rfl⟩ := Option.map_eq_some_iff.1 hmap
      rw [Keeps, hdial]
      exact (accurate_advance_iff h hadvance).trans (by simp only [Option.some.injEq])
  | disconnectPeer peerId =>
      obtain rfl := Option.some.inj hstep
      exact accurate_disconnectPeer_iff h peerId
  | banPeer peerId =>
      obtain rfl := Option.some.inj hstep
      exact accurate_banPeer_iff h peerId
  | evictPeers =>
      obtain rfl := Option.some.inj hstep
      exact accurate_evictPeers_iff h
  | unbanExpired =>
      obtain rfl := Option.some.inj hstep
      exact iff_of_true ((alike_unbanExpired _).same_accurate.2 h) trivial
  | removePeer id =>
      obtain rfl := Option.some.inj hstep
      exact iff_of_true (accurate_removePeer h id) trivial
  | note peerId n =>
      obtain rfl := Option.some.inj hstep
      exact iff_of_true ((alike_note _ _ n).same_accurate.2 h) trivial

theorem accurate_empty : Accurate ({} : Impl D) :=
  accurate_iff_counts.2 ⟨fun _ => rfl, fun _ => Nat.zero_le _⟩

/-! ### A connect by itself -/

/-- The sections of a connect that meets no other. -/
def connectEvents (s : Node D) (peerId : Str) : List (Event D) :=
  [.checkConnect peerId, .advance s.dials.length, .advance s.dials.length]

/-- What a connect sends. -/
def helloOf (P : Platform D Json) (m : Impl D) : Str := P.dump (.hello (P.nowMs m.readings))

/-- **A connect by itself is the function of the source.** -/
theorem run_connectToPeer {s : Node D} {peerId host : Str} {port : Int32}
    (hcheck : Impl.checkConnect s.manager peerId = some (host, port))
    (hsend : (Impl.sendAttempts P peerId (helloOf P s.manager) (MAX_RETRY_ATTEMPTS + 1)
      s.manager.tick).1 = true) :
    run (step P) s (connectEvents s peerId) =
      some { s with manager := Impl.connectToPeer P s.manager peerId } := by
  rw [helloOf] at hsend
  generalize hr : Impl.sendAttempts P peerId (P.dump (.hello (P.nowMs s.manager.readings)))
    (MAX_RETRY_ATTEMPTS + 1) s.manager.tick = r at hsend
  have hconnect : Impl.connectToPeer P s.manager peerId =
      Impl.finishConnect P r.2 peerId host true := by
    rw [Impl.connectToPeer, hcheck]
    simp only [Impl.sendToPeer, hr, hsend, if_true]
  have h₁ : step P s (.checkConnect peerId) =
      some { s with dials := s.dials ++ [.checked peerId host] } := by
    rw [step, hcheck]
  have h₂ : step P { s with dials := s.dials ++ [.checked peerId host] }
      (.advance s.dials.length) = some ⟨r.2, s.dials ++ [.sent peerId host true]⟩ := by
    rw [step, List.getElem?_concat_length, Option.bind_some, Dial.advance]
    simp only [hr, hsend, if_true, Option.map_some, List.set_append_right, le_refl, Nat.sub_self,
      List.set_cons_zero]
  have h₃ : step P ⟨r.2, s.dials ++ [.sent peerId host true]⟩ (.advance s.dials.length) =
      some { s with manager := Impl.connectToPeer P s.manager peerId } := by
    rw [step, List.getElem?_concat_length, Option.bind_some, Dial.advance, hconnect]
    simp only [Bool.not_true, Bool.false_and, Bool.false_eq_true, if_false, Option.map_some,
      List.eraseIdx_append_of_length_le, le_refl, Nat.sub_self, List.eraseIdx_cons_zero,
      List.append_nil]
  rw [connectEvents, run, h₁, Option.bind_some, run, h₂, Option.bind_some, run, h₃]
  rfl

/-- **The counts are right in every state of a run exactly if no step ends a connection but by
removing the peer, and every connect that ends finds its peer as it was and room for it.** -/
theorem accurate_iff (P : Platform D Json) (es : List (Event D)) :
    EveryStep (step P) (fun _ _ t => Accurate t.manager) {} es ↔
      EveryStep (step P) (fun s e _ => Keeps s e) {} es := by
  have hstep : ∀ (s : Node D) (e : Event D) (t : Node D), Accurate s.manager →
      step P s e = some t → (Accurate t.manager ↔ Keeps s e) ∧ (Keeps s e → Accurate t.manager) :=
    fun _ _ _ hs h => ⟨accurate_step_iff hs h, (accurate_step_iff hs h).2⟩
  exact everyStep_iff (I := fun s => Accurate s.manager) hstep accurate_empty

/-! ### A host that is locked out -/

def sampleCycles : List (Event Unit) :=
  .addPeer (str "p") (str "h") 30303 false 2 [] [] ::
    (List.replicate 5
      [.checkConnect (str "p"), .advance 0, .advance 0, .disconnectPeer (str "p")]).flatten

/-- **Five connections that ended.** The host has none, and there is no room for another. -/
theorem not_accurate_cycles :
    ¬ EveryStep (step samplePlatform) (fun _ _ t => Accurate t.manager) {} sampleCycles := by
  intro h
  have hsplit : sampleCycles = sampleCycles.dropLast ++ [.disconnectPeer (str "p")] := rfl
  rw [hsplit] at h
  obtain ⟨t, ht, hfull⟩ := h.exists_end
    (q := fun t => connectedOn t.manager (str "h") == 0 &&
      (Impl.checkConnect t.manager (str "p")).isNone &&
      ((t.manager.peers.get? (str "p")).any fun peer =>
        !peer.banned && !peer.connected && peer.host == str "h")) (by decide +kernel)
  simp only [Bool.and_eq_true, beq_iff_eq] at hfull
  obtain ⟨⟨hnone, hcheck⟩, hany⟩ := hfull
  obtain ⟨peer, hpeer, hfree⟩ := (Option.any_eq_true _ _).1 hany
  simp only [Bool.and_eq_true, Bool.not_eq_true', beq_iff_eq] at hfree
  obtain ⟨⟨hbanned, hconnected⟩, hhost⟩ := hfree
  have hroom := (ht.room (str "p") peer hpeer hbanned hconnected).2
    (by rw [hhost, hnone]; decide)
  rw [Option.isNone_iff_eq_none.1 hcheck] at hroom
  exact Bool.noConfusion hroom

end NetManager
