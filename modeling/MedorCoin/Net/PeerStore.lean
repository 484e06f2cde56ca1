/-
**The peers on the disk.**

The peer manager keeps its peers in memory and writes them to a file from time to time and at the
end.  By default a save is incremental: it writes the peers whose ids were marked since the save
before, and the file it writes replaces the old one.  A peer is marked when it is added and when its
ban expires.  A score, a ban and a decode error only set the flag `dirty` of the peer, which nobody
reads.  So the second save after a peer was added leaves it out of the file.

The shards are one map here, since the shard of a peer depends on its id alone; what a walk through
the shards meets first is not fixed.  `double` is any type with the operations of `Net.Double`.
Tokens, traffic counts, versions and log texts are left out.

Main definitions:

* `Net.PeerInfo`, `Net.PeerManager` — a peer; the manager, with the ids that are marked;
* `Net.StoredPeer`, `Net.PeerStore` — a record of the file; the file;
* `PeerManager.addPeer`, `removePeer`, `applyScore`, `banPeer`, `recordDecodeError`,
  `unbanExpiredPeers`, `savePeers`, `loadPeers`;
* `PeerManager.Restores` — every peer is back.

Main results:

* `PeerManager.lookup_loadPeers_savePeers` — **what a new manager finds in the file**;
* `PeerManager.restores_iff` — **when every peer is back**.
-/

import MedorCoin.Cpp.Text
import MedorCoin.Ledger.Table
import Mathlib.Data.Finset.Insert
import Mathlib.Data.List.AList

set_option autoImplicit false

namespace Net

open Cpp Ledger

/-- The operations of `double` that are used. -/
structure Double (D : Type) where
  add : D → D → D
  less : D → D → Bool
  lessEq : D → D → Bool
  zero : D
  ten : D
  hundred : D

/-- `std::clamp(x, 0.0, 100.0)`. -/
def Double.clamp {D : Type} (double : Double D) (x : D) : D :=
  if double.less x double.zero then double.zero
  else if double.less double.hundred x then double.hundred
  else x

/-- `struct PeerInfo`. -/
structure PeerInfo (D : Type) where
  id : Str
  address : Str
  port : UInt16
  connectedAt : UInt64 := 0
  lastSeenAt : UInt64 := 0
  banExpiresAt : UInt64 := 0
  banCount : UInt32 := 0
  decodeErrorCount : UInt32 := 0
  score : D
  isBanned : Bool := false
  isReachable : Bool := false
  handshakeDone : Bool := false
  dirty : Bool := false
  deriving DecidableEq

/-- `struct StoredPeer`; `addr` are the first `addrLen` bytes of the field. -/
structure StoredPeer (D : Type) where
  addr : Str
  port : UInt16
  score : D
  connectedAt : UInt64
  lastSeen : UInt64
  banExpiresAt : UInt64
  banCount : UInt32
  decodeErrorCount : UInt32
  isBanned : Bool
  handshakeDone : Bool

/-- A file of peers: the header and the records. -/
structure PeerStore (D : Type) where
  magic : UInt32
  version : UInt32
  numPeers : UInt32
  timestamp : UInt64
  checksum : UInt32
  payload : List (StoredPeer D)

/-- The peers and `dirtyIds_`. -/
structure PeerManager (D : Type) where
  peers : AList fun _ : Str => PeerInfo D := ∅
  dirtyIds : Finset Str := ∅

namespace PeerManager

/-- `struct PeerManagerConfig`. -/
structure Config where
  maxPeers : ℕ := 1000
  banDurationSecs : UInt64 := 3600
  maxDecodeErrorsBeforeBan : UInt32 := 10
  maxBanCount : UInt32 := 1000
  incrementalSave : Bool := true

/-- What the manager runs on: `double`, the checksum of the records, and the order in which the
peers are gone through. -/
structure Platform (D : Type) where
  double : Double D
  crc32 : List (StoredPeer D) → UInt32
  order : List (Σ _ : Str, PeerInfo D) → List (Σ _ : Str, PeerInfo D)
  order_perm : ∀ l, (order l).Perm l

variable {D : Type}

def STORE_MAGIC : UInt32 := 0x4D445250

def STORE_VERSION : UInt32 := 3

def peerKey (address : Str) (port : UInt16) : Str := address ++ 58 :: decimal port.toNat

/-! ### Peers -/

def markDirty (m : PeerManager D) (id : Str) : PeerManager D :=
  { m with dirtyIds := insert id m.dirtyIds }

def addPeer (cfg : Config) (m : PeerManager D) (info : PeerInfo D) : Bool × PeerManager D :=
  if info.id.isEmpty || info.address.isEmpty then (false, m)
  else if m.peers.keys.length ≥ cfg.maxPeers then (false, m)
  else if info.id ∈ m.peers then (false, m)
  else
    let copy := { info with dirty := true }
    (true, markDirty { m with peers := m.peers.insert info.id copy } info.id)

def removePeer (m : PeerManager D) (id : Str) : Bool × PeerManager D :=
  if id ∈ m.peers then (true, { m with peers := m.peers.erase id }) else (false, m)

/-- A change of a peer that is there. -/
def update (m : PeerManager D) (id : Str) (f : PeerInfo D → PeerInfo D) : PeerManager D :=
  match m.peers.lookup id with
  | none => m
  | some peer => { m with peers := m.peers.insert id (f peer) }

/-- The ban of a peer; its id is not marked. -/
def banned (cfg : Config) (now : UInt64) (peer : PeerInfo D) : PeerInfo D :=
  { peer with
    isBanned := true
    banExpiresAt := now + cfg.banDurationSecs
    banCount := if peer.banCount < cfg.maxBanCount then peer.banCount + 1 else peer.banCount
    dirty := true }

def scored (P : Platform D) (cfg : Config) (now : UInt64) (delta : D) (peer : PeerInfo D) :
    PeerInfo D :=
  let peer := { peer with score := P.double.clamp (P.double.add peer.score delta) }
  if P.double.lessEq peer.score P.double.zero && !peer.isBanned then banned cfg now peer else peer

def applyScore (P : Platform D) (cfg : Config) (m : PeerManager D) (now : UInt64) (id : Str)
    (delta : D) : PeerManager D := m.update id (scored P cfg now delta)

def banPeer (cfg : Config) (m : PeerManager D) (now : UInt64) (id : Str) :
    Bool × PeerManager D := (id ∈ m.peers, m.update id (banned cfg now))

def misread (cfg : Config) (now : UInt64) (peer : PeerInfo D) : PeerInfo D :=
  let peer := { peer with decodeErrorCount := peer.decodeErrorCount + 1 }
  if peer.decodeErrorCount ≥ cfg.maxDecodeErrorsBeforeBan && !peer.isBanned then
    banned cfg now peer
  else peer

def recordDecodeError (cfg : Config) (m : PeerManager D) (now : UInt64) (id : Str) :
    PeerManager D := m.update id (misread cfg now)

def unbanned (P : Platform D) (peer : PeerInfo D) : PeerInfo D :=
  { peer with isBanned := false, score := P.double.ten, dirty := true }

def unbanExpiredPeers (P : Platform D) (m : PeerManager D) (now : UInt64) : PeerManager D :=
  let expired := (P.order m.peers.entries).filter fun e => e.2.isBanned && e.2.banExpiresAt ≤ now
  let m := expired.foldl (fun m e => m.update e.1 (unbanned P)) m
  expired.foldl (fun m e => m.markDirty e.2.id) m

/-! ### Saving and loading -/

/-- The record of a peer. -/
def record (peer : PeerInfo D) : StoredPeer D where
  addr := peer.address.take 254
  port := peer.port
  score := peer.score
  connectedAt := peer.connectedAt
  lastSeen := peer.lastSeenAt
  banExpiresAt := peer.banExpiresAt
  banCount := peer.banCount
  decodeErrorCount := peer.decodeErrorCount
  isBanned := peer.isBanned
  handshakeDone := peer.handshakeDone

/-- The peers that a save writes. -/
def toSave (P : Platform D) (cfg : Config) (m : PeerManager D) : List (Σ _ : Str, PeerInfo D) :=
  (P.order m.peers.entries).filter fun e => !cfg.incrementalSave || e.1 ∈ m.dirtyIds

def checksum (P : Platform D) (payload : List (StoredPeer D)) : UInt32 :=
  if payload.isEmpty then 0 else P.crc32 payload

/-- The file that a save writes. -/
def store (P : Platform D) (cfg : Config) (m : PeerManager D) (now : UInt64) : PeerStore D :=
  let payload := (toSave P cfg m).map fun e => record e.2
  { magic := STORE_MAGIC
    version := STORE_VERSION
    numPeers := UInt32.ofNat payload.length
    timestamp := now
    checksum := checksum P payload
    payload }

/-- `savePeers()`: the manager, and the file unless it could not be opened. -/
def savePeers (P : Platform D) (cfg : Config) (m : PeerManager D) (now : UInt64)
    (isOpen : Bool) : PeerManager D × Option (PeerStore D) :=
  let file := if isOpen then some (store P cfg m now) else none
  (if cfg.incrementalSave then { m with dirtyIds := ∅ } else m, file)

/-- A record of zeros. -/
def blank (P : Platform D) : StoredPeer D where
  addr := []
  port := 0
  score := P.double.zero
  connectedAt := 0
  lastSeen := 0
  banExpiresAt := 0
  banCount := 0
  decodeErrorCount := 0
  isBanned := false
  handshakeDone := false

/-- The peer of a record. -/
def loaded (P : Platform D) (rec : StoredPeer D) : PeerInfo D where
  id := peerKey rec.addr rec.port
  address := rec.addr
  port := rec.port
  connectedAt := rec.connectedAt
  lastSeenAt := rec.lastSeen
  banExpiresAt := rec.banExpiresAt
  banCount := rec.banCount
  decodeErrorCount := rec.decodeErrorCount
  score := P.double.clamp rec.score
  isBanned := rec.isBanned

/-- A turn of the loop over the records. -/
def loadRecord (P : Platform D) (cfg : Config) (now : UInt64) (m : PeerManager D)
    (rec : StoredPeer D) : PeerManager D :=
  if rec.isBanned && rec.banExpiresAt ≤ now then m else (addPeer cfg m (loaded P rec)).2

def loadPeers (P : Platform D) (cfg : Config) (m : PeerManager D) (now : UInt64)
    (file : PeerStore D) : PeerManager D :=
  if file.magic ≠ STORE_MAGIC then m
  else if file.version > STORE_VERSION then m
  else
    let numPeers := file.numPeers.toNat
    let payload := (file.payload ++ List.replicate numPeers (blank P)).take numPeers
    if checksum P payload ≠ file.checksum then m
    else payload.foldl (loadRecord P cfg now) m

/-! ### Runs -/

/-- A call, at a time that the clock shows. -/
inductive Call (D : Type)
  | addPeer (info : PeerInfo D)
  | removePeer (id : Str)
  | applyScore (id : Str) (delta : D)
  | banPeer (id : Str)
  | recordDecodeError (id : Str)
  | unbanExpiredPeers
  | savePeers (isOpen : Bool)

/-- The manager after a call. -/
def perform (P : Platform D) (cfg : Config) (m : PeerManager D) : UInt64 × Call D → PeerManager D
  | (_, .addPeer info) => (addPeer cfg m info).2
  | (_, .removePeer id) => (removePeer m id).2
  | (now, .applyScore id delta) => applyScore P cfg m now id delta
  | (now, .banPeer id) => (banPeer cfg m now id).2
  | (now, .recordDecodeError id) => recordDecodeError cfg m now id
  | (now, .unbanExpiredPeers) => unbanExpiredPeers P m now
  | (now, .savePeers isOpen) => (savePeers P cfg m now isOpen).1

/-- A manager that starts with what it finds in a file, and is called. -/
def ran (P : Platform D) (cfg : Config) (start : UInt64) (file : Option (PeerStore D))
    (calls : List (UInt64 × Call D)) : PeerManager D :=
  let m := match file with
    | none => {}
    | some file => loadPeers P cfg {} start file
  calls.foldl (perform P cfg) m

/-! ### What every run keeps -/

/-- There are not too many peers, and each has an address. -/
structure Sane (cfg : Config) (m : PeerManager D) : Prop where
  count : m.peers.keys.length ≤ cfg.maxPeers
  address : ∀ {id peer}, m.peers.lookup id = some peer → peer.address ≠ []

variable {P : Platform D} {cfg : Config} {m : PeerManager D}

theorem Sane.addPeer (h : Sane cfg m) (info : PeerInfo D) : Sane cfg (addPeer cfg m info).2 := by
  unfold PeerManager.addPeer
  split
  · exact h
  · rename_i hempty
    split
    · exact h
    · rename_i hcount
      split
      · exact h
      · rename_i hnew
        refine ⟨?_, fun {id peer} hpeer => ?_⟩
        · change (m.peers.insert info.id _).keys.length ≤ _
          rw [AList.insert_of_notMem hnew]
          exact Nat.lt_of_not_le hcount
        · rcases lookup_insert_cases hpeer with ⟨-, rfl⟩ | ⟨-, hold⟩
          · intro haddress
            exact hempty (by simp [show info.address = [] from haddress])
          · exact h.address hold

theorem Sane.removePeer (h : Sane cfg m) (id : Str) : Sane cfg (removePeer m id).2 := by
  unfold PeerManager.removePeer
  split
  · exact ⟨(length_keys_erase_le m.peers id).trans h.count,
      fun hpeer => h.address (lookup_erase_cases hpeer).2⟩
  · exact h

theorem Sane.update (h : Sane cfg m) (id : Str) {f : PeerInfo D → PeerInfo D}
    (hf : ∀ peer, (f peer).address = peer.address) : Sane cfg (m.update id f) := by
  unfold PeerManager.update
  cases hpeer : m.peers.lookup id with
  | none => exact h
  | some peer =>
      refine ⟨?_, fun {id' peer'} hpeer' => ?_⟩
      · have hmem : id ∈ m.peers := AList.lookup_isSome.1 (by rw [hpeer]; rfl)
        have hperm : (m.peers.insert id (f peer)).keys.Perm m.peers.keys := by
          refine (List.perm_ext_iff_of_nodup (AList.keys_nodup _) m.peers.keys_nodup).2 fun k => ?_
          rw [← AList.mem_keys, ← AList.mem_keys, AList.mem_insert]
          exact ⟨fun hk => hk.elim (fun heq => heq ▸ hmem) fun hk => hk, .inr⟩
        exact hperm.length_eq.trans_le h.count
      · rcases lookup_insert_cases hpeer' with ⟨-, rfl⟩ | ⟨-, hold⟩
        · rw [hf]
          exact h.address hpeer
        · exact h.address hold

theorem banned_address (now : UInt64) (peer : PeerInfo D) :
    (banned cfg now peer).address = peer.address := rfl

theorem scored_address (now : UInt64) (delta : D) (peer : PeerInfo D) :
    (scored P cfg now delta peer).address = peer.address := by
  unfold scored
  simp only
  split <;> rfl

theorem misread_address (now : UInt64) (peer : PeerInfo D) :
    (misread cfg now peer).address = peer.address := by
  unfold misread
  simp only
  split <;> rfl

theorem Sane.foldl_markDirty (h : Sane cfg m) (expired : List (Σ _ : Str, PeerInfo D)) :
    Sane cfg (expired.foldl (fun m e => m.markDirty e.2.id) m) := by
  induction expired generalizing m with
  | nil => exact h
  | cons e expired ih => exact ih ⟨h.count, h.address⟩

theorem Sane.foldl_update (h : Sane cfg m) (expired : List (Σ _ : Str, PeerInfo D)) :
    Sane cfg (expired.foldl (fun m e => m.update e.1 (unbanned P)) m) := by
  induction expired generalizing m with
  | nil => exact h
  | cons e expired ih => exact ih (h.update e.1 fun _ => rfl)

theorem Sane.loadPeers (h : Sane cfg m) (now : UInt64) (file : PeerStore D) :
    Sane cfg (loadPeers P cfg m now file) := by
  have hloop (payload : List (StoredPeer D)) :
      Sane cfg (payload.foldl (loadRecord P cfg now) m) := by
    induction payload generalizing m with
    | nil => exact h
    | cons rec payload ih =>
        refine ih ?_
        unfold loadRecord
        split
        · exact h
        · exact h.addPeer _
  unfold PeerManager.loadPeers
  simp only
  split
  · exact h
  · split
    · exact h
    · split
      · exact h
      · exact hloop _

theorem Sane.perform (h : Sane cfg m) (call : UInt64 × Call D) :
    Sane cfg (perform P cfg m call) := by
  obtain ⟨now, call⟩ := call
  cases call with
  | addPeer info => exact h.addPeer info
  | removePeer id => exact h.removePeer id
  | applyScore id delta => exact h.update id (scored_address now delta)
  | banPeer id => exact h.update id (banned_address now)
  | recordDecodeError id => exact h.update id (misread_address now)
  | unbanExpiredPeers => exact (h.foldl_update _).foldl_markDirty _
  | savePeers isOpen =>
      unfold PeerManager.perform PeerManager.savePeers
      simp only
      split
      · exact ⟨h.count, h.address⟩
      · exact h

theorem sane_empty : Sane cfg ({} : PeerManager D) where
  count := Nat.zero_le _
  address h := by
    rw [show (∅ : AList fun _ : Str => PeerInfo D).lookup _ = none from AList.lookup_empty _] at h
    cases h

theorem sane_ran (start : UInt64) (file : Option (PeerStore D)) (calls : List (UInt64 × Call D)) :
    Sane cfg (ran P cfg start file calls) := by
  have hloop {m : PeerManager D} (h : Sane cfg m) : Sane cfg (calls.foldl (perform P cfg) m) := by
    induction calls generalizing m with
    | nil => exact h
    | cons call calls ih => exact ih (h.perform call)
  cases file with
  | none => exact hloop sane_empty
  | some file => exact hloop (sane_empty.loadPeers start file)

/-! ### What a new manager finds -/

/-- **The peers are filed under their addresses**, which the file has room for. -/
def Addressed (m : PeerManager D) : Prop :=
  ∀ id peer, m.peers.lookup id = some peer →
    id = peerKey peer.address peer.port ∧ peer.address.length ≤ 254

/-- The ban of a peer has expired. -/
def Expired (now : UInt64) (peer : PeerInfo D) : Prop := peer.isBanned ∧ peer.banExpiresAt ≤ now

instance (now : UInt64) (peer : PeerInfo D) : Decidable (Expired now peer) :=
  inferInstanceAs (Decidable (_ ∧ _))

/-- What comes of a peer that was written. -/
def reloaded (P : Platform D) (now : UInt64) (peer : PeerInfo D) : Option (PeerInfo D) :=
  if Expired now peer then none else some { loaded P (record peer) with dirty := true }

theorem peerKey_ne_nil (address : Str) (port : UInt16) : peerKey address port ≠ [] := by
  unfold peerKey
  simp

theorem loadRecord_record (P : Platform D) (cfg : Config) (now : UInt64) {id : Str}
    {peer : PeerInfo D}
    (haddress : peer.address ≠ []) (hid : id = peerKey peer.address peer.port)
    (hlength : peer.address.length ≤ 254) (hcount : m.peers.keys.length < cfg.maxPeers)
    (hnew : id ∉ m.peers) :
    (loadRecord P cfg now m (record peer)).peers =
      match reloaded P now peer with
      | none => m.peers
      | some peer' => m.peers.insert id peer' := by
  have hrecord : (record peer).addr = peer.address := List.take_of_length_le hlength
  have hkey : (loaded P (record peer)).id = id := by
    rw [hid, loaded, hrecord]
    rfl
  have hnonempty : ((loaded P (record peer)).id.isEmpty ||
      (loaded P (record peer)).address.isEmpty) = false := by
    rw [hkey, hid]
    change ((peerKey peer.address peer.port).isEmpty || (record peer).addr.isEmpty) = false
    rw [hrecord]
    simp [peerKey_ne_nil, haddress]
  unfold loadRecord reloaded
  by_cases hexpired : Expired now peer
  · have hskip : ((record peer).isBanned && (record peer).banExpiresAt ≤ now) = true := by
      rw [Bool.and_eq_true, decide_eq_true_eq]
      exact hexpired
    rw [if_pos hexpired, if_pos hskip]
  · have hadd : ¬ ((record peer).isBanned && (record peer).banExpiresAt ≤ now) = true := by
      rw [Bool.and_eq_true, decide_eq_true_eq]
      exact hexpired
    rw [if_neg hexpired, if_neg hadd]
    unfold PeerManager.addPeer
    rw [hnonempty, if_neg (by decide), if_neg (by omega), if_neg (by rwa [hkey])]
    exact congrArg (fun k => m.peers.insert k _) hkey

/-- **The loop over the records**, when each is filed under its address and none is there yet. -/
theorem lookup_foldl_loadRecord {now : UInt64} {l : List (Σ _ : Str, PeerInfo D)}
    (hnodup : l.NodupKeys)
    (hl : ∀ e ∈ l, e.2.address ≠ [] ∧ e.1 = peerKey e.2.address e.2.port ∧ e.2.address.length ≤ 254)
    (hcount : m.peers.keys.length + l.length ≤ cfg.maxPeers) (hnew : ∀ e ∈ l, e.1 ∉ m.peers)
    (id : Str) :
    ((l.map fun e => record e.2).foldl (loadRecord P cfg now) m).peers.lookup id =
      ((l.dlookup id).bind (reloaded P now)).or (m.peers.lookup id) := by
  induction l generalizing m with
  | nil => rfl
  | cons e l ih =>
      obtain ⟨key, peer⟩ := e
      obtain ⟨hfresh, hnodup⟩ := List.nodupKeys_cons.1 hnodup
      obtain ⟨haddress, hkey, hlength⟩ := hl _ List.mem_cons_self
      rw [List.length_cons] at hcount
      have hnot : key ∉ m.peers := hnew _ List.mem_cons_self
      have hpeers := loadRecord_record P cfg now haddress hkey hlength (by omega) hnot
      set m' := loadRecord P cfg now m (record peer) with hm'
      have hmem : ∀ k, k ∈ m'.peers → k = key ∨ k ∈ m.peers := by
        intro k hk
        rw [hpeers] at hk
        cases hreloaded : reloaded P now peer with
        | none =>
            rw [hreloaded] at hk
            exact .inr hk
        | some peer' =>
            rw [hreloaded] at hk
            exact (AList.mem_insert _).1 hk
      have hcount' : m'.peers.keys.length ≤ m.peers.keys.length + 1 := by
        rw [hpeers]
        cases reloaded P now peer with
        | none => exact Nat.le_succ _
        | some peer' =>
            change (m.peers.insert key peer').keys.length ≤ _
            rw [AList.insert_of_notMem hnot]
            exact le_rfl
      have hnew' : ∀ e ∈ l, e.1 ∉ m'.peers := by
        intro e he hmem'
        rcases hmem _ hmem' with heq | hold
        · have hkeys : e.1 ∈ l.keys := List.mem_map_of_mem he
          rw [heq] at hkeys
          exact hfresh hkeys
        · exact hnew e (List.mem_cons_of_mem _ he) hold
      have hrest := ih hnodup (fun e he => hl e (List.mem_cons_of_mem _ he)) (by omega) hnew'
      rw [List.map_cons, List.foldl_cons, ← hm', hrest, hpeers]
      by_cases hid : key = id
      · subst hid
        rw [List.dlookup_cons_eq, List.dlookup_eq_none.2 hfresh]
        cases hreloaded : reloaded P now peer with
        | none => simp [hreloaded]
        | some peer' => simp [hreloaded]
      · have hne : List.dlookup id (⟨key, peer⟩ :: l) = List.dlookup id l :=
          List.dlookup_cons_ne l _ (Ne.symm hid)
        rw [hne]
        cases hreloaded : reloaded P now peer with
        | none => rfl
        | some peer' => simp only [AList.lookup_insert_ne (Ne.symm hid)]

/-- A save writes the peer. -/
def Written (cfg : Config) (m : PeerManager D) (id : Str) : Prop :=
  cfg.incrementalSave = false ∨ id ∈ m.dirtyIds

instance (cfg : Config) (m : PeerManager D) (id : Str) : Decidable (Written cfg m id) :=
  inferInstanceAs (Decidable (_ ∨ _))

theorem mem_toSave {e : Σ _ : Str, PeerInfo D} :
    e ∈ toSave P cfg m ↔ m.peers.lookup e.1 = some e.2 ∧ Written cfg m e.1 := by
  obtain ⟨id, peer⟩ := e
  rw [toSave, List.mem_filter, (P.order_perm _).mem_iff, ← AList.mem_lookup_iff, Option.mem_def]
  refine and_congr_right fun _ => ?_
  simp [Written]

theorem nodupKeys_toSave (P : Platform D) (cfg : Config) (m : PeerManager D) :
    (toSave P cfg m).NodupKeys := by
  have hperm := (P.order_perm m.peers.entries).map Sigma.fst
  exact (hperm.nodup_iff.2 m.peers.nodupKeys).sublist (List.filter_sublist.map _)

theorem dlookup_toSave (id : Str) :
    (toSave P cfg m).dlookup id = if Written cfg m id then m.peers.lookup id else none := by
  refine Option.ext fun peer => ?_
  have hmem := List.mem_dlookup_iff (a := id) (b := peer) (nodupKeys_toSave P cfg m)
  rw [← Option.mem_def, ← Option.mem_def, hmem, mem_toSave]
  split
  · rename_i hwritten
    exact ⟨fun h => h.1, fun h => ⟨h, hwritten⟩⟩
  · rename_i hnot
    exact ⟨fun h => absurd h.2 hnot, fun h => by cases h⟩

theorem length_toSave_le (P : Platform D) (cfg : Config) (m : PeerManager D) :
    (toSave P cfg m).length ≤ m.peers.keys.length := by
  have hlength := (P.order_perm m.peers.entries).length_eq
  have hkeys : m.peers.keys.length = m.peers.entries.length := List.length_map _
  rw [hkeys, ← hlength]
  exact List.length_filter_le _ _

theorem loadPeers_store (hlength : (toSave P cfg m).length < 2 ^ 32) (m' : PeerManager D)
    (now : UInt64) :
    loadPeers P cfg m' now (store P cfg m now) =
      ((toSave P cfg m).map fun e => record e.2).foldl (loadRecord P cfg now) m' := by
  have hnum : (store P cfg m now).numPeers.toNat =
      ((toSave P cfg m).map fun e => record e.2).length := by
    change (UInt32.ofNat _).toNat = _
    rw [UInt32.toNat_ofNat', Nat.mod_eq_of_lt (by rwa [List.length_map])]
  have hversion : ¬ (store P cfg m now).version > STORE_VERSION := by
    change ¬ STORE_VERSION > STORE_VERSION
    decide
  unfold loadPeers
  rw [if_neg (fun h => h rfl), if_neg hversion, hnum]
  have htake : (((toSave P cfg m).map fun e => record e.2) ++
      List.replicate ((toSave P cfg m).map fun e => record e.2).length (blank P)).take
        ((toSave P cfg m).map fun e => record e.2).length =
      (toSave P cfg m).map fun e => record e.2 := List.take_left
  change (if checksum P (List.take _ _) ≠ checksum P _ then m' else List.foldl _ _ _) = _
  simp only [store, htake]
  exact if_neg fun h => h rfl

/-- **What a new manager finds in the file**: the peers that were written and whose bans have not
expired. -/
theorem lookup_loadPeers_savePeers (hsane : Sane cfg m) (haddressed : Addressed m)
    (hmax : cfg.maxPeers < 2 ^ 32) (now : UInt64) (id : Str) :
    (loadPeers P cfg {} now (store P cfg m now)).peers.lookup id =
      if Written cfg m id then (m.peers.lookup id).bind (reloaded P now) else none := by
  have hlength := length_toSave_le P cfg m
  have hcount := hsane.count
  have hempty : (({} : PeerManager D).peers.lookup id) = none := AList.lookup_empty id
  rw [loadPeers_store (by omega), lookup_foldl_loadRecord (nodupKeys_toSave P cfg m), hempty,
    Option.or_none, dlookup_toSave]
  · split <;> rfl
  · intro e he
    have hpeer := (mem_toSave.1 he).1
    exact ⟨hsane.address hpeer, haddressed _ _ hpeer⟩
  · change 0 + _ ≤ _
    omega
  · intro e _
    exact AList.notMem_empty e.1

/-! ### When every peer is back -/

/-- **Every peer is back**, with its address, its times, its score, its counters and its ban. -/
def Restores (m m' : PeerManager D) : Prop :=
  ∀ id peer, m.peers.lookup id = some peer → ∃ peer', m'.peers.lookup id = some peer' ∧
    peer'.address = peer.address ∧ peer'.port = peer.port ∧
    peer'.connectedAt = peer.connectedAt ∧ peer'.lastSeenAt = peer.lastSeenAt ∧
    peer'.score = peer.score ∧ peer'.banCount = peer.banCount ∧
    peer'.decodeErrorCount = peer.decodeErrorCount ∧ peer'.isBanned = peer.isBanned ∧
    peer'.banExpiresAt = peer.banExpiresAt

/-- **When every peer is back**: the last save writes it since its id was marked after the save
before, its score is within its bounds, and its ban has not expired. -/
theorem restores_iff (P : Platform D) (start : UInt64) (file : Option (PeerStore D))
    (calls : List (UInt64 × Call D)) (now : UInt64)
    (haddressed : Addressed (ran P {} start file calls)) :
    Restores (ran P {} start file calls)
        (loadPeers P {} {} now (store P {} (ran P {} start file calls) now)) ↔
      ∀ id peer, (ran P {} start file calls).peers.lookup id = some peer →
        id ∈ (ran P {} start file calls).dirtyIds ∧
        P.double.clamp peer.score = peer.score ∧ ¬ Expired now peer := by
  set m := ran P {} start file calls with hm
  have hsane : Sane {} m := sane_ran start file calls
  have hlookup := lookup_loadPeers_savePeers (P := P) hsane haddressed (by decide) now
  constructor
  · intro h id peer hpeer
    obtain ⟨peer', hpeer', -, -, -, -, hscore, -⟩ := h id peer hpeer
    rw [hlookup] at hpeer'
    obtain ⟨hwritten, hpeer'⟩ := Option.ite_none_right_eq_some.1 hpeer'
    rw [hpeer, Option.bind_some] at hpeer'
    obtain ⟨hban, heq⟩ := Option.ite_none_left_eq_some.1 hpeer'
    rw [← Option.some.inj heq] at hscore
    exact ⟨hwritten.resolve_left (by decide), hscore, hban⟩
  · intro h id peer hpeer
    obtain ⟨hdirty, hscore, hban⟩ := h id peer hpeer
    have haddress : (record peer).addr = peer.address :=
      List.take_of_length_le (haddressed id peer hpeer).2
    refine ⟨{ loaded P (record peer) with dirty := true }, ?_, haddress, rfl, rfl, rfl, hscore,
      rfl, rfl, rfl, rfl⟩
    rw [hlookup, if_pos (.inr hdirty), hpeer, Option.bind_some]
    exact if_neg hban

/-! ### A peer that is saved twice -/

def samplePlatform : Platform ℤ where
  double := ⟨fun x y => x + y, fun x y => x < y, fun x y => x ≤ y, 0, 10, 100⟩
  crc32 := fun payload => UInt32.ofNat payload.length
  order := id
  order_perm := fun _ => .refl _

def samplePeer : PeerInfo ℤ where
  id := str "10.0.0.7:8333"
  address := str "10.0.0.7"
  port := 8333
  score := 100

theorem not_restores :
    ¬ ∀ (D : Type) (P : Platform D) (start : UInt64) (file : Option (PeerStore D))
      (calls : List (UInt64 × Call D)) (now : UInt64),
      Restores (ran P {} start file calls)
        (loadPeers P {} {} now (store P {} (ran P {} start file calls) now)) := by
  intro h
  have hpeer : (ran samplePlatform {} 0 none
      [(1, .addPeer samplePeer), (30, .savePeers true)]).peers.lookup samplePeer.id =
        some { samplePeer with dirty := true } := by decide +kernel
  obtain ⟨peer', hpeer', -⟩ := h ℤ samplePlatform 0 none
    [(1, .addPeer samplePeer), (30, .savePeers true)] 60 _ _ hpeer
  have hnone : (loadPeers samplePlatform {} {} 60 (store samplePlatform {} (ran samplePlatform {} 0
      none [(1, .addPeer samplePeer), (30, .savePeers true)]) 60)).peers.lookup samplePeer.id =
        none := by decide +kernel
  rw [hnone] at hpeer'
  cases hpeer'

theorem restores_samplePeer :
    Restores (ran samplePlatform {} 0 none [(1, .addPeer samplePeer)])
      (loadPeers samplePlatform {} {} 30
        (store samplePlatform {} (ran samplePlatform {} 0 none [(1, .addPeer samplePeer)])
          30)) := by
  have hpeers : (ran samplePlatform {} 0 none [(1, .addPeer samplePeer)]).peers =
      AList.singleton samplePeer.id { samplePeer with dirty := true } := rfl
  have hlookup {id : Str} {peer : PeerInfo ℤ}
      (h : (ran samplePlatform {} 0 none [(1, .addPeer samplePeer)]).peers.lookup id = some peer) :
      id = samplePeer.id ∧ peer = { samplePeer with dirty := true } := by
    rw [hpeers, AList.singleton, AList.lookup] at h
    by_cases hid : samplePeer.id = id
    · subst hid
      rw [List.dlookup_cons_eq, Option.some.injEq] at h
      exact ⟨rfl, h.symm⟩
    · rw [List.dlookup_cons_ne _ _ (Ne.symm hid)] at h
      cases h
  refine (restores_iff samplePlatform 0 none _ 30 ?_).2 ?_
  · intro id peer h
    obtain ⟨rfl, rfl⟩ := hlookup h
    decide +kernel
  · intro id peer h
    obtain ⟨rfl, rfl⟩ := hlookup h
    decide +kernel

end PeerManager

end Net
