/-
**What comes in from those who are banned.**

A record stands under the address and the port of its peer.  The listener knows the address of a
connection alone, and with that it asks for bans and limits.  No key of a record is an address
alone, so it never finds one: whoever connects is neither banned nor limited.

The clock reads what it will, and the calls follow each other in any order.  As in the model of the
calls, a call goes on where its thread would wait for itself.

Main definitions:

* `Network.IPv4` — the address of a connection;
* `Network.World`, `Network.Event`, `Network.step` — the network, the connections that wait for a
  worker, the bans that were spoken and the frames that were let through;
* `Network.BannedAt`, `Network.OverLimit` — the bans and the limits of an address;
* `Network.Respected` — **a frame that reaches a callback comes from an address that is neither
  banned nor over its limit**;
* `Network.Harmless` — a frame of one that is would not reach a callback anyway.

Main results:

* `Network.called_iff` — **which frames reach a callback**;
* `Network.respected_iff` — bans and limits hold in a run exactly if nothing comes in that would
  break them.
-/

import MedorCoin.Network.Peers
import MedorCoin.Transition.Run

set_option autoImplicit false

namespace Network

open Cpp Transition
open Net.Broadcast (Frame MessageType encodeFrame decodeBlock decodeTransaction)
open Net.Dedup.Inbound (recvFrameRaw msgId)

/-! ### Addresses -/

/-- The address of a connection to the listener, which is one of IPv4. -/
structure IPv4 where
  a : UInt8
  b : UInt8
  c : UInt8
  d : UInt8

/-- `inet_ntop(AF_INET, ..)`. -/
def IPv4.text (ip : IPv4) : Str :=
  decimal ip.a.toNat ++ str "." ++ decimal ip.b.toNat ++ str "." ++ decimal ip.c.toNat ++
    str "." ++ decimal ip.d.toNat

theorem IPv4.colon_not_mem_text (ip : IPv4) : (58 : UInt8) ∉ ip.text := by
  have hdecimal (n : ℕ) : (58 : UInt8) ∉ decimal n := fun hmem =>
    Bool.noConfusion (isDigit_of_mem_decimal hmem)
  have hdot : (58 : UInt8) ∉ str "." := by decide
  simp only [IPv4.text, List.mem_append, not_or]
  exact ⟨⟨⟨⟨⟨⟨hdecimal _, hdot⟩, hdecimal _⟩, hdot⟩, hdecimal _⟩, hdot⟩, hdecimal _⟩

theorem colon_mem_peerKey (address : Str) (port : UInt16) :
    (58 : UInt8) ∈ peerKey address port := by
  rw [peerKey, List.mem_append, List.mem_append]
  exact .inl (.inr (by decide))

/-! ### Runs -/

/-- A network with the connections that wait for a worker; the addresses that were banned, each with
the end of the ban; and the addresses whose frames were let through, each with the second. -/
structure World (D : Type) where
  net : State D
  connections : List IPv4 := []
  bans : List (Str × UInt64) := []
  passed : List (Str × UInt64) := []

/-- What happens next. -/
inductive Event (D : Type)
  | connectToPeer (address : Str) (port : UInt16)
  | disconnectPeer (peerId : Str)
  | banPeer (peerId : Str)
  | applyScoreChange (peerId : Str) (delta : D) (isBanCheck : Bool)
  | setRateLimit (maxMsg : UInt32) (maxBytes : UInt64)
  | setMaxPeers (maxPeers : ℕ)
  | onBlockReceived (set : Bool)
  | onTransactionReceived (set : Bool)
  | deliverToPeer (peerId : Str) (type : MessageType) (payload : Str) (sent : Bool)
  | accept (ip : IPv4) (submitted : Bool)
  | receive (i : ℕ) (data : Str) (sent : Bool)
  | evictStalePeers
  | unbanExpiredPeers
  | disconnectSlowPeers
  | sendPings

variable {D : Type}

/-- The bans that are new: a ban counts up. -/
def newBans (s s' : State D) : List (Str × UInt64) :=
  s'.peers.entries.filterMap fun e =>
    if e.2.isBanned && (s.peers.get? e.1).map PeerInfo.banCount != some e.2.banCount then
      some (e.2.address, e.2.banExpiresAt)
    else none

/-- The network after a call, and the bans that were spoken in it. -/
def World.with (w : World D) (net : State D) : World D :=
  { w with net := net, bans := w.bans ++ newBans w.net net }

variable (double : Double D) (cfg : Config)

/-- One event, at the time that the clock shows. -/
def step (w : World D) : UInt64 × Event D → Option (World D)
  | (now, .connectToPeer address port) =>
      some (w.with (w.net.connectToPeer double cfg address port now).2)
  | (_, .disconnectPeer peerId) => some (w.with (w.net.disconnectPeer peerId))
  | (now, .banPeer peerId) => some (w.with (w.net.banPeer cfg peerId now))
  | (now, .applyScoreChange peerId delta isBanCheck) =>
      some (w.with (w.net.applyScoreChange double cfg peerId delta isBanCheck now))
  | (_, .setRateLimit maxMsg maxBytes) => some (w.with (w.net.setRateLimit maxMsg maxBytes))
  | (_, .setMaxPeers maxPeers) => some (w.with (w.net.setMaxPeers maxPeers))
  | (_, .onBlockReceived set) => some (w.with { w.net with onBlock := set })
  | (_, .onTransactionReceived set) => some (w.with { w.net with onTransaction := set })
  | (now, .deliverToPeer peerId type payload sent) =>
      some (w.with (w.net.deliverToPeer cfg peerId type payload sent now))
  | (now, .accept ip submitted) =>
      let r := w.net.accept ip.text submitted now
      some { w.with r.2 with
        connections := if r.1 then w.connections ++ [ip] else w.connections }
  | (now, .receive i data sent) =>
      w.connections[i]?.map fun ip =>
        let r := w.net.handleInbound double cfg data ip.text sent now
        { w.with r.state with
          connections := w.connections.eraseIdx i
          passed := if r.admitted then w.passed ++ [(ip.text, now)] else w.passed }
  | (now, .evictStalePeers) => some (w.with (w.net.evictStalePeers cfg now))
  | (now, .unbanExpiredPeers) => some (w.with (w.net.unbanExpiredPeers now))
  | (_, .disconnectSlowPeers) => some (w.with (w.net.disconnectSlowPeers cfg))
  | (now, .sendPings) => some (w.with (w.net.sendPings cfg now))

/-- A network that has just been made. -/
def World.new : World D where
  net := State.new cfg

/-! ### What is asked of it -/

/-- The address was banned, and the ban has not ended. -/
def BannedAt (w : World D) (address : Str) (now : UInt64) : Prop :=
  ∃ ban ∈ w.bans, ban.1 = address ∧ now < ban.2

/-- As many frames of the address were let through in this second as a full bucket holds. -/
def OverLimit (w : World D) (address : Str) (now : UInt64) : Prop :=
  cfg.tokenBucketBurstMsg.toNat ≤ w.passed.count (address, now)

/-- The address of the connection whose frame reaches a callback in a step. -/
def called (w : World D) : UInt64 × Event D → Option IPv4
  | (now, .receive i data sent) =>
      w.connections[i]?.filter fun ip =>
        (w.net.handleInbound double cfg data ip.text sent now).callback.isSome
  | _ => none

/-- **Whose frame reaches a callback is neither banned nor over the limit.** -/
def Respected (w : World D) (e : UInt64 × Event D) : Prop :=
  ∀ ip, called double cfg w e = some ip →
    ¬ BannedAt w ip.text e.1 ∧ ¬ OverLimit cfg w ip.text e.1

instance (w : World D) (address : Str) (now : UInt64) : Decidable (BannedAt w address now) :=
  inferInstanceAs (Decidable (∃ ban ∈ w.bans, _ ∧ _))

instance (w : World D) (address : Str) (now : UInt64) : Decidable (OverLimit cfg w address now) :=
  inferInstanceAs (Decidable (_ ≤ _))

instance (w : World D) (e : UInt64 × Event D) : Decidable (Respected double cfg w e) :=
  match h : called double cfg w e with
  | none => isTrue fun _ hip => nomatch h.symm.trans hip
  | some ip =>
      decidable_of_iff (¬ BannedAt w ip.text e.1 ∧ ¬ OverLimit cfg w ip.text e.1)
        ⟨fun hr _ hip => Option.some.inj (h.symm.trans hip) ▸ hr, fun hr => hr ip h⟩

/-- The bytes are a frame that was not seen, with a block or a transaction that can be decoded and a
callback for it. -/
def HandedOn (s : State D) (data : Str) : Prop :=
  ∃ frame, recvFrameRaw data = some frame ∧ msgId frame ∉ s.seenMsgIds ∧
    ((frame.type = .block ∧ (decodeBlock frame.payload).isSome = true ∧ s.onBlock = true) ∨
      ((frame.type = .transaction ∨ frame.type = .transactionBatch) ∧
        (decodeTransaction frame.payload).isSome = true ∧ s.onTransaction = true))

/-- **Nothing that would be handed on comes from an address that is banned or over the limit.** -/
def Harmless (w : World D) : UInt64 × Event D → Prop
  | (now, .receive i data _) =>
      ∀ ip, w.connections[i]? = some ip → HandedOn w.net data →
        ¬ BannedAt w ip.text now ∧ ¬ OverLimit cfg w ip.text now
  | _ => True

/-! ### The keys of the records -/

/-- Every record has its key there. -/
def Within (s' s : State D) : Prop := ∀ key, s'.peers.has key = true → s.peers.has key = true

/-- **Every key has a colon.** -/
def Keyed (s : State D) : Prop := ∀ key, s.peers.has key = true → (58 : UInt8) ∈ key

variable {double cfg} {s s' s'' : State D} {now : UInt64} {peerId : Str}

theorem Within.refl (s : State D) : Within s s := fun _ h => h

theorem Within.trans (h : Within s'' s') (h' : Within s' s) : Within s'' s :=
  fun key hkey => h' key (h key hkey)

theorem Within.foldl {α : Type} {f : State D → α → State D} (hf : ∀ s a, Within (f s a) s)
    (l : List α) (s : State D) : Within (l.foldl f s) s := by
  induction l generalizing s with
  | nil => exact Within.refl s
  | cons a l ih => exact (ih (f s a)).trans (hf s a)

theorem Within.keyed (h : Within s' s) (hs : Keyed s) : Keyed s' :=
  fun key hkey => hs key (h key hkey)

theorem within_modify (s : State D) (peerId : Str) (f : PeerInfo D → PeerInfo D) :
    Within (s.modify peerId f) s :=
  fun key hkey => (has_modify s peerId f key).symm.trans hkey

theorem within_disconnectPeer (s : State D) (peerId : Str) :
    Within (s.disconnectPeer peerId) s := by
  intro key hkey
  rw [State.disconnectPeer] at hkey
  split at hkey
  · exact Js.Map.has_of_has_delete hkey
  · exact hkey

theorem within_deliverToPeer (s : State D) (peerId : Str) (type : MessageType) (payload : Str)
    (sent : Bool) (now : UInt64) :
    Within (s.deliverToPeer cfg peerId type payload sent now) s :=
  fun key hkey => (has_deliverToPeer s peerId type payload sent now key).symm.trans hkey

theorem within_dispatchFrame (s : State D) (frame : Frame) (peerAddr : Str) (sent : Bool)
    (now : UInt64) : Within (s.dispatchFrame cfg frame peerAddr sent now).2 s := by
  rw [State.dispatchFrame]
  split
  · split
    · exact within_modify s peerAddr _
    · exact Within.refl s
  split
  · split
    · exact within_modify s peerAddr _
    · exact Within.refl s
  split
  · exact within_deliverToPeer s peerAddr _ _ _ now
  split
  · exact within_modify s peerAddr _
  · exact Within.refl s

theorem within_sendPings (s : State D) (now : UInt64) : Within (s.sendPings cfg now) s := by
  refine Within.foldl (fun s c => ?_) _ s
  rw [State.pingPeer]
  split
  · exact within_disconnectPeer s c.1
  · exact within_modify s c.1 _

theorem Keyed.connectToPeer (h : Keyed s) (address : Str) (port : UInt16) :
    Keyed (s.connectToPeer double cfg address port now).2 := by
  have hset (info : PeerInfo D) (key : Str)
      (hkey : (s.peers.set (peerKey address port) info).has key = true) : (58 : UInt8) ∈ key := by
    rw [Js.Map.has_set, Bool.or_eq_true, decide_eq_true_iff] at hkey
    rcases hkey with rfl | hkey
    · exact colon_mem_peerKey address port
    · exact h key hkey
  rw [State.connectToPeer]
  split
  · exact h
  split
  · exact h
  split
  · exact h
  · intro key hkey
    dsimp only at hkey
    split at hkey
    · rw [State.maybeGrowShards] at hkey
      split at hkey
      · exact hset _ key hkey
      · exact hset _ key hkey
    · exact hset _ key hkey

/-- **No record is found under an address alone.** -/
theorem Keyed.get?_text (h : Keyed s) (ip : IPv4) : s.peers.get? ip.text = none := by
  by_contra hne
  exact ip.colon_not_mem_text (h ip.text (Option.isSome_iff_ne_none.2 hne))

/-! ### What a connection brings -/

theorem Keyed.limited_eq (h : Keyed s) (ip : IPv4) (frame : Frame) (sent : Bool) (now : UInt64) :
    s.limited double cfg frame ip.text sent now = s.dispatched cfg frame ip.text sent now := by
  rw [State.limited, h.get?_text ip]

theorem Keyed.handleInbound (h : Keyed s) (data : Str) (ip : IPv4) (sent : Bool) (now : UInt64) :
    Keyed (s.handleInbound double cfg data ip.text sent now).state := by
  rw [State.handleInbound]
  cases recvFrameRaw data with
  | none => exact (within_modify s ip.text _).keyed h
  | some frame =>
      dsimp only
      split
      · exact h
      · have hseen : Keyed ({ s with seenMsgIds := s.remember (msgId frame) } : State D) := h
        rw [hseen.limited_eq]
        exact (within_dispatchFrame _ frame ip.text sent now).keyed hseen

theorem dispatchFrame_isSome (s : State D) (frame : Frame) (peerAddr : Str) (sent : Bool)
    (now : UInt64) :
    (s.dispatchFrame cfg frame peerAddr sent now).1.isSome = true ↔
      (frame.type = .block ∧ (decodeBlock frame.payload).isSome = true ∧ s.onBlock = true) ∨
        ((frame.type = .transaction ∨ frame.type = .transactionBatch) ∧
          (decodeTransaction frame.payload).isSome = true ∧ s.onTransaction = true) := by
  have hblock : MessageType.block ≠ .transaction ∧ MessageType.block ≠ .transactionBatch := by
    decide
  rw [State.dispatchFrame]
  by_cases htype : frame.type = .block
  · simp only [htype, if_true, true_and, hblock.1, hblock.2, or_self, false_and, or_false]
    cases decodeBlock frame.payload with
    | none => simp
    | some b => cases s.onBlock <;> simp
  · simp only [htype, if_false, false_and, false_or]
    by_cases htx : frame.type = .transaction ∨ frame.type = .transactionBatch
    · simp only [htx, if_true, true_and]
      cases decodeTransaction frame.payload with
      | none => simp
      | some tx => cases s.onTransaction <;> simp
    · simp only [htx, if_false, false_and, iff_false]
      split
      · simp
      split <;> simp

/-- **Which frames of a connection reach a callback.** -/
theorem Keyed.handleInbound_isSome (h : Keyed s) (data : Str) (ip : IPv4) (sent : Bool)
    (now : UInt64) :
    (s.handleInbound double cfg data ip.text sent now).callback.isSome = true ↔
      HandedOn s data := by
  rw [State.handleInbound, HandedOn]
  cases recvFrameRaw data with
  | none => simp
  | some frame =>
      simp only [Option.some.injEq, exists_eq_left']
      by_cases hseen : msgId frame ∈ s.seenMsgIds
      · simp [hseen]
      · have hkeyed : Keyed ({ s with seenMsgIds := s.remember (msgId frame) } : State D) := h
        rw [if_neg hseen, hkeyed.limited_eq, and_iff_right hseen]
        exact dispatchFrame_isSome _ frame ip.text sent now

/-! ### Runs -/

variable {w t : World D} {e : UInt64 × Event D}

theorem Keyed.step (h : Keyed w.net) (hstep : step double cfg w e = some t) : Keyed t.net := by
  obtain ⟨now, e⟩ := e
  cases e with
  | connectToPeer address port =>
      obtain rfl := Option.some.inj hstep
      exact h.connectToPeer address port
  | disconnectPeer peerId =>
      obtain rfl := Option.some.inj hstep
      exact (within_disconnectPeer w.net peerId).keyed h
  | banPeer peerId =>
      obtain rfl := Option.some.inj hstep
      exact (within_modify w.net peerId _).keyed h
  | applyScoreChange peerId delta isBanCheck =>
      obtain rfl := Option.some.inj hstep
      exact (within_modify w.net peerId _).keyed h
  | setRateLimit maxMsg maxBytes =>
      obtain rfl := Option.some.inj hstep
      exact h
  | setMaxPeers maxPeers =>
      obtain rfl := Option.some.inj hstep
      exact h
  | onBlockReceived set =>
      obtain rfl := Option.some.inj hstep
      exact h
  | onTransactionReceived set =>
      obtain rfl := Option.some.inj hstep
      exact h
  | deliverToPeer peerId type payload sent =>
      obtain rfl := Option.some.inj hstep
      exact (within_deliverToPeer w.net peerId type payload sent now).keyed h
  | accept ip submitted =>
      obtain rfl := Option.some.inj hstep
      refine Within.keyed ?_ h
      change Within (w.net.accept ip.text submitted now).2 w.net
      rw [State.accept]
      split_ifs <;> exact Within.refl w.net
  | receive i data sent =>
      obtain ⟨ip, -, rfl⟩ := Option.map_eq_some_iff.1 hstep
      exact h.handleInbound data ip sent now
  | evictStalePeers =>
      obtain rfl := Option.some.inj hstep
      exact (Within.foldl (fun s key => within_disconnectPeer s key) _ w.net).keyed h
  | unbanExpiredPeers =>
      obtain rfl := Option.some.inj hstep
      exact (Within.foldl (fun s key => within_modify s key _) _ w.net).keyed h
  | disconnectSlowPeers =>
      obtain rfl := Option.some.inj hstep
      exact (Within.foldl (fun s key => within_disconnectPeer s key) _ w.net).keyed h
  | sendPings =>
      obtain rfl := Option.some.inj hstep
      exact (within_sendPings w.net now).keyed h

theorem keyed_new (cfg : Config) : Keyed (World.new cfg : World D).net :=
  fun _ h => Bool.noConfusion h

theorem called_iff (h : Keyed w.net) (ip : IPv4) :
    called double cfg w e = some ip ↔
      ∃ i data sent, e.2 = .receive i data sent ∧ w.connections[i]? = some ip ∧
        HandedOn w.net data := by
  obtain ⟨now, e⟩ := e
  cases e with
  | receive i data sent =>
      simp only [called, Option.filter_eq_some_iff, h.handleInbound_isSome, Event.receive.injEq]
      constructor
      · exact fun hcalled => ⟨i, data, sent, ⟨rfl, rfl, rfl⟩, hcalled⟩
      · rintro ⟨_, _, _, ⟨rfl, rfl, rfl⟩, hcalled⟩
        exact hcalled
  | _ => exact iff_of_false nofun (by rintro ⟨_, _, _, heq, -⟩; cases heq)

theorem respected_step_iff (h : Keyed w.net) : Respected double cfg w e ↔ Harmless cfg w e := by
  rw [Respected]
  simp only [called_iff h]
  obtain ⟨now, e⟩ := e
  cases e with
  | receive i data sent =>
      constructor
      · exact fun hr ip hip hon => hr ip ⟨i, data, sent, rfl, hip, hon⟩
      · rintro hh ip ⟨_, _, _, heq, hip, hon⟩
        obtain ⟨rfl, rfl, rfl⟩ := Event.receive.inj heq
        exact hh ip hip hon
  | _ => exact iff_of_true (by rintro ip ⟨_, _, _, heq, -⟩; cases heq) trivial

/-- **Bans and limits hold in a run exactly if nothing that would be handed on comes from an address
while it is banned or over its limit.** -/
theorem respected_iff (double : Double D) (cfg : Config) (es : List (UInt64 × Event D)) :
    EveryStep (step double cfg) (fun w e _ => Respected double cfg w e) (World.new cfg) es ↔
      EveryStep (step double cfg) (fun w e _ => Harmless cfg w e) (World.new cfg) es :=
  everyStep_iff (I := fun w => Keyed w.net)
    (fun _ _ _ hs h => ⟨respected_step_iff hs, fun _ => hs.step h⟩) (keyed_new cfg)

/-! ### A banned address, and one over its limit -/

def sampleDouble : Double Unit :=
  ⟨fun _ => (), fun _ => (), fun _ _ => (), fun _ _ => (), fun _ _ => (), fun _ _ => (),
    fun _ _ => false, fun _ _ => false⟩

def sampleIp : IPv4 := ⟨1, 2, 3, 4⟩

def sampleFrame (nonce : UInt8) : Str :=
  (encodeFrame { type := .transaction
                 payload := Net.Broadcast.encodeText
                   (str "1|" ++ nonce :: str "|a|2|3|4|5|h") }).getD []

def sampleBan : List (UInt64 × Event Unit) :=
  [(1, .onTransactionReceived true), (1, .connectToPeer (str "1.2.3.4") 8333),
    (1, .banPeer (str "1.2.3.4:8333")), (2, .accept sampleIp true),
    (2, .receive 0 (sampleFrame 49) false)]

def sampleFlood : List (UInt64 × Event Unit) :=
  [(1, .onTransactionReceived true), (1, .accept sampleIp true), (1, .accept sampleIp true),
    (1, .receive 0 (sampleFrame 49) false), (1, .receive 0 (sampleFrame 50) false)]

/-- **Neither a ban nor a limit holds** for what comes in. -/
theorem not_respected :
    (¬ EveryStep (step sampleDouble {}) (fun w e _ => Respected sampleDouble {} w e) (World.new {})
      sampleBan) ∧
    ¬ EveryStep (step sampleDouble { tokenBucketBurstMsg := 1 })
      (fun w e _ => Respected sampleDouble { tokenBucketBurstMsg := 1 } w e)
      (World.new { tokenBucketBurstMsg := 1 }) sampleFlood := by
  constructor
  · decide +kernel
  · decide +kernel

end Network
