/-
**Frames that are dropped as replays.**

The message handler remembers the first 32 bytes of each frame that it lets through, nine of which
are the header.  The network remembers the first 32 bytes of the payload of each frame that it
receives, before it asks whether the sender is banned or over its limits.  Both drop a frame whose
first bytes are remembered.

So a frame is dropped for another one that begins alike, and a frame without a payload (`Ping`,
`Pong`, `GetPeers`) is dropped the second time, since all of these are the same.

Main definitions:

* `Net.Dedup.Arrival` — a frame that comes in;
* `Net.Dedup.Handler`, `Handler.markSeen`, `Handler.handleRaw` — the message handler;
* `Net.Dedup.Inbound`, `Inbound.handleInbound` — the network;
* `Handler.Sound`, `Inbound.Sound` — only what was processed before is dropped as a replay;
* `Handler.Distinct`, `Inbound.Distinct` — when frames are not confused.

Main results:

* `Net.Dedup.Handler.step_sound`, `Net.Dedup.Inbound.step_sound` — **one frame**;
* `Net.Dedup.no_false_replays` — **when no frame is dropped wrongly**.
-/

import Mathlib.Data.Finset.Card
import MedorCoin.Net.Broadcast
import MedorCoin.Net.Handler
import MedorCoin.Transition.Run

set_option autoImplicit false

namespace Net.Dedup

open Cpp Transition
open Net.Handler (MsgType WireFrame)
open Net.Broadcast (Frame MessageType)

/-- A frame as it comes in: its sender, its bytes, and whether the limits on the sender let it
through. -/
structure Arrival where
  peerId : Str
  bytes : Str
  admitted : Bool

/-- The number of bytes that stand for a frame. -/
def idBytes : ℕ := 32

/-- What becomes of a frame. -/
inductive Verdict
  | limited
  | malformed
  | oversized
  | replay
  | dispatched
  deriving DecidableEq

/-! ### The message handler -/

/-- What the message handler knows when it drops or dispatches a frame, and the frames it has
dispatched so far. -/
structure Handler where
  networkMagic : Str
  maxPayloadBytes : ℕ
  seenActive : Finset Str := ∅
  seenStale : Finset Str := ∅
  processed : List Str := []

namespace Handler

/-- `SEEN_MAX`. -/
def seenMax : ℕ := 500000

/-- `markSeen(msgId)`: whether the message is new.  A full bucket takes the place of the old one. -/
def markSeen (h : Handler) (msgId : Str) : Bool × Handler :=
  if msgId ∈ h.seenStale ∨ msgId ∈ h.seenActive then (false, h)
  else
    let active := insert msgId h.seenActive
    if active.card ≥ seenMax / 2 then
      (true, { h with seenStale := active, seenActive := ∅ })
    else (true, { h with seenActive := active })

/-- `handleRaw(peerId, raw)`, up to the dispatch. -/
def handleRaw (h : Handler) (a : Arrival) : Verdict × Handler :=
  if a.admitted = false then (.limited, h)
  else
    match Net.Handler.decodeFrame a.bytes h.networkMagic with
    | .error _ => (.malformed, h)
    | .ok frame =>
        if frame.payload.length > h.maxPayloadBytes then (.oversized, h)
        else
          match h.markSeen (a.bytes.take idBytes) with
          | (false, h) => (.replay, h)
          | (true, h) => (.dispatched, { h with processed := h.processed ++ [a.bytes] })

/-- One frame after another. -/
def step (h : Handler) (a : Arrival) : Option Handler := some (h.handleRaw a).2

/-- A handler that remembers nothing. -/
def fresh (networkMagic : Str) (maxPayloadBytes : ℕ) : Handler := { networkMagic, maxPayloadBytes }

/-- The frames that are meant to be repeated. -/
def KeepAlive (raw : Str) : Prop :=
  (⟨raw.getD 4 0⟩ : MsgType) ∈ [MsgType.ping, MsgType.pong, MsgType.getPeers]

instance (raw : Str) : Decidable (KeepAlive raw) := inferInstanceAs (Decidable (_ ∈ _))

/-- The handler remembers a message. -/
def Remembers (h : Handler) (msgId : Str) : Prop := msgId ∈ h.seenStale ∨ msgId ∈ h.seenActive

/-- **A frame is dropped as a replay only if the same frame was processed before**, and no
keep-alive is. -/
def Sound (h : Handler) (a : Arrival) (_ : Handler) : Prop :=
  (h.handleRaw a).1 = .replay → a.bytes ∈ h.processed ∧ ¬ KeepAlive a.bytes

/-- The handler gets as far as to ask whether a frame is a replay. -/
def Reaches (h : Handler) (a : Arrival) : Prop :=
  a.admitted = true ∧ ∃ frame, Net.Handler.decodeFrame a.bytes h.networkMagic = .ok frame ∧
    frame.payload.length ≤ h.maxPayloadBytes

/-- **No frame that is remembered begins like this one**, unless this one was processed before and
is no keep-alive. -/
def Distinct (h : Handler) (a : Arrival) (_ : Handler) : Prop :=
  h.Reaches a → ∀ raw ∈ h.processed, h.Remembers (raw.take idBytes) →
    raw.take idBytes = a.bytes.take idBytes → a.bytes ∈ h.processed ∧ ¬ KeepAlive a.bytes

/-- What is remembered was processed. -/
def Known (h : Handler) : Prop :=
  ∀ msgId, h.Remembers msgId → ∃ raw ∈ h.processed, raw.take idBytes = msgId

theorem known_fresh (networkMagic : Str) (maxPayloadBytes : ℕ) :
    (fresh networkMagic maxPayloadBytes).Known := by
  rintro msgId (h | h) <;> exact absurd h (Finset.notMem_empty _)

theorem markSeen_of_remembers {h : Handler} {msgId : Str} (hseen : h.Remembers msgId) :
    h.markSeen msgId = (false, h) := if_pos hseen

theorem markSeen_of_not_remembers {h : Handler} {msgId : Str} (hseen : ¬ h.Remembers msgId) :
    ∃ h', h.markSeen msgId = (true, h') ∧ h'.processed = h.processed ∧
      ∀ other, h'.Remembers other → h.Remembers other ∨ other = msgId := by
  rw [Remembers] at hseen
  rw [markSeen, if_neg hseen]
  simp only
  split
  · refine ⟨_, rfl, rfl, ?_⟩
    rintro other (hother | hother)
    · exact (Finset.mem_insert.1 hother).symm.imp_left Or.inr
    · exact absurd hother (Finset.notMem_empty _)
  · refine ⟨_, rfl, rfl, ?_⟩
    rintro other (hother | hother)
    · exact Or.inl (Or.inl hother)
    · exact (Finset.mem_insert.1 hother).symm.imp_left Or.inr

/-- **What becomes of a frame**: it does not get as far as to be a replay, it is one, or it is
processed. -/
theorem handleRaw_cases (h : Handler) (a : Arrival) :
    (¬ h.Reaches a ∧ (h.handleRaw a).1 ≠ .replay ∧ (h.handleRaw a).2 = h) ∨
    (h.Reaches a ∧ h.Remembers (a.bytes.take idBytes) ∧ h.handleRaw a = (.replay, h)) ∨
    (h.Reaches a ∧ ¬ h.Remembers (a.bytes.take idBytes) ∧ (h.handleRaw a).1 = .dispatched ∧
      (h.handleRaw a).2.processed = h.processed ++ [a.bytes] ∧
      ∀ other, (h.handleRaw a).2.Remembers other →
        h.Remembers other ∨ other = a.bytes.take idBytes) := by
  rw [handleRaw]
  by_cases hlimit : a.admitted = false
  · rw [if_pos hlimit]
    exact Or.inl ⟨fun hreaches => by simp [Reaches, hlimit] at hreaches, by simp, rfl⟩
  · rw [if_neg hlimit]
    cases hdecode : Net.Handler.decodeFrame a.bytes h.networkMagic with
    | error e =>
        exact Or.inl ⟨fun hreaches => by simp [Reaches, hdecode] at hreaches, by simp, rfl⟩
    | ok frame =>
        simp only
        by_cases hsize : frame.payload.length > h.maxPayloadBytes
        · rw [if_pos hsize]
          refine Or.inl ⟨?_, by simp, rfl⟩
          rintro ⟨-, frame', hframe', hle⟩
          rw [hdecode, Except.ok.injEq] at hframe'
          exact absurd hle (not_le.2 (hframe' ▸ hsize))
        · rw [if_neg hsize]
          have hreaches : h.Reaches a := ⟨by simpa using hlimit, frame, hdecode, not_lt.1 hsize⟩
          by_cases hseen : h.Remembers (a.bytes.take idBytes)
          · rw [markSeen_of_remembers hseen]
            exact Or.inr (Or.inl ⟨hreaches, hseen, rfl⟩)
          · obtain ⟨h', hmark, hprocessed, hremembers⟩ := markSeen_of_not_remembers hseen
            rw [hmark]
            exact Or.inr (Or.inr ⟨hreaches, hseen, rfl,
              congrArg (· ++ [a.bytes]) hprocessed, hremembers⟩)

/-- **One frame**: it is treated soundly exactly if it is not confused. -/
theorem step_sound {h h' : Handler} {a : Arrival} (hknown : h.Known) (hstep : h.step a = some h') :
    (h.Sound a h' ↔ h.Distinct a h') ∧ h'.Known := by
  obtain rfl := Option.some_inj.1 hstep
  rcases h.handleRaw_cases a with ⟨hreaches, hverdict, hstate⟩ | ⟨hreaches, hseen, hreplay⟩ |
    ⟨hreaches, hseen, hverdict, hprocessed, hremembers⟩
  · exact ⟨iff_of_true (fun hreplay => absurd hreplay hverdict)
      (fun hreach => absurd hreach hreaches), by rw [hstate]; exact hknown⟩
  · refine ⟨⟨fun hsound _ _ _ _ _ => hsound (by rw [hreplay]), fun hdistinct _ => ?_⟩,
      by rw [hreplay]; exact hknown⟩
    obtain ⟨raw, hraw, hid⟩ := hknown _ hseen
    exact hdistinct hreaches raw hraw (hid ▸ hseen) hid
  · refine ⟨iff_of_true (fun hreplay => ?_) fun _ raw _ hraw hid => ?_, fun msgId hmsgId => ?_⟩
    · rw [hverdict] at hreplay
      cases hreplay
    · exact absurd (hid ▸ hraw) hseen
    · rw [hprocessed]
      rcases hremembers msgId hmsgId with hold | rfl
      · obtain ⟨raw, hraw, hid⟩ := hknown msgId hold
        exact ⟨raw, List.mem_append_left _ hraw, hid⟩
      · exact ⟨a.bytes, List.mem_append_right _ List.mem_cons_self, rfl⟩

end Handler

/-! ### The network -/

/-- What the network knows when it drops or dispatches a frame, the frames it has let pass as new,
and those it has dispatched. -/
structure Inbound where
  seenMsgIds : Finset Str := ∅
  passed : List Frame := []
  processed : List Frame := []

namespace Inbound

/-- The bound on the number of messages that are remembered. -/
def seenMax : ℕ := 500000

/-- What stands for a frame. -/
def msgId (frame : Frame) : Str := frame.payload.take idBytes

/-- `recvFrameRaw(fd, out, ..)`: the header, then as many bytes as it announces. -/
def recvFrameRaw (data : Str) : Option Frame :=
  if data.length < Broadcast.headerBytes then none
  else
    let payLen := (Codec.beRead32 (data.drop 5)).toNat
    if payLen > Broadcast.maxFrameBytes then none
    else if data.length < Broadcast.headerBytes + payLen then none
    else (Broadcast.decodeFrame (data.take (Broadcast.headerBytes + payLen))).toOption

/-- `seenMsgIds.insert(msgId)`: whether the message is new.  Too many of them are forgotten at
once. -/
def markSeen (n : Inbound) (id : Str) : Bool × Inbound :=
  if id ∈ n.seenMsgIds then (false, n)
  else
    let seen := insert id n.seenMsgIds
    (true, { n with seenMsgIds := if seen.card > seenMax then ∅ else seen })

/-- `handleInbound(clientFd, peerAddr)`, up to the dispatch.  Whether the sender is banned or over
its limits is asked after the message is remembered. -/
def handleInbound (n : Inbound) (a : Arrival) : Verdict × Inbound :=
  match recvFrameRaw a.bytes with
  | none => (.malformed, n)
  | some frame =>
      match n.markSeen (msgId frame) with
      | (false, n) => (.replay, n)
      | (true, n) =>
          let n := { n with passed := n.passed ++ [frame] }
          if a.admitted then (.dispatched, { n with processed := n.processed ++ [frame] })
          else (.limited, n)

def step (n : Inbound) (a : Arrival) : Option Inbound := some (n.handleInbound a).2

/-- A network that remembers nothing. -/
def fresh : Inbound := {}

/-- The frames that are meant to be repeated. -/
def KeepAlive (frame : Frame) : Prop := frame.type ∈ [MessageType.ping, MessageType.pong]

/-- **A frame is dropped as a replay only if the same frame was processed before**, and no
keep-alive is. -/
def Sound (n : Inbound) (a : Arrival) (_ : Inbound) : Prop :=
  ∀ frame, recvFrameRaw a.bytes = some frame → (n.handleInbound a).1 = .replay →
    frame ∈ n.processed ∧ ¬ KeepAlive frame

/-- **No frame that passed and is remembered begins like this one**, unless this one was processed
before and is no keep-alive. -/
def Distinct (n : Inbound) (a : Arrival) (_ : Inbound) : Prop :=
  ∀ frame, recvFrameRaw a.bytes = some frame → ∀ other ∈ n.passed,
    msgId other ∈ n.seenMsgIds → msgId other = msgId frame →
      frame ∈ n.processed ∧ ¬ KeepAlive frame

/-- What is remembered has passed. -/
def Known (n : Inbound) : Prop := ∀ id ∈ n.seenMsgIds, ∃ frame ∈ n.passed, msgId frame = id

theorem known_fresh : fresh.Known := fun _ h => absurd h (Finset.notMem_empty _)

/-- **What becomes of a frame**: it cannot be read, it is a replay, or it passes. -/
theorem handleInbound_cases (n : Inbound) (a : Arrival) :
    (recvFrameRaw a.bytes = none ∧ n.handleInbound a = (.malformed, n)) ∨
    ∃ frame, recvFrameRaw a.bytes = some frame ∧
      ((msgId frame ∈ n.seenMsgIds ∧ n.handleInbound a = (.replay, n)) ∨
        (msgId frame ∉ n.seenMsgIds ∧ (n.handleInbound a).1 ≠ .replay ∧
          (n.handleInbound a).2.passed = n.passed ++ [frame] ∧
          ∀ id ∈ (n.handleInbound a).2.seenMsgIds, id ∈ n.seenMsgIds ∨ id = msgId frame)) := by
  rw [handleInbound]
  cases hframe : recvFrameRaw a.bytes with
  | none => exact Or.inl ⟨rfl, rfl⟩
  | some frame =>
      refine Or.inr ⟨frame, rfl, ?_⟩
      by_cases hseen : msgId frame ∈ n.seenMsgIds
      · simp only [markSeen, if_pos hseen]
        exact Or.inl ⟨hseen, trivial⟩
      · simp only [markSeen, if_neg hseen]
        refine Or.inr ⟨hseen, ?_⟩
        have hids : ∀ id ∈ (if (insert (msgId frame) n.seenMsgIds).card > seenMax then ∅
            else insert (msgId frame) n.seenMsgIds), id ∈ n.seenMsgIds ∨ id = msgId frame := by
          intro id hid
          split at hid
          · exact absurd hid (Finset.notMem_empty _)
          · exact (Finset.mem_insert.1 hid).symm
        split <;> exact ⟨nofun, rfl, hids⟩

/-- **One frame**: it is treated soundly exactly if it is not confused. -/
theorem step_sound {n n' : Inbound} {a : Arrival} (hknown : n.Known) (hstep : n.step a = some n') :
    (n.Sound a n' ↔ n.Distinct a n') ∧ n'.Known := by
  obtain rfl := Option.some_inj.1 hstep
  rcases n.handleInbound_cases a with ⟨hnone, hstate⟩ | ⟨frame, hframe, hcases⟩
  · refine ⟨iff_of_true (fun frame hframe => ?_) (fun frame hframe => ?_),
      by rw [hstate]; exact hknown⟩
    · rw [hnone] at hframe
      cases hframe
    · rw [hnone] at hframe
      cases hframe
  · have honly : ∀ frame', recvFrameRaw a.bytes = some frame' → frame' = frame := by
      intro frame' hframe'
      rw [hframe, Option.some_inj] at hframe'
      exact hframe'.symm
    rcases hcases with ⟨hseen, hreplay⟩ | ⟨hseen, hverdict, hpassed, hids⟩
    · refine ⟨⟨fun hsound frame' hframe' _ _ _ _ => hsound frame' hframe' (by rw [hreplay]),
        fun hdistinct frame' hframe' _ => ?_⟩, by rw [hreplay]; exact hknown⟩
      obtain rfl := honly frame' hframe'
      obtain ⟨other, hother, hid⟩ := hknown _ hseen
      exact hdistinct frame' hframe' other hother (hid ▸ hseen) hid
    · refine ⟨iff_of_true (fun frame' _ hreplay => absurd hreplay hverdict)
        fun frame' hframe' other _ hother hid => ?_, fun id hid => ?_⟩
      · obtain rfl := honly frame' hframe'
        exact absurd (hid ▸ hother) hseen
      · rw [hpassed]
        rcases hids id hid with hold | rfl
        · obtain ⟨other, hother, hid⟩ := hknown id hold
          exact ⟨other, List.mem_append_left _ hother, hid⟩
        · exact ⟨frame, List.mem_append_right _ List.mem_cons_self, rfl⟩

end Inbound

/-! ### Sequences of frames -/

theorem Handler.everyStep_sound {h : Handler} (hknown : h.Known) (arrivals : List Arrival) :
    EveryStep Handler.step Handler.Sound h arrivals ↔
      EveryStep Handler.step Handler.Distinct h arrivals := by
  refine everyStep_iff (I := Handler.Known) (fun h a h' hknown hstep => ?_) hknown
  exact ⟨(Handler.step_sound hknown hstep).1, fun _ => (Handler.step_sound hknown hstep).2⟩

theorem Inbound.everyStep_sound {n : Inbound} (hknown : n.Known) (arrivals : List Arrival) :
    EveryStep Inbound.step Inbound.Sound n arrivals ↔
      EveryStep Inbound.step Inbound.Distinct n arrivals := by
  refine everyStep_iff (I := Inbound.Known) (fun n a n' hknown hstep => ?_) hknown
  exact ⟨(Inbound.step_sound hknown hstep).1, fun _ => (Inbound.step_sound hknown hstep).2⟩

/-- **When no frame is dropped wrongly**: whatever frames come in, from whomever, since everything
was forgotten, exactly if none of them is confused with one that is remembered. -/
theorem no_false_replays (networkMagic : Str) (maxPayloadBytes : ℕ) (arrivals : List Arrival) :
    (EveryStep Handler.step Handler.Sound (Handler.fresh networkMagic maxPayloadBytes) arrivals ↔
      EveryStep Handler.step Handler.Distinct (Handler.fresh networkMagic maxPayloadBytes)
        arrivals) ∧
    (EveryStep Inbound.step Inbound.Sound Inbound.fresh arrivals ↔
      EveryStep Inbound.step Inbound.Distinct Inbound.fresh arrivals) :=
  ⟨Handler.everyStep_sound (Handler.known_fresh networkMagic maxPayloadBytes) arrivals,
    Inbound.everyStep_sound Inbound.known_fresh arrivals⟩

def samplePings : List Arrival :=
  List.replicate 2 ⟨str "peer", Net.Handler.encodeFrame .ping [] (str "MEDOR"), true⟩

/-- **The second ping is dropped.** -/
theorem false_replay :
    ¬ ∀ (networkMagic : Str) (maxPayloadBytes : ℕ) (arrivals : List Arrival),
      EveryStep Handler.step Handler.Sound (Handler.fresh networkMagic maxPayloadBytes)
        arrivals := by
  intro h
  have hpings := h (str "MEDOR") Net.Handler.maxPayloadSize samplePings
  obtain ⟨-, hsecond⟩ := hpings _ rfl
  have hsound := (hsecond _ rfl).1 (by decide +kernel)
  exact hsound.2 (by decide +kernel)

end Net.Dedup
