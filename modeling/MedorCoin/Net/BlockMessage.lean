/-
**Blocks that peers send.**

`MessageHandler::handleBlock` and `decodeBlock` of the network expect `Block::deserialize` to throw
on a malformed text.  It never throws but returns `false`, and has assigned by then what it has
read.
So a block that was not decoded is passed on by the network whatever it is, and by the handler if
its text was read as far as the hash.  The handler records no decode error in any case.

Main definitions:

* `Net.BlockMessage.Effect` — what the handler calls;
* `Net.BlockMessage.handleBlock` — the handler;
* `Net.BlockMessage.HandledSoundly`, `Net.BlockMessage.DispatchedSoundly` — only decoded blocks
  propagate.

Main results:

* `Net.BlockMessage.handleBlock_cases` — **what the handler does with a payload**;
* `Net.BlockMessage.forwards_iff` — what it forwards;
* `Net.BlockMessage.propagates_decoded_iff` — **when only decoded blocks propagate**.
-/

import MedorCoin.Net.Broadcast
import MedorCoin.Net.Handler
import MedorCoin.Net.PeerStore
import MedorCoin.Node.BlockParse

set_option autoImplicit false

namespace Net.BlockMessage

open Cpp Node
open Net.Broadcast (Network Frame decodeText decodeBlock)
open Net.Handler (MsgType)

/-! ### The handler -/

/-- A call of the handler, of the peer manager or of a callback.  Scores are in points. -/
inductive Effect
  | penalizePeer (peerId : Str) (penalty : ℕ)
  | rewardPeer (peerId : Str) (reward : ℕ)
  | recordDecodeError (peerId : Str)
  | invokeBlock (block : Block) (peerId : Str)
  | invokeBroadcast (type : MsgType) (payload excludeId : Str)

/-- `handleBlock(peerId, payload)`; `isOpen` is what `chain_.isOpen()` answers. -/
def handleBlock (isOpen : Bool) (peerId payload : Str) : List Effect :=
  -- what `deserialize` returns is not looked at, and it does not throw
  let block := (Block.deserialize {} payload).2
  if block.hash.isEmpty then [.penalizePeer peerId 10]
  else if !isOpen then []
  else
    [.rewardPeer peerId 2, .invokeBlock block peerId, .invokeBroadcast .block payload peerId]

/-- The effect rewards the peer, or passes something on. -/
def Effect.Propagates : Effect → Prop
  | .rewardPeer _ _ => True
  | .invokeBlock _ _ => True
  | .invokeBroadcast _ _ _ => True
  | .penalizePeer _ _ => False
  | .recordDecodeError _ => False

/-- The effect passes something on. -/
def Effect.Forwards : Effect → Prop
  | .invokeBlock _ _ => True
  | .invokeBroadcast _ _ _ => True
  | _ => False

/-! ### The peers -/

section

variable {D : Type} (P : PeerManager.Platform D) (points : ℤ → D) (cfg : PeerManager.Config)
  (now : UInt64)

end

/-! ### What is handled -/

/-- The payload is a block. -/
def Decodes (payload : Str) : Prop := (Block.deserialize {} payload).1 = true

/-- **Only decoded blocks propagate** from the handler, and for another payload a decode error is
recorded and nothing is forwarded. -/
structure HandledSoundly (isOpen : Bool) (peerId payload : Str) : Prop where
  only : ∀ e ∈ handleBlock isOpen peerId payload, e.Propagates → Decodes payload
  recorded : ¬ Decodes payload → .recordDecodeError peerId ∈ handleBlock isOpen peerId payload
  kept : ¬ Decodes payload → ∀ e ∈ handleBlock isOpen peerId payload, ¬ e.Forwards

/-- **What the handler does with a payload**: it penalizes the peer for an empty hash, does nothing
while the chain is not open, or propagates what was read. -/
theorem handleBlock_cases (isOpen : Bool) (peerId payload : Str) :
    ((Block.deserialize {} payload).2.hash = [] ∧
      handleBlock isOpen peerId payload = [.penalizePeer peerId 10]) ∨
    (isOpen = false ∧ handleBlock isOpen peerId payload = []) ∨
    ((Block.deserialize {} payload).2.hash ≠ [] ∧ isOpen = true ∧
      handleBlock isOpen peerId payload = [.rewardPeer peerId 2,
        .invokeBlock (Block.deserialize {} payload).2 peerId,
        .invokeBroadcast .block payload peerId]) := by
  rw [handleBlock]
  split
  · rename_i hempty
    exact .inl ⟨by simpa using hempty, rfl⟩
  · rename_i hnonempty
    split
    · rename_i hclosed
      exact .inr (.inl ⟨by simpa using hclosed, rfl⟩)
    · rename_i hopen
      exact .inr (.inr ⟨by simpa using hnonempty, by simpa using hopen, rfl⟩)

theorem not_recordDecodeError (isOpen : Bool) (peerId payload id : Str) :
    .recordDecodeError id ∉ handleBlock isOpen peerId payload := by
  rcases handleBlock_cases isOpen peerId payload with ⟨-, heq⟩ | ⟨-, heq⟩ | ⟨-, -, heq⟩ <;>
    rw [heq] <;> simp

/-- **What the handler forwards**: what has a hash, while the chain is open. -/
theorem forwards_iff (isOpen : Bool) (peerId payload : Str) :
    (∃ e ∈ handleBlock isOpen peerId payload, e.Forwards) ↔
      (Block.deserialize {} payload).2.hash ≠ [] ∧ isOpen = true := by
  rcases handleBlock_cases isOpen peerId payload with ⟨hhash, heq⟩ | ⟨hclosed, heq⟩ |
    ⟨hhash, hopen, heq⟩
  · rw [heq]
    simp [Effect.Forwards, hhash]
  · rw [heq]
    simp [hclosed]
  · rw [heq]
    simp [Effect.Forwards, hhash, hopen]

theorem handledSoundly_iff (isOpen : Bool) (peerId payload : Str) :
    HandledSoundly isOpen peerId payload ↔ Decodes payload := by
  constructor
  · intro h
    by_contra hnot
    exact not_recordDecodeError isOpen peerId payload peerId (h.recorded hnot)
  · intro h
    exact ⟨fun _ _ _ => h, fun hnot => absurd h hnot, fun hnot => absurd h hnot⟩

/-! ### The network -/

/-- The payload of a frame is a block behind its length. -/
def FrameDecodes (payload : Str) : Prop := ∃ s, decodeText payload = some s ∧ Decodes s

/-- **Only decoded blocks are passed on** by the network, and for another payload a decode error is
recorded against the sender. -/
structure DispatchedSoundly (node : Network) (now : UInt64) (payload sender : Str) : Prop where
  only : (node.dispatchFrame now { type := .block, payload } sender).blocks ≠ node.blocks →
    FrameDecodes payload
  recorded : ¬ FrameDecodes payload →
    node.dispatchFrame now { type := .block, payload } sender =
      node.logDecodeFailure.maybeAutoBanPeer now sender
  kept : ¬ FrameDecodes payload →
    (node.dispatchFrame now { type := .block, payload } sender).blocks = node.blocks

theorem blocks_maybeAutoBanPeer (node : Network) (now : UInt64) (sender : Str) :
    (node.maybeAutoBanPeer now sender).blocks = node.blocks := by
  unfold Network.maybeAutoBanPeer
  split
  · rfl
  · simp only
    split <;> rfl

theorem dispatchFrame_of_none (node : Network) (now : UInt64) {payload : Str} (sender : Str)
    (h : decodeText payload = none) :
    node.dispatchFrame now { type := .block, payload } sender =
      node.logDecodeFailure.maybeAutoBanPeer now sender := by
  rw [Network.dispatchFrame, if_pos rfl, decodeBlock, h]
  rfl

theorem blocks_dispatchFrame_of_some (node : Network) (now : UInt64) {payload s : Str}
    (sender : Str) (h : decodeText payload = some s) :
    (node.dispatchFrame now { type := .block, payload } sender).blocks =
      node.blocks ++ [((Block.deserialize {} s).2, sender)] := by
  rw [Network.dispatchFrame, if_pos rfl, decodeBlock, h]
  rfl

theorem dispatchedSoundly_iff (node : Network) (now : UInt64) (payload sender : Str) :
    DispatchedSoundly node now payload sender ↔
      ∀ s, decodeText payload = some s → Decodes s := by
  cases htext : decodeText payload with
  | none =>
      have hdispatch := dispatchFrame_of_none node now sender htext
      have hblocks : (node.dispatchFrame now { type := .block, payload } sender).blocks =
          node.blocks := by
        rw [hdispatch, blocks_maybeAutoBanPeer]
        rfl
      exact iff_of_true ⟨fun hne => absurd hblocks hne, fun _ => hdispatch, fun _ => hblocks⟩
        fun s hs => by cases hs
  | some s =>
      have hblocks := blocks_dispatchFrame_of_some node now sender htext
      constructor
      · intro h s' hs'
        obtain rfl := Option.some.inj hs'
        obtain ⟨s', hs', hdecodes⟩ := h.only (by rw [hblocks]; simp)
        rw [htext] at hs'
        exact Option.some.inj hs' ▸ hdecodes
      · intro h
        have hdecodes : FrameDecodes payload := ⟨s, htext, h s rfl⟩
        exact ⟨fun _ => hdecodes, fun hnot => absurd hdecodes hnot,
          fun hnot => absurd hdecodes hnot⟩

/-! ### When only decoded blocks propagate -/

/-- **When only decoded blocks propagate**: from the handler if all fields of the payload are good;
from the network if there is no text behind the length, or all fields of the text are good. -/
theorem propagates_decoded_iff (isOpen : Bool) (peerId payload : Str) (node : Network)
    (now : UInt64) :
    (HandledSoundly isOpen peerId payload ↔ Block.Accepted (Block.fieldOf payload)) ∧
    (DispatchedSoundly node now payload peerId ↔
      ∀ s, decodeText payload = some s → Block.Accepted (Block.fieldOf s)) := by
  rw [handledSoundly_iff, dispatchedSoundly_iff]
  exact ⟨Block.deserialize_fst_iff {} payload,
    forall₂_congr fun s _ => Block.deserialize_fst_iff {} s⟩

/-- The text of a block up to its signature, and a count that is no number. -/
def uncounted : Str := str "0|p|d|1|m|1|1|1|1|1|1|h|s|x"

/-- A network that knows no peer. -/
def loneNetwork : Network where
  maxDecodeErrBan := 5
  banDurationSecs := 3600
  peers := fun _ => none

theorem deserialize_uncounted : (Block.deserialize {} uncounted).1 = false ∧
    (Block.deserialize {} uncounted).2.hash = str "h" := by
  decide +kernel

/-- What was not decoded is propagated by the handler and by the network. -/
theorem propagates_undecoded :
    (¬ ∀ isOpen peerId payload, HandledSoundly isOpen peerId payload) ∧
    (¬ ∀ isOpen peerId payload, ∀ e ∈ handleBlock isOpen peerId payload, e.Propagates →
      Decodes payload) ∧
    ¬ ∀ node now payload sender, DispatchedSoundly node now payload sender := by
  obtain ⟨hrejected, hhash⟩ := deserialize_uncounted
  have hnot : ¬ Decodes uncounted := by rw [Decodes, hrejected]; decide
  refine ⟨fun h => hnot ((handledSoundly_iff true (str "a") uncounted).1 (h _ _ _)), fun h => ?_,
    fun h => ?_⟩
  · obtain ⟨e, he, hforwards⟩ := (forwards_iff true (str "a") uncounted).2
      ⟨by rw [hhash]; decide, rfl⟩
    refine hnot (h true (str "a") uncounted e he ?_)
    cases e <;> trivial
  · have htext : decodeText (Broadcast.encodeText uncounted) = some uncounted := by decide +kernel
    exact hnot ((dispatchedSoundly_iff loneNetwork 0 _ (str "a")).1 (h _ _ _ _) _ htext)

end Net.BlockMessage
