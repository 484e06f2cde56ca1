/-
**The broadcast of a list of transactions.**

`Network::broadcastTransactionBatch` sends a list of transactions in one frame: their number, and
each transaction behind the length of its encoding.  `Network::dispatchFrame` takes the payload of
such a frame for the encoding of one transaction.  It reads the number of the transactions as the
length of a text and the text out of the length of the first transaction, which no number begins
with, so that it delivers nothing and holds a decode error against the sender.

Main definitions:

* `Net.Broadcast.Frame`, `Net.Broadcast.encodeFrame`, `Net.Broadcast.decodeFrame`;
* `Net.Broadcast.encodeTransaction`, `Net.Broadcast.decodeTransaction`;
* `Net.Broadcast.batchFrame` — what a broadcast sends to each peer;
* `Net.Broadcast.Network`, `Network.dispatchFrame` — a node that receives frames;
* `Net.Broadcast.Delivered` — each transaction of a list is delivered as it was.

Main results:

* `Net.Broadcast.decodeTransaction_batch` — a batch is not decoded;
* `Net.Broadcast.batch_delivered` — **a list is delivered exactly if it is empty**.
-/

import Mathlib.Logic.Function.Basic
import MedorCoin.Codec.Frame
import MedorCoin.Net.RelayText

set_option autoImplicit false

namespace Net.Broadcast

open Cpp Node
open Codec (beWrite32 beRead32 beWrite32_eq beRead32_beWrite32 beWrite32_beRead32)

/-! ### Frames -/

/-- `MessageType`: one byte, of which the node tells these apart. -/
structure MessageType where
  byte : UInt8
  deriving DecidableEq

namespace MessageType

def ping : MessageType := ⟨0x03⟩
def pong : MessageType := ⟨0x04⟩
def block : MessageType := ⟨0x10⟩
def transaction : MessageType := ⟨0x11⟩
def transactionBatch : MessageType := ⟨0x12⟩
def version : MessageType := ⟨0x40⟩
def unknown : MessageType := ⟨0xFF⟩

end MessageType

/-- `FRAME_MAGIC`. -/
def frameMagic : Str := str "MDR1"

/-- `HEADER_BYTES`. -/
def headerBytes : ℕ := 9

/-- `MAX_FRAME_BYTES`. -/
def maxFrameBytes : ℕ := 32 * 1024 * 1024

/-- `PROTOCOL_VERSION`, which is `MIN_PROTOCOL_VERSION` and `MAX_PROTOCOL_VERSION` too. -/
def protocolVersion : UInt32 := 1

structure Frame where
  type : MessageType := .unknown
  payload : Str := []
  version : UInt32 := protocolVersion

/-- The errors that `decodeFrame` names. -/
inductive DecodeError
  | tooShort
  | badMagic
  | oversizedFrame
  | payloadTrunc
  | versionMismatch
  | badMessageType
  | unknown
  deriving DecidableEq

/-- `encodeFrame(f, out)`, with no value where it returns false. -/
def encodeFrame (f : Frame) : Option Str :=
  if f.payload.length > maxFrameBytes then none
  else some (frameMagic ++ f.type.byte :: (beWrite32 (UInt32.ofNat f.payload.length) ++ f.payload))

/-- `decodeFrame(data, len)`. -/
def decodeFrame (data : Str) : Except DecodeError Frame :=
  if data.length < headerBytes then .error .tooShort
  else if data.take 4 ≠ frameMagic then .error .badMagic
  else
    let type : MessageType := ⟨data.getD 4 0⟩
    if type = .unknown then .error .badMessageType
    else
      let payLen := (beRead32 (data.drop 5)).toNat
      if payLen > maxFrameBytes then .error .oversizedFrame
      else if data.length < headerBytes + payLen then .error .payloadTrunc
      else
        let payload := (data.drop headerBytes).take payLen
        match payload with
        | peerVer :: _ =>
            if type = .version then
              if peerVer.toUInt32 < protocolVersion ∨ protocolVersion < peerVer.toUInt32 then
                .error .versionMismatch
              else .ok { type, payload, version := peerVer.toUInt32 }
            else .ok { type, payload }
        | [] => .ok { type, payload }

/-! ### Payloads -/

/-- A text behind its length. -/
def encodeText (s : Str) : Str := beWrite32 (UInt32.ofNat s.length) ++ s

/-- The text behind a length, with no value if there is less. -/
def decodeText (data : Str) : Option Str :=
  if data.length < 4 then none
  else
    let len := (beRead32 data).toNat
    if len > data.length - 4 then none else some ((data.drop 4).take len)

/-- `encodeTransaction(tx, out)`. -/
def encodeTransaction (tx : Transaction) : Str := encodeText (relayText tx)

/-- `decodeTransaction(data)`. -/
def decodeTransaction (data : Str) : Option Transaction := (decodeText data).bind readRelayed

/-- `decodeBlock(data)`; what `deserialize` returns is not looked at. -/
def decodeBlock (data : Str) : Option Block :=
  (decodeText data).map fun s => (Block.deserialize {} s).2

/-! ### Sending -/

/-- The payload of a batch: the number of the transactions, and each behind the length of its
encoding. -/
def batchPayload (txs : List Transaction) : Str :=
  beWrite32 (UInt32.ofNat txs.length) ++ txs.flatMap fun tx => encodeText (encodeTransaction tx)

/-- What `broadcastTransactionBatch(txs)` sends to each peer, if anything. -/
def batchFrame (txs : List Transaction) : Option Str :=
  if txs = [] then none
  else encodeFrame { type := .transactionBatch, payload := batchPayload txs }

/-! ### Receiving -/

/-- The fields of a peer that a frame can change. -/
structure PeerInfo where
  isBanned : Bool := false
  banExpiresAt : UInt64 := 0
  banCount : UInt32 := 0
  decodeErrorCount : UInt32 := 0
  lastSeenAt : UInt64 := 0
  lastPongAt : UInt64 := 0
  isReachable : Bool := false

/-- A node that receives frames: its limits, its peers, its counters, and the calls of its
callbacks so far. -/
structure Network where
  maxDecodeErrBan : UInt32
  banDurationSecs : UInt64
  peers : Str → Option PeerInfo
  decodeErrors : UInt64 := 0
  banEvents : UInt64 := 0
  autoBanOnDecodeError : UInt64 := 0
  blocksReceived : UInt64 := 0
  txReceived : UInt64 := 0
  /-- The calls of `onBlockReceivedFn_`. -/
  blocks : List (Block × Str) := []
  /-- The calls of `onTransactionReceivedFn_`. -/
  transactions : List (Transaction × Str) := []
  /-- The answers that `deliverToPeer` was asked to send. -/
  answers : List (Str × MessageType) := []

namespace Network

variable (node : Network)

/-- `logDecodeFailure(peerId, err)`; the counter of each kind of error is left out. -/
def logDecodeFailure : Network := { node with decodeErrors := node.decodeErrors + 1 }

/-- `maybeAutoBanPeer(peerId)`. -/
def maybeAutoBanPeer (now : UInt64) (peerId : Str) : Network :=
  match node.peers peerId with
  | none => node
  | some info =>
      let info := { info with decodeErrorCount := info.decodeErrorCount + 1 }
      if info.decodeErrorCount < node.maxDecodeErrBan then
        { node with peers := Function.update node.peers peerId (some info) }
      else
        let info := { info with
          isBanned := true
          banExpiresAt := now + node.banDurationSecs
          banCount := info.banCount + 1 }
        { node with
          peers := Function.update node.peers peerId (some info)
          banEvents := node.banEvents + 1
          autoBanOnDecodeError := node.autoBanOnDecodeError + 1 }

/-- `dispatchFrame(frame, peerAddr)`. -/
def dispatchFrame (now : UInt64) (frame : Frame) (peerAddr : Str) : Network :=
  if frame.type = .block then
    match decodeBlock frame.payload with
    | none => node.logDecodeFailure.maybeAutoBanPeer now peerAddr
    | some b =>
        { node with
          blocksReceived := node.blocksReceived + 1
          blocks := node.blocks ++ [(b, peerAddr)] }
  else if frame.type = .transaction ∨ frame.type = .transactionBatch then
    match decodeTransaction frame.payload with
    | none => node.logDecodeFailure.maybeAutoBanPeer now peerAddr
    | some tx =>
        { node with
          txReceived := node.txReceived + 1
          transactions := node.transactions ++ [(tx, peerAddr)] }
  else if frame.type = .ping then { node with answers := node.answers ++ [(peerAddr, .pong)] }
  else if frame.type = .pong then
    match node.peers peerAddr with
    | none => node
    | some info =>
        { node with peers := Function.update node.peers peerAddr (some { info with
            lastPongAt := now, lastSeenAt := now, isReachable := true }) }
  else node

/-- A frame as it comes from a connection; one that cannot be decoded counts as a decode error. -/
def receive (now : UInt64) (data : Option Str) (peerAddr : Str) : Network :=
  match data with
  | none => node
  | some data =>
      match decodeFrame data with
      | .ok frame => node.dispatchFrame now frame peerAddr
      | .error _ => node.logDecodeFailure.maybeAutoBanPeer now peerAddr

end Network

/-- **Each transaction of the list is delivered as it was**, and nothing is held against the
sender. -/
structure Delivered (node : Network) (now : UInt64) (sender : Str) (txs : List Transaction) :
    Prop where
  transactions : (node.receive now (batchFrame txs) sender).transactions =
    node.transactions ++ txs.map fun tx => (tx, sender)
  decodeErrors : (node.receive now (batchFrame txs) sender).decodeErrors = node.decodeErrors
  peers : (node.receive now (batchFrame txs) sender).peers = node.peers

/-! ### What becomes of a batch -/

theorem length_beWrite32 (v : UInt32) : (beWrite32 v).length = 4 := rfl

theorem exists_beWrite32_of_le {n : ℕ} (h : n ≤ maxFrameBytes) :
    ∃ b rest, beWrite32 (UInt32.ofNat n) = b :: rest ∧ Stops b := by
  have hmax : maxFrameBytes = 33554432 := rfl
  have htoNat : (UInt32.ofNat n).toNat = n := UInt32.toNat_ofNat_of_lt' (by
    change n < 2 ^ 32
    omega)
  have hb : ((UInt32.ofNat n) >>> 24).toUInt8.toNat ≤ 2 := by
    rw [UInt32.toNat_toUInt8, UInt32.toNat_shiftRight, htoNat, Nat.shiftRight_eq_div_pow]
    have h24 : (24 : UInt32).toNat % 32 = 24 := rfl
    rw [h24]
    omega
  refine ⟨_, _, rfl, ?_⟩
  generalize ((UInt32.ofNat n) >>> 24).toUInt8 = b at hb
  have hcases : b = 0 ∨ b = 1 ∨ b = 2 := by
    simp only [← UInt8.toNat_inj]
    have h2 : (2 : UInt8).toNat = 2 := rfl
    have h1 : (1 : UInt8).toNat = 1 := rfl
    have h0 : (0 : UInt8).toNat = 0 := rfl
    omega
  rcases hcases with rfl | rfl | rfl <;> exact ⟨rfl, rfl, by decide, by decide⟩

/-- **A batch is not decoded**: the text that its number announces begins with the length of the
first transaction. -/
theorem decodeTransaction_batch {txs : List Transaction} (hne : txs ≠ [])
    (h : (batchPayload txs).length ≤ maxFrameBytes) :
    decodeTransaction (batchPayload txs) = none := by
  obtain ⟨tx, rest, rfl⟩ := List.exists_cons_of_ne_nil hne
  -- the payload is the number, the length of the first encoding, and what follows
  have hpayload : batchPayload (tx :: rest) =
      beWrite32 (UInt32.ofNat (rest.length + 1)) ++
        (beWrite32 (UInt32.ofNat (encodeTransaction tx).length) ++ (encodeTransaction tx ++
          rest.flatMap fun tx => encodeText (encodeTransaction tx))) := by
    rw [batchPayload, List.flatMap_cons, List.length_cons, encodeText, List.append_assoc]
  have hlength : (encodeTransaction tx).length ≤ maxFrameBytes := by
    rw [hpayload] at h
    simp only [List.length_append] at h
    omega
  obtain ⟨b, lengthTail, hb, hstops⟩ := exists_beWrite32_of_le hlength
  rw [hpayload, hb, decodeTransaction, decodeText, beRead32_beWrite32]
  split
  · rfl
  · simp only
    split
    · rfl
    · rw [Option.bind_some, List.drop_left' (length_beWrite32 _), List.cons_append]
      cases (UInt32.ofNat (rest.length + 1)).toNat with
      | zero => exact readRelayed_eq_none (List.splitOn_nil delimiter) rfl
      | succ n => exact readRelayed_cons_eq_none hstops _

/-! ### Delivery -/

theorem decodeFrame_encodeFrame {f : Frame} {data : Str} (htype : f.type ≠ .unknown)
    (hversion : f.type ≠ .version) (h : encodeFrame f = some data) :
    decodeFrame data = .ok { type := f.type, payload := f.payload } := by
  rw [encodeFrame] at h
  split at h
  case isTrue => cases h
  case isFalse hle =>
    have hmax : maxFrameBytes = 33554432 := rfl
    have hlen : (UInt32.ofNat f.payload.length).toNat = f.payload.length :=
      UInt32.toNat_ofNat_of_lt' (by
        change f.payload.length < 2 ^ 32
        omega)
    obtain rfl := Option.some_inj.1 h
    have hlength : (frameMagic ++ f.type.byte :: (beWrite32 (UInt32.ofNat f.payload.length) ++
        f.payload)).length = headerBytes + f.payload.length := by
      rw [List.length_append, List.length_cons, List.length_append, length_beWrite32, headerBytes]
      change 4 + _ = _
      omega
    have htake : (frameMagic ++ f.type.byte :: (beWrite32 (UInt32.ofNat f.payload.length) ++
        f.payload)).take 4 = frameMagic := rfl
    have hdrop5 : (frameMagic ++ f.type.byte :: (beWrite32 (UInt32.ofNat f.payload.length) ++
        f.payload)).drop 5 = beWrite32 (UInt32.ofNat f.payload.length) ++ f.payload := rfl
    have hdrop9 : (frameMagic ++ f.type.byte :: (beWrite32 (UInt32.ofNat f.payload.length) ++
        f.payload)).drop headerBytes = f.payload := rfl
    have hgetD : (frameMagic ++ f.type.byte :: (beWrite32 (UInt32.ofNat f.payload.length) ++
        f.payload)).getD 4 0 = f.type.byte := rfl
    rw [decodeFrame, hlength, htake, hdrop5, hdrop9, hgetD, beRead32_beWrite32, hlen,
      if_neg (by omega), if_neg (by simp)]
    simp only [List.take_length]
    rw [if_neg (by exact htype), if_neg hle, if_neg (by omega)]
    cases f.payload with
    | nil => rfl
    | cons c payload => exact if_neg hversion

theorem transactions_maybeAutoBanPeer (node : Network) (now : UInt64) (peerId : Str) :
    (node.maybeAutoBanPeer now peerId).transactions = node.transactions := by
  rw [Network.maybeAutoBanPeer]
  split
  · rfl
  · simp only
    split <;> rfl

theorem transactions_receive_batch (node : Network) (now : UInt64) (sender : Str)
    {txs : List Transaction} (hne : txs ≠ []) :
    (node.receive now (batchFrame txs) sender).transactions = node.transactions := by
  rw [batchFrame, if_neg hne]
  cases hframe : encodeFrame { type := .transactionBatch, payload := batchPayload txs } with
  | none => rfl
  | some data =>
      have hle : (batchPayload txs).length ≤ maxFrameBytes := by
        by_contra hgt
        rw [encodeFrame, if_pos (not_le.1 hgt)] at hframe
        cases hframe
      have hunknown : MessageType.transactionBatch ≠ .unknown := by decide
      have hversion : MessageType.transactionBatch ≠ .version := by decide
      have hblock : MessageType.transactionBatch ≠ .block := by decide
      have hdecode := decodeFrame_encodeFrame hunknown hversion hframe
      rw [Network.receive]
      simp only [hdecode]
      rw [Network.dispatchFrame, if_neg hblock, if_pos (Or.inr rfl)]
      simp only [decodeTransaction_batch hne hle]
      exact transactions_maybeAutoBanPeer _ now sender

/-- **A list is delivered exactly if it is empty.** -/
theorem batch_delivered (node : Network) (now : UInt64) (sender : Str) (txs : List Transaction) :
    Delivered node now sender txs ↔ txs = [] := by
  constructor
  · intro h
    by_contra hne
    have hnone := h.transactions
    rw [transactions_receive_batch node now sender hne, List.self_eq_append_right,
      List.map_eq_nil_iff] at hnone
    exact hne hnone
  · rintro rfl
    exact ⟨(List.append_nil _).symm, rfl, rfl⟩

/-- **A list of one transaction is not delivered**, and counts as a decode error of its sender. -/
theorem batch_not_delivered :
    ¬ ∀ (node : Network) (now : UInt64) (sender : Str) (txs : List Transaction),
      Delivered node now sender txs := by
  intro h
  have hone := (h { maxDecodeErrBan := 10, banDurationSecs := 3600, peers := fun _ => some {} } 0
    (str "10.0.0.1") [{ chainId := 1, toAddress := str "bob", value := 5 }]).transactions
  rw [transactions_receive_batch _ _ _ (List.cons_ne_nil _ _)] at hone
  exact absurd hone (List.cons_ne_nil _ _).symm

end Net.Broadcast
