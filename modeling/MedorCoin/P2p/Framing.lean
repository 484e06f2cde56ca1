/-
**Messages between nodes, as lines over a stream.**

A node writes each message as a line of JSON and reads the bytes of a connection in the pieces in
which they come in.  It decodes every piece on its own, puts the text behind what it has, and
handles the lines that are closed.

So it handles the lines that were written as long as no piece ends inside of a character.  Where one
does, the character comes out as several U+FFFD; mostly this is a message with other contents, and
nobody notices.

The timer of the handshake and the log are left out.  Nothing listens to the events of the network.

Main definitions:

* `P2p.Message`, `P2p.send` — a message and its bytes;
* `P2p.Peer`, `P2p.handleMessage`, `P2p.onData`, `P2p.receive` — the receiving end;
* `P2p.Delivered` — the messages are parsed, in order, and nobody is penalised.

Main results:

* `P2p.receive_cases` — pieces are handled as the lines of all their texts, until there is a
  penalty;
* `P2p.delivered_iff` — **when it does not matter how the bytes come in**.
-/

import MedorCoin.Js.JsonParse
import MedorCoin.Js.Lines
import MedorCoin.Js.Sha256
import MedorCoin.Js.Utf8Decoder

set_option autoImplicit false

namespace P2p

open Js

/-! ### What is written -/

/-- What `Peer.send` is called with, and what the clock shows.  A payload that is not defined is
left out of the text. -/
structure Message where
  type : Str
  payload : Option Json
  ts : ℤ

/-- `{ type, payload, ts: Date.now() }`. -/
def Message.toJson (m : Message) : Json :=
  .obj (("type".toList, .str m.type) ::
    ((m.payload.toList.map fun payload => ("payload".toList, payload)) ++
      [("ts".toList, .num m.ts)]))

/-- `JSON.stringify(..)`. -/
def Message.text (m : Message) : Str := Json.stringify m.toJson

/-- `send(type, payload)`: the bytes that are written. -/
def send (m : Message) : Bytes := utf8 (m.text ++ ['\n'])

/-! ### What is read -/

/-- `JSON.parse`, the digest of a text, and the readings of the clock. -/
structure Runtime where
  parse : Str → Option Json
  sha256 : Str → Str
  now : ℕ → ℕ

/-- The fields of `class Peer` that the receiving end uses, without the buffer; whether the address
is banned; and how often the clock was read. -/
structure Peer where
  connected : Bool := true
  handshaked : Bool := false
  lastSeen : ℕ := 0
  score : ℤ := 100
  version : Option Json := some .null
  height : Option Json := some (.num 0)
  messagesSeen : List (Str × ℕ) := []
  banned : Bool := false
  readings : ℕ := 0

/-- What is seen of the handling of a line. -/
inductive Output
  | parsed (raw : Str) (msg : Json)
  | connect
  | pong
  | message (msg : Json)
  | penalized (amount : ℤ) (reason : String)

/-- `Date.now()`. -/
def dateNow (R : Runtime) (peer : Peer) : ℕ × Peer :=
  (R.now peer.readings, { peer with readings := peer.readings + 1 })

/-- `_pruneCache()`: the 2500 entries that are oldest go. -/
def pruneCache (seen : List (Str × ℕ)) : List (Str × ℕ) :=
  let toRemove := ((seen.mergeSort fun a b => a.2 ≤ b.2).take 2500).map Prod.fst
  seen.filter fun entry => entry.1 ∉ toRemove

/-- `isDuplicate(msgHash)`. -/
def isDuplicate (R : Runtime) (peer : Peer) (msgHash : Str) : Bool × Peer :=
  if msgHash ∈ peer.messagesSeen.map Prod.fst then (true, peer)
  else
    let (now, peer) := dateNow R peer
    let seen := peer.messagesSeen ++ [(msgHash, now)]
    (false, { peer with messagesSeen := if seen.length > 10000 then pruneCache seen else seen })

/-- `penalizePeer(peer.id, amount, reason)`; a peer without score is banned and disconnected. -/
def penalizePeer (peer : Peer) (amount : ℤ) (reason : String) : List Output × Peer :=
  let score := peer.score - amount
  ([.penalized amount reason],
    if score ≤ 0 then { peer with score, banned := true, connected := false }
    else { peer with score })

/-- What the `catch` block of `_handleMessage` does. -/
def invalidMessage (peer : Peer) : List Output × Peer := penalizePeer peer 20 "INVALID_PROTOCOL_MSG"

/-- `_handleMessage` after the text is parsed.  Reading a property of `null` or of a payload that is
not there throws. -/
def dispatch (R : Runtime) (peer : Peer) (raw : Str) (msg : Json) : List Output × Peer :=
  let (now, peer) := dateNow R peer
  let peer := { peer with lastSeen := now }
  match msg with
  | .null => invalidMessage peer
  | _ =>
      if Json.string? (msg.get? "type".toList) = some "version".toList then
        let peer := { peer with handshaked := true }
        match msg.get? "payload".toList with
        | none => invalidMessage peer
        | some .null => invalidMessage peer
        | some payload =>
            ([.connect], { peer with
              version := payload.get? "version".toList
              height := payload.get? "height".toList })
      else if !peer.handshaked then ([], peer)
      else
        match isDuplicate R peer (R.sha256 raw) with
        | (true, peer) => ([], peer)
        | (false, peer) =>
            if Json.string? (msg.get? "type".toList) = some "ping".toList then
              (if peer.connected then [.pong] else [], peer)
            else ([.message msg], peer)

/-- `_handleMessage(peer, raw)`. -/
def handleMessage (R : Runtime) (peer : Peer) (raw : Str) : List Output × Peer :=
  match R.parse raw with
  | none => invalidMessage peer
  | some msg =>
      let (outputs, peer) := dispatch R peer raw msg
      (.parsed raw msg :: outputs, peer)

/-- The loop over the lines: `if (line.trim()) this._handleMessage(peer, line)`. -/
def handleLines (R : Runtime) (peer : Peer) : List Str → List Output × Peer
  | [] => ([], peer)
  | line :: lines =>
      if line.all isBlank then handleLines R peer lines
      else
        let (outputs, peer) := handleMessage R peer line
        let (rest, peer) := handleLines R peer lines
        (outputs ++ rest, peer)

/-- `socket.on("data", ..)`, with `peer.buffer`.  A socket that is destroyed has no more data. -/
def onData (R : Runtime) (peer : Peer) (buffer : Str) (data : Bytes) :
    List Output × Peer × Str :=
  if !peer.connected then ([], peer, buffer)
  else
    let text := buffer ++ bufferToString data
    let (outputs, peer) := handleLines R peer (closedLines text)
    (outputs, peer, openLine text)

/-- One piece after the other. -/
def receive (R : Runtime) (peer : Peer) (buffer : Str) : List Bytes → List Output × Peer × Str
  | [] => ([], peer, buffer)
  | data :: chunks =>
      let (outputs, peer, buffer) := onData R peer buffer data
      let (rest, peer, buffer) := receive R peer buffer chunks
      (outputs ++ rest, peer, buffer)

/-- The texts that are parsed, and what they are parsed to. -/
def parsed (outputs : List Output) : List (Str × Json) :=
  outputs.filterMap fun
    | .parsed raw msg => some (raw, msg)
    | _ => none

/-- Somebody is penalised. -/
def Output.isPenalty : Output → Bool
  | .penalized _ _ => true
  | _ => false

/-- **The messages are parsed, in order, each from the text that was written, and nobody is
penalised.** -/
structure Delivered (R : Runtime) (peer : Peer) (chunks : List Bytes) (msgs : List Message) :
    Prop where
  parsed : parsed (receive R peer [] chunks).1 = msgs.map fun m => (m.text, m.toJson)
  unpenalized : (receive R peer [] chunks).1.any Output.isPenalty = false

/-- What is relied on of a message: `JSON.stringify` prints a line that `JSON.parse` reads, and the
message with the version has a payload. -/
structure Wellformed (parse : Str → Option Json) (m : Message) : Prop where
  line : '\n' ∉ m.text
  parse : parse m.text = some m.toJson
  version : m.type = "version".toList → ∃ payload, m.payload = some payload ∧ payload ≠ .null

variable {R : Runtime} {peer : Peer} {buffer : Str}

/-! ### One line -/

/-- Nothing more is parsed, and without a penalty the peer stays as connected as it is. -/
structure Handled (peer : Peer) (r : List Output × Peer) : Prop where
  unparsed : parsed r.1 = []
  connected : r.1.any Output.isPenalty = false → r.2.connected = peer.connected

theorem handled_invalidMessage (peer peer' : Peer) : Handled peer (invalidMessage peer') where
  unparsed := rfl
  connected h := by cases h

theorem Handled.of_eq {peer' : Peer} {outputs : List Output} (hparsed : parsed outputs = [])
    (h : peer'.connected = peer.connected) : Handled peer (outputs, peer') := ⟨hparsed, fun _ => h⟩

theorem isDuplicate_connected (R : Runtime) (peer : Peer) (msgHash : Str) :
    (isDuplicate R peer msgHash).2.connected = peer.connected := by
  unfold isDuplicate dateNow
  split <;> rfl

theorem handled_dispatch (R : Runtime) (peer : Peer) (raw : Str) (msg : Json) :
    Handled peer (dispatch R peer raw msg) := by
  unfold dispatch dateNow
  simp only
  split
  -- `null`
  · exact handled_invalidMessage _ _
  split
  -- the version
  · split
    · exact handled_invalidMessage _ _
    · exact handled_invalidMessage _ _
    · exact .of_eq rfl rfl
  split
  -- anything else before the handshake
  · exact .of_eq rfl rfl
  have hdup := isDuplicate_connected R
    { peer with lastSeen := R.now peer.readings, readings := peer.readings + 1 } (R.sha256 raw)
  split
  · next heq =>
      rw [heq] at hdup
      exact .of_eq rfl hdup
  · next heq =>
      rw [heq] at hdup
      split
      · refine .of_eq ?_ hdup
        split <;> rfl
      · exact .of_eq rfl hdup

theorem handleMessage_unpenalized {raw : Str}
    (h : (handleMessage R peer raw).1.any Output.isPenalty = false) :
    (parsed (handleMessage R peer raw).1).map Prod.fst = [raw] ∧
      (handleMessage R peer raw).2.connected = peer.connected := by
  unfold handleMessage at h ⊢
  cases hparse : R.parse raw with
  | none =>
      rw [hparse] at h
      cases h
  | some msg =>
      rw [hparse] at h
      have hhandled := handled_dispatch R peer raw msg
      refine ⟨?_, hhandled.connected h⟩
      change raw :: (parsed (dispatch R peer raw msg).1).map Prod.fst = _
      rw [hhandled.unparsed, List.map_nil]

theorem Message.get?_type (m : Message) :
    Json.string? (m.toJson.get? "type".toList) = some m.type := rfl

theorem Message.get?_payload (m : Message) : m.toJson.get? "payload".toList = m.payload := by
  cases hpayload : m.payload with
  | none =>
      rw [Message.toJson, hpayload]
      rfl
  | some payload =>
      rw [Message.toJson, hpayload]
      rfl

/-- **A message that was written** is parsed to itself, without a penalty. -/
theorem handleMessage_of_wellformed (peer : Peer) {m : Message} (h : Wellformed R.parse m) :
    parsed (handleMessage R peer m.text).1 = [(m.text, m.toJson)] ∧
      (handleMessage R peer m.text).1.any Output.isPenalty = false := by
  have hhandled := handled_dispatch R peer m.text m.toJson
  have hunpenalized : (dispatch R peer m.text m.toJson).1.any Output.isPenalty = false := by
    unfold dispatch dateNow
    simp only
    split
    · next hnull => cases hnull
    rw [Message.get?_type, Message.get?_payload]
    split
    · next hversion =>
        obtain ⟨payload, hpayload, hne⟩ := h.version (Option.some.inj hversion)
        rw [hpayload]
        split
        · next hnone => cases hnone
        · next hnull => exact absurd (Option.some.inj hnull) hne
        · rfl
    split
    · rfl
    split
    · rfl
    · split
      · split <;> rfl
      · rfl
  rw [handleMessage, h.parse]
  refine ⟨?_, hunpenalized⟩
  change (m.text, m.toJson) :: parsed (dispatch R peer m.text m.toJson).1 = _
  rw [hhandled.unparsed]

/-! ### Several lines -/

theorem parsed_append (outputs outputs' : List Output) :
    parsed (outputs ++ outputs') = parsed outputs ++ parsed outputs' := List.filterMap_append

theorem handleLines_blank {line : Str} (lines : List Str) (h : line.all isBlank = true) :
    handleLines R peer (line :: lines) = handleLines R peer lines := by
  rw [handleLines, h]
  rfl

theorem handleLines_cons {line : Str} (lines : List Str) (h : line.all isBlank = false) :
    handleLines R peer (line :: lines) =
      ((handleMessage R peer line).1 ++ (handleLines R (handleMessage R peer line).2 lines).1,
        (handleLines R (handleMessage R peer line).2 lines).2) := by
  rw [handleLines, h]
  rfl

theorem handleLines_append (lines lines' : List Str) :
    handleLines R peer (lines ++ lines') =
      ((handleLines R peer lines).1 ++ (handleLines R (handleLines R peer lines).2 lines').1,
        (handleLines R (handleLines R peer lines).2 lines').2) := by
  induction lines generalizing peer with
  | nil => rfl
  | cons line lines ih =>
      cases hblank : line.all isBlank with
      | true =>
          rw [List.cons_append, handleLines_blank _ hblank, handleLines_blank _ hblank, ih]
      | false =>
          rw [List.cons_append, handleLines_cons _ hblank, handleLines_cons _ hblank, ih,
            List.append_assoc]

/-- **Lines without a penalty** are parsed, but for the blank ones, and the peer stays connected. -/
theorem handleLines_unpenalized {lines : List Str}
    (h : (handleLines R peer lines).1.any Output.isPenalty = false) :
    (parsed (handleLines R peer lines).1).map Prod.fst =
        lines.filter (fun line => !line.all isBlank) ∧
      (handleLines R peer lines).2.connected = peer.connected := by
  induction lines generalizing peer with
  | nil => exact ⟨rfl, rfl⟩
  | cons line lines ih =>
      cases hblank : line.all isBlank with
      | true =>
          rw [handleLines_blank _ hblank] at h ⊢
          rw [List.filter_cons_of_neg (by simp [hblank])]
          exact ih h
      | false =>
          rw [handleLines_cons _ hblank] at h ⊢
          rw [List.any_append, Bool.or_eq_false_iff] at h
          obtain ⟨hparsed, hconnected⟩ := handleMessage_unpenalized h.1
          obtain ⟨hparsed', hconnected'⟩ := ih h.2
          rw [List.filter_cons_of_pos (by simp [hblank])]
          refine ⟨?_, hconnected'.trans hconnected⟩
          rw [parsed_append, List.map_append, hparsed, hparsed']
          rfl

/-- **The lines that were written** are parsed to the messages, without a penalty. -/
theorem handleLines_of_wellformed (peer : Peer) {msgs : List Message}
    (h : ∀ m ∈ msgs, Wellformed R.parse m) :
    parsed (handleLines R peer (msgs.map Message.text)).1 =
        msgs.map (fun m => (m.text, m.toJson)) ∧
      (handleLines R peer (msgs.map Message.text)).1.any Output.isPenalty = false := by
  induction msgs generalizing peer with
  | nil => exact ⟨rfl, rfl⟩
  | cons m msgs ih =>
      have hblank : m.text.all isBlank = false := rfl
      obtain ⟨hparsed, hunpenalized⟩ :=
        handleMessage_of_wellformed peer (h m List.mem_cons_self)
      obtain ⟨hparsed', hunpenalized'⟩ := ih (handleMessage R peer m.text).2
        fun m' hm' => h m' (List.mem_cons_of_mem _ hm')
      rw [List.map_cons, handleLines_cons _ hblank, List.map_cons, parsed_append, hparsed, hparsed',
        List.any_append, hunpenalized, hunpenalized']
      exact ⟨rfl, rfl⟩

/-! ### The pieces of a stream -/

theorem onData_connected (hconnected : peer.connected = true) (buffer : Str) (data : Bytes) :
    onData R peer buffer data =
      ((handleLines R peer (closedLines (buffer ++ bufferToString data))).1,
        (handleLines R peer (closedLines (buffer ++ bufferToString data))).2,
        openLine (buffer ++ bufferToString data)) := by
  rw [onData, hconnected]
  rfl

/-- **The pieces are handled as the lines of all their texts**, behind what is in the buffer, or
somebody is penalised either way; by induction on the pieces. -/
theorem receive_cases (hconnected : peer.connected = true) (hbuffer : '\n' ∉ buffer)
    (chunks : List Bytes) :
    receive R peer buffer chunks =
      ((handleLines R peer (closedLines (buffer ++ chunks.flatMap bufferToString))).1,
        (handleLines R peer (closedLines (buffer ++ chunks.flatMap bufferToString))).2,
        openLine (buffer ++ chunks.flatMap bufferToString)) ∨
    (receive R peer buffer chunks).1.any Output.isPenalty = true ∧
      (handleLines R peer
        (closedLines (buffer ++ chunks.flatMap bufferToString))).1.any Output.isPenalty = true := by
  induction chunks generalizing peer buffer with
  | nil =>
      obtain ⟨hclosed, hopen⟩ := closedLines_of_not_mem hbuffer
      left
      rw [List.flatMap_nil, List.append_nil, hclosed, hopen]
      rfl
  | cons data chunks ih =>
      obtain ⟨hclosed, hopen⟩ :=
        closedLines_append (buffer ++ bufferToString data) (chunks.flatMap bufferToString)
      have hrest : '\n' ∉ openLine (buffer ++ bufferToString data) :=
        (ofLines_closedLines (buffer ++ bufferToString data)).2.rest
      rw [List.flatMap_cons, ← List.append_assoc, hclosed, hopen, handleLines_append, receive,
        onData_connected hconnected]
      simp only
      cases hpenalty :
          (handleLines R peer (closedLines (buffer ++ bufferToString data))).1.any
            Output.isPenalty with
      | true =>
          -- a penalty in this piece
          right
          rw [List.any_append, List.any_append, hpenalty]
          exact ⟨rfl, rfl⟩
      | false =>
          have hconnected' := (handleLines_unpenalized hpenalty).2.trans hconnected
          rcases ih hconnected' hrest with heq | ⟨hreceive, hlines⟩
          · left
            rw [heq]
          · right
            rw [List.any_append, List.any_append, hreceive, hlines, Bool.or_true]
            exact ⟨rfl, rfl⟩

/-! ### The messages that were written -/

theorem flatMap_send (msgs : List Message) :
    msgs.flatMap send = utf8 (ofLines (msgs.map Message.text) []) := by
  induction msgs with
  | nil => rfl
  | cons m msgs ih =>
      rw [List.flatMap_cons, ih, send, ← utf8_append, List.map_cons, ofLines_cons,
        List.append_assoc]
      rfl

theorem unbroken_texts {msgs : List Message} (h : ∀ m ∈ msgs, Wellformed R.parse m) :
    Unbroken (msgs.map Message.text) [] where
  closed line hline := by
    obtain ⟨m, hm, rfl⟩ := List.mem_map.1 hline
    exact (h m hm).line
  rest := List.not_mem_nil

/-- **Pieces that hold whole characters** are handled as the lines that were written. -/
theorem receive_of_whole {chunks : List Bytes} {msgs : List Message}
    (hconnected : peer.connected = true) (hmsgs : ∀ m ∈ msgs, Wellformed R.parse m)
    (hchunks : chunks.flatten = msgs.flatMap send)
    (hwhole : ∀ chunk ∈ chunks, ∃ s, chunk = utf8 s) :
    receive R peer [] chunks =
      ((handleLines R peer (msgs.map Message.text)).1,
        (handleLines R peer (msgs.map Message.text)).2, []) := by
  rw [flatMap_send] at hchunks
  have htext := (flatMap_bufferToString_iff hchunks).2 hwhole
  obtain ⟨hclosed, hopen⟩ := closedLines_ofLines (unbroken_texts hmsgs)
  have hcases := receive_cases (R := R) hconnected List.not_mem_nil chunks
  rw [List.nil_append, htext, hclosed, hopen] at hcases
  refine hcases.resolve_right fun h => ?_
  rw [(handleLines_of_wellformed peer hmsgs).2] at h
  cases h.2

/-- **The text of pieces whose lines are as many as were written, none of them blank.** -/
theorem flatMap_bufferToString_of_delivered {chunks : List Bytes} {msgs : List Message}
    (hmsgs : ∀ m ∈ msgs, Wellformed R.parse m) (hchunks : chunks.flatten = msgs.flatMap send)
    (hlines : (closedLines (chunks.flatMap bufferToString)).filter (fun line => !line.all isBlank) =
      msgs.map Message.text) :
    chunks.flatMap bufferToString = ofLines (msgs.map Message.text) [] := by
  obtain ⟨htext, hunbroken⟩ := ofLines_closedLines (chunks.flatMap bufferToString)
  -- as many lines as messages: no line is blank
  have hcount : (closedLines (chunks.flatMap bufferToString)).length = msgs.length := by
    rw [← count_newline_ofLines hunbroken, ← htext, count_newline_flatMap, hchunks, flatMap_send,
      ← count_newline_decodeText none, ← bufferToString, bufferToString_utf8,
      count_newline_ofLines (unbroken_texts hmsgs), List.length_map]
  have hclosed : closedLines (chunks.flatMap bufferToString) = msgs.map Message.text := by
    rw [← hlines]
    refine (List.filter_sublist.eq_of_length ?_).symm
    rw [hlines, hcount, List.length_map]
  -- the stream is empty, or it ends with a line break
  have hopen : openLine (chunks.flatMap bufferToString) = [] := by
    rcases List.eq_nil_or_concat msgs with rfl | ⟨msgs, m, rfl⟩
    · have hempty : chunks.flatMap bufferToString = [] := by
        rw [List.flatMap_eq_nil_iff]
        intro chunk hchunk
        rw [List.flatten_eq_nil_iff.1 hchunks chunk hchunk]
        rfl
      rw [hempty]
      rfl
    · rw [List.concat_eq_append, List.flatMap_append, List.flatMap_singleton, send, utf8_append,
        ← List.append_assoc] at hchunks
      obtain ⟨s, hs⟩ := exists_of_flatten_newline hchunks
      rw [hs, openLine_concat]
  rw [htext, hclosed, hopen]

/-- **It does not matter how the bytes come in exactly if every piece holds whole characters.**  For
messages that `JSON.parse` reads back, whatever the peer has seen before. -/
theorem delivered_iff {chunks : List Bytes} {msgs : List Message}
    (hconnected : peer.connected = true) (hmsgs : ∀ m ∈ msgs, Wellformed R.parse m)
    (hchunks : chunks.flatten = msgs.flatMap send) :
    Delivered R peer chunks msgs ↔ ∀ chunk ∈ chunks, ∃ s, chunk = utf8 s := by
  constructor
  · rintro ⟨hparsed, hunpenalized⟩
    rcases receive_cases (R := R) hconnected List.not_mem_nil chunks with heq | ⟨hpenalty, -⟩
    · rw [List.nil_append] at heq
      rw [heq] at hparsed hunpenalized
      have hlines := (handleLines_unpenalized hunpenalized).1
      simp only [hparsed, List.map_map] at hlines
      have htext := flatMap_bufferToString_of_delivered hmsgs hchunks hlines.symm
      rw [flatMap_send] at hchunks
      exact (flatMap_bufferToString_iff hchunks).1 htext
    · rw [hunpenalized] at hpenalty
      cases hpenalty
  · intro hwhole
    obtain ⟨hparsed, hunpenalized⟩ := handleLines_of_wellformed peer hmsgs
    have hreceive := receive_of_whole hconnected hmsgs hchunks hwhole
    exact ⟨by rw [hreceive, hparsed], by rw [hreceive, hunpenalized]⟩

/-! ### Messages with plain payloads -/

/-- **A message whose payload is plain** is read back by the reader of this development. -/
theorem wellformed_of_plain {m : Message} (hplain : ∀ payload ∈ m.payload, Json.plain payload)
    (hversion : m.type = "version".toList → ∃ payload, m.payload = some payload ∧ payload ≠ .null) :
    Wellformed Json.parse m := by
  have hobj : Json.plain m.toJson := by
    rw [Message.toJson, Json.plain_obj]
    cases hpayload : m.payload with
    | none =>
        have hkeys : ["type".toList, "ts".toList].Nodup := by decide
        exact ⟨hkeys, by simp [Json.plain]⟩
    | some payload =>
        have hkeys : ["type".toList, "payload".toList, "ts".toList].Nodup := by decide
        exact ⟨hkeys, by simp [Json.plain, hplain payload hpayload]⟩
  exact ⟨Json.newline_not_mem_stringify hobj, Json.parse_stringify hobj, hversion⟩

def sampleRuntime : Runtime := ⟨Json.parse, Sha256.hex, fun n => n⟩

def sampleMessage : Message where
  type := "tx".toList
  payload := some (.obj [("memo".toList, .str "café".toList)])
  ts := 17

theorem wellformed_sampleMessage : Wellformed Json.parse sampleMessage :=
  wellformed_of_plain (by rintro payload ⟨⟩; decide) (fun h => absurd h (by decide))

def sampleWhole : List Bytes :=
  [utf8 (sampleMessage.text.take 36), utf8 (sampleMessage.text.drop 36 ++ ['\n'])]

def sampleCut : List Bytes := [(send sampleMessage).take 36, (send sampleMessage).drop 36]

theorem delivered_sampleWhole :
    sampleWhole.flatten = [sampleMessage].flatMap send ∧
      Delivered sampleRuntime {} sampleWhole [sampleMessage] := by
  have hchunks : sampleWhole.flatten = [sampleMessage].flatMap send := by decide +kernel
  refine ⟨hchunks, (delivered_iff (R := sampleRuntime) rfl ?_ hchunks).2 ?_⟩
  · exact fun m hm => List.mem_singleton.1 hm ▸ wellformed_sampleMessage
  · intro chunk hchunk
    rcases List.mem_pair.1 hchunk with rfl | rfl
    · exact ⟨_, rfl⟩
    · exact ⟨_, rfl⟩

def sampleGarbled : Str :=
  "\x7b\"type\":\"tx\",\"payload\":\x7b\"memo\":\"caf\uFFFD\uFFFD\"\x7d,\"ts\":17\x7d".toList

/-- **Nobody notices that the memo is another one.** -/
theorem not_delivered_sampleCut :
    Wellformed Json.parse sampleMessage ∧ sampleCut.flatten = [sampleMessage].flatMap send ∧
      (parsed (receive sampleRuntime {} [] sampleCut).1).map Prod.fst = [sampleGarbled] ∧
      (receive sampleRuntime {} [] sampleCut).1.any Output.isPenalty = false ∧
      ¬ Delivered sampleRuntime {} sampleCut [sampleMessage] := by
  have hparsed : (parsed (receive sampleRuntime {} [] sampleCut).1).map Prod.fst =
      [sampleGarbled] := by
    decide +kernel
  refine ⟨wellformed_sampleMessage, by decide +kernel, hparsed, by decide +kernel, fun h => ?_⟩
  rw [h.parsed] at hparsed
  exact absurd hparsed (by decide +kernel)

end P2p
