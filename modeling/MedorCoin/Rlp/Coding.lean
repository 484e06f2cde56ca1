/-
**Recursive length prefixes: values, their encodings, and decoding them.**

A value is a byte string or a list of values.  A single byte below `0x80` stands for itself; any
other byte string and any list is preceded by a header that gives the length of what follows: one
byte up to a length of 55, and from there on the length itself, in as few bytes as it needs.  The
functions of the source append to an output; here they return what they append.

The decoders work on a buffer and an offset, in `size_t`, which wraps around.  `decodeLength` reads
a header; `decodeBytes` copies a byte string; `decodeList` decodes elements one after the other
until it has reached the end of the payload, each by `decodeValue`, which tells the two kinds
apart and calls back.  The mutual recursion is over a number of calls here, and the loop over a
number of turns.

Main definitions:

* `Rlp.RlpValue` — byte strings and nested lists;
* `Rlp.encodeLength`, `Rlp.encodeBytes`, `Rlp.encodeUInt`, `Rlp.encodeUInt256`, `Rlp.encodeList`,
  `Rlp.encodeValue`;
* `Rlp.RlpValue.Storable` — its byte strings are no longer than a vector can be;
* `Rlp.Header`, `Rlp.decodeLength`, `Rlp.decodeBytes`, `Rlp.decodeUInt64`, `Rlp.decodeUInt256`;
* `Rlp.decodeItems`, `Rlp.decodeListWith` — the list, given a decoder of its elements;
* `Rlp.decodeValue`, `Rlp.decodeList`.

Main results:

* `Rlp.RlpValue.induct` — the induction on nested lists;
* `Rlp.length_encodeLength_mono` — a longer payload has no shorter header.
-/

import MedorCoin.Cpp.Checked

set_option autoImplicit false

namespace Rlp

open Cpp

/-- `struct RlpValue`. -/
inductive RlpValue where
  | bytes (b : List UInt8)
  | list (l : List RlpValue)

@[elab_as_elim] theorem RlpValue.induct {P : RlpValue → Prop} (hbytes : ∀ b, P (.bytes b))
    (hlist : ∀ l, (∀ v ∈ l, P v) → P (.list l)) : ∀ v, P v
  | .bytes b => hbytes b
  | .list l => hlist l fun v _ => RlpValue.induct hbytes hlist v

/-- The byte strings of the value are no longer than a vector can be. -/
inductive RlpValue.Storable : RlpValue → Prop
  | bytes {b : List UInt8} : b.length ≤ maxSize → Storable (.bytes b)
  | list {l : List RlpValue} : (∀ v ∈ l, Storable v) → Storable (.list l)

/-! ### Encoding -/

/-- `encodeLength(len, offset, out)`. -/
def encodeLength (len : ℕ) (offset : UInt8) : List UInt8 :=
  if len < 56 then [offset + UInt8.ofNat len]
  else (offset + 55 + UInt8.ofNat (minimalBE len).length) :: minimalBE len

/-- `encodeBytes(data, len, out)`. -/
def encodeBytes (data : List UInt8) : List UInt8 :=
  if data.length = 1 ∧ data.headD 0 < 0x80 then [data.headD 0]
  else encodeLength data.length 0x80 ++ data

/-- `encodeUInt(value, out)`. -/
def encodeUInt (value : UInt64) : List UInt8 :=
  if value = 0 then [0x80] else encodeBytes (minimalBE value.toNat)

/-- `encodeUInt256(value, out)`; the value is given by its 32 bytes. -/
def encodeUInt256 (value : Vector UInt8 32) : List UInt8 :=
  let bytes := value.toList.dropWhile (· == 0)
  if bytes = [] then [0x80] else encodeBytes bytes

/-- `encodeList(encodedItems, out)`. -/
def encodeList (encodedItems : List (List UInt8)) : List UInt8 :=
  encodeLength (encodedItems.map List.length).sum 0xC0 ++ encodedItems.flatten

mutual

/-- `encodeValue(value, out)`. -/
def encodeValue : RlpValue → List UInt8
  | .bytes b => encodeBytes b
  | .list l => encodeLength (encodePayload l).length 0xC0 ++ encodePayload l

/-- The payload of a list: its elements, one after the other. -/
def encodePayload : List RlpValue → List UInt8
  | [] => []
  | v :: l => encodeValue v ++ encodePayload l

end

theorem encodeValue_bytes (b : List UInt8) : encodeValue (.bytes b) = encodeBytes b := by
  rw [encodeValue]

theorem encodePayload_eq_flatten (l : List RlpValue) :
    encodePayload l = (l.map encodeValue).flatten := by
  induction l with
  | nil => rw [encodePayload, List.map_nil, List.flatten_nil]
  | cons v l ih => rw [encodePayload, ih, List.map_cons, List.flatten_cons]

theorem encodeValue_list (l : List RlpValue) :
    encodeValue (.list l) = encodeList (l.map encodeValue) := by
  rw [encodeValue, encodeList, encodePayload_eq_flatten, List.length_flatten]

/-! ### Headers -/

theorem encodeLength_of_lt {len : ℕ} (h : len < 56) (offset : UInt8) :
    encodeLength len offset = [offset + UInt8.ofNat len] := if_pos h

theorem encodeLength_of_le {len : ℕ} (h : 56 ≤ len) (offset : UInt8) :
    encodeLength len offset =
      (offset + 55 + UInt8.ofNat (minimalBE len).length) :: minimalBE len :=
  if_neg (not_lt.2 h)

theorem length_minimalBE_mono {m n : ℕ} (h : m ≤ n) :
    (minimalBE m).length ≤ (minimalBE n).length := by
  refine length_minimalBE_le (h.trans_lt ?_)
  have hlt := readBE_lt (minimalBE n)
  rwa [readBE_minimalBE] at hlt

/-- **A longer payload has no shorter header.** -/
theorem length_encodeLength_mono {m n : ℕ} (h : m ≤ n) (offset : UInt8) :
    (encodeLength m offset).length ≤ (encodeLength n offset).length := by
  have hmono := length_minimalBE_mono h
  unfold encodeLength
  split
  · split
    · exact le_refl _
    · simp
  · next hm =>
      rw [if_neg (by omega)]
      simpa using hmono

end Rlp

namespace Rlp

open Cpp

/-! ### Headers -/

/-- `safeByte(data, length, index, context)`. -/
def safeByte (data : List UInt8) (index : UInt64) (context : String) : Checked UInt8 :=
  if index ≥ size data then
    .error (.runtimeError ("[RLP] " ++ context ++ ": unexpected end of input at offset " ++
      toString index ++ " (total length " ++ toString (size data) ++ ")"))
  else byteAt data index

/-- What `decodeLength` returns: the length of the payload, that of the header, and the offset of
the first byte of the payload. -/
structure Header where
  payloadLen : UInt64
  headerLen : UInt64
  start : UInt64
  deriving DecidableEq

/-- The loop that reads the length of a length: `n` more bytes, from an index on. -/
def readLength (data : List UInt8) : ℕ → UInt64 → UInt64 → Checked UInt64
  | 0, _, decodedLen => .ok decodedLen
  | n + 1, index, decodedLen => do
      let b ← byteAt data index
      readLength data n (index + 1) (shiftIn decodedLen b)

/-- `decodeLength(data, length, offset, baseOffset, ..)`. -/
def decodeLength (data : List UInt8) (offset : UInt64) (baseOffset : UInt8) (context : String) :
    Checked Header := do
  let first ← safeByte data offset context
  let shortLimit := baseOffset + 55
  if baseOffset ≤ first ∧ first ≤ shortLimit then
    .ok { payloadLen := (first - baseOffset).toUInt64, headerLen := 1, start := offset + 1 }
  else if shortLimit < first then
    let lol := (first - shortLimit).toUInt64
    if offset + 1 + lol > size data then
      .error (.runtimeError ("[RLP] " ++ context ++ ": truncated length-of-length at offset " ++
        toString offset))
    else do
      let decodedLen ← readLength data lol.toNat (offset + 1) 0
      if decodedLen < 56 then
        .error (.runtimeError ("[RLP] " ++ context ++ ": non-canonical long encoding at offset " ++
          toString offset))
      else
        .ok { payloadLen := decodedLen, headerLen := 1 + lol, start := offset + 1 + lol }
  else
    .error (.runtimeError ("[RLP] " ++ context ++ ": prefix 0x" ++ toString first ++
      " is not valid for base offset 0x" ++ toString baseOffset ++ " at position " ++
      toString offset))

/-! ### Byte strings and integers -/

/-- `decodeBytes(data, length, offset, nextOffset)`: the bytes, and the next offset. -/
def decodeBytes (data : List UInt8) (offset : UInt64) : Checked (List UInt8 × UInt64) :=
  if offset ≥ size data then
    .error (.runtimeError ("[RLP] decodeBytes: offset " ++ toString offset ++
      " is out of range (length=" ++ toString (size data) ++ ")"))
  else do
    let first ← byteAt data offset
    if first < 0x80 then .ok ([first], offset + 1)
    else if first > 0xBF then
      .error (.runtimeError ("[RLP] decodeBytes: expected byte string but found list prefix 0x" ++
        toString first ++ " at offset " ++ toString offset))
    else do
      let h ← decodeLength data offset 0x80 "decodeBytes"
      if h.start + h.payloadLen > size data then
        .error (.runtimeError ("[RLP] decodeBytes: payload extends beyond input at offset " ++
          toString offset ++ " (need " ++ toString h.payloadLen ++ " bytes, have " ++
          toString (size data - h.start) ++ ")"))
      else do
        let bytes ← copyBytes data h.start h.payloadLen
        .ok (bytes, h.start + h.payloadLen)

/-- `decodeUInt64(data, length, offset, nextOffset)`. -/
def decodeUInt64 (data : List UInt8) (offset : UInt64) : Checked (UInt64 × UInt64) := do
  let (bytes, nextOffset) ← decodeBytes data offset
  if bytes.length > 8 then
    .error (.runtimeError ("[RLP] decodeUInt64: encoded integer is " ++ toString bytes.length ++
      " bytes, maximum supported is 8"))
  else if bytes.length > 1 ∧ bytes.headD 0 = 0 then
    .error (.runtimeError "[RLP] decodeUInt64: non-canonical encoding with leading zero")
  else .ok (bytes.foldl shiftIn 0, nextOffset)

/-- At most 32 bytes at the right end of 32. -/
def alignRight (bytes : List UInt8) (h : bytes.length ≤ 32) : Vector UInt8 32 :=
  ⟨(List.replicate (32 - bytes.length) 0 ++ bytes).toArray, by
    rw [List.size_toArray, List.length_append, List.length_replicate]
    omega⟩

/-- `decodeUInt256(data, length, offset, nextOffset)`. -/
def decodeUInt256 (data : List UInt8) (offset : UInt64) : Checked (Vector UInt8 32 × UInt64) := do
  let (bytes, nextOffset) ← decodeBytes data offset
  if h : bytes.length > 32 then
    .error (.runtimeError ("[RLP] decodeUInt256: encoded integer is " ++ toString bytes.length ++
      " bytes, maximum supported is 32"))
  else if bytes.length > 1 ∧ bytes.headD 0 = 0 then
    .error (.runtimeError "[RLP] decodeUInt256: non-canonical encoding with leading zero")
  else .ok (alignRight bytes (not_lt.1 h), nextOffset)

/-! ### Lists and values -/

/-- The loop of `decodeList`, from a position up to the end of the payload. -/
def decodeItems (decodeChild : UInt64 → Checked (RlpValue × UInt64)) (stop : UInt64) :
    ℕ → UInt64 → Checked (List RlpValue × UInt64)
  | 0, _ => .error .outOfFuel
  | n + 1, pos =>
      if pos < stop then do
        let (child, childNext) ← decodeChild pos
        if childNext ≤ pos then
          .error (.runtimeError ("[RLP] decodeList: decoder made no progress at offset " ++
            toString pos ++ " — malformed input"))
        else do
          let (items, last) ← decodeItems decodeChild stop n childNext
          .ok (child :: items, last)
      else .ok ([], pos)

/-- The body of `decodeList`, given the decoder of its elements. -/
def decodeListWith (decodeChild : UInt64 → Checked (RlpValue × UInt64)) (turns : ℕ)
    (data : List UInt8) (offset : UInt64) : Checked (List RlpValue × UInt64) :=
  if offset ≥ size data then
    .error (.runtimeError ("[RLP] decodeList: offset " ++ toString offset ++
      " is out of range (length=" ++ toString (size data) ++ ")"))
  else do
    let first ← byteAt data offset
    if first < 0xC0 then
      .error (.runtimeError ("[RLP] decodeList: expected list prefix >= 0xC0 but found 0x" ++
        toString first ++ " at offset " ++ toString offset))
    else do
      let h ← decodeLength data offset 0xC0 "decodeList"
      let stop := h.start + h.payloadLen
      if stop > size data then
        .error (.runtimeError
          ("[RLP] decodeList: list payload extends beyond input at offset " ++ toString offset))
      else do
        let (items, pos) ← decodeItems decodeChild stop turns h.start
        if pos ≠ stop then
          .error (.runtimeError
            ("[RLP] decodeList: list payload was not fully consumed (expected " ++
              toString stop ++ ", stopped at " ++ toString pos ++ ")"))
        else .ok (items, stop)

/-- `decodeValue(data, length, offset, nextOffset)`, with at most `fuel` nested calls. -/
def decodeValue (data : List UInt8) : ℕ → UInt64 → Checked (RlpValue × UInt64)
  | 0, _ => .error .outOfFuel
  | fuel + 1, offset =>
      if offset ≥ size data then
        .error (.runtimeError ("[RLP] decodeValue: offset " ++ toString offset ++
          " is out of range (length=" ++ toString (size data) ++ ")"))
      else do
        let first ← byteAt data offset
        if first ≥ 0xC0 then do
          let (items, nextOffset) ← decodeListWith (decodeValue data fuel) (fuel + 1) data offset
          .ok (.list items, nextOffset)
        else do
          let (bytes, nextOffset) ← decodeBytes data offset
          .ok (.bytes bytes, nextOffset)

/-- `decodeList(data, length, offset, nextOffset)`, with at most `fuel` nested calls. -/
def decodeList (data : List UInt8) (fuel : ℕ) (offset : UInt64) :
    Checked (List RlpValue × UInt64) :=
  decodeListWith (decodeValue data fuel) (fuel + 1) data offset

end Rlp
