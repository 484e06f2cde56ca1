/-
**Transactions on the wire.**

`serializeTx` writes a transaction as a JSON object, its data and the two halves of its signature in
Base64.  `deserializeTx` reads one back: it checks the fields one by one, then that the hash was not
seen within the last hour, then that the hash is the digest of the contents, and last the signature.
A hash is remembered before it is compared, so that a refused transaction is remembered too.

SHA-256 and the library secp256k1 are parameters; `Secp256k1.Documented` is what the library's
documentation promises.

Main definitions:

* `Net.Json` — the JSON values; `Net.ReplayCache` — the hashes seen;
* `Net.contentHash` — the digest of the contents of a transaction;
* `Net.Secp256k1`, `Net.recoverPubkey`, `Net.verifyHashWithPubkey`, `Net.computeRecoveryId`;
* `Net.serializeTx`, `Net.readFields`, `Net.verifyTx`, `Net.deserializeTx`;
* `Net.ValidForWire` — the transactions that can be sent.

Main results:

* `Net.readFields_serializeTx` — the fields are read as they were written;
* `Net.verifyTx_of_valid` — a recoverable signature is accepted;
* `Net.deserializeTx_serializeTx` — **the round trip**.
-/

import MedorCoin.Cpp.BigEndian
import MedorCoin.Cpp.Keccak
import MedorCoin.Js.Sha256
import MedorCoin.Net.Base64
import MedorCoin.Node.Transaction

set_option autoImplicit false

namespace Net

open Cpp Node
open Cpp.Keccak (leWrite64)

/-! ### JSON values -/

/-- A value of `nlohmann::json`.  Of a floating-point number only its integral part is kept, which
is what a conversion to `int` reads; the order of the fields of an object is not looked at. -/
inductive Json where
  | null
  | boolean (b : Bool)
  | unsigned (n : UInt64)
  | integer (i : Int64)
  | float (trunc : ℤ)
  | string (s : Str)
  | array (items : List Json)
  | object (fields : List (Str × Json))

namespace Json

def isObject : Json → Bool
  | object _ => true
  | _ => false

/-- The field of an object, `none` where `contains` is false. -/
def find? (j : Json) (field : Str) : Option Json :=
  match j with
  | object fields => fields.lookup field
  | _ => none

/-- `get<int>()` of a number. -/
def getInt? : Json → Option Int32
  | unsigned n => some n.toUInt32.toInt32
  | integer i => some i.toInt32
  | float trunc => some (Int32.ofInt trunc)
  | _ => none

/-- `get<std::string>()` of a string. -/
def getString? : Json → Option Str
  | string s => some s
  | _ => none

/-- `get<uint64_t>()` of an unsigned number. -/
def getUint64? : Json → Option UInt64
  | unsigned n => some n
  | _ => none

end Json

/-! ### Versions and limits -/

def CURRENT_TX_VERSION : UInt32 := 1

def MIN_TX_VERSION : UInt32 := 1

def MAX_TX_DATA_BYTES : ℕ := 128 * 1024

def MAX_ADDRESS_LEN : ℕ := 128

def MAX_HASH_LEN : ℕ := 128

def MAX_SIG_COMPONENT_B64 : ℕ := 96

def MEDORCOIN_CHAIN_ID : UInt64 := 1

/-! ### The hashes that were seen -/

def REPLAY_WINDOW_SECONDS : UInt64 := 3600

/-- Each hash that was seen, with the second in which it was seen last. -/
abbrev ReplayCache := List (Str × UInt64)

namespace ReplayCache

/-- What is left after the erasing loop. -/
def live (seen : ReplayCache) (now : UInt64) : ReplayCache :=
  seen.filter fun entry => !(now - entry.2 > REPLAY_WINDOW_SECONDS)

/-- A hash is in the map. -/
def contains (seen : ReplayCache) (txHash : Str) : Bool := seen.any fun entry => entry.1 == txHash

/-- `check(txHash)`: the answer, and the map afterwards. -/
def check (seen : ReplayCache) (now : UInt64) (txHash : Str) : Bool × ReplayCache :=
  let seen := seen.live now
  if seen.contains txHash then
    (false, seen.map fun entry => if entry.1 = txHash then (entry.1, now) else entry)
  else (true, (txHash, now) :: seen)

end ReplayCache

/-! ### The hash of the contents -/

/-- The four bytes of a 32-bit number in memory. -/
def leWrite32 (n : UInt32) : Str := (List.range 4).map fun i => (n >>> (8 * i).toUInt32).toUInt8

/-- What `computeTxContentHash` feeds into the digest. -/
def contents (tx : Transaction) : Str :=
  leWrite32 CURRENT_TX_VERSION ++ leWrite64 tx.chainId ++ leWrite64 tx.nonce ++ tx.toAddress ++
    leWrite64 tx.value ++ leWrite64 tx.gasLimit ++ leWrite64 tx.maxFeePerGas ++
    leWrite64 tx.maxPriorityFeePerGas ++ leWrite64 (UInt64.ofNat tx.data.length) ++ tx.data ++
    leWrite64 (UInt64.ofNat tx.inputs.length) ++
    tx.inputs.flatMap (fun input =>
      input.prevTxHash ++ leWrite32 input.outputIndex.toUInt32) ++
    leWrite64 (UInt64.ofNat tx.outputs.length) ++
    tx.outputs.flatMap (fun output => leWrite64 output.value ++ output.address)

/-- A digest of 32 bytes. -/
abbrev Digest := Vector UInt8 32

/-- `computeTxContentHash`. -/
def contentHash (sha256 : Str → Digest) (tx : Transaction) : Digest := sha256 (contents tx)

/-! ### Signatures -/

/-- The calls into the library secp256k1 that are made here, `none` where they do not return 1. -/
structure Secp256k1 where
  PublicKey : Type
  Signature : Type
  RecoverableSignature : Type
  ec_pubkey_parse : Str → Option PublicKey
  /-- In the compressed form. -/
  ec_pubkey_serialize : PublicKey → Option Str
  ecdsa_signature_parse_compact : Vector UInt8 64 → Option Signature
  ecdsa_signature_normalize : Signature → Signature
  ecdsa_verify : Signature → Digest → PublicKey → Bool
  ecdsa_recoverable_signature_parse_compact : Vector UInt8 64 → ℤ → Option RecoverableSignature
  ecdsa_recover : RecoverableSignature → Digest → Option PublicKey

/-- What the documentation of the library says: a key that was written is read back, and a key that
was recovered guarantees a correct signature. -/
structure Secp256k1.Documented (lib : Secp256k1) : Prop where
  parse_serialize : ∀ {pub : lib.PublicKey} {bytes : Str},
    lib.ec_pubkey_serialize pub = some bytes → lib.ec_pubkey_parse bytes = some pub
  recover_correct : ∀ {sig64 : Vector UInt8 64} {recoveryId : ℤ}
    {rsig : lib.RecoverableSignature} {hash32 : Digest} {pub : lib.PublicKey},
    lib.ecdsa_recoverable_signature_parse_compact sig64 recoveryId = some rsig →
    lib.ecdsa_recover rsig hash32 = some pub →
    ∃ sig, lib.ecdsa_signature_parse_compact sig64 = some sig ∧
      lib.ecdsa_verify (lib.ecdsa_signature_normalize sig) hash32 pub = true

def verifyHashWithPubkey (lib : Secp256k1) (hash32 : Digest) (pubkey33 : Str)
    (sig64 : Vector UInt8 64) : Bool :=
  match lib.ec_pubkey_parse pubkey33 with
  | none => false
  | some pub =>
      match lib.ecdsa_signature_parse_compact sig64 with
      | none => false
      | some sig => lib.ecdsa_verify (lib.ecdsa_signature_normalize sig) hash32 pub

/-- `recoverPubkey`: the key that is written to `pubkeyOut33`, `none` where it fails. -/
def recoverPubkey (lib : Secp256k1) (hash32 : Digest) (sig64 : Vector UInt8 64)
    (recoveryId : ℤ) : Option Str :=
  if recoveryId < 0 ∨ recoveryId > 3 then none
  else do
    let rsig ← lib.ecdsa_recoverable_signature_parse_compact sig64 recoveryId
    let pub ← lib.ecdsa_recover rsig hash32
    let bytes ← lib.ec_pubkey_serialize pub
    if bytes.length ≠ 33 then none else some bytes

def computeRecoveryId (v chainId : UInt64) : ℤ :=
  let base := 35 + 2 * chainId
  if chainId > 0 ∧ chainId ≤ (0xFFFFFFFFFFFFFFFF - 35) / 2 ∧ (v = base ∨ v = base + 1) then
    (v - base).toNat
  else if v = 27 ∨ v = 28 then (v - 27).toNat
  else -1

/-! ### Writing -/

def b64encArr32 (a : Vector UInt8 32) : Str := b64enc a.toList

def b64encVec (v : List UInt8) : Str := b64enc v

def inputJson (input : TxInput) : Json :=
  .object [(str "prevTxHash", .string input.prevTxHash),
    (str "outputIndex", .integer input.outputIndex.toInt64)]

def outputJson (output : TxOutput) : Json :=
  .object [(str "value", .unsigned output.value), (str "address", .string output.address)]

def serializeTx (tx : Transaction) : Json :=
  .object [(str "version", .unsigned CURRENT_TX_VERSION.toUInt64),
    (str "txHash", .string tx.txHash),
    (str "toAddress", .string tx.toAddress),
    (str "value", .unsigned tx.value),
    (str "gasLimit", .unsigned tx.gasLimit),
    (str "maxFeePerGas", .unsigned tx.maxFeePerGas),
    (str "maxPriorityFeePerGas", .unsigned tx.maxPriorityFeePerGas),
    (str "nonce", .unsigned tx.nonce),
    (str "chainId", .unsigned tx.chainId),
    (str "v", .unsigned tx.v),
    (str "r", .string (b64encArr32 tx.r)),
    (str "s", .string (b64encArr32 tx.s)),
    (str "data", .string (b64encVec tx.data)),
    (str "inputs", .array (tx.inputs.map inputJson)),
    (str "outputs", .array (tx.outputs.map outputJson))]

/-! ### Reading -/

/-- A computation that throws a `SerializationError`. -/
abbrev Deserialize := Except SerializationError

def throwErr {α : Type} (code : SerializationErrorCode) (msg : Str) : Deserialize α :=
  .error ⟨code, msg⟩

/-- `requireField`, and the value of the field. -/
def requireField (j : Json) (field ctx : Str) : Deserialize Json :=
  if j.isObject then
    match j.find? field with
    | none => throwErr .MissingField (ctx ++ str ": missing field '" ++ field ++ str "'")
    | some value => pure value
  else throwErr .TypeMismatch (ctx ++ str ": input is not a JSON object")

def getString (j : Json) (field : Str) (maxLen : ℕ) (ctx : Str) : Deserialize Str := do
  match (← requireField j field ctx).getString? with
  | none => throwErr .TypeMismatch (ctx ++ str ": '" ++ field ++ str "' must be string")
  | some val =>
      if val.length > maxLen then
        throwErr .LengthExceeded
          (ctx ++ str ": '" ++ field ++ str "' exceeds " ++ decimal maxLen ++ str " chars")
      else pure val

def getUint64 (j : Json) (field ctx : Str) : Deserialize UInt64 := do
  match (← requireField j field ctx).getUint64? with
  | none => throwErr .TypeMismatch (ctx ++ str ": '" ++ field ++ str "' must be unsigned integer")
  | some n => pure n

/-- `getUint32`; `get<uint32_t>()` keeps the lower 32 bits. -/
def getUint32 (j : Json) (field ctx : Str) : Deserialize UInt32 := do
  pure (← getUint64 j field ctx).toUInt32

def getSigComp (j : Json) (field ctx : Str) : Deserialize (List UInt8) := do
  match (← requireField j field ctx).getString? with
  | none => throwErr .TypeMismatch (ctx ++ str ": '" ++ field ++ str "' must be string")
  | some enc =>
      if enc.length > MAX_SIG_COMPONENT_B64 then
        throwErr .LengthExceeded (ctx ++ str ": sig component '" ++ field ++ str "' exceeds limit")
      else b64dec enc ctx

def isValidAddress (addr : Str) : Bool := !addr.isEmpty && addr.length ≤ MAX_ADDRESS_LEN

/-- `"deserializeTx"`. -/
def CTX : Str := str "deserializeTx"

/-- The base64 text of the data. -/
def getData (j : Json) : Deserialize (List UInt8) := do
  match (← requireField j (str "data") CTX).getString? with
  | none => throwErr .TypeMismatch (str "field 'data' must be string")
  | some enc =>
      let data ← b64dec enc CTX
      if data.length > MAX_TX_DATA_BYTES then
        throwErr .LengthExceeded (str "tx.data exceeds 128 KB limit")
      else pure data

/-- `r` and `s`. -/
def getSignature (j : Json) : Deserialize (Vector UInt8 32 × Vector UInt8 32) := do
  let rv ← getSigComp j (str "r") CTX
  let sv ← getSigComp j (str "s") CTX
  if h : rv.length = 32 ∧ sv.length = 32 then pure (⟨⟨rv⟩, h.1⟩, ⟨⟨sv⟩, h.2⟩)
  else throwErr .SignatureInvalid (str "r and s must each be 32 bytes")

/-- An element of `inputs`; a field of another type is passed over. -/
def readInput (item : Json) : Deserialize TxInput :=
  let prevTxHash := ((item.find? (str "prevTxHash")).bind Json.getString?).getD []
  match (item.find? (str "outputIndex")).bind Json.getInt? with
  | none => pure { prevTxHash }
  | some outputIndex =>
      if outputIndex < 0 then throwErr .TypeMismatch (str "outputIndex must be non-negative")
      else pure { prevTxHash, outputIndex }

/-- An element of `outputs`; a field of another type is passed over. -/
def readOutput (item : Json) : TxOutput where
  value := ((item.find? (str "value")).bind Json.getUint64?).getD 0
  address := ((item.find? (str "address")).bind Json.getString?).getD []

/-- The elements of an array; there are none where the field is not an array. -/
def items (j : Json) (field : Str) : List Json :=
  match j.find? field with
  | some (.array l) => l
  | _ => []

/-- `deserializeTx` up to the replay check. -/
def readFields (j : Json) : Deserialize Transaction := do
  if !j.isObject then
    throwErr .TypeMismatch (str "deserializeTx: input must be a JSON object")
  let ver ← getUint32 j (str "version") CTX
  if ver < MIN_TX_VERSION ∨ ver > CURRENT_TX_VERSION then
    throwErr .VersionMismatch (CTX ++ str ": unsupported tx version " ++ decimal ver.toNat)
  let txHash ← getString j (str "txHash") MAX_HASH_LEN CTX
  let toAddress ← getString j (str "toAddress") MAX_ADDRESS_LEN CTX
  let value ← getUint64 j (str "value") CTX
  let gasLimit ← getUint64 j (str "gasLimit") CTX
  let maxFeePerGas ← getUint64 j (str "maxFeePerGas") CTX
  let maxPriorityFeePerGas ← getUint64 j (str "maxPriorityFeePerGas") CTX
  let nonce ← getUint64 j (str "nonce") CTX
  let chainId ← getUint64 j (str "chainId") CTX
  let v ← getUint64 j (str "v") CTX
  let (r, s) ← getSignature j
  let data ← getData j
  if !isValidAddress toAddress then
    throwErr .InvalidAddress (str "toAddress is invalid: " ++ toAddress)
  if chainId ≠ MEDORCOIN_CHAIN_ID then
    throwErr .ChainIdMismatch (str "chainId " ++ decimal chainId.toNat ++
      str " != network chainId " ++ decimal MEDORCOIN_CHAIN_ID.toNat)
  let inputs ← (items j (str "inputs")).mapM readInput
  let outputs := (items j (str "outputs")).map readOutput
  pure { chainId, nonce, maxPriorityFeePerGas, maxFeePerGas, gasLimit, toAddress, value, data,
         inputs, outputs, v, r, s, txHash }

/-- `r` and `s`, one behind the other. -/
def sig64 (tx : Transaction) : Vector UInt8 64 := tx.r ++ tx.s

/-- `deserializeTx` behind the replay check. -/
def verifyTx (sha256 : Str → Digest) (lib : Secp256k1) (tx : Transaction) :
    Deserialize Transaction :=
  let computedHash := contentHash sha256 tx
  if tx.txHash ≠ toHex computedHash.toList then
    throwErr .HashMismatch (str "txHash does not match computed hash")
  else
    let recoveryId := computeRecoveryId tx.v tx.chainId
    if recoveryId < 0 then
      throwErr .SignatureInvalid (str "v field " ++ decimal tx.v.toNat ++
        str " invalid for chainId " ++ decimal tx.chainId.toNat)
    else
      match recoverPubkey lib computedHash (sig64 tx) recoveryId with
      | none => throwErr .SignatureInvalid (str "failed to recover public key")
      | some recoveredPubkey =>
          if verifyHashWithPubkey lib computedHash recoveredPubkey (sig64 tx) then pure tx
          else throwErr .SignatureInvalid (str "ECDSA signature verification failed")

/-- `deserializeTx` in the second `now`: the transaction or what is thrown, and the hashes seen. -/
def deserializeTx (sha256 : Str → Digest) (lib : Secp256k1) (now : UInt64) (j : Json)
    (seen : ReplayCache) : Deserialize Transaction × ReplayCache :=
  match readFields j with
  | .error e => (.error e, seen)
  | .ok tx =>
      match seen.check now tx.txHash with
      | (false, seen') =>
          (throwErr .ReplayDetected (str "replay detected: txHash " ++ tx.txHash), seen')
      | (true, seen') => (verifyTx sha256 lib tx, seen')

/-! ### The fields are read as they were written -/

section fields

variable {j : Json} {field ctx : Str}

theorem requireField_of_find {value : Json} (h : j.find? field = some value) :
    requireField j field ctx = .ok value := by
  cases j with
  | object fields => rw [requireField, if_pos (show (Json.object fields).isObject from rfl), h]; rfl
  | _ => exact absurd h (by simp [Json.find?])

theorem getString_of_find (val : Str) {maxLen : ℕ} (h : j.find? field = some (.string val))
    (hlen : val.length ≤ maxLen) : getString j field maxLen ctx = .ok val := by
  rw [getString, requireField_of_find h]
  exact if_neg (by omega)

theorem getUint64_of_find (n : UInt64) (h : j.find? field = some (.unsigned n)) :
    getUint64 j field ctx = .ok n := by
  rw [getUint64, requireField_of_find h]
  rfl

theorem getUint32_of_find (n : UInt64) (h : j.find? field = some (.unsigned n)) :
    getUint32 j field ctx = .ok n.toUInt32 := by
  rw [getUint32, getUint64_of_find n h]
  rfl

theorem getSigComp_of_find {a : Vector UInt8 32}
    (h : j.find? field = some (.string (b64encArr32 a))) :
    getSigComp j field ctx = .ok a.toList := by
  have hlen : (b64encArr32 a).length = 44 := by
    rw [b64encArr32, length_b64enc, Vector.length_toList]
  rw [getSigComp, requireField_of_find h]
  refine (if_neg ?_).trans (b64dec_b64enc _ _)
  rw [hlen]
  decide

theorem getSignature_of_find (r s : Vector UInt8 32)
    (hr : j.find? (str "r") = some (.string (b64encArr32 r)))
    (hs : j.find? (str "s") = some (.string (b64encArr32 s))) : getSignature j = .ok (r, s) := by
  rw [getSignature, getSigComp_of_find hr]
  change (getSigComp j (str "s") CTX >>= _) = _
  rw [getSigComp_of_find hs]
  exact dif_pos ⟨r.length_toList, s.length_toList⟩

theorem getData_of_find (data : List UInt8)
    (h : j.find? (str "data") = some (.string (b64encVec data)))
    (hlen : data.length ≤ MAX_TX_DATA_BYTES) : getData j = .ok data := by
  rw [getData, requireField_of_find h]
  change (b64dec (b64encVec data) CTX >>= _) = _
  rw [b64encVec, b64dec_b64enc]
  exact if_neg (by omega)

theorem readInput_inputJson {input : TxInput} (h : 0 ≤ input.outputIndex) :
    readInput (inputJson input) = .ok input := by
  have hfield : ((inputJson input).find? (str "outputIndex")).bind Json.getInt? =
      some input.outputIndex := by
    change some input.outputIndex.toInt64.toInt32 = _
    rw [Int32.toInt32_toInt64]
  rw [readInput, hfield]
  exact if_neg (Int32.not_lt.2 h)

theorem mapM_readInput {inputs : List TxInput} (h : ∀ input ∈ inputs, 0 ≤ input.outputIndex) :
    (inputs.map inputJson).mapM readInput = .ok inputs := by
  induction inputs with
  | nil => rfl
  | cons input inputs ih =>
      rw [List.map_cons, List.mapM_cons, readInput_inputJson (h _ List.mem_cons_self)]
      change ((inputs.map inputJson).mapM readInput >>= _) = _
      rw [ih fun i hi => h i (List.mem_cons_of_mem _ hi)]
      rfl

theorem map_readOutput (outputs : List TxOutput) :
    (outputs.map outputJson).map readOutput = outputs := by
  rw [List.map_map]
  exact List.map_id _

end fields

/-- The lengths are within the limits, and the network is this one. -/
structure Bounded (tx : Transaction) : Prop where
  chainId : tx.chainId = MEDORCOIN_CHAIN_ID
  txHash : tx.txHash.length ≤ MAX_HASH_LEN
  toAddress : isValidAddress tx.toAddress
  data : tx.data.length ≤ MAX_TX_DATA_BYTES
  outputIndex : ∀ input ∈ tx.inputs, 0 ≤ input.outputIndex

theorem Bounded.length_toAddress {tx : Transaction} (h : Bounded tx) :
    tx.toAddress.length ≤ MAX_ADDRESS_LEN := by
  have := h.toAddress
  simp only [isValidAddress, Bool.and_eq_true, decide_eq_true_eq] at this
  exact this.2

/-- **The fields of a transaction are read as they were written.** -/
theorem readFields_serializeTx {tx : Transaction} (h : Bounded tx) :
    readFields (serializeTx tx) = .ok tx := by
  have hobject : (!(serializeTx tx).isObject) = false := rfl
  have hversion : ¬ (CURRENT_TX_VERSION.toUInt64.toUInt32 < MIN_TX_VERSION ∨
      CURRENT_TX_VERSION.toUInt64.toUInt32 > CURRENT_TX_VERSION) := by decide
  have haddress : (!isValidAddress tx.toAddress) = false := by rw [h.toAddress]; rfl
  have hinputs : items (serializeTx tx) (str "inputs") = tx.inputs.map inputJson := rfl
  have houtputs : items (serializeTx tx) (str "outputs") = tx.outputs.map outputJson := rfl
  unfold readFields
  rw [getUint32_of_find CURRENT_TX_VERSION.toUInt64 rfl,
    getString_of_find tx.txHash rfl h.txHash,
    getString_of_find tx.toAddress rfl h.length_toAddress,
    getUint64_of_find tx.value rfl, getUint64_of_find tx.gasLimit rfl,
    getUint64_of_find tx.maxFeePerGas rfl, getUint64_of_find tx.maxPriorityFeePerGas rfl,
    getUint64_of_find tx.nonce rfl, getUint64_of_find tx.chainId rfl,
    getUint64_of_find tx.v rfl, getSignature_of_find tx.r tx.s rfl rfl,
    getData_of_find tx.data rfl h.data]
  rw [hinputs, houtputs, mapM_readInput h.outputIndex, map_readOutput]
  simp only [hobject, hversion, haddress, h.chainId, bind, Except.bind, pure, Except.pure,
    Bool.false_eq_true, ne_eq, not_true_eq_false, if_false]
  rw [← h.chainId]

/-! ### What can be sent -/

/-- The transactions that are **valid for the wire**. -/
structure ValidForWire (sha256 : Str → Digest) (lib : Secp256k1) (tx : Transaction) : Prop where
  chainId : tx.chainId = MEDORCOIN_CHAIN_ID
  txHash : tx.txHash = toHex (contentHash sha256 tx).toList
  recoverable : 0 ≤ computeRecoveryId tx.v tx.chainId ∧
    (recoverPubkey lib (contentHash sha256 tx) (sig64 tx)
      (computeRecoveryId tx.v tx.chainId)).isSome
  outputIndex : ∀ input ∈ tx.inputs, 0 ≤ input.outputIndex
  toAddress : isValidAddress tx.toAddress
  data : tx.data.length ≤ MAX_TX_DATA_BYTES

variable {sha256 : Str → Digest} {lib : Secp256k1} {tx : Transaction}

theorem ValidForWire.bounded (h : ValidForWire sha256 lib tx) : Bounded tx where
  chainId := h.chainId
  txHash := by
    have hlen := isLowerHex_toHex (contentHash sha256 tx).toList
    rw [← h.txHash, Vector.length_toList] at hlen
    simp only [isLowerHex, Bool.and_eq_true, beq_iff_eq] at hlen
    rw [hlen.1]
    decide
  toAddress := h.toAddress
  data := h.data
  outputIndex := h.outputIndex

theorem verifyHashWithPubkey_of_recoverPubkey (hlib : lib.Documented) {hash32 : Digest}
    {sig64 : Vector UInt8 64} {recoveryId : ℤ} {pubkey33 : Str}
    (h : recoverPubkey lib hash32 sig64 recoveryId = some pubkey33) :
    verifyHashWithPubkey lib hash32 pubkey33 sig64 = true := by
  unfold recoverPubkey at h
  split at h
  · cases h
  · obtain ⟨rsig, hrsig, h⟩ := Option.bind_eq_some_iff.1 h
    obtain ⟨pub, hpub, h⟩ := Option.bind_eq_some_iff.1 h
    obtain ⟨bytes, hbytes, h⟩ := Option.bind_eq_some_iff.1 h
    split at h
    · cases h
    · cases h
      obtain ⟨sig, hsig, hverify⟩ := hlib.recover_correct hrsig hpub
      simp only [verifyHashWithPubkey, hlib.parse_serialize hbytes, hsig, hverify]

/-- **A recoverable signature of the digest is accepted.** -/
theorem verifyTx_of_valid (hlib : lib.Documented) (h : ValidForWire sha256 lib tx) :
    verifyTx sha256 lib tx = .ok tx := by
  obtain ⟨hid, hsome⟩ := h.recoverable
  obtain ⟨pubkey33, hpubkey⟩ := Option.isSome_iff_exists.1 hsome
  have hverify := verifyHashWithPubkey_of_recoverPubkey hlib hpubkey
  simp only [verifyTx, ne_eq, h.txHash.symm, not_true_eq_false, if_false, if_neg (Int.not_lt.2 hid),
    hpubkey, hverify, if_true]
  rfl

theorem ReplayCache.check_of_not_contains {seen : ReplayCache} {now : UInt64} {txHash : Str}
    (h : (seen.live now).contains txHash = false) :
    seen.check now txHash = (true, (txHash, now) :: seen.live now) := by
  rw [ReplayCache.check]
  exact if_neg (by rw [h]; decide)

/-- **The round trip**: a transaction that is valid for the wire and was not seen within the hour
comes back with every field equal, and Base64 gives every byte string back. -/
theorem deserializeTx_serializeTx (hlib : lib.Documented) (htx : ValidForWire sha256 lib tx)
    {now : UInt64} {seen : ReplayCache} (hseen : (seen.live now).contains tx.txHash = false) :
    (deserializeTx sha256 lib now (serializeTx tx) seen).1 = .ok tx ∧
      ∀ d ctx : Str, b64dec (b64enc d) ctx = .ok d := by
  refine ⟨?_, b64dec_b64enc⟩
  simp only [deserializeTx, readFields_serializeTx htx.bounded,
    ReplayCache.check_of_not_contains hseen]
  exact verifyTx_of_valid hlib htx

/-! ### A transaction that is sent -/

/-- The digest of SHA-256, byte by byte. -/
def sha256Digest (data : Str) : Digest :=
  let r := Js.Sha256.digest (data.map UInt8.toNat)
  ⟨([r.a, r.b, r.c, r.d, r.e, r.f, r.g, r.h].flatMap (writeBE 4)).toArray, by simp⟩

/-- A payment with data, an input, an output and a signature. -/
def signedTx : Transaction where
  chainId := 1
  nonce := 7
  maxPriorityFeePerGas := 2
  maxFeePerGas := 30
  gasLimit := 21000
  toAddress := str "1BoatSLRHtKNngkdXEhobR76b53LETtpyT"
  value := 2500
  data := [0, 255, 61, 128, 10]
  inputs := [⟨str "abababababababababababababababababababababababababababababababab", 3⟩]
  outputs := [⟨2400, str "1BoatSLRHtKNngkdXEhobR76b53LETtpyT"⟩]
  v := 38
  r := #v[37, 151, 31, 75, 126, 98, 52, 192, 67, 4, 135, 178, 84, 51, 224, 183, 12, 136, 216, 7,
    232, 210, 37, 99, 225, 82, 233, 229, 52, 245, 113, 221]
  s := #v[50, 182, 17, 207, 39, 84, 237, 150, 210, 107, 65, 209, 122, 34, 5, 109, 246, 217, 245, 48,
    19, 67, 165, 103, 248, 21, 244, 185, 235, 232, 113, 20]
  txHash := str "07b3a494150ff44656fd0ac0b766d3a960f427e3d4c442ae91c41965d3bc4861"

def signedDigest : Digest :=
  #v[7, 179, 164, 148, 21, 15, 244, 70, 86, 253, 10, 192, 183, 102, 211, 169, 96, 244, 39, 227, 212,
    196, 66, 174, 145, 196, 25, 101, 211, 188, 72, 97]

/-- The compressed key of the sender. -/
def signerKey : Str :=
  [3, 240, 40, 137, 43, 173, 126, 213, 125, 47, 181, 123, 243, 48, 129, 213, 207, 207, 111, 158,
    211, 211, 215, 241, 89, 194, 226, 255, 245, 121, 220, 52, 26]

/-- The library, where it is called for the transaction. -/
def signedLib : Secp256k1 where
  PublicKey := Str
  Signature := Vector UInt8 64
  RecoverableSignature := Vector UInt8 64 × ℤ
  ec_pubkey_parse := fun bytes => if bytes = signerKey then some bytes else none
  ec_pubkey_serialize := fun pub => if pub = signerKey then some pub else none
  ecdsa_signature_parse_compact := some
  ecdsa_signature_normalize := id
  ecdsa_verify := fun sig hash32 pub =>
    sig = sig64 signedTx ∧ hash32 = signedDigest ∧ pub = signerKey
  ecdsa_recoverable_signature_parse_compact := fun sig recoveryId => some (sig, recoveryId)
  ecdsa_recover := fun rsig hash32 =>
    if rsig = (sig64 signedTx, 1) ∧ hash32 = signedDigest then some signerKey else none

theorem signedLib_documented : signedLib.Documented where
  parse_serialize := by
    intro pub bytes h
    obtain ⟨hpub, hbytes⟩ := Option.ite_none_right_eq_some.1 h
    cases hbytes
    exact if_pos hpub
  recover_correct := by
    intro sig64 recoveryId rsig hash32 pub hrsig hpub
    cases hrsig
    obtain ⟨⟨hsig, hhash⟩, hkey⟩ := Option.ite_none_right_eq_some.1 hpub
    cases hsig
    cases hkey
    refine ⟨_, rfl, ?_⟩
    simp [signedLib, hhash]

theorem contentHash_signedTx : contentHash sha256Digest signedTx = signedDigest := by
  decide +kernel

theorem signedTx_valid : ValidForWire sha256Digest signedLib signedTx where
  chainId := rfl
  txHash := by
    rw [contentHash_signedTx]
    decide +kernel
  recoverable := by
    rw [contentHash_signedTx]
    decide +kernel
  outputIndex := by decide
  toAddress := by decide +kernel
  data := by decide

theorem deserializeTx_serializeTx_signedTx :
    (deserializeTx sha256Digest signedLib 5000 (serializeTx signedTx)
      [(str "00", 4000), (signedTx.txHash, 1000)]).1 = .ok signedTx ∧
      ∀ d ctx : Str, b64dec (b64enc d) ctx = .ok d :=
  deserializeTx_serializeTx signedLib_documented signedTx_valid (by decide +kernel)

end Net
