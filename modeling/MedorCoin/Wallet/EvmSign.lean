/-
**What is signed of a transaction.**

The nine fields of a transaction are encoded as a list; the Keccak-256 of the list is signed; then
the same nine fields are encoded a second time, with the three numbers of the signature behind them.
The two lists are built independently.  Both are the encoding of a list of byte strings, which can
be decoded: so the first determines the fields, and the second gives all of them back.

Main definitions:

* `EvmSign.EvmTx`, `EvmSign.buildUnsignedRlp`, `EvmSign.signEvmTransaction`;
* `EvmSign.unsignedItems`, `EvmSign.signatureItems` — the items of the lists, as values;
* `EvmSign.fieldsOf` — a transaction read from the items of a signed list.

Main results:

* `EvmSign.decodeValue_of_bounded` — a list of byte strings that fits into a vector is decoded;
* `EvmSign.fieldsOf_items` — the items give the fields back;
* `EvmSign.signing_payload` — **the signed bytes determine the fields, and what is sent is
  decoded**.
-/

import MedorCoin.Cpp.Keccak
import MedorCoin.Rlp.Grammar

set_option autoImplicit false

namespace EvmSign

open Cpp Rlp

/-- `struct EvmTx`. -/
structure EvmTx where
  chainId : UInt64
  nonce : UInt64
  maxPriorityFeePerGas : UInt64
  maxFeePerGas : UInt64
  gasLimit : UInt64
  to_ : List UInt8
  value : List UInt8
  data : List UInt8
  r : List UInt8
  s : List UInt8
  v : UInt8

/-- `struct Secp256k1Signature`. -/
structure Secp256k1Signature where
  r : Vector UInt8 32
  s : Vector UInt8 32
  recid : Int32

/-! ### Signing -/

/-- Appending to a vector throws if it would be longer than a vector can be. -/
def bounded (out : List UInt8) : Checked (List UInt8) :=
  if out.length ≤ maxSize then .ok out else .error .lengthError

/-- `buildUnsignedRlp(tx)`. -/
def buildUnsignedRlp (tx : EvmTx) : Checked (List UInt8) :=
  let chainId := encodeUInt tx.chainId
  let nonce := encodeUInt tx.nonce
  let maxPriority := encodeUInt tx.maxPriorityFeePerGas
  let maxFee := encodeUInt tx.maxFeePerGas
  let gasLimit := encodeUInt tx.gasLimit
  let to_ := encodeBytes tx.to_
  let value := encodeBytes tx.value
  let data := encodeBytes tx.data
  let accessList := encodeUInt 0
  bounded (encodeList
    [chainId, nonce, maxPriority, maxFee, gasLimit, to_, value, data, accessList])

/-- `crypto::Keccak256`, copied into an array. -/
def digest (data : List UInt8) : Vector UInt8 32 :=
  ⟨(Keccak.keccak256 data).toArray, by rw [List.size_toArray, Keccak.length_keccak256]⟩

section

variable (signRecoverable : Vector UInt8 32 → Vector UInt8 32 → Option Secp256k1Signature)

/-- `signHashWithKey(digest, privkey)`. -/
def signHashWithKey (digest privkey : Vector UInt8 32) :
    Checked (Vector UInt8 32 × Vector UInt8 32 × UInt8) :=
  match signRecoverable digest privkey with
  | none => .error (.runtimeError "signHashWithKey: signing failed")
  | some sig => .ok (sig.r, sig.s, sig.recid.toUInt32.toUInt8)

/-- `signEvmTransaction(tx, privkey)`, with the transaction as it leaves it. -/
def signEvmTransaction (tx : EvmTx) (privkey : Vector UInt8 32) :
    Checked (List UInt8 × EvmTx) := do
  let unsignedRlp ← buildUnsignedRlp tx
  let (rArr, sArr, v) ← signHashWithKey signRecoverable (digest unsignedRlp) privkey
  let tx := { tx with r := rArr.toList, s := sArr.toList, v := v + 27 }
  let chainId := encodeUInt tx.chainId
  let nonce := encodeUInt tx.nonce
  let maxPriority := encodeUInt tx.maxPriorityFeePerGas
  let maxFee := encodeUInt tx.maxFeePerGas
  let gasLimit := encodeUInt tx.gasLimit
  let to_ := encodeBytes tx.to_
  let value := encodeBytes tx.value
  let data := encodeBytes tx.data
  let accessList := encodeUInt 0
  let vEnc := encodeUInt tx.v.toUInt64
  let r := encodeBytes tx.r
  let s := encodeBytes tx.s
  let out ← bounded (encodeList
    [chainId, nonce, maxPriority, maxFee, gasLimit, to_, value, data, accessList, vEnc, r, s])
  .ok (out, tx)

end

/-! ### The items of the lists -/

/-- The item of an integer: its bytes, without the zeros in front. -/
def uint (x : UInt64) : RlpValue := .bytes (minimalBE x.toNat)

/-- The items of the list that is signed. -/
def unsignedItems (tx : EvmTx) : List RlpValue :=
  [uint tx.chainId, uint tx.nonce, uint tx.maxPriorityFeePerGas, uint tx.maxFeePerGas,
    uint tx.gasLimit, .bytes tx.to_, .bytes tx.value, .bytes tx.data, uint 0]

/-- The items of the signature. -/
def signatureItems (tx : EvmTx) : List RlpValue :=
  [uint tx.v.toUInt64, .bytes tx.r, .bytes tx.s]

/-- The number of an item. -/
def toUInt64 (b : List UInt8) : UInt64 := UInt64.ofNat (readBE b)

/-- A transaction read from twelve items. -/
def fieldsOf : List RlpValue → Option EvmTx
  | [.bytes chainId, .bytes nonce, .bytes maxPriority, .bytes maxFee, .bytes gasLimit, .bytes to_,
      .bytes value, .bytes data, .bytes _, .bytes v, .bytes r, .bytes s] =>
      some { chainId := toUInt64 chainId, nonce := toUInt64 nonce,
             maxPriorityFeePerGas := toUInt64 maxPriority, maxFeePerGas := toUInt64 maxFee,
             gasLimit := toUInt64 gasLimit, to_ := to_, value := value, data := data,
             r := r, s := s, v := (toUInt64 v).toUInt8 }
  | _ => none

theorem toUInt64_minimalBE (x : UInt64) : toUInt64 (minimalBE x.toNat) = x := by
  rw [toUInt64, readBE_minimalBE, UInt64.ofNat_toNat]

/-- **The items give the fields back.** -/
theorem fieldsOf_items (tx : EvmTx) :
    fieldsOf (unsignedItems tx ++ signatureItems tx) = some tx := by
  have hv : tx.v.toUInt64.toUInt8 = tx.v := by simp
  simp only [unsignedItems, signatureItems, uint, List.cons_append, List.nil_append, fieldsOf,
    toUInt64_minimalBE, hv]

theorem encodeUInt_eq (x : UInt64) : encodeUInt x = encodeValue (uint x) := by
  rw [uint, encodeValue_bytes, encodeUInt]
  split
  · next hzero =>
      rw [hzero, UInt64.toNat_zero, minimalBE_zero]
      rfl
  · rfl

theorem buildUnsignedRlp_eq (tx : EvmTx) :
    buildUnsignedRlp tx = bounded (encodeValue (.list (unsignedItems tx))) := by
  rw [encodeValue_list]
  simp only [unsignedItems, List.map_cons, List.map_nil, encodeValue_bytes, ← encodeUInt_eq]
  rfl

/-- **The list that is sent has the items that were signed, and those of the signature.** -/
theorem signEvmTransaction_eq
    (signRecoverable : Vector UInt8 32 → Vector UInt8 32 → Option Secp256k1Signature) (tx : EvmTx)
    (privkey : Vector UInt8 32) :
    signEvmTransaction signRecoverable tx privkey = (do
      let unsignedRlp ← buildUnsignedRlp tx
      let (r, s, v) ← signHashWithKey signRecoverable (digest unsignedRlp) privkey
      let signed := { tx with r := r.toList, s := s.toList, v := v + 27 }
      let out ← bounded (encodeValue (.list (unsignedItems tx ++ signatureItems signed)))
      .ok (out, signed)) := by
  simp only [encodeValue_list, unsignedItems, signatureItems, List.cons_append, List.nil_append,
    List.map_cons, List.map_nil, encodeValue_bytes, ← encodeUInt_eq]
  rfl

/-! ### Decoding -/

variable {out : List UInt8} {items : List RlpValue}

theorem bounded_eq_ok {bytes : List UInt8} (h : bounded bytes = .ok out) :
    out = bytes ∧ bytes.length ≤ maxSize := by
  rw [bounded] at h
  split at h
  · next hle => exact ⟨(Except.ok.inj h).symm, hle⟩
  · cases h

theorem storable_of_le (hitems : ∀ v ∈ items, ∃ b, v = .bytes b)
    (h : (encodeValue (.list items)).length ≤ maxSize) : (RlpValue.list items).Storable := by
  refine RlpValue.Storable.list fun v hv => ?_
  obtain ⟨b, rfl⟩ := hitems v hv
  have hitem := length_le_flatten (List.mem_map_of_mem (f := encodeValue) hv)
  rw [← encodePayload_eq_flatten, encodeValue_bytes] at hitem
  rw [encodeValue, List.length_append] at h
  have hle := length_le_encodeBytes b
  exact RlpValue.Storable.bytes (by omega)

/-- **A list of byte strings that fits into a vector is decoded**, all of it. -/
theorem decodeValue_of_bounded (hitems : ∀ v ∈ items, ∃ b, v = .bytes b)
    (h : bounded (encodeValue (.list items)) = .ok out) {fuel : ℕ} (hfuel : out.length ≤ fuel) :
    decodeValue out fuel 0 = .ok (.list items, size out) := by
  obtain ⟨rfl, hle⟩ := bounded_eq_ok h
  have hlt : (encodeValue (.list items)).length < 2 ^ 64 :=
    hle.trans_lt (by rw [maxSize]; norm_num)
  have hdecode := decodeValue_encodeValue (.list items) (storable_of_le hitems hle) [] []
    (by rwa [List.nil_append, List.append_nil]) fuel hfuel
  rw [List.nil_append, List.append_nil, List.length_nil, Nat.zero_add] at hdecode
  exact hdecode

theorem bytes_of_mem_unsignedItems {tx : EvmTx} {v : RlpValue} (h : v ∈ unsignedItems tx) :
    ∃ b, v = .bytes b := by
  simp only [unsignedItems, uint, List.mem_cons, List.not_mem_nil, or_false] at h
  rcases h with h | h | h | h | h | h | h | h | h <;> exact ⟨_, h⟩

theorem bytes_of_mem_items {tx signed : EvmTx} {v : RlpValue}
    (h : v ∈ unsignedItems tx ++ signatureItems signed) : ∃ b, v = .bytes b := by
  rcases List.mem_append.1 h with h | h
  · exact bytes_of_mem_unsignedItems h
  · simp only [signatureItems, uint, List.mem_cons, List.not_mem_nil, or_false] at h
    rcases h with h | h | h <;> exact ⟨_, h⟩

/-- The fields that are signed. -/
def SameFields (a b : EvmTx) : Prop :=
  a.chainId = b.chainId ∧ a.nonce = b.nonce ∧
    a.maxPriorityFeePerGas = b.maxPriorityFeePerGas ∧ a.maxFeePerGas = b.maxFeePerGas ∧
    a.gasLimit = b.gasLimit ∧ a.to_ = b.to_ ∧ a.value = b.value ∧ a.data = b.data

theorem sameFields_of_unsignedItems {a b : EvmTx} (h : unsignedItems a = unsignedItems b) :
    SameFields a b := by
  have huint {x y : UInt64} (heq : uint x = uint y) : x = y := by
    have hbytes := congrArg toUInt64 (RlpValue.bytes.inj heq)
    rwa [toUInt64_minimalBE, toUInt64_minimalBE] at hbytes
  simp only [unsignedItems, List.cons.injEq, RlpValue.bytes.injEq, and_true] at h
  obtain ⟨hchain, hnonce, hpriority, hfee, hgas, hto, hvalue, hdata⟩ := h
  exact ⟨huint hchain, huint hnonce, huint hpriority, huint hfee, huint hgas, hto, hvalue, hdata⟩

/-- **The signed bytes determine the fields.** -/
theorem sameFields_of_buildUnsignedRlp {a b : EvmTx} (ha : buildUnsignedRlp a = .ok out)
    (hb : buildUnsignedRlp b = .ok out) : SameFields a b := by
  rw [buildUnsignedRlp_eq] at ha hb
  have hdecode := decodeValue_of_bounded (fun v => bytes_of_mem_unsignedItems) ha le_rfl
  rw [decodeValue_of_bounded (fun v => bytes_of_mem_unsignedItems) hb le_rfl] at hdecode
  have hitems := congrArg Prod.fst (Except.ok.inj hdecode)
  exact sameFields_of_unsignedItems (RlpValue.list.inj hitems).symm

/-! ### When there is an output -/

theorem length_encodeLength_le {len : ℕ} (h : len < 2 ^ 64) (offset : UInt8) :
    (encodeLength len offset).length ≤ 9 := by
  have hlen : (minimalBE len).length ≤ 8 := length_minimalBE_le (h.trans_le (by norm_num))
  unfold encodeLength
  split
  · simp
  · simpa using Nat.lt_succ_of_le hlen

theorem length_encodeBytes_le {b : List UInt8} (h : b.length < 2 ^ 64) :
    (encodeBytes b).length ≤ 9 + b.length := by
  have hheader := length_encodeLength_le h 0x80
  unfold encodeBytes
  split
  · rw [List.length_singleton]
    omega
  · rw [List.length_append]
    omega

theorem length_encodeUInt_le (x : UInt64) : (encodeUInt x).length ≤ 17 := by
  have hlen : (minimalBE x.toNat).length ≤ 8 :=
    length_minimalBE_le (x.toNat_lt.trans_le (by norm_num))
  have hencode := length_encodeBytes_le (b := minimalBE x.toNat) (by omega)
  rw [encodeUInt_eq, uint, encodeValue_bytes]
  omega

theorem length_payload_unsignedItems_le {tx : EvmTx}
    (hsize : tx.to_.length + tx.value.length + tx.data.length ≤ 2 ^ 62) :
    (encodePayload (unsignedItems tx)).length ≤ 2 ^ 62 + 129 := by
  have hto := length_encodeBytes_le (b := tx.to_) (by omega)
  have hvalue := length_encodeBytes_le (b := tx.value) (by omega)
  have hdata := length_encodeBytes_le (b := tx.data) (by omega)
  have hchain := length_encodeUInt_le tx.chainId
  have hnonce := length_encodeUInt_le tx.nonce
  have hpriority := length_encodeUInt_le tx.maxPriorityFeePerGas
  have hfee := length_encodeUInt_le tx.maxFeePerGas
  have hgas := length_encodeUInt_le tx.gasLimit
  have haccess := length_encodeUInt_le 0
  rw [encodePayload_eq_flatten]
  simp only [unsignedItems, List.map_cons, List.map_nil, encodeValue_bytes, ← encodeUInt_eq,
    List.flatten_cons, List.flatten_nil, List.length_append, List.length_nil]
  omega

theorem length_payload_signatureItems_le (tx : EvmTx) (hr : tx.r.length = 32)
    (hs : tx.s.length = 32) : (encodePayload (signatureItems tx)).length ≤ 99 := by
  have hr' := length_encodeBytes_le (b := tx.r) (by omega)
  have hs' := length_encodeBytes_le (b := tx.s) (by omega)
  have hv := length_encodeUInt_le tx.v.toUInt64
  rw [encodePayload_eq_flatten]
  simp only [signatureItems, List.map_cons, List.map_nil, encodeValue_bytes, ← encodeUInt_eq,
    List.flatten_cons, List.flatten_nil, List.length_append, List.length_nil]
  omega

theorem bounded_of_payload (h : (encodePayload items).length ≤ 2 ^ 62 + 228) :
    bounded (encodeValue (.list items)) = .ok (encodeValue (.list items)) := by
  have hheader : (encodeLength (encodePayload items).length 0xC0).length ≤ 9 :=
    length_encodeLength_le (by omega) 0xC0
  rw [bounded, if_pos]
  rw [encodeValue, List.length_append, maxSize]
  omega

/-- **There is an output for every length that occurs**, if the hash can be signed. -/
theorem signEvmTransaction_returns
    {signRecoverable : Vector UInt8 32 → Vector UInt8 32 → Option Secp256k1Signature} {tx : EvmTx}
    (hsize : tx.to_.length + tx.value.length + tx.data.length ≤ 2 ^ 62) {privkey : Vector UInt8 32}
    (hsign : ∀ hash, signRecoverable hash privkey ≠ none) :
    ∃ result, signEvmTransaction signRecoverable tx privkey = .ok result := by
  have hpayload := length_payload_unsignedItems_le hsize
  have hunsigned := bounded_of_payload (hpayload.trans (by omega))
  rw [← buildUnsignedRlp_eq] at hunsigned
  obtain ⟨sig, hsig⟩ := Option.ne_none_iff_exists'.1
    (hsign (digest (encodeValue (.list (unsignedItems tx)))))
  have hsigned : signHashWithKey signRecoverable (digest (encodeValue (.list (unsignedItems tx))))
      privkey = .ok (sig.r, sig.s, sig.recid.toUInt32.toUInt8) := by
    rw [signHashWithKey, hsig]
  rw [signEvmTransaction_eq, bind_of_ok hunsigned, bind_of_ok hsigned]
  refine ⟨_, bind_eq_ok.2 ⟨_, bounded_of_payload ?_, rfl⟩⟩
  have hsignature := length_payload_signatureItems_le
    { tx with r := sig.r.toList, s := sig.s.toList, v := sig.recid.toUInt32.toUInt8 + 27 }
    sig.r.length_toList sig.s.length_toList
  rw [encodePayload_eq_flatten] at hpayload hsignature ⊢
  rw [List.map_append, List.flatten_append, List.length_append]
  omega

/-! ### The signed payload -/

/-- **The signed bytes determine the fields, and what is sent is decoded.** Two transactions with
the same signed bytes have the same fields.  What is sent is decoded as the list of the nine items
whose hash was signed and the three of the signature, and these give the transaction back; there is
an output whenever the hash can be signed and the fields are of a size that can occur. -/
theorem signing_payload
    (signRecoverable : Vector UInt8 32 → Vector UInt8 32 → Option Secp256k1Signature) :
    (∀ (a b : EvmTx) (out : List UInt8), buildUnsignedRlp a = .ok out →
      buildUnsignedRlp b = .ok out → SameFields a b) ∧
    (∀ (tx tx' : EvmTx) (privkey : Vector UInt8 32) (out : List UInt8),
      signEvmTransaction signRecoverable tx privkey = .ok (out, tx') →
      ∃ unsigned sig items v r s,
        buildUnsignedRlp tx = .ok unsigned ∧
        signRecoverable (digest unsigned) privkey = some sig ∧
        tx' = { tx with
          r := sig.r.toList, s := sig.s.toList, v := sig.recid.toUInt32.toUInt8 + 27 } ∧
        items.length = 9 ∧
        (∀ fuel ≥ unsigned.length,
          decodeValue unsigned fuel 0 = .ok (.list items, size unsigned)) ∧
        (∀ fuel ≥ out.length,
          decodeValue out fuel 0 = .ok (.list (items ++ [.bytes v, .bytes r, .bytes s]),
            size out)) ∧
        (toUInt64 v).toUInt8 = tx'.v ∧ r = tx'.r ∧ s = tx'.s ∧
        fieldsOf (items ++ [.bytes v, .bytes r, .bytes s]) = some tx') ∧
    ∀ (tx : EvmTx) (privkey : Vector UInt8 32),
      tx.to_.length + tx.value.length + tx.data.length ≤ 2 ^ 62 →
      (∀ hash, signRecoverable hash privkey ≠ none) →
      ∃ result, signEvmTransaction signRecoverable tx privkey = .ok result := by
  refine ⟨fun a b out => sameFields_of_buildUnsignedRlp, fun tx tx' privkey out h => ?_,
    fun tx privkey hsize hsign => signEvmTransaction_returns hsize hsign⟩
  rw [signEvmTransaction_eq] at h
  obtain ⟨unsigned, hunsigned, h⟩ := bind_eq_ok.1 h
  obtain ⟨⟨rArr, sArr, v⟩, hsigned, h⟩ := bind_eq_ok.1 h
  obtain ⟨out', hout, h⟩ := bind_eq_ok.1 h
  obtain ⟨rfl, rfl⟩ := Prod.mk.inj (Except.ok.inj h)
  obtain ⟨sig, hsig, hparts⟩ : ∃ sig, signRecoverable (digest unsigned) privkey = some sig ∧
      (sig.r, sig.s, sig.recid.toUInt32.toUInt8) = (rArr, sArr, v) := by
    rw [signHashWithKey] at hsigned
    split at hsigned
    · cases hsigned
    · next sig hsig => exact ⟨sig, hsig, Except.ok.inj hsigned⟩
  obtain ⟨rfl, rfl, rfl⟩ := hparts
  have hlist := hunsigned
  rw [buildUnsignedRlp_eq] at hlist
  have hfields := fieldsOf_items { tx with
    r := sig.r.toList, s := sig.s.toList, v := sig.recid.toUInt32.toUInt8 + 27 }
  refine ⟨unsigned, sig, unsignedItems tx, minimalBE _, _, _, hunsigned, hsig, rfl, rfl,
    fun fuel hfuel => decodeValue_of_bounded (fun v => bytes_of_mem_unsignedItems) hlist hfuel,
    fun fuel hfuel => decodeValue_of_bounded (fun v => bytes_of_mem_items) hout hfuel,
    ?_, rfl, rfl, hfields⟩
  rw [toUInt64_minimalBE, UInt8.toUInt8_toUInt64]

end EvmSign
