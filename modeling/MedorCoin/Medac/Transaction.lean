/-
**Transfers, their signatures and their normal form.**

A block carries its transactions as JSON objects written by anybody.  This module models how
`medac_consensus.cjs` reads one: `normalizeAddress`, the checks on the fields that the signature
covers (`transactionSigningPayload`), and `normalizeTransaction`, which checks the signature and
returns the transaction with its addresses and its signature in lower case.

The digest and the signature scheme are not part of the repository; `Medac.Crypto` stands for
them.

Main definitions:

* `Medac.Crypto` — SHA-256 and the recovery of a signer;
* `Medac.Address`, `Medac.Signature` — the two hexadecimal strings in normal form;
* `Medac.Transfer` — the fields a signature covers, with the checks they passed;
* `Medac.Transaction` — a signed transfer in normal form;
* `Medac.normalizeTransaction`, `Medac.transactionId`.

Main results:

* `Medac.normalizeTransaction_eq_ok` — **what normalization accepts and what it returns**;
* `Medac.Transfer.signingPayload_injective` — the signed text determines the transfer.
-/

import MedorCoin.Js.Error
import MedorCoin.Js.JsonParse
import MedorCoin.Medac.Issuance

set_option autoImplicit false

namespace Medac

open Js

/-- The functions the chain takes from elsewhere: the digest of a text in hexadecimal, and
`verifyMessage`, which recovers the address that signed a text, or throws. -/
structure Crypto where
  sha256 : Str → Str
  verifyMessage : Str → Str → Except Error Str
  isLowerHex_sha256 : ∀ s, isLowerHex 64 (sha256 s)

/-! ### Hexadecimal strings after `0x` -/

/-- The regular expression `^0x[0-9a-fA-F]{n}$`. -/
def isPrefixedHex (n : ℕ) (s : Str) : Bool := s.take 2 == ['0', 'x'] && isHex n (s.drop 2)

/-- The strings that match it and have no upper-case digit. -/
def isLowerPrefixedHex (n : ℕ) (s : Str) : Bool :=
  s.take 2 == ['0', 'x'] && isLowerHex n (s.drop 2)

theorem isLowerPrefixedHex_lower {n : ℕ} {s : Str} (h : isPrefixedHex n s) :
    isLowerPrefixedHex n (lower s) := by
  simp only [isPrefixedHex, isLowerPrefixedHex, Bool.and_eq_true, beq_iff_eq] at h ⊢
  obtain ⟨hpre, hhex⟩ := h
  constructor
  · rw [lower, ← List.map_take, hpre]
    rfl
  · rw [lower, ← List.map_drop]
    exact lower_isLowerHex hhex

theorem isPrefixedHex_of_lower {n : ℕ} {s : Str} (h : isLowerPrefixedHex n s) :
    isPrefixedHex n s := by
  simp only [isPrefixedHex, isLowerPrefixedHex, Bool.and_eq_true, beq_iff_eq] at h ⊢
  exact ⟨h.1, isHex_of_isLowerHex h.2⟩

theorem lower_of_isLowerPrefixedHex {n : ℕ} {s : Str} (h : isLowerPrefixedHex n s) :
    lower s = s := by
  simp only [isLowerPrefixedHex, Bool.and_eq_true, beq_iff_eq] at h
  obtain ⟨hpre, hhex⟩ := h
  calc lower s = lower (s.take 2) ++ lower (s.drop 2) := by
        rw [lower, lower, lower, ← List.map_append, List.take_append_drop]
    _ = s.take 2 ++ s.drop 2 := by
        rw [lower_of_isLowerHex hhex, hpre]
        rfl
    _ = s := List.take_append_drop 2 s

/-! ### Addresses -/

/-- The strings `normalizeAddress` accepts: twenty bytes, not all zero. -/
def isAddress (s : Str) : Bool := isPrefixedHex 40 s && !(s.drop 2).all (· == '0')

/-- An address in normal form. -/
abbrev Address : Type := { s : Str // isLowerPrefixedHex 40 s && isAddress s }

theorem isAddress_lower {s : Str} (h : isAddress s) : isAddress (lower s) := by
  simp only [isAddress, Bool.and_eq_true, Bool.not_eq_true', List.all_eq_false, beq_iff_eq] at h ⊢
  obtain ⟨hhex, c, hc, hne⟩ := h
  refine ⟨isPrefixedHex_of_lower (isLowerPrefixedHex_lower hhex), c.toLower, ?_, ?_⟩
  · rw [lower, ← List.map_drop]
    exact List.mem_map_of_mem hc
  · have key : ∀ c ∈ hexDigits, c.toLower = '0' → c = '0' :=
      forall_mem_of_all (by decide)
    have hdigit : c ∈ hexDigits := by
      simp only [isPrefixedHex, Bool.and_eq_true] at hhex
      exact (isHex_iff.1 hhex.2).2 c hc
    exact fun h0 => hne (key c hdigit h0)

theorem isAddress_normal {s : Str} (h : isAddress s) :
    isLowerPrefixedHex 40 (lower s) && isAddress (lower s) := by
  have hhex : isPrefixedHex 40 s := by
    simp only [isAddress, Bool.and_eq_true] at h
    exact h.1
  simp [isLowerPrefixedHex_lower hhex, isAddress_lower h]

/-- **`normalizeAddress`.** -/
def normalizeAddress (address : Option Json) : Except Error Address :=
  match Json.string? address with
  | some s =>
      if h : isAddress s then .ok ⟨lower s, isAddress_normal h⟩
      else .error (.typeError "Invalid MEDAC address")
  | none => .error (.typeError "Invalid MEDAC address")

/-- The JSON string of an address. -/
def Address.toJson (a : Address) : Json := .str a.val

@[simp] theorem normalizeAddress_toJson (a : Address) :
    normalizeAddress (some a.toJson) = .ok a := by
  obtain ⟨s, hs⟩ := a
  obtain ⟨hlower, hs'⟩ := Bool.and_eq_true _ _ ▸ hs
  simp only [normalizeAddress, Address.toJson, Json.string?_str, hs', dite_true, Except.ok.injEq,
    Subtype.mk.injEq]
  exact lower_of_isLowerPrefixedHex hlower

/-! ### Transfers -/

/-- The fields of a transaction that its signature covers. -/
structure Transfer where
  genesisHash : Str
  /-- `from`. -/
  sender : Address
  /-- `to`. -/
  recipient : Address
  nonce : ℕ
  amount : Str
  fee : Str
  genesisHash_hex : isLowerHex 64 genesisHash
  nonce_lt : nonce < Json.maxSafeInteger
  amount_numeral : isPositiveNumeral amount ∧ amount.length ≤ maxAmountDigits
  fee_numeral : isNumeral fee ∧ fee.length ≤ maxAmountDigits
  deriving DecidableEq

/-- The checks of `transactionSigningPayload`, on the values of the fields it reads. -/
def readTransfer (genesisHash sender recipient nonce amount fee : Option Json) :
    Except Error Transfer := do
  let sender ← normalizeAddress sender
  let recipient ← normalizeAddress recipient
  match Json.string? genesisHash, Json.safeNat? nonce, Json.string? amount, Json.string? fee with
  | some genesisHash, some nonce, some amount, some fee =>
      if h : isLowerHex 64 genesisHash ∧ nonce < Json.maxSafeInteger ∧
          (isPositiveNumeral amount ∧ amount.length ≤ maxAmountDigits) ∧
          (isNumeral fee ∧ fee.length ≤ maxAmountDigits) then
        .ok ⟨genesisHash, sender, recipient, nonce, amount, fee, h.1, h.2.1, h.2.2.1, h.2.2.2⟩
      else .error (.typeError "Malformed MEDAC transaction fields")
  | _, _, _, _ => .error (.typeError "Malformed MEDAC transaction fields")

/-- The fields that are signed, in order. -/
def Transfer.payload (t : Transfer) : Json :=
  .arr [.str networkId, .str t.genesisHash, t.sender.toJson, t.recipient.toJson, .num t.nonce,
    .str t.amount, .str t.fee]

/-- The text that is signed. -/
def Transfer.signingPayload (t : Transfer) : Str := Json.stringify t.payload

/-- **`transactionSigningPayload`.** -/
def transactionSigningPayload (transaction : Json) : Except Error Str :=
  Transfer.signingPayload <$> readTransfer (transaction.get? "genesisHash".toList)
    (transaction.get? "from".toList) (transaction.get? "to".toList)
    (transaction.get? "nonce".toList) (transaction.get? "amount".toList)
    (transaction.get? "fee".toList)

theorem readTransfer_eq_ok {genesisHash sender recipient nonce amount fee : Option Json}
    {t : Transfer} :
    readTransfer genesisHash sender recipient nonce amount fee = .ok t ↔
      genesisHash = some (.str t.genesisHash) ∧ normalizeAddress sender = .ok t.sender ∧
      normalizeAddress recipient = .ok t.recipient ∧ nonce = some (.num t.nonce) ∧
      amount = some (.str t.amount) ∧ fee = some (.str t.fee) := by
  constructor
  · intro h
    obtain ⟨s, hs, h⟩ := bind_eq_ok.1 h
    obtain ⟨r, hr, h⟩ := bind_eq_ok.1 h
    split at h
    · next g n a f hg hn ha hf =>
        split at h
        · cases h
          exact ⟨Json.string?_eq_some.1 hg, hs, hr, (Json.safeNat?_eq_some.1 hn).1,
            Json.string?_eq_some.1 ha, Json.string?_eq_some.1 hf⟩
        · cases h
    · cases h
  · rintro ⟨rfl, hs, hr, rfl, rfl, rfl⟩
    have hnonce := Json.safeNat?_num (Nat.le_of_lt t.nonce_lt)
    simp [readTransfer, hs, hr, hnonce, t.genesisHash_hex, t.nonce_lt, t.amount_numeral,
      t.fee_numeral]

@[simp] theorem Transfer.plain_payload (t : Transfer) : Json.plain t.payload := by
  simp [payload, Json.plain, Json.plainItems, Address.toJson]

/-- **The signed text determines the transfer.** -/
theorem Transfer.signingPayload_injective {t t' : Transfer}
    (h : t.signingPayload = t'.signingPayload) : t = t' := by
  have hjson : t.payload = t'.payload :=
    Json.stringify_injective t.plain_payload t'.plain_payload h
  obtain ⟨genesisHash, sender, recipient, nonce, amount, fee⟩ := t
  obtain ⟨genesisHash', sender', recipient', nonce', amount', fee'⟩ := t'
  simpa [payload, Address.toJson, Subtype.ext_iff] using hjson

/-! ### Signed transfers -/

/-- A signature in normal form. -/
abbrev Signature : Type := { s : Str // isLowerPrefixedHex 130 s }

/-- The check on the signature, and its lower-case form. -/
def readSignature (signature : Option Json) : Except Error Signature :=
  match Json.string? signature with
  | some s =>
      if h : isPrefixedHex 130 s then .ok ⟨lower s, isLowerPrefixedHex_lower h⟩
      else .error (.typeError "Malformed MEDAC transaction signature")
  | none => .error (.typeError "Malformed MEDAC transaction signature")

/-- The JSON string of a signature. -/
def Signature.toJson (s : Signature) : Json := .str s.val

@[simp] theorem readSignature_toJson (s : Signature) : readSignature (some s.toJson) = .ok s := by
  obtain ⟨s, hs⟩ := s
  simp only [readSignature, Signature.toJson, Json.string?_str, isPrefixedHex_of_lower hs,
    dite_true, Except.ok.injEq, Subtype.mk.injEq]
  exact lower_of_isLowerPrefixedHex hs

/-- A signed transfer in normal form. -/
structure Transaction extends Transfer where
  signature : Signature
  deriving DecidableEq

/-- The object `normalizeTransaction` returns. -/
def Transaction.toJson (t : Transaction) : Json :=
  .obj [("genesisHash".toList, .str t.genesisHash), ("from".toList, t.sender.toJson),
    ("to".toList, t.recipient.toJson), ("nonce".toList, .num t.nonce),
    ("amount".toList, .str t.amount), ("fee".toList, .str t.fee),
    ("signature".toList, t.signature.toJson)]

/-- `BigInt(transaction.amount)`. -/
def Transfer.amountValue (t : Transfer) : ℕ := numeralValue t.amount

/-- `BigInt(transaction.fee)`. -/
def Transfer.feeValue (t : Transfer) : ℕ := numeralValue t.fee

/-- **`normalizeTransaction`.**  A value that is not an object has no `signature`, so that the
first check rejects it too. -/
def normalizeTransaction (c : Crypto) (transaction : Json) : Except Error Transaction := do
  let signature ← readSignature (transaction.get? "signature".toList)
  let sender ← normalizeAddress (transaction.get? "from".toList)
  let recipient ← normalizeAddress (transaction.get? "to".toList)
  -- the fields are checked once more on the object that is going to be returned
  let transfer ← readTransfer (transaction.get? "genesisHash".toList) (some sender.toJson)
    (some recipient.toJson) (transaction.get? "nonce".toList) (transaction.get? "amount".toList)
    (transaction.get? "fee".toList)
  require (transfer.amountValue ≤ totalSupply && minTransactionFee ≤ transfer.feeValue &&
    transfer.feeValue ≤ totalSupply) (.rangeError "MEDAC transaction amount or fee is out of range")
  let recovered ← c.verifyMessage transfer.signingPayload signature.val
  let recovered ← normalizeAddress (some (.str recovered))
  require (recovered = transfer.sender) (.error "MEDAC transaction signer mismatch")
  return { transfer with signature }

/-- **`transactionId`.** -/
def transactionId (c : Crypto) (transaction : Json) : Except Error Str := do
  let payload ← transactionSigningPayload transaction
  match Json.string? (transaction.get? "signature".toList) with
  | some signature => return c.sha256 (Json.stringify (.arr [.str payload, .str (lower signature)]))
  | none => throw (.typeError "Cannot read properties of undefined (reading 'toLowerCase')")

/-! ### What normalization accepts -/

/-- `t` is the normal form of the fields of `transaction`. -/
structure Transaction.ReadFrom (t : Transaction) (transaction : Json) : Prop where
  genesisHash : transaction.get? "genesisHash".toList = some (.str t.genesisHash)
  sender : normalizeAddress (transaction.get? "from".toList) = .ok t.sender
  recipient : normalizeAddress (transaction.get? "to".toList) = .ok t.recipient
  nonce : transaction.get? "nonce".toList = some (.num t.nonce)
  amount : transaction.get? "amount".toList = some (.str t.amount)
  fee : transaction.get? "fee".toList = some (.str t.fee)
  signature : readSignature (transaction.get? "signature".toList) = .ok t.signature

/-- The checks a transaction in normal form must still pass: its ranges and its signer. -/
structure Transaction.Accepted (c : Crypto) (t : Transaction) : Prop where
  amount_le : t.amountValue ≤ totalSupply
  le_fee : minTransactionFee ≤ t.feeValue
  fee_le : t.feeValue ≤ totalSupply
  signer : ∃ recovered, c.verifyMessage t.signingPayload t.signature.val = .ok recovered ∧
    normalizeAddress (some (.str recovered)) = .ok t.sender

variable {c : Crypto}

/-- **What normalization accepts and what it returns.** -/
theorem normalizeTransaction_eq_ok {transaction : Json} {t : Transaction} :
    normalizeTransaction c transaction = .ok t ↔ t.ReadFrom transaction ∧ t.Accepted c := by
  constructor
  · intro h
    obtain ⟨signature, hsignature, h⟩ := bind_eq_ok.1 h
    obtain ⟨sender, hsender, h⟩ := bind_eq_ok.1 h
    obtain ⟨recipient, hrecipient, h⟩ := bind_eq_ok.1 h
    obtain ⟨transfer, htransfer, h⟩ := bind_eq_ok.1 h
    obtain ⟨hrange, h⟩ := bind_require_eq_ok.1 h
    obtain ⟨text, htext, h⟩ := bind_eq_ok.1 h
    obtain ⟨recovered, hrecovered, h⟩ := bind_eq_ok.1 h
    obtain ⟨hsigner, h⟩ := bind_require_eq_ok.1 h
    cases h
    obtain ⟨hgenesis, hs, hr, hnonce, hamount, hfee⟩ := readTransfer_eq_ok.1 htransfer
    rw [normalizeAddress_toJson, Except.ok.injEq] at hs hr
    subst hs hr
    simp only [Bool.and_eq_true, decide_eq_true_eq] at hrange hsigner
    subst hsigner
    exact ⟨⟨hgenesis, hsender, hrecipient, hnonce, hamount, hfee, hsignature⟩,
      ⟨hrange.1.1, hrange.1.2, hrange.2, text, htext, hrecovered⟩⟩
  · rintro ⟨hread, haccepted⟩
    obtain ⟨text, htext, hrecovered⟩ := haccepted.signer
    have htransfer : readTransfer (transaction.get? "genesisHash".toList) (some t.sender.toJson)
        (some t.recipient.toJson) (transaction.get? "nonce".toList)
        (transaction.get? "amount".toList) (transaction.get? "fee".toList) = .ok t.toTransfer :=
      readTransfer_eq_ok.2 ⟨hread.genesisHash, normalizeAddress_toJson _,
        normalizeAddress_toJson _, hread.nonce, hread.amount, hread.fee⟩
    rw [normalizeTransaction, hread.signature, ok_bind, hread.sender, ok_bind, hread.recipient,
      ok_bind, htransfer, ok_bind]
    simp [haccepted.amount_le, haccepted.le_fee, haccepted.fee_le, htext, hrecovered, require]

theorem Transaction.readFrom_toJson (t : Transaction) : t.ReadFrom t.toJson where
  genesisHash := rfl
  sender := normalizeAddress_toJson t.sender
  recipient := normalizeAddress_toJson t.recipient
  nonce := rfl
  amount := rfl
  fee := rfl
  signature := readSignature_toJson t.signature

theorem Transaction.ReadFrom.unique {transaction : Json} {t t' : Transaction}
    (h : t.ReadFrom transaction) (h' : t'.ReadFrom transaction) : t = t' := by
  obtain ⟨hgenesis, hsender, hrecipient, hnonce, hamount, hfee, hsignature⟩ := h
  obtain ⟨hgenesis', hsender', hrecipient', hnonce', hamount', hfee', hsignature'⟩ := h'
  obtain ⟨⟨genesisHash, sender, recipient, nonce, amount, fee⟩, signature⟩ := t
  obtain ⟨⟨genesisHash', sender', recipient', nonce', amount', fee'⟩, signature'⟩ := t'
  simp only at *
  rw [hgenesis, Option.some.injEq, Json.str.injEq] at hgenesis'
  rw [hsender, Except.ok.injEq] at hsender'
  rw [hrecipient, Except.ok.injEq] at hrecipient'
  rw [hnonce, Option.some.injEq, Json.num.injEq, Nat.cast_inj] at hnonce'
  rw [hamount, Option.some.injEq, Json.str.injEq] at hamount'
  rw [hfee, Option.some.injEq, Json.str.injEq] at hfee'
  rw [hsignature, Except.ok.injEq] at hsignature'
  subst hgenesis' hsender' hrecipient' hnonce' hamount' hfee' hsignature'
  rfl

@[simp] theorem Transaction.plain_toJson (t : Transaction) : Json.plain t.toJson := by
  simp [toJson, Json.plain, Json.plainMembers, Address.toJson, Signature.toJson]

theorem Transaction.toJson_injective {t t' : Transaction} (h : t.toJson = t'.toJson) : t = t' := by
  obtain ⟨⟨genesisHash, sender, recipient, nonce, amount, fee⟩, signature⟩ := t
  obtain ⟨⟨genesisHash', sender', recipient', nonce', amount', fee'⟩, signature'⟩ := t'
  simpa [toJson, Address.toJson, Signature.toJson, Subtype.ext_iff, and_assoc] using h

/-- The identifier of a transaction in normal form: the digest of the signed text and the
signature. -/
def Transaction.identifier (c : Crypto) (t : Transaction) : Str :=
  c.sha256 (Json.stringify (.arr [.str t.signingPayload, t.signature.toJson]))

theorem transactionId_toJson (t : Transaction) :
    transactionId c t.toJson = .ok (t.identifier c) := by
  have hread := t.readFrom_toJson
  have htransfer : readTransfer (t.toJson.get? "genesisHash".toList) (t.toJson.get? "from".toList)
      (t.toJson.get? "to".toList) (t.toJson.get? "nonce".toList) (t.toJson.get? "amount".toList)
      (t.toJson.get? "fee".toList) = .ok t.toTransfer :=
    readTransfer_eq_ok.2 ⟨hread.genesisHash, hread.sender, hread.recipient, hread.nonce,
      hread.amount, hread.fee⟩
  have hsignature : t.toJson.get? "signature".toList = some t.signature.toJson := rfl
  have hlower : lower t.signature.val = t.signature.val :=
    lower_of_isLowerPrefixedHex t.signature.property
  rw [transactionId, transactionSigningPayload, htransfer, hsignature]
  simp [Signature.toJson, Transaction.identifier, hlower, Functor.map, Except.map]

end Medac
