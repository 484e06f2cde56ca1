/-
**Transactions of the C++ node, and their signatures.**

A transaction spends outputs of earlier transactions (`TxInput`) and creates outputs of its own
(`TxOutput`); it also has the fields of an account-style transaction and a recoverable signature.
Its `txHash` is a field like any other: `calculateHash` sets it to the Keccak-256 digest of the
printed contents, and `isValid` looks at its length only.

The node checks a signature by recovering the public key from it, hashing the key and comparing
the last twenty bytes of the digest with an address.  The recovery itself is done by the library
secp256k1, which is a parameter here.

Main definitions:

* `Node.TxInput`, `Node.TxOutput`, `Node.Transaction`;
* `Node.Transaction.hashedText`, `Node.Transaction.calculateHash`, `Node.Transaction.isValid`;
* `Node.wrapSum` — a running sum in `uint64_t`;
* `Node.Secp256k1` — the two functions of the library that are called;
* `Node.computeRecoveryId`, `Node.recoverAndVerify`;
* `Node.addressBytes` — the twenty bytes an address text stands for, as the node reads it.

Main results:

* `Node.toNat_wrapSum` — a running sum is the sum modulo `2 ^ 64`;
* `Node.toNat_min` — the lesser of two `uint64_t`.
-/

import Mathlib.Algebra.BigOperators.Group.List.Basic
import MedorCoin.Cpp.Keccak

set_option autoImplicit false

namespace Node

open Cpp

/-- An output of an earlier transaction that is spent. -/
structure TxInput where
  prevTxHash : Str := []
  outputIndex : Int32 := 0
  deriving DecidableEq

/-- An output that is created. -/
structure TxOutput where
  value : UInt64 := 0
  address : Str := []
  deriving DecidableEq

/-- `class Transaction`, with the defaults of its members. -/
structure Transaction where
  chainId : UInt64 := 0
  nonce : UInt64 := 0
  maxPriorityFeePerGas : UInt64 := 0
  maxFeePerGas : UInt64 := 0
  gasLimit : UInt64 := 0
  toAddress : Str := []
  value : UInt64 := 0
  data : List UInt8 := []
  inputs : List TxInput := []
  outputs : List TxOutput := []
  v : UInt64 := 0
  r : Vector UInt8 32 := Vector.replicate 32 0
  s : Vector UInt8 32 := Vector.replicate 32 0
  txHash : Str := []
  deriving DecidableEq

namespace Transaction

/-! ### The hash of a transaction -/

/-- `<<` of a `uint64_t`. -/
def printed (hex : Bool) (n : UInt64) : Str :=
  if hex then hexadecimal n.toNat else decimal n.toNat

/-- `<<` of an `int`; in hexadecimal it prints as an unsigned number. -/
def printedInt (hex : Bool) (i : Int32) : Str :=
  if hex then hexadecimal i.toUInt32.toNat else decimalInt i

/-- What is hashed.  `std::hex` stays set after the first byte of the data, so that the numbers
that follow are printed in hexadecimal then. -/
def hashedText (tx : Transaction) : Str :=
  let hex := !tx.data.isEmpty
  decimal tx.chainId.toNat ++ decimal tx.nonce.toNat ++ decimal tx.maxPriorityFeePerGas.toNat ++
    decimal tx.maxFeePerGas.toNat ++ decimal tx.gasLimit.toNat ++ tx.toAddress ++
    decimal tx.value.toNat ++ toHex tx.data ++
    tx.inputs.flatMap (fun input => input.prevTxHash ++ printedInt hex input.outputIndex) ++
    tx.outputs.flatMap (fun output => printed hex output.value ++ output.address)

/-- `calculateHash()`; it does not fail. -/
def calculateHash (tx : Transaction) : Transaction :=
  { tx with txHash := Keccak.hex tx.hashedText }

/-- `isValid()`. -/
def isValid (tx : Transaction) : Bool := tx.txHash != [] && tx.txHash.length == 64

theorem isValid_iff (tx : Transaction) : tx.isValid ↔ tx.txHash.length = 64 := by
  constructor
  · intro h
    rw [isValid, Bool.and_eq_true, beq_iff_eq] at h
    exact h.2
  · intro h
    have hne : tx.txHash ≠ [] := by
      intro hnil
      rw [hnil] at h
      exact absurd h (by decide)
    rw [isValid, Bool.and_eq_true, beq_iff_eq]
    exact ⟨bne_iff_ne.2 hne, h⟩

end Transaction

/-! ### Running sums -/

/-- A sum accumulated in a `uint64_t`, which wraps around. -/
def wrapSum (l : List UInt64) : UInt64 := l.foldl (· + ·) 0

theorem toNat_foldl_add (l : List UInt64) (n : UInt64) :
    (l.foldl (· + ·) n).toNat = (n.toNat + (l.map UInt64.toNat).sum) % 2 ^ 64 := by
  induction l generalizing n with
  | nil => simp [Nat.mod_eq_of_lt n.toNat_lt]
  | cons a l ih =>
      rw [List.foldl_cons, ih, UInt64.toNat_add, Nat.mod_add_mod, List.map_cons, List.sum_cons,
        Nat.add_assoc]

theorem toNat_wrapSum (l : List UInt64) :
    (wrapSum l).toNat = (l.map UInt64.toNat).sum % 2 ^ 64 := by
  rw [wrapSum, toNat_foldl_add]
  simp

theorem toNat_min (a b : UInt64) : (min a b).toNat = min a.toNat b.toNat := by
  change (if a ≤ b then a else b).toNat = _
  by_cases h : a ≤ b
  · rw [if_pos h, min_eq_left (UInt64.le_iff_toNat_le.1 h)]
  · rw [if_neg h]
    rw [UInt64.le_iff_toNat_le] at h
    rw [min_eq_right (by omega)]

namespace Transaction

/-- The values of the outputs. -/
def outputValues (tx : Transaction) : List UInt64 := tx.outputs.map TxOutput.value

/-- What the outputs come to, in unbounded integers. -/
def outputTotal (tx : Transaction) : ℕ := (tx.outputs.map fun output => output.value.toNat).sum

theorem toNat_wrapSum_outputValues (tx : Transaction) :
    (wrapSum tx.outputValues).toNat = tx.outputTotal % 2 ^ 64 := by
  rw [toNat_wrapSum, outputValues, List.map_map]
  rfl

end Transaction

/-! ### Signatures -/

/-- The library secp256k1: recovery of the compressed public key from a hash, the 64 bytes of a
signature and a recovery id, and the 65 bytes of a compressed key written out. -/
structure Secp256k1 where
  recover : Str → Str → ℕ → Option Str
  uncompressed : Str → Option Str

/-- `computeRecoveryId`; `none` for `-1`. -/
def computeRecoveryId (v chainId : UInt64) : Option ℕ :=
  let base := 35 + 2 * chainId
  if 0 < chainId ∧ chainId ≤ (0xFFFFFFFFFFFFFFFF - 35) / 2 ∧ (v = base ∨ v = base + 1) then
    some (v - base).toNat
  else if v = 27 ∨ v = 28 then some (v - 27).toNat
  else none

/-- The recovery id `recoverAndVerify` uses: without chain id, and then `v` itself. -/
def recoveryId (v : Int32) : Option ℕ :=
  match computeRecoveryId v.toInt64.toUInt64 0 with
  | some id => some id
  | none => if v = 0 then some 0 else if v = 1 then some 1 else none

/-- `recoverAndVerify`: the public key recovered from the signature hashes to the address. -/
def recoverAndVerify (E : Secp256k1) (hash32 r s : Str) (v : Int32) (expectedAddr20 : Str) :
    Bool :=
  match recoveryId v with
  | none => false
  | some id =>
      match (E.recover hash32 (r ++ s) id).bind E.uncompressed with
      | none => false
      | some publicKey => (Keccak.keccak256 publicKey.tail).drop 12 == expectedAddr20

/-! ### The address a text stands for -/

/-- `'0'` to `'9'`, `'a'` to `'f'` and `'A'` to `'F'`. -/
def isHexDigit (b : UInt8) : Bool := isLowerHexDigit b || (65 ≤ b && b ≤ 70)

/-- The value of a hexadecimal digit. -/
def hexDigitValue (b : UInt8) : ℕ :=
  if isDigit b then b.toNat - 48 else if b ≤ 70 then b.toNat - 55 else b.toNat - 87

/-- `>> std::hex` into an unsigned integer, cut to a byte: blanks, a sign, digits; zero if there is
no digit. -/
def hexByte (text : Str) : UInt8 :=
  let text := text.dropWhile isSpace
  let unsigned := if text.head? == some 45 || text.head? == some 43 then text.tail else text
  let value := (unsigned.takeWhile isHexDigit).foldl (fun n b => 16 * n + hexDigitValue b) 0
  if text.head? == some 45 then -UInt8.ofNat value else UInt8.ofNat value

/-- The twenty bytes an address text stands for: its pairs of characters if it has forty of them,
and zeros otherwise. -/
def addressBytes (address : Str) : Str :=
  if address.length = 40 then
    (List.range 20).map fun j => hexByte ((address.drop (j * 2)).take 2)
  else List.replicate 20 0

/-! ### Signed transactions -/

namespace Transaction

/-- `r` or `s` is not zero. -/
def isSigned (tx : Transaction) : Bool :=
  tx.r != Vector.replicate 32 0 || tx.s != Vector.replicate 32 0

/-- The signature recovers to the owner of an output, over the hash the transaction claims. -/
def signedBy (E : Secp256k1) (tx : Transaction) (address : Str) : Bool :=
  recoverAndVerify E (Keccak.keccak256 tx.txHash) tx.r.toList tx.s.toList tx.v.toUInt32.toInt32
    (addressBytes address)

end Transaction

end Node
