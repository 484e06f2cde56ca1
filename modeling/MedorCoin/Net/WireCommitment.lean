/-
**What the hash of a wire transaction commits to.**

`computeTxContentHash` feeds the fields of a transaction to SHA-256 one after the other.  Numbers
take a fixed number of bytes and the data stand behind their length; but the address of the
transaction, the hash of an input and the address of an output stand there without a length.  So
bytes can move between these strings and the numbers next to them.

Main definitions:

* `Net.WireLayout`, `Net.wireLayout` — the lengths that are not fed.

Main results:

* `Net.accepted_of_deserializeTx` — what `deserializeTx` can produce;
* `Net.relayed_of_deserializeTx` — **what one node accepts reaches every other**;
* `Net.sameContents_iff_wireLayout_eq` — **two transactions that are fed alike agree exactly when
  they have the same layout**;
* `Net.not_wire_committed` — two transactions that are fed alike and differ.
-/

import MedorCoin.Cpp.LittleEndian
import MedorCoin.Net.ReplayTrace
import MedorCoin.Node.Commitment

set_option autoImplicit false

namespace Net

open Cpp Node
open Cpp.Keccak (leWrite64)
open Node.Transaction (SameContents)

/-! ### What can be produced -/

theorem bind_eq_ok {α β : Type} {x : Deserialize α} {f : α → Deserialize β} {b : β} :
    x >>= f = .ok b ↔ ∃ a, x = .ok a ∧ f a = .ok b := by
  cases x with
  | error e => exact iff_of_false (fun h => nomatch h) fun ⟨_, h, _⟩ => nomatch h
  | ok a => exact ⟨fun h => ⟨a, rfl, h⟩, fun ⟨_, ha, h⟩ => Except.ok.inj ha ▸ h⟩

theorem guard_eq_ok {α : Type} {c : Prop} [Decidable c] {code : SerializationErrorCode} {msg : Str}
    {k : Unit → Deserialize α} {b : α}
    (h : (if c then throwErr code msg >>= k else k ()) = .ok b) : ¬ c ∧ k () = .ok b := by
  split at h
  · obtain ⟨_, hthrow, -⟩ := bind_eq_ok.1 h
    cases hthrow
  · rename_i hc
    exact ⟨hc, h⟩

theorem length_of_getString {j : Json} {field ctx val : Str} {maxLen : ℕ}
    (h : getString j field maxLen ctx = .ok val) : val.length ≤ maxLen := by
  obtain ⟨value, -, h⟩ := bind_eq_ok.1 h
  cases hstring : value.getString? with
  | none => rw [hstring] at h; cases h
  | some text =>
      rw [hstring] at h
      simp only at h
      split at h
      · cases h
      · rename_i hle
        cases h
        exact Nat.not_lt.1 hle

theorem length_of_getData {j : Json} {data : List UInt8} (h : getData j = .ok data) :
    data.length ≤ MAX_TX_DATA_BYTES := by
  obtain ⟨value, -, h⟩ := bind_eq_ok.1 h
  cases hstring : value.getString? with
  | none => rw [hstring] at h; cases h
  | some enc =>
      rw [hstring] at h
      obtain ⟨decoded, -, h⟩ := bind_eq_ok.1 h
      split at h
      · cases h
      · rename_i hle
        cases h
        exact Nat.not_lt.1 hle

theorem outputIndex_of_readInput {item : Json} {input : TxInput} (h : readInput item = .ok input) :
    0 ≤ input.outputIndex := by
  rw [readInput] at h
  cases hindex : (item.find? (str "outputIndex")).bind Json.getInt? with
  | none =>
      rw [hindex] at h
      cases h
      exact Int32.le_refl 0
  | some outputIndex =>
      rw [hindex] at h
      simp only at h
      split at h
      · cases h
      · rename_i hle
        cases h
        exact Int32.not_lt.1 hle

theorem outputIndex_of_mapM {items : List Json} {inputs : List TxInput}
    (h : items.mapM readInput = .ok inputs) : ∀ input ∈ inputs, 0 ≤ input.outputIndex := by
  induction items generalizing inputs with
  | nil =>
      rw [List.mapM_nil] at h
      cases h
      exact fun _ hmem => absurd hmem List.not_mem_nil
  | cons item items ih =>
      rw [List.mapM_cons] at h
      obtain ⟨input, hinput, h⟩ := bind_eq_ok.1 h
      obtain ⟨rest, hrest, h⟩ := bind_eq_ok.1 h
      cases h
      intro input' hmem
      rcases List.mem_cons.1 hmem with rfl | hmem
      · exact outputIndex_of_readInput hinput
      · exact ih hrest input' hmem

theorem bounded_of_readFields {j : Json} {tx : Transaction} (h : readFields j = .ok tx) :
    Bounded tx := by
  unfold readFields at h
  dsimp only at h
  obtain ⟨-, h⟩ := guard_eq_ok h
  obtain ⟨ver, -, h⟩ := bind_eq_ok.1 h
  obtain ⟨-, h⟩ := guard_eq_ok h
  obtain ⟨txHash, htxHash, h⟩ := bind_eq_ok.1 h
  obtain ⟨toAddress, -, h⟩ := bind_eq_ok.1 h
  obtain ⟨value, -, h⟩ := bind_eq_ok.1 h
  obtain ⟨gasLimit, -, h⟩ := bind_eq_ok.1 h
  obtain ⟨maxFeePerGas, -, h⟩ := bind_eq_ok.1 h
  obtain ⟨maxPriorityFeePerGas, -, h⟩ := bind_eq_ok.1 h
  obtain ⟨nonce, -, h⟩ := bind_eq_ok.1 h
  obtain ⟨chainId, -, h⟩ := bind_eq_ok.1 h
  obtain ⟨v, -, h⟩ := bind_eq_ok.1 h
  obtain ⟨⟨r, s⟩, -, h⟩ := bind_eq_ok.1 h
  obtain ⟨data, hdata, h⟩ := bind_eq_ok.1 h
  obtain ⟨haddress, h⟩ := guard_eq_ok h
  obtain ⟨hchainId, h⟩ := guard_eq_ok h
  obtain ⟨inputs, hinputs, h⟩ := bind_eq_ok.1 h
  cases h
  exact
    { chainId := not_not.1 hchainId
      txHash := length_of_getString htxHash
      toAddress := by simpa using haddress
      data := length_of_getData hdata
      outputIndex := outputIndex_of_mapM hinputs }

section

variable {sha256 : Str → Digest} {lib : Secp256k1} {now : UInt64} {j : Json} {seen : ReplayCache}
variable {tx : Transaction}

/-- **What `deserializeTx` can produce** is within the limits, and is genuine. -/
theorem accepted_of_deserializeTx (h : (deserializeTx sha256 lib now j seen).1 = .ok tx) :
    Bounded tx ∧ Genuine sha256 lib tx := by
  cases hread : readFields j with
  | error e =>
      rw [deserializeTx, hread] at h
      cases h
  | ok tx' =>
      rcases deserializeTx_of_readFields sha256 lib now seen hread with ⟨-, e, he, -⟩ | ⟨-, heq⟩
      · rw [he] at h
        cases h
      · rw [heq] at h
        rcases verifyTx_cases sha256 lib tx' with ⟨hgenuine, hok⟩ | ⟨-, e, herror, -⟩
        · -- what is verified is given back unchanged
          obtain rfl := Except.ok.inj (hok.symm.trans h)
          exact ⟨bounded_of_readFields hread, hgenuine⟩
        · cases herror.symm.trans h

/-- **What one node accepts reaches every other**: it is sent on from node to node as it was
accepted, however it was spelled at first, as long as each has not seen its hash within the hour. -/
theorem relayed_of_deserializeTx (h : (deserializeTx sha256 lib now j seen).1 = .ok tx)
    (nodes : List (UInt64 × ReplayCache))
    (hseen : ∀ node ∈ nodes, (node.2.live node.1).contains tx.txHash = false) :
    nodes.foldlM (fun tx node => (deserializeTx sha256 lib node.1 (serializeTx tx) node.2).1) tx =
      Except.ok tx := by
  obtain ⟨hbounded, hgenuine⟩ := accepted_of_deserializeTx h
  induction nodes with
  | nil => rfl
  | cons node nodes ih =>
      have hnode := deserializeTx_of_genuine sha256 lib (readFields_serializeTx hbounded)
        (hseen node List.mem_cons_self) hgenuine
      rw [List.foldlM_cons, hnode]
      exact ih fun node hmem => hseen node (List.mem_cons_of_mem _ hmem)

theorem relayed_of_deserializeTx_signedTx :
    [(5000, [(str "00", 4000), (signedTx.txHash, 1000)]), (5002, [])].foldlM
      (fun tx node =>
        (deserializeTx sha256Digest signedLib node.1 (serializeTx tx) node.2).1) signedTx =
      Except.ok signedTx := by
  have haccepted : (deserializeTx sha256Digest signedLib 0 (serializeTx signedTx) []).1 =
      .ok signedTx :=
    deserializeTx_of_genuine sha256Digest signedLib (readFields_serializeTx signedTx_valid.bounded)
      rfl ((verifyTx_eq_ok_iff _ _ _).1 (verifyTx_of_valid signedLib_documented signedTx_valid))
  exact relayed_of_deserializeTx haccepted _ (by decide +kernel)

end

/-! ### The bytes of a number -/

theorem leWrite32_eq (v : UInt32) : leWrite32 v = leWrite 4 v.toNat := by
  rw [leWrite32, leWrite_eq_map]
  refine List.map_congr_left fun i hi => ?_
  have hi' := List.mem_range.1 hi
  have hshift : (8 * i).toUInt32.toNat % 32 = 8 * i := by
    rw [Nat.toUInt32_eq, UInt32.toNat_ofNat']
    omega
  rw [← UInt8.toNat_inj, UInt32.toNat_toUInt8, UInt32.toNat_shiftRight, hshift,
    Nat.shiftRight_eq_div_pow, toNat_ofNat_byte, Nat.pow_mul]

@[simp] theorem length_leWrite32 (v : UInt32) : (leWrite32 v).length = 4 := by
  rw [leWrite32_eq, length_leWrite]

@[simp] theorem length_leWrite64 (v : UInt64) : (leWrite64 v).length = 8 := by
  rw [Keccak.leWrite64_eq, length_leWrite]

theorem leWrite32_injective {v w : UInt32} (h : leWrite32 v = leWrite32 w) : v = w := by
  rw [leWrite32_eq, leWrite32_eq] at h
  exact UInt32.toNat_inj.1 (leWrite_injective v.toNat_lt w.toNat_lt h)

theorem leWrite64_injective {v w : UInt64} (h : leWrite64 v = leWrite64 w) : v = w := by
  rw [Keccak.leWrite64_eq, Keccak.leWrite64_eq] at h
  exact UInt64.toNat_inj.1 (leWrite_injective v.toNat_lt w.toNat_lt h)

/-! ### The layout -/

/-- The lengths that are not fed. -/
structure WireLayout where
  toAddress : ℕ
  /-- The hash of each input. -/
  inputs : List ℕ
  /-- The address of each output. -/
  outputs : List ℕ
  deriving DecidableEq

/-- The layout of a transaction. -/
def wireLayout (tx : Transaction) : WireLayout where
  toAddress := tx.toAddress.length
  inputs := tx.inputs.map fun input => input.prevTxHash.length
  outputs := tx.outputs.map fun output => output.address.length

theorem SameContents.wireLayout_eq {a b : Transaction} (h : SameContents a b) :
    wireLayout a = wireLayout b := by
  simp only [wireLayout, h.toAddress, h.inputs, h.outputs]

/-- The bytes of an input. -/
def inputBytes (input : TxInput) : Str := input.prevTxHash ++ leWrite32 input.outputIndex.toUInt32

/-- The bytes of an output. -/
def outputBytes (output : TxOutput) : Str := leWrite64 output.value ++ output.address

theorem inputs_eq_of_bytes {l l' : List TxInput}
    (hlayout : l.map (fun input => input.prevTxHash.length) =
      l'.map fun input => input.prevTxHash.length)
    (h : l.flatMap inputBytes = l'.flatMap inputBytes) : l = l' := by
  have hlength := congrArg (List.map (· + 4)) hlayout
  rw [List.map_map, List.map_map] at hlength
  have hbytes : l.map inputBytes = l'.map inputBytes :=
    map_eq_of_flatMap_eq (by simpa [inputBytes, Function.comp_def] using hlength) h
  refine eq_of_map_eq ?_ hbytes hlayout
  intro input input' hbytes hwidth
  obtain ⟨hhash, hindex⟩ := List.append_inj hbytes hwidth
  have hsame := leWrite32_injective hindex
  cases input
  cases input'
  exact congrArg₂ TxInput.mk hhash (Int32.toBitVec_inj.1 (congrArg UInt32.toBitVec hsame))

theorem outputs_eq_of_bytes {l l' : List TxOutput}
    (hlayout : l.map (fun output => output.address.length) =
      l'.map fun output => output.address.length)
    (h : l.flatMap outputBytes = l'.flatMap outputBytes) : l = l' := by
  have hlength := congrArg (List.map (8 + ·)) hlayout
  rw [List.map_map, List.map_map] at hlength
  have hbytes : l.map outputBytes = l'.map outputBytes :=
    map_eq_of_flatMap_eq (by simpa [outputBytes, Function.comp_def] using hlength) h
  refine eq_of_map_eq ?_ hbytes hlayout
  intro output output' hbytes _
  obtain ⟨hvalue, haddress⟩ := List.append_inj hbytes (by simp)
  have hsame := leWrite64_injective hvalue
  cases output
  cases output'
  exact congrArg₂ TxOutput.mk hsame haddress

/-- **Transactions of one layout that are fed alike have the same contents.** -/
theorem sameContents_of_wireLayout_eq {a b : Transaction} (ha : Bounded a) (hb : Bounded b)
    (hlayout : wireLayout a = wireLayout b) (h : contents a = contents b) :
    SameContents a b := by
  simp only [wireLayout, WireLayout.mk.injEq] at hlayout
  obtain ⟨haddress, hinputs, houtputs⟩ := hlayout
  have hbytes : ∀ tx : Transaction, contents tx =
      leWrite32 CURRENT_TX_VERSION ++ (leWrite64 tx.chainId ++ (leWrite64 tx.nonce ++
        (tx.toAddress ++ (leWrite64 tx.value ++ (leWrite64 tx.gasLimit ++
          (leWrite64 tx.maxFeePerGas ++ (leWrite64 tx.maxPriorityFeePerGas ++
            (leWrite64 (UInt64.ofNat tx.data.length) ++ (tx.data ++
              (leWrite64 (UInt64.ofNat tx.inputs.length) ++ (tx.inputs.flatMap inputBytes ++
                (leWrite64 (UInt64.ofNat tx.outputs.length) ++
                  tx.outputs.flatMap outputBytes)))))))))))) := by
    intro tx
    simp only [contents, List.append_assoc]
    rfl
  rw [hbytes, hbytes] at h
  obtain ⟨-, h⟩ := List.append_inj h rfl
  obtain ⟨hchainId, h⟩ := List.append_inj h (by simp)
  obtain ⟨hnonce, h⟩ := List.append_inj h (by simp)
  obtain ⟨haddressBytes, h⟩ := List.append_inj h haddress
  obtain ⟨hvalue, h⟩ := List.append_inj h (by simp)
  obtain ⟨hgas, h⟩ := List.append_inj h (by simp)
  obtain ⟨hfee, h⟩ := List.append_inj h (by simp)
  obtain ⟨hpriority, h⟩ := List.append_inj h (by simp)
  obtain ⟨hdataLength, h⟩ := List.append_inj h (by simp)
  -- the length of the data is fed, and the limit keeps it from wrapping around
  have hlength : a.data.length = b.data.length := by
    have hmax : MAX_TX_DATA_BYTES = 131072 := rfl
    have hda := ha.data
    have hdb := hb.data
    have htoNat := congrArg UInt64.toNat (leWrite64_injective hdataLength)
    rw [UInt64.toNat_ofNat', UInt64.toNat_ofNat'] at htoNat
    omega
  obtain ⟨hdata, h⟩ := List.append_inj h hlength
  obtain ⟨-, h⟩ := List.append_inj h (by simp)
  have hinputsLength : (a.inputs.flatMap inputBytes).length =
      (b.inputs.flatMap inputBytes).length := by
    have hsum := congrArg (fun l => (l.map (· + 4)).sum) hinputs
    simpa [List.length_flatMap, inputBytes, Function.comp_def] using hsum
  obtain ⟨hinputsBytes, h⟩ := List.append_inj h hinputsLength
  obtain ⟨-, houtputsBytes⟩ := List.append_inj h (by simp)
  exact
    { chainId := leWrite64_injective hchainId
      nonce := leWrite64_injective hnonce
      maxPriorityFeePerGas := leWrite64_injective hpriority
      maxFeePerGas := leWrite64_injective hfee
      gasLimit := leWrite64_injective hgas
      toAddress := haddressBytes
      value := leWrite64_injective hvalue
      data := hdata
      inputs := inputs_eq_of_bytes hinputs hinputsBytes
      outputs := outputs_eq_of_bytes houtputs houtputsBytes }

/-- **Two transactions that are fed alike agree exactly when they have the same layout.** -/
theorem sameContents_iff_wireLayout_eq {a b : Transaction} (ha : Bounded a) (hb : Bounded b)
    (h : contents a = contents b) : SameContents a b ↔ wireLayout a = wireLayout b :=
  ⟨SameContents.wireLayout_eq, fun hlayout => sameContents_of_wireLayout_eq ha hb hlayout h⟩

/-! ### Transactions that are fed alike -/

/-- A library that takes every signature for that of one key. -/
def lenientLib : Secp256k1 where
  PublicKey := Unit
  Signature := Unit
  RecoverableSignature := Unit
  ec_pubkey_parse := fun _ => some ()
  ec_pubkey_serialize := fun _ => some signerKey
  ecdsa_signature_parse_compact := fun _ => some ()
  ecdsa_signature_normalize := id
  ecdsa_verify := fun _ _ _ => true
  ecdsa_recoverable_signature_parse_compact := fun _ _ => some ()
  ecdsa_recover := fun _ _ => some ()

theorem lenientLib_documented : lenientLib.Documented where
  parse_serialize _ := rfl
  recover_correct _ _ := ⟨(), rfl, rfl⟩

/-- With its hash filled in and any signature. -/
def hashed (tx : Transaction) : Transaction :=
  { tx with v := 37, txHash := toHex (contentHash sha256Digest tx).toList }

/-- A payment of 3978425819141910832 to an address, with eight bytes of data. -/
def shortAddress : Transaction :=
  hashed { chainId := 1, nonce := 1, toAddress := str "addr", value := 3978425819141910832,
           gasLimit := 21000, maxFeePerGas := 30, maxPriorityFeePerGas := 2,
           data := List.replicate 8 0 }

/-- A payment of 21000 to an address that goes on with the bytes of the other payment. -/
def longAddress : Transaction :=
  hashed { chainId := 1, nonce := 1, toAddress := str "addr01234567", value := 21000,
           gasLimit := 30, maxFeePerGas := 2, maxPriorityFeePerGas := 8 }

theorem contents_longAddress : contents shortAddress = contents longAddress := by decide +kernel

theorem hashed_valid {tx : Transaction} (hchainId : tx.chainId = 1)
    (haddress : isValidAddress tx.toAddress = true) (hdata : tx.data.length ≤ MAX_TX_DATA_BYTES)
    (hinputs : tx.inputs = []) : ValidForWire sha256Digest lenientLib (hashed tx) where
  chainId := hchainId
  txHash := rfl
  recoverable := by
    have hid : computeRecoveryId 37 tx.chainId = 0 := by rw [hchainId]; decide
    change 0 ≤ computeRecoveryId 37 tx.chainId ∧ (recoverPubkey lenientLib _ _
      (computeRecoveryId 37 tx.chainId)).isSome = true
    rw [hid]
    exact ⟨le_rfl, rfl⟩
  outputIndex := by
    intro input hmem
    change input ∈ tx.inputs at hmem
    rw [hinputs] at hmem
    cases hmem
  toAddress := haddress
  data := hdata

theorem shortAddress_valid : ValidForWire sha256Digest lenientLib shortAddress :=
  hashed_valid rfl (by decide +kernel) (by decide) rfl

theorem longAddress_valid : ValidForWire sha256Digest lenientLib longAddress :=
  hashed_valid rfl (by decide +kernel) (by decide) rfl

theorem sameContents_iff_wireLayout_eq_longAddress :
    ¬ SameContents shortAddress longAddress ∧ wireLayout shortAddress ≠ wireLayout longAddress := by
  have hlayout : wireLayout shortAddress ≠ wireLayout longAddress := by decide +kernel
  exact ⟨fun h => hlayout ((sameContents_iff_wireLayout_eq shortAddress_valid.bounded
    longAddress_valid.bounded contents_longAddress).1 h), hlayout⟩

/-- **The hash does not commit to the transaction**, even if `deserializeTx` produces both. -/
theorem not_wire_committed :
    ¬ ∀ (sha256 : Str → Digest) (lib : Secp256k1) (now : UInt64) (j j' : Json)
      (seen seen' : ReplayCache) (a b : Transaction), lib.Documented →
      (deserializeTx sha256 lib now j seen).1 = .ok a →
      (deserializeTx sha256 lib now j' seen').1 = .ok b →
      contents a = contents b → SameContents a b := by
  have hproduced {tx : Transaction} (h : ValidForWire sha256Digest lenientLib tx) :
      (deserializeTx sha256Digest lenientLib 0 (serializeTx tx) []).1 = .ok tx := by
    have hverify := verifyTx_of_valid lenientLib_documented h
    rw [deserializeTx, readFields_serializeTx h.bounded]
    exact hverify
  intro h
  have hsame := h sha256Digest lenientLib 0 (serializeTx shortAddress) (serializeTx longAddress)
    [] [] shortAddress longAddress lenientLib_documented (hproduced shortAddress_valid)
    (hproduced longAddress_valid) contents_longAddress
  exact absurd hsame.gasLimit (by decide +kernel)

end Net
