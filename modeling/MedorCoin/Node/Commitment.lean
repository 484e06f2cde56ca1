/-
**What the hash of a transaction commits to.**

`calculateHash` prints the contents of a transaction one after the other, without separators and
without lengths, and after the first byte of the data in hexadecimal.  So the printed text does not
say where one field ends and the next one begins: a digit that ends the chain number may as well
begin the nonce.

Main definitions:

* `Node.Transaction.SameContents` — two transactions agree on all that is printed;
* `Node.Transaction.Layout`, `Node.Transaction.layout` — how many characters each field takes.

Main results:

* `Cpp.hexadecimal_injective` — a hexadecimal numeral determines its number;
* `Node.Transaction.sameContents_iff_layout_eq` — **two transactions that print alike agree exactly
  when they have the same layout**;
* `Node.Transaction.not_committed` — two transactions that print alike and differ.
-/

import MedorCoin.Node.Transaction

set_option autoImplicit false

namespace Cpp

/-- **A hexadecimal numeral determines its number.** -/
theorem hexadecimal_injective {m n : ℕ} (h : hexadecimal m = hexadecimal n) : m = n := by
  induction m using Nat.strong_induction_on generalizing n with
  | _ m ih =>
      rw [hexadecimal_eq m, hexadecimal_eq n] at h
      obtain ⟨hinit, hlast⟩ := List.append_inj' h rfl
      have hmod : m % 16 = n % 16 := hexDigit_injective (Nat.mod_lt _ (by decide))
        (Nat.mod_lt _ (by decide)) (List.cons.inj hlast).1
      split at hinit
      · split at hinit
        · omega
        · exact absurd hinit.symm (hexadecimal_ne_nil _)
      · split at hinit
        · exact absurd hinit (hexadecimal_ne_nil _)
        · have hdiv := ih (m / 16) (by omega) hinit
          omega

theorem map_eq_of_flatMap_eq {α : Type} {piece piece' : α → Str} {l l' : List α}
    (hlength : l.map (fun a => (piece a).length) = l'.map (fun a => (piece' a).length))
    (h : l.flatMap piece = l'.flatMap piece') : l.map piece = l'.map piece' := by
  induction l generalizing l' with
  | nil =>
      obtain rfl : l' = [] := by simpa using hlength.symm
      rfl
  | cons a l ih =>
      cases l' with
      | nil => simp at hlength
      | cons a' l' =>
          rw [List.map_cons, List.map_cons, List.cons.injEq] at hlength
          rw [List.flatMap_cons, List.flatMap_cons] at h
          obtain ⟨hhead, htail⟩ := List.append_inj h hlength.1
          rw [List.map_cons, List.map_cons, hhead, ih hlength.2 htail]

theorem eq_of_map_eq {α β γ : Type} {f : α → β} {g : α → γ} {l l' : List α}
    (hinj : ∀ a a', f a = f a' → g a = g a' → a = a') (hf : l.map f = l'.map f)
    (hg : l.map g = l'.map g) : l = l' := by
  induction l generalizing l' with
  | nil => simpa using hf.symm
  | cons a l ih =>
      cases l' with
      | nil => simp at hf
      | cons a' l' =>
          rw [List.map_cons, List.map_cons, List.cons.injEq] at hf hg
          rw [hinj a a' hf.1 hg.1, ih hf.2 hg.2]

theorem length_toHex (s : Str) : (toHex s).length = 2 * s.length := by
  have h := isLowerHex_toHex s
  rw [isLowerHex, Bool.and_eq_true, beq_iff_eq] at h
  exact h.1

end Cpp

namespace Node

open Cpp

namespace Transaction

/-! ### What is printed -/

/-- Two transactions agree on all that is printed. -/
structure SameContents (a b : Transaction) : Prop where
  chainId : a.chainId = b.chainId
  nonce : a.nonce = b.nonce
  maxPriorityFeePerGas : a.maxPriorityFeePerGas = b.maxPriorityFeePerGas
  maxFeePerGas : a.maxFeePerGas = b.maxFeePerGas
  gasLimit : a.gasLimit = b.gasLimit
  toAddress : a.toAddress = b.toAddress
  value : a.value = b.value
  data : a.data = b.data
  inputs : a.inputs = b.inputs
  outputs : a.outputs = b.outputs

/-- How many characters each field takes. -/
structure Layout where
  chainId : ℕ
  nonce : ℕ
  maxPriorityFeePerGas : ℕ
  maxFeePerGas : ℕ
  gasLimit : ℕ
  toAddress : ℕ
  value : ℕ
  data : ℕ
  /-- The hash and the index of each input. -/
  inputs : List (ℕ × ℕ)
  /-- The value and the address of each output. -/
  outputs : List (ℕ × ℕ)
  deriving DecidableEq

/-- The layout of a transaction. -/
def layout (tx : Transaction) : Layout :=
  let hex := !tx.data.isEmpty
  { chainId := (decimal tx.chainId.toNat).length
    nonce := (decimal tx.nonce.toNat).length
    maxPriorityFeePerGas := (decimal tx.maxPriorityFeePerGas.toNat).length
    maxFeePerGas := (decimal tx.maxFeePerGas.toNat).length
    gasLimit := (decimal tx.gasLimit.toNat).length
    toAddress := tx.toAddress.length
    value := (decimal tx.value.toNat).length
    data := tx.data.length
    inputs := tx.inputs.map fun input =>
      (input.prevTxHash.length, (printedInt hex input.outputIndex).length)
    outputs := tx.outputs.map fun output =>
      ((printed hex output.value).length, output.address.length) }

theorem SameContents.layout_eq {a b : Transaction} (h : a.SameContents b) :
    a.layout = b.layout := by
  simp only [layout, h.chainId, h.nonce, h.maxPriorityFeePerGas, h.maxFeePerGas, h.gasLimit,
    h.toAddress, h.value, h.data, h.inputs, h.outputs]

/-- The text of an input. -/
def inputText (hex : Bool) (input : TxInput) : Str :=
  input.prevTxHash ++ printedInt hex input.outputIndex

/-- The text of an output. -/
def outputText (hex : Bool) (output : TxOutput) : Str := printed hex output.value ++ output.address

theorem printed_injective {hex : Bool} {m n : UInt64} (h : printed hex m = printed hex n) :
    m = n := by
  cases hex with
  | false => exact UInt64.toNat_inj.1 (decimal_injective h)
  | true => exact UInt64.toNat_inj.1 (hexadecimal_injective h)

theorem printedInt_injective {hex : Bool} {i j : Int32} (h : printedInt hex i = printedInt hex j) :
    i = j := by
  cases hex with
  | false => exact decimalInt_injective h
  | true =>
      have hunsigned := UInt32.toNat_inj.1 (hexadecimal_injective h)
      exact Int32.toBitVec_inj.1 (congrArg UInt32.toBitVec hunsigned)

theorem inputs_eq_of_text {hex : Bool} {l l' : List TxInput}
    (hlayout : l.map (fun input => (input.prevTxHash.length,
        (printedInt hex input.outputIndex).length)) =
      l'.map fun input => (input.prevTxHash.length, (printedInt hex input.outputIndex).length))
    (h : l.flatMap (inputText hex) = l'.flatMap (inputText hex)) : l = l' := by
  have hlength := congrArg (List.map fun widths => widths.1 + widths.2) hlayout
  rw [List.map_map, List.map_map] at hlength
  have htexts : l.map (inputText hex) = l'.map (inputText hex) :=
    map_eq_of_flatMap_eq (by simpa [inputText, Function.comp_def] using hlength) h
  refine eq_of_map_eq ?_ htexts hlayout
  intro input input' htext hwidths
  obtain ⟨hhash, hindex⟩ := List.append_inj htext (Prod.mk.inj hwidths).1
  cases input
  cases input'
  exact congrArg₂ TxInput.mk hhash (printedInt_injective hindex)

theorem outputs_eq_of_text {hex : Bool} {l l' : List TxOutput}
    (hlayout : l.map (fun output => ((printed hex output.value).length, output.address.length)) =
      l'.map fun output => ((printed hex output.value).length, output.address.length))
    (h : l.flatMap (outputText hex) = l'.flatMap (outputText hex)) : l = l' := by
  have hlength := congrArg (List.map fun widths => widths.1 + widths.2) hlayout
  rw [List.map_map, List.map_map] at hlength
  have htexts : l.map (outputText hex) = l'.map (outputText hex) :=
    map_eq_of_flatMap_eq (by simpa [outputText, Function.comp_def] using hlength) h
  refine eq_of_map_eq ?_ htexts hlayout
  intro output output' htext hwidths
  obtain ⟨hvalue, haddress⟩ := List.append_inj htext (Prod.mk.inj hwidths).1
  cases output
  cases output'
  exact congrArg₂ TxOutput.mk (printed_injective hvalue) haddress

/-- **Transactions of one layout that print alike have the same contents.** -/
theorem sameContents_of_layout_eq {a b : Transaction} (hlayout : a.layout = b.layout)
    (h : a.hashedText = b.hashedText) : a.SameContents b := by
  simp only [layout, Layout.mk.injEq] at hlayout
  obtain ⟨hchainId, hnonce, hpriority, hfee, hgas, haddress, hvalue, hdata, hinputs, houtputs⟩ :=
    hlayout
  -- the data print in hexadecimal in both or in neither
  have hhex : a.data.isEmpty = b.data.isEmpty := by
    rw [Bool.eq_iff_iff, List.isEmpty_iff_length_eq_zero, List.isEmpty_iff_length_eq_zero, hdata]
  rw [← hhex] at hinputs houtputs
  have htext : ∀ tx : Transaction, tx.hashedText =
      decimal tx.chainId.toNat ++ (decimal tx.nonce.toNat ++
        (decimal tx.maxPriorityFeePerGas.toNat ++ (decimal tx.maxFeePerGas.toNat ++
          (decimal tx.gasLimit.toNat ++ (tx.toAddress ++ (decimal tx.value.toNat ++
            (toHex tx.data ++ (tx.inputs.flatMap (inputText (!tx.data.isEmpty)) ++
              tx.outputs.flatMap (outputText (!tx.data.isEmpty)))))))))) := by
    intro tx
    simp only [hashedText, List.append_assoc]
    rfl
  rw [htext, htext, ← hhex] at h
  obtain ⟨hchainIdText, h⟩ := List.append_inj h hchainId
  obtain ⟨hnonceText, h⟩ := List.append_inj h hnonce
  obtain ⟨hpriorityText, h⟩ := List.append_inj h hpriority
  obtain ⟨hfeeText, h⟩ := List.append_inj h hfee
  obtain ⟨hgasText, h⟩ := List.append_inj h hgas
  obtain ⟨haddressText, h⟩ := List.append_inj h haddress
  obtain ⟨hvalueText, h⟩ := List.append_inj h hvalue
  obtain ⟨hdataText, h⟩ := List.append_inj h (by rw [length_toHex, length_toHex, hdata])
  have hinputsLength : (a.inputs.flatMap (inputText (!a.data.isEmpty))).length =
      (b.inputs.flatMap (inputText (!a.data.isEmpty))).length := by
    have hlength :=
      congrArg (fun l => (l.map fun widths : ℕ × ℕ => widths.1 + widths.2).sum) hinputs
    simpa [List.length_flatMap, inputText, Function.comp_def] using hlength
  obtain ⟨hinputsText, houtputsText⟩ := List.append_inj h hinputsLength
  exact
    { chainId := UInt64.toNat_inj.1 (decimal_injective hchainIdText)
      nonce := UInt64.toNat_inj.1 (decimal_injective hnonceText)
      maxPriorityFeePerGas := UInt64.toNat_inj.1 (decimal_injective hpriorityText)
      maxFeePerGas := UInt64.toNat_inj.1 (decimal_injective hfeeText)
      gasLimit := UInt64.toNat_inj.1 (decimal_injective hgasText)
      toAddress := haddressText
      value := UInt64.toNat_inj.1 (decimal_injective hvalueText)
      data := toHex_injective hdataText
      inputs := inputs_eq_of_text hinputs hinputsText
      outputs := outputs_eq_of_text houtputs houtputsText }

/-- **Two transactions that print alike agree exactly when they have the same layout.** -/
theorem sameContents_iff_layout_eq {a b : Transaction} (h : a.hashedText = b.hashedText) :
    a.SameContents b ↔ a.layout = b.layout :=
  ⟨SameContents.layout_eq, fun hlayout => sameContents_of_layout_eq hlayout h⟩

/-! ### Transactions that print alike -/

/-- The digit that ends the chain number might begin the nonce. -/
def chainTwelve : Transaction :=
  { chainId := 12, nonce := 3, toAddress := str "addr", value := 500 }

def chainOne : Transaction :=
  { chainId := 1, nonce := 23, toAddress := str "addr", value := 500 }

theorem hashedText_chainOne : chainTwelve.hashedText = chainOne.hashedText := by decide +kernel

theorem sameContents_iff_layout_eq_chainOne :
    ¬ chainTwelve.SameContents chainOne ∧ chainTwelve.layout ≠ chainOne.layout := by
  have hlayout : chainTwelve.layout ≠ chainOne.layout := by decide +kernel
  exact ⟨fun h => hlayout ((sameContents_iff_layout_eq hashedText_chainOne).1 h), hlayout⟩

/-- **The hash does not commit to the transaction.** -/
theorem not_committed :
    ¬ ∀ a b : Transaction, a.hashedText = b.hashedText → a.SameContents b :=
  fun h => absurd (h chainTwelve chainOne hashedText_chainOne).chainId (by decide)

end Transaction

end Node
