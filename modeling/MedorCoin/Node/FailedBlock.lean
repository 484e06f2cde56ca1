/-
**Blocks that fail.**

A call that does not add a block is to leave no trace.  The node writes the block to the database
before it applies it; when the application fails it spends the outputs of the block and restores
nothing else: not the outputs that were spent or overwritten, not the balances, not the database.

Main definition:

* `Node.Blockchain.Unchanged` — nothing that can be observed differs.

Main results:

* `Node.Blockchain.failed_block` — **a failed call leaves no trace if it fails before the block is
  written**, and only then, unless that very block had been written before;
* `Node.Blockchain.failed_block_genesis` — the second block of a miner takes the first one's outputs
  with it.
-/

import MedorCoin.Node.Application
import MedorCoin.Node.Inflation

set_option autoImplicit false

namespace Node

open Cpp

namespace Blockchain

variable {U : UtxoSet} {E : Secp256k1} {s : Blockchain U} {c : Call}

/-- **Nothing that can be observed differs**: the blocks in memory, the unspent outputs, the
balances, the supply, the base fee, and the blocks in the database. -/
structure Unchanged (s s' : Blockchain U) : Prop where
  chain : s'.chain = s.chain
  coins : U.coins s'.utxoSet = U.coins s.utxoSet
  balances : ∀ addr, s'.accountDB.getBalance addr = s.accountDB.getBalance addr
  totalSupply : s'.totalSupply = s.totalSupply
  baseFee : s'.baseFeePerGas = s.baseFeePerGas
  blocks : ∀ hash, s'.blockDB.get? hash = s.blockDB.get? hash

theorem Unchanged.refl (s : Blockchain U) : Unchanged s s :=
  ⟨rfl, rfl, fun _ => rfl, rfl, rfl, fun _ => rfl⟩

/-- A block that had been written before, none of whose outputs is unspent: what a failed call
leaves when it is repeated within the same second. -/
def Repeated (s : Blockchain U) (block : Block) : Prop :=
  s.blockDB.get? block.hash = some block.serialize ∧ ∀ o ∈ block.outpoints, o ∉ U.coins s.utxoSet

theorem rolledBack_spec (s : Blockchain U) (c : Call) (block : Block) :
    (s.rolledBack c block).blockDB.get? block.hash = some block.serialize ∧
      ∀ o ∈ block.outpoints, o ∉ U.coins (s.rolledBack c block).utxoSet := by
  constructor
  · exact Js.Map.get?_set_self _ _ _
  · intro o ho hmem
    obtain ⟨coin, hlookup⟩ := Finmap.mem_iff.1 hmem
    rw [rolledBack, lookup_rollback, if_pos ho] at hlookup
    exact absurd hlookup (by simp)

/-- **A failed call leaves no trace if it fails before the block is written**; if it fails later,
it leaves none only if that very block had been written before and none of its outputs was there. -/
theorem failed_block (h : (s.addBlock E c).1 = false) :
    (s.writtenBlock E c = none → Unchanged s (s.addBlock E c).2) ∧
      (Unchanged s (s.addBlock E c).2 →
        s.writtenBlock E c = none ∨
          ∃ block, s.writtenBlock E c = some block ∧ Repeated s block) := by
  constructor
  · intro hnone
    rw [addBlock_of_rejected hnone]
    exact Unchanged.refl s
  · intro hunchanged
    cases hwritten : s.writtenBlock E c with
    | none => exact Or.inl rfl
    | some block =>
        right
        cases happlied : (s.applied c block).1 with
        | true =>
            rw [addBlock_of_applied hwritten happlied] at h
            exact Bool.noConfusion h
        | false =>
            rw [addBlock_of_failed hwritten happlied] at hunchanged
            obtain ⟨hstored, hgone⟩ := rolledBack_spec s c block
            refine ⟨block, rfl, ?_, ?_⟩
            · rw [← hunchanged.blocks]
              exact hstored
            · intro o ho
              rw [← hunchanged.coins]
              exact hgone o ho

/-! ### Two blocks of one miner -/

def sampleEasyConfig : Config := { ownerAddress := str "owner", initialMedor := 0 }

def sampleEasy : Blockchain UtxoSet.ofMap :=
  Blockchain.initial UtxoSet.ofMap sampleEasyConfig Js.Map.empty {}

def sampleOwnerCall (time : UInt64) : Call where
  minerAddr := str "owner"
  rewardTime := time
  validationTime := time
  stampTime := time

theorem validateTransactions_empty (hpos : 0 < s.cappedReward c.rewardTime)
    (hempty : c.transactions = [])
    (hle : s.cappedReward c.rewardTime ≤ s.cappedReward c.validationTime) :
    s.validateTransactions E c.validationTime (s.blockTransactions c) = true := by
  rw [blockTransactions_of_pos hpos, hempty, validateTransactions_cons, coinbaseTx_outputTotal]
  refine ⟨hasDuplicateTxInBlock_of_nodup (List.nodup_singleton _), ?_, by simp, List.nodup_nil⟩
  rw [Nat.mod_eq_of_lt (UInt64.toNat_lt _)]
  exact UInt64.le_iff_toNat_le.1 hle

def sampleGenesisBlock : Block :=
  ProofOfWork.withNonce (sampleEasy.candidateBlock (sampleOwnerCall 1000)) 0

def sampleStarted : Blockchain UtxoSet.ofMap :=
  sampleEasy.committed (sampleOwnerCall 1000) sampleGenesisBlock

def sampleSecondBlock : Block :=
  ProofOfWork.withNonce (sampleStarted.candidateBlock (sampleOwnerCall 1001)) 0

theorem sampleGenesisBlock_transactions :
    sampleGenesisBlock.transactions = [coinbaseTx 55 (str "owner") (str "owner")] := by
  have hpos : 0 < sampleEasy.cappedReward (sampleOwnerCall 1000).rewardTime := by decide
  exact (blockTransactions_of_pos hpos).trans rfl

theorem sampleSecondBlock_transactions :
    sampleSecondBlock.transactions = [coinbaseTx 55 (str "owner") (str "owner")] := by
  have hpos : 0 < sampleStarted.cappedReward (sampleOwnerCall 1001).rewardTime := by decide
  exact (blockTransactions_of_pos hpos).trans rfl

theorem sampleSecondBlock_outpoints :
    sampleSecondBlock.outpoints = sampleGenesisBlock.outpoints := by
  rw [Block.outpoints, Block.outpoints, sampleSecondBlock_transactions,
    sampleGenesisBlock_transactions]

theorem sampleGenesisBlock_applied :
    (sampleEasy.applied (sampleOwnerCall 1000) sampleGenesisBlock).1 = true :=
  (applied_coinbase sampleGenesisBlock_transactions (by decide) (by decide) _).1.2
    fun _ _ => not_mem_coins_fresh

theorem sampleEasy_writtenBlock :
    sampleEasy.writtenBlock sampleLibrary (sampleOwnerCall 1000) = some sampleGenesisBlock := by
  have hvalid := validateTransactions_empty (E := sampleLibrary) (s := sampleEasy)
    (c := sampleOwnerCall 1000) (by decide) rfl (by decide)
  exact writtenBlock_of_difficulty_zero (by decide) hvalid rfl rfl

theorem sampleEasy_addBlock :
    sampleEasy.addBlock sampleLibrary (sampleOwnerCall 1000) = (true, sampleStarted) :=
  addBlock_of_applied sampleEasy_writtenBlock sampleGenesisBlock_applied

theorem sampleStarted_coins {o : Outpoint} (ho : o ∈ sampleGenesisBlock.outpoints) :
    o ∈ UtxoSet.ofMap.coins sampleStarted.utxoSet := by
  rw [sampleStarted, committed_utxoSet]
  exact (applied_coinbase sampleGenesisBlock_transactions (by decide) (by decide) _).2
    sampleGenesisBlock_applied o ho

theorem sampleGenesisBlock_outpoint :
    ((coinbaseTx 55 (str "owner") (str "owner")).txHash, 0) ∈ sampleGenesisBlock.outpoints := by
  rw [Block.outpoints, sampleGenesisBlock_transactions, List.flatMap_singleton,
    coinbaseTx_outpoints]
  exact List.mem_cons_self

theorem sampleStarted_writtenBlock :
    sampleStarted.writtenBlock sampleLibrary (sampleOwnerCall 1001) = some sampleSecondBlock := by
  have hvalid := validateTransactions_empty (E := sampleLibrary) (s := sampleStarted)
    (c := sampleOwnerCall 1001) (by decide) rfl (by decide)
  exact writtenBlock_of_difficulty_zero (by decide) hvalid rfl rfl

theorem sampleStarted_addBlock :
    sampleStarted.addBlock sampleLibrary (sampleOwnerCall 1001) =
      (false, sampleStarted.rolledBack (sampleOwnerCall 1001) sampleSecondBlock) := by
  refine addBlock_of_failed sampleStarted_writtenBlock ?_
  rw [← Bool.not_eq_true, (applied_coinbase sampleSecondBlock_transactions (by decide)
    (by decide) _).1]
  intro habsent
  rw [sampleSecondBlock_outpoints] at habsent
  exact habsent _ sampleGenesisBlock_outpoint (sampleStarted_coins sampleGenesisBlock_outpoint)

theorem failed_block_unnamed :
    (sampleEasy.addBlock sampleLibrary { sampleOwnerCall 1000 with minerAddr := [] }).1 = false ∧
      Unchanged sampleEasy
        (sampleEasy.addBlock sampleLibrary { sampleOwnerCall 1000 with minerAddr := [] }).2 := by
  have hnone : sampleEasy.writtenBlock sampleLibrary { sampleOwnerCall 1000 with minerAddr := [] } =
      none := if_pos rfl
  have hfalse : (sampleEasy.addBlock sampleLibrary
      { sampleOwnerCall 1000 with minerAddr := [] }).1 = false := by
    rw [addBlock_of_rejected hnone]
  exact ⟨hfalse, (failed_block hfalse).1 hnone⟩

/-- **The second block of a miner takes the outputs of the first one with it**: the call fails,
and the unspent outputs are not what they were. -/
theorem failed_block_genesis :
    sampleEasy.addBlock sampleLibrary (sampleOwnerCall 1000) = (true, sampleStarted) ∧
      (sampleStarted.addBlock sampleLibrary (sampleOwnerCall 1001)).1 = false ∧
      ¬ Unchanged sampleStarted
        (sampleStarted.addBlock sampleLibrary (sampleOwnerCall 1001)).2 := by
  rw [sampleStarted_addBlock]
  refine ⟨sampleEasy_addBlock, rfl, fun hunchanged => ?_⟩
  have hgone := (rolledBack_spec sampleStarted (sampleOwnerCall 1001) sampleSecondBlock).2
  rw [sampleSecondBlock_outpoints, hunchanged.coins] at hgone
  exact hgone _ sampleGenesisBlock_outpoint (sampleStarted_coins sampleGenesisBlock_outpoint)

end Blockchain

end Node
