/-
**The chain of the C++ node.**

`Node.Blockchain` is the state of `class Blockchain`: the configuration, the two databases, the
set of unspent outputs, the blocks in memory, the total supply and the base fee.  `addBlock` puts
a coinbase in front of the given transactions, validates the list, mines a block, writes it to the
block database, and only then applies it to the unspent outputs and the balances; if that fails it
rolls back.  What comes from outside the program is in `Node.Call`: three readings of the clock
and what the disk says.

Main definitions:

* `Node.Config`, `Node.Blockchain`, `Node.Call`;
* `Node.Blockchain.calculateReward`, `Node.Blockchain.blockTransactions`,
  `Node.Blockchain.validateTransactions`;
* `Node.Blockchain.applyBlockToState`, `Node.Blockchain.rollbackBlockFromState`;
* `Node.Blockchain.writtenBlock` — the block a call writes to the database, if it gets that far;
* `Node.Blockchain.addBlock`.

Main results:

* `Node.Blockchain.addBlock_of_rejected`, `Node.Blockchain.addBlock_of_failed`,
  `Node.Blockchain.addBlock_of_applied` — **the three things a call can do**;
* `Node.Blockchain.writtenBlock_spec`, `Node.Blockchain.Written.writtenBlock` — what is known of a
  block that was written, and that nothing else is needed for it.
-/

import MedorCoin.Cpp.Loop
import MedorCoin.Node.AccountDB
import MedorCoin.Node.ProofOfWork
import MedorCoin.Node.Transaction
import MedorCoin.Node.UtxoSet

set_option autoImplicit false

namespace Node

open Cpp

/-- `Blockchain::Config`, with its defaults; the paths of the databases are not part of it. -/
structure Config where
  ownerAddress : Str
  treasuryAddress : Str := str "medor_treasury"
  maxSupply : UInt64 := 50000000
  initialMedor : UInt32 := 4
  initialBaseFee : UInt64 := 1
  targetGasPerBlock : UInt64 := 1000000
  rewardSchedule : List (UInt64 × UInt64) :=
    [(60 * 24 * 60 * 60, 55), (UInt64.ofNat (2 ^ 64 - 1), 30)]

/-- The state of `class Blockchain`, over an implementation of the unspent outputs. -/
structure Blockchain (U : UtxoSet) where
  cfg : Config
  blockDB : Js.Map Str Str
  accountDB : AccountDB
  utxoSet : U.State
  chain : List Block
  totalSupply : UInt64
  baseFeePerGas : UInt64

/-- The members of the object before the constructor reads anything. -/
def Blockchain.initial (U : UtxoSet) (cfg : Config) (blockDB : Js.Map Str Str)
    (accountDB : AccountDB) : Blockchain U where
  cfg := cfg
  blockDB := blockDB
  accountDB := accountDB
  utxoSet := U.fresh
  chain := []
  totalSupply := 0
  baseFeePerGas := 1

/-- A call of `addBlock`: its arguments, the time when the reward is computed, when the coinbase
is validated and when the block is stamped, whether the block database takes the block, and the
outcomes of the writes to the account database. -/
structure Call where
  minerAddr : Str
  transactions : List Transaction := []
  rewardTime : UInt64
  validationTime : UInt64
  stampTime : UInt64
  blockWritten : Bool := true
  accountWrites : List Bool := []

/-! ### Fees -/

def networkFeeThreshold : UInt64 := 1000

def networkFeeFlat : UInt64 := 9

def networkFeePercent : UInt64 := 2

/-- `calculateNetworkFee(value)`. -/
def calculateNetworkFee (value : UInt64) : UInt64 :=
  if value ≤ networkFeeThreshold then networkFeeFlat else value * networkFeePercent / 100

/-- `hasDuplicateTxInBlock(txs)`: two transactions claim one hash, the empty one apart. -/
def hasDuplicateTxInBlock (txs : List Transaction) : Bool :=
  !decide ((txs.map Transaction.txHash).filter (· != [])).Nodup

/-- The key under which an input is remembered as spent in the block. -/
def outpointKey (input : TxInput) : Str := input.prevTxHash ++ 58 :: decimalInt input.outputIndex

/-- The coinbase of a block: nine tenths to the miner, the rest to the owner. -/
def coinbaseTx (reward : UInt64) (minerAddr ownerAddress : Str) : Transaction :=
  let minerValue := reward * 90 / 100
  Transaction.calculateHash
    { outputs := [⟨minerValue, minerAddr⟩, ⟨reward - minerValue, ownerAddress⟩] }

namespace Blockchain

variable {U : UtxoSet} (E : Secp256k1)

/-! ### The reward -/

/-- `calculateReward()` at a reading of the clock.  (The last entry of an empty schedule, which the
source reads when there is a block, is undefined there and zero here.) -/
def calculateReward (s : Blockchain U) (now : UInt64) : UInt64 :=
  match s.chain with
  | [] => match s.cfg.rewardSchedule with
      | [] => 0
      | (_, reward) :: _ => reward
  | genesis :: _ =>
      let elapsed := if now ≥ genesis.timestamp then now - genesis.timestamp else 0
      match s.cfg.rewardSchedule.find? fun entry => elapsed < entry.1 with
      | some (_, reward) => reward
      | none => (s.cfg.rewardSchedule.getLastD (0, 0)).2

/-- The reward, at most what is left of the supply. -/
def cappedReward (s : Blockchain U) (now : UInt64) : UInt64 :=
  min (s.calculateReward now) (s.cfg.maxSupply - s.totalSupply)

/-- The transactions of the block: the given ones, behind a coinbase if there is a reward. -/
def blockTransactions (s : Blockchain U) (c : Call) : List Transaction :=
  if s.cappedReward c.rewardTime > 0 then
    coinbaseTx (s.cappedReward c.rewardTime) c.minerAddr s.cfg.ownerAddress :: c.transactions
  else c.transactions

/-! ### Validation -/

local instance lawfulBEq_outpointKey : LawfulBEq Str := inferInstance

/-- The checks of one input: not spent in this block, unspent, and signed by its owner if the
transaction has a signature.  The state is what was spent in the block and the sum so far. -/
def checkInput (utxo : U.State) (tx : Transaction) (input : TxInput)
    (st : List Str × UInt64) : Bool × List Str × UInt64 :=
  if outpointKey input ∈ st.1 then (false, st)
  else
    match U.getUTXO utxo input.prevTxHash input.outputIndex with
    | none => (false, outpointKey input :: st.1, st.2)
    | some coin =>
        if tx.isSigned && !tx.signedBy E coin.address then (false, outpointKey input :: st.1, st.2)
        else (true, outpointKey input :: st.1, st.2 + coin.value)

/-- The checks of a transaction other than the first. -/
def checkTransaction (utxo : U.State) (tx : Transaction) (spent : List Str) : Bool × List Str :=
  if tx.txHash = [] || !tx.isValid then (false, spent)
  else
    let r := forEach (checkInput E utxo tx) tx.inputs (spent, 0)
    (r.1 && decide (wrapSum tx.outputValues ≤ r.2.2), r.2.1)

/-- `validateTransactions(txs, ..)` at a reading of the clock.  The first transaction is taken for
the coinbase: its outputs must not exceed the reward, and nothing else is checked of it. -/
def validateTransactions (s : Blockchain U) (now : UInt64) : List Transaction → Bool
  | [] => true
  | first :: rest =>
      !hasDuplicateTxInBlock (first :: rest) &&
        decide (wrapSum first.outputValues ≤ s.cappedReward now) &&
        (forEach (checkTransaction E s.utxoSet) rest []).1

/-! ### Application -/

/-- The accounts after an output was added: the recipient is credited, and pays the fee to the
treasury unless the output is of a coinbase.  Credits that fail are ignored. -/
def creditOutput (cfg : Config) (isCoinbase : Bool) (out : TxOutput) (db : AccountDB) :
    AccountDB :=
  let db := (db.addBalance out.address out.value).2
  if isCoinbase || cfg.treasuryAddress = [] then db
  else
    let fee := min (calculateNetworkFee out.value) out.value
    if fee > 0 then
      if (db.deductBalance out.address fee).1 then
        ((db.deductBalance out.address fee).2.addBalance cfg.treasuryAddress fee).2
      else (db.deductBalance out.address fee).2
    else db

/-- Spend one input. -/
def spendInput (height : UInt64) (input : TxInput) (st : U.State × AccountDB) :
    Bool × U.State × AccountDB :=
  let r := U.spendUTXO st.1 input.prevTxHash input.outputIndex height
  (r.1, r.2, st.2)

/-- Add one output and credit its recipient. -/
def addOutput (cfg : Config) (height : UInt64) (isCoinbase : Bool) (txHash : Str)
    (out : TxOutput × ℕ) (st : U.State × AccountDB) : Bool × U.State × AccountDB :=
  let r := U.addUTXO st.1 out.1 txHash (Int32.ofNat out.2) height isCoinbase
  (r.1, r.2, if r.1 then creditOutput cfg isCoinbase out.1 st.2 else st.2)

/-- Apply one transaction; the first of a block counts as its coinbase. -/
def applyTransaction (cfg : Config) (height : UInt64) (tx : Transaction × ℕ)
    (st : U.State × AccountDB) : Bool × U.State × AccountDB :=
  let r := forEach (spendInput height) tx.1.inputs st
  if r.1 then forEach (addOutput cfg height (tx.2 == 0) tx.1.txHash) tx.1.outputs.zipIdx r.2
  else r

/-- `applyBlockToState(block, height)`; it stops at the first failure. -/
def applyBlockToState (cfg : Config) (block : Block) (height : UInt64)
    (st : U.State × AccountDB) : Bool × U.State × AccountDB :=
  forEach (applyTransaction cfg height) block.transactions.zipIdx st

/-- Spend the outputs of a transaction, by the height that is not checked. -/
def rollbackTransaction (utxo : U.State) (tx : Transaction) : U.State :=
  (List.range tx.outputs.length).foldl
    (fun utxo i => (U.spendUTXO utxo tx.txHash (Int32.ofNat i) rollbackHeight).2) utxo

/-- `rollbackBlockFromState(block)`: spend the outputs of the block, the last transaction first. -/
def rollbackBlockFromState (block : Block) (utxo : U.State) : U.State :=
  block.transactions.reverse.foldl rollbackTransaction utxo

/-! ### Adding a block -/

/-- `BlockDB::isValidHash`. -/
def isValidHash (hash : Str) : Bool := isLowerHex 64 hash

/-- The block as it is given to the miner. -/
def candidateBlock (s : Blockchain U) (c : Call) : Block where
  previousHash := (s.chain.getLast?.map Block.hash).getD []
  data := if s.chain = [] then str "Genesis Block" else str "MedorCoin Block"
  difficulty := min s.cfg.initialMedor Block.maxDifficulty
  minerAddress := c.minerAddr
  timestamp := c.stampTime
  reward := s.cappedReward c.rewardTime
  baseFee := s.baseFeePerGas
  transactions := s.blockTransactions c

/-- The block a call writes to the block database, if it gets that far: the miner is named, the
transactions are valid, a nonce is found and the database takes the block. -/
def writtenBlock (s : Blockchain U) (c : Call) : Option Block :=
  if c.minerAddr = [] then none
  else if s.validateTransactions E c.validationTime (s.blockTransactions c) then
    match ProofOfWork.mine (s.candidateBlock c) with
    | none => none
    | some block => if isValidHash block.hash && c.blockWritten then some block else none
  else none

/-- `adjustBaseFee(gasUsed, gasLimit)`. -/
def adjustBaseFee (s : Blockchain U) (gasUsed gasLimit : UInt64) : Blockchain U :=
  if gasLimit = 0 then s
  else
    let delta := max 1 (s.baseFeePerGas / 8)
    let next :=
      if gasUsed * 2 > gasLimit then s.baseFeePerGas + delta
      else if s.baseFeePerGas > delta then s.baseFeePerGas - delta else 1
    { s with baseFeePerGas := max next 1 }

def keyTotalSupply : Str := str "__chain_total_supply__"

def keyBaseFee : Str := str "__chain_base_fee__"

/-- `persistState()`. -/
def persistState (s : Blockchain U) : Blockchain U :=
  let db := (s.accountDB.put keyTotalSupply (decimal s.totalSupply.toNat)).2
  { s with accountDB := (db.put keyBaseFee (decimal s.baseFeePerGas.toNat)).2 }

/-- The height of the next block. -/
def nextHeight (s : Blockchain U) : UInt64 := UInt64.ofNat s.chain.length

/-- The application of a block in a call. -/
def applied (s : Blockchain U) (c : Call) (block : Block) : Bool × U.State × AccountDB :=
  applyBlockToState s.cfg block s.nextHeight
    (s.utxoSet, { s.accountDB with outcomes := c.accountWrites })

/-- The state after a block was written and its application failed. -/
def rolledBack (s : Blockchain U) (c : Call) (block : Block) : Blockchain U :=
  { s with
    blockDB := s.blockDB.set block.hash block.serialize
    utxoSet := rollbackBlockFromState block (s.applied c block).2.1
    accountDB := (s.applied c block).2.2 }

/-- The state after a block was written and applied. -/
def committed (s : Blockchain U) (c : Call) (block : Block) : Blockchain U :=
  persistState (adjustBaseFee
    { s with
      blockDB := s.blockDB.set block.hash block.serialize
      utxoSet := (s.applied c block).2.1
      accountDB := (s.applied c block).2.2
      chain := s.chain ++ [block]
      totalSupply := s.totalSupply + s.cappedReward c.rewardTime }
    block.gasUsed s.cfg.targetGasPerBlock)

/-- `addBlock(minerAddr, transactions)`: whether it succeeded, and the state afterwards. -/
def addBlock (s : Blockchain U) (c : Call) : Bool × Blockchain U :=
  match s.writtenBlock E c with
  | none => (false, s)
  | some block =>
      if (s.applied c block).1 then (true, s.committed c block) else (false, s.rolledBack c block)

/-! ### What a call does -/

variable {E} {s : Blockchain U} {c : Call} {block : Block}

theorem addBlock_of_rejected (h : s.writtenBlock E c = none) : s.addBlock E c = (false, s) := by
  rw [addBlock, h]

theorem addBlock_of_failed (h : s.writtenBlock E c = some block)
    (happlied : (s.applied c block).1 = false) :
    s.addBlock E c = (false, s.rolledBack c block) := by
  simp only [addBlock, h, happlied, Bool.false_eq_true, if_false]

theorem addBlock_of_applied (h : s.writtenBlock E c = some block)
    (happlied : (s.applied c block).1 = true) :
    s.addBlock E c = (true, s.committed c block) := by
  simp only [addBlock, h, happlied, if_true]

theorem exists_of_addBlock (h : (s.addBlock E c).1 = true) :
    ∃ block, s.writtenBlock E c = some block ∧ (s.applied c block).1 = true ∧
      (s.addBlock E c).2 = s.committed c block := by
  cases hwritten : s.writtenBlock E c with
  | none =>
      rw [addBlock_of_rejected hwritten] at h
      exact Bool.noConfusion h
  | some block =>
      cases happlied : (s.applied c block).1 with
      | false =>
          rw [addBlock_of_failed hwritten happlied] at h
          exact Bool.noConfusion h
      | true => exact ⟨block, rfl, happlied, by rw [addBlock_of_applied hwritten happlied]⟩

theorem adjustBaseFee_eq (s : Blockchain U) (gasUsed gasLimit : UInt64) :
    s.adjustBaseFee gasUsed gasLimit =
      { s with baseFeePerGas := (s.adjustBaseFee gasUsed gasLimit).baseFeePerGas } := by
  unfold adjustBaseFee
  split <;> rfl

@[simp] theorem committed_cfg (s : Blockchain U) (c : Call) (block : Block) :
    (s.committed c block).cfg = s.cfg := by
  rw [committed, adjustBaseFee_eq]
  rfl

@[simp] theorem committed_blockDB (s : Blockchain U) (c : Call) (block : Block) :
    (s.committed c block).blockDB = s.blockDB.set block.hash block.serialize := by
  rw [committed, adjustBaseFee_eq]
  rfl

@[simp] theorem committed_utxoSet (s : Blockchain U) (c : Call) (block : Block) :
    (s.committed c block).utxoSet = (s.applied c block).2.1 := by
  rw [committed, adjustBaseFee_eq]
  rfl

@[simp] theorem committed_chain (s : Blockchain U) (c : Call) (block : Block) :
    (s.committed c block).chain = s.chain ++ [block] := by
  rw [committed, adjustBaseFee_eq]
  rfl

@[simp] theorem committed_totalSupply (s : Blockchain U) (c : Call) (block : Block) :
    (s.committed c block).totalSupply = s.totalSupply + s.cappedReward c.rewardTime := by
  rw [committed, adjustBaseFee_eq]
  rfl

/-- What is known of a block that was written. -/
structure Written (E : Secp256k1) (s : Blockchain U) (c : Call) (block : Block) : Prop where
  miner : c.minerAddr ≠ []
  valid : s.validateTransactions E c.validationTime (s.blockTransactions c) = true
  mined : ProofOfWork.mine (s.candidateBlock c) = some block
  database : c.blockWritten = true

theorem writtenBlock_spec (h : s.writtenBlock E c = some block) : Written E s c block := by
  unfold writtenBlock at h
  split at h
  · exact absurd h (by simp)
  · next hminer =>
      split at h
      · next hvalid =>
          split at h
          · exact absurd h (by simp)
          · next mined hmine =>
              split at h
              · next hwritten =>
                  cases h
                  exact ⟨hminer, hvalid, hmine, (Bool.and_eq_true _ _ ▸ hwritten).2⟩
              · exact absurd h (by simp)
      · exact absurd h (by simp)

theorem Written.writtenBlock (h : Written E s c block) : s.writtenBlock E c = some block := by
  obtain ⟨nonce, hblock, -⟩ := ProofOfWork.mine_spec h.mined
  have hhash : isValidHash block.hash = true := by
    rw [hblock]
    exact ProofOfWork.isLowerHex_withNonce _ _
  simp only [Blockchain.writtenBlock, if_neg h.miner, h.valid, if_true, h.mined, hhash, h.database,
    Bool.and_self]

theorem writtenBlock_of_difficulty_zero (hminer : c.minerAddr ≠ [])
    (hvalid : s.validateTransactions E c.validationTime (s.blockTransactions c) = true)
    (hdifficulty : s.cfg.initialMedor = 0) (hdatabase : c.blockWritten = true) :
    s.writtenBlock E c = some (ProofOfWork.withNonce (s.candidateBlock c) 0) := by
  have hcandidate : (s.candidateBlock c).difficulty = 0 := by
    change min s.cfg.initialMedor Block.maxDifficulty = 0
    rw [hdifficulty]
    rfl
  exact Written.writtenBlock
    ⟨hminer, hvalid, ProofOfWork.mine_of_difficulty_zero hcandidate, hdatabase⟩

theorem Written.eq_withNonce (h : Written E s c block) :
    ∃ nonce, block = ProofOfWork.withNonce (s.candidateBlock c) nonce := by
  obtain ⟨nonce, hblock, -⟩ := ProofOfWork.mine_spec h.mined
  exact ⟨nonce, hblock⟩

theorem Written.transactions (h : Written E s c block) :
    block.transactions = s.blockTransactions c := by
  obtain ⟨nonce, rfl⟩ := h.eq_withNonce
  rfl

theorem blockTransactions_of_zero (h : s.cappedReward c.rewardTime = 0) :
    s.blockTransactions c = c.transactions := by
  rw [blockTransactions, h, if_neg (by decide)]

theorem blockTransactions_of_pos (h : 0 < s.cappedReward c.rewardTime) :
    s.blockTransactions c =
      coinbaseTx (s.cappedReward c.rewardTime) c.minerAddr s.cfg.ownerAddress ::
        c.transactions := if_pos h

end Blockchain

end Node
