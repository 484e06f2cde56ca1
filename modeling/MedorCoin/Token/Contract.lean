/-
**The token contract.**

A transaction calls one of the functions below.  It carries who sends it and in which block, and
for the functions that call the WBTC token, what this token answers: a transfer comes back with a
flag and some data, a balance with a word, unless it fails.  The answers may be any, and while it
answers the token does not call back.

`keccak256` is a parameter, and so is the address of the contract.

Main definitions:

* `MedorToken.Storage`, `MedorToken.Event`, `MedorToken.Message` — the storage with the events
  emitted so far, and a message;
* `MedorToken.transfer`, `MedorToken.transferFrom`, `MedorToken.swapWBTCForMedor`,
  `MedorToken.commitSolution`, `MedorToken.claimMiningReward`, … — the functions;
* `MedorToken.construct` — the constructor;
* `MedorToken.Tx`, `MedorToken.exec` — a transaction.
-/

import MedorCoin.Solidity.Call

set_option autoImplicit false

namespace MedorToken

open Solidity Solidity.Call

/-! ### Storage -/

inductive Event
  | transfer (source target : Address) (value : Word)
  | approval (owner spender : Address) (value : Word)
  | ownershipTransferred (previousOwner newOwner : Address)
  | tokenSwapped (buyer : Address) (wbtcSpent medorReceived : Word)
  | swapStatusChanged (isActive : Bool)
  | swapRateUpdated (oldRate newRate : Word)
  | difficultyChanged (oldTarget newTarget : Word)
  | rewardClaimed (miner : Address) (solutionHash amount : Word)

/-- The variables of the contract and its bases, and the events emitted so far. -/
structure Storage where
  totalSupply : Word
  balances : Address → Word
  allowances : Address → Address → Word
  status : Word
  owner : Address
  miningTarget : Word
  usedSolutions : Word → Bool
  activeCommitment : Address → Word
  commitmentBlock : Address → Word
  wbtcTokenAddress : Address
  tokensPerWBTC : Word
  isSwapActive : Bool
  events : List Event

/-- The sender of a transaction and the number of its block. -/
structure Message where
  sender : Address
  blockNumber : Word

abbrev Fn := Call Storage

def emit (e : Event) : Fn Unit := modify fun s => { s with events := s.events ++ [e] }

def notEntered : Word := 1
def entered : Word := 2
def maxDifficultyTarget : Word :=
  0x0000ffffffffffffffffffffffffffffffffffffffffffffffffffffffffffff
def minDifficultyTarget : Word := 0xffff
def miningReward : Word := 50 * 10 ^ 18

/-! ### ERC-20 -/

/-- The internal `_transfer`. -/
def moveTokens (source target : Address) (amount : Word) : Fn Unit := do
  require (source ≠ 0 ∧ target ≠ 0) "ERC20: zero address"
  let s ← storage
  require (amount ≤ s.balances source) "ERC20: transfer exceeds balance"
  -- the unchecked block: the balance of `target` is read after that of `source` has been written
  let debited ← uncheckedSub (s.balances source) amount
  modify fun s => { s with balances := Function.update s.balances source debited }
  let s ← storage
  let credited ← uncheckedAdd (s.balances target) amount
  modify fun s => { s with balances := Function.update s.balances target credited }
  emit (.transfer source target amount)

/-- The internal `_mint`. -/
def mint (account : Address) (amount : Word) : Fn Unit := do
  require (account ≠ 0) "ERC20: mint to zero address"
  let s ← storage
  let supply ← checkedAdd s.totalSupply amount
  modify fun s => { s with totalSupply := supply }
  let s ← storage
  let credited ← checkedAdd (s.balances account) amount
  modify fun s => { s with balances := Function.update s.balances account credited }
  emit (.transfer 0 account amount)

def transfer (msg : Message) (target : Address) (amount : Word) : Fn Unit :=
  moveTokens msg.sender target amount

/-- Set an allowance. -/
def setAllowance (owner spender : Address) (amount : Word) : Fn Unit :=
  modify fun s =>
    { s with
      allowances := Function.update s.allowances owner
        (Function.update (s.allowances owner) spender amount) }

def approve (msg : Message) (spender : Address) (amount : Word) : Fn Unit := do
  setAllowance msg.sender spender amount
  emit (.approval msg.sender spender amount)

def transferFrom (msg : Message) (source target : Address) (amount : Word) : Fn Unit := do
  let s ← storage
  require (amount ≤ s.allowances source msg.sender) "ERC20: insufficient allowance"
  let rest ← uncheckedSub (s.allowances source msg.sender) amount
  setAllowance source msg.sender rest
  emit (.approval source msg.sender rest)
  moveTokens source target amount

/-! ### Modifiers -/

def nonReentrant (body : Fn Unit) : Fn Unit := do
  let s ← storage
  require (s.status ≠ entered) "ReentrancyGuard: reentrant call"
  modify fun s => { s with status := entered }
  body
  modify fun s => { s with status := notEntered }

def onlyOwner (msg : Message) (body : Fn Unit) : Fn Unit := do
  let s ← storage
  require (msg.sender = s.owner) "Ownable: caller is not the owner"
  body

/-! ### The swap -/

/-- The check of a reply in `_safeTransfer` and `_safeTransferFrom`. -/
def checkReply (reply : Reply) (reason : String) : Fn Unit :=
  if reply.success = false then revert reason
  else if reply.returnData.length = 0 then pure ()
  else if reply.returnData.length = 32 then do
    let ok ← decodeBool reply.returnData
    require (ok = true) reason
  else revert reason

def safeTransfer (reply : Reply) : Fn Unit := checkReply reply "ERC20: transfer failed"

def safeTransferFrom (reply : Reply) : Fn Unit := checkReply reply "ERC20: transferFrom failed"

def toggleSwap (msg : Message) (status : Bool) : Fn Unit := onlyOwner msg do
  modify fun s => { s with isSwapActive := status }
  emit (.swapStatusChanged status)

def updateSwapRate (msg : Message) (newRate : Word) : Fn Unit := onlyOwner msg do
  require (0 < newRate) "Rate must be greater than zero"
  let s ← storage
  modify fun s => { s with tokensPerWBTC := newRate }
  emit (.swapRateUpdated s.tokensPerWBTC newRate)

section Self

-- The address of the contract.
variable (self : Address)

def swapWBTCForMedor (msg : Message) (wbtcAmount : Word) (reply : Reply) : Fn Unit :=
  nonReentrant do
    let s ← storage
    require (s.isSwapActive = true) "Pre-launch swap is currently closed"
    require (0 < wbtcAmount) "Amount must be greater than zero"
    let paid ← checkedMul wbtcAmount s.tokensPerWBTC
    let scaled ← checkedMul paid (10 ^ 18)
    let medorAmount := scaled / 10 ^ 8
    require (medorAmount ≤ s.balances self) "Insufficient MEDOR in swap pool"
    safeTransferFrom reply
    moveTokens self msg.sender medorAmount
    emit (.tokenSwapped msg.sender wbtcAmount medorAmount)

/-- `balance` is the answer to `balanceOf`, if there is one. -/
def withdrawCollectedWBTC (msg : Message) (recipient : Address) (balance : Option Word)
    (reply : Reply) : Fn Unit := onlyOwner msg do
  require (recipient ≠ 0) "Invalid recipient address"
  match balance with
  | none => revert ""
  | some totalWBTC =>
      require (0 < totalWBTC) "No WBTC available to withdraw"
      safeTransfer reply

/-! ### Mining -/

def commitSolution (msg : Message) (commitmentHash : Word) : Fn Unit := do
  let s ← storage
  let commitBlock := s.commitmentBlock msg.sender
  -- the second operand of `||` is evaluated only if the first one is false
  if s.activeCommitment msg.sender ≠ 0 then do
    let last ← checkedAdd commitBlock 256
    require (last < msg.blockNumber) "Existing active commitment pending confirmation"
  else pure ()
  modify fun s =>
    { s with
      activeCommitment := Function.update s.activeCommitment msg.sender commitmentHash
      commitmentBlock := Function.update s.commitmentBlock msg.sender msg.blockNumber }

-- The hash function.
variable (keccak256 : List UInt8 → Word)

/-- `keccak256(abi.encodePacked(msg.sender, nonce))` -/
def solutionHash (miner : Address) (nonce : BitVec 64) : Word :=
  keccak256 (Cpp.writeBE 20 miner.toNat ++ Cpp.writeBE 8 nonce.toNat)

/-- `keccak256(abi.encodePacked(solutionHash))` -/
def expectedCommitment (miner : Address) (nonce : BitVec 64) : Word :=
  keccak256 (Cpp.writeBE 32 (solutionHash keccak256 miner nonce).toNat)

def claimMiningReward (msg : Message) (nonce : BitVec 64) : Fn Unit := nonReentrant do
  let solution := solutionHash keccak256 msg.sender nonce
  let s ← storage
  let commitBlock := s.commitmentBlock msg.sender
  require (s.activeCommitment msg.sender = expectedCommitment keccak256 msg.sender nonce)
    "Invalid or missing commitment"
  require (commitBlock < msg.blockNumber) "Must wait at least 1 block confirmation"
  let last ← checkedAdd commitBlock 256
  require (msg.blockNumber ≤ last) "Commitment expired. Must be claimed within 256 blocks"
  require (s.usedSolutions solution = false) "Solution already exploited"
  require (solution < s.miningTarget) "Hash does not meet target"
  modify fun s =>
    { s with
      usedSolutions := Function.update s.usedSolutions solution true
      activeCommitment := Function.update s.activeCommitment msg.sender 0
      commitmentBlock := Function.update s.commitmentBlock msg.sender 0 }
  let s ← storage
  require (miningReward ≤ s.balances self) "Mining pool exhausted"
  moveTokens self msg.sender miningReward
  emit (.rewardClaimed msg.sender solution miningReward)

def adjustDifficulty (msg : Message) (newTarget : Word) : Fn Unit := onlyOwner msg do
  require (minDifficultyTarget ≤ newTarget ∧ newTarget ≤ maxDifficultyTarget)
    "Target out of safe bounds"
  let s ← storage
  modify fun s => { s with miningTarget := newTarget }
  emit (.difficultyChanged s.miningTarget newTarget)

/-! ### Transactions -/

/-- A function and its arguments, with the answers of the WBTC token where it is called. -/
inductive Method
  | transfer (target : Address) (amount : Word)
  | approve (spender : Address) (amount : Word)
  | transferFrom (source target : Address) (amount : Word)
  | toggleSwap (status : Bool)
  | updateSwapRate (newRate : Word)
  | swapWBTCForMedor (wbtcAmount : Word) (reply : Reply)
  | withdrawCollectedWBTC (recipient : Address) (balance : Option Word) (reply : Reply)
  | commitSolution (commitmentHash : Word)
  | claimMiningReward (nonce : BitVec 64)
  | adjustDifficulty (newTarget : Word)

structure Tx where
  msg : Message
  method : Method

/-- A transaction. -/
def exec (tx : Tx) : Fn Unit :=
  match tx.method with
  | .transfer target amount => transfer tx.msg target amount
  | .approve spender amount => approve tx.msg spender amount
  | .transferFrom source target amount => transferFrom tx.msg source target amount
  | .toggleSwap status => toggleSwap tx.msg status
  | .updateSwapRate newRate => updateSwapRate tx.msg newRate
  | .swapWBTCForMedor wbtcAmount reply => swapWBTCForMedor self tx.msg wbtcAmount reply
  | .withdrawCollectedWBTC recipient balance reply =>
      withdrawCollectedWBTC tx.msg recipient balance reply
  | .commitSolution commitmentHash => commitSolution tx.msg commitmentHash
  | .claimMiningReward nonce => claimMiningReward self keccak256 tx.msg nonce
  | .adjustDifficulty newTarget => adjustDifficulty tx.msg newTarget

/-! ### Deployment -/

/-- The storage before the constructor. -/
def fresh : Storage where
  totalSupply := 0
  balances _ := 0
  allowances _ _ := 0
  status := notEntered
  owner := 0
  miningTarget := 0x00000000ffffffffffffffffffffffffffffffffffffffffffffffffffffffff
  usedSolutions _ := false
  activeCommitment _ := 0
  commitmentBlock _ := 0
  wbtcTokenAddress := 0
  tokensPerWBTC := 0
  isSwapActive := false
  events := []

def construct (initialReceiver wbtcAddress : Address) (rate : Word) : Fn Unit := do
  require (initialReceiver ≠ 0) "Ownable: zero owner"
  modify fun s => { s with owner := initialReceiver }
  emit (.ownershipTransferred 0 initialReceiver)
  require (wbtcAddress ≠ 0) "Invalid WBTC address"
  require (0 < rate) "Initial rate must be positive"
  mint initialReceiver (20000000 * 10 ^ 18)
  mint self (30000000 * 10 ^ 18)
  modify fun s =>
    { s with wbtcTokenAddress := wbtcAddress, tokensPerWBTC := rate, isSwapActive := false }

end Self

end MedorToken
