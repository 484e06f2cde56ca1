/-
**The professional locker.**

The locker works in a world of other contracts.  Some of them are tokens that behave as the ERC-20
standard says; a call of one of these is answered at once.  All other contracts may be anything: a
price feed, a collection of NFTs, the treasury, a contract that owns the locker, or a token with a
behaviour of its own.  While one of them is called it may do whatever it likes, also call the locker
again, before it answers.  So a function of the locker runs until it calls such a contract, and goes
on with the answer; `Locker.Pending` says where it waits.

What unknown contracts answer to a question that changes nothing (a balance, a price) is part of the
call that asks.  It may be any answer.

Main definitions:

* `Locker.Lock`, `Locker.Storage`, `Locker.World` — the storage, and the world around it;
* `Locker.getRequiredPayment`, `Locker.executeLocks`, `Locker.createLock`,
  `Locker.createBatchLocks`, `Locker.withdraw`, `Locker.rescueExcessTokens` — the functions;
* `Locker.Pending`, `Locker.resume` — how they go on after an answer.
-/

import MedorCoin.Solidity.Erc20

set_option autoImplicit false

namespace Locker

open Solidity Solidity.Call

/-! ### Storage -/

structure Lock where
  owner : Address
  token : Address
  amountOrId : Word
  unlockTime : Word
  isNFT : Bool
  active : Bool

inductive Event
  | ownershipTransferred (previousOwner newOwner : Address)
  | tokenLocked (id : Word) (owner token : Address) (amount unlockTime : Word)
  | withdrawn (id : Word) (owner : Address) (amount : Word)
  | emergencyRescued (token : Address) (amount : Word)

/-- The variables of the contract, and the events emitted so far. -/
structure Storage where
  status : Word
  owner : Address
  locks : Word → Lock
  userLockIds : Address → List Word
  totalLockedPerToken : Address → Word
  nextLockId : Word
  treasury : Address
  events : List Event

/-- What is paid for a lock: to whom, and when. -/
structure Payout where
  id : Word
  receiver : Address
  amount : Word
  time : Word

/-- The locker and the tokens of the standard, and what has been paid out so far. -/
structure World where
  locker : Storage
  tokens : Address → Erc20
  paid : List Payout

/-- The sender of a call, the coins that come with it, and the time of its block. -/
structure Message where
  sender : Address
  value : Word
  timestamp : Word

abbrev Fn := Call World

def write (f : Storage → Storage) : Fn Unit := modify fun w => { w with locker := f w.locker }

def emit (e : Event) : Fn Unit := write fun s => { s with events := s.events ++ [e] }

/-- Where a function waits for a contract that may call back. -/
inductive Pending
  /-- `safeTransferFrom` of an NFT in a lock, with the locks that are still to come -/
  | lockingNft (msg : Message) (token : Address) (tokenId unlockTime : Word)
  /-- `transferFrom` of a token with a behaviour of its own in a lock -/
  | lockingToken (msg : Message) (token : Address) (unlockTime balBefore : Word)
      (balAfter : Option Word)
  /-- the payment of the treasury -/
  | payingTreasury
  /-- `safeTransferFrom` of an NFT in a withdrawal -/
  | withdrawingNft (id : Word) (msg : Message) (amount : Word)
  /-- `transfer` of a token with a behaviour of its own in a withdrawal -/
  | withdrawingToken (id : Word) (msg : Message) (amount : Word)
  /-- the payment of native coins in a rescue -/
  | rescuingCoins (amount : Word)
  /-- `transfer` of a token with a behaviour of its own in a rescue -/
  | rescuingToken (token : Address) (amount : Word)

/-! ### The fee -/

/-- The answers of the price feed: the price as the word of a signed number. -/
structure Feed where
  price : Word
  updatedAt : Word
  decimals : BitVec 8

def usdFee : Word := 45

def getRequiredPayment (msg : Message) (feed : Option Feed) : Fn Word :=
  match feed with
  | none => revert ""
  | some feed => do
      require (0 < feed.price.toInt) "Oracle: INVALID_PRICE"
      let age ← checkedSub msg.timestamp feed.updatedAt
      require (age < 86400) "Oracle: STALE_PRICE_FEED"
      require (feed.decimals ≤ 18) overflow
      let adjustedPrice ← checkedMul feed.price (10 ^ (18 - feed.decimals.toNat))
      let scaled ← checkedMul usdFee (10 ^ 18)
      let numerator ← checkedMul scaled (10 ^ 18)
      pure (numerator / adjustedPrice)

/-! ### Calls of tokens -/

/-- The check of a reply in the library `SafeERC20`. -/
def checkReply (reply : Reply) (reason : String) : Fn Unit :=
  if reply.success = false then revert reason
  else if reply.returnData.length = 0 then pure ()
  else if 32 ≤ reply.returnData.length then do
    let ok ← decodeBool reply.returnData
    require (ok = true) reason
  else revert reason

/-- A call of a token of the standard that changes it.  The token may refuse, and then it says so in
its reply; a reply of success means that the operation has been done. -/
def callToken (token : Address) (op : Erc20.Op) (reply : Reply) (reason : String) : Fn Unit := do
  checkReply reply reason
  let w ← storage
  match (w.tokens token).applyOp? op with
  | none => revert reason
  | some t => modify fun w => { w with tokens := Function.update w.tokens token t }

section Environment

-- The address of the locker, and which contracts are tokens of the standard.
variable (contract : Address) (standard : Address → Bool)

/-! ### Locking -/

/-- One asset to be locked, with what is answered to the questions on the way: the balances before
and after of a token with a behaviour of its own, and the reply of one of the standard. -/
structure Request where
  token : Address
  amountOrId : Word
  unlockTime : Word
  isNFT : Bool
  balBefore : Option Word
  balAfter : Option Word
  reply : Reply

/-- A call that asks for the answer to a question. -/
def answer (a : Option Word) : Fn Word :=
  match a with
  | none => revert ""
  | some v => pure v

/-- The end of `_executeLock`: the new lock. -/
def recordLock (msg : Message) (token : Address) (amountOrId unlockTime : Word) (isNFT : Bool) :
    Fn Unit := do
  let w ← storage
  let id := w.locker.nextLockId
  write fun s =>
    { s with
      locks := Function.update s.locks id ⟨msg.sender, token, amountOrId, unlockTime, isNFT, true⟩
      userLockIds := Function.update s.userLockIds msg.sender (s.userLockIds msg.sender ++ [id]) }
  emit (.tokenLocked id msg.sender token amountOrId unlockTime)
  let next ← checkedAdd id 1
  write fun s => { s with nextLockId := next }

/-- The count of the tokens that have arrived, and the new lock. -/
def recordTokens (msg : Message) (token : Address) (unlockTime balBefore balAfter : Word) :
    Fn Unit := do
  let actualAmount ← checkedSub balAfter balBefore
  require (0 < actualAmount) "Must lock non-zero token value"
  let w ← storage
  let locked ← checkedAdd (w.locker.totalLockedPerToken token) actualAmount
  write fun s =>
    { s with totalLockedPerToken := Function.update s.totalLockedPerToken token locked }
  recordLock msg token actualAmount unlockTime false

/-- `_executeLock` for each asset, and then the payment of the treasury.  What comes back says where
the function waits, and which assets are still to be locked. -/
def executeLocks (msg : Message) : List Request → Fn (Pending × List Request)
  | [] => pure (.payingTreasury, [])
  | r :: rest => do
      require (r.token ≠ 0) "Invalid token address"
      require (msg.timestamp < r.unlockTime) "Unlock must be in future"
      let limit ← checkedAdd msg.timestamp 315360000
      require (r.unlockTime < limit) "Max lock 10 years"
      if r.isNFT = true then
        pure (.lockingNft msg r.token r.amountOrId r.unlockTime, rest)
      else if standard r.token = true then do
        let w ← storage
        let balBefore := (w.tokens r.token).balances contract
        callToken r.token (.transferFrom contract msg.sender contract r.amountOrId) r.reply
          "ERC20 transferFrom failed"
        let w ← storage
        recordTokens msg r.token r.unlockTime balBefore ((w.tokens r.token).balances contract)
        executeLocks msg rest
      else do
        let balBefore ← answer r.balBefore
        pure (.lockingToken msg r.token r.unlockTime balBefore r.balAfter, rest)

/-! ### Modifiers -/

def enter : Fn Unit := do
  let w ← storage
  require (w.locker.status = 1) "ReentrancyGuard: reentrant call"
  write fun s => { s with status := 2 }

def leave : Fn Unit := write fun s => { s with status := 1 }

def onlyOwner (msg : Message) : Fn Unit := do
  let w ← storage
  require (msg.sender = w.locker.owner) "Ownable: caller is not the owner"

/-- The check of a function that takes no coins. -/
def nonPayable (msg : Message) : Fn Unit := require (msg.value = 0) ""

/-! ### The functions -/

/-- What a function comes to: it waits, with the assets still to be locked, or it is done. -/
abbrev Next := Option (Pending × List Request)

def createLock (msg : Message) (r : Request) (feed : Option Feed) : Fn Next := do
  enter
  let required ← getRequiredPayment msg feed
  require (required ≤ msg.value) "Insufficient $45 fee"
  let p ← executeLocks contract standard msg [r]
  pure (some p)

/-- `answers` are the answers to the questions on the way for each asset. -/
def createBatchLocks (msg : Message) (tokens : List Address) (amountsOrIds unlockTimes : List Word)
    (isNFTs : List Bool) (answers : ℕ → Option Word × Option Word × Reply) (feed : Option Feed) :
    Fn Next := do
  enter
  let count := tokens.length
  require (0 < count ∧ count ≤ 50) "Invalid batch size"
  require (count = amountsOrIds.length ∧ count = unlockTimes.length ∧ count = isNFTs.length)
    "Array mismatch"
  let singleFee ← getRequiredPayment msg feed
  let totalRequired ← checkedMul singleFee (BitVec.ofNat 256 count)
  require (totalRequired ≤ msg.value) "Insufficient total $45 fees"
  let p ← executeLocks contract standard msg ((List.range count).map fun i =>
    { token := tokens.getD i 0
      amountOrId := amountsOrIds.getD i 0
      unlockTime := unlockTimes.getD i 0
      isNFT := isNFTs.getD i false
      balBefore := (answers i).1
      balAfter := (answers i).2.1
      reply := (answers i).2.2 })
  pure (some p)

/-- The end of `withdraw`. -/
def finishWithdraw (id : Word) (msg : Message) (amount : Word) : Fn Next := do
  emit (.withdrawn id msg.sender amount)
  leave
  pure none

/-- `reply` is the reply of a token of the standard.  The payout is noted when the token or the
collection is called. -/
def withdraw (msg : Message) (id : Word) (reply : Reply) : Fn Next := do
  nonPayable msg
  enter
  let w ← storage
  let l := w.locker.locks id
  require (msg.sender = l.owner) "Not authorized"
  require (l.unlockTime ≤ msg.timestamp) "Still locked"
  require (l.active = true) "Inactive"
  let withdrawalAmount := l.amountOrId
  write fun s =>
    { s with locks := Function.update s.locks id { l with active := false, amountOrId := 0 } }
  modify fun w =>
    { w with paid := w.paid ++ [⟨id, msg.sender, withdrawalAmount, msg.timestamp⟩] }
  if l.isNFT = true then
    pure (some (.withdrawingNft id msg withdrawalAmount, []))
  else do
    let w ← storage
    let locked ← checkedSub (w.locker.totalLockedPerToken l.token) withdrawalAmount
    write fun s =>
      { s with totalLockedPerToken := Function.update s.totalLockedPerToken l.token locked }
    if standard l.token = true then do
      callToken l.token (.transfer contract msg.sender withdrawalAmount) reply
        "ERC20 transfer failed"
      finishWithdraw id msg withdrawalAmount
    else
      pure (some (.withdrawingToken id msg withdrawalAmount, []))

/-- `balance` is the balance of native coins for the token 0, and the balance that a token with a
behaviour of its own answers. -/
def rescueExcessTokens (msg : Message) (token : Address) (amount : Word) (balance : Option Word)
    (reply : Reply) : Fn Next := do
  nonPayable msg
  onlyOwner msg
  let w ← storage
  let contractBalance ←
    if token ≠ 0 ∧ standard token = true then pure ((w.tokens token).balances contract)
    else answer balance
  let rescuable ← checkedSub contractBalance (w.locker.totalLockedPerToken token)
  require (amount ≤ rescuable) "Cannot rescue user funds"
  if token = 0 then
    pure (some (.rescuingCoins amount, []))
  else if standard token = true then do
    callToken token (.transfer contract w.locker.owner amount) reply "ERC20 transfer failed"
    emit (.emergencyRescued token amount)
    pure none
  else
    pure (some (.rescuingToken token amount, []))

/-! ### Going on -/

/-- **How a function goes on** with the answer it has waited for, and the assets still to be
locked. -/
def resume (reply : Reply) (rest : List Request) : Pending → Fn Next
  | .lockingNft msg token tokenId unlockTime => do
      require (reply.success = true) ""
      recordLock msg token tokenId unlockTime true
      let p ← executeLocks contract standard msg rest
      pure (some p)
  | .lockingToken msg token unlockTime balBefore balAfter => do
      checkReply reply "ERC20 transferFrom failed"
      let balAfter ← answer balAfter
      recordTokens msg token unlockTime balBefore balAfter
      let p ← executeLocks contract standard msg rest
      pure (some p)
  | .payingTreasury => do
      require (reply.success = true) "Treasury transfer failed"
      leave
      pure none
  | .withdrawingNft id msg amount => do
      require (reply.success = true) ""
      finishWithdraw id msg amount
  | .withdrawingToken id msg amount => do
      checkReply reply "ERC20 transfer failed"
      finishWithdraw id msg amount
  | .rescuingCoins amount => do
      require (reply.success = true) "Emergency native coin rescue failed"
      emit (.emergencyRescued 0 amount)
      pure none
  | .rescuingToken token amount => do
      checkReply reply "ERC20 transfer failed"
      emit (.emergencyRescued token amount)
      pure none

end Environment

/-! ### Deployment -/

/-- The storage before the constructor. -/
def fresh : Storage where
  status := 1
  owner := 0
  locks _ := ⟨0, 0, 0, 0, false, false⟩
  userLockIds _ := []
  totalLockedPerToken _ := 0
  nextLockId := 0
  treasury := 0
  events := []

def construct (msg : Message) (priceFeed treasury : Address) : Fn Unit := do
  write fun s => { s with owner := msg.sender }
  emit (.ownershipTransferred 0 msg.sender)
  require (priceFeed ≠ 0 ∧ treasury ≠ 0) "Invalid Config"
  write fun s => { s with treasury := treasury }

end Locker
