/-
**Accepting a block.**

`applyMinedBlock` of `medac_consensus.cjs`: the checks on a block written by anybody, in the order
of the source, and the state after it.  The clock is an argument, in seconds.

Main definitions:

* `Medac.headerPreimage`, `Medac.hashBlockHeader` — what the hash of a block covers;
* `Medac.checkBlock` — everything `applyMinedBlock` does between its two checks of the state;
* `Medac.applyMinedBlock`;
* `Medac.Block.ReadFrom`, `Medac.State.Accepts` — what a block must look like, and what the state
  demands of its normal form;
* `Medac.State.next` — the state after a block in normal form.

Main results:

* `Medac.checkBlock_eq_ok` — **the checks in terms of the normal form**;
* `Medac.State.Accepts.next_valid` — the state after an accepted block is valid;
* `Medac.applyMinedBlock_eq_ok` — **what a call accepts and what it returns**;
* `Medac.State.Accepts.later` — what is accepted now is accepted later.
-/

import MedorCoin.Medac.Ledger
import MedorCoin.Medac.Target

set_option autoImplicit false

namespace Medac

open Js

/-! ### The hash of a block -/

/-- The value whose text is hashed to the hash of a block. -/
def headerPreimage (genesisHash : Str) (b : BlockHeader) : Json :=
  .arr [.str networkId, .str genesisHash, .num b.height, .str b.previousHash, .num b.timestamp,
    .str b.nonce, b.minerAddress.toJson, .str b.reward, .str b.target,
    .arr (b.transactions.map Transaction.toJson)]

/-- `value === null`. -/
def isNull : Json → Bool
  | .null => true
  | _ => false

/-- `String(value)` for a value that is not an array. -/
def scalarText : Json → Str
  | .null => "null".toList
  | .bool b => if b then "true".toList else "false".toList
  | .num n => Json.intText n
  | .frac text => text
  | .str s => s
  | .arr _ => []
  | .obj _ => "[object Object]".toList

mutual

/-- `String(value)`. -/
def toText : Json → Str
  | .arr items => (joinTexts items).drop 1
  | v => scalarText v

/-- The items of an array, each with a comma before it; `null` prints as nothing. -/
def joinTexts : List Json → Str
  | [] => []
  | v :: items => ',' :: ((if isNull v then [] else toText v) ++ joinTexts items)

end

theorem toText_str (s : Str) : toText (.str s) = s := by
  rw [toText]
  · rfl
  · intro items h
    cases h

/-- `String(block.key)`. -/
def propertyText (block : Json) (key : Str) : Str :=
  match block.get? key with
  | some v => toText v
  | none => "undefined".toList

/-- The property of a block as an item of an array that is printed: `undefined` prints as
`null`. -/
def propertyItem (block : Json) (key : Str) : Json := (block.get? key).getD .null

/-- **`hashBlockHeader`.** -/
def hashBlockHeader (c : Crypto) (block : Json) (genesisHash : Str) : Except Error Str := do
  let minerAddress ← normalizeAddress (block.get? "minerAddress".toList)
  match Json.array? (block.get? "transactions".toList) with
  | some items =>
      let transactions ← items.mapM (normalizeTransaction c)
      return c.sha256 (Json.stringify (.arr [.str networkId, .str genesisHash,
        propertyItem block "height".toList, propertyItem block "previousHash".toList,
        propertyItem block "timestamp".toList, .str (propertyText block "nonce".toList),
        minerAddress.toJson, .str (propertyText block "reward".toList),
        .str (propertyText block "target".toList), .arr (transactions.map Transaction.toJson)]))
  | none => throw (.typeError "block.transactions.map is not a function")

/-! ### The checks -/

/-- The check on the height. -/
def readHeight (s : State) (block : Json) : Except Error ℕ :=
  match Json.safeNat? (block.get? "height".toList) with
  | some height =>
      if height = s.height + 1 then .ok height else .error (.error "Invalid MEDAC block height")
  | none => .error (.error "Invalid MEDAC block height")

/-- The check on the timestamp, on a clock that reads `now` seconds. -/
def readTimestamp (now : ℕ) (s : State) (block : Json) : Except Error ℕ :=
  match Json.safeNat? (block.get? "timestamp".toList) with
  | some timestamp =>
      if s.timestamp < timestamp ∧ timestamp ≤ now + maxFutureSeconds then .ok timestamp
      else .error (.error "Invalid MEDAC block timestamp")
  | none => .error (.error "Invalid MEDAC block timestamp")

/-- A property that must be a string with a given property, or an error with a message. -/
def readText (block : Json) (key : Str) (accept : Str → Bool) (message : String) :
    Except Error Str :=
  match Json.string? (block.get? key) with
  | some s => if accept s then .ok s else .error (.error message)
  | none => .error (.error message)

/-- The regular expression `^(0|[1-9][0-9]{0,15})$` and the bound on the value. -/
def isBlockNonce (s : Str) : Bool :=
  isNumeral s && s.length ≤ 16 && numeralValue s ≤ Json.maxSafeInteger

/-- The state after a block in normal form, with its reward and the ledger after its
transactions. -/
def State.next (s : State) (b : Block) (reward : ℕ) (l : Ledger) : State where
  height := b.height
  tipHash := b.hash
  genesisHash := s.genesisHash
  timestamp := b.timestamp
  target := calculateNextTarget s b.height b.timestamp
  cumulativeWork := s.cumulativeWork + blockWork s.target
  totalSupply := s.totalSupply + reward
  balanceTotal := s.totalSupply + reward
  miningIssued := s.miningIssued + reward
  balances := credit l.balances b.minerAddress (reward + l.totalFees)
  nonces := l.nonces
  blocks := s.blocks ++ [b]
  consensus := s.consensus

/-- What `applyMinedBlock` does between the two checks of the state. -/
def checkBlock (c : Crypto) (now : ℕ) (s : State) (block : Json) : Except Error State := do
  let height ← readHeight s block
  let previousHash ← readText block "previousHash".toList (· == s.tipHash)
    "MEDAC previous hash mismatch"
  let timestamp ← readTimestamp now s block
  let nonce ← readText block "nonce".toList isBlockNonce "Invalid MEDAC proof-of-work nonce"
  let minerAddress ← normalizeAddress (block.get? "minerAddress".toList)
  let _ ← readText block "target".toList
    (fun t => isPositiveNumeral t && numeralValue t == s.target)
    "Incorrect MEDAC proof-of-work target"
  let expectedReward ← calculateBlockReward height s.miningIssued
  let _ ← readText block "reward".toList (fun r => isNumeral r && numeralValue r == expectedReward)
    "Incorrect MEDAC miner reward"
  let ledger ← applyTransactions c s (block.get? "transactions".toList)
  require ((medianTime s.blocks).all (· < timestamp))
    (.error "MEDAC block timestamp is not above median time")
  let calculatedHash ← hashBlockHeader c block s.genesisHash
  let hash ← readText block "hash".toList
    (fun h => isLowerHex 64 h && h == calculatedHash && hexValue calculatedHash ≤ s.target)
    "Invalid MEDAC proof of work"
  match Json.array? (block.get? "transactions".toList) with
  | some items =>
      let transactions ← items.mapM (normalizeTransaction c)
      let normalizedBlock : Block :=
        { height, previousHash, timestamp, nonce, minerAddress, reward := numeral expectedReward,
          target := numeral s.target, transactions, hash }
      return s.next normalizedBlock expectedReward ledger
  | none => throw (.typeError "block.transactions.map is not a function")

/-- **`applyMinedBlock`.** -/
def applyMinedBlock (c : Crypto) (now : ℕ) (s : State) (block : Json) : Except Error State := do
  assertValidState c s
  let nextState ← checkBlock c now s block
  assertValidState c nextState
  return nextState

/-! ### The checks in terms of the normal form -/

/-- `b` is the normal form of the fields of `block`. -/
structure Block.ReadFrom (c : Crypto) (b : Block) (block : Json) : Prop where
  height : block.get? "height".toList = some (.num b.height)
  previousHash : block.get? "previousHash".toList = some (.str b.previousHash)
  timestamp : block.get? "timestamp".toList = some (.num b.timestamp)
  nonce : block.get? "nonce".toList = some (.str b.nonce)
  minerAddress : normalizeAddress (block.get? "minerAddress".toList) = .ok b.minerAddress
  reward : block.get? "reward".toList = some (.str b.reward)
  target : block.get? "target".toList = some (.str b.target)
  transactions : ∃ items, block.get? "transactions".toList = some (.arr items) ∧
    List.Forall₂ (fun r t => normalizeTransaction c r = .ok t) items b.transactions
  hash : block.get? "hash".toList = some (.str b.hash)

/-- What the state demands of a block in normal form. -/
structure State.Accepts (c : Crypto) (now : ℕ) (s : State) (b : Block) (reward : ℕ) (l : Ledger) :
    Prop where
  height_eq : b.height = s.height + 1
  height_le : b.height ≤ Json.maxSafeInteger
  previousHash_eq : b.previousHash = s.tipHash
  lt_timestamp : s.timestamp < b.timestamp
  timestamp_safe : b.timestamp ≤ Json.maxSafeInteger
  timestamp_le : b.timestamp ≤ now + maxFutureSeconds
  nonce : isBlockNonce b.nonce
  target_eq : b.target = numeral s.target
  reward_eq : b.reward = numeral reward
  reward : calculateBlockReward b.height s.miningIssued = .ok reward
  length_transactions : b.transactions.length ≤ maxTransactionsPerBlock
  transactions : ∀ t ∈ b.transactions, t.Accepted c
  ledger : Ledger.Steps c s.genesisHash s.ledger b.transactions l
  median : (medianTime s.blocks).all (· < b.timestamp)
  hash_eq : b.hash = c.sha256 (Json.stringify (headerPreimage s.genesisHash b.toBlockHeader))
  work : hexValue b.hash ≤ s.target

variable {c : Crypto} {now : ℕ} {s : State}

theorem readHeight_eq_ok {block : Json} {height : ℕ} :
    readHeight s block = .ok height ↔
      block.get? "height".toList = some (.num height) ∧ height = s.height + 1 ∧
        height ≤ Json.maxSafeInteger := by
  rw [readHeight]
  constructor
  · intro h
    split at h
    · next n hn =>
        obtain ⟨hget, hle⟩ := Json.safeNat?_eq_some.1 hn
        split at h
        · next heq =>
            cases h
            exact ⟨hget, heq, hle⟩
        · cases h
    · cases h
  · rintro ⟨hget, heq, hle⟩
    simp only [hget, Json.safeNat?_num hle, if_pos heq]

theorem readTimestamp_eq_ok {block : Json} {timestamp : ℕ} :
    readTimestamp now s block = .ok timestamp ↔
      block.get? "timestamp".toList = some (.num timestamp) ∧ timestamp ≤ Json.maxSafeInteger ∧
        s.timestamp < timestamp ∧ timestamp ≤ now + maxFutureSeconds := by
  rw [readTimestamp]
  constructor
  · intro h
    split at h
    · next n hn =>
        obtain ⟨hget, hle⟩ := Json.safeNat?_eq_some.1 hn
        split at h
        · next hbounds =>
            cases h
            exact ⟨hget, hle, hbounds⟩
        · cases h
    · cases h
  · rintro ⟨hget, hle, hbounds⟩
    simp only [hget, Json.safeNat?_num hle, if_pos hbounds]

theorem readText_eq_ok {block : Json} {key : Str} {accept : Str → Bool} {message : String}
    {text : Str} :
    readText block key accept message = .ok text ↔
      block.get? key = some (.str text) ∧ accept text := by
  rw [readText]
  constructor
  · intro h
    split at h
    · next s hs =>
        split at h
        · next haccept =>
            cases h
            exact ⟨Json.string?_eq_some.1 hs, haccept⟩
        · cases h
    · cases h
  · rintro ⟨hget, haccept⟩
    simp only [hget, Json.string?_str, if_pos haccept]

theorem eq_numeral {text : Str} {n : ℕ} (htext : isNumeral text) (hn : numeralValue text = n) :
    text = numeral n := by
  rw [← hn, numeral_numeralValue htext]

theorem readTarget_eq_ok {block : Json} {text : Str} (hs : 1 ≤ s.target) :
    readText block "target".toList (fun t => isPositiveNumeral t && numeralValue t == s.target)
        "Incorrect MEDAC proof-of-work target" = .ok text ↔
      block.get? "target".toList = some (.str text) ∧ text = numeral s.target := by
  rw [readText_eq_ok, Bool.and_eq_true, beq_iff_eq]
  constructor
  · rintro ⟨hget, htext, hvalue⟩
    exact ⟨hget, eq_numeral (isNumeral_of_positive htext) hvalue⟩
  · rintro ⟨hget, rfl⟩
    exact ⟨hget, isPositiveNumeral_numeral hs, numeralValue_numeral _⟩

theorem readReward_eq_ok {block : Json} {text : Str} {reward : ℕ} :
    readText block "reward".toList (fun r => isNumeral r && numeralValue r == reward)
        "Incorrect MEDAC miner reward" = .ok text ↔
      block.get? "reward".toList = some (.str text) ∧ text = numeral reward := by
  rw [readText_eq_ok, Bool.and_eq_true, beq_iff_eq]
  constructor
  · rintro ⟨hget, htext, hvalue⟩
    exact ⟨hget, eq_numeral htext hvalue⟩
  · rintro ⟨hget, rfl⟩
    exact ⟨hget, isNumeral_numeral _, numeralValue_numeral _⟩

theorem hashBlockHeader_of_readFrom {block : Json} {b : Block} (h : b.ReadFrom c block)
    (genesisHash : Str) :
    hashBlockHeader c block genesisHash =
      .ok (c.sha256 (Json.stringify (headerPreimage genesisHash b.toBlockHeader))) := by
  obtain ⟨items, hitems, hnormal⟩ := h.transactions
  rw [hashBlockHeader, h.minerAddress, ok_bind, hitems]
  simp only [Json.array?_arr]
  rw [mapM_eq_ok_iff.2 hnormal, ok_bind]
  simp only [propertyItem, propertyText, h.height, h.previousHash, h.timestamp, h.nonce, h.reward,
    h.target, toText_str, headerPreimage, Option.getD_some, pure_eq_ok]

theorem accepted_of_forall₂ {items : List Json} {ts : List Transaction}
    (h : List.Forall₂ (fun r t => normalizeTransaction c r = .ok t) items ts) :
    ∀ t ∈ ts, t.Accepted c := by
  induction h with
  | nil => simp
  | cons ht _ ih => simpa using ⟨(normalizeTransaction_eq_ok.1 ht).2, ih⟩

/-- **The checks in terms of the normal form.** -/
theorem checkBlock_eq_ok {block : Json} {s' : State} (hs : 1 ≤ s.target) :
    checkBlock c now s block = .ok s' ↔
      ∃ b reward l, b.ReadFrom c block ∧ s.Accepts c now b reward l ∧ s' = s.next b reward l := by
  constructor
  · intro h
    obtain ⟨height, hheight, h⟩ := bind_eq_ok.1 h
    obtain ⟨previousHash, hprevious, h⟩ := bind_eq_ok.1 h
    obtain ⟨timestamp, htimestamp, h⟩ := bind_eq_ok.1 h
    obtain ⟨nonce, hnonce, h⟩ := bind_eq_ok.1 h
    obtain ⟨minerAddress, hminer, h⟩ := bind_eq_ok.1 h
    obtain ⟨target, htarget, h⟩ := bind_eq_ok.1 h
    obtain ⟨reward, hreward, h⟩ := bind_eq_ok.1 h
    obtain ⟨rewardText, hrewardText, h⟩ := bind_eq_ok.1 h
    obtain ⟨ledger, hledger, h⟩ := bind_eq_ok.1 h
    obtain ⟨hmedian, h⟩ := bind_require_eq_ok.1 h
    obtain ⟨calculatedHash, hcalculated, h⟩ := bind_eq_ok.1 h
    obtain ⟨hash, hhash, h⟩ := bind_eq_ok.1 h
    obtain ⟨items, ts, hitems, hlength, hnormal, hsteps⟩ := applyTransactions_eq_ok.1 hledger
    rw [hitems] at h
    simp only [Json.array?_arr, mapM_eq_ok_iff.2 hnormal, ok_bind, pure_eq_ok] at h
    cases h
    obtain ⟨hgetHeight, hheight, hheightSafe⟩ := readHeight_eq_ok.1 hheight
    obtain ⟨hgetPrevious, hprevious⟩ := readText_eq_ok.1 hprevious
    obtain ⟨hgetTimestamp, hsafe, hlt, hle⟩ := readTimestamp_eq_ok.1 htimestamp
    obtain ⟨hgetNonce, hnonce⟩ := readText_eq_ok.1 hnonce
    obtain ⟨hgetTarget, rfl⟩ := (readTarget_eq_ok hs).1 htarget
    obtain ⟨hgetReward, rfl⟩ := readReward_eq_ok.1 hrewardText
    obtain ⟨hgetHash, hhash⟩ := readText_eq_ok.1 hhash
    simp only [Bool.and_eq_true, beq_iff_eq, decide_eq_true_eq] at hprevious hhash
    obtain ⟨⟨-, rfl⟩, hwork⟩ := hhash
    refine ⟨_, reward, ledger, ⟨hgetHeight, hgetPrevious, hgetTimestamp, hgetNonce, hminer,
      hgetReward, hgetTarget, ⟨items, hitems, hnormal⟩, hgetHash⟩, ?_, rfl⟩
    have hread := hashBlockHeader_of_readFrom (b := ⟨⟨height, previousHash, timestamp, nonce,
      minerAddress, numeral reward, numeral s.target, ts⟩, hash⟩) (c := c)
      ⟨hgetHeight, hgetPrevious, hgetTimestamp, hgetNonce, hminer, hgetReward, hgetTarget,
        ⟨items, hitems, hnormal⟩, hgetHash⟩ s.genesisHash
    rw [hcalculated, Except.ok.injEq] at hread
    exact ⟨hheight, hheightSafe, hprevious, hlt, hsafe, hle, hnonce, rfl, rfl, hreward,
      hnormal.length_eq ▸ hlength, accepted_of_forall₂ hnormal, hsteps, hmedian, hread, hwork⟩
  · rintro ⟨b, reward, l, hread, haccepts, rfl⟩
    obtain ⟨items, hitems, hnormal⟩ := hread.transactions
    have hledger : applyTransactions c s (block.get? "transactions".toList) = .ok l :=
      applyTransactions_eq_ok.2 ⟨items, b.transactions, hitems,
        hnormal.length_eq ▸ haccepts.length_transactions, hnormal, haccepts.ledger⟩
    have hhash : isLowerHex 64 b.hash && b.hash == b.hash && hexValue b.hash ≤ s.target := by
      have hhex : isLowerHex 64 b.hash := by
        rw [haccepts.hash_eq]
        exact c.isLowerHex_sha256 _
      simp [hhex, haccepts.work]
    rw [checkBlock, readHeight_eq_ok.2 ⟨hread.height, haccepts.height_eq, haccepts.height_le⟩,
      ok_bind, readText_eq_ok.2 ⟨hread.previousHash, by simp [haccepts.previousHash_eq]⟩, ok_bind,
      readTimestamp_eq_ok.2 ⟨hread.timestamp, haccepts.timestamp_safe, haccepts.lt_timestamp,
        haccepts.timestamp_le⟩, ok_bind,
      readText_eq_ok.2 ⟨hread.nonce, haccepts.nonce⟩, ok_bind, hread.minerAddress, ok_bind,
      (readTarget_eq_ok hs).2 ⟨hread.target, haccepts.target_eq⟩, ok_bind, haccepts.reward,
      ok_bind, readReward_eq_ok.2 ⟨hread.reward, haccepts.reward_eq⟩, ok_bind, hledger, ok_bind,
      require_true haccepts.median, ok_bind, hashBlockHeader_of_readFrom hread, ok_bind,
      ← haccepts.hash_eq, readText_eq_ok.2 ⟨hread.hash, hhash⟩, ok_bind, hitems]
    simp only [Json.array?_arr, mapM_eq_ok_iff.2 hnormal, ok_bind, pure_eq_ok, ← haccepts.target_eq,
      ← haccepts.reward_eq]

/-! ### The state after a block -/

namespace State.Accepts

variable {b : Block} {reward : ℕ} {l : Ledger}

theorem hash_hex (h : s.Accepts c now b reward l) : isLowerHex 64 b.hash := by
  rw [h.hash_eq]
  exact c.isLowerHex_sha256 _

theorem reward_le (hs : s.Valid c) (h : s.Accepts c now b reward l) :
    s.miningIssued + reward ≤ miningReserve :=
  calculateBlockReward_le hs.miningIssued_le h.reward

theorem lastBlock_next (hs : s.Valid c) (h : s.Accepts c now b reward l) :
    (s.next b reward l).lastBlock? = some b := by
  have hindex : b.height - 1 = s.blocks.length := by
    rw [h.height_eq, hs.length_blocks, Nat.add_sub_cancel]
  simp [lastBlock?, next, hindex]

/-- **The state after an accepted block is valid.** -/
theorem next_valid (hs : s.Valid c) (h : s.Accepts c now b reward l) :
    (s.next b reward l).Valid c := by
  have htarget := calculateNextTarget_mem hs.one_le_target hs.target_le b.height b.timestamp
  have hlast := h.lastBlock_next hs
  exact
    { height_le := h.height_le
      timestamp_le := h.timestamp_safe
      tipHash_hex := h.hash_hex
      totalSupply_eq := by
        have hsupply := hs.totalSupply_eq
        simp only [next]
        omega
      balanceTotal_eq := rfl
      miningIssued_le := h.reward_le hs
      length_blocks := by simp [next, hs.length_blocks, h.height_eq]
      one_le_target := htarget.1
      target_le := htarget.2
      genesisHash_eq := hs.genesisHash_eq
      tip := fun _ => by
        rw [hlast]
        exact ⟨rfl, rfl⟩ }

/-- What is accepted now is accepted later. -/
theorem later {now' : ℕ} (h : s.Accepts c now b reward l) (hnow : now ≤ now') :
    s.Accepts c now' b reward l :=
  { h with timestamp_le := le_trans h.timestamp_le (Nat.add_le_add_right hnow _) }

theorem readFrom_toJson (h : s.Accepts c now b reward l) : b.ReadFrom c b.toJson where
  height := rfl
  previousHash := rfl
  timestamp := rfl
  nonce := rfl
  minerAddress := normalizeAddress_toJson b.minerAddress
  reward := rfl
  target := rfl
  transactions := by
    refine ⟨b.transactions.map Transaction.toJson, rfl, ?_⟩
    rw [List.forall₂_map_left_iff, List.forall₂_same]
    intro t ht
    exact normalizeTransaction_eq_ok.2 ⟨t.readFrom_toJson, h.transactions t ht⟩
  hash := rfl

end State.Accepts

/-- **What a call accepts and what it returns.** -/
theorem applyMinedBlock_eq_ok {block : Json} {s' : State} :
    applyMinedBlock c now s block = .ok s' ↔
      s.Valid c ∧ ∃ b reward l, b.ReadFrom c block ∧ s.Accepts c now b reward l ∧
        s' = s.next b reward l := by
  constructor
  · intro h
    obtain ⟨⟨⟩, hvalid, h⟩ := bind_eq_ok.1 h
    obtain ⟨next, hnext, h⟩ := bind_eq_ok.1 h
    obtain ⟨⟨⟩, -, h⟩ := bind_eq_ok.1 h
    cases h
    have hs := assertValidState_eq_ok.1 hvalid
    exact ⟨hs, (checkBlock_eq_ok hs.one_le_target).1 hnext⟩
  · rintro ⟨hs, b, reward, l, hread, haccepts, rfl⟩
    rw [applyMinedBlock, assertValidState_eq_ok.2 hs, ok_bind,
      (checkBlock_eq_ok hs.one_le_target).2 ⟨b, reward, l, hread, haccepts, rfl⟩, ok_bind,
      assertValidState_eq_ok.2 (haccepts.next_valid hs)]
    rfl

end Medac
