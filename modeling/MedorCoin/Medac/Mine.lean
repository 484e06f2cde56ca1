/-
**Blocks made by a miner.**

`prepareBlock` of `medac_consensus.cjs`: the block a miner offers on top of a state, whose hash it
then searches below the target.  A block prepared on a valid state whose hash is low enough, with
transactions the ledger admits and a timestamp the clock admits, is accepted.

The last section is a small network on which the statements about chains are instantiated: its
target is the largest there is, so that every hash is low enough, and its second block carries a
signed transfer.

Main definitions:

* `Medac.prepareBlock`, `Medac.BlockHeader.withHash`;
* `Medac.sampleChain` — the state after two blocks of the small network.

Main results:

* `Medac.accepts_prepareBlock` — **prepared blocks are accepted**;
* `Medac.sampleChain_reachable`.
-/

import MedorCoin.Js.Sha256
import MedorCoin.Medac.Reachable

set_option autoImplicit false

namespace Medac

open Js

/-- **`prepareBlock`.** -/
def prepareBlock (s : State) (minerAddress : Address) (timestamp : ℕ)
    (transactions : List Transaction) (nonce : ℕ) : Except Error BlockHeader := do
  let reward ← calculateBlockReward (s.height + 1) s.miningIssued
  return { height := s.height + 1, previousHash := s.tipHash, timestamp, nonce := numeral nonce,
           minerAddress, reward := numeral reward, target := numeral s.target, transactions }

/-- A prepared block with its hash. -/
def BlockHeader.withHash (c : Crypto) (genesisHash : Str) (h : BlockHeader) : Block :=
  { h with hash := c.sha256 (Json.stringify (headerPreimage genesisHash h)) }

variable {c : Crypto} {s : State}

theorem isBlockNonce_numeral {nonce : ℕ} (h : nonce ≤ Json.maxSafeInteger) :
    isBlockNonce (numeral nonce) := by
  have hsmall : nonce < 10 ^ 16 := lt_of_le_of_lt h (by decide)
  have hlen : (numeral nonce).length ≤ 16 := (length_numeral_le_iff (by decide)).2 hsmall
  simp [isBlockNonce, isNumeral_numeral, numeralValue_numeral, hlen, h]

/-- **Prepared blocks are accepted**, as soon as their hash is low enough. -/
theorem accepts_prepareBlock {now timestamp nonce reward : ℕ} {miner : Address}
    {ts : List Transaction} {l : Ledger} {h : BlockHeader}
    (hheight : s.height < Json.maxSafeInteger) (hlt : s.timestamp < timestamp)
    (hsafe : timestamp ≤ Json.maxSafeInteger) (hle : timestamp ≤ now + maxFutureSeconds)
    (hmedian : (medianTime s.blocks).all (· < timestamp)) (hnonce : nonce ≤ Json.maxSafeInteger)
    (hlen : ts.length ≤ maxTransactionsPerBlock) (hts : ∀ t ∈ ts, t.Accepted c)
    (hsteps : Ledger.Steps c s.genesisHash s.ledger ts l)
    (hreward : calculateBlockReward (s.height + 1) s.miningIssued = .ok reward)
    (hprepare : prepareBlock s miner timestamp ts nonce = .ok h)
    (hwork : hexValue (h.withHash c s.genesisHash).hash ≤ s.target) :
    s.Accepts c now (h.withHash c s.genesisHash) reward l := by
  rw [prepareBlock, hreward, ok_bind, pure_eq_ok, Except.ok.injEq] at hprepare
  subst hprepare
  exact
    { height_eq := rfl
      height_le := hheight
      previousHash_eq := rfl
      lt_timestamp := hlt
      timestamp_safe := hsafe
      timestamp_le := hle
      nonce := isBlockNonce_numeral hnonce
      target_eq := rfl
      reward_eq := rfl
      reward := hreward
      length_transactions := hlen
      transactions := hts
      ledger := hsteps
      median := hmedian
      hash_eq := rfl
      work := hwork }

theorem hexValue_le_maxHash {d : Str} (h : isLowerHex 64 d) : hexValue d ≤ maxHash := by
  have hlt : hexValue d < 16 ^ 64 := hexValue_lt (isHex_of_isLowerHex h)
  have hmax : 16 ^ 64 = maxHash + 1 := by decide +kernel
  omega

/-! ### A small network -/

def sampleConsensus : Consensus where
  initialTarget := maxHash
  maxTarget := maxHash
  targetBlockTime := 60
  retargetWindow := 20
  one_le_initialTarget := by decide +kernel
  initialTarget_le := le_rfl
  maxTarget_le := le_rfl
  one_le_targetBlockTime := by decide
  targetBlockTime_le := by decide
  two_le_retargetWindow := by decide
  retargetWindow_le := by decide

def sampleGenesisHash : Str :=
  Sha256.hex (Json.stringify (genesisPreimage allocations sampleConsensus))

def sampleMiner : Address :=
  ⟨"0x7e5f4552091a69125d5dfcb7b8c2659029395bdf".toList, by decide +kernel⟩

def sampleTransfer : Transfer where
  genesisHash := sampleGenesisHash
  sender := sampleMiner
  recipient := ⟨"0x2b5ad5c4795c026514f8317c7a215e218dccd6cf".toList, by decide +kernel⟩
  nonce := 0
  amount := numeral token
  fee := numeral minTransactionFee
  genesisHash_hex := Sha256.isLowerHex_hex _
  nonce_lt := by decide
  amount_numeral := by decide +kernel
  fee_numeral := by decide +kernel

def sampleSignature : Signature :=
  ⟨("0x1da37e19951dc303cf7b615d90c8e561da9581d091bfef85913ce4566b0bf0e1" ++
    "5bd141941317ff76e02aecd510ead00b30ada6b025d683353766895cc8b31b601c").toList,
    by decide +kernel⟩

def sampleCrypto : Crypto where
  sha256 := Sha256.hex
  verifyMessage text signature :=
    if text = sampleTransfer.signingPayload ∧ signature = sampleSignature.val then
      .ok "0x7E5F4552091A69125d5DfCb7b8C2659029395Bdf".toList
    else .error (.typeError "invalid point")
  isLowerHex_sha256 := Sha256.isLowerHex_hex

def sampleTransaction : Transaction := { sampleTransfer with signature := sampleSignature }

theorem sampleTransaction_accepted : sampleTransaction.Accepted sampleCrypto where
  amount_le := by decide +kernel
  le_fee := by decide +kernel
  fee_le := by decide +kernel
  signer := by
    refine ⟨"0x7E5F4552091A69125d5DfCb7b8C2659029395Bdf".toList, ?_, by decide +kernel⟩
    simp only [sampleTransaction, sampleCrypto, and_self, if_true]

def sampleBlock (s : State) (timestamp : ℕ) (ts : List Transaction) : Block :=
  BlockHeader.withHash sampleCrypto s.genesisHash
    { height := s.height + 1, previousHash := s.tipHash, timestamp, nonce := numeral 0,
      minerAddress := sampleMiner, reward := numeral initialBlockReward,
      target := numeral s.target, transactions := ts }

def sampleGenesis : State := genesisState sampleCrypto sampleConsensus

def sampleFirst : State :=
  sampleGenesis.next (sampleBlock sampleGenesis 1000 []) initialBlockReward sampleGenesis.ledger

def sampleChain : State :=
  sampleFirst.next (sampleBlock sampleFirst 2000 [sampleTransaction]) initialBlockReward
    (sampleFirst.ledger.after sampleCrypto sampleTransaction)

theorem initialBlockReward_le : 2 * initialBlockReward ≤ miningReserve := by
  rw [initialBlockReward_eq]
  decide +kernel

theorem calculateBlockReward_first {height issued : ℕ} (hpos : 1 ≤ height) (hle : height ≤ 2)
    (hissued : issued ≤ initialBlockReward) :
    calculateBlockReward height issued = .ok initialBlockReward := by
  have hreserve := initialBlockReward_le
  have hsafe : height ≤ Json.maxSafeInteger := le_trans hle (by decide)
  have hinterval : (height - 1) / halvingInterval = 0 :=
    Nat.div_eq_of_lt (lt_of_le_of_lt (Nat.sub_le _ _) (lt_of_le_of_lt hle (by decide)))
  rw [calculateBlockReward_eq hsafe hpos (by omega), scheduledReward, hinterval,
    Nat.shiftRight_zero, min_eq_left (by omega)]

theorem sampleBlock_accepts {timestamp : ℕ} {ts : List Transaction} {l : Ledger}
    (hheight : s.height < 2) (hissued : s.miningIssued ≤ initialBlockReward)
    (hlt : s.timestamp < timestamp) (hsafe : timestamp ≤ Json.maxSafeInteger)
    (hmedian : (medianTime s.blocks).all (· < timestamp))
    (hlen : ts.length ≤ maxTransactionsPerBlock) (hts : ∀ t ∈ ts, t.Accepted sampleCrypto)
    (hsteps : Ledger.Steps sampleCrypto s.genesisHash s.ledger ts l)
    (htarget : s.target = maxHash) :
    s.Accepts sampleCrypto timestamp (sampleBlock s timestamp ts) initialBlockReward l := by
  have hreward : calculateBlockReward (s.height + 1) s.miningIssued = .ok initialBlockReward :=
    calculateBlockReward_first (by omega) (by omega) hissued
  have hprepare : prepareBlock s sampleMiner timestamp ts 0 = .ok
      { height := s.height + 1, previousHash := s.tipHash, timestamp, nonce := numeral 0,
        minerAddress := sampleMiner, reward := numeral initialBlockReward,
        target := numeral s.target, transactions := ts } := by
    rw [prepareBlock, hreward]
    rfl
  have hwork : hexValue (sampleBlock s timestamp ts).hash ≤ s.target := by
    rw [htarget]
    exact hexValue_le_maxHash (Sha256.isLowerHex_hex _)
  have hsafeHeight : s.height < Json.maxSafeInteger := lt_of_lt_of_le hheight (by decide)
  exact accepts_prepareBlock hsafeHeight hlt hsafe (Nat.le_add_right _ _) hmedian (Nat.zero_le _)
    hlen hts hsteps hreward hprepare hwork

theorem sampleFirst_accepts :
    sampleGenesis.Accepts sampleCrypto 1000 (sampleBlock sampleGenesis 1000 []) initialBlockReward
      sampleGenesis.ledger :=
  sampleBlock_accepts (by decide) (Nat.zero_le _) (by decide) (by decide) rfl (Nat.zero_le _)
    (by simp) (.nil _) rfl

theorem sampleTransaction_admitted :
    sampleFirst.ledger.Admits sampleCrypto sampleGenesisHash sampleTransaction where
  network := rfl
  fresh := by simp [State.ledger]
  nonce := rfl
  funds := by
    have hbalance : balanceOf sampleFirst.ledger.balances sampleTransaction.sender =
        balanceOf genesisBalances sampleMiner + (initialBlockReward + (0 : ℕ)) :=
      balanceOf_credit_self _ _ _
    rw [hbalance, initialBlockReward_eq]
    decide +kernel

theorem sampleChain_accepts :
    sampleFirst.Accepts sampleCrypto 2000 (sampleBlock sampleFirst 2000 [sampleTransaction])
      initialBlockReward (sampleFirst.ledger.after sampleCrypto sampleTransaction) := by
  have hissued : sampleFirst.miningIssued ≤ initialBlockReward := by
    simp only [sampleFirst, State.next, sampleGenesis, genesisState, Nat.zero_add, le_refl]
  have htarget : calculateNextTarget sampleGenesis 1 1000 = maxHash := by
    rw [calculateNextTarget, if_pos (by decide)]
    rfl
  exact sampleBlock_accepts (by decide) hissued (by decide) (by decide) (by decide) (by decide)
    (by simpa using sampleTransaction_accepted) (.cons sampleTransaction_admitted (.nil _)) htarget

/-- **The chain of the small network**: a block without and a block with a transfer. -/
theorem sampleChain_reachable : Reachable sampleCrypto sampleConsensus sampleChain :=
  (Reachable.genesis.accepted sampleFirst_accepts).accepted sampleChain_accepts

end Medac
