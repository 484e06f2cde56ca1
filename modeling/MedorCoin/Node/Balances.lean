/-
**The two ledgers of the C++ node.**

The node keeps unspent outputs and, next to them, balances of accounts.  An output that is added
credits its recipient, and a network fee goes from the recipient to the treasury; an output that is
spent debits nobody.  So the ledgers agree as long as a block pays nobody but by its coinbase, and
spends nothing but what is worthless or the treasury's.

Main definitions:

* `Node.unspentValue` — the value of the unspent outputs of an address;
* `Node.chargedFee`, `Node.Blockchain.chargedFees` — the network fees that are charged;
* `Node.Blockchain.Accounted` — the runs of successful calls, with the fees charged on the way;
* `Node.Blockchain.Agrees` — **the ledgers agree**;
* `Node.Blockchain.Conserving` — what a call is to be for that.

Main results:

* `Node.Blockchain.Conserving.agrees` — such a call keeps the ledgers in agreement;
* `Node.Blockchain.ledgers_agree` — **so does a run of such calls**;
* `Node.Blockchain.ledgers_disagree` — a payment in the first block of a network brings them apart.
-/

import MedorCoin.Node.Authorisation
import MedorCoin.Node.Completeness
import MedorCoin.Node.Reachable

set_option autoImplicit false

namespace Node

open Cpp

/-! ### The ledgers -/

/-- The value of an output for an address. -/
def valueFor (a : Str) (_ : Outpoint) (coin : Utxo) : ℕ :=
  if coin.address = a then coin.value.toNat else 0

/-- The value of the unspent outputs of an address, in unbounded integers. -/
def unspentValue (coins : Coins) (a : Str) : ℕ := Ledger.total (valueFor a) coins

/-- The network fee that is charged when an output is credited: what is taken from the recipient, if
it can be. -/
def chargedFee (cfg : Config) (isCoinbase : Bool) (out : TxOutput) (db : AccountDB) : ℕ :=
  let db := (db.addBalance out.address out.value).2
  if isCoinbase || cfg.treasuryAddress = [] then 0
  else
    let fee := min (calculateNetworkFee out.value) out.value
    if fee > 0 then
      if (db.deductBalance out.address fee).1 then fee.toNat else 0
    else 0

namespace Blockchain

variable {U : UtxoSet} {E : Secp256k1}

/-- The network fees an address is charged when a block is applied. -/
def chargedFees (cfg : Config) (block : Block) (height : UInt64) (st : U.State × AccountDB)
    (a : Str) : ℕ :=
  ((turns (applyTransaction cfg height) block.transactions.zipIdx st).flatMap fun tx =>
    (turns (addOutput cfg height (tx.1.2 == 0) tx.1.1.txHash) tx.1.1.outputs.zipIdx
      (forEach (spendInput height) tx.1.1.inputs tx.2).2).map fun out =>
        if out.1.1.address = a then chargedFee cfg (tx.1.2 == 0) out.1.1 out.2.2 else 0).sum

/-- The state in which the block of a call is applied. -/
def start (s : Blockchain U) (c : Call) : U.State × AccountDB :=
  (s.utxoSet, { s.accountDB with outcomes := c.accountWrites })

/-- **The runs of successful calls**, each of them meeting a condition, with the fees charged on the
way. -/
inductive Accounted (E : Secp256k1) (cfg : Config) (P : Blockchain U → Call → Prop) :
    Blockchain U → (Str → ℕ) → Prop
  | fresh : cfg.ownerAddress ≠ [] → Accounted E cfg P (fresh U cfg) fun _ => 0
  | addBlock {s : Blockchain U} {fees : Str → ℕ} (c : Call) {block : Block} :
      Accounted E cfg P s fees → P s c → s.writtenBlock E c = some block →
      (s.addBlock E c).1 = true →
      Accounted E cfg P (s.addBlock E c).2 fun a =>
        fees a + chargedFees s.cfg block s.nextHeight (s.start c) a

/-- **The ledgers agree**: the balances add up to the supply, and the balance of an address other
than the treasury and the fees it was charged make the value of its unspent outputs. -/
structure Agrees (s : Blockchain U) (fees : Str → ℕ) : Prop where
  supply : s.accountDB.totalBalance = s.totalSupply.toNat
  balances : ∀ a, a ≠ s.cfg.treasuryAddress →
    (s.accountDB.getBalance a).toNat + fees a = unspentValue (U.coins s.utxoSet) a

/-- The outcomes of the writes that are left behind a credit. -/
def writesBehind (addr : Str) (writes : List Bool) : List Bool :=
  if AccountDB.isValidKey (AccountDB.balanceKey addr) then writes.tail else writes

/-- A credit is written: there is nothing to credit, or the database knows the key and takes the
write. -/
def Recorded (value : UInt64) (addr : Str) (writes : List Bool) : Prop :=
  value = 0 ∨ AccountDB.isValidKey (AccountDB.balanceKey addr) = true ∧ writes.head? ≠ some false

/-- **What a call is to be for the ledgers to stay in agreement**: its coinbase, if there is one, is
credited; its transactions pay nothing, and spend what is worthless or the treasury's. -/
structure Conserving (s : Blockchain U) (c : Call) : Prop where
  miner : 0 < s.cappedReward c.rewardTime →
    Recorded (s.cappedReward c.rewardTime * 90 / 100) c.minerAddr c.accountWrites
  owner : 0 < s.cappedReward c.rewardTime →
    Recorded (s.cappedReward c.rewardTime - s.cappedReward c.rewardTime * 90 / 100)
      s.cfg.ownerAddress (writesBehind c.minerAddr c.accountWrites)
  outputs : ∀ tx ∈ c.transactions, ∀ out ∈ tx.outputs, out.value = 0
  inputs : ∀ tx ∈ c.transactions, ∀ o ∈ tx.spent, ∀ coin,
    (U.coins s.utxoSet).lookup o = some coin →
      coin.value = 0 ∨ coin.address = s.cfg.treasuryAddress

/-! ### Transactions that move nothing -/

variable {cfg : Config} {height : UInt64} {st : U.State × AccountDB}

theorem creditOutput_zero (cfg : Config) {out : TxOutput} (h : out.value = 0) (isCoinbase : Bool)
    (db : AccountDB) :
    (creditOutput cfg isCoinbase out db).totalBalance = db.totalBalance ∧
      ∀ b, (creditOutput cfg isCoinbase out db).getBalance b = db.getBalance b := by
  have hfee (fee : UInt64) : ¬ min fee out.value > 0 := by
    rw [h, gt_iff_lt, UInt64.lt_iff_toNat_lt, toNat_min]
    exact fun hlt => absurd hlt (by simp)
  have hcredit : creditOutput cfg isCoinbase out db = (db.addBalance out.address 0).2 := by
    rw [creditOutput, if_neg (hfee _), h]
    split <;> rfl
  rw [hcredit]
  exact db.addBalance_zero out.address

theorem forEach_addOutput_zero (cfg : Config) (height : UInt64) (coinbase : Bool) (hash : Str)
    {outputs : List (TxOutput × ℕ)} (st : U.State × AccountDB)
    (h : ∀ out ∈ outputs, out.1.value = 0) :
    (forEach (addOutput cfg height coinbase hash) outputs st).2.2.totalBalance =
        st.2.totalBalance ∧
      ∀ b, (forEach (addOutput cfg height coinbase hash) outputs st).2.2.getBalance b =
        st.2.getBalance b := by
  refine forEach_invariant (addOutput (U := U) cfg height coinbase hash)
    (fun st' => st'.2.totalBalance = st.2.totalBalance ∧
      ∀ b, st'.2.getBalance b = st.2.getBalance b) ?_ ⟨rfl, fun _ => rfl⟩
  intro out hout st' ih
  simp only [addOutput]
  split
  · obtain ⟨htotal, hbalance⟩ := creditOutput_zero cfg (h out hout) coinbase st'.2
    exact ⟨htotal.trans ih.1, fun b => (hbalance b).trans (ih.2 b)⟩
  · exact ih

/-- A transaction that was applied changes the value of the unspent outputs of an address by what
it creates for it and what it spends of it. -/
theorem unspentValue_applyTransaction {tx : Transaction × ℕ}
    (h : (applyTransaction cfg height tx st).1 = true) (a : Str) :
    unspentValue (U.coins (applyTransaction cfg height tx st).2.1) a +
        (tx.1.spent.map (Ledger.weightAt (valueFor a) (U.coins st.1))).sum =
      unspentValue (U.coins st.1) a +
        ((tx.1.created height (tx.2 == 0)).map fun o => valueFor a o.1 o.2).sum := by
  obtain ⟨hspend, hplaceable, hfresh⟩ := applyTransaction_fst_iff.1 h
  have hdistinct : tx.1.spent.Nodup := (mem_of_forEach_spendInput hspend).1
  have hkeys : ((tx.1.created height (tx.2 == 0)).map Prod.fst).Nodup := by
    rw [Transaction.map_fst_created]
    exact Transaction.nodup_outpoints hplaceable.count
  have hnew : ∀ o ∈ tx.1.created height (tx.2 == 0),
      o.1 ∉ Ledger.spend (U.coins st.1) tx.1.spent := by
    intro o ho hmem
    have hout : o.1 ∈ tx.1.outpoints := by
      rw [← tx.1.map_fst_created height (tx.2 == 0)]
      exact List.mem_map_of_mem ho
    rw [Ledger.mem_spend] at hmem
    exact hmem.2 (hfresh _ hout hmem.1)
  have hspent := Ledger.total_spend (valueFor a) (m := U.coins st.1) hdistinct
  rw [coins_applyTransaction h, unspentValue, unspentValue, Transaction.effect,
    Ledger.total_create _ hkeys hnew]
  omega

/-- The state is as before for both ledgers, and what was there and still is is worthless or has not
changed. -/
structure Unmoved (cfg : Config) (coins₀ : Coins) (st₀ st : U.State × AccountDB) : Prop where
  total : st.2.totalBalance = st₀.2.totalBalance
  balances : ∀ a, st.2.getBalance a = st₀.2.getBalance a
  unspent : ∀ a, a ≠ cfg.treasuryAddress →
    unspentValue (U.coins st.1) a = unspentValue (U.coins st₀.1) a
  known : ∀ o ∈ coins₀, ∀ coin, (U.coins st.1).lookup o = some coin →
    coin.value = 0 ∨ coins₀.lookup o = some coin

theorem valueFor_eq_zero {a : Str} {o : Outpoint} {coin : Utxo} {treasury : Str} (ha : a ≠ treasury)
    (h : coin.value = 0 ∨ coin.address = treasury) : valueFor a o coin = 0 := by
  rw [valueFor]
  rcases h with h | h
  · rw [h]
    exact ite_self 0
  · rw [h, if_neg (Ne.symm ha)]

theorem Unmoved.applyTransaction {coins₀ : Coins} {st₀ : U.State × AccountDB}
    {tx : Transaction × ℕ} (h : Unmoved cfg coins₀ st₀ st)
    (happly : (Blockchain.applyTransaction cfg height tx st).1 = true)
    (houtputs : ∀ out ∈ tx.1.outputs, out.value = 0)
    (hpresent : ∀ o ∈ tx.1.spent, o ∈ coins₀)
    (hinputs : ∀ o ∈ tx.1.spent, ∀ coin, coins₀.lookup o = some coin →
      coin.value = 0 ∨ coin.address = cfg.treasuryAddress) :
    Unmoved cfg coins₀ st₀ (Blockchain.applyTransaction cfg height tx st).2 := by
  -- the accounts
  have hdb : (Blockchain.applyTransaction cfg height tx st).2.2.totalBalance = st.2.totalBalance ∧
      ∀ b, (Blockchain.applyTransaction cfg height tx st).2.2.getBalance b =
        st.2.getBalance b := by
    have hspend := (applyTransaction_fst_iff.1 happly).1
    have hworthless : ∀ out ∈ tx.1.outputs.zipIdx, out.1.value = 0 := fun out hout =>
      houtputs out.1 (List.fst_mem_of_mem_zipIdx hout)
    have hzero := forEach_addOutput_zero cfg height (tx.2 == 0) tx.1.txHash
      (Cpp.forEach (spendInput height) tx.1.inputs st).2 hworthless
    rw [(coins_forEach_spendInput hspend).2] at hzero
    simp only [Blockchain.applyTransaction, hspend, if_true]
    exact hzero
  -- the outputs it creates
  have hcreated : ∀ o ∈ tx.1.created height (tx.2 == 0), o.2.value = 0 := by
    intro o ho
    obtain ⟨out, hout, rfl⟩ := List.mem_map.1 ho
    exact houtputs out.1 (List.fst_mem_of_mem_zipIdx hout)
  refine ⟨hdb.1.trans h.total, fun b => (hdb.2 b).trans (h.balances b), fun a ha => ?_,
    fun o ho coin hlookup => ?_⟩
  · have hvalue := unspentValue_applyTransaction happly a
    have hcreatedValue : ((tx.1.created height (tx.2 == 0)).map fun o =>
        valueFor a o.1 o.2).sum = 0 := by
      refine List.sum_eq_zero fun n hn => ?_
      obtain ⟨o, ho, rfl⟩ := List.mem_map.1 hn
      exact valueFor_eq_zero ha (Or.inl (hcreated o ho))
    have hspentValue : (tx.1.spent.map (Ledger.weightAt (valueFor a) (U.coins st.1))).sum = 0 := by
      refine List.sum_eq_zero fun n hn => ?_
      obtain ⟨o, ho, rfl⟩ := List.mem_map.1 hn
      rw [Ledger.weightAt]
      cases hlookup : (U.coins st.1).lookup o with
      | none => rfl
      | some coin =>
          rw [Option.map_some, Option.getD_some]
          refine valueFor_eq_zero ha ?_
          rcases h.known o (hpresent o ho) coin hlookup with hzero | hold
          · exact Or.inl hzero
          · exact hinputs o ho coin hold
    rw [hcreatedValue, hspentValue] at hvalue
    exact hvalue.trans (h.unspent a ha)
  · rw [coins_applyTransaction happly] at hlookup
    by_cases hout : o ∈ tx.1.outpoints
    · rw [← tx.1.map_fst_created height (tx.2 == 0)] at hout
      obtain ⟨coin', hlookup', hmem⟩ := Ledger.exists_lookup_create
        (m := Ledger.spend (U.coins st.1) tx.1.spent) hout
      change (Ledger.create _ _).lookup o = some coin at hlookup
      rw [hlookup', Option.some_inj] at hlookup
      exact Or.inl (hlookup ▸ hcreated _ hmem)
    · rw [Transaction.lookup_effect_of_not_mem _ _ _ hout] at hlookup
      split at hlookup
      · exact absurd hlookup (by simp)
      · exact h.known o ho coin hlookup

theorem Unmoved.forEach {coins₀ : Coins} {st₀ : U.State × AccountDB} {txs : List (Transaction × ℕ)}
    (h : Unmoved cfg coins₀ st₀ st)
    (happly : (Cpp.forEach (Blockchain.applyTransaction cfg height) txs st).1 = true)
    (houtputs : ∀ tx ∈ txs, ∀ out ∈ tx.1.outputs, out.value = 0)
    (hpresent : ∀ tx ∈ txs, ∀ o ∈ tx.1.spent, o ∈ coins₀)
    (hinputs : ∀ tx ∈ txs, ∀ o ∈ tx.1.spent, ∀ coin, coins₀.lookup o = some coin →
      coin.value = 0 ∨ coin.address = cfg.treasuryAddress) :
    Unmoved cfg coins₀ st₀ (Cpp.forEach (Blockchain.applyTransaction cfg height) txs st).2 := by
  induction txs generalizing st with
  | nil => exact h
  | cons tx txs ih =>
      obtain ⟨hfirst, hrest⟩ := forEach_cons_fst happly
      rw [forEach_cons_true hfirst]
      exact ih
        (h.applyTransaction hfirst (houtputs tx List.mem_cons_self)
          (hpresent tx List.mem_cons_self) (hinputs tx List.mem_cons_self))
        hrest (fun t ht => houtputs t (List.mem_cons_of_mem _ ht))
        (fun t ht => hpresent t (List.mem_cons_of_mem _ ht))
        (fun t ht => hinputs t (List.mem_cons_of_mem _ ht))

/-! ### The coinbase -/

theorem addBalance_recorded {db : AccountDB} {addr : Str} {value : UInt64}
    (hroom : db.Room addr value) (hne : addr ≠ []) (h : Recorded value addr db.outcomes) :
    (db.addBalance addr value).2.totalBalance = db.totalBalance + value.toNat ∧
      (∀ b, ((db.addBalance addr value).2.getBalance b).toNat =
        (db.getBalance b).toNat + if addr = b then value.toNat else 0) ∧
      (db.addBalance addr value).2.outcomes = writesBehind addr db.outcomes := by
  have hput := AccountDB.addBalance_of_room hroom hne
  have houtcomes : (db.addBalance addr value).2.outcomes = writesBehind addr db.outcomes := by
    rw [hput, AccountDB.put_outcomes]
    rfl
  rcases h with rfl | ⟨hkey, hdisk⟩
  · obtain ⟨htotal, hbalance⟩ := db.addBalance_zero addr
    refine ⟨htotal, fun b => ?_, houtcomes⟩
    rw [hbalance]
    exact (ite_self 0).symm ▸ rfl
  · have hok : (db.addBalance addr value).1 = true := by
      rw [hput]
      exact AccountDB.put_fst hkey hdisk
    obtain ⟨htotal, hbalance⟩ := AccountDB.totalBalance_addBalance hok
    exact ⟨htotal, hbalance, houtcomes⟩

/-- The value of the two outputs of a coinbase for an address. -/
def coinbaseValue (reward : UInt64) (minerAddr ownerAddress a : Str) : ℕ :=
  (if minerAddr = a then (reward * 90 / 100).toNat else 0) +
    if ownerAddress = a then (reward - reward * 90 / 100).toNat else 0

theorem coinbase_parts (reward : UInt64) :
    (reward * 90 / 100).toNat + (reward - reward * 90 / 100).toNat = reward.toNat := by
  have hle := minerValue_le reward
  rw [UInt64.toNat_sub_of_le _ _ (UInt64.le_iff_toNat_le.2 hle)]
  omega

theorem addOutput_coinbase_db {hash : Str} {out : TxOutput × ℕ}
    (h : (addOutput cfg height true hash out st).1 = true) :
    (addOutput cfg height true hash out st).2.2 =
      (st.2.addBalance out.1.address out.1.value).2 :=
  if_pos h

/-- **A coinbase that is applied and recorded** adds its reward to both ledgers. -/
theorem applyTransaction_coinbase {reward : UInt64} {minerAddr : Str}
    (happly : (applyTransaction cfg height
      (coinbaseTx reward minerAddr cfg.ownerAddress, 0) st).1 = true)
    (hminer : minerAddr ≠ []) (howner : cfg.ownerAddress ≠ [])
    (hroom : st.2.totalBalance + reward.toNat < 2 ^ 64)
    (hfirst : Recorded (reward * 90 / 100) minerAddr st.2.outcomes)
    (hsecond : Recorded (reward - reward * 90 / 100) cfg.ownerAddress
      (writesBehind minerAddr st.2.outcomes)) :
    (applyTransaction cfg height (coinbaseTx reward minerAddr cfg.ownerAddress, 0)
        st).2.2.totalBalance = st.2.totalBalance + reward.toNat ∧
      (∀ a, ((applyTransaction cfg height (coinbaseTx reward minerAddr cfg.ownerAddress, 0)
          st).2.2.getBalance a).toNat =
        (st.2.getBalance a).toNat + coinbaseValue reward minerAddr cfg.ownerAddress a) ∧
      ∀ a, unspentValue (U.coins (applyTransaction cfg height
          (coinbaseTx reward minerAddr cfg.ownerAddress, 0) st).2.1) a =
        unspentValue (U.coins st.1) a + coinbaseValue reward minerAddr cfg.ownerAddress a := by
  have hparts := coinbase_parts reward
  -- the accounts: two credits, without a fee
  have hdb : (applyTransaction cfg height (coinbaseTx reward minerAddr cfg.ownerAddress, 0)
      st).2.2 = (((st.2.addBalance minerAddr (reward * 90 / 100)).2).addBalance cfg.ownerAddress
        (reward - reward * 90 / 100)).2 := by
    have hloop : applyTransaction cfg height (coinbaseTx reward minerAddr cfg.ownerAddress, 0) st =
        Cpp.forEach (addOutput cfg height true
          (coinbaseTx reward minerAddr cfg.ownerAddress).txHash)
          [(⟨reward * 90 / 100, minerAddr⟩, 0),
            (⟨reward - reward * 90 / 100, cfg.ownerAddress⟩, 1)] st := rfl
    rw [hloop] at happly ⊢
    obtain ⟨hadd₁, hrest⟩ := forEach_cons_fst happly
    have hadd₂ := (forEach_cons_fst hrest).1
    rw [forEach_cons_true hadd₁, forEach_cons_true hadd₂, forEach_nil,
      addOutput_coinbase_db hadd₂, addOutput_coinbase_db hadd₁]
  have hroom₁ : st.2.Room minerAddr (reward * 90 / 100) := by
    have hle := st.2.getBalance_le_totalBalance minerAddr
    unfold AccountDB.Room
    omega
  obtain ⟨htotal₁, hbalance₁, houtcomes₁⟩ := addBalance_recorded hroom₁ hminer hfirst
  have hroom₂ : (st.2.addBalance minerAddr (reward * 90 / 100)).2.Room cfg.ownerAddress
      (reward - reward * 90 / 100) := by
    have hle := (st.2.addBalance minerAddr (reward * 90 / 100)).2.getBalance_le_totalBalance
      cfg.ownerAddress
    unfold AccountDB.Room
    omega
  rw [← houtcomes₁] at hsecond
  obtain ⟨htotal₂, hbalance₂, -⟩ := addBalance_recorded hroom₂ howner hsecond
  rw [hdb]
  refine ⟨by omega, fun a => ?_, fun a => ?_⟩
  · rw [hbalance₂, hbalance₁, coinbaseValue, Nat.add_assoc]
  · have hvalue := unspentValue_applyTransaction happly a
    exact hvalue

/-! ### Calls -/

variable {s : Blockchain U} {c : Call} {block : Block}

theorem persistState_balances (s : Blockchain U) :
    s.persistState.accountDB.totalBalance = s.accountDB.totalBalance ∧
      ∀ a, s.persistState.accountDB.getBalance a = s.accountDB.getBalance a := by
  have hsupply : (str "bal:").isPrefixOf keyTotalSupply = false := by decide
  have hfee : (str "bal:").isPrefixOf keyBaseFee = false := by decide
  obtain ⟨htotal, hbalance⟩ := s.accountDB.put_other (decimal s.totalSupply.toNat) hsupply
  obtain ⟨htotal', hbalance'⟩ := AccountDB.put_other
    (s.accountDB.put keyTotalSupply (decimal s.totalSupply.toNat)).2
    (decimal s.baseFeePerGas.toNat) hfee
  exact ⟨htotal'.trans htotal, fun a => (hbalance' a).trans (hbalance a)⟩

theorem committed_balances (s : Blockchain U) (c : Call) (block : Block) :
    (s.committed c block).accountDB.totalBalance = (s.applied c block).2.2.totalBalance ∧
      ∀ a, (s.committed c block).accountDB.getBalance a =
        (s.applied c block).2.2.getBalance a := by
  rw [committed, adjustBaseFee_eq]
  exact persistState_balances _

theorem supply_add_cappedReward (hcap : s.totalSupply ≤ s.cfg.maxSupply) (now : UInt64) :
    s.totalSupply.toNat + (s.cappedReward now).toNat ≤ s.cfg.maxSupply.toNat := by
  have hle := UInt64.le_iff_toNat_le.1 hcap
  rw [toNat_cappedReward, UInt64.toNat_sub_of_le _ _ hcap]
  omega

/-- The two ledgers after the block of such a call. -/
structure Moved (s : Blockchain U) (c : Call) (st : U.State × AccountDB) : Prop where
  total : st.2.totalBalance =
    s.accountDB.totalBalance + (s.cappedReward c.rewardTime).toNat
  balances : ∀ a, a ≠ s.cfg.treasuryAddress → ∃ value,
    (st.2.getBalance a).toNat = (s.accountDB.getBalance a).toNat + value ∧
      unspentValue (U.coins st.1) a = unspentValue (U.coins s.utxoSet) a + value

theorem Moved.of_unmoved {st' : U.State × AccountDB} (h : Moved s c st)
    (hunmoved : Unmoved s.cfg (U.coins s.utxoSet) st st') : Moved s c st' := by
  refine ⟨hunmoved.total.trans h.total, fun a ha => ?_⟩
  obtain ⟨value, hbalance, hunspent⟩ := h.balances a ha
  exact ⟨value, by rw [hunmoved.balances, hbalance], (hunmoved.unspent a ha).trans hunspent⟩

/-- **The block of such a call** moves its coinbase only, in both ledgers. -/
theorem Conserving.moved (h : Conserving s c) (howner : s.cfg.ownerAddress ≠ [])
    (hroom : s.accountDB.totalBalance + (s.cappedReward c.rewardTime).toNat < 2 ^ 64)
    (hwritten : Written E s c block) (happlied : (s.applied c block).1 = true) :
    Moved s c (s.applied c block).2 := by
  have hvalid := hwritten.valid
  have hloop : s.applied c block = Cpp.forEach (applyTransaction s.cfg s.nextHeight)
      (s.blockTransactions c).zipIdx (s.start c) := by
    rw [← hwritten.transactions]
    rfl
  rw [hloop] at happlied ⊢
  -- the transactions behind the first move nothing
  have hbehind {rest : List Transaction} (hrest : ∀ tx ∈ rest, tx ∈ c.transactions)
      (hpresent : ∀ tx ∈ rest, ∀ o ∈ tx.spent, o ∈ U.coins s.utxoSet)
      {st₀ : U.State × AccountDB} (hst : Unmoved s.cfg (U.coins s.utxoSet) st₀ st₀)
      (hdone : (Cpp.forEach (applyTransaction s.cfg s.nextHeight) (rest.zipIdx 1) st₀).1 = true) :
      Unmoved s.cfg (U.coins s.utxoSet) st₀
        (Cpp.forEach (applyTransaction s.cfg s.nextHeight) (rest.zipIdx 1) st₀).2 := by
    refine hst.forEach hdone ?_ ?_ ?_
    all_goals
      intro tx htx
      have hmem := List.fst_mem_of_mem_zipIdx htx
    · exact h.outputs tx.1 (hrest tx.1 hmem)
    · exact hpresent tx.1 hmem
    · exact h.inputs tx.1 (hrest tx.1 hmem)
  by_cases hzero : s.cappedReward c.rewardTime = 0
  · -- without a coinbase, the first moves nothing either
    have hstart : Moved s c (s.start c) := by
      refine ⟨?_, fun a _ => ⟨0, rfl, rfl⟩⟩
      rw [hzero]
      rfl
    have hsame : Unmoved s.cfg (U.coins s.utxoSet) (s.start c) (s.start c) :=
      ⟨rfl, fun _ => rfl, fun _ _ => rfl, fun _ _ _ hlookup => Or.inr hlookup⟩
    rw [blockTransactions_of_zero hzero] at happlied hvalid ⊢
    cases htxs : c.transactions with
    | nil => exact hstart
    | cons first rest =>
        rw [htxs, List.zipIdx_cons] at happlied
        rw [htxs] at hvalid
        obtain ⟨hfirst, hrest⟩ := forEach_cons_fst happlied
        have hmem : first ∈ c.transactions := by
          rw [htxs]
          exact List.mem_cons_self
        have hspent := (mem_of_forEach_spendInput (applyTransaction_fst_iff.1 hfirst).1).2
        have hmoved := hsame.applyTransaction hfirst (h.outputs first hmem) hspent
          (h.inputs first hmem)
        rw [List.zipIdx_cons, forEach_cons_true hfirst]
        have hlater := hbehind (fun tx htx => by
          rw [htxs]
          exact List.mem_cons_of_mem _ htx) (validated hvalid).present
          ⟨rfl, fun _ => rfl, fun _ _ => rfl, hmoved.known⟩ hrest
        exact (hstart.of_unmoved hmoved).of_unmoved hlater
  · have hpos := cappedReward_pos hzero
    rw [blockTransactions_of_pos hpos] at happlied hvalid ⊢
    rw [List.zipIdx_cons] at happlied ⊢
    obtain ⟨hfirst, hrest⟩ := forEach_cons_fst happlied
    obtain ⟨htotal, hbalance, hunspent⟩ := applyTransaction_coinbase hfirst hwritten.miner howner
      hroom (h.miner hpos) (h.owner hpos)
    have hknown : ∀ o ∈ U.coins s.utxoSet, ∀ coin, (U.coins (applyTransaction s.cfg s.nextHeight
        (coinbaseTx (s.cappedReward c.rewardTime) c.minerAddr s.cfg.ownerAddress, 0)
          (s.start c)).2.1).lookup o = some coin →
        coin.value = 0 ∨ (U.coins s.utxoSet).lookup o = some coin := by
      intro o ho coin hlookup
      have hout : o ∉ (coinbaseTx (s.cappedReward c.rewardTime) c.minerAddr
          s.cfg.ownerAddress).outpoints := fun hmem =>
        List.not_mem_nil ((applyTransaction_fst_iff.1 hfirst).2.2 o hmem ho)
      rw [coins_applyTransaction hfirst, Transaction.lookup_effect_of_not_mem _ _ _ hout] at hlookup
      exact Or.inr hlookup
    rw [forEach_cons_true hfirst]
    have hlater := hbehind (fun tx htx => htx) (validated hvalid).present
      ⟨rfl, fun _ => rfl, fun _ _ => rfl, hknown⟩ hrest
    refine Moved.of_unmoved ⟨htotal, fun a _ => ?_⟩ hlater
    exact ⟨_, hbalance a, hunspent a⟩

theorem mem_transactions {tx : Transaction × ℕ} (h : tx ∈ (s.blockTransactions c).zipIdx)
    (hne : tx.2 ≠ 0) : tx.1 ∈ c.transactions := by
  rw [blockTransactions] at h
  split at h
  · rw [List.zipIdx_cons] at h
    rcases List.mem_cons.1 h with rfl | h
    · exact absurd rfl hne
    · exact List.fst_mem_of_mem_zipIdx h
  · exact List.fst_mem_of_mem_zipIdx h

theorem Conserving.chargedFees (h : Conserving s c) (hwritten : Written E s c block) (a : Str) :
    chargedFees s.cfg block s.nextHeight (s.start c) a = 0 := by
  refine List.sum_eq_zero fun n hn => ?_
  obtain ⟨tx, htx, hn⟩ := List.mem_flatMap.1 hn
  obtain ⟨out, hout, rfl⟩ := List.mem_map.1 hn
  have htx := fst_mem_of_mem_turns htx
  have hout := List.fst_mem_of_mem_zipIdx (fst_mem_of_mem_turns hout)
  split
  · -- the first transaction counts as a coinbase, the others pay nothing
    rw [chargedFee]
    cases hfirst : tx.1.2 == 0 with
    | true => rfl
    | false =>
        have hmem : tx.1.1 ∈ c.transactions := by
          rw [hwritten.transactions] at htx
          exact mem_transactions htx (ne_of_beq_false hfirst)
        have hfee (fee : UInt64) : ¬ min fee out.1.1.value > 0 := by
          rw [h.outputs _ hmem _ hout, gt_iff_lt, UInt64.lt_iff_toNat_lt, toNat_min]
          exact fun hlt => absurd hlt (by simp)
        simp only [if_neg (hfee _), ite_self]
  · rfl

/-! ### Runs -/

variable {fees : Str → ℕ} {cfg : Config}

theorem Accounted.owner {P : Blockchain U → Call → Prop} (h : Accounted E cfg P s fees) :
    s.cfg.ownerAddress ≠ [] := by
  induction h with
  | fresh howner => exact howner
  | addBlock c hs hc hwritten hok ih =>
      obtain ⟨block, -, -, hnext⟩ := exists_of_addBlock hok
      rwa [hnext, committed_cfg]

theorem Accounted.cap {P : Blockchain U → Call → Prop} (h : Accounted E cfg P s fees) :
    s.totalSupply ≤ s.cfg.maxSupply := by
  induction h with
  | fresh howner => exact UInt64.le_iff_toNat_le.2 (Nat.zero_le _)
  | addBlock c hs hc hwritten hok ih =>
      obtain ⟨block, -, -, hnext⟩ := exists_of_addBlock hok
      have hle := supply_add_cappedReward ih c.rewardTime
      have hlt := UInt64.toNat_lt
      rw [hnext, committed_cfg, committed_totalSupply, UInt64.le_iff_toNat_le, UInt64.toNat_add]
      exact (Nat.mod_le _ _).trans hle

/-- **The two ledgers agree** after every run of successful calls that meet the condition. -/
theorem ledgers_agree (h : Accounted E cfg Conserving s fees) : Agrees s fees := by
  induction h with
  | fresh howner =>
      refine ⟨rfl, fun a _ => ?_⟩
      have hunspent : unspentValue (U.coins (Blockchain.fresh U cfg).utxoSet) a = 0 := by
        change Ledger.total _ (U.coins U.fresh) = 0
        rw [U.coins_fresh]
        rfl
      have hbalance : (Blockchain.fresh U cfg).accountDB.getBalance a = 0 := by
        change ({} : AccountDB).getBalance a = 0
        simp [AccountDB.getBalance, AccountDB.get]
      rw [hunspent, hbalance]
      rfl
  | @addBlock s fees c block hs hc hwritten hok ih =>
      have hspec := writtenBlock_spec hwritten
      obtain ⟨block', hwritten', happlied, hnext⟩ := exists_of_addBlock hok
      obtain rfl : block' = block := Option.some.inj (hwritten'.symm.trans hwritten)
      have hsupply := supply_add_cappedReward hs.cap c.rewardTime
      have hroom : s.accountDB.totalBalance + (s.cappedReward c.rewardTime).toNat < 2 ^ 64 := by
        rw [ih.supply]
        exact hsupply.trans_lt (UInt64.toNat_lt _)
      obtain ⟨htotal, hbalances⟩ := hc.moved hs.owner hroom hspec happlied
      obtain ⟨htotal', hbalances'⟩ := committed_balances s c block'
      rw [hnext]
      refine ⟨?_, fun a ha => ?_⟩
      · rw [htotal', htotal, committed_totalSupply, UInt64.toNat_add, ih.supply, Nat.mod_eq_of_lt]
        rwa [ih.supply] at hroom
      · rw [committed_cfg] at ha
        obtain ⟨value, hbalance, hunspent⟩ := hbalances a ha
        have hbefore := ih.balances a ha
        rw [hbalances', committed_utxoSet, hbalance, hunspent, hc.chargedFees hspec a]
        omega

theorem ledgers_agree_started :
    ∃ fees, Agrees sampleStarted fees ∧ sampleStarted.totalSupply = 55 := by
  have hfresh : Accounted sampleLibrary sampleEasyConfig Conserving sampleEasy fun _ => 0 :=
    .fresh (by decide)
  have hconserving : Conserving sampleEasy (sampleOwnerCall 1000) :=
    ⟨fun _ => Or.inr ⟨by decide, by decide⟩, fun _ => Or.inr ⟨by decide, by decide⟩,
      fun tx htx => absurd htx List.not_mem_nil, fun tx htx => absurd htx List.not_mem_nil⟩
  have hok : (sampleEasy.addBlock sampleLibrary (sampleOwnerCall 1000)).1 = true := by
    rw [sampleEasy_addBlock]
  obtain ⟨block, hwritten, -, -⟩ := exists_of_addBlock hok
  have hrun := Accounted.addBlock (sampleOwnerCall 1000) hfresh hconserving hwritten hok
  rw [sampleEasy_addBlock] at hrun
  exact ⟨_, ledgers_agree hrun, by decide⟩

/-- **A payment brings the ledgers apart**: in the first block of a network, two outputs of `2 ^ 63`
to one address are created from nothing, and the second of them cannot be credited. -/
theorem ledgers_disagree :
    (∃ fees, Accounted sampleLibrary sampleFreeConfig (fun _ _ => True) sampleGiven fees) ∧
      ∀ fees, ¬ Agrees sampleGiven fees := by
  constructor
  · have hfresh : Accounted sampleLibrary sampleFreeConfig (fun _ _ => True) sampleFree
        fun _ => 0 := .fresh (by decide)
    have hok : (sampleFree.addBlock sampleLibrary sampleGiftCall).1 = true := by
      rw [sampleFree_addBlock]
    obtain ⟨block, hwritten, -, -⟩ := exists_of_addBlock hok
    have hrun := Accounted.addBlock sampleGiftCall hfresh trivial hwritten hok
    rw [sampleFree_addBlock] at hrun
    exact ⟨_, hrun⟩
  · intro fees h
    have hsupply : sampleGiven.accountDB.totalBalance ≠ sampleGiven.totalSupply.toNat := by
      decide +kernel
    exact hsupply h.supply

end Blockchain

end Node
