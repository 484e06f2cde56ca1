/-
**The supply across crashes and restarts.**

The total supply is a number of its own in the account database, and it is written there after the
block is in the block database.  A process that dies in between comes back with the block and
without its reward; so does one that writes a block whose application fails.  The supply is the sum
of the rewards of the chain as long as each block that is written counts in the database for what it
adds to the supply, and the supply on the disk is the one in memory when the process ends.

Main definitions:

* `Node.entryReward` — what an entry of the block database counts for;
* `Node.Blockchain.CrashPoint`, `Node.Blockchain.crashed` — what a process that dies leaves behind;
* `Node.Blockchain.Incident`, `Node.Blockchain.step`, `Node.Blockchain.History`;
* `Node.Blockchain.Minted` — **the supply is the sum of the rewards, and below its maximum**;
* `Node.Blockchain.Safe` — what an incident is to be for that.

Main results:

* `Node.Blockchain.Backed.step` — an incident that is safe keeps the two databases in agreement;
* `Node.Blockchain.supply_minted` — **so does a history of such incidents**;
* `Node.Blockchain.supply_crashed` — a process that dies in its first block has a reward too many.
-/

import MedorCoin.Node.Restart

set_option autoImplicit false

namespace Node

open Cpp

/-! ### The rewards of the block database -/

/-- What an entry of the block database counts for: the reward of its block, if it can be read. -/
def entryReward (hash raw : Str) : ℕ :=
  ((readEntry (hash, raw)).map fun b => b.reward.toNat).getD 0

/-- What is counted under a hash. -/
def storedReward (db : Js.Map Str Str) (hash : Str) : ℕ :=
  ((db.get? hash).map (entryReward hash)).getD 0

/-- The rewards of a list of blocks. -/
def rewards (blocks : List Block) : ℕ := (blocks.map fun b => b.reward.toNat).sum

theorem rewards_perm {blocks blocks' : List Block} (h : blocks.Perm blocks') :
    rewards blocks = rewards blocks' := (h.map _).sum_eq

theorem rewards_append (blocks blocks' : List Block) :
    rewards (blocks ++ blocks') = rewards blocks + rewards blocks' := by
  rw [rewards, List.map_append, List.sum_append, rewards, rewards]

theorem rewards_loadedBlocks (db : Js.Map Str Str) :
    rewards (loadedBlocks db) = (db.entries.map fun e => entryReward e.1 e.2).sum := by
  rw [rewards_perm (loadedBlocks_perm db)]
  induction db.entries with
  | nil => rfl
  | cons e entries ih =>
      rw [List.filterMap_cons, List.map_cons, List.sum_cons, ← ih, entryReward]
      cases readEntry e with
      | none => exact (Nat.zero_add _).symm
      | some b => rfl

/-- **What a write does to the rewards of the database.** -/
theorem rewards_loadedBlocks_set (db : Js.Map Str Str) (hash raw : Str) :
    rewards (loadedBlocks (db.set hash raw)) + storedReward db hash =
      rewards (loadedBlocks db) + entryReward hash raw := by
  rw [rewards_loadedBlocks, rewards_loadedBlocks]
  exact Js.Map.sum_map_set entryReward db hash raw

namespace Blockchain

variable {U : UtxoSet}

/-! ### Histories -/

/-- The supply on the disk. -/
def storedSupply (db : AccountDB) : UInt64 :=
  match db.get keyTotalSupply with
  | some val => (stoull val).getD 0
  | none => 0

/-- Where a process dies that has written a block: after a number of writes to the account database
that belong to the application, or after the write of the supply. -/
inductive CrashPoint
  | applying (writes : ℕ)
  | persisting
  deriving DecidableEq

/-- The call, on a disk that takes no write after some number of them. -/
def dying (c : Call) (block : Block) (writes : ℕ) : Call :=
  { c with accountWrites := (c.accountWrites ++ List.replicate writes true).take writes ++
      List.replicate (3 * (block.transactions.map fun tx => tx.outputs.length).sum) false }

/-- What a process that dies in a call leaves in the databases. -/
def crashed (E : Secp256k1) (s : Blockchain U) (c : Call) (point : CrashPoint) :
    Js.Map Str Str × AccountDB :=
  match s.writtenBlock E c with
  | none => (s.blockDB, s.accountDB)
  | some block =>
      (s.blockDB.set block.hash block.serialize,
        match point with
        | .applying writes => (s.applied (dying c block writes) block).2.2
        | .persisting =>
            if (s.applied c block).1 then
              ((s.applied c block).2.2.put keyTotalSupply
                (decimal (s.totalSupply + s.cappedReward c.rewardTime).toNat)).2
            else (s.applied c block).2.2)

/-- What can happen: a call, a restart at the outcomes of the last two writes, or the end of the
process in a call and a new one on the databases it leaves.  The call that a constructor makes where
it finds no block is a call like the others. -/
inductive Incident
  | call (c : Call)
  | restart (writes : List Bool)
  | crash (c : Call) (point : CrashPoint)

/-- The state after an incident. -/
def step (S : StdSort Block.earlier) (E : Secp256k1) (s : Blockchain U) : Incident → Blockchain U
  | .call c => (s.addBlock E c).2
  | .restart writes => opened S s.cfg (s.destroyed writes).blockDB (s.destroyed writes).accountDB
  | .crash c point => opened S s.cfg (s.crashed E c point).1 (s.crashed E c point).2

/-- **The histories of a node** by incidents that meet a condition. -/
inductive History (S : StdSort Block.earlier) (E : Secp256k1) (cfg : Config)
    (P : Blockchain U → Incident → Prop) : Blockchain U → Prop
  | fresh : cfg.ownerAddress ≠ [] → History S E cfg P (fresh U cfg)
  | step {s : Blockchain U} (i : Incident) :
      History S E cfg P s → P s i → History S E cfg P (s.step S E i)

/-- **The supply is the sum of the rewards** of the chain, and below its maximum. -/
structure Minted (s : Blockchain U) : Prop where
  supply : s.totalSupply.toNat = rewards s.chain
  cap : s.totalSupply ≤ s.cfg.maxSupply

/-- The block database counts for the supply as well. -/
structure Backed (s : Blockchain U) : Prop extends Minted s where
  database : s.totalSupply.toNat = rewards (loadedBlocks s.blockDB)

/-- A block counts in the database for an amount more than what it replaces there. -/
def Counts (s : Blockchain U) (block : Block) (amount : ℕ) : Prop :=
  entryReward block.hash block.serialize = storedReward s.blockDB block.hash + amount

/-- The supply on the disk is the one in memory. -/
def Persisted (s : Blockchain U) : Prop := storedSupply s.accountDB = s.totalSupply

/-- **A call is safe** if the block it writes counts for its reward, or for nothing if it fails. -/
def SafeCall (E : Secp256k1) (s : Blockchain U) (c : Call) : Prop :=
  ∀ block, s.writtenBlock E c = some block →
    if (s.applied c block).1 then Counts s block (s.cappedReward c.rewardTime).toNat
    else Counts s block 0

/-- **The end of a process in a call is safe** if it comes behind the write of the supply, the block
counts for its reward, and the disk takes the supply or has it already; or if the supply is on the
disk and the block that was written, if there is one, counts for nothing. -/
def SafeCrash (E : Secp256k1) (s : Blockchain U) (c : Call) (point : CrashPoint) : Prop :=
  match s.writtenBlock E c with
  | none => Persisted s
  | some block =>
      if point = .persisting ∧ (s.applied c block).1 = true then
        Counts s block (s.cappedReward c.rewardTime).toNat ∧
          (storedSupply s.accountDB = s.totalSupply + s.cappedReward c.rewardTime ∨
            (s.applied c block).2.2.outcomes.head? ≠ some false)
      else Persisted s ∧ Counts s block 0

/-- **What an incident is to be for the supply to be the sum of the rewards.** -/
def Safe (E : Secp256k1) (s : Blockchain U) : Incident → Prop
  | .call c => SafeCall E s c
  | .restart writes => Persisted s ∨ writes.head? ≠ some false
  | .crash c point => SafeCrash E s c point

/-! ### The supply on the disk -/

variable {S : StdSort Block.earlier} {E : Secp256k1} {cfg : Config} {s : Blockchain U} {c : Call}
  {block : Block}

theorem keyTotalSupply_ne (addr : Str) : AccountDB.balanceKey addr ≠ keyTotalSupply := by
  intro h
  have hprefix := AccountDB.isPrefixOf_balanceKey addr
  rw [h] at hprefix
  exact absurd hprefix (by decide)

theorem get_setBalance (db : AccountDB) (addr : Str) (amount : UInt64) :
    (db.setBalance addr amount).2.get keyTotalSupply = db.get keyTotalSupply := by
  unfold AccountDB.setBalance
  split
  · rfl
  · exact db.get_put_of_ne _ (keyTotalSupply_ne addr)

theorem get_addBalance (db : AccountDB) (addr : Str) (amount : UInt64) :
    (db.addBalance addr amount).2.get keyTotalSupply = db.get keyTotalSupply := by
  unfold AccountDB.addBalance
  split
  · rfl
  · split
    · rfl
    · exact get_setBalance db addr _

theorem get_deductBalance (db : AccountDB) (addr : Str) (amount : UInt64) :
    (db.deductBalance addr amount).2.get keyTotalSupply = db.get keyTotalSupply := by
  unfold AccountDB.deductBalance
  split
  · rfl
  · split
    · rfl
    · exact get_setBalance db addr _

theorem get_creditOutput (cfg : Config) (isCoinbase : Bool) (out : TxOutput) (db : AccountDB) :
    (creditOutput cfg isCoinbase out db).get keyTotalSupply = db.get keyTotalSupply := by
  simp only [creditOutput]
  split
  · exact get_addBalance db _ _
  · split
    · split
      · rw [get_addBalance, get_deductBalance, get_addBalance]
      · rw [get_deductBalance, get_addBalance]
    · exact get_addBalance db _ _

/-- **An application does not touch the supply on the disk**, whether it fails or not. -/
theorem get_applyBlockToState (cfg : Config) (block : Block) (height : UInt64)
    (st : U.State × AccountDB) :
    (applyBlockToState cfg block height st).2.2.get keyTotalSupply = st.2.get keyTotalSupply := by
  refine forEach_invariant (applyTransaction (U := U) cfg height)
    (fun st' => st'.2.get keyTotalSupply = st.2.get keyTotalSupply) (fun tx _ st' ih => ?_) rfl
  have hspend : (forEach (spendInput height) tx.1.inputs st').2.2.get keyTotalSupply =
      st.2.get keyTotalSupply :=
    forEach_invariant (spendInput (U := U) height)
      (fun st' => st'.2.get keyTotalSupply = st.2.get keyTotalSupply) (fun _ _ _ ih => ih) ih
  simp only [applyTransaction]
  split
  · refine forEach_invariant (addOutput (U := U) cfg height (tx.2 == 0) tx.1.txHash)
      (fun st' => st'.2.get keyTotalSupply = st.2.get keyTotalSupply) (fun out _ st'' ih' => ?_)
      hspend
    simp only [addOutput]
    split
    · exact (get_creditOutput _ _ _ _).trans ih'
    · exact ih'
  · exact hspend

theorem storedSupply_applied (s : Blockchain U) (c : Call) (block : Block) :
    storedSupply (s.applied c block).2.2 = storedSupply s.accountDB := by
  have hget := get_applyBlockToState s.cfg block s.nextHeight
    (s.utxoSet, { s.accountDB with outcomes := c.accountWrites })
  rw [storedSupply, applied, hget]
  rfl

/-- **The supply that is written** is on the disk, if the disk takes it or had it before. -/
theorem storedSupply_put {db : AccountDB} {n : UInt64}
    (h : storedSupply db = n ∨ db.outcomes.head? ≠ some false) :
    storedSupply (db.put keyTotalSupply (decimal n.toNat)).2 = n := by
  cases hput : (db.put keyTotalSupply (decimal n.toNat)).1 with
  | true =>
      rw [storedSupply, AccountDB.get_put_self hput]
      simp only [stoull_decimal, Option.getD_some]
  | false =>
      rcases h with h | h
      · rw [storedSupply, AccountDB.get, AccountDB.put_false hput]
        exact h
      · rw [AccountDB.put_fst (by decide) h] at hput
        exact Bool.noConfusion hput

theorem storedSupply_destroyed {writes : List Bool} (h : Persisted s ∨ writes.head? ≠ some false) :
    storedSupply (s.destroyed writes).accountDB = s.totalSupply := by
  have hkeys : keyBaseFee ≠ keyTotalSupply := by decide
  have hput := @storedSupply_put { s.accountDB with outcomes := writes } s.totalSupply h
  rw [← hput]
  simp only [storedSupply]
  rw [destroyed, persistState]
  simp only [AccountDB.get_put_of_ne _ _ hkeys]

/-! ### What an incident does -/

/-- **A new process** on databases that agree. -/
theorem backed_opened {db : Js.Map Str Str} {accountDB : AccountDB}
    (hdatabase : (storedSupply accountDB).toNat = rewards (loadedBlocks db))
    (hcap : storedSupply accountDB ≤ cfg.maxSupply) :
    Backed (opened S cfg db accountDB : Blockchain U) where
  supply := by
    have hperm : (opened S cfg db accountDB : Blockchain U).chain.Perm (loadedBlocks db) :=
      S.perm _
    rw [rewards_perm hperm]
    exact hdatabase
  cap := hcap
  database := hdatabase

theorem Backed.rewards_set (h : Backed s) {amount : ℕ} (hcounts : Counts s block amount) :
    rewards (loadedBlocks (s.blockDB.set block.hash block.serialize)) =
      s.totalSupply.toNat + amount := by
  have hset := rewards_loadedBlocks_set s.blockDB block.hash block.serialize
  rw [hcounts, ← h.database] at hset
  omega

theorem Minted.toNat_add (h : Minted s) (now : UInt64) :
    (s.totalSupply + s.cappedReward now).toNat =
        s.totalSupply.toNat + (s.cappedReward now).toNat ∧
      s.totalSupply + s.cappedReward now ≤ s.cfg.maxSupply := by
  have hle := supply_add_cappedReward h.cap now
  have hsum : (s.totalSupply + s.cappedReward now).toNat =
      s.totalSupply.toNat + (s.cappedReward now).toNat := by
    have hlt := s.cfg.maxSupply.toNat_lt
    rw [UInt64.toNat_add, Nat.mod_eq_of_lt]
    omega
  exact ⟨hsum, by rw [UInt64.le_iff_toNat_le, hsum]; exact hle⟩

theorem Backed.addBlock (h : Backed s) (hsafe : SafeCall E s c) : Backed (s.addBlock E c).2 := by
  cases hwritten : s.writtenBlock E c with
  | none =>
      rw [addBlock_of_rejected hwritten]
      exact h
  | some block =>
      have hcounts := hsafe block hwritten
      cases happlied : (s.applied c block).1 with
      | false =>
          rw [happlied, if_neg Bool.false_ne_true] at hcounts
          rw [addBlock_of_failed hwritten happlied]
          exact ⟨⟨h.supply, h.cap⟩, (h.rewards_set hcounts).symm⟩
      | true =>
          rw [happlied, if_pos rfl] at hcounts
          obtain ⟨hsum, hcap⟩ := h.toNat_add c.rewardTime
          rw [addBlock_of_applied hwritten happlied]
          refine ⟨⟨?_, ?_⟩, ?_⟩
          · have hreward := (writtenBlock_spec hwritten).fields.1
            rw [committed_totalSupply, committed_chain, rewards_append, hsum, h.supply, ← hreward]
            rfl
          · rw [committed_totalSupply, committed_cfg]
            exact hcap
          · rw [committed_totalSupply, committed_blockDB, h.rewards_set hcounts, hsum]

theorem Backed.crash (h : Backed s) {point : CrashPoint} (hsafe : SafeCrash E s c point) :
    Backed (opened S s.cfg (s.crashed E c point).1 (s.crashed E c point).2 : Blockchain U) := by
  unfold SafeCrash at hsafe
  unfold crashed
  cases hwritten : s.writtenBlock E c with
  | none =>
      rw [hwritten] at hsafe
      have hstored : storedSupply s.accountDB = s.totalSupply := hsafe
      exact backed_opened (by rw [hstored]; exact h.database) (by rw [hstored]; exact h.cap)
  | some block =>
      rw [hwritten] at hsafe
      simp only at hsafe ⊢
      split at hsafe
      · next hreached =>
          -- the supply was written behind the block
          obtain ⟨rfl, happlied⟩ := hreached
          obtain ⟨hcounts, hdisk⟩ := hsafe
          obtain ⟨hsum, hcap⟩ := h.toNat_add c.rewardTime
          rw [← storedSupply_applied s c block] at hdisk
          have hstored := storedSupply_put hdisk
          simp only [happlied, if_true]
          refine backed_opened ?_ ?_
          · rw [hstored, hsum]
            exact (h.rewards_set hcounts).symm
          · rw [hstored]
            exact hcap
      · next hreached =>
          -- nothing was written to the account database but balances
          obtain ⟨hpersisted, hcounts⟩ := hsafe
          have hleft (db : AccountDB) (hdb : storedSupply db = storedSupply s.accountDB) :
              Backed (opened S s.cfg (s.blockDB.set block.hash block.serialize) db :
                Blockchain U) := by
            have hstored : storedSupply db = s.totalSupply := hdb.trans hpersisted
            refine backed_opened ?_ ?_
            · rw [hstored]
              exact (h.rewards_set hcounts).symm
            · rw [hstored]
              exact h.cap
          cases point with
          | applying writes => exact hleft _ (storedSupply_applied s (dying c block writes) block)
          | persisting =>
              have happlied : ¬ (s.applied c block).1 = true := fun h => hreached ⟨rfl, h⟩
              simp only [happlied]
              exact hleft _ (storedSupply_applied s c block)

/-- **A block whose strings are free of the delimiter** counts for its reward, if it has a timestamp
and not too many transactions, and nothing is counted under its hash. -/
theorem counts_of_delimited (hwritten : Written E s c block) (hdelimited : block.Delimited)
    (htime : c.stampTime ≠ 0) (hcount : block.transactions.length ≤ 10000)
    (hfresh : storedReward s.blockDB block.hash = 0) :
    Counts s block (s.cappedReward c.rewardTime).toNat := by
  obtain ⟨hreward, -, htimestamp, -⟩ := hwritten.fields
  have hread := Block.deserialize_serialize hdelimited hwritten.difficulty_le
    (by rwa [htimestamp]) hcount {}
  have hentry : readEntry (block.hash, block.serialize) = some block.stored := by
    rw [readEntry, if_pos hwritten.isValidHash, readText, hread, if_pos rfl]
  rw [Counts, entryReward, hentry, hfresh, ← hreward, Nat.zero_add]
  rfl

/-- **An incident that is safe** keeps the two databases in agreement. -/
theorem Backed.step (h : Backed s) (i : Incident) (hsafe : Safe E s i) :
    Backed (s.step S E i) := by
  cases i with
  | call c => exact h.addBlock hsafe
  | restart writes =>
      have hstored := storedSupply_destroyed hsafe
      refine backed_opened ?_ ?_
      · rw [hstored]
        exact h.database
      · rw [hstored]
        exact h.cap
  | crash c point => exact h.crash hsafe

theorem History.backed (h : History S E cfg (Safe E) s) : Backed s := by
  induction h with
  | fresh =>
      have hempty : loadedBlocks Js.Map.empty = [] := (loadedBlocks_perm Js.Map.empty).eq_nil
      refine ⟨⟨rfl, UInt64.le_iff_toNat_le.2 (Nat.zero_le _)⟩, ?_⟩
      change 0 = rewards (loadedBlocks Js.Map.empty)
      rw [hempty]
      rfl
  | step i _ hsafe ih => exact ih.step i hsafe

/-- **The supply across crashes and restarts**: in every history of safe incidents it is the sum of
the rewards of the chain, it is below its maximum, and what is left of it does not wrap. -/
theorem supply_minted (h : History S E cfg (Safe E) s) :
    Minted s ∧ (s.cfg.maxSupply - s.totalSupply).toNat =
      s.cfg.maxSupply.toNat - s.totalSupply.toNat := by
  have hminted := h.backed.toMinted
  exact ⟨hminted, UInt64.toNat_sub_of_le _ _ hminted.cap⟩

/-! ### What an incident leaves behind -/

theorem step_call (S : StdSort Block.earlier) (E : Secp256k1) (s : Blockchain U) (c : Call) :
    s.step S E (.call c) = (s.addBlock E c).2 := rfl

theorem totalSupply_restart (S : StdSort Block.earlier) (E : Secp256k1) (s : Blockchain U)
    (writes : List Bool) :
    (s.step S E (.restart writes)).totalSupply = storedSupply (s.destroyed writes).accountDB := rfl

theorem totalSupply_crash (S : StdSort Block.earlier) (E : Secp256k1) (s : Blockchain U) (c : Call)
    (point : CrashPoint) :
    (s.step S E (.crash c point)).totalSupply = storedSupply (s.crashed E c point).2 := rfl

theorem crashed_applying {E : Secp256k1} {s : Blockchain U} {c : Call} {block : Block}
    (h : s.writtenBlock E c = some block) (writes : ℕ) :
    (s.crashed E c (.applying writes)).1 = s.blockDB.set block.hash block.serialize ∧
      storedSupply (s.crashed E c (.applying writes)).2 = storedSupply s.accountDB := by
  rw [crashed, h]
  exact ⟨rfl, storedSupply_applied s _ block⟩

theorem chain_crash_perm (S : StdSort Block.earlier) (E : Secp256k1) (s : Blockchain U) (c : Call)
    (point : CrashPoint) :
    (s.step S E (.crash c point)).chain.Perm (loadedBlocks (s.crashed E c point).1) := S.perm _

theorem supply_minted_started :
    Minted (sampleStarted.step StdSort.stable sampleLibrary (.restart [])) ∧
      (sampleStarted.step StdSort.stable sampleLibrary (.restart [])).totalSupply = 55 := by
  have hfresh : History StdSort.stable sampleLibrary sampleEasyConfig (Safe sampleLibrary)
      sampleEasy := History.fresh (by decide)
  have hsafe : SafeCall sampleLibrary sampleEasy (sampleOwnerCall 1000) := by
    intro block hblock
    have hspec := writtenBlock_spec hblock
    obtain rfl : block = sampleGenesisBlock :=
      Option.some.inj (hblock.symm.trans sampleEasy_writtenBlock)
    rw [sampleGenesisBlock_applied, if_pos rfl]
    exact counts_of_delimited hspec sampleGenesisBlock_delimited (by decide)
      (by rw [sampleGenesisBlock_transactions]; decide) rfl
  have hstarted := hfresh.step (.call (sampleOwnerCall 1000)) hsafe
  rw [step_call, sampleEasy_addBlock] at hstarted
  have hdisk : Persisted sampleStarted ∨ ([] : List Bool).head? ≠ some false :=
    Or.inr (by decide)
  have hsupply :
      (sampleStarted.step StdSort.stable sampleLibrary (.restart [])).totalSupply = 55 := by
    rw [totalSupply_restart, storedSupply_destroyed hdisk]
    decide
  exact ⟨(supply_minted (hstarted.step (.restart []) hdisk)).1, hsupply⟩

/-- What a process leaves behind that dies in the first block of the owner before it has written
anything to the account database. -/
theorem sampleEasy_crashed :
    (sampleEasy.crashed sampleLibrary (sampleOwnerCall 1000) (.applying 0)).1 =
        Js.Map.empty.set sampleGenesisBlock.hash sampleGenesisBlock.serialize ∧
      storedSupply
        (sampleEasy.crashed sampleLibrary (sampleOwnerCall 1000) (.applying 0)).2 = 0 := by
  obtain ⟨hblocks, hsupply⟩ := crashed_applying sampleEasy_writtenBlock 0
  exact ⟨hblocks, hsupply.trans rfl⟩

/-- **A process that dies in its first block**, which is the one the constructor adds: the next
process has the block in its chain, but not its reward in the supply. -/
theorem supply_crashed :
    genesisCall sampleEasyConfig (sampleOwnerCall 1000) = sampleOwnerCall 1000 ∧
      ∀ S : StdSort Block.earlier,
        History S sampleLibrary sampleEasyConfig (fun _ _ => True)
            (sampleEasy.step S sampleLibrary (.crash (sampleOwnerCall 1000) (.applying 0))) ∧
          ¬ Minted (sampleEasy.step S sampleLibrary
            (.crash (sampleOwnerCall 1000) (.applying 0))) := by
  refine ⟨rfl, fun S => ⟨(History.fresh (by decide)).step _ trivial, fun hminted => ?_⟩⟩
  obtain ⟨hblocks, hsupply⟩ := sampleEasy_crashed
  have hperm : (sampleEasy.step S sampleLibrary
      (.crash (sampleOwnerCall 1000) (.applying 0))).chain.Perm [sampleGenesisBlock.stored] := by
    rw [← loadedBlocks_sampleGenesisBlock, ← hblocks]
    exact chain_crash_perm S sampleLibrary sampleEasy _ _
  have hsum := hminted.supply
  rw [rewards_perm hperm, totalSupply_crash, hsupply] at hsum
  exact absurd hsum (by decide)

end Blockchain

end Node
