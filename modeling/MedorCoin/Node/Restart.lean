/-
**Restarts of the C++ node.**

The destructor writes the supply and the base fee to the account database.  The constructor reads
them back, reads each block of the block database in the order of the keys, and sorts what it has
read by the timestamps; the unspent outputs it does not read from anywhere.  So a restart keeps what
it should as long as no block has a coinbase, or any other input or output, the texts of the blocks
are read back, and no two blocks are of one second.

Main definitions:

* `Node.StdSort` — `std::sort`, which does not say how elements are ordered that compare equal;
* `Node.readBlock`, `Node.loadedBlocks`;
* `Node.Blockchain.loadPersistedState`, `Node.Blockchain.loadChainFromDB`;
* `Node.Blockchain.opened`, `Node.Blockchain.construct`, `Node.Blockchain.restart`;
* `Node.Blockchain.SameAs` — two states look the same;
* `Node.Blockchain.Durable` — what a call is to be for its block to outlast a restart.

Main results:

* `Node.Blockchain.SameAs.addBlock` — states that look the same accept the same blocks;
* `Node.Blockchain.restart_same` — **a restart keeps the state** after a run of such calls;
* `Node.Blockchain.restart_forgets` — after the first block of a network it does not.
-/

import MedorCoin.Node.Balances
import MedorCoin.Node.BlockText
import MedorCoin.Node.Coinbase

set_option autoImplicit false

namespace Node

open Cpp

/-! ### Reading the databases -/

/-- **An implementation of `std::sort`** by a comparison.  How it orders elements neither of which
is less than the other is not specified. -/
structure StdSort {α : Type} (less : α → α → Bool) where
  sort : List α → List α
  perm : ∀ l, (sort l).Perm l
  sorted : ∀ l, (sort l).Pairwise fun a b => less b a = false

/-- The comparison of the constructor. -/
def Block.earlier (a b : Block) : Bool := decide (a.timestamp < b.timestamp)

/-- A stable sort by timestamps. -/
def StdSort.stable : StdSort Block.earlier where
  sort l := l.mergeSort fun a b => !b.earlier a
  perm l := List.mergeSort_perm l _
  sorted l := by
    have htrans (a b c : Block) (hab : (!b.earlier a) = true) (hbc : (!c.earlier b) = true) :
        (!c.earlier a) = true := by
      simp only [Block.earlier, Bool.not_eq_true', decide_eq_false_iff_not, UInt64.not_lt] at *
      exact UInt64.le_trans hab hbc
    have htotal (a b : Block) : (!b.earlier a || !a.earlier b) = true := by
      simp only [Block.earlier, Bool.or_eq_true, Bool.not_eq_true', decide_eq_false_iff_not,
        UInt64.not_lt]
      exact UInt64.le_total _ _
    exact (List.pairwise_mergeSort htrans htotal l).imp fun hab => by simpa using hab

/-- The block a text reads back as, if it does. -/
def readText (raw : Str) : Option Block :=
  if (Block.deserialize {} raw).1 then some (Block.deserialize {} raw).2 else none

/-- `BlockDB::readBlock(hash, ..)` into a fresh block. -/
def readBlock (db : Js.Map Str Str) (hash : Str) : Option Block :=
  if Blockchain.isValidHash hash then (db.get? hash).bind readText else none

/-- The blocks of the database that can be read, in the order of their keys. -/
def loadedBlocks (db : Js.Map Str Str) : List Block :=
  (db.keys.mergeSort fun a b => decide (a ≤ b)).filterMap (readBlock db)

/-- The block of an entry, if it can be read. -/
def readEntry (e : Str × Str) : Option Block :=
  if Blockchain.isValidHash e.1 then readText e.2 else none

theorem readBlock_of_get {db : Js.Map Str Str} {hash raw : Str} (h : db.get? hash = some raw) :
    readBlock db hash = readEntry (hash, raw) := by
  rw [readBlock, h, Option.bind_some, readEntry]

theorem loadedBlocks_perm (db : Js.Map Str Str) :
    (loadedBlocks db).Perm (db.entries.filterMap readEntry) := by
  have hkeys : db.keys.filterMap (readBlock db) = db.entries.filterMap readEntry := by
    rw [Js.Map.keys, List.filterMap_map]
    exact List.filterMap_congr fun e he => readBlock_of_get (Js.Map.get?_of_mem he)
  rw [← hkeys]
  exact (List.mergeSort_perm _ _).filterMap _

theorem readBlock_empty (hash : Str) : readBlock Js.Map.empty hash = none := by
  rw [readBlock, Js.Map.get?_empty, Option.bind_none, ite_self]

/-- **What is read after a write** under a key under which nothing could be read. -/
theorem loadedBlocks_set {db : Js.Map Str Str} {hash : Str} (raw : Str)
    (h : readBlock db hash = none) :
    (loadedBlocks (db.set hash raw)).Perm (loadedBlocks db ++ (readEntry (hash, raw)).toList) := by
  have hstore := Js.filterMap_store readEntry raw (k := hash) (l := db.entries) fun raw' hraw' => by
    rw [← readBlock_of_get hraw', h]
  exact (loadedBlocks_perm _).trans (hstore.trans ((loadedBlocks_perm db).symm.append_right _))

theorem StdSort.sort_eq (S : StdSort Block.earlier) {blocks chain : List Block}
    (h : blocks.Perm chain) (hordered : chain.Pairwise fun a b => a.timestamp < b.timestamp) :
    S.sort blocks = chain := by
  have hdistinct : (chain.map Block.timestamp).Nodup :=
    List.pairwise_map.2 (hordered.imp fun hlt => UInt64.ne_of_lt hlt)
  have hperm := (S.perm blocks).trans h
  refine hperm.eq_of_pairwise (fun a b ha hb hab hba => ?_) (S.sorted blocks)
    (hordered.imp fun hlt => ?_)
  · rw [Block.earlier, decide_eq_false_iff_not, UInt64.not_lt] at hab hba
    exact List.inj_on_of_nodup_map hdistinct (hperm.subset ha) hb (UInt64.le_antisymm hab hba)
  · rw [Block.earlier, decide_eq_false_iff_not, UInt64.not_lt]
    exact UInt64.le_of_lt hlt

namespace Blockchain

variable {U : UtxoSet}

/-- `loadChainFromDB()`. -/
def loadChainFromDB (S : StdSort Block.earlier) (s : Blockchain U) : Blockchain U :=
  { s with chain := S.sort (s.chain ++ loadedBlocks s.blockDB) }

/-- `loadPersistedState()`. -/
def loadPersistedState (s : Blockchain U) : Blockchain U :=
  { s with
    totalSupply :=
      match s.accountDB.get keyTotalSupply with
      | some val => (stoull val).getD 0
      | none => s.totalSupply
    baseFeePerGas :=
      match s.accountDB.get keyBaseFee with
      | some val => (stoull val).getD 1
      | none => s.cfg.initialBaseFee }

/-- The call by which the constructor adds the first block. -/
def genesisCall (cfg : Config) (c : Call) : Call :=
  { c with minerAddr := cfg.ownerAddress, transactions := [] }

/-- What the constructor reads from databases that could be opened. -/
def opened (S : StdSort Block.earlier) (cfg : Config) (blockDB : Js.Map Str Str)
    (accountDB : AccountDB) : Blockchain U :=
  ((Blockchain.initial U cfg blockDB accountDB).loadPersistedState).loadChainFromDB S

/-- **The constructor**: it adds a first block where it has read none.  The clock, and what the disk
says then, are those of a call. -/
def construct (S : StdSort Block.earlier) (E : Secp256k1) (cfg : Config) (blockDB : Js.Map Str Str)
    (accountDB : AccountDB) (c : Call) : Blockchain U :=
  if cfg.ownerAddress = [] then Blockchain.initial U cfg blockDB accountDB
  else
    let s := opened S cfg blockDB accountDB
    if s.chain = [] then (s.addBlock E (genesisCall cfg c)).2 else s

/-- The databases after the destructor, at the outcomes of its two writes. -/
def destroyed (s : Blockchain U) (writes : List Bool) : Blockchain U :=
  { s with accountDB := { s.accountDB with outcomes := writes } }.persistState

/-- **A restart**: the destructor, and the constructor on what it leaves. -/
def restart (S : StdSort Block.earlier) (E : Secp256k1) (s : Blockchain U) (writes : List Bool)
    (c : Call) : Blockchain U :=
  construct S E s.cfg (s.destroyed writes).blockDB (s.destroyed writes).accountDB c

/-- **Two states look the same**: the blocks, the supply, the base fee, the balances and the unspent
outputs. -/
structure SameAs (s s' : Blockchain U) : Prop where
  cfg : s'.cfg = s.cfg
  chain : s'.chain = s.chain
  totalSupply : s'.totalSupply = s.totalSupply
  baseFeePerGas : s'.baseFeePerGas = s.baseFeePerGas
  balances : ∀ a, s'.accountDB.getBalance a = s.accountDB.getBalance a
  coins : U.coins s'.utxoSet = U.coins s.utxoSet

/-! ### States that look the same -/

section

variable {E : Secp256k1} {s s' : Blockchain U} {c : Call} {cfg : Config} {height : UInt64}

/-- Whether transactions are applied depends on the unspent outputs only, where no coinbase is of a
later block. -/
theorem forEach_applyTransaction_congr {txs : List (Transaction × ℕ)} {st st' : U.State × AccountDB}
    (hcoins : U.coins st'.1 = U.coins st.1) (hpast : Past (U.coins st.1) height) :
    (forEach (applyTransaction cfg height) txs st').1 =
      (forEach (applyTransaction cfg height) txs st).1 := by
  induction txs generalizing st st' with
  | nil => rfl
  | cons tx txs ih =>
      have hfirst : (applyTransaction cfg height tx st').1 =
          (applyTransaction cfg height tx st).1 := by
        rw [Bool.eq_iff_iff]
        constructor
        · intro h
          have hfits := fits_of_applyTransaction (by rwa [hcoins]) h
          rw [hcoins] at hfits
          exact applyTransaction_of_fits hfits
        · intro h
          have hfits := fits_of_applyTransaction hpast h
          rw [← hcoins] at hfits
          exact applyTransaction_of_fits hfits
      cases h : (applyTransaction cfg height tx st).1 with
      | false =>
          rw [h] at hfirst
          rw [forEach_cons_false h, forEach_cons_false hfirst, h, hfirst]
      | true =>
          rw [h] at hfirst
          rw [forEach_cons_true h, forEach_cons_true hfirst]
          refine ih ?_ ?_
          · rw [coins_applyTransaction h, coins_applyTransaction hfirst, hcoins]
          · rw [coins_applyTransaction h]
            exact hpast.effect _ _

theorem SameAs.refl (s : Blockchain U) : SameAs s s := ⟨rfl, rfl, rfl, rfl, fun _ => rfl, rfl⟩

theorem SameAs.cappedReward (h : SameAs s s') (now : UInt64) :
    s'.cappedReward now = s.cappedReward now := by
  simp only [Blockchain.cappedReward, calculateReward, h.cfg, h.chain, h.totalSupply]

theorem SameAs.blockTransactions (h : SameAs s s') (c : Call) :
    s'.blockTransactions c = s.blockTransactions c := by
  simp only [Blockchain.blockTransactions, h.cappedReward, h.cfg]

theorem SameAs.validateTransactions (h : SameAs s s') (now : UInt64) (txs : List Transaction) :
    s'.validateTransactions E now txs = s.validateTransactions E now txs := by
  cases txs with
  | nil => rfl
  | cons first rest =>
      rw [Bool.eq_iff_iff, validateTransactions_cons, validateTransactions_cons, h.cappedReward,
        h.coins]

theorem SameAs.candidateBlock (h : SameAs s s') (c : Call) :
    s'.candidateBlock c = s.candidateBlock c := by
  simp only [Blockchain.candidateBlock, h.cfg, h.chain, h.cappedReward, h.baseFeePerGas,
    h.blockTransactions]

theorem SameAs.writtenBlock (h : SameAs s s') (c : Call) :
    s'.writtenBlock E c = s.writtenBlock E c := by
  simp only [Blockchain.writtenBlock, h.validateTransactions, h.blockTransactions, h.candidateBlock]

/-- **States that look the same accept the same blocks**, where no coinbase is of a later block. -/
theorem SameAs.addBlock (h : SameAs s s') (hpast : Past (U.coins s.utxoSet) s.nextHeight)
    (c : Call) : (s'.addBlock E c).1 = (s.addBlock E c).1 := by
  cases hwritten : s.writtenBlock E c with
  | none => rw [addBlock_of_rejected hwritten, addBlock_of_rejected (h.writtenBlock c ▸ hwritten)]
  | some block =>
      have hwritten' : s'.writtenBlock E c = some block := (h.writtenBlock c).trans hwritten
      have happlied : (s'.applied c block).1 = (s.applied c block).1 := by
        rw [applied, applied, applyBlockToState, applyBlockToState, nextHeight, h.cfg, h.chain]
        exact forEach_applyTransaction_congr h.coins hpast
      cases hok : (s.applied c block).1 with
      | false =>
          rw [addBlock_of_failed hwritten hok, addBlock_of_failed hwritten' (happlied.trans hok)]
      | true =>
          rw [addBlock_of_applied hwritten hok, addBlock_of_applied hwritten' (happlied.trans hok)]

end

/-! ### Blocks that outlast a restart -/

/-- **What a call is to be for its block to outlast a restart**: there is no reward left to pay, the
text keeps the transactions, none of which has an input or an output, and the block is of a later
second than the last. -/
structure Durable (s : Blockchain U) (c : Call) : Prop where
  reward : s.cappedReward c.rewardTime = 0
  miner : Block.delimiter ∉ c.minerAddr
  transactions : ∀ tx ∈ c.transactions, Block.KeptTransaction tx
  count : c.transactions.length ≤ Block.maxTransactions.toNat
  time : c.stampTime ≠ 0
  later : ∀ b ∈ s.chain, b.timestamp < c.stampTime

/-- **What a call is to be for a restart to change nothing**: under the hash of the block it writes,
if it writes one, no block can be read before, and the block outlasts a restart, or it fails and
cannot be read itself. -/
def Restartable (E : Secp256k1) (s : Blockchain U) (c : Call) : Prop :=
  ∀ block, s.writtenBlock E c = some block → readBlock s.blockDB block.hash = none ∧
    (Durable s c ∨ (s.applied c block).1 = false ∧ readText block.serialize = none)

/-- **The runs of calls that meet a condition.** -/
inductive Run (E : Secp256k1) (cfg : Config) (P : Blockchain U → Call → Prop) : Blockchain U → Prop
  | fresh : cfg.ownerAddress ≠ [] → Run E cfg P (fresh U cfg)
  | addBlock {s : Blockchain U} (c : Call) : Run E cfg P s → P s c → Run E cfg P (s.addBlock E c).2

/-- The databases hold the chain, in the order of the timestamps, and nothing is unspent. -/
structure Stored (s : Blockchain U) : Prop where
  loaded : (loadedBlocks s.blockDB).Perm s.chain
  ordered : s.chain.Pairwise fun a b => a.timestamp < b.timestamp
  hashes : ∀ b ∈ s.chain, isValidHash b.hash
  coins : U.coins s.utxoSet = ∅

variable {E : Secp256k1} {cfg : Config} {s : Blockchain U} {c : Call} {block : Block}

theorem Run.reachable {P : Blockchain U → Call → Prop} (h : Run E cfg P s) :
    Reachable E cfg s := by
  induction h with
  | fresh howner => exact Reachable.fresh howner
  | addBlock c _ _ ih => exact ih.addBlock c

theorem stored_fresh (cfg : Config) : Stored (fresh U cfg) where
  loaded := loadedBlocks_perm Js.Map.empty
  ordered := List.Pairwise.nil
  hashes := fun _ hb => absurd hb List.not_mem_nil
  coins := U.coins_fresh

theorem Written.isValidHash (h : Written E s c block) : Blockchain.isValidHash block.hash := by
  obtain ⟨nonce, rfl⟩ := h.eq_withNonce
  exact ProofOfWork.isLowerHex_withNonce _ _

theorem Written.difficulty_le (h : Written E s c block) :
    block.difficulty ≤ Block.maxDifficulty := by
  obtain ⟨nonce, rfl⟩ := h.eq_withNonce
  change (if s.cfg.initialMedor ≤ Block.maxDifficulty then s.cfg.initialMedor
    else Block.maxDifficulty) ≤ Block.maxDifficulty
  split
  · next hle => exact hle
  · exact UInt32.le_refl _

theorem delimiter_not_mem_hash {hash : Str} (h : isValidHash hash) : Block.delimiter ∉ hash :=
  not_mem_of_isLowerHex h rfl

theorem delimiter_not_mem_previous (c : Call) (hhashes : ∀ b ∈ s.chain, isValidHash b.hash) :
    Block.delimiter ∉ (s.candidateBlock c).previousHash := by
  change Block.delimiter ∉ (s.chain.getLast?.map Block.hash).getD []
  cases hlast : s.chain.getLast? with
  | none => exact List.not_mem_nil
  | some last => exact delimiter_not_mem_hash (hhashes last (List.mem_of_getLast? hlast))

theorem delimiter_not_mem_data (s : Blockchain U) (c : Call) :
    Block.delimiter ∉ (s.candidateBlock c).data := by
  change Block.delimiter ∉ if s.chain = [] then str "Genesis Block" else str "MedorCoin Block"
  split
  · decide
  · decide

/-- **A block that outlasts a restart** reads back as it was. -/
theorem Durable.readEntry (h : Durable s c) (hhashes : ∀ b ∈ s.chain, isValidHash b.hash)
    (hwritten : Written E s c block) :
    Node.readEntry (block.hash, block.serialize) = some block := by
  have hhash := hwritten.isValidHash
  have htxs : block.transactions = c.transactions := by
    rw [hwritten.transactions, blockTransactions_of_zero h.reward]
  obtain ⟨nonce, hblock⟩ := hwritten.eq_withNonce
  have hkept : block.Kept := by
    refine ⟨?_, ?_, ?_, delimiter_not_mem_hash hhash, ?_, ?_⟩
    · rw [hblock]
      exact delimiter_not_mem_previous c hhashes
    · rw [hblock]
      exact delimiter_not_mem_data s c
    · rw [hwritten.fields.2.1]
      exact h.miner
    · rw [hblock]
      exact List.not_mem_nil
    · rw [htxs]
      exact h.transactions
  have htime : block.timestamp ≠ 0 := by
    rw [hwritten.fields.2.2.1]
    exact h.time
  have hread := (Block.deserialize_serialize_iff hwritten.difficulty_le htime
    (by rw [htxs]; exact h.count) {}).2 hkept
  rw [Node.readEntry, if_pos hhash, readText, hread, if_pos rfl]

theorem Durable.applied (h : Durable s c) (hwritten : Written E s c block) :
    s.applied c block = (true, s.utxoSet, { s.accountDB with outcomes := c.accountWrites }) := by
  refine apply_blank (fun tx htx => ?_) _
  rw [hwritten.transactions, blockTransactions_of_zero h.reward] at htx
  have hstored := (h.transactions tx htx).stored
  exact ⟨hstored ▸ rfl, hstored ▸ rfl⟩

theorem Stored.committed (h : Stored s) (hdurable : Durable s c) (hwritten : Written E s c block)
    (hfresh : readBlock s.blockDB block.hash = none) : Stored (s.committed c block) where
  loaded := by
    rw [committed_blockDB, committed_chain]
    have hset := loadedBlocks_set block.serialize hfresh
    rw [hdurable.readEntry h.hashes hwritten] at hset
    exact hset.trans (h.loaded.append_right _)
  ordered := by
    rw [committed_chain, List.pairwise_append]
    refine ⟨h.ordered, List.pairwise_singleton _ _, fun b hb b' hb' => ?_⟩
    rw [List.mem_singleton.1 hb', hwritten.fields.2.2.1]
    exact hdurable.later b hb
  hashes := by
    rw [committed_chain]
    intro b hb
    rcases List.mem_append.1 hb with hb | hb
    · exact h.hashes b hb
    · rw [List.mem_singleton.1 hb]
      exact hwritten.isValidHash
  coins := by
    rw [committed_utxoSet, hdurable.applied hwritten]
    exact h.coins

theorem Stored.rolledBack (h : Stored s) (htext : readText block.serialize = none)
    (hfresh : readBlock s.blockDB block.hash = none) : Stored (s.rolledBack c block) where
  loaded := by
    have hset := loadedBlocks_set block.serialize hfresh
    have hnone : readEntry (block.hash, block.serialize) = none := by
      rw [readEntry, htext, ite_self]
    rw [hnone, Option.toList_none, List.append_nil] at hset
    exact hset.trans h.loaded
  ordered := h.ordered
  hashes := h.hashes
  coins := by
    refine Finmap.ext_lookup fun o => ?_
    rw [Finmap.lookup_empty, Finmap.lookup_eq_none]
    intro ho
    have hbefore := (mem_coins_rollback ho).1
    change o ∈ U.coins s.utxoSet at hbefore
    rw [h.coins] at hbefore
    exact Finmap.notMem_empty hbefore

/-- **In each state of a run of such calls the databases hold the chain.** -/
theorem Run.stored (h : Run E cfg (Restartable E) s) : Stored s := by
  induction h with
  | fresh => exact stored_fresh cfg
  | @addBlock s c _ hc ih =>
      cases hwritten : s.writtenBlock E c with
      | none =>
          rw [addBlock_of_rejected hwritten]
          exact ih
      | some block =>
          have hspec := writtenBlock_spec hwritten
          obtain ⟨hfresh, hdurable | ⟨hfailed, htext⟩⟩ := hc block hwritten
          · rw [addBlock_of_applied hwritten (by rw [hdurable.applied hspec])]
            exact ih.committed hdurable hspec hfresh
          · rw [addBlock_of_failed hwritten hfailed]
            exact ih.rolledBack htext hfresh

/-! ### The restart -/

/-- **What the destructor persists is read back**, if the disk takes its two writes. -/
theorem get_destroyed {writes : List Bool} (hwrites : false ∉ writes.take 2) :
    (s.destroyed writes).accountDB.get keyTotalSupply = some (decimal s.totalSupply.toNat) ∧
      (s.destroyed writes).accountDB.get keyBaseFee = some (decimal s.baseFeePerGas.toNat) := by
  have hfirst : writes.head? ≠ some false := by
    intro hhead
    obtain ⟨rest, rfl⟩ := List.head?_eq_some_iff.1 hhead
    exact hwrites List.mem_cons_self
  have hsecond : writes.tail.head? ≠ some false := by
    intro hhead
    cases writes with
    | nil => exact absurd hhead (by simp)
    | cons first writes =>
        obtain ⟨rest, rfl⟩ := List.head?_eq_some_iff.1 hhead
        exact hwrites (List.mem_cons_of_mem _ List.mem_cons_self)
  have hsupplyKey : AccountDB.isValidKey keyTotalSupply = true := by decide
  have hfeeKey : AccountDB.isValidKey keyBaseFee = true := by decide
  have hkeys : keyBaseFee ≠ keyTotalSupply := by decide
  -- one write after the other
  let db₀ : AccountDB := { s.accountDB with outcomes := writes }
  let db₁ : AccountDB := (db₀.put keyTotalSupply (decimal s.totalSupply.toNat)).2
  have hput₀ : (db₀.put keyTotalSupply (decimal s.totalSupply.toNat)).1 = true :=
    AccountDB.put_fst hsupplyKey hfirst
  have houtcomes : db₁.outcomes = writes.tail := by
    rw [AccountDB.put_outcomes, if_pos hsupplyKey]
  have hput₁ : (db₁.put keyBaseFee (decimal s.baseFeePerGas.toNat)).1 = true :=
    AccountDB.put_fst hfeeKey (by rwa [houtcomes])
  have hsupply : (db₁.put keyBaseFee (decimal s.baseFeePerGas.toNat)).2.get keyTotalSupply =
      some (decimal s.totalSupply.toNat) := by
    rw [AccountDB.get_put_of_ne _ _ hkeys, AccountDB.get_put_self hput₀]
  exact ⟨hsupply, AccountDB.get_put_self hput₁⟩

theorem restart_of_loaded (S : StdSort Block.earlier) (E : Secp256k1) (writes : List Bool)
    (c : Call) (howner : s.cfg.ownerAddress ≠ []) (hloaded : loadedBlocks s.blockDB ≠ []) :
    s.restart S E writes c = opened S s.cfg s.blockDB (s.destroyed writes).accountDB := by
  have hchain : (opened S s.cfg s.blockDB (s.destroyed writes).accountDB : Blockchain U).chain ≠
      [] := by
    intro hnil
    have hperm : ([] : List Block).Perm (loadedBlocks s.blockDB) := hnil ▸ S.perm _
    exact hloaded hperm.nil_eq.symm
  rw [restart, construct, if_neg howner]
  exact if_neg hchain

/-- **A restart keeps the state** after a run of such calls, if there is a block and the destructor
could write; so the next call is accepted or rejected as it would have been. -/
theorem restart_same (S : StdSort Block.earlier) (h : Run E cfg (Restartable E) s)
    (hchain : s.chain ≠ []) {writes : List Bool} (hwrites : false ∉ writes.take 2) (c : Call) :
    SameAs s (s.restart S E writes c) ∧
      ∀ c', ((s.restart S E writes c).addBlock E c').1 = (s.addBlock E c').1 := by
  have hstored := h.stored
  have howner : s.cfg.ownerAddress ≠ [] := by
    rw [h.reachable.cfg_eq]
    exact h.reachable.owner
  have hloaded : loadedBlocks s.blockDB ≠ [] := by
    intro hnil
    have hperm := hstored.loaded
    rw [hnil] at hperm
    exact hchain hperm.nil_eq.symm
  obtain ⟨hsupply, hfee⟩ := get_destroyed (s := s) hwrites
  have hsame : SameAs s (s.restart S E writes c) := by
    rw [restart_of_loaded S E writes c howner hloaded]
    refine ⟨rfl, S.sort_eq hstored.loaded hstored.ordered, ?_, ?_, fun a => ?_, ?_⟩
    · simp only [opened, loadChainFromDB, loadPersistedState, Blockchain.initial, hsupply,
        stoull_decimal, Option.getD_some]
    · simp only [opened, loadChainFromDB, loadPersistedState, Blockchain.initial, hfee,
        stoull_decimal, Option.getD_some]
    · exact (persistState_balances _).2 a
    · exact U.coins_fresh.trans hstored.coins.symm
  refine ⟨hsame, hsame.addBlock fun o coin hlookup => ?_⟩
  rw [hstored.coins, Finmap.lookup_empty] at hlookup
  exact absurd hlookup (by simp)

/-! ### Two restarts -/

def sampleBlankCall : Call where
  minerAddr := str "miner"
  transactions := [sampleBlank 48]
  rewardTime := 1000
  validationTime := 1000
  stampTime := 1000

def sampleKept : Blockchain UtxoSet.ofMap :=
  sampleFree.committed sampleBlankCall
    (ProofOfWork.withNonce (sampleFree.candidateBlock sampleBlankCall) 0)

theorem sampleBlankCall_durable : Durable sampleFree sampleBlankCall where
  reward := by decide
  miner := by decide
  transactions := fun tx htx => by
    rw [List.mem_singleton.1 htx]
    exact ⟨by decide, by decide, rfl⟩
  count := by decide
  time := by decide
  later := fun _ hb => absurd hb List.not_mem_nil

theorem sampleFree_writtenBlock : sampleFree.writtenBlock sampleLibrary sampleBlankCall =
    some (ProofOfWork.withNonce (sampleFree.candidateBlock sampleBlankCall) 0) := by
  have hvalid : sampleFree.validateTransactions sampleLibrary sampleBlankCall.validationTime
      (sampleFree.blockTransactions sampleBlankCall) = true := by decide +kernel
  exact writtenBlock_of_difficulty_zero (by decide) hvalid rfl rfl

theorem restart_same_blank :
    sampleKept.chain ≠ [] ∧
      SameAs sampleKept (sampleKept.restart StdSort.stable sampleLibrary [] sampleBlankCall) ∧
      ∀ c, ((sampleKept.restart StdSort.stable sampleLibrary [] sampleBlankCall).addBlock
        sampleLibrary c).1 = (sampleKept.addBlock sampleLibrary c).1 := by
  have hfresh : Run sampleLibrary sampleFreeConfig (Restartable sampleLibrary) sampleFree :=
    Run.fresh (by decide)
  have hrestartable : Restartable sampleLibrary sampleFree sampleBlankCall := fun block _ =>
    ⟨readBlock_empty block.hash, Or.inl sampleBlankCall_durable⟩
  have hrun := hfresh.addBlock sampleBlankCall hrestartable
  have happlied := sampleBlankCall_durable.applied (writtenBlock_spec sampleFree_writtenBlock)
  rw [addBlock_of_applied sampleFree_writtenBlock (by rw [happlied])] at hrun
  have hchain : sampleKept.chain ≠ [] := by
    rw [sampleKept, committed_chain]
    exact List.append_ne_nil_of_right_ne_nil _ (List.cons_ne_nil _ _)
  exact ⟨hchain, restart_same StdSort.stable hrun hchain List.not_mem_nil sampleBlankCall⟩

theorem sampleGenesisBlock_delimited : sampleGenesisBlock.Delimited where
  previousHash := List.not_mem_nil
  data := delimiter_not_mem_data sampleEasy (sampleOwnerCall 1000)
  minerAddress := by decide
  hash := delimiter_not_mem_hash (ProofOfWork.isLowerHex_withNonce _ _)
  signature := List.not_mem_nil
  transactions := fun tx htx => by
    rw [sampleGenesisBlock_transactions] at htx
    rw [List.mem_singleton.1 htx]
    exact ⟨not_mem_of_isLowerHex (Keccak.isLowerHex_hex _) rfl, List.not_mem_nil⟩

theorem sampleGenesisBlock_readEntry :
    readEntry (sampleGenesisBlock.hash, sampleGenesisBlock.serialize) =
      some sampleGenesisBlock.stored := by
  have hhash : isValidHash sampleGenesisBlock.hash = true := ProofOfWork.isLowerHex_withNonce _ _
  have hread := Block.deserialize_serialize sampleGenesisBlock_delimited (by decide) (by decide)
    (by rw [sampleGenesisBlock_transactions]; decide) {}
  rw [readEntry, if_pos hhash, readText, hread, if_pos rfl]

theorem loadedBlocks_sampleGenesisBlock :
    loadedBlocks (Js.Map.empty.set sampleGenesisBlock.hash sampleGenesisBlock.serialize) =
      [sampleGenesisBlock.stored] := by
  have hempty : loadedBlocks Js.Map.empty = [] := (loadedBlocks_perm Js.Map.empty).eq_nil
  have hset := loadedBlocks_set sampleGenesisBlock.serialize
    (readBlock_empty sampleGenesisBlock.hash)
  rw [sampleGenesisBlock_readEntry, hempty] at hset
  exact List.perm_singleton.1 hset

/-- **The unspent outputs are gone** after a restart behind the first block of a network. -/
theorem restart_forgets :
    Reachable sampleLibrary sampleEasyConfig sampleStarted ∧
      ∀ (S : StdSort Block.earlier) (writes : List Bool) (c : Call),
        ¬ SameAs sampleStarted (sampleStarted.restart S sampleLibrary writes c) := by
  refine ⟨sampleStarted_reachable, fun S writes c hsame => ?_⟩
  have hloaded : loadedBlocks sampleStarted.blockDB ≠ [] := by
    have hdb : sampleStarted.blockDB =
        Js.Map.empty.set sampleGenesisBlock.hash sampleGenesisBlock.serialize := by
      rw [sampleStarted, committed_blockDB]
      rfl
    rw [hdb, loadedBlocks_sampleGenesisBlock]
    exact List.cons_ne_nil _ _
  have hcoins : UtxoSet.ofMap.coins
      (sampleStarted.restart S sampleLibrary writes c).utxoSet = ∅ := by
    rw [restart_of_loaded S sampleLibrary writes c (by decide) hloaded]
    rfl
  have hmem := sampleStarted_coins sampleGenesisBlock_outpoint
  rw [← hsame.coins, hcoins] at hmem
  exact Finmap.notMem_empty hmem

end Blockchain

end Node
