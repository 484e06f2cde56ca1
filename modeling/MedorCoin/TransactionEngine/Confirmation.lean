/-
**What a block does to the balances.**

Every operation of a block on a balance or on a pending total reads the database as it was before
the block, and the batch keeps the last write to each key.  So of all debits and credits that a
block makes to an address only the last one counts.  Applied one after another they would add up;
both come to the same exactly when those before the last cancel, as they do where every address
occurs once.

Main definitions:

* `TransactionEngine.applyBlock` — what the transactions of a block and the reward are to do, one
  after another;
* `TransactionEngine.Sequential` — a database in which they have done that;
* `TransactionEngine.Isolated` — blocks whose operations do not meet.

Main results:

* `TransactionEngine.Database.balance_blockWrites`,
  `TransactionEngine.Database.pendingTotal_blockWrites` — **the last operation counts**;
* `TransactionEngine.total_of_balances` — balances that have moved as they should have grown by the
  reward;
* `TransactionEngine.confirmBlock_sequential_iff` — **a block is applied one transaction after
  another exactly when its operations do not meet**;
* `TransactionEngine.confirmBlock_not_sequential` — two transactions of one sender.
-/

import MedorCoin.TransactionEngine.Engine
import Mathlib.Algebra.BigOperators.Group.Finset.Piecewise
import Mathlib.Algebra.BigOperators.Group.List.Basic

set_option autoImplicit false

namespace TransactionEngine

open Js

/-! ### What a block is to do -/

/-- A transaction debits its sender and credits its recipient. -/
def applyTransfer (balance : Str → ℤ) (t : Transfer) : Str → ℤ :=
  let debited := Function.update balance t.sender (balance t.sender - (t.value + t.gasUsed))
  Function.update debited t.recipient (debited t.recipient + t.value)

/-- **The transactions of a block one after another**, and then the fees and the reward. -/
def applyBlock (balance : Str → ℤ) (transfers : List Transfer) (miner : Str) : Str → ℤ :=
  let applied := transfers.foldl applyTransfer balance
  Function.update applied miner (applied miner + (totalFees transfers + 5000000000))

/-- The sum of all balances. -/
def Database.total (db : Database) : ℤ := ∑ address ∈ db.state.keys, db.balance address

/-- What the transactions of a sender cost, in their order. -/
def costs (transfers : List Transfer) (sender : Str) : List ℤ :=
  (transfers.filter (·.sender = sender)).map (·.cost)

/-- **A block has been applied one transaction after another.** -/
structure Sequential (db db' : Database) (transfers : List Transfer) (miner : Str) : Prop where
  balances : ∀ address, db'.balance address = applyBlock db.balance transfers miner address
  supply : db'.total = db.total + 5000000000
  pending : ∀ t ∈ transfers,
    db'.pendingTotal t.sender = db.pendingTotal t.sender - (costs transfers t.sender).sum

/-! ### The operations of a block -/

/-- What a block adds to balances, in the order of its operations. -/
def operations (transfers : List Transfer) (miner : Str) : List (Str × ℤ) :=
  transfers.flatMap (fun t => [(t.sender, -t.cost), (t.recipient, t.value)]) ++
    [(miner, totalFees transfers + blockReward)]

/-- What a list has for one key: what operations add to one address, or what is written to it. -/
def deltas {κ ν : Type} [DecidableEq κ] (ops : List (κ × ν)) (key : κ) : List ν :=
  (ops.filter (·.1 = key)).map Prod.snd

/-- **The operations of a block do not meet**: all that it adds to an address but the last cancels;
so does all that a sender is to pay but the last, which the pending total covers, unless this total
is exactly what the sender is to pay and comes to nothing at once. -/
structure Isolated (db : Database) (transfers : List Transfer) (miner : Str) : Prop where
  balances : ∀ address, (deltas (operations transfers miner) address).dropLast.sum = 0
  pending : ∀ t ∈ transfers, ∀ last ∈ (costs transfers t.sender).getLast?,
    ((costs transfers t.sender).dropLast.sum = 0 ∧ last ≤ db.pendingTotal t.sender) ∨
      ((costs transfers t.sender).sum = db.pendingTotal t.sender ∧
        db.pendingTotal t.sender ≤ last)

section Deltas

variable {κ ν : Type} [DecidableEq κ]

@[simp] theorem deltas_nil (key : κ) : deltas ([] : List (κ × ν)) key = [] := rfl

theorem deltas_append (l l' : List (κ × ν)) (key : κ) :
    deltas (l ++ l') key = deltas l key ++ deltas l' key := by
  simp [deltas]

theorem deltas_map {α : Type} (key : α → κ) (value : κ → α → ν) (l : List α) (k : κ) :
    deltas (l.map fun x => (key x, value (key x) x)) k
      = (l.filter (key · = k)).map (value k) := by
  induction l with
  | nil => rfl
  | cons x l ih =>
      rw [List.map_cons, ← List.singleton_append, deltas_append, ih]
      by_cases h : key x = k
      · subst h
        simp [deltas]
      · simp [deltas, h]

end Deltas

theorem sum_deltas_cons (op : Str × ℤ) (l : List (Str × ℤ)) (address : Str) :
    (deltas (op :: l) address).sum
      = (if op.1 = address then op.2 else 0) + (deltas l address).sum := by
  by_cases h : op.1 = address <;> simp [deltas, h]

theorem applyTransfer_apply (balance : Str → ℤ) (t : Transfer) (address : Str) :
    applyTransfer balance t address = balance address +
      (deltas [(t.sender, -t.cost), (t.recipient, t.value)] address).sum := by
  rw [sum_deltas_cons, sum_deltas_cons]
  by_cases hs : t.sender = address
  · subst hs
    by_cases hr : t.recipient = t.sender
    · simp [applyTransfer, Transfer.cost, hr]
      omega
    · simp [applyTransfer, Transfer.cost, hr, Ne.symm hr]
      omega
  · by_cases hr : t.recipient = address
    · subst hr
      simp [applyTransfer, hs, Ne.symm hs]
    · simp [applyTransfer, hs, hr, Ne.symm hs, Ne.symm hr]

theorem foldl_applyTransfer (balance : Str → ℤ) (transfers : List Transfer) (address : Str) :
    transfers.foldl applyTransfer balance address = balance address +
      (deltas (transfers.flatMap fun t => [(t.sender, -t.cost), (t.recipient, t.value)])
        address).sum := by
  induction transfers generalizing balance with
  | nil => simp
  | cons t transfers ih =>
      rw [List.foldl_cons, ih, applyTransfer_apply, List.flatMap_cons, deltas_append,
        List.sum_append]
      omega

theorem applyBlock_apply (balance : Str → ℤ) (transfers : List Transfer) (miner address : Str) :
    applyBlock balance transfers miner address
      = balance address + (deltas (operations transfers miner) address).sum := by
  rw [operations, deltas_append, List.sum_append, sum_deltas_cons, deltas_nil, List.sum_nil]
  simp only [applyBlock, blockReward, Function.update_apply, foldl_applyTransfer,
    eq_comm (a := address)]
  split
  · next h =>
      rw [h]
      omega
  · omega

/-! ### What a batch does -/

section Last

variable {κ ν : Type} [DecidableEq κ]

/-- The values that a batch writes to one key of a partition, which `entry` tells. -/
def written (entry : Write → Option (κ × ν)) (batch : List Write) (key : κ) : List ν :=
  deltas (batch.filterMap entry) key

/-- **The last write to a key counts.** -/
theorem Database.write_eq_last (value : Database → κ → ν) (entry : Write → Option (κ × ν))
    (hvalue : ∀ db w key, value (db.apply w) key
      = (written entry [w] key).getLast?.getD (value db key))
    (db : Database) (batch : List Write) (key : κ) :
    value (db.write batch) key = (written entry batch key).getLast?.getD (value db key) := by
  induction batch generalizing db with
  | nil => rfl
  | cons w batch ih =>
      have hcons : written entry (w :: batch) key
          = written entry [w] key ++ written entry batch key := by
        simp only [written, ← deltas_append, ← List.filterMap_append, List.singleton_append]
      rw [hcons, List.getLast?_append]
      refine (ih (db.apply w)).trans ?_
      rw [hvalue]
      cases (written entry batch key).getLast? <;> rfl

end Last

/-- The balance that an operation writes. -/
def Write.balance? : Write → Option (Str × ℤ)
  | .state address balance => some (address, balance)
  | _ => none

/-- The pending total that an operation writes. -/
def Write.total? : Write → Option (Str × ℤ)
  | .pending address total => some (address, total)
  | _ => none

theorem Database.balance_write (db : Database) (batch : List Write) (address : Str) :
    (db.write batch).balance address
      = (written Write.balance? batch address).getLast?.getD (db.balance address) := by
  refine write_eq_last balance Write.balance? ?_ db batch address
  intro db w address
  cases w with
  | state a b =>
      by_cases h : a = address
      · subst h
        simp [apply, balance, written, deltas, Write.balance?]
      · simp [apply, balance, written, deltas, Write.balance?, h,
          Finmap.lookup_insert_of_ne _ (Ne.symm h)]
  | _ => rfl

theorem Database.pendingTotal_write (db : Database) (batch : List Write) (address : Str) :
    (db.write batch).pendingTotal address
      = (written Write.total? batch address).getLast?.getD (db.pendingTotal address) := by
  refine write_eq_last pendingTotal Write.total? ?_ db batch address
  intro db w address
  cases w with
  | pending a b =>
      by_cases h : a = address
      · subst h
        simp [apply, pendingTotal, written, deltas, Write.total?]
      · simp [apply, pendingTotal, written, deltas, Write.total?, h,
          Function.update_of_ne (Ne.symm h)]
  | _ => rfl

theorem balance?_blockWrites (db : Database) (transfers : List Transfer) (miner : Str)
    (height : ℤ) : (blockWrites db transfers miner height).filterMap Write.balance?
      = (operations transfers miner).map fun op => (op.1, db.balance op.1 + op.2) := by
  rw [blockWrites, operations, List.filterMap_append, List.map_append]
  congr 1
  induction transfers with
  | nil => rfl
  | cons t transfers ih =>
      rw [List.flatMap_cons, List.flatMap_cons, List.filterMap_append, List.map_append, ih]
      congr 1

/-- What is left of a pending total. -/
def remaining (total cost : ℤ) : ℤ := if 0 < total - cost then total - cost else 0

theorem total?_blockWrites (db : Database) (transfers : List Transfer) (miner : Str)
    (height : ℤ) : (blockWrites db transfers miner height).filterMap Write.total?
      = transfers.map fun t => (t.sender, remaining (db.pendingTotal t.sender) t.cost) := by
  have hminer : (mutateBalance db miner (totalFees transfers + blockReward) true).total?
      = none := rfl
  rw [blockWrites, List.filterMap_append, List.filterMap_cons_none hminer, List.filterMap_nil,
    List.append_nil]
  clear hminer
  induction transfers with
  | nil => rfl
  | cons t transfers ih =>
      rw [List.flatMap_cons, List.filterMap_append, ih]
      rfl

/-- **Of what a block adds to an address the last counts.** -/
theorem Database.balance_blockWrites (db : Database) (transfers : List Transfer) (miner : Str)
    (height : ℤ) (address : Str) :
    (db.write (blockWrites db transfers miner height)).balance address = db.balance address +
      (deltas (operations transfers miner) address).getLast?.getD 0 := by
  rw [balance_write, written, balance?_blockWrites,
    deltas_map Prod.fst (fun a op => db.balance a + op.2)]
  have hmap : ((operations transfers miner).filter (·.1 = address)).map
      (fun op => db.balance address + op.2)
      = (deltas (operations transfers miner) address).map (db.balance address + ·) := by
    rw [deltas, List.map_map]
    rfl
  rw [hmap, List.getLast?_map]
  cases (deltas (operations transfers miner) address).getLast? with
  | none => exact (add_zero _).symm
  | some last => rfl

/-- **Of what a sender pays in a block the last counts.** -/
theorem Database.pendingTotal_blockWrites (db : Database) (transfers : List Transfer)
    (miner : Str) (height : ℤ) (address : Str) :
    (db.write (blockWrites db transfers miner height)).pendingTotal address
      = ((costs transfers address).getLast?.map (remaining (db.pendingTotal address))).getD
        (db.pendingTotal address) := by
  rw [pendingTotal_write, written, total?_blockWrites,
    deltas_map Transfer.sender (fun a t => remaining (db.pendingTotal a) t.cost)]
  have hmap : (transfers.filter (·.sender = address)).map
      (fun t => remaining (db.pendingTotal address) t.cost)
      = (costs transfers address).map (remaining (db.pendingTotal address)) := by
    rw [costs, List.map_map]
    rfl
  rw [hmap, List.getLast?_map]

/-! ### The sum of all balances -/

theorem Database.total_eq_sum (db : Database) {addresses : Finset Str}
    (h : db.state.keys ⊆ addresses) : db.total = ∑ address ∈ addresses, db.balance address := by
  refine Finset.sum_subset h ?_
  intro address _ hmem
  have hnone : db.state.lookup address = none := by
    rw [Finmap.lookup_eq_none]
    exact hmem
  rw [balance, hnone]
  rfl

theorem Database.mem_state_write (db : Database) (batch : List Write) (address : Str) :
    address ∈ (db.write batch).state
      ↔ address ∈ db.state ∨ address ∈ (batch.filterMap Write.balance?).map Prod.fst := by
  induction batch generalizing db with
  | nil => simp [write]
  | cons w batch ih =>
      refine (ih (db.apply w)).trans ?_
      cases w with
      | state a b =>
          have hcons : (Write.state a b :: batch).filterMap Write.balance?
              = (a, b) :: batch.filterMap Write.balance? := rfl
          simp only [apply, Finmap.mem_insert, hcons, List.map_cons, List.mem_cons]
          tauto
      | _ => rfl

theorem sum_deltas (addresses : Finset Str) (ops : List (Str × ℤ))
    (h : ∀ op ∈ ops, op.1 ∈ addresses) :
    ∑ address ∈ addresses, (deltas ops address).sum = (ops.map Prod.snd).sum := by
  induction ops with
  | nil => simp
  | cons op ops ih =>
      simp only [sum_deltas_cons, Finset.sum_add_distrib, List.map_cons, List.sum_cons]
      rw [ih fun op' hop' => h op' (List.mem_cons_of_mem _ hop'),
        Finset.sum_ite_eq addresses op.1 fun _ => op.2, if_pos (h op List.mem_cons_self)]

theorem sum_operations (transfers : List Transfer) (miner : Str) :
    ((operations transfers miner).map Prod.snd).sum = blockReward := by
  have htransfers : ((transfers.flatMap fun t => [(t.sender, -t.cost), (t.recipient, t.value)]).map
      Prod.snd).sum = -totalFees transfers := by
    induction transfers with
    | nil => rfl
    | cons t transfers ih =>
        rw [List.flatMap_cons, List.map_append, List.sum_append, ih]
        simp only [totalFees, Transfer.cost, List.map_cons, List.map_nil, List.sum_cons,
          List.sum_nil]
        omega
  rw [operations, List.map_append, List.sum_append, htransfers]
  simp

/-- **Balances that have moved as they should have grown by the reward**, all together. -/
theorem total_of_balances (db : Database) (transfers : List Transfer) (miner : Str) (height : ℤ)
    (h : ∀ address, (db.write (blockWrites db transfers miner height)).balance address
      = applyBlock db.balance transfers miner address) :
    (db.write (blockWrites db transfers miner height)).total = db.total + 5000000000 := by
  let db' := db.write (blockWrites db transfers miner height)
  have hkeys : ∀ address, address ∈ db'.state.keys ↔ address ∈ db.state ∨
      address ∈ (operations transfers miner).map Prod.fst := by
    intro address
    rw [Finmap.mem_keys, Database.mem_state_write, balance?_blockWrites, List.map_map]
    rfl
  have hsub : db.state.keys ⊆ db'.state.keys := by
    intro address hmem
    exact (hkeys address).2 (Or.inl (Finmap.mem_keys.1 hmem))
  have hops : ∀ op ∈ operations transfers miner, op.1 ∈ db'.state.keys := by
    intro op hop
    exact (hkeys op.1).2 (Or.inr (List.mem_map_of_mem hop))
  calc db'.total
      = ∑ address ∈ db'.state.keys, db'.balance address := rfl
    _ = ∑ address ∈ db'.state.keys,
          (db.balance address + (deltas (operations transfers miner) address).sum) := by
        refine Finset.sum_congr rfl ?_
        intro address _
        rw [← applyBlock_apply]
        exact h address
    _ = db.total + 5000000000 := by
        rw [Finset.sum_add_distrib, ← db.total_eq_sum hsub, sum_deltas _ _ hops, sum_operations]
        rfl

/-! ### The block -/

theorem getLast?_eq_sum_iff (l : List ℤ) :
    l.getLast?.getD 0 = l.sum ↔ l.dropLast.sum = 0 := by
  rcases List.eq_nil_or_concat l with rfl | ⟨l, x, rfl⟩
  · simp
  · simp [List.concat_eq_append]

theorem remaining_eq_iff (total : ℤ) (l : List ℤ) :
    (l.getLast?.map (remaining total)).getD total = total - l.sum ↔ ∀ last ∈ l.getLast?,
      (l.dropLast.sum = 0 ∧ last ≤ total) ∨ (l.sum = total ∧ total ≤ last) := by
  rcases List.eq_nil_or_concat l with rfl | ⟨l, x, rfl⟩
  · simp
  · simp only [List.concat_eq_append, List.getLast?_concat, Option.map_some, Option.getD_some,
      List.sum_append, List.sum_singleton, List.dropLast_concat, Option.mem_def,
      Option.some.injEq, forall_eq', remaining]
    split <;> omega

section Block

variable (computeRoot : List Json → Str) (e : Engine) (transfers : List Transfer)
  (miner hash : Str) (height : ℤ)

theorem balance_confirmTransfers (address : Str) :
    (e.confirmTransfers computeRoot transfers miner hash height).db.balance address
      = e.db.balance address +
        (deltas (operations transfers miner) address).getLast?.getD 0 :=
  e.db.balance_blockWrites transfers miner height address

theorem pendingTotal_confirmTransfers (address : Str) :
    (e.confirmTransfers computeRoot transfers miner hash height).db.pendingTotal address
      = ((costs transfers address).getLast?.map (remaining (e.db.pendingTotal address))).getD
        (e.db.pendingTotal address) :=
  e.db.pendingTotal_blockWrites transfers miner height address

theorem sequential_confirmTransfers_iff :
    Sequential e.db (e.confirmTransfers computeRoot transfers miner hash height).db transfers miner
      ↔ Isolated e.db transfers miner := by
  have hbalances : (∀ address,
      (e.confirmTransfers computeRoot transfers miner hash height).db.balance address
        = applyBlock e.db.balance transfers miner address) ↔
      ∀ address, (deltas (operations transfers miner) address).dropLast.sum = 0 := by
    refine forall_congr' ?_
    intro address
    rw [balance_confirmTransfers, applyBlock_apply, add_right_inj]
    exact getLast?_eq_sum_iff _
  have hpending : ∀ sender,
      (e.confirmTransfers computeRoot transfers miner hash height).db.pendingTotal sender
        = e.db.pendingTotal sender - (costs transfers sender).sum ↔
      ∀ last ∈ (costs transfers sender).getLast?,
        ((costs transfers sender).dropLast.sum = 0 ∧ last ≤ e.db.pendingTotal sender) ∨
          ((costs transfers sender).sum = e.db.pendingTotal sender ∧
            e.db.pendingTotal sender ≤ last) := by
    intro sender
    rw [pendingTotal_confirmTransfers]
    exact remaining_eq_iff _ _
  constructor
  · intro h
    exact ⟨hbalances.1 h.balances, fun t ht => (hpending t.sender).1 (h.pending t ht)⟩
  · intro h
    have happlied := hbalances.2 h.balances
    exact ⟨happlied, total_of_balances e.db transfers miner height happlied,
      fun t ht => (hpending t.sender).2 (h.pending t ht)⟩

end Block

/-- **A block is applied one transaction after another exactly when its operations do not meet.** -/
theorem confirmBlock_sequential_iff (computeRoot : List Json → Str) (e : Engine)
    {transactions : List Tx} {transfers : List Transfer}
    (h : transactions.mapM transfer? = some transfers) (miner hash : Str) (height : ℤ) :
    ∃ e', e.confirmBlock computeRoot transactions miner hash height = some e' ∧
      (Sequential e.db e'.db transfers miner ↔ Isolated e.db transfers miner) := by
  refine ⟨e.confirmTransfers computeRoot transfers miner hash height, ?_, ?_⟩
  · rw [Engine.confirmBlock, h]
    rfl
  · exact sequential_confirmTransfers_iff computeRoot e transfers miner hash height

def sampleTx (sender recipient value sig : String) : Tx :=
  [("from".toList, .str sender.toList), ("to".toList, .str recipient.toList),
   ("value".toList, .str value.toList), ("_sig".toList, .str sig.toList),
   ("gasUsed".toList, .str "22000".toList)]

def sampleTransfer (sender recipient value sig : String) (n : ℤ) : Transfer where
  tx := sampleTx sender recipient value sig
  sender := sender.toList
  recipient := recipient.toList
  value := n
  gasUsed := 22000

def sampleDatabase : Database :=
  Database.empty.write [.state "alice".toList 100000, .state "bob".toList 50000,
    .pending "alice".toList 44030, .pending "bob".toList 22005]

theorem confirmBlock_sequential_iff_sampleTx :
    ∃ e', (Engine.new sampleDatabase []).confirmBlock (fun _ => [])
        [sampleTx "bob" "carol" "5" "a1", sampleTx "alice" "dave" "10" "b2"] "miner".toList
        "c3".toList 1 = some e' ∧
      (Sequential sampleDatabase e'.db
          [sampleTransfer "bob" "carol" "5" "a1" 5, sampleTransfer "alice" "dave" "10" "b2" 10]
          "miner".toList ↔
        Isolated sampleDatabase
          [sampleTransfer "bob" "carol" "5" "a1" 5, sampleTransfer "alice" "dave" "10" "b2" 10]
          "miner".toList) :=
  confirmBlock_sequential_iff (fun _ => []) (Engine.new sampleDatabase []) (by rfl) "miner".toList
    "c3".toList 1

/-- **Two transactions of one sender.**  Only the second one is paid for. -/
theorem confirmBlock_not_sequential :
    ¬ ∀ (computeRoot : List Json → Str) (e : Engine) (transactions : List Tx)
      (transfers : List Transfer) (miner hash : Str) (height : ℤ),
      transactions.mapM transfer? = some transfers →
      ∃ e', e.confirmBlock computeRoot transactions miner hash height = some e' ∧
        Sequential e.db e'.db transfers miner := by
  intro h
  obtain ⟨e', he', hsequential⟩ := h (fun _ => []) (Engine.new sampleDatabase [])
    [sampleTx "alice" "carol" "20" "a1", sampleTx "alice" "dave" "10" "b2"]
    [sampleTransfer "alice" "carol" "20" "a1" 20, sampleTransfer "alice" "dave" "10" "b2" 10]
    "miner".toList "c3".toList 1 (by rfl)
  cases he'
  have hisolated := (sequential_confirmTransfers_iff (fun _ => []) (Engine.new sampleDatabase [])
    [sampleTransfer "alice" "carol" "20" "a1" 20, sampleTransfer "alice" "dave" "10" "b2" 10]
    "miner".toList "c3".toList 1).1 hsequential
  exact absurd (hisolated.balances "alice".toList) (by decide +kernel)

end TransactionEngine
