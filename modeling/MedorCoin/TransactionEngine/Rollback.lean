/-
**A block that is rolled back.**

The undo log of a block has the balances before it, so that all of them come back.  But an account
that was not there stays behind with a balance of zero, which the state root sees; the transactions
come back to the mempool with a height and a status; and what the senders had pending is forgotten.
The hash and the state root of the tip come from the database, whatever the engine had in memory.

Where nothing of this shows, a block is undone, and so are any number of them in reverse order.

Main definitions:

* `TransactionEngine.Restored` — what a rollback is to restore;
* `TransactionEngine.Restorable` — blocks for which it does;
* `TransactionEngine.Undone` — what a rollback leaves;
* `TransactionEngine.Same` — two engines that a rollback cannot tell apart.

Main results:

* `TransactionEngine.undone_rollbackBlock` — **what a rollback leaves**;
* `TransactionEngine.Undone.restored_iff` — it is what was there exactly for blocks that are
  restorable;
* `TransactionEngine.Same.rollbackBlock` — a rollback does not tell them apart;
* `TransactionEngine.rollbackBlock_confirmBlock` — **one block, and any number of blocks**;
* `TransactionEngine.rollbackBlock_not_restored` — the pending total of a sender.
-/

import MedorCoin.TransactionEngine.Confirmation
import MedorCoin.Transition.Run

set_option autoImplicit false

namespace TransactionEngine

open Js Transition

/-! ### Last writes -/

section Last

variable {κ ν α : Type} [DecidableEq κ]

theorem last_deltas (key : α → κ) (value : α → ν) (l : List α) {k : κ} {v : ν} (d : ν)
    [Decidable (k ∈ l.map key)] (h : ∀ x ∈ l, key x = k → value x = v) :
    (deltas (l.map fun x => (key x, value x)) k).getLast?.getD d
      = if k ∈ l.map key then v else d := by
  rw [deltas_map key (fun _ x => value x)]
  by_cases hk : k ∈ l.map key
  · rw [if_pos hk]
    obtain ⟨x, hx, hkey⟩ := List.mem_map.1 hk
    have hmem : value x ∈ (l.filter (key · = k)).map value :=
      List.mem_map_of_mem (List.mem_filter.2 ⟨hx, decide_eq_true hkey⟩)
    cases hlast : ((l.filter (key · = k)).map value).getLast? with
    | none =>
        rw [List.getLast?_eq_none_iff.1 hlast] at hmem
        cases hmem
    | some w =>
        obtain ⟨y, hy, rfl⟩ := List.mem_map.1 (List.mem_of_getLast? hlast)
        obtain ⟨hy, hkey⟩ := List.mem_filter.1 hy
        exact h y hy (of_decide_eq_true hkey)
  · rw [if_neg hk]
    have hnil : l.filter (key · = k) = [] := by
      rw [List.filter_eq_nil_iff]
      intro x hx hkey
      exact hk (List.mem_map.2 ⟨x, hx, of_decide_eq_true hkey⟩)
    rw [hnil]
    rfl

end Last

/-- What an operation does to the mempool. -/
def Write.mempool? : Write → Option (Str × Option Tx)
  | .mempool hash tx => some (hash, tx)
  | _ => none

/-- What an operation does to the confirmed transactions. -/
def Write.confirmed? : Write → Option (Str × Option Tx)
  | .confirmed hash tx => some (hash, tx)
  | _ => none

theorem Database.mempool_write (db : Database) (batch : List Write) (hash : Str) :
    (db.write batch).mempool hash
      = (written Write.mempool? batch hash).getLast?.getD (db.mempool hash) := by
  refine write_eq_last mempool Write.mempool? ?_ db batch hash
  intro db w hash
  cases w with
  | mempool h tx =>
      by_cases heq : h = hash
      · subst heq
        simp [apply, written, deltas, Write.mempool?]
      · simp [apply, written, deltas, Write.mempool?, heq, Function.update_of_ne (Ne.symm heq)]
  | _ => rfl

theorem Database.confirmed_write (db : Database) (batch : List Write) (hash : Str) :
    (db.write batch).confirmed hash
      = (written Write.confirmed? batch hash).getLast?.getD (db.confirmed hash) := by
  refine write_eq_last confirmed Write.confirmed? ?_ db batch hash
  intro db w hash
  cases w with
  | confirmed h tx =>
      by_cases heq : h = hash
      · subst heq
        simp [apply, written, deltas, Write.confirmed?]
      · simp [apply, written, deltas, Write.confirmed?, heq, Function.update_of_ne (Ne.symm heq)]
  | _ => rfl

/-- The height that an operation on the chain is about. -/
def Write.height? : Write → Option ℤ
  | .block height _ => some height
  | .index height _ => some height
  | .history height _ => some height
  | _ => none

theorem Database.write_chain (db : Database) {batch : List Write} {height : ℤ}
    (h : ∀ w ∈ batch, w.height? ≠ some height) :
    (db.write batch).block height = db.block height ∧
      (db.write batch).index height = db.index height ∧
      (db.write batch).history height = db.history height := by
  induction batch generalizing db with
  | nil => exact ⟨rfl, rfl, rfl⟩
  | cons w batch ih =>
      have hne : ∀ height', w.height? = some height' → height ≠ height' := by
        rintro height' hw rfl
        exact h w List.mem_cons_self hw
      obtain ⟨hblock, hindex, hhistory⟩ := ih (db.apply w)
        (fun w' hw' => h w' (List.mem_cons_of_mem _ hw'))
      refine ⟨hblock.trans ?_, hindex.trans ?_, hhistory.trans ?_⟩
      · cases w with
        | block height' record => exact Function.update_of_ne (hne _ rfl) _ _
        | _ => rfl
      · cases w with
        | index height' txHashes => exact Function.update_of_ne (hne _ rfl) _ _
        | _ => rfl
      · cases w with
        | history height' undoLog => exact Function.update_of_ne (hne _ rfl) _ _
        | _ => rfl

/-! ### What a rollback is to restore -/

/-- The addresses whose balances a block writes. -/
def touched (transfers : List Transfer) (miner : Str) : List Str :=
  transfers.flatMap (fun t => [t.sender, t.recipient]) ++ [miner]

/-- The keys of the transactions of a block. -/
def sigs (transfers : List Transfer) : List Str := transfers.map fun t => text t.tx.sig

theorem mem_sigs {transfers : List Transfer} {t : Transfer} (h : t ∈ transfers) :
    text t.tx.sig ∈ sigs transfers := List.mem_map_of_mem h

/-- A transaction that is in the mempool under its own hash. -/
def Staged (db : Database) (t : Transfer) : Prop :=
  ∃ hash, t.tx.sig = some (.str hash) ∧ db.mempool hash = some t.tx

/-- **Everything is as it was**: the balances, also for the state root, the mempool, the pending
totals, the confirmed transactions and the tip. -/
structure Restored (e e' : Engine) : Prop where
  balances : ∀ address, e'.db.balance address = e.db.balance address
  states : e'.db.states = e.db.states
  mempool : e'.db.mempool = e.db.mempool
  pending : ∀ address, e'.db.pendingTotal address = e.db.pendingTotal address
  confirmed : e'.db.confirmed = e.db.confirmed
  currentHeight : e'.currentHeight = e.currentHeight
  lastBlockHash : e'.lastBlockHash = e.lastBlockHash
  lastStateRoot : e'.lastStateRoot = e.lastStateRoot

/-- The last key that the state root sees. -/
def lastAddress : Str := [Char.ofNat 0xff]

/-- **A block of which no trace would be left.**  Its addresses have accounts; its transactions have
come back from a block of the same height before, and none is confirmed; what each sender pays last
does not change its pending total; and the engine has the tip that the database has. -/
structure Restorable (e : Engine) (transfers : List Transfer) (miner : Str) : Prop where
  accounts : ∀ address ∈ touched transfers miner, address ≤ lastAddress → address ∈ e.db.state
  entries : ∀ t ∈ transfers,
    lookup "height".toList t.tx = some (.num (e.currentHeight + 1)) ∧
      lookup "status".toList t.tx = some (.str "unconfirmed".toList)
  pending : ∀ t ∈ transfers, ∀ last ∈ (costs transfers t.sender).getLast?,
    (last = 0 ∧ 0 < e.db.pendingTotal t.sender) ∨
      (e.db.pendingTotal t.sender = 0 ∧ 0 ≤ last)
  confirmed : ∀ t ∈ transfers, e.db.confirmed (text t.tx.sig) = none
  hash : ((e.db.block e.currentHeight).map (·.hash)).getD zeroHash = e.lastBlockHash
  stateRoot : ((e.db.block e.currentHeight).map (·.stateRoot)).getD zeroHash = e.lastStateRoot

/-- **What a rollback leaves.** -/
structure Undone (e e' : Engine) (transfers : List Transfer) (miner : Str) : Prop where
  balance : ∀ address, e'.db.balance address = e.db.balance address
  state : ∀ address, address ∈ e'.db.state ↔
    address ∈ e.db.state ∨ address ∈ touched transfers miner
  mempool : ∀ hash, e'.db.mempool hash =
    if hash ∈ sigs transfers then
      (e.db.mempool hash).map fun tx => unconfirmedTx (confirmedTx tx (e.currentHeight + 1))
    else e.db.mempool hash
  confirmed : ∀ hash, e'.db.confirmed hash =
    if hash ∈ sigs transfers then none else e.db.confirmed hash
  pendingTotal : ∀ address, e'.db.pendingTotal address =
    ((costs transfers address).getLast?.map (remaining (e.db.pendingTotal address))).getD
      (e.db.pendingTotal address)
  currentHeight : e'.currentHeight = e.currentHeight
  lastBlockHash : e'.lastBlockHash =
    ((e.db.block e.currentHeight).map (·.hash)).getD zeroHash
  lastStateRoot : e'.lastStateRoot =
    ((e.db.block e.currentHeight).map (·.stateRoot)).getD zeroHash
  chain : ∀ height ≤ e.currentHeight, e'.db.block height = e.db.block height ∧
    e'.db.index height = e.db.index height ∧ e'.db.history height = e.db.history height

/-! ### The batch of a rollback -/

/-- The operations that put the transactions of a block back. -/
def unconfirm (transfers : List Transfer) (height : ℤ) : List Write :=
  transfers.flatMap fun t =>
    [.mempool (text t.tx.sig) (some (unconfirmedTx (confirmedTx t.tx height))),
     .confirmed (text t.tx.sig) none]

/-- The batch of a rollback. -/
def rollbackWrites (undoLog : List UndoEntry) (transfers : List Transfer) (height : ℤ) :
    List Write :=
  undoLog.map (fun entry => .state entry.address entry.balance) ++ unconfirm transfers height ++
    [.block height none, .index height none, .history height none]

section Batch

variable (undoLog : List UndoEntry) (transfers : List Transfer) (height : ℤ)

theorem filterMap_rollbackWrites {β : Type} (entry : Write → Option β)
    (hchain : ([.block height none, .index height none, .history height none] :
      List Write).filterMap entry = []) :
    (rollbackWrites undoLog transfers height).filterMap entry
      = undoLog.filterMap (fun e => entry (.state e.address e.balance)) ++
        transfers.flatMap fun t => ([.mempool (text t.tx.sig)
          (some (unconfirmedTx (confirmedTx t.tx height))), .confirmed (text t.tx.sig) none] :
          List Write).filterMap entry := by
  rw [rollbackWrites, List.filterMap_append, List.filterMap_append, hchain, List.append_nil,
    List.filterMap_map, unconfirm, List.filterMap_flatMap]
  rfl

theorem balance?_rollbackWrites :
    (rollbackWrites undoLog transfers height).filterMap Write.balance?
      = undoLog.map fun e => (e.address, e.balance) := by
  rw [filterMap_rollbackWrites undoLog transfers height _ rfl]
  simp [Write.balance?]

theorem total?_rollbackWrites :
    (rollbackWrites undoLog transfers height).filterMap Write.total? = [] := by
  rw [filterMap_rollbackWrites undoLog transfers height _ rfl]
  simp [Write.total?]

theorem mempool?_rollbackWrites :
    (rollbackWrites undoLog transfers height).filterMap Write.mempool?
      = transfers.map fun t =>
        (text t.tx.sig, some (unconfirmedTx (confirmedTx t.tx height))) := by
  rw [filterMap_rollbackWrites undoLog transfers height _ rfl]
  have hnone : undoLog.filterMap (fun e => Write.mempool? (.state e.address e.balance)) = [] := by
    simp [Write.mempool?]
  rw [hnone, List.nil_append, List.map_eq_flatMap]
  rfl

theorem confirmed?_rollbackWrites :
    (rollbackWrites undoLog transfers height).filterMap Write.confirmed?
      = transfers.map fun t => (text t.tx.sig, none) := by
  rw [filterMap_rollbackWrites undoLog transfers height _ rfl]
  have hnone : undoLog.filterMap (fun e => Write.confirmed? (.state e.address e.balance)) = [] := by
    simp [Write.confirmed?]
  rw [hnone, List.nil_append, List.map_eq_flatMap]
  rfl

end Batch

/-! ### One block -/

section Block

variable (computeRoot : List Json → Str) (e : Engine) (transfers : List Transfer)
  (miner hash : Str) (height : ℤ)

theorem filterMap_blockWrites {β : Type} (entry : Write → Option β) (value : Transfer → β)
    (h : ∀ t, (t.writes e.db height).filterMap entry = [value t])
    (hminer : entry (mutateBalance e.db miner (totalFees transfers + blockReward) true) = none) :
    (blockWrites e.db transfers miner height).filterMap entry = transfers.map value := by
  rw [blockWrites, List.filterMap_append, List.filterMap_cons_none hminer, List.filterMap_nil,
    List.append_nil]
  clear hminer
  induction transfers with
  | nil => rfl
  | cons t transfers ih =>
      rw [List.flatMap_cons, List.filterMap_append, ih, h]
      rfl

theorem Staged.mempool_eq {db : Database} {t : Transfer} (h : Staged db t) {key : Str}
    (hkey : text t.tx.sig = key) : db.mempool key = some t.tx := by
  obtain ⟨s, hsig, hmem⟩ := h
  rw [hsig] at hkey
  subst hkey
  exact hmem

theorem confirmed_confirmTransfers (hstaged : ∀ t ∈ transfers, Staged e.db t) (key : Str) :
    (e.confirmTransfers computeRoot transfers miner hash height).db.confirmed key
      = if key ∈ sigs transfers then (e.db.mempool key).map (confirmedTx · height)
        else e.db.confirmed key := by
  refine (e.db.confirmed_write _ key).trans ?_
  rw [written, filterMap_blockWrites e transfers miner height Write.confirmed?
    (fun t => (text t.tx.sig, some (confirmedTx t.tx height))) (fun _ => rfl) rfl]
  refine last_deltas (fun t : Transfer => text t.tx.sig) _ transfers _ ?_
  intro t ht hkey
  rw [(hstaged t ht).mempool_eq hkey]
  rfl

theorem mempool_confirmTransfers (key : Str) :
    (e.confirmTransfers computeRoot transfers miner hash height).db.mempool key
      = if key ∈ sigs transfers then none else e.db.mempool key := by
  refine (e.db.mempool_write _ key).trans ?_
  rw [written, filterMap_blockWrites e transfers miner height Write.mempool?
    (fun t => (text t.tx.sig, none)) (fun _ => rfl) rfl]
  exact last_deltas (fun t : Transfer => text t.tx.sig) (fun _ => none) transfers _
    (fun _ _ _ => rfl)

theorem map_fst_operations :
    (operations transfers miner).map Prod.fst = touched transfers miner := by
  simp only [operations, touched, List.map_append, List.map_flatMap]
  rfl

theorem mem_state_confirmTransfers (address : Str) :
    address ∈ (e.confirmTransfers computeRoot transfers miner hash height).db.state
      ↔ address ∈ e.db.state ∨ address ∈ touched transfers miner := by
  refine (e.db.mem_state_write (blockWrites e.db transfers miner height) address).trans ?_
  rw [balance?_blockWrites, List.map_map, ← map_fst_operations]
  rfl

theorem unconfirmWrites_eq {db : Database} {transfers : List Transfer} {height : ℤ}
    (hsig : ∀ t ∈ transfers, ∃ s, t.tx.sig = some (.str s))
    (h : ∀ t ∈ transfers, db.confirmed (text t.tx.sig) = some (confirmedTx t.tx height)) :
    unconfirmWrites db (transfers.map fun t => t.tx.sig.getD .null)
      = some (unconfirm transfers height) := by
  induction transfers with
  | nil => rfl
  | cons t transfers ih =>
      have ih' := ih (fun t' ht' => hsig t' (List.mem_cons_of_mem _ ht'))
        (fun t' ht' => h t' (List.mem_cons_of_mem _ ht'))
      obtain ⟨s, hs⟩ := hsig t List.mem_cons_self
      have hconfirmed := h t List.mem_cons_self
      rw [hs] at hconfirmed
      unfold unconfirmWrites at ih' ⊢
      obtain ⟨l, hl, hflat⟩ := Option.map_eq_some_iff.1 ih'
      simp only [List.map_cons, List.mapM_cons, hs, Option.getD_some, hconfirmed, hl]
      change some (List.flatten (_ :: l)) = some _
      rw [List.flatten_cons, hflat]
      simp only [unconfirm, List.flatMap_cons, hs]

theorem balance_of_mem_undoLog {db : Database} {transfers : List Transfer} {miner : Str}
    {entry : UndoEntry} (h : entry ∈ undoLog db transfers miner) :
    entry.balance = db.balance entry.address := by
  rcases List.mem_append.1 h with h | h
  · obtain ⟨t, -, h⟩ := List.mem_flatMap.1 h
    rcases List.mem_cons.1 h with rfl | h
    · rfl
    · rw [List.mem_singleton.1 h]
      rfl
  · rw [List.mem_singleton.1 h]
    rfl

theorem balance_confirmTransfers_of_not_mem {address : Str}
    (h : address ∉ touched transfers miner) :
    (e.confirmTransfers computeRoot transfers miner hash height).db.balance address
      = e.db.balance address := by
  have hnil : deltas (operations transfers miner) address = [] := by
    rw [deltas, List.map_eq_nil_iff, List.filter_eq_nil_iff]
    intro op hop heq
    rw [← map_fst_operations] at h
    exact h (List.mem_map.2 ⟨op, hop, of_decide_eq_true heq⟩)
  rw [balance_confirmTransfers, hnil]
  exact add_zero _

/-- The database after a block and the batch of its rollback. -/
def rolledBack : Database :=
  (e.confirmTransfers computeRoot transfers miner hash (e.currentHeight + 1)).db.write
    (rollbackWrites (undoLog e.db transfers miner) transfers (e.currentHeight + 1))

theorem map_address_undoLog :
    (undoLog e.db transfers miner).map UndoEntry.address = touched transfers miner := by
  simp only [undoLog, touched, List.map_append, List.map_flatMap]
  rfl

theorem balance_rolledBack (address : Str) :
    (rolledBack computeRoot e transfers miner hash).balance address = e.db.balance address := by
  have hlog : ∀ entry ∈ undoLog e.db transfers miner, entry.address = address →
      entry.balance = e.db.balance address := by
    rintro entry hentry rfl
    exact balance_of_mem_undoLog hentry
  rw [rolledBack, Database.balance_write, written, balance?_rollbackWrites,
    last_deltas UndoEntry.address UndoEntry.balance _ _ hlog, map_address_undoLog]
  split
  · rfl
  · next hmem =>
      exact balance_confirmTransfers_of_not_mem computeRoot e transfers miner hash _ hmem

theorem mem_state_rolledBack (address : Str) :
    address ∈ (rolledBack computeRoot e transfers miner hash).state ↔
      address ∈ e.db.state ∨ address ∈ touched transfers miner := by
  have hlog : (undoLog e.db transfers miner).map (Prod.fst ∘ fun entry =>
      (entry.address, entry.balance)) = touched transfers miner :=
    map_address_undoLog e transfers miner
  rw [rolledBack, Database.mem_state_write, balance?_rollbackWrites, List.map_map, hlog,
    mem_state_confirmTransfers, or_assoc, or_self]

theorem last_sigs {ν : Type} (value : Transfer → ν) {key : Str} {v : ν} (d' d : ν)
    (h : ∀ t ∈ transfers, text t.tx.sig = key → value t = v) :
    (deltas (transfers.map fun t => (text t.tx.sig, value t)) key).getLast?.getD
        (if key ∈ sigs transfers then d' else d)
      = if key ∈ sigs transfers then v else d := by
  rw [last_deltas (fun t : Transfer => text t.tx.sig) value transfers _ h]
  by_cases hkey : key ∈ sigs transfers
  · rw [if_pos hkey, if_pos hkey]
    exact if_pos hkey
  · rw [if_neg hkey, if_neg hkey]
    exact if_neg hkey

theorem mempool_rolledBack (hstaged : ∀ t ∈ transfers, Staged e.db t) (key : Str) :
    (rolledBack computeRoot e transfers miner hash).mempool key =
      if key ∈ sigs transfers then
        (e.db.mempool key).map fun tx => unconfirmedTx (confirmedTx tx (e.currentHeight + 1))
      else e.db.mempool key := by
  rw [rolledBack, Database.mempool_write, written, mempool?_rollbackWrites,
    mempool_confirmTransfers]
  refine last_sigs transfers _ none _ ?_
  intro t ht hkey
  rw [(hstaged t ht).mempool_eq hkey]
  rfl

theorem confirmed_rolledBack (hstaged : ∀ t ∈ transfers, Staged e.db t) (key : Str) :
    (rolledBack computeRoot e transfers miner hash).confirmed key =
      if key ∈ sigs transfers then none else e.db.confirmed key := by
  rw [rolledBack, Database.confirmed_write, written, confirmed?_rollbackWrites,
    confirmed_confirmTransfers computeRoot e transfers miner hash _ hstaged]
  exact last_sigs transfers (fun _ => none) _ _ (fun _ _ _ => rfl)

theorem pendingTotal_rolledBack (address : Str) :
    (rolledBack computeRoot e transfers miner hash).pendingTotal address =
      ((costs transfers address).getLast?.map (remaining (e.db.pendingTotal address))).getD
        (e.db.pendingTotal address) := by
  rw [rolledBack, Database.pendingTotal_write, written, total?_rollbackWrites, deltas_nil,
    List.getLast?_nil, Option.getD_none, pendingTotal_confirmTransfers]

theorem chain_rolledBack {height : ℤ} (h : height ≤ e.currentHeight) :
    (rolledBack computeRoot e transfers miner hash).block height = e.db.block height ∧
      (rolledBack computeRoot e transfers miner hash).index height = e.db.index height ∧
      (rolledBack computeRoot e transfers miner hash).history height = e.db.history height := by
  have hne : height ≠ e.currentHeight + 1 := by omega
  have hrollback : ∀ w ∈ rollbackWrites (undoLog e.db transfers miner) transfers
      (e.currentHeight + 1), w.height? ≠ some height := by
    intro w hw hheight
    simp only [rollbackWrites, unconfirm, List.mem_append, List.mem_map, List.mem_flatMap,
      List.mem_cons, List.not_mem_nil, or_false] at hw
    rcases hw with (⟨entry, -, rfl⟩ | ⟨t, -, rfl | rfl⟩) | rfl | rfl | rfl <;>
      simp [Write.height?, eq_comm, hne] at hheight
  have hblock : ∀ w ∈ blockWrites e.db transfers miner (e.currentHeight + 1),
      w.height? ≠ some height := by
    intro w hw hheight
    simp only [blockWrites, Transfer.writes, mutateBalance, List.mem_append, List.mem_flatMap,
      List.mem_cons, List.not_mem_nil, or_false] at hw
    rcases hw with ⟨t, -, rfl | rfl | rfl | rfl | rfl⟩ | rfl <;>
      simp [Write.height?] at hheight
  obtain ⟨hb, hi, hh⟩ := Database.write_chain
    (e.confirmTransfers computeRoot transfers miner hash (e.currentHeight + 1)).db hrollback
  obtain ⟨hb', hi', hh'⟩ := e.db.write_chain hblock
  refine ⟨hb.trans (Eq.trans ?_ hb'), hi.trans (Eq.trans ?_ hi'), hh.trans (Eq.trans ?_ hh')⟩
  · exact Function.update_of_ne hne _ _
  · exact Function.update_of_ne hne _ _
  · exact Function.update_of_ne hne _ _

/-- **What a rollback leaves.** -/
theorem undone_rollbackBlock (hstaged : ∀ t ∈ transfers, Staged e.db t) :
    ∃ e', (e.confirmTransfers computeRoot transfers miner hash
        (e.currentHeight + 1)).rollbackBlock (e.currentHeight + 1) = some e' ∧
      Undone e e' transfers miner := by
  let e₁ := e.confirmTransfers computeRoot transfers miner hash (e.currentHeight + 1)
  let db := rolledBack computeRoot e transfers miner hash
  have hhistory : e₁.db.history (e.currentHeight + 1) = some (undoLog e.db transfers miner) :=
    Function.update_self ..
  have hindex : e₁.db.index (e.currentHeight + 1)
      = some (transfers.map fun t => t.tx.sig.getD .null) := Function.update_self ..
  have hunconfirm : unconfirmWrites e₁.db (transfers.map fun t => t.tx.sig.getD .null)
      = some (unconfirm transfers (e.currentHeight + 1)) := by
    refine unconfirmWrites_eq ?_ ?_
    · intro t ht
      obtain ⟨s, hsig, -⟩ := hstaged t ht
      exact ⟨s, hsig⟩
    · intro t ht
      rw [confirmed_confirmTransfers computeRoot e transfers miner hash _ hstaged,
        if_pos (mem_sigs ht), (hstaged t ht).mempool_eq rfl]
      rfl
  have hrollback : e₁.rollbackBlock (e.currentHeight + 1) =
      let prev := db.block (e.currentHeight + 1 - 1)
      some { e₁ with
        db := db
        currentHeight := e.currentHeight + 1 - 1
        lastBlockHash := (prev.map (·.hash)).getD zeroHash
        lastStateRoot := (prev.map (·.stateRoot)).getD zeroHash } := by
    unfold Engine.rollbackBlock
    rw [hhistory]
    simp only [hindex, Option.bind_eq_bind, Option.bind_some, hunconfirm]
    rfl
  have hblock := (chain_rolledBack computeRoot e transfers miner hash le_rfl).1
  rw [add_sub_cancel_right] at hrollback
  exact ⟨_, hrollback,
    { balance := balance_rolledBack computeRoot e transfers miner hash
      state := mem_state_rolledBack computeRoot e transfers miner hash
      mempool := mempool_rolledBack computeRoot e transfers miner hash hstaged
      confirmed := confirmed_rolledBack computeRoot e transfers miner hash hstaged
      pendingTotal := pendingTotal_rolledBack computeRoot e transfers miner hash
      currentHeight := rfl
      lastBlockHash := congrArg (fun r => (Option.map BlockRecord.hash r).getD zeroHash) hblock
      lastStateRoot :=
        congrArg (fun r => (Option.map BlockRecord.stateRoot r).getD zeroHash) hblock
      chain := fun height h => chain_rolledBack computeRoot e transfers miner hash h }⟩

end Block

/-! ### When everything is as it was -/

theorem states_eq_iff {db db' : Database}
    (h : ∀ address, db'.balance address = db.balance address) :
    db'.states = db.states ↔
      ∀ address ≤ lastAddress, (address ∈ db'.state ↔ address ∈ db.state) := by
  have hkeys : ∀ (d : Database) address, address ∈ d.states.map Prod.fst ↔
      address ≤ lastAddress ∧ address ∈ d.state := by
    intro d address
    simp [Database.states, lastAddress, Finmap.mem_keys, and_comm]
  constructor
  · intro heq address hle
    have hmem := hkeys db' address
    rw [heq, hkeys db address] at hmem
    simpa [hle, iff_comm] using hmem
  · intro hmem
    have hfilter : db'.state.keys.filter (· ≤ [Char.ofNat 0xff])
        = db.state.keys.filter (· ≤ [Char.ofNat 0xff]) := by
      ext address
      simp only [Finset.mem_filter, Finmap.mem_keys]
      constructor
      · rintro ⟨haddress, hle⟩
        exact ⟨(hmem address hle).1 haddress, hle⟩
      · rintro ⟨haddress, hle⟩
        exact ⟨(hmem address hle).2 haddress, hle⟩
    simp only [Database.states, hfilter, h]

theorem unconfirmedTx_confirmedTx_iff (tx : Tx) (height : ℤ) :
    unconfirmedTx (confirmedTx tx height) = tx ↔
      lookup "height".toList tx = some (.num height) ∧
        lookup "status".toList tx = some (.str "unconfirmed".toList) := by
  constructor
  · intro h
    have hheight := congrArg (lookup "height".toList) h
    have hstatus := congrArg (lookup "status".toList) h
    simp only [unconfirmedTx, confirmedTx, lookup_store] at hheight hstatus
    exact ⟨hheight.symm, hstatus.symm⟩
  · rintro ⟨hheight, hstatus⟩
    rw [confirmedTx, store_of_lookup hheight, unconfirmedTx, store_store, store_of_lookup hstatus]

theorem remaining_eq_self_iff (total cost : ℤ) :
    remaining total cost = total ↔ (cost = 0 ∧ 0 < total) ∨ (total = 0 ∧ 0 ≤ cost) := by
  unfold remaining
  split <;> omega

theorem exists_of_getLast?_costs {transfers : List Transfer} {sender : Str} {last : ℤ}
    (h : last ∈ (costs transfers sender).getLast?) : ∃ t ∈ transfers, t.sender = sender := by
  obtain ⟨t, ht, -⟩ := List.mem_map.1 (List.mem_of_getLast? h)
  obtain ⟨ht, hsender⟩ := List.mem_filter.1 ht
  exact ⟨t, ht, of_decide_eq_true hsender⟩

/-- **A rollback restores everything exactly for blocks that are restorable.** -/
theorem Undone.restored_iff {e e' : Engine} {transfers : List Transfer} {miner : Str}
    (h : Undone e e' transfers miner) (hstaged : ∀ t ∈ transfers, Staged e.db t) :
    Restored e e' ↔ Restorable e transfers miner := by
  constructor
  · intro hr
    refine ⟨?_, ?_, ?_, ?_, h.lastBlockHash.symm.trans hr.lastBlockHash,
      h.lastStateRoot.symm.trans hr.lastStateRoot⟩
    · intro address htouched hle
      exact ((states_eq_iff h.balance).1 hr.states address hle).1
        ((h.state address).2 (Or.inr htouched))
    · intro t ht
      have hentry := h.mempool (text t.tx.sig)
      rw [hr.mempool, if_pos (mem_sigs ht), (hstaged t ht).mempool_eq rfl, Option.map_some,
        Option.some.injEq] at hentry
      exact (unconfirmedTx_confirmedTx_iff _ _).1 hentry.symm
    · intro t ht last hlast
      have htotal := h.pendingTotal t.sender
      rw [hr.pending, Option.mem_def.1 hlast] at htotal
      exact (remaining_eq_self_iff _ _).1 htotal.symm
    · intro t ht
      have hnone := h.confirmed (text t.tx.sig)
      rw [hr.confirmed, if_pos (mem_sigs ht)] at hnone
      exact hnone
  · intro hr
    refine ⟨h.balance, ?_, ?_, ?_, ?_, h.currentHeight, h.lastBlockHash.trans hr.hash,
      h.lastStateRoot.trans hr.stateRoot⟩
    · refine (states_eq_iff h.balance).2 ?_
      intro address hle
      rw [h.state]
      constructor
      · rintro (hmem | htouched)
        · exact hmem
        · exact hr.accounts address htouched hle
      · exact Or.inl
    · funext key
      rw [h.mempool]
      split
      · next hkey =>
          obtain ⟨t, ht, rfl⟩ := List.mem_map.1 hkey
          rw [(hstaged t ht).mempool_eq rfl]
          exact congrArg some ((unconfirmedTx_confirmedTx_iff _ _).2 (hr.entries t ht))
      · rfl
    · intro address
      rw [h.pendingTotal]
      cases hlast : (costs transfers address).getLast? with
      | none => rfl
      | some last =>
          obtain ⟨t, ht, rfl⟩ := exists_of_getLast?_costs (Option.mem_def.2 hlast)
          exact (remaining_eq_self_iff _ _).2 (hr.pending t ht last hlast)
    · funext key
      rw [h.confirmed]
      split
      · next hkey =>
          obtain ⟨t, ht, rfl⟩ := List.mem_map.1 hkey
          exact (hr.confirmed t ht).symm
      · rfl

/-! ### Any number of blocks -/

/-- **Two engines that no rollback of the blocks they have can tell apart.** -/
structure Same (e e' : Engine) : Prop extends Restored e e' where
  chain : ∀ height ≤ e.currentHeight, e'.db.block height = e.db.block height ∧
    e'.db.index height = e.db.index height ∧ e'.db.history height = e.db.history height

theorem Same.refl (e : Engine) : Same e e :=
  ⟨⟨fun _ => rfl, rfl, rfl, fun _ => rfl, rfl, rfl, rfl, rfl⟩, fun _ _ => ⟨rfl, rfl, rfl⟩⟩

theorem Same.trans {e e' e'' : Engine} (h : Same e e') (h' : Same e' e'') : Same e e'' := by
  refine ⟨⟨?_, h'.states.trans h.states, h'.mempool.trans h.mempool, ?_,
    h'.confirmed.trans h.confirmed, h'.currentHeight.trans h.currentHeight,
    h'.lastBlockHash.trans h.lastBlockHash, h'.lastStateRoot.trans h.lastStateRoot⟩, ?_⟩
  · exact fun address => (h'.balances address).trans (h.balances address)
  · exact fun address => (h'.pending address).trans (h.pending address)
  · intro height hle
    obtain ⟨hb, hi, hh⟩ := h.chain height hle
    obtain ⟨hb', hi', hh'⟩ := h'.chain height (by rw [h.currentHeight]; exact hle)
    exact ⟨hb'.trans hb, hi'.trans hi, hh'.trans hh⟩

theorem Database.write_chain_congr {db db' : Database} {height : ℤ} (batch : List Write)
    (h : db'.block height = db.block height ∧ db'.index height = db.index height ∧
      db'.history height = db.history height) :
    (db'.write batch).block height = (db.write batch).block height ∧
      (db'.write batch).index height = (db.write batch).index height ∧
      (db'.write batch).history height = (db.write batch).history height := by
  induction batch generalizing db db' with
  | nil => exact h
  | cons w batch ih =>
      refine @ih (db.apply w) (db'.apply w) ?_
      obtain ⟨hb, hi, hh⟩ := h
      cases w with
      | block height' record => exact ⟨by simp only [apply, Function.update_apply, hb], hi, hh⟩
      | index height' txHashes => exact ⟨hb, by simp only [apply, Function.update_apply, hi], hh⟩
      | history height' undoLog => exact ⟨hb, hi, by simp only [apply, Function.update_apply, hh]⟩
      | _ => exact ⟨hb, hi, hh⟩

theorem unconfirmWrites_congr {db db' : Database} (h : db'.confirmed = db.confirmed)
    (txHashes : List Json) : unconfirmWrites db' txHashes = unconfirmWrites db txHashes := by
  simp only [unconfirmWrites, h]

/-- **A rollback does not tell the two apart.** -/
theorem Same.rollbackBlock {e e' r : Engine} (h : Same e e')
    (hr : e.rollbackBlock e.currentHeight = some r) :
    ∃ r', e'.rollbackBlock e'.currentHeight = some r' ∧ Same r r' := by
  obtain ⟨-, hindex, hhistory⟩ := h.chain e.currentHeight le_rfl
  rw [h.currentHeight]
  unfold Engine.rollbackBlock at hr ⊢
  rw [hhistory]
  cases hlog : e.db.history e.currentHeight with
  | none =>
      rw [hlog] at hr
      cases hr
      exact ⟨e', rfl, h⟩
  | some undoLog =>
      rw [hlog] at hr
      simp only [Option.bind_eq_bind, Option.bind_eq_some_iff] at hr
      obtain ⟨txHashes, htxHashes, unconfirm, hunconfirm, hr⟩ := hr
      simp only [hindex, htxHashes, Option.bind_eq_bind, Option.bind_some,
        unconfirmWrites_congr h.confirmed, hunconfirm]
      refine ⟨_, rfl, ?_⟩
      cases hr
      let batch := undoLog.map (fun entry => Write.state entry.address entry.balance) ++
        unconfirm ++ [.block e.currentHeight none, .index e.currentHeight none,
          .history e.currentHeight none]
      have hbalances : ∀ address,
          (e'.db.write batch).balance address = (e.db.write batch).balance address := by
        intro address
        rw [Database.balance_write, Database.balance_write, h.balances]
      have hblock := (Database.write_chain_congr batch
        (h.chain (e.currentHeight - 1) (by omega))).1
      refine ⟨⟨hbalances, ?_, ?_, ?_, ?_, rfl, ?_, ?_⟩, ?_⟩
      · refine (states_eq_iff hbalances).2 ?_
        intro address hle
        have hmem := (states_eq_iff h.balances).1 h.states address hle
        exact (e'.db.mem_state_write batch address).trans
          ((or_congr_left hmem).trans (e.db.mem_state_write batch address).symm)
      · funext key
        exact (e'.db.mempool_write batch key).trans
          ((congrArg _ (congrFun h.mempool key)).trans (e.db.mempool_write batch key).symm)
      · intro address
        exact (e'.db.pendingTotal_write batch address).trans
          ((congrArg _ (h.pending address)).trans (e.db.pendingTotal_write batch address).symm)
      · funext key
        exact (e'.db.confirmed_write batch key).trans
          ((congrArg _ (congrFun h.confirmed key)).trans (e.db.confirmed_write batch key).symm)
      · exact congrArg (fun r => (Option.map BlockRecord.hash r).getD zeroHash) hblock
      · exact congrArg (fun r => (Option.map BlockRecord.stateRoot r).getD zeroHash) hblock
      · intro height hle
        have hle' : height ≤ e.currentHeight - 1 := hle
        exact Database.write_chain_congr batch (h.chain height (by omega))

/-- What `confirmBlock` is called with, but for the height. -/
structure Block where
  transactions : List Tx
  miner : Str
  hash : Str

/-- The next block. -/
def confirmNext (computeRoot : List Json → Str) (e : Engine) (b : Block) : Option Engine :=
  e.confirmBlock computeRoot b.transactions b.miner b.hash (e.currentHeight + 1)

/-- A block of staged transactions of which no trace would be left. -/
def Block.Restorable (e : Engine) (b : Block) (_ : Engine) : Prop :=
  ∃ transfers, b.transactions.mapM transfer? = some transfers ∧
    (∀ t ∈ transfers, Staged e.db t) ∧ TransactionEngine.Restorable e transfers b.miner

/-- The last block first, then the one before, and so on. -/
def rollbackBlocks : ℕ → Engine → Option Engine
  | 0, e => some e
  | n + 1, e => (rollbackBlocks n e).bind fun e' => e'.rollbackBlock e'.currentHeight

theorem same_rollbackBlocks (computeRoot : List Json → Str) {e e' : Engine}
    {blocks : List Block} (h : EveryStep (confirmNext computeRoot) Block.Restorable e blocks)
    (hrun : run (confirmNext computeRoot) e blocks = some e') :
    ∃ e'', rollbackBlocks blocks.length e' = some e'' ∧ Same e e'' := by
  induction blocks generalizing e with
  | nil =>
      cases hrun
      exact ⟨e', rfl, Same.refl e'⟩
  | cons b blocks ih =>
      obtain ⟨e₁, hfirst, hrest⟩ := run_cons_eq_some.1 hrun
      obtain ⟨⟨transfers, htransfers, hstaged, hrestorable⟩, hrestorables⟩ := h e₁ hfirst
      obtain ⟨e₁', hback, hsame⟩ := ih hrestorables hrest
      simp only [confirmNext, Engine.confirmBlock, htransfers, Option.map_some,
        Option.some.injEq] at hfirst
      subst hfirst
      -- undo the first block on the engine as it was, and carry this over
      obtain ⟨r, hr, hundone⟩ :=
        undone_rollbackBlock computeRoot e transfers b.miner b.hash hstaged
      have hrestored := (hundone.restored_iff hstaged).2 hrestorable
      obtain ⟨r', hr', hsame'⟩ := hsame.rollbackBlock hr
      refine ⟨r', ?_, Same.trans ⟨hrestored, hundone.chain⟩ hsame'⟩
      rw [List.length_cons, rollbackBlocks, hback]
      exact hr'

/-- **One block is undone exactly when it is restorable, and any number of restorable blocks are
undone in reverse order.** -/
theorem rollbackBlock_confirmBlock (computeRoot : List Json → Str) :
    (∀ (e : Engine) (transactions : List Tx) (transfers : List Transfer) (miner hash : Str),
      transactions.mapM transfer? = some transfers → (∀ t ∈ transfers, Staged e.db t) →
      ∃ e₁ e₂, e.confirmBlock computeRoot transactions miner hash (e.currentHeight + 1) = some e₁ ∧
        e₁.rollbackBlock (e.currentHeight + 1) = some e₂ ∧
        (Restored e e₂ ↔ Restorable e transfers miner)) ∧
    (∀ (e e' : Engine) (blocks : List Block),
      EveryStep (confirmNext computeRoot) Block.Restorable e blocks →
      run (confirmNext computeRoot) e blocks = some e' →
      ∃ e'', rollbackBlocks blocks.length e' = some e'' ∧ Restored e e'') := by
  constructor
  · intro e transactions transfers miner hash htransfers hstaged
    obtain ⟨e₂, hrollback, hundone⟩ :=
      undone_rollbackBlock computeRoot e transfers miner hash hstaged
    refine ⟨_, e₂, ?_, hrollback, hundone.restored_iff hstaged⟩
    rw [Engine.confirmBlock, htransfers]
    rfl
  · intro e e' blocks h hrun
    obtain ⟨e'', hback, hsame⟩ := same_rollbackBlocks computeRoot h hrun
    exact ⟨e'', hback, hsame.toRestored⟩

def sampleEngine : Engine :=
  Engine.new (sampleDatabase.write
    [.mempool "a1".toList (some (sampleTx "alice" "bob" "20" "a1"))]) []

theorem staged_sampleEngine :
    ∀ t ∈ [sampleTransfer "alice" "bob" "20" "a1" 20], Staged sampleEngine.db t := by
  intro t ht
  rw [List.mem_singleton.1 ht]
  exact ⟨"a1".toList, rfl, rfl⟩

theorem rollbackBlock_confirmBlock_sampleEngine :
    (∃ e₁ e₂, sampleEngine.confirmBlock (fun _ => []) [sampleTx "alice" "bob" "20" "a1"]
        "bob".toList "c3".toList (sampleEngine.currentHeight + 1) = some e₁ ∧
      e₁.rollbackBlock (sampleEngine.currentHeight + 1) = some e₂ ∧
      (Restored sampleEngine e₂ ↔
        Restorable sampleEngine [sampleTransfer "alice" "bob" "20" "a1" 20] "bob".toList)) ∧
    (∃ e' e'', run (confirmNext fun _ => []) sampleEngine [⟨[], "bob".toList, "c3".toList⟩]
        = some e' ∧ rollbackBlocks 1 e' = some e'' ∧ Restored sampleEngine e'') := by
  refine ⟨(rollbackBlock_confirmBlock fun _ => []).1 sampleEngine _ _ "bob".toList "c3".toList
    (by rfl) staged_sampleEngine, ?_⟩
  have hrestorable : Restorable sampleEngine [] "bob".toList := by
    refine ⟨?_, ?_, ?_, ?_, rfl, rfl⟩
    · intro address haddress _
      rw [List.mem_singleton.1 haddress]
      decide +kernel
    all_goals simp
  have hrun : run (confirmNext fun _ => []) sampleEngine [⟨[], "bob".toList, "c3".toList⟩]
      = some (sampleEngine.confirmTransfers (fun _ => []) [] "bob".toList "c3".toList 1) := rfl
  obtain ⟨e'', hback, hrestored⟩ := (rollbackBlock_confirmBlock fun _ => []).2 sampleEngine _
    [⟨[], "bob".toList, "c3".toList⟩]
    (fun e₁ _ => ⟨⟨[], rfl, by simp, hrestorable⟩, everyStep_nil e₁⟩) hrun
  exact ⟨_, e'', hrun, hback, hrestored⟩

/-- **The pending total of a sender** stays as the block has left it. -/
theorem rollbackBlock_not_restored :
    ¬ ∀ (computeRoot : List Json → Str) (e e₁ e₂ : Engine) (transactions : List Tx)
      (transfers : List Transfer) (miner hash : Str),
      transactions.mapM transfer? = some transfers → (∀ t ∈ transfers, Staged e.db t) →
      e.confirmBlock computeRoot transactions miner hash (e.currentHeight + 1) = some e₁ →
      e₁.rollbackBlock (e.currentHeight + 1) = some e₂ → Restored e e₂ := by
  intro h
  obtain ⟨e₂, hrollback, hundone⟩ := undone_rollbackBlock (fun _ => []) sampleEngine
    [sampleTransfer "alice" "bob" "20" "a1" 20] "bob".toList "c3".toList staged_sampleEngine
  have hrestored := h (fun _ => []) sampleEngine _ e₂ [sampleTx "alice" "bob" "20" "a1"] _
    "bob".toList "c3".toList (by rfl) staged_sampleEngine (by rfl) hrollback
  have hpending := ((hundone.restored_iff staged_sampleEngine).1 hrestored).pending
    (sampleTransfer "alice" "bob" "20" "a1" 20) (List.mem_singleton_self _) 22020 (by rfl)
  exact absurd hpending (by decide +kernel)

end TransactionEngine
