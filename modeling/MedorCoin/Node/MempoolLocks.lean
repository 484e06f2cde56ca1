/-
**The mutexes that a call of the mempool takes.**

A call takes the mutexes of the pool one block after the other: the stripe of a transaction around
all that happens to it, the mutex of the maps, those of the queue, of the eviction callback and of
the log.  None of them is recursive.  The traces below go on where a thread would stop: they are the
events in the order of the program, whether or not a mutex is free.  The callbacks of the log and of
an eviction are taken to call nothing of the pool.

Only the stripes can be taken twice.  A transaction that gets in has its dependents added from
within its own call, and the stripe is given back after that.  So a thread waits for itself just
when two calls of one chain of such calls have hashes in the same stripe.  That depends on hashes
alone, and a chain of more than 128 calls ends so whatever they are.

Main definitions:

* `Mempool.Mutex`, `Mempool.Locks` — the mutexes, and the events of a call;
* `Mempool.addLocks` — the events of `addTransaction`, with the orphans that follow;
* `Mempool.Operation`, `Mempool.locks` — the public operations and their events;
* `Mempool.Chain` — calls of `addTransaction`, each within the one before, that come to their
  stripe; `Mempool.StripesApart` — the calls of a chain have stripes of their own.

Main results:

* `Mempool.addLocks_returns` — the orphans suffice as fuel, in whatever state the pool is;
* `Mempool.disciplined_addLocks` — **a call is disciplined just when its chains have distinct
  stripes**;
* `Mempool.addTransaction_deadlock_iff` — a call comes to a stop just when it is not;
* `Mempool.lockDiscipline_iff` — **the same for every operation**.
-/

import MedorCoin.Ledger.Table
import MedorCoin.Node.MempoolAccounting
import MedorCoin.Transition.LockTrace
import Mathlib.Data.Fintype.Card

set_option autoImplicit false

namespace Node

open Cpp Ledger LockTrace Transition

namespace Mempool

/-- The mutexes of a pool. -/
inductive Mutex
  | stripe (i : ℕ)
  | mu
  | persistQueueMu
  | evictMu
  | logMu
  deriving DecidableEq

/-- What a call does with the mutexes. -/
abbrev Locks := List (Event Mutex)

/-! ### The operations, as they stand in the program -/

def slogLocks : Locks := locked .logMu []

def enqueuePersistLocks : Locks := locked .persistQueueMu []

def enqueueUnpersistLocks : Locks := locked .persistQueueMu []

/-- The mutex of the maps is given back before the others are taken. -/
def removeTransactionLocks (s : Mempool) (txHash : Str) : Locks :=
  locked .mu [] ++
    match s.entries.lookup txHash with
    | none => []
    | some _ => enqueueUnpersistLocks ++ locked .evictMu []

def removeAllLocks : List Str → Mempool → Locks
  | [], _ => []
  | hash :: hashes, s =>
      removeTransactionLocks s hash ++ removeAllLocks hashes (removeTransaction s hash)

def trimLoopLocks (cfg : Config) : List Str → Mempool → Locks
  | [], _ => []
  | hash :: hashes, s =>
      locked .mu [] ++
        if fits cfg s then []
        else removeTransactionLocks s hash ++ trimLoopLocks cfg hashes (removeTransaction s hash)

def trimToCapacityLocks (P : Platform) (s : Mempool) (baseFee : UInt64) : Locks :=
  locked .mu [] ++
    if fits P.cfg s then [] else trimLoopLocks P.cfg (ranked P s baseFee) s

def evictStaleOrphansLocks : Locks := locked .mu []

def evictStaleLocks (P : Platform) (s : Mempool) : Locks :=
  let (now, s) := nowSecs P s
  let cutoff := now - P.cfg.maxTxAgeSeconds
  let toRemove := (P.order s.entries.entries).filter fun entry => entry.2.addedAt < cutoff
  locked .mu [] ++ removeAllLocks (toRemove.map Sigma.fst) s ++ evictStaleOrphansLocks

def evictLowFeeLocks (P : Platform) (s : Mempool) (newBaseFee : UInt64) : Locks :=
  let toRemove := (P.order s.entries.entries).filter fun entry =>
    effectiveFee entry.2.tx newBaseFee < P.cfg.minFeePerGas
  locked .mu [] ++ removeAllLocks (toRemove.map Sigma.fst) s

/-- The part of `addTransaction` under the mutex of the maps, which is given up for
`trimToCapacity`. -/
def addLockedLocks (P : Platform) (s : Mempool) (tx : Transaction) (baseFee txBytes : UInt64) :
    Locks :=
  if tx.txHash ∈ s.entries then locked .mu []
  else if isDoubleSpend s tx then locked .mu slogLocks
  else if !checkNonceOrdering P s tx then locked .mu []
  else if isFull P.cfg s txBytes then
    let trimmed := trimToCapacity P s baseFee
    locked .mu [] ++ trimToCapacityLocks P s baseFee ++
      if tx.txHash ∈ trimmed.entries then locked .mu []
      else if isDoubleSpend trimmed tx then locked .mu []
      else if isFull P.cfg trimmed txBytes then locked .mu slogLocks
      else locked .mu []
  else locked .mu []

/-- A call for each transaction, one after the other. -/
def addEachLocks (add : Mempool → Transaction → Option (Locks × Mempool)) :
    List Transaction → Mempool → Option (Locks × Mempool)
  | [], s => some ([], s)
  | tx :: txs, s => do
      let (first, s) ← add s tx
      let (rest, s) ← addEachLocks add txs s
      some (first ++ rest, s)

/-- The events of `addTransaction(tx, baseFee)`, and the pool after the call. -/
def addLocks (P : Platform) (getUTXO : Str → Int32 → Option Utxo) (baseFee : UInt64) :
    ℕ → Mempool → Transaction → Option (Locks × Mempool)
  | 0, _, _ => none
  | fuel + 1, s, tx =>
      let txBytes := estimateTxBytes tx
      let stripe := Mutex.stripe (stripeFor P tx.txHash)
      if !validateTx P.cfg getUTXO tx baseFee then some (slogLocks, s)
      else if txBytes > uint64Max - s.totalBytes then some (slogLocks, s)
      else
        let body := addLockedLocks P s tx baseFee txBytes
        match addLocked P s tx baseFee txBytes with
        | (false, s) => some (locked stripe body, s)
        | (true, s) => do
            let (toPromote, s) := takeDependents P s tx.txHash
            let (promoted, s) ← addEachLocks (addLocks P getUTXO baseFee fuel) toPromote s
            -- `promoteOrphans` looks for the dependents under the mutex of the maps
            let promoteOrphans := locked .mu [] ++ promoted
            some (locked stripe (body ++ (enqueuePersistLocks ++ (promoteOrphans ++ slogLocks))), s)

def addTransactionLocks (P : Platform) (getUTXO : Str → Int32 → Option Utxo) (baseFee : UInt64)
    (s : Mempool) (tx : Transaction) : Option (Locks × Mempool) :=
  addLocks P getUTXO baseFee (s.orphans.keys.length + 1) s tx

/-- A transaction that is restored. -/
def restoreLocks (P : Platform) (getUTXO : Str → Int32 → Option Utxo) (s : Mempool)
    (tx : Transaction) : Option (Locks × Mempool) :=
  if tx.txHash ∈ s.entries then some (locked .mu [], s)
  else do
    let (added, s) ← addTransactionLocks P getUTXO P.cfg.minFeePerGas s tx
    some (locked .mu [] ++ added, s)

def reorgRestoreLocks (P : Platform) (getUTXO : Str → Int32 → Option Utxo)
    (reorgedOut : List Transaction) (s : Mempool) : Option (Locks × Mempool) :=
  addEachLocks (restoreLocks P getUTXO) reorgedOut s

/-- The public operations of a pool. -/
inductive Operation
  | call (call : Call)
  | setLogger
  | onEviction
  | hasTransaction (txHash : Str)
  | getTransaction (txHash : Str)
  | getTransactions
  | getPendingTxs
  | getSortedByFee (maxCount : ℕ) (baseFee : UInt64)
  | txCount
  | totalBytes
  | minFee
  | getMetrics
  | estimateTxBytes (tx : Transaction)
  | effectiveFee (tx : Transaction) (baseFee : UInt64)

/-- What an operation does with the mutexes. -/
def locks (P : Platform) (s : Mempool) : Operation → Option Locks
  | .call (.addTransaction getUTXO tx baseFee) =>
      (addTransactionLocks P getUTXO baseFee s tx).map Prod.fst
  | .call (.removeTransaction txHash) => some (removeTransactionLocks s txHash)
  | .call (.removeConfirmed block) => some (removeAllLocks (block.map Transaction.txHash) s)
  | .call (.reorgRestore getUTXO reorgedOut) =>
      (reorgRestoreLocks P getUTXO reorgedOut s).map Prod.fst
  | .call (.evictStale _) => some (evictStaleLocks P s)
  | .call (.evictLowFee newBaseFee) => some (evictLowFeeLocks P s newBaseFee)
  | .call (.trimToCapacity baseFee) => some (trimToCapacityLocks P s baseFee)
  | .setLogger => some (locked .logMu [])
  | .onEviction => some (locked .evictMu [])
  | .hasTransaction _ => some (locked .mu [])
  | .getTransaction _ => some (locked .mu [])
  | .getTransactions => some (locked .mu [])
  | .getPendingTxs => some (locked .mu [])
  | .getSortedByFee _ _ => some (locked .mu [])
  | .txCount => some (locked .mu [])
  | .totalBytes => some []
  | .minFee => some []
  | .getMetrics => some []
  | .estimateTxBytes _ => some []
  | .effectiveFee _ _ => some []

/-! ### Events that take no stripe -/

variable {P : Platform} {cfg : Config} {s : Mempool} {tx : Transaction}

/-- Whatever is taken is given back, and none of it can be held by a thread that holds stripes. -/
structure Quiet (es : Locks) : Prop where
  balanced : Balanced es
  disciplined (held : List ℕ) : Disciplined (held.map Mutex.stripe) es

theorem Quiet.append {es es' : Locks} (h : Quiet es) (h' : Quiet es') : Quiet (es ++ es') where
  balanced := h.balanced.append h'.balanced
  disciplined held := h.balanced.disciplined_append.2 ⟨h.disciplined held, h'.disciplined held⟩

@[simp] theorem quiet_nil : Quiet [] := ⟨balanced_nil, fun _ => disciplined_nil⟩

theorem not_mem_stripes {m : Mutex} (hm : ∀ i, m ≠ .stripe i) (held : List ℕ) :
    m ∉ held.map Mutex.stripe := by
  intro hmem
  obtain ⟨i, -, hi⟩ := List.mem_map.1 hmem
  exact hm i hi.symm

theorem quiet_locked {m : Mutex} (hm : ∀ i, m ≠ .stripe i) : Quiet (locked m []) where
  balanced := balanced_nil.locked
  disciplined held := (disciplined_locked balanced_nil).2
    ⟨not_mem_stripes hm held, disciplined_nil⟩

theorem quiet_mu : Quiet (locked .mu []) := quiet_locked (by simp)

theorem quiet_slogLocks : Quiet slogLocks := quiet_locked (by simp)

theorem quiet_persist : Quiet enqueuePersistLocks := quiet_locked (by simp)

theorem quiet_evict : Quiet (locked .evictMu []) := quiet_locked (by simp)

theorem quiet_logged : Quiet (locked .mu slogLocks) where
  balanced := quiet_slogLocks.balanced.locked
  disciplined held := by
    refine (disciplined_locked quiet_slogLocks.balanced).2
      ⟨not_mem_stripes (by simp) held, ?_⟩
    refine (disciplined_locked balanced_nil).2 ⟨?_, disciplined_nil⟩
    exact List.not_mem_cons_of_ne_of_not_mem (by simp)
      (not_mem_stripes (by simp) held)

theorem quiet_removeTransactionLocks (s : Mempool) (txHash : Str) :
    Quiet (removeTransactionLocks s txHash) := by
  refine quiet_mu.append ?_
  split
  · exact quiet_nil
  · exact quiet_persist.append quiet_evict

theorem quiet_removeAllLocks (hashes : List Str) (s : Mempool) :
    Quiet (removeAllLocks hashes s) := by
  induction hashes generalizing s with
  | nil => exact quiet_nil
  | cons hash hashes ih => exact (quiet_removeTransactionLocks s hash).append (ih _)

theorem quiet_trimLoopLocks (hashes : List Str) (s : Mempool) :
    Quiet (trimLoopLocks cfg hashes s) := by
  induction hashes generalizing s with
  | nil => exact quiet_nil
  | cons hash hashes ih =>
      refine quiet_mu.append ?_
      split
      · exact quiet_nil
      · exact (quiet_removeTransactionLocks s hash).append (ih _)

theorem quiet_trimToCapacityLocks (s : Mempool) (baseFee : UInt64) :
    Quiet (trimToCapacityLocks P s baseFee) := by
  refine quiet_mu.append ?_
  split
  · exact quiet_nil
  · exact quiet_trimLoopLocks _ s

theorem quiet_evictStaleLocks (s : Mempool) : Quiet (evictStaleLocks P s) :=
  (quiet_mu.append (quiet_removeAllLocks _ _)).append quiet_mu

theorem quiet_evictLowFeeLocks (s : Mempool) (newBaseFee : UInt64) :
    Quiet (evictLowFeeLocks P s newBaseFee) :=
  quiet_mu.append (quiet_removeAllLocks _ _)

theorem quiet_addLockedLocks (s : Mempool) (tx : Transaction) (baseFee txBytes : UInt64) :
    Quiet (addLockedLocks P s tx baseFee txBytes) := by
  unfold addLockedLocks
  split
  · exact quiet_mu
  split
  · exact quiet_logged
  split
  · exact quiet_mu
  split
  · -- the maps are given up for trimming, and locked again
    refine (quiet_mu.append (quiet_trimToCapacityLocks s baseFee)).append ?_
    split
    · exact quiet_mu
    split
    · exact quiet_mu
    split
    · exact quiet_logged
    · exact quiet_mu
  · exact quiet_mu

/-! ### The number of orphans -/

theorem length_orphansWithRoom_le (s : Mempool) :
    (orphansWithRoom P s).keys.length ≤ s.orphans.keys.length := by
  unfold orphansWithRoom
  split
  · split
    · exact length_keys_erase_le _ _
    · exact le_rfl
  · exact le_rfl

theorem length_addOrphanLocked_le (s : Mempool) (tx : Transaction) :
    (addOrphanLocked P s tx).orphans.keys.length ≤ s.orphans.keys.length + 1 := by
  have hroom := length_orphansWithRoom_le (P := P) s
  unfold addOrphanLocked nowSecs
  simp only
  split
  · exact hroom.trans (Nat.le_succ _)
  · rename_i hnew
    rw [AList.insert_of_notMem hnew]
    exact Nat.succ_le_succ hroom

@[simp] theorem removeTransaction_orphans (s : Mempool) (hash : Str) :
    (removeTransaction s hash).orphans = s.orphans := by
  unfold removeTransaction
  split <;> rfl

@[simp] theorem trimToCapacity_orphans (s : Mempool) (baseFee : UInt64) :
    (trimToCapacity P s baseFee).orphans = s.orphans := by
  have hloop (hashes : List Str) (s : Mempool) :
      (trimLoop P.cfg hashes s).orphans = s.orphans := by
    induction hashes generalizing s with
    | nil => rfl
    | cons hash hashes ih =>
        unfold trimLoop
        split
        · rfl
        · rw [ih, removeTransaction_orphans]
  unfold trimToCapacity
  split
  · rfl
  · exact hloop _ s

/-- A transaction that gets in leaves the orphans as they are, and no other one adds more than one
to them. -/
theorem orphans_addLocked (s : Mempool) (tx : Transaction) (baseFee txBytes : UInt64) :
    (addLocked P s tx baseFee txBytes).2.orphans.keys.length ≤ s.orphans.keys.length + 1 ∧
      ((addLocked P s tx baseFee txBytes).1 = true →
        (addLocked P s tx baseFee txBytes).2.orphans = s.orphans) := by
  unfold addLocked
  split
  · exact ⟨Nat.le_succ _, fun _ => rfl⟩
  split
  · exact ⟨Nat.le_succ _, fun _ => rfl⟩
  split
  · exact ⟨length_addOrphanLocked_le s tx, fun h => nomatch h⟩
  split
  · have htrim : (trimToCapacity P s baseFee).orphans = s.orphans := trimToCapacity_orphans s _
    simp only
    split
    · exact ⟨by rw [htrim]; exact Nat.le_succ _, fun _ => htrim⟩
    split
    · exact ⟨by rw [htrim]; exact Nat.le_succ _, fun _ => htrim⟩
    split
    · exact ⟨by rw [htrim]; exact Nat.le_succ _, fun _ => htrim⟩
    · exact ⟨by rw [insertEntry_orphans, htrim]; exact Nat.le_succ _,
        fun _ => by rw [insertEntry_orphans, htrim]⟩
  · exact ⟨Nat.le_succ _, fun _ => rfl⟩

theorem length_eraseAll (keys : List Str) (m : EntryMap) (hnodup : keys.Nodup)
    (hmem : ∀ key ∈ keys, key ∈ m) :
    (eraseAll m keys).keys.length + keys.length = m.keys.length := by
  induction keys generalizing m with
  | nil => rfl
  | cons key keys ih =>
      obtain ⟨hnot, hnodup⟩ := List.nodup_cons.1 hnodup
      have hrest : ∀ k ∈ keys, k ∈ m.erase key := by
        intro k hk
        refine AList.mem_erase.2 ⟨?_, hmem k (List.mem_cons_of_mem _ hk)⟩
        rintro rfl
        exact hnot hk
      have hlen := length_keys_erase (hmem key List.mem_cons_self)
      have hih := ih _ hnodup hrest
      change (eraseAll (m.erase key) keys).keys.length + (keys.length + 1) = _
      omega

theorem length_takeDependents (s : Mempool) (hash : Str) :
    (takeDependents P s hash).2.orphans.keys.length + (takeDependents P s hash).1.length =
      s.orphans.keys.length := by
  have hperm := P.order_perm s.orphans.entries
  have hlen := length_eraseAll (((P.order s.orphans.entries).filter fun entry =>
    dependsOn entry.2.tx hash).map Sigma.fst) s.orphans ?_ ?_
  · rw [List.length_map] at hlen
    simpa [takeDependents] using hlen
  · exact ((hperm.map Sigma.fst).nodup_iff.2 s.orphans.nodupKeys).sublist
      (List.filter_sublist.map _)
  · intro key hkey
    obtain ⟨entry, hentry, rfl⟩ := List.mem_map.1 hkey
    exact AList.mem_keys.2 (List.mem_map_of_mem (hperm.mem_iff.1 (List.mem_filter.1 hentry).1))

/-! ### One call -/

variable {getUTXO : Str → Int32 → Option Utxo} {baseFee : UInt64} {fuel : ℕ}

/-- A call gets to its stripe. -/
def ReachesStripe (P : Platform) (getUTXO : Str → Int32 → Option Utxo) (baseFee : UInt64)
    (s : Mempool) (tx : Transaction) : Prop :=
  validateTx P.cfg getUTXO tx baseFee = true ∧ estimateTxBytes tx ≤ uint64Max - s.totalBytes

theorem addLocks_of_not_reaches (h : ¬ ReachesStripe P getUTXO baseFee s tx) :
    addLocks P getUTXO baseFee (fuel + 1) s tx = some (slogLocks, s) := by
  rw [addLocks]
  cases hvalid : validateTx P.cfg getUTXO tx baseFee with
  | false => rfl
  | true =>
      have hover : estimateTxBytes tx > uint64Max - s.totalBytes :=
        UInt64.not_le.1 fun hle => h ⟨hvalid, hle⟩
      simp [hover]

theorem addLocks_of_refused {s₁ : Mempool} (h : ReachesStripe P getUTXO baseFee s tx)
    (hlocked : addLocked P s tx baseFee (estimateTxBytes tx) = (false, s₁)) :
    addLocks P getUTXO baseFee (fuel + 1) s tx =
      some (locked (.stripe (stripeFor P tx.txHash))
        (addLockedLocks P s tx baseFee (estimateTxBytes tx)), s₁) := by
  rw [addLocks]
  simp [h.1, UInt64.not_lt.2 h.2, hlocked]

/-- The events of a call whose transaction gets in, around those of its dependents. -/
def admittedLocks (P : Platform) (s : Mempool) (tx : Transaction) (baseFee : UInt64)
    (promoted : Locks) : Locks :=
  locked (.stripe (stripeFor P tx.txHash))
    (addLockedLocks P s tx baseFee (estimateTxBytes tx) ++
      (enqueuePersistLocks ++ ((locked .mu [] ++ promoted) ++ slogLocks)))

theorem addLocks_of_admitted {s₁ : Mempool} (h : ReachesStripe P getUTXO baseFee s tx)
    (hlocked : addLocked P s tx baseFee (estimateTxBytes tx) = (true, s₁)) :
    addLocks P getUTXO baseFee (fuel + 1) s tx =
      (addEachLocks (addLocks P getUTXO baseFee fuel) (takeDependents P s₁ tx.txHash).1
        (takeDependents P s₁ tx.txHash).2).map
          fun r => (admittedLocks P s tx baseFee r.1, r.2) := by
  rw [addLocks]
  simp only [h.1, UInt64.not_lt.2 h.2, hlocked, Bool.not_true, Bool.false_eq_true,
    if_false]
  cases addEachLocks (addLocks P getUTXO baseFee fuel) (takeDependents P s₁ tx.txHash).1
    (takeDependents P s₁ tx.txHash).2 with
  | none => rfl
  | some r => rfl

theorem addEachLocks_cons {add : Mempool → Transaction → Option (Locks × Mempool)}
    {txs : List Transaction} {trace : Locks} {s' : Mempool} :
    addEachLocks add (tx :: txs) s = some (trace, s') ↔
      ∃ first rest s₁, add s tx = some (first, s₁) ∧
        addEachLocks add txs s₁ = some (rest, s') ∧ trace = first ++ rest := by
  have hcons : addEachLocks add (tx :: txs) s = (add s tx).bind fun r =>
      (addEachLocks add txs r.2).bind fun r' => some (r.1 ++ r'.1, r'.2) := rfl
  rw [hcons, Option.bind_eq_some_iff]
  constructor
  · rintro ⟨⟨first, s₁⟩, hfirst, h⟩
    obtain ⟨⟨rest, s₂⟩, hrest, h⟩ := Option.bind_eq_some_iff.1 h
    cases h
    exact ⟨first, rest, s₁, hfirst, hrest, rfl⟩
  · rintro ⟨first, rest, s₁, hfirst, hrest, rfl⟩
    exact ⟨(first, s₁), hfirst, Option.bind_eq_some_iff.2 ⟨(rest, s'), hrest, rfl⟩⟩

theorem exists_of_addEachLocks_append {add : Mempool → Transaction → Option (Locks × Mempool)}
    {txs txs' : List Transaction} {r : Locks × Mempool}
    (h : addEachLocks add (txs ++ txs') s = some r) :
    ∃ before s₁, addEachLocks add txs s = some (before, s₁) := by
  induction txs generalizing s r with
  | nil => exact ⟨[], s, rfl⟩
  | cons tx txs ih =>
      obtain ⟨first, rest, s₁, hfirst, hrest, -⟩ := addEachLocks_cons.1 h
      obtain ⟨before, s₂, hbefore⟩ := ih hrest
      exact ⟨first ++ before, s₂, addEachLocks_cons.2 ⟨_, _, _, hfirst, hbefore, rfl⟩⟩

/-! ### Every call comes to an end -/

theorem addEachLocks_returns (add : Mempool → Transaction → Option (Locks × Mempool)) {n : ℕ}
    (hadd : ∀ s tx, s.orphans.keys.length < n → ∃ trace s', add s tx = some (trace, s') ∧
      s'.orphans.keys.length ≤ s.orphans.keys.length + 1)
    (txs : List Transaction) (h : s.orphans.keys.length + txs.length ≤ n) :
    ∃ trace s', addEachLocks add txs s = some (trace, s') ∧
      s'.orphans.keys.length ≤ s.orphans.keys.length + txs.length := by
  induction txs generalizing s with
  | nil => exact ⟨[], s, rfl, le_rfl⟩
  | cons tx txs ih =>
      rw [List.length_cons] at h
      obtain ⟨first, s₁, hfirst, hle⟩ := hadd s tx (by omega)
      obtain ⟨rest, s', hrest, hle'⟩ := ih (s := s₁) (by omega)
      refine ⟨first ++ rest, s', addEachLocks_cons.2 ⟨_, _, _, hfirst, hrest, rfl⟩, ?_⟩
      rw [List.length_cons]
      omega

/-- **The orphans suffice as fuel**: a call takes its dependents out before it adds them. -/
theorem addLocks_returns (P : Platform) (getUTXO : Str → Int32 → Option Utxo) (baseFee : UInt64)
    (s : Mempool) (tx : Transaction) (hfuel : s.orphans.keys.length < fuel) :
    ∃ trace s', addLocks P getUTXO baseFee fuel s tx = some (trace, s') ∧
      s'.orphans.keys.length ≤ s.orphans.keys.length + 1 := by
  induction fuel generalizing s tx with
  | zero => omega
  | succ fuel ih =>
      by_cases hreach : ReachesStripe P getUTXO baseFee s tx
      swap
      · exact ⟨_, _, addLocks_of_not_reaches hreach, Nat.le_succ _⟩
      rcases hlocked : addLocked P s tx baseFee (estimateTxBytes tx) with ⟨b, s₁⟩
      obtain ⟨hle, hsame⟩ := orphans_addLocked (P := P) s tx baseFee (estimateTxBytes tx)
      rw [hlocked] at hle hsame
      cases b with
      | false => exact ⟨_, _, addLocks_of_refused hreach hlocked, hle⟩
      | true =>
          have hlen := length_takeDependents (P := P) s₁ tx.txHash
          rw [show s₁.orphans = s.orphans from hsame rfl] at hlen
          obtain ⟨promoted, s', hpromoted, hle'⟩ :=
            addEachLocks_returns (addLocks P getUTXO baseFee fuel) (fun s tx h => ih s tx h)
              (takeDependents P s₁ tx.txHash).1 (s := (takeDependents P s₁ tx.txHash).2) (by omega)
          refine ⟨admittedLocks P s tx baseFee promoted, s', ?_, by omega⟩
          rw [addLocks_of_admitted hreach hlocked, hpromoted]
          rfl

theorem addEachLocks_mono {add add' : Mempool → Transaction → Option (Locks × Mempool)}
    (hadd : ∀ s tx r, add s tx = some r → add' s tx = some r) {txs : List Transaction}
    {r : Locks × Mempool} (h : addEachLocks add txs s = some r) :
    addEachLocks add' txs s = some r := by
  induction txs generalizing s r with
  | nil => exact h
  | cons tx txs ih =>
      obtain ⟨first, rest, s₁, hfirst, hrest, hr⟩ := addEachLocks_cons.1 h
      exact addEachLocks_cons.2 ⟨first, rest, s₁, hadd _ _ _ hfirst, ih hrest, hr⟩

theorem addLocks_succ {r : Locks × Mempool}
    (h : addLocks P getUTXO baseFee fuel s tx = some r) :
    addLocks P getUTXO baseFee (fuel + 1) s tx = some r := by
  induction fuel generalizing s tx r with
  | zero => cases h
  | succ fuel ih =>
      by_cases hreach : ReachesStripe P getUTXO baseFee s tx
      swap
      · rw [addLocks_of_not_reaches hreach] at h ⊢
        exact h
      rcases hlocked : addLocked P s tx baseFee (estimateTxBytes tx) with ⟨b, s₁⟩
      cases b with
      | false =>
          rw [addLocks_of_refused hreach hlocked] at h ⊢
          exact h
      | true =>
          rw [addLocks_of_admitted hreach hlocked, Option.map_eq_some_iff] at h ⊢
          obtain ⟨r', hr', rfl⟩ := h
          exact ⟨r', addEachLocks_mono (fun s tx r h => ih h) hr', rfl⟩

theorem addEachLocks_le {txs : List Transaction} {r : Locks × Mempool} {fuel' : ℕ}
    (hle : fuel ≤ fuel') (h : addEachLocks (addLocks P getUTXO baseFee fuel) txs s = some r) :
    addEachLocks (addLocks P getUTXO baseFee fuel') txs s = some r := by
  induction hle with
  | refl => exact h
  | step _ ih => exact addEachLocks_mono (fun _ _ _ h => addLocks_succ h) ih

/-! ### Chains of calls -/

/-- Several transactions are added in turn, and the pool becomes `s'`. -/
def Leads (P : Platform) (getUTXO : Str → Int32 → Option Utxo) (baseFee : UInt64)
    (txs : List Transaction) (s s' : Mempool) : Prop :=
  ∃ fuel trace, addEachLocks (addLocks P getUTXO baseFee fuel) txs s = some (trace, s')

theorem Leads.eq {txs : List Transaction} {s' s'' : Mempool} {trace : Locks}
    (h : Leads P getUTXO baseFee txs s s')
    (h' : addEachLocks (addLocks P getUTXO baseFee fuel) txs s = some (trace, s'')) :
    s'' = s' := by
  obtain ⟨fuel', trace', h⟩ := h
  have hsame := (addEachLocks_le (le_max_right fuel fuel') h).symm.trans
    (addEachLocks_le (le_max_left fuel fuel') h')
  rw [Option.some.injEq, Prod.mk.injEq] at hsame
  exact hsame.2.symm

/-- **A chain of calls of `addTransaction`**, each made within the one before, that all get to
their stripe. -/
inductive Chain (P : Platform) (getUTXO : Str → Int32 → Option Utxo) (baseFee : UInt64) :
    Mempool → List Transaction → Prop
  | one {s : Mempool} {tx : Transaction} (hreach : ReachesStripe P getUTXO baseFee s tx) :
      Chain P getUTXO baseFee s [tx]
  | within {s s₁ s' : Mempool} {tx t : Transaction} {pre post chain : List Transaction}
      (hreach : ReachesStripe P getUTXO baseFee s tx)
      (hlocked : addLocked P s tx baseFee (estimateTxBytes tx) = (true, s₁))
      (hsplit : (takeDependents P s₁ tx.txHash).1 = pre ++ t :: post)
      (hpre : Leads P getUTXO baseFee pre (takeDependents P s₁ tx.txHash).2 s')
      (hchain : Chain P getUTXO baseFee s' (t :: chain)) :
      Chain P getUTXO baseFee s (tx :: t :: chain)

/-- The stripes of a chain. -/
def stripes (P : Platform) (chain : List Transaction) : List ℕ :=
  chain.map fun tx => stripeFor P tx.txHash

/-- Stripes that differ from each other and from those that are held. -/
def Fresh (held l : List ℕ) : Prop := l.Nodup ∧ ∀ i ∈ l, i ∉ held

theorem fresh_cons {held l : List ℕ} {i : ℕ} :
    Fresh held (i :: l) ↔ i ∉ held ∧ Fresh (i :: held) l := by
  simp only [Fresh, List.nodup_cons, List.mem_cons, forall_eq_or_imp, not_or]
  constructor
  · rintro ⟨⟨hi, hl⟩, hheld, hrest⟩
    exact ⟨hheld, hl, fun j hj => ⟨fun h => hi (h ▸ hj), hrest j hj⟩⟩
  · rintro ⟨hheld, hl, hrest⟩
    exact ⟨⟨fun hi => (hrest i hi).1 rfl, hl⟩, hheld, fun j hj => (hrest j hj).2⟩

/-- **Every chain of calls that starts with a call of `tx` has distinct stripes**, which are not
held. -/
def Clear (P : Platform) (getUTXO : Str → Int32 → Option Utxo) (baseFee : UInt64)
    (held : List ℕ) (s : Mempool) (tx : Transaction) : Prop :=
  ∀ chain, Chain P getUTXO baseFee s (tx :: chain) → Fresh held (stripes P (tx :: chain))

theorem clear_of_not_reaches {held : List ℕ} (h : ¬ ReachesStripe P getUTXO baseFee s tx) :
    Clear P getUTXO baseFee held s tx := by
  intro chain hchain
  cases hchain with
  | one hreach => exact absurd hreach h
  | within hreach => exact absurd hreach h

theorem clear_of_refused {held : List ℕ} {s₁ : Mempool}
    (h : ReachesStripe P getUTXO baseFee s tx)
    (hlocked : addLocked P s tx baseFee (estimateTxBytes tx) = (false, s₁)) :
    Clear P getUTXO baseFee held s tx ↔ stripeFor P tx.txHash ∉ held := by
  constructor
  · intro hclear
    exact (fresh_cons.1 (hclear [] (.one h))).1
  · intro hnot chain hchain
    cases hchain with
    | one => exact fresh_cons.2 ⟨hnot, List.nodup_nil, fun _ h => absurd h List.not_mem_nil⟩
    | within _ hlocked' =>
        rw [hlocked] at hlocked'
        cases hlocked'

theorem clear_of_admitted {held : List ℕ} {s₁ : Mempool}
    (h : ReachesStripe P getUTXO baseFee s tx)
    (hlocked : addLocked P s tx baseFee (estimateTxBytes tx) = (true, s₁)) :
    Clear P getUTXO baseFee held s tx ↔ stripeFor P tx.txHash ∉ held ∧
      ∀ pre t post s', (takeDependents P s₁ tx.txHash).1 = pre ++ t :: post →
        Leads P getUTXO baseFee pre (takeDependents P s₁ tx.txHash).2 s' →
        Clear P getUTXO baseFee (stripeFor P tx.txHash :: held) s' t := by
  constructor
  · intro hclear
    refine ⟨(fresh_cons.1 (hclear [] (.one h))).1, fun pre t post s' hsplit hpre chain hchain => ?_⟩
    exact (fresh_cons.1 (hclear (t :: chain) (.within h hlocked hsplit hpre hchain))).2
  · rintro ⟨hnot, hrest⟩ chain hchain
    cases hchain with
    | one => exact fresh_cons.2 ⟨hnot, List.nodup_nil, fun _ h => absurd h List.not_mem_nil⟩
    | within _ hlocked' hsplit hpre hchain =>
        rw [hlocked, Prod.mk.injEq] at hlocked'
        obtain ⟨-, rfl⟩ := hlocked'
        exact fresh_cons.2 ⟨hnot, hrest _ _ _ _ hsplit hpre _ hchain⟩

/-! ### The discipline of a call -/

theorem balanced_addEachLocks {add : Mempool → Transaction → Option (Locks × Mempool)}
    (hadd : ∀ {s tx trace s'}, add s tx = some (trace, s') → Balanced trace)
    {txs : List Transaction} {trace : Locks} {s' : Mempool}
    (h : addEachLocks add txs s = some (trace, s')) : Balanced trace := by
  induction txs generalizing s trace with
  | nil =>
      cases h
      exact balanced_nil
  | cons tx txs ih =>
      obtain ⟨first, rest, s₁, hfirst, hrest, rfl⟩ := addEachLocks_cons.1 h
      exact (hadd hfirst).append (ih hrest)

theorem disciplined_addEachLocks {add : Mempool → Transaction → Option (Locks × Mempool)}
    {R : List ℕ → Mempool → Transaction → Prop}
    (hadd : ∀ {s tx trace s'}, add s tx = some (trace, s') → Balanced trace ∧
      ∀ held, Disciplined (held.map Mutex.stripe) trace ↔ R held s tx)
    {txs : List Transaction} {trace : Locks} {s' : Mempool}
    (h : addEachLocks add txs s = some (trace, s')) :
    Balanced trace ∧ ∀ held, Disciplined (held.map Mutex.stripe) trace ↔
      ∀ pre t post before s₁, txs = pre ++ t :: post →
        addEachLocks add pre s = some (before, s₁) → R held s₁ t := by
  induction txs generalizing s trace with
  | nil =>
      cases h
      refine ⟨balanced_nil, fun held => iff_of_true disciplined_nil ?_⟩
      intro pre t post before s₁ hsplit
      cases pre <;> cases hsplit
  | cons tx txs ih =>
      obtain ⟨first, rest, s₁, hfirst, hrest, rfl⟩ := addEachLocks_cons.1 h
      obtain ⟨hbalanced, hdisc⟩ := hadd hfirst
      obtain ⟨hbalanced', hdisc'⟩ := ih hrest
      refine ⟨hbalanced.append hbalanced', fun held => ?_⟩
      rw [hbalanced.disciplined_append, hdisc, hdisc']
      constructor
      · rintro ⟨hhead, htail⟩ pre t post before s₂ hsplit hpre
        cases pre with
        | nil =>
            cases hsplit
            cases hpre
            exact hhead
        | cons t' pre =>
            rw [List.cons_append, List.cons.injEq] at hsplit
            obtain ⟨rfl, hsplit⟩ := hsplit
            obtain ⟨first', rest', s₁', hfirst', hrest', -⟩ := addEachLocks_cons.1 hpre
            rw [hfirst, Option.some.injEq, Prod.mk.injEq] at hfirst'
            obtain ⟨-, rfl⟩ := hfirst'
            exact htail pre t post rest' s₂ hsplit hrest'
      · intro hall
        refine ⟨hall [] tx txs [] s rfl rfl, fun pre t post before s₂ hsplit hpre => ?_⟩
        exact hall (tx :: pre) t post (first ++ before) s₂ (by rw [hsplit, List.cons_append])
          (addEachLocks_cons.2 ⟨_, _, _, hfirst, hpre, rfl⟩)

theorem balanced_underStripe {promoted : Locks} (h : Balanced promoted) :
    Balanced (addLockedLocks P s tx baseFee (estimateTxBytes tx) ++
      (enqueuePersistLocks ++ ((locked .mu [] ++ promoted) ++ slogLocks))) :=
  (quiet_addLockedLocks s tx baseFee _).balanced.append
    (quiet_persist.balanced.append
      ((quiet_mu.balanced.append h).append quiet_slogLocks.balanced))

theorem disciplined_refusedLocks (held : List ℕ) :
    Disciplined (held.map Mutex.stripe) (locked (.stripe (stripeFor P tx.txHash))
      (addLockedLocks P s tx baseFee (estimateTxBytes tx))) ↔ stripeFor P tx.txHash ∉ held := by
  have hbody := quiet_addLockedLocks (P := P) s tx baseFee (estimateTxBytes tx)
  rw [disciplined_locked hbody.balanced, ← List.map_cons, and_iff_left (hbody.disciplined _)]
  simp

theorem disciplined_admittedLocks {promoted : Locks} (h : Balanced promoted) (held : List ℕ) :
    Disciplined (held.map Mutex.stripe) (admittedLocks P s tx baseFee promoted) ↔
      stripeFor P tx.txHash ∉ held ∧
        Disciplined ((stripeFor P tx.txHash :: held).map Mutex.stripe) promoted := by
  have hbody := quiet_addLockedLocks (P := P) s tx baseFee (estimateTxBytes tx)
  have hpromote := quiet_mu.balanced.append h
  have hmem : Mutex.stripe (stripeFor P tx.txHash) ∉ held.map Mutex.stripe ↔
      stripeFor P tx.txHash ∉ held := by simp
  rw [admittedLocks, disciplined_locked (balanced_underStripe h), hmem, ← List.map_cons,
    hbody.balanced.disciplined_append,
    quiet_persist.balanced.disciplined_append, hpromote.disciplined_append,
    quiet_mu.balanced.disciplined_append]
  simp only [hbody.disciplined, quiet_persist.disciplined, quiet_mu.disciplined,
    quiet_slogLocks.disciplined, true_and, and_true]

/-- **A call is disciplined just when each of its chains has distinct stripes**, by induction on the
depth of the calls. -/
theorem disciplined_addLocks {trace : Locks} {s' : Mempool}
    (h : addLocks P getUTXO baseFee fuel s tx = some (trace, s')) :
    Balanced trace ∧ ∀ held, Disciplined (held.map Mutex.stripe) trace ↔
      Clear P getUTXO baseFee held s tx := by
  induction fuel generalizing s tx trace s' with
  | zero => cases h
  | succ fuel ih =>
      by_cases hreach : ReachesStripe P getUTXO baseFee s tx
      swap
      · rw [addLocks_of_not_reaches hreach] at h
        cases h
        exact ⟨quiet_slogLocks.balanced, fun held =>
          iff_of_true (quiet_slogLocks.disciplined held) (clear_of_not_reaches hreach)⟩
      rcases hlocked : addLocked P s tx baseFee (estimateTxBytes tx) with ⟨b, s₁⟩
      cases b with
      | false =>
          rw [addLocks_of_refused hreach hlocked] at h
          cases h
          refine ⟨(quiet_addLockedLocks s tx baseFee _).balanced.locked, fun held => ?_⟩
          rw [disciplined_refusedLocks, clear_of_refused hreach hlocked]
      | true =>
          rw [addLocks_of_admitted hreach hlocked, Option.map_eq_some_iff] at h
          obtain ⟨⟨promoted, s₂⟩, hpromoted, h⟩ := h
          cases h
          obtain ⟨hbalanced, hdisc⟩ := disciplined_addEachLocks
            (R := fun held s t => Clear P getUTXO baseFee held s t) (fun h => ih h) hpromoted
          refine ⟨(balanced_underStripe hbalanced).locked, fun held => ?_⟩
          rw [disciplined_admittedLocks hbalanced, hdisc, clear_of_admitted hreach hlocked]
          refine and_congr_right fun _ => ⟨fun hall pre t post s₃ hsplit hpre => ?_, ?_⟩
          · -- the calls before this one come to an end with the fuel that there is
            rw [hsplit] at hpromoted
            obtain ⟨before, s₄, hbefore⟩ := exists_of_addEachLocks_append hpromoted
            rw [← hpre.eq hbefore]
            exact hall pre t post before s₄ hsplit hbefore
          · intro hall pre t post before s₃ hsplit hbefore
            exact hall pre t post s₃ hsplit ⟨fuel, before, hbefore⟩

/-! ### Calls that come to a stop -/

/-- What comes of a call within the calls that hold the stripes `held`, by its trace. -/
def outcome (held : List ℕ) (trace : Locks) (s' : Mempool) : Except Stuck Mempool :=
  if Disciplined (held.map Mutex.stripe) trace then .ok s' else .error .deadlock

theorem outcome_pos {held : List ℕ} {trace : Locks} {s' : Mempool}
    (h : Disciplined (held.map Mutex.stripe) trace) : outcome held trace s' = .ok s' := if_pos h

theorem outcome_neg {held : List ℕ} {trace : Locks} {s' : Mempool}
    (h : ¬ Disciplined (held.map Mutex.stripe) trace) :
    outcome held trace s' = .error .deadlock := if_neg h

theorem addEach_cons (add : Mempool → Transaction → Except Stuck (Bool × Mempool))
    (tx : Transaction) (txs : List Transaction) (s : Mempool) :
    addEach add (tx :: txs) s = ((add s tx).map Prod.snd).bind (addEach add txs) := by
  rw [addEach]
  cases add s tx with
  | error e => rfl
  | ok r => rfl

theorem addEach_eq_outcome {held : List ℕ}
    {add : Mempool → Transaction → Except Stuck (Bool × Mempool)}
    {addL : Mempool → Transaction → Option (Locks × Mempool)}
    (hadd : ∀ {s tx trace s'}, addL s tx = some (trace, s') →
      (add s tx).map Prod.snd = outcome held trace s')
    (hbalanced : ∀ {s tx trace s'}, addL s tx = some (trace, s') → Balanced trace)
    {txs : List Transaction} {trace : Locks} {s' : Mempool}
    (h : addEachLocks addL txs s = some (trace, s')) :
    addEach add txs s = outcome held trace s' := by
  induction txs generalizing s trace with
  | nil =>
      cases h
      exact (outcome_pos disciplined_nil).symm
  | cons tx txs ih =>
      obtain ⟨first, rest, s₁, hfirst, hrest, rfl⟩ := addEachLocks_cons.1 h
      have happend : Disciplined (held.map Mutex.stripe) (first ++ rest) ↔ _ :=
        (hbalanced hfirst).disciplined_append
      rw [addEach_cons, hadd hfirst]
      by_cases hdisc : Disciplined (held.map Mutex.stripe) first
      · rw [outcome_pos hdisc]
        change addEach add txs s₁ = _
        rw [ih hrest]
        by_cases hdisc' : Disciplined (held.map Mutex.stripe) rest
        · rw [outcome_pos hdisc', outcome_pos (happend.2 ⟨hdisc, hdisc'⟩)]
        · rw [outcome_neg hdisc', outcome_neg fun h => hdisc' (happend.1 h).2]
      · rw [outcome_neg hdisc, outcome_neg fun h => hdisc (happend.1 h).1]
        rfl

theorem addWithin_of_not_reaches {held : List ℕ} (h : ¬ ReachesStripe P getUTXO baseFee s tx) :
    addWithin P getUTXO baseFee (fuel + 1) held s tx = .ok (false, s) := by
  rw [addWithin]
  cases hvalid : validateTx P.cfg getUTXO tx baseFee with
  | false => rfl
  | true =>
      have hover : estimateTxBytes tx > uint64Max - s.totalBytes :=
        UInt64.not_le.1 fun hle => h ⟨hvalid, hle⟩
      simp [hover]

theorem addWithin_of_refused {held : List ℕ} {s₁ : Mempool}
    (h : ReachesStripe P getUTXO baseFee s tx)
    (hlocked : addLocked P s tx baseFee (estimateTxBytes tx) = (false, s₁)) :
    addWithin P getUTXO baseFee (fuel + 1) held s tx =
      if stripeFor P tx.txHash ∈ held then .error .deadlock else .ok (false, s₁) := by
  rw [addWithin]
  simp [h.1, UInt64.not_lt.2 h.2, hlocked]

theorem addWithin_of_admitted {held : List ℕ} {s₁ : Mempool}
    (h : ReachesStripe P getUTXO baseFee s tx)
    (hlocked : addLocked P s tx baseFee (estimateTxBytes tx) = (true, s₁)) :
    (addWithin P getUTXO baseFee (fuel + 1) held s tx).map Prod.snd =
      if stripeFor P tx.txHash ∈ held then .error .deadlock
      else addEach (addWithin P getUTXO baseFee fuel (stripeFor P tx.txHash :: held))
        (takeDependents P s₁ tx.txHash).1 (takeDependents P s₁ tx.txHash).2 := by
  rw [addWithin]
  simp only [h.1, UInt64.not_lt.2 h.2, hlocked, Bool.not_true, Bool.false_eq_true, if_false]
  split
  · rfl
  · cases addEach (addWithin P getUTXO baseFee fuel (stripeFor P tx.txHash :: held))
      (takeDependents P s₁ tx.txHash).1 (takeDependents P s₁ tx.txHash).2 with
    | error e => rfl
    | ok s' => rfl

/-- **The trace of a call tells what comes of it**: it comes to a stop if the trace is not
disciplined, and leaves the pool as the trace says if it is. -/
theorem addWithin_eq_outcome (held : List ℕ) {trace : Locks} {s' : Mempool}
    (h : addLocks P getUTXO baseFee fuel s tx = some (trace, s')) :
    (addWithin P getUTXO baseFee fuel held s tx).map Prod.snd = outcome held trace s' := by
  induction fuel generalizing s tx held trace s' with
  | zero => cases h
  | succ fuel ih =>
      by_cases hreach : ReachesStripe P getUTXO baseFee s tx
      swap
      · rw [addLocks_of_not_reaches hreach] at h
        cases h
        rw [addWithin_of_not_reaches hreach]
        exact (outcome_pos (quiet_slogLocks.disciplined held)).symm
      rcases hlocked : addLocked P s tx baseFee (estimateTxBytes tx) with ⟨b, s₁⟩
      cases b with
      | false =>
          rw [addLocks_of_refused hreach hlocked] at h
          cases h
          rw [addWithin_of_refused hreach hlocked]
          by_cases hheld : stripeFor P tx.txHash ∈ held
          · rw [if_pos hheld, outcome_neg fun h => (disciplined_refusedLocks held).1 h hheld]
            rfl
          · rw [if_neg hheld, outcome_pos ((disciplined_refusedLocks held).2 hheld)]
            rfl
      | true =>
          rw [addLocks_of_admitted hreach hlocked, Option.map_eq_some_iff] at h
          obtain ⟨⟨promoted, s₂⟩, hpromoted, h⟩ := h
          cases h
          have hbalanced := balanced_addEachLocks (fun h => (disciplined_addLocks h).1) hpromoted
          have hiff : Disciplined _ (admittedLocks P s tx baseFee promoted) ↔ _ :=
            disciplined_admittedLocks hbalanced held
          rw [addWithin_of_admitted hreach hlocked]
          by_cases hheld : stripeFor P tx.txHash ∈ held
          · rw [if_pos hheld, outcome_neg fun h => (hiff.1 h).1 hheld]
          · rw [if_neg hheld, addEach_eq_outcome (fun h => ih _ h)
              (fun h => (disciplined_addLocks h).1) hpromoted]
            by_cases hdisc :
                Disciplined ((stripeFor P tx.txHash :: held).map Mutex.stripe) promoted
            · rw [outcome_pos hdisc, outcome_pos (hiff.2 ⟨hheld, hdisc⟩)]
            · rw [outcome_neg hdisc, outcome_neg fun h => hdisc (hiff.1 h).2]

theorem addTransaction_deadlock_iff (P : Platform) (getUTXO : Str → Int32 → Option Utxo)
    (baseFee : UInt64) (s : Mempool) (tx : Transaction) :
    ∃ trace s', addTransactionLocks P getUTXO baseFee s tx = some (trace, s') ∧
      (addTransaction P getUTXO baseFee s tx = .error .deadlock ↔ ¬ Disciplined [] trace) := by
  obtain ⟨trace, s', h, -⟩ :=
    addLocks_returns P getUTXO baseFee s tx (Nat.lt_succ_self s.orphans.keys.length)
  refine ⟨trace, s', h, ?_⟩
  have hout := addWithin_eq_outcome [] h
  change addWithin P getUTXO baseFee (s.orphans.keys.length + 1) [] s tx = _ ↔ _
  by_cases hdisc : Disciplined (([] : List ℕ).map Mutex.stripe) trace
  · rw [outcome_pos hdisc] at hout
    refine iff_of_false (fun hdead => ?_) (not_not_intro hdisc)
    rw [hdead] at hout
    cases hout
  · rw [outcome_neg hdisc] at hout
    refine iff_of_true ?_ hdisc
    cases hadd : addWithin P getUTXO baseFee (s.orphans.keys.length + 1) [] s tx with
    | ok r =>
        rw [hadd] at hout
        cases hout
    | error e =>
        rw [hadd, Except.map, Except.error.injEq] at hout
        rw [hout]

/-! ### Every operation -/

/-- **Every chain of calls that starts with a call of `tx` has distinct stripes.** -/
def StripesDistinct (P : Platform) (getUTXO : Str → Int32 → Option Utxo) (baseFee : UInt64)
    (s : Mempool) (tx : Transaction) : Prop :=
  ∀ chain, Chain P getUTXO baseFee s (tx :: chain) → (stripes P (tx :: chain)).Nodup

theorem clear_nil :
    Clear P getUTXO baseFee [] s tx ↔ StripesDistinct P getUTXO baseFee s tx :=
  forall₂_congr fun _ _ => and_iff_left fun _ _ => List.not_mem_nil

theorem not_stripesDistinct_of_long {chain : List Transaction}
    (h : Chain P getUTXO baseFee s (tx :: chain)) (hlong : 128 ≤ chain.length) :
    ¬ StripesDistinct P getUTXO baseFee s tx := by
  intro hdistinct
  have hsub : stripes P (tx :: chain) ⊆ List.range 128 := by
    intro i hi
    obtain ⟨t, -, rfl⟩ := List.mem_map.1 hi
    exact List.mem_range.2 (Nat.mod_lt _ (by decide))
  have hle := (hdistinct chain h).length_le_of_subset hsub
  simp [stripes] at hle
  omega

/-- The condition on the state before an operation: in the calls of `addTransaction` that it makes,
the calls of a chain have stripes of their own. -/
def StripesApart (P : Platform) (s : Mempool) : Operation → Prop
  | .call (.addTransaction getUTXO tx baseFee) => StripesDistinct P getUTXO baseFee s tx
  | .call (.reorgRestore getUTXO reorgedOut) =>
      ∀ pre tx post before s', reorgedOut = pre ++ tx :: post →
        reorgRestoreLocks P getUTXO pre s = some (before, s') → tx.txHash ∉ s'.entries →
        StripesDistinct P getUTXO P.cfg.minFeePerGas s' tx
  | _ => True

theorem addTransactionLocks_returns (P : Platform) (getUTXO : Str → Int32 → Option Utxo)
    (baseFee : UInt64) (s : Mempool) (tx : Transaction) :
    ∃ trace s', addTransactionLocks P getUTXO baseFee s tx = some (trace, s') := by
  obtain ⟨trace, s', h, -⟩ :=
    addLocks_returns P getUTXO baseFee s tx (Nat.lt_succ_self s.orphans.keys.length)
  exact ⟨trace, s', h⟩

theorem restoreLocks_of_not_mem (h : tx.txHash ∉ s.entries) :
    restoreLocks P getUTXO s tx = (addTransactionLocks P getUTXO P.cfg.minFeePerGas s tx).map
      fun r => (locked .mu [] ++ r.1, r.2) := by
  rw [restoreLocks, if_neg h]
  cases addTransactionLocks P getUTXO P.cfg.minFeePerGas s tx with
  | none => rfl
  | some r => rfl

theorem disciplined_restoreLocks {trace : Locks} {s' : Mempool}
    (h : restoreLocks P getUTXO s tx = some (trace, s')) :
    Balanced trace ∧ ∀ held, Disciplined (held.map Mutex.stripe) trace ↔
      (tx.txHash ∉ s.entries → Clear P getUTXO P.cfg.minFeePerGas held s tx) := by
  by_cases hentry : tx.txHash ∈ s.entries
  · rw [restoreLocks, if_pos hentry] at h
    cases h
    exact ⟨quiet_mu.balanced, fun held =>
      iff_of_true (quiet_mu.disciplined held) fun hnot => absurd hentry hnot⟩
  · rw [restoreLocks_of_not_mem hentry, Option.map_eq_some_iff] at h
    obtain ⟨⟨added, s₁⟩, hadded, h⟩ := h
    cases h
    obtain ⟨hbalanced, hdisc⟩ := disciplined_addLocks hadded
    refine ⟨quiet_mu.balanced.append hbalanced, fun held => ?_⟩
    rw [quiet_mu.balanced.disciplined_append, and_iff_right (quiet_mu.disciplined held), hdisc]
    exact ⟨fun hclear _ => hclear, fun hclear => hclear hentry⟩

theorem restoreLocks_returns (P : Platform) (getUTXO : Str → Int32 → Option Utxo) (s : Mempool)
    (tx : Transaction) :
    ∃ trace s', restoreLocks P getUTXO s tx = some (trace, s') := by
  by_cases hentry : tx.txHash ∈ s.entries
  · exact ⟨_, s, by rw [restoreLocks, if_pos hentry]⟩
  · obtain ⟨added, s', h⟩ := addTransactionLocks_returns P getUTXO P.cfg.minFeePerGas s tx
    exact ⟨locked .mu [] ++ added, s', by rw [restoreLocks_of_not_mem hentry, h]; rfl⟩

theorem reorgRestoreLocks_returns (P : Platform) (getUTXO : Str → Int32 → Option Utxo)
    (txs : List Transaction) (s : Mempool) :
    ∃ trace s', reorgRestoreLocks P getUTXO txs s = some (trace, s') := by
  induction txs generalizing s with
  | nil => exact ⟨[], s, rfl⟩
  | cons tx txs ih =>
      obtain ⟨first, s₁, hfirst⟩ := restoreLocks_returns P getUTXO s tx
      obtain ⟨rest, s', hrest⟩ := ih s₁
      exact ⟨first ++ rest, s', addEachLocks_cons.2 ⟨_, _, _, hfirst, hrest, rfl⟩⟩

/-- **The lock discipline of an operation.**  Whatever the pool contains, an operation comes to the
end of its events, and none of them takes a mutex that is held just when the calls of each chain of
calls of `addTransaction` have stripes of their own. -/
theorem lockDiscipline_iff (P : Platform) (s : Mempool) (op : Operation) :
    ∃ trace, locks P s op = some trace ∧ (Disciplined [] trace ↔ StripesApart P s op) := by
  have hquiet {trace : Locks} (h : Quiet trace) : Disciplined [] trace ↔ True :=
    iff_true_intro (h.disciplined [])
  cases op with
  | call call =>
      cases call with
      | addTransaction getUTXO tx baseFee =>
          obtain ⟨trace, s', h⟩ := addTransactionLocks_returns P getUTXO baseFee s tx
          refine ⟨trace, by rw [locks, h]; rfl, ?_⟩
          exact ((disciplined_addLocks h).2 []).trans clear_nil
      | removeTransaction txHash => exact ⟨_, rfl, hquiet (quiet_removeTransactionLocks s txHash)⟩
      | removeConfirmed block => exact ⟨_, rfl, hquiet (quiet_removeAllLocks _ s)⟩
      | reorgRestore getUTXO reorgedOut =>
          obtain ⟨trace, s', h⟩ := reorgRestoreLocks_returns P getUTXO reorgedOut s
          refine ⟨trace, by rw [locks, h]; rfl, ?_⟩
          refine ((disciplined_addEachLocks (fun h => disciplined_restoreLocks h) h).2 []).trans ?_
          simp only [clear_nil, StripesApart, reorgRestoreLocks]
      | evictStale baseFee => exact ⟨_, rfl, hquiet (quiet_evictStaleLocks s)⟩
      | evictLowFee newBaseFee => exact ⟨_, rfl, hquiet (quiet_evictLowFeeLocks s newBaseFee)⟩
      | trimToCapacity baseFee => exact ⟨_, rfl, hquiet (quiet_trimToCapacityLocks s baseFee)⟩
  | setLogger => exact ⟨_, rfl, hquiet quiet_slogLocks⟩
  | onEviction => exact ⟨_, rfl, hquiet quiet_evict⟩
  | hasTransaction txHash => exact ⟨_, rfl, hquiet quiet_mu⟩
  | getTransaction txHash => exact ⟨_, rfl, hquiet quiet_mu⟩
  | getTransactions => exact ⟨_, rfl, hquiet quiet_mu⟩
  | getPendingTxs => exact ⟨_, rfl, hquiet quiet_mu⟩
  | getSortedByFee maxCount baseFee => exact ⟨_, rfl, hquiet quiet_mu⟩
  | txCount => exact ⟨_, rfl, hquiet quiet_mu⟩
  | totalBytes => exact ⟨_, rfl, hquiet quiet_nil⟩
  | minFee => exact ⟨_, rfl, hquiet quiet_nil⟩
  | getMetrics => exact ⟨_, rfl, hquiet quiet_nil⟩
  | estimateTxBytes tx => exact ⟨_, rfl, hquiet quiet_nil⟩
  | effectiveFee tx baseFee => exact ⟨_, rfl, hquiet quiet_nil⟩

/-! ### An orphan in the stripe of the transaction that it waits for -/

def sampleParent : Transaction where
  nonce := 1
  maxFeePerGas := 10
  toAddress := str "n"
  txHash := List.replicate 64 99

def sampleChild : Transaction :=
  { sampleEarlier with inputs := [{ prevTxHash := sampleParent.txHash, outputIndex := 0 }] }

def sampleUtxos (txHash : Str) (outputIndex : Int32) : Option Utxo :=
  if txHash = sampleParent.txHash ∧ outputIndex = 0 then
    some { value := 1, address := str "n", blockHeight := 1, isCoinbase := false }
  else none

theorem not_lockDiscipline :
    ¬ ∀ (P : Platform) (calls : List Call) (s : Mempool) (op : Operation) (trace : Locks),
      run (step P) {} calls = some s → locks P s op = some trace → Disciplined [] trace := by
  intro h
  have hrun : ((run (step samplePlatform) {}
      [.addTransaction sampleUtxos sampleLater 1, .addTransaction sampleUtxos sampleChild 1]).bind
        fun s => (locks samplePlatform s (.call (.addTransaction sampleUtxos sampleParent 1))).map
          fun trace => decide (Disciplined [] trace)) = some false := by decide +kernel
  obtain ⟨s, hs, hlocks⟩ := Option.bind_eq_some_iff.1 hrun
  obtain ⟨trace, htrace, hnot⟩ := Option.map_eq_some_iff.1 hlocks
  exact of_decide_eq_false hnot (h samplePlatform _ s _ trace hs htrace)

end Mempool

end Node
