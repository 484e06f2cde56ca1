/-
**The database of the mempool.**

A transaction that gets in and an entry that is removed leave a job for the database.  The job is
made under the lock of the pool and put into the queue after the lock was given up, so that the jobs
of several threads may enter the queue in another order than they were made.  A queue over its limit
loses the oldest job.  The worker takes jobs from the front, writes them in one batch, and puts them
back in front if the write fails.  What an earlier process left in the database is never removed.

Main definitions:

* `Mempool.Persisted` — the pool, the jobs on their way, the queue, the batch and the database;
* `Mempool.Event`, `Mempool.happen` — what can happen;
* `Mempool.InOrder` — the jobs of a key enter the queue in order, and none is lost that matters.

Main results:

* `Mempool.happen_inserted` — what `addLocked` does is an event;
* `Mempool.follows_happen` — **one event**: the jobs on their way lead from the database to the
  pool;
* `Mempool.drained_follows` — **a drained queue leaves the transactions of the pool in the
  database**.
-/

import MedorCoin.Ledger.Disk
import MedorCoin.Node.MempoolAccounting

set_option autoImplicit false

namespace Node

open Cpp Ledger Transition

namespace Mempool

/-- `struct PersistJob`. -/
abbrev PersistJob := Write Str Str

/-- A RocksDB database. -/
abbrev Database := AList fun _ : Str => Str

/-- `serializeTx(tx)`; the numbers are in decimal. -/
def serializeTx (tx : Transaction) : Str :=
  [(124 : UInt8)].intercalate [tx.txHash, decimal tx.chainId.toNat, decimal tx.nonce.toNat,
    tx.toAddress, decimal tx.value.toNat, decimal tx.gasLimit.toNat,
    decimal tx.maxFeePerGas.toNat, decimal tx.maxPriorityFeePerGas.toNat]

/-- The pool with its database.  `pending` are the jobs that were made and are not yet in the queue,
in the order in which they were made; `batch` is what the worker is about to write. -/
structure Persisted where
  pool : Mempool := {}
  pending : List PersistJob := []
  queue : List PersistJob := []
  batch : List PersistJob := []
  db : Database := ∅

/-- A job of a `WriteBatch`. -/
def writeJob (db : Database) : PersistJob → Database
  | .put key value => db.insert key value
  | .delete key => db.erase key

/-- `enqueuePersist` and `enqueueUnpersist`. -/
def enqueue (cfg : Config) (queue : List PersistJob) (job : PersistJob) : List PersistJob :=
  let queue := queue ++ [job]
  if queue.length > cfg.maxPersistQueueSize then queue.tail else queue

/-- What can happen: a transaction gets in, an entry is removed, a job enters the queue, the worker
takes a batch, the batch is written or not. -/
inductive Event
  | inserted (tx : Transaction) (baseFee : UInt64)
  | removed (txHash : Str)
  | enqueued (i : ℕ)
  | taken
  | written (ok : Bool)

/-- What is checked under the lock right before a transaction is put in. -/
def Insertable (cfg : Config) (s : Mempool) (tx : Transaction) : Prop :=
  tx.txHash ∉ s.entries ∧ isDoubleSpend s tx = false ∧ isFull cfg s (estimateTxBytes tx) = false

instance (cfg : Config) (s : Mempool) (tx : Transaction) : Decidable (Insertable cfg s tx) :=
  inferInstanceAs (Decidable (_ ∧ _ ∧ _))

/-- The state after an event, `none` where it cannot happen. -/
def happen (P : Platform) (s : Persisted) : Event → Option Persisted
  | .inserted tx baseFee =>
      if Insertable P.cfg s.pool tx then
        some { s with
          pool := insertEntry P s.pool tx baseFee (estimateTxBytes tx)
          pending := s.pending ++ [.put tx.txHash (serializeTx tx)] }
      else none
  | .removed txHash =>
      if txHash ∈ s.pool.entries then
        some { s with
          pool := removeTransaction s.pool txHash
          pending := s.pending ++ [.delete txHash] }
      else none
  | .enqueued i =>
      match s.pending[i]? with
      | none => none
      | some job =>
          some { s with
            pending := s.pending.eraseIdx i
            queue := enqueue P.cfg s.queue job }
  | .taken =>
      if s.batch = [] ∧ s.queue ≠ [] then
        some { s with
          batch := s.queue.take P.cfg.persistBatchSize
          queue := s.queue.drop P.cfg.persistBatchSize }
      else none
  | .written true =>
      if s.batch = [] then none
      else some { s with db := s.batch.foldl writeJob s.db, batch := [] }
  | .written false =>
      if s.batch = [] then none
      else some { s with queue := s.batch ++ s.queue, batch := [] }

/-- Every job that was made has been written. -/
def Drained (s : Persisted) : Prop := s.pending = [] ∧ s.queue = [] ∧ s.batch = []

/-- The oldest job of a queue over its limit has a later job of its key behind it. -/
def Superseded (cfg : Config) : List PersistJob → Prop
  | [] => True
  | job :: jobs =>
      (job :: jobs).length > cfg.maxPersistQueueSize → ∃ job' ∈ jobs, job'.key = job.key

/-- **The jobs of a key enter the queue in the order in which they were made, and a job that is lost
has a later one of its key behind it.** -/
def InOrder (P : Platform) (s : Persisted) : Event → Prop
  | .enqueued i => ∀ job, s.pending[i]? = some job →
      (∀ earlier ∈ s.pending.take i, earlier.key ≠ job.key) ∧ Superseded P.cfg (s.queue ++ [job])
  | _ => True

/-- The jobs on their way, the next one to be written first. -/
def Persisted.jobs (s : Persisted) : List PersistJob := s.batch ++ s.queue ++ s.pending

/-- **The jobs on their way lead from the database to the pool.** -/
def Follows (s : Persisted) : Prop :=
  ∀ key, after key s.jobs (s.db.lookup key) =
    (s.pool.entries.lookup key).map fun entry => serializeTx entry.tx

variable {P : Platform} {s s' : Persisted}

theorem lookup_writeJob (db : Database) (job : PersistJob) (key : Str) :
    (writeJob db job).lookup key = if job.key = key then job.value? else db.lookup key := by
  cases job with
  | put k v =>
      by_cases h : k = key
      · subst h
        exact (AList.lookup_insert db).trans (if_pos rfl).symm
      · exact (AList.lookup_insert_ne (Ne.symm h)).trans (if_neg h).symm
  | delete k =>
      by_cases h : k = key
      · subst h
        exact (AList.lookup_erase _ db).trans (if_pos rfl).symm
      · exact (AList.lookup_erase_ne (Ne.symm h)).trans (if_neg h).symm

theorem lookup_foldl_writeJob (db : Database) (jobs : List PersistJob) (key : Str) :
    (jobs.foldl writeJob db).lookup key = after key jobs (db.lookup key) := by
  induction jobs generalizing db with
  | nil => rfl
  | cons job jobs ih => rw [List.foldl_cons, ih, lookup_writeJob, after_cons]

theorem after_enqueue {queue : List PersistJob} {job : PersistJob}
    (h : Superseded P.cfg (queue ++ [job])) (key : Str) (old : Option Str) :
    after key (enqueue P.cfg queue job) old = after key (queue ++ [job]) old := by
  unfold enqueue
  simp only
  cases hqueue : queue ++ [job] with
  | nil => rfl
  | cons oldest jobs =>
      rw [hqueue] at h
      split
      · rename_i hover
        obtain ⟨job', hmem, hkey⟩ := h hover
        exact (after_superseded hmem hkey).symm
      · rfl

theorem follows_inserted (h : Follows s) (tx : Transaction) (baseFee : UInt64) :
    Follows { s with
      pool := insertEntry P s.pool tx baseFee (estimateTxBytes tx)
      pending := s.pending ++ [.put tx.txHash (serializeTx tx)] } := by
  intro key
  rw [Persisted.jobs, ← List.append_assoc, after_concat, insertEntry_entries]
  by_cases hkey : tx.txHash = key
  · rw [← hkey, AList.lookup_insert]
    exact if_pos rfl
  · rw [AList.lookup_insert_ne (Ne.symm hkey), ← h key]
    exact if_neg hkey

theorem follows_removed (h : Follows s) {txHash : Str} (hmem : txHash ∈ s.pool.entries) :
    Follows { s with
      pool := removeTransaction s.pool txHash
      pending := s.pending ++ [.delete txHash] } := by
  obtain ⟨entry, hentry⟩ := exists_lookup hmem
  have hentries : (removeTransaction s.pool txHash).entries = s.pool.entries.erase txHash := by
    rw [removeTransaction, hentry]
  intro key
  rw [Persisted.jobs, ← List.append_assoc, after_concat]
  simp only [hentries]
  by_cases hkey : txHash = key
  · rw [← hkey, AList.lookup_erase]
    exact if_pos rfl
  · rw [AList.lookup_erase_ne (Ne.symm hkey), ← h key]
    exact if_neg hkey

theorem follows_enqueued (h : Follows s) {i : ℕ} {job : PersistJob}
    (hjob : s.pending[i]? = some job)
    (hfirst : ∀ earlier ∈ s.pending.take i, earlier.key ≠ job.key)
    (hsuperseded : Superseded P.cfg (s.queue ++ [job])) :
    Follows { s with pending := s.pending.eraseIdx i, queue := enqueue P.cfg s.queue job } := by
  obtain ⟨hi, hget⟩ := List.getElem?_eq_some_iff.1 hjob
  have hsplit : s.pending = s.pending.take i ++ job :: s.pending.drop (i + 1) := by
    rw [← hget, ← List.drop_eq_getElem_cons hi, List.take_append_drop]
  intro key
  refine Eq.trans ?_ (h key)
  rw [Persisted.jobs, Persisted.jobs, after_append, after_append, after_append, after_append,
    after_enqueue hsuperseded, List.eraseIdx_eq_take_drop_succ]
  conv_rhs => rw [hsplit, after_move hfirst]
  rw [after_concat, after_cons]

/-- **One event.** -/
theorem follows_happen (h : Follows s) {e : Event} (horder : InOrder P s e)
    (hstep : happen P s e = some s') : Follows s' := by
  cases e with
  | inserted tx baseFee =>
      obtain ⟨-, heq⟩ := Option.ite_none_right_eq_some.1 hstep
      cases heq
      exact follows_inserted h tx baseFee
  | removed txHash =>
      obtain ⟨hmem, heq⟩ := Option.ite_none_right_eq_some.1 hstep
      cases heq
      exact follows_removed h hmem
  | enqueued i =>
      unfold happen at hstep
      cases hjob : s.pending[i]? with
      | none =>
          simp only [hjob] at hstep
          cases hstep
      | some job =>
          simp only [hjob] at hstep
          cases hstep
          obtain ⟨hfirst, hsuperseded⟩ := horder job hjob
          exact follows_enqueued h hjob hfirst hsuperseded
  | taken =>
      obtain ⟨⟨hbatch, -⟩, heq⟩ := Option.ite_none_right_eq_some.1 hstep
      cases heq
      intro key
      refine Eq.trans ?_ (h key)
      rw [Persisted.jobs, Persisted.jobs, List.take_append_drop, hbatch, List.nil_append]
  | written ok =>
      cases ok with
      | true =>
          obtain ⟨-, heq⟩ := Option.ite_none_left_eq_some.1 hstep
          cases heq
          intro key
          refine Eq.trans ?_ (h key)
          rw [Persisted.jobs, Persisted.jobs, lookup_foldl_writeJob, List.nil_append,
            List.append_assoc, after_append s.batch]
      | false =>
          obtain ⟨-, heq⟩ := Option.ite_none_left_eq_some.1 hstep
          cases heq
          exact h

theorem happen_inserted {tx : Transaction} {baseFee : UInt64} {pool : Mempool}
    (h : Accounted P.cfg s.pool)
    (hlocked : addLocked P s.pool tx baseFee (estimateTxBytes tx) = (true, pool)) :
    happen P s (.inserted tx baseFee) =
      some { s with pool, pending := s.pending ++ [.put tx.txHash (serializeTx tx)] } := by
  rcases addLocked_cases h tx baseFee (estimateTxBytes tx) with
    ⟨heq, hnew, hspend, -, hfull⟩ | ⟨heq, -⟩ | heq
  · rw [hlocked, Prod.mk.injEq] at heq
    rw [heq.2]
    exact if_pos ⟨hnew, hspend, hfull⟩
  · rw [hlocked] at heq
    cases heq
  · rw [hlocked] at heq
    cases heq

/-- The pool of a new process on a database. -/
def opened (db : Database) : Persisted := { db }

/-- **A drained queue leaves the transactions of the pool in the database**, if the database was
empty when the process started, the jobs of a key entered the queue in order, and no job was lost
whose key was not written again. -/
theorem drained_follows {db : Database} {es : List Event} (hdb : db = ∅)
    (horder : EveryStep (happen P) (fun s e _ => InOrder P s e) (opened db) es)
    (hrun : run (happen P) (opened db) es = some s) (hdrained : Drained s) (key : Str) :
    key ∈ s.db ↔ key ∈ s.pool.entries := by
  have hstart : Follows (opened db) := by
    intro key
    rw [hdb]
    rfl
  have hstep : ∀ s e s', Follows s → InOrder P s e → happen P s e = some s' → Follows s' :=
    fun _ _ _ h hin hs => follows_happen h hin hs
  have hfollows : Follows s := run_induction hstep hstart horder hrun
  obtain ⟨hpending, hqueue, hbatch⟩ := hdrained
  have hkey := hfollows key
  rw [Persisted.jobs, hpending, hqueue, hbatch] at hkey
  change s.db.lookup key = _ at hkey
  rw [← AList.lookup_isSome, ← AList.lookup_isSome, hkey, Option.isSome_map]

/-! ### A deletion that is lost -/

def sampleShort : Platform := { samplePlatform with cfg := { maxPersistQueueSize := 1 } }

def sampleEvents : List Event :=
  [.inserted sampleLater 1, .enqueued 0, .taken, .written true, .removed sampleLater.txHash,
    .enqueued 0, .inserted sampleEarlier 1, .enqueued 0, .taken, .written true]

theorem not_drained_follows :
    ¬ ∀ (P : Platform) (es : List Event) (s : Persisted), run (happen P) (opened ∅) es = some s →
      Drained s → ∀ key, key ∈ s.db ↔ key ∈ s.pool.entries := by
  intro h
  have hrun : ((run (happen sampleShort) (opened ∅) sampleEvents).map fun s =>
      decide ((s.pending = [] ∧ s.queue = [] ∧ s.batch = []) ∧ sampleLater.txHash ∈ s.db ∧
        sampleLater.txHash ∉ s.pool.entries)) = some true := by decide +kernel
  obtain ⟨s, hs, hlost⟩ := Option.map_eq_some_iff.1 hrun
  obtain ⟨hdrained, hmem, hnot⟩ := of_decide_eq_true hlost
  exact hnot ((h sampleShort sampleEvents s hs hdrained _).1 hmem)

theorem drained_follows_sampleEvents :
    ∃ s, run (happen samplePlatform) (opened ∅) (sampleEvents.take 4) = some s ∧
      ∀ key, key ∈ s.db ↔ key ∈ s.pool.entries := by
  have hrun : ((run (happen samplePlatform) (opened ∅) (sampleEvents.take 4)).map fun s =>
      decide (s.pending = [] ∧ s.queue = [] ∧ s.batch = [])) = some true := by decide +kernel
  obtain ⟨s, hs, hdrained⟩ := Option.map_eq_some_iff.1 hrun
  have hjobs : s.pending = [] ∧ s.queue = [] ∧ s.batch = [] := of_decide_eq_true hdrained
  refine ⟨s, hs, drained_follows rfl ?_ hs hjobs⟩
  intro s₁ h₁
  refine ⟨trivial, fun s₂ _ => ⟨fun job _ => ⟨fun _ h => ?_, ?_⟩, ?_⟩⟩
  · cases h
  · have hqueue : ((happen samplePlatform (opened ∅) (.inserted sampleLater 1)).map
        Persisted.queue) = some [] := by decide +kernel
    rw [h₁, Option.map_some, Option.some.injEq] at hqueue
    rw [hqueue]
    intro hover
    have hlimit : ¬ 1 > samplePlatform.cfg.maxPersistQueueSize := by decide
    exact absurd hover hlimit
  · exact fun s₃ _ => ⟨trivial, fun s₄ _ => ⟨trivial, trivial⟩⟩

end Mempool

end Node
