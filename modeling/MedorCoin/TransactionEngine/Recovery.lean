/-
**Recovering from a crash.**

When a transaction is staged, the database has it before the log has a line for it.  So whatever the
log has, and wherever a crash has cut it off, the database needs nothing from it; and the recovery
stages every transaction of the log once more, in the form that the log has, which has another hash
and a longer text.  This leaves the mempool and the pending totals as they are only where it has
nothing to do, or where what it does happens to be there or to cancel.

Main definitions:

* `TransactionEngine.logged` — the transactions that the log has, and that are staged again;
* `TransactionEngine.Exact` — a recovery that completes and changes neither the mempool nor the
  pending totals;
* `TransactionEngine.Harmless` — logs of which this holds.

Main results:

* `TransactionEngine.replay_eq` — the recovery stages what the log has;
* `TransactionEngine.stageAll_isSome_iff`, `TransactionEngine.stageAll_spec` — whether that can be
  done, and what it does;
* `TransactionEngine.exact_iff_harmless` — **a recovery is exact exactly when its log is harmless**;
* `TransactionEngine.exact_iff_of_pos` — where every transaction costs something, that is when there
  is nothing to stage;
* `TransactionEngine.not_exact` — one transaction that was staged before the crash.
-/

import MedorCoin.TransactionEngine.Rollback
import Mathlib.Algebra.Order.BigOperators.Group.List

set_option autoImplicit false

namespace TransactionEngine

open Js

/-! ### What the log has -/

def Tx.hash (tx : Tx) : Str := Sha256.hex tx.json

/-- What a transaction costs its sender, if it has a value. -/
def Tx.cost (tx : Tx) : ℤ := tx.value?.getD 0 + tx.gas

/-- The transaction of a line: none where the signature is not right, and an error where the line
has no second part, or a right signature for something else than an object. -/
def readLine (hmac : Str → Str) (line : Str) : Option (Option Tx) := do
  let json ← (splitLine line).2
  if (splitLine line).1 = hmac json then
    match ← Json.parse json with
    | .obj tx => return some tx
    | _ => none
  else return none

/-- The transactions of some lines. -/
def readLines (hmac : Str → Str) (lines : List Str) : Option (List Tx) :=
  (lines.mapM (readLine hmac)).map (·.filterMap id)

/-- **The transactions of a log**, `none` where one of its lines is an error. -/
def logged (hmac : Str → Str) (wal : Str) : Option (List Tx) :=
  readLines hmac (nonemptyLines wal)

/-- One transaction after another is staged. -/
def stageAll (db : Database) (txs : List Tx) : Option Database :=
  txs.foldlM (fun db tx => (stageInternal db tx).map Prod.fst) db

theorem replayLine_eq (hmac : Str → Str) (db : Database) (line : Str) :
    replayLine hmac db line = (readLine hmac line).bind fun tx => stageAll db tx.toList := by
  unfold replayLine readLine
  cases (splitLine line).2 with
  | none => rfl
  | some json =>
      simp only [Option.bind_eq_bind, Option.bind_some]
      split
      · cases Json.parse json with
        | none => rfl
        | some value =>
            cases value with
            | obj tx =>
                change (stageInternal db tx).map Prod.fst = stageAll db [tx]
                rw [stageAll, List.foldlM_cons]
                cases stageInternal db tx <;> rfl
            | _ => rfl
      · rfl

theorem stageAll_append (db : Database) (txs txs' : List Tx) :
    stageAll db (txs ++ txs') = (stageAll db txs).bind fun db' => stageAll db' txs' := by
  rw [stageAll, List.foldlM_append]
  rfl

theorem readLines_cons (hmac : Str → Str) (line : Str) (lines : List Str) :
    readLines hmac (line :: lines) = (readLine hmac line).bind fun tx =>
      (readLines hmac lines).map (tx.toList ++ ·) := by
  rw [readLines, readLines, List.mapM_cons]
  cases readLine hmac line with
  | none => rfl
  | some tx =>
      cases lines.mapM (readLine hmac) with
      | none => rfl
      | some txs => cases tx <;> rfl

/-- **A recovery that completes stages the transactions of the log.** -/
theorem replay_eq (hmac : Str → Str) (db db' : Database) (lines : List Str) :
    replay hmac db lines = (db', true) ↔
      ∃ txs, readLines hmac lines = some txs ∧ stageAll db txs = some db' := by
  induction lines generalizing db with
  | nil =>
      constructor
      · intro h
        cases h
        exact ⟨[], rfl, rfl⟩
      · rintro ⟨txs, htxs, h⟩
        cases htxs
        cases h
        rfl
  | cons line lines ih =>
      rw [replay, replayLine_eq, readLines_cons]
      cases readLine hmac line with
      | none => simp
      | some tx =>
          simp only [Option.bind_some]
          cases hs : stageAll db tx.toList with
          | none =>
              simp only [Prod.mk.injEq, Bool.false_eq_true, and_false, false_iff]
              rintro ⟨txs, htxs, h⟩
              obtain ⟨txs', -, rfl⟩ := Option.map_eq_some_iff.1 htxs
              rw [stageAll_append, hs] at h
              cases h
          | some db₁ =>
              refine (ih db₁).trans ?_
              constructor
              · rintro ⟨txs, htxs, h⟩
                refine ⟨tx.toList ++ txs, by rw [htxs]; rfl, ?_⟩
                rw [stageAll_append, hs]
                exact h
              · rintro ⟨txs, htxs, h⟩
                obtain ⟨txs', htxs', rfl⟩ := Option.map_eq_some_iff.1 htxs
                rw [stageAll_append, hs] at h
                exact ⟨txs', htxs', h⟩

/-! ### What staging does -/

/-- Each transaction fits in the funds of its sender, after those before it. -/
def Funded (balance : Str → ℤ) : (Str → ℤ) → List Tx → Prop
  | _, [] => True
  | total, tx :: txs =>
      (tx.isMint = true ∨ total tx.sender + tx.cost ≤ balance tx.sender) ∧
        Funded balance (Function.update total tx.sender (total tx.sender + tx.cost)) txs

/-- What a transaction writes when it is staged. -/
def Tx.writes (db : Database) (tx : Tx) : List Write :=
  [.pending tx.sender (db.pendingTotal tx.sender + tx.cost),
   .mempool tx.hash (some (stagedTx tx tx.hash))]

theorem stageInternal_eq (db : Database) (tx : Tx) :
    (stageInternal db tx).map Prod.fst =
      if tx.value?.isSome ∧
          (tx.isMint = true ∨ db.pendingTotal tx.sender + tx.cost ≤ db.balance tx.sender) then
        some (db.write (tx.writes db))
      else none := by
  unfold stageInternal
  cases hvalue : tx.value? with
  | none => simp
  | some value =>
      have hcost : value + tx.gas = tx.cost := by
        rw [Tx.cost, hvalue]
        rfl
      simp only [Option.bind_eq_bind, Option.bind_some, Option.isSome_some, true_and, hcost]
      by_cases h : tx.isMint = true ∨ db.pendingTotal tx.sender + tx.cost ≤ db.balance tx.sender
      · rw [if_pos h, if_neg]
        · rfl
        · rintro ⟨hlt, hmint⟩
          rcases h with h | h
          · rw [h] at hmint
            cases hmint
          · omega
      · rw [if_neg h, if_pos]
        · rfl
        · obtain ⟨hmint, hlt⟩ := not_or.1 h
          exact ⟨by omega, Bool.eq_false_iff.2 hmint⟩

theorem balance_writes (db : Database) (tx : Tx) :
    (db.write (tx.writes db)).balance = db.balance := rfl

theorem pendingTotal_writes (db : Database) (tx : Tx) :
    (db.write (tx.writes db)).pendingTotal =
      Function.update db.pendingTotal tx.sender (db.pendingTotal tx.sender + tx.cost) := by
  funext address
  by_cases h : address = tx.sender
  · subst h
    simp [Tx.writes, Database.write, Database.apply, Database.pendingTotal]
  · simp [Tx.writes, Database.write, Database.apply, Database.pendingTotal, h]

theorem stageAll_cons (db : Database) (tx : Tx) (txs : List Tx) :
    stageAll db (tx :: txs) =
      if tx.value?.isSome ∧
          (tx.isMint = true ∨ db.pendingTotal tx.sender + tx.cost ≤ db.balance tx.sender) then
        stageAll (db.write (tx.writes db)) txs
      else none := by
  rw [stageAll, List.foldlM_cons, stageInternal_eq]
  split <;> rfl

/-- **Whether transactions can be staged** one after another. -/
theorem stageAll_isSome_iff (db : Database) (txs : List Tx) :
    (stageAll db txs).isSome ↔
      (∀ tx ∈ txs, tx.value?.isSome) ∧ Funded db.balance db.pendingTotal txs := by
  induction txs generalizing db with
  | nil => simp [stageAll, Funded]
  | cons tx txs ih =>
      rw [stageAll_cons, Funded, ← pendingTotal_writes, List.forall_mem_cons]
      split
      · next h =>
          rw [ih, balance_writes]
          tauto
      · next h =>
          simp only [Option.isSome_none, Bool.false_eq_true, false_iff]
          tauto

/-- **What staging does**: it adds up what the transactions of each sender cost, and of the entries
for each hash the last one stays. -/
theorem stageAll_spec {db db' : Database} {txs : List Tx} (h : stageAll db txs = some db') :
    (∀ address, db'.pendingTotal address = db.pendingTotal address +
      (deltas (txs.map fun tx => (tx.sender, tx.cost)) address).sum) ∧
    (∀ hash, db'.mempool hash = (deltas (txs.map fun tx =>
      (tx.hash, some (stagedTx tx tx.hash))) hash).getLast?.getD (db.mempool hash)) := by
  induction txs generalizing db with
  | nil =>
      cases h
      exact ⟨fun _ => (add_zero _).symm, fun _ => rfl⟩
  | cons tx txs ih =>
      rw [stageAll_cons] at h
      split at h
      · obtain ⟨hpending, hmempool⟩ := ih h
        constructor
        · intro address
          rw [hpending, pendingTotal_writes, List.map_cons, sum_deltas_cons, Function.update_apply]
          simp only [eq_comm (a := address)]
          split
          · next heq =>
              rw [heq]
              omega
          · omega
        · intro hash
          rw [hmempool, List.map_cons, ← List.singleton_append, deltas_append,
            List.getLast?_append, Database.mempool_write]
          cases (deltas (txs.map fun tx => (tx.hash, some (stagedTx tx tx.hash)))
            hash).getLast? <;> rfl
      · cases h

/-! ### Exact recoveries -/

/-- **A recovery is exact**: it completes, leaves the mempool and the pending totals as the first
staging and the blocks have left them, and does nothing when it is run again. -/
structure Exact (hmac : Str → Str) (e : Engine) : Prop where
  completes : (e.recoverFromCrash hmac).2 = true
  mempool : (e.recoverFromCrash hmac).1.db.mempool = e.db.mempool
  pending : ∀ address,
    (e.recoverFromCrash hmac).1.db.pendingTotal address = e.db.pendingTotal address
  again : (e.recoverFromCrash hmac).1.recoverFromCrash hmac
    = ((e.recoverFromCrash hmac).1, true)

/-- **A log is harmless**: its transactions can be staged again; the last entry that they make for
each hash is there; and what those of each sender cost comes to nothing. -/
def Harmless (hmac : Str → Str) (e : Engine) : Prop :=
  ∃ txs, logged hmac e.wal = some txs ∧
    ((∀ tx ∈ txs, tx.value?.isSome) ∧ Funded e.db.balance e.db.pendingTotal txs) ∧
    (∀ hash, ∀ entry ∈ (deltas (txs.map fun tx => (tx.hash, stagedTx tx tx.hash)) hash).getLast?,
      e.db.mempool hash = some entry) ∧
    ∀ address, (deltas (txs.map fun tx => (tx.sender, tx.cost)) address).sum = 0

theorem recoverFromCrash_of_logged {hmac : Str → Str} {e : Engine} {txs : List Tx}
    {db : Database} (htxs : logged hmac e.wal = some txs) (h : stageAll e.db txs = some db) :
    e.recoverFromCrash hmac = ({ e with db := db, wal := [] }, true) := by
  have hreplay : replay hmac e.db (nonemptyLines e.wal) = (db, true) :=
    (replay_eq hmac e.db db _).2 ⟨txs, htxs, h⟩
  rw [Engine.recoverFromCrash, hreplay]
  rfl

theorem logged_of_completes {hmac : Str → Str} {e : Engine}
    (h : (e.recoverFromCrash hmac).2 = true) :
    ∃ txs db, logged hmac e.wal = some txs ∧ stageAll e.db txs = some db := by
  obtain ⟨db, ok, hreplay⟩ : ∃ db ok, replay hmac e.db (nonemptyLines e.wal) = (db, ok) :=
    ⟨_, _, rfl⟩
  rw [Engine.recoverFromCrash, hreplay] at h
  cases (h : ok = true)
  obtain ⟨txs, htxs, hstage⟩ := (replay_eq hmac e.db db _).1 hreplay
  exact ⟨txs, db, htxs, hstage⟩

theorem deltas_map_some {α : Type} (key : α → Str) (value : α → Tx) (l : List α) (k : Str) :
    deltas (l.map fun x => (key x, some (value x))) k
      = (deltas (l.map fun x => (key x, value x)) k).map some := by
  rw [deltas_map key (fun _ x => some (value x)), deltas_map key (fun _ x => value x),
    List.map_map]
  rfl

/-- **A recovery is exact exactly when its log is harmless.** -/
theorem exact_iff_harmless (hmac : Str → Str) (e : Engine) : Exact hmac e ↔ Harmless hmac e := by
  constructor
  · intro h
    obtain ⟨txs, db, htxs, hstage⟩ := logged_of_completes h.completes
    have hrecover := recoverFromCrash_of_logged htxs hstage
    have hmempool := h.mempool
    have hpending := h.pending
    rw [hrecover] at hmempool hpending
    obtain ⟨htotal, hentry⟩ := stageAll_spec hstage
    refine ⟨txs, htxs, (stageAll_isSome_iff e.db txs).1 (by rw [hstage]; rfl), ?_, ?_⟩
    · intro hash entry hlast
      have hthis := hentry hash
      rw [deltas_map_some, List.getLast?_map, Option.mem_def.1 hlast] at hthis
      exact (congrFun hmempool hash).symm.trans hthis
    · intro address
      have hthis := (htotal address).symm.trans (hpending address)
      omega
  · rintro ⟨txs, htxs, hfunded, hentries, hcosts⟩
    obtain ⟨db, hstage⟩ :=
      Option.isSome_iff_exists.1 ((stageAll_isSome_iff e.db txs).2 hfunded)
    have hrecover := recoverFromCrash_of_logged htxs hstage
    obtain ⟨htotal, hentry⟩ := stageAll_spec hstage
    refine ⟨by rw [hrecover], ?_, ?_, ?_⟩
    · rw [hrecover]
      funext hash
      refine (hentry hash).trans ?_
      rw [deltas_map_some, List.getLast?_map]
      cases hlast : (deltas (txs.map fun tx => (tx.hash, stagedTx tx tx.hash)) hash).getLast? with
      | none => rfl
      | some entry => exact (hentries hash entry hlast).symm
    · intro address
      rw [hrecover]
      have hthis := htotal address
      rw [hcosts, add_zero] at hthis
      exact hthis
    · rw [hrecover]
      -- the log is empty now
      rfl

/-- **Where every transaction of the log costs something**, a recovery is exact exactly when there
is nothing to stage. -/
theorem exact_iff_of_pos {hmac : Str → Str} {e : Engine}
    (hpos : ∀ txs, logged hmac e.wal = some txs → ∀ tx ∈ txs, 0 < tx.cost) :
    Exact hmac e ↔ logged hmac e.wal = some [] := by
  rw [exact_iff_harmless]
  constructor
  · rintro ⟨txs, htxs, -, -, hcosts⟩
    cases txs with
    | nil => exact htxs
    | cons tx txs =>
        have hsum := hcosts tx.sender
        rw [List.map_cons, sum_deltas_cons, if_pos rfl] at hsum
        have hrest : 0 ≤ (deltas (txs.map fun tx => (tx.sender, tx.cost)) tx.sender).sum := by
          refine List.sum_nonneg ?_
          intro cost hcost
          obtain ⟨op, hop, rfl⟩ := List.mem_map.1 hcost
          obtain ⟨tx', htx', rfl⟩ := List.mem_map.1 (List.mem_filter.1 hop).1
          exact (hpos _ htxs tx' (List.mem_cons_of_mem _ htx')).le
        have hfirst := hpos _ htxs tx List.mem_cons_self
        simp only at hsum
        omega
  · intro h
    refine ⟨[], h, ⟨by simp, trivial⟩, ?_, fun _ => rfl⟩
    intro hash entry hentry
    cases hentry

def sampleHmac (text : Str) : Str := Js.numeral text.length

def sampleIncoming : Tx :=
  [("from".toList, .str "alice".toList), ("to".toList, .str "bob".toList),
   ("value".toList, .str "20".toList)]

/-- **One transaction that was staged before the crash** is staged again, under another hash. -/
theorem not_exact :
    ¬ ∀ (hmac : Str → Str) (db : Database) (tx : Tx) (e : Engine) (txHash : Str),
      (Engine.new db []).stageToMempool hmac tx = some (e, txHash) → Exact hmac e := by
  intro h
  have hlogged : ((Engine.new sampleDatabase []).stageToMempool sampleHmac sampleIncoming).map
      (fun p => (logged sampleHmac p.1.wal).map (·.map Tx.cost)) = some (some [22844]) := by
    decide +kernel
  obtain ⟨⟨e, txHash⟩, hstage, hcosts⟩ := Option.map_eq_some_iff.1 hlogged
  obtain ⟨txs, htxs, hcosts⟩ := Option.map_eq_some_iff.1 hcosts
  have hpos : ∀ txs', logged sampleHmac e.wal = some txs' → ∀ tx ∈ txs', 0 < tx.cost := by
    intro txs' htxs' tx htx
    cases htxs.symm.trans htxs'
    have hmem : tx.cost ∈ txs.map Tx.cost := List.mem_map_of_mem htx
    rw [hcosts, List.mem_singleton] at hmem
    omega
  have hnone := (exact_iff_of_pos hpos).1 (h sampleHmac sampleDatabase sampleIncoming e txHash
    hstage)
  cases htxs.symm.trans hnone
  cases hcosts

end TransactionEngine
