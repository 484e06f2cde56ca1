/-
**What the storage engine recovers.**

The entries of the latest snapshot and the operations in the log are a redo list for the database
(`Ledger.Redoes`): written again, they give every key what was last acknowledged for it.  An
operation enters the list before it reaches the database, and a snapshot takes the place of what was
in the list before.

This fails where an operation is rejected after its line was written, where a torn line keeps the
log from being read, and where a snapshot that misses unsynced writes empties the log.

Main definitions:

* `Storage.Recoverable` — **the redo list is good for what was acknowledged**.

Main results:

* `Storage.Recoverable.recover` — what was acknowledged is recovered;
* `Storage.Recoverable.takeSnapshot` — a snapshot may take the place of the log;
* `Storage.durable_of_safe` — **in a run of safe steps the storage always has what was
  acknowledged**.
-/

import MedorCoin.Storage.Engine

set_option autoImplicit false

namespace Storage

open Js Ledger Transition

/-! ### Rejected operations in the log -/

variable {logged : List (Operation × Bool)}

theorem accepted_concat (logged : List (Operation × Bool)) (op : Operation) :
    accepted (logged ++ [(op, true)]) = accepted logged ++ [op.write] := by
  simp [accepted]

theorem accepted_concat_rejected (logged : List (Operation × Bool)) (op : Operation) :
    accepted (logged ++ [(op, false)]) = accepted logged := by
  simp [accepted]

/-- The writes of all logged operations lead to the same as those that were not rejected. -/
theorem Superseded.after (h : Superseded logged) (key : Str) (old : Option Str) :
    after key (logged.map fun e => e.1.write) old = after key (accepted logged) old := by
  induction logged generalizing old with
  | nil => rfl
  | cons e logged ih =>
      obtain ⟨op, ok⟩ := e
      obtain ⟨hlater, hrest⟩ := h
      cases ok with
      | true =>
          rw [List.map_cons, after_cons, ih hrest, accepted, accepted, List.filter_cons_of_pos rfl,
            List.map_cons, after_cons]
      | false =>
          rcases hlater with hok | ⟨e', he', hkey⟩
          · cases hok
          · have hmem : e'.1.write ∈ logged.map fun e => e.1.write := List.mem_map_of_mem he'
            rw [List.map_cons, after_superseded hmem hkey, ih hrest]
            simp [accepted]

theorem Superseded.exists_accepted (h : Superseded logged) {e : Operation × Bool}
    (he : e ∈ logged) : ∃ w ∈ accepted logged, w.key = e.1.write.key := by
  induction logged generalizing e with
  | nil => cases he
  | cons e' logged ih =>
      obtain ⟨hlater, hrest⟩ := h
      have hcons : ∀ w ∈ accepted logged, w ∈ accepted (e' :: logged) := by
        intro w hw
        obtain ⟨e₁, he₁, rfl⟩ := List.mem_map.1 hw
        obtain ⟨hmem, hok⟩ := List.mem_filter.1 he₁
        exact List.mem_map.2 ⟨e₁, List.mem_filter.2 ⟨List.mem_cons_of_mem _ hmem, hok⟩, rfl⟩
      rcases List.mem_cons.1 he with rfl | he
      · rcases hlater with hok | ⟨e₁, he₁, hkey⟩
        · have hmem : e ∈ (e :: logged).filter fun e => e.2 :=
            List.mem_filter.2 ⟨List.mem_cons_self, hok⟩
          exact ⟨e.1.write, List.mem_map.2 ⟨e, hmem, rfl⟩, rfl⟩
        · obtain ⟨w, hw, hw'⟩ := ih hrest he₁
          exact ⟨w, hcons w hw, hw'.trans hkey⟩
      · obtain ⟨w, hw, hkey⟩ := ih hrest he
        exact ⟨w, hcons w hw, hkey⟩

/-! ### Operations that are done again -/

/-- What the database makes of operations that it accepts. -/
def entries (ops : List Operation) : List (Write Str Str × Bool) :=
  ops.map fun op => (op.write, op.sync)

theorem applyAll_of_accepted {accepted : List Bool} (h : ∀ ok ∈ accepted, ok = true)
    (db : Disk Str Str) (ops : List Operation) :
    applyAll db ops accepted = db.writeAll (entries ops) := by
  induction ops generalizing db accepted with
  | nil => rfl
  | cons op ops ih =>
      have hhead : accepted.headD true = true := by
        cases accepted with
        | nil => rfl
        | cons ok accepted => exact h ok List.mem_cons_self
      rw [applyAll, hhead, ih fun ok hok => h ok (List.mem_of_mem_tail hok)]
      rfl

theorem exists_applyAll (db : Disk Str Str) (ops : List Operation) (accepted : List Bool) :
    ∃ done, (∀ op ∈ done, op ∈ ops) ∧ applyAll db ops accepted = db.writeAll (entries done) := by
  induction ops generalizing db accepted with
  | nil => exact ⟨[], fun _ h => h, rfl⟩
  | cons op ops ih =>
      rw [applyAll]
      cases accepted.headD true with
      | true =>
          obtain ⟨done, hdone, heq⟩ := ih (op.apply db) accepted.tail
          refine ⟨op :: done, fun op' hop' => ?_, heq⟩
          rcases List.mem_cons.1 hop' with rfl | hop'
          · exact List.mem_cons_self
          · exact List.mem_cons_of_mem _ (hdone op' hop')
      | false =>
          obtain ⟨done, hdone, heq⟩ := ih db accepted.tail
          exact ⟨done, fun op' hop' => List.mem_cons_of_mem _ (hdone op' hop'), heq⟩

/-! ### The redo list -/

/-- What the keys hold after the acknowledged operations and the one in flight. -/
def Past.value (past : Past) (base : Str → Option Str) (key : Str) : Option Str :=
  after key (past.acked ++ past.inFlight.toList) (base key)

theorem Past.truncate_inFlight (past : Past) (s : Snapshot) :
    (past.truncate s).inFlight = past.inFlight := by
  rw [truncate]
  split <;> rfl

theorem Past.truncate_value (past : Past) (s : Snapshot) {base : Str → Option Str} :
    (past.truncate s).value base = past.value base := by
  rw [truncate]
  split <;> rfl

/-- **The log can be read, and the latest snapshot with the log is a redo list that is good for what
was acknowledged.** -/
structure Recoverable (base : Str → Option Str) (world : World) (past : Past) : Prop where
  wal : world.wal = utf8 (walText (past.logged.map Prod.fst))
  redo : ∃ entries, loadLatestSnapshot world.snapshots = some entries ∧
    Redoes (puts entries ++ accepted past.logged) world.db (past.value base)

namespace Recoverable

variable {base : Str → Option Str} {world : World} {past : Past}

theorem fresh (base : Str → Option Str) : Recoverable base { db := { synced := base } } {} :=
  ⟨rfl, [], rfl, Redoes.nil base⟩

theorem recovery_eq (h : Recoverable base world past) {entries : List (Str × Str)}
    (hload : loadLatestSnapshot world.snapshots = some entries) :
    recovery world =
      (entries.map (fun e => .put e.1 e.2 false) ++ past.logged.map Prod.fst, true) := by
  rw [recovery, hload, h.wal]
  simp only [readLines_walText]

theorem log_rejected (h : Recoverable base world past) (op : Operation) :
    Recoverable base (world.log op) (past.log op false) := by
  obtain ⟨entries, hload, hredo⟩ := h.redo
  refine ⟨?_, entries, hload, ?_⟩
  · rw [World.log, Past.log, h.wal, List.map_append, List.map_singleton, walText_concat,
      utf8_append]
  · rw [Past.log, accepted_concat_rejected]
    exact hredo

/-- **An operation enters the redo list before it reaches the database.** -/
theorem log (h : Recoverable base world past) {op : Operation} {past' : Past}
    (hlogged : past'.logged = past.logged ++ [(op, true)])
    (hvalue : past'.acked ++ past'.inFlight.toList =
      past.acked ++ past.inFlight.toList ++ [op.write]) :
    Recoverable base (world.log op) past' := by
  obtain ⟨entries, hload, hredo⟩ := h.redo
  refine ⟨?_, entries, hload, ?_⟩
  · rw [World.log, hlogged, h.wal, List.map_append, List.map_singleton, walText_concat, utf8_append]
  · have hvalue' : past'.value base =
        fun key => if op.write.key = key then op.write.value? else past.value base key := by
      funext key
      rw [Past.value, hvalue, after_concat]
      rfl
    rw [hlogged, accepted_concat, ← List.append_assoc, hvalue']
    exact hredo.log op.write

theorem write (h : Recoverable base world past) {op : Operation}
    (hop : (op, true) ∈ past.logged) (sync : Bool) :
    Recoverable base { world with db := world.db.write op.write sync } past := by
  obtain ⟨entries, hload, hredo⟩ := h.redo
  have hmem : op.write ∈ accepted past.logged :=
    List.mem_map.2 ⟨(op, true), List.mem_filter.2 ⟨hop, rfl⟩, rfl⟩
  exact ⟨h.wal, entries, hload,
    hredo.rewrite ⟨op.write, List.mem_append_right _ hmem, rfl⟩ sync⟩

theorem crash (h : Recoverable base world past) {kept : List (Write Str Str)}
    (hkept : ∀ w ∈ kept, w ∈ world.db.unsynced) :
    Recoverable base { world with db := world.db.crash kept } past := by
  obtain ⟨entries, hload, hredo⟩ := h.redo
  exact ⟨h.wal, entries, hload, hredo.crash hkept⟩

theorem caught (h : Recoverable base world past) (s : Snapshot) :
    Recoverable base (Storage.caught world s) past := by
  obtain ⟨entries, hload, hredo⟩ := h.redo
  exact ⟨h.wal, entries, (loadLatestSnapshot_delete_tempName s.now world.snapshots).trans hload,
    hredo⟩

/-- **A snapshot may take the place of the log.** -/
theorem takeSnapshot (h : Recoverable base world past)
    (hvalue : ∀ key, world.db.get key = past.value base key) {s : Snapshot}
    (hsafe : s.Safe world past) :
    Recoverable base (Storage.takeSnapshot world s) (past.truncate s) := by
  obtain ⟨entries, hload, hredo⟩ := h.redo
  have hpast : (past.truncate s).value base = past.value base := past.truncate_value s
  have hfiles : loadLatestSnapshot (Storage.takeSnapshot world s).snapshots =
      if s.stage.isRenamed then some (s.entries world)
      else loadLatestSnapshot world.snapshots := loadLatestSnapshot_filesAt fun hr => (hsafe hr).1
  constructor
  · rw [Storage.takeSnapshot, Past.truncate]
    split
    · rfl
    · exact h.wal
  · rw [hpast]
    cases hr : s.stage.isRenamed with
    | false =>
        have htruncated : s.stage.isTruncated = false := by
          cases hs : s.stage with
          | truncated n =>
              rw [hs] at hr
              cases hr
          | _ => rfl
        have hlogged : past.truncate s = past := by
          rw [Past.truncate, htruncated]
          rfl
        rw [hr] at hfiles
        rw [hlogged]
        exact ⟨entries, hfiles.trans hload, hredo⟩
    | true =>
        rw [hr] at hfiles
        refine ⟨s.entries world, hfiles, ?_⟩
        have hentries : ∀ w ∈ puts (s.entries world), w.value? = past.value base w.key := by
          intro w hw
          obtain ⟨e, he, rfl⟩ := List.mem_map.1 hw
          obtain ⟨key, -, hkey⟩ := List.mem_filterMap.1 he
          obtain ⟨v, hv, rfl⟩ := Option.map_eq_some_iff.1 hkey
          exact hv.symm.trans (hvalue key)
        have hcovered := (hsafe hr).2
        rw [Past.truncate] at hcovered ⊢
        cases ht : s.stage.isTruncated with
        | true =>
            rw [ht] at hcovered
            rw [← List.append_nil (puts entries ++ _)] at hredo
            exact hredo.checkpoint hvalue hentries hcovered
        | false =>
            rw [ht] at hcovered
            exact hredo.checkpoint hvalue hentries hcovered

theorem applyAll (h : Recoverable base world past) (hsuperseded : Superseded past.logged)
    (n : ℕ) (accepted : List Bool) :
    Recoverable base
      { world with db := Storage.applyAll world.db ((recovery world).1.take n) accepted } past := by
  obtain ⟨entries, hload, hredo⟩ := h.redo
  obtain ⟨done, hdone, heq⟩ :=
    exists_applyAll world.db ((recovery world).1.take n) accepted
  refine ⟨h.wal, entries, hload, ?_⟩
  rw [heq]
  refine hredo.rewrites fun e he => ?_
  obtain ⟨op, hop, rfl⟩ := List.mem_map.1 he
  have hmem := List.mem_of_mem_take (hdone op hop)
  rw [h.recovery_eq hload] at hmem
  rcases List.mem_append.1 hmem with hmem | hmem
  · obtain ⟨e, hentry, rfl⟩ := List.mem_map.1 hmem
    exact ⟨.put e.1 e.2, List.mem_append_left _ (List.mem_map.2 ⟨e, hentry, rfl⟩), rfl⟩
  · obtain ⟨e, hentry, rfl⟩ := List.mem_map.1 hmem
    obtain ⟨w, hw, hkey⟩ := hsuperseded.exists_accepted hentry
    exact ⟨w, List.mem_append_right _ hw, hkey⟩

/-- **What was acknowledged is recovered.** -/
theorem recover (h : Recoverable base world past) (hsuperseded : Superseded past.logged)
    {accepted : List Bool} (haccepted : ∀ ok ∈ accepted, ok = true) :
    (recovery world).2 = true ∧
      ∀ key, (Storage.applyAll world.db (recovery world).1 accepted).get key =
        past.value base key := by
  obtain ⟨entries, hload, hredo⟩ := h.redo
  rw [h.recovery_eq hload]
  refine ⟨rfl, fun key => ?_⟩
  rw [applyAll_of_accepted haccepted]
  refine hredo.get_writeAll (fun key old => ?_) key
  have hwrites : (Storage.entries (entries.map (fun e => .put e.1 e.2 false) ++
      past.logged.map Prod.fst)).map Prod.fst =
      puts entries ++ past.logged.map fun e => e.1.write := by
    simp [Storage.entries, puts, Operation.write, Function.comp_def]
  rw [hwrites, after_append, after_append, hsuperseded.after]

end Recoverable

/-! ### Runs -/

variable {base : Str → Option Str} {interval : ℕ}

/-- What every safe step keeps. -/
def Invariant (base : Str → Option Str) : State → Prop
  | .running world past _ =>
      past.inFlight = none ∧ Recoverable base world past ∧
        ∀ key, world.db.get key = past.value base key
  | .down world past => Recoverable base world past
  | .failed => False

theorem Invariant.durable {s : State} (h : Invariant base s) : Durable base s := by
  cases s with
  | running world past count =>
      obtain ⟨hnone, -, hvalue⟩ := h
      intro key
      rw [hvalue key, Past.value, hnone, Option.toList_none, List.append_nil]
  | down world past => trivial
  | failed => exact h

theorem Snapshot.Safe.congr {world : World} {past past' : Past} {s : Snapshot}
    (h : s.Safe world past) (hlogged : past'.logged = past.logged) : s.Safe world past' := by
  intro hr
  obtain ⟨hlast, hcovered⟩ := h hr
  have htruncate : (past'.truncate s).logged = (past.truncate s).logged := by
    rw [Past.truncate, Past.truncate]
    split
    · rfl
    · exact hlogged
  exact ⟨hlast, htruncate ▸ hcovered⟩

theorem Recoverable.process {world : World} {past past' : Past} (h : Recoverable base world past)
    (hvalue : ∀ key, world.db.get key = past.value base key) {op : Operation}
    (hlogged : past'.logged = past.logged ++ [(op, true)])
    (hacked : past'.acked ++ past'.inFlight.toList =
      past.acked ++ past.inFlight.toList ++ [op.write]) :
    Recoverable base (world.process op) past' ∧
      ∀ key, (world.process op).db.get key = past'.value base key := by
  have hlog := h.log hlogged hacked
  have hmem : (op, true) ∈ past'.logged := hlogged ▸ List.mem_append_right _ List.mem_cons_self
  refine ⟨hlog.write hmem op.sync, fun key => ?_⟩
  rw [World.process, Operation.apply, Disk.get_write, hvalue key, Past.value, Past.value, hacked,
    after_concat]

theorem Past.acknowledge_acked {past : Past} (hnone : past.inFlight = none) (op : Operation) :
    (past.acknowledge op).acked ++ (past.acknowledge op).inFlight.toList =
      past.acked ++ past.inFlight.toList ++ [op.write] := by
  simp [acknowledge, log, hnone]

theorem Past.interrupt_acked {past : Past} (hnone : past.inFlight = none) (op : Operation) :
    (past.interrupt op).acked ++ (past.interrupt op).inFlight.toList =
      past.acked ++ past.inFlight.toList ++ [op.write] := by
  simp [interrupt, log, hnone]

theorem Recoverable.crashLog {world : World} {past : Past} (h : Recoverable base world past)
    (hnone : past.inFlight = none) {op : Operation} {bytes : ℕ} {kept : List (Write Str Str)}
    (hbytes : bytes = 0 ∨ (utf8 (walEntry op)).length ≤ bytes)
    (hkept : kept.Sublist (if decide ((utf8 (walEntry op)).length ≤ bytes) then
      world.db.unsynced ++ [op.write] else world.db.unsynced)) :
    Recoverable base
      { world with
        wal := world.wal ++ (utf8 (walEntry op)).take bytes, db := world.db.crash kept }
      (if decide ((utf8 (walEntry op)).length ≤ bytes) then past.interrupt op else past) := by
  by_cases hwhole : (utf8 (walEntry op)).length ≤ bytes
  · -- the operation may have reached the database, where it is not yet synced
    have hlog := h.log rfl (Past.interrupt_acked hnone op)
    have hmem : (op, true) ∈ (past.interrupt op).logged :=
      List.mem_append_right _ List.mem_cons_self
    rw [decide_eq_true hwhole, if_pos rfl] at hkept
    rw [decide_eq_true hwhole, if_pos rfl, List.take_of_length_le hwhole]
    exact (hlog.write hmem false).crash fun w hw => hkept.subset hw
  · rcases hbytes with rfl | hbytes
    · rw [decide_eq_false hwhole, if_neg Bool.false_ne_true] at hkept
      rw [decide_eq_false hwhole, if_neg Bool.false_ne_true, List.take_zero, List.append_nil]
      exact h.crash fun w hw => hkept.subset hw
    · exact absurd hbytes hwhole

/-- **One safe step.** -/
theorem Invariant.step {s s' : State} {e : Event} (h : Invariant base s) (hsafe : Safe interval s e)
    (hstep : Storage.step interval s e = some s') : Invariant base s' := by
  cases s with
  | failed => exact h.elim
  | down world past =>
      cases e with
      | init accepted healthy =>
          obtain ⟨haccepted, hhealthy, hsuperseded⟩ := hsafe
          obtain ⟨hreadable, hget⟩ := Recoverable.recover h hsuperseded haccepted
          have hall := Recoverable.applyAll h hsuperseded (recovery world).1.length accepted
          rw [List.take_length] at hall
          simp only [Storage.step, hreadable, hhealthy, Bool.and_self, if_true,
            Option.some.injEq] at hstep
          cases hstep
          have hvalue : (past.reopen).value base = past.value base := by
            funext key
            simp [Past.value, Past.reopen]
          obtain ⟨entries, hload, hredo⟩ := hall.redo
          exact ⟨rfl, ⟨hall.wal, entries, hload, hvalue ▸ hredo⟩,
            fun key => (hget key).trans (congrFun hvalue key).symm⟩
      | crashInit done accepted kept =>
          obtain ⟨hkept, heq⟩ := Option.ite_none_right_eq_some.1 hstep
          cases heq
          exact (Recoverable.applyAll h hsafe done accepted).crash fun w hw => hkept.subset hw
      | _ => cases hstep
  | running world past count =>
      obtain ⟨hnone, hrec, hvalue⟩ := h
      cases e with
      | process op ok snapshot =>
          cases ok with
          | false =>
              cases hstep
              exact ⟨hnone, hrec.log_rejected op, hvalue⟩
          | true =>
              obtain ⟨hrec', hvalue'⟩ := hrec.process hvalue rfl (Past.acknowledge_acked hnone op)
              simp only [Storage.step] at hstep
              split at hstep
              · rename_i hinterval
                cases hstep
                have hsnapshot := hrec'.takeSnapshot hvalue' ((hsafe hinterval).congr rfl)
                refine ⟨?_, hsnapshot.caught snapshot, fun key => ?_⟩
                · exact (Past.truncate_inFlight _ snapshot).trans hnone
                · rw [Past.truncate_value]
                  exact hvalue' key
              · cases hstep
                exact ⟨hnone, hrec', hvalue'⟩
      | crash kept =>
          obtain ⟨hkept, heq⟩ := Option.ite_none_right_eq_some.1 hstep
          cases heq
          exact hrec.crash fun w hw => hkept.subset hw
      | crashLog op bytes kept =>
          obtain ⟨hkept, heq⟩ := Option.ite_none_right_eq_some.1 hstep
          cases heq
          exact hrec.crashLog hnone hsafe hkept
      | crashSnapshot op snapshot kept =>
          obtain ⟨⟨-, hkept⟩, heq⟩ := Option.ite_none_right_eq_some.1 hstep
          cases heq
          obtain ⟨hrec', hvalue'⟩ := hrec.process hvalue rfl (Past.interrupt_acked hnone op)
          have hsnapshot := hrec'.takeSnapshot hvalue' (hsafe.congr rfl)
          exact hsnapshot.crash fun w hw => hkept.subset hw
      | _ => cases hstep

/-- **In a run of safe steps the storage always has what was acknowledged**: every start succeeds,
and from then on every key holds what the last acknowledged operation on it left there, where the
operation in flight at a crash counts as acknowledged unless its line was lost. -/
theorem durable_of_safe (interval : ℕ) (base : Str → Option Str) (events : List Event)
    (hsafe : EveryStep (step interval) (fun s e _ => Safe interval s e) (fresh base) events) :
    EveryStep (step interval) (fun _ _ s' => Durable base s') (fresh base) events := by
  have hstart : Invariant base (fresh base) := Recoverable.fresh base
  have hstep : ∀ s e s', Invariant base s → Safe interval s e → step interval s e = some s' →
      Invariant base s' ∧ Durable base s' := fun _ _ _ h hs hnext =>
    have h' := h.step hs hnext
    ⟨h', h'.durable⟩
  exact EveryStep.of_invariant hstep hstart hsafe

/-! ### A rejected operation that comes back -/

def sampleKey : Str := "balance".toList

def samplePut : Operation := .put sampleKey "7".toList true

/-- The database rejects the operation, and the storage is opened again. -/
def rejectedEvents : List Event :=
  [.init [] true, .process samplePut false ⟨0, [], .started⟩, .crash [], .init [] true]

theorem not_durable :
    ¬ ∀ (interval : ℕ) (base : Str → Option Str) (events : List Event),
      EveryStep (step interval) (fun _ _ s' => Durable base s') (fresh base) events := by
  intro h
  have hrun : ((run (step 5000) (fresh fun _ => none) rejectedEvents).map fun s =>
      match s with
      | .running world past _ => decide (world.db.get sampleKey ≠ none ∧ past.acked = [])
      | _ => false) = some true := by decide +kernel
  obtain ⟨s, hs, hlost⟩ := Option.map_eq_some_iff.1 hrun
  have hstart : Durable (fun _ => none) (fresh fun _ => none) := trivial
  have hdurable : Durable (fun _ => none) s :=
    run_induction (I := Durable fun _ => none) (P := fun _ _ s' => Durable (fun _ => none) s')
      (fun _ _ _ _ hnext _ => hnext) hstart (h 5000 _ rejectedEvents) hs
  cases s with
  | running world past count =>
      obtain ⟨hget, hacked⟩ := of_decide_eq_true hlost
      rw [hdurable sampleKey, hacked] at hget
      exact hget rfl
  | _ => cases hlost

def sampleEvents : List Event :=
  [.init [] true, .process samplePut true ⟨0, [], .started⟩,
    .process (.put "nonce".toList "1".toList false) true
      ⟨17, [sampleKey, "nonce".toList], .truncated 0⟩,
    .process (.del "nonce".toList false) true ⟨0, [], .started⟩, .crashLog samplePut 0 [],
    .crashInit 1 [] [], .init [] true]

theorem durable_of_safe_sampleEvents :
    EveryStep (step 2) (fun _ _ s' => Durable (fun _ => none) s') (fresh fun _ => none)
      sampleEvents :=
  durable_of_safe 2 _ sampleEvents (by decide +kernel)

end Storage
