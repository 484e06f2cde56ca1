/-
**How a block goes on.**

A call that waits has staged the front of what its block has to be visited, and what it has staged
for an input has the address of the record that it read.  Whenever it goes on, this stays true, as
long as no one else changes the records of what the block touches.

Main definitions:

* `UtxoSet.Pending`, `UtxoSet.Applying` — calls before and after their batch was taken;
* `UtxoSet.Advanced` — what a call is after it went on.

Main results:

* `UtxoSet.advanced_advance`, `UtxoSet.advanced_resumeRead` — a call goes on until it waits;
* `UtxoSet.get?_batch_of_mem`, `UtxoSet.get?_batch_of_forall_ne` — **what a batch does to the
  records**.
-/

import MedorCoin.Utxo.Calls

set_option autoImplicit false

namespace UtxoSet

open Js Ledger

/-! ### Batches -/

theorem get?_writeBatch (db : Database) (ops : List (Write Str Str)) (key : Str) :
    (writeBatch db ops).get? key = after key ops (db.get? key) := by
  induction ops generalizing db with
  | nil => rfl
  | cons w ops ih =>
      rw [writeBatch, List.foldl_cons, ← writeBatch, ih, after_cons]
      congr 1
      cases w with
      | put k v => exact Map.get?_set db k key v
      | delete k => exact Map.get?_delete db k key

/-! ### What a block touches -/

def Task.outpoint : Task → Outpoint
  | spend o => o
  | create o _ => o

theorem mem_touched {block : Block} {o : Outpoint} :
    o ∈ block.touched ↔ ∃ task ∈ block.tasks, task.outpoint = o := by
  rw [Block.touched, List.mem_append, Block.spends, List.mem_filterMap, List.mem_map]
  constructor
  · rintro (⟨task, htask, hspent⟩ | ⟨⟨o', utxo⟩, hcreate, rfl⟩)
    · refine ⟨task, htask, ?_⟩
      cases task with
      | spend o' => exact Option.some.inj hspent
      | create o' utxo => cases hspent
    · obtain ⟨task, htask, hcreated⟩ := List.mem_filterMap.1 hcreate
      refine ⟨task, htask, ?_⟩
      cases task with
      | spend o' => cases hcreated
      | create o' utxo => exact congrArg Prod.fst (Option.some.inj hcreated)
  · rintro ⟨task, htask, rfl⟩
    cases task with
    | spend o => exact Or.inl ⟨_, htask, rfl⟩
    | create o utxo => exact Or.inr ⟨(o, utxo), List.mem_filterMap.2 ⟨_, htask, rfl⟩, rfl⟩

theorem mem_spends {block : Block} {o : Outpoint} :
    o ∈ block.spends ↔ Task.spend o ∈ block.tasks := by
  rw [Block.spends, List.mem_filterMap]
  constructor
  · rintro ⟨task, htask, hspent⟩
    cases task with
    | spend o' => exact Option.some.inj hspent ▸ htask
    | create o' utxo => cases hspent
  · exact fun h => ⟨_, h, rfl⟩

theorem mem_creates {block : Block} {o : Outpoint} {utxo : Utxo} :
    (o, utxo) ∈ block.creates ↔ Task.create o utxo ∈ block.tasks := by
  rw [Block.creates, List.mem_filterMap]
  constructor
  · rintro ⟨task, htask, hcreated⟩
    cases task with
    | spend o' => cases hcreated
    | create o' utxo' =>
        cases hcreated
        exact htask
  · exact fun h => ⟨_, h, rfl⟩

theorem spends_subset_touched {block : Block} {o : Outpoint} (h : o ∈ block.spends) :
    o ∈ block.touched := List.mem_append_left _ h

theorem creates_subset_touched {block : Block} {output : Outpoint × Utxo}
    (h : output ∈ block.creates) : output.1 ∈ block.touched :=
  List.mem_append_right _ (List.mem_map_of_mem h)

/-- The outpoints of a list of visits are distinct if those it spends are, those it files are, and
none is both. -/
theorem nodup_outpoint {tasks : List Task} (hspends : (tasks.filterMap Task.spent?).Nodup)
    (hcreates : ((tasks.filterMap Task.created?).map Prod.fst).Nodup)
    (hapart : ∀ o ∈ tasks.filterMap Task.spent?,
      o ∉ (tasks.filterMap Task.created?).map Prod.fst) : (tasks.map Task.outpoint).Nodup := by
  induction tasks with
  | nil => exact List.nodup_nil
  | cons task tasks ih =>
      have hmem : ∀ o ∈ tasks.map Task.outpoint, o ∈ tasks.filterMap Task.spent? ∨
          o ∈ (tasks.filterMap Task.created?).map Prod.fst := by
        intro o ho
        obtain ⟨task', htask', rfl⟩ := List.mem_map.1 ho
        cases task' with
        | spend o => exact Or.inl (List.mem_filterMap.2 ⟨_, htask', rfl⟩)
        | create o utxo =>
            exact Or.inr (List.mem_map.2 ⟨(o, utxo), List.mem_filterMap.2 ⟨_, htask', rfl⟩, rfl⟩)
      rw [List.map_cons, List.nodup_cons]
      cases task with
      | spend o =>
          have hfront : (Task.spend o :: tasks).filterMap Task.spent? =
              o :: tasks.filterMap Task.spent? := rfl
          rw [hfront] at hspends hapart
          rw [List.filterMap_cons_none rfl] at hcreates hapart
          obtain ⟨hnew, hspends⟩ := List.nodup_cons.1 hspends
          refine ⟨fun ho => ?_, ih hspends hcreates fun o' ho' =>
            hapart o' (List.mem_cons_of_mem _ ho')⟩
          rcases hmem o ho with ho | ho
          · exact hnew ho
          · exact hapart o List.mem_cons_self ho
      | create o utxo =>
          rw [List.filterMap_cons_none rfl] at hspends hapart
          have hfront : ((Task.create o utxo :: tasks).filterMap Task.created?).map Prod.fst =
              o :: (tasks.filterMap Task.created?).map Prod.fst := rfl
          rw [hfront] at hcreates hapart
          obtain ⟨hnew, hcreates⟩ := List.nodup_cons.1 hcreates
          refine ⟨fun ho => ?_, ih hspends hcreates fun o' ho' hin =>
            hapart o' ho' (List.mem_cons_of_mem _ hin)⟩
          rcases hmem o ho with ho | ho
          · exact hapart o ho List.mem_cons_self
          · exact hnew ho

/-! ### Calls -/

theorem Change.outpoint_task (change : Change) : change.task.outpoint.uKey = change.key := by
  cases change <;> rfl

/-- A call before its batch was taken: it has staged the front of what there is to be visited, with
the addresses that the records have. -/
structure Pending (db : Database) (call : Call) : Prop where
  tasks : call.staged.map Change.task ++ call.tasks = call.block.tasks
  staged : ∀ o address, Change.spend o address ∈ call.staged →
    ∃ raw, db.get? o.uKey = some raw ∧ recordAddress? raw = address
  read : ∀ raw o tasks, call.phase = .read (some raw) → call.tasks = .spend o :: tasks →
    db.get? o.uKey = some raw
  writing : call.phase = .writing → call.tasks = []

/-- A call after its batch was taken and before the caches are changed. -/
structure Applying (s : State) (call : Call) : Prop where
  tasks : call.staged.map Change.task = call.block.tasks
  nodup : (call.staged.map Change.key).Nodup
  made : ∀ change ∈ call.staged,
    s.db.get? change.key = change.record.value? ∧ s.caches.Fits change

theorem Pending.congr {db db' : Database} {call : Call} (h : Pending db call)
    (hdb : ∀ o ∈ call.block.touched, db'.get? o.uKey = db.get? o.uKey) : Pending db' call := by
  have htouched : ∀ task ∈ call.block.tasks, db'.get? task.outpoint.uKey =
      db.get? task.outpoint.uKey := fun task htask => hdb _ (mem_touched.2 ⟨task, htask, rfl⟩)
  refine ⟨h.tasks, fun o address hmem => ?_, fun raw o tasks hphase htasks => ?_, h.writing⟩
  · have htask : Task.spend o ∈ call.block.tasks :=
      h.tasks ▸ List.mem_append_left _ (List.mem_map.2 ⟨_, hmem, rfl⟩)
    obtain ⟨raw, hraw, haddress⟩ := h.staged o address hmem
    exact ⟨raw, (htouched _ htask).trans hraw, haddress⟩
  · have htask : Task.spend o ∈ call.block.tasks := by
      rw [← h.tasks, htasks]
      exact List.mem_append_right _ List.mem_cons_self
    exact (htouched _ htask).trans (h.read raw o tasks hphase htasks)

theorem Applying.congr {s s' : State} {call : Call} (h : Applying s call)
    (hdb : ∀ o ∈ call.block.touched, s'.db.get? o.uKey = s.db.get? o.uKey)
    (hcaches : ∀ o ∈ call.block.touched,
      s'.caches.cacheShards.get o.uKey = s.caches.cacheShards.get o.uKey) : Applying s' call := by
  refine ⟨h.tasks, h.nodup, fun change hmem => ?_⟩
  have htask : change.task ∈ call.block.tasks := h.tasks ▸ List.mem_map_of_mem hmem
  have htouched : change.task.outpoint ∈ call.block.touched := mem_touched.2 ⟨_, htask, rfl⟩
  obtain ⟨hrecord, hfits⟩ := h.made change hmem
  have hkey := change.outpoint_task
  exact ⟨(hkey ▸ hdb _ htouched).trans hrecord, hfits.congr (hkey ▸ hcaches _ htouched)⟩

theorem spendUtxo?_eq {height : ℤ} {o : Outpoint} {utxo : Json} {change : Change}
    (h : spendUtxo? height o utxo = some change) : change = .spend o (address? utxo) := by
  unfold spendUtxo? at h
  split at h
  · cases h
  · split at h
    · split at h
      · cases h
      · split at h
        · cases h
        · exact (Option.some.inj h).symm
    · exact (Option.some.inj h).symm

/-- What a call is after it went on. -/
structure Advanced (db : Database) (block : Block) (call : Call) : Prop where
  block_eq : call.block = block
  wrote : call.wrote = false
  applying : call.applying = false
  not_done : call.phase ≠ .done true
  pending : call.inFlight = true → Pending db call

theorem advanced_advance {db : Database} {caches : Caches} {block : Block}
    (hcached : ∀ o ∈ block.spends, ∀ utxo, caches.cacheShards.get o.uKey = some utxo →
      db.get? o.uKey = some utxo.text) {tasks : List Task} {staged : List Change}
    (htasks : staged.map Change.task ++ tasks = block.tasks)
    (hstaged : ∀ o address, Change.spend o address ∈ staged →
      ∃ raw, db.get? o.uKey = some raw ∧ recordAddress? raw = address) :
    Advanced db block (advance caches block tasks staged) := by
  induction tasks generalizing staged with
  | nil =>
      rw [advance]
      exact ⟨rfl, rfl, rfl, nofun, fun _ => ⟨htasks, hstaged, nofun, fun _ => rfl⟩⟩
  | cons task tasks ih =>
      cases task with
      | create o utxo =>
          rw [advance]
          refine ih (by rw [List.map_append, List.append_assoc]; exact htasks) ?_
          intro o' address hmem
          rcases List.mem_append.1 hmem with hmem | hmem
          · exact hstaged o' address hmem
          · cases List.mem_singleton.1 hmem
      | spend o =>
          have ho : o ∈ block.spends :=
            mem_spends.2 (htasks ▸ List.mem_append_right _ List.mem_cons_self)
          rw [advance]
          cases hget : caches.cacheShards.get o.uKey with
          | none => exact ⟨rfl, rfl, rfl, nofun, fun _ => ⟨htasks, hstaged, nofun, nofun⟩⟩
          | some utxo =>
              cases hspend : spendUtxo? block.height o utxo.toJson with
              | none =>
                  simp only [hspend]
                  exact ⟨rfl, rfl, rfl, nofun, nofun⟩
              | some change =>
                  have hchange := spendUtxo?_eq hspend
                  simp only [hspend]
                  subst hchange
                  refine ih (by rw [List.map_append, List.append_assoc]; exact htasks) ?_
                  intro o' address hmem
                  rcases List.mem_append.1 hmem with hmem | hmem
                  · exact hstaged o' address hmem
                  · cases List.mem_singleton.1 hmem
                    exact ⟨utxo.text, hcached o ho utxo hget, utxo.recordAddress?_text⟩

theorem advanced_resumeRead {db : Database} {caches : Caches} {call : Call} {raw : Option Str}
    (hcached : ∀ o ∈ call.block.spends, ∀ utxo, caches.cacheShards.get o.uKey = some utxo →
      db.get? o.uKey = some utxo.text)
    (h : Pending db call) (hphase : call.phase = .read raw) (hwrote : call.wrote = false) :
    Advanced db call.block (resumeRead caches call raw) := by
  have hdone : Advanced db call.block { call with phase := .done false } :=
    ⟨rfl, hwrote, rfl, nofun, nofun⟩
  unfold resumeRead
  split
  · rename_i o tasks raw htasks
    split
    · exact hdone
    · cases hspend : (Json.parse raw).bind (spendUtxo? call.block.height o) with
      | none => exact hdone
      | some change =>
          obtain ⟨utxo, hparse, hchange⟩ := Option.bind_eq_some_iff.1 hspend
          have hchange := spendUtxo?_eq hchange
          subst hchange
          have hall := h.tasks
          rw [htasks] at hall
          have htasks' :
              (call.staged ++ [Change.spend o (address? utxo)]).map Change.task ++ tasks =
                call.block.tasks := by
            rw [List.map_append, List.append_assoc]
            exact hall
          refine advanced_advance hcached htasks' ?_
          intro o' address hmem
          rcases List.mem_append.1 hmem with hmem | hmem
          · exact h.staged o' address hmem
          · cases List.mem_singleton.1 hmem
            refine ⟨raw, h.read raw o tasks hphase htasks, ?_⟩
            rw [recordAddress?, hparse]
            rfl
  · exact hdone

/-! ### What a batch does to the records -/

theorem Change.isUtxoKey_key (change : Change) : isUtxoKey change.key := by
  cases change <;> rfl

theorem get?_batch_of_mem {staged : List Change} (hnodup : (staged.map Change.key).Nodup)
    {change : Change} (hmem : change ∈ staged) (db : Database) :
    (writeBatch db (batchOps staged)).get? change.key = change.record.value? := by
  have hkeys : (staged.map Change.record).map Write.key = staged.map Change.key := by
    rw [List.map_map]
    exact List.map_congr_left fun change _ => change.key_record
  rw [get?_writeBatch, after_batchOps change.isUtxoKey_key, ← change.key_record]
  exact after_of_nodup (hkeys ▸ hnodup) (List.mem_map_of_mem hmem) _

theorem get?_batch_of_forall_ne {staged : List Change} {key : Str} (hkey : isUtxoKey key)
    (hne : ∀ change ∈ staged, change.key ≠ key) (db : Database) :
    (writeBatch db (batchOps staged)).get? key = db.get? key := by
  rw [get?_writeBatch, after_batchOps hkey]
  refine after_of_forall_ne fun w hw => ?_
  obtain ⟨change, hmem, rfl⟩ := List.mem_map.1 hw
  exact change.key_record ▸ hne change hmem

theorem key_ne_of_not_mem_touched {call : Call}
    (htasks : call.staged.map Change.task = call.block.tasks) {o : Outpoint}
    (ho : o ∉ call.block.touched) : ∀ change ∈ call.staged, change.key ≠ o.uKey := by
  intro change hmem hkey
  have htask : change.task ∈ call.block.tasks := htasks ▸ List.mem_map_of_mem hmem
  have heq : change.task.outpoint = o :=
    Outpoint.uKey_injective (change.outpoint_task.trans hkey)
  exact ho (mem_touched.2 ⟨_, htask, heq⟩)

end UtxoSet
