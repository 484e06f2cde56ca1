/-
**What the JavaScript ledger keeps.**

Between two steps, an output is in the cache if and only if it is in the database, apart from the
outputs that a ledger found there when it was constructed, and from those that a block touches whose
batch was taken and which has not changed the caches yet.  Blocks in flight touch different
outpoints, so that what one of them has read stays true until its own batch is taken.

This fails where a block spends an outpoint twice or two blocks in flight spend the same, since both
read the database before either has its batch taken; where an output has a value that is not an
integer, since this is found out after the batch was taken; and for the outputs that were in the
database when the ledger was constructed, since these are never put into the caches.

Main definitions:

* `UtxoSet.Separate` — calls that have different outpoints;
* `UtxoSet.Inv` — **what every safe step keeps**.

Main results:

* `UtxoSet.Inv.commit`, `UtxoSet.Inv.apply` — the step that changes the database, and the one that
  changes the caches;
* `UtxoSet.Inv.getBalance` — **the balance is that of the database**;
* `UtxoSet.sound_of_safe` — **in a run of safe steps the ledger is sound in every step**.
-/

import MedorCoin.Transition.Tasks
import MedorCoin.Utxo.Progress

set_option autoImplicit false

namespace UtxoSet

open Js Ledger Transition

/-! ### The invariant -/

/-- What a block must have when it is applied. -/
structure Block.Valid (db₀ : Database) (block : Block) : Prop where
  spends : block.spends.Nodup
  creates : (block.creates.map Prod.fst).Nodup
  values : ∀ output ∈ block.creates, (bigInt? output.2.v).isSome
  addresses : ∀ o ∈ block.spends, ∀ raw ∈ db₀.get? o.uKey, (recordAddress? raw).isSome

/-- Different calls of a kind have different outpoints. -/
def Separate (kind : Call → Bool) (outpoints : Call → List Outpoint) (calls : List Call) : Prop :=
  ∀ (i j : ℕ) (call call' : Call), i ≠ j → calls[i]? = some call → calls[j]? = some call' →
    kind call = true → kind call' = true → ∀ o ∈ outpoints call, o ∉ outpoints call'

/-- **What every safe step keeps.** -/
structure Inv (db₀ : Database) (s : State) : Prop where
  indexed : s.caches.Indexed
  valued : s.caches.Valued
  /-- What is in the cache is in the database, unless its deletion is on its way. -/
  cached : ∀ key utxo, s.caches.cacheShards.get key = some utxo → isUtxoKey key = true ∧
    (s.db.get? key = some utxo.text ∨
      ∃ call ∈ s.calls, call.applying = true ∧ ∃ o ∈ call.block.spends, o.uKey = key)
  /-- What is in the database was there in the beginning, or is in the cache or on its way there. -/
  recorded : ∀ key raw, isUtxoKey key = true → s.db.get? key = some raw →
    db₀.get? key = some raw ∨ ∃ utxo, raw = utxo.text ∧
      (s.caches.cacheShards.get key = some utxo ∨
        ∃ call ∈ s.calls, call.applying = true ∧ ∃ output ∈ call.block.creates,
          output.1.uKey = key)
  valid : ∀ call ∈ s.calls, call.block.Valid db₀
  status : ∀ call ∈ s.calls, (call.phase = .done false → call.wrote = false) ∧
    (call.phase = .done true → call.wrote = true) ∧
    (call.inFlight = true → call.wrote = call.applying)
  pending : ∀ call ∈ s.calls, call.inFlight = true → call.wrote = false → Pending s.db call
  /-- What is to be filed is not there and was not spent. -/
  fresh : ∀ call ∈ s.calls, call.inFlight = true → call.wrote = false →
    ∀ output ∈ call.block.creates, s.db.get? output.1.uKey = none ∧
      ∀ call' ∈ s.calls, call'.wrote = true → output.1 ∉ call'.block.spends
  applying : ∀ call ∈ s.calls, call.applying = true → Applying s call
  spent : ∀ call ∈ s.calls, call.wrote = true → ∀ o ∈ call.block.spends, s.db.get? o.uKey = none
  once : Separate Call.wrote (fun call => call.block.spends) s.calls
  apart : Separate Call.inFlight (fun call => call.block.touched) s.calls

section Separate

variable {kind : Call → Bool} {outpoints : Call → List Outpoint} {calls : List Call} {i : ℕ}
  {call call' : Call}

theorem Separate.set (h : Separate kind outpoints calls)
    (hnew : kind call' = true → ∀ (j : ℕ) (other : Call), i ≠ j → calls[j]? = some other →
      kind other = true → ∀ o ∈ outpoints call', o ∉ outpoints other) :
    Separate kind outpoints (calls.set i call') := by
  intro j k other other' hjk hj hk hkind hkind'
  rcases getElem?_set_cases hj with ⟨hij, rfl⟩ | ⟨-, hj'⟩
  · rcases getElem?_set_cases hk with ⟨hik, -⟩ | ⟨hik, hk'⟩
    · exact absurd (hij.symm.trans hik) hjk
    · exact hnew hkind k other' hik hk' hkind'
  · rcases getElem?_set_cases hk with ⟨hik, rfl⟩ | ⟨-, hk'⟩
    · exact fun o ho ho' => hnew hkind' j other (hik ▸ Ne.symm hjk) hj' hkind o ho' ho
    · exact h j k other other' hjk hj' hk' hkind hkind'

theorem Separate.set_same (h : Separate kind outpoints calls) (hi : calls[i]? = some call)
    (hkind : kind call' = true → kind call = true) (hsame : outpoints call' = outpoints call) :
    Separate kind outpoints (calls.set i call') :=
  h.set fun hkind' j other hij hj hother => hsame ▸ h i j call other hij hi hj (hkind hkind') hother

theorem Separate.concat (h : Separate kind outpoints calls)
    (hnew : kind call = true → ∀ other ∈ calls, kind other = true →
      ∀ o ∈ outpoints call, o ∉ outpoints other) : Separate kind outpoints (calls ++ [call]) := by
  intro j k other other' hjk hj hk hkind hkind'
  rcases getElem?_concat.1 hj with hj' | ⟨hjn, rfl⟩
  · rcases getElem?_concat.1 hk with hk' | ⟨-, rfl⟩
    · exact h j k other other' hjk hj' hk' hkind hkind'
    · exact fun o ho ho' => hnew hkind' other (List.mem_of_getElem? hj') hkind o ho' ho
  · rcases getElem?_concat.1 hk with hk' | ⟨hkn, -⟩
    · exact hnew hkind other' (List.mem_of_getElem? hk') hkind'
    · exact absurd (hjn.trans hkn.symm) hjk

end Separate

theorem Call.inFlight_of_applying {call : Call} (h : call.applying = true) :
    call.inFlight = true := by
  have hphase : call.phase = .written true := of_decide_eq_true h
  rw [inFlight, hphase]

theorem Call.ne_of_applying {call other : Call} (h : call.applying = false)
    (hother : other.applying = true) : other ≠ call := by
  rintro rfl
  rw [h] at hother
  cases hother

namespace Inv

variable {db₀ : Database} {s : State} {i : ℕ} {call : Call}

theorem opened (db₀ : Database) : Inv db₀ (opened db₀) where
  indexed := Caches.indexed_empty
  valued _ _ h := nomatch h
  cached _ _ h := nomatch h
  recorded _ _ _ h := Or.inl h
  valid _ h := absurd h List.not_mem_nil
  status _ h := absurd h List.not_mem_nil
  pending _ h := absurd h List.not_mem_nil
  fresh _ h := absurd h List.not_mem_nil
  applying _ h := absurd h List.not_mem_nil
  spent _ h := absurd h List.not_mem_nil
  once _ _ _ _ _ h := nomatch h
  apart _ _ _ _ _ h := nomatch h

theorem get?_of_cached (h : Inv db₀ s) (hi : s.calls[i]? = some call)
    (hflight : call.inFlight = true) (happlying : call.applying = false) {o : Outpoint}
    (ho : o ∈ call.block.touched) {utxo : Utxo}
    (hget : s.caches.cacheShards.get o.uKey = some utxo) : s.db.get? o.uKey = some utxo.text := by
  rcases (h.cached _ _ hget).2 with hdb | ⟨call', hcall', happlying', o', ho', hkey⟩
  · exact hdb
  · obtain ⟨j, hj⟩ := List.mem_iff_getElem?.1 hcall'
    have hij : i ≠ j := by
      rintro rfl
      exact Call.ne_of_applying happlying happlying' (Option.some.inj (hj.symm.trans hi))
    have hsame : o' = o := Outpoint.uKey_injective hkey
    subst hsame
    exact absurd (spends_subset_touched ho') (h.apart i j call call' hij hi hj hflight
      (Call.inFlight_of_applying happlying') o' ho)

theorem set (h : Inv db₀ s) (hi : s.calls[i]? = some call) (hflight : call.inFlight = true)
    (hwrote : call.wrote = false) {call' : Call} (hnew : Advanced s.db call.block call') :
    Inv db₀ { s with calls := s.calls.set i call' } := by
  have hmem : call ∈ s.calls := List.mem_of_getElem? hi
  have happlying : call.applying = false := ((h.status call hmem).2.2 hflight).symm.trans hwrote
  have hkept : ∀ other ∈ s.calls, other.applying = true → other ∈ s.calls.set i call' :=
    fun other hother hother' => mem_set_of_ne hi hother (Call.ne_of_applying happlying hother')
  have hold : ∀ other ∈ s.calls.set i call', other = call' ∨ other ∈ s.calls := fun other hother =>
    (mem_set_cases hother).imp id fun ⟨_, _, hj⟩ => List.mem_of_getElem? hj
  have hwrote' : ∀ other ∈ s.calls.set i call', other.wrote = true → other ∈ s.calls := by
    intro other hother hother'
    rcases hold other hother with rfl | hother
    · rw [hnew.wrote] at hother'
      cases hother'
    · exact hother
  refine ⟨h.indexed, h.valued, fun key utxo hget => ?_, fun key raw hkey hget => ?_,
    fun other hother => ?_, fun other hother => ?_, fun other hother hflight' hw => ?_,
    fun other hother hflight' hw output houtput => ?_, fun other hother happlying' => ?_,
    fun other hother hw => h.spent other (hwrote' other hother hw) hw,
    h.once.set fun hw => ?_, h.apart.set_same hi (fun _ => hflight) ?_⟩
  · refine (h.cached key utxo hget).imp id fun hor => hor.imp id ?_
    rintro ⟨other, hother, happlying', ho⟩
    exact ⟨other, hkept other hother happlying', happlying', ho⟩
  · refine (h.recorded key raw hkey hget).imp id ?_
    rintro ⟨utxo, hraw, hor⟩
    refine ⟨utxo, hraw, hor.imp id ?_⟩
    rintro ⟨other, hother, happlying', ho⟩
    exact ⟨other, hkept other hother happlying', happlying', ho⟩
  · rcases hold other hother with rfl | hother
    · rw [hnew.block_eq]
      exact h.valid call hmem
    · exact h.valid other hother
  · rcases hold other hother with rfl | hother
    · exact ⟨fun _ => hnew.wrote, fun hdone => absurd hdone hnew.not_done,
        fun _ => hnew.wrote.trans hnew.applying.symm⟩
    · exact h.status other hother
  · rcases hold other hother with rfl | hother
    · exact hnew.pending hflight'
    · exact h.pending other hother hflight' hw
  · have hfresh : s.db.get? output.1.uKey = none ∧
        ∀ other' ∈ s.calls, other'.wrote = true → output.1 ∉ other'.block.spends := by
      rcases hold other hother with rfl | hother
      · rw [hnew.block_eq] at houtput
        exact h.fresh call hmem hflight hwrote output houtput
      · exact h.fresh other hother hflight' hw output houtput
    exact ⟨hfresh.1, fun other' hother' hw' => hfresh.2 other' (hwrote' other' hother' hw') hw'⟩
  · rcases hold other hother with rfl | hother
    · rw [hnew.applying] at happlying'
      cases happlying'
    · have hother' := h.applying other hother happlying'
      exact ⟨hother'.tasks, hother'.nodup, hother'.made⟩
  · rw [hnew.wrote] at hw
    cases hw
  · rw [hnew.block_eq]

/-- A call that is started, before it goes anywhere. -/
def begun (block : Block) : Call := { block, tasks := block.tasks, phase := .reading }

theorem add (h : Inv db₀ s) {block : Block} (hsafe : Safe db₀ s (.start block)) :
    Inv db₀ { s with calls := s.calls ++ [begun block] } := by
  obtain ⟨hspends, hcreates, houtputs, hdisjoint, haddresses⟩ := hsafe
  have hold : ∀ other ∈ s.calls ++ [begun block], other = begun block ∨ other ∈ s.calls := by
    intro other hother
    rcases List.mem_append.1 hother with hother | hother
    · exact Or.inr hother
    · exact Or.inl (List.mem_singleton.1 hother)
  have hwrote' : ∀ other ∈ s.calls ++ [begun block], other.wrote = true → other ∈ s.calls := by
    intro other hother hother'
    rcases hold other hother with rfl | hother
    · cases hother'
    · exact hother
  refine ⟨h.indexed, h.valued, fun key utxo hcached => ?_, fun key raw hkey hraw => ?_,
    fun other hother => ?_, fun other hother => ?_, fun other hother hflight hw => ?_,
    fun other hother hflight hw output houtput => ?_, fun other hother happlying => ?_,
    fun other hother hw => h.spent other (hwrote' other hother hw) hw, h.once.concat nofun,
    h.apart.concat fun _ => hdisjoint⟩
  · refine (h.cached key utxo hcached).imp id fun hor => hor.imp id ?_
    rintro ⟨other, hother, hrest⟩
    exact ⟨other, List.mem_append_left _ hother, hrest⟩
  · refine (h.recorded key raw hkey hraw).imp id ?_
    rintro ⟨utxo, heq, hor⟩
    refine ⟨utxo, heq, hor.imp id ?_⟩
    rintro ⟨other, hother, hrest⟩
    exact ⟨other, List.mem_append_left _ hother, hrest⟩
  · rcases hold other hother with rfl | hother
    · exact ⟨hspends, hcreates, fun output houtput => (houtputs output houtput).2.1, haddresses⟩
    · exact h.valid other hother
  · rcases hold other hother with rfl | hother
    · exact ⟨nofun, nofun, fun _ => rfl⟩
    · exact h.status other hother
  · rcases hold other hother with rfl | hother
    · exact ⟨rfl, fun _ _ hmem => absurd hmem List.not_mem_nil, nofun, nofun⟩
    · exact h.pending other hother hflight hw
  · have hfresh : s.db.get? output.1.uKey = none ∧
        ∀ other' ∈ s.calls, other'.wrote = true → output.1 ∉ other'.block.spends := by
      rcases hold other hother with rfl | hother
      · exact ⟨(houtputs output houtput).1, (houtputs output houtput).2.2⟩
      · exact h.fresh other hother hflight hw output houtput
    exact ⟨hfresh.1, fun other' hother' hw' => hfresh.2 other' (hwrote' other' hother' hw') hw'⟩
  · rcases hold other hother with rfl | hother
    · cases happlying
    · have hother' := h.applying other hother happlying
      exact ⟨hother'.tasks, hother'.nodup, hother'.made⟩

theorem staged_of_writing (h : Inv db₀ s) (hmem : call ∈ s.calls) (hphase : call.phase = .writing) :
    call.wrote = false ∧ call.staged.map Change.task = call.block.tasks ∧
      (call.staged.map Change.key).Nodup ∧
      ∀ o ∈ call.block.spends, ∃ address, Change.spend o address ∈ call.staged := by
  have hflight : call.inFlight = true := by rw [Call.inFlight, hphase]
  have hwrote : call.wrote = false := by
    rw [(h.status call hmem).2.2 hflight, Call.applying, hphase]
    rfl
  have hpending := h.pending call hmem hflight hwrote
  have htasks : call.staged.map Change.task = call.block.tasks := by
    rw [← hpending.tasks, hpending.writing hphase, List.append_nil]
  have hstaged : ∀ o ∈ call.block.spends, ∃ address, Change.spend o address ∈ call.staged := by
    intro o ho
    obtain ⟨change, hchange, htask⟩ := List.mem_map.1 (htasks ▸ mem_spends.1 ho)
    cases change with
    | spend o' address =>
        cases htask
        exact ⟨address, hchange⟩
    | create o' utxo => cases htask
  refine ⟨hwrote, htasks, ?_, hstaged⟩
  have hvalid := h.valid call hmem
  have hnodup : (call.block.tasks.map Task.outpoint).Nodup := by
    refine nodup_outpoint hvalid.spends hvalid.creates fun o ho ho' => ?_
    obtain ⟨address, hchange⟩ := hstaged o ho
    obtain ⟨raw, hraw, -⟩ := hpending.staged o address hchange
    obtain ⟨output, houtput, rfl⟩ := List.mem_map.1 ho'
    rw [(h.fresh call hmem hflight hwrote output houtput).1] at hraw
    cases hraw
  have hkeys : call.staged.map Change.key =
      (call.block.tasks.map Task.outpoint).map Outpoint.uKey := by
    rw [← htasks, List.map_map, List.map_map]
    exact List.map_congr_left fun change _ => change.outpoint_task.symm
  rw [hkeys]
  exact hnodup.map fun _ _ => Outpoint.uKey_injective

theorem fits_of_writing (h : Inv db₀ s) (hi : s.calls[i]? = some call)
    (hphase : call.phase = .writing) {change : Change} (hchange : change ∈ call.staged) :
    s.caches.Fits change := by
  have hmem : call ∈ s.calls := List.mem_of_getElem? hi
  have hflight : call.inFlight = true := by rw [Call.inFlight, hphase]
  have happlying : call.applying = false := by
    rw [Call.applying, hphase]
    rfl
  obtain ⟨hwrote, htasks, -, -⟩ := h.staged_of_writing hmem hphase
  have htask : change.task ∈ call.block.tasks := htasks ▸ List.mem_map_of_mem hchange
  have hvalid := h.valid call hmem
  cases change with
  | spend o address =>
      obtain ⟨raw, hraw, haddress⟩ :=
        (h.pending call hmem hflight hwrote).staged o address hchange
      have hspend : o ∈ call.block.spends := mem_spends.2 htask
      have hsome : (recordAddress? raw).isSome := by
        rcases h.recorded o.uKey raw (isUtxoKey_uKey o) hraw with hold | ⟨utxo, rfl, -⟩
        · exact hvalid.addresses o hspend raw hold
        · rw [utxo.recordAddress?_text]
          rfl
      obtain ⟨a, ha⟩ := Option.isSome_iff_exists.1 hsome
      refine ⟨a, haddress.symm.trans ha, fun utxo hget => ?_⟩
      have hdb := h.get?_of_cached hi hflight happlying (spends_subset_touched hspend) hget
      rw [hdb, Option.some.injEq] at hraw
      rw [← hraw, utxo.recordAddress?_text, Option.some.injEq] at ha
      exact ha
  | create o utxo =>
      have hcreate : (o, utxo) ∈ call.block.creates := mem_creates.2 htask
      refine ⟨?_, hvalid.values _ hcreate⟩
      have hnone := (h.fresh call hmem hflight hwrote _ hcreate).1
      cases hget : s.caches.cacheShards.get o.uKey with
      | none => rfl
      | some utxo' =>
          have hdb := h.get?_of_cached hi hflight happlying (creates_subset_touched hcreate) hget
          rw [hnone] at hdb
          cases hdb

/-- **The database takes a batch.** -/
theorem commit (h : Inv db₀ s) (hi : s.calls[i]? = some call) (hphase : call.phase = .writing) :
    Inv db₀ { s with
      db := writeBatch s.db (batchOps call.staged)
      calls := s.calls.set i { call with phase := .written true, wrote := true } } := by
  have hmem : call ∈ s.calls := List.mem_of_getElem? hi
  have hflight : call.inFlight = true := by rw [Call.inFlight, hphase]
  have happlying : call.applying = false := by
    rw [Call.applying, hphase]
    rfl
  obtain ⟨hwrote, htasks, hnodup, hstaged⟩ := h.staged_of_writing hmem hphase
  have hpending := h.pending call hmem hflight hwrote
  have hfresh := h.fresh call hmem hflight hwrote
  have htask : ∀ change ∈ call.staged, change.task ∈ call.block.tasks := fun change hchange =>
    htasks ▸ List.mem_map_of_mem hchange
  have hin : ∀ change ∈ call.staged,
      (writeBatch s.db (batchOps call.staged)).get? change.key = change.record.value? :=
    fun change hchange => get?_batch_of_mem hnodup hchange s.db
  have hout : ∀ key, isUtxoKey key → (∀ change ∈ call.staged, change.key ≠ key) →
      (writeBatch s.db (batchOps call.staged)).get? key = s.db.get? key :=
    fun key hkey hne => get?_batch_of_forall_ne hkey hne s.db
  have hother : ∀ o ∉ call.block.touched,
      (writeBatch s.db (batchOps call.staged)).get? o.uKey = s.db.get? o.uKey :=
    fun o ho => hout o.uKey (isUtxoKey_uKey o) (key_ne_of_not_mem_touched htasks ho)
  have hspent : ∀ o ∈ call.block.spends,
      (writeBatch s.db (batchOps call.staged)).get? o.uKey = none := by
    intro o ho
    obtain ⟨address, hchange⟩ := hstaged o ho
    exact hin _ hchange
  -- the call that has its batch now, and the others
  have hlt : i < s.calls.length := (List.getElem?_eq_some_iff.1 hi).1
  have hmem' : { call with phase := .written true, wrote := true } ∈
      s.calls.set i { call with phase := .written true, wrote := true } :=
    List.mem_set hlt _
  have hkept : ∀ other ∈ s.calls, other.applying = true →
      other ∈ s.calls.set i { call with phase := .written true, wrote := true } :=
    fun other hmem₁ happlying₁ => mem_set_of_ne hi hmem₁ (Call.ne_of_applying happlying happlying₁)
  have hapart : ∀ (j : ℕ) (other : Call), i ≠ j → s.calls[j]? = some other →
      other.inFlight = true → ∀ o ∈ other.block.touched, o ∉ call.block.touched :=
    fun j other hij hj hflight₁ =>
      h.apart j i other call (Ne.symm hij) hj hi hflight₁ hflight
  refine ⟨h.indexed, h.valued, fun key utxo hget => ?_, fun key raw hkey hget => ?_,
    fun other hcase => ?_, fun other hcase => ?_, fun other hcase hflight₁ hw => ?_,
    fun other hcase hflight₁ hw output houtput => ?_, fun other hcase happlying₁ => ?_,
    fun other hcase hw o ho => ?_, h.once.set fun _ j other _ hj hw o ho ho' => ?_,
    h.apart.set_same hi (fun _ => hflight) rfl⟩
  · obtain ⟨hkey, hor⟩ := h.cached key utxo hget
    refine ⟨hkey, ?_⟩
    by_cases hchange : ∃ change ∈ call.staged, change.key = key
    · obtain ⟨change, hchange, rfl⟩ := hchange
      cases change with
      | spend o address =>
          exact Or.inr ⟨_, hmem', rfl, o, mem_spends.2 (htask _ hchange), rfl⟩
      | create o utxo' =>
          have hnone := (h.fits_of_writing hi hphase hchange).1
          have hsome : (none : Option Utxo) = some utxo := hnone.symm.trans hget
          cases hsome
    · have hne : ∀ change ∈ call.staged, change.key ≠ key := fun change hchange' hkey' =>
        hchange ⟨change, hchange', hkey'⟩
      refine hor.imp (fun hdb => (hout key hkey hne).trans hdb) ?_
      rintro ⟨other, hother', happlying', ho⟩
      exact ⟨other, hkept other hother' happlying', happlying', ho⟩
  · by_cases hchange : ∃ change ∈ call.staged, change.key = key
    · obtain ⟨change, hchange, rfl⟩ := hchange
      have hraw := (hin change hchange).symm.trans hget
      cases change with
      | spend o address => cases hraw
      | create o utxo =>
          have hcreate : (o, utxo) ∈ call.block.creates := mem_creates.2 (htask _ hchange)
          exact Or.inr ⟨utxo, (Option.some.inj hraw).symm,
            Or.inr ⟨_, hmem', rfl, (o, utxo), hcreate, rfl⟩⟩
    · have hne : ∀ change ∈ call.staged, change.key ≠ key := fun change hchange' hkey' =>
        hchange ⟨change, hchange', hkey'⟩
      refine (h.recorded key raw hkey ((hout key hkey hne).symm.trans hget)).imp id ?_
      rintro ⟨utxo, hraw, hor⟩
      refine ⟨utxo, hraw, hor.imp id ?_⟩
      rintro ⟨other, hother', happlying', ho⟩
      exact ⟨other, hkept other hother' happlying', happlying', ho⟩
  · rcases mem_set_cases hcase with rfl | ⟨j, -, hj⟩
    · exact h.valid call hmem
    · exact h.valid other (List.mem_of_getElem? hj)
  · rcases mem_set_cases hcase with rfl | ⟨j, -, hj⟩
    · exact ⟨nofun, fun _ => rfl, fun _ => rfl⟩
    · exact h.status other (List.mem_of_getElem? hj)
  · rcases mem_set_cases hcase with rfl | ⟨j, hij, hj⟩
    · cases hw
    · exact (h.pending other (List.mem_of_getElem? hj) hflight₁ hw).congr fun o ho =>
        hother o (hapart j other hij hj hflight₁ o ho)
  · rcases mem_set_cases hcase with rfl | ⟨j, hij, hj⟩
    · cases hw
    · have hnew := hapart j other hij hj hflight₁ output.1 (creates_subset_touched houtput)
      obtain ⟨hnone, hnot⟩ :=
        h.fresh other (List.mem_of_getElem? hj) hflight₁ hw output houtput
      refine ⟨(hother _ hnew).trans hnone, fun other' hcase' hw' => ?_⟩
      rcases mem_set_cases hcase' with rfl | ⟨k, -, hk⟩
      · exact fun ho => hnew (spends_subset_touched ho)
      · exact hnot other' (List.mem_of_getElem? hk) hw'
  · rcases mem_set_cases hcase with rfl | ⟨j, hij, hj⟩
    · exact ⟨htasks, hnodup, fun change hchange =>
        ⟨hin change hchange, h.fits_of_writing hi hphase hchange⟩⟩
    · have hflight₁ := Call.inFlight_of_applying happlying₁
      exact (h.applying other (List.mem_of_getElem? hj) happlying₁).congr
        (fun o ho => hother o (hapart j other hij hj hflight₁ o ho)) fun _ _ => rfl
  · rcases mem_set_cases hcase with rfl | ⟨j, hij, hj⟩
    · exact hspent o ho
    · have hmem₁ := List.mem_of_getElem? hj
      by_cases htouched : o ∈ call.block.touched
      · rcases List.mem_append.1 htouched with hin' | hin'
        · exact hspent o hin'
        · obtain ⟨output, houtput, rfl⟩ := List.mem_map.1 hin'
          exact absurd ho ((hfresh output houtput).2 other hmem₁ hw)
      · exact (hother o htouched).trans (h.spent other hmem₁ hw o ho)
  · -- what the call spends is in the database, and what others have spent is not
    obtain ⟨address, hchange⟩ := hstaged o ho
    obtain ⟨raw, hraw, -⟩ := hpending.staged o address hchange
    rw [h.spent other (List.mem_of_getElem? hj) hw o ho'] at hraw
    cases hraw

/-- **The caches are changed.** -/
theorem apply (h : Inv db₀ s) (hi : s.calls[i]? = some call) (hphase : call.phase = .written true) :
    ∃ caches, applyCacheUpdates s.caches call.staged = (caches, true) ∧
      Inv db₀ { s with caches, calls := s.calls.set i { call with phase := .done true } } := by
  have hmem : call ∈ s.calls := List.mem_of_getElem? hi
  have happlying : call.applying = true := decide_eq_true hphase
  have hflight := Call.inFlight_of_applying happlying
  have hwrote : call.wrote = true := ((h.status call hmem).2.2 hflight).trans happlying
  obtain ⟨htasks, hnodup, hmade⟩ := h.applying call hmem happlying
  have htask : ∀ change ∈ call.staged, change.task ∈ call.block.tasks := fun change hchange =>
    htasks ▸ List.mem_map_of_mem hchange
  obtain ⟨caches, heq, hindexed, hget⟩ :=
    h.indexed.applyCacheUpdates hnodup fun change hchange => (hmade change hchange).2
  refine ⟨caches, heq, ?_⟩
  have hkeys : (call.staged.map Change.cached).map Write.key = call.staged.map Change.key := by
    rw [List.map_map]
    exact List.map_congr_left fun change _ => change.key_cached
  have hin : ∀ change ∈ call.staged, caches.cacheShards.get change.key = change.cached.value? := by
    intro change hchange
    rw [hget, ← change.key_cached]
    exact after_of_nodup (hkeys ▸ hnodup) (List.mem_map_of_mem hchange) _
  have hout : ∀ key, (∀ change ∈ call.staged, change.key ≠ key) →
      caches.cacheShards.get key = s.caches.cacheShards.get key := by
    intro key hne
    rw [hget]
    refine after_of_forall_ne fun w hw => ?_
    obtain ⟨change, hchange, rfl⟩ := List.mem_map.1 hw
    exact change.key_cached ▸ hne change hchange
  -- the other calls that are changing the caches are still there
  have hkept : ∀ other ∈ s.calls, other.applying = true → other ≠ call →
      other ∈ s.calls.set i { call with phase := .done true } :=
    fun other hother _ hne => mem_set_of_ne hi hother hne
  refine ⟨hindexed, fun key utxo hcached => ?_, fun key utxo hcached => ?_,
    fun key raw hkey hraw => ?_, fun other hcase => ?_, fun other hcase => ?_,
    fun other hcase hflight₁ hw => ?_, fun other hcase hflight₁ hw output houtput => ?_,
    fun other hcase happlying₁ => ?_, fun other hcase hw o ho => ?_,
    h.once.set_same hi (fun _ => hwrote) rfl, h.apart.set nofun⟩
  · by_cases hchange : ∃ change ∈ call.staged, change.key = key
    · obtain ⟨change, hchange, rfl⟩ := hchange
      have hsome := (hin change hchange).symm.trans hcached
      cases change with
      | spend o address => cases hsome
      | create o utxo' =>
          cases hsome
          exact (hmade _ hchange).2.2
    · exact h.valued key utxo ((hout key fun change hchange' hkey =>
        hchange ⟨change, hchange', hkey⟩).symm.trans hcached)
  · by_cases hchange : ∃ change ∈ call.staged, change.key = key
    · obtain ⟨change, hchange, rfl⟩ := hchange
      have hsome := (hin change hchange).symm.trans hcached
      cases change with
      | spend o address => cases hsome
      | create o utxo' =>
          cases hsome
          exact ⟨isUtxoKey_uKey o, Or.inl (hmade _ hchange).1⟩
    · have hne : ∀ change ∈ call.staged, change.key ≠ key := fun change hchange' hkey =>
        hchange ⟨change, hchange', hkey⟩
      refine (h.cached key utxo ((hout key hne).symm.trans hcached)).imp id fun hor => hor.imp id ?_
      rintro ⟨other, hother, happlying₁, o, ho, hkey⟩
      refine ⟨other, hkept other hother happlying₁ ?_, happlying₁, o, ho, hkey⟩
      rintro rfl
      obtain ⟨change, hchange', htask'⟩ := List.mem_map.1 (htasks ▸ mem_spends.1 ho)
      exact hne change hchange' (change.outpoint_task.symm.trans (by rw [htask']; exact hkey))
  · by_cases hchange : ∃ change ∈ call.staged, change.key = key
    · obtain ⟨change, hchange, rfl⟩ := hchange
      have hsome := (hmade change hchange).1.symm.trans hraw
      cases change with
      | spend o address => cases hsome
      | create o utxo =>
          exact Or.inr ⟨utxo, (Option.some.inj hsome).symm, Or.inl (hin _ hchange)⟩
    · have hne : ∀ change ∈ call.staged, change.key ≠ key := fun change hchange' hkey' =>
        hchange ⟨change, hchange', hkey'⟩
      refine (h.recorded key raw hkey hraw).imp id ?_
      rintro ⟨utxo, hutxo, hor⟩
      refine ⟨utxo, hutxo, hor.imp (hout key hne).trans ?_⟩
      rintro ⟨other, hother, happlying₁, output, houtput, hkey'⟩
      refine ⟨other, hkept other hother happlying₁ ?_, happlying₁, output, houtput, hkey'⟩
      rintro rfl
      obtain ⟨change, hchange', htask'⟩ := List.mem_map.1 (htasks ▸ mem_creates.1 houtput)
      exact hne change hchange' (change.outpoint_task.symm.trans (by rw [htask']; exact hkey'))
  · rcases mem_set_cases hcase with rfl | ⟨j, -, hj⟩
    · exact h.valid call hmem
    · exact h.valid other (List.mem_of_getElem? hj)
  · rcases mem_set_cases hcase with rfl | ⟨j, -, hj⟩
    · exact ⟨nofun, fun _ => hwrote, nofun⟩
    · exact h.status other (List.mem_of_getElem? hj)
  · rcases mem_set_cases hcase with rfl | ⟨j, -, hj⟩
    · cases hflight₁
    · exact h.pending other (List.mem_of_getElem? hj) hflight₁ hw
  · rcases mem_set_cases hcase with rfl | ⟨j, -, hj⟩
    · cases hflight₁
    · obtain ⟨hnone, hnot⟩ :=
        h.fresh other (List.mem_of_getElem? hj) hflight₁ hw output houtput
      refine ⟨hnone, fun other' hcase' hw' => ?_⟩
      rcases mem_set_cases hcase' with rfl | ⟨k, -, hk⟩
      · exact hnot call hmem hwrote
      · exact hnot other' (List.mem_of_getElem? hk) hw'
  · rcases mem_set_cases hcase with rfl | ⟨j, hij, hj⟩
    · cases happlying₁
    · refine (h.applying other (List.mem_of_getElem? hj) happlying₁).congr (fun _ _ => rfl)
        fun o ho => hout o.uKey ?_
      exact key_ne_of_not_mem_touched htasks (h.apart j i other call (Ne.symm hij) hj hi
        (Call.inFlight_of_applying happlying₁) hflight o ho)
  · rcases mem_set_cases hcase with rfl | ⟨j, -, hj⟩
    · exact h.spent call hmem hwrote o ho
    · exact h.spent other (List.mem_of_getElem? hj) hw o ho

/-- **The balance is that of the database**, while no block is between the database and the caches,
for an address that had no unspent outputs in the beginning. -/
theorem getBalance (h : Inv db₀ s) {address : Str}
    (hquiet : ∀ call ∈ s.calls, call.applying = false)
    (hnone : ∀ record ∈ db₀.entries, owned address record = false) :
    UtxoSet.getBalance s.caches address = some (Json.intText (balance s.db address)) := by
  have hcached : ∀ key utxo, s.caches.cacheShards.get key = some utxo →
      isUtxoKey key = true ∧ s.db.get? key = some utxo.text := by
    intro key utxo hget
    obtain ⟨hkey, hdb | ⟨call, hcall, happlying, -⟩⟩ := h.cached key utxo hget
    · exact ⟨hkey, hdb⟩
    · rw [hquiet call hcall] at happlying
      cases happlying
  have hrecorded : ∀ record ∈ s.db.entries.filter (owned address), ∃ utxo,
      record.2 = utxo.text ∧ s.caches.cacheShards.get record.1 = some utxo ∧ utxo.a = address := by
    rintro ⟨key, raw⟩ hrecord
    obtain ⟨hentry, howned⟩ := List.mem_filter.1 hrecord
    obtain ⟨hkey, haddress⟩ := Bool.and_eq_true_iff.1 howned
    have haddress := eq_of_beq haddress
    rcases h.recorded key raw hkey (Map.get?_of_mem hentry) with hold |
      ⟨utxo, rfl, hget | ⟨call, hcall, happlying, -⟩⟩
    · have hnot := hnone (key, raw) (mem_of_lookup hold)
      rw [howned] at hnot
      cases hnot
    · rw [utxo.recordAddress?_text, Option.some.injEq] at haddress
      exact ⟨utxo, rfl, hget, haddress⟩
    · rw [hquiet call hcall] at happlying
      cases happlying
  -- the index and the database have the same keys for the address
  have hperm : ((s.db.entries.filter (owned address)).map Prod.fst).Perm
      (s.caches.keysOf address) := by
    obtain ⟨hnodup, hmem⟩ := h.indexed address
    have hnodup' : ((s.db.entries.filter (owned address)).map Prod.fst).Nodup :=
      s.db.nodup.sublist (List.filter_sublist.map Prod.fst)
    refine (List.perm_ext_iff_of_nodup hnodup' hnodup).2 fun key => ?_
    rw [hmem key, List.mem_map]
    constructor
    · rintro ⟨record, hrecord, rfl⟩
      obtain ⟨utxo, -, hget, ha⟩ := hrecorded record hrecord
      exact ⟨utxo, hget, ha⟩
    · rintro ⟨utxo, hget, rfl⟩
      obtain ⟨hkey, hdb⟩ := hcached key utxo hget
      refine ⟨(key, utxo.text), List.mem_filter.2 ⟨mem_of_lookup hdb, ?_⟩, rfl⟩
      rw [owned, hkey, utxo.recordAddress?_text]
      exact beq_self_eq_true _
  have hvalues : ∀ record ∈ s.db.entries.filter (owned address),
      (recordValue? record.2).getD 0 = s.caches.valueOf record.1 := by
    intro record hrecord
    obtain ⟨utxo, hraw, hget, -⟩ := hrecorded record hrecord
    rw [hraw, utxo.recordValue?_text, Caches.valueOf, hget]
    rfl
  rw [Caches.getBalance_eq h.valued, balance, List.map_congr_left hvalues]
  have hsum := (hperm.map s.caches.valueOf).sum_eq
  rw [List.map_map] at hsum
  rw [← hsum]
  rfl

end Inv

/-! ### Runs -/

variable {db₀ : Database} {s s' : State}

theorem Inv.spentOnce (h : Inv db₀ s) : SpentOnce s := by
  refine ⟨fun call hcall _ => (h.valid call hcall).spends, ?_⟩
  intro i j call call' hi hj hdone hdone' o ho ho'
  by_contra hne
  exact h.once i j call call' hne hi hj ((h.status call (List.mem_of_getElem? hi)).2.1 hdone)
    ((h.status call' (List.mem_of_getElem? hj)).2.1 hdone') o ho ho'

theorem Inv.rejectedUnchanged (h : Inv db₀ s')
    (hchanged : s'.db = s.db ∧ s'.caches = s.caches ∨
      ∃ (i : ℕ) (call : Call), s'.calls[i]? = some call ∧ call.wrote = true ∧
        s.calls[i]? ≠ some call) : RejectedUnchanged s s' :=
  ⟨fun call hcall => (h.status call hcall).1, hchanged⟩

theorem Inv.answer (h : Inv db₀ s) {i : ℕ} {ok : Bool}
    (hstep : step s (.answer i ok) = some s') :
    Inv db₀ s' ∧ Sound s (.answer i ok) s' := by
  unfold UtxoSet.step at hstep
  cases hi : s.calls[i]? with
  | none =>
      simp only [hi] at hstep
      cases hstep
  | some call =>
      have hmem : call ∈ s.calls := List.mem_of_getElem? hi
      have hlt : i < s.calls.length := (List.getElem?_eq_some_iff.1 hi).1
      simp only [hi] at hstep
      split at hstep
      · -- the record of an input
        rename_i ok _ _ _ o tasks hphase htasks
        have hflight : call.inFlight = true := by rw [Call.inFlight, hphase]
        have hwrote : call.wrote = false := by
          rw [(h.status call hmem).2.2 hflight, Call.applying, hphase]
          rfl
        obtain ⟨hall, hstaged, -, -⟩ := h.pending call hmem hflight hwrote
        cases hstep
        have hnew : Advanced s.db call.block { call with
            phase := .read (if ok then s.db.get? o.uKey else none) } := by
          refine ⟨rfl, hwrote, rfl, by rintro ⟨⟩, fun _ => ⟨hall, hstaged, ?_, by rintro ⟨⟩⟩⟩
          intro raw o' tasks' hread htasks'
          rw [htasks] at htasks'
          cases htasks'
          cases ok with
          | true => exact Phase.read.inj hread
          | false => cases hread
        have hinv := h.set hi hflight hwrote hnew
        refine ⟨hinv, hinv.spentOnce, hinv.rejectedUnchanged (Or.inl ⟨rfl, rfl⟩), ?_⟩
        cases ok with
        | true =>
            intro call' hcall' hwriting
            rw [hi, Option.some.injEq] at hcall'
            rw [← hcall', hphase] at hwriting
            cases hwriting
        | false => trivial
      · -- the batch is taken
        rename_i hphase
        cases hstep
        have hinv := h.commit hi hphase
        refine ⟨hinv, hinv.spentOnce, hinv.rejectedUnchanged (Or.inr
          ⟨i, _, List.getElem?_set_self hlt, rfl, fun hsame => ?_⟩), ?_⟩
        · rw [hi, Option.some.injEq] at hsame
          rw [hsame] at hphase
          cases hphase
        · intro call' hcall' _ o ho
          rw [hi, Option.some.injEq] at hcall'
          subst hcall'
          have hflight : call.inFlight = true := by rw [Call.inFlight, hphase]
          obtain ⟨hwrote, -, -, hstaged⟩ := h.staged_of_writing hmem hphase
          obtain ⟨address, hchange⟩ := hstaged o ho
          obtain ⟨raw, hraw, -⟩ :=
            (h.pending call hmem hflight hwrote).staged o address hchange
          rw [hraw]
          rfl
      · -- the batch is not taken
        rename_i hphase
        have hflight : call.inFlight = true := by rw [Call.inFlight, hphase]
        obtain ⟨hwrote, -, -, -⟩ := h.staged_of_writing hmem hphase
        obtain ⟨hall, hstaged, -, -⟩ := h.pending call hmem hflight hwrote
        cases hstep
        have hnew : Advanced s.db call.block { call with phase := .written false } :=
          ⟨rfl, hwrote, rfl, by rintro ⟨⟩,
            fun _ => ⟨hall, hstaged, by rintro _ _ _ ⟨⟩, by rintro ⟨⟩⟩⟩
        have hinv := h.set hi hflight hwrote hnew
        exact ⟨hinv, hinv.spentOnce, hinv.rejectedUnchanged (Or.inl ⟨rfl, rfl⟩), trivial⟩
      · cases hstep

theorem Inv.resume (h : Inv db₀ s) {i : ℕ} (hstep : step s (.resume i) = some s') :
    Inv db₀ s' ∧ Sound s (.resume i) s' := by
  unfold UtxoSet.step at hstep
  cases hi : s.calls[i]? with
  | none =>
      simp only [hi] at hstep
      cases hstep
  | some call =>
      have hmem : call ∈ s.calls := List.mem_of_getElem? hi
      have hlt : i < s.calls.length := (List.getElem?_eq_some_iff.1 hi).1
      simp only [hi] at hstep
      split at hstep
      · rename_i raw hphase
        have hflight : call.inFlight = true := by rw [Call.inFlight, hphase]
        have happlying : call.applying = false := by
          rw [Call.applying, hphase]
          rfl
        have hwrote : call.wrote = false := ((h.status call hmem).2.2 hflight).trans happlying
        cases hstep
        have hnew := advanced_resumeRead (fun o ho utxo hget =>
          h.get?_of_cached hi hflight happlying (spends_subset_touched ho) hget)
          (h.pending call hmem hflight hwrote) hphase hwrote
        have hinv := h.set hi hflight hwrote hnew
        exact ⟨hinv, hinv.spentOnce, hinv.rejectedUnchanged (Or.inl ⟨rfl, rfl⟩), trivial⟩
      · rename_i hphase
        have hflight : call.inFlight = true := by rw [Call.inFlight, hphase]
        have hwrote : call.wrote = false := by
          rw [(h.status call hmem).2.2 hflight, Call.applying, hphase]
          rfl
        cases hstep
        have hnew : Advanced s.db call.block { call with phase := .done false } :=
          ⟨rfl, hwrote, rfl, nofun, nofun⟩
        have hinv := h.set hi hflight hwrote hnew
        exact ⟨hinv, hinv.spentOnce, hinv.rejectedUnchanged (Or.inl ⟨rfl, rfl⟩), trivial⟩
      · rename_i hphase
        obtain ⟨caches, heq, hinv⟩ := h.apply hi hphase
        have hwrote : call.wrote = true := by
          rw [(h.status call hmem).2.2 (by rw [Call.inFlight, hphase]), Call.applying, hphase]
          rfl
        simp only [heq] at hstep
        cases hstep
        refine ⟨hinv, hinv.spentOnce, hinv.rejectedUnchanged (Or.inr
          ⟨i, _, List.getElem?_set_self hlt, hwrote, fun hsame => ?_⟩), trivial⟩
        rw [hi, Option.some.injEq] at hsame
        rw [hsame] at hphase
        cases hphase
      · cases hstep

/-- **One safe step.** -/
theorem Inv.step {e : Event} (h : Inv db₀ s) (hsafe : Safe db₀ s e)
    (hstep : UtxoSet.step s e = some s') : Inv db₀ s' ∧ Sound s e s' := by
  cases e with
  | start block =>
      cases hstep
      have hadd := h.add hsafe
      have hi : (s.calls ++ [Inv.begun block])[s.calls.length]? = some (Inv.begun block) := by
        rw [List.getElem?_append_right (Nat.le_refl _), Nat.sub_self]
        rfl
      have hnew : Advanced s.db block (advance s.caches block block.tasks []) :=
        advanced_advance (fun o ho utxo hget =>
          hadd.get?_of_cached hi rfl rfl (spends_subset_touched ho) hget) rfl
          fun _ _ hmem => absurd hmem List.not_mem_nil
      have hinv := hadd.set hi rfl rfl hnew
      rw [List.set_append_right _ _ (Nat.le_refl _), Nat.sub_self] at hinv
      exact ⟨hinv, hinv.spentOnce, hinv.rejectedUnchanged (Or.inl ⟨rfl, rfl⟩), trivial⟩
  | answer i ok => exact h.answer hstep
  | resume i => exact h.resume hstep
  | balance address =>
      cases hstep
      exact ⟨h, h.spentOnce, h.rejectedUnchanged (Or.inl ⟨rfl, rfl⟩),
        h.getBalance hsafe.1 hsafe.2⟩

/-- **In a run of safe steps the ledger is sound in every step**: no outpoint is spent twice by the
blocks that are reported ok, what a block spends is unspent in the database when its batch is taken,
rejected blocks change nothing, and balances are those of the database. -/
theorem sound_of_safe (db₀ : Database) (events : List Event)
    (hsafe : EveryStep step (fun s e _ => Safe db₀ s e) (opened db₀) events) :
    EveryStep step Sound (opened db₀) events := by
  have hstep : ∀ s e s', Inv db₀ s → Safe db₀ s e → step s e = some s' →
      Inv db₀ s' ∧ Sound s e s' := fun _ _ _ h hs hnext => h.step hs hnext
  exact EveryStep.of_invariant hstep (Inv.opened db₀) hsafe

/-! ### An outpoint that is spent twice -/

def sampleCoin : Outpoint := ⟨"c0".toList, 0⟩

def sampleUtxo : Utxo :=
  { h := "c0".toList, i := 0, v := "50".toList, a := "alice".toList, bh := 1, cb := true }

def sampleDatabase : Database := Map.empty.set sampleCoin.uKey sampleUtxo.text

/-- The output pays bob twice. -/
def doubledBlock : Block :=
  { height := 101
    transactions := [{
      hash := "t1".toList
      inputs := [{ outpoint := sampleCoin }, { outpoint := sampleCoin }]
      outputs := [{ value := "100".toList, address := "bob".toList }] }] }

/-- The records of both inputs are read, and the block is reported ok. -/
def doubledEvents : List Event :=
  [.start doubledBlock, .answer 0 true, .resume 0, .answer 0 true, .resume 0, .answer 0 true,
    .resume 0]

theorem not_sound : ¬ ∀ (db₀ : Database) (events : List Event),
    EveryStep step Sound (opened db₀) events := by
  intro h
  have hrun : ((run step (opened sampleDatabase) doubledEvents).map fun s =>
      decide (∃ call ∈ s.calls, call.phase = .done true ∧ ¬ call.block.spends.Nodup)) =
      some true := by decide +kernel
  obtain ⟨s, hs, htwice⟩ := Option.map_eq_some_iff.1 hrun
  obtain ⟨call, hcall, hdone, hnot⟩ := of_decide_eq_true htwice
  have hstart : SpentOnce (opened sampleDatabase) :=
    ⟨fun _ h => absurd h List.not_mem_nil, fun _ _ _ _ h => nomatch h⟩
  have honce : SpentOnce s :=
    run_induction (I := SpentOnce) (P := Sound) (fun _ _ _ _ hsound _ => hsound.1) hstart
      (h sampleDatabase doubledEvents) hs
  exact hnot (honce.1 call hcall hdone)

/-- Coins for alice. -/
def coinBlock (height : ℤ) (hash : Str) : Block :=
  { height
    transactions := [{
      hash
      isCoinbase := true
      inputs := []
      outputs := [{ value := "50".toList, address := "alice".toList }] }] }

/-- Alice pays bob. -/
def payBlock : Block :=
  { height := 101
    transactions := [{
      hash := "t1".toList
      inputs := [{ outpoint := sampleCoin }]
      outputs := [{ value := "20".toList, address := "bob".toList },
        { value := "30".toList, address := "alice".toList }] }] }

def sampleEvents : List Event :=
  [.start (coinBlock 1 "c0".toList), .answer 0 true, .resume 0, .balance "alice".toList,
    .start payBlock, .start (coinBlock 101 "c1".toList), .answer 1 true, .answer 2 true, .resume 2,
    .resume 1, .balance "alice".toList, .balance "bob".toList]

theorem sound_of_safe_sampleEvents :
    EveryStep step Sound (opened Map.empty) sampleEvents :=
  sound_of_safe Map.empty sampleEvents (by decide +kernel)

end UtxoSet
