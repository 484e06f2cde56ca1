/-
**The lifecycle of API keys.**

A rotation copies the record of the old key without a look at whether the key is valid, and its
three critical sections are not one: while it has the copy, the old key may be revoked, may expire,
or may be copied by a second rotation.  Each of these gives a new key for one that had none to give.

Where a rotation takes a valid key that no other has in hand, and the key stays valid until the new
one is written, the manager does what it should: a key that has been replaced is revoked in the end,
or still in the hand of its rotation.

Main definitions:

* `ApiKey.Inv` — **what every safe step keeps**.

Main results:

* `ApiKey.valid_iff` — when a key validates;
* `ApiKey.Inv.write`, `ApiKey.Inv.revokeWrite` — the two steps that change the store;
* `ApiKey.Inv.step` — every safe step keeps the invariant, and is sound;
* `ApiKey.lifecycle_of_safe` — **in a run of safe steps the lifecycle of keys is kept in every
  step**;
* `ApiKey.not_lifecycle` — a revoked key that is rotated gives a new key.
-/

import MedorCoin.ApiKey.Manager

set_option autoImplicit false

namespace ApiKey

open Cpp (Str)
open Transition

/-! ### Valid keys -/

theorem isOk_checkRecord (now : ℤ) (rec : KeyRecord) :
    (checkRecord now rec).isOk = true ↔
      rec.revokedAt = 0 ∧ (rec.expiresAt = 0 ∨ now ≤ rec.expiresAt) := by
  unfold checkRecord noExpiry
  split
  · next h => simp [Except.isOk, Except.toBool, h]
  · next h =>
      rw [not_not] at h
      split
      · next h' =>
          simp only [Except.isOk, Except.toBool, h, true_and, Bool.false_eq_true, false_iff]
          omega
      · next h' =>
          simp only [Except.isOk, Except.toBool, h, true_and, true_iff]
          omega

theorem valid_iff {s : State} {key : Str} :
    s.valid key = true ↔ ∃ rec, s.store key = some rec ∧ rec.revokedAt = 0 ∧
      (rec.expiresAt = 0 ∨ s.now ≤ rec.expiresAt) := by
  unfold State.valid
  cases hstore : s.store key with
  | none => simp
  | some rec => simp [isOk_checkRecord]

theorem retired_iff {s : State} {key : Str} :
    s.retired key = true ↔ ∃ rec, s.store key = some rec ∧
      (rec.revokedAt ≠ 0 ∨ rec.expiresAt ≠ 0 ∧ rec.expiresAt < s.now) := by
  unfold State.retired State.valid
  cases hstore : s.store key with
  | none => simp
  | some rec =>
      have hok := isOk_checkRecord s.now rec
      simp only [Option.isSome_some, Bool.true_and, Bool.not_eq_true', Option.some.injEq,
        exists_eq_left']
      rw [← Bool.not_eq_true, hok]
      omega

theorem valid_congr {s s' : State} {key : Str} (hnow : s'.now = s.now)
    (hstore : s'.store key = s.store key) : s'.valid key = s.valid key := by
  unfold State.valid
  rw [hstore, hnow]

theorem retired_congr {s s' : State} {key : Str} (hnow : s'.now = s.now)
    (hstore : s'.store key = s.store key) : s'.retired key = s.retired key := by
  unfold State.retired
  rw [hstore, valid_congr hnow hstore]

/-! ### The invariant -/

/-- **What every safe step keeps.** -/
structure Inv (s : State) : Prop where
  positive : 0 < s.now
  /-- A revocation has a time other than zero to write. -/
  clock : ∀ op ∈ s.ops, ∀ key now rotation, op = .revoking key now rotation → 0 < now
  filed : ∀ key rec, s.store key = some rec → rec.key = key ∧ key ∈ s.generated
  /-- A key that is going to be written is new. -/
  new : ∀ op ∈ s.ops, ∀ key, op.newKey? = some key → key ∈ s.generated ∧ s.store key = none
  apart : Distinct Op.newKey? s.ops
  /-- Each key is in the hand of one rotation. -/
  single : Distinct Op.rotates? s.ops
  pending : ∀ op ∈ s.ops, ∀ key, op.pending? = some key → s.valid key = true
  /-- A key that has been replaced is revoked, or will be. -/
  replaced : ∀ p ∈ s.rotated,
    (∃ op ∈ s.ops, op.rotates? = some p.1 ∧ op.pending? = none) ∨
      ∃ rec, s.store p.1 = some rec ∧ rec.revokedAt ≠ 0
  kept : ∀ p ∈ s.rotated, ∃ rec, s.store p.1 = some rec
  once : (s.rotated.map Prod.fst).Nodup
  /-- What a late validation will find has been revoked, or has expired for its clock. -/
  late : ∀ op ∈ s.ops, ∀ key now, op = .validating key now true →
    ∃ rec, s.store key = some rec ∧
      (rec.revokedAt ≠ 0 ∨ rec.expiresAt ≠ 0 ∧ rec.expiresAt < now)
  accepted : ∀ p ∈ s.accepted, p.2 = false

theorem rotates?_of_pending? {op : Op} {key : Str} (h : op.pending? = some key) :
    op.rotates? = some key := by
  cases op <;> simp_all [Op.pending?, Op.rotates?]

namespace Inv

variable {s : State} {op op' : Op} {i : ℕ}

/-- **An operation goes on** without a change of the store.  The new state of the operation has to
be in order, and it must go on to stand for the rotation that the old one stood for. -/
theorem set (h : Inv s) (hi : s.ops[i]? = some op) {generated : List Str}
    {accepted : List (Str × Bool)} (hgenerated : ∀ key ∈ s.generated, key ∈ generated)
    (hclock : ∀ key now rotation, op' = .revoking key now rotation → 0 < now)
    (hnew : ∀ key, op'.newKey? = some key → key ∈ generated ∧ s.store key = none ∧
      ∀ other ∈ s.ops, other.newKey? ≠ some key)
    (hrotates : ∀ key, op'.rotates? = some key → op.rotates? = some key)
    (hpending : ∀ key, op'.pending? = some key → op.pending? = some key)
    (hreplaced : ∀ p ∈ s.rotated, op.rotates? = some p.1 → op.pending? = none →
      (op'.rotates? = some p.1 ∧ op'.pending? = none) ∨
        ∃ rec, s.store p.1 = some rec ∧ rec.revokedAt ≠ 0)
    (hlate : ∀ key now, op' ≠ .validating key now true)
    (haccepted : ∀ p ∈ accepted, p.2 = false) :
    Inv { s with ops := s.ops.set i op', generated := generated, accepted := accepted } := by
  refine ⟨h.positive, ?_, ?_, ?_, ?_, ?_, ?_, ?_, h.kept, h.once, ?_, haccepted⟩
  · intro other hother
    rcases mem_set_cases hother with rfl | ⟨j, -, hj⟩
    · exact hclock
    · exact h.clock other (mem_of_getElem? hj)
  · intro key rec hstore
    exact ⟨(h.filed key rec hstore).1, hgenerated key (h.filed key rec hstore).2⟩
  · intro other hother key hkey
    rcases mem_set_cases hother with rfl | ⟨j, -, hj⟩
    · exact ⟨(hnew key hkey).1, (hnew key hkey).2.1⟩
    · obtain ⟨hmem, hnone⟩ := h.new other (mem_of_getElem? hj) key hkey
      exact ⟨hgenerated key hmem, hnone⟩
  · refine h.apart.set ?_
    intro key hkey j other _ hj
    exact (hnew key hkey).2.2 other (mem_of_getElem? hj)
  · exact h.single.set_of_imp hi hrotates
  · intro other hother key hkey
    rcases mem_set_cases hother with rfl | ⟨j, -, hj⟩
    · exact h.pending op (mem_of_getElem? hi) key (hpending key hkey)
    · exact h.pending other (mem_of_getElem? hj) key hkey
  · intro p hp
    rcases h.replaced p hp with ⟨other, hother, hkey, hnone⟩ | hrevoked
    · by_cases hne : other = op
      · subst hne
        rcases hreplaced p hp hkey hnone with hgoes | hrevoked
        · exact Or.inl ⟨op', mem_set_self hi, hgoes⟩
        · exact Or.inr hrevoked
      · exact Or.inl ⟨other, mem_set_of_ne hi hother hne, hkey, hnone⟩
    · exact Or.inr hrevoked
  · intro other hother key now heq
    rcases mem_set_cases hother with rfl | ⟨j, -, hj⟩
    · exact absurd heq (hlate key now)
    · exact h.late other (mem_of_getElem? hj) key now heq

/-- **A new operation** that is not yet a rotation that has written. -/
theorem concat (h : Inv s) {generated : List Str}
    (hgenerated : ∀ key ∈ s.generated, key ∈ generated)
    (hclock : ∀ key now rotation, op' = .revoking key now rotation → 0 < now)
    (hnew : ∀ key, op'.newKey? = some key → key ∈ generated ∧ s.store key = none ∧
      ∀ other ∈ s.ops, other.newKey? ≠ some key)
    (hrotates : ∀ key, op'.rotates? = some key → ∀ other ∈ s.ops, other.rotates? ≠ some key)
    (hpending : ∀ key, op'.pending? = some key → s.valid key = true)
    (hlate : ∀ key now, op' = .validating key now true →
      ∃ rec, s.store key = some rec ∧
        (rec.revokedAt ≠ 0 ∨ rec.expiresAt ≠ 0 ∧ rec.expiresAt < now)) :
    Inv { s with ops := s.ops ++ [op'], generated := generated } := by
  refine ⟨h.positive, ?_, ?_, ?_, ?_, ?_, ?_, ?_, h.kept, h.once, ?_, h.accepted⟩
  · intro other hother
    rcases mem_concat_cases hother with hold | rfl
    · exact h.clock other hold
    · exact hclock
  · intro key rec hstore
    exact ⟨(h.filed key rec hstore).1, hgenerated key (h.filed key rec hstore).2⟩
  · intro other hother key hkey
    rcases mem_concat_cases hother with hold | rfl
    · obtain ⟨hmem, hnone⟩ := h.new other hold key hkey
      exact ⟨hgenerated key hmem, hnone⟩
    · exact ⟨(hnew key hkey).1, (hnew key hkey).2.1⟩
  · exact h.apart.concat fun key hkey => (hnew key hkey).2.2
  · exact h.single.concat hrotates
  · intro other hother key hkey
    rcases mem_concat_cases hother with hold | rfl
    · exact h.pending other hold key hkey
    · exact hpending key hkey
  · intro p hp
    rcases h.replaced p hp with ⟨other, hother, hkey⟩ | hrevoked
    · exact Or.inl ⟨other, List.mem_append_left _ hother, hkey⟩
    · exact Or.inr hrevoked
  · intro other hother key now heq
    rcases mem_concat_cases hother with hold | rfl
    · exact h.late other hold key now heq
    · exact hlate key now heq

theorem finish (h : Inv s) (hi : s.ops[i]? = some op)
    (hreplaced : ∀ p ∈ s.rotated, op.rotates? = some p.1 → op.pending? = none →
      ∃ rec, s.store p.1 = some rec ∧ rec.revokedAt ≠ 0) {accepted : List (Str × Bool)}
    (haccepted : ∀ p ∈ accepted, p.2 = false) :
    Inv { s with ops := s.ops.set i .done, accepted := accepted } := by
  refine h.set hi (fun _ hkey => hkey) ?_ ?_ ?_ ?_ ?_ ?_ haccepted
  · intro key now rotation heq
    cases heq
  · intro key hkey
    cases hkey
  · intro key hkey
    cases hkey
  · intro key hkey
    cases hkey
  · intro p hp hkey hnone
    exact Or.inr (hreplaced p hp hkey hnone)
  · intro key now heq
    cases heq

/-- **The new key is written.**  If a rotation writes it, the old key is valid and has not been
replaced before. -/
theorem write (h : Inv s) {rec : KeyRecord} {oldKey : Option Str}
    (hi : s.ops[i]? = some (.creating rec oldKey)) {rotated : List (Str × Str)}
    (hop : op' = .done ∧ oldKey = none ∧ rotated = s.rotated ∨
      ∃ key, op' = .written key ∧ oldKey = some key ∧ rotated = s.rotated ++ [(key, rec.key)]) :
    Inv { s with
      store := Function.update s.store rec.key (some rec)
      ops := s.ops.set i op'
      rotated := rotated } := by
  have hmem : Op.creating rec oldKey ∈ s.ops := mem_of_getElem? hi
  obtain ⟨hgenerated, hnone⟩ := h.new _ hmem rec.key rfl
  -- the new key is none of those that have a record
  have hstore : ∀ key rec', s.store key = some rec' →
      Function.update s.store rec.key (some rec) key = some rec' := by
    intro key rec' hkey
    have hne : key ≠ rec.key := by
      rintro rfl
      rw [hnone] at hkey
      cases hkey
    rw [Function.update_of_ne hne]
    exact hkey
  have hvalid : ∀ key, s.valid key = true → ({ s with
      store := Function.update s.store rec.key (some rec)
      ops := s.ops.set i op'
      rotated := rotated } : State).valid key = true := by
    intro key hkey
    obtain ⟨rec', hrec, hok⟩ := valid_iff.1 hkey
    exact valid_iff.2 ⟨rec', hstore key rec' hrec, hok⟩
  -- a rotation that has written has nothing more to write
  have hop' : op'.newKey? = none ∧ op'.pending? = none ∧
      (∀ key now rotation, op' ≠ .revoking key now rotation) ∧
      (∀ key now, op' ≠ .validating key now true) := by
    rcases hop with ⟨rfl, -, -⟩ | ⟨key, rfl, -, -⟩
    · exact ⟨rfl, rfl, by simp, by simp⟩
    · exact ⟨rfl, rfl, by simp, by simp⟩
  obtain ⟨hop'new, hop'pending, hop'revoking, hop'validating⟩ := hop'
  have hrotates : ∀ key, op'.rotates? = some key →
      (Op.creating rec oldKey).rotates? = some key := by
    intro key hkey
    rcases hop with ⟨rfl, -, -⟩ | ⟨key', rfl, rfl, -⟩
    · cases hkey
    · exact hkey
  refine ⟨h.positive, ?_, ?_, ?_, ?_, ?_, ?_, ?_, ?_, ?_, ?_, h.accepted⟩
  · intro other hother key now rotation heq
    rcases mem_set_cases hother with rfl | ⟨j, -, hj⟩
    · exact absurd heq (hop'revoking key now rotation)
    · exact h.clock other (mem_of_getElem? hj) key now rotation heq
  · intro key rec' (hrec : Function.update s.store rec.key (some rec) key = some rec')
    by_cases hkey : key = rec.key
    · subst hkey
      rw [Function.update_self, Option.some.injEq] at hrec
      exact ⟨hrec ▸ rfl, hgenerated⟩
    · rw [Function.update_of_ne hkey] at hrec
      exact h.filed key rec' hrec
  · intro other hother key hkey
    rcases mem_set_cases hother with rfl | ⟨j, hij, hj⟩
    · rw [hop'new] at hkey
      cases hkey
    · have hne : key ≠ rec.key := by
        rintro rfl
        exact hij (h.apart i j _ other rec.key hi hj rfl hkey)
      obtain ⟨hgen, hnone'⟩ := h.new other (mem_of_getElem? hj) key hkey
      exact ⟨hgen, (Function.update_of_ne hne _ _).trans hnone'⟩
  · refine h.apart.set_of_imp hi ?_
    intro key hkey
    rw [hop'new] at hkey
    cases hkey
  · exact h.single.set_of_imp hi hrotates
  · intro other hother key hkey
    rcases mem_set_cases hother with rfl | ⟨j, -, hj⟩
    · rw [hop'pending] at hkey
      cases hkey
    · exact hvalid key (h.pending other (mem_of_getElem? hj) key hkey)
  · -- what had been replaced stands as before, and the new one is in the hand of its rotation
    have hold : ∀ p ∈ s.rotated,
        (∃ op ∈ s.ops.set i op', op.rotates? = some p.1 ∧ op.pending? = none) ∨
          ∃ rec', Function.update s.store rec.key (some rec) p.1 = some rec' ∧
            rec'.revokedAt ≠ 0 := by
      intro p hp
      rcases h.replaced p hp with ⟨other, hother, hkey, hpnone⟩ | ⟨rec', hrec, hrevoked⟩
      · by_cases hne : other = .creating rec oldKey
        · subst hne
          cases oldKey with
          | none => cases hkey
          | some key => cases hpnone
        · exact Or.inl ⟨other, mem_set_of_ne hi hother hne, hkey, hpnone⟩
      · exact Or.inr ⟨rec', hstore _ _ hrec, hrevoked⟩
    intro p hp
    rcases hop with ⟨-, -, hrotated⟩ | ⟨key, hwritten, -, hrotated⟩
    · rw [hrotated] at hp
      exact hold p hp
    · rw [hrotated] at hp
      rcases mem_concat_cases hp with hp | rfl
      · exact hold p hp
      · refine Or.inl ⟨op', mem_set_self hi, ?_, hop'pending⟩
        rw [hwritten]
        rfl
  · intro p hp
    rcases hop with ⟨-, -, hrotated⟩ | ⟨key, -, hkey, hrotated⟩
    · rw [hrotated] at hp
      obtain ⟨rec', hrec⟩ := h.kept p hp
      exact ⟨rec', hstore _ _ hrec⟩
    · rw [hrotated] at hp
      rcases mem_concat_cases hp with hp | rfl
      · obtain ⟨rec', hrec⟩ := h.kept p hp
        exact ⟨rec', hstore _ _ hrec⟩
      · obtain ⟨rec', hrec, -⟩ := valid_iff.1 (h.pending _ hmem key hkey)
        exact ⟨rec', hstore _ _ hrec⟩
  · rcases hop with ⟨-, -, hrotated⟩ | ⟨key, -, hkey, hrotated⟩
    · rw [hrotated]
      exact h.once
    · have hpending : (Op.creating rec oldKey).pending? = some key := hkey
      have hvalid' := h.pending _ hmem key hpending
      rw [hrotated, List.map_append, List.nodup_append]
      refine ⟨h.once, List.nodup_cons.2 ⟨List.not_mem_nil, List.nodup_nil⟩, ?_⟩
      rintro a ha b hb rfl
      rw [List.map_singleton, List.mem_singleton] at hb
      obtain ⟨p, hp, rfl⟩ := List.mem_map.1 ha
      have hb : p.1 = key := hb
      -- it would be in the hand of another rotation, or revoked
      rcases h.replaced p hp with ⟨other, hother, hrot, hpnone⟩ | ⟨rec', hrec, hrevoked⟩
      · obtain ⟨j, hj⟩ := List.mem_iff_getElem?.1 hother
        have hij := h.single i j _ other key hi hj (rotates?_of_pending? hpending) (hb ▸ hrot)
        subst hij
        rw [hi, Option.some.injEq] at hj
        rw [← hj, hpending] at hpnone
        cases hpnone
      · obtain ⟨rec'', hrec'', hzero, -⟩ := valid_iff.1 hvalid'
        rw [← hb, hrec, Option.some.injEq] at hrec''
        exact hrevoked (hrec'' ▸ hzero)
  · intro other hother key now heq
    rcases mem_set_cases hother with rfl | ⟨j, -, hj⟩
    · exact absurd heq (hop'validating key now)
    · obtain ⟨rec', hrec, hretired⟩ := h.late other (mem_of_getElem? hj) key now heq
      exact ⟨rec', hstore key rec' hrec, hretired⟩

/-- **A key is revoked** that no rotation is about to replace. -/
theorem revokeWrite (h : Inv s) {key : Str} {now : ℤ} {rotation : Bool} {rec : KeyRecord}
    (hi : s.ops[i]? = some (.revoking key now rotation)) (hrec : s.store key = some rec)
    (hfree : ∀ op ∈ s.ops, op.pending? ≠ some key) :
    Inv { s with
      store := Function.update s.store rec.key (some { rec with revokedAt := now })
      ops := s.ops.set i .done } := by
  have hmem : Op.revoking key now rotation ∈ s.ops := mem_of_getElem? hi
  have hnow : now ≠ 0 := by
    have hpos := h.clock _ hmem key now rotation rfl
    omega
  obtain ⟨rfl, hgenerated⟩ := h.filed key rec hrec
  refine ⟨h.positive, ?_, ?_, ?_, ?_, ?_, ?_, ?_, ?_, h.once, ?_, h.accepted⟩
  · intro other hother key' now' rotation' heq
    rcases mem_set_cases hother with rfl | ⟨j, -, hj⟩
    · cases heq
    · exact h.clock other (mem_of_getElem? hj) key' now' rotation' heq
  · intro key' rec'
      (hrec' : Function.update s.store rec.key (some { rec with revokedAt := now }) key'
        = some rec')
    by_cases hk : key' = rec.key
    · subst hk
      rw [Function.update_self, Option.some.injEq] at hrec'
      exact ⟨hrec' ▸ rfl, hgenerated⟩
    · rw [Function.update_of_ne hk] at hrec'
      exact h.filed key' rec' hrec'
  · intro other hother key' hkey'
    rcases mem_set_cases hother with rfl | ⟨j, -, hj⟩
    · cases hkey'
    · obtain ⟨hgen, hnone⟩ := h.new other (mem_of_getElem? hj) key' hkey'
      have hk : key' ≠ rec.key := by
        rintro rfl
        rw [hrec] at hnone
        cases hnone
      exact ⟨hgen, (Function.update_of_ne hk _ _).trans hnone⟩
  · refine h.apart.set_of_imp hi ?_
    intro key' hkey'
    cases hkey'
  · refine h.single.set_of_imp hi ?_
    intro key' hkey'
    cases hkey'
  · intro other hother key' hkey'
    rcases mem_set_cases hother with rfl | ⟨j, -, hj⟩
    · cases hkey'
    · have hk : key' ≠ rec.key := by
        rintro rfl
        exact hfree other (mem_of_getElem? hj) hkey'
      have hvalid := h.pending other (mem_of_getElem? hj) key' hkey'
      obtain ⟨rec', hrec', hok⟩ := valid_iff.1 hvalid
      exact valid_iff.2 ⟨rec', (Function.update_of_ne hk _ _).trans hrec', hok⟩
  · intro p hp
    by_cases hk : p.1 = rec.key
    · refine Or.inr ⟨{ rec with revokedAt := now }, ?_, hnow⟩
      rw [hk]
      exact Function.update_self ..
    · rcases h.replaced p hp with ⟨other, hother, hrot, hnone⟩ | ⟨rec', hrec', hrevoked⟩
      · have hne : other ≠ .revoking rec.key now rotation := by
          rintro rfl
          cases rotation with
          | false => cases hrot
          | true => exact hk (Option.some.inj hrot).symm
        exact Or.inl ⟨other, mem_set_of_ne hi hother hne, hrot, hnone⟩
      · exact Or.inr ⟨rec', (Function.update_of_ne hk _ _).trans hrec', hrevoked⟩
  · intro p hp
    by_cases hk : p.1 = rec.key
    · exact ⟨_, (congrArg _ hk).trans (Function.update_self ..)⟩
    · obtain ⟨rec', hrec'⟩ := h.kept p hp
      exact ⟨rec', (Function.update_of_ne hk _ _).trans hrec'⟩
  · intro other hother key' now' heq
    rcases mem_set_cases hother with rfl | ⟨j, -, hj⟩
    · cases heq
    · obtain ⟨rec', hrec', hretired⟩ := h.late other (mem_of_getElem? hj) key' now' heq
      by_cases hk : key' = rec.key
      · subst hk
        exact ⟨_, Function.update_self .., Or.inl hnow⟩
      · exact ⟨rec', (Function.update_of_ne hk _ _).trans hrec', hretired⟩

/-- **The clock goes on**, and no key expires that is about to be replaced. -/
theorem tick (h : Inv s) (seconds : ℕ)
    (hsafe : ∀ op ∈ s.ops, ∀ key, op.pending? = some key →
      { s with now := s.now + seconds }.valid key = true) :
    Inv { s with now := s.now + seconds } := by
  have hpositive := h.positive
  exact ⟨by simp only; omega, h.clock, h.filed, h.new, h.apart, h.single, hsafe, h.replaced, h.kept,
    h.once, h.late, h.accepted⟩

end Inv

/-! ### Steps -/

theorem retired_mono {s s' : State} (hnow : s.now ≤ s'.now)
    (hstore : ∀ key rec, s.store key = some rec → ∃ rec', s'.store key = some rec' ∧
      rec'.expiresAt = rec.expiresAt ∧ (rec.revokedAt ≠ 0 → rec'.revokedAt ≠ 0)) (key : Str)
    (h : s.retired key = true) : s'.retired key = true := by
  obtain ⟨rec, hrec, hretired⟩ := retired_iff.1 h
  obtain ⟨rec', hrec', hexpires, hrevoked⟩ := hstore key rec hrec
  refine retired_iff.2 ⟨rec', hrec', ?_⟩
  rcases hretired with hzero | ⟨hnever, hlt⟩
  · exact Or.inl (hrevoked hzero)
  · rw [hexpires]
    exact Or.inr ⟨hnever, by omega⟩

theorem Sound.of_same {s s' : State} {e : Event} (h : Inv s') (hnow : s'.now = s.now)
    (hstore : s'.store = s.store) (hrotated : s'.rotated = s.rotated) : Sound s e s' where
  retired key hkey := by
    rw [retired_congr hnow (by rw [hstore])]
    exact hkey
  authorised p hp := by
    rw [hrotated] at hp
    exact Or.inl hp
  once := h.once
  accepted := h.accepted

variable {defaultTtlSeconds : ℤ} {s s' : State}

theorem prepared_cases (defaultTtlSeconds now : ℤ) (clientId label : Str) (ttlSeconds : ℤ)
    (keyHex : Option Str) (oldKey : Option Str) :
    prepared defaultTtlSeconds now clientId label ttlSeconds keyHex oldKey = .done ∨
      ∃ key rec, keyHex = some key ∧ rec.key = key ∧
        prepared defaultTtlSeconds now clientId label ttlSeconds keyHex oldKey
          = .creating rec oldKey := by
  unfold prepared prepare
  split
  · exact Or.inl rfl
  · next op hop =>
      split at hop
      · cases hop
      · split at hop
        · cases hop
        · split at hop
          · cases hop
          · next key =>
              cases hop
              exact Or.inr ⟨key, _, rfl, rfl, rfl⟩

theorem Inv.new_of_generated (h : Inv s) {key : Str} (hkey : key ∉ s.generated) :
    s.store key = none ∧ ∀ other ∈ s.ops, other.newKey? ≠ some key := by
  constructor
  · by_contra hne
    obtain ⟨rec, hrec⟩ := Option.ne_none_iff_exists'.1 hne
    exact hkey (h.filed key rec hrec).2
  · intro other hother heq
    exact hkey (h.new other hother key heq).1

theorem revokeSection_eq_ok {store : Str → Option KeyRecord} {key : Str} {now : ℤ}
    {getOk putOk : Bool} {rec' : KeyRecord}
    (h : revokeSection store key now getOk putOk = .ok rec') :
    ∃ rec, store key = some rec ∧ rec' = { rec with revokedAt := now } := by
  unfold revokeSection at h
  split at h
  · cases h
  · cases h
  · next rec hrec =>
      unfold revokeRecord at h
      split at h
      · cases h
      · next rec'' hrevoke =>
          split at h
          · cases h
            split at hrevoke
            · cases hrevoke
            · cases hrevoke
              exact ⟨rec, hrec, rfl⟩
          · cases h

theorem revokeSection_eq_error {store : Str → Option KeyRecord} {key : Str} {now : ℤ}
    {e : KeyError} {rec : KeyRecord} (hrec : store key = some rec)
    (h : revokeSection store key now true true = .error e) : rec.revokedAt ≠ 0 := by
  simp only [revokeSection, hrec, revokeRecord] at h
  split at h
  · next hrevoke =>
      split at hrevoke
      · assumption
      · cases hrevoke
  · cases h

/-- **Every safe step keeps the invariant, and is sound.** -/
theorem Inv.step (h : Inv s) {e : Event} (hsafe : Safe s e s')
    (hstep : step defaultTtlSeconds s e = some s') : Inv s' ∧ Sound s e s' := by
  cases e with
  | tick seconds =>
      cases hstep
      have h' := h.tick seconds fun op hop key hkey => hsafe op hop key hkey
      refine ⟨h', ⟨?_, fun p hp => Or.inl hp, h'.once, h'.accepted⟩⟩
      refine retired_mono (by simp only; omega) ?_
      intro key rec hrec
      exact ⟨rec, hrec, rfl, id⟩
  | createKey clientId label ttlSeconds keyHex =>
      simp only [ApiKey.step] at hstep
      split at hstep
      · cases hstep
      · next hfresh =>
          cases hstep
          have h' : Inv { s with
              ops := s.ops ++
                [prepared defaultTtlSeconds s.now clientId label ttlSeconds keyHex none]
              generated := keyHex.toList ++ s.generated } := by
            refine h.concat (fun key hkey => List.mem_append_right _ hkey) ?_ ?_ ?_ ?_ ?_ <;>
              rcases prepared_cases defaultTtlSeconds s.now clientId label
                ttlSeconds keyHex none with hop | ⟨key, rec, rfl, hkey, hop⟩ <;> rw [hop]
            · simp
            · simp
            · simp [Op.newKey?]
            · intro key' hkey'
              cases hkey'
              rw [hkey]
              refine ⟨by simp, h.new_of_generated ?_⟩
              exact fun hmem => hfresh ⟨key, rfl, hmem⟩
            · simp [Op.rotates?]
            · simp [Op.rotates?]
            · simp [Op.pending?]
            · simp [Op.pending?]
            · simp
            · simp
          exact ⟨h', Sound.of_same h' rfl rfl rfl⟩
  | revoke key =>
      simp only [ApiKey.step] at hstep
      split at hstep
      · cases hstep
        exact ⟨h, Sound.of_same h rfl rfl rfl⟩
      · cases hstep
        have h' : Inv { s with ops := s.ops ++ [.revoking key s.now false] } := by
          refine h.concat (fun _ hkey => hkey) ?_ ?_ ?_ ?_ ?_
          · intro key' now rotation heq
            cases heq
            exact h.positive
          · simp [Op.newKey?]
          · simp [Op.rotates?]
          · simp [Op.pending?]
          · simp
        exact ⟨h', Sound.of_same h' rfl rfl rfl⟩
  | rotate key getOk =>
      simp only [ApiKey.step] at hstep
      split at hstep
      · cases hstep
        exact ⟨h, Sound.of_same h rfl rfl rfl⟩
      · split at hstep
        · next rec hrec =>
            cases hstep
            have hvalid : s.valid key = true := by
              have hretired := hsafe.1
              rw [State.retired, hrec] at hretired
              simpa using hretired
            have h' : Inv { s with ops := s.ops ++ [.copied key rec] } := by
              refine h.concat (fun _ hkey => hkey) ?_ ?_ ?_ ?_ ?_
              · simp
              · simp [Op.newKey?]
              · intro key' hkey'
                cases hkey'
                exact hsafe.2
              · intro key' hkey'
                cases hkey'
                exact hvalid
              · simp
            exact ⟨h', Sound.of_same h' rfl rfl rfl⟩
        · cases hstep
          exact ⟨h, Sound.of_same h rfl rfl rfl⟩
  | validate key =>
      simp only [ApiKey.step] at hstep
      split at hstep
      · cases hstep
        exact ⟨h, Sound.of_same h rfl rfl rfl⟩
      · cases hstep
        have h' : Inv { s with ops := s.ops ++ [.validating key s.now (s.retired key)] } := by
          refine h.concat (fun _ hkey => hkey) ?_ ?_ ?_ ?_ ?_
          · simp
          · simp [Op.newKey?]
          · simp [Op.rotates?]
          · simp [Op.pending?]
          · intro key' now heq
            rw [Op.validating.injEq] at heq
            obtain ⟨rfl, rfl, hretired⟩ := heq
            exact retired_iff.1 hretired
        exact ⟨h', Sound.of_same h' rfl rfl rfl⟩
  | rotateCreate i keyHex =>
      simp only [ApiKey.step] at hstep
      split at hstep
      · next key oldRec hi =>
          split at hstep
          · cases hstep
          · next hfresh =>
              cases hstep
              have h' : Inv { s with
                  ops := s.ops.set i (prepared defaultTtlSeconds s.now oldRec.clientId oldRec.label
                    noExpiry keyHex (some key))
                  generated := keyHex.toList ++ s.generated } := by
                refine h.set hi (fun key hkey => List.mem_append_right _ hkey) ?_ ?_ ?_ ?_ ?_ ?_
                  h.accepted <;>
                  rcases prepared_cases defaultTtlSeconds s.now
                    oldRec.clientId oldRec.label noExpiry keyHex (some key)
                    with hop | ⟨new, rec, rfl, hkey, hop⟩ <;> rw [hop]
                · simp
                · simp
                · simp [Op.newKey?]
                · intro key' hkey'
                  cases hkey'
                  rw [hkey]
                  refine ⟨by simp, h.new_of_generated ?_⟩
                  exact fun hmem => hfresh ⟨new, rfl, hmem⟩
                · simp [Op.rotates?]
                · simp [Op.rotates?]
                · simp [Op.pending?]
                · simp [Op.pending?]
                · intro p _ _ hnone
                  cases hnone
                · intro p _ _ hnone
                  cases hnone
                · simp
                · simp
              exact ⟨h', Sound.of_same h' rfl rfl rfl⟩
      · cases hstep
  | rotateRevoke i =>
      simp only [ApiKey.step] at hstep
      split at hstep
      · next oldKey hi =>
          cases hstep
          have h' : Inv { s with ops := s.ops.set i (.revoking oldKey s.now true) } := by
            refine h.set hi (fun _ hkey => hkey) ?_ ?_ ?_ ?_ ?_ ?_ h.accepted
            · intro key' now rotation heq
              cases heq
              exact h.positive
            · simp [Op.newKey?]
            · simp [Op.rotates?]
            · simp [Op.pending?]
            · intro p _ hkey _
              exact Or.inl ⟨hkey, rfl⟩
            · simp
          exact ⟨h', Sound.of_same h' rfl rfl rfl⟩
      · cases hstep
  | write i ok =>
      simp only [ApiKey.step] at hstep
      split at hstep
      · next rec oldKey hi =>
          have hmem : Op.creating rec oldKey ∈ s.ops := mem_of_getElem? hi
          -- the records there are stay, since the new key has none
          have hkept : ∀ key rec', s.store key = some rec' → ∃ rec'',
              Function.update s.store rec.key (some rec) key = some rec'' ∧
                rec''.expiresAt = rec'.expiresAt ∧
                (rec'.revokedAt ≠ 0 → rec''.revokedAt ≠ 0) := by
            intro key rec' hrec'
            have hne : key ≠ rec.key := by
              rintro rfl
              rw [(h.new _ hmem rec.key rfl).2] at hrec'
              cases hrec'
            exact ⟨rec', (Function.update_of_ne hne _ _).trans hrec', rfl, id⟩
          split at hstep
          · cases hstep
            have h' := h.finish hi (by
              intro p _ hkey hnone
              have heq : (Op.creating rec oldKey).rotates? = none := hnone
              rw [heq] at hkey
              cases hkey) h.accepted
            exact ⟨h', Sound.of_same h' rfl rfl rfl⟩
          · split at hstep
            · cases hstep
              have h' := h.write hi (Or.inl ⟨rfl, rfl, rfl⟩)
              exact ⟨h', ⟨retired_mono (le_refl _) hkept, fun p hp => Or.inl hp, h'.once,
                h'.accepted⟩⟩
            · next key =>
                cases hstep
                have h' := h.write hi (Or.inr ⟨key, rfl, rfl, rfl⟩)
                refine ⟨h', ⟨retired_mono (le_refl _) hkept, ?_, h'.once, h'.accepted⟩⟩
                intro p hp
                rcases mem_concat_cases hp with hp | rfl
                · exact Or.inl hp
                · exact Or.inr (h.pending _ hmem key rfl)
      · cases hstep
  | revokeWrite i getOk putOk =>
      simp only [ApiKey.step] at hstep
      split at hstep
      · next key now rotation hi =>
          simp only [Safe, hi] at hsafe
          split at hstep
          · next e herror =>
              cases hstep
              have h' := h.finish hi (by
                intro p hp hkey _
                cases rotation with
                | false => cases hkey
                | true =>
                    cases hkey
                    obtain ⟨rec, hrec⟩ := h.kept p hp
                    rw [(hsafe.2 rfl).1, (hsafe.2 rfl).2] at herror
                    exact ⟨rec, hrec, revokeSection_eq_error hrec herror⟩) h.accepted
              exact ⟨h', Sound.of_same h' rfl rfl rfl⟩
          · next rec' hok =>
              cases hstep
              obtain ⟨rec, hrec, rfl⟩ := revokeSection_eq_ok hok
              have h' := h.revokeWrite hi hrec hsafe.1
              refine ⟨h', ⟨?_, fun p hp => Or.inl hp, h'.once, h'.accepted⟩⟩
              refine retired_mono (le_refl _) ?_
              intro key' rec'' hrec''
              have hnow := h.clock _ (mem_of_getElem? hi) key now rotation rfl
              by_cases hk : key' = rec.key
              · subst hk
                rw [(h.filed key rec hrec).1, hrec, Option.some.injEq] at hrec''
                subst hrec''
                exact ⟨_, Function.update_self .., rfl, fun _ => by simp only; omega⟩
              · exact ⟨rec'', (Function.update_of_ne hk _ _).trans hrec'', rfl, id⟩
      · cases hstep
  | validateRead i getOk =>
      simp only [ApiKey.step] at hstep
      split at hstep
      · next key now late hi =>
          have hfinish : ∀ accepted : List (Str × Bool), (∀ p ∈ accepted, p.2 = false) →
              Inv { s with ops := s.ops.set i .done, accepted := accepted } := by
            intro accepted haccepted
            refine h.finish hi ?_ haccepted
            intro p _ hkey
            cases hkey
          split at hstep
          · cases hstep
            have h' := hfinish s.accepted h.accepted
            exact ⟨h', Sound.of_same h' rfl rfl rfl⟩
          · next clientId hok =>
              cases hstep
              have hlate : late = false := by
                cases late with
                | false => rfl
                | true =>
                    obtain ⟨rec, hrec, hretired⟩ :=
                      h.late _ (mem_of_getElem? hi) key now rfl
                    cases getOk with
                    | false => simp [validateSection] at hok
                    | true =>
                        simp only [validateSection, hrec] at hok
                        have hvalid := (isOk_checkRecord now rec).1
                          (by rw [hok]; rfl)
                        omega
              have h' := hfinish (s.accepted ++ [(key, late)]) (by
                intro p hp
                rcases mem_concat_cases hp with hp | rfl
                · exact h.accepted p hp
                · exact hlate)
              exact ⟨h', Sound.of_same h' rfl rfl rfl⟩
      · cases hstep

/-! ### Runs -/

theorem Inv.start {now : ℤ} (hnow : 0 < now) : Inv (start now) := by
  refine ⟨hnow, ?_, ?_, ?_, Distinct.nil, Distinct.nil, ?_, ?_, ?_, List.nodup_nil, ?_, ?_⟩ <;>
    simp [ApiKey.start]

/-- **In a run of safe steps the lifecycle of keys is kept in every step.** -/
theorem lifecycle_of_safe (defaultTtlSeconds : ℤ) {now : ℤ} (hnow : 0 < now) (events : List Event)
    (hsafe : EveryStep (step defaultTtlSeconds) Safe (start now) events) :
    EveryStep (step defaultTtlSeconds) Sound (start now) events :=
  EveryStep.of_invariant (fun _ _ _ h hs hstep => h.step hs hstep) (Inv.start hnow) hsafe

/-! ### Keys of a client -/

def sampleClient : Str := Cpp.str "client-1"

def sampleKey (digit : UInt8) : Str := List.replicate keyHexLen digit

def sampleEvents : List Event :=
  [.createKey sampleClient [] 3600 (some (sampleKey 0x61)), .write 0 true,
   .validate (sampleKey 0x61), .tick 10, .validateRead 1 true,
   .rotate (sampleKey 0x61) true, .rotateCreate 2 (some (sampleKey 0x62)), .write 2 true,
   .rotateRevoke 2, .revokeWrite 2 true true,
   .validate (sampleKey 0x62), .revoke (sampleKey 0x62), .tick 1, .revokeWrite 4 true true,
   .validateRead 3 true, .validate (sampleKey 0x61), .validateRead 5 true]

theorem lifecycle_of_safe_sampleEvents :
    EveryStep (step 86400) Safe (start 1700000000) sampleEvents ∧
      (run (step 86400) (start 1700000000) sampleEvents).isSome ∧
      EveryStep (step 86400) Sound (start 1700000000) sampleEvents := by
  have hsafe : EveryStep (step 86400) Safe (start 1700000000) sampleEvents := by
    decide +kernel
  exact ⟨hsafe, by decide +kernel, lifecycle_of_safe 86400 (by decide) sampleEvents hsafe⟩

def sampleLeak : List Event :=
  [.createKey sampleClient [] 0 (some (sampleKey 0x61)), .write 0 true,
   .revoke (sampleKey 0x61), .revokeWrite 1 true true,
   .rotate (sampleKey 0x61) true, .rotateCreate 2 (some (sampleKey 0x62))]

/-- **A revoked key that is rotated gives a new key.** -/
theorem not_lifecycle : ¬ ∀ (defaultTtlSeconds now : ℤ), 0 < now → ∀ events : List Event,
    EveryStep (step defaultTtlSeconds) Sound (start now) events := by
  intro h
  have hsound := h 0 1700000000 (by decide) (sampleLeak ++ [.write 2 true])
  obtain ⟨t, ht⟩ := Option.isSome_iff_exists.1 (by decide +kernel :
    (run (step 0) (start 1700000000) sampleLeak).isSome)
  obtain ⟨u, hu⟩ : ∃ u, step 0 t (.write 2 true) = some u := by
    have hsome : (run (step 0) (start 1700000000) sampleLeak).all
        (fun t => (step 0 t (.write 2 true)).isSome) = true := by decide +kernel
    rw [ht] at hsome
    exact Option.isSome_iff_exists.1 hsome
  have hrotated : (run (step 0) (start 1700000000) sampleLeak).all (fun t =>
      t.rotated == [] && !t.valid (sampleKey 0x61) && (step 0 t (.write 2 true)).all
        (fun u => u.rotated == [(sampleKey 0x61, sampleKey 0x62)])) = true := by decide +kernel
  rw [ht] at hrotated
  simp only [Option.all_some, hu, Bool.and_eq_true, beq_iff_eq, Bool.not_eq_true'] at hrotated
  obtain ⟨⟨hnone, hinvalid⟩, hnew⟩ := hrotated
  rcases (hsound.last ht hu).authorised (sampleKey 0x61, sampleKey 0x62)
    (by rw [hnew]; exact List.mem_singleton_self _) with hold | hvalid
  · rw [hnone] at hold
    cases hold
  · rw [hinvalid] at hvalid
    cases hvalid

end ApiKey
