/-
**The engine over Redis, and taking a block back.**

This engine keeps its state in Redis.  A script commits a block in one go: unless the last block is
another than the one it builds on, it writes the record of the block and that of its hash, adds the
changes to the fields of the users, and moves the tip.  Rolling a block back reads its changes from
its record, subtracts them, deletes the record and sets the height.

Amounts are integers here, and the data of a block is its list of changes, which the program writes
as a text and parses again.

Main definitions:

* `RedisEngine.Redis` — what is kept, key by key;
* `RedisEngine.commitBlock`, `RedisEngine.rollbackBlock` — the two operations;
* `RedisEngine.Undone` — what a rollback is for.

Main results:

* `RedisEngine.increments_apply` — a field after a list of changes;
* `RedisEngine.rollbackBlock_commitBlock` — what a rollback leaves of a commit;
* `RedisEngine.accepts_rollbackBlock` — **after it the engine follows only what builds on the block
  that it took back**;
* `RedisEngine.undone_iff` — when a rollback is the inverse of the commit;
  `RedisEngine.not_undone_tip` — that it is not.
-/

import MedorCoin.Js.Text
import Mathlib.Algebra.BigOperators.Group.List.Basic
import Mathlib.Data.Int.Notation
import Mathlib.Logic.Function.Basic
import Mathlib.Tactic.Ring

set_option autoImplicit false

namespace RedisEngine

open Js

/-! ### The records -/

/-- A change of a field of a user. -/
structure Change where
  address : Str
  field : Str
  delta : ℤ
deriving DecidableEq

structure Block where
  height : ℤ
  hash : Str
  prevHash : Str

/-- What Redis keeps for the engine.  `user` has the fields of `user:<address>:state`, the next two
those of `mdc:blocks:<height>`, `heightOf` is `mdc:hash:<hash>`, and the rest `mdc:meta:stats`. -/
structure Redis where
  user : Str × Str → Option ℤ
  hash : ℤ → Option Str
  data : ℤ → Option (List Change)
  heightOf : Str → Option ℤ
  lastBlockHash : Option Str
  currentHeight : Option ℤ
  lastUpdateTime : Option ℤ

/-- `hincrbyfloat`: a field that is missing counts as zero. -/
def hincrbyfloat (user : Str × Str → Option ℤ) (key : Str × Str) (delta : ℤ) :
    Str × Str → Option ℤ :=
  Function.update user key (some ((user key).getD 0 + delta))

/-! ### The operations -/

/-- The test of the script: there is no last block, or it is the one that the block builds on. -/
def Accepts (r : Redis) (block : Block) : Prop :=
  ∀ lastHash ∈ r.lastBlockHash, lastHash = block.prevHash

instance (r : Redis) (block : Block) : Decidable (Accepts r block) := by
  unfold Accepts
  infer_instance

/-- What the script writes. -/
def write (r : Redis) (block : Block) (changes : List Change) (now : ℤ) : Redis where
  hash := Function.update r.hash block.height (some block.hash)
  data := Function.update r.data block.height (some changes)
  heightOf := Function.update r.heightOf block.hash (some block.height)
  user := changes.foldl (fun user change =>
    hincrbyfloat user (change.address, change.field) change.delta) r.user
  lastBlockHash := some block.hash
  currentHeight := some block.height
  lastUpdateTime := some now

/-- `rollbackBlock(height)`. -/
def rollbackBlock (r : Redis) (height : ℤ) : Redis :=
  match r.data height with
  | none => r
  | some changes =>
      { r with
        user := changes.foldl (fun user change =>
          hincrbyfloat user (change.address, change.field) (-change.delta)) r.user
        hash := Function.update r.hash height none
        data := Function.update r.data height none
        currentHeight := some (height - 1) }

/-- `commitBlock(block, stateChanges)` and whether it returns.  The script answers a fork with an
error; a client that `throws` it leaves nothing to do, one that returns it makes the engine roll the
height back before it throws. -/
def commitBlock (throws : Bool) (r : Redis) (block : Block) (changes : List Change) (now : ℤ) :
    Bool × Redis :=
  if Accepts r block then (true, write r block changes now)
  else (false, if throws then r else rollbackBlock r block.height)

theorem commitBlock_of_accepts {throws : Bool} {r : Redis} {block : Block} {changes : List Change}
    {now : ℤ} (h : Accepts r block) :
    commitBlock throws r block changes now = (true, write r block changes now) :=
  if_pos h

theorem fst_commitBlock (throws : Bool) (r : Redis) (block : Block) (changes : List Change)
    (now : ℤ) : (commitBlock throws r block changes now).1 = decide (Accepts r block) := by
  by_cases h : Accepts r block
  · rw [commitBlock_of_accepts h, decide_eq_true h]
  · rw [commitBlock, if_neg h, decide_eq_false h]

/-! ### Lists of changes -/

/-- What a list of changes adds to a field. -/
def total (changes : List Change) (key : Str × Str) : ℤ :=
  ((changes.filter fun change => (change.address, change.field) = key).map Change.delta).sum

/-- A list of changes, each with a factor. -/
def increments (factor : ℤ) (changes : List Change) (user : Str × Str → Option ℤ) :
    Str × Str → Option ℤ :=
  changes.foldl (fun user change =>
    hincrbyfloat user (change.address, change.field) (factor * change.delta)) user

/-- **A field after a list of changes:** where one of them is about it, it has the value before,
or zero, with all of them added. -/
theorem increments_apply (factor : ℤ) (changes : List Change) (user : Str × Str → Option ℤ)
    (key : Str × Str) :
    increments factor changes user key =
      if ∃ change ∈ changes, (change.address, change.field) = key then
        some ((user key).getD 0 + factor * total changes key)
      else user key := by
  induction changes generalizing user with
  | nil => simp [increments]
  | cons change changes ih =>
      have hcons : increments factor (change :: changes) user =
          increments factor changes
            (hincrbyfloat user (change.address, change.field) (factor * change.delta)) := rfl
      rw [hcons, ih]
      by_cases hkey : (change.address, change.field) = key
      · have htotal : total (change :: changes) key = change.delta + total changes key := by
          simp [total, hkey]
        have hvalue : hincrbyfloat user (change.address, change.field) (factor * change.delta) key =
            some ((user key).getD 0 + factor * change.delta) := by
          rw [hincrbyfloat, hkey, Function.update_self]
        have hmem : ∃ c ∈ change :: changes, (c.address, c.field) = key :=
          ⟨change, List.mem_cons_self .., hkey⟩
        rw [hvalue, if_pos hmem, htotal]
        split
        · rw [Option.getD_some]
          congr 1
          ring
        · next hnone =>
            have hzero : total changes key = 0 := by
              rw [total, List.filter_eq_nil_iff.2 fun c hc h => hnone ⟨c, hc, by simpa using h⟩]
              rfl
            rw [hzero, add_zero]
      · have htotal : total (change :: changes) key = total changes key := by
          simp [total, hkey]
        have hvalue : hincrbyfloat user (change.address, change.field) (factor * change.delta) key =
            user key := by
          rw [hincrbyfloat, Function.update_of_ne (Ne.symm hkey)]
        simp only [hvalue, htotal, List.mem_cons, exists_eq_or_imp, hkey, false_or]

/-- Adding the changes and subtracting them leaves every field with a value as it was; a field that
was missing is left with zero. -/
theorem increments_neg_increments (changes : List Change) (user : Str × Str → Option ℤ)
    (key : Str × Str) :
    increments (-1) changes (increments 1 changes user) key =
      if ∃ change ∈ changes, (change.address, change.field) = key then some ((user key).getD 0)
      else user key := by
  rw [increments_apply, increments_apply]
  split
  · rw [Option.getD_some]
    congr 1
    ring
  · rfl

theorem increments_neg_increments_eq_iff (changes : List Change) (user : Str × Str → Option ℤ) :
    increments (-1) changes (increments 1 changes user) = user ↔
      ∀ change ∈ changes, user (change.address, change.field) ≠ none := by
  constructor
  · intro h change hchange hnone
    have hkey := congrFun h (change.address, change.field)
    rw [increments_neg_increments, if_pos ⟨change, hchange, rfl⟩, hnone] at hkey
    cases hkey
  · intro h
    funext key
    rw [increments_neg_increments]
    split
    · next hchange =>
        obtain ⟨change, hmem, rfl⟩ := hchange
        obtain ⟨value, hvalue⟩ := Option.ne_none_iff_exists'.1 (h change hmem)
        rw [hvalue, Option.getD_some]
    · rfl

/-! ### A commit and its rollback -/

theorem update_update_eq_iff {α β : Type} [DecidableEq α] (f : α → Option β) (a : α) (b : β) :
    Function.update (Function.update f a (some b)) a none = f ↔ f a = none := by
  rw [Function.update_idem, Function.update_eq_self_iff, eq_comm]

/-- **What a rollback leaves of a commit.** -/
theorem rollbackBlock_commitBlock (r : Redis) (block : Block) (changes : List Change) (now : ℤ) :
    rollbackBlock (write r block changes now) block.height =
      { user := increments (-1) changes (increments 1 changes r.user)
        hash := Function.update r.hash block.height none
        data := Function.update r.data block.height none
        heightOf := Function.update r.heightOf block.hash (some block.height)
        lastBlockHash := some block.hash
        currentHeight := some (block.height - 1)
        lastUpdateTime := some now } := by
  have hdata : (write r block changes now).data block.height = some changes :=
    Function.update_self ..
  rw [rollbackBlock, hdata]
  simp only [write, Function.update_idem, increments, one_mul, neg_one_mul]

/-- **After a rollback the engine follows only what builds on the block that it took back.** -/
theorem accepts_rollbackBlock (r : Redis) (block : Block) (changes : List Change) (now : ℤ)
    (next : Block) :
    Accepts (rollbackBlock (write r block changes now) block.height) next ↔
      next.prevHash = block.hash := by
  rw [rollbackBlock_commitBlock, Accepts]
  simp [eq_comm]

/-- **A rollback is the inverse of the commit:** where the engine accepts a block, taking it back
restores all that is kept, and the engine accepts the same blocks as before. -/
def Undone (throws : Bool) (r : Redis) (block : Block) (changes : List Change) (now : ℤ) : Prop :=
  (commitBlock throws r block changes now).1 = true →
    rollbackBlock (commitBlock throws r block changes now).2 block.height = r ∧
      ∀ (next : Block) (changes' : List Change) (now' : ℤ),
        (commitBlock throws
            (rollbackBlock (commitBlock throws r block changes now).2 block.height)
            next changes' now').1 =
          (commitBlock throws r next changes' now').1

/-- What has to be there already: all that the commit writes and the rollback does not take back,
and a value in every field that is changed; and no record of a block may be at the height. -/
structure Prepared (r : Redis) (block : Block) (changes : List Change) (now : ℤ) : Prop where
  lastBlockHash : r.lastBlockHash = some block.hash
  heightOf : r.heightOf block.hash = some block.height
  currentHeight : r.currentHeight = some (block.height - 1)
  lastUpdateTime : r.lastUpdateTime = some now
  hash : r.hash block.height = none
  data : r.data block.height = none
  user : ∀ change ∈ changes, r.user (change.address, change.field) ≠ none

theorem rollbackBlock_commitBlock_eq_iff (r : Redis) (block : Block) (changes : List Change)
    (now : ℤ) :
    rollbackBlock (write r block changes now) block.height = r ↔
      Prepared r block changes now := by
  rw [rollbackBlock_commitBlock]
  constructor
  · intro h
    have hhash := (update_update_eq_iff r.hash block.height block.hash).1 (by
      rw [Function.update_idem]
      exact congrArg Redis.hash h)
    have hdata := (update_update_eq_iff r.data block.height changes).1 (by
      rw [Function.update_idem]
      exact congrArg Redis.data h)
    exact {
      lastBlockHash := (congrArg Redis.lastBlockHash h).symm
      heightOf := (Function.update_eq_self_iff.1 (congrArg Redis.heightOf h)).symm
      currentHeight := (congrArg Redis.currentHeight h).symm
      lastUpdateTime := (congrArg Redis.lastUpdateTime h).symm
      hash := hhash
      data := hdata
      user := (increments_neg_increments_eq_iff changes r.user).1 (congrArg Redis.user h) }
  · intro h
    rw [(increments_neg_increments_eq_iff changes r.user).2 h.user,
      Function.update_eq_self_iff.2 h.hash.symm, Function.update_eq_self_iff.2 h.data.symm,
      Function.update_eq_self_iff.2 h.heightOf.symm, ← h.lastBlockHash, ← h.currentHeight,
      ← h.lastUpdateTime]

/-- **When a rollback is the inverse of the commit.**  The block is refused; or all that a rollback
does not restore was there before the commit, the hash of the block as that of the tip among it, and
so the block was its own predecessor or the first. -/
theorem undone_iff (throws : Bool) (r : Redis) (block : Block) (changes : List Change) (now : ℤ) :
    Undone throws r block changes now ↔
      ¬ Accepts r block ∨ Prepared r block changes now := by
  by_cases haccepts : Accepts r block
  · rw [Undone, commitBlock_of_accepts haccepts, rollbackBlock_commitBlock_eq_iff]
    constructor
    · exact fun h => .inr (h rfl).1
    · rintro (h | h) -
      · exact absurd haccepts h
      · refine ⟨h, fun next changes' now' => ?_⟩
        rw [(rollbackBlock_commitBlock_eq_iff r block changes now).2 h]
  · rw [Undone, fst_commitBlock, decide_eq_true_iff]
    exact ⟨fun _ => .inl haccepts, fun _ h => absurd h haccepts⟩

/-- The tip is `b0`, and `b1` is committed and taken back: `c1`, which builds on `b0` too and would
have been accepted before, is now refused. -/
theorem not_undone_tip :
    ¬ Undone true
      { user := fun _ => some 5, hash := fun _ => none, data := fun _ => none,
        heightOf := fun _ => none, lastBlockHash := some "b0".toList, currentHeight := some 0,
        lastUpdateTime := some 0 }
      ⟨1, "b1".toList, "b0".toList⟩ [⟨"alice".toList, "balance".toList, 7⟩] 1 := by
  intro h
  have hsame := (h rfl).2 ⟨1, "c1".toList, "b0".toList⟩ [] 2
  exact absurd hsame (by decide)

end RedisEngine
