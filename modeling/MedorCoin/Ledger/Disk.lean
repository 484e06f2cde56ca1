/-
**Sequences of writes, and a store that loses unsynced ones.**

A store of values under keys, and a list of writes to it: each puts a value under a key or deletes
the key.  What a key holds after the list depends only on the last write to it.  So writes to
different keys may change places, and a write may be left out when a later one has its key.

A write to a store reaches the disk when it is synced, or when a later write is.  A crash keeps any
of the writes that were not, in their order.  What a crash may have lost is brought back by writing
a list of writes again, the redo list, which is kept elsewhere.

A redo list is good for the values the store should have if, key by key, either redoing the list
gives the right value whatever the store holds, or the list leaves the key alone, the key has the
right value and no crash can take it away.

Main definitions:

* `Ledger.Write` — a write; `Ledger.after` — what a key holds after a list of writes;
* `Ledger.Disk` — a store with its unsynced writes; `Ledger.Disk.write`, `Ledger.Disk.crash`;
* `Ledger.Redoes` — **a redo list that is good for given values**.

Main results:

* `Ledger.after_move` — a write may be moved in front of writes to other keys;
* `Ledger.after_superseded` — a write may be left out if its key is written again;
* `Ledger.after_of_forall_value` — writing the values that are there changes nothing;
* `Ledger.Redoes.crash`, `Ledger.Redoes.rewrites` — a redo list stays good over crashes and over
  beginnings of the redoing;
* `Ledger.Redoes.get_writeAll` — **redoing brings the values back**;
* `Ledger.Redoes.log` — a write is put at the end of the redo list before it is made;
* `Ledger.Redoes.checkpoint` — **a redo list may be replaced by a snapshot** and a later part of
  it, if these have the key of every unsynced write.
-/

import Mathlib.Data.List.Basic

set_option autoImplicit false

namespace Ledger

/-- A write to a store. -/
inductive Write (κ ν : Type)
  | put (key : κ) (value : ν)
  | delete (key : κ)
  deriving DecidableEq

namespace Write

variable {κ ν : Type}

def key : Write κ ν → κ
  | put key _ => key
  | delete key => key

/-- What the key holds afterwards. -/
def value? : Write κ ν → Option ν
  | put _ value => some value
  | delete _ => none

end Write

variable {κ ν : Type} [DecidableEq κ]

/-- What a key holds after a list of writes. -/
def after (key : κ) (writes : List (Write κ ν)) (old : Option ν) : Option ν :=
  writes.foldl (fun held w => if w.key = key then w.value? else held) old

variable {key : κ} {old : Option ν} {w : Write κ ν} {writes : List (Write κ ν)}

@[simp] theorem after_nil : after key ([] : List (Write κ ν)) old = old := rfl

theorem after_cons : after key (w :: writes) old =
    after key writes (if w.key = key then w.value? else old) := rfl

theorem after_append (writes writes' : List (Write κ ν)) :
    after key (writes ++ writes') old = after key writes' (after key writes old) :=
  List.foldl_append

theorem after_concat (writes : List (Write κ ν)) (w : Write κ ν) :
    after key (writes ++ [w]) old = if w.key = key then w.value? else after key writes old :=
  after_append writes [w]

theorem after_of_forall_ne (h : ∀ w ∈ writes, w.key ≠ key) : after key writes old = old := by
  induction writes generalizing old with
  | nil => rfl
  | cons w writes ih =>
      rw [after_cons, if_neg (h w List.mem_cons_self),
        ih fun w' hw' => h w' (List.mem_cons_of_mem _ hw')]

theorem after_of_mem (hw : w ∈ writes) (hkey : w.key = key) (old old' : Option ν) :
    after key writes old = after key writes old' := by
  induction writes generalizing old old' with
  | nil => cases hw
  | cons w' writes ih =>
      rw [after_cons, after_cons]
      by_cases hkey' : w'.key = key
      · rw [if_pos hkey', if_pos hkey']
      · rw [if_neg hkey', if_neg hkey']
        rcases List.mem_cons.1 hw with rfl | hw
        · exact absurd hkey hkey'
        · exact ih hw old old'

theorem after_of_forall_value {value : κ → Option ν} (h : ∀ w ∈ writes, w.value? = value w.key) :
    after key writes (value key) = value key := by
  induction writes with
  | nil => rfl
  | cons w writes ih =>
      have hrest := ih fun w' hw' => h w' (List.mem_cons_of_mem _ hw')
      rw [after_cons]
      split
      · rename_i hkey
        rw [h w List.mem_cons_self, hkey, hrest]
      · exact hrest

theorem after_of_nodup (hnodup : (writes.map Write.key).Nodup) (hw : w ∈ writes)
    (old : Option ν) : after w.key writes old = w.value? := by
  induction writes generalizing old with
  | nil => cases hw
  | cons w' writes ih =>
      obtain ⟨hnew, hnodup⟩ := List.nodup_cons.1 hnodup
      rcases List.mem_cons.1 hw with rfl | hw
      · have hnot : ∀ w' ∈ writes, w'.key ≠ w.key := fun w' hw' hkey =>
          hnew (hkey ▸ List.mem_map_of_mem hw')
        rw [after_cons, if_pos rfl, after_of_forall_ne hnot]
      · rw [after_cons, ih hnodup hw]

/-- **A write may be moved in front of writes to other keys.** -/
theorem after_move {front : List (Write κ ν)} (h : ∀ w' ∈ front, w'.key ≠ w.key)
    (back : List (Write κ ν)) :
    after key (front ++ w :: back) old = after key (w :: (front ++ back)) old := by
  rw [after_append, after_cons, after_cons, after_append]
  by_cases hkey : w.key = key
  · have hfront : ∀ w' ∈ front, w'.key ≠ key := fun w' hw' => hkey ▸ h w' hw'
    rw [if_pos hkey, if_pos hkey, after_of_forall_ne hfront]
  · rw [if_neg hkey, if_neg hkey]

/-- **A write may be left out if its key is written again.** -/
theorem after_superseded {w' : Write κ ν} (hw' : w' ∈ writes) (hkey : w'.key = w.key) :
    after key (w :: writes) old = after key writes old := by
  rw [after_cons]
  by_cases h : w.key = key
  · exact after_of_mem hw' (hkey.trans h) _ _
  · rw [if_neg h]

end Ledger

namespace Ledger

/-- A store: the values that are on the disk, and the writes that may not be. -/
structure Disk (κ ν : Type) where
  synced : κ → Option ν
  unsynced : List (Write κ ν) := []

variable {κ ν : Type} [DecidableEq κ]

namespace Disk

/-- What the store holds under a key. -/
def get (d : Disk κ ν) (key : κ) : Option ν := after key d.unsynced (d.synced key)

/-- A write, which syncs the writes before it if it is synced itself. -/
def write (d : Disk κ ν) (w : Write κ ν) (sync : Bool) : Disk κ ν :=
  if sync then { synced := fun key => after key (d.unsynced ++ [w]) (d.synced key) }
  else { d with unsynced := d.unsynced ++ [w] }

/-- Several writes, each synced or not. -/
def writeAll (d : Disk κ ν) (writes : List (Write κ ν × Bool)) : Disk κ ν :=
  writes.foldl (fun d e => d.write e.1 e.2) d

/-- The store after a crash that keeps these of its unsynced writes. -/
def crash (d : Disk κ ν) (kept : List (Write κ ν)) : Disk κ ν :=
  { synced := fun key => after key kept (d.synced key) }

/-- No crash makes a difference to what the key holds. -/
def Settled (d : Disk κ ν) (key : κ) : Prop := ∀ w ∈ d.unsynced, w.key ≠ key

variable {d : Disk κ ν} {key : κ} {w : Write κ ν}

theorem get_write (d : Disk κ ν) (w : Write κ ν) (sync : Bool) (key : κ) :
    (d.write w sync).get key = if w.key = key then w.value? else d.get key := by
  cases sync with
  | true => exact after_concat d.unsynced w
  | false => exact after_concat d.unsynced w

theorem get_writeAll (d : Disk κ ν) (writes : List (Write κ ν × Bool)) (key : κ) :
    (d.writeAll writes).get key = after key (writes.map Prod.fst) (d.get key) := by
  induction writes generalizing d with
  | nil => rfl
  | cons e writes ih =>
      rw [writeAll, List.foldl_cons, ← writeAll, ih, get_write, List.map_cons, after_cons]

theorem Settled.write (h : d.Settled key) (hw : w.key ≠ key) (sync : Bool) :
    (d.write w sync).Settled key := by
  intro w' hw'
  cases sync with
  | true => cases hw'
  | false =>
      rcases List.mem_append.1 hw' with hw' | hw'
      · exact h w' hw'
      · rwa [List.mem_singleton.1 hw']

theorem settled_crash (d : Disk κ ν) (kept : List (Write κ ν)) (key : κ) :
    (d.crash kept).Settled key := fun _ hw => absurd hw List.not_mem_nil

theorem Settled.get_crash (h : d.Settled key) {kept : List (Write κ ν)}
    (hkept : ∀ w ∈ kept, w ∈ d.unsynced) : (d.crash kept).get key = d.get key := by
  have hnot : ∀ w ∈ kept, w.key ≠ key := fun w hw => h w (hkept w hw)
  rw [get, get, after_of_forall_ne h]
  exact after_of_forall_ne hnot

end Disk

/-! ### Redo lists -/

/-- **A redo list that is good for given values.** -/
def Redoes (redo : List (Write κ ν)) (d : Disk κ ν) (value : κ → Option ν) : Prop :=
  ∀ key, (∀ old, after key redo old = value key) ∨
    (∀ w ∈ redo, w.key ≠ key) ∧ d.Settled key ∧ d.get key = value key

namespace Redoes

variable {redo : List (Write κ ν)} {d : Disk κ ν} {value : κ → Option ν}

theorem nil (synced : κ → Option ν) : Redoes [] { synced } synced := fun _ =>
  Or.inr ⟨fun _ hw => absurd hw List.not_mem_nil, fun _ hw => absurd hw List.not_mem_nil, rfl⟩

/-- A redo list stays good over a crash. -/
theorem crash (h : Redoes redo d value) {kept : List (Write κ ν)}
    (hkept : ∀ w ∈ kept, w ∈ d.unsynced) : Redoes redo (d.crash kept) value := by
  intro key
  rcases h key with hredo | ⟨hnot, hsettled, hget⟩
  · exact Or.inl hredo
  · exact Or.inr ⟨hnot, d.settled_crash kept key, (hsettled.get_crash hkept).trans hget⟩

theorem rewrite (h : Redoes redo d value) {w : Write κ ν}
    (hw : ∃ w' ∈ redo, w'.key = w.key) (sync : Bool) : Redoes redo (d.write w sync) value := by
  intro key
  rcases h key with hredo | ⟨hnot, hsettled, hget⟩
  · exact Or.inl hredo
  · obtain ⟨w', hmem, hkey⟩ := hw
    have hne : w.key ≠ key := hkey ▸ hnot w' hmem
    refine Or.inr ⟨hnot, hsettled.write hne sync, ?_⟩
    rw [Disk.get_write, if_neg hne, hget]

theorem rewrites {writes : List (Write κ ν × Bool)} (h : Redoes redo d value)
    (hwrites : ∀ e ∈ writes, ∃ w ∈ redo, w.key = e.1.key) :
    Redoes redo (d.writeAll writes) value := by
  induction writes generalizing d with
  | nil => exact h
  | cons e writes ih =>
      exact ih (h.rewrite (hwrites e List.mem_cons_self) e.2) fun e' he' =>
        hwrites e' (List.mem_cons_of_mem _ he')

/-- **Redoing brings the values back.** -/
theorem get_writeAll {writes : List (Write κ ν × Bool)} (h : Redoes redo d value)
    (hwrites : ∀ key old, after key (writes.map Prod.fst) old = after key redo old) (key : κ) :
    (d.writeAll writes).get key = value key := by
  rw [Disk.get_writeAll, hwrites]
  rcases h key with hredo | ⟨hnot, -, hget⟩
  · exact hredo _
  · rw [after_of_forall_ne hnot, hget]

theorem log (h : Redoes redo d value) (w : Write κ ν) :
    Redoes (redo ++ [w]) d fun key => if w.key = key then w.value? else value key := by
  intro key
  by_cases hkey : w.key = key
  · refine Or.inl fun old => ?_
    rw [after_concat, if_pos hkey]
    exact (if_pos hkey).symm
  · simp only [if_neg hkey]
    rcases h key with hredo | ⟨hnot, hsettled, hget⟩
    · refine Or.inl fun old => ?_
      rw [after_concat, if_neg hkey, hredo]
    · refine Or.inr ⟨fun w' hw' => ?_, hsettled, hget⟩
      rcases List.mem_append.1 hw' with hw' | hw'
      · exact hnot w' hw'
      · rwa [List.mem_singleton.1 hw']

/-- **A redo list may be replaced by a snapshot of the store and a later part of the list**, if
these have the key of every unsynced write.  The later part is all that was logged after an earlier
snapshot, or nothing. -/
theorem checkpoint {front later snapshot : List (Write κ ν)} (h : Redoes (front ++ later) d value)
    (hvalue : ∀ key, d.get key = value key)
    (hsnapshot : ∀ w ∈ snapshot, w.value? = value w.key)
    (hcovered : ∀ u ∈ d.unsynced, ∃ w ∈ snapshot ++ later, w.key = u.key) :
    Redoes (snapshot ++ later) d value := by
  intro key
  by_cases hlater : ∃ w ∈ later, w.key = key
  · -- the later part decides alone, with the new snapshot as with the old one
    obtain ⟨w, hw, hkey⟩ := hlater
    rcases h key with hredo | ⟨hnot, -, -⟩
    · refine Or.inl fun old => ?_
      rw [after_append, after_of_mem hw hkey _ (after key front old), ← after_append, hredo]
    · exact absurd hkey (hnot w (List.mem_append_right _ hw))
  · have hnot : ∀ w ∈ later, w.key ≠ key := fun w hw hkey => hlater ⟨w, hw, hkey⟩
    by_cases hmem : ∃ w ∈ snapshot, w.key = key
    · obtain ⟨w, hw, hkey⟩ := hmem
      refine Or.inl fun old => ?_
      rw [after_append, after_of_forall_ne hnot, after_of_mem hw hkey _ (value key)]
      exact after_of_forall_value hsnapshot
    · have hmiss : ∀ w ∈ snapshot ++ later, w.key ≠ key := by
        intro w hw hkey
        rcases List.mem_append.1 hw with hw | hw
        · exact hmem ⟨w, hw, hkey⟩
        · exact hnot w hw hkey
      refine Or.inr ⟨hmiss, fun u hu hkey => ?_, hvalue key⟩
      obtain ⟨w, hw, hw'⟩ := hcovered u hu
      exact hmiss w hw (hw'.trans hkey)

end Redoes

end Ledger
