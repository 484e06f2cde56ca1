/-
**JavaScript maps: finite maps that remember the order of insertion.**

A JavaScript `Map` is a list of entries with distinct keys.  Setting a key that is present
overwrites its value in place, setting a new key appends an entry, and iteration follows the
order of the entries.  `Js.Map` carries the distinctness of its keys as a field, so that no
later proof has to establish it again.

Main definitions:

* `Js.lookup`, `Js.store`, `Js.remove` — reading, writing and deleting in a list of entries;
* `Js.Map` — entries with distinct keys, with `Js.Map.get?`, `Js.Map.set`, `Js.Map.delete`,
  `Js.Map.values` and `Js.Map.size`.

Main results:

* `Js.Map.get?_set` — **reading after writing**;
* `Js.Map.sum_set` — **what a write does to the sum of the values**: the new sum and the
  replaced value together are the old sum and the new value;
* `Js.Map.forall_values_set` — what holds of the written value and of all others holds of all;
* `Js.Map.countP_set` — **what a write does to the number**: the new one, with the value that was
  replaced, is the old one with the value that was written;
* `Js.Map.countP_delete` — what a deletion does to it.
-/

import Mathlib.Algebra.BigOperators.Group.List.Basic
import Mathlib.Data.List.Nodup
import Mathlib.Algebra.GroupWithZero.Nat

set_option autoImplicit false

namespace Js

section Entries

variable {κ ν : Type} [DecidableEq κ]

/-! ### Lists of entries -/

/-- The value of the first entry with key `k`. -/
def lookup (k : κ) : List (κ × ν) → Option ν
  | [] => none
  | (k', v) :: l => if k' = k then some v else lookup k l

/-- Overwrite the entry with key `k` in place, or append one. -/
def store (k : κ) (v : ν) : List (κ × ν) → List (κ × ν)
  | [] => [(k, v)]
  | (k', v') :: l => if k' = k then (k, v) :: l else (k', v') :: store k v l

/-- Drop the entries with key `k`. -/
def remove (k : κ) (l : List (κ × ν)) : List (κ × ν) := l.filter fun e => e.1 ≠ k

@[simp] theorem lookup_nil (k : κ) : lookup k ([] : List (κ × ν)) = none := rfl

theorem lookup_cons (k k' : κ) (v : ν) (l : List (κ × ν)) :
    lookup k ((k', v) :: l) = if k' = k then some v else lookup k l := rfl

theorem lookup_eq_none {k : κ} {l : List (κ × ν)} (h : k ∉ l.map Prod.fst) :
    lookup k l = none := by
  induction l with
  | nil => rfl
  | cons e l ih =>
      obtain ⟨k', v⟩ := e
      simp only [List.map_cons, List.mem_cons, not_or] at h
      rw [lookup_cons, if_neg (Ne.symm h.1), ih h.2]

theorem mem_of_lookup {k : κ} {v : ν} {l : List (κ × ν)} (h : lookup k l = some v) :
    (k, v) ∈ l := by
  induction l with
  | nil => simp at h
  | cons e l ih =>
      obtain ⟨k', v'⟩ := e
      rw [lookup_cons] at h
      split at h
      · next hk => simp_all
      · exact List.mem_cons_of_mem _ (ih h)

theorem lookup_of_mem {k : κ} {v : ν} {l : List (κ × ν)} (hnodup : (l.map Prod.fst).Nodup)
    (h : (k, v) ∈ l) : lookup k l = some v := by
  induction l with
  | nil => exact absurd h List.not_mem_nil
  | cons e l ih =>
      obtain ⟨k', v'⟩ := e
      obtain ⟨hnew, hnodup⟩ := List.nodup_cons.1 hnodup
      rw [lookup_cons]
      rcases List.mem_cons.1 h with heq | h
      · cases heq
        exact if_pos rfl
      · have hmem : k ∈ l.map Prod.fst := List.mem_map.2 ⟨(k, v), h, rfl⟩
        have hne : k' ≠ k := by
          rintro rfl
          exact hnew hmem
        rw [if_neg hne, ih hnodup h]

theorem lookup_store (k k' : κ) (v : ν) (l : List (κ × ν)) :
    lookup k' (store k v l) = if k = k' then some v else lookup k' l := by
  induction l with
  | nil => simp [store, lookup_cons]
  | cons e l ih =>
      obtain ⟨k₁, v₁⟩ := e
      rw [store]
      split
      · next h => subst h; by_cases hk : k₁ = k' <;> simp [lookup_cons, hk]
      · next h =>
          rw [lookup_cons, ih, lookup_cons]
          by_cases h₁ : k₁ = k'
          · subst h₁; simp [Ne.symm h]
          · simp [h₁]

theorem keys_store (k : κ) (v : ν) (l : List (κ × ν)) :
    (store k v l).map Prod.fst =
      if k ∈ l.map Prod.fst then l.map Prod.fst else l.map Prod.fst ++ [k] := by
  induction l with
  | nil => simp [store]
  | cons e l ih =>
      obtain ⟨k', v'⟩ := e
      rw [store]
      split
      · next h => simp [h]
      · next h =>
          rw [List.map_cons, ih]
          by_cases hk : k ∈ l.map Prod.fst
          · simp [hk]
          · simp [hk, Ne.symm h]

theorem keys_remove (k : κ) (l : List (κ × ν)) :
    (remove k l).map Prod.fst = (l.map Prod.fst).filter fun k' => k' ≠ k := by
  rw [remove, List.filter_map]
  rfl

theorem lookup_remove (k k' : κ) (l : List (κ × ν)) :
    lookup k' (remove k l) = if k = k' then none else lookup k' l := by
  induction l with
  | nil => simp [remove]
  | cons e l ih =>
      obtain ⟨k₁, v₁⟩ := e
      rw [remove] at ih ⊢
      rw [List.filter_cons]
      by_cases h₁ : k₁ = k
      · subst h₁
        simp only [ne_eq, not_true_eq_false, decide_false, Bool.false_eq_true, if_false, ih,
          lookup_cons]
        by_cases h : k₁ = k'
        · rw [if_pos h, if_pos h]
        · rw [if_neg h, if_neg h, if_neg h]
      · simp only [ne_eq, h₁, not_false_eq_true, decide_true, if_true, lookup_cons, ih]
        by_cases h : k₁ = k'
        · rw [if_pos h, if_pos h, if_neg fun hk => h₁ (h.trans hk.symm)]
        · rw [if_neg h, if_neg h]

theorem nodup_keys_store {k : κ} {v : ν} {l : List (κ × ν)} (h : (l.map Prod.fst).Nodup) :
    ((store k v l).map Prod.fst).Nodup := by
  rw [keys_store]
  split
  · exact h
  · next hk =>
      refine List.nodup_append.2 ⟨h, List.nodup_singleton k, ?_⟩
      rintro a ha b hb rfl
      exact hk ((List.mem_singleton.1 hb) ▸ ha)

theorem store_of_not_mem {k : κ} {v : ν} {l : List (κ × ν)} (h : k ∉ l.map Prod.fst) :
    store k v l = l ++ [(k, v)] := by
  induction l with
  | nil => rfl
  | cons e l ih =>
      obtain ⟨k', v'⟩ := e
      simp only [List.map_cons, List.mem_cons, not_or] at h
      rw [store, if_neg (Ne.symm h.1), ih h.2, List.cons_append]

theorem store_store (k : κ) (v w : ν) (l : List (κ × ν)) :
    store k v (store k w l) = store k v l := by
  induction l with
  | nil => simp [store]
  | cons e l ih =>
      obtain ⟨k', v'⟩ := e
      by_cases h : k' = k
      · simp [store, h]
      · simp [store, h, ih]

theorem store_of_lookup {k : κ} {v : ν} {l : List (κ × ν)} (h : lookup k l = some v) :
    store k v l = l := by
  induction l with
  | nil => simp at h
  | cons e l ih =>
      obtain ⟨k', v'⟩ := e
      rw [lookup_cons] at h
      rw [store]
      split at h
      · next hk =>
          cases h
          rw [if_pos hk, hk]
      · next hk => rw [if_neg hk, ih h]

theorem not_mem_of_lookup {k : κ} {l : List (κ × ν)} (h : lookup k l = none) :
    k ∉ l.map Prod.fst := by
  induction l with
  | nil => exact List.not_mem_nil
  | cons e l ih =>
      obtain ⟨k', v⟩ := e
      rw [lookup_cons] at h
      split at h
      · cases h
      · next hk =>
          rw [List.map_cons, List.mem_cons, not_or]
          exact ⟨Ne.symm hk, ih h⟩

theorem mem_store {k : κ} {v : ν} {l : List (κ × ν)} {e : κ × ν} (h : e ∈ store k v l) :
    e = (k, v) ∨ e ∈ l := by
  induction l with
  | nil => exact Or.inl (by simpa [store] using h)
  | cons e' l ih =>
      obtain ⟨k', v'⟩ := e'
      rw [store] at h
      split at h
      · rcases List.mem_cons.1 h with h | h
        · exact Or.inl h
        · exact Or.inr (List.mem_cons_of_mem _ h)
      · rcases List.mem_cons.1 h with h | h
        · exact Or.inr (h ▸ List.mem_cons_self)
        · exact (ih h).imp id (List.mem_cons_of_mem _)

theorem sum_map_store {M : Type} [AddCommMonoid M] (f : κ → ν → M) (k : κ) (v : ν)
    (l : List (κ × ν)) :
    ((store k v l).map fun e => f e.1 e.2).sum + ((lookup k l).map (f k)).getD 0 =
      (l.map fun e => f e.1 e.2).sum + f k v := by
  induction l with
  | nil => simp [store]
  | cons e l ih =>
      obtain ⟨k', v'⟩ := e
      rw [store, lookup_cons]
      split
      · next hk =>
          subst hk
          simp only [List.map_cons, List.sum_cons, Option.map_some, Option.getD_some]
          rw [add_right_comm, add_assoc, add_comm (f k' v'), ← add_assoc, add_comm (f k' v),
            add_right_comm]
      · simp only [List.map_cons, List.sum_cons]
        rw [add_assoc, ih, add_assoc]

theorem filterMap_store {α : Type} (f : κ × ν → Option α) {k : κ} (v : ν) {l : List (κ × ν)}
    (h : ∀ v', lookup k l = some v' → f (k, v') = none) :
    ((store k v l).filterMap f).Perm (l.filterMap f ++ (f (k, v)).toList) := by
  induction l with
  | nil =>
      rw [store, List.filterMap_cons]
      cases f (k, v) with
      | none => exact List.Perm.refl _
      | some a => exact List.Perm.refl _
  | cons e l ih =>
      obtain ⟨k', v'⟩ := e
      rw [lookup_cons] at h
      rw [store]
      split at h
      · next hk =>
          subst hk
          rw [if_pos rfl, List.filterMap_cons, List.filterMap_cons, h v' rfl]
          cases f (k', v) with
          | none => simp
          | some a => simpa using (List.perm_append_singleton a _).symm
      · next hk =>
          rw [if_neg hk, List.filterMap_cons, List.filterMap_cons]
          cases f (k', v') with
          | none => exact ih h
          | some a => exact (ih h).cons a

theorem sum_store {M : Type} [AddCommMonoid M] (k : κ) (v : M) (l : List (κ × M)) :
    ((store k v l).map Prod.snd).sum + (lookup k l).getD 0 = (l.map Prod.snd).sum + v := by
  have h := sum_map_store (fun _ x => x) k v l
  rwa [Option.map_id'] at h

end Entries

/-! ### Maps -/

/-- A JavaScript map: entries in the order of insertion, with distinct keys. -/
structure Map (κ ν : Type) where
  /-- The entries, in the order in which iteration visits them. -/
  entries : List (κ × ν)
  /-- No key occurs twice. -/
  nodup : (entries.map Prod.fst).Nodup

namespace Map

variable {κ ν : Type}

@[ext] theorem ext {m m' : Map κ ν} (h : m.entries = m'.entries) : m = m' := by
  cases m; cases m'; simp_all

instance [DecidableEq κ] [DecidableEq ν] : DecidableEq (Map κ ν) := fun m m' =>
  decidable_of_iff (m.entries = m'.entries) ⟨ext, fun h => h ▸ rfl⟩

/-- The map without entries. -/
def empty : Map κ ν := ⟨[], List.nodup_nil⟩

/-- The keys, in order. -/
def keys (m : Map κ ν) : List κ := m.entries.map Prod.fst

/-- The values, in order. -/
def values (m : Map κ ν) : List ν := m.entries.map Prod.snd

/-- The number of entries. -/
def size (m : Map κ ν) : ℕ := m.entries.length

@[simp] theorem values_empty : (empty : Map κ ν).values = [] := rfl

variable [DecidableEq κ]

/-- `map.get(k)`; an absent key reads as `undefined`. -/
def get? (m : Map κ ν) (k : κ) : Option ν := lookup k m.entries

/-- `map.has(k)`. -/
def has (m : Map κ ν) (k : κ) : Bool := (m.get? k).isSome

/-- `map.set(k, v)`. -/
def set (m : Map κ ν) (k : κ) (v : ν) : Map κ ν := ⟨store k v m.entries, nodup_keys_store m.nodup⟩

/-- `map.delete(k)`. -/
def delete (m : Map κ ν) (k : κ) : Map κ ν :=
  ⟨remove k m.entries, m.nodup.sublist (List.filter_sublist.map Prod.fst)⟩

@[simp] theorem get?_empty (k : κ) : (empty : Map κ ν).get? k = none := rfl

/-- **Reading after writing.** -/
theorem get?_set (m : Map κ ν) (k k' : κ) (v : ν) :
    (m.set k v).get? k' = if k = k' then some v else m.get? k' :=
  lookup_store k k' v m.entries

@[simp] theorem get?_set_self (m : Map κ ν) (k : κ) (v : ν) : (m.set k v).get? k = some v := by
  rw [get?_set, if_pos rfl]

theorem get?_set_of_ne (m : Map κ ν) {k k' : κ} (v : ν) (h : k ≠ k') :
    (m.set k v).get? k' = m.get? k' := by
  rw [get?_set, if_neg h]

theorem mem_entries_delete {m : Map κ ν} {k : κ} {e : κ × ν} :
    e ∈ (m.delete k).entries ↔ e ∈ m.entries ∧ e.1 ≠ k := by
  simp [delete, remove]

theorem get?_delete (m : Map κ ν) (k k' : κ) :
    (m.delete k).get? k' = if k = k' then none else m.get? k' := lookup_remove k k' m.entries

theorem has_set (m : Map κ ν) (k k' : κ) (v : ν) :
    (m.set k v).has k' = (decide (k = k') || m.has k') := by
  rw [has, get?_set, has]
  split
  · next h => rw [decide_eq_true h, Bool.true_or]; rfl
  · next h => rw [decide_eq_false h, Bool.false_or]

theorem has_set_of_get? {m : Map κ ν} {k : κ} {v : ν} (h : m.get? k = some v) (w : ν) (k' : κ) :
    (m.set k w).has k' = m.has k' := by
  rw [has_set]
  by_cases hk : k = k'
  · have hhas : m.has k = true := by rw [has, h, Option.isSome_some]
    rw [← hk, hhas, Bool.or_true]
  · rw [decide_eq_false hk, Bool.false_or]

theorem has_of_has_delete {m : Map κ ν} {k k' : κ} (h : (m.delete k).has k' = true) :
    m.has k' = true := by
  rw [has, get?_delete] at h
  split at h
  · exact Bool.noConfusion h
  · exact h

theorem mem_keys_set {m : Map κ ν} {k k' : κ} {v : ν} :
    k' ∈ (m.set k v).keys ↔ k' ∈ m.keys ∨ k' = k := by
  rw [keys, set, keys_store, keys]
  split
  · rename_i hk
    refine ⟨Or.inl, ?_⟩
    rintro (h | rfl)
    · exact h
    · exact hk
  · rw [List.mem_append, List.mem_singleton]

theorem mem_keys_delete {m : Map κ ν} {k k' : κ} :
    k' ∈ (m.delete k).keys ↔ k' ∈ m.keys ∧ k' ≠ k := by
  rw [keys, delete, keys_remove, List.mem_filter, decide_eq_true_iff, keys]

theorem filter_keys_set {p : κ → Bool} {k : κ} (hk : p k = false) (m : Map κ ν) (v : ν) :
    (m.set k v).keys.filter p = m.keys.filter p := by
  rw [keys, set, keys_store, keys]
  split
  · rfl
  · rw [List.filter_append, List.filter_singleton, hk]
    exact List.append_nil _

theorem filter_keys_delete {p : κ → Bool} {k : κ} (hk : p k = false) (m : Map κ ν) :
    (m.delete k).keys.filter p = m.keys.filter p := by
  rw [keys, delete, keys_remove, List.filter_filter, keys]
  refine List.filter_congr fun k' _ => ?_
  by_cases h : k' = k
  · simp [h, hk]
  · simp [h]

theorem values_set_of_get? {m : Map κ ν} {k : κ} (v : ν) (h : m.get? k = none) :
    (m.set k v).values = m.values ++ [v] := by
  change (store k v m.entries).map Prod.snd = m.entries.map Prod.snd ++ [v]
  rw [store_of_not_mem (not_mem_of_lookup h), List.map_append]
  rfl

theorem get?_of_mem {m : Map κ ν} {k : κ} {v : ν} (h : (k, v) ∈ m.entries) :
    m.get? k = some v := lookup_of_mem m.nodup h

theorem set_of_get? {m : Map κ ν} {k : κ} {v : ν} (h : m.get? k = some v) : m.set k v = m :=
  ext (store_of_lookup h)

theorem mem_values_of_get? {m : Map κ ν} {k : κ} {v : ν} (h : m.get? k = some v) :
    v ∈ m.values :=
  List.mem_map.2 ⟨(k, v), mem_of_lookup h, rfl⟩

/-- **What a write does to the sum of the values.** -/
theorem sum_set {M : Type} [AddCommMonoid M] (m : Map κ M) (k : κ) (v : M) :
    (m.set k v).values.sum + (m.get? k).getD 0 = m.values.sum + v :=
  sum_store k v m.entries

theorem sum_map_set {M : Type} [AddCommMonoid M] (f : κ → ν → M) (m : Map κ ν) (k : κ) (v : ν) :
    ((m.set k v).entries.map fun e => f e.1 e.2).sum + ((m.get? k).map (f k)).getD 0 =
      (m.entries.map fun e => f e.1 e.2).sum + f k v :=
  sum_map_store f k v m.entries

theorem forall_values_set {m : Map κ ν} {k : κ} {v : ν} {P : ν → Prop}
    (hm : ∀ x ∈ m.values, P x) (hv : P v) : ∀ x ∈ (m.set k v).values, P x := by
  intro x hx
  obtain ⟨e, he, rfl⟩ := List.mem_map.1 hx
  rcases mem_store he with rfl | he
  · exact hv
  · exact hm _ (List.mem_map.2 ⟨e, he, rfl⟩)

theorem getD_of_forall_values {m : Map κ ν} {P : ν → Prop} (hm : ∀ x ∈ m.values, P x) {d : ν}
    (hd : P d) (k : κ) : P ((m.get? k).getD d) := by
  cases h : m.get? k with
  | none => exact hd
  | some v => exact hm v (mem_values_of_get? h)

end Map

end Js

namespace Js

variable {κ ν : Type}

/-- What a value counts for. -/
def one (p : ν → Bool) (v : ν) : ℕ := if p v then 1 else 0

/-- What an entry counts for, if there is one. -/
def oneOf (p : ν → Bool) (v : Option ν) : ℕ := (v.map (one p)).getD 0

@[simp] theorem oneOf_none (p : ν → Bool) : oneOf p none = 0 := rfl

@[simp] theorem oneOf_some (p : ν → Bool) (v : ν) : oneOf p (some v) = one p v := rfl

theorem countP_map_snd (p : ν → Bool) (l : List (κ × ν)) :
    (l.map Prod.snd).countP p = (l.map fun e => one p e.2).sum := by
  induction l with
  | nil => rfl
  | cons e l ih =>
      rw [List.map_cons, List.countP_cons, ih, List.map_cons, List.sum_cons, one, Nat.add_comm]

variable [DecidableEq κ]

theorem countP_remove (p : ν → Bool) (k : κ) {l : List (κ × ν)} (h : (l.map Prod.fst).Nodup) :
    ((remove k l).map Prod.snd).countP p + oneOf p (lookup k l) = (l.map Prod.snd).countP p := by
  induction l with
  | nil => rfl
  | cons e l ih =>
      obtain ⟨k', v⟩ := e
      rw [List.map_cons, List.nodup_cons] at h
      rw [lookup_cons, List.map_cons, List.countP_cons, ← ih h.2]
      by_cases hk : k' = k
      · subst hk
        have hrest : lookup k' l = none := lookup_eq_none h.1
        have hremove : remove k' ((k', v) :: l) = remove k' l := by
          rw [remove, List.filter_cons_of_neg (by simp), remove]
        rw [hremove, if_pos rfl, hrest, oneOf_none, oneOf_some, one, Nat.add_zero]
      · have hremove : remove k ((k', v) :: l) = (k', v) :: remove k l := by
          rw [remove, List.filter_cons_of_pos (by simpa using hk), remove]
        rw [hremove, if_neg hk, List.map_cons, List.countP_cons, Nat.add_right_comm]

namespace Map

/-- **What a write does to the number of values that pass a test.** -/
theorem countP_set (p : ν → Bool) (m : Map κ ν) (k : κ) (v : ν) :
    (m.set k v).values.countP p + oneOf p (m.get? k) = m.values.countP p + one p v := by
  rw [values, values, countP_map_snd, countP_map_snd]
  exact sum_map_set (fun _ => one p) m k v

theorem countP_delete (p : ν → Bool) (m : Map κ ν) (k : κ) :
    (m.delete k).values.countP p + oneOf p (m.get? k) = m.values.countP p :=
  countP_remove p k m.nodup

end Map

end Js
