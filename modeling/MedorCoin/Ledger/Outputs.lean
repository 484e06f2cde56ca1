/-
**A set of outputs: finite maps from which keys are spent and into which outputs are created.**

A ledger of outputs is a finite map.  A transaction takes a list of keys away from it and then puts
a list of outputs in.  The lookups after both are known, and so is how the total changes, whatever
it is that is summed up.

Main definitions:

* `Ledger.spend`, `Ledger.create`;
* `Ledger.total` — the sum of a weight over the outputs.

Main results:

* `Ledger.lookup_spend`, `Ledger.mem_spend`, `Ledger.mem_create`, `Ledger.lookup_create_of_mem`,
  `Ledger.lookup_create_of_not_mem` — **what is there afterwards**;
* `Ledger.total_spend`, `Ledger.total_create` — **what the total is afterwards**.
-/

import Mathlib.Algebra.GroupWithZero.Nat
import Mathlib.Data.Finmap
import Mathlib.Algebra.BigOperators.Group.Multiset.Basic

set_option autoImplicit false

namespace Ledger

variable {K V : Type} [DecidableEq K] {m : Finmap fun _ : K => V} {k : K}

/-! ### What is there -/

/-- Take the keys away. -/
def spend (m : Finmap fun _ : K => V) (keys : List K) : Finmap fun _ : K => V :=
  keys.foldl (fun m k => m.erase k) m

/-- Put the outputs in. -/
def create (m : Finmap fun _ : K => V) (outputs : List (K × V)) : Finmap fun _ : K => V :=
  outputs.foldl (fun m output => m.insert output.1 output.2) m

@[simp] theorem spend_nil (m : Finmap fun _ : K => V) : spend m [] = m := rfl

theorem spend_cons (m : Finmap fun _ : K => V) (k : K) (keys : List K) :
    spend m (k :: keys) = spend (m.erase k) keys := rfl

@[simp] theorem create_nil (m : Finmap fun _ : K => V) : create m [] = m := rfl

theorem create_cons (m : Finmap fun _ : K => V) (output : K × V) (outputs : List (K × V)) :
    create m (output :: outputs) = create (m.insert output.1 output.2) outputs := rfl

theorem lookup_spend (m : Finmap fun _ : K => V) (keys : List K) (k : K) :
    (spend m keys).lookup k = if k ∈ keys then none else m.lookup k := by
  induction keys generalizing m with
  | nil => rw [spend_nil, if_neg List.not_mem_nil]
  | cons k' keys ih =>
      rw [spend_cons, ih]
      by_cases hkeys : k ∈ keys
      · rw [if_pos hkeys, if_pos (List.mem_cons_of_mem _ hkeys)]
      · rw [if_neg hkeys]
        by_cases hk : k = k'
        · rw [hk, Finmap.lookup_erase, if_pos List.mem_cons_self]
        · rw [Finmap.lookup_erase_ne hk, if_neg fun h => (List.mem_cons.1 h).elim hk hkeys]

theorem mem_spend {keys : List K} : k ∈ spend m keys ↔ k ∈ m ∧ k ∉ keys := by
  rw [← Finmap.lookup_isSome, ← Finmap.lookup_isSome, lookup_spend]
  split <;> simp [*]

theorem mem_create {outputs : List (K × V)} :
    k ∈ create m outputs ↔ k ∈ m ∨ k ∈ outputs.map Prod.fst := by
  induction outputs generalizing m with
  | nil => simp
  | cons output outputs ih =>
      rw [create_cons, ih, Finmap.mem_insert, List.map_cons, List.mem_cons]
      tauto

theorem lookup_create_of_not_mem {outputs : List (K × V)} (h : k ∉ outputs.map Prod.fst) :
    (create m outputs).lookup k = m.lookup k := by
  induction outputs generalizing m with
  | nil => rfl
  | cons output outputs ih =>
      rw [List.map_cons, List.mem_cons, not_or] at h
      rw [create_cons, ih h.2, Finmap.lookup_insert_of_ne _ h.1]

theorem exists_lookup_create {outputs : List (K × V)} (h : k ∈ outputs.map Prod.fst) :
    ∃ v, (create m outputs).lookup k = some v ∧ (k, v) ∈ outputs := by
  induction outputs generalizing m with
  | nil => exact absurd h List.not_mem_nil
  | cons output outputs ih =>
      rw [create_cons]
      by_cases hlater : k ∈ outputs.map Prod.fst
      · obtain ⟨v, hv, hmem⟩ := ih (m := m.insert output.1 output.2) hlater
        exact ⟨v, hv, List.mem_cons_of_mem _ hmem⟩
      · rw [List.map_cons] at h
        obtain rfl : k = output.1 := (List.mem_cons.1 h).resolve_right hlater
        refine ⟨output.2, ?_, List.mem_cons_self⟩
        rw [lookup_create_of_not_mem hlater, Finmap.lookup_insert]

/-! ### Totals -/

/-- The sum of a weight over the outputs that are there. -/
def total (weight : K → V → ℕ) (m : Finmap fun _ : K => V) : ℕ :=
  (m.entries.map fun entry => weight entry.1 entry.2).sum

/-- The weight of what a key holds, zero if it is not there. -/
def weightAt (weight : K → V → ℕ) (m : Finmap fun _ : K => V) (k : K) : ℕ :=
  ((m.lookup k).map (weight k)).getD 0

theorem total_insert (weight : K → V → ℕ) {v : V} (h : k ∉ m) :
    total weight (m.insert k v) = weight k v + total weight m := by
  rw [total, Finmap.entries_insert_of_notMem h, Multiset.map_cons, Multiset.sum_cons, total]

theorem insert_erase {v : V} (h : m.lookup k = some v) : (m.erase k).insert k v = m := by
  refine Finmap.ext_lookup fun k' => ?_
  by_cases hk : k' = k
  · rw [hk, Finmap.lookup_insert, h]
  · rw [Finmap.lookup_insert_of_ne _ hk, Finmap.lookup_erase_ne hk]

theorem total_erase (weight : K → V → ℕ) (m : Finmap fun _ : K => V) (k : K) :
    total weight (m.erase k) + weightAt weight m k = total weight m := by
  cases h : m.lookup k with
  | none =>
      have habsent : k ∉ m := Finmap.lookup_eq_none.1 h
      have herase : m.erase k = m := Finmap.ext_lookup fun k' => by
        by_cases hk : k' = k
        · rw [hk, Finmap.lookup_erase, h]
        · rw [Finmap.lookup_erase_ne hk]
      rw [herase, weightAt, h]
      rfl
  | some v =>
      have hinsert := total_insert weight (v := v) (m := m.erase k) (k := k)
        Finmap.notMem_erase_self
      rw [insert_erase h] at hinsert
      rw [hinsert, weightAt, h, Nat.add_comm]
      rfl

theorem weightAt_erase_ne {weight : K → V → ℕ} {k' : K} (h : k ≠ k') :
    weightAt weight (m.erase k') k = weightAt weight m k := by
  rw [weightAt, Finmap.lookup_erase_ne h, weightAt]

/-- **Taking distinct keys away** takes away what they weighed. -/
theorem total_spend (weight : K → V → ℕ) {keys : List K} (h : keys.Nodup) :
    total weight (spend m keys) + (keys.map (weightAt weight m)).sum = total weight m := by
  induction keys generalizing m with
  | nil => rfl
  | cons k keys ih =>
      obtain ⟨hk, hkeys⟩ := List.nodup_cons.1 h
      have hrest : keys.map (weightAt weight (m.erase k)) = keys.map (weightAt weight m) :=
        List.map_congr_left fun k' hk' =>
          weightAt_erase_ne fun heq => hk (heq ▸ hk')
      have hstep := ih (m := m.erase k) hkeys
      have herase := total_erase weight m k
      rw [hrest] at hstep
      rw [spend_cons, List.map_cons, List.sum_cons]
      omega

/-- **Putting outputs in** under distinct keys that were not there adds what they weigh. -/
theorem total_create (weight : K → V → ℕ) {outputs : List (K × V)}
    (h : (outputs.map Prod.fst).Nodup)
    (hfresh : ∀ output ∈ outputs, output.1 ∉ m) :
    total weight (create m outputs) =
      total weight m + (outputs.map fun output => weight output.1 output.2).sum := by
  induction outputs generalizing m with
  | nil => rfl
  | cons output outputs ih =>
      obtain ⟨hk, hkeys⟩ := List.nodup_cons.1 h
      have hinsert := total_insert weight (v := output.2)
        (hfresh output List.mem_cons_self)
      have hstep := ih (m := m.insert output.1 output.2) hkeys fun o ho => by
        rw [Finmap.mem_insert, not_or]
        exact ⟨fun heq => hk (heq ▸ List.mem_map_of_mem ho),
          hfresh o (List.mem_cons_of_mem _ ho)⟩
      rw [create_cons, List.map_cons, List.sum_cons, hstep, hinsert]
      omega

end Ledger
