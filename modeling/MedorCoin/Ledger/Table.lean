/-
**Tables: changes, sweeps by age, and tables by place.**

A table has a value under each key, as an association list without a key that occurs twice.  To
sweep it, the keys of what passes a test are collected, and erased one after the other.  Where the
test is about age, the sources compare a time in `uint64_t` with the difference of the clock and the
greatest age.  The difference wraps around while the clock shows less than that age, and then it is
near the greatest number.

Main definitions:

* `Ledger.Older` — a time is further back than an age, in unbounded integers;
* `Ledger.SweptByAge` — exactly what is older is gone;
* `Ledger.spread` — entries, each into the table at its place;
* `Ledger.Placed` — every key is in the table at its place.

Main results:

* `Ledger.lookup_insert_cases`, `Ledger.lookup_erase_cases` — what is found after a change was there
  before or is new;
* `Ledger.entries_erase` — **what an erasure leaves** is what has another key;
* `Ledger.lookup_sweep` — **what a sweep leaves**;
* `Ledger.lt_sub_iff_older` — when the comparison finds out what is older;
* `Ledger.sweptByAge_iff` — **when a sweep takes exactly what is older**;
* `Ledger.lookup_spread` — what is found where entries were spread;
* `Ledger.Placed.lookup_iff`, `Ledger.Placed.nodupKeys` — **tables by place are one table**.
-/

import Mathlib.Data.Finmap
import Mathlib.Data.UInt

set_option autoImplicit false

namespace Ledger

/-! ### Changes -/

section Changes

variable {κ ν : Type} [DecidableEq κ] {m : AList fun _ : κ => ν} {k k' : κ} {v v' : ν}

theorem mem_of_lookup (h : m.lookup k = some v) : k ∈ m :=
  AList.lookup_isSome.1 (by rw [h]; rfl)

theorem exists_lookup (h : k ∈ m) : ∃ v, m.lookup k = some v :=
  Option.isSome_iff_exists.1 (AList.lookup_isSome.2 h)

theorem lookup_singleton (k : κ) (v : ν) :
    (AList.singleton k v : AList fun _ : κ => ν).lookup k = some v := by
  rw [AList.singleton, AList.lookup]
  exact List.dlookup_cons_eq (β := fun _ : κ => ν) [] k v

theorem lookup_insert_cases (h : (m.insert k v).lookup k' = some v') :
    (k' = k ∧ v = v') ∨ (k' ≠ k ∧ m.lookup k' = some v') := by
  by_cases hne : k' = k
  · rw [hne, AList.lookup_insert, Option.some.injEq] at h
    exact .inl ⟨hne, h⟩
  · rw [AList.lookup_insert_ne hne] at h
    exact .inr ⟨hne, h⟩

theorem lookup_erase_cases (h : (m.erase k).lookup k' = some v') :
    k' ≠ k ∧ m.lookup k' = some v' := by
  by_cases hne : k' = k
  · rw [hne, AList.lookup_erase] at h
    cases h
  · rw [AList.lookup_erase_ne hne] at h
    exact ⟨hne, h⟩

theorem length_keys_erase_le (m : AList fun _ : κ => ν) (k : κ) :
    (m.erase k).keys.length ≤ m.keys.length :=
  ((List.kerase_sublist k m.entries).map Sigma.fst).length_le

theorem length_keys_erase (h : k ∈ m) : (m.erase k).keys.length + 1 = m.keys.length := by
  rw [AList.keys_erase]
  exact List.length_erase_add_one (AList.mem_keys.1 h)

theorem kerase_eq_filter {l : List (Σ _ : κ, ν)} (h : l.NodupKeys) (k : κ) :
    l.kerase k = l.filter fun e => e.1 ≠ k := by
  induction l with
  | nil => rfl
  | cons e l ih =>
      obtain ⟨hnot, hl⟩ := List.nodupKeys_cons.1 h
      by_cases heq : k = e.1
      · subst heq
        -- the key does not occur in the rest
        have hkept : l.filter (fun e' => e'.1 ≠ e.1) = l := by
          refine List.filter_eq_self.2 fun e' he' => decide_eq_true fun heq => hnot ?_
          exact List.mem_map.2 ⟨e', he', heq⟩
        rw [List.kerase_cons_eq rfl, List.filter_cons_of_neg (by simp), hkept]
      · rw [List.kerase_cons_ne heq, ih hl, List.filter_cons_of_pos]
        exact decide_eq_true (Ne.symm heq)

/-- **What an erasure leaves.** -/
theorem entries_erase (m : AList fun _ : κ => ν) (k : κ) :
    (m.erase k).entries = m.entries.filter fun e => e.1 ≠ k :=
  kerase_eq_filter m.nodupKeys k

end Changes

/-! ### Sweeps -/

section Sweeps

variable {κ ν σ : Type} [DecidableEq κ]

/-! ### Erasing what passes a test -/

theorem lookup_erase_eq (m : AList fun _ : κ => ν) (k k' : κ) :
    (m.erase k).lookup k' = if k' = k then none else m.lookup k' := by
  split_ifs with heq
  · rw [heq, AList.lookup_erase]
  · exact AList.lookup_erase_ne heq

section

variable (table : σ → AList fun _ : κ => ν) {erase : σ → κ → σ}

theorem lookup_foldl_erase
    (herase : ∀ s k k', (table (erase s k)).lookup k' =
      if k' = k then none else (table s).lookup k') (s : σ) (keys : List κ) (k : κ) :
    (table (keys.foldl erase s)).lookup k =
      if k ∈ keys then none else (table s).lookup k := by
  induction keys generalizing s with
  | nil => rfl
  | cons key keys ih =>
      rw [List.foldl_cons, ih, herase]
      by_cases hkey : k = key
      · simp [hkey]
      · simp [hkey]

theorem mem_map_filter_iff {m : AList fun _ : κ => ν} {l : List (Σ _ : κ, ν)}
    (hl : l.Perm m.entries) (p : ν → Bool) (k : κ) :
    k ∈ (l.filter fun e => p e.2).map Sigma.fst ↔ ∃ v, m.lookup k = some v ∧ p v = true := by
  simp only [List.mem_map, List.mem_filter, hl.mem_iff]
  constructor
  · rintro ⟨⟨k, v⟩, ⟨hmem, hp⟩, rfl⟩
    exact ⟨v, AList.mem_lookup_iff.2 hmem, hp⟩
  · rintro ⟨v, hlookup, hp⟩
    exact ⟨⟨k, v⟩, ⟨AList.mem_lookup_iff.1 hlookup, hp⟩, rfl⟩

/-- **What a sweep leaves**: what does not pass the test. -/
theorem lookup_sweep
    (herase : ∀ s k k', (table (erase s k)).lookup k' =
      if k' = k then none else (table s).lookup k') (s : σ) {l : List (Σ _ : κ, ν)}
    (hl : l.Perm (table s).entries) (p : ν → Bool) (k : κ) :
    (table (((l.filter fun e => p e.2).map Sigma.fst).foldl erase s)).lookup k =
      ((table s).lookup k).filter fun v => !p v := by
  rw [lookup_foldl_erase table herase]
  simp only [mem_map_filter_iff hl]
  cases hlookup : (table s).lookup k with
  | none => simp
  | some v => cases hp : p v <;> simp [Option.filter, hp]

end

/-! ### Age -/

/-- A time is further back than an age, in unbounded integers. -/
def Older (now maxAge time : UInt64) : Prop := (maxAge.toNat : ℤ) < now.toNat - time.toNat

instance (now maxAge time : UInt64) : Decidable (Older now maxAge time) :=
  inferInstanceAs (Decidable ((_ : ℤ) < _))

/-- **When the comparison finds out what is older**: the difference does not wrap around, or the
time is not below it even so. -/
theorem lt_sub_iff_older (now maxAge time : UInt64) :
    (time < now - maxAge ↔ Older now maxAge time) ↔
      maxAge ≤ now ∨ 2 ^ 64 + now.toNat ≤ time.toNat + maxAge.toNat := by
  have hnow := now.toNat_lt
  have hmax := maxAge.toNat_lt
  have htime := time.toNat_lt
  rw [UInt64.lt_iff_toNat_lt, UInt64.le_iff_toNat_le, UInt64.toNat_sub, Older]
  by_cases hle : maxAge.toNat ≤ now.toNat
  · have hsub : (2 ^ 64 - maxAge.toNat + now.toNat) % 2 ^ 64 = now.toNat - maxAge.toNat := by omega
    rw [hsub]
    omega
  · have hsub : (2 ^ 64 - maxAge.toNat + now.toNat) % 2 ^ 64 =
        2 ^ 64 + now.toNat - maxAge.toNat := by omega
    rw [hsub]
    omega

/-- **Exactly what is older is gone**, of what may go. -/
def SweptByAge (now maxAge : UInt64) (eligible : ν → Bool) (time : ν → UInt64)
    (m m' : AList fun _ : κ => ν) : Prop :=
  ∀ k, m'.lookup k =
    (m.lookup k).filter fun v => !(eligible v && decide (Older now maxAge (time v)))

/-- **When a sweep takes exactly what is older**: the clock shows as much as the greatest age, or no
time is below the difference that wrapped around. -/
theorem sweptByAge_iff {now maxAge : UInt64} {eligible : ν → Bool} {time : ν → UInt64}
    {m m' : AList fun _ : κ => ν}
    (h : ∀ k, m'.lookup k =
      (m.lookup k).filter fun v => !(eligible v && decide (time v < now - maxAge))) :
    SweptByAge now maxAge eligible time m m' ↔
      maxAge ≤ now ∨ ∀ k v, m.lookup k = some v → eligible v = true →
        2 ^ 64 + now.toNat ≤ (time v).toNat + maxAge.toNat := by
  have hone (v : ν) (hv : eligible v = true) :
      (some v).filter (fun v => !(eligible v && decide (time v < now - maxAge))) =
          (some v).filter (fun v => !(eligible v && decide (Older now maxAge (time v)))) ↔
        maxAge ≤ now ∨ 2 ^ 64 + now.toNat ≤ (time v).toNat + maxAge.toNat := by
    rw [← lt_sub_iff_older]
    by_cases hlt : time v < now - maxAge <;> by_cases holder : Older now maxAge (time v) <;>
      simp [Option.filter, hv, hlt, holder]
  constructor
  · intro hswept
    by_cases hle : maxAge ≤ now
    · exact .inl hle
    · refine .inr fun k v hlookup hv => ?_
      have hk := (h k).symm.trans (hswept k)
      rw [hlookup] at hk
      exact ((hone v hv).1 hk).resolve_left hle
  · intro hright k
    rw [h k]
    cases hlookup : m.lookup k with
    | none => rfl
    | some v =>
        cases hv : eligible v with
        | false => simp [Option.filter, hv]
        | true => exact (hone v hv).2 (hright.imp_right fun hall => hall k v hlookup hv)

end Sweeps

/-! ### Spreading entries over tables -/

section Spreads

variable {κ ν : Type} [DecidableEq κ]

/-- An entry under a key that is not there yet.  One that is there stays. -/
def emplace (m : AList fun _ : κ => ν) (e : Σ _ : κ, ν) : AList fun _ : κ => ν :=
  if e.1 ∈ m then m else m.insert e.1 e.2

/-- The entries, one after the other, each into the table at its place. -/
def spread (place : κ → ℕ) (tables : List (AList fun _ : κ => ν)) (entries : List (Σ _ : κ, ν)) :
    List (AList fun _ : κ => ν) :=
  entries.foldl (fun tables e => tables.modify (place e.1) fun m => emplace m e) tables

theorem lookup_emplace_self (m : AList fun _ : κ => ν) (e : Σ _ : κ, ν) :
    (emplace m e).lookup e.1 = (m.lookup e.1).or (some e.2) := by
  rw [emplace]
  split
  · next hmem =>
      obtain ⟨v, hv⟩ := exists_lookup hmem
      rw [hv, Option.some_or]
  · next hnot => rw [AList.lookup_insert, AList.lookup_eq_none.2 hnot, Option.none_or]

theorem lookup_emplace_ne (m : AList fun _ : κ => ν) {e : Σ _ : κ, ν} {k : κ} (h : k ≠ e.1) :
    (emplace m e).lookup k = m.lookup k := by
  rw [emplace]
  split
  · rfl
  · exact AList.lookup_insert_ne h

theorem lookup_foldl_emplace (entries : List (Σ _ : κ, ν)) (m : AList fun _ : κ => ν) (k : κ) :
    (entries.foldl emplace m).lookup k = (m.lookup k).or (entries.dlookup k) := by
  induction entries generalizing m with
  | nil => rw [List.foldl_nil, List.dlookup_nil, Option.or_none]
  | cons e entries ih =>
      rw [List.foldl_cons, ih]
      by_cases heq : k = e.1
      · subst heq
        rw [lookup_emplace_self, Option.or_assoc, Option.some_or]
        congr 1
        exact (List.dlookup_cons_eq (β := fun _ : κ => ν) entries e.1 e.2).symm
      · rw [lookup_emplace_ne m heq, List.dlookup_cons_ne entries e heq]

@[simp] theorem length_spread (place : κ → ℕ) (tables : List (AList fun _ : κ => ν))
    (entries : List (Σ _ : κ, ν)) : (spread place tables entries).length = tables.length := by
  induction entries generalizing tables with
  | nil => rfl
  | cons e entries ih =>
      rw [spread, List.foldl_cons, ← spread, ih, List.length_modify]

/-- **What a table gets**: the entries that have its place. -/
theorem getElem?_spread (place : κ → ℕ) (tables : List (AList fun _ : κ => ν))
    (entries : List (Σ _ : κ, ν)) (i : ℕ) :
    (spread place tables entries)[i]? =
      tables[i]?.map fun m => (entries.filter fun e => place e.1 = i).foldl emplace m := by
  induction entries generalizing tables with
  | nil => simp [spread]
  | cons e entries ih =>
      rw [spread, List.foldl_cons, ← spread, ih, List.getElem?_modify]
      by_cases heq : place e.1 = i
      · simp [heq, Function.comp_def]
      · simp [heq]

theorem lookup_spread {place : κ → ℕ} {n : ℕ} {entries : List (Σ _ : κ, ν)}
    (hkeys : entries.NodupKeys) {i : ℕ} {m : AList fun _ : κ => ν}
    (hm : (spread place (List.replicate n ∅) entries)[i]? = some m) (k : κ) (v : ν) :
    m.lookup k = some v ↔ place k = i ∧ ⟨k, v⟩ ∈ entries := by
  rw [getElem?_spread, Option.map_eq_some_iff] at hm
  obtain ⟨m₀, hm₀, rfl⟩ := hm
  have hempty : m₀ = ∅ := (List.mem_replicate.1 (List.mem_of_getElem? hm₀)).2
  have hfilter := hkeys.sublist (List.filter_sublist (p := fun e => decide (place e.1 = i)))
  rw [lookup_foldl_emplace, hempty, AList.lookup_empty, Option.none_or,
    ← Option.mem_def, List.mem_dlookup_iff hfilter, List.mem_filter, decide_eq_true_eq, and_comm]

/-- Every key is in the table at its place. -/
def Placed (place : κ → ℕ) (tables : List (AList fun _ : κ => ν)) : Prop :=
  ∀ i m, tables[i]? = some m → ∀ k ∈ m, place k = i

variable {place : κ → ℕ} {tables : List (AList fun _ : κ => ν)}

theorem Placed.lookup_iff (h : Placed place tables) (k : κ) (v : ν) :
    tables[place k]?.bind (fun m => m.lookup k) = some v ↔
      ⟨k, v⟩ ∈ tables.flatMap AList.entries := by
  rw [List.mem_flatMap, Option.bind_eq_some_iff]
  constructor
  · rintro ⟨m, hm, hv⟩
    exact ⟨m, List.mem_of_getElem? hm, AList.mem_lookup_iff.1 hv⟩
  · rintro ⟨m, hmem, hv⟩
    obtain ⟨i, hi⟩ := List.mem_iff_getElem?.1 hmem
    have hlookup := AList.mem_lookup_iff.2 hv
    have hplace : place k = i := h i m hi k (mem_of_lookup hlookup)
    exact ⟨m, hplace ▸ hi, hlookup⟩

omit [DecidableEq κ] in
theorem Placed.nodupKeys (h : Placed place tables) :
    (tables.flatMap AList.entries).NodupKeys := by
  rw [List.flatMap_def, List.nodupKeys_flatten]
  constructor
  · intro entries hmem
    obtain ⟨m, _, rfl⟩ := List.mem_map.1 hmem
    exact m.nodupKeys
  · rw [List.map_map, List.pairwise_map, List.pairwise_iff_getElem]
    intro i j hi hj hlt k hki hkj
    have hplace := h i tables[i] (List.getElem?_eq_getElem hi) k hki
    have hplace' := h j tables[j] (List.getElem?_eq_getElem hj) k hkj
    omega

omit [DecidableEq κ] in
theorem Placed.take (h : Placed place tables) (n : ℕ) : Placed place (tables.take n) := by
  intro i m hm
  rw [List.getElem?_take] at hm
  split at hm
  · exact h i m hm
  · cases hm

theorem placed_spread (place : κ → ℕ) (n : ℕ) {entries : List (Σ _ : κ, ν)}
    (hkeys : entries.NodupKeys) : Placed place (spread place (List.replicate n ∅) entries) := by
  intro i m hm k hk
  obtain ⟨v, hv⟩ := exists_lookup hk
  exact ((lookup_spread hkeys hm k v).1 hv).1

theorem Placed.length_eq {place' : κ → ℕ} {tables' : List (AList fun _ : κ => ν)}
    (h : Placed place tables) (h' : Placed place' tables')
    (hsame : ∀ k, tables'[place' k]?.bind (fun m => m.lookup k) =
      tables[place k]?.bind fun m => m.lookup k) :
    (tables'.flatMap AList.entries).length = (tables.flatMap AList.entries).length := by
  refine ((List.perm_ext_iff_of_nodup h'.nodupKeys.nodup h.nodupKeys.nodup).2 ?_).length_eq
  rintro ⟨k, v⟩
  rw [← h'.lookup_iff, ← h.lookup_iff, hsame]

end Spreads

end Ledger
