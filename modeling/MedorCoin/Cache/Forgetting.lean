/-
**Stores that forget: entries that expire, and two buckets that remember the latest elements.**

An entry is written with the last moment at which it is there, or without one.  The clock only
decides what is found: an entry that has expired may stay in the store for any time.

New elements go into the active bucket.  When it is full it takes the place of the stale one, whose
elements are forgotten, and a new active bucket is begun.  What the two hold is described by the
list of the elements that were put in, oldest first: it ends with those of the stale bucket and
those of the active one, and either nothing was forgotten or the stale bucket was full.

Main definitions:

* `Cache.Expiring` — the store, with `Expiring.find?`, `Expiring.put`, `Expiring.putNew?` and
  `Expiring.drop`;
* `Cache.TwoBuckets` — the buckets;
* `TwoBuckets.Remembers` — an element is in one of them;
* `TwoBuckets.put` — an element is put in;
* `TwoBuckets.Holds` — the buckets hold the end of a list.

Main results:

* `Expiring.find?_put` — reading after writing;
* `Expiring.find?_of_le` — **what is found later was found before**;
* `Expiring.putNew?_eq_some` — an entry is written as new only where none was found;
* `TwoBuckets.Holds.put` — **putting in a new element keeps the description**;
* `TwoBuckets.Holds.remembers_of_recent` — **an element among the latest is remembered**, as many
  of them as fill a bucket;
* `TwoBuckets.Holds.disjoint`, `TwoBuckets.Holds.card_lt` — the buckets share nothing, and hold
  fewer elements than two full ones.
-/

import MedorCoin.Js.Map
import Mathlib.Data.Finset.Card

set_option autoImplicit false

namespace Cache

/-- A value and the last moment at which it is there, `none` for ever. -/
structure Entry (ν : Type) where
  value : ν
  expiresAt : Option ℕ
  deriving DecidableEq

/-- An entry has not expired. -/
def Entry.live {ν : Type} (now : ℕ) (e : Entry ν) : Bool := e.expiresAt.all (now ≤ ·)

theorem Entry.live_of_le {ν : Type} {now now' : ℕ} {e : Entry ν} (h : now ≤ now')
    (he : e.live now' = true) : e.live now = true := by
  obtain ⟨v, expiresAt⟩ := e
  cases expiresAt with
  | none => rfl
  | some t =>
      have ht : now' ≤ t := of_decide_eq_true he
      have hle : now ≤ t := Nat.le_trans h ht
      exact decide_eq_true hle

/-- The entries that were written, which may have expired. -/
abbrev Expiring (κ ν : Type) := Js.Map κ (Entry ν)

namespace Expiring

variable {κ ν : Type} [DecidableEq κ]

/-- The entry of a key at a time. -/
def find? (now : ℕ) (m : Expiring κ ν) (k : κ) : Option (Entry ν) :=
  (m.get? k).filter (·.live now)

def put (m : Expiring κ ν) (k : κ) (v : ν) (expiresAt : Option ℕ) : Expiring κ ν :=
  m.set k ⟨v, expiresAt⟩

/-- An entry is written if the key has none. -/
def putNew? (now : ℕ) (m : Expiring κ ν) (k : κ) (v : ν) (expiresAt : Option ℕ) :
    Option (Expiring κ ν) :=
  if (m.find? now k).isSome then none else some (m.put k v expiresAt)

def drop (m : Expiring κ ν) (k : κ) : Expiring κ ν := m.delete k

variable {now now' : ℕ} {m m' : Expiring κ ν} {k k' : κ} {v : ν} {e : Entry ν}
  {expiresAt : Option ℕ}

theorem find?_eq_some_iff : m.find? now k = some e ↔ m.get? k = some e ∧ e.live now = true :=
  Option.filter_eq_some_iff

theorem find?_put : (m.put k v expiresAt).find? now k' =
    if k = k' then (some ⟨v, expiresAt⟩ : Option (Entry ν)).filter (·.live now)
    else m.find? now k' := by
  unfold find? put
  rw [Js.Map.get?_set]
  split
  · rfl
  · rfl

theorem find?_put_self (m : Expiring κ ν) (k : κ) (v : ν) (t : ℕ) :
    (m.put k v (some t)).find? t k = some ⟨v, some t⟩ := by
  have hlive : Entry.live t ⟨v, some t⟩ = true := decide_eq_true (Nat.le_refl t)
  rw [find?_put, if_pos rfl, Option.filter_some, if_pos hlive]

theorem find?_put_of_ne (h : k ≠ k') : (m.put k v expiresAt).find? now k' = m.find? now k' := by
  rw [find?_put, if_neg h]

/-- **What is found later was found before.** -/
theorem find?_of_le (h : now ≤ now') (he : m.find? now' k = some e) : m.find? now k = some e := by
  obtain ⟨hget, hlive⟩ := find?_eq_some_iff.1 he
  exact find?_eq_some_iff.2 ⟨hget, Entry.live_of_le h hlive⟩

theorem putNew?_eq_some : m.putNew? now k v expiresAt = some m' ↔
    m.find? now k = none ∧ m.put k v expiresAt = m' := by
  unfold putNew?
  cases hfind : m.find? now k with
  | none => simp
  | some e => simp

end Expiring

end Cache

namespace Cache

variable {α : Type} [DecidableEq α]

/-- The elements put in lately, and those of the bucket that was full last. -/
structure TwoBuckets (α : Type) where
  active : Finset α := ∅
  stale : Finset α := ∅

namespace TwoBuckets

/-- An element is in one of the buckets. -/
def Remembers (b : TwoBuckets α) (x : α) : Prop := x ∈ b.stale ∨ x ∈ b.active

instance (b : TwoBuckets α) (x : α) : Decidable (b.Remembers x) :=
  inferInstanceAs (Decidable (_ ∨ _))

/-- An element is put into the active bucket, which becomes the stale one when it holds `size`
elements. -/
def put (size : ℕ) (b : TwoBuckets α) (x : α) : TwoBuckets α :=
  let active := insert x b.active
  if active.card ≥ size then { active := ∅, stale := active } else { b with active := active }

theorem put_of_full {size : ℕ} {b : TwoBuckets α} {x : α} (h : (insert x b.active).card ≥ size) :
    b.put size x = { active := ∅, stale := insert x b.active } := if_pos h

theorem put_of_room {size : ℕ} {b : TwoBuckets α} {x : α} (h : ¬ (insert x b.active).card ≥ size) :
    b.put size x = { b with active := insert x b.active } := if_neg h

/-- The buckets of the given size hold the end of the list, the stale bucket before the active
one. -/
structure Holds (size : ℕ) (put : List α) (b : TwoBuckets α) (forgotten stale active : List α) :
    Prop where
  eq : put = forgotten ++ stale ++ active
  toFinset_stale : stale.toFinset = b.stale
  toFinset_active : active.toFinset = b.active
  nodup : (stale ++ active).Nodup
  lt : active.length < size
  le : stale.length ≤ size
  full : forgotten = [] ∨ stale.length = size

variable {size : ℕ} {xs forgotten stale active : List α} {b : TwoBuckets α} {x : α}

theorem holds_empty (hsize : 0 < size) : Holds size ([] : List α) {} [] [] [] :=
  ⟨rfl, rfl, rfl, List.nodup_nil, hsize, Nat.zero_le _, Or.inl rfl⟩

namespace Holds

theorem remembers_iff (h : Holds size xs b forgotten stale active) :
    b.Remembers x ↔ x ∈ stale ++ active := by
  rw [Remembers, ← h.toFinset_stale, ← h.toFinset_active, List.mem_toFinset, List.mem_toFinset,
    List.mem_append]

theorem mem_of_remembers (h : Holds size xs b forgotten stale active) (hx : b.Remembers x) :
    x ∈ xs := by
  rw [h.eq, List.append_assoc]
  exact List.mem_append_right _ (h.remembers_iff.1 hx)

/-- **Putting in an element that is not remembered** keeps the description, with the element at the
end of the list. -/
theorem put (h : Holds size xs b forgotten stale active) (hx : ¬ b.Remembers x) :
    ∃ forgotten' stale' active',
      Holds size (xs ++ [x]) (b.put size x) forgotten' stale' active' := by
  have hfresh : x ∉ stale ++ active := fun hmem => hx (h.remembers_iff.2 hmem)
  have hnodup : (stale ++ (active ++ [x])).Nodup := by
    rw [← List.append_assoc, List.nodup_append]
    exact ⟨h.nodup, List.nodup_singleton x, fun a ha b hb hab =>
      hfresh ((List.mem_singleton.1 hb) ▸ hab ▸ ha)⟩
  have hactive : (active ++ [x]).toFinset = insert x b.active := by
    rw [← h.toFinset_active]
    ext y
    simp
  have hcard : (insert x b.active).card = active.length + 1 := by
    rw [← hactive, List.toFinset_card_of_nodup (List.nodup_append.1 hnodup).2.1]
    simp
  by_cases hfull : (insert x b.active).card ≥ size
  · -- the active bucket is full: what the stale one held is forgotten
    rw [put_of_full hfull]
    rw [hcard] at hfull
    refine ⟨forgotten ++ stale, active ++ [x], [], by simp [h.eq], hactive, rfl, ?_, ?_, ?_, ?_⟩
    · simpa using (List.nodup_append.1 hnodup).2.1
    · exact Nat.lt_of_le_of_lt (Nat.zero_le _) h.lt
    · simpa using Nat.succ_le_of_lt h.lt
    · exact Or.inr (le_antisymm (by simpa using Nat.succ_le_of_lt h.lt) (by simpa using hfull))
  · rw [put_of_room hfull]
    rw [hcard] at hfull
    refine ⟨forgotten, stale, active ++ [x], by simp [h.eq], h.toFinset_stale, hactive, hnodup,
      ?_, h.le, h.full⟩
    simpa using hfull

/-- **An element among the latest is remembered**: what was put in after it does not fill a
bucket. -/
theorem remembers_of_recent (h : Holds size xs b forgotten stale active) {k : ℕ} (hk : k < size)
    (hx : xs.reverse[k]? = some x) : b.Remembers x := by
  rw [h.remembers_iff]
  rw [h.eq, List.append_assoc, List.reverse_append] at hx
  by_cases hlen : k < (stale ++ active).length
  · rw [List.getElem?_append_left (by rw [List.length_reverse]; exact hlen)] at hx
    exact List.mem_reverse.1 (List.mem_of_getElem? hx)
  · rcases h.full with hnil | hfull
    · rw [hnil, List.reverse_nil, List.append_nil] at hx
      exact List.mem_reverse.1 (List.mem_of_getElem? hx)
    · rw [List.length_append, hfull] at hlen
      omega

theorem disjoint (h : Holds size xs b forgotten stale active) : Disjoint b.active b.stale := by
  rw [← h.toFinset_stale, ← h.toFinset_active, Finset.disjoint_left]
  intro a ha hs
  rw [List.mem_toFinset] at ha hs
  exact (List.nodup_append.1 h.nodup).2.2 a hs a ha rfl

theorem card_lt (h : Holds size xs b forgotten stale active) :
    b.active.card + b.stale.card < size + size := by
  rw [← h.toFinset_stale, ← h.toFinset_active]
  have hactive := List.toFinset_card_le active
  have hstale := List.toFinset_card_le stale
  have hlt := h.lt
  have hle := h.le
  omega

end Holds

end TwoBuckets

end Cache
