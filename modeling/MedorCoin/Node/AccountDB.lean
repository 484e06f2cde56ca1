/-
**The account database.**

Balances are kept as decimal texts under the keys `bal:` and the address, next to the total supply
and the base fee under keys of their own.  A write can fail, for a key the database refuses or for
a reason outside the program; the outcomes of the latter kind are part of the state, as what the
disk will say.

Main definitions:

* `Node.AccountDB`, with `put` and `get`;
* `Node.AccountDB.getBalance`, `Node.AccountDB.setBalance`, `Node.AccountDB.addBalance`,
  `Node.AccountDB.deductBalance`;
* `Node.AccountDB.totalBalance` — all balances together, in unbounded integers.

Main results:

* `Node.AccountDB.getBalance_setBalance` — **reading a balance after a write** that succeeded;
* `Node.AccountDB.totalBalance_addBalance` — a credit that is written adds its amount to the
  total.
-/

import MedorCoin.Cpp.Numbers
import MedorCoin.Cpp.Text
import MedorCoin.Js.Map
import Mathlib.Algebra.Order.BigOperators.Group.List
import Mathlib.Algebra.Order.Group.Nat

set_option autoImplicit false

namespace Node

open Cpp

/-- The database: its entries, and whether each of the writes to come reaches the disk.  Writes
beyond that list do. -/
structure AccountDB where
  entries : Js.Map Str Str := Js.Map.empty
  outcomes : List Bool := []

namespace AccountDB

/-! ### Entries -/

def maxKeyLen : ℕ := 4096

/-- `isValidKey`. -/
def isValidKey (key : Str) : Bool :=
  key != [] && decide (key.length ≤ maxKeyLen) && key.all fun c => 32 ≤ c || c == 9

/-- `put(key, value)`. -/
def put (db : AccountDB) (key value : Str) : Bool × AccountDB :=
  if isValidKey key then
    match db.outcomes with
    | [] => (true, { db with entries := db.entries.set key value })
    | true :: outcomes => (true, { entries := db.entries.set key value, outcomes })
    | false :: outcomes => (false, { db with outcomes })
  else (false, db)

/-- `get(key, ..)`. -/
def get (db : AccountDB) (key : Str) : Option Str :=
  if isValidKey key then db.entries.get? key else none

theorem put_true {db : AccountDB} {key value : Str} (h : (db.put key value).1 = true) :
    isValidKey key ∧ (db.put key value).2.entries = db.entries.set key value := by
  unfold put at h ⊢
  split at h
  · next hkey =>
      rw [if_pos hkey]
      refine ⟨hkey, ?_⟩
      split at h
      · rfl
      · rfl
      · exact Bool.noConfusion h
  · exact Bool.noConfusion h

theorem put_false {db : AccountDB} {key value : Str} (h : (db.put key value).1 = false) :
    (db.put key value).2.entries = db.entries := by
  unfold put at h ⊢
  split at h
  · next hkey =>
      rw [if_pos hkey]
      split at h
      · exact Bool.noConfusion h
      · exact Bool.noConfusion h
      · rfl
  · next hkey => rw [if_neg hkey]

theorem put_fst {db : AccountDB} {key value : Str} (hkey : isValidKey key)
    (hdisk : db.outcomes.head? ≠ some false) : (db.put key value).1 = true := by
  rw [put, if_pos hkey]
  split
  · rfl
  · rfl
  · next outcomes heq => rw [heq] at hdisk; exact absurd rfl hdisk

theorem put_outcomes (db : AccountDB) (key value : Str) :
    (db.put key value).2.outcomes = if isValidKey key then db.outcomes.tail else db.outcomes := by
  rw [put]
  split
  · split
    · next heq => rw [heq]; rfl
    · next heq => rw [heq]; rfl
    · next heq => rw [heq]; rfl
  · rfl

/-- **Reading an entry after a write** that succeeded. -/
theorem get_put_self {db : AccountDB} {key value : Str} (h : (db.put key value).1 = true) :
    (db.put key value).2.get key = some value := by
  obtain ⟨hkey, hentries⟩ := put_true h
  rw [get, if_pos hkey, hentries, Js.Map.get?_set_self]

theorem get_put_of_ne (db : AccountDB) {key key' : Str} (value : Str) (h : key ≠ key') :
    (db.put key value).2.get key' = db.get key' := by
  cases hput : (db.put key value).1 with
  | false => rw [get, put_false hput, get]
  | true => rw [get, (put_true hput).2, Js.Map.get?_set_of_ne _ _ h, get]

/-! ### Balances -/

/-- The key of a balance. -/
def balanceKey (addr : Str) : Str := str "bal:" ++ addr

theorem balanceKey_injective {a b : Str} (h : balanceKey a = balanceKey b) : a = b :=
  List.append_cancel_left h

/-- `getBalance(addr)`. -/
def getBalance (db : AccountDB) (addr : Str) : UInt64 :=
  if addr = [] then 0 else ((db.get (balanceKey addr)).bind stoull).getD 0

/-- `setBalance(addr, amount)`. -/
def setBalance (db : AccountDB) (addr : Str) (amount : UInt64) : Bool × AccountDB :=
  if addr = [] then (false, db) else db.put (balanceKey addr) (decimal amount.toNat)

/-- `addBalance(addr, amount)`. -/
def addBalance (db : AccountDB) (addr : Str) (amount : UInt64) : Bool × AccountDB :=
  if addr = [] then (false, db)
  else if amount > UInt64.ofNat (2 ^ 64 - 1) - db.getBalance addr then (false, db)
  else db.setBalance addr (db.getBalance addr + amount)

/-- `deductBalance(addr, amount)`. -/
def deductBalance (db : AccountDB) (addr : Str) (amount : UInt64) : Bool × AccountDB :=
  if addr = [] then (false, db)
  else if amount > db.getBalance addr then (false, db)
  else db.setBalance addr (db.getBalance addr - amount)

theorem getBalance_of_entries {db db' : AccountDB} (h : db'.entries = db.entries) (addr : Str) :
    db'.getBalance addr = db.getBalance addr := by
  simp only [getBalance, get, h]

/-- **Reading a balance after a write** that succeeded. -/
theorem getBalance_setBalance {db : AccountDB} {a : Str} {amount : UInt64}
    (h : (db.setBalance a amount).1 = true) (b : Str) :
    (db.setBalance a amount).2.getBalance b = if a = b then amount else db.getBalance b := by
  unfold setBalance at h ⊢
  split at h
  · exact Bool.noConfusion h
  · next hne =>
      obtain ⟨hkey, hentries⟩ := put_true h
      rw [if_neg hne]
      by_cases hab : a = b
      · subst hab
        rw [if_pos rfl, getBalance, if_neg hne, get, if_pos hkey, hentries,
          Js.Map.get?_set_self, Option.bind_some, stoull_decimal, Option.getD_some]
      · have hkeys : balanceKey a ≠ balanceKey b := fun heq => hab (balanceKey_injective heq)
        simp only [getBalance, get, hentries, Js.Map.get?_set_of_ne _ _ hkeys, if_neg hab]

theorem entries_setBalance_false {db : AccountDB} {a : Str} {amount : UInt64}
    (h : (db.setBalance a amount).1 = false) : (db.setBalance a amount).2.entries = db.entries := by
  unfold setBalance at h ⊢
  split at h
  · next hnil => rw [if_pos hnil]
  · next hne =>
      rw [if_neg hne]
      exact put_false h

/-! ### Credits and the total of the balances -/

/-- The balance an entry says, zero for an entry of another kind. -/
def entryBalance (key value : Str) : ℕ :=
  if (str "bal:").isPrefixOf key then ((stoull value).getD 0).toNat else 0

/-- All balances together, in unbounded integers. -/
def totalBalance (db : AccountDB) : ℕ :=
  (db.entries.entries.map fun e => entryBalance e.1 e.2).sum

theorem totalBalance_of_entries {db db' : AccountDB} (h : db'.entries = db.entries) :
    db'.totalBalance = db.totalBalance := by
  rw [totalBalance, h, totalBalance]

theorem isPrefixOf_balanceKey (addr : Str) : (str "bal:").isPrefixOf (balanceKey addr) = true :=
  List.isPrefixOf_iff_prefix.2 (List.prefix_append _ _)

theorem entryBalance_balanceKey (addr value : Str) :
    entryBalance (balanceKey addr) value = ((stoull value).getD 0).toNat := by
  rw [entryBalance, if_pos (isPrefixOf_balanceKey addr)]

theorem toNat_getBalance {db : AccountDB} {addr : Str} (hne : addr ≠ [])
    (hkey : isValidKey (balanceKey addr)) : (db.getBalance addr).toNat =
      ((db.entries.get? (balanceKey addr)).map (entryBalance (balanceKey addr))).getD 0 := by
  rw [getBalance, if_neg hne, get, if_pos hkey]
  cases db.entries.get? (balanceKey addr) with
  | none => rfl
  | some value => rw [Option.map_some, Option.getD_some, entryBalance_balanceKey]; rfl

theorem getBalance_le_totalBalance (db : AccountDB) (addr : Str) :
    (db.getBalance addr).toNat ≤ db.totalBalance := by
  by_cases hne : addr = []
  · rw [getBalance, if_pos hne]
    exact Nat.zero_le _
  by_cases hkey : isValidKey (balanceKey addr)
  · rw [toNat_getBalance hne hkey]
    cases hget : db.entries.get? (balanceKey addr) with
    | none => exact Nat.zero_le _
    | some value =>
        have hmem : (balanceKey addr, value) ∈ db.entries.entries := Js.mem_of_lookup hget
        exact List.le_sum_of_mem (List.mem_map.2 ⟨_, hmem, rfl⟩)
  · rw [getBalance, if_neg hne, get, if_neg hkey]
    exact Nat.zero_le _

theorem totalBalance_setBalance {db : AccountDB} {a : Str} {amount : UInt64}
    (h : (db.setBalance a amount).1 = true) :
    (db.setBalance a amount).2.totalBalance + (db.getBalance a).toNat =
      db.totalBalance + amount.toNat := by
  unfold setBalance at h ⊢
  split at h
  · exact Bool.noConfusion h
  · next hne =>
      obtain ⟨hkey, hentries⟩ := put_true h
      have hsum := Js.Map.sum_map_set entryBalance db.entries (balanceKey a)
        (decimal amount.toNat)
      rw [entryBalance_balanceKey, stoull_decimal, Option.getD_some] at hsum
      rw [if_neg hne, toNat_getBalance hne hkey, totalBalance, hentries, totalBalance]
      exact hsum

/-- A credit leaves room for itself. -/
def Room (db : AccountDB) (addr : Str) (amount : UInt64) : Prop :=
  (db.getBalance addr).toNat + amount.toNat < 2 ^ 64

instance (db : AccountDB) (addr : Str) (amount : UInt64) : Decidable (db.Room addr amount) :=
  inferInstanceAs (Decidable (_ < _))

theorem not_gt_iff_room {db : AccountDB} {addr : Str} {amount : UInt64} :
    ¬ amount > UInt64.ofNat (2 ^ 64 - 1) - db.getBalance addr ↔ db.Room addr amount := by
  rw [gt_max_sub_iff (by decide), Nat.not_le, Room]

theorem addBalance_eq (db : AccountDB) (addr : Str) (amount : UInt64) :
    db.addBalance addr amount =
      if db.Room addr amount then db.setBalance addr (db.getBalance addr + amount)
      else (false, db) := by
  rw [addBalance]
  by_cases hne : addr = []
  · rw [if_pos hne, setBalance, if_pos hne, ite_self]
  · rw [if_neg hne]
    by_cases hroom : db.Room addr amount
    · rw [if_neg (not_gt_iff_room.2 hroom), if_pos hroom]
    · rw [if_pos (not_not.1 fun h => hroom (not_gt_iff_room.1 h)), if_neg hroom]

theorem addBalance_of_room {db : AccountDB} {addr : Str} {amount : UInt64}
    (hroom : db.Room addr amount) (hne : addr ≠ []) :
    db.addBalance addr amount =
      db.put (balanceKey addr) (decimal (db.getBalance addr + amount).toNat) := by
  rw [addBalance_eq, if_pos hroom, setBalance, if_neg hne]

/-- **A credit that succeeds** adds its amount to one balance and to the total. -/
theorem totalBalance_addBalance {db : AccountDB} {a : Str} {amount : UInt64}
    (h : (db.addBalance a amount).1 = true) :
    (db.addBalance a amount).2.totalBalance = db.totalBalance + amount.toNat ∧
      ∀ b, ((db.addBalance a amount).2.getBalance b).toNat =
        (db.getBalance b).toNat + if a = b then amount.toNat else 0 := by
  rw [addBalance_eq] at h ⊢
  split at h
  · next hroom =>
      rw [if_pos hroom]
      have hsum : (db.getBalance a + amount).toNat = (db.getBalance a).toNat + amount.toNat :=
        toNat_add_of_lt hroom
      have htotal := totalBalance_setBalance h
      rw [hsum] at htotal
      refine ⟨by omega, fun b => ?_⟩
      rw [getBalance_setBalance h]
      by_cases hab : a = b
      · rw [if_pos hab, if_pos hab, hsum, hab]
      · rw [if_neg hab, if_neg hab, Nat.add_zero]
  · exact Bool.noConfusion h

theorem entries_addBalance_false {db : AccountDB} {a : Str} {amount : UInt64}
    (h : (db.addBalance a amount).1 = false) :
    (db.addBalance a amount).2.entries = db.entries := by
  rw [addBalance_eq] at h ⊢
  split at h
  · next hroom =>
      rw [if_pos hroom]
      exact entries_setBalance_false h
  · next hroom => rw [if_neg hroom]

/-- **A credit of nothing** changes no balance, whether it succeeds or not. -/
theorem addBalance_zero (db : AccountDB) (a : Str) :
    (db.addBalance a 0).2.totalBalance = db.totalBalance ∧
      ∀ b, (db.addBalance a 0).2.getBalance b = db.getBalance b := by
  cases h : (db.addBalance a 0).1 with
  | false =>
      have hentries := entries_addBalance_false h
      exact ⟨totalBalance_of_entries hentries, getBalance_of_entries hentries⟩
  | true =>
      obtain ⟨htotal, hbalance⟩ := totalBalance_addBalance h
      refine ⟨htotal, fun b => UInt64.toNat_inj.1 ?_⟩
      rw [hbalance]
      split <;> rfl

theorem put_other (db : AccountDB) {key : Str} (value : Str)
    (h : (str "bal:").isPrefixOf key = false) :
    (db.put key value).2.totalBalance = db.totalBalance ∧
      ∀ b, (db.put key value).2.getBalance b = db.getBalance b := by
  cases hput : (db.put key value).1 with
  | false =>
      have hentries := put_false hput
      exact ⟨totalBalance_of_entries hentries, getBalance_of_entries hentries⟩
  | true =>
      have hentries := (put_true hput).2
      constructor
      · have hsum := Js.Map.sum_map_set entryBalance db.entries key value
        have hzero (v : Str) : entryBalance key v = 0 := by
          rw [entryBalance, h, if_neg Bool.false_ne_true]
        have hold : ((db.entries.get? key).map (entryBalance key)).getD 0 = 0 := by
          cases db.entries.get? key with
          | none => rfl
          | some v => exact hzero v
        rw [hold, hzero, Nat.add_zero, Nat.add_zero] at hsum
        rw [totalBalance, hentries, totalBalance]
        exact hsum
      · intro b
        have hkeys : key ≠ balanceKey b := fun heq => by
          rw [heq, isPrefixOf_balanceKey] at h
          exact Bool.noConfusion h
        simp only [getBalance, get, hentries, Js.Map.get?_set_of_ne _ _ hkeys]

end AccountDB

end Node
