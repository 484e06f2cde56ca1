/-
**The account database and its failures.**

Balances and nonces are decimal texts under keys of their own.  A read or a write can fail for
reasons outside the program, with a text of their own; whether those to come do is part of the
state.  Whoever reads a number takes a read that fails for zero.  All changes of a block are staged
first and then written in one batch.

Main definitions:

* `Accounts.DB`, with `get`, `put` and `writeBatch`;
* `Accounts.getBalance`, `Accounts.addBalance`, `Accounts.deductBalance`, `Accounts.getNonce`,
  `Accounts.incrementNonce`;
* `Accounts.commitBlockState`;
* `Accounts.numberAt` — the number a record stands for.

Main results:

* `Accounts.readNumber_eq` — **what is read**: the number, or zero if the read fails;
* `Accounts.numberAt_set` — the number after a write.
-/

import MedorCoin.Node.AccountDB

set_option autoImplicit false

namespace Accounts

open Cpp
open Node.AccountDB (isValidKey balanceKey balanceKey_injective)

/-! ### The database -/

/-- The database: its records, and the errors of the reads and writes to come.  Those without an
error, and those beyond the lists, succeed. -/
structure DB where
  isOpen : Bool := true
  entries : Js.Map Str Str := Js.Map.empty
  reads : List (Option Str) := []
  writes : List (Option Str) := []

/-- A value, or the text of an error. -/
abbrev Result := Except Str

namespace DB

/-- `get(key, valueOut)`. -/
def get (db : DB) (key : Str) : Result Str × DB :=
  if !isValidKey key then (.error (str "INVALID_ARG:get: invalid key '" ++ key ++ str "'"), db)
  else if !db.isOpen then (.error (str "IO_ERROR:get: DB not open"), db)
  else
    let db' := { db with reads := db.reads.tail }
    match db.reads.headD none with
    | some error => (.error error, db')
    | none =>
        match db.entries.get? key with
        | none => (.error (str "NOT_FOUND:" ++ key), db')
        | some value => (.ok value, db')

/-- `put(key, value)`. -/
def put (db : DB) (key value : Str) : Result Unit × DB :=
  if !isValidKey key then (.error (str "INVALID_ARG:put: invalid key '" ++ key ++ str "'"), db)
  else if !db.isOpen then (.error (str "IO_ERROR:put: DB not open"), db)
  else
    let db' := { db with writes := db.writes.tail }
    match db.writes.headD none with
    | some error => (.error error, db')
    | none => (.ok (), { db' with entries := db.entries.set key value })

/-- The first invalid key of a batch, with its index. -/
def invalidKey : List (Str × Str) → ℕ → Option (ℕ × Str)
  | [], _ => none
  | (key, _) :: items, i => if !isValidKey key then some (i, key) else invalidKey items (i + 1)

/-- The records after a batch. -/
def applyBatch (entries : Js.Map Str Str) (items : List (Str × Str)) : Js.Map Str Str :=
  items.foldl (fun entries item => entries.set item.1 item.2) entries

/-- `writeBatch(items)`. -/
def writeBatch (db : DB) (items : List (Str × Str)) : Result Unit × DB :=
  if items = [] then (.ok (), db)
  else
    match invalidKey items 0 with
    | some (i, key) =>
        (.error (str "INVALID_ARG:writeBatch: invalid key at index " ++ decimal i ++
          str " key='" ++ key ++ str "'"), db)
    | none =>
        if !db.isOpen then (.error (str "IO_ERROR:writeBatch: DB not open"), db)
        else
          let db' := { db with writes := db.writes.tail }
          match db.writes.headD none with
          | some error => (.error error, db')
          | none => (.ok (), { db' with entries := applyBatch db.entries items })

end DB

/-! ### Balances and nonces -/

/-- The key of a nonce. -/
def nonceKey (addr : Str) : Str := str "nonce:" ++ addr

/-- The key of a state root. -/
def stateKey (blockHeight : UInt64) : Str := str "state:" ++ decimal blockHeight.toNat

/-- The number of a record: zero if the read or the conversion fails. -/
def readNumber (db : DB) (key : Str) : UInt64 × DB :=
  let r := db.get key
  (match r.1 with
    | .error _ => 0
    | .ok val => (stoull val).getD 0, r.2)

/-- `getBalance(address)`. -/
def getBalance (db : DB) (address : Str) : UInt64 × DB := readNumber db (balanceKey address)

/-- `setBalance(address, amount)`. -/
def setBalance (db : DB) (address : Str) (amount : UInt64) : Result Unit × DB :=
  db.put (balanceKey address) (decimal amount.toNat)

/-- The largest `uint64_t`. -/
def maxUInt64 : UInt64 := UInt64.ofNat (2 ^ 64 - 1)

/-- `addBalance(address, amount)`. -/
def addBalance (db : DB) (address : Str) (amount : UInt64) : Bool × DB :=
  let current := getBalance db address
  if amount > maxUInt64 - current.1 then (false, current.2)
  else
    let r := setBalance current.2 address (current.1 + amount)
    (r.1.isOk, r.2)

/-- `deductBalance(address, amount)`. -/
def deductBalance (db : DB) (address : Str) (amount : UInt64) : Bool × DB :=
  let current := getBalance db address
  if amount > current.1 then (false, current.2)
  else
    let r := setBalance current.2 address (current.1 - amount)
    (r.1.isOk, r.2)

/-- `getNonce(address)`. -/
def getNonce (db : DB) (address : Str) : UInt64 × DB := readNumber db (nonceKey address)

/-- `incrementNonce(address)`. -/
def incrementNonce (db : DB) (address : Str) : Bool × DB :=
  let current := getNonce db address
  if current.1 = maxUInt64 then (false, current.2)
  else
    let r := current.2.put (nonceKey address) (decimal (current.1 + 1).toNat)
    (r.1.isOk, r.2)

/-! ### The changes of a block -/

/-- Stages the balances. -/
def stageBalances : List (Str × UInt64) → Result (List (Str × Str))
  | [] => .ok []
  | (addr, amount) :: changes =>
      if !isValidKey (balanceKey addr) then
        .error (str "INVALID_ARG:commitBlockState: invalid address '" ++ addr ++ str "'")
      else (stageBalances changes).map ((balanceKey addr, decimal amount.toNat) :: ·)

/-- Stages the nonces. -/
def stageNonces (db : DB) : List Str → Result (List (Str × Str)) × DB
  | [] => (.ok [], db)
  | addr :: addrs =>
      let (current, db) := getNonce db addr
      if current = maxUInt64 then
        (.error (str "INVALID_ARG:commitBlockState: nonce overflow for " ++ addr), db)
      else
        let (r, db) := stageNonces db addrs
        (r.map ((nonceKey addr, decimal (current + 1).toNat) :: ·), db)

/-- `commitBlockState(blockHeight, balanceChanges, nonceIncrements, stateRoot)`. -/
def commitBlockState (db : DB) (blockHeight : UInt64) (balanceChanges : List (Str × UInt64))
    (nonceIncrements : List Str) (stateRoot : Str) : Result Unit × DB :=
  match stageBalances balanceChanges with
  | .error error => (.error error, db)
  | .ok balances =>
      match stageNonces db nonceIncrements with
      | (.error error, db) => (.error error, db)
      | (.ok nonces, db) =>
          db.writeBatch (balances ++ nonces ++
            if stateRoot = [] then [] else [(stateKey blockHeight, stateRoot)])

/-! ### The numbers in the records -/

/-- The number a record stands for: zero if there is none, or none that can be read as one. -/
def numberAt (db : DB) (key : Str) : ℕ :=
  if isValidKey key then (((db.entries.get? key).bind stoull).getD 0).toNat else 0

/-- The next read of a key succeeds, if there is a record. -/
def canRead (db : DB) (key : Str) : Bool :=
  isValidKey key && db.isOpen && (db.reads.headD none).isNone

/-- The next write of a key succeeds. -/
def canWrite (db : DB) (key : Str) : Bool :=
  isValidKey key && db.isOpen && (db.writes.headD none).isNone

variable {db db' : DB} {key key' : Str}

theorem numberAt_congr (h : db'.entries = db.entries) (key : Str) :
    numberAt db' key = numberAt db key := by
  rw [numberAt, h, numberAt]

@[simp] theorem DB.get_entries (db : DB) (key : Str) : (db.get key).2.entries = db.entries := by
  rw [DB.get]
  split_ifs
  · rfl
  · rfl
  · cases db.reads.headD none with
    | some error => rfl
    | none => cases db.entries.get? key <;> rfl

@[simp] theorem DB.get_writes (db : DB) (key : Str) : (db.get key).2.writes = db.writes := by
  rw [DB.get]
  split_ifs
  · rfl
  · rfl
  · cases db.reads.headD none with
    | some error => rfl
    | none => cases db.entries.get? key <;> rfl

@[simp] theorem DB.get_isOpen (db : DB) (key : Str) : (db.get key).2.isOpen = db.isOpen := by
  rw [DB.get]
  split_ifs
  · rfl
  · rfl
  · cases db.reads.headD none with
    | some error => rfl
    | none => cases db.entries.get? key <;> rfl

@[simp] theorem readNumber_snd (db : DB) (key : Str) : (readNumber db key).2 = (db.get key).2 := rfl

/-- **What is read**: the number, or zero if the read fails. -/
theorem readNumber_eq (db : DB) (key : Str) :
    (readNumber db key).1.toNat = if canRead db key then numberAt db key else 0 := by
  rw [readNumber, DB.get, canRead, numberAt]
  cases isValidKey key with
  | false => rfl
  | true =>
      cases db.isOpen with
      | false => rfl
      | true =>
          cases db.reads.headD none with
          | some error => rfl
          | none => cases hget : db.entries.get? key <;> simp

theorem put_fst (db : DB) (key value : Str) : (db.put key value).1.isOk = canWrite db key := by
  rw [DB.put, canWrite]
  cases isValidKey key with
  | false => rfl
  | true =>
      cases db.isOpen with
      | false => rfl
      | true => cases db.writes.headD none <;> rfl

theorem put_entries (db : DB) (key value : Str) :
    (db.put key value).2.entries =
      if canWrite db key then db.entries.set key value else db.entries := by
  rw [DB.put, canWrite]
  cases isValidKey key with
  | false => rfl
  | true =>
      cases db.isOpen with
      | false => rfl
      | true => cases db.writes.headD none <;> rfl

theorem numberAt_of_get? (hvalid : isValidKey key = true) {n : UInt64}
    (h : db.entries.get? key = some (decimal n.toNat)) : numberAt db key = n.toNat := by
  rw [numberAt, if_pos hvalid, h, Option.bind_some, stoull_decimal, Option.getD_some]

/-- **The number after a write.** -/
theorem numberAt_set (hvalid : isValidKey key = true) (n : UInt64)
    (h : db'.entries = db.entries.set key (decimal n.toNat)) (key' : Str) :
    numberAt db' key' = if key = key' then n.toNat else numberAt db key' := by
  split
  · next heq =>
      subst heq
      exact numberAt_of_get? hvalid (by rw [h, Js.Map.get?_set_self])
  · next hne => rw [numberAt, h, Js.Map.get?_set_of_ne _ _ hne, numberAt]

/-! ### Keys -/

theorem nonceKey_injective {a b : Str} (h : nonceKey a = nonceKey b) : a = b :=
  List.append_cancel_left h

theorem append_ne_append {p q : Str} (hp : 3 ≤ p.length) (hq : 3 ≤ q.length)
    (hne : p.take 3 ≠ q.take 3) (a b : Str) : p ++ a ≠ q ++ b := by
  intro h
  have hprefix := congrArg (List.take 3) h
  rw [List.take_append_of_le_length hp, List.take_append_of_le_length hq] at hprefix
  exact hne hprefix

theorem balanceKey_ne_nonceKey (a b : Str) : balanceKey a ≠ nonceKey b :=
  append_ne_append (by decide) (by decide) (by decide) a b

theorem stateKey_ne_nonceKey (h : UInt64) (a : Str) : stateKey h ≠ nonceKey a :=
  append_ne_append (by decide) (by decide) (by decide) _ a

theorem stateKey_ne_balanceKey (h : UInt64) (a : Str) : stateKey h ≠ balanceKey a :=
  append_ne_append (by decide) (by decide) (by decide) _ a

end Accounts
