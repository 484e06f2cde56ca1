/-
**Committing the changes of a block.**

The balances and the nonces of a block are staged, and one batch writes them all or none.  The nonce
of a sender is read from the database for each of its occurrences, where the increments before it
are only staged: so a sender that occurs twice gets one increment.

Main definitions:

* `Accounts.seenNonces` — the nonces that are read while staging;
* `Accounts.Commits` — **what is asked of a commit**;
* `Accounts.Refused` — the commits that fail.

Main results:

* `Accounts.get?_applyBatch` — the records after a batch: the last value of each key;
* `Accounts.commitBlockState_cases` — **what a commit does**;
* `Accounts.commits_iff` — a commit does what is asked exactly if it fails, or no sender occurs
  twice and every nonce is read.
-/

import MedorCoin.Accounts.DB

set_option autoImplicit false

namespace Accounts

open Cpp
open Node.AccountDB (isValidKey balanceKey balanceKey_injective)

variable {db : DB} {key : Str}

/-! ### Batches -/

/-- The last value that a list of changes gives a key. -/
def lastOf {κ ν : Type} [DecidableEq κ] (k : κ) (l : List (κ × ν)) : Option ν :=
  Js.lookup k l.reverse

theorem lookup_append {κ ν : Type} [DecidableEq κ] (k : κ) (l l' : List (κ × ν)) :
    Js.lookup k (l ++ l') = (Js.lookup k l).or (Js.lookup k l') := by
  induction l with
  | nil => rfl
  | cons e l ih =>
      obtain ⟨k', v⟩ := e
      rw [List.cons_append, Js.lookup_cons, Js.lookup_cons, ih]
      split <;> rfl

theorem lastOf_append {κ ν : Type} [DecidableEq κ] (k : κ) (l l' : List (κ × ν)) :
    lastOf k (l ++ l') = (lastOf k l').or (lastOf k l) := by
  rw [lastOf, List.reverse_append, lookup_append, lastOf, lastOf]

theorem lastOf_map {κ κ' ν ν' : Type} [DecidableEq κ] [DecidableEq κ'] {f : κ → κ'}
    (hf : Function.Injective f) (g : ν → ν') (k : κ) (l : List (κ × ν)) :
    lastOf (f k) (l.map fun e => (f e.1, g e.2)) = (lastOf k l).map g := by
  rw [lastOf, lastOf, ← List.map_reverse]
  induction l.reverse with
  | nil => rfl
  | cons e l ih =>
      obtain ⟨k', v⟩ := e
      rw [List.map_cons, Js.lookup_cons, Js.lookup_cons, ih]
      by_cases hk : k' = k
      · rw [if_pos hk, if_pos (congrArg f hk)]
        rfl
      · rw [if_neg hk, if_neg fun heq => hk (hf heq)]

theorem lastOf_eq_none {κ ν : Type} [DecidableEq κ] {k : κ} {l : List (κ × ν)}
    (h : k ∉ l.map Prod.fst) : lastOf k l = none :=
  Js.lookup_eq_none (by rwa [List.map_reverse, List.mem_reverse])

/-- **The records after a batch**: the last value of each key. -/
theorem get?_applyBatch (entries : Js.Map Str Str) (items : List (Str × Str)) (key : Str) :
    (DB.applyBatch entries items).get? key = (lastOf key items).or (entries.get? key) := by
  induction items using List.reverseRecOn with
  | nil => rfl
  | append_singleton items item ih =>
      have hlast : DB.applyBatch entries (items ++ [item]) =
          (DB.applyBatch entries items).set item.1 item.2 :=
        List.foldl_concat _ _ _ _
      have hitem : lastOf key [item] = if item.1 = key then some item.2 else none := rfl
      rw [hlast, lastOf_append, Js.Map.get?_set, ih, hitem]
      split <;> rfl

/-- The batch is taken. -/
def batchOk (db : DB) (items : List (Str × Str)) : Bool :=
  items == [] || (items.all (isValidKey ·.1) && db.isOpen && (db.writes.headD none).isNone)

theorem invalidKey_isNone (items : List (Str × Str)) (i : ℕ) :
    (DB.invalidKey items i).isNone = items.all (isValidKey ·.1) := by
  induction items generalizing i with
  | nil => rfl
  | cons item items ih =>
      rw [DB.invalidKey, List.all_cons]
      cases isValidKey item.1 with
      | false => rfl
      | true => exact ih (i + 1)

/-- **A batch writes everything or nothing.** -/
theorem writeBatch_spec (db : DB) (items : List (Str × Str)) :
    (db.writeBatch items).1.isOk = batchOk db items ∧
      (db.writeBatch items).2.entries =
        if batchOk db items then DB.applyBatch db.entries items else db.entries := by
  rw [DB.writeBatch, batchOk, ← invalidKey_isNone items 0]
  by_cases hnil : items = []
  · subst hnil
    exact ⟨rfl, rfl⟩
  · rw [if_neg hnil, beq_eq_false_iff_ne.2 hnil, Bool.false_or]
    cases DB.invalidKey items 0 with
    | some invalid => exact ⟨rfl, rfl⟩
    | none =>
        cases db.isOpen with
        | false => exact ⟨rfl, rfl⟩
        | true => cases db.writes.headD none <;> exact ⟨rfl, rfl⟩

/-! ### Staging -/

/-- The nonces that are read while staging, with their senders. -/
def seenNonces (db : DB) : List Str → List (Str × UInt64)
  | [] => []
  | addr :: addrs => (addr, (getNonce db addr).1) :: seenNonces (getNonce db addr).2 addrs

theorem seenNonces_fst (db : DB) (addrs : List Str) :
    (seenNonces db addrs).map Prod.fst = addrs := by
  induction addrs generalizing db with
  | nil => rfl
  | cons addr addrs ih =>
      rw [seenNonces, List.map_cons, ih]

theorem getNonce_snd (db : DB) (addr : Str) :
    (getNonce db addr).2.entries = db.entries ∧ (getNonce db addr).2.writes = db.writes ∧
      (getNonce db addr).2.isOpen = db.isOpen :=
  ⟨DB.get_entries db _, DB.get_writes db _, DB.get_isOpen db _⟩

theorem seenNonces_le {db : DB} {addrs : List Str} {p : Str × UInt64}
    (h : p ∈ seenNonces db addrs) : p.2.toNat ≤ numberAt db (nonceKey p.1) := by
  induction addrs generalizing db with
  | nil => exact absurd h List.not_mem_nil
  | cons addr addrs ih =>
      rcases List.mem_cons.1 h with rfl | h
      · rw [getNonce, readNumber_eq]
        split
        · exact le_rfl
        · exact Nat.zero_le _
      · have hle := ih h
        rwa [numberAt_congr (getNonce_snd db addr).1] at hle

/-- The batch item of a nonce. -/
def nonceItem (p : Str × UInt64) : Str × Str := (nonceKey p.1, decimal (p.2 + 1).toNat)

/-- **The nonces are staged** if none of those that are read is the largest number. -/
theorem stageNonces_spec (db : DB) (addrs : List Str) :
    ((stageNonces db addrs).2.entries = db.entries ∧ (stageNonces db addrs).2.writes = db.writes ∧
      (stageNonces db addrs).2.isOpen = db.isOpen) ∧
    if ∃ p ∈ seenNonces db addrs, p.2 = maxUInt64 then (stageNonces db addrs).1.isOk = false
    else (stageNonces db addrs).1 = .ok ((seenNonces db addrs).map nonceItem) := by
  induction addrs generalizing db with
  | nil => simp [stageNonces, seenNonces]
  | cons addr addrs ih =>
      obtain ⟨hentries, hwrites, hopen⟩ := getNonce_snd db addr
      obtain ⟨⟨ihentries, ihwrites, ihopen⟩, ihstage⟩ := ih (getNonce db addr).2
      simp only [stageNonces, seenNonces, List.exists_mem_cons_iff]
      by_cases hmax : (getNonce db addr).1 = maxUInt64
      · simp only [hmax, true_or, if_true]
        exact ⟨⟨hentries, hwrites, hopen⟩, rfl⟩
      · simp only [hmax, false_or, if_false]
        refine ⟨⟨ihentries.trans hentries, ihwrites.trans hwrites, ihopen.trans hopen⟩, ?_⟩
        split at ihstage
        · next hrest =>
            rw [if_pos hrest]
            cases hr : (stageNonces (getNonce db addr).2 addrs).1 with
            | ok items =>
                rw [hr] at ihstage
                exact Bool.noConfusion ihstage
            | error e => rfl
        · next hrest =>
            rw [if_neg hrest, ihstage]
            rfl

/-- The batch item of a balance. -/
def balanceItem (c : Str × UInt64) : Str × Str := (balanceKey c.1, decimal c.2.toNat)

/-- **The balances are staged** if all of their keys are valid. -/
theorem stageBalances_spec (changes : List (Str × UInt64)) :
    if ∃ c ∈ changes, isValidKey (balanceKey c.1) = false then (stageBalances changes).isOk = false
    else stageBalances changes = .ok (changes.map balanceItem) := by
  induction changes with
  | nil => simp [stageBalances]
  | cons c changes ih =>
      simp only [stageBalances, List.exists_mem_cons_iff]
      cases hkey : isValidKey (balanceKey c.1) with
      | false =>
          simp only [true_or, if_true]
          rfl
      | true =>
          simp only [Bool.true_eq_false, false_or]
          split at ih
          · next hrest =>
              rw [if_pos hrest]
              cases hr : stageBalances changes with
              | ok items =>
                  rw [hr] at ih
                  exact Bool.noConfusion ih
              | error e => rfl
          · next hrest =>
              rw [if_neg hrest, ih]
              rfl

/-! ### What a commit does -/

/-- All that a commit writes. -/
def blockItems (db : DB) (blockHeight : UInt64) (changes : List (Str × UInt64))
    (senders : List Str) (stateRoot : Str) : List (Str × Str) :=
  changes.map balanceItem ++ (seenNonces db senders).map nonceItem ++
    if stateRoot = [] then [] else [(stateKey blockHeight, stateRoot)]

/-- **The commits that fail**: a key is refused, the nonce of a sender is the largest number, or
there is something to write and the database does not take it. -/
def Refused (db : DB) (changes : List (Str × UInt64)) (senders : List Str) (stateRoot : Str) :
    Prop :=
  (∃ c ∈ changes, isValidKey (balanceKey c.1) = false) ∨
  (∃ addr ∈ senders, isValidKey (nonceKey addr) = false) ∨
  (∃ p ∈ seenNonces db senders, p.2 = maxUInt64) ∨
  ¬ (changes = [] ∧ senders = [] ∧ stateRoot = []) ∧
    ¬ (db.isOpen = true ∧ db.writes.headD none = none)

theorem isValidKey_stateKey (blockHeight : UInt64) : isValidKey (stateKey blockHeight) = true := by
  have hlength : (decimal blockHeight.toNat).length ≤ 20 := by
    rw [decimal, List.length_map, Js.numeral, Nat.length_toDigits_le_iff (by decide) (by decide)]
    exact blockHeight.toNat_lt.trans (by decide)
  have hprefix : (str "state:").all (fun c => 32 ≤ c || c == 9) = true := by decide
  have hdigits : (decimal blockHeight.toNat).all (fun c => 32 ≤ c || c == 9) = true := by
    refine List.all_eq_true.2 fun c hc => ?_
    have hdigit := isDigit_of_mem_decimal hc
    rw [isDigit, Bool.and_eq_true, decide_eq_true_eq] at hdigit
    rw [Bool.or_eq_true, decide_eq_true_eq]
    exact .inl (UInt8.le_trans (by decide : (32 : UInt8) ≤ 48) hdigit.1)
  have hsize : (str "state:").length = 6 := rfl
  rw [isValidKey, stateKey, List.all_append, hprefix, hdigits, List.length_append, hsize,
    Bool.and_eq_true, Bool.and_eq_true, decide_eq_true_eq, bne_iff_ne]
  refine ⟨⟨List.append_ne_nil_of_left_ne_nil (by decide) _, ?_⟩, rfl⟩
  exact (Nat.add_le_add_left hlength 6).trans (by decide)

theorem batchOk_blockItems (db : DB) (blockHeight : UInt64) (changes : List (Str × UInt64))
    (senders : List Str) (stateRoot : Str)
    (hbalances : ¬ ∃ c ∈ changes, isValidKey (balanceKey c.1) = false) :
    batchOk db (blockItems db blockHeight changes senders stateRoot) = true ↔
      (changes = [] ∧ senders = [] ∧ stateRoot = []) ∨
        (¬ ∃ addr ∈ senders, isValidKey (nonceKey addr) = false) ∧
          db.isOpen = true ∧ db.writes.headD none = none := by
  have hnil : blockItems db blockHeight changes senders stateRoot = [] ↔
      changes = [] ∧ senders = [] ∧ stateRoot = [] := by
    have hseen : seenNonces db senders = [] ↔ senders = [] := by
      rw [← List.map_eq_nil_iff (f := Prod.fst), seenNonces_fst]
    rw [blockItems, List.append_eq_nil_iff, List.append_eq_nil_iff, List.map_eq_nil_iff,
      List.map_eq_nil_iff, hseen, and_assoc]
    by_cases hroot : stateRoot = [] <;> simp [hroot]
  have hall : (blockItems db blockHeight changes senders stateRoot).all (isValidKey ·.1) = true ↔
      ¬ ∃ addr ∈ senders, isValidKey (nonceKey addr) = false := by
    have hchanges : (changes.map balanceItem).all (isValidKey ·.1) = true := by
      refine List.all_eq_true.2 fun item hitem => ?_
      obtain ⟨c, hc, rfl⟩ := List.mem_map.1 hitem
      exact Bool.not_eq_false _ ▸ fun hkey => hbalances ⟨c, hc, hkey⟩
    have hroot : (if stateRoot = [] then [] else [(stateKey blockHeight, stateRoot)]).all
        (fun item : Str × Str => isValidKey item.1) = true := by
      split
      · rfl
      · rw [List.all_cons, isValidKey_stateKey]
        rfl
    have hsenders : ((seenNonces db senders).map nonceItem).all (isValidKey ·.1) =
        senders.all fun addr => isValidKey (nonceKey addr) := by
      rw [← seenNonces_fst db senders, List.all_map, List.all_map, seenNonces_fst]
      rfl
    rw [blockItems, List.all_append, List.all_append, hchanges, hroot, hsenders, Bool.true_and,
      Bool.and_true, List.all_eq_true]
    simp
  rw [batchOk, Bool.or_eq_true, beq_iff_eq, hnil, Bool.and_eq_true, Bool.and_eq_true, hall,
    Option.isNone_iff_eq_none, and_assoc]

/-- With valid keys of balances and nonces that can grow, a commit is refused just where its batch
is not taken. -/
theorem refused_iff_batchOk {db : DB} (blockHeight : UInt64) {changes : List (Str × UInt64)}
    {senders : List Str} (stateRoot : Str)
    (hbalances : ¬ ∃ c ∈ changes, isValidKey (balanceKey c.1) = false)
    (hmax : ¬ ∃ p ∈ seenNonces db senders, p.2 = maxUInt64) :
    Refused db changes senders stateRoot ↔
      batchOk db (blockItems db blockHeight changes senders stateRoot) = false := by
  rw [← Bool.not_eq_true, batchOk_blockItems db blockHeight changes senders stateRoot hbalances,
    not_or, Refused]
  constructor
  · rintro (h | ⟨addr, haddr, hkey⟩ | h | ⟨hsome, hclosed⟩)
    · exact absurd h hbalances
    · refine ⟨?_, fun htaken => htaken.1 ⟨addr, haddr, hkey⟩⟩
      rintro ⟨-, rfl, -⟩
      exact absurd haddr List.not_mem_nil
    · exact absurd h hmax
    · exact ⟨hsome, fun htaken => hclosed htaken.2⟩
  · rintro ⟨hsome, hnot⟩
    by_cases hkeys : ∃ addr ∈ senders, isValidKey (nonceKey addr) = false
    · exact .inr (.inl hkeys)
    · exact .inr (.inr (.inr ⟨hsome, fun hready => hnot ⟨hkeys, hready⟩⟩))

/-- **What a commit does**: it fails and changes nothing, or writes all of its items. -/
theorem commitBlockState_cases (db : DB) (blockHeight : UInt64) (changes : List (Str × UInt64))
    (senders : List Str) (stateRoot : Str) :
    let r := commitBlockState db blockHeight changes senders stateRoot
    (Refused db changes senders stateRoot ∧ r.1.isOk = false ∧ r.2.entries = db.entries) ∨
    (¬ Refused db changes senders stateRoot ∧ r.1.isOk = true ∧
      r.2.entries =
        DB.applyBatch db.entries (blockItems db blockHeight changes senders stateRoot)) := by
  have hbalances := stageBalances_spec changes
  obtain ⟨⟨hentries, hwrites, hopen⟩, hnonces⟩ := stageNonces_spec db senders
  simp only [commitBlockState]
  by_cases hinvalid : ∃ c ∈ changes, isValidKey (balanceKey c.1) = false
  · rw [if_pos hinvalid] at hbalances
    left
    cases hstage : stageBalances changes with
    | ok items =>
        rw [hstage] at hbalances
        exact Bool.noConfusion hbalances
    | error e => exact ⟨.inl hinvalid, rfl, rfl⟩
  · rw [if_neg hinvalid] at hbalances
    rw [hbalances]
    by_cases hmax : ∃ p ∈ seenNonces db senders, p.2 = maxUInt64
    · rw [if_pos hmax] at hnonces
      left
      cases hstage : stageNonces db senders with
      | mk r db' =>
          rw [hstage] at hnonces hentries
          cases r with
          | ok items => exact Bool.noConfusion hnonces
          | error e => exact ⟨.inr (.inr (.inl hmax)), rfl, hentries⟩
    · rw [if_neg hmax] at hnonces
      cases hstage : stageNonces db senders with
      | mk r db' =>
          rw [hstage] at hnonces hentries hwrites hopen
          simp only at hnonces hentries hwrites hopen
          subst hnonces
          have hrefused := refused_iff_batchOk blockHeight stateRoot hinvalid hmax
          obtain ⟨hfst, hsnd⟩ :=
            writeBatch_spec db' (blockItems db blockHeight changes senders stateRoot)
          have hsame : batchOk db' (blockItems db blockHeight changes senders stateRoot) =
              batchOk db (blockItems db blockHeight changes senders stateRoot) := by
            rw [batchOk, hopen, hwrites, batchOk]
          rw [hsame] at hfst hsnd
          rw [hentries] at hsnd
          cases hbatch : batchOk db (blockItems db blockHeight changes senders stateRoot) with
          | true =>
              rw [hbatch] at hrefused hfst hsnd
              exact .inr ⟨fun h => Bool.noConfusion (hrefused.1 h), hfst, hsnd⟩
          | false =>
              rw [hbatch] at hrefused hfst hsnd
              exact .inl ⟨hrefused.2 rfl, hfst, hsnd⟩

/-! ### What is asked of a commit -/

/-- **What is asked of a commit.** Where it succeeds, every nonce has grown by the number of
occurrences among the senders, and every balance is the last value given for it, if there is one;
where it fails, no record has changed. -/
def Commits (db : DB) (blockHeight : UInt64) (changes : List (Str × UInt64)) (senders : List Str)
    (stateRoot : Str) : Prop :=
  match commitBlockState db blockHeight changes senders stateRoot with
  | (.ok _, db') =>
      (∀ addr, numberAt db' (nonceKey addr) =
        numberAt db (nonceKey addr) + senders.count addr) ∧
      ∀ addr, numberAt db' (balanceKey addr) =
        ((lastOf addr changes).map UInt64.toNat).getD (numberAt db (balanceKey addr))
  | (.error _, db') => ∀ key, db'.entries.get? key = db.entries.get? key

theorem lastOf_blockItems_nonce (db : DB) (blockHeight : UInt64) (changes : List (Str × UInt64))
    (senders : List Str) (stateRoot addr : Str) :
    lastOf (nonceKey addr) (blockItems db blockHeight changes senders stateRoot) =
      (lastOf addr (seenNonces db senders)).map fun c => decimal (c + 1).toNat := by
  have hroot : lastOf (nonceKey addr)
      (if stateRoot = [] then [] else [(stateKey blockHeight, stateRoot)]) = none := by
    refine lastOf_eq_none ?_
    split
    · exact List.not_mem_nil
    · rw [List.map_singleton, List.mem_singleton]
      exact (stateKey_ne_nonceKey blockHeight addr).symm
  have hchanges : lastOf (nonceKey addr) (changes.map balanceItem) = none := by
    refine lastOf_eq_none ?_
    rw [List.map_map, List.mem_map]
    rintro ⟨c, -, heq⟩
    exact balanceKey_ne_nonceKey c.1 addr heq
  have hnonces := lastOf_map (fun _ _ => nonceKey_injective) (fun c => decimal (c + 1).toNat) addr
    (seenNonces db senders)
  rw [blockItems, lastOf_append, lastOf_append, hroot, hchanges, Option.none_or, Option.or_none]
  exact hnonces

theorem lastOf_blockItems_balance (db : DB) (blockHeight : UInt64)
    (changes : List (Str × UInt64)) (senders : List Str) (stateRoot addr : Str) :
    lastOf (balanceKey addr) (blockItems db blockHeight changes senders stateRoot) =
      (lastOf addr changes).map fun amount => decimal amount.toNat := by
  have hroot : lastOf (balanceKey addr)
      (if stateRoot = [] then [] else [(stateKey blockHeight, stateRoot)]) = none := by
    refine lastOf_eq_none ?_
    split
    · exact List.not_mem_nil
    · rw [List.map_singleton, List.mem_singleton]
      exact (stateKey_ne_balanceKey blockHeight addr).symm
  have hnonces : lastOf (balanceKey addr) ((seenNonces db senders).map nonceItem) = none := by
    refine lastOf_eq_none ?_
    rw [List.map_map, List.mem_map]
    rintro ⟨p, -, heq⟩
    exact balanceKey_ne_nonceKey addr p.1 heq.symm
  have hchanges := lastOf_map (fun _ _ => balanceKey_injective)
    (fun amount : UInt64 => decimal amount.toNat) addr changes
  rw [blockItems, lastOf_append, lastOf_append, hroot, hnonces, Option.none_or, Option.none_or]
  exact hchanges

theorem mem_of_lastOf {κ ν : Type} [DecidableEq κ] {k : κ} {v : ν} {l : List (κ × ν)}
    (h : lastOf k l = some v) : (k, v) ∈ l := List.mem_reverse.1 (Js.mem_of_lookup h)

theorem lastOf_of_mem {κ ν : Type} [DecidableEq κ] {p : κ × ν} {l : List (κ × ν)}
    (hnodup : (l.map Prod.fst).Nodup) (h : p ∈ l) : lastOf p.1 l = some p.2 :=
  Js.lookup_of_mem (by rwa [List.map_reverse, List.nodup_reverse]) (List.mem_reverse.2 h)

/-- **The nonces and balances after a commit** that is not refused. -/
theorem numberAt_commit {db' : DB} {blockHeight : UInt64} {changes : List (Str × UInt64)}
    {senders : List Str} {stateRoot : Str} (hrefused : ¬ Refused db changes senders stateRoot)
    (hentries : db'.entries =
      DB.applyBatch db.entries (blockItems db blockHeight changes senders stateRoot)) (addr : Str) :
    numberAt db' (nonceKey addr) = ((lastOf addr (seenNonces db senders)).map
        fun c => c.toNat + 1).getD (numberAt db (nonceKey addr)) ∧
      numberAt db' (balanceKey addr) =
        ((lastOf addr changes).map UInt64.toNat).getD (numberAt db (balanceKey addr)) := by
  simp only [Refused, not_or, not_exists, not_and] at hrefused
  obtain ⟨hbalances, hnonces, hmax, -⟩ := hrefused
  constructor
  · cases hlast : lastOf addr (seenNonces db senders) with
    | none =>
        rw [numberAt, hentries, get?_applyBatch, lastOf_blockItems_nonce, hlast]
        rfl
    | some c =>
        have hmem := mem_of_lastOf hlast
        have haddr : addr ∈ senders := by
          rw [← seenNonces_fst db senders]
          exact List.mem_map_of_mem hmem
        have hget : db'.entries.get? (nonceKey addr) = some (decimal (c + 1).toNat) := by
          rw [hentries, get?_applyBatch, lastOf_blockItems_nonce, hlast]
          rfl
        have hsucc : (c + 1).toNat = c.toNat + 1 := by
          have hne : c.toNat ≠ maxUInt64.toNat := fun heq =>
            hmax (addr, c) hmem (UInt64.toNat_inj.1 heq)
          have hlt := c.toNat_lt
          have hmaximum : maxUInt64.toNat = 2 ^ 64 - 1 := by decide
          rw [UInt64.toNat_add, UInt64.toNat_one]
          omega
        rw [numberAt_of_get? (Bool.not_eq_false _ ▸ hnonces addr haddr) hget, hsucc]
        rfl
  · cases hlast : lastOf addr changes with
    | none =>
        rw [numberAt, hentries, get?_applyBatch, lastOf_blockItems_balance, hlast]
        rfl
    | some amount =>
        have hget : db'.entries.get? (balanceKey addr) = some (decimal amount.toNat) := by
          rw [hentries, get?_applyBatch, lastOf_blockItems_balance, hlast]
          rfl
        exact numberAt_of_get?
          (Bool.not_eq_false _ ▸ hbalances (addr, amount) (mem_of_lastOf hlast)) hget

/-- The last of the nonces that are read of a sender is followed by the right one exactly if no
sender occurs twice and every nonce is read. -/
theorem nonces_iff (db : DB) (senders : List Str) :
    (∀ addr, ((lastOf addr (seenNonces db senders)).map fun c => c.toNat + 1).getD
        (numberAt db (nonceKey addr)) = numberAt db (nonceKey addr) + senders.count addr) ↔
      senders.Nodup ∧
        ∀ p ∈ seenNonces db senders, p.2.toNat = numberAt db (nonceKey p.1) := by
  have hkeys := seenNonces_fst db senders
  constructor
  · intro h
    -- the last nonce read of a sender is that of its record, and the sender occurs once
    have hlast : ∀ addr ∈ senders, ∃ c, lastOf addr (seenNonces db senders) = some c ∧
        c.toNat = numberAt db (nonceKey addr) ∧ senders.count addr = 1 := by
      intro addr haddr
      have hgrow := h addr
      have hcount := List.count_pos_iff.2 haddr
      cases hc : lastOf addr (seenNonces db senders) with
      | none =>
          rw [hc, Option.map_none, Option.getD_none] at hgrow
          omega
      | some c =>
          have hle : c.toNat ≤ numberAt db (nonceKey addr) := seenNonces_le (mem_of_lastOf hc)
          rw [hc, Option.map_some, Option.getD_some] at hgrow
          exact ⟨c, rfl, by omega, by omega⟩
    have hnodup : senders.Nodup := by
      rw [List.nodup_iff_count_le_one]
      intro addr
      by_cases haddr : addr ∈ senders
      · obtain ⟨-, -, -, hcount⟩ := hlast addr haddr
        exact hcount.le
      · rw [List.count_eq_zero_of_not_mem haddr]
        exact Nat.zero_le _
    refine ⟨hnodup, fun p hp => ?_⟩
    have hsender : p.1 ∈ senders := by
      rw [← hkeys]
      exact List.mem_map_of_mem hp
    obtain ⟨c, hc, hvalue, -⟩ := hlast p.1 hsender
    rw [lastOf_of_mem (hkeys.symm ▸ hnodup) hp] at hc
    rw [Option.some.inj hc, hvalue]
  · rintro ⟨hnodup, hseen⟩ addr
    cases hc : lastOf addr (seenNonces db senders) with
    | none =>
        have hnot : addr ∉ senders := by
          intro haddr
          rw [← hkeys] at haddr
          obtain ⟨p, hp, rfl⟩ := List.mem_map.1 haddr
          rw [lastOf_of_mem (hkeys.symm ▸ hnodup) hp] at hc
          cases hc
        rw [List.count_eq_zero_of_not_mem hnot]
        rfl
    | some c =>
        have hmem := mem_of_lastOf hc
        have haddr : addr ∈ senders := by
          rw [← hkeys]
          exact List.mem_map_of_mem hmem
        rw [Option.map_some, Option.getD_some, hseen _ hmem,
          List.count_eq_one_of_mem hnodup haddr]

/-- **A commit does what is asked exactly if it fails**, or no sender occurs twice and every nonce
that is read is that of its record. -/
theorem commits_iff (db : DB) (blockHeight : UInt64) (changes : List (Str × UInt64))
    (senders : List Str) (stateRoot : Str) :
    Commits db blockHeight changes senders stateRoot ↔
      Refused db changes senders stateRoot ∨
      senders.Nodup ∧
        ∀ p ∈ seenNonces db senders, p.2.toNat = numberAt db (nonceKey p.1) := by
  rw [Commits]
  rcases commitBlockState_cases db blockHeight changes senders stateRoot with
    ⟨hrefused, hfst, hentries⟩ | ⟨hrefused, hfst, hentries⟩
  · cases hcommit : commitBlockState db blockHeight changes senders stateRoot with
    | mk r db' =>
        rw [hcommit] at hfst hentries
        cases r with
        | ok u => exact Bool.noConfusion hfst
        | error e => exact iff_of_true (fun key => by rw [hentries]) (.inl hrefused)
  · have hnumbers := numberAt_commit hrefused hentries
    rw [or_iff_right hrefused]
    cases hcommit : commitBlockState db blockHeight changes senders stateRoot with
    | mk r db' =>
        rw [hcommit] at hfst hnumbers
        cases r with
        | error e => exact Bool.noConfusion hfst
        | ok u =>
            have hbalances := fun addr => (hnumbers addr).2
            simp only [hbalances, implies_true, and_true, fun addr => (hnumbers addr).1]
            exact nonces_iff db senders

/-- **A sender that occurs twice gets one increment.** -/
theorem not_commits_twice : ¬ Commits {} 1 [] [str "a", str "a"] [] := by
  have hok : (commitBlockState {} 1 [] [str "a", str "a"] []).1.isOk = true := by decide +kernel
  have hnonce : numberAt (commitBlockState {} 1 [] [str "a", str "a"] []).2 (nonceKey (str "a")) ≠
      numberAt {} (nonceKey (str "a")) + [str "a", str "a"].count (str "a") := by decide +kernel
  rw [Commits]
  cases hcommit : commitBlockState {} 1 [] [str "a", str "a"] [] with
  | mk r db' =>
      rw [hcommit] at hok hnonce
      cases r with
      | error e => exact Bool.noConfusion hok
      | ok u => exact fun h => hnonce (h.1 (str "a"))

end Accounts
