/-
**The keys of the account database.**

A record stands under a key that is put together from a prefix for its kind and from what it belongs
to.  The prefixes keep the kinds apart.  A height is written in decimal, without a colon, so that
the colon after it can be found again.  An address may have colons itself, and so may a slot: the
slot `b:c` of the address `a` has the key of the slot `c` of the address `a:b`.

Main definitions:

* `Accounts.Query`, `Accounts.Query.key`, `Accounts.Query.answer` — what can be asked for, under
  which key, and what a getter returns;
* `Accounts.Setter`, `Accounts.Setter.apply` — what can be written;
* `Accounts.Isolated` — writing the one does not change the other;
* `Accounts.Aliased` — two slots whose keys are put together in two ways.

Main results:

* `Accounts.Query.key_eq_iff` — **when two keys are equal**;
* `Accounts.isolated_iff` — **when writing the one leaves the other alone**.
-/

import MedorCoin.Accounts.DB

set_option autoImplicit false

namespace Accounts

open Cpp
open Node.AccountDB (isValidKey balanceKey)

/-! ### The other records -/

def codeKey (address : Str) : Str := str "code:" ++ address

def storeKey (address slot : Str) : Str := str "store:" ++ address ++ str ":" ++ slot

def metaKey (blockHeight : UInt64) (key : Str) : Str :=
  str "meta:" ++ decimal blockHeight.toNat ++ str ":" ++ key

def gasKey (address : Str) : Str := str "gas:" ++ address

/-- The text of a record, empty if the read fails. -/
def readText (db : DB) (key : Str) : Str × DB :=
  let r := db.get key
  (match r.1 with
    | .error _ => []
    | .ok val => val, r.2)

/-- `setContractCode(address, code)`. -/
def setContractCode (db : DB) (address : Str) (code : List UInt8) : Result Unit × DB :=
  db.put (codeKey address) (toHex code)

/-- A digit of either case. -/
def isHexDigit (b : UInt8) : Bool := isDigit b || (65 ≤ b && b ≤ 70) || (97 ≤ b && b ≤ 102)

/-- `std::stoul(s, nullptr, 16)`, cut to a byte; `none` where it throws.  Two characters are
never too great, and never a digit after `0x`. -/
def stoul16 (s : Str) : Option UInt8 :=
  let text := s.dropWhile isSpace
  let unsigned := if text.head? == some 45 || text.head? == some 43 then text.tail else text
  let digits := unsigned.takeWhile isHexDigit
  if digits = [] then none
  else
    let value := digits.foldl (fun n b =>
      16 * n + (if isDigit b then b.toNat - 48 else if b ≤ 70 then b.toNat - 55
        else b.toNat - 87)) 0
    some (if text.head? == some 45 then -UInt8.ofNat value else UInt8.ofNat value)

/-- The loop over the pairs of digits; a last digit that is alone is left out. -/
def hexPairs : Str → Option (List UInt8)
  | hi :: lo :: rest => do
      let b ← stoul16 [hi, lo]
      let code ← hexPairs rest
      some (b :: code)
  | _ => some []

/-- `getContractCode(address)`. -/
def getContractCode (db : DB) (address : Str) : List UInt8 × DB :=
  let hex := readText db (codeKey address)
  ((hexPairs hex.1).getD [], hex.2)

/-- `setStorageSlot(address, slot, value)`. -/
def setStorageSlot (db : DB) (address slot value : Str) : Result Unit × DB :=
  db.put (storeKey address slot) value

/-- `getStorageSlot(address, slot)`. -/
def getStorageSlot (db : DB) (address slot : Str) : Str × DB := readText db (storeKey address slot)

/-- `setStateRoot(blockHeight, stateRoot)`. -/
def setStateRoot (db : DB) (blockHeight : UInt64) (stateRoot : Str) : Result Unit × DB :=
  db.put (stateKey blockHeight) stateRoot

/-- `getStateRoot(blockHeight)`. -/
def getStateRoot (db : DB) (blockHeight : UInt64) : Str × DB := readText db (stateKey blockHeight)

/-- `setMeta(blockHeight, key, value)`. -/
def setMeta (db : DB) (blockHeight : UInt64) (key value : Str) : Result Unit × DB :=
  db.put (metaKey blockHeight key) value

/-- `getMeta(blockHeight, key)`. -/
def getMeta (db : DB) (blockHeight : UInt64) (key : Str) : Str × DB :=
  readText db (metaKey blockHeight key)

/-- `addGasUsed(address, gasUsed)`. -/
def addGasUsed (db : DB) (address : Str) (gasUsed : UInt64) : Bool × DB :=
  let current := readNumber db (gasKey address)
  if gasUsed > maxUInt64 - current.1 then (false, current.2)
  else
    let r := current.2.put (gasKey address) (decimal (current.1 + gasUsed).toNat)
    (r.1.isOk, r.2)

/-- `getTotalGasUsed(address)`. -/
def getTotalGasUsed (db : DB) (address : Str) : UInt64 × DB := readNumber db (gasKey address)

/-! ### Queries -/

/-- What can be asked for: a kind, and what it belongs to. -/
inductive Query
  | balance (address : Str)
  | nonce (address : Str)
  | code (address : Str)
  | slot (address slot : Str)
  | stateRoot (blockHeight : UInt64)
  | blockMeta (blockHeight : UInt64) (key : Str)
  | gas (address : Str)
  deriving DecidableEq

/-- What is returned. -/
inductive Answer
  | number (n : UInt64)
  | bytes (b : List UInt8)
  | text (s : Str)
  deriving DecidableEq

namespace Query

/-- The prefix of a kind. -/
def kind : Query → Str
  | balance _ => str "bal:"
  | nonce _ => str "nonce:"
  | code _ => str "code:"
  | slot _ _ => str "store:"
  | stateRoot _ => str "state:"
  | blockMeta _ _ => str "meta:"
  | gas _ => str "gas:"

/-- The key. -/
def key : Query → Str
  | balance address => balanceKey address
  | nonce address => nonceKey address
  | code address => codeKey address
  | slot address s => storeKey address s
  | stateRoot blockHeight => stateKey blockHeight
  | blockMeta blockHeight key => metaKey blockHeight key
  | gas address => gasKey address

/-- What the getter returns. -/
def answer (db : DB) : Query → Answer
  | balance address => .number (getBalance db address).1
  | nonce address => .number (getNonce db address).1
  | code address => .bytes (getContractCode db address).1
  | slot address s => .text (getStorageSlot db address s).1
  | stateRoot blockHeight => .text (getStateRoot db blockHeight).1
  | blockMeta blockHeight key => .text (getMeta db blockHeight key).1
  | gas address => .number (getTotalGasUsed db address).1

end Query

/-! ### When keys are equal -/

theorem append_cons_eq_iff {sep : UInt8} {a b s t : Str} :
    a ++ sep :: s = b ++ sep :: t ↔
      (a = b ∧ s = t) ∨ (∃ m, b = a ++ sep :: m ∧ s = m ++ sep :: t) ∨
        ∃ m, a = b ++ sep :: m ∧ t = m ++ sep :: s := by
  rw [List.append_eq_append_iff]
  constructor
  · rintro (⟨m, rfl, hm⟩ | ⟨m, rfl, hm⟩)
    · cases m with
      | nil => exact Or.inl ⟨(List.append_nil a).symm, (List.cons.inj hm).2⟩
      | cons c m =>
          obtain ⟨rfl, rfl⟩ := List.cons.inj hm
          exact Or.inr (Or.inl ⟨m, rfl, rfl⟩)
    · cases m with
      | nil => exact Or.inl ⟨List.append_nil b, (List.cons.inj hm).2.symm⟩
      | cons c m =>
          obtain ⟨rfl, rfl⟩ := List.cons.inj hm
          exact Or.inr (Or.inr ⟨m, rfl, rfl⟩)
  · rintro (⟨rfl, rfl⟩ | ⟨m, rfl, rfl⟩ | ⟨m, rfl, rfl⟩)
    · exact Or.inl ⟨[], (List.append_nil a).symm, rfl⟩
    · exact Or.inl ⟨sep :: m, rfl, rfl⟩
    · exact Or.inr ⟨sep :: m, rfl, rfl⟩

theorem append_cons_inj_of_notMem {sep : UInt8} {a b s t : Str} (ha : sep ∉ a) (hb : sep ∉ b)
    (h : a ++ sep :: s = b ++ sep :: t) : a = b ∧ s = t := by
  rcases append_cons_eq_iff.1 h with heq | ⟨m, rfl, _⟩ | ⟨m, rfl, _⟩
  · exact heq
  · exact absurd (List.mem_append_right a List.mem_cons_self) hb
  · exact absurd (List.mem_append_right b List.mem_cons_self) ha

/-- **Two slots whose keys are put together in two ways**: the address of the one goes on, after a
colon, with the beginning of the slot of the other. -/
def Aliased : Query → Query → Prop
  | .slot a s, .slot b t =>
      (∃ m, b = a ++ str ":" ++ m ∧ s = m ++ str ":" ++ t) ∨
        ∃ m, a = b ++ str ":" ++ m ∧ t = m ++ str ":" ++ s
  | _, _ => False

namespace Query

/-- What stands after the prefix. -/
def rest : Query → Str
  | balance address => address
  | nonce address => address
  | code address => address
  | slot address s => address ++ str ":" ++ s
  | stateRoot blockHeight => decimal blockHeight.toNat
  | blockMeta blockHeight key => decimal blockHeight.toNat ++ str ":" ++ key
  | gas address => address

theorem key_eq (q : Query) : q.key = q.kind ++ q.rest := by
  cases q <;> simp [key, kind, rest, balanceKey, nonceKey, codeKey, storeKey, stateKey, metaKey,
    gasKey]

theorem kind_eq_of_key_eq {q r : Query} (h : q.key = r.key) : q.kind = r.kind := by
  by_contra hne
  rw [key_eq, key_eq] at h
  have hlength : ∀ q : Query, 3 ≤ q.kind.length := fun q => by
    cases q <;> simp only [kind] <;> decide
  have htake : q.kind.take 3 ≠ r.kind.take 3 := by
    cases q <;> cases r <;> simp only [kind, ne_eq] at hne ⊢ <;>
      first | exact absurd trivial hne | decide
  exact append_ne_append (hlength q) (hlength r) htake _ _ h

theorem not_mem_decimal_colon (n : ℕ) : (58 : UInt8) ∉ decimal n := not_mem_decimal (by decide)

/-- **When two keys are equal**: the queries are, or they are slots that are aliased. -/
theorem key_eq_iff (q r : Query) : q.key = r.key ↔ q = r ∨ Aliased q r := by
  have hcolon : str ":" = [58] := rfl
  constructor
  · intro h
    have hkind := kind_eq_of_key_eq h
    have hrest : q.rest = r.rest := by
      rw [key_eq, key_eq, hkind] at h
      exact List.append_cancel_left h
    cases q <;> cases r <;> simp only [kind] at hkind <;> try exact absurd hkind (by decide)
    case balance.balance => exact Or.inl (congrArg balance hrest)
    case nonce.nonce => exact Or.inl (congrArg nonce hrest)
    case code.code => exact Or.inl (congrArg code hrest)
    case gas.gas => exact Or.inl (congrArg gas hrest)
    case stateRoot.stateRoot =>
      exact Or.inl (congrArg stateRoot (UInt64.toNat_inj.1 (decimal_injective hrest)))
    case blockMeta.blockMeta =>
      simp only [rest, hcolon, List.append_assoc, List.singleton_append] at hrest
      obtain ⟨hheight, rfl⟩ := append_cons_inj_of_notMem (not_mem_decimal_colon _)
        (not_mem_decimal_colon _) hrest
      rw [UInt64.toNat_inj.1 (decimal_injective hheight)]
      exact Or.inl rfl
    case slot.slot a s b t =>
      simp only [rest, hcolon, List.append_assoc, List.singleton_append] at hrest
      rcases append_cons_eq_iff.1 hrest with ⟨rfl, rfl⟩ | ⟨m, hb, hs⟩ | ⟨m, ha, ht⟩
      · exact Or.inl rfl
      · exact Or.inr (Or.inl ⟨m, by simpa [hcolon] using hb, by simpa [hcolon] using hs⟩)
      · exact Or.inr (Or.inr ⟨m, by simpa [hcolon] using ha, by simpa [hcolon] using ht⟩)
  · rintro (rfl | halias)
    · rfl
    · cases q <;> cases r <;> try exact absurd halias id
      case slot.slot a s b t =>
        rcases halias with ⟨m, rfl, rfl⟩ | ⟨m, rfl, rfl⟩
        · simp [key, storeKey]
        · simp [key, storeKey]

end Query

/-! ### Setters -/

/-- The calls that write one record. -/
inductive Setter
  | setBalance (address : Str) (amount : UInt64)
  | addBalance (address : Str) (amount : UInt64)
  | deductBalance (address : Str) (amount : UInt64)
  | incrementNonce (address : Str)
  | setContractCode (address : Str) (code : List UInt8)
  | setStorageSlot (address slot value : Str)
  | setStateRoot (blockHeight : UInt64) (stateRoot : Str)
  | setMeta (blockHeight : UInt64) (key value : Str)
  | addGasUsed (address : Str) (gasUsed : UInt64)

namespace Setter

/-- What a call is to change. -/
def target : Setter → Query
  | setBalance address _ => .balance address
  | addBalance address _ => .balance address
  | deductBalance address _ => .balance address
  | incrementNonce address => .nonce address
  | setContractCode address _ => .code address
  | setStorageSlot address slot _ => .slot address slot
  | setStateRoot blockHeight _ => .stateRoot blockHeight
  | setMeta blockHeight key _ => .blockMeta blockHeight key
  | addGasUsed address _ => .gas address

/-- Whether a write was made, as the calls return it. -/
def written (r : Result Unit × DB) : Bool × DB := (r.1.isOk, r.2)

/-- A call. -/
def apply (db : DB) : Setter → Bool × DB
  | setBalance address amount => written (Accounts.setBalance db address amount)
  | addBalance address amount => Accounts.addBalance db address amount
  | deductBalance address amount => Accounts.deductBalance db address amount
  | incrementNonce address => Accounts.incrementNonce db address
  | setContractCode address code => written (Accounts.setContractCode db address code)
  | setStorageSlot address slot value => written (Accounts.setStorageSlot db address slot value)
  | setStateRoot blockHeight stateRoot => written (Accounts.setStateRoot db blockHeight stateRoot)
  | setMeta blockHeight key value => written (Accounts.setMeta db blockHeight key value)
  | addGasUsed address gasUsed => Accounts.addGasUsed db address gasUsed

end Setter

/-- One record may have been written, under a key that is valid; no read failed and none will. -/
structure Touched (key : Str) (db db' : DB) : Prop where
  isOpen : db'.isOpen = db.isOpen
  reads : db.reads = [] → db'.reads = []
  get?_of_ne : ∀ key', (isValidKey key → key ≠ key') → db'.entries.get? key' = db.entries.get? key'

namespace Touched

variable {db db' db'' : DB} {key : Str}

theorem refl (key : Str) (db : DB) : Touched key db db := ⟨rfl, id, fun _ _ => rfl⟩

theorem trans (h : Touched key db db') (h' : Touched key db' db'') : Touched key db db'' where
  isOpen := h'.isOpen.trans h.isOpen
  reads := h'.reads ∘ h.reads
  get?_of_ne key' hne := (h'.get?_of_ne key' hne).trans (h.get?_of_ne key' hne)

theorem put (db : DB) (key value : Str) : Touched key db (db.put key value).2 where
  isOpen := by
    rw [DB.put]
    split_ifs
    · rfl
    · rfl
    · cases db.writes.headD none <;> rfl
  reads := by
    intro hreads
    rw [DB.put]
    split_ifs
    · exact hreads
    · exact hreads
    · cases db.writes.headD none <;> exact hreads
  get?_of_ne := by
    intro key' hne
    rw [put_entries, canWrite]
    cases hvalid : isValidKey key with
    | false => rfl
    | true =>
        split
        · rw [Js.Map.get?_set_of_ne _ _ (hne hvalid)]
        · rfl

theorem get (db : DB) (key key' : Str) : Touched key db (db.get key').2 where
  isOpen := DB.get_isOpen db key'
  reads := by
    intro hreads
    rw [DB.get]
    split_ifs
    · exact hreads
    · exact hreads
    · rw [hreads]
      cases db.entries.get? key' <;> rfl
  get?_of_ne key'' _ := by rw [DB.get_entries]

end Touched

theorem Touched.checked (db : DB) (key value : Str) (c : Prop) [Decidable c] :
    Touched key db (if c then (false, (db.get key).2)
      else (((db.get key).2.put key value).1.isOk, ((db.get key).2.put key value).2)).2 := by
  by_cases hc : c
  · rw [if_pos hc]
    exact Touched.get db key key
  · rw [if_neg hc]
    exact (Touched.get db key key).trans (Touched.put _ key value)

/-- **Every setter writes one record**, the one of its target. -/
theorem Setter.touched (db : DB) (s : Setter) : Touched s.target.key db (s.apply db).2 := by
  cases s with
  | setBalance address amount =>
      simp only [apply, target, Query.key, Accounts.setBalance, written]
      exact Touched.put db _ _
  | setContractCode address code =>
      simp only [apply, target, Query.key, Accounts.setContractCode, written]
      exact Touched.put db _ _
  | setStorageSlot address slot value =>
      simp only [apply, target, Query.key, Accounts.setStorageSlot, written]
      exact Touched.put db _ _
  | setStateRoot blockHeight stateRoot =>
      simp only [apply, target, Query.key, Accounts.setStateRoot, written]
      exact Touched.put db _ _
  | setMeta blockHeight key value =>
      simp only [apply, target, Query.key, Accounts.setMeta, written]
      exact Touched.put db _ _
  | addBalance address amount =>
      simp only [apply, target, Query.key, Accounts.addBalance, Accounts.getBalance,
        Accounts.setBalance, readNumber_snd]
      exact Touched.checked db _ _ _
  | deductBalance address amount =>
      simp only [apply, target, Query.key, Accounts.deductBalance, Accounts.getBalance,
        Accounts.setBalance, readNumber_snd]
      exact Touched.checked db _ _ _
  | incrementNonce address =>
      simp only [apply, target, Query.key, Accounts.incrementNonce, Accounts.getNonce,
        readNumber_snd]
      exact Touched.checked db _ _ _
  | addGasUsed address gasUsed =>
      simp only [apply, target, Query.key, Accounts.addGasUsed, readNumber_snd]
      exact Touched.checked db _ _ _

theorem Touched.get_fst {db db' : DB} {key key' : Str} (h : Touched key db db')
    (hreads : db.reads = []) (hne : isValidKey key → key ≠ key') :
    (db'.get key').1 = (db.get key').1 := by
  rw [DB.get, DB.get, h.isOpen, h.reads hreads, hreads, h.get?_of_ne key' hne]
  split_ifs
  · rfl
  · rfl
  · cases db.entries.get? key' <;> rfl

theorem Touched.answer_eq {db db' : DB} {key : Str} (h : Touched key db db')
    (hreads : db.reads = []) {q : Query} (hne : isValidKey key → key ≠ q.key) :
    q.answer db' = q.answer db := by
  have hget := h.get_fst hreads hne
  cases q <;> simp only [Query.answer, getBalance, getNonce, getContractCode, getStorageSlot,
    getStateRoot, getMeta, getTotalGasUsed, readNumber, readText, Query.key] at hget ⊢ <;>
    rw [hget]

/-! ### Isolation -/

/-- **Writing the one does not change the other**: whatever a setter of the one writes, while no
read fails. -/
def Isolated (q r : Query) : Prop :=
  ∀ (s : Setter) (db : DB), s.target = q → db.reads = [] → r.answer (s.apply db).2 = r.answer db

/-- The slot `b:c` of `a` and the slot `c` of `a:b`. -/
theorem not_isolated_slots : ¬ ∀ q r : Query, q ≠ r → Isolated q r := by
  intro h
  have hanswer := h (.slot (str "a") (str "b:c")) (.slot (str "a:b") (str "c")) (by decide)
    (.setStorageSlot (str "a") (str "b:c") (str "1")) {} rfl rfl
  exact absurd hanswer (by decide +kernel)

theorem Aliased.ne {q r : Query} (h : Aliased q r) : q ≠ r := by
  rintro rfl
  cases q <;> try exact h
  case slot a s =>
    rcases h with ⟨m, ha, _⟩ | ⟨m, ha, _⟩
    · have hlength := congrArg List.length ha
      simp only [List.length_append] at hlength
      have hone : (str ":").length = 1 := rfl
      omega
    · have hlength := congrArg List.length ha
      simp only [List.length_append] at hlength
      have hone : (str ":").length = 1 := rfl
      omega

theorem readText_put {key : Str} (hvalid : isValidKey key) (value : Str) :
    (readText (DB.put {} key value).2 key).1 = value := by
  have hput : (DB.put {} key value).2 = { entries := Js.Map.empty.set key value } := by
    rw [DB.put, hvalid]
    rfl
  rw [readText, hput, DB.get, hvalid]
  simp

theorem readText_empty (key : Str) : (readText {} key).1 = [] := by
  rw [readText, DB.get]
  split_ifs <;> rfl

theorem Aliased.not_isolated {q r : Query} (h : Aliased q r) (hvalid : isValidKey q.key) :
    ¬ Isolated q r := by
  intro hisolated
  have hkey := (Query.key_eq_iff q r).2 (Or.inr h)
  cases q <;> cases r <;> try exact absurd h id
  case slot.slot a s b t =>
    have hanswer := hisolated (.setStorageSlot a s (str "1")) {} rfl rfl
    have hread := readText_put hvalid (str "1")
    simp only [Query.key] at hkey hread
    rw [hkey] at hread
    simp only [Query.answer, getStorageSlot, Setter.apply, Setter.written, setStorageSlot, hkey,
      hread, readText_empty] at hanswer
    exact absurd hanswer (by decide)

/-- **When writing the one leaves the other alone**: unless they are two slots that are aliased,
under a key that is valid.  The keys of two queries that are not aliased are different. -/
theorem isolated_iff (q r : Query) :
    ((q ≠ r → Isolated q r) ↔ ¬ (Aliased q r ∧ isValidKey q.key)) ∧
      ((q ≠ r → q.key ≠ r.key) ↔ ¬ Aliased q r) := by
  refine ⟨⟨?_, ?_⟩, ⟨?_, ?_⟩⟩
  · rintro h ⟨halias, hvalid⟩
    exact halias.not_isolated hvalid (h halias.ne)
  · intro hnot hne s db hs hreads
    refine (s.touched db).answer_eq hreads fun hvalid hkey => ?_
    rw [hs] at hvalid hkey
    rcases (Query.key_eq_iff q r).1 hkey with heq | halias
    · exact hne heq
    · exact hnot ⟨halias, hvalid⟩
  · intro h halias
    exact h halias.ne ((Query.key_eq_iff q r).2 (Or.inr halias))
  · intro hnot hne hkey
    rcases (Query.key_eq_iff q r).1 hkey with heq | halias
    · exact hne heq
    · exact hnot halias

end Accounts
