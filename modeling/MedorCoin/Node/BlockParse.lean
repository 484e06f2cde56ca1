/-
**Stored blocks that are cut short, or go on.**

At the end of the text the fields that are missing are read as the last one, and fields that are
too many are not read at all; the object is written field by field before the later fields have been
looked at.  So a text is accepted where its fields, with the last one standing in for those that
are missing, are all good, and a text that is rejected leaves behind what stands in front of the
first bad field.

Main definitions:

* `Node.Block.fieldAt` — a field, or what is read in its place;
* `Node.Block.GoodField`, `Node.Block.Accepted` — the fields that are accepted;
* `Node.Block.Short`, `Node.Block.Long` — too few fields, or too many;
* `Node.Block.Unwritten` — the object holds what stands in front of the first bad field;
* `Node.Block.Safe` — a text that is short or long is rejected, and a text that is rejected changes
  nothing.

Main results:

* `Node.Block.deserialize_fst_iff` — **what is accepted**;
* `Node.Block.deserialize_snd_iff` — **what is left unchanged**;
* `Node.Block.cutText_accepted_iff`, `Node.Block.trailingText_accepted` — stored texts that are cut,
  and that go on;
* `Node.Block.deserialize_safe_iff` — **where `deserialize` is safe**;
* `Node.Block.not_safe` — the version alone is accepted as a block.
-/

import MedorCoin.Node.Block
import Mathlib.Data.List.GetD
import Mathlib.Tactic.IntervalCases

set_option autoImplicit false

namespace Node

open Cpp

namespace Block

/-! ### Fields by their places -/

/-- The field at a place; behind the last one it is the last one. -/
def fieldAt (fields : List Str) (i : ℕ) : Str := fields.getD i (fields.getLastD [])

/-- The reader in front of the field at a place. -/
def readerAt (fields : List Str) (i : ℕ) (b : Block) : Reader where
  fields := fields.drop i
  token := if i = 0 then [] else fieldAt fields (i - 1)
  block := b

/-- The number a field is read as. -/
def number (field : Str) : UInt64 := (stoull field).getD 0

section Places

variable {α : Type} {fields : List Str}

theorem fieldAt_of_length_le {i : ℕ} (h : fields.length ≤ i) :
    fieldAt fields i = fields.getLastD [] := by
  rw [fieldAt, List.getD_eq_default _ _ h]

theorem fieldAt_pred (hne : fields ≠ []) {i : ℕ} (h : fields.length ≤ i) :
    fieldAt fields (i - 1) = fieldAt fields i := by
  have hpos := List.length_pos_of_ne_nil hne
  rw [fieldAt_of_length_le h]
  rcases Nat.lt_or_ge (i - 1) fields.length with hlt | hge
  · obtain rfl : i = fields.length := by omega
    rw [fieldAt, List.getD_eq_getElem _ _ hlt, List.getLastD_eq_getLast?, List.getLast?_eq_getElem?,
      List.getElem?_eq_getElem hlt]
    rfl
  · exact fieldAt_of_length_le hge

/-- **Reading on**: every read takes the field at its place. -/
theorem next_at (hne : fields ≠ []) (k : Str → Parse α) (i : ℕ) (b : Block) :
    (next >>= k).run (readerAt fields i b) =
      (k (fieldAt fields i)).run (readerAt fields (i + 1) b) := by
  rcases Nat.lt_or_ge i fields.length with hlt | hge
  · have hfield : fieldAt fields i = fields[i] := List.getD_eq_getElem _ _ hlt
    rw [readerAt, readerAt, List.drop_eq_getElem_cons hlt, next_bind, if_neg i.succ_ne_zero,
      Nat.add_sub_cancel, hfield]
  · have hpos := List.length_pos_of_ne_nil hne
    have hzero : i ≠ 0 := by omega
    rw [readerAt, readerAt, List.drop_of_length_le hge, List.drop_of_length_le (by omega),
      if_neg hzero, if_neg i.succ_ne_zero, Nat.add_sub_cancel, fieldAt_pred hne hge]
    rfl

theorem nextNumber_at (hne : fields ≠ []) (k : UInt64 → Parse α) {i : ℕ} (b : Block)
    (h : (stoull (fieldAt fields i)).isSome) :
    (nextNumber >>= k).run (readerAt fields i b) =
      (k (number (fieldAt fields i))).run (readerAt fields (i + 1) b) := by
  obtain ⟨n, hn⟩ := Option.isSome_iff_exists.1 h
  rw [nextNumber, bind_assoc, next_at hne, number, hn]
  rfl

theorem nextNumber_at_none (hne : fields ≠ []) (k : UInt64 → Parse α) {i : ℕ} (b : Block)
    (h : ¬ (stoull (fieldAt fields i)).isSome) :
    (nextNumber >>= k).run (readerAt fields i b) = .error () (readerAt fields (i + 1) b) := by
  rw [nextNumber, bind_assoc, next_at hne, Option.not_isSome_iff_eq_none.1 h]
  rfl

theorem assign_at (f : Block → Block) (k : Unit → Parse α) (i : ℕ) (b : Block) :
    (assign f >>= k).run (readerAt fields i b) = (k ()).run (readerAt fields i (f b)) := rfl

end Places

/-! ### Good fields -/

/-- What a field of the header has to be: a version, a number, a count, or anything. -/
def GoodField (i : ℕ) (field : Str) : Prop :=
  match i with
  | 0 => (stoull field).isSome ∧ ¬ (number field).toUInt32 > serialVersion
  | 3 | 5 | 6 | 7 | 8 | 9 | 10 => (stoull field).isSome
  | 13 => (stoull field).isSome ∧ ¬ number field > maxTransactions
  | _ => True

/-- The fields in front of a place are good, and so the field at that place is read. -/
def Reaches (g : ℕ → Str) (i : ℕ) : Prop := ∀ k < i, GoodField k (g k)

/-- The numbers of a transaction are numbers. -/
def GoodTransaction (g : ℕ → Str) (pos : ℕ) : Prop :=
  (stoull (g (pos + 2))).isSome ∧ (stoull (g (pos + 3))).isSome

instance (g : ℕ → Str) (pos : ℕ) : Decidable (GoodTransaction g pos) :=
  inferInstanceAs (Decidable (_ ∧ _))

/-- The numbers of so many transactions are numbers. -/
def GoodTransactions (g : ℕ → Str) (n pos : ℕ) : Prop := ∀ i < n, GoodTransaction g (pos + 4 * i)

/-- The transaction whose fields begin at a place. -/
def transactionAt (g : ℕ → Str) (pos : ℕ) : Transaction where
  txHash := g pos
  toAddress := g (pos + 1)
  value := number (g (pos + 2))
  nonce := number (g (pos + 3))

/-- The transactions in front of the first bad one. -/
def transactionsBefore (g : ℕ → Str) : ℕ → ℕ → List Transaction
  | 0, _ => []
  | n + 1, pos =>
      if GoodTransaction g pos then transactionAt g pos :: transactionsBefore g n (pos + 4) else []

/-- The number of transactions. -/
def countOf (g : ℕ → Str) : ℕ := (number (g 13)).toNat

/-- All fields are good. -/
def ReadsAll (g : ℕ → Str) : Prop := Reaches g 14 ∧ GoodTransactions g (countOf g) 14

/-- All fields are good, and the time is not zero. -/
def Accepted (g : ℕ → Str) : Prop := ReadsAll g ∧ number (g 5) ≠ 0

/-- The object with the fields of the header in front of a place. -/
def headerBefore (g : ℕ → Str) (i : ℕ) (b : Block) : Block where
  previousHash := if 1 < i then g 1 else b.previousHash
  data := if 2 < i then g 2 else b.data
  difficulty := if 3 < i then (number (g 3)).toUInt32 else b.difficulty
  minerAddress := if 4 < i then g 4 else b.minerAddress
  timestamp := if 5 < i then number (g 5) else b.timestamp
  nonce := if 6 < i then number (g 6) else b.nonce
  reward := if 7 < i then number (g 7) else b.reward
  baseFee := if 8 < i then number (g 8) else b.baseFee
  gasUsed := if 9 < i then number (g 9) else b.gasUsed
  gasLimit := if 10 < i then number (g 10) else b.gasLimit
  hash := if 11 < i then g 11 else b.hash
  signature := if 12 < i then g 12 else b.signature
  transactions := b.transactions

/-- The object with all fields of the header, in front of the transactions. -/
def headerRead (g : ℕ → Str) (b : Block) : Block :=
  { headerBefore g 14 b with transactions := [] }

/-! ### The loop over the transactions -/

section

variable {fields : List Str}

theorem goodTransactions_succ {g : ℕ → Str} {n pos : ℕ} : GoodTransactions g (n + 1) pos ↔
    GoodTransaction g pos ∧ GoodTransactions g n (pos + 4) := by
  constructor
  · intro h
    refine ⟨h 0 n.succ_pos, fun i hi => ?_⟩
    have hnext := h (i + 1) (Nat.succ_lt_succ hi)
    rwa [Nat.mul_succ, Nat.add_comm (4 * i), ← Nat.add_assoc] at hnext
  · rintro ⟨hfirst, hrest⟩ i hi
    cases i with
    | zero => exact hfirst
    | succ i =>
        have hnext := hrest i (Nat.lt_of_succ_lt_succ hi)
        rwa [Nat.add_assoc, Nat.add_comm 4, ← Nat.mul_succ] at hnext

/-- **The transactions that are read** are those in front of the first bad one. -/
theorem readTransactions_at (hne : fields ≠ []) (n pos : ℕ) (b : Block) :
    (GoodTransactions (fieldAt fields) n pos → (readTransactions n).run (readerAt fields pos b) =
      .ok () (readerAt fields (pos + 4 * n) { b with
        transactions := b.transactions ++ transactionsBefore (fieldAt fields) n pos })) ∧
    (¬ GoodTransactions (fieldAt fields) n pos →
      ∃ r, (readTransactions n).run (readerAt fields pos b) = .error () r ∧ r.block = { b with
        transactions := b.transactions ++ transactionsBefore (fieldAt fields) n pos }) := by
  induction n generalizing pos b with
  | zero =>
      refine ⟨fun _ => ?_, fun h => absurd (fun i hi => absurd hi i.not_lt_zero) h⟩
      rw [transactionsBefore, List.append_nil]
      rfl
  | succ n ih =>
      rw [readTransactions, next_at hne, next_at hne]
      -- two of the four fields are numbers, and the value is read before the nonce
      by_cases hvalue : (stoull (fieldAt fields (pos + 2))).isSome
      · rw [nextNumber_at hne _ _ hvalue]
        by_cases hnonce : (stoull (fieldAt fields (pos + 3))).isSome
        · have hgood : GoodTransaction (fieldAt fields) pos := ⟨hvalue, hnonce⟩
          obtain ⟨hok, herror⟩ := ih (pos + 4) { b with
            transactions := b.transactions ++ [transactionAt (fieldAt fields) pos] }
          rw [nextNumber_at hne _ _ hnonce, assign_at, goodTransactions_succ, transactionsBefore,
            if_pos hgood]
          simp only [hgood, true_and]
          simp only [List.append_assoc, List.singleton_append] at hok herror
          refine ⟨fun h => ?_, herror⟩
          have hpos : pos + 4 * (n + 1) = pos + 4 + 4 * n := by omega
          rw [hpos]
          exact hok h
        · have hbad : ¬ GoodTransaction (fieldAt fields) pos := fun h => hnonce h.2
          rw [nextNumber_at_none hne _ _ hnonce, goodTransactions_succ, transactionsBefore,
            if_neg hbad, List.append_nil]
          exact ⟨fun h => absurd h.1 hbad, fun _ => ⟨_, rfl, rfl⟩⟩
      · have hbad : ¬ GoodTransaction (fieldAt fields) pos := fun h => hvalue h.1
        rw [nextNumber_at_none hne _ _ hvalue, goodTransactions_succ, transactionsBefore,
          if_neg hbad, List.append_nil]
        exact ⟨fun h => absurd h.1 hbad, fun _ => ⟨_, rfl, rfl⟩⟩

/-! ### The header -/

theorem run_bind_error {α β : Type} {x : Parse α} {k : α → Parse β} {r r' : Reader}
    (h : x.run r = .error () r') : (x >>= k).run r = .error () r' := by
  have hx : x r = .error () r' := h
  change EStateM.bind x k r = _
  rw [EStateM.bind, hx]

/-- The end of `readBlock`, behind the transactions. -/
def finish : Parse Unit := do
  assign fun b => { b with difficulty := min b.difficulty maxDifficulty }
  if (← get).block.timestamp = 0 then throw ()

theorem Reaches.succ {g : ℕ → Str} {i : ℕ} (h : Reaches g i) (hgood : GoodField i (g i)) :
    Reaches g (i + 1) := by
  intro k hk
  rcases Nat.lt_succ_iff_lt_or_eq.1 hk with hlt | rfl
  · exact h k hlt
  · exact hgood

/-- A bad field of the header, where reading stops. -/
def StopsAt (fields : List Str) (b : Block) (j : ℕ) : Prop :=
  Reaches (fieldAt fields) j ∧ ¬ GoodField j (fieldAt fields j) ∧
    ∃ r, readBlock.run (readerAt fields 0 b) = .error () r ∧
      r.block = headerBefore (fieldAt fields) j b

/-- **The fields of the header** are read up to the first bad one. -/
theorem readBlock_at (hne : fields ≠ []) (b : Block) :
    (∃ j < 14, StopsAt fields b j) ∨
    Reaches (fieldAt fields) 14 ∧ readBlock.run (readerAt fields 0 b) =
      (readTransactions (countOf (fieldAt fields)) >>= fun _ => finish).run
        (readerAt fields 14 (headerRead (fieldAt fields) b)) := by
  have h₀ : Reaches (fieldAt fields) 0 := fun k hk => absurd hk k.not_lt_zero
  unfold StopsAt
  generalize hres : readBlock.run (readerAt fields 0 b) = res
  unfold readBlock at hres
  -- the version
  by_cases hversion : (stoull (fieldAt fields 0)).isSome
  case neg =>
    rw [nextNumber_at_none hne _ _ hversion] at hres
    exact Or.inl ⟨0, by decide, h₀, fun h => hversion h.1, _, hres.symm, rfl⟩
  rw [nextNumber_at hne _ _ hversion] at hres
  by_cases hsupported : (number (fieldAt fields 0)).toUInt32 > serialVersion
  case pos =>
    rw [if_pos hsupported] at hres
    exact Or.inl ⟨0, by decide, h₀, fun h => h.2 hsupported, _, hres.symm, rfl⟩
  rw [if_neg hsupported] at hres
  have h₁ : Reaches _ 1 := h₀.succ ⟨hversion, hsupported⟩
  have h₃ : Reaches _ 3 := (h₁.succ trivial).succ trivial
  simp only [next_at hne, assign_at] at hres
  by_cases hdifficulty : (stoull (fieldAt fields 3)).isSome
  case neg =>
    rw [nextNumber_at_none hne _ _ hdifficulty] at hres
    exact Or.inl ⟨3, by decide, h₃, hdifficulty, _, hres.symm, rfl⟩
  rw [nextNumber_at hne _ _ hdifficulty] at hres
  have h₅ : Reaches _ 5 := (h₃.succ hdifficulty).succ trivial
  simp only [next_at hne, assign_at] at hres
  by_cases htimestamp : (stoull (fieldAt fields 5)).isSome
  case neg =>
    rw [nextNumber_at_none hne _ _ htimestamp] at hres
    exact Or.inl ⟨5, by decide, h₅, htimestamp, _, hres.symm, rfl⟩
  rw [nextNumber_at hne _ _ htimestamp] at hres
  have h₆ : Reaches _ 6 := h₅.succ htimestamp
  rw [assign_at] at hres
  by_cases hnonce : (stoull (fieldAt fields 6)).isSome
  case neg =>
    rw [nextNumber_at_none hne _ _ hnonce] at hres
    exact Or.inl ⟨6, by decide, h₆, hnonce, _, hres.symm, rfl⟩
  rw [nextNumber_at hne _ _ hnonce] at hres
  have h₇ : Reaches _ 7 := h₆.succ hnonce
  rw [assign_at] at hres
  by_cases hreward : (stoull (fieldAt fields 7)).isSome
  case neg =>
    rw [nextNumber_at_none hne _ _ hreward] at hres
    exact Or.inl ⟨7, by decide, h₇, hreward, _, hres.symm, rfl⟩
  rw [nextNumber_at hne _ _ hreward] at hres
  have h₈ : Reaches _ 8 := h₇.succ hreward
  rw [assign_at] at hres
  by_cases hbaseFee : (stoull (fieldAt fields 8)).isSome
  case neg =>
    rw [nextNumber_at_none hne _ _ hbaseFee] at hres
    exact Or.inl ⟨8, by decide, h₈, hbaseFee, _, hres.symm, rfl⟩
  rw [nextNumber_at hne _ _ hbaseFee] at hres
  have h₉ : Reaches _ 9 := h₈.succ hbaseFee
  rw [assign_at] at hres
  by_cases hgasUsed : (stoull (fieldAt fields 9)).isSome
  case neg =>
    rw [nextNumber_at_none hne _ _ hgasUsed] at hres
    exact Or.inl ⟨9, by decide, h₉, hgasUsed, _, hres.symm, rfl⟩
  rw [nextNumber_at hne _ _ hgasUsed] at hres
  have h₁₀ : Reaches _ 10 := h₉.succ hgasUsed
  rw [assign_at] at hres
  by_cases hgasLimit : (stoull (fieldAt fields 10)).isSome
  case neg =>
    rw [nextNumber_at_none hne _ _ hgasLimit] at hres
    exact Or.inl ⟨10, by decide, h₁₀, hgasLimit, _, hres.symm, rfl⟩
  rw [nextNumber_at hne _ _ hgasLimit] at hres
  have h₁₃ : Reaches _ 13 := ((h₁₀.succ hgasLimit).succ trivial).succ trivial
  simp only [next_at hne, assign_at] at hres
  -- the number of transactions
  by_cases hcount : (stoull (fieldAt fields 13)).isSome
  case neg =>
    rw [nextNumber_at_none hne _ _ hcount] at hres
    exact Or.inl ⟨13, by decide, h₁₃, fun h => hcount h.1, _, hres.symm, rfl⟩
  rw [nextNumber_at hne _ _ hcount] at hres
  by_cases hmany : number (fieldAt fields 13) > maxTransactions
  case pos =>
    rw [if_pos hmany] at hres
    exact Or.inl ⟨13, by decide, h₁₃, fun h => h.2 hmany, _, hres.symm, rfl⟩
  rw [if_neg hmany] at hres
  exact Or.inr ⟨h₁₃.succ ⟨hcount, hmany⟩, hres.symm⟩

/-! ### What `deserialize` does -/

/-- What is said of a reading, and the object it leaves. -/
def outcome : EStateM.Result Unit Reader Unit → Bool × Block
  | .ok _ r => (true, r.block)
  | .error _ r => (false, r.block)

theorem outcome_finish (i : ℕ) (b : Block) : outcome (finish.run (readerAt fields i b)) =
    (decide (b.timestamp ≠ 0), { b with difficulty := min b.difficulty maxDifficulty }) := by
  have hrun : finish.run (readerAt fields i b) =
      ((if b.timestamp = 0 then throw () else pure () : Parse Unit).run
        (readerAt fields i { b with difficulty := min b.difficulty maxDifficulty })) := rfl
  rw [hrun]
  by_cases htime : b.timestamp = 0
  · rw [if_pos htime, decide_eq_false (not_not.2 htime)]
    rfl
  · rw [if_neg htime, decide_eq_true htime]
    rfl

theorem outcome_transactions (hne : fields ≠ []) (n pos : ℕ) {b : Block}
    (hb : b.transactions = []) :
    (¬ GoodTransactions (fieldAt fields) n pos →
      outcome ((readTransactions n >>= fun _ => finish).run (readerAt fields pos b)) =
        (false, { b with transactions := transactionsBefore (fieldAt fields) n pos })) ∧
    (GoodTransactions (fieldAt fields) n pos →
      outcome ((readTransactions n >>= fun _ => finish).run (readerAt fields pos b)) =
        (decide (b.timestamp ≠ 0), { b with
          transactions := transactionsBefore (fieldAt fields) n pos
          difficulty := min b.difficulty maxDifficulty })) := by
  obtain ⟨hok, herror⟩ := readTransactions_at hne n pos b
  rw [hb, List.nil_append] at hok herror
  constructor
  · intro hbad
    obtain ⟨r, hrun, hblock⟩ := herror hbad
    rw [run_bind_error hrun]
    exact congrArg (Prod.mk false) hblock
  · intro hgood
    rw [run_bind_ok (hok hgood)]
    exact outcome_finish _ _

end

/-- The object with the transactions in front of the first bad one. -/
def transactionsWritten (g : ℕ → Str) (b : Block) : Block :=
  { headerBefore g 14 b with transactions := transactionsBefore g (countOf g) 14 }

/-- The object with all fields. -/
def allWritten (g : ℕ → Str) (b : Block) : Block :=
  { transactionsWritten g b with difficulty := min (number (g 3)).toUInt32 maxDifficulty }

/-- The fields of a text, and what is read behind them. -/
def fieldOf (raw : Str) : ℕ → Str := fieldAt (raw.splitOn delimiter)

/-- **What `deserialize` does**: it stops at a bad field of the header, or at a bad transaction, or
it reads all and looks at the time. -/
theorem deserialize_cases (b : Block) (raw : Str) :
    (∃ j < 14, Reaches (fieldOf raw) j ∧ ¬ GoodField j (fieldOf raw j) ∧
      deserialize b raw = (false, headerBefore (fieldOf raw) j b)) ∨
    (Reaches (fieldOf raw) 14 ∧ ¬ GoodTransactions (fieldOf raw) (countOf (fieldOf raw)) 14 ∧
      deserialize b raw = (false, transactionsWritten (fieldOf raw) b)) ∨
    ReadsAll (fieldOf raw) ∧
      deserialize b raw = (decide (number (fieldOf raw 5) ≠ 0), allWritten (fieldOf raw) b) := by
  by_cases hraw : raw = []
  · -- nothing is assigned, as if the version of an empty text were read
    subst hraw
    refine Or.inl ⟨0, by decide, fun k hk => absurd hk k.not_lt_zero, ?_, rfl⟩
    intro h
    exact absurd h.1 (by decide)
  have hne : raw.splitOn delimiter ≠ [] := List.splitOn_ne_nil delimiter raw
  have hdeserialize : deserialize b raw =
      outcome (readBlock.run (readerAt (raw.splitOn delimiter) 0 b)) := by
    rw [deserialize, if_neg hraw]
    rfl
  rw [hdeserialize]
  rcases readBlock_at hne b with ⟨j, hj, hreaches, hbad, r, hrun, hblock⟩ | ⟨hreaches, hrun⟩
  · rw [hrun]
    exact Or.inl ⟨j, hj, hreaches, hbad, congrArg (Prod.mk false) hblock⟩
  obtain ⟨hbad, hgood⟩ := outcome_transactions hne (countOf (fieldOf raw)) 14
    (rfl : (headerRead (fieldOf raw) b).transactions = [])
  rw [hrun]
  by_cases hall : GoodTransactions (fieldOf raw) (countOf (fieldOf raw)) 14
  · exact Or.inr (Or.inr ⟨⟨hreaches, hall⟩, hgood hall⟩)
  · exact Or.inr (Or.inl ⟨hreaches, hall, hbad hall⟩)

/-- **What is accepted**: a text whose fields, with the last one standing in for those that are
missing, are all good. -/
theorem deserialize_fst_iff (b : Block) (raw : Str) :
    (deserialize b raw).1 = true ↔ Accepted (fieldOf raw) := by
  rcases deserialize_cases b raw with ⟨j, hj, -, hbad, heq⟩ | ⟨-, hbad, heq⟩ | ⟨hall, heq⟩
  · rw [heq]
    exact ⟨fun h => Bool.noConfusion h, fun h => absurd (h.1.1 j hj) hbad⟩
  · rw [heq]
    exact ⟨fun h => Bool.noConfusion h, fun h => absurd h.1.2 hbad⟩
  · rw [heq]
    exact ⟨fun h => ⟨hall, of_decide_eq_true h⟩, fun h => decide_eq_true h.2⟩

/-! ### What is left behind -/

/-- The members of the object, but for the difficulty and the transactions, are those fields of the
header that have been read. -/
structure HeaderHeld (Read : ℕ → Prop) (g : ℕ → Str) (b : Block) : Prop where
  previousHash : Read 1 → b.previousHash = g 1
  data : Read 2 → b.data = g 2
  minerAddress : Read 4 → b.minerAddress = g 4
  timestamp : Read 5 → b.timestamp = number (g 5)
  nonce : Read 6 → b.nonce = number (g 6)
  reward : Read 7 → b.reward = number (g 7)
  baseFee : Read 8 → b.baseFee = number (g 8)
  gasUsed : Read 9 → b.gasUsed = number (g 9)
  gasLimit : Read 10 → b.gasLimit = number (g 10)
  hash : Read 11 → b.hash = g 11
  signature : Read 12 → b.signature = g 12

/-- The object holds what stands in front of the first bad field. -/
structure Unwritten (g : ℕ → Str) (b : Block) : Prop where
  header : HeaderHeld (fun i => Reaches g (i + 1)) g b
  difficulty : Reaches g 4 → ¬ ReadsAll g → b.difficulty = (number (g 3)).toUInt32
  bounded : ReadsAll g → b.difficulty = min (number (g 3)).toUInt32 maxDifficulty
  transactions : Reaches g 14 → b.transactions = transactionsBefore g (countOf g) 14

theorem HeaderHeld.congr {Read Read' : ℕ → Prop} {g : ℕ → Str} {b : Block}
    (hiff : ∀ i < 14, Read i ↔ Read' i) : HeaderHeld Read g b ↔ HeaderHeld Read' g b := by
  have hmono {P Q : ℕ → Prop} (hPQ : ∀ i < 14, Q i → P i) (h : HeaderHeld P g b) :
      HeaderHeld Q g b := {
    previousHash := fun hread => h.previousHash (hPQ 1 (by decide) hread)
    data := fun hread => h.data (hPQ 2 (by decide) hread)
    minerAddress := fun hread => h.minerAddress (hPQ 4 (by decide) hread)
    timestamp := fun hread => h.timestamp (hPQ 5 (by decide) hread)
    nonce := fun hread => h.nonce (hPQ 6 (by decide) hread)
    reward := fun hread => h.reward (hPQ 7 (by decide) hread)
    baseFee := fun hread => h.baseFee (hPQ 8 (by decide) hread)
    gasUsed := fun hread => h.gasUsed (hPQ 9 (by decide) hread)
    gasLimit := fun hread => h.gasLimit (hPQ 10 (by decide) hread)
    hash := fun hread => h.hash (hPQ 11 (by decide) hread)
    signature := fun hread => h.signature (hPQ 12 (by decide) hread) }
  exact ⟨hmono fun i hi => (hiff i hi).2, hmono fun i hi => (hiff i hi).1⟩

theorem headerBefore_eq_iff (g : ℕ → Str) (j : ℕ) (b : Block) (difficulty : UInt32)
    (transactions : List Transaction) :
    { headerBefore g j b with difficulty, transactions } = b ↔
      HeaderHeld (· < j) g b ∧ b.difficulty = difficulty ∧ b.transactions = transactions := by
  have hheld {α : Type} {p : Prop} [Decidable p] {x y : α} :
      (if p then x else y) = y ↔ (p → y = x) := by
    rw [ite_eq_right_iff]
    exact ⟨fun h hp => (h hp).symm, fun h hp => (h hp).symm⟩
  constructor
  · intro h
    exact ⟨{
      previousHash := hheld.1 (congrArg Block.previousHash h)
      data := hheld.1 (congrArg Block.data h)
      minerAddress := hheld.1 (congrArg Block.minerAddress h)
      timestamp := hheld.1 (congrArg Block.timestamp h)
      nonce := hheld.1 (congrArg Block.nonce h)
      reward := hheld.1 (congrArg Block.reward h)
      baseFee := hheld.1 (congrArg Block.baseFee h)
      gasUsed := hheld.1 (congrArg Block.gasUsed h)
      gasLimit := hheld.1 (congrArg Block.gasLimit h)
      hash := hheld.1 (congrArg Block.hash h)
      signature := hheld.1 (congrArg Block.signature h) },
      (congrArg Block.difficulty h).symm, (congrArg Block.transactions h).symm⟩
  · rintro ⟨h, rfl, rfl⟩
    simp only [headerBefore, hheld.2 h.previousHash, hheld.2 h.data, hheld.2 h.minerAddress,
      hheld.2 h.timestamp, hheld.2 h.nonce, hheld.2 h.reward, hheld.2 h.baseFee, hheld.2 h.gasUsed,
      hheld.2 h.gasLimit, hheld.2 h.hash, hheld.2 h.signature]

theorem Reaches.mono {g : ℕ → Str} {i j : ℕ} (h : Reaches g j) (hij : i ≤ j) : Reaches g i :=
  fun k hk => h k (Nat.lt_of_lt_of_le hk hij)

/-- **What is left unchanged** by a text that is rejected: an object that holds already what stands
in front of the first bad field. -/
theorem deserialize_snd_iff {b : Block} {raw : Str} (h : (deserialize b raw).1 = false) :
    (deserialize b raw).2 = b ↔ Unwritten (fieldOf raw) b := by
  have hnot : ¬ Accepted (fieldOf raw) := by
    rw [← deserialize_fst_iff b, h]
    exact Bool.false_ne_true
  rcases deserialize_cases b raw with ⟨j, hj, hreaches, hbad, heq⟩ | ⟨hreaches, hbad, heq⟩ |
    ⟨hall, heq⟩
  · -- a bad field of the header
    have hread (i : ℕ) : Reaches (fieldOf raw) (i + 1) ↔ i < j := by
      refine ⟨fun hi => ?_, fun hi => hreaches.mono hi⟩
      by_contra hle
      exact hbad (hi j (by omega))
    have hall : ¬ ReadsAll (fieldOf raw) := fun hall => hbad (hall.1 j hj)
    have hshort : ¬ Reaches (fieldOf raw) 14 := fun h14 => hbad (h14 j hj)
    rw [heq]
    refine (headerBefore_eq_iff (fieldOf raw) j b
      (if 3 < j then (number (fieldOf raw 3)).toUInt32 else b.difficulty) b.transactions).trans ?_
    constructor
    · rintro ⟨hheader, hdifficulty, -⟩
      refine ⟨(HeaderHeld.congr fun i _ => (hread i).symm).1 hheader, fun h4 _ => ?_,
        fun h => absurd h hall, fun h => absurd h hshort⟩
      rwa [if_pos ((hread 3).1 h4)] at hdifficulty
    · intro hheld
      refine ⟨(HeaderHeld.congr fun i _ => (hread i)).1 hheld.header, ?_, rfl⟩
      split_ifs with h3
      · exact hheld.difficulty ((hread 3).2 h3) hall
      · rfl
  · -- a bad transaction
    have hread (i : ℕ) (hi : i < 14) : Reaches (fieldOf raw) (i + 1) ↔ i < 14 :=
      ⟨fun _ => hi, fun _ => hreaches.mono hi⟩
    have hall : ¬ ReadsAll (fieldOf raw) := fun hall => hbad hall.2
    rw [heq]
    refine (headerBefore_eq_iff (fieldOf raw) 14 b (number (fieldOf raw 3)).toUInt32 _).trans ?_
    constructor
    · rintro ⟨hheader, hdifficulty, htransactions⟩
      exact ⟨(HeaderHeld.congr fun i hi => (hread i hi).symm).1 hheader, fun _ _ => hdifficulty,
        fun h => absurd h hall, fun _ => htransactions⟩
    · intro hheld
      exact ⟨(HeaderHeld.congr hread).1 hheld.header,
        hheld.difficulty (hreaches.mono (by decide)) hall, hheld.transactions hreaches⟩
  · -- the time is zero
    have hread (i : ℕ) (hi : i < 14) : Reaches (fieldOf raw) (i + 1) ↔ i < 14 :=
      ⟨fun _ => hi, fun _ => hall.1.mono hi⟩
    rw [heq]
    refine (headerBefore_eq_iff (fieldOf raw) 14 b
      (min (number (fieldOf raw 3)).toUInt32 maxDifficulty) _).trans ?_
    constructor
    · rintro ⟨hheader, hdifficulty, htransactions⟩
      exact ⟨(HeaderHeld.congr fun i hi => (hread i hi).symm).1 hheader,
        fun _ hnot => absurd hall hnot, fun _ => hdifficulty, fun _ => htransactions⟩
    · intro hheld
      exact ⟨(HeaderHeld.congr hread).1 hheld.header, hheld.bounded hall,
        hheld.transactions hall.1⟩

/-! ### Too few fields, and too many -/

/-- There are fewer fields than those of the header, or than those of the transactions that are
announced. -/
def Short (fields : List Str) : Prop :=
  fields.length < 14 ∨
    ∃ n, stoull (fieldAt fields 13) = some n ∧ fields.length < 14 + 4 * n.toNat

/-- There are more fields than those of the header and of the transactions that are announced. -/
def Long (fields : List Str) : Prop :=
  ∃ n, stoull (fieldAt fields 13) = some n ∧ 14 + 4 * n.toNat < fields.length

/-- A text that is short or long is rejected, and a text that is rejected changes nothing. -/
def Safe (b : Block) (raw : Str) : Prop :=
  (Short (raw.splitOn delimiter) ∨ Long (raw.splitOn delimiter) → (deserialize b raw).1 = false) ∧
    ((deserialize b raw).1 = false → (deserialize b raw).2 = b)

/-- **Where `deserialize` is safe**: on a text that is accepted and has the fields it announces, no
more and no fewer, and on a text that is not accepted where the object holds already what stands in
front of the first bad field. -/
theorem safe_iff (b : Block) (raw : Str) : Safe b raw ↔
    Accepted (fieldOf raw) ∧ ¬ Short (raw.splitOn delimiter) ∧ ¬ Long (raw.splitOn delimiter) ∨
      ¬ Accepted (fieldOf raw) ∧ Unwritten (fieldOf raw) b := by
  by_cases haccepted : Accepted (fieldOf raw)
  · have htrue := (deserialize_fst_iff b raw).2 haccepted
    rw [Safe, htrue]
    simp only [Bool.true_eq_false, imp_false, haccepted, true_and, not_true_eq_false, false_and,
      or_false, not_or, and_true, false_implies]
  · have hfalse : (deserialize b raw).1 = false :=
      Bool.eq_false_iff.2 (mt (deserialize_fst_iff b raw).1 haccepted)
    have hunchanged := deserialize_snd_iff hfalse
    rw [Safe, hfalse, hunchanged]
    simp only [implies_true, true_implies, true_and, haccepted, false_and, false_or,
      not_false_eq_true]

/-! ### Stored texts that are cut -/

/-- The fields of a stored text. -/
def storedFields (b : Block) : List Str :=
  b.headerFields ++ b.transactions.flatMap transactionFields

/-- What is left of a stored text in front of a delimiter: so many fields. -/
def cutText (b : Block) (k : ℕ) : Str := [delimiter].intercalate (b.storedFields.take k)

theorem length_storedFields (b : Block) :
    b.storedFields.length = 14 + 4 * b.transactions.length := by
  have hflat : (b.transactions.flatMap transactionFields).length = 4 * b.transactions.length := by
    induction b.transactions with
    | nil => rfl
    | cons tx txs ih =>
        rw [List.flatMap_cons, List.length_append, ih, List.length_cons, transactionFields]
        simp only [List.length_cons, List.length_nil]
        omega
  rw [storedFields, List.length_append, hflat]
  rfl

theorem getElem?_flatMap_transactionFields (txs : List Transaction) {j r : ℕ} (hr : r < 4) :
    (txs.flatMap transactionFields)[4 * j + r]? =
      txs[j]?.bind fun tx => (transactionFields tx)[r]? := by
  induction txs generalizing j with
  | nil => rfl
  | cons tx txs ih =>
      have hlength : (transactionFields tx).length = 4 := rfl
      rw [List.flatMap_cons]
      cases j with
      | zero =>
          rw [List.getElem?_append_left (by omega), Nat.mul_zero, Nat.zero_add]
          rfl
      | succ j =>
          have hsub : 4 * (j + 1) + r - (transactionFields tx).length = 4 * j + r := by omega
          rw [List.getElem?_append_right (by omega), hsub, ih]
          rfl

theorem splitOn_cutText {b : Block} (h : b.Delimited) {k : ℕ} (hk : 0 < k) :
    (b.cutText k).splitOn delimiter = b.storedFields.take k := by
  refine List.splitOn_intercalate delimiter (fun field hfield => ?_) ?_
  · exact h.not_mem_fields field (List.mem_of_mem_take hfield)
  · intro hnil
    have hlength := congrArg List.length hnil
    rw [List.length_take, length_storedFields, List.length_nil] at hlength
    omega

theorem fieldAt_take {fields : List Str} {k i : ℕ} (hi : i < k) (hk : k ≤ fields.length) :
    fieldAt (fields.take k) i = fields.getD i [] := by
  have hlt : i < (fields.take k).length := by
    rw [List.length_take]
    omega
  rw [fieldAt, List.getD_eq_getElem _ _ hlt, List.getElem_take,
    List.getD_eq_getElem _ _ (Nat.lt_of_lt_of_le hi hk)]

theorem fieldAt_take_of_le {fields : List Str} {k i : ℕ} (hpos : 0 < k) (hi : k ≤ i)
    (hk : k ≤ fields.length) : fieldAt (fields.take k) i = fields.getD (k - 1) [] := by
  have hlength : (fields.take k).length = k := by
    rw [List.length_take]
    omega
  have hne : fields.take k ≠ [] := List.ne_nil_of_length_pos (by omega)
  have hlast := fieldAt_pred hne (i := k) hlength.le
  rw [fieldAt_of_length_le (hlength.trans_le hi), ← fieldAt_of_length_le hlength.le, ← hlast,
    fieldAt_take (by omega) hk]

theorem number_decimal (n : UInt64) : number (decimal n.toNat) = n := by
  rw [number, stoull_decimal, Option.getD_some]

theorem isSome_decimal (n : UInt64) : (stoull (decimal n.toNat)).isSome := by
  rw [stoull_decimal, Option.isSome_some]

theorem goodField_storedFields {b : Block} (hcount : b.transactions.length ≤ 10000) {i : ℕ}
    (hi : i < 14) : GoodField i (b.storedFields.getD i []) := by
  have hlength := toNat_ofNat_length hcount
  have hfield : b.storedFields.getD i [] = b.headerFields.getD i [] := by
    rw [storedFields, List.getD_append _ _ _ _ hi]
  have hdifficulty : (stoull (decimal b.difficulty.toNat)).isSome := by
    rw [← UInt32.toNat_toUInt64]
    exact isSome_decimal _
  rw [hfield]
  -- the version and the count are bounded, seven fields are numbers, five may be anything
  interval_cases i
  · change (stoull (decimal (2 : UInt64).toNat)).isSome ∧
      ¬ (number (decimal (2 : UInt64).toNat)).toUInt32 > serialVersion
    rw [number_decimal]
    exact ⟨isSome_decimal 2, by decide⟩
  · trivial
  · trivial
  · exact hdifficulty
  · trivial
  · exact isSome_decimal _
  · exact isSome_decimal _
  · exact isSome_decimal _
  · exact isSome_decimal _
  · exact isSome_decimal _
  · exact isSome_decimal _
  · trivial
  · trivial
  · change (stoull (decimal b.transactions.length)).isSome ∧
      ¬ number (decimal b.transactions.length) > maxTransactions
    rw [← hlength, number_decimal]
    refine ⟨isSome_decimal _, ?_⟩
    rw [gt_iff_lt, UInt64.lt_iff_toNat_lt, hlength]
    exact Nat.not_lt.2 hcount

theorem goodField_of_isSome {i : ℕ} {field : Str} (hi : 0 < i) (h : (stoull field).isSome)
    (hmax : i = 13 → ¬ number field > maxTransactions) : GoodField i field := by
  unfold GoodField
  split
  · exact absurd hi (Nat.lt_irrefl 0)
  all_goals first
    | exact h
    | exact ⟨h, hmax rfl⟩
    | trivial

theorem isSome_storedFields {b : Block} {j r : ℕ} (hj : j < b.transactions.length)
    (hr : r = 2 ∨ r = 3) : (stoull (b.storedFields.getD (14 + 4 * j + r) [])).isSome := by
  have hfield : b.storedFields.getD (14 + 4 * j + r) [] =
      (transactionFields b.transactions[j]).getD r [] := by
    have hheader : b.headerFields.length = 14 := rfl
    have hsub : 14 + 4 * j + r - b.headerFields.length = 4 * j + r := by omega
    rw [List.getD_eq_getElem?_getD, storedFields, List.getElem?_append_right (by omega), hsub,
      getElem?_flatMap_transactionFields _ (by omega), List.getElem?_eq_getElem hj,
      Option.bind_some, ← List.getD_eq_getElem?_getD]
  rw [hfield]
  rcases hr with rfl | rfl
  · exact isSome_decimal _
  · exact isSome_decimal _

theorem short_cutText {b : Block} (h : b.Delimited) (hcount : b.transactions.length ≤ 10000)
    {k : ℕ} (hpos : 0 < k) (hk : k < b.storedFields.length) :
    Short ((b.cutText k).splitOn delimiter) := by
  have hlength : (b.storedFields.take k).length = k := by
    rw [List.length_take]
    omega
  rw [splitOn_cutText h hpos, Short, hlength]
  rcases Nat.lt_or_ge k 14 with hlt | hge
  · exact Or.inl hlt
  · refine Or.inr ⟨UInt64.ofNat b.transactions.length, ?_, ?_⟩
    · have hfield : b.storedFields.getD 13 [] =
          decimal (UInt64.ofNat b.transactions.length).toNat := by
        rw [toNat_ofNat_length hcount]
        rfl
      rw [fieldAt_take (by omega) hk.le, hfield, stoull_decimal]
    · rw [toNat_ofNat_length hcount]
      rwa [length_storedFields] at hk

/-- **Where a stored text that is cut is accepted**: the last field that is left begins with a
number, which is small enough for a count where it stands in for one, and not zero where it stands
in for the time. -/
theorem cutText_accepted_iff {b : Block} (h : b.Delimited) (htimestamp : b.timestamp ≠ 0)
    (hcount : b.transactions.length ≤ 10000) (b₀ : Block) {k : ℕ} (hpos : 0 < k)
    (hk : k < b.storedFields.length) :
    (deserialize b₀ (b.cutText k)).1 = true ↔
      ∃ n, stoull (b.storedFields.getD (k - 1) []) = some n ∧
        (k ≤ 13 → ¬ n > maxTransactions) ∧ (k ≤ 5 → n ≠ 0) := by
  have hlength := length_storedFields b
  have hbefore {i : ℕ} (hi : i < k) : fieldOf (b.cutText k) i = b.storedFields.getD i [] := by
    rw [fieldOf, splitOn_cutText h hpos, fieldAt_take hi hk.le]
  have hbehind {i : ℕ} (hi : k ≤ i) :
      fieldOf (b.cutText k) i = b.storedFields.getD (k - 1) [] := by
    rw [fieldOf, splitOn_cutText h hpos, fieldAt_take_of_le hpos hi hk.le]
  have hannounced (hle : 14 ≤ k) : countOf (fieldOf (b.cutText k)) = b.transactions.length := by
    have hfield : b.storedFields.getD 13 [] =
        decimal (UInt64.ofNat b.transactions.length).toNat := by
      rw [toNat_ofNat_length hcount]
      rfl
    rw [countOf, hbefore (by omega), hfield, number_decimal, toNat_ofNat_length hcount]
  rw [deserialize_fst_iff]
  constructor
  · rintro ⟨⟨hheader, htxs⟩, htime⟩
    -- the last number that is read is behind the cut
    have hsome : (stoull (b.storedFields.getD (k - 1) [])).isSome := by
      rcases Nat.lt_or_ge k 14 with hlt | hge
      · have hlast := hheader 13 (by decide)
        rw [hbehind (by omega)] at hlast
        exact hlast.1
      · have hlast := (htxs (b.transactions.length - 1) (by rw [hannounced hge]; omega)).2
        rwa [hbehind (by omega)] at hlast
    obtain ⟨n, hn⟩ := Option.isSome_iff_exists.1 hsome
    have hnumber : number (b.storedFields.getD (k - 1) []) = n := by
      rw [number, hn, Option.getD_some]
    refine ⟨n, hn, fun hle => ?_, fun hle => ?_⟩
    · have hlast := hheader 13 (by decide)
      rw [hbehind hle] at hlast
      rw [← hnumber]
      exact hlast.2
    · rwa [hbehind hle, hnumber] at htime
  · rintro ⟨n, hn, hmax, hzero⟩
    have hsome : (stoull (b.storedFields.getD (k - 1) [])).isSome := by
      rw [hn, Option.isSome_some]
    have hnumber : number (b.storedFields.getD (k - 1) []) = n := by
      rw [number, hn, Option.getD_some]
    have hgood (i : ℕ) (j r : ℕ) (hi : i = 14 + 4 * j + r) (hr : r = 2 ∨ r = 3) :
        (stoull (fieldOf (b.cutText k) i)).isSome := by
      rcases Nat.lt_or_ge i k with hlt | hge
      · rw [hbefore hlt, hi]
        exact isSome_storedFields (by omega) hr
      · rwa [hbehind hge]
    refine ⟨⟨fun i hi => ?_, fun i _ => ?_⟩, ?_⟩
    · rcases Nat.lt_or_ge i k with hlt | hge
      · rw [hbefore hlt]
        exact goodField_storedFields hcount hi
      · rw [hbehind hge]
        refine goodField_of_isSome (by omega) hsome fun h13 => ?_
        rw [hnumber]
        exact hmax (by omega)
    · exact ⟨hgood _ i 2 rfl (Or.inl rfl), hgood _ i 3 rfl (Or.inr rfl)⟩
    · rcases Nat.lt_or_ge 5 k with hlt | hge
      · have hfield : b.storedFields.getD 5 [] = decimal b.timestamp.toNat := rfl
        rw [hbefore hlt, hfield, number_decimal]
        exact htimestamp
      · rw [hbehind hge, hnumber]
        exact hzero hge

theorem intercalate_append (sep : Str) {xs ys : List Str} (hxs : xs ≠ []) (hys : ys ≠ []) :
    sep.intercalate (xs ++ ys) = sep.intercalate xs ++ sep ++ sep.intercalate ys := by
  induction xs with
  | nil => exact absurd rfl hxs
  | cons x xs ih =>
      cases xs with
      | nil => rw [List.singleton_append, List.intercalate_cons_of_ne_nil hys,
          List.intercalate_singleton]
      | cons x' xs =>
          have hne : x' :: xs ++ ys ≠ [] := List.cons_ne_nil _ _
          rw [List.cons_append, List.intercalate_cons_of_ne_nil hne, ih (List.cons_ne_nil _ _),
            List.intercalate_cons_cons]
          simp only [List.append_assoc]

theorem cutText_begins (b : Block) {k : ℕ} (hpos : 0 < k) (hk : k < b.storedFields.length) :
    (b.cutText k ++ [delimiter]) <+: b.serialize := by
  refine ⟨[delimiter].intercalate (b.storedFields.drop k), ?_⟩
  have htake : b.storedFields.take k ≠ [] :=
    List.ne_nil_of_length_pos (by rw [List.length_take]; omega)
  have hdrop : b.storedFields.drop k ≠ [] :=
    List.ne_nil_of_length_pos (by rw [List.length_drop]; omega)
  rw [cutText, ← intercalate_append _ htake hdrop, List.take_append_drop, serialize, storedFields]

/-! ### Stored texts that go on -/

/-- A stored text with fields behind it. -/
def trailingText (b : Block) (extra : List Str) : Str :=
  [delimiter].intercalate (b.storedFields ++ extra)

/-- **Fields that are too many are not looked at.** -/
theorem accepted_append {fields : List Str} (h : Accepted (fieldAt fields))
    (hshort : ¬ Short fields) (extra : List Str) : Accepted (fieldAt (fields ++ extra)) := by
  obtain ⟨⟨hheader, htxs⟩, htime⟩ := h
  obtain ⟨n, hn⟩ := Option.isSome_iff_exists.1 (hheader 13 (by decide)).1
  have hcount : countOf (fieldAt fields) = n.toNat := by
    rw [countOf, number, hn, Option.getD_some]
  have henough : 14 + 4 * n.toNat ≤ fields.length :=
    Nat.not_lt.1 fun hlt => hshort (Or.inr ⟨n, hn, hlt⟩)
  -- no field stands in for another one, before and after
  have hsame {i : ℕ} (hi : i < fields.length) : fieldAt (fields ++ extra) i = fieldAt fields i := by
    rw [fieldAt, fieldAt, List.getD_append _ _ _ _ hi, List.getD_eq_getElem _ _ hi,
      List.getD_eq_getElem _ _ hi]
  have hcount' : countOf (fieldAt (fields ++ extra)) = n.toNat := by
    rw [countOf, hsame (by omega), ← countOf, hcount]
  refine ⟨⟨fun i hi => ?_, fun i hi => ?_⟩, ?_⟩
  · rw [hsame (by omega)]
    exact hheader i hi
  · rw [hcount'] at hi
    have hgood := htxs i (by rwa [hcount])
    rw [GoodTransaction, hsame (by omega), hsame (by omega)]
    exact hgood
  · rwa [hsame (by omega)]

theorem countOf_storedFields {b : Block} (hcount : b.transactions.length ≤ 10000) :
    stoull (fieldAt b.storedFields 13) = some (UInt64.ofNat b.transactions.length) ∧
      countOf (fieldAt b.storedFields) = b.transactions.length := by
  have hfield : fieldAt b.storedFields 13 = decimal (UInt64.ofNat b.transactions.length).toNat := by
    rw [toNat_ofNat_length hcount]
    rfl
  rw [countOf, hfield, number_decimal, stoull_decimal]
  exact ⟨rfl, toNat_ofNat_length hcount⟩

theorem accepted_storedFields {b : Block} (htimestamp : b.timestamp ≠ 0)
    (hcount : b.transactions.length ≤ 10000) :
    Accepted (fieldAt b.storedFields) ∧ ¬ Short b.storedFields := by
  have hlength := length_storedFields b
  obtain ⟨hcountField, hcountOf⟩ := countOf_storedFields hcount
  have hfield {i : ℕ} (hi : i < b.storedFields.length) :
      fieldAt b.storedFields i = b.storedFields.getD i [] := by
    rw [fieldAt, List.getD_eq_getElem _ _ hi, List.getD_eq_getElem _ _ hi]
  refine ⟨⟨⟨fun i hi => ?_, fun i hi => ?_⟩, ?_⟩, ?_⟩
  · rw [hfield (by omega)]
    exact goodField_storedFields hcount hi
  · rw [hcountOf] at hi
    rw [GoodTransaction, hfield (by omega), hfield (by omega)]
    exact ⟨isSome_storedFields hi (Or.inl rfl), isSome_storedFields hi (Or.inr rfl)⟩
  · have htime : b.storedFields.getD 5 [] = decimal b.timestamp.toNat := rfl
    rw [hfield (by omega), htime, number_decimal]
    exact htimestamp
  · rintro (hheader | ⟨n, hn, hlt⟩)
    · omega
    · obtain rfl := Option.some_inj.1 (hcountField.symm.trans hn)
      rw [toNat_ofNat_length hcount] at hlt
      omega

theorem trailingText_accepted {b : Block} (h : b.Delimited) (htimestamp : b.timestamp ≠ 0)
    (hcount : b.transactions.length ≤ 10000) {extra : List Str} (hextra : extra ≠ [])
    (hclean : ∀ field ∈ extra, delimiter ∉ field) :
    Long ((b.trailingText extra).splitOn delimiter) ∧
      ∀ b₀, (deserialize b₀ (b.trailingText extra)).1 = true := by
  have hsplit : (b.trailingText extra).splitOn delimiter = b.storedFields ++ extra := by
    refine List.splitOn_intercalate delimiter (fun field hfield => ?_) (by simp [hextra])
    rcases List.mem_append.1 hfield with hfield | hfield
    · exact h.not_mem_fields field hfield
    · exact hclean field hfield
  obtain ⟨haccepted, hshort⟩ := accepted_storedFields htimestamp hcount
  refine ⟨?_, fun b₀ => ?_⟩
  · have hpos := List.length_pos_of_ne_nil hextra
    have hlength := length_storedFields b
    refine ⟨UInt64.ofNat b.transactions.length, ?_, ?_⟩
    · rw [hsplit, fieldAt, List.getD_append _ _ _ _ (by omega)]
      exact (countOf_storedFields hcount).1
    · rw [hsplit, toNat_ofNat_length hcount, List.length_append]
      omega
  · rw [deserialize_fst_iff, fieldOf, hsplit]
    exact accepted_append haccepted hshort extra

/-! ### All texts -/

/-- **Where malformed texts are rejected, and rejected texts change nothing.**  A text is handled as
it should be exactly where `safe_iff` says; of the stored texts that are cut at a delimiter, all of
which are short, those are rejected whose last field is no number that will do in the places of the
fields that are missing; and of those that go on none is. -/
theorem deserialize_safe_iff (b₀ : Block) :
    (∀ raw : Str, Safe b₀ raw ↔
      Accepted (fieldOf raw) ∧ ¬ Short (raw.splitOn delimiter) ∧ ¬ Long (raw.splitOn delimiter) ∨
        ¬ Accepted (fieldOf raw) ∧ Unwritten (fieldOf raw) b₀) ∧
    ∀ b : Block, b.Delimited → b.timestamp ≠ 0 → b.transactions.length ≤ 10000 →
      (∀ k, 0 < k → k < b.storedFields.length →
        (b.cutText k ++ [delimiter]) <+: b.serialize ∧ Short ((b.cutText k).splitOn delimiter) ∧
        ((deserialize b₀ (b.cutText k)).1 = false ↔
          ¬ ∃ n, stoull (b.storedFields.getD (k - 1) []) = some n ∧
            (k ≤ 13 → ¬ n > maxTransactions) ∧ (k ≤ 5 → n ≠ 0))) ∧
      ∀ extra : List Str, extra ≠ [] → (∀ field ∈ extra, delimiter ∉ field) →
        Long ((b.trailingText extra).splitOn delimiter) ∧
          (deserialize b₀ (b.trailingText extra)).1 = true := by
  refine ⟨safe_iff b₀, fun b hb htimestamp hcount =>
    ⟨fun k hpos hk => ?_, fun extra hextra hfields => ?_⟩⟩
  · refine ⟨cutText_begins b hpos hk, short_cutText hb hcount hpos hk, ?_⟩
    rw [← cutText_accepted_iff hb htimestamp hcount b₀ hpos hk, Bool.not_eq_true]
  · obtain ⟨hlong, haccepted⟩ := trailingText_accepted hb htimestamp hcount hextra hfields
    exact ⟨hlong, haccepted b₀⟩

def sampleTimed : Block := { timestamp := 1000, previousHash := str "x" }

theorem sampleTimed_delimited : sampleTimed.Delimited :=
  ⟨by decide, by decide, by decide, by decide, by decide, fun _ h => absurd h List.not_mem_nil⟩

theorem deserialize_safe_iff_sampleTimed :
    Short ((sampleTimed.cutText 1).splitOn delimiter) ∧
      (deserialize {} (sampleTimed.cutText 2)).1 = false := by
  have htext := (deserialize_safe_iff {}).2 sampleTimed sampleTimed_delimited (by decide)
    (by decide)
  refine ⟨(htext.1 1 (by decide) (by decide)).2.1,
    (htext.1 2 (by decide) (by decide)).2.2.2 ?_⟩
  rintro ⟨n, hn, -⟩
  have hsome := congrArg Option.isSome hn
  rw [Option.isSome_some] at hsome
  revert hsome
  decide

/-- **The version alone is accepted as a block, fields that are too many are not looked at, and the
previous hash is written before the difficulty has been read.** -/
theorem not_safe :
    (¬ ∀ (b : Block) (raw : Str), Short (raw.splitOn delimiter) → (deserialize b raw).1 = false) ∧
    (¬ ∀ (b : Block) (raw : Str), Long (raw.splitOn delimiter) → (deserialize b raw).1 = false) ∧
    ¬ ∀ (b : Block) (raw : Str), (deserialize b raw).1 = false → (deserialize b raw).2 = b := by
  have hcount : sampleTimed.transactions.length ≤ 10000 := by decide
  have htimestamp : sampleTimed.timestamp ≠ 0 := by decide
  have hlength : sampleTimed.storedFields.length = 14 := rfl
  refine ⟨fun h => ?_, fun h => ?_, fun h => ?_⟩
  · have hshort := short_cutText sampleTimed_delimited hcount Nat.one_pos (by decide)
    have haccepted := (cutText_accepted_iff sampleTimed_delimited htimestamp hcount {}
      Nat.one_pos (by decide)).2 ⟨2, stoull_decimal 2, fun _ => by decide, fun _ => by decide⟩
    exact absurd (h {} _ hshort) (by rw [haccepted]; decide)
  · obtain ⟨hlong, haccepted⟩ := trailingText_accepted sampleTimed_delimited htimestamp hcount
      (List.cons_ne_nil (str "x") []) (by decide)
    exact absurd (h {} _ hlong) (by rw [haccepted]; decide)
  · -- the hash that is cut off stands in for the difficulty
    have hnone : ¬ (stoull (sampleTimed.storedFields.getD 1 [])).isSome := by decide
    have hrejected : (deserialize {} (sampleTimed.cutText 2)).1 = false := by
      rw [← Bool.not_eq_true, cutText_accepted_iff sampleTimed_delimited htimestamp hcount {}
        Nat.two_pos (by decide)]
      rintro ⟨n, hn, -⟩
      exact hnone (by rw [hn]; rfl)
    have hheld := (deserialize_snd_iff hrejected).1 (h {} _ hrejected)
    have hhash := hheld.header.previousHash fun i hi => ?_
    · rw [fieldOf, splitOn_cutText sampleTimed_delimited Nat.two_pos,
        fieldAt_take (by decide) (by decide)] at hhash
      exact absurd hhash (by decide)
    · rw [fieldOf, splitOn_cutText sampleTimed_delimited Nat.two_pos, fieldAt_take hi (by decide)]
      exact goodField_storedFields hcount (by omega)

end Block

end Node
