/-
**Blocks of the C++ node: the hashed header and the stored text.**

A block is hashed through `serializeHeader`, a sequence of fields of its header; it is stored in
the database through `serialize`, a text of fields separated by `|`, of which `deserialize` reads
the fields back into an object, assigning its members one by one.  Of a transaction the text has
four fields only.

Main definitions:

* `Node.Block`;
* `Node.Block.serializeHeader`;
* `Node.Block.serialize`, `Node.Block.deserialize`;
* `Node.Block.stored` — the block with what the text keeps of each transaction.

Main result:

* `Node.Block.deserialize_serialize` — **what the text of a block reads back as**, for a block
  none of whose strings contains the delimiter.
-/

import MedorCoin.Node.Transaction

set_option autoImplicit false

namespace Node

open Cpp

/-- `class Block`. -/
structure Block where
  previousHash : Str := []
  data : Str := []
  difficulty : UInt32 := 0
  minerAddress : Str := []
  timestamp : UInt64 := 0
  nonce : UInt64 := 0
  reward : UInt64 := 0
  baseFee : UInt64 := 0
  gasUsed : UInt64 := 0
  gasLimit : UInt64 := 30000000
  hash : Str := []
  signature : Str := []
  transactions : List Transaction := []
  deriving DecidableEq

namespace Block

def maxTransactions : UInt64 := 10000

def maxDifficulty : UInt32 := 64

def serialVersion : UInt32 := 2

/-! ### The hashed header -/

/-- Four bytes, the highest first. -/
def writeU32BE (v : UInt32) : Str :=
  [3, 2, 1, 0].map fun i : UInt32 => ((v >>> (i * 8)) &&& 0xFF).toUInt8

/-- Eight bytes, the highest first. -/
def writeU64BE (v : UInt64) : Str :=
  [7, 6, 5, 4, 3, 2, 1, 0].map fun i : UInt64 => ((v >>> (i * 8)) &&& 0xFF).toUInt8

/-- A string after its length. -/
def writeStr (s : Str) : Str := writeU32BE (UInt32.ofNat s.length) ++ s

/-- The bytes that are hashed; the transactions are not among them. -/
def serializeHeader (b : Block) : Str :=
  writeStr b.previousHash ++ writeStr b.data ++ writeU32BE b.difficulty ++
    writeStr b.minerAddress ++ writeU64BE b.timestamp ++ writeU64BE b.nonce ++
    writeU64BE b.reward ++ writeU64BE b.baseFee ++ writeU64BE b.gasUsed

/-! ### The stored text -/

/-- `'|'`. -/
def delimiter : UInt8 := 124

/-- The fields of the header in the stored text. -/
def headerFields (b : Block) : List Str :=
  [decimal serialVersion.toNat, b.previousHash, b.data, decimal b.difficulty.toNat,
    b.minerAddress, decimal b.timestamp.toNat, decimal b.nonce.toNat, decimal b.reward.toNat,
    decimal b.baseFee.toNat, decimal b.gasUsed.toNat, decimal b.gasLimit.toNat, b.hash,
    b.signature, decimal b.transactions.length]

/-- The fields of a transaction in the stored text. -/
def transactionFields (tx : Transaction) : List Str :=
  [tx.txHash, tx.toAddress, decimal tx.value.toNat, decimal tx.nonce.toNat]

/-- `serialize()`. -/
def serialize (b : Block) : Str :=
  [delimiter].intercalate (b.headerFields ++ b.transactions.flatMap transactionFields)

/-- The state of `deserialize`: the fields `std::getline` has not reached, the field it read
last, and the object that is written. -/
structure Reader where
  fields : List Str
  token : Str
  block : Block

/-- A computation of `deserialize`, which may throw and leaves the object as it was then. -/
abbrev Parse := EStateM Unit Reader

/-- Read a field.  At the end of the text `std::getline` leaves the last field in place. -/
def next : Parse Str := do
  let r ← get
  match r.fields with
  | [] => pure r.token
  | field :: fields =>
      set { r with fields, token := field }
      pure field

/-- `std::stoull(next())`. -/
def nextNumber : Parse UInt64 := do
  match stoull (← next) with
  | some n => pure n
  | none => throw ()

/-- Write a member of the object. -/
def assign (f : Block → Block) : Parse Unit := modify fun r => { r with block := f r.block }

/-- Read the transactions, each into a fresh object. -/
def readTransactions : ℕ → Parse Unit
  | 0 => pure ()
  | n + 1 => do
      let txHash ← next
      let toAddress ← next
      let value ← nextNumber
      let nonce ← nextNumber
      assign fun b => { b with
        transactions := b.transactions ++ [{ txHash, toAddress, value, nonce }] }
      readTransactions n

/-- The body of `deserialize`; `return false` is an exception here. -/
def readBlock : Parse Unit := do
  let version ← nextNumber
  if version.toUInt32 > serialVersion then throw ()
  let previousHash ← next
  assign fun b => { b with previousHash }
  let data ← next
  assign fun b => { b with data }
  let difficulty ← nextNumber
  assign fun b => { b with difficulty := difficulty.toUInt32 }
  let minerAddress ← next
  assign fun b => { b with minerAddress }
  let timestamp ← nextNumber
  assign fun b => { b with timestamp }
  let nonce ← nextNumber
  assign fun b => { b with nonce }
  let reward ← nextNumber
  assign fun b => { b with reward }
  let baseFee ← nextNumber
  assign fun b => { b with baseFee }
  let gasUsed ← nextNumber
  assign fun b => { b with gasUsed }
  let gasLimit ← nextNumber
  assign fun b => { b with gasLimit }
  let hash ← next
  assign fun b => { b with hash }
  let signature ← next
  assign fun b => { b with signature }
  let txCount ← nextNumber
  if txCount > maxTransactions then throw ()
  assign fun b => { b with transactions := [] }
  readTransactions txCount.toNat
  assign fun b => { b with difficulty := min b.difficulty maxDifficulty }
  if (← get).block.timestamp = 0 then throw ()

/-- `deserialize(raw)` on an object: whether it succeeded, and the object afterwards. -/
def deserialize (b : Block) (raw : Str) : Bool × Block :=
  if raw = [] then (false, b)
  else
    match readBlock.run { fields := raw.splitOn delimiter, token := [], block := b } with
    | .ok _ r => (true, r.block)
    | .error _ r => (false, r.block)

/-! ### Reading back what was written -/

/-- What the stored text keeps of a transaction. -/
def storedTransaction (tx : Transaction) : Transaction :=
  { txHash := tx.txHash, toAddress := tx.toAddress, value := tx.value, nonce := tx.nonce }

/-- The block with what the stored text keeps of each transaction. -/
def stored (b : Block) : Block :=
  { b with transactions := b.transactions.map storedTransaction }

theorem next_bind {α : Type} (k : Str → Parse α) (field : Str) (fields : List Str) (token : Str)
    (b : Block) : (next >>= k).run ⟨field :: fields, token, b⟩ = (k field).run ⟨fields, field, b⟩ :=
  rfl

theorem nextNumber_bind {α : Type} (k : UInt64 → Parse α) (n : UInt64) (fields : List Str)
    (token : Str) (b : Block) :
    (nextNumber >>= k).run ⟨decimal n.toNat :: fields, token, b⟩ =
      (k n).run ⟨fields, decimal n.toNat, b⟩ := by
  have hstep : (nextNumber >>= k).run ⟨decimal n.toNat :: fields, token, b⟩ =
      ((match stoull (decimal n.toNat) with
        | some n => pure n
        | none => throw () : Parse UInt64) >>= k).run ⟨fields, decimal n.toNat, b⟩ := rfl
  rw [hstep, stoull_decimal]
  rfl

theorem assign_bind {α : Type} (f : Block → Block) (k : Unit → Parse α) (fields : List Str)
    (token : Str) (b : Block) :
    (assign f >>= k).run ⟨fields, token, b⟩ = (k ()).run ⟨fields, token, f b⟩ := rfl

theorem get_bind {α : Type} (k : Reader → Parse α) (r : Reader) :
    (get >>= k).run r = (k r).run r := rfl

theorem readTransactions_run (txs : List Transaction) (token : Str) (b : Block) :
    ∃ token', (readTransactions txs.length).run ⟨txs.flatMap transactionFields, token, b⟩ =
      .ok () ⟨[], token', { b with
        transactions := b.transactions ++ txs.map storedTransaction }⟩ := by
  induction txs generalizing token b with
  | nil =>
      refine ⟨token, ?_⟩
      rw [List.map_nil, List.append_nil]
      rfl
  | cons tx txs ih =>
      obtain ⟨token', h⟩ := ih (decimal tx.nonce.toNat) { b with
        transactions := b.transactions ++ [storedTransaction tx] }
      refine ⟨token', ?_⟩
      rw [List.length_cons, readTransactions, List.flatMap_cons]
      simp only [transactionFields, List.cons_append, List.nil_append, next_bind, nextNumber_bind,
        assign_bind]
      refine h.trans ?_
      rw [List.append_assoc, List.map_cons, List.singleton_append]

/-- No string of the block contains the delimiter. -/
structure Delimited (b : Block) : Prop where
  previousHash : delimiter ∉ b.previousHash
  data : delimiter ∉ b.data
  minerAddress : delimiter ∉ b.minerAddress
  hash : delimiter ∉ b.hash
  signature : delimiter ∉ b.signature
  transactions : ∀ tx ∈ b.transactions, delimiter ∉ tx.txHash ∧ delimiter ∉ tx.toAddress

theorem delimiter_not_mem_decimal (n : ℕ) : delimiter ∉ decimal n := not_mem_decimal rfl

theorem Delimited.not_mem_fields {b : Block} (h : b.Delimited) :
    ∀ field ∈ b.headerFields ++ b.transactions.flatMap transactionFields, delimiter ∉ field := by
  intro field hfield
  rcases List.mem_append.1 hfield with hfield | hfield
  · simp only [headerFields, List.mem_cons, List.not_mem_nil, or_false] at hfield
    rcases hfield with rfl | rfl | rfl | rfl | rfl | rfl | rfl | rfl | rfl | rfl | rfl | rfl |
      rfl | rfl
    all_goals first
      | exact delimiter_not_mem_decimal _
      | exact h.previousHash
      | exact h.data
      | exact h.minerAddress
      | exact h.hash
      | exact h.signature
  · obtain ⟨tx, htx, hfield⟩ := List.mem_flatMap.1 hfield
    obtain ⟨hhash, haddress⟩ := h.transactions tx htx
    simp only [transactionFields, List.mem_cons, List.not_mem_nil, or_false] at hfield
    rcases hfield with rfl | rfl | rfl | rfl
    · exact hhash
    · exact haddress
    · exact delimiter_not_mem_decimal _
    · exact delimiter_not_mem_decimal _

theorem Delimited.splitOn_serialize {b : Block} (h : b.Delimited) :
    b.serialize.splitOn delimiter = b.headerFields ++ b.transactions.flatMap transactionFields := by
  rw [serialize]
  exact List.splitOn_intercalate delimiter h.not_mem_fields (by simp [headerFields])

theorem run_bind_ok {α β : Type} {x : Parse α} {k : α → Parse β} {a : α} {r r' : Reader}
    (h : x.run r = .ok a r') : (x >>= k).run r = (k a).run r' := by
  have hx : x r = .ok a r' := h
  change EStateM.bind x k r = _
  rw [EStateM.bind, hx]
  rfl

theorem toNat_ofNat_length {txs : List Transaction} (h : txs.length ≤ 10000) :
    (UInt64.ofNat txs.length).toNat = txs.length := by
  rw [UInt64.toNat_ofNat_of_lt']
  exact Nat.lt_of_le_of_lt h (by decide)

theorem serialVersion_toNat : serialVersion.toNat = (2 : UInt64).toNat := rfl

theorem readBlock_run {b : Block} (b₀ : Block) (hdifficulty : b.difficulty ≤ maxDifficulty)
    (htimestamp : b.timestamp ≠ 0) (hcount : b.transactions.length ≤ 10000) :
    ∃ r, readBlock.run ⟨b.headerFields ++ b.transactions.flatMap transactionFields, [], b₀⟩ =
      .ok () r ∧ r.block = b.stored := by
  have hlength := toNat_ofNat_length hcount
  have hle : ¬ UInt64.ofNat b.transactions.length > maxTransactions := by
    have hmax : maxTransactions.toNat = 10000 := rfl
    rw [gt_iff_lt, UInt64.lt_iff_toNat_lt, hlength]
    omega
  -- every number of the text is the numeral of a `uint64_t`
  rw [headerFields, serialVersion_toNat, ← UInt32.toNat_toUInt64 b.difficulty, ← hlength]
  unfold readBlock
  simp only [List.cons_append, List.nil_append, nextNumber_bind]
  rw [if_neg (by decide)]
  simp only [next_bind, nextNumber_bind, assign_bind, if_neg hle]
  rw [hlength]
  obtain ⟨token, htxs⟩ := readTransactions_run b.transactions (decimal b.transactions.length)
    { b with difficulty := b.difficulty.toUInt64.toUInt32, transactions := [] }
  rw [run_bind_ok htxs, assign_bind, get_bind]
  simp only [if_neg htimestamp]
  refine ⟨_, rfl, ?_⟩
  have hmin : min b.difficulty maxDifficulty = b.difficulty := if_pos hdifficulty
  simp only [stored, List.nil_append, UInt32.toUInt32_toUInt64, hmin]

theorem serialize_ne_nil (b : Block) : b.serialize ≠ [] := by
  have h : b.serialize = decimal serialVersion.toNat ++ (delimiter ::
      [delimiter].intercalate (b.headerFields.tail ++ b.transactions.flatMap transactionFields)) :=
    rfl
  rw [h]
  exact List.append_ne_nil_of_right_ne_nil _ (List.cons_ne_nil _ _)

/-- **What the text of a block reads back as**: the block, with four fields of each transaction. -/
theorem deserialize_serialize {b : Block} (h : b.Delimited)
    (hdifficulty : b.difficulty ≤ maxDifficulty) (htimestamp : b.timestamp ≠ 0)
    (hcount : b.transactions.length ≤ 10000) (b₀ : Block) :
    deserialize b₀ b.serialize = (true, b.stored) := by
  obtain ⟨r, hr, hblock⟩ := readBlock_run b₀ hdifficulty htimestamp hcount
  rw [deserialize, if_neg b.serialize_ne_nil, h.splitOn_serialize, hr]
  simp only [hblock]

end Block

end Node
