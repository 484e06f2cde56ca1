/-
**The payloads of transactions and blocks.**

A payload is the fields of a transaction or a block one after the other: numbers in eight bytes,
strings behind their length, and the transactions of a block each behind the length of its own
encoding.  Not all fields are written: a transaction is relayed without its inputs and outputs, and
a block without what the proof of work is about.

Main definitions:

* `Codec.encodeTransaction`, `Codec.encodeBlock`;
* `Codec.Reader`, `Codec.decodeTransaction`, `Codec.decodeBlock`;
* `Codec.carriedTransaction`, `Codec.carriedBlock` — what is left of a transaction or block;
* `Codec.Carried` — the blocks that are carried as they are.

Main results:

* `Codec.decodeTransaction_encodeTransaction`, `Codec.decodeBlock_encodeBlock` — **what comes
  back**;
* `Codec.payload_round_trip` — a transaction comes back exactly if it has no inputs and outputs, a
  block exactly if it is carried;
* `Codec.payload_round_trip_dropped` — neither does for all.
-/

import MedorCoin.Codec.Frame
import MedorCoin.Node.Block

set_option autoImplicit false

namespace Codec

open Cpp Node

/-! ### Encoding -/

/-- `appendString(out, s)`; the data of a transaction are written in the same way. -/
def encodeString (s : Str) : List UInt8 := beWrite32 (UInt32.ofNat s.length) ++ s

/-- `encodeTransaction(tx, out)`. -/
def encodeTransaction (tx : Transaction) : List UInt8 :=
  beWrite64 tx.chainId ++ (beWrite64 tx.nonce ++ (beWrite64 tx.maxPriorityFeePerGas ++
    (beWrite64 tx.maxFeePerGas ++ (beWrite64 tx.gasLimit ++ (beWrite64 tx.value ++
      (beWrite64 tx.v ++ (encodeString tx.toAddress ++ (encodeString tx.txHash ++
        (tx.r.toList ++ (tx.s.toList ++ encodeString tx.data))))))))))

/-- A transaction of a block, behind the length of its encoding. -/
def encodeEntry (tx : Transaction) : List UInt8 := encodeString (encodeTransaction tx)

/-- `encodeBlock(block, out)`. -/
def encodeBlock (b : Block) : List UInt8 :=
  encodeString b.hash ++ (encodeString b.previousHash ++ (beWrite64 b.timestamp ++
    (beWrite64 b.reward ++ (beWrite64 b.baseFee ++
      (beWrite32 (UInt32.ofNat b.transactions.length) ++ b.transactions.flatMap encodeEntry)))))

/-! ### Decoding -/

/-- A computation on what is left of the buffer, which may give up. -/
abbrev Reader := StateT (List UInt8) Option

/-- Take so many bytes. -/
def readBytes (n : ℕ) : Reader (List UInt8) := fun rest =>
  if rest.length < n then none else some (rest.take n, rest.drop n)

/-- `readUint64Safe(buf, bufLen, pos, out)`. -/
def readUint64Safe : Reader UInt64 := do
  let p ← readBytes 8
  pure (beRead64 p)

/-- Four bytes as a length. -/
def readLength : Reader ℕ := do
  let p ← readBytes 4
  pure (beRead32 p).toNat

/-- `readStringSafe(buf, bufLen, pos, out)`; the data of a transaction are read in the same way. -/
def readStringSafe : Reader Str := do
  let len ← readLength
  if len > maxFrameBytes then failure
  readBytes len

/-- Thirty-two of sixty-four bytes, from a place on. -/
def half (p : List UInt8) (start : ℕ) : Vector UInt8 32 :=
  Vector.ofFn fun i => p.getD (start + i.val) 0

/-- The reads of `decodeTransaction`. -/
def readTransaction : Reader Transaction := do
  let chainId ← readUint64Safe
  let nonce ← readUint64Safe
  let maxPriorityFeePerGas ← readUint64Safe
  let maxFeePerGas ← readUint64Safe
  let gasLimit ← readUint64Safe
  let value ← readUint64Safe
  let v ← readUint64Safe
  let toAddress ← readStringSafe
  let txHash ← readStringSafe
  let rs ← readBytes 64
  let data ← readStringSafe
  pure { chainId, nonce, maxPriorityFeePerGas, maxFeePerGas, gasLimit, value, v, toAddress, txHash,
         r := half rs 0, s := half rs 32, data }

/-- `decodeTransaction(buf, len)`. -/
def decodeTransaction (buf : List UInt8) : Option Transaction :=
  if buf.length < 60 then none else (readTransaction.run buf).map Prod.fst

/-- The loop over the transactions of a block. -/
def readTransactions : ℕ → Reader (List Transaction)
  | 0 => pure []
  | n + 1 => do
      let tlen ← readLength
      if tlen > maxFrameBytes then failure
      let p ← readBytes tlen
      let tx ← (decodeTransaction p : Option Transaction)
      let txs ← readTransactions n
      pure (tx :: txs)

/-- The bound on the number of transactions. -/
def maxTxCount : ℕ := 100000

/-- The reads of `decodeBlock`. -/
def readBlock : Reader Block := do
  let hash ← readStringSafe
  let previousHash ← readStringSafe
  let timestamp ← readUint64Safe
  let reward ← readUint64Safe
  let baseFee ← readUint64Safe
  let txCount ← readLength
  if txCount > maxTxCount then failure
  let transactions ← readTransactions txCount
  pure { hash, previousHash, timestamp, reward, baseFee, transactions }

/-- `decodeBlock(buf, len)`. -/
def decodeBlock (buf : List UInt8) : Option Block :=
  if buf.length < 16 then none else (readBlock.run buf).map Prod.fst

/-! ### Readers of encodings -/

/-- The reader takes `bytes` for `a`, and nothing that stands behind them. -/
def Reads {α : Type} (x : Reader α) (bytes : List UInt8) (a : α) : Prop :=
  ∀ rest, x.run (bytes ++ rest) = some (a, rest)

section

variable {α β : Type} {x : Reader α} {k : α → Reader β} {a : α} {b : β} {p q : List UInt8}

theorem run_bind_of_run {s t : List UInt8} (h : x.run s = some (a, t)) :
    (x >>= k).run s = (k a).run t := by
  rw [StateT.run_bind, h]
  rfl

theorem Reads.run_bind (h : Reads x p a) (rest : List UInt8) :
    (x >>= k).run (p ++ rest) = (k a).run rest := run_bind_of_run (h rest)

theorem Reads.bind (h : Reads x p a) (hk : Reads (k a) q b) : Reads (x >>= k) (p ++ q) b := by
  intro rest
  rw [List.append_assoc, h.run_bind, hk]

theorem reads_pure (a : α) : Reads (pure a) [] a := fun _ => rfl

theorem Reads.bind_pure (h : Reads x p a) {f : α → β} : Reads (x >>= fun a => pure (f a)) p (f a) :=
  fun rest => h.run_bind rest

end

theorem reads_bytes (p : List UInt8) : Reads (readBytes p.length) p p := by
  intro rest
  have hlength : ¬ (p ++ rest).length < p.length := by simp
  change (if (p ++ rest).length < p.length then none
    else some ((p ++ rest).take p.length, (p ++ rest).drop p.length)) = _
  rw [if_neg hlength, List.take_left, List.drop_left]

theorem reads_uint64 (v : UInt64) : Reads readUint64Safe (beWrite64 v) v := by
  have h : beRead64 (beWrite64 v) = v := by
    have h := beRead64_beWrite64 v []
    rwa [List.append_nil] at h
  have hread := (reads_bytes (beWrite64 v)).bind_pure (f := beRead64)
  rw [length_beWrite64, h] at hread
  exact hread

theorem reads_length {n : ℕ} (hn : n < 2 ^ 32) :
    Reads readLength (beWrite32 (UInt32.ofNat n)) n := by
  have h : (beRead32 (beWrite32 (UInt32.ofNat n))).toNat = n := by
    have h := beRead32_beWrite32 (UInt32.ofNat n) []
    rw [List.append_nil] at h
    rw [h, UInt32.toNat_ofNat_of_lt' hn]
  have hread := (reads_bytes (beWrite32 (UInt32.ofNat n))).bind_pure
    (f := fun p => (beRead32 p).toNat)
  rw [length_beWrite32, h] at hread
  exact hread

theorem reads_string {s : Str} (hs : s.length ≤ maxFrameBytes) :
    Reads readStringSafe (encodeString s) s := by
  have hlt : s.length < 2 ^ 32 := Nat.lt_of_le_of_lt hs (by decide)
  refine (reads_length hlt).bind ?_
  rw [if_neg (Nat.not_lt.2 hs)]
  exact reads_bytes s

/-! ### Transactions -/

/-- What is left of a transaction that is relayed. -/
def carriedTransaction (tx : Transaction) : Transaction := { tx with inputs := [], outputs := [] }

theorem half_fst (r s : Vector UInt8 32) : half (r.toList ++ s.toList) 0 = r := by
  refine Vector.ext fun i hi => ?_
  have hlt : 0 + i < r.toList.length := by rw [Vector.length_toList]; omega
  rw [half, Vector.getElem_ofFn, List.getD_eq_getElem?_getD, List.getElem?_append_left hlt]
  simp [hi]

theorem half_snd (r s : Vector UInt8 32) : half (r.toList ++ s.toList) 32 = s := by
  refine Vector.ext fun i hi => ?_
  have hle : r.toList.length ≤ 32 + i := by rw [Vector.length_toList]; omega
  rw [half, Vector.getElem_ofFn, List.getD_eq_getElem?_getD, List.getElem?_append_right hle]
  simp [hi]

/-- The strings of a transaction that are written are short enough for a frame. -/
structure TransactionFits (tx : Transaction) : Prop where
  toAddress : tx.toAddress.length ≤ maxFrameBytes
  txHash : tx.txHash.length ≤ maxFrameBytes
  data : tx.data.length ≤ maxFrameBytes

theorem reads_transaction {tx : Transaction} (h : TransactionFits tx) :
    Reads readTransaction (encodeTransaction tx) (carriedTransaction tx) := by
  have hrs : Reads (readBytes 64) (tx.r.toList ++ tx.s.toList) (tx.r.toList ++ tx.s.toList) := by
    have hread := reads_bytes (tx.r.toList ++ tx.s.toList)
    rwa [List.length_append, Vector.length_toList, Vector.length_toList] at hread
  have htransaction : carriedTransaction tx =
      { carriedTransaction tx with
        r := half (tx.r.toList ++ tx.s.toList) 0, s := half (tx.r.toList ++ tx.s.toList) 32 } := by
    rw [half_fst, half_snd]
    rfl
  rw [htransaction, encodeTransaction, ← List.append_assoc tx.r.toList]
  refine (reads_uint64 tx.chainId).bind ((reads_uint64 tx.nonce).bind ?_)
  refine (reads_uint64 tx.maxPriorityFeePerGas).bind ((reads_uint64 tx.maxFeePerGas).bind ?_)
  refine (reads_uint64 tx.gasLimit).bind ((reads_uint64 tx.value).bind ?_)
  refine (reads_uint64 tx.v).bind ((reads_string h.toAddress).bind ?_)
  exact (reads_string h.txHash).bind (hrs.bind (reads_string h.data).bind_pure)

theorem length_encodeString (s : Str) : (encodeString s).length = 4 + s.length := by
  rw [encodeString, List.length_append, length_beWrite32]

theorem length_encodeTransaction (tx : Transaction) : (encodeTransaction tx).length =
    132 + tx.toAddress.length + tx.txHash.length + tx.data.length := by
  simp only [encodeTransaction, List.length_append, length_beWrite64, length_encodeString,
    Vector.length_toList]
  omega

theorem TransactionFits.length_lt {tx : Transaction} (h : TransactionFits tx) :
    (encodeTransaction tx).length < 2 ^ 32 := by
  have haddress : tx.toAddress.length ≤ 2 ^ 23 := h.toAddress
  have hhash : tx.txHash.length ≤ 2 ^ 23 := h.txHash
  have hdata : tx.data.length ≤ 2 ^ 23 := h.data
  rw [length_encodeTransaction]
  omega

/-- **What comes back of a transaction**: all but its inputs and outputs. -/
theorem decodeTransaction_encodeTransaction {tx : Transaction} (h : TransactionFits tx) :
    decodeTransaction (encodeTransaction tx) = some (carriedTransaction tx) := by
  have hlength : ¬ (encodeTransaction tx).length < 60 := by
    rw [length_encodeTransaction]
    omega
  have hread := reads_transaction h []
  rw [List.append_nil] at hread
  rw [decodeTransaction, if_neg hlength, hread]
  rfl

/-! ### Blocks -/

/-- The encoding of a transaction is itself short enough for a frame. -/
def Relayed (tx : Transaction) : Prop := (encodeTransaction tx).length ≤ maxFrameBytes

instance (tx : Transaction) : Decidable (Relayed tx) := Nat.decLe _ _

theorem lift_some_bind {α β : Type} (a : α) (k : α → Reader β) :
    ((liftM (some a) : Reader α) >>= k) = k a := rfl

theorem reads_transactions {txs : List Transaction} (hfits : ∀ tx ∈ txs, TransactionFits tx)
    (h : ∀ tx ∈ txs, Relayed tx) :
    Reads (readTransactions txs.length) (txs.flatMap encodeEntry) (txs.map carriedTransaction) := by
  induction txs with
  | nil => exact reads_pure []
  | cons tx txs ih =>
      have htx := hfits tx List.mem_cons_self
      have hle : ¬ (encodeTransaction tx).length > maxFrameBytes :=
        Nat.not_lt.2 (h tx List.mem_cons_self)
      have hrest := ih (fun t ht => hfits t (List.mem_cons_of_mem _ ht))
        (fun t ht => h t (List.mem_cons_of_mem _ ht))
      rw [List.length_cons, readTransactions, List.flatMap_cons, List.map_cons, encodeEntry,
        encodeString, List.append_assoc]
      refine (reads_length htx.length_lt).bind ?_
      rw [if_neg hle]
      refine (reads_bytes _).bind ?_
      rw [decodeTransaction_encodeTransaction htx, lift_some_bind]
      exact hrest.bind_pure

theorem readTransactions_run_none {txs : List Transaction}
    (hfits : ∀ tx ∈ txs, TransactionFits tx) (h : ∃ tx ∈ txs, ¬ Relayed tx) (rest : List UInt8) :
    (readTransactions txs.length).run (txs.flatMap encodeEntry ++ rest) = none := by
  induction txs with
  | nil =>
      obtain ⟨tx, htx, -⟩ := h
      exact absurd htx List.not_mem_nil
  | cons tx txs ih =>
      have htx := hfits tx List.mem_cons_self
      rw [List.length_cons, readTransactions, List.flatMap_cons, encodeEntry, encodeString,
        List.append_assoc, List.append_assoc, (reads_length htx.length_lt).run_bind]
      by_cases hrelayed : Relayed tx
      · have htail : ∃ t ∈ txs, ¬ Relayed t := by
          obtain ⟨t, ht, hnot⟩ := h
          rcases List.mem_cons.1 ht with rfl | ht
          · exact absurd hrelayed hnot
          · exact ⟨t, ht, hnot⟩
        have hnone := ih (fun t ht => hfits t (List.mem_cons_of_mem _ ht)) htail
        rw [if_neg (Nat.not_lt.2 hrelayed), (reads_bytes _).run_bind,
          decodeTransaction_encodeTransaction htx, lift_some_bind, StateT.run_bind, hnone]
        rfl
      · rw [if_pos (Nat.not_le.1 hrelayed)]
        rfl

/-- The strings of a block that are written are short enough for a frame, and so are those of its
transactions, of which there are not too many. -/
structure BlockFits (b : Block) : Prop where
  hash : b.hash.length ≤ maxFrameBytes
  previousHash : b.previousHash.length ≤ maxFrameBytes
  transactions : ∀ tx ∈ b.transactions, TransactionFits tx
  count : b.transactions.length ≤ maxTxCount

/-- What is left of a block that is relayed. -/
def carriedBlock (b : Block) : Block :=
  { hash := b.hash, previousHash := b.previousHash, timestamp := b.timestamp, reward := b.reward,
    baseFee := b.baseFee, transactions := b.transactions.map carriedTransaction }

theorem readBlock_run {b : Block} (h : BlockFits b) :
    readBlock.run (encodeBlock b) =
      (readTransactions b.transactions.length >>= fun transactions => pure
        { carriedBlock b with transactions := transactions }).run
          (b.transactions.flatMap encodeEntry) := by
  have hcount : ¬ b.transactions.length > maxTxCount := Nat.not_lt.2 h.count
  have hlt : b.transactions.length < 2 ^ 32 := Nat.lt_of_le_of_lt h.count (by decide)
  rw [encodeBlock, readBlock, (reads_string h.hash).run_bind,
    (reads_string h.previousHash).run_bind, (reads_uint64 b.timestamp).run_bind,
    (reads_uint64 b.reward).run_bind, (reads_uint64 b.baseFee).run_bind,
    (reads_length hlt).run_bind, if_neg hcount]
  rfl

/-- **What comes back of a block**, if all of its transactions are relayed. -/
theorem decodeBlock_encodeBlock {b : Block} (h : BlockFits b) :
    decodeBlock (encodeBlock b) =
      if ∀ tx ∈ b.transactions, Relayed tx then some (carriedBlock b) else none := by
  have hlength : ¬ (encodeBlock b).length < 16 := by
    simp only [encodeBlock, List.length_append, length_encodeString, length_beWrite64,
      length_beWrite32]
    omega
  rw [decodeBlock, if_neg hlength, readBlock_run h]
  by_cases hrelayed : ∀ tx ∈ b.transactions, Relayed tx
  · have hread := (reads_transactions h.transactions hrelayed).run_bind (k := fun transactions =>
      (pure { carriedBlock b with transactions := transactions } : Reader Block)) []
    rw [List.append_nil] at hread
    rw [if_pos hrelayed, hread]
    rfl
  · have hnone := readTransactions_run_none h.transactions (by simpa using hrelayed) []
    rw [List.append_nil] at hnone
    rw [if_neg hrelayed, StateT.run_bind, hnone]
    rfl

/-! ### The round trip -/

/-- The blocks that are carried as they are. -/
structure Carried (b : Block) : Prop where
  data : b.data = []
  difficulty : b.difficulty = 0
  minerAddress : b.minerAddress = []
  nonce : b.nonce = 0
  gasUsed : b.gasUsed = 0
  gasLimit : b.gasLimit = 30000000
  signature : b.signature = []
  transactions : ∀ tx ∈ b.transactions, tx.inputs = [] ∧ tx.outputs = []
  relayed : ∀ tx ∈ b.transactions, Relayed tx

theorem carriedTransaction_eq_iff {tx : Transaction} :
    carriedTransaction tx = tx ↔ tx.inputs = [] ∧ tx.outputs = [] := by
  constructor
  · intro h
    exact ⟨(congrArg Transaction.inputs h).symm, (congrArg Transaction.outputs h).symm⟩
  · rintro ⟨hinputs, houtputs⟩
    rw [carriedTransaction, ← hinputs, ← houtputs]

theorem map_carriedTransaction_eq_iff {txs : List Transaction} :
    txs.map carriedTransaction = txs ↔ ∀ tx ∈ txs, tx.inputs = [] ∧ tx.outputs = [] := by
  calc txs.map carriedTransaction = txs ↔ txs.map carriedTransaction = txs.map id := by
        rw [List.map_id]
    _ ↔ ∀ tx ∈ txs, carriedTransaction tx = id tx := List.map_inj_left
    _ ↔ ∀ tx ∈ txs, tx.inputs = [] ∧ tx.outputs = [] :=
        forall₂_congr fun _ _ => carriedTransaction_eq_iff

theorem carriedBlock_eq {b : Block} (h : Carried b) : carriedBlock b = b := by
  have htransactions := map_carriedTransaction_eq_iff.2 h.transactions
  obtain ⟨previousHash, data, difficulty, minerAddress, timestamp, nonce, reward, baseFee, gasUsed,
    gasLimit, hash, signature, transactions⟩ := b
  obtain ⟨rfl, rfl, rfl, rfl, rfl, rfl, rfl, -, -⟩ := h
  rw [carriedBlock, htransactions]

/-- **The payload round trip**: a transaction comes back as it was exactly if it has no inputs and
outputs, a block exactly if it is carried. -/
theorem payload_round_trip (tx : Transaction) (b : Block) :
    (TransactionFits tx →
      (decodeTransaction (encodeTransaction tx) = some tx ↔ tx.inputs = [] ∧ tx.outputs = [])) ∧
    (BlockFits b → (decodeBlock (encodeBlock b) = some b ↔ Carried b)) := by
  refine ⟨fun h => ?_, fun h => ?_⟩
  · rw [decodeTransaction_encodeTransaction h, Option.some_inj, carriedTransaction_eq_iff]
  · rw [decodeBlock_encodeBlock h]
    constructor
    · intro hback
      have hrelayed : ∀ tx ∈ b.transactions, Relayed tx := by
        by_contra hnot
        rw [if_neg hnot] at hback
        exact absurd hback (by simp)
      rw [if_pos hrelayed, Option.some_inj] at hback
      exact {
        data := (congrArg Block.data hback).symm
        difficulty := (congrArg Block.difficulty hback).symm
        minerAddress := (congrArg Block.minerAddress hback).symm
        nonce := (congrArg Block.nonce hback).symm
        gasUsed := (congrArg Block.gasUsed hback).symm
        gasLimit := (congrArg Block.gasLimit hback).symm
        signature := (congrArg Block.signature hback).symm
        transactions := map_carriedTransaction_eq_iff.1 (congrArg Block.transactions hback)
        relayed := hrelayed }
    · intro hcarried
      rw [if_pos hcarried.relayed, carriedBlock_eq hcarried]

/-- A transaction to an address that nobody pays through outputs, and a block with nothing but it,
come back. -/
theorem payload_round_trip_plain :
    decodeTransaction (encodeTransaction { toAddress := [77], value := 5 }) =
      some { toAddress := [77], value := 5 } ∧
    decodeBlock (encodeBlock { timestamp := 9, transactions := [{ toAddress := [77] }] }) =
      some { timestamp := 9, transactions := [{ toAddress := [77] }] } := by
  have hmax : 1 ≤ maxFrameBytes := by decide
  have hfits (value : UInt64) : TransactionFits { toAddress := [77], value } :=
    ⟨hmax, Nat.zero_le _, Nat.zero_le _⟩
  obtain ⟨htransaction, hblock⟩ := payload_round_trip { toAddress := [77], value := 5 }
    { timestamp := 9, transactions := [{ toAddress := [77] }] }
  refine ⟨(htransaction (hfits 5)).2 ⟨rfl, rfl⟩, (hblock
    ⟨Nat.zero_le _, Nat.zero_le _, ?_, by decide⟩).2 ⟨rfl, rfl, rfl, rfl, rfl, rfl, rfl, ?_, ?_⟩⟩
  all_goals
    intro tx htx
    obtain rfl := List.mem_singleton.1 htx
  · exact hfits 0
  · exact ⟨rfl, rfl⟩
  · rw [Relayed, length_encodeTransaction]
    decide

/-- A transaction that pays an output, and a block with a proof of work, do not come back. -/
theorem payload_round_trip_dropped :
    ¬ (∀ tx : Transaction, TransactionFits tx →
      decodeTransaction (encodeTransaction tx) = some tx) ∧
    ¬ ∀ b : Block, BlockFits b → decodeBlock (encodeBlock b) = some b := by
  constructor
  · intro h
    have hfits : TransactionFits { outputs := [{ value := 5, address := [77] }] } :=
      ⟨Nat.zero_le _, Nat.zero_le _, Nat.zero_le _⟩
    have hback := h _ hfits
    rw [decodeTransaction_encodeTransaction hfits, Option.some_inj] at hback
    exact absurd (congrArg Transaction.outputs hback) (by decide)
  · intro h
    have hfits : BlockFits { difficulty := 4 } :=
      ⟨Nat.zero_le _, Nat.zero_le _, fun tx htx => absurd htx List.not_mem_nil, Nat.zero_le _⟩
    have hback := h _ hfits
    rw [decodeBlock_encodeBlock hfits, if_pos (by simp), Option.some_inj] at hback
    exact absurd (congrArg Block.difficulty hback) (by decide)

end Codec
