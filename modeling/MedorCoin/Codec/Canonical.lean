/-
**Buffers and what they decode to.**

The payload decoders read their fields one after the other and stop: what stands behind the last
field is not looked at, neither at the end of the buffer nor at the end of a transaction inside a
block, where the length in front of the transaction may leave room.  Everything that is read is
written again as it was.

Main definitions:

* `Codec.lengthAt`, `Codec.transactionExtent` — how far the length fields say that a transaction
  goes;
* `Codec.EntriesExact`, `Codec.TransactionExact`, `Codec.BlockExact` — nothing stands behind.

Main results:

* `Codec.decodeTransaction_spec` — **a buffer is the encoding of what it decodes to**, and some
  bytes behind it;
* `Codec.decodeTransaction_append` — any bytes will do;
* `Codec.payload_canonical_iff` — **where the encoding is the whole buffer**;
* `Codec.not_payload_canonical` — it is not always.
-/

import MedorCoin.Codec.Payload

set_option autoImplicit false

namespace Codec

open Cpp Node

/-! ### Readers that have succeeded -/

section

variable {α β : Type} {x : Reader α} {k : α → Reader β} {k' : Reader β} {b : β} {s t : List UInt8}

theorem run_bind_eq_some_iff : (x >>= k).run s = some (b, t) ↔
    ∃ a u, x.run s = some (a, u) ∧ (k a).run u = some (b, t) := by
  rw [StateT.run_bind]
  constructor
  · intro h
    obtain ⟨⟨a, u⟩, hx, hk⟩ := Option.bind_eq_some_iff.1 h
    exact ⟨a, u, hx, hk⟩
  · rintro ⟨a, u, hx, hk⟩
    exact Option.bind_eq_some_iff.2 ⟨(a, u), hx, hk⟩

theorem run_pure_eq_some_iff {a b : α} :
    (pure a : Reader α).run s = some (b, t) ↔ a = b ∧ s = t := by
  rw [StateT.run_pure]
  exact Option.some_inj.trans Prod.mk_inj

theorem run_of_guard {p : Prop} [Decidable p] {y : Unit → Reader β}
    (h : (if p then failure >>= y else k').run s = some (b, t)) :
    ¬ p ∧ k'.run s = some (b, t) := by
  by_cases hp : p
  · rw [if_pos hp] at h
    exact absurd h (by simp)
  · rw [if_neg hp] at h
    exact ⟨hp, h⟩

theorem run_lift_eq_some_iff {o : Option α} {a : α} :
    (liftM o : Reader α).run s = some (a, t) ↔ o = some a ∧ s = t := by
  cases o with
  | none => exact ⟨fun h => absurd h (by simp), fun h => absurd h.1 (by simp)⟩
  | some a' =>
      rw [Option.some_inj]
      exact run_pure_eq_some_iff

end

section

variable {s t : List UInt8}

theorem of_readBytes {n : ℕ} {p : List UInt8} (h : (readBytes n).run s = some (p, t)) :
    s = p ++ t ∧ p.length = n := by
  change (if s.length < n then none else some (s.take n, s.drop n)) = some (p, t) at h
  split_ifs at h with hshort
  obtain ⟨rfl, rfl⟩ := Prod.mk_inj.1 (Option.some_inj.1 h)
  refine ⟨(List.take_append_drop n s).symm, ?_⟩
  rw [List.length_take]
  omega

theorem beWrite64_beRead64 {p : List UInt8} (h : p.length = 8) : beWrite64 (beRead64 p) = p := by
  have hbytes := writeBE_readBE p
  rw [h] at hbytes
  rw [beWrite64_eq, beRead64, List.take_of_length_le h.le, toNat_foldl_shiftIn_zero h.le, hbytes]

theorem of_readUint64 {v : UInt64} (h : readUint64Safe.run s = some (v, t)) :
    s = beWrite64 v ++ t := by
  obtain ⟨p, u, hp, hpure⟩ := run_bind_eq_some_iff.1 h
  obtain ⟨rfl, hlength⟩ := of_readBytes hp
  obtain ⟨rfl, rfl⟩ := run_pure_eq_some_iff.1 hpure
  rw [beWrite64_beRead64 hlength]

theorem of_readLength {n : ℕ} (h : readLength.run s = some (n, t)) :
    s = beWrite32 (UInt32.ofNat n) ++ t ∧ n < 2 ^ 32 := by
  obtain ⟨p, u, hp, hpure⟩ := run_bind_eq_some_iff.1 h
  obtain ⟨rfl, hlength⟩ := of_readBytes hp
  obtain ⟨rfl, rfl⟩ := run_pure_eq_some_iff.1 hpure
  refine ⟨?_, UInt32.toNat_lt _⟩
  rw [UInt32.ofNat_toNat, beWrite32_beRead32 hlength.ge, List.take_of_length_le hlength.le]

theorem of_readString {v : Str} (h : readStringSafe.run s = some (v, t)) :
    s = encodeString v ++ t ∧ v.length ≤ maxFrameBytes := by
  obtain ⟨n, u, hn, hrest⟩ := run_bind_eq_some_iff.1 h
  obtain ⟨hle, hbytes⟩ := run_of_guard hrest
  obtain ⟨rfl, -⟩ := of_readLength hn
  obtain ⟨rfl, rfl⟩ := of_readBytes hbytes
  exact ⟨by rw [encodeString, List.append_assoc], Nat.not_lt.1 hle⟩

theorem toList_half {p : List UInt8} {start : ℕ} (h : start + 32 ≤ p.length) :
    (half p start).toList = (p.drop start).take 32 := by
  have hlength : ((p.drop start).take 32).length = 32 := by
    rw [List.length_take, List.length_drop]
    omega
  refine List.ext_getElem (Vector.length_toList.trans hlength.symm) fun i h₁ h₂ => ?_
  have hi : start + i < p.length := by
    rw [Vector.length_toList] at h₁
    omega
  simp only [half, Vector.getElem_toList, Vector.getElem_ofFn, List.getElem_take,
    List.getElem_drop]
  rw [List.getD_eq_getElem?_getD, List.getElem?_eq_getElem hi, Option.getD_some]

theorem half_append_half {p : List UInt8} (h : p.length = 64) :
    (half p 0).toList ++ (half p 32).toList = p := by
  have hrest : ((p.drop 32).take 32) = p.drop 32 :=
    List.take_of_length_le (by rw [List.length_drop]; omega)
  rw [toList_half (by omega), toList_half h.ge, List.drop_zero, hrest, List.take_append_drop]

theorem of_readTransaction {tx : Transaction} (h : readTransaction.run s = some (tx, t)) :
    s = encodeTransaction tx ++ t ∧ TransactionFits tx ∧ carriedTransaction tx = tx := by
  simp only [readTransaction, run_bind_eq_some_iff] at h
  obtain ⟨chainId, s₁, h₁, nonce, s₂, h₂, priority, s₃, h₃, fee, s₄, h₄, gas, s₅, h₅, value, s₆, h₆,
    v, s₇, h₇, toAddress, s₈, h₈, txHash, s₉, h₉, rs, s₁₀, h₁₀, data, s₁₁, h₁₁, hpure⟩ := h
  obtain rfl := of_readUint64 h₁
  obtain rfl := of_readUint64 h₂
  obtain rfl := of_readUint64 h₃
  obtain rfl := of_readUint64 h₄
  obtain rfl := of_readUint64 h₅
  obtain rfl := of_readUint64 h₆
  obtain rfl := of_readUint64 h₇
  obtain ⟨rfl, haddress⟩ := of_readString h₈
  obtain ⟨rfl, hhash⟩ := of_readString h₉
  obtain ⟨rfl, hrs⟩ := of_readBytes h₁₀
  obtain ⟨rfl, hdata⟩ := of_readString h₁₁
  obtain ⟨rfl, rfl⟩ := run_pure_eq_some_iff.1 hpure
  refine ⟨?_, ⟨haddress, hhash, hdata⟩, rfl⟩
  -- the two halves of what was read stand next to each other
  have hhalves := half_append_half hrs
  simp only [encodeTransaction, List.append_assoc]
  rw [← List.append_assoc (half rs 0).toList, hhalves]

end

/-! ### How far a transaction goes -/

/-- The length field at a place. -/
def lengthAt (buf : List UInt8) (pos : ℕ) : ℕ := (beRead32 (buf.drop pos)).toNat

/-- How far the length fields say that a transaction goes: seven numbers, two strings, the two
halves of the signature, and the data. -/
def transactionExtent (buf : List UInt8) : ℕ :=
  let hashAt := 60 + lengthAt buf 56
  let dataAt := hashAt + 4 + lengthAt buf hashAt + 64
  dataAt + 4 + lengthAt buf dataAt

theorem lengthAt_number {front : List UInt8} {n : ℕ} (hn : n < 2 ^ 32) (rest : List UInt8) {pos : ℕ}
    (hpos : front.length = pos) :
    lengthAt (front ++ (beWrite32 (UInt32.ofNat n) ++ rest)) pos = n := by
  rw [lengthAt, List.drop_left' hpos, beRead32_beWrite32, UInt32.toNat_ofNat_of_lt' hn]

theorem lengthAt_append {front s : List UInt8} (hs : s.length < 2 ^ 32) (rest : List UInt8)
    {pos : ℕ} (hpos : front.length = pos) :
    lengthAt (front ++ (encodeString s ++ rest)) pos = s.length := by
  rw [encodeString, List.append_assoc]
  exact lengthAt_number hs _ hpos

theorem lengthAt_encodeString {s : Str} (hs : s.length < 2 ^ 32) (rest : List UInt8) :
    lengthAt (encodeString s ++ rest) 0 = s.length := by
  have hfront := lengthAt_append hs rest (@List.length_nil UInt8)
  rwa [List.nil_append] at hfront

/-- The seven numbers at the front of a transaction. -/
def transactionFront (tx : Transaction) : List UInt8 :=
  beWrite64 tx.chainId ++ (beWrite64 tx.nonce ++ (beWrite64 tx.maxPriorityFeePerGas ++
    (beWrite64 tx.maxFeePerGas ++ (beWrite64 tx.gasLimit ++ (beWrite64 tx.value ++
      beWrite64 tx.v)))))

theorem length_transactionFront (tx : Transaction) : (transactionFront tx).length = 56 := by
  simp only [transactionFront, List.length_append, length_beWrite64]

theorem encodeTransaction_eq (tx : Transaction) : encodeTransaction tx = transactionFront tx ++
    (encodeString tx.toAddress ++ (encodeString tx.txHash ++
      (tx.r.toList ++ (tx.s.toList ++ encodeString tx.data)))) := by
  simp only [encodeTransaction, transactionFront, List.append_assoc]

theorem transactionExtent_encode {tx : Transaction} (h : TransactionFits tx) (rest : List UInt8) :
    transactionExtent (encodeTransaction tx ++ rest) = (encodeTransaction tx).length := by
  have hshort {s : Str} (hs : s.length ≤ maxFrameBytes) : s.length < 2 ^ 32 :=
    Nat.lt_of_le_of_lt hs (by decide)
  -- the three length fields, each behind what the ones before it account for
  have haddress : lengthAt (encodeTransaction tx ++ rest) 56 = tx.toAddress.length := by
    rw [encodeTransaction_eq, List.append_assoc, List.append_assoc (encodeString tx.toAddress)]
    exact lengthAt_append (hshort h.toAddress) _ (length_transactionFront tx)
  have hhash : lengthAt (encodeTransaction tx ++ rest) (60 + tx.toAddress.length) =
      tx.txHash.length := by
    rw [encodeTransaction_eq, ← List.append_assoc (transactionFront tx), List.append_assoc,
      List.append_assoc (encodeString tx.txHash)]
    refine lengthAt_append (hshort h.txHash) _ ?_
    rw [List.length_append, length_transactionFront, length_encodeString]
    omega
  have hdata : lengthAt (encodeTransaction tx ++ rest)
      (60 + tx.toAddress.length + 4 + tx.txHash.length + 64) = tx.data.length := by
    have hsplit : encodeTransaction tx ++ rest = (transactionFront tx ++
        (encodeString tx.toAddress ++ (encodeString tx.txHash ++ (tx.r.toList ++ tx.s.toList)))) ++
          (encodeString tx.data ++ rest) := by
      simp only [encodeTransaction_eq, List.append_assoc]
    rw [hsplit]
    refine lengthAt_append (hshort h.data) _ ?_
    simp only [List.length_append, length_transactionFront, length_encodeString,
      Vector.length_toList]
    omega
  rw [transactionExtent, haddress]
  simp only [hhash, hdata]
  rw [length_encodeTransaction]
  omega

theorem encodeString_append_inj {a b : Str} (ha : a.length < 2 ^ 32) (hb : b.length < 2 ^ 32)
    {x y : List UInt8} : encodeString a ++ x = encodeString b ++ y ↔ a = b ∧ x = y := by
  constructor
  · intro h
    have hlength : a.length = b.length := by
      have hat := congrArg (lengthAt · 0) h
      simpa only [lengthAt_encodeString ha, lengthAt_encodeString hb] using hat
    obtain ⟨hab, hrest⟩ := List.append_inj h (by simp only [length_encodeString, hlength])
    exact ⟨(List.append_inj hab (by simp only [length_beWrite32])).2, hrest⟩
  · rintro ⟨rfl, rfl⟩
    rfl

/-! ### Transactions -/

/-- Nothing stands behind the last field. -/
def TransactionExact (buf : List UInt8) : Prop := buf.length = transactionExtent buf

instance (buf : List UInt8) : Decidable (TransactionExact buf) := Nat.decEq _ _

/-- **A buffer is the encoding of what it decodes to**, and some bytes behind it. -/
theorem decodeTransaction_spec {buf : List UInt8} {tx : Transaction}
    (h : decodeTransaction buf = some tx) :
    ∃ slack, buf = encodeTransaction tx ++ slack ∧ TransactionFits tx ∧
      carriedTransaction tx = tx := by
  rw [decodeTransaction] at h
  split_ifs at h
  obtain ⟨⟨tx', slack⟩, hread, rfl⟩ := Option.map_eq_some_iff.1 h
  exact ⟨slack, of_readTransaction hread⟩

/-- **Any bytes may follow** a transaction. -/
theorem decodeTransaction_append {buf : List UInt8} {tx : Transaction}
    (h : decodeTransaction buf = some tx) (slack : List UInt8) :
    decodeTransaction (buf ++ slack) = some tx := by
  obtain ⟨slack', rfl, hfits, hcarried⟩ := decodeTransaction_spec h
  have hlength : ¬ (encodeTransaction tx ++ (slack' ++ slack)).length < 60 := by
    rw [List.length_append, length_encodeTransaction]
    omega
  rw [List.append_assoc, decodeTransaction, if_neg hlength, reads_transaction hfits, hcarried]
  rfl

/-- **Where the encoding of a transaction is the whole buffer.** -/
theorem encodeTransaction_eq_iff {buf : List UInt8} {tx : Transaction}
    (h : decodeTransaction buf = some tx) : encodeTransaction tx = buf ↔ TransactionExact buf := by
  obtain ⟨slack, rfl, hfits, -⟩ := decodeTransaction_spec h
  rw [TransactionExact, transactionExtent_encode hfits, List.length_append]
  constructor
  · intro hall
    have hlength := congrArg List.length hall
    rw [List.length_append] at hlength
    omega
  · intro hlength
    have hslack : slack = [] := List.eq_nil_of_length_eq_zero (by omega)
    rw [hslack, List.append_nil]

/-! ### Blocks -/

/-- The transactions of a block fill the length in front of each, and nothing stands behind the
last. -/
def EntriesExact : ℕ → List UInt8 → Prop
  | 0, rest => rest = []
  | n + 1, rest => lengthAt rest 0 = transactionExtent (rest.drop 4) ∧
      EntriesExact n (rest.drop (4 + lengthAt rest 0))

instance decidableEntriesExact : ∀ (n : ℕ) (rest : List UInt8), Decidable (EntriesExact n rest)
  | 0, rest => inferInstanceAs (Decidable (rest = []))
  | n + 1, rest =>
      have := decidableEntriesExact n (rest.drop (4 + lengthAt rest 0))
      inferInstanceAs (Decidable (_ ∧ _))

/-- Where the number of transactions stands: behind two strings and three numbers. -/
def countAt (buf : List UInt8) : ℕ :=
  let previousAt := 4 + lengthAt buf 0
  previousAt + 4 + lengthAt buf previousAt + 24

/-- Nothing stands behind a transaction or the last field. -/
def BlockExact (buf : List UInt8) : Prop :=
  EntriesExact (lengthAt buf (countAt buf)) (buf.drop (countAt buf + 4))

instance (buf : List UInt8) : Decidable (BlockExact buf) := decidableEntriesExact _ _

/-- **Where the encodings of the transactions are all that was read.** -/
theorem flatMap_encodeEntry_eq_iff {n : ℕ} {s t : List UInt8} {txs : List Transaction}
    (h : (readTransactions n).run s = some (txs, t)) :
    txs.length = n ∧ (txs.flatMap encodeEntry = s ↔ EntriesExact n s) := by
  induction n generalizing s txs with
  | zero =>
      obtain ⟨rfl, rfl⟩ := run_pure_eq_some_iff.1 h
      exact ⟨rfl, eq_comm⟩
  | succ n ih =>
      rw [readTransactions, run_bind_eq_some_iff] at h
      obtain ⟨tlen, s₁, htlen, h⟩ := h
      obtain ⟨hle, h⟩ := run_of_guard h
      simp only [run_bind_eq_some_iff] at h
      obtain ⟨p, s₂, hp, tx, s₃, htx, txs', s₄, htxs, hpure⟩ := h
      obtain ⟨rfl, rfl⟩ := run_pure_eq_some_iff.1 hpure
      obtain ⟨rfl, hlt⟩ := of_readLength htlen
      obtain ⟨rfl, rfl⟩ := of_readBytes hp
      obtain ⟨hdecode, rfl⟩ := run_lift_eq_some_iff.1 htx
      obtain ⟨hcount, hrest⟩ := ih htxs
      refine ⟨congrArg Nat.succ hcount, ?_⟩
      -- the entry, and where its length fields end
      have hentry : beWrite32 (UInt32.ofNat p.length) ++ (p ++ s₂) = encodeString p ++ s₂ := by
        rw [encodeString, List.append_assoc]
      have hfront := lengthAt_encodeString hlt s₂
      have hdrop : (encodeString p ++ s₂).drop 4 = p ++ s₂ := by
        rw [← hentry]
        exact List.drop_left' (length_beWrite32 _)
      have hnext : (encodeString p ++ s₂).drop (4 + p.length) = s₂ :=
        List.drop_left' (length_encodeString p)
      obtain ⟨slack, hslack, hfits, -⟩ := decodeTransaction_spec hdecode
      have hextent : transactionExtent (p ++ s₂) = transactionExtent p := by
        rw [hslack, List.append_assoc, transactionExtent_encode hfits,
          transactionExtent_encode hfits]
      rw [hentry, EntriesExact, hfront, hdrop, hnext, hextent, List.flatMap_cons, encodeEntry,
        encodeString_append_inj hfits.length_lt hlt, encodeTransaction_eq_iff hdecode, hrest]
      rfl

/-- What stands in front of the transactions of a block, up to their number. -/
def blockFront (b : Block) : List UInt8 :=
  encodeString b.hash ++ (encodeString b.previousHash ++ (beWrite64 b.timestamp ++
    (beWrite64 b.reward ++ beWrite64 b.baseFee)))

theorem encodeBlock_eq (b : Block) : encodeBlock b = blockFront b ++
    (beWrite32 (UInt32.ofNat b.transactions.length) ++ b.transactions.flatMap encodeEntry) := by
  simp only [encodeBlock, blockFront, List.append_assoc]

theorem countAt_blockFront {b : Block} (hhash : b.hash.length < 2 ^ 32)
    (hprevious : b.previousHash.length < 2 ^ 32) (rest : List UInt8) :
    countAt (blockFront b ++ rest) = (blockFront b).length := by
  have hhashAt : lengthAt (blockFront b ++ rest) 0 = b.hash.length := by
    rw [blockFront, List.append_assoc]
    exact lengthAt_encodeString hhash _
  have hpreviousAt : lengthAt (blockFront b ++ rest) (4 + b.hash.length) =
      b.previousHash.length := by
    rw [blockFront, List.append_assoc, List.append_assoc (encodeString b.previousHash)]
    exact lengthAt_append hprevious _ (length_encodeString b.hash)
  have hlength : (blockFront b).length = 4 + b.hash.length + 4 + b.previousHash.length + 24 := by
    simp only [blockFront, List.length_append, length_encodeString, length_beWrite64]
    omega
  rw [countAt, hhashAt, hlength]
  simp only [hpreviousAt]

theorem of_readBlock {s t : List UInt8} {b : Block} (h : readBlock.run s = some (b, t)) :
    ∃ n entries, (readTransactions n).run entries = some (b.transactions, t) ∧
      b.hash.length < 2 ^ 32 ∧ b.previousHash.length < 2 ^ 32 ∧ n < 2 ^ 32 ∧
      s = blockFront b ++ (beWrite32 (UInt32.ofNat n) ++ entries) := by
  have hshort {s : Str} (hs : s.length ≤ maxFrameBytes) : s.length < 2 ^ 32 :=
    Nat.lt_of_le_of_lt hs (by decide)
  rw [readBlock] at h
  obtain ⟨hash, s₁, h₁, h⟩ := run_bind_eq_some_iff.1 h
  obtain ⟨previousHash, s₂, h₂, h⟩ := run_bind_eq_some_iff.1 h
  obtain ⟨timestamp, s₃, h₃, h⟩ := run_bind_eq_some_iff.1 h
  obtain ⟨reward, s₄, h₄, h⟩ := run_bind_eq_some_iff.1 h
  obtain ⟨baseFee, s₅, h₅, h⟩ := run_bind_eq_some_iff.1 h
  obtain ⟨n, entries, h₆, h⟩ := run_bind_eq_some_iff.1 h
  obtain ⟨-, h⟩ := run_of_guard h
  obtain ⟨txs, s₇, htxs, hpure⟩ := run_bind_eq_some_iff.1 h
  obtain ⟨rfl, hhash⟩ := of_readString h₁
  obtain ⟨rfl, hprevious⟩ := of_readString h₂
  obtain rfl := of_readUint64 h₃
  obtain rfl := of_readUint64 h₄
  obtain rfl := of_readUint64 h₅
  obtain ⟨rfl, hlt⟩ := of_readLength h₆
  obtain ⟨rfl, rfl⟩ := run_pure_eq_some_iff.1 hpure
  refine ⟨n, entries, htxs, hshort hhash, hshort hprevious, hlt, ?_⟩
  simp only [blockFront, List.append_assoc]

/-- **Where the encoding of a block is the whole buffer.** -/
theorem encodeBlock_eq_iff {buf : List UInt8} {b : Block} (h : decodeBlock buf = some b) :
    encodeBlock b = buf ↔ BlockExact buf := by
  rw [decodeBlock] at h
  split_ifs at h
  obtain ⟨⟨b', t⟩, hread, rfl⟩ := Option.map_eq_some_iff.1 h
  obtain ⟨n, entries, htxs, hhash, hprevious, hlt, rfl⟩ := of_readBlock hread
  obtain ⟨hcount, hexact⟩ := flatMap_encodeEntry_eq_iff htxs
  have hnumber := lengthAt_number hlt entries (rfl : (blockFront b').length = _)
  have hdrop : (blockFront b' ++ (beWrite32 (UInt32.ofNat n) ++ entries)).drop
      ((blockFront b').length + 4) = entries := by
    rw [← List.append_assoc]
    exact List.drop_left' (by rw [List.length_append, length_beWrite32])
  rw [BlockExact, countAt_blockFront hhash hprevious, hnumber, hdrop, ← hexact, encodeBlock_eq,
    hcount, List.append_cancel_left_eq, List.append_cancel_left_eq]

/-! ### Payloads -/

/-- **Where the encoding is the whole buffer.**  What a buffer decodes to is encoded as that buffer
exactly where the length fields of the buffer account for all of it. -/
theorem payload_canonical_iff (buf : List UInt8) :
    (∀ tx : Transaction, decodeTransaction buf = some tx →
      (encodeTransaction tx = buf ↔ TransactionExact buf)) ∧
    ∀ b : Block, decodeBlock buf = some b → (encodeBlock b = buf ↔ BlockExact buf) :=
  ⟨fun _ => encodeTransaction_eq_iff, fun _ => encodeBlock_eq_iff⟩

theorem decodeTransaction_empty : decodeTransaction (encodeTransaction {}) = some {} :=
  decodeTransaction_encodeTransaction ⟨Nat.zero_le _, Nat.zero_le _, Nat.zero_le _⟩

theorem payload_canonical_empty :
    TransactionExact (encodeTransaction {}) ∧ BlockExact (encodeBlock {}) := by
  have hdecode : decodeBlock (encodeBlock {}) = some {} := by
    rw [decodeBlock_encodeBlock ⟨Nat.zero_le _, Nat.zero_le _,
      fun tx htx => absurd htx List.not_mem_nil, Nat.zero_le _⟩, if_pos (by simp)]
    rfl
  exact ⟨((payload_canonical_iff _).1 _ decodeTransaction_empty).1 rfl,
    ((payload_canonical_iff _).2 _ hdecode).1 rfl⟩

/-- **A byte behind a transaction is not looked at.** -/
theorem not_payload_canonical :
    ¬ ((∀ (buf : List UInt8) (tx : Transaction), decodeTransaction buf = some tx →
        encodeTransaction tx = buf) ∧
      ∀ (buf : List UInt8) (b : Block), decodeBlock buf = some b → encodeBlock b = buf) := by
  rintro ⟨h, -⟩
  have hbuf := h _ _ (decodeTransaction_append decodeTransaction_empty [0])
  have hlength := congrArg List.length hbuf
  rw [List.length_append] at hlength
  exact absurd hlength (by simp)

end Codec
