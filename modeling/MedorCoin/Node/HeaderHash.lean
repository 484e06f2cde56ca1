/-
**What the hash of a block commits to.**

The header is put into bytes in three places: by the block, by the proof of work, and by the
parallel search, which has the bytes before and after the nonce ready.  All three write the same
nine fields in one order.  Numbers have a fixed width and strings stand behind their length, so the
bytes determine the fields, as long as the length of a string fits into the four bytes it is
written in.  The gas limit and the transactions are not written.

Main definitions:

* `Node.ProofOfWork.serializeHeader`, `Node.ProofOfWork.preNonce`, `Node.ProofOfWork.postNonce`,
  `Node.ProofOfWork.attempt` — the header as the proof of work writes it;
* `Node.Block.Sized` — the lengths of the strings fit;
* `Node.Block.HashedAlike` — two blocks agree in what is hashed;
* `Node.CollisionFree` — the hash tells two texts apart.

Main results:

* `Node.ProofOfWork.serializeHeader_eq`, `Node.ProofOfWork.attempt_eq` — **the three agree**;
* `Node.Block.serializeHeader_injective` — **the bytes determine what is hashed**;
* `Node.computeHash_commits` — blocks with one hash agree in what is hashed;
* `Node.computeHash_uncommitted` — but not in their gas limits and transactions, nor in strings of
  four gigabytes.
-/

import MedorCoin.Cpp.BigEndian
import MedorCoin.Node.ProofOfWork

set_option autoImplicit false

namespace Node

open Cpp

/-! ### The header in the proof of work -/

namespace ProofOfWork

/-- `writeU32BE(buf, v)`. -/
def writeU32BE (buf : Str) (v : UInt32) : Str :=
  [3, 2, 1, 0].foldl (fun buf (i : UInt32) => buf ++ [((v >>> (i * 8)) &&& 0xFF).toUInt8]) buf

/-- `writeU64BE(buf, v)`. -/
def writeU64BE (buf : Str) (v : UInt64) : Str :=
  [7, 6, 5, 4, 3, 2, 1, 0].foldl
    (fun buf (i : UInt64) => buf ++ [((v >>> (i * 8)) &&& 0xFF).toUInt8]) buf

/-- `writeStr(buf, s)`. -/
def writeStr (buf s : Str) : Str := writeU32BE buf (UInt32.ofNat s.length) ++ s

/-- `ProofOfWork::serializeHeader(block)`. -/
def serializeHeader (b : Block) : Str :=
  let buf := writeStr [] b.previousHash
  let buf := writeStr buf b.data
  let buf := writeU32BE buf b.difficulty
  let buf := writeStr buf b.minerAddress
  let buf := writeU64BE buf b.timestamp
  let buf := writeU64BE buf b.nonce
  let buf := writeU64BE buf b.reward
  let buf := writeU64BE buf b.baseFee
  writeU64BE buf b.gasUsed

/-- The bytes before the nonce in `mineParallel`. -/
def preNonce (b : Block) : Str :=
  let buf := writeStr [] b.previousHash
  let buf := writeStr buf b.data
  let buf := writeU32BE buf b.difficulty
  let buf := writeStr buf b.minerAddress
  writeU64BE buf b.timestamp

/-- The bytes after the nonce in `mineParallel`. -/
def postNonce (b : Block) : Str :=
  let buf := writeU64BE [] b.reward
  let buf := writeU64BE buf b.baseFee
  writeU64BE buf b.gasUsed

/-- The buffer of a worker of `mineParallel` at a nonce. -/
def attempt (b : Block) (nonce : UInt64) : Str :=
  [7, 6, 5, 4, 3, 2, 1, 0].foldl
    (fun buf (i : UInt64) => buf ++ [((nonce >>> (i * 8)) &&& 0xFF).toUInt8]) (preNonce b) ++
      postNonce b

theorem writeU32BE_eq (buf : Str) (v : UInt32) : writeU32BE buf v = buf ++ Block.writeU32BE v := by
  simp [writeU32BE, Block.writeU32BE]

theorem writeU64BE_eq (buf : Str) (v : UInt64) : writeU64BE buf v = buf ++ Block.writeU64BE v := by
  simp [writeU64BE, Block.writeU64BE]

theorem writeStr_eq (buf s : Str) : writeStr buf s = buf ++ Block.writeStr s := by
  rw [writeStr, writeU32BE_eq, Block.writeStr, List.append_assoc]

/-- **The proof of work and the block** write the same header. -/
theorem serializeHeader_eq (b : Block) : serializeHeader b = b.serializeHeader := by
  simp only [serializeHeader, writeStr_eq, writeU32BE_eq, writeU64BE_eq, List.nil_append]
  rfl

/-- **The parallel search** puts the header together that the block has with the nonce. -/
theorem attempt_eq (b : Block) (nonce : UInt64) :
    attempt b nonce = serializeHeader { b with nonce } := by
  change writeU64BE (preNonce b) nonce ++ postNonce b = _
  simp only [serializeHeader, preNonce, postNonce, writeStr_eq, writeU32BE_eq, writeU64BE_eq,
    List.nil_append, List.append_assoc]

end ProofOfWork

/-! ### The bytes determine the fields -/

namespace Block

theorem toNat_byte32 (v : UInt32) {k : UInt32} (hk : k.toNat < 32) :
    ((v >>> k) &&& 0xFF).toUInt8 = UInt8.ofNat (v.toNat / 2 ^ k.toNat) := by
  have hmask : (0xFF : UInt32).toNat = 2 ^ 8 - 1 := rfl
  rw [← UInt8.toNat_inj, toNat_ofNat_byte, UInt32.toNat_toUInt8, UInt32.toNat_and, hmask,
    Nat.and_two_pow_sub_one_eq_mod, UInt32.toNat_shiftRight, Nat.mod_eq_of_lt hk,
    Nat.shiftRight_eq_div_pow, Nat.mod_mod]

theorem toNat_byte64 (v : UInt64) {k : UInt64} (hk : k.toNat < 64) :
    ((v >>> k) &&& 0xFF).toUInt8 = UInt8.ofNat (v.toNat / 2 ^ k.toNat) := by
  have hmask : (0xFF : UInt64).toNat = 2 ^ 8 - 1 := rfl
  rw [← UInt8.toNat_inj, toNat_ofNat_byte, UInt64.toNat_toUInt8, UInt64.toNat_and, hmask,
    Nat.and_two_pow_sub_one_eq_mod, UInt64.toNat_shiftRight, Nat.mod_eq_of_lt hk,
    Nat.shiftRight_eq_div_pow, Nat.mod_mod]

theorem writeU32BE_eq (v : UInt32) : writeU32BE v = writeBE 4 v.toNat := by
  simp only [writeU32BE, List.map_cons, List.map_nil]
  rw [toNat_byte32 v (by decide), toNat_byte32 v (by decide), toNat_byte32 v (by decide),
    toNat_byte32 v (by decide)]
  have hlast : v.toNat / 2 ^ (0 * 8 : UInt32).toNat = v.toNat := Nat.div_one _
  rw [hlast]
  simp only [writeBE, List.nil_append, List.cons_append, Nat.div_div_eq_div_mul]
  rfl

theorem writeU64BE_eq (v : UInt64) : writeU64BE v = writeBE 8 v.toNat := by
  simp only [writeU64BE, List.map_cons, List.map_nil]
  rw [toNat_byte64 v (by decide), toNat_byte64 v (by decide), toNat_byte64 v (by decide),
    toNat_byte64 v (by decide), toNat_byte64 v (by decide), toNat_byte64 v (by decide),
    toNat_byte64 v (by decide), toNat_byte64 v (by decide)]
  have hlast : v.toNat / 2 ^ (0 * 8 : UInt64).toNat = v.toNat := Nat.div_one _
  rw [hlast]
  simp only [writeBE, List.nil_append, List.cons_append, Nat.div_div_eq_div_mul]
  rfl

theorem length_writeU32BE (v : UInt32) : (writeU32BE v).length = 4 := by
  rw [writeU32BE_eq, length_writeBE]

theorem length_writeU64BE (v : UInt64) : (writeU64BE v).length = 8 := by
  rw [writeU64BE_eq, length_writeBE]

theorem writeU32BE_append_inj {v w : UInt32} {s t : Str}
    (h : writeU32BE v ++ s = writeU32BE w ++ t) : v = w ∧ s = t := by
  obtain ⟨hnumber, hrest⟩ := List.append_inj h (by rw [length_writeU32BE, length_writeU32BE])
  rw [writeU32BE_eq, writeU32BE_eq] at hnumber
  exact ⟨UInt32.toNat_inj.1 (writeBE_injective v.toNat_lt w.toNat_lt hnumber), hrest⟩

theorem writeU64BE_append_inj {v w : UInt64} {s t : Str}
    (h : writeU64BE v ++ s = writeU64BE w ++ t) : v = w ∧ s = t := by
  obtain ⟨hnumber, hrest⟩ := List.append_inj h (by rw [length_writeU64BE, length_writeU64BE])
  rw [writeU64BE_eq, writeU64BE_eq] at hnumber
  exact ⟨UInt64.toNat_inj.1 (writeBE_injective v.toNat_lt w.toNat_lt hnumber), hrest⟩

theorem writeStr_append_inj {p q s t : Str} (hp : p.length < 2 ^ 32) (hq : q.length < 2 ^ 32)
    (h : writeStr p ++ s = writeStr q ++ t) : p = q ∧ s = t := by
  rw [writeStr, writeStr, List.append_assoc, List.append_assoc] at h
  obtain ⟨hlength, h⟩ := writeU32BE_append_inj h
  have hnat := congrArg UInt32.toNat hlength
  rw [UInt32.toNat_ofNat_of_lt' hp, UInt32.toNat_ofNat_of_lt' hq] at hnat
  exact List.append_inj h hnat

/-- The lengths of the strings of the header fit into four bytes. -/
structure Sized (b : Block) : Prop where
  previousHash : b.previousHash.length < 2 ^ 32
  data : b.data.length < 2 ^ 32
  minerAddress : b.minerAddress.length < 2 ^ 32

/-- Two blocks agree in the fields of the header that are hashed. -/
structure HashedAlike (a b : Block) : Prop where
  previousHash : a.previousHash = b.previousHash
  data : a.data = b.data
  difficulty : a.difficulty = b.difficulty
  minerAddress : a.minerAddress = b.minerAddress
  timestamp : a.timestamp = b.timestamp
  nonce : a.nonce = b.nonce
  reward : a.reward = b.reward
  baseFee : a.baseFee = b.baseFee
  gasUsed : a.gasUsed = b.gasUsed

/-- **The bytes determine what is hashed.** -/
theorem serializeHeader_injective {a b : Block} (ha : a.Sized) (hb : b.Sized)
    (h : a.serializeHeader = b.serializeHeader) : HashedAlike a b := by
  simp only [serializeHeader, List.append_assoc] at h
  obtain ⟨hprevious, h⟩ := writeStr_append_inj ha.previousHash hb.previousHash h
  obtain ⟨hdata, h⟩ := writeStr_append_inj ha.data hb.data h
  obtain ⟨hdifficulty, h⟩ := writeU32BE_append_inj h
  obtain ⟨hminer, h⟩ := writeStr_append_inj ha.minerAddress hb.minerAddress h
  obtain ⟨htimestamp, h⟩ := writeU64BE_append_inj h
  obtain ⟨hnonce, h⟩ := writeU64BE_append_inj h
  obtain ⟨hreward, h⟩ := writeU64BE_append_inj h
  obtain ⟨hbaseFee, h⟩ := writeU64BE_append_inj h
  rw [← List.append_nil (writeU64BE a.gasUsed), ← List.append_nil (writeU64BE b.gasUsed)] at h
  obtain ⟨hgasUsed, -⟩ := writeU64BE_append_inj h
  exact ⟨hprevious, hdata, hdifficulty, hminer, htimestamp, hnonce, hreward, hbaseFee, hgasUsed⟩

end Block

/-! ### The commitment -/

/-- The hash tells two texts apart. -/
def CollisionFree (x y : Str) : Prop := Keccak.keccak256 x = Keccak.keccak256 y → x = y

/-- **What the hash of a block commits to**: where the hash has no collision, the fields of the
header that are hashed.  The three places that write the header agree. -/
theorem computeHash_commits :
    (∀ a b : Block, a.Sized → b.Sized → CollisionFree a.serializeHeader b.serializeHeader →
      ProofOfWork.computeHash a = ProofOfWork.computeHash b → a.HashedAlike b) ∧
    ∀ (b : Block) (nonce : UInt64),
      ProofOfWork.serializeHeader b = b.serializeHeader ∧
      ProofOfWork.attempt b nonce = ProofOfWork.serializeHeader { b with nonce } := by
  refine ⟨fun a b ha hb hfree h => ?_, fun b nonce => ?_⟩
  · exact Block.serializeHeader_injective ha hb (hfree (toHex_injective h))
  · exact ⟨ProofOfWork.serializeHeader_eq b, ProofOfWork.attempt_eq b nonce⟩

theorem computeHash_commits_transactions :
    Block.HashedAlike { timestamp := 9, transactions := [{}] } { timestamp := 9 } :=
  computeHash_commits.1 _ _ ⟨by decide, by decide, by decide⟩ ⟨by decide, by decide, by decide⟩
    (fun _ => rfl) rfl

/-- The gas limit and the transactions are not hashed, and a string of four gigabytes moves into the
next field. -/
theorem computeHash_uncommitted :
    (∃ a b : Block, ProofOfWork.computeHash a = ProofOfWork.computeHash b ∧
      a.gasLimit ≠ b.gasLimit ∧ a.transactions.length ≠ b.transactions.length) ∧
    ∃ a b : Block, ProofOfWork.computeHash a = ProofOfWork.computeHash b ∧
      a.previousHash ≠ b.previousHash ∧ a.data ≠ b.data := by
  have hnil : Block.writeStr [] = List.replicate 4 0 := by decide
  have hlong : Block.writeStr (List.replicate (2 ^ 32) 0) = List.replicate (4 + 2 ^ 32) 0 := by
    have hlength : Block.writeU32BE (UInt32.ofNat (2 ^ 32)) = List.replicate 4 0 := by decide
    rw [Block.writeStr, List.length_replicate, hlength, List.replicate_append_replicate]
  have hheader : Block.serializeHeader { previousHash := List.replicate (2 ^ 32) 0 } =
      Block.serializeHeader { data := List.replicate (2 ^ 32) 0 } := by
    have hsum : 4 + 2 ^ 32 + 4 = 4 + (4 + 2 ^ 32) := Nat.add_comm _ _
    simp only [Block.serializeHeader]
    rw [hnil, hlong, List.replicate_append_replicate, List.replicate_append_replicate, hsum]
  have hne : List.replicate (2 ^ 32) (0 : UInt8) ≠ [] := by
    rw [ne_eq, List.replicate_eq_nil_iff]
    exact Nat.two_pow_pos 32 |>.ne'
  refine ⟨⟨{ gasLimit := 1, transactions := [{}] }, { gasLimit := 2 }, rfl, by decide, by decide⟩,
    { previousHash := List.replicate (2 ^ 32) 0 }, { data := List.replicate (2 ^ 32) 0 },
    congrArg Keccak.hex hheader, hne, hne.symm⟩

end Node
