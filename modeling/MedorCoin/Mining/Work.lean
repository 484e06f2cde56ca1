/-
**Mining a block.**

A worker gets the hash of the previous block, the difficulty in compact form, the height and the
mempool.  It makes a coinbase, computes the Merkle root, lays out the header in a buffer of 80 bytes
and tries one nonce after the other, each written in eight bytes at offset 76, until the double
SHA-256 of the header is within the target, the nonces are used up or the signal is aborted.

Main definitions:

* `Mining.bitsToTarget`, `Mining.createCoinbase`, `Mining.search`, `Mining.mineWork` — the search;
* `Mining.Verifies` — a block whose header can be hashed again;
* `Mining.MinesValid` — what the search is for.

Main results:

* `Mining.exists_createCoinbase` — a coinbase can always be made;
* `Mining.search_error` — **no nonce can be written**, as the buffer ends at 80;
* `Mining.mineWork_eq_ok` — what has been done when the search returns;
* `Mining.minesValid_iff` — when the search does what it is for;
  `Mining.not_minesValid_first` — that it throws at the first nonce.
-/

import MedorCoin.Mining.Commitment

set_option autoImplicit false

namespace Mining

open Js
open Merkle (UInt256 doubleSHA256)

/-! ### Work and blocks -/

/-- A transaction with its hash. -/
structure HashedTx where
  tx : Tx
  hash : Str

structure WorkLoad where
  previousHash : Str
  difficulty : UInt32
  minerAddress : Str
  height : ℕ
  mempool : List HashedTx

/-- The header of a block.  The nonce is written as its decimal numeral. -/
structure BlockHeader where
  version : ℕ
  prevHash : Str
  merkleRoot : Str
  timestamp : ℕ
  nBits : UInt32
  nonce : ℕ

structure Block where
  header : BlockHeader
  transactions : List HashedTx
  hash : Str
  minerAddress : Str

/-- What a search depends on besides its work: how texts are ordered, the clock in milliseconds,
read for the coinbase and for the header, and whether the signal is aborted when so many nonces have
been tried. -/
structure Environment where
  localeCompare : Str → Str → Ordering
  coinbaseTime : ℕ
  headerTime : ℕ
  aborted : ℕ → Bool

/-! ### The search -/

def INITIAL_REWARD : ℕ := 5000000000

def HALVING_INTERVAL : ℕ := 210000

def MAX_NONCE : ℕ := 0xFFFFFFFFFFFFFFFF

/-- `(bits >> 24) & 0xff` -/
def exponent (bits : UInt32) : ℕ := (bits >>> 24 &&& 0xff).toNat

/-- `_bitsToTarget(bits)`.  `2n ** x` throws where `x` is negative. -/
def bitsToTarget (bits : UInt32) : Except Error ℕ :=
  let mant := (bits &&& 0xffffff).toNat
  if exponent bits < 3 then .error (.rangeError "Exponent must be non-negative")
  else .ok (mant * 2 ^ (8 * (exponent bits - 3)))

/-- `_calculateSubsidy(height)` -/
def calculateSubsidy (height : ℕ) : ℕ :=
  let shifts := height / HALVING_INTERVAL
  if 64 ≤ shifts then 0 else INITIAL_REWARD >>> shifts

section Search

variable (sha256 : Bytes → UInt256)

/-- The coinbase without its hash. -/
def coinbaseTx (val height : ℕ) (minerAddress : Str) (now : ℕ) : Tx where
  version := some 1
  inputs := [{
    txid := List.replicate 64 '0'
    vout := 0xffffffff
    scriptSig := "MedorNode:".toList ++ numeral height ++ ':' :: numeral now }]
  outputs := [{ address := minerAddress, value := .str (numeral val) }]
  locktime := some 0

/-- `_createCoinbase(val, height, minerAddress)` -/
def createCoinbase (val height : ℕ) (minerAddress : Str) (now : ℕ) : Except Error HashedTx := do
  let tx := coinbaseTx val height minerAddress now
  let hash ← hashBinary sha256 tx
  return { tx := tx, hash := hash }

/-- The loop over the nonces: the nonce, the header and the hash that are found. -/
def search (aborted : ℕ → Bool) (target : ℕ) (header : Bytes) (nonce : ℕ) :
    Except Error (Option (ℕ × Bytes × UInt256)) :=
  if aborted nonce then .ok none
  else if MAX_NONCE < nonce + 1 then .ok none
  else
    match writeBigUInt64LE header (nonce + 1 : ℕ) 76 with
    | .error e => .error e
    | .ok header =>
        let hash := doubleSHA256 sha256 header
        if hexValue (bufferToHex hash.toList.reverse) ≤ target then
          .ok (some (nonce + 1, header, hash))
        else search aborted target header (nonce + 1)
termination_by MAX_NONCE - nonce

/-- The header before a nonce is written. -/
def layOut (previousHash merkleRootHex : Str) (now : ℕ) (difficulty : UInt32) :
    Except Error Bytes := do
  let header := bufferAlloc 80
  let header ← writeUInt32LE header 1 0
  let header := bufferCopy (bufferFromHex previousHash) header 4
  let header := bufferCopy (bufferFromHex merkleRootHex) header 36
  let header ← writeUInt32LE header (now / 1000 : ℕ) 68
  writeUInt32LE header difficulty.toNat 72

/-- `_mineWork(work, signal)` -/
def mineWork (env : Environment) (work : WorkLoad) : Except Error (Option Block) := do
  let target ← bitsToTarget work.difficulty
  let coinbase ← createCoinbase sha256 (calculateSubsidy work.height) work.height
    work.minerAddress env.coinbaseTime
  let allTxs := coinbase ::
    work.mempool.mergeSort fun a b => env.localeCompare a.hash b.hash != .gt
  let merkleRootHex := Merkle.Miner.calculateMerkleRoot sha256
    (allTxs.map fun tx => Merkle.Miner.Tx.mk tx.hash)
  let header ← layOut work.previousHash merkleRootHex env.headerTime work.difficulty
  match ← search sha256 env.aborted target header 0 with
  | none => return none
  | some (nonce, header, hash) =>
      return some {
        header := {
          version := 1
          prevHash := work.previousHash
          merkleRoot := merkleRootHex
          timestamp := Cpp.leRead ((header.drop 68).take 4)
          nBits := work.difficulty
          nonce := nonce }
        transactions := allTxs
        hash := bufferToHex hash.toList.reverse
        minerAddress := work.minerAddress }

/-! ### What the search is for -/

/-- The bytes of a header, with a nonce of 64 bits. -/
def BlockHeader.serialize (header : BlockHeader) : Bytes :=
  Cpp.leWrite 4 header.version ++ bufferFromHex header.prevHash ++
    bufferFromHex header.merkleRoot ++ Cpp.leWrite 4 header.timestamp ++
      Cpp.leWrite 4 header.nBits.toNat ++ Cpp.leWrite 8 header.nonce

/-- **The hash of a block is that of its header,** and is within the target. -/
def Verifies (block : Block) : Prop :=
  block.hash = bufferToHex (doubleSHA256 sha256 block.header.serialize).toList.reverse ∧
    ∃ target, bitsToTarget block.header.nBits = .ok target ∧ hexValue block.hash ≤ target

/-- **The search is sound:** it does not throw, and a block that it returns can be verified. -/
def MinesValid (env : Environment) (work : WorkLoad) : Prop :=
  ∃ found, mineWork sha256 env work = .ok found ∧ ∀ block ∈ found, Verifies sha256 block

/-! ### What the search does -/

theorem calculateSubsidy_le (height : ℕ) : calculateSubsidy height ≤ INITIAL_REWARD := by
  simp only [calculateSubsidy]
  split
  · exact Nat.zero_le _
  · exact Nat.shiftRight_le _ _

theorem exists_createCoinbase (height : ℕ) (minerAddress : Str) (now : ℕ) :
    ∃ coinbase,
      createCoinbase sha256 (calculateSubsidy height) height minerAddress now = .ok coinbase := by
  have hless : (calculateSubsidy height : ℤ) < 256 ^ 8 := by
    have hle := calculateSubsidy_le height
    have hreward : INITIAL_REWARD = 5000000000 := rfl
    omega
  obtain ⟨header, hheader⟩ : ∃ header,
      (coinbaseTx (calculateSubsidy height) height minerAddress now).header = .ok header :=
    ⟨_, rfl⟩
  obtain ⟨inputs, hinputs⟩ : ∃ inputs,
      (coinbaseTx (calculateSubsidy height) height minerAddress now).inputs.mapM Input.raw =
        .ok inputs := ⟨_, rfl⟩
  have hvalue : Json.toBigInt (some (.str (numeral (calculateSubsidy height)))) =
      .ok (calculateSubsidy height : ℤ) :=
    Json.toBigInt_eq_ok.2 (bigInt?_numeral _)
  have houtput : Output.raw ⟨minerAddress, .str (numeral (calculateSubsidy height))⟩ =
      .ok (overwrite (bufferAlloc 8) 0 (Cpp.leWrite 8 (calculateSubsidy height))) := by
    rw [Output.raw, hvalue]
    exact writeLE_eq_ok.2 ⟨Int.natCast_nonneg _, hless, by simp, rfl⟩
  have houtputs : (coinbaseTx (calculateSubsidy height) height minerAddress now).outputs.mapM
      Output.raw = .ok [overwrite (bufferAlloc 8) 0 (Cpp.leWrite 8 (calculateSubsidy height))] := by
    rw [coinbaseTx, List.mapM_cons, houtput]
    rfl
  rw [createCoinbase, hashBinary, Tx.raw, hheader, ok_bind, hinputs, ok_bind, houtputs]
  exact ⟨_, rfl⟩

theorem exists_layOut_eq (previousHash merkleRootHex : Str) (now : ℕ) (difficulty : UInt32) :
    ∃ header : Bytes, header.length = 80 ∧
      layOut previousHash merkleRootHex now difficulty = (do
        let header ← writeUInt32LE header (now / 1000 : ℕ) 68
        writeUInt32LE header difficulty.toNat 72) := by
  obtain ⟨header, hheader⟩ : ∃ header, writeUInt32LE (bufferAlloc 80) 1 0 = .ok header :=
    ⟨_, rfl⟩
  have hlength : header.length = 80 := length_writeLE hheader
  refine ⟨bufferCopy (bufferFromHex merkleRootHex)
    (bufferCopy (bufferFromHex previousHash) header 4) 36, ?_, ?_⟩
  · rw [length_bufferCopy, length_bufferCopy, hlength]
    · omega
    · rw [length_bufferCopy] <;> omega
  · rw [layOut, hheader]
    rfl

theorem exists_layOut (previousHash merkleRootHex : Str) {now : ℕ} (difficulty : UInt32)
    (h : now / 1000 < 2 ^ 32) :
    ∃ header, layOut previousHash merkleRootHex now difficulty = .ok header ∧
      header.length = 80 := by
  obtain ⟨header, hlength, heq⟩ := exists_layOut_eq previousHash merkleRootHex now difficulty
  have htime : writeUInt32LE header (now / 1000 : ℕ) 68 =
      .ok (overwrite header 68 (Cpp.leWrite 4 (now / 1000))) :=
    writeLE_eq_ok.2 ⟨by omega, by omega, by omega, rfl⟩
  have hlength' := length_writeLE htime
  have hbits : writeUInt32LE (overwrite header 68 (Cpp.leWrite 4 (now / 1000)))
      difficulty.toNat 72 = .ok (overwrite (overwrite header 68 (Cpp.leWrite 4 (now / 1000))) 72
        (Cpp.leWrite 4 difficulty.toNat)) :=
    writeLE_eq_ok.2 ⟨by omega, by have := difficulty.toNat_lt; omega, by omega, rfl⟩
  have hlength'' := length_writeLE hbits
  exact ⟨_, by rw [heq, htime, ok_bind, hbits], by omega⟩

theorem layOut_ne_ok (previousHash merkleRootHex : Str) {now : ℕ} (difficulty : UInt32)
    (h : 2 ^ 32 ≤ now / 1000) (header : Bytes) :
    layOut previousHash merkleRootHex now difficulty ≠ .ok header := by
  obtain ⟨header', -, heq⟩ := exists_layOut_eq previousHash merkleRootHex now difficulty
  intro hok
  rw [heq] at hok
  obtain ⟨header'', htime, -⟩ := bind_eq_ok.1 hok
  obtain ⟨-, hlt, -⟩ := writeLE_eq_ok.1 htime
  omega

/-- **No nonce can be written:** the buffer ends before the eight bytes at 76. -/
theorem search_error {aborted : ℕ → Bool} {header : Bytes} (target : ℕ)
    (hheader : header.length = 80) (h : aborted 0 = false)
    (found : Option (ℕ × Bytes × UInt256)) :
    search sha256 aborted target header 0 ≠ .ok found := by
  rw [search, h, if_neg (by simp), if_neg (by decide)]
  split
  · nofun
  · next header' hwrite =>
      exact absurd hwrite (writeLE_of_length_lt (by omega) header')

theorem search_aborted {aborted : ℕ → Bool} (target : ℕ) (header : Bytes) (h : aborted 0 = true) :
    search sha256 aborted target header 0 = .ok none := by
  rw [search, if_pos h]

/-- **What has been done when the search returns:** the target is defined, the time fits, and the
loop has returned. -/
theorem mineWork_eq_ok {env : Environment} {work : WorkLoad} {found : Option Block}
    (h : mineWork sha256 env work = .ok found) :
    3 ≤ exponent work.difficulty ∧ env.headerTime / 1000 < 2 ^ 32 ∧
      ∃ target header found', header.length = 80 ∧
        search sha256 env.aborted target header 0 = .ok found' := by
  obtain ⟨target, htarget, h⟩ := bind_eq_ok.1 h
  obtain ⟨coinbase, -, h⟩ := bind_eq_ok.1 h
  obtain ⟨header, hheader, h⟩ := bind_eq_ok.1 h
  obtain ⟨found', hsearch, -⟩ := bind_eq_ok.1 h
  have hexponent : 3 ≤ exponent work.difficulty := by
    by_contra hless
    rw [bitsToTarget, if_pos (by omega)] at htarget
    cases htarget
  have htime : env.headerTime / 1000 < 2 ^ 32 := by
    by_contra hle
    exact layOut_ne_ok _ _ _ (by omega) header hheader
  obtain ⟨header', hheader', hlength⟩ := exists_layOut work.previousHash _ work.difficulty htime
  rw [hheader', Except.ok.injEq] at hheader
  exact ⟨hexponent, htime, target, header, found', hheader ▸ hlength, hsearch⟩

theorem mineWork_of_aborted {env : Environment} {work : WorkLoad}
    (hexponent : 3 ≤ exponent work.difficulty) (htime : env.headerTime / 1000 < 2 ^ 32)
    (haborted : env.aborted 0 = true) : mineWork sha256 env work = .ok none := by
  obtain ⟨coinbase, hcoinbase⟩ := exists_createCoinbase sha256 work.height work.minerAddress
    env.coinbaseTime
  have htarget : bitsToTarget work.difficulty = .ok
      ((work.difficulty &&& 0xffffff).toNat * 2 ^ (8 * (exponent work.difficulty - 3))) :=
    if_neg (by omega)
  obtain ⟨header, hheader, -⟩ := exists_layOut work.previousHash
    (Merkle.Miner.calculateMerkleRoot sha256 ((coinbase :: work.mempool.mergeSort fun a b =>
      env.localeCompare a.hash b.hash != .gt).map fun tx => Merkle.Miner.Tx.mk tx.hash))
    work.difficulty htime
  simp only [mineWork, htarget, hcoinbase, hheader, ok_bind,
    search_aborted sha256 _ header haborted]
  rfl

/-- **A search that is not aborted before it begins throws.** -/
theorem mineWork_ne_ok {env : Environment} {work : WorkLoad} (h : env.aborted 0 = false)
    (found : Option Block) : mineWork sha256 env work ≠ .ok found := by
  intro hok
  obtain ⟨-, -, target, header, found', hlength, hsearch⟩ := mineWork_eq_ok sha256 hok
  exact search_error sha256 target hlength h found' hsearch

/-- **When the search does what it is for:** only if it is aborted before it begins, and then if the
target is defined and the time fits. -/
theorem minesValid_iff (env : Environment) (work : WorkLoad) :
    MinesValid sha256 env work ↔
      3 ≤ exponent work.difficulty ∧ env.headerTime / 1000 < 2 ^ 32 ∧ env.aborted 0 = true := by
  constructor
  · rintro ⟨found, hfound, -⟩
    obtain ⟨hexponent, htime, -⟩ := mineWork_eq_ok sha256 hfound
    refine ⟨hexponent, htime, ?_⟩
    by_contra haborted
    exact mineWork_ne_ok sha256 (Bool.eq_false_iff.2 haborted) found hfound
  · rintro ⟨hexponent, htime, haborted⟩
    exact ⟨none, mineWork_of_aborted sha256 hexponent htime haborted, fun _ h => nomatch h⟩

end Search

/-- The first block at the difficulty of the genesis: the search throws at its first nonce. -/
theorem not_minesValid_first :
    ¬ MinesValid Net.sha256Digest ⟨fun _ _ => .eq, 1700000000000, 1700000000000, fun _ => false⟩
      ⟨List.replicate 64 '0', 0x1d00ffff, "miner".toList, 0, []⟩ := by
  rintro ⟨found, hfound, -⟩
  exact mineWork_ne_ok Net.sha256Digest rfl found hfound

end Mining
