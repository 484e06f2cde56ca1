/-
**The file of peers, byte by byte.**

A file of peers is a header of 36 bytes and a record of 302 bytes for each peer, numbers with the
lowest byte first.  The header has the checksum of the records, and a file whose records have
another checksum is not loaded.  The checksum is not the one it is meant to be, so a file with a
changed byte can be loaded; it is rejected if neither the records that were saved nor those that are
loaded look up a wrong word.

`double` is a type that can be written in 64 bits.  The memory that a large file needs is not
modelled.

Main definitions:

* `Net.PeerFile.StoreHeader`, `writeHeader`, `readHeader` — the header;
* `Net.PeerFile.Bits`, `writeRecord`, `readRecord` — a record;
* `Net.PeerFile.savedHeader`, `savedPayload`, `loadPeers` — what is saved; loading.

Main results:

* `Net.PeerFile.readStore_append` — **what becomes of a header and its records**;
* `Net.PeerFile.loadPeers_saved` — a file that was saved is loaded as the records that were;
* `Net.PeerFile.peerStore_checksum` — **when the checksum is right, and what is then rejected**.
-/

import MedorCoin.Cpp.LittleEndian
import MedorCoin.Net.PeerStore
import MedorCoin.Net.PeerStoreChecksum

set_option autoImplicit false

namespace Net.PeerFile

open Cpp
open Net.PeerManager (Platform Config STORE_MAGIC STORE_VERSION toSave record loadRecord)
open Net.StoreChecksum (crc32 crcIeee LooksUpRight Burst)

/-! ### The header -/

/-- `struct StoreHeader`, up to the bytes that are reserved. -/
structure StoreHeader where
  magic : UInt32
  version : UInt32
  numPeers : UInt32
  timestamp : UInt64
  checksum : UInt32
  deriving DecidableEq

/-- `sizeof(StoreHeader)`. -/
def headerBytes : ℕ := 36

def writeHeader (hdr : StoreHeader) : Str :=
  leWrite 4 hdr.magic.toNat ++ leWrite 4 hdr.version.toNat ++ leWrite 4 hdr.numPeers.toNat ++
    leWrite 8 hdr.timestamp.toNat ++ leWrite 4 hdr.checksum.toNat ++ List.replicate 12 0

/-- The header of a file, if the file is long enough for one. -/
def readHeader (file : Str) : Option StoreHeader :=
  if file.length < headerBytes then none
  else
    some
      { magic := UInt32.ofNat (leRead (file.take 4))
        version := UInt32.ofNat (leRead ((file.drop 4).take 4))
        numPeers := UInt32.ofNat (leRead ((file.drop 8).take 4))
        timestamp := UInt64.ofNat (leRead ((file.drop 12).take 8))
        checksum := UInt32.ofNat (leRead ((file.drop 20).take 4)) }

@[simp] theorem length_writeHeader (hdr : StoreHeader) :
    (writeHeader hdr).length = headerBytes := by
  simp [writeHeader, headerBytes]

theorem readHeader_append (hdr : StoreHeader) (rest : Str) :
    readHeader (writeHeader hdr ++ rest) = some hdr := by
  rw [readHeader, if_neg (by simp)]
  simp [writeHeader, List.drop_append]

/-! ### The records -/

variable {D : Type}

/-- `double` in 64 bits. -/
structure Bits (D : Type) where
  toBits : D → UInt64
  ofBits : UInt64 → D

/-- `sizeof(StoredPeer)`. -/
def recordBytes : ℕ := 302

def boolByte (b : Bool) : UInt8 := if b then 1 else 0

/-- `addrLen` and `addr`. -/
def writeAddr (addr : Str) : Str :=
  UInt8.ofNat addr.length :: (addr ++ List.replicate (255 - addr.length) 0)

/-- The bytes of a record. -/
def writeRecord (F : Bits D) (rec : StoredPeer D) : Str :=
  writeAddr rec.addr ++ leWrite 2 rec.port.toNat ++ leWrite 8 (F.toBits rec.score).toNat ++
    leWrite 8 rec.connectedAt.toNat ++ leWrite 8 rec.lastSeen.toNat ++
    leWrite 8 rec.banExpiresAt.toNat ++ leWrite 4 rec.banCount.toNat ++
    leWrite 4 rec.decodeErrorCount.toNat ++
    [boolByte rec.isBanned, boolByte rec.handshakeDone, 0, 0]

/-- The record that bytes stand for. -/
def readRecord (F : Bits D) (p : Str) : StoredPeer D where
  addr := (p.drop 1).take (p.getD 0 0).toNat
  port := UInt16.ofNat (leRead ((p.drop 256).take 2))
  score := F.ofBits (UInt64.ofNat (leRead ((p.drop 258).take 8)))
  connectedAt := UInt64.ofNat (leRead ((p.drop 266).take 8))
  lastSeen := UInt64.ofNat (leRead ((p.drop 274).take 8))
  banExpiresAt := UInt64.ofNat (leRead ((p.drop 282).take 8))
  banCount := UInt32.ofNat (leRead ((p.drop 290).take 4))
  decodeErrorCount := UInt32.ofNat (leRead ((p.drop 294).take 4))
  isBanned := p.getD 298 0 ≠ 0
  handshakeDone := p.getD 299 0 ≠ 0

/-- The loop over the payload. -/
def readRecords (F : Bits D) : ℕ → Str → List (StoredPeer D)
  | 0, _ => []
  | n + 1, p =>
      if p.length < recordBytes then []
      else readRecord F (p.take recordBytes) :: readRecords F n (p.drop recordBytes)

/-! ### Saving and loading -/

def checksum (payload : Str) : UInt32 := if payload.isEmpty then 0 else crc32 payload

/-- The records that a save writes. -/
def savedPayload (F : Bits D) (P : Platform D) (cfg : Config) (m : PeerManager D) : Str :=
  (toSave P cfg m).flatMap fun e => writeRecord F (record e.2)

/-- The header that a save writes. -/
def savedHeader (F : Bits D) (P : Platform D) (cfg : Config) (m : PeerManager D) (now : UInt64) :
    StoreHeader where
  magic := STORE_MAGIC
  version := STORE_VERSION
  numPeers := UInt32.ofNat (toSave P cfg m).length
  timestamp := now
  checksum := checksum (savedPayload F P cfg m)

/-- `savePeers()`: the bytes of the file. -/
def savePeers (F : Bits D) (P : Platform D) (cfg : Config) (m : PeerManager D) (now : UInt64) :
    Str := writeHeader (savedHeader F P cfg m now) ++ savedPayload F P cfg m

/-- Why a file is not loaded. -/
inductive LoadError
  | badMagic
  | unsupportedVersion
  | crcMismatch
  deriving DecidableEq

/-- `loadPeers()`, up to the loop over the records.  What the file lacks is read as zeros. -/
def readStore (file : Str) : Except LoadError (StoreHeader × Str) :=
  match readHeader file with
  | none => .error .badMagic
  | some hdr =>
      if hdr.magic ≠ STORE_MAGIC then .error .badMagic
      else if hdr.version > STORE_VERSION then .error .unsupportedVersion
      else
        let paySize := hdr.numPeers.toNat * recordBytes
        let payload := (file.drop headerBytes ++ List.replicate paySize 0).take paySize
        if checksum payload ≠ hdr.checksum then .error .crcMismatch else .ok (hdr, payload)

/-- `loadPeers()`: the manager. -/
def loadPeers (F : Bits D) (P : Platform D) (cfg : Config) (m : PeerManager D) (now : UInt64)
    (file : Str) : PeerManager D :=
  match readStore file with
  | .error _ => m
  | .ok (hdr, payload) =>
      (readRecords F hdr.numPeers.toNat payload).foldl (loadRecord P cfg now) m

/-- **What becomes of a header and its records.** -/
theorem readStore_append {hdr : StoreHeader} {payload : Str} (hmagic : hdr.magic = STORE_MAGIC)
    (hversion : hdr.version ≤ STORE_VERSION)
    (hlength : payload.length = hdr.numPeers.toNat * recordBytes) :
    readStore (writeHeader hdr ++ payload) =
      if checksum payload ≠ hdr.checksum then .error .crcMismatch else .ok (hdr, payload) := by
  have hpayload : ((writeHeader hdr ++ payload).drop headerBytes ++
      List.replicate (hdr.numPeers.toNat * recordBytes) 0).take
        (hdr.numPeers.toNat * recordBytes) = payload := by
    rw [← length_writeHeader hdr, List.drop_left, ← hlength, List.take_left]
  unfold readStore
  rw [readHeader_append]
  simp only
  rw [if_neg (not_not.2 hmagic), if_neg (UInt32.not_lt.2 hversion), hpayload]

/-! ### What was saved -/

theorem length_writeAddr {addr : Str} (h : addr.length ≤ 254) : (writeAddr addr).length = 256 := by
  rw [writeAddr, List.length_cons, List.length_append, List.length_replicate]
  omega

theorem length_writeRecord (F : Bits D) {rec : StoredPeer D} (h : rec.addr.length ≤ 254) :
    (writeRecord F rec).length = recordBytes := by
  simp [writeRecord, length_writeAddr h, recordBytes]

theorem readRecord_writeRecord {F : Bits D} (hF : ∀ x, F.ofBits (F.toBits x) = x)
    {rec : StoredPeer D} (h : rec.addr.length ≤ 254) : readRecord F (writeRecord F rec) = rec := by
  have hlength := length_writeAddr h
  have hbool : ∀ b, decide (boolByte b ≠ 0) = b := by decide
  have hdrop {k : ℕ} (hk : 256 ≤ k) : (writeAddr rec.addr).drop k = [] :=
    List.drop_of_length_le (hlength.trans_le hk)
  have haddr : ((writeRecord F rec).drop 1).take ((writeRecord F rec).getD 0 0).toNat =
      rec.addr := by
    have hbyte : (UInt8.ofNat rec.addr.length).toNat = rec.addr.length := by
      rw [UInt8.toNat_ofNat', Nat.mod_eq_of_lt (by omega)]
    simp [writeRecord, writeAddr, hbyte]
  have hflags : (writeRecord F rec).getD 298 0 = boolByte rec.isBanned ∧
      (writeRecord F rec).getD 299 0 = boolByte rec.handshakeDone := by
    simp [writeRecord, List.getD_eq_getElem?_getD, hlength]
  rw [readRecord, haddr, hflags.1, hflags.2, hbool, hbool]
  simp [writeRecord, List.drop_append, hlength, hdrop, hF]

theorem readRecords_flatMap {F : Bits D} (hF : ∀ x, F.ofBits (F.toBits x) = x)
    {recs : List (StoredPeer D)} (h : ∀ rec ∈ recs, rec.addr.length ≤ 254) :
    readRecords F recs.length (recs.flatMap (writeRecord F)) = recs := by
  induction recs with
  | nil => rfl
  | cons rec recs ih =>
      have hrec := h rec List.mem_cons_self
      have hlength := length_writeRecord F hrec
      rw [List.flatMap_cons, List.length_cons, readRecords,
        if_neg (by rw [List.length_append, hlength]; omega), ← hlength, List.take_left,
        List.drop_left, readRecord_writeRecord hF hrec,
        ih fun rec' hmem => h rec' (List.mem_cons_of_mem _ hmem)]

theorem length_record_addr (peer : PeerInfo D) : (record peer).addr.length ≤ 254 := by
  change (peer.address.take 254).length ≤ 254
  exact (List.length_take_le _ _)

variable {F : Bits D} {P : Platform D} {cfg : Config} {m : PeerManager D}

theorem savedPayload_eq (F : Bits D) (P : Platform D) (cfg : Config) (m : PeerManager D) :
    savedPayload F P cfg m =
      ((toSave P cfg m).map fun e => record e.2).flatMap (writeRecord F) := by
  rw [savedPayload, List.flatMap_map]

theorem length_savedPayload (F : Bits D) (P : Platform D) (cfg : Config) (m : PeerManager D) :
    (savedPayload F P cfg m).length = (toSave P cfg m).length * recordBytes := by
  rw [savedPayload]
  induction toSave P cfg m with
  | nil => simp
  | cons e l ih =>
      rw [List.flatMap_cons, List.length_append, ih, length_writeRecord F (length_record_addr _),
        List.length_cons]
      ring

theorem readStore_savedHeader (hcount : (toSave P cfg m).length < 2 ^ 32) (now : UInt64)
    {payload : Str} (hlength : payload.length = (savedPayload F P cfg m).length) :
    readStore (writeHeader (savedHeader F P cfg m now) ++ payload) =
      if checksum payload ≠ checksum (savedPayload F P cfg m) then .error .crcMismatch
      else .ok (savedHeader F P cfg m now, payload) := by
  have hversion : (savedHeader F P cfg m now).version = STORE_VERSION := rfl
  have hchecksum : (savedHeader F P cfg m now).checksum = checksum (savedPayload F P cfg m) := rfl
  rw [← hchecksum]
  refine readStore_append rfl (UInt32.le_of_eq hversion) ?_
  rw [hlength, length_savedPayload, savedHeader, UInt32.toNat_ofNat', Nat.mod_eq_of_lt hcount]

/-- **A file that was saved is loaded as the records that were**, if there are not too many. -/
theorem loadPeers_saved (hF : ∀ x, F.ofBits (F.toBits x) = x)
    (hcount : (toSave P cfg m).length < 2 ^ 32) (cfg' : Config) (m' : PeerManager D)
    (saved now : UInt64) :
    loadPeers F P cfg' m' now (savePeers F P cfg m saved) =
      ((toSave P cfg m).map fun e => record e.2).foldl (loadRecord P cfg' now) m' := by
  have hnum : (savedHeader F P cfg m saved).numPeers.toNat =
      ((toSave P cfg m).map fun e => record e.2).length := by
    rw [savedHeader, UInt32.toNat_ofNat', Nat.mod_eq_of_lt hcount, List.length_map]
  have hread : readRecords F (savedHeader F P cfg m saved).numPeers.toNat (savedPayload F P cfg m) =
      (toSave P cfg m).map fun e => record e.2 := by
    rw [hnum, savedPayload_eq]
    refine readRecords_flatMap hF fun rec hrec => ?_
    obtain ⟨e, -, rfl⟩ := List.mem_map.1 hrec
    exact length_record_addr e.2
  unfold loadPeers
  rw [savePeers, readStore_savedHeader hcount saved rfl, if_neg (not_not.2 rfl)]
  simp only
  rw [hread]

def wordBits : Bits UInt64 where
  toBits x := x
  ofBits v := v

def wordPlatform : Platform UInt64 where
  double := ⟨fun x y => x + y, fun x y => x < y, fun x y => x ≤ y, 0, 10, 100⟩
  crc32 payload := UInt32.ofNat payload.length
  order := id
  order_perm _ := .refl _

def wordManager : PeerManager UInt64 :=
  (PeerManager.addPeer {} {}
    { id := str "10.0.0.7:8333"
      address := str "10.0.0.7"
      port := 8333
      score := (100 : UInt64) }).2

theorem loadPeers_saved_wordManager :
    loadPeers wordBits wordPlatform {} {} 9 (savePeers wordBits wordPlatform {} wordManager 5) =
      ((toSave wordPlatform {} wordManager).map fun e => record e.2).foldl
        (loadRecord wordPlatform {} 9) {} :=
  loadPeers_saved (fun _ => rfl) (by decide +kernel) {} {} 5 9

/-! ### When the checksum is right -/

/-- **When the checksum is right, and what is then rejected**: a string and its beginnings have the
checksum of the polynomial exactly if no wrong word is looked up; and a file in which the records of
a save are changed within 32 bits is not loaded, if neither those that were saved nor those that
are in the file look one up. -/
theorem peerStore_checksum (F : Bits D) (P : Platform D) (cfg : Config) (m : PeerManager D)
    (saved : UInt64) (data : Str) :
    ((∀ p, p <+: data → crc32 p = crcIeee p) ↔ LooksUpRight data) ∧
    ((toSave P cfg m).length < 2 ^ 32 → LooksUpRight (savedPayload F P cfg m) →
      ∀ payload, Burst (savedPayload F P cfg m) payload → LooksUpRight payload →
      readStore (writeHeader (savedHeader F P cfg m saved) ++ payload) = .error .crcMismatch ∧
      ∀ cfg' m' now, loadPeers F P cfg' m' now
        (writeHeader (savedHeader F P cfg m saved) ++ payload) = m') := by
  refine ⟨StoreChecksum.crc32_eq_crcIeee_iff data, fun hcount hsaved payload hburst hpayload => ?_⟩
  have hne := StoreChecksum.crcIeee_ne_of_burst hburst
  rw [← hsaved.crc32_eq, ← hpayload.crc32_eq] at hne
  -- neither of the two is empty, since they differ and have one length
  have hnonempty {p q : Str} (h : p ≠ q) (hlength : p.length = q.length) : p.isEmpty = false := by
    rw [List.isEmpty_eq_false_iff]
    rintro rfl
    exact h (List.length_eq_zero_iff.1 hlength.symm).symm
  have hchecksum : checksum payload ≠ checksum (savedPayload F P cfg m) := by
    rw [checksum, checksum, hnonempty hburst.1 hburst.2.1, hnonempty hburst.1.symm hburst.2.1.symm]
    exact hne.symm
  have hread : readStore (writeHeader (savedHeader F P cfg m saved) ++ payload) =
      .error .crcMismatch := by
    rw [readStore_savedHeader hcount saved hburst.2.1.symm, if_pos hchecksum]
  refine ⟨hread, fun cfg' m' now => ?_⟩
  rw [loadPeers, hread]

/-! ### A byte that is changed -/

def sampleBits : Bits ℤ where
  toBits x := UInt64.ofNat x.toNat
  ofBits v := v.toNat

def sampleManager (peer : PeerInfo ℤ) : PeerManager ℤ :=
  (PeerManager.addPeer {} {} peer).2

def samplePayload (peer : PeerInfo ℤ) : Str :=
  savedPayload sampleBits PeerManager.samplePlatform {} (sampleManager peer)

/-- The records of one peer, with another last byte. -/
def changedPayload (peer : PeerInfo ℤ) (b : UInt8) : Str := (samplePayload peer).dropLast ++ [b]

theorem burst_changedPayload {peer : PeerInfo ℤ} {a b : UInt8} (h : a ≠ b)
    (hlast : samplePayload peer = changedPayload peer a) :
    Burst (samplePayload peer) (changedPayload peer b) := by
  rw [hlast]
  exact StoreChecksum.burst_set (samplePayload peer).dropLast [] h

/-- A byte has another checksum, and a file is loaded whose last byte was changed. -/
theorem not_rejected :
    (¬ ∀ data, crc32 data = crcIeee data) ∧
    ¬ ∀ (F : Bits ℤ) (P : Platform ℤ) (cfg : Config) (m : PeerManager ℤ) (saved : UInt64)
      (payload : Str), Burst (savedPayload F P cfg m) payload → ∀ cfg' m' now,
        loadPeers F P cfg' m' now (writeHeader (savedHeader F P cfg m saved) ++ payload) = m' := by
  refine ⟨fun h => absurd (h [0]) (by decide +kernel), fun h => ?_⟩
  have hlast : samplePayload PeerManager.samplePeer = changedPayload PeerManager.samplePeer 0 := by
    decide +kernel
  have hload := h sampleBits PeerManager.samplePlatform {} (sampleManager PeerManager.samplePeer) 0
    (changedPayload PeerManager.samplePeer 255) (burst_changedPayload (by decide) hlast) {} {} 0
  have hkeys : (loadPeers sampleBits PeerManager.samplePlatform {} {} 0
      (writeHeader (savedHeader sampleBits PeerManager.samplePlatform {}
        (sampleManager PeerManager.samplePeer) 0) ++
        changedPayload PeerManager.samplePeer 255)).peers.keys = [str "10.0.0.7:8333"] := by
    decide +kernel
  rw [hload] at hkeys
  cases hkeys

/-- An address after whose first bytes the register is zero. -/
def rightPeer : PeerInfo ℤ where
  id := [1]
  address := [60, 16, 159, 223] ++ List.replicate 79 0
  port := 0
  score := 0

theorem peerStore_checksum_rightPeer :
    readStore (writeHeader (savedHeader sampleBits PeerManager.samplePlatform {}
      (sampleManager rightPeer) 0) ++ changedPayload rightPeer 1) = .error .crcMismatch := by
  have hlast : samplePayload rightPeer = changedPayload rightPeer 0 := by decide +kernel
  obtain ⟨-, hreject⟩ := peerStore_checksum sampleBits PeerManager.samplePlatform {}
    (sampleManager rightPeer) 0 []
  exact (hreject (by decide +kernel) (by decide +kernel) (changedPayload rightPeer 1)
    (burst_changedPayload (by decide) hlast) (by decide +kernel)).1

end Net.PeerFile
