/-
**The queue of the sends that failed, across restarts.**

A message that could not be sent goes into a queue.  When the network stops, it writes the queue
into a file, behind a checksum; when it starts again, it reads the file and tries once more.  The
file is written in place, so that a crash may leave any part of it, from its beginning on.  The
reader bounds every length that it reads instead of refusing it, and stops where the bytes end.

The log, and the metric of the recovered sends, are left out.  A type of a message is the byte that
it is cast from and to.

Main definitions:

* `Network.savePendingQueue`, `Network.loadPendingQueue` — the file, and what is read from it;
* `Network.Pending.step` — failed sends, stops, starts and crashes.

Main results:

* `Network.Pending.readEntries_take` — a part of the entries is read up to the first that is cut;
* `Network.load_savePendingQueue_iff` — **when the queue comes back**;
* `Network.Pending.recovered_run` — **what a start recovers**, in every run.
-/

import MedorCoin.Codec.Canonical
import MedorCoin.Net.Broadcast
import MedorCoin.Network.Sha256
import MedorCoin.Transition.Run

set_option autoImplicit false

namespace Network

open Cpp
open Codec hiding maxFrameBytes encodeEntry
open Net.Broadcast (maxFrameBytes)

/-- `struct PendingEntry`. -/
structure PendingEntry where
  address : Str
  port : UInt16
  type : UInt8
  payload : Str

namespace Pending

/-! ### The source -/

/-- `writeU32(v)` of a size. -/
def writeU32 (n : ℕ) : List UInt8 := beWrite32 (UInt32.ofNat n)

/-- An entry in the file. -/
def encodeEntry (e : PendingEntry) : Str :=
  writeU32 e.address.length ++ (e.address ++
    ([(e.port >>> 8).toUInt8, e.port.toUInt8, e.type] ++
      (writeU32 e.payload.length ++ e.payload)))

/-- `body`. -/
def encodeBody (entries : List PendingEntry) : Str :=
  writeU32 entries.length ++ entries.flatMap encodeEntry

/-- The port and the type of an entry, from three bytes. -/
def portOf (p : List UInt8) : UInt16 := ((p.getD 0 0).toUInt16 <<< 8) ||| (p.getD 1 0).toUInt16

/-- An entry of the file: a `break` and a throw of `readU32` both end the loop. -/
def readEntry : Reader PendingEntry := do
  let addrLen ← readLength
  let address ← readBytes (min addrLen 256)
  let p ← readBytes 3
  let payLen ← readLength
  let payload ← readBytes (min payLen maxFrameBytes)
  pure { address, port := portOf p, type := p.getD 2 0, payload }

/-- `for (uint32_t i = 0; i < count; i++)`. -/
def readEntries : ℕ → List UInt8 → List PendingEntry
  | 0, _ => []
  | n + 1, body =>
      match readEntry.run body with
      | none => []
      | some (e, rest) => e :: readEntries n rest

/-- What is read from the body of a file. -/
def decodeBody (body : Str) : List PendingEntry :=
  match readLength.run body with
  | none => []
  | some (count, rest) => readEntries (min count 100000) rest

end Pending

open Pending

/-- `savePendingQueue(path, entries, verifyChecksum)`: what the file is to hold. -/
def savePendingQueue (entries : List PendingEntry) (verifyChecksum : Bool) : Str :=
  (if verifyChecksum then sha256hex (encodeBody entries) else List.replicate 64 48) ++
    encodeBody entries

/-- `loadPendingQueue(path, verifyChecksum)`, of a file if there is one. -/
def loadPendingQueue (file : Option Str) (verifyChecksum : Bool) : List PendingEntry :=
  match file with
  | none => []
  | some f =>
      -- `cksum` is zero where the file is shorter
      let cksum := f.take 64 ++ List.replicate (64 - f.length) 0
      let body := f.drop 64
      if verifyChecksum ∧ sha256hex body ≠ cksum then [] else decodeBody body

namespace Pending

/-! ### Readers and the bytes behind -/

/-- A reader does not look at what it does not take. -/
def Steady {α : Type} (x : Reader α) : Prop :=
  ∀ s a t rest, x.run s = some (a, t) → x.run (s ++ rest) = some (a, t ++ rest)

section

variable {α β : Type} {x : Reader α} {k : α → Reader β} {a : α} {p : List UInt8}

theorem steady_pure (a : α) : Steady (pure a) := by
  intro s b t rest h
  obtain ⟨rfl, rfl⟩ := run_pure_eq_some_iff.1 h
  rfl

theorem Steady.bind (hx : Steady x) (hk : ∀ a, Steady (k a)) : Steady (x >>= k) := by
  intro s b t rest h
  obtain ⟨a, u, hu, ht⟩ := run_bind_eq_some_iff.1 h
  exact run_bind_eq_some_iff.2 ⟨a, u ++ rest, hx s a u rest hu, hk a u b t rest ht⟩

theorem steady_readBytes (n : ℕ) : Steady (readBytes n) := by
  intro s p t rest h
  obtain ⟨rfl, rfl⟩ := of_readBytes h
  rw [List.append_assoc]
  exact reads_bytes p (t ++ rest)

theorem steady_readLength : Steady readLength :=
  (steady_readBytes 4).bind fun _ => steady_pure _

theorem steady_readEntry : Steady readEntry :=
  steady_readLength.bind fun _ => (steady_readBytes _).bind fun _ => (steady_readBytes 3).bind
    fun _ => steady_readLength.bind fun _ => (steady_readBytes _).bind fun _ => steady_pure _

/-- **What is cut is not read.** -/
theorem Steady.run_take (hx : Steady x) (h : Reads x p a) {n : ℕ} (hn : n < p.length) :
    x.run (p.take n) = none := by
  cases hrun : x.run (p.take n) with
  | none => rfl
  | some r =>
      obtain ⟨b, t⟩ := r
      have hwhole := hx _ b t (p.drop n) hrun
      have hread := h []
      rw [List.append_nil] at hread
      rw [List.take_append_drop, hread, Option.some.injEq, Prod.mk.injEq] at hwhole
      have hlen := congrArg List.length hwhole.2
      rw [List.length_nil, List.length_append, List.length_drop] at hlen
      omega

end

/-! ### Entries -/

/-- The reader changes no length of an entry. -/
structure Fits (e : PendingEntry) : Prop where
  address : e.address.length ≤ 256
  payload : e.payload.length ≤ maxFrameBytes

theorem portOf_bytes (port : UInt16) (type : UInt8) :
    portOf [(port >>> 8).toUInt8, port.toUInt8, type] = port := by
  have hlt := port.toNat_lt
  have hhigh : port.toNat / 256 < 256 := by omega
  have hor : (port.toNat / 256) <<< 8 ||| port.toNat % 256 = port.toNat := by
    rw [← Nat.shiftLeft_add_eq_or_of_lt (by omega : port.toNat % 256 < 2 ^ 8), Nat.shiftLeft_eq]
    omega
  change ((port >>> 8).toUInt8.toUInt16 <<< 8) ||| port.toUInt8.toUInt16 = port
  rw [← UInt16.toNat_inj, UInt16.toNat_or, UInt16.toNat_shiftLeft, UInt8.toNat_toUInt16,
    UInt8.toNat_toUInt16, UInt16.toNat_toUInt8, UInt16.toNat_toUInt8, UInt16.toNat_shiftRight]
  have h8 : (8 : UInt16).toNat % 16 = 8 := rfl
  rw [h8, Nat.shiftRight_eq_div_pow]
  have hmod : port.toNat / 2 ^ 8 % 2 ^ 8 = port.toNat / 256 := Nat.mod_eq_of_lt hhigh
  have hfit : (port.toNat / 256) <<< 8 % 2 ^ 16 = (port.toNat / 256) <<< 8 := by
    rw [Nat.shiftLeft_eq]
    exact Nat.mod_eq_of_lt (by omega)
  rw [hmod, hfit]
  exact hor

/-- An entry is read back. -/
theorem Fits.reads {e : PendingEntry} (h : Fits e) : Reads readEntry (encodeEntry e) e := by
  have haddress := Nat.min_eq_left h.address
  have hpayload := Nat.min_eq_left h.payload
  have hlt : e.payload.length < 2 ^ 32 := Nat.lt_of_le_of_lt h.payload (by decide)
  refine (reads_length (Nat.lt_of_le_of_lt h.address (by decide))).bind ?_
  rw [haddress]
  refine (reads_bytes e.address).bind ?_
  refine (reads_bytes [(e.port >>> 8).toUInt8, e.port.toUInt8, e.type]).bind ?_
  refine (reads_length hlt).bind ?_
  rw [hpayload]
  have hlast := (reads_bytes e.payload).bind_pure (f := fun payload : Str =>
    ({ address := e.address, port := e.port, type := e.type, payload } : PendingEntry))
  rw [portOf_bytes]
  exact hlast

/-- **A part of the entries is read** up to the first that is cut. -/
theorem readEntries_take {es : List PendingEntry} (h : ∀ e ∈ es, Fits e) (n : ℕ) :
    readEntries es.length ((es.flatMap encodeEntry).take n) <+: es := by
  induction es generalizing n with
  | nil => exact List.prefix_refl []
  | cons e es ih =>
      have he := (h e List.mem_cons_self).reads
      have hes := ih (fun e' he' => h e' (List.mem_cons_of_mem e he'))
      rw [List.length_cons, readEntries, List.flatMap_cons]
      by_cases hn : n < (encodeEntry e).length
      · rw [List.take_append_of_le_length hn.le, steady_readEntry.run_take he hn]
        exact List.nil_prefix
      · have htake : (encodeEntry e ++ es.flatMap encodeEntry).take n =
            encodeEntry e ++ (es.flatMap encodeEntry).take (n - (encodeEntry e).length) := by
          rw [List.take_append, List.take_of_length_le (Nat.le_of_not_lt hn)]
        rw [htake, he]
        exact (List.prefix_cons_inj e).2 (hes _)

theorem readEntries_flatMap {es : List PendingEntry} (h : ∀ e ∈ es, Fits e) (rest : Str) :
    readEntries es.length (es.flatMap encodeEntry ++ rest) = es := by
  induction es with
  | nil => rfl
  | cons e es ih =>
      rw [List.length_cons, readEntries, List.flatMap_cons, List.append_assoc,
        (h e List.mem_cons_self).reads]
      exact congrArg (e :: ·) (ih fun e' he' => h e' (List.mem_cons_of_mem e he'))

theorem fits_of_readEntry {s t : Str} {e : PendingEntry} (h : readEntry.run s = some (e, t)) :
    Fits e := by
  obtain ⟨addrLen, s₁, -, h⟩ := run_bind_eq_some_iff.1 h
  obtain ⟨address, s₂, haddress, h⟩ := run_bind_eq_some_iff.1 h
  obtain ⟨p, s₃, -, h⟩ := run_bind_eq_some_iff.1 h
  obtain ⟨payLen, s₄, -, h⟩ := run_bind_eq_some_iff.1 h
  obtain ⟨payload, s₅, hpayload, h⟩ := run_bind_eq_some_iff.1 h
  obtain ⟨rfl, -⟩ := run_pure_eq_some_iff.1 h
  exact ⟨(of_readBytes haddress).2.trans_le (Nat.min_le_right _ _),
    (of_readBytes hpayload).2.trans_le (Nat.min_le_right _ _)⟩

theorem fits_of_mem_readEntries {n : ℕ} {s : Str} {e : PendingEntry} (h : e ∈ readEntries n s) :
    Fits e := by
  induction n generalizing s with
  | zero => exact absurd h List.not_mem_nil
  | succ n ih =>
      rw [readEntries] at h
      cases hrun : readEntry.run s with
      | none =>
          rw [hrun] at h
          exact absurd h List.not_mem_nil
      | some r =>
          obtain ⟨e', t⟩ := r
          rw [hrun] at h
          rcases List.mem_cons.1 h with rfl | h
          · exact fits_of_readEntry hrun
          · exact ih h

theorem length_readEntries_le (n : ℕ) (s : Str) : (readEntries n s).length ≤ n := by
  induction n generalizing s with
  | zero => exact Nat.le_refl 0
  | succ n ih =>
      rw [readEntries]
      cases readEntry.run s with
      | none => exact Nat.zero_le _
      | some r => exact Nat.succ_le_succ (ih r.2)

theorem decodeBody_take {es : List PendingEntry} (h : ∀ e ∈ es, Fits e)
    (hcount : es.length ≤ 100000) (n : ℕ) : decodeBody ((encodeBody es).take n) <+: es := by
  have hread : Reads readLength (writeU32 es.length) es.length :=
    reads_length (Nat.lt_of_le_of_lt hcount (by decide))
  rw [decodeBody, encodeBody]
  by_cases hn : n < (writeU32 es.length).length
  · rw [List.take_append_of_le_length hn.le, steady_readLength.run_take hread hn]
    exact List.nil_prefix
  · have htake : (writeU32 es.length ++ es.flatMap encodeEntry).take n =
        writeU32 es.length ++ (es.flatMap encodeEntry).take (n - (writeU32 es.length).length) := by
      rw [List.take_append, List.take_of_length_le (Nat.le_of_not_lt hn)]
    rw [htake, hread]
    simp only [Nat.min_eq_left hcount]
    exact readEntries_take h _

theorem decodeBody_encodeBody {es : List PendingEntry} (h : ∀ e ∈ es, Fits e)
    (hcount : es.length ≤ 100000) : decodeBody (encodeBody es) = es := by
  have hread : Reads readLength (writeU32 es.length) es.length :=
    reads_length (Nat.lt_of_le_of_lt hcount (by decide))
  have hentries := readEntries_flatMap h []
  rw [List.append_nil] at hentries
  rw [decodeBody, encodeBody, hread]
  simp only [Nat.min_eq_left hcount, hentries]

theorem bounded_decodeBody (body : Str) :
    (decodeBody body).length ≤ 100000 ∧ ∀ e ∈ decodeBody body, Fits e := by
  rw [decodeBody]
  cases readLength.run body with
  | none => exact ⟨Nat.zero_le _, fun e he => absurd he List.not_mem_nil⟩
  | some r =>
      exact ⟨(length_readEntries_le _ r.2).trans (Nat.min_le_right _ _),
        fun e he => fits_of_mem_readEntries he⟩

/-! ### Files -/

/-- `cksum`, as it is written. -/
def checksum (entries : List PendingEntry) (verifyChecksum : Bool) : Str :=
  if verifyChecksum then sha256hex (encodeBody entries) else List.replicate 64 48

theorem savePendingQueue_eq (es : List PendingEntry) (v : Bool) :
    savePendingQueue es v = checksum es v ++ encodeBody es := rfl

theorem length_checksum (es : List PendingEntry) (v : Bool) : (checksum es v).length = 64 := by
  cases v with
  | false => rfl
  | true => exact length_sha256hex _

theorem bounded_loadPendingQueue (file : Option Str) (v : Bool) :
    (loadPendingQueue file v).length ≤ 100000 ∧ ∀ e ∈ loadPendingQueue file v, Fits e := by
  cases file with
  | none => exact ⟨Nat.zero_le _, fun e he => absurd he List.not_mem_nil⟩
  | some f =>
      rw [loadPendingQueue]
      split
      · exact ⟨Nat.zero_le _, fun e he => absurd he List.not_mem_nil⟩
      · exact bounded_decodeBody _

theorem load_take (es : List PendingEntry) (v : Bool) {n : ℕ} (hn : 64 ≤ n) :
    loadPendingQueue (some ((savePendingQueue es v).take n)) v =
      if v ∧ sha256hex ((encodeBody es).take (n - 64)) ≠ sha256hex (encodeBody es) then []
      else decodeBody ((encodeBody es).take (n - 64)) := by
  have hlen := length_checksum es v
  have htake : (savePendingQueue es v).take n =
      checksum es v ++ (encodeBody es).take (n - 64) := by
    rw [savePendingQueue_eq, List.take_append, hlen, List.take_of_length_le (hlen.trans_le hn)]
  have hzeros : 64 - (checksum es v ++ (encodeBody es).take (n - 64)).length = 0 := by
    rw [List.length_append, hlen]
    omega
  have hhead : (checksum es v ++ (encodeBody es).take (n - 64)).take 64 = checksum es v := by
    rw [← hlen, List.take_left]
  have hbody : (checksum es v ++ (encodeBody es).take (n - 64)).drop 64 =
      (encodeBody es).take (n - 64) := by
    conv_lhs => rw [← hlen, List.drop_left]
    rw [hlen]
  simp only [loadPendingQueue, htake, hzeros, hhead, hbody, List.replicate_zero, List.append_nil]
  cases v with
  | false => rfl
  | true => rfl

theorem load_take_of_lt (es : List PendingEntry) (v : Bool) {n : ℕ} (hn : n < 64) :
    loadPendingQueue (some ((savePendingQueue es v).take n)) v = [] := by
  have hbody : ((savePendingQueue es v).take n).drop 64 = [] :=
    List.drop_of_length_le ((List.length_take_le n _).trans hn.le)
  have hempty : decodeBody [] = [] := rfl
  simp only [loadPendingQueue, hbody, hempty, ite_self]

theorem length_savePendingQueue (es : List PendingEntry) (v : Bool) :
    (savePendingQueue es v).length = 64 + (encodeBody es).length := by
  rw [savePendingQueue_eq, List.length_append, length_checksum]

theorem load_savePendingQueue {es : List PendingEntry} (h : ∀ e ∈ es, Fits e)
    (hcount : es.length ≤ 100000) (v : Bool) :
    loadPendingQueue (some (savePendingQueue es v)) v = es := by
  have hwhole := load_take es v (n := (savePendingQueue es v).length)
    (by rw [length_savePendingQueue]; omega)
  rw [List.take_length, length_savePendingQueue, Nat.add_sub_cancel_left, List.take_length,
    if_neg (fun hne => hne.2 rfl), decodeBody_encodeBody h hcount] at hwhole
  exact hwhole

end Pending

/-- **When the queue comes back**: there are not too many entries, and no address and no payload is
too long. -/
theorem load_savePendingQueue_iff (es : List PendingEntry) (v : Bool) :
    loadPendingQueue (some (savePendingQueue es v)) v = es ↔
      es.length ≤ 100000 ∧
        ∀ e ∈ es, e.address.length ≤ 256 ∧ e.payload.length ≤ maxFrameBytes := by
  constructor
  · intro h
    have hbounded := bounded_loadPendingQueue (some (savePendingQueue es v)) v
    rw [h] at hbounded
    exact ⟨hbounded.1, fun e he => ⟨(hbounded.2 e he).address, (hbounded.2 e he).payload⟩⟩
  · rintro ⟨hcount, hbounds⟩
    exact load_savePendingQueue (fun e he => ⟨(hbounds e he).1, (hbounds e he).2⟩) hcount v

namespace Pending

/-! ### Runs -/

/-- The queue, the file, and what the last save was to write. -/
structure Store where
  queue : List PendingEntry := []
  file : Option Str := none
  snapshot : List PendingEntry := []
  torn : Bool := false

inductive Event
  /-- `deliverToPeer` gave up on a message that it had encoded. -/
  | failed (e : PendingEntry)
  | stop
  /-- A crash at any time but during the save. -/
  | crash
  /-- A crash that leaves so many bytes of the file. -/
  | crashInSave (n : ℕ)

/-- What becomes of the queue and the file. -/
def step (verifyChecksum : Bool) (s : Store) : Event → Option Store
  | .failed e =>
      if e.payload.length > maxFrameBytes then none
      else if s.queue.length < 10000 then some { s with queue := s.queue ++ [e] }
      else some s
  | .stop =>
      some { queue := []
             file := some (savePendingQueue s.queue verifyChecksum)
             snapshot := s.queue
             torn := false }
  | .crash => some { s with queue := [] }
  | .crashInSave n =>
      some { queue := []
             file := some ((savePendingQueue s.queue verifyChecksum).take n)
             snapshot := s.queue
             torn := n < (savePendingQueue s.queue verifyChecksum).length }

/-- What `recoverPendingQueue` sends again, should the network start now. -/
def recovered (verifyChecksum : Bool) (s : Store) : List PendingEntry :=
  loadPendingQueue s.file verifyChecksum

/-- What is left of a body has the checksum of the whole. -/
def Collides (es : List PendingEntry) : Prop :=
  ∃ n < (encodeBody es).length, sha256hex ((encodeBody es).take n) = sha256hex (encodeBody es)

/-- What a start finds, with regard to what the last save was to write. -/
structure Recovers (verifyChecksum : Bool) (s : Store) : Prop where
  isPrefix : recovered verifyChecksum s <+: s.snapshot
  whole : s.torn = false → recovered verifyChecksum s = s.snapshot
  checked : verifyChecksum = true → recovered verifyChecksum s = [] ∨
    recovered verifyChecksum s = s.snapshot ∨ Collides s.snapshot

/-- What the queue can hold. -/
def Bounded (es : List PendingEntry) : Prop := es.length ≤ 10000 ∧ ∀ e ∈ es, Fits e

theorem Bounded.nil : Bounded [] := ⟨Nat.zero_le _, fun _ he => absurd he List.not_mem_nil⟩

/-- **What is left of a file.** -/
theorem Bounded.recovers {es : List PendingEntry} (h : Bounded es) (v : Bool) (n : ℕ) (s : Store)
    (hfile : s.file = some ((savePendingQueue es v).take n)) (hsnapshot : s.snapshot = es)
    (htorn : s.torn = decide (n < (savePendingQueue es v).length)) : Recovers v s := by
  have hcount : es.length ≤ 100000 := h.1.trans (by decide)
  have hlen := length_savePendingQueue es v
  rw [hlen] at htorn
  by_cases hn : n < 64
  · have hnil : recovered v s = [] := by rw [recovered, hfile, load_take_of_lt es v hn]
    refine ⟨hnil ▸ List.nil_prefix, fun hwhole => ?_, fun _ => Or.inl hnil⟩
    rw [hwhole] at htorn
    exact absurd (of_decide_eq_false htorn.symm) (by omega)
  · have hload := load_take es v (Nat.le_of_not_lt hn)
    rw [← hfile] at hload
    have hprefix := decodeBody_take h.2 hcount (n - 64)
    rw [← hsnapshot] at hload hprefix
    refine ⟨?_, fun hwhole => ?_, fun hv => ?_⟩
    · rw [recovered, hload]
      split
      · exact List.nil_prefix
      · exact hprefix
    · rw [hwhole] at htorn
      have hge := of_decide_eq_false htorn.symm
      rw [List.take_of_length_le (by rw [hsnapshot]; omega), if_neg fun hne => hne.2 rfl,
        hsnapshot, decodeBody_encodeBody h.2 hcount] at hload
      exact hload.trans hsnapshot.symm
    · by_cases hdigest : sha256hex ((encodeBody s.snapshot).take (n - 64)) =
          sha256hex (encodeBody s.snapshot)
      · by_cases hcut : n - 64 < (encodeBody s.snapshot).length
        · exact Or.inr (Or.inr ⟨n - 64, hcut, hdigest⟩)
        · rw [if_neg fun hne => hne.2 hdigest,
            List.take_of_length_le (Nat.le_of_not_lt hcut), hsnapshot,
            decodeBody_encodeBody h.2 hcount] at hload
          exact Or.inr (Or.inl (hload.trans hsnapshot.symm))
      · rw [if_pos ⟨hv, hdigest⟩] at hload
        exact Or.inl hload

/-- A message for a peer whose address is no longer than the reader takes. -/
def ShortAddress : Event → Prop
  | .failed e => e.address.length ≤ 256
  | _ => True

/-- What every step keeps. -/
structure Inv (verifyChecksum : Bool) (s : Store) : Prop where
  queue : Bounded s.queue
  recovers : Recovers verifyChecksum s

theorem Inv.new (v : Bool) : Inv v {} where
  queue := Bounded.nil
  recovers := ⟨List.prefix_refl [], fun _ => rfl, fun _ => Or.inl rfl⟩

theorem Inv.step {v : Bool} {s t : Store} {e : Event} (hs : Inv v s) (he : ShortAddress e)
    (hstep : step v s e = some t) : Inv v t := by
  cases e with
  | failed e =>
      rw [Pending.step] at hstep
      split_ifs at hstep with hlong hroom
      · obtain rfl := Option.some.inj hstep
        refine ⟨⟨?_, ?_⟩, hs.recovers.isPrefix, hs.recovers.whole, hs.recovers.checked⟩
        · simp only [List.length_append, List.length_singleton]
          omega
        · intro e' he'
          rcases List.mem_append.1 he' with hold | hnew
          · exact hs.queue.2 e' hold
          · obtain rfl := List.mem_singleton.1 hnew
            exact ⟨he, Nat.le_of_not_lt hlong⟩
      · exact Option.some.inj hstep ▸ hs
  | stop =>
      obtain rfl := Option.some.inj hstep
      refine ⟨Bounded.nil, hs.queue.recovers v (savePendingQueue s.queue v).length _ ?_ rfl ?_⟩
      · rw [List.take_length]
      · simp
  | crash =>
      obtain rfl := Option.some.inj hstep
      exact ⟨Bounded.nil, hs.recovers.isPrefix, hs.recovers.whole, hs.recovers.checked⟩
  | crashInSave n =>
      obtain rfl := Option.some.inj hstep
      exact ⟨Bounded.nil, hs.queue.recovers v n _ rfl rfl rfl⟩

/-- **What a start recovers**, in every run of failed sends, stops and crashes. -/
theorem recovered_run {v : Bool} {es : List Event} {t : Store}
    (hrun : Transition.run (step v) {} es = some t) (haddress : ∀ e ∈ es, ShortAddress e) :
    Recovers v t := by
  have hall : Transition.EveryStep (step v) (fun _ e _ => ShortAddress e) {} es :=
    Transition.everyStep_of_forall_mem haddress
  have hinv : Inv v t :=
    Transition.run_induction (fun _ _ _ hs he hstep => hs.step he hstep) (Inv.new v) hall hrun
  exact hinv.recovers

def sampleEntry : PendingEntry :=
  { address := str "10.0.0.1", port := 8333, type := 3, payload := [1, 2, 3] }

theorem recovered_run_torn : Recovers true
    { queue := []
      file := some ((savePendingQueue [sampleEntry] true).take 50)
      snapshot := [sampleEntry]
      torn := true } := by
  have htorn : decide (50 < (savePendingQueue [sampleEntry] true).length) = true := by
    rw [length_savePendingQueue]
    decide
  have hshort : ¬ sampleEntry.payload.length > maxFrameBytes := by decide
  have hrun : Transition.run (step true) {}
      [.failed sampleEntry, .stop, .failed sampleEntry, .crashInSave 50] = some
        { queue := []
          file := some ((savePendingQueue [sampleEntry] true).take 50)
          snapshot := [sampleEntry]
          torn := true } := by
    simp only [Transition.run, step, hshort, if_false]
    simp [htorn]
  refine recovered_run hrun fun e he => ?_
  simp only [List.mem_cons, List.not_mem_nil, or_false] at he
  rcases he with rfl | rfl | rfl | rfl
  · exact (by decide : sampleEntry.address.length ≤ 256)
  · trivial
  · exact (by decide : sampleEntry.address.length ≤ 256)
  · trivial

end Pending

end Network
