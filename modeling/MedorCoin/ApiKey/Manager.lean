/-
**The API key manager.**

A key is a record in a store, in which it is never deleted; revoking it writes the time into the
record.  Operations run on several threads.  Each access to the store is a critical section of its
own: a rotation looks the old key up, then creates a new one, then revokes the old one, and between
these other operations go on.  The clock does not go back.

The generator of keys does not repeat itself, and a record may fail to be written, because it does
not fit or because the store fails.

Main definitions:

* `ApiKey.newRecord`, `ApiKey.checkRecord`, `ApiKey.revokeRecord` — what is done with a record;
* `ApiKey.Op`, `ApiKey.State`, `ApiKey.Event`, `ApiKey.step` — the operations in progress, and what
  can happen;
* `ApiKey.State.valid` — whether a key validates;
* `ApiKey.Sound` — **what every step should have**;
* `ApiKey.Safe` — the steps after which it has.
-/

import MedorCoin.Cpp.Text
import MedorCoin.Transition.Run
import MedorCoin.Transition.Tasks

set_option autoImplicit false

namespace ApiKey

open Cpp (Str)

/-! ### Records -/

inductive KeyError
  | notFound
  | revoked
  | expired
  | dbError
  | invalidInput
  | generationFailed
  deriving DecidableEq

structure KeyRecord where
  clientId : Str
  label : Str
  key : Str
  createdAt : ℤ
  expiresAt : ℤ
  revokedAt : ℤ
  deriving DecidableEq

def noExpiry : ℤ := 0
def keyHexLen : ℕ := 64
def maxClientIdLen : ℕ := 128
def maxLabelLen : ℕ := 256

/-- No control characters. -/
def isPrintable (s : Str) : Bool := s.all fun c => !(c < 0x20 || c == 0x7f)

def isValidClientId (s : Str) : Bool :=
  !(s.isEmpty || maxClientIdLen < s.length) && isPrintable s

def isValidLabel (s : Str) : Bool := !(maxLabelLen < s.length) && isPrintable s

def isXDigit (c : UInt8) : Bool :=
  (0x30 ≤ c && c ≤ 0x39) || (0x41 ≤ c && c ≤ 0x46) || (0x61 ≤ c && c ≤ 0x66)

def isValidKeyHex (s : Str) : Bool := s.length == keyHexLen && s.all isXDigit

/-- The record of `createKeyResult`, at the time `now`. -/
def newRecord (defaultTtlSeconds : ℤ) (clientId label : Str) (ttlSeconds now : ℤ) (keyHex : Str) :
    KeyRecord :=
  let effectiveTtl :=
    if ttlSeconds = noExpiry ∧ 0 < defaultTtlSeconds then defaultTtlSeconds else ttlSeconds
  { clientId := clientId
    label := label
    key := keyHex
    createdAt := now
    expiresAt := if 0 < effectiveTtl then now + effectiveTtl else noExpiry
    revokedAt := 0 }

/-- The checks of `validate`. -/
def checkRecord (now : ℤ) (rec : KeyRecord) : Except KeyError Str :=
  if rec.revokedAt ≠ 0 then .error .revoked
  else if rec.expiresAt ≠ noExpiry ∧ rec.expiresAt < now then .error .expired
  else .ok rec.clientId

/-- The new record of `revoke`. -/
def revokeRecord (now : ℤ) (rec : KeyRecord) : Except KeyError KeyRecord :=
  if rec.revokedAt ≠ 0 then .error .revoked else .ok { rec with revokedAt := now }

/-! ### Operations in progress -/

/-- Where an operation is, between two of its critical sections. -/
inductive Op
  /-- a rotation that has looked up the old key -/
  | copied (key : Str) (oldRec : KeyRecord)
  /-- a creation that has a key and a record, by itself or for a rotation -/
  | creating (rec : KeyRecord) (oldKey : Option Str)
  /-- a rotation that has written its new key -/
  | written (oldKey : Str)
  /-- a revocation that has read the clock, by itself or at the end of a rotation -/
  | revoking (key : Str) (now : ℤ) (rotation : Bool)
  /-- a validation that has read the clock; `late` if the key was no longer valid then -/
  | validating (key : Str) (now : ℤ) (late : Bool)
  | done
  deriving DecidableEq

/-- The key that a rotation is about to replace: it has not written the new one yet. -/
def Op.pending? : Op → Option Str
  | .copied key _ => some key
  | .creating _ oldKey => oldKey
  | _ => none

/-- The key that a rotation replaces. -/
def Op.rotates? : Op → Option Str
  | .copied key _ => some key
  | .creating _ oldKey => oldKey
  | .written oldKey => some oldKey
  | .revoking key _ true => some key
  | _ => none

/-- The key that is going to be written. -/
def Op.newKey? : Op → Option Str
  | .creating rec _ => some rec.key
  | _ => none

/-- The store and the operations; which keys have been generated; which keys a rotation has replaced
by which; and for which keys a validation has succeeded, and whether it had begun too late. -/
structure State where
  now : ℤ
  store : Str → Option KeyRecord
  ops : List Op
  generated : List Str
  rotated : List (Str × Str)
  accepted : List (Str × Bool)

/-- **Whether a key validates.** -/
def State.valid (s : State) (key : Str) : Bool :=
  match s.store key with
  | none => false
  | some rec => (checkRecord s.now rec).isOk

/-- Whether a key was created and does not validate any more. -/
def State.retired (s : State) (key : Str) : Bool := (s.store key).isSome && !s.valid key

/-- What can happen.  A number says which operation goes on. -/
inductive Event
  | tick (seconds : ℕ)
  | createKey (clientId label : Str) (ttlSeconds : ℤ) (keyHex : Option Str)
  | revoke (key : Str)
  | rotate (key : Str) (getOk : Bool)
  | validate (key : Str)
  | rotateCreate (i : ℕ) (keyHex : Option Str)
  | rotateRevoke (i : ℕ)
  | write (i : ℕ) (ok : Bool)
  | revokeWrite (i : ℕ) (getOk putOk : Bool)
  | validateRead (i : ℕ) (getOk : Bool)

section Step

variable (defaultTtlSeconds : ℤ)

local instance lawfulBEq_apiKey : LawfulBEq Str := inferInstance

/-- `createKeyResult` up to its critical section, with the key that the generator gives, if it
does. -/
def prepare (now : ℤ) (clientId label : Str) (ttlSeconds : ℤ) (keyHex : Option Str)
    (oldKey : Option Str) : Except KeyError Op :=
  if isValidClientId clientId = false then .error .invalidInput
  else if isValidLabel label = false then .error .invalidInput
  else
    match keyHex with
    | none => .error .generationFailed
    | some key =>
        .ok (.creating (newRecord defaultTtlSeconds clientId label ttlSeconds now key) oldKey)

/-- What becomes of an operation that prepares a new key. -/
def prepared (now : ℤ) (clientId label : Str) (ttlSeconds : ℤ) (keyHex : Option Str)
    (oldKey : Option Str) : Op :=
  match prepare defaultTtlSeconds now clientId label ttlSeconds keyHex oldKey with
  | .error _ => .done
  | .ok op => op

/-- The critical section of `revoke`: the record that it finds, and the one it writes. -/
def revokeSection (store : Str → Option KeyRecord) (key : Str) (now : ℤ) (getOk putOk : Bool) :
    Except KeyError KeyRecord :=
  match getOk, store key with
  | false, _ => .error .dbError
  | true, none => .error .notFound
  | true, some rec =>
      match revokeRecord now rec with
      | .error e => .error e
      | .ok rec' => if putOk then .ok rec' else .error .dbError

/-- The rest of `validate`, with the clock it has read. -/
def validateSection (store : Str → Option KeyRecord) (key : Str) (now : ℤ) (getOk : Bool) :
    Except KeyError Str :=
  match getOk, store key with
  | false, _ => .error .dbError
  | true, none => .error .notFound
  | true, some rec => checkRecord now rec

/-- **A step**, if it can happen. -/
def step (s : State) : Event → Option State
  | .tick seconds => some { s with now := s.now + seconds }
  | .createKey clientId label ttlSeconds keyHex =>
      if ∃ key ∈ keyHex, key ∈ s.generated then none
      else some { s with
        ops := s.ops ++ [prepared defaultTtlSeconds s.now clientId label ttlSeconds keyHex none]
        generated := keyHex.toList ++ s.generated }
  | .revoke key =>
      if isValidKeyHex key = false then some s
      else some { s with ops := s.ops ++ [.revoking key s.now false] }
  | .rotate key getOk =>
      if isValidKeyHex key = false then some s
      else
        match getOk, s.store key with
        | true, some rec => some { s with ops := s.ops ++ [.copied key rec] }
        | _, _ => some s
  | .validate key =>
      if isValidKeyHex key = false then some s
      else some { s with ops := s.ops ++ [.validating key s.now (s.retired key)] }
  | .rotateCreate i keyHex =>
      match s.ops[i]? with
      | some (.copied key oldRec) =>
          if ∃ key ∈ keyHex, key ∈ s.generated then none
          else some { s with
            ops := s.ops.set i (prepared defaultTtlSeconds s.now oldRec.clientId oldRec.label
              noExpiry keyHex (some key))
            generated := keyHex.toList ++ s.generated }
      | _ => none
  | .write i ok =>
      match s.ops[i]? with
      | some (.creating rec oldKey) =>
          if ok = false then some { s with ops := s.ops.set i .done }
          else
            match oldKey with
            | none =>
                some { s with
                  store := Function.update s.store rec.key (some rec)
                  ops := s.ops.set i .done }
            | some key =>
                some { s with
                  store := Function.update s.store rec.key (some rec)
                  ops := s.ops.set i (.written key)
                  rotated := s.rotated ++ [(key, rec.key)] }
      | _ => none
  | .rotateRevoke i =>
      match s.ops[i]? with
      | some (.written oldKey) =>
          some { s with ops := s.ops.set i (.revoking oldKey s.now true) }
      | _ => none
  | .revokeWrite i getOk putOk =>
      match s.ops[i]? with
      | some (.revoking key now _) =>
          match revokeSection s.store key now getOk putOk with
          | .error _ => some { s with ops := s.ops.set i .done }
          | .ok rec =>
              some { s with
                store := Function.update s.store rec.key (some rec)
                ops := s.ops.set i .done }
      | _ => none
  | .validateRead i getOk =>
      match s.ops[i]? with
      | some (.validating key now late) =>
          match validateSection s.store key now getOk with
          | .error _ => some { s with ops := s.ops.set i .done }
          | .ok _ =>
              some { s with ops := s.ops.set i .done, accepted := s.accepted ++ [(key, late)] }
      | _ => none

end Step

/-- A manager with an empty store. -/
def start (now : ℤ) : State where
  now := now
  store _ := none
  ops := []
  generated := []
  rotated := []
  accepted := []

/-! ### What a step should have, and when it has -/

/-- **The lifecycle of keys**: a key that does not validate any more never validates again, also not
by a validation that begins then; a rotation writes its new key while the old one is valid; and a
key is replaced once. -/
structure Sound (s : State) (e : Event) (s' : State) : Prop where
  retired : ∀ key, s.retired key = true → s'.retired key = true
  authorised : ∀ p ∈ s'.rotated, p ∈ s.rotated ∨ s.valid p.1 = true
  once : (s'.rotated.map Prod.fst).Nodup
  accepted : ∀ p ∈ s'.accepted, p.2 = false

/-- **The safe steps.**  A rotation looks up a key that is valid and that no other rotation has in
hand; until the new key is written the old one is not revoked and does not expire; and the store
does not fail in the revocation at the end. -/
def Safe (s : State) (e : Event) (_ : State) : Prop :=
  match e with
  | .tick seconds => ∀ op ∈ s.ops, ∀ key ∈ op.pending?,
      { s with now := s.now + seconds }.valid key = true
  | .rotate key _ => s.retired key = false ∧ ∀ op ∈ s.ops, op.rotates? ≠ some key
  | .revokeWrite i getOk putOk =>
      match s.ops[i]? with
      | some (.revoking key _ rotation) =>
          (∀ op ∈ s.ops, op.pending? ≠ some key) ∧
            (rotation = true → getOk = true ∧ putOk = true)
      | _ => True
  | _ => True

instance (s : State) (e : Event) (s' : State) : Decidable (Safe s e s') := by
  unfold Safe
  split
  · infer_instance
  · infer_instance
  · split <;> infer_instance
  · infer_instance

end ApiKey
