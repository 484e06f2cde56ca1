/-
**The store of a chain.**

`MedacStore` of `medac_store.cjs` keeps the journal of a chain in a directory.  A lock file keeps
other processes out.  `open` takes the lock, creates the journal if there is none, cuts off a torn
record and reads the blocks; `append` adds one record; `replace` writes a whole journal under a
temporary name and renames it; `close` gives the lock back.

The checks of the owner, the type and the mode of the directory and of the journal are left out:
they pass in a directory that only this program uses.

Main definitions:

* `Medac.StorePath`, `Medac.MedacStore` — the names in the directory, and the object;
* `Medac.MedacStore.open`, `Medac.MedacStore.append`, `Medac.MedacStore.replace`,
  `Medac.MedacStore.close` — the methods, as programs on the file system.

Main results:

* `Medac.MedacStore.noCrash_open` and the like — the methods return or throw when nothing goes
  wrong.
-/

import MedorCoin.Crash.FileSystem
import MedorCoin.Medac.Journal

set_option autoImplicit false

namespace Medac

open Js Crash Crash.Prog

/-- The names in the directory of the store. -/
inductive StorePath
  /-- `chain.ndjson` -/
  | chain
  /-- `node.lock` -/
  | lock
  /-- `chain.ndjson.${pid}.${suffix}.tmp` -/
  | temporary (pid : ℕ) (suffix : Str)
  deriving DecidableEq

/-- A `MedacStore`. -/
structure MedacStore where
  lockFd : Option ℕ
  chainFd : Option ℕ
  genesisHash : Option Str
  blocks : List Json
  /-- The variable `fd` of `replace`. -/
  fd : Option ℕ

/-- A process with a store. -/
abbrev World : Type := Machine StorePath MedacStore

/-- A program of the store. -/
abbrev StoreProg (α : Type) : Type := Fs.Proc StorePath MedacStore Error α

namespace MedacStore

/-- The constructor. -/
def create : MedacStore :=
  { lockFd := none, chainFd := none, genesisHash := none, blocks := [], fd := none }

/-- Assign to properties of the object. -/
def assign (f : MedacStore → MedacStore) : StoreProg Unit :=
  Prog.update fun m => m.setVars (f m.vars)

/-- `_syncDirectory` -/
def syncDirectory : StoreProg Unit := do
  let fd ← Fs.openDirectory
  Prog.ensure (Fs.sync fd) (Fs.close fd)

/-! ### Opening -/

/-- The first part of `open`: the lock. -/
def acquireLock (pid : ℕ) : StoreProg Unit :=
  Prog.attempt
    (do
      let fd ← Fs.openNew .lock
      assign fun store => { store with lockFd := some fd }
      Fs.write fd (utf8 (numeral pid ++ ['\n']))
      Fs.sync fd)
    fun
      | .system .exists =>
          Prog.raise (.program (.error "Another MEDAC node holds this data directory"))
      | e => Prog.raise e

/-- The second part of `open`: a new journal. -/
def createJournal (c : Crypto) (genesisHash : Str) : StoreProg Unit := do
  let fd ← Fs.openNew .chain
  Prog.ensure
    (do
      Fs.write fd (utf8 (encodeRecord c (headerRecord genesisHash)))
      Fs.sync fd)
    (Fs.close fd)
  syncDirectory

/-- The third part of `open`: the text of the journal, from which a torn record is cut off. -/
def readJournal : StoreProg Str := do
  let size ← Fs.stat .chain
  Fs.ofExcept (require (size ≤ maxStoreBytes)
    (.error "MEDAC journal has invalid type, permissions, or size"))
  let bytes ← Fs.readFile .chain
  let contents := decode bytes
  let complete := completePart contents
  if complete.length ≠ contents.length then do
    let fd ← Fs.openExisting .chain
    Prog.ensure
      (do
        Fs.truncate fd (byteLength complete)
        Fs.sync fd)
      (Fs.close fd)
    return complete
  else return contents

/-- The last part of `open`: the blocks of the journal. -/
def loadBlocks (c : Crypto) (genesisHash : Str) (contents : Str) : StoreProg Unit :=
  match nonemptyLines contents with
  | [] => Prog.raise (.program (.error "MEDAC journal is empty"))
  | line :: lines => do
      Fs.ofExcept (decodeHeader c genesisHash line)
      Prog.forEach lines fun line => do
        let block ← Fs.ofExcept (decodeBlock c line)
        assign fun store => { store with blocks := store.blocks ++ [block] }

/-- **`open`.** -/
def «open» (c : Crypto) (pid : ℕ) (genesisHash : Str) : StoreProg (List Json) := do
  Fs.check
  Fs.check
  acquireLock pid
  assign fun store => { store with genesisHash := some genesisHash }
  let found ← Fs.exists .chain
  if found then pure () else createJournal c genesisHash
  let contents ← readJournal
  loadBlocks c genesisHash contents
  let fd ← Fs.openAppend .chain
  assign fun store => { store with chainFd := some fd }
  Prog.read fun m => m.vars.blocks

/-! ### Appending -/

/-- What `append` does once the store is known to be open. -/
def appendRecord (c : Crypto) (fd : ℕ) (block : Json) : StoreProg Unit := do
  let start ← Fs.size fd
  Fs.ofExcept (require (start + byteLength (encodeRecord c (blockRecord block)) ≤ maxStoreBytes)
    (.error "MEDAC journal reached its configured size limit"))
  Prog.attempt
    (do
      Fs.write fd (utf8 (encodeRecord c (blockRecord block)))
      Fs.sync fd
      assign fun store => { store with blocks := store.blocks ++ [block] })
    fun e => do
      Fs.truncate fd start
      Fs.sync fd
      Prog.raise e

/-- **`append`.** -/
def append (c : Crypto) (genesisHash : Str) (block : Json) : StoreProg Unit := do
  let store ← Prog.read fun m => m.vars
  match store.lockFd, store.chainFd, store.genesisHash == some genesisHash with
  | some _, some fd, true => appendRecord c fd block
  | _, _, _ => Prog.raise (.program (.error "MEDAC store is not open for this network"))

/-! ### Replacing -/

/-- One record of `replace`. -/
def writeBlock (c : Crypto) (fd : ℕ) (block : Json) : StoreProg Unit := do
  Fs.write fd (utf8 (encodeRecord c (blockRecord block)))
  let size ← Fs.size fd
  Fs.ofExcept (require (size ≤ maxStoreBytes)
    (.error "MEDAC journal exceeds its configured size limit"))

/-- The first part of `replace`: the new journal under its temporary name. -/
def writeTemporary (c : Crypto) (temporaryPath : StorePath) (genesisHash : Str)
    (blocks : List Json) : StoreProg Unit := do
  let fd ← Fs.openNew temporaryPath
  assign fun store => { store with fd := some fd }
  Fs.write fd (utf8 (encodeRecord c (headerRecord genesisHash)))
  Prog.forEach blocks (writeBlock c fd)
  Fs.sync fd
  Fs.close fd
  assign fun store => { store with fd := none }

/-- `closeSync(this.chainFd)` -/
def closeChain : StoreProg Unit := do
  let store ← Prog.read fun m => m.vars
  match store.chainFd with
  | some fd => Fs.close fd
  | none => Prog.raise (.program
      (.typeError "The \"fd\" argument must be of type number. Received null"))

/-- The second part of `replace`: the new journal takes the place of the old one. -/
def install (temporaryPath : StorePath) (blocks : List Json) : StoreProg Unit := do
  Fs.rename temporaryPath .chain
  syncDirectory
  closeChain
  let fd ← Fs.openAppend .chain
  assign fun store => { store with chainFd := some fd, blocks }

/-- What `replace` does when something was thrown. -/
def abandon (temporaryPath : StorePath) (e : Exception Error) : StoreProg Unit := do
  let store ← Prog.read fun m => m.vars
  match store.fd with
  | some fd => Fs.close fd
  | none => pure ()
  Prog.attempt (Fs.unlink temporaryPath) fun _ => pure ()
  Prog.raise e

/-- **`replace`.**  The random part of the temporary name is an argument. -/
def replace (c : Crypto) (pid : ℕ) (suffix : Str) (genesisHash : Str) (blocks : List Json) :
    StoreProg Unit := do
  let store ← Prog.read fun m => m.vars
  match store.lockFd, store.genesisHash == some genesisHash with
  | some _, true => do
      assign fun store => { store with fd := none }
      Prog.attempt
        (do
          writeTemporary c (.temporary pid suffix) genesisHash blocks
          install (.temporary pid suffix) blocks)
        (abandon (.temporary pid suffix))
  | _, _ => Prog.raise (.program (.error "MEDAC store is not open for this network"))

/-! ### Closing -/

/-- The end of `close`: the lock. -/
def releaseLock : StoreProg Unit := do
  let store ← Prog.read fun m => m.vars
  match store.lockFd with
  | some fd => do
      Fs.close fd
      assign fun store => { store with lockFd := none }
      Prog.attempt (Fs.unlink .lock) fun
        | .system .notFound => pure ()
        | e => Prog.raise e
  | none => pure ()

/-- **`close`.** -/
def close : StoreProg Unit := do
  let store ← Prog.read fun m => m.vars
  match store.chainFd with
  | some fd => do
      Fs.close fd
      assign fun store => { store with chainFd := none }
  | none => pure ()
  releaseLock

/-! ### When nothing goes wrong -/

theorem noCrash_syncDirectory : NoCrash syncDirectory :=
  .bind (.call _ _ _) fun _ => .ensure (.call _ _ _) (.call _ _ _)

theorem noCrash_acquireLock (pid : ℕ) : NoCrash (acquireLock pid) := by
  refine .attempt (.bind (.call _ _ _) fun _ => .bind (.update _) fun _ =>
    .bind (.call _ _ _) fun _ => .call _ _ _) ?_
  rintro (e | e)
  · cases e <;> exact .raise _
  · exact .raise _

theorem noCrash_createJournal (c : Crypto) (g : Str) : NoCrash (createJournal c g) :=
  .bind (.call _ _ _) fun _ =>
    .bind (.ensure (.bind (.call _ _ _) fun _ => .call _ _ _) (.call _ _ _)) fun _ =>
      noCrash_syncDirectory

theorem noCrash_readJournal : NoCrash readJournal := by
  refine .bind (.call _ _ _) fun size => .bind (.ofExcept _) fun _ =>
    .bind (.call _ _ _) fun bytes => ?_
  by_cases h : (completePart (decode bytes)).length ≠ (decode bytes).length
  · simp only [if_pos h]
    exact .bind (.call _ _ _) fun _ =>
      .bind (.ensure (.bind (.call _ _ _) fun _ => .call _ _ _) (.call _ _ _)) fun _ => .pure _
  · simp only [if_neg h]
    exact .pure _

theorem noCrash_loadBlocks (c : Crypto) (g contents : Str) : NoCrash (loadBlocks c g contents) := by
  rw [loadBlocks]
  cases nonemptyLines contents with
  | nil => exact .raise _
  | cons line lines =>
      exact .bind (.ofExcept _) fun _ => .forEach lines fun line =>
        .bind (.ofExcept _) fun _ => .update _

theorem noCrash_open (c : Crypto) (pid : ℕ) (g : Str) : NoCrash (MedacStore.open c pid g) := by
  have hrest : NoCrash (do
      let contents ← readJournal
      loadBlocks c g contents
      let fd ← Fs.openAppend .chain
      assign fun store => { store with chainFd := some fd }
      Prog.read fun m => m.vars.blocks : StoreProg (List Json)) :=
    .bind noCrash_readJournal fun _ => .bind (noCrash_loadBlocks c g _) fun _ =>
      .bind (.call _ _ _) fun _ => .bind (.update _) fun _ => .read _
  refine .bind (.call _ _ _) fun _ => .bind (.call _ _ _) fun _ =>
    .bind (noCrash_acquireLock pid) fun _ => .bind (.update _) fun _ =>
      .bind (.read _) fun found => ?_
  cases found with
  | false => exact .bind (noCrash_createJournal c g) fun _ => hrest
  | true => exact hrest

theorem noCrash_append (c : Crypto) (g : Str) (block : Json) : NoCrash (append c g block) := by
  have hrecord : ∀ fd, NoCrash (appendRecord c fd block) := fun fd =>
    .bind (.call _ _ _) fun start => .bind (.ofExcept _) fun _ =>
      .attempt (.bind (.call _ _ _) fun _ => .bind (.call _ _ _) fun _ => .update _) fun e =>
        .bind (.call _ _ _) fun _ => .bind (.call _ _ _) fun _ => .raise e
  refine .bind (.read _) fun store => ?_
  cases store.lockFd with
  | none => exact .raise _
  | some k =>
      cases store.chainFd with
      | none => exact .raise _
      | some fd =>
          cases store.genesisHash == some g with
          | false => exact .raise _
          | true => exact hrecord fd

theorem noCrash_replace (c : Crypto) (pid : ℕ) (suffix g : Str) (blocks : List Json) :
    NoCrash (replace c pid suffix g blocks) := by
  have hwrite : NoCrash (writeTemporary c (.temporary pid suffix) g blocks) :=
    .bind (.call _ _ _) fun fd => .bind (.update _) fun _ => .bind (.call _ _ _) fun _ =>
      .bind (.forEach blocks fun _ => .bind (.call _ _ _) fun _ => .bind (.call _ _ _) fun _ =>
        .ofExcept _) fun _ =>
      .bind (.call _ _ _) fun _ => .bind (.call _ _ _) fun _ => .update _
  have hclose : NoCrash closeChain := by
    refine .bind (.read _) fun store => ?_
    cases store.chainFd with
    | none => exact .raise _
    | some fd => exact .call _ _ _
  have hinstall : NoCrash (install (.temporary pid suffix) blocks) :=
    .bind (.call _ _ _) fun _ => .bind noCrash_syncDirectory fun _ => .bind hclose fun _ =>
      .bind (.call _ _ _) fun _ => .update _
  have habandon : ∀ e, NoCrash (abandon (.temporary pid suffix) e) := by
    intro e
    have hunlink : NoCrash (do
        Prog.attempt (Fs.unlink (.temporary pid suffix)) fun _ => pure ()
        Prog.raise e : StoreProg Unit) :=
      .bind (.attempt (.call _ _ _) fun _ => .pure _) fun _ => .raise e
    refine .bind (.read _) fun store => ?_
    cases store.fd with
    | none => exact hunlink
    | some fd => exact .bind (.call _ _ _) fun _ => hunlink
  refine .bind (.read _) fun store => ?_
  cases store.lockFd with
  | none => exact .raise _
  | some k =>
      cases store.genesisHash == some g with
      | false => exact .raise _
      | true =>
          exact .bind (.update _) fun _ =>
            .attempt (.bind hwrite fun _ => hinstall) habandon

theorem noCrash_close : NoCrash close := by
  have hrelease : NoCrash releaseLock := by
    refine .bind (.read _) fun store => ?_
    cases store.lockFd with
    | none => exact .pure _
    | some k =>
        refine .bind (.call _ _ _) fun _ => .bind (.update _) fun _ => .attempt (.call _ _ _) ?_
        rintro (e | e)
        · cases e <;> first | exact .pure _ | exact .raise _
        · exact .raise _
  refine .bind (.read _) fun store => ?_
  cases store.chainFd with
  | none => exact hrelease
  | some fd => exact .bind (.call _ _ _) fun _ => .bind (.update _) fun _ => hrelease

end MedacStore

end Medac
