/-
**The hash chain of the log.**

Every line of the log has the hash of the line before it hashed into its own.  The hashes are given
when a line is made; it goes through a buffer and a queue of batches, and is appended to the file
later.  A batch that could not be appended goes back to the front of the buffer, when the next batch
may be on its way to the file already.  The hash of the latest line is saved when the logger shuts
down, and at no other time.

The log is looked at as a text, taken apart into its lines, which are parsed.  The hash function,
what is filtered out of a message and the signatures are parameters.

Main definitions:

* `Logger._stableStringify`, `Logger.chainHash` — what is hashed;
* `Logger.State`, `Logger.Event`, `Logger.step` — lines that are written, batches that are appended
  or not, files that are rotated, and restarts;
* `Logger.verify` — what a verifier does with the lines;
* `Logger.Unbroken` — **the verifier does not object to the log**;
* `Logger.Safe` — what every step should meet.

Main results:

* `Logger.verifyLine_entryLine` — a line continues the chain it was made for;
* `Logger.Inv` — **the files, the batches and the buffer are one chain**, in this order;
* `Logger.unbroken_of_safe` — **the chain is unbroken while every step is safe**;
* `Logger.not_unbroken_sample` — what breaks it.
-/

import MedorCoin.Js.JsonParse
import MedorCoin.Js.Lines
import MedorCoin.Js.Sha256
import MedorCoin.Transition.Run
import Mathlib.Data.List.Sort

set_option autoImplicit false

namespace Logger

open Js (Json Str)
open Transition (EveryStep)

/-! ### Entries -/

inductive Level
  | debug
  | info
  | warn
  | error
  deriving DecidableEq

/-- `LEVELS` -/
def Level.rank : Level → ℕ
  | .debug => 0
  | .info => 1
  | .warn => 2
  | .error => 3

def Level.name : Level → Str
  | .debug => "DEBUG".toList
  | .info => "INFO".toList
  | .warn => "WARN".toList
  | .error => "ERROR".toList

/-- A value that a caller hands over, by what `JSON.stringify` does with it. -/
inductive Value
  /-- there is no text: `undefined`, a function -/
  | undefined
  /-- the text is that of a JSON value -/
  | json (v : Json) (plain : v.plain = true)
  /-- an error: a value that contains itself, a `BigInt` -/
  | throws

/-- An object by its members, where `none` stands for `undefined`. -/
abbrev Obj := List (Str × Option Json)

/-- `JSON.stringify(k) + ":" + JSON.stringify(obj[k])` -/
def member (e : Str × Option Json) : Str :=
  Json.quote e.1 ++ ':' :: (e.2.map Json.stringify).getD "undefined".toList

def _stableStringify (obj : Obj) : Str :=
  let parts := (obj.insertionSort fun a b => a.1 ≤ b.1).map member
  '{' :: (List.intercalate [','] parts ++ ['}'])

/-- The JSON value of an object, without the members that are `undefined`. -/
def toJson (obj : Obj) : Json := .obj (obj.filterMap fun e => e.2.map fun v => (e.1, v))

/-- The hash function, what is taken out of a message, the signatures, and the configuration. -/
structure Platform where
  sha256 : Str → Str
  filterSensitive : Str → Str
  _signEntry : Str → Option Str
  minLevel : Level
  maxFiles : ℕ

/-- The entry of a line, without its hash. -/
def newEntry (ts : Str) (level : Level) (module fileRef : Option Json) (seq : ℕ)
    (node safeMsg : Str) : Obj :=
  [("ts".toList, some (.str ts)), ("level".toList, some (.str level.name)),
    ("severity".toList, some (.str level.name)), ("module".toList, module),
    ("file".toList, fileRef), ("seq".toList, some (.str (Js.numeral seq))),
    ("node".toList, some (.str node)), ("message".toList, some (.str safeMsg))]

/-- The hash of an entry, after the line with the given hash. -/
def chainHash (P : Platform) (prevHash : Str) (entry : Obj) : Str :=
  P.sha256 (prevHash ++ _stableStringify entry)

/-- The line of an entry, which is hashed and signed. -/
def entryLine (P : Platform) (entry : Obj) (hash : Str) : Str :=
  let entry := entry ++ [("hash".toList, some (.str hash))]
  let entry :=
    match (P._signEntry (_stableStringify entry)).filter (· ≠ []) with
    | some sig => entry ++ [("sig".toList, some (.str sig))]
    | none => entry
  (toJson entry).stringify ++ ['\n']

/-! ### The logger -/

/-- A file that was rotated, by its content and whether it has been compressed. -/
structure LogFile where
  content : Str
  compressed : Bool
  deriving DecidableEq

/-- What is in memory; the files, oldest first; the hash that was saved, if any; and the content of
the files that were pruned. -/
structure State where
  node : Str
  seq : ℕ
  prevHash : Str
  /-- `_buf.lines` -/
  lines : List Str
  /-- the batches to be appended, the first of which is being appended -/
  waiters : List (List Str)
  /-- the batches that could not be appended and are not back in the buffer yet -/
  rejected : List (List Str)
  rotated : List LogFile
  current : Option Str
  saved : Option Str
  pruned : Str

def zeroHash : Str := List.replicate 64 '0'

/-- A node without a log. -/
def start (node : Str) : State :=
  { node := node, seq := 0, prevHash := zeroHash, lines := [], waiters := [], rejected := []
    rotated := [], current := none, saved := none, pruned := [] }

/-- What comes of a rotation. -/
inductive Outcome
  /-- the file is compressed, and the oldest of the compressed files are pruned -/
  | done
  /-- the file could not be compressed, of which an empty file may be left -/
  | failed (torso : Bool)
  /-- the file could not be deleted when it had been compressed -/
  | doubled
  deriving DecidableEq

inductive Event
  /-- a line, and whether the rate limit allows for it -/
  | write (level : Level) (module fileRef : Value) (message ts : Str) (allowed : Bool)
  /-- the buffer is flushed -/
  | flush
  /-- a batch is appended -/
  | append
  /-- a batch is not appended, of which some characters may have been written -/
  | fail (written : ℕ)
  /-- a batch that was not appended is put back into the buffer -/
  | requeue
  /-- the file is rotated, before a batch is appended -/
  | rotate (outcome : Outcome)
  /-- the hash of the latest line is saved, at the end of a shutdown -/
  | save
  /-- the process ends, in whatever way, and is started again; whether what was saved can be read -/
  | restart (readable : Bool) (node : Str)

section

variable (P : Platform)

/-- `JSON.stringify` for the value of a member. -/
def Value.json? : Value → Option (Option Json)
  | .undefined => some none
  | .json v _ => some (some v)
  | .throws => none

/-- Whether a line is written at all. -/
def logged (level : Level) (allowed : Bool) : Bool := P.minLevel.rank ≤ level.rank && allowed

def _write (s : State) (level : Level) (module fileRef : Value) (message ts : Str)
    (allowed : Bool) : State :=
  if logged P level allowed then
    let seq := s.seq + 1
    match module.json?, fileRef.json? with
    | some module, some fileRef =>
        let entry := newEntry ts level module fileRef seq s.node (P.filterSensitive message)
        let hash := chainHash P s.prevHash entry
        { s with seq := seq, prevHash := hash, lines := s.lines ++ [entryLine P entry hash] }
    | _, _ => { s with seq := seq }
  else s

def _flushBuffer (s : State) : State :=
  if s.lines = [] then s else { s with lines := [], waiters := s.waiters ++ [s.lines] }

/-- The compressed files that are too many, oldest first, and the others. -/
def prune : ℕ → List LogFile → List LogFile × List LogFile
  | 0, files => ([], files)
  | _, [] => ([], [])
  | n + 1, file :: files =>
      if file.compressed then
        let (removed, kept) := prune n files
        (file :: removed, kept)
      else
        let (removed, kept) := prune (n + 1) files
        (removed, file :: kept)

def _pruneOldLogs (files : List LogFile) : List LogFile × List LogFile :=
  prune (files.countP (·.compressed) - P.maxFiles) files

def contents (files : List LogFile) : Str := files.flatMap (·.content)

/-- The files once the current one has been rotated. -/
def renamed (s : State) (content : Str) : Outcome → List LogFile
  | .done => s.rotated ++ [⟨content, true⟩]
  | .failed torso => s.rotated ++ ⟨content, false⟩ :: if torso then [⟨[], true⟩] else []
  | .doubled => s.rotated ++ [⟨content, false⟩, ⟨content, true⟩]

/-- `_rotate`; nothing is pruned where something has gone wrong. -/
def _rotate (s : State) (content : Str) (outcome : Outcome) : State :=
  let files := renamed s content outcome
  match outcome with
  | .done =>
      let (removed, kept) := _pruneOldLogs P files
      { s with rotated := kept, current := none, pruned := s.pruned ++ contents removed }
  | _ => { s with rotated := files, current := none }

/-- `_loadHashChain` -/
def _loadHashChain (s : State) (readable : Bool) : Str :=
  match s.saved with
  | some hash => if readable ∧ hash.length = 64 then hash else zeroHash
  | none => zeroHash

/-- `appendFile` -/
def appendFile (s : State) (content : Str) : State :=
  { s with current := some (s.current.getD [] ++ content) }

def step (s : State) : Event → Option State
  | .write level module fileRef message ts allowed =>
      some (_write P s level module fileRef message ts allowed)
  | .flush => some (_flushBuffer s)
  | .append =>
      match s.waiters with
      | batch :: waiters => some (appendFile { s with waiters := waiters } batch.flatten)
      | [] => none
  | .fail written =>
      match s.waiters with
      | batch :: waiters =>
          let s' := { s with waiters := waiters, rejected := s.rejected ++ [batch] }
          some (if written = 0 then s' else appendFile s' (batch.flatten.take written))
      | [] => none
  | .requeue =>
      match s.rejected with
      | batch :: rejected => some { s with rejected := rejected, lines := batch ++ s.lines }
      | [] => none
  | .rotate outcome =>
      match s.waiters, s.current with
      | _ :: _, some content => some (_rotate P s content outcome)
      | _, _ => none
  | .save => some { s with saved := some s.prevHash }
  | .restart readable node =>
      some
        { s with
          node := node, seq := 0, prevHash := _loadHashChain s readable
          lines := [], waiters := [], rejected := [] }

/-! ### The verifier -/

/-- The text of the log, with the files that were pruned. -/
def State.text (s : State) : Str := s.pruned ++ contents s.rotated ++ s.current.getD []

/-- What of a line is hashed: everything but the hash and the signature. -/
def signed (m : List (Str × Json)) : Obj :=
  (m.filter fun e => e.1 ≠ "hash".toList ∧ e.1 ≠ "sig".toList).map fun e => (e.1, some e.2)

/-- The hash that a line has. -/
def hash? (line : Str) : Option Str :=
  (Json.parse line).bind fun v => Json.string? (v.get? "hash".toList)

/-- The hash of a line, if it is the one that it should have. -/
def verifyLine (prevHash line : Str) : Option Str :=
  match Json.parse line with
  | some (.obj m) =>
      (Json.string? (Js.lookup "hash".toList m)).filter
        fun hash => decide (P.sha256 (prevHash ++ _stableStringify (signed m)) = hash)
  | _ => none

/-- The hash of the last line, if all lines have the hash that they should have. -/
def verify (lines : List Str) : Option Str := lines.foldlM (verifyLine P) zeroHash

/-- **The log is one chain**: the verifier objects to no line. -/
def Unbroken (s : State) : Prop := (verify P (Js.nonemptyLines s.text)).isSome

/-! ### What every step should meet -/

/-- The hash of the last line in the files. -/
def lastHash (s : State) : Str :=
  match (Js.nonemptyLines s.text).getLast? with
  | some line => (hash? line).getD []
  | none => zeroHash

def Value.given : Value → Bool
  | .undefined => false
  | _ => true

/-- The files that are pruned are the oldest. -/
def PrunesOldest (files : List LogFile) : Prop :=
  (_pruneOldLogs P files).1 ++ (_pruneOldLogs P files).2 = files

instance (files : List LogFile) : Decidable (PrunesOldest P files) :=
  inferInstanceAs (Decidable (_ = _))

/-- Lines have a module and a file; nothing is flushed while a batch has to be put back; a batch
that cannot be appended is the only one, and nothing of it is written; a rotation loses nothing but
the oldest lines, and doubles none; and a process starts with the hash of the last line. -/
def Safe (s : State) : Event → Prop
  | .write level module fileRef _ _ allowed =>
      logged P level allowed = true → module.given = true ∧ fileRef.given = true
  | .flush => s.lines = [] ∨ s.rejected = []
  | .fail written => written = 0 ∧ s.waiters.length ≤ 1
  | .rotate .done => PrunesOldest P (renamed s (s.current.getD []) .done)
  | .rotate .doubled => s.current = some []
  | .restart readable _ => _loadHashChain s readable = lastHash s
  | _ => True

instance (s : State) (e : Event) : Decidable (Safe P s e) :=
  match e with
  | .write .. => inferInstanceAs (Decidable (_ → _))
  | .flush => inferInstanceAs (Decidable (_ ∨ _))
  | .fail _ => inferInstanceAs (Decidable (_ ∧ _))
  | .rotate .done => inferInstanceAs (Decidable (PrunesOldest P _))
  | .rotate (.failed _) => isTrue trivial
  | .rotate .doubled => inferInstanceAs (Decidable (_ = _))
  | .restart .. => inferInstanceAs (Decidable (_ = _))
  | .append => isTrue trivial
  | .requeue => isTrue trivial
  | .save => isTrue trivial

end

/-! ### A line continues its chain -/

section

variable {P : Platform} {prevHash hash : Str} {es : List (Str × Json)}

/-- An object without members that are `undefined`. -/
def given (es : List (Str × Json)) : Obj := es.map fun e => (e.1, some e.2)

theorem toJson_given (es : List (Str × Json)) : toJson (given es) = .obj es := by
  rw [toJson, given, List.filterMap_map]
  simp

/-- Members that can be hashed, printed and read again. -/
structure Hashable (es : List (Str × Json)) : Prop where
  nodup : (es.map Prod.fst).Nodup
  plain : ∀ e ∈ es, e.2.plain = true
  not_hash : "hash".toList ∉ es.map Prod.fst
  not_sig : "sig".toList ∉ es.map Prod.fst

/-- The hash, and the signature if there is one. -/
def suffix (hash : Str) (sig : Option Str) : List (Str × Json) :=
  ("hash".toList, .str hash) :: (sig.map fun sig => ("sig".toList, Json.str sig)).toList

theorem Hashable.nodup_append (h : Hashable es) (hash : Str) (sig : Option Str) :
    ((es ++ suffix hash sig).map Prod.fst).Nodup := by
  rw [List.map_append, List.nodup_append]
  refine ⟨h.nodup, ?_, ?_⟩
  · cases sig with
    | none => exact List.nodup_singleton _
    | some sig => simp [suffix]
  · rintro k hk k' hk' rfl
    cases sig with
    | none =>
        rw [suffix, List.map_cons, List.mem_cons] at hk'
        rcases hk' with rfl | hk'
        · exact h.not_hash hk
        · cases hk'
    | some sig =>
        simp only [suffix, Option.map_some, Option.toList_some, List.map_cons, List.map_nil,
          List.mem_cons, List.not_mem_nil, or_false] at hk'
        rcases hk' with rfl | rfl
        · exact h.not_hash hk
        · exact h.not_sig hk

theorem Hashable.plain_append (h : Hashable es) (hash : Str) (sig : Option Str) :
    (Json.obj (es ++ suffix hash sig)).plain = true := by
  refine Json.plain_obj.2 ⟨h.nodup_append hash sig, fun e he => ?_⟩
  rcases List.mem_append.1 he with he | he
  · exact h.plain e he
  · cases sig with
    | none =>
        rw [suffix, List.mem_cons] at he
        rcases he with rfl | he
        · rfl
        · cases he
    | some sig =>
        simp only [suffix, Option.map_some, Option.toList_some, List.mem_cons, List.not_mem_nil,
          or_false] at he
        rcases he with rfl | rfl
        · rfl
        · rfl

/-- **What of a line is hashed is the entry that it was made from.** -/
theorem Hashable.signed_append (h : Hashable es) (hash : Str) (sig : Option Str) :
    signed (es ++ suffix hash sig) = given es := by
  have hes : es.filter (fun e => e.1 ≠ "hash".toList ∧ e.1 ≠ "sig".toList) = es := by
    refine List.filter_eq_self.2 fun e he => decide_eq_true ⟨?_, ?_⟩
    · exact fun heq => h.not_hash (heq ▸ List.mem_map_of_mem he)
    · exact fun heq => h.not_sig (heq ▸ List.mem_map_of_mem he)
  have hsuffix : (suffix hash sig).filter
      (fun e => e.1 ≠ "hash".toList ∧ e.1 ≠ "sig".toList) = [] := by
    cases sig with
    | none => simp [suffix]
    | some sig => simp [suffix]
  rw [signed, List.filter_append, hes, hsuffix, List.append_nil]
  rfl

/-- The text of a line, without the line break. -/
def lineText (es : List (Str × Json)) (hash : Str) (sig : Option Str) : Str :=
  (Json.obj (es ++ suffix hash sig)).stringify

theorem entryLine_given (P : Platform) (es : List (Str × Json)) (hash : Str) :
    ∃ sig, entryLine P (given es) hash = lineText es hash sig ++ ['
'] := by
  rw [entryLine]
  have hentry (extra : List (Str × Json)) :
      toJson (given es ++ given extra) = .obj (es ++ extra) := by
    rw [given, given, ← List.map_append]
    exact toJson_given _
  cases (P._signEntry (_stableStringify (given es ++
      [("hash".toList, some (.str hash))]))).filter (· ≠ []) with
  | none =>
      refine ⟨none, ?_⟩
      rw [lineText, suffix, ← hentry]
      rfl
  | some sig =>
      refine ⟨some sig, ?_⟩
      rw [lineText, suffix, ← hentry]
      simp only [List.append_assoc]
      rfl

/-- **A line continues the chain it was made for.** -/
theorem Hashable.verifyLine_lineText (h : Hashable es) (sig : Option Str)
    (hhash : chainHash P prevHash (given es) = hash) :
    verifyLine P prevHash (lineText es hash sig) = some hash := by
  have hmem : ("hash".toList, Json.str hash) ∈ es ++ suffix hash sig :=
    List.mem_append_right _ List.mem_cons_self
  rw [verifyLine, lineText, Json.parse_stringify (h.plain_append hash sig)]
  simp only [Js.lookup_of_mem (h.nodup_append hash sig) hmem, h.signed_append, Json.string?_str]
  rw [chainHash] at hhash
  rw [Option.filter_some, if_pos (decide_eq_true hhash)]

theorem hash?_of_verifyLine {line : Str} (h : verifyLine P prevHash line = some hash) :
    hash? line = some hash := by
  rw [verifyLine] at h
  rw [hash?]
  split at h
  · next m hparse =>
      rw [hparse]
      exact (Option.filter_eq_some_iff.1 h).1
  · cases h

/-! ### Chains -/

theorem verify_append (lines lines' : List Str) :
    verify P (lines ++ lines') =
      (verify P lines).bind fun hash => lines'.foldlM (verifyLine P) hash :=
  List.foldlM_append

theorem lastHash_eq_of_verify {s : State} (h : verify P (Js.nonemptyLines s.text) = some hash) :
    lastHash s = hash := by
  rw [lastHash]
  rcases List.eq_nil_or_concat (Js.nonemptyLines s.text) with hnil | ⟨lines, line, hconcat⟩
  · rw [hnil] at h ⊢
    exact Option.some.inj h
  · rw [List.concat_eq_append] at hconcat
    rw [hconcat] at h ⊢
    rw [verify_append] at h
    obtain ⟨prev, -, hlast⟩ := Option.bind_eq_some_iff.1 h
    obtain ⟨_, hline, hnil⟩ := Option.bind_eq_some_iff.1 hlast
    cases hnil
    simp [hash?_of_verifyLine hline]

/-- The lines that are not in a file yet, in their order. -/
def pending (s : State) : List Str := s.rejected.flatten ++ s.waiters.flatten ++ s.lines

/-- The files and the lines that are not in a file yet. -/
def whole (s : State) : Str := s.text ++ (pending s).flatten

/-- **The files, the batches and the buffer are one chain**, which ends with the hash in memory; and
while a batch has to be put back, there is no other. -/
structure Inv (P : Platform) (s : State) : Prop where
  complete : Js.Complete s.text
  lines : ∀ line ∈ pending s, Js.Complete line
  chain : verify P (Js.nonemptyLines (whole s)) = some s.prevHash
  order : s.rejected = [] ∨ s.waiters = [] ∧ ∃ batch, s.rejected = [batch]

variable {s s' : State}

theorem complete_flatten {lines : List Str} (h : ∀ line ∈ lines, Js.Complete line) :
    Js.Complete lines.flatten := by
  induction lines with
  | nil => exact Js.complete_nil
  | cons line lines ih =>
      rw [List.flatten_cons]
      exact (h line List.mem_cons_self).append (ih fun l hl => h l (List.mem_cons_of_mem _ hl))

theorem Inv.complete_whole (h : Inv P s) : Js.Complete (whole s) :=
  h.complete.append (complete_flatten h.lines)

/-- **The files are a chain**, as they are the beginning of one. -/
theorem Inv.verify_text (h : Inv P s) :
    ∃ hash, verify P (Js.nonemptyLines s.text) = some hash := by
  have hchain := h.chain
  rw [whole, Js.nonemptyLines_append h.complete, verify_append] at hchain
  obtain ⟨hash, hhash, -⟩ := Option.bind_eq_some_iff.1 hchain
  exact ⟨hash, hhash⟩

theorem Inv.unbroken (h : Inv P s) : Unbroken P s := by
  obtain ⟨hash, hhash⟩ := h.verify_text
  rw [Unbroken, hhash]
  rfl

theorem Inv.of_whole (h : Inv P s) (hwhole : whole s' = whole s) (hprev : s'.prevHash = s.prevHash)
    (hcomplete : Js.Complete s'.text) (hlines : ∀ line ∈ pending s', line ∈ pending s)
    (horder : s'.rejected = [] ∨ s'.waiters = [] ∧ ∃ batch, s'.rejected = [batch]) : Inv P s' where
  complete := hcomplete
  lines line hline := h.lines line (hlines line hline)
  chain := by rw [hwhole, hprev, h.chain]
  order := horder

theorem inv_start (P : Platform) (node : Str) : Inv P (start node) where
  complete := Js.complete_nil
  lines line hline := by cases hline
  chain := rfl
  order := Or.inl rfl

/-! ### One step -/

/-- The keys of an entry. -/
def entryKeys : List Str :=
  ["ts".toList, "level".toList, "severity".toList, "module".toList, "file".toList, "seq".toList,
    "node".toList, "message".toList]

theorem distinct_entryKeys :
    entryKeys.Nodup ∧ "hash".toList ∉ entryKeys ∧ "sig".toList ∉ entryKeys := by decide

theorem hashable_newEntry {module fileRef : Json} (hmodule : module.plain = true)
    (hfile : fileRef.plain = true) (ts : Str) (level : Level) (seq : ℕ) (node safeMsg : Str) :
    ∃ es, newEntry ts level (some module) (some fileRef) seq node safeMsg = given es ∧
      Hashable es := by
  refine ⟨[("ts".toList, .str ts), ("level".toList, .str level.name),
    ("severity".toList, .str level.name), ("module".toList, module), ("file".toList, fileRef),
    ("seq".toList, .str (Js.numeral seq)), ("node".toList, .str node),
    ("message".toList, .str safeMsg)], rfl, ?_⟩
  obtain ⟨hnodup, hhash, hsig⟩ := distinct_entryKeys
  refine ⟨hnodup, fun e he => ?_, hhash, hsig⟩
  simp only [List.mem_cons, List.not_mem_nil, or_false] at he
  rcases he with rfl | rfl | rfl | rfl | rfl | rfl | rfl | rfl
  all_goals first | rfl | assumption

theorem Inv.logged {es : List (Str × Json)} (h : Inv P s) (hes : Hashable es)
    (hhash : chainHash P s.prevHash (given es) = hash) (seq : ℕ) :
    Inv P { s with
      seq := seq, prevHash := hash, lines := s.lines ++ [entryLine P (given es) hash] } := by
  obtain ⟨sig, hline⟩ := entryLine_given P es hash
  have hplain := hes.plain_append hash sig
  have hnewline : '\n' ∉ lineText es hash sig := Json.newline_not_mem_stringify hplain
  have hne : lineText es hash sig ≠ [] := by
    obtain ⟨c, t, hhead, -⟩ := Json.stringify_head _ hplain
    rw [lineText, hhead]
    exact List.cons_ne_nil c t
  have hpending : pending { s with
      seq := seq, prevHash := hash, lines := s.lines ++ [entryLine P (given es) hash] } =
      pending s ++ [entryLine P (given es) hash] := (List.append_assoc _ _ _).symm
  have hwhole : whole { s with
      seq := seq, prevHash := hash, lines := s.lines ++ [entryLine P (given es) hash] } =
      whole s ++ (lineText es hash sig ++ ['\n']) := by
    rw [whole, whole, hpending, List.flatten_append, ← List.append_assoc, List.flatten_singleton,
      hline]
    rfl
  refine ⟨h.complete, fun line hmem => ?_, ?_, h.order⟩
  · rw [hpending, List.mem_append, List.mem_singleton] at hmem
    rcases hmem with hmem | rfl
    · exact h.lines line hmem
    · rw [hline]
      exact Js.complete_line _
  · rw [hwhole, Js.nonemptyLines_append h.complete_whole,
      Js.nonemptyLines_line hnewline hne, verify_append, h.chain, Option.bind_some,
      List.foldlM_cons, hes.verifyLine_lineText sig hhash]
    rfl

/-- **A line that is written continues the chain.** -/
theorem Inv._write {level : Level} {module fileRef : Value} {message ts : Str} {allowed : Bool}
    (h : Inv P s)
    (hgiven : Logger.logged P level allowed = true →
      module.given = true ∧ fileRef.given = true) :
    Inv P (_write P s level module fileRef message ts allowed) := by
  rw [Logger._write]
  split
  · next hlogged =>
      obtain ⟨hmodule, hfile⟩ := hgiven hlogged
      have hthrows (seq : ℕ) : Inv P { s with seq := seq } :=
        h.of_whole rfl rfl h.complete (fun line hline => hline) h.order
      cases module with
      | undefined => cases hmodule
      | throws => exact hthrows _
      | json m hm =>
          cases fileRef with
          | undefined => cases hfile
          | throws => exact hthrows _
          | json f hf =>
              obtain ⟨es, hentry, hes⟩ := hashable_newEntry hm hf ts level (s.seq + 1) s.node
                (P.filterSensitive message)
              simp only [Value.json?, hentry]
              exact h.logged hes rfl _
  · exact h

theorem Inv._flushBuffer (h : Inv P s) (hsafe : s.lines = [] ∨ s.rejected = []) :
    Inv P (_flushBuffer s) := by
  rw [Logger._flushBuffer]
  split
  · exact h
  · next hne =>
      have hrejected := hsafe.resolve_left hne
      have hpending : pending { s with lines := [], waiters := s.waiters ++ [s.lines] } =
          pending s := by simp [pending]
      refine h.of_whole ?_ rfl h.complete ?_ (Or.inl hrejected)
      · rw [whole, whole, hpending]
        rfl
      · rw [hpending]
        exact fun line hline => hline

theorem text_appendFile (s : State) (content : Str) :
    (appendFile s content).text = s.text ++ content := by
  simp [State.text, appendFile]

/-- **A batch that is appended** is the first of what was not in a file. -/
theorem Inv.append {batch : List Str} {waiters : List (List Str)} (h : Inv P s)
    (hwaiters : s.waiters = batch :: waiters) :
    Inv P (appendFile { s with waiters := waiters } batch.flatten) := by
  have hrejected : s.rejected = [] := by
    rcases h.order with hnone | ⟨hnil, -⟩
    · exact hnone
    · rw [hnil] at hwaiters
      cases hwaiters
  have hpending : pending s =
      batch ++ pending (appendFile { s with waiters := waiters } batch.flatten) := by
    simp [pending, appendFile, hrejected, hwaiters]
  have hbatch : Js.Complete batch.flatten := complete_flatten fun line hline =>
    h.lines line (hpending ▸ List.mem_append_left _ hline)
  refine h.of_whole ?_ rfl ?_ (fun line hline => ?_) (Or.inl hrejected)
  · rw [whole, whole, text_appendFile, hpending, List.flatten_append, List.append_assoc]
    rfl
  · rw [text_appendFile]
    exact Js.Complete.append h.complete hbatch
  · rw [hpending]
    exact List.mem_append_right _ hline

theorem Inv.fail {batch : List Str} {waiters : List (List Str)} (h : Inv P s)
    (hwaiters : s.waiters = batch :: waiters) (hlast : s.waiters.length ≤ 1) :
    Inv P { s with waiters := waiters, rejected := s.rejected ++ [batch] } := by
  have hnil : waiters = [] := by
    rw [hwaiters, List.length_cons] at hlast
    exact List.eq_nil_of_length_eq_zero (by omega)
  have hrejected : s.rejected = [] := by
    rcases h.order with hnone | ⟨hnil, -⟩
    · exact hnone
    · rw [hnil] at hwaiters
      cases hwaiters
  have hpending : pending { s with waiters := waiters, rejected := s.rejected ++ [batch] } =
      pending s := by
    simp [pending, hrejected, hwaiters, hnil]
  refine h.of_whole ?_ rfl h.complete ?_ (Or.inr ⟨hnil, batch, ?_⟩)
  · rw [whole, whole, hpending]
    rfl
  · rw [hpending]
    exact fun line hline => hline
  · rw [hrejected]
    rfl

theorem Inv.requeue {batch : List Str} {rejected : List (List Str)} (h : Inv P s)
    (hbatch : s.rejected = batch :: rejected) :
    Inv P { s with rejected := rejected, lines := batch ++ s.lines } := by
  obtain ⟨hwaiters, only, honly⟩ : s.waiters = [] ∧ ∃ batch, s.rejected = [batch] := by
    rcases h.order with hnone | hone
    · rw [hnone] at hbatch
      cases hbatch
    · exact hone
  have hnil : rejected = [] := by
    rw [honly] at hbatch
    exact (List.cons.inj hbatch).2.symm
  have hpending : pending { s with rejected := rejected, lines := batch ++ s.lines } =
      pending s := by
    simp [pending, hbatch, hwaiters, hnil]
  refine h.of_whole ?_ rfl h.complete ?_ (Or.inl hnil)
  · rw [whole, whole, hpending]
    rfl
  · rw [hpending]
    exact fun line hline => hline

/-- **A rotation leaves the text of the log as it is**, with the files that are pruned. -/
theorem text_rotate {content : Str} {outcome : Outcome} (hcurrent : s.current = some content)
    (hsafe : Safe P s (.rotate outcome)) : (_rotate P s content outcome).text = s.text := by
  cases outcome with
  | done =>
      have hprune : PrunesOldest P (renamed s content .done) := by
        simpa [Safe, hcurrent] using hsafe
      have hcontents := congrArg contents hprune
      simp only [contents, List.flatMap_append] at hcontents
      simp only [State.text, _rotate, contents, hcurrent, Option.getD_none, Option.getD_some,
        List.append_nil, List.append_assoc, hcontents]
      simp [renamed]
  | failed torso =>
      cases torso with
      | false => simp [State.text, _rotate, contents, renamed, hcurrent]
      | true => simp [State.text, _rotate, contents, renamed, hcurrent]
  | doubled =>
      have hempty : content = [] := by
        have hsome : s.current = some [] := hsafe
        rw [hcurrent] at hsome
        exact Option.some.inj hsome
      simp [State.text, _rotate, contents, renamed, hcurrent, hempty]

theorem Inv._rotate {content : Str} {outcome : Outcome} (h : Inv P s)
    (hcurrent : s.current = some content) (hsafe : Safe P s (.rotate outcome)) :
    Inv P (_rotate P s content outcome) := by
  have htext := text_rotate hcurrent hsafe
  have hsame : (Logger._rotate P s content outcome).prevHash = s.prevHash ∧
      pending (Logger._rotate P s content outcome) = pending s ∧
      (Logger._rotate P s content outcome).rejected = s.rejected ∧
      (Logger._rotate P s content outcome).waiters = s.waiters := by
    cases outcome with
    | done => exact ⟨rfl, rfl, rfl, rfl⟩
    | failed torso => exact ⟨rfl, rfl, rfl, rfl⟩
    | doubled => exact ⟨rfl, rfl, rfl, rfl⟩
  obtain ⟨hprev, hpending, hrejected, hwaiters⟩ := hsame
  refine h.of_whole ?_ hprev ?_ ?_ ?_
  · rw [whole, whole, htext, hpending]
  · rw [htext]
    exact h.complete
  · rw [hpending]
    exact fun line hline => hline
  · rw [hrejected, hwaiters]
    exact h.order

/-- **A process that starts with the hash of the last line** goes on with its chain. -/
theorem Inv.restart {readable : Bool} (h : Inv P s) (node : Str)
    (hsafe : _loadHashChain s readable = lastHash s) :
    Inv P { s with
      node := node, seq := 0, prevHash := _loadHashChain s readable
      lines := [], waiters := [], rejected := [] } where
  complete := h.complete
  lines line hline := by cases hline
  chain := by
    obtain ⟨hash, hhash⟩ := h.verify_text
    have htext : whole { s with
        node := node, seq := 0, prevHash := _loadHashChain s readable
        lines := [], waiters := [], rejected := [] } = s.text := List.append_nil _
    rw [htext, hsafe, lastHash_eq_of_verify hhash, hhash]
  order := Or.inl rfl

/-- **One step keeps the invariant** if it is safe. -/
theorem Inv.step {e : Event} (h : Inv P s) (hsafe : Safe P s e)
    (hstep : Logger.step P s e = some s') : Inv P s' := by
  cases e with
  | write level module fileRef message ts allowed =>
      cases hstep
      exact h._write hsafe
  | flush =>
      cases hstep
      exact h._flushBuffer hsafe
  | append =>
      rw [Logger.step] at hstep
      split at hstep
      · next hwaiters =>
          cases hstep
          exact h.append hwaiters
      · cases hstep
  | fail written =>
      obtain ⟨rfl, hlast⟩ := hsafe
      rw [Logger.step] at hstep
      split at hstep
      · next hwaiters =>
          cases hstep
          exact h.fail hwaiters hlast
      · cases hstep
  | requeue =>
      rw [Logger.step] at hstep
      split at hstep
      · next hbatch =>
          cases hstep
          exact h.requeue hbatch
      · cases hstep
  | rotate outcome =>
      rw [Logger.step] at hstep
      split at hstep
      · next hcurrent =>
          cases hstep
          exact h._rotate hcurrent hsafe
      · cases hstep
  | save =>
      cases hstep
      exact h.of_whole rfl rfl h.complete (fun line hline => hline) h.order
  | restart readable node =>
      cases hstep
      exact h.restart node hsafe

/-- **The hash chain is unbroken while every step is safe.** -/
theorem unbroken_of_safe (P : Platform) (node : Str) (events : List Event)
    (hsafe : EveryStep (step P) (fun s e _ => Safe P s e) (start node) events) :
    EveryStep (step P) (fun _ _ s => Unbroken P s) (start node) events :=
  EveryStep.of_invariant (fun _ _ _ h hs hstep => ⟨h.step hs hstep, (h.step hs hstep).unbroken⟩)
    (inv_start P node) hsafe

/-! ### Where it breaks -/

/-- SHA-256, and nothing that is filtered out or signed. -/
def plainPlatform : Platform where
  sha256 := Js.Sha256.hex
  filterSensitive := id
  _signEntry _ := none
  minLevel := .info
  maxFiles := 1

def sampleLine : Event :=
  .write .info (.json (.str ['m']) rfl) (.json (.str ['f']) rfl) ['x'] ['t'] true

theorem unbroken_sample : EveryStep (step plainPlatform) (fun _ _ s => Unbroken plainPlatform s)
    (start ['n']) [sampleLine, .flush, .fail 0, sampleLine, .requeue, .flush, .append, .save,
      .restart true ['n'], sampleLine, .flush, .rotate .done, .append] :=
  unbroken_of_safe plainPlatform ['n'] _ (by decide +kernel)

theorem not_everyStep_unbroken {node : Str} {events : List Event} (hne : events ≠ [])
    (hrun : (Transition.run (step P) (start node) events).any
      (fun s => (verify P (Js.nonemptyLines s.text)).isNone) = true) :
    ¬ EveryStep (step P) (fun _ _ s => Unbroken P s) (start node) events := by
  intro hevery
  rw [← List.dropLast_concat_getLast hne] at hevery hrun
  obtain ⟨s, hs, hnone⟩ := hevery.exists_end hrun
  rw [Unbroken, Option.isSome_iff_ne_none] at hs
  exact hs (Option.isNone_iff_eq_none.1 hnone)

/-- After a crash the chain begins anew.  A batch that cannot be appended comes after the one behind
it.  A line without a file is hashed with one that is `undefined`. -/
theorem not_unbroken_sample :
    (¬ EveryStep (step plainPlatform) (fun _ _ s => Unbroken plainPlatform s) (start ['n'])
      [sampleLine, .flush, .append, .restart true ['n'], sampleLine, .flush, .append]) ∧
    (¬ EveryStep (step plainPlatform) (fun _ _ s => Unbroken plainPlatform s) (start ['n'])
      [sampleLine, .flush, sampleLine, .flush, .fail 0, .requeue, .append, .flush, .append]) ∧
    ¬ EveryStep (step plainPlatform) (fun _ _ s => Unbroken plainPlatform s) (start ['n'])
      [.write .info (.json (.str ['m']) rfl) .undefined ['x'] ['t'] true, .flush, .append] :=
  ⟨not_everyStep_unbroken (List.cons_ne_nil _ _) (by decide +kernel),
    not_everyStep_unbroken (List.cons_ne_nil _ _) (by decide +kernel),
    not_everyStep_unbroken (List.cons_ne_nil _ _) (by decide +kernel)⟩

end

end Logger
