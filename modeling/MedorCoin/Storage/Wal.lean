/-
**The write-ahead log of the storage engine.**

`storage.cjs` writes each operation as a line of JSON into a file before it passes it to the
database.  When the storage is opened, the lines are read and the operations done again.

Main definitions:

* `Storage.Operation` — the operations of `put` and `del`, with their JSON;
* `Storage.walEntry`, `Storage.readLines` — the line of an operation, and reading lines.

Main results:

* `Storage.readLines_walText` — **what was logged is read back**.
-/

import MedorCoin.Js.JsonParse
import MedorCoin.Js.Lines
import MedorCoin.Ledger.Disk

set_option autoImplicit false

namespace Storage

open Js Ledger

/-- What `put` and `del` put into the queue. -/
inductive Operation
  | put (key value : Str) (sync : Bool)
  | del (key : Str) (sync : Bool)
  deriving DecidableEq

namespace Operation

/-- What the operation does to the database. -/
def write : Operation → Write Str Str
  | put key value _ => .put key value
  | del key _ => .delete key

def sync : Operation → Bool
  | put _ _ sync => sync
  | del _ sync => sync

def toJson : Operation → Json
  | put key value sync =>
      .obj [("op".toList, .str "put".toList), ("key".toList, .str key),
        ("value".toList, .str value), ("sync".toList, .bool sync)]
  | del key sync =>
      .obj [("op".toList, .str "del".toList), ("key".toList, .str key), ("sync".toList, .bool sync)]

/-- The operation `_writeToDisk` takes a value for, if any. -/
def ofJson? (v : Json) : Option Operation :=
  match Json.string? (v.get? "op".toList), Json.string? (v.get? "key".toList),
    v.get? "sync".toList with
  | some op, some key, some (.bool sync) =>
      if op = "put".toList then (Json.string? (v.get? "value".toList)).map (put key · sync)
      else if op = "del".toList then some (del key sync)
      else none
  | _, _, _ => none

/-- `_writeToDisk(op)`, where the database accepts it. -/
def apply (db : Disk Str Str) (op : Operation) : Disk Str Str := db.write op.write op.sync

end Operation

/-- `JSON.stringify(operation) + "\n"` -/
def walEntry (op : Operation) : Str := Json.stringify op.toJson ++ ['\n']

/-- The text of a log. -/
def walText (ops : List Operation) : Str := ops.flatMap walEntry

/-- The operations of the lines, and whether all lines could be read.  What stands before a line
that cannot be read has been done by then. -/
def readLines : List Str → List Operation × Bool
  | [] => ([], true)
  | line :: lines =>
      match Json.parse line with
      | none => ([], false)
      | some .null => ([], false)
      | some v =>
          let rest := readLines lines
          ((Operation.ofJson? v).toList ++ rest.1, rest.2)

/-! ### Logged operations are read back -/

variable {op : Operation} {ops : List Operation}

theorem Operation.plain_toJson (op : Operation) : Json.plain op.toJson := by
  cases op with
  | put key value sync =>
      have hkeys : (["op".toList, "key".toList, "value".toList, "sync".toList] :
          List Str).Nodup := by decide
      exact Json.plain_obj.2 ⟨hkeys, by simp [Json.plain]⟩
  | del key sync =>
      have hkeys : (["op".toList, "key".toList, "sync".toList] : List Str).Nodup := by decide
      exact Json.plain_obj.2 ⟨hkeys, by simp [Json.plain]⟩

theorem Operation.stringify_toJson (op : Operation) :
    ∃ s, Json.stringify op.toJson = '{' :: s := by
  cases op with
  | put key value sync => exact ⟨_, rfl⟩
  | del key sync => exact ⟨_, rfl⟩

theorem walText_concat (ops : List Operation) (op : Operation) :
    walText (ops ++ [op]) = walText ops ++ walEntry op := by
  rw [walText, List.flatMap_append, List.flatMap_singleton]
  rfl

theorem nonblankLines_walText (ops : List Operation) :
    nonblankLines (walText ops) = ops.map fun op => Json.stringify op.toJson := by
  have hlines : ∀ line ∈ ops.map fun op => Json.stringify op.toJson,
      '\n' ∉ line ∧ line.all isBlank = false := by
    intro line hline
    obtain ⟨op, -, rfl⟩ := List.mem_map.1 hline
    refine ⟨Json.newline_not_mem_stringify op.plain_toJson, ?_⟩
    obtain ⟨s, hs⟩ := op.stringify_toJson
    rw [hs, List.all_cons]
    rfl
  rw [← nonblankLines_flatMap hlines, List.flatMap_map]
  rfl

theorem readLines_stringify (ops : List Operation) :
    readLines (ops.map fun op => Json.stringify op.toJson) = (ops, true) := by
  induction ops with
  | nil => rfl
  | cons op ops ih =>
      rw [List.map_cons, readLines, Json.parse_stringify op.plain_toJson, ih]
      cases op with
      | put key value sync => rfl
      | del key sync => rfl

/-- **What was logged is read back.** -/
theorem readLines_walText (ops : List Operation) :
    readLines (nonblankLines (decode (utf8 (walText ops)))) = (ops, true) := by
  rw [decode_utf8, nonblankLines_walText, readLines_stringify]

end Storage
