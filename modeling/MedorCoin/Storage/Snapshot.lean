/-
**The snapshots of the storage engine.**

Every so many operations `storage.cjs` writes all entries of the database into a file, first under a
temporary name that it then replaces, empties the log, and removes old files.  When the storage is
opened, the entries of the snapshot whose name is the last in the order of texts are put into the
database again.

A snapshot may be left off at any point, by a crash or by an error that `_takeSnapshot` catches.

Main definitions:

* `Storage.snapshotText`, `Storage.readSnapshot?` — the text of a snapshot, and reading it;
* `Storage.latest`, `Storage.loadLatestSnapshot` — the snapshot that is loaded;
* `Storage.Stage`, `Storage.filesAt` — how far a snapshot gets, and the directory then.

Main results:

* `Storage.readSnapshot?_snapshotText` — **a snapshot is read back**;
* `Storage.loadLatestSnapshot_filesAt` — a snapshot that was renamed is the one that is loaded, if
  its name is the last.
-/

import Mathlib.Data.Char
import Mathlib.Data.List.Lex
import Mathlib.Data.List.Sort
import MedorCoin.Js.JsonParse
import MedorCoin.Js.Sha256

set_option autoImplicit false

namespace Storage

open Js

/-! ### The text of a snapshot -/

/-- The array of the entries. -/
def entriesJson (entries : List (Str × Str)) : Json :=
  .arr (entries.map fun e => .arr [.str e.1, .str e.2])

/-- `JSON.stringify({ data, checksum })` -/
def snapshotText (entries : List (Str × Str)) : Str :=
  let data := Json.stringify (entriesJson entries)
  Json.stringify (.obj [("data".toList, .str data), ("checksum".toList, .str (Sha256.hex data))])

/-- `const [k, v]` -/
def readEntry? : Json → Option (Str × Str)
  | .arr [.str key, .str value] => some (key, value)
  | _ => none

/-- The entries of a snapshot, `none` where reading throws an error. -/
def readSnapshot? (text : Str) : Option (List (Str × Str)) := do
  let snapshot ← Json.parse text
  let data ← Json.string? (snapshot.get? "data".toList)
  let checksum ← Json.string? (snapshot.get? "checksum".toList)
  if Sha256.hex data ≠ checksum then none
  else
    let entries ← Json.array? (Json.parse data)
    entries.mapM readEntry?

theorem plain_entriesJson (entries : List (Str × Str)) : Json.plain (entriesJson entries) := by
  refine Json.plain_arr.2 fun v hv => ?_
  obtain ⟨e, -, rfl⟩ := List.mem_map.1 hv
  rfl

theorem mapM_readEntry? (entries : List (Str × Str)) :
    (entries.map fun e => Json.arr [.str e.1, .str e.2]).mapM readEntry? = some entries := by
  induction entries with
  | nil => rfl
  | cons e entries ih =>
      rw [List.map_cons, List.mapM_cons, ih]
      rfl

/-- **A snapshot is read back.** -/
theorem readSnapshot?_snapshotText (entries : List (Str × Str)) :
    readSnapshot? (snapshotText entries) = some entries := by
  have hkeys : (["data".toList, "checksum".toList] : List Str).Nodup := by decide
  have hplain : Json.plain (.obj [("data".toList, .str (Json.stringify (entriesJson entries))),
      ("checksum".toList, .str (Sha256.hex (Json.stringify (entriesJson entries))))]) :=
    Json.plain_obj.2 ⟨hkeys, by simp [Json.plain]⟩
  rw [readSnapshot?, snapshotText, Json.parse_stringify hplain]
  change (if Sha256.hex (Json.stringify (entriesJson entries)) ≠
      Sha256.hex (Json.stringify (entriesJson entries)) then none
    else (Json.array? (Json.parse (Json.stringify (entriesJson entries)))).bind
      fun l => l.mapM readEntry?) = some entries
  rw [if_neg (not_not_intro rfl), Json.parse_stringify (plain_entriesJson entries)]
  exact mapM_readEntry? entries

/-! ### The snapshot directory -/

/-- The files of the directory, by their names. -/
abbrev Files := Js.Map Str Str

def finalName (now : ℕ) : Str := "snapshot_".toList ++ numeral now ++ ".json".toList

def tempName (now : ℕ) : Str := finalName now ++ ".tmp".toList

/-- The names `_loadLatestSnapshot` looks for. -/
def isSnapshot (name : Str) : Bool :=
  "snapshot_".toList.isPrefixOf name && ".json".toList.isSuffixOf name

/-- `names.sort().reverse()` -/
def newestFirst (names : List Str) : List Str := names.insertionSort (· ≥ ·)

/-- The name of the snapshot that is loaded. -/
def latest (files : Files) : Option Str := (newestFirst (files.keys.filter isSnapshot)).head?

/-- `_loadLatestSnapshot`: the entries to be put, `none` where it throws an error. -/
def loadLatestSnapshot (files : Files) : Option (List (Str × Str)) :=
  match latest files with
  | none => some []
  | some name => (files.get? name).bind readSnapshot?

/-- `_pruneOldSnapshots`, which gets as far as `n` of the files. -/
def prune (n : ℕ) (files : Files) : Files :=
  (((newestFirst files.keys).drop 2).take n).foldl Map.delete files

/-- How far a snapshot gets: nothing has been written, this much is in the temporary file, the file
has its name, the log has been emptied and so many old files removed. -/
inductive Stage
  | started
  | temp (text : Str)
  | renamed
  | truncated (pruned : ℕ)

/-- The file has its name. -/
def Stage.isRenamed : Stage → Bool
  | renamed => true
  | truncated _ => true
  | _ => false

/-- The log has been emptied. -/
def Stage.isTruncated : Stage → Bool
  | truncated _ => true
  | _ => false

/-- The temporary file takes its final name. -/
def rename (now : ℕ) (entries : List (Str × Str)) (files : Files) : Files :=
  (files.delete (tempName now)).set (finalName now) (snapshotText entries)

/-- The directory when a snapshot of these entries has got so far. -/
def filesAt (now : ℕ) (entries : List (Str × Str)) (files : Files) : Stage → Files
  | .started => files
  | .temp text => files.set (tempName now) text
  | .renamed => rename now entries files
  | .truncated n => prune n (rename now entries files)

/-- **The name of the snapshot is the last in the directory.** -/
def Last (now : ℕ) (files : Files) : Prop :=
  ∀ name ∈ files.keys, name ≠ tempName now → name ≤ finalName now

instance (now : ℕ) (files : Files) : Decidable (Last now files) :=
  inferInstanceAs (Decidable (∀ name ∈ files.keys, name ≠ tempName now → name ≤ finalName now))

variable {now : ℕ} {files : Files} {name : Str} {entries : List (Str × Str)}

theorem isSnapshot_finalName (now : ℕ) : isSnapshot (finalName now) := by
  have hfront : "snapshot_".toList <+: finalName now :=
    ⟨numeral now ++ ".json".toList, (List.append_assoc _ _ _).symm⟩
  have hsuffix : ".json".toList <:+ finalName now := ⟨"snapshot_".toList ++ numeral now, rfl⟩
  rw [isSnapshot, Bool.and_eq_true, List.isPrefixOf_iff_prefix, List.isSuffixOf_iff_suffix]
  exact ⟨hfront, hsuffix⟩

theorem isSnapshot_tempName (now : ℕ) : isSnapshot (tempName now) = false := by
  have hnot : ¬ ".json".toList <:+ tempName now := by
    rintro ⟨s, hs⟩
    have hlast : (s ++ ".json".toList).getLast? = (tempName now).getLast? := by rw [hs]
    rw [tempName, List.getLast?_append_of_ne_nil _ (by decide),
      List.getLast?_append_of_ne_nil _ (by decide)] at hlast
    exact absurd hlast (by decide)
  have hsuffix : ".json".toList.isSuffixOf (tempName now) = false := by
    rw [← Bool.not_eq_true, List.isSuffixOf_iff_suffix]
    exact hnot
  rw [isSnapshot, hsuffix, Bool.and_false]

theorem mem_newestFirst {names : List Str} : name ∈ newestFirst names ↔ name ∈ names :=
  List.mem_insertionSort _

theorem newestFirst_eq {names : List Str} (hmem : name ∈ names) (hlast : ∀ n ∈ names, n ≤ name) :
    ∃ rest, newestFirst names = name :: rest := by
  have hsorted : (newestFirst names).Pairwise (· ≥ ·) := List.pairwise_insertionSort _ names
  have hname : name ∈ newestFirst names := mem_newestFirst.2 hmem
  cases hnames : newestFirst names with
  | nil =>
      rw [hnames] at hname
      cases hname
  | cons first rest =>
      rw [hnames] at hsorted hname
      have hfirst : first ≤ name := hlast first (mem_newestFirst.1 (hnames ▸ List.mem_cons_self))
      have hge : name ≤ first := by
        rcases List.mem_cons.1 hname with rfl | hname
        · exact le_refl _
        · exact List.rel_of_pairwise_cons hsorted hname
      exact ⟨rest, by rw [le_antisymm hfirst hge]⟩

theorem latest_eq (hmem : name ∈ files.keys) (hsnapshot : isSnapshot name)
    (hlast : ∀ n ∈ files.keys, n ≤ name) : latest files = some name := by
  have hselected : name ∈ files.keys.filter isSnapshot := List.mem_filter.2 ⟨hmem, hsnapshot⟩
  obtain ⟨rest, hrest⟩ := newestFirst_eq hselected fun n hn => hlast n (List.mem_filter.1 hn).1
  rw [latest, hrest]
  rfl

theorem loadLatestSnapshot_congr {files' : Files}
    (hkeys : files'.keys.filter isSnapshot = files.keys.filter isSnapshot)
    (hget : ∀ name, isSnapshot name → files'.get? name = files.get? name) :
    loadLatestSnapshot files' = loadLatestSnapshot files := by
  have hlatest : latest files' = latest files := by rw [latest, hkeys, latest]
  rw [loadLatestSnapshot, loadLatestSnapshot, hlatest]
  cases hname : latest files with
  | none => rfl
  | some name =>
      have hmem : name ∈ files.keys.filter isSnapshot :=
        mem_newestFirst.1 (List.mem_of_mem_head? hname)
      simp only [hget name (List.mem_filter.1 hmem).2]

theorem ne_tempName (h : isSnapshot name) : tempName now ≠ name := by
  rintro rfl
  rw [isSnapshot_tempName] at h
  cases h

theorem loadLatestSnapshot_set_tempName (now : ℕ) (files : Files) (text : Str) :
    loadLatestSnapshot (files.set (tempName now) text) = loadLatestSnapshot files :=
  loadLatestSnapshot_congr (Map.filter_keys_set (isSnapshot_tempName now) files text)
    fun _ hname => Map.get?_set_of_ne files text (ne_tempName hname)

theorem loadLatestSnapshot_delete_tempName (now : ℕ) (files : Files) :
    loadLatestSnapshot (files.delete (tempName now)) = loadLatestSnapshot files :=
  loadLatestSnapshot_congr (Map.filter_keys_delete (isSnapshot_tempName now) files)
    fun name hname => by rw [Map.get?_delete, if_neg (ne_tempName hname)]

theorem mem_keys_rename : finalName now ∈ (rename now entries files).keys :=
  Map.mem_keys_set.2 (Or.inr rfl)

theorem Last.rename (h : Last now files) (entries : List (Str × Str)) :
    ∀ name ∈ (rename now entries files).keys, name ≤ finalName now := by
  intro name hname
  rcases Map.mem_keys_set.1 hname with hname | rfl
  · obtain ⟨hmem, hne⟩ := Map.mem_keys_delete.1 hname
    exact h name hmem hne
  · exact le_refl _

theorem mem_keys_foldl_delete {names : List Str} :
    name ∈ (names.foldl Map.delete files).keys ↔ name ∈ files.keys ∧ name ∉ names := by
  induction names generalizing files with
  | nil => simp
  | cons n names ih =>
      rw [List.foldl_cons, ih, Map.mem_keys_delete, List.mem_cons, not_or, and_assoc]

theorem get?_foldl_delete {names : List Str} (h : name ∉ names) :
    (names.foldl Map.delete files).get? name = files.get? name := by
  induction names generalizing files with
  | nil => rfl
  | cons n names ih =>
      obtain ⟨hn, hnames⟩ := not_or.1 (List.mem_cons.not.1 h)
      rw [List.foldl_cons, ih hnames, Map.get?_delete, if_neg (Ne.symm hn)]

theorem loadLatestSnapshot_prune (hmem : name ∈ files.keys) (hsnapshot : isSnapshot name)
    (hlast : ∀ n ∈ files.keys, n ≤ name) (n : ℕ) :
    loadLatestSnapshot (prune n files) = loadLatestSnapshot files := by
  obtain ⟨rest, hrest⟩ := newestFirst_eq hmem hlast
  have hnodup : (newestFirst files.keys).Nodup :=
    (List.perm_insertionSort _ files.keys).nodup_iff.2 files.nodup
  rw [hrest] at hnodup
  have hkept : name ∉ ((newestFirst files.keys).drop 2).take n := by
    rw [hrest]
    exact fun h => (List.nodup_cons.1 hnodup).1 (List.mem_of_mem_drop (List.mem_of_mem_take h))
  have hmem' : name ∈ (prune n files).keys := mem_keys_foldl_delete.2 ⟨hmem, hkept⟩
  have hlast' : ∀ n' ∈ (prune n files).keys, n' ≤ name := fun n' hn' =>
    hlast n' (mem_keys_foldl_delete.1 hn').1
  rw [loadLatestSnapshot, loadLatestSnapshot, latest_eq hmem' hsnapshot hlast',
    latest_eq hmem hsnapshot hlast]
  simp only [prune, get?_foldl_delete hkept]

/-- **A snapshot that was renamed is the one that is loaded**, if its name is the last. -/
theorem loadLatestSnapshot_filesAt {stage : Stage} (h : stage.isRenamed → Last now files) :
    loadLatestSnapshot (filesAt now entries files stage) =
      if stage.isRenamed then some entries else loadLatestSnapshot files := by
  have hrename : Last now files → loadLatestSnapshot (rename now entries files) = some entries := by
    intro hlast
    rw [loadLatestSnapshot,
      latest_eq mem_keys_rename (isSnapshot_finalName now) (hlast.rename entries)]
    change ((rename now entries files).get? (finalName now)).bind readSnapshot? = some entries
    rw [rename, Map.get?_set_self]
    exact readSnapshot?_snapshotText entries
  cases stage with
  | started => rfl
  | temp text => exact loadLatestSnapshot_set_tempName now files text
  | renamed => exact hrename (h rfl)
  | truncated n =>
      exact (loadLatestSnapshot_prune mem_keys_rename (isSnapshot_finalName now)
        ((h rfl).rename entries) n).trans (hrename (h rfl))

end Storage
