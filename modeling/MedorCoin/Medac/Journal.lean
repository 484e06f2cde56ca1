/-
**The journal of a chain.**

The store of `medac_store.cjs` keeps a chain as a text of one record per line: a header, which
names the network, and then the blocks.  A record carries its value as JSON text together with the
SHA-256 digest of that text, so that a record which was not written to its end is told from one
that was.

Main definitions:

* `Medac.encodeRecord`, `Medac.decodeRecord` — records;
* `Medac.decodeJournal` — the blocks of a journal whose lines are complete;
* `Medac.JournalText`, `Medac.Journal` — texts, and contents of files, that record a list of
  blocks; the latter may go on with a torn record.

Main results:

* `Medac.decodeRecord_recordLine` — **a record is read back**;
* `Medac.JournalText.append` — a record put at the end adds its block;
* `Medac.Journal.recordedBlocks_eq` — the blocks a file records do not depend on its torn end;
* `Medac.Journal.tear` — **a torn write leaves the journal as it was**.
-/

import MedorCoin.Js.Lines
import MedorCoin.Js.JsonParse
import MedorCoin.Medac.Block

set_option autoImplicit false

namespace Medac

open Js

def storeVersion : ℤ := 1

def maxStoreBytes : ℕ := 512 * 1024 * 1024

/-! ### Records -/

/-- The object whose text is a record. -/
def envelope (c : Crypto) (value : Json) : Json :=
  .obj [("payload".toList, .str (Json.stringify value)),
    ("checksum".toList, .str (c.sha256 (Json.stringify value)))]

/-- A record, without the line break that closes it. -/
def recordLine (c : Crypto) (value : Json) : Str := Json.stringify (envelope c value)

/-- **`encodeRecord`.** -/
def encodeRecord (c : Crypto) (value : Json) : Str := recordLine c value ++ ['\n']

/-- **`decodeRecord`.** -/
def decodeRecord (c : Crypto) (line : Str) : Except Error Json :=
  match Json.parse line with
  | none => throw (.error "MEDAC journal record is invalid JSON")
  | some envelope =>
      match Json.string? (envelope.get? "payload".toList),
        Json.string? (envelope.get? "checksum".toList) with
      | some payload, some checksum => do
          require (isLowerHex 64 checksum && c.sha256 payload == checksum)
            (.error "MEDAC journal checksum validation failed")
          match Json.parse payload with
          | some value => pure value
          | none => throw (.error "MEDAC journal payload is invalid JSON")
      | _, _ => throw (.error "MEDAC journal checksum validation failed")

/-- The first record of a journal. -/
def headerRecord (genesisHash : Str) : Json :=
  .obj [("type".toList, .str "header".toList), ("version".toList, .num storeVersion),
    ("networkId".toList, .str networkId), ("genesisHash".toList, .str genesisHash)]

/-- The record of a block. -/
def blockRecord (block : Json) : Json :=
  .obj [("type".toList, .str "block".toList), ("block".toList, block)]

/-- Read the first record of a journal. -/
def decodeHeader (c : Crypto) (genesisHash : Str) (line : Str) : Except Error Unit := do
  let header ← decodeRecord c line
  require (!isNull header) (.typeError "Cannot read properties of null (reading 'type')")
  require (Json.string? (header.get? "type".toList) == some "header".toList &&
      Json.safeInteger? (header.get? "version".toList) == some storeVersion &&
      Json.string? (header.get? "networkId".toList) == some networkId &&
      Json.string? (header.get? "genesisHash".toList) == some genesisHash)
    (.error "MEDAC journal belongs to another network or schema")

/-- Read the record of a block. -/
def decodeBlock (c : Crypto) (line : Str) : Except Error Json := do
  let record ← decodeRecord c line
  require (!isNull record) (.typeError "Cannot read properties of null (reading 'type')")
  match Json.string? (record.get? "type".toList) == some "block".toList,
    record.get? "block".toList with
  | true, some block => do
      require block.isObject (.error "MEDAC journal contains an invalid block record")
      return block
  | _, _ => throw (.error "MEDAC journal contains an invalid block record")

/-- The blocks of a journal whose lines are complete. -/
def decodeJournal (c : Crypto) (genesisHash : Str) (contents : Str) : Except Error (List Json) :=
  match nonemptyLines contents with
  | [] => throw (.error "MEDAC journal is empty")
  | line :: lines => do
      decodeHeader c genesisHash line
      lines.mapM (decodeBlock c)

/-- **The blocks a file records**, if it is the journal of the network. -/
def recordedBlocks (c : Crypto) (genesisHash : Str) (bytes : Bytes) : Except Error (List Json) :=
  decodeJournal c genesisHash (completePart (decode bytes))

/-- The values that are stored as blocks: objects that survive a trip through their text. -/
abbrev StoredBlock : Type := {v : Json // Json.plain v ∧ v.isObject}

/-! ### Records are read back -/

variable {c : Crypto} {g : Str} {L : List Json} {v : Json}

theorem plain_envelope (c : Crypto) (v : Json) : Json.plain (envelope c v) := by
  have hkeys : (["payload".toList, "checksum".toList] : List Str).Nodup := by decide
  refine Json.plain_obj.2 ⟨hkeys, ?_⟩
  simp [Json.plain]

theorem plain_headerRecord (g : Str) : Json.plain (headerRecord g) := by
  have hkeys : (["type".toList, "version".toList, "networkId".toList,
    "genesisHash".toList] : List Str).Nodup := by decide
  refine Json.plain_obj.2 ⟨hkeys, ?_⟩
  simp [Json.plain]

theorem plain_blockRecord {b : Json} (hb : Json.plain b) : Json.plain (blockRecord b) := by
  have hkeys : (["type".toList, "block".toList] : List Str).Nodup := by decide
  refine Json.plain_obj.2 ⟨hkeys, ?_⟩
  simp [Json.plain, hb]

theorem newline_not_mem_recordLine (c : Crypto) (v : Json) : '\n' ∉ recordLine c v :=
  Json.newline_not_mem_stringify (plain_envelope c v)

theorem recordLine_ne_nil (c : Crypto) (v : Json) : recordLine c v ≠ [] := by
  obtain ⟨d, s, hs, -⟩ := Json.stringify_head _ (plain_envelope c v)
  rw [recordLine, hs]
  exact List.cons_ne_nil d s

/-- **A record is read back.** -/
theorem decodeRecord_recordLine (hv : Json.plain v) : decodeRecord c (recordLine c v) = .ok v := by
  have hpayload : (envelope c v).get? "payload".toList = some (.str (Json.stringify v)) := by
    rw [envelope, Json.get?_obj, lookup_cons, if_pos rfl]
  have hchecksum : (envelope c v).get? "checksum".toList =
      some (.str (c.sha256 (Json.stringify v))) := by
    rw [envelope, Json.get?_obj, lookup_cons, if_neg (by decide), lookup_cons, if_pos rfl]
  have hvalid : (isLowerHex 64 (c.sha256 (Json.stringify v)) &&
      c.sha256 (Json.stringify v) == c.sha256 (Json.stringify v)) = true := by
    rw [c.isLowerHex_sha256, beq_self_eq_true, Bool.and_true]
  rw [decodeRecord, recordLine, Json.parse_stringify (plain_envelope c v)]
  simp only [hpayload, hchecksum, Json.string?_str]
  refine bind_require_eq_ok.2 ⟨hvalid, ?_⟩
  rw [Json.parse_stringify hv]
  rfl

theorem nonemptyLines_encodeRecord (c : Crypto) (v : Json) :
    nonemptyLines (encodeRecord c v) = [recordLine c v] :=
  nonemptyLines_line (newline_not_mem_recordLine c v) (recordLine_ne_nil c v)

theorem decodeHeader_recordLine (c : Crypto) (g : Str) :
    decodeHeader c g (recordLine c (headerRecord g)) = .ok () := by
  have hplain := plain_headerRecord g
  have hget : ∀ k, (headerRecord g).get? k = lookup k
      [("type".toList, Json.str "header".toList), ("version".toList, .num storeVersion),
        ("networkId".toList, .str networkId), ("genesisHash".toList, .str g)] := fun _ => rfl
  have htype : (headerRecord g).get? "type".toList = some (.str "header".toList) := by
    rw [hget, lookup_cons, if_pos rfl]
  have hversion : (headerRecord g).get? "version".toList = some (.num storeVersion) := by
    rw [hget, lookup_cons, if_neg (by decide), lookup_cons, if_pos rfl]
  have hnetwork : (headerRecord g).get? "networkId".toList = some (.str networkId) := by
    rw [hget, lookup_cons, if_neg (by decide), lookup_cons, if_neg (by decide), lookup_cons,
      if_pos rfl]
  have hgenesis : (headerRecord g).get? "genesisHash".toList = some (.str g) := by
    rw [hget, lookup_cons, if_neg (by decide), lookup_cons, if_neg (by decide), lookup_cons,
      if_neg (by decide), lookup_cons, if_pos rfl]
  rw [decodeHeader, decodeRecord_recordLine hplain, ok_bind]
  refine bind_require_eq_ok.2 ⟨rfl, require_true ?_⟩
  have hsafe : Json.safeInteger? (some (.num storeVersion)) = some storeVersion := by decide
  rw [htype, hversion, hnetwork, hgenesis, hsafe]
  simp

theorem decodeBlock_recordLine (c : Crypto) (b : StoredBlock) :
    decodeBlock c (recordLine c (blockRecord b.val)) = .ok b.val := by
  obtain ⟨b, hplain, hobject⟩ := b
  have hrecord := plain_blockRecord hplain
  have htype : (blockRecord b).get? "type".toList = some (.str "block".toList) := by
    rw [blockRecord, Json.get?_obj, lookup_cons, if_pos rfl]
  have hblock : (blockRecord b).get? "block".toList = some b := by
    rw [blockRecord, Json.get?_obj, lookup_cons, if_neg (by decide), lookup_cons, if_pos rfl]
  rw [decodeBlock, decodeRecord_recordLine hrecord, ok_bind]
  refine bind_require_eq_ok.2 ⟨rfl, ?_⟩
  rw [htype, hblock, Json.string?_str, beq_self_eq_true]
  exact bind_require_eq_ok.2 ⟨hobject, rfl⟩

/-! ### Journals -/

/-- A text that records a list of blocks. -/
structure JournalText (c : Crypto) (genesisHash : Str) (blocks : List Json) (t : Str) : Prop where
  complete : Complete t
  decode_eq : decodeJournal c genesisHash t = .ok blocks

/-- **A header is the journal of no blocks.** -/
theorem journalText_header (c : Crypto) (g : Str) :
    JournalText c g [] (encodeRecord c (headerRecord g)) where
  complete := complete_line _
  decode_eq := by
    rw [decodeJournal, nonemptyLines_encodeRecord]
    exact bind_eq_ok.2 ⟨(), decodeHeader_recordLine c g, rfl⟩

/-- **A record put at the end adds its block.** -/
theorem JournalText.append {t : Str} (h : JournalText c g L t) (b : StoredBlock) :
    JournalText c g (L ++ [b.val]) (t ++ encodeRecord c (blockRecord b.val)) where
  complete := h.complete.append (complete_line _)
  decode_eq := by
    have hdecode := h.decode_eq
    rw [decodeJournal] at hdecode ⊢
    rw [nonemptyLines_append h.complete, nonemptyLines_encodeRecord]
    cases hlines : nonemptyLines t with
    | nil =>
        rw [hlines] at hdecode
        cases hdecode
    | cons line lines =>
        rw [hlines] at hdecode
        obtain ⟨⟨⟩, hheader, hblocks⟩ := bind_eq_ok.1 hdecode
        refine bind_eq_ok.2 ⟨(), hheader, mapM_eq_ok_iff.2 ?_⟩
        exact List.rel_append (mapM_eq_ok_iff.1 hblocks)
          (List.Forall₂.cons (decodeBlock_recordLine c b) List.Forall₂.nil)

/-- The journal of a list of blocks, as `replace` writes it. -/
def journalText (c : Crypto) (genesisHash : Str) (blocks : List Json) : Str :=
  encodeRecord c (headerRecord genesisHash) ++
    blocks.flatMap fun block => encodeRecord c (blockRecord block)

theorem journalText_nil (c : Crypto) (g : Str) :
    journalText c g [] = encodeRecord c (headerRecord g) := by
  rw [journalText, List.flatMap_nil, List.append_nil]

theorem journalText_append (c : Crypto) (g : Str) (L L' : List Json) :
    journalText c g (L ++ L') =
      journalText c g L ++ L'.flatMap fun block => encodeRecord c (blockRecord block) := by
  simp only [journalText, List.flatMap_append, List.append_assoc]

theorem journalText_snoc (c : Crypto) (g : Str) (L : List Json) (b : Json) :
    journalText c g (L ++ [b]) = journalText c g L ++ encodeRecord c (blockRecord b) := by
  simp [journalText]

/-- **What `replace` writes records the blocks it was given.** -/
theorem journalText_journalText (c : Crypto) (g : Str) (L : List StoredBlock) :
    JournalText c g (L.map Subtype.val) (journalText c g (L.map Subtype.val)) := by
  induction L using List.reverseRecOn with
  | nil =>
      rw [List.map_nil, journalText_nil]
      exact journalText_header c g
  | append_singleton L b ih =>
      rw [List.map_append, List.map_singleton, journalText_snoc]
      exact ih.append b

/-- The contents of a file that records a list of blocks, perhaps with a torn record after it. -/
def Journal (c : Crypto) (genesisHash : Str) (blocks : List Json) (bytes : Bytes) : Prop :=
  ∃ t tail, JournalText c genesisHash blocks t ∧ (10 : UInt8) ∉ tail ∧ bytes = utf8 t ++ tail

theorem JournalText.journal {t : Str} (h : JournalText c g L t) : Journal c g L (utf8 t) :=
  ⟨t, [], h, List.not_mem_nil, (List.append_nil _).symm⟩

/-- **The blocks a file records do not depend on its torn end.** -/
theorem Journal.recordedBlocks_eq {bytes : Bytes} (h : Journal c g L bytes) :
    recordedBlocks c g bytes = .ok L := by
  obtain ⟨t, tail, ht, htail, rfl⟩ := h
  rw [recordedBlocks, completePart_decode ht.complete htail, ht.decode_eq]

theorem newline_not_mem_take {v : Json} {x : ℕ} (h : x < (utf8 (encodeRecord c v)).length) :
    (10 : UInt8) ∉ (utf8 (encodeRecord c v)).take x := by
  have hlen : (utf8 (encodeRecord c v)).length = (utf8 (recordLine c v)).length + 1 := by
    rw [encodeRecord, utf8_append, List.length_append]
    rfl
  rw [encodeRecord, utf8_append, List.take_append_of_le_length (by omega)]
  exact fun hmem => newline_not_mem_recordLine c v (newline_mem_utf8 (List.mem_of_mem_take hmem))

/-- **A torn write leaves the journal as it was**, a full one adds the block. -/
theorem JournalText.tear {t : Str} (h : JournalText c g L t) (b : StoredBlock) (x : ℕ) :
    Journal c g L (utf8 t ++ (utf8 (encodeRecord c (blockRecord b.val))).take x) ∨
      Journal c g (L ++ [b.val])
        (utf8 t ++ (utf8 (encodeRecord c (blockRecord b.val))).take x) := by
  rcases Nat.lt_or_ge x (utf8 (encodeRecord c (blockRecord b.val))).length with hlt | hge
  · exact Or.inl ⟨t, _, h, newline_not_mem_take hlt, rfl⟩
  · rw [List.take_of_length_le hge, ← utf8_append]
    exact Or.inr (h.append b).journal

/-! ### Sizes -/

theorem byteLength_le (s : Str) : byteLength s ≤ 4 * s.length := by
  induction s with
  | nil => simp [byteLength]
  | cons d s ih =>
      have hd : (String.utf8EncodeChar d).length ≤ 4 := by
        rw [String.length_utf8EncodeChar]
        exact d.utf8Size_le_four
      rw [byteLength] at ih ⊢
      rw [utf8_cons, List.length_append, List.length_cons]
      omega

theorem length_quote_le (s : Str) : (Json.quote s).length ≤ 6 * s.length + 2 := by
  have hchar : ∀ d, (Json.escapeChar d).length ≤ 6 := by
    intro d
    unfold Json.escapeChar
    split_ifs <;> simp
  have hescape : (Json.escape s).length ≤ 6 * s.length := by
    induction s with
    | nil => simp [Json.escape]
    | cons d s ih =>
        have hd := hchar d
        rw [Json.escape] at ih ⊢
        rw [List.flatMap_cons, List.length_append, List.length_cons]
        omega
  simp only [Json.quote, List.length_cons, List.length_append, List.length_nil]
  omega

/-- **A header fits**, for a genesis hash that is a digest. -/
theorem byteLength_header_le (c : Crypto) (hg : isLowerHex 64 g) :
    byteLength (encodeRecord c (headerRecord g)) ≤ maxStoreBytes := by
  have hgenesis := length_quote_le g
  rw [(isLowerHex_iff.1 hg).1] at hgenesis
  have hkeys : (Json.quote "type".toList).length + (Json.quote "header".toList).length +
      (Json.quote "version".toList).length + (Json.intText storeVersion).length +
      (Json.quote "networkId".toList).length + (Json.quote networkId).length +
      (Json.quote "genesisHash".toList).length +
      (Json.quote "payload".toList).length + (Json.quote "checksum".toList).length ≤ 100 := by
    decide +kernel
  have hpayload : (Json.stringify (headerRecord g)).length ≤ 1000 := by
    simp only [headerRecord, Json.stringify, Json.stringifyMembers, List.length_cons,
      List.length_append, List.length_nil]
    omega
  have hquote := length_quote_le (Json.stringify (headerRecord g))
  have hdigest := length_quote_le (c.sha256 (Json.stringify (headerRecord g)))
  rw [(isLowerHex_iff.1 (c.isLowerHex_sha256 _)).1] at hdigest
  have hline : (encodeRecord c (headerRecord g)).length ≤ 10000 := by
    simp only [encodeRecord, recordLine, envelope, Json.stringify, Json.stringifyMembers,
      List.length_cons, List.length_append, List.length_nil]
    omega
  have hbytes := byteLength_le (encodeRecord c (headerRecord g))
  rw [maxStoreBytes]
  omega

end Medac
