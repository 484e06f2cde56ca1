/-
**Blocks and unspent outputs of the JavaScript ledger.**

`utxo_set.cjs` files an unspent output under two keys of the database, one for the outpoint and one
for the address with the outpoint.  Applying a block goes through its transactions, of each first
through the inputs and then through the outputs.

The height of a block is an integral number, and the number of an output a natural number.

Main definitions:

* `UtxoSet.Outpoint.uKey`, `UtxoSet.Outpoint.aKey` — the two keys;
* `UtxoSet.Utxo` — what is filed, with its text;
* `UtxoSet.Block.tasks` — **what the loops of `applyBlock` visit**;
* `UtxoSet.Change` — what the visit of an input or an output stages.

Main results:

* `UtxoSet.Outpoint.uKey_injective` — the key determines the outpoint;
* `UtxoSet.Utxo.parse_text` — what is filed is read back.
-/

import MedorCoin.Js.BigInt
import MedorCoin.Js.JsonParse
import MedorCoin.Ledger.Disk

set_option autoImplicit false

namespace UtxoSet

open Js Ledger

/-! ### Outpoints -/

structure Outpoint where
  txid : Str
  vout : ℕ
  deriving DecidableEq

/-- `u:${txid}:${vout}` -/
def Outpoint.uKey (o : Outpoint) : Str := "u:".toList ++ o.txid ++ ':' :: numeral o.vout

/-- `a:${address}:${txid}:${vout}` -/
def Outpoint.aKey (o : Outpoint) (address : Str) : Str :=
  "a:".toList ++ address ++ ':' :: (o.txid ++ ':' :: numeral o.vout)

/-- The keys under which outpoints are filed. -/
def isUtxoKey (key : Str) : Bool := "u:".toList.isPrefixOf key

theorem isUtxoKey_uKey (o : Outpoint) : isUtxoKey o.uKey := rfl

theorem aKey_ne_of_isUtxoKey {key : Str} (h : isUtxoKey key) (o : Outpoint) (address : Str) :
    o.aKey address ≠ key := by
  rintro rfl
  cases h

theorem append_colon_inj {s s' t t' : Str} (ht : ':' ∉ t) (ht' : ':' ∉ t')
    (h : s ++ ':' :: t = s' ++ ':' :: t') : s = s' ∧ t = t' := by
  induction s generalizing s' with
  | nil =>
      cases s' with
      | nil => exact ⟨rfl, List.tail_eq_of_cons_eq h⟩
      | cons c s' =>
          have htail : t = s' ++ ':' :: t' := List.tail_eq_of_cons_eq h
          exact absurd (htail ▸ List.mem_append_right _ List.mem_cons_self) ht
  | cons c s ih =>
      cases s' with
      | nil =>
          have htail : s ++ ':' :: t = t' := List.tail_eq_of_cons_eq h
          exact absurd (htail ▸ List.mem_append_right _ List.mem_cons_self) ht'
      | cons c' s' =>
          obtain ⟨hc, htail⟩ := List.cons.inj h
          obtain ⟨hs, ht⟩ := ih htail
          exact ⟨by rw [hc, hs], ht⟩

theorem colon_not_mem_numeral (n : ℕ) : ':' ∉ numeral n := fun h =>
  absurd (isDigit_of_mem_numeral h) (by decide)

/-- **The key determines the outpoint.** -/
theorem Outpoint.uKey_injective {o o' : Outpoint} (h : o.uKey = o'.uKey) : o = o' := by
  obtain ⟨hfront, hvout⟩ :=
    append_colon_inj (colon_not_mem_numeral o.vout) (colon_not_mem_numeral o'.vout) h
  have htxid : o.txid = o'.txid := List.append_cancel_left hfront
  cases o
  cases o'
  simp only at htxid hvout
  rw [htxid, numeral_injective hvout]

/-! ### Unspent outputs -/

/-- `utxoData` -/
structure Utxo where
  h : Str
  i : ℕ
  v : Str
  a : Str
  bh : ℤ
  cb : Bool

def Utxo.toJson (utxo : Utxo) : Json :=
  .obj [("h".toList, .str utxo.h), ("i".toList, .num utxo.i), ("v".toList, .str utxo.v),
    ("a".toList, .str utxo.a), ("bh".toList, .num utxo.bh), ("cb".toList, .bool utxo.cb)]

/-- `serialized` -/
def Utxo.text (utxo : Utxo) : Str := Json.stringify utxo.toJson

/-- The address of what is filed. -/
def address? (utxo : Json) : Option Str := Json.string? (utxo.get? "a".toList)

/-- The address of a record in the database. -/
def recordAddress? (raw : Str) : Option Str := (Json.parse raw).bind address?

/-- The value of a record in the database. -/
def recordValue? (raw : Str) : Option ℤ :=
  (Json.parse raw).bind fun utxo => Json.bigInt? (utxo.get? "v".toList)

theorem Utxo.plain_toJson (utxo : Utxo) : Json.plain utxo.toJson := by
  have hkeys : (["h".toList, "i".toList, "v".toList, "a".toList, "bh".toList, "cb".toList] :
      List Str).Nodup := by decide
  exact Json.plain_obj.2 ⟨hkeys, by simp [Json.plain]⟩

theorem Utxo.parse_text (utxo : Utxo) : Json.parse utxo.text = some utxo.toJson :=
  Json.parse_stringify utxo.plain_toJson

@[simp] theorem Utxo.address?_toJson (utxo : Utxo) : address? utxo.toJson = some utxo.a := rfl

@[simp] theorem Utxo.recordAddress?_text (utxo : Utxo) :
    recordAddress? utxo.text = some utxo.a := by
  rw [recordAddress?, parse_text]
  rfl

@[simp] theorem Utxo.recordValue?_text (utxo : Utxo) :
    recordValue? utxo.text = bigInt? utxo.v := by
  rw [recordValue?, parse_text]
  rfl

/-! ### Blocks -/

structure Input where
  outpoint : Outpoint
  /-- `input.coinbase === true` -/
  coinbase : Bool := false

structure Output where
  /-- `out.value.toString()` -/
  value : Str
  address : Str

/-- A transaction.  A hash that is not given is the empty text. -/
structure Tx where
  hash : Str := []
  txHash : Str := []
  isCoinbase : Bool := false
  inputs : List Input
  outputs : List Output

structure Block where
  height : ℤ
  transactions : List Tx

/-- `tx.hash || tx.txHash` -/
def Tx.id (tx : Tx) : Str := if tx.hash.isEmpty then tx.txHash else tx.hash

/-- `tx.isCoinbase || (tx.inputs?.[0]?.coinbase === true)` -/
def Tx.coinbase (tx : Tx) : Bool :=
  tx.isCoinbase || match tx.inputs with
    | [] => false
    | input :: _ => input.coinbase

/-- What a loop visits: an input, which spends an outpoint, or an output with what is to be
filed. -/
inductive Task
  | spend (o : Outpoint)
  | create (o : Outpoint) (utxo : Utxo)

/-- The inputs, unless the transaction makes coins, and then the outputs. -/
def Tx.tasks (height : ℤ) (tx : Tx) : List Task :=
  (if tx.coinbase then [] else tx.inputs.map fun input => .spend input.outpoint) ++
    tx.outputs.mapIdx fun i out =>
      .create ⟨tx.id, i⟩
        { h := tx.id, i, v := out.value, a := out.address, bh := height, cb := tx.coinbase }

/-- **What the loops of `applyBlock` visit**, in order. -/
def Block.tasks (block : Block) : List Task := block.transactions.flatMap (Tx.tasks block.height)

def Task.spent? : Task → Option Outpoint
  | spend o => some o
  | create _ _ => none

def Task.created? : Task → Option (Outpoint × Utxo)
  | spend _ => none
  | create o utxo => some (o, utxo)

/-- The outpoints that a block spends. -/
def Block.spends (block : Block) : List Outpoint := block.tasks.filterMap Task.spent?

/-- The outputs that a block files. -/
def Block.creates (block : Block) : List (Outpoint × Utxo) := block.tasks.filterMap Task.created?

/-- The outpoints that a block spends or files. -/
def Block.touched (block : Block) : List Outpoint := block.spends ++ block.creates.map Prod.fst

/-! ### What is staged -/

/-- What the visit of an input or an output puts into `batchOps` and `cacheUpdates`, which grow
together. -/
inductive Change
  | spend (o : Outpoint) (address : Option Str)
  | create (o : Outpoint) (utxo : Utxo)

namespace Change

def task : Change → Task
  | spend o _ => .spend o
  | create o utxo => .create o utxo

def key : Change → Str
  | spend o _ => o.uKey
  | create o _ => o.uKey

/-- The writes in `batchOps`.  An address that is not a text can only stem from a record that was
filed by another program. -/
def batchOps : Change → List (Write Str Str)
  | spend o address => [.delete o.uKey, .delete (o.aKey (address.getD "undefined".toList))]
  | create o utxo => [.put o.uKey utxo.text, .put (o.aKey utxo.a) utxo.text]

/-- What it does to the record of the outpoint. -/
def record : Change → Write Str Str
  | spend o _ => .delete o.uKey
  | create o utxo => .put o.uKey utxo.text

/-- What it does to the cache. -/
def cached : Change → Write Str Utxo
  | spend o _ => .delete o.uKey
  | create o utxo => .put o.uKey utxo

@[simp] theorem key_record (change : Change) : change.record.key = change.key := by
  cases change <;> rfl

@[simp] theorem key_cached (change : Change) : change.cached.key = change.key := by
  cases change <;> rfl

end Change

/-- The batch of the staged changes. -/
def batchOps (staged : List Change) : List (Write Str Str) := staged.flatMap Change.batchOps

/-- **The records of outpoints after a batch** depend on the writes to these only. -/
theorem after_batchOps {key : Str} (hkey : isUtxoKey key) (staged : List Change)
    (old : Option Str) :
    after key (batchOps staged) old = after key (staged.map Change.record) old := by
  induction staged generalizing old with
  | nil => rfl
  | cons change staged ih =>
      rw [batchOps, List.flatMap_cons, after_append, ← batchOps, ih, List.map_cons, after_cons]
      cases change with
      | spend o address =>
          have hne : (Write.delete (o.aKey (address.getD "undefined".toList)) : Write Str Str).key ≠
              key := aKey_ne_of_isUtxoKey hkey o _
          rw [Change.batchOps, after_cons, after_cons, after_nil, if_neg hne]
          rfl
      | create o utxo =>
          have hne : (Write.put (o.aKey utxo.a) utxo.text : Write Str Str).key ≠ key :=
            aKey_ne_of_isUtxoKey hkey o _
          rw [Change.batchOps, after_cons, after_cons, after_nil, if_neg hne]
          rfl

end UtxoSet
