/-
**The caches of the JavaScript ledger.**

`utxo_set.cjs` keeps two caches, each in 64 maps: the outputs that it filed itself by their keys,
and the keys of these outputs by their addresses.  After a block has been written to the database,
the staged changes are made to the caches one after another.  A balance is counted from the caches
alone.

Main definitions:

* `UtxoSet.Shards` — 64 maps, of which the key decides which one it is in;
* `UtxoSet.Caches`, `UtxoSet.applyCacheUpdates`, `UtxoSet.getBalance`;
* `UtxoSet.Caches.Indexed` — **an address is filed with the keys of its outputs**.

Main results:

* `UtxoSet.Caches.Indexed.applyCacheUpdates` — changes that fit are made to their end, and leave the
  addresses filed with the keys of their outputs;
* `UtxoSet.Caches.getBalance_eq` — **the balance is the sum over the keys of the address**.
-/

import MedorCoin.Js.Sha256
import MedorCoin.Utxo.Block

set_option autoImplicit false

namespace UtxoSet

open Js Ledger

/-! ### Shards -/

local instance neZero_shards : NeZero 64 := ⟨by decide⟩

local instance lawfulBEq_key : LawfulBEq Str := inferInstance

/-- `_getShardIdx`: the first byte of the hash, modulo 64. -/
def getShardIdx (key : Str) : Fin 64 := Fin.ofNat 64 (hexValue ((Sha256.hex key).take 2))

abbrev Shards (ν : Type) : Type := Fin 64 → Js.Map Str ν

namespace Shards

variable {ν : Type}

def empty : Shards ν := fun _ => Map.empty

def get (shards : Shards ν) (key : Str) : Option ν := (shards (getShardIdx key)).get? key

def set (shards : Shards ν) (key : Str) (value : ν) : Shards ν :=
  Function.update shards (getShardIdx key) ((shards (getShardIdx key)).set key value)

def delete (shards : Shards ν) (key : Str) : Shards ν :=
  Function.update shards (getShardIdx key) ((shards (getShardIdx key)).delete key)

@[simp] theorem get_empty (key : Str) : (empty : Shards ν).get key = none := rfl

theorem get_set (shards : Shards ν) (key key' : Str) (value : ν) :
    (shards.set key value).get key' = if key = key' then some value else shards.get key' := by
  rw [get, set]
  by_cases hidx : getShardIdx key' = getShardIdx key
  · rw [hidx, Function.update_self, Map.get?_set, get, hidx]
  · have hne : key ≠ key' := fun h => hidx (h ▸ rfl)
    rw [Function.update_of_ne hidx, if_neg hne, get]

theorem get_delete (shards : Shards ν) (key key' : Str) :
    (shards.delete key).get key' = if key = key' then none else shards.get key' := by
  rw [get, delete]
  by_cases hidx : getShardIdx key' = getShardIdx key
  · rw [hidx, Function.update_self, Map.get?_delete, get, hidx]
  · have hne : key ≠ key' := fun h => hidx (h ▸ rfl)
    rw [Function.update_of_ne hidx, if_neg hne, get]

end Shards

/-! ### The caches -/

/-- `cacheShards` and `addressShards`. -/
structure Caches where
  cacheShards : Shards Utxo := Shards.empty
  addressShards : Shards (List Str) := Shards.empty

/-- The keys that an address is filed with. -/
def Caches.keysOf (caches : Caches) (address : Str) : List Str :=
  (caches.addressShards.get address).getD []

/-- One pass of the loop of `_applyCacheUpdates`, and whether it came to its end.  The value of an
output is only looked at when the output is in the cache. -/
def applyCacheUpdate (caches : Caches) : Change → Caches × Bool
  | .create o utxo =>
      let cacheShards := caches.cacheShards.set o.uKey utxo
      match bigInt? utxo.v with
      | none => ({ caches with cacheShards }, false)
      | some _ =>
          let keys := caches.keysOf utxo.a
          let keys := if o.uKey ∈ keys then keys else keys ++ [o.uKey]
          ({ cacheShards, addressShards := caches.addressShards.set utxo.a keys }, true)
  | .spend o address =>
      let cacheShards := caches.cacheShards.delete o.uKey
      match address with
      | none => ({ caches with cacheShards }, false)
      | some address =>
          match caches.addressShards.get address with
          | none => ({ caches with cacheShards }, true)
          | some keys =>
              let keys := keys.filter fun key => key ≠ o.uKey
              if keys.isEmpty then
                ({ cacheShards, addressShards := caches.addressShards.delete address }, true)
              else ({ cacheShards, addressShards := caches.addressShards.set address keys }, true)

/-- `_applyCacheUpdates`, and whether it came to its end. -/
def applyCacheUpdates (caches : Caches) : List Change → Caches × Bool
  | [] => (caches, true)
  | change :: changes =>
      match applyCacheUpdate caches change with
      | (caches, true) => applyCacheUpdates caches changes
      | (caches, false) => (caches, false)

/-- The sum that `getBalance` counts, `none` where it throws an error. -/
def countBalance (caches : Caches) : List Str → Option ℤ
  | [] => some 0
  | key :: keys => do
      let value ← match caches.cacheShards.get key with
        | none => some 0
        | some utxo => bigInt? utxo.v
      return value + (← countBalance caches keys)

/-- **`getBalance`**, `none` where it throws an error. -/
def getBalance (caches : Caches) (address : Str) : Option Str :=
  match caches.addressShards.get address with
  | none => some ['0']
  | some keys => (countBalance caches keys).map Json.intText

/-! ### The index -/

namespace Caches

variable {caches : Caches}

/-- **An address is filed with the keys of its outputs**, each once. -/
def Indexed (caches : Caches) : Prop :=
  ∀ address, (caches.keysOf address).Nodup ∧ ∀ key, key ∈ caches.keysOf address ↔
    ∃ utxo, caches.cacheShards.get key = some utxo ∧ utxo.a = address

theorem indexed_empty : Indexed {} := fun _ =>
  ⟨List.nodup_nil, fun _ => ⟨fun h => absurd h List.not_mem_nil, fun ⟨_, h, _⟩ => nomatch h⟩⟩

/-- A change that leaves the caches as they should be: what is filed is new and has a value, and
what is deleted has this address if it is there. -/
def Fits (caches : Caches) : Change → Prop
  | .create o utxo => caches.cacheShards.get o.uKey = none ∧ (bigInt? utxo.v).isSome
  | .spend o address => ∃ a, address = some a ∧
      ∀ utxo, caches.cacheShards.get o.uKey = some utxo → utxo.a = a

theorem Fits.congr {caches' : Caches} {change : Change} (h : caches.Fits change)
    (hget : caches'.cacheShards.get change.key = caches.cacheShards.get change.key) :
    caches'.Fits change := by
  cases change with
  | create o utxo => exact ⟨hget.trans h.1, h.2⟩
  | spend o address =>
      obtain ⟨a, ha, hold⟩ := h
      exact ⟨a, ha, fun utxo hutxo => hold utxo (hget.symm.trans hutxo)⟩

theorem Indexed.create (h : caches.Indexed) {o : Outpoint} {utxo : Utxo}
    (hnew : caches.cacheShards.get o.uKey = none) :
    Indexed ⟨caches.cacheShards.set o.uKey utxo,
      caches.addressShards.set utxo.a (caches.keysOf utxo.a ++ [o.uKey])⟩ := by
  intro address
  obtain ⟨hnodup, hmem⟩ := h address
  have hnot : o.uKey ∉ caches.keysOf address := by
    intro hin
    obtain ⟨utxo', hget, -⟩ := (hmem o.uKey).1 hin
    rw [hnew] at hget
    cases hget
  have hkeys : keysOf ⟨caches.cacheShards.set o.uKey utxo,
      caches.addressShards.set utxo.a (caches.keysOf utxo.a ++ [o.uKey])⟩ address =
      if utxo.a = address then caches.keysOf address ++ [o.uKey] else caches.keysOf address := by
    rw [keysOf, Shards.get_set]
    split
    · rename_i heq
      rw [heq]
      rfl
    · rfl
  rw [hkeys]
  constructor
  · split
    · refine List.nodup_append.2 ⟨hnodup, List.nodup_singleton _, ?_⟩
      rintro a ha b hb rfl
      exact hnot (List.mem_singleton.1 hb ▸ ha)
    · exact hnodup
  · intro key
    rw [Shards.get_set]
    by_cases hkey : o.uKey = key
    · subst hkey
      rw [if_pos rfl]
      by_cases haddress : utxo.a = address
      · simp [haddress]
      · simp [haddress, hnot]
    · rw [if_neg hkey, ← hmem key]
      split
      · simp [Ne.symm hkey]
      · rfl

theorem Indexed.delete (h : caches.Indexed) {o : Outpoint} {a : Str}
    (hold : ∀ utxo, caches.cacheShards.get o.uKey = some utxo → utxo.a = a)
    {addressShards : Shards (List Str)}
    (hkeys : ∀ address, (addressShards.get address).getD [] =
      if a = address then (caches.keysOf address).filter fun key => key ≠ o.uKey
      else caches.keysOf address) :
    Indexed ⟨caches.cacheShards.delete o.uKey, addressShards⟩ := by
  intro address
  obtain ⟨hnodup, hmem⟩ := h address
  rw [keysOf, hkeys]
  constructor
  · split
    · exact hnodup.filter _
    · exact hnodup
  · intro key
    rw [Shards.get_delete]
    by_cases hkey : o.uKey = key
    · subst hkey
      rw [if_pos rfl]
      by_cases haddress : a = address
      · simp [haddress]
      · have hnot : o.uKey ∉ caches.keysOf address := by
          intro hin
          obtain ⟨utxo, hget, ha⟩ := (hmem o.uKey).1 hin
          exact haddress ((hold utxo hget).symm.trans ha)
        simp [haddress, hnot]
    · rw [if_neg hkey, ← hmem key]
      split
      · simp [Ne.symm hkey]
      · rfl

theorem Indexed.applyCacheUpdate (h : caches.Indexed) {change : Change}
    (hfits : caches.Fits change) :
    ∃ caches', UtxoSet.applyCacheUpdate caches change = (caches', true) ∧ caches'.Indexed ∧
      ∀ key, caches'.cacheShards.get key =
        if change.key = key then change.cached.value? else caches.cacheShards.get key := by
  cases change with
  | create o utxo =>
      obtain ⟨hnew, hvalue⟩ := hfits
      obtain ⟨value, hvalue⟩ := Option.isSome_iff_exists.1 hvalue
      have hnot : o.uKey ∉ caches.keysOf utxo.a := by
        intro hin
        obtain ⟨utxo', hget, -⟩ := ((h utxo.a).2 o.uKey).1 hin
        rw [hnew] at hget
        cases hget
      refine ⟨⟨caches.cacheShards.set o.uKey utxo,
        caches.addressShards.set utxo.a (caches.keysOf utxo.a ++ [o.uKey])⟩, ?_, h.create hnew,
        fun key => Shards.get_set _ _ _ _⟩
      simp only [UtxoSet.applyCacheUpdate, hvalue, if_neg hnot]
  | spend o address =>
      obtain ⟨a, rfl, hold⟩ := hfits
      cases hget : caches.addressShards.get a with
      | none =>
          refine ⟨⟨caches.cacheShards.delete o.uKey, caches.addressShards⟩, ?_,
            h.delete hold fun address => ?_, fun key => Shards.get_delete _ _ _⟩
          · simp only [UtxoSet.applyCacheUpdate, hget]
          · rw [keysOf]
            split
            · rename_i heq
              rw [← heq, hget]
              rfl
            · rfl
      | some keys =>
          have hkeysOf : caches.keysOf a = keys := by
            rw [keysOf, hget]
            rfl
          by_cases hempty : (keys.filter fun key => key ≠ o.uKey).isEmpty
          · refine ⟨⟨caches.cacheShards.delete o.uKey, caches.addressShards.delete a⟩, ?_,
              h.delete hold fun address => ?_, fun key => Shards.get_delete _ _ _⟩
            · simp only [UtxoSet.applyCacheUpdate, hget, hempty, if_true]
            · rw [Shards.get_delete]
              split
              · rename_i heq
                rw [← heq, hkeysOf, List.isEmpty_iff.1 hempty]
                rfl
              · rfl
          · refine ⟨⟨caches.cacheShards.delete o.uKey,
              caches.addressShards.set a (keys.filter fun key => key ≠ o.uKey)⟩, ?_,
              h.delete hold fun address => ?_, fun key => Shards.get_delete _ _ _⟩
            · simp only [UtxoSet.applyCacheUpdate, hget, hempty, Bool.false_eq_true, if_false]
            · rw [Shards.get_set]
              split
              · rename_i heq
                rw [← heq, hkeysOf]
                rfl
              · rfl

/-- **Changes that fit are made to their end**, if no two of them have the same key. -/
theorem Indexed.applyCacheUpdates {changes : List Change} (h : caches.Indexed)
    (hnodup : (changes.map Change.key).Nodup) (hfits : ∀ change ∈ changes, caches.Fits change) :
    ∃ caches', UtxoSet.applyCacheUpdates caches changes = (caches', true) ∧ caches'.Indexed ∧
      ∀ key, caches'.cacheShards.get key =
        after key (changes.map Change.cached) (caches.cacheShards.get key) := by
  induction changes generalizing caches with
  | nil => exact ⟨caches, rfl, h, fun _ => rfl⟩
  | cons change changes ih =>
      obtain ⟨hnew, hnodup⟩ := List.nodup_cons.1 hnodup
      obtain ⟨caches₁, heq₁, hindexed₁, hget₁⟩ :=
        h.applyCacheUpdate (hfits change List.mem_cons_self)
      have hfits₁ : ∀ change' ∈ changes, caches₁.Fits change' := by
        intro change' hmem
        have hne : change.key ≠ change'.key := fun hkey =>
          hnew (hkey ▸ List.mem_map_of_mem hmem)
        exact (hfits change' (List.mem_cons_of_mem _ hmem)).congr
          ((hget₁ change'.key).trans (if_neg hne))
      obtain ⟨caches', heq, hindexed, hget⟩ := ih hindexed₁ hnodup hfits₁
      refine ⟨caches', ?_, hindexed, fun key => ?_⟩
      · rw [UtxoSet.applyCacheUpdates, heq₁]
        exact heq
      · rw [hget, hget₁, List.map_cons, after_cons, Change.key_cached]

/-! ### Balances -/

/-- The value of an output in the cache. -/
def valueOf (caches : Caches) (key : Str) : ℤ :=
  ((caches.cacheShards.get key).bind fun utxo => bigInt? utxo.v).getD 0

/-- Every output in the cache has a value. -/
def Valued (caches : Caches) : Prop :=
  ∀ key utxo, caches.cacheShards.get key = some utxo → (bigInt? utxo.v).isSome

theorem countBalance_eq (h : caches.Valued) (keys : List Str) :
    countBalance caches keys = some (keys.map caches.valueOf).sum := by
  induction keys with
  | nil => rfl
  | cons key keys ih =>
      rw [countBalance, ih, List.map_cons, List.sum_cons, valueOf]
      cases hget : caches.cacheShards.get key with
      | none => rfl
      | some utxo =>
          obtain ⟨value, hvalue⟩ := Option.isSome_iff_exists.1 (h key utxo hget)
          simp [hvalue]

/-- **The balance is the sum over the keys of the address.** -/
theorem getBalance_eq (h : caches.Valued) (address : Str) :
    getBalance caches address =
      some (Json.intText ((caches.keysOf address).map caches.valueOf).sum) := by
  rw [getBalance, keysOf]
  cases hget : caches.addressShards.get address with
  | none =>
      have hzero : Json.intText 0 = ['0'] := by decide
      simp [hzero]
  | some keys =>
      simp only [Option.getD_some]
      rw [countBalance_eq h]
      rfl

end Caches

end UtxoSet
