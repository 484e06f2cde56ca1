/-
**The mempool of the C++ node.**

The pool holds its transactions in `entries`, and beside them the set of the outputs they spend and
the number of bytes they take.  A transaction whose nonce is not above all nonces of its address is
set aside among the `orphans`.  When a transaction gets in, the orphans that spend one of its
outputs are taken out and added in turn, from within the call that added it and under its stripe
lock.

The queue of the database and the callback of an eviction are not part of this model.  Metrics and
log texts are left out.

Main definitions:

* `Node.Mempool` — the state; `Node.Mempool.Platform` — what it runs on;
* `Mempool.validateTx`, `Mempool.isDoubleSpend`, `Mempool.checkNonceOrdering`;
* `Mempool.addLocked` — the locked part of `addTransaction`; `Mempool.addWithin`,
  `Mempool.addTransaction` — all of it, with the orphans that follow;
* `Mempool.removeTransaction`, `Mempool.removeConfirmed`, `Mempool.reorgRestore`,
  `Mempool.evictStale`, `Mempool.evictLowFee`, `Mempool.trimToCapacity`;
* `Mempool.Call`, `Mempool.step` — the calls.
-/

import MedorCoin.Node.Blockchain
import Mathlib.Data.List.AList
import Mathlib.Data.List.MinMax

set_option autoImplicit false

namespace Node

open Cpp

/-- `struct MempoolEntry`. -/
structure MempoolEntry where
  tx : Transaction
  addedAt : UInt64 := 0
  effectiveFee : UInt64 := 0
  txBytes : UInt64 := 0
  deriving DecidableEq

/-- A `std::unordered_map` of entries. -/
abbrev EntryMap := AList fun _ : Str => MempoolEntry

/-- The members of `class Mempool`, and how often it has read the clock. -/
structure Mempool where
  entries : EntryMap := ∅
  orphans : EntryMap := ∅
  spentOutpoints : Finset Str := ∅
  totalBytes : UInt64 := 0
  readings : ℕ := 0

namespace Mempool

/-- `struct Config`. -/
structure Config where
  maxTxCount : ℕ := 100000
  maxTotalBytes : UInt64 := 256 * 1024 * 1024
  minFeePerGas : UInt64 := 1
  maxTxAgeSeconds : UInt64 := 3600
  orphanMaxCount : ℕ := 1000
  orphanMaxAgeSecs : UInt64 := 300
  persistBatchSize : ℕ := 512
  maxPersistQueueSize : ℕ := 50000

/-- What the pool runs on: its configuration, `std::hash`, the order in which a hash table is gone
through, and what the clock shows from one reading to the next. -/
structure Platform where
  cfg : Config
  hash : Str → ℕ
  order : List (Σ _ : Str, MempoolEntry) → List (Σ _ : Str, MempoolEntry)
  order_perm : ∀ l, (order l).Perm l
  clock : ℕ → UInt64

/-- `std::numeric_limits<uint64_t>::max()`. -/
def uint64Max : UInt64 := 0xFFFFFFFFFFFFFFFF

/-- `nowSecs()`, and the pool after the reading. -/
def nowSecs (P : Platform) (s : Mempool) : UInt64 × Mempool :=
  (P.clock s.readings, { s with readings := s.readings + 1 })

/-! ### Transactions -/

def estimateTxBytes (tx : Transaction) : UInt64 :=
  UInt64.ofNat (7 * 8 + (4 + tx.toAddress.length) + (4 + tx.txHash.length) +
    (4 + tx.data.length) + 32 + 32 +
    (4 + (tx.inputs.map fun input => 4 + input.prevTxHash.length + 4).sum) +
    (4 + (tx.outputs.map fun output => 4 + output.address.length + 8).sum) + 64)

def effectiveFee (tx : Transaction) (baseFee : UInt64) : UInt64 :=
  let tip := tx.maxPriorityFeePerGas
  let sum := if tip > uint64Max - baseFee then uint64Max else baseFee + tip
  min tx.maxFeePerGas sum

/-- A sum that `validateTx` refuses where it would overflow. -/
def addChecked (sum value : UInt64) : Option UInt64 :=
  if value > uint64Max - sum then none else some (sum + value)

def validateTx (cfg : Config) (getUTXO : Str → Int32 → Option Utxo) (tx : Transaction)
    (baseFee : UInt64) : Bool :=
  if tx.txHash.isEmpty || tx.txHash.length != 64 then false
  else if !tx.isValid then false
  else if tx.toAddress.isEmpty then false
  else if effectiveFee tx baseFee < cfg.minFeePerGas then false
  else if tx.inputs.isEmpty then true
  else
    let inSum := tx.inputs.foldlM (fun sum input => do
      let utxo ← getUTXO input.prevTxHash input.outputIndex
      addChecked sum utxo.value) 0
    let outSum := tx.outputs.foldlM (fun sum output => addChecked sum output.value) 0
    match inSum, outSum with
    | some inSum, some outSum => !(outSum > inSum)
    | _, _ => false

/-- The keys of the outputs that a transaction spends. -/
def spentKeys (tx : Transaction) : List Str := tx.inputs.map outpointKey

def isDoubleSpend (s : Mempool) (tx : Transaction) : Bool :=
  (spentKeys tx).any fun key => key ∈ s.spentOutpoints

/-- The greatest nonce among the entries of an address, `none` if there are none. -/
def maxNonce (address : Str) (entries : List (Σ _ : Str, MempoolEntry)) : Option UInt64 :=
  entries.foldl (fun found entry =>
    if entry.2.tx.toAddress = address then
      match found with
      | none => some entry.2.tx.nonce
      | some nonce => if entry.2.tx.nonce > nonce then some entry.2.tx.nonce else some nonce
    else found) none

def checkNonceOrdering (P : Platform) (s : Mempool) (tx : Transaction) : Bool :=
  match maxNonce tx.toAddress (P.order s.entries.entries) with
  | some nonce => !(tx.nonce ≤ nonce)
  | none => true

/-! ### Removing -/

/-- `removeTransaction(txHash)`. -/
def removeTransaction (s : Mempool) (txHash : Str) : Mempool :=
  match s.entries.lookup txHash with
  | none => s
  | some entry =>
      { s with
        spentOutpoints := s.spentOutpoints \ (spentKeys entry.tx).toFinset
        entries := s.entries.erase txHash
        totalBytes := s.totalBytes - entry.txBytes }

def removeAll (s : Mempool) (txHashes : List Str) : Mempool := txHashes.foldl removeTransaction s

def removeConfirmed (s : Mempool) (block : List Transaction) : Mempool :=
  removeAll s (block.map Transaction.txHash)

/-- The pool is within its limits. -/
def fits (cfg : Config) (s : Mempool) : Bool :=
  s.entries.keys.length ≤ cfg.maxTxCount && s.totalBytes ≤ cfg.maxTotalBytes

/-- The comparison of `std::pair<uint64_t, std::string>`. -/
def rankLE (a b : UInt64 × Str) : Bool := a.1 < b.1 || (a.1 == b.1 && !(b.2 < a.2))

/-- The hashes of the entries, the lowest fee first. -/
def ranked (P : Platform) (s : Mempool) (baseFee : UInt64) : List Str :=
  (((P.order s.entries.entries).map fun entry =>
    (effectiveFee entry.2.tx baseFee, entry.1)).mergeSort rankLE).map Prod.snd

def trimLoop (cfg : Config) : List Str → Mempool → Mempool
  | [], s => s
  | hash :: hashes, s =>
      if fits cfg s then s else trimLoop cfg hashes (removeTransaction s hash)

def trimToCapacity (P : Platform) (s : Mempool) (baseFee : UInt64) : Mempool :=
  if fits P.cfg s then s else trimLoop P.cfg (ranked P s baseFee) s

/-! ### Orphans -/

/-- `erase` of the keys, one after the other. -/
def eraseAll (m : EntryMap) (keys : List Str) : EntryMap := keys.foldl (fun m key => m.erase key) m

/-- The orphan that was added first, as `std::min_element` finds it. -/
def oldest (P : Platform) (orphans : EntryMap) : Option (Σ _ : Str, MempoolEntry) :=
  (P.order orphans.entries).argmin fun entry => entry.2.addedAt.toNat

/-- The orphans after room was made for another one. -/
def orphansWithRoom (P : Platform) (s : Mempool) : EntryMap :=
  if s.orphans.keys.length ≥ P.cfg.orphanMaxCount then
    match oldest P s.orphans with
    | some entry => s.orphans.erase entry.1
    | none => s.orphans
  else s.orphans

/-- `addOrphanLocked(tx)`; `emplace` keeps an orphan that is there. -/
def addOrphanLocked (P : Platform) (s : Mempool) (tx : Transaction) : Mempool :=
  let orphans := orphansWithRoom P s
  let (addedAt, s) := nowSecs P s
  if tx.txHash ∈ orphans then { s with orphans }
  else
    let entry : MempoolEntry := { tx, addedAt, txBytes := estimateTxBytes tx }
    { s with orphans := orphans.insert tx.txHash entry }

def evictStaleOrphans (P : Platform) (s : Mempool) : Mempool :=
  let (now, s) := nowSecs P s
  let cutoff := now - P.cfg.orphanMaxAgeSecs
  let stale := s.orphans.entries.filter fun entry => entry.2.addedAt < cutoff
  { s with orphans := eraseAll s.orphans (stale.map Sigma.fst) }

def dependsOn (tx : Transaction) (hash : Str) : Bool :=
  tx.inputs.any fun input => input.prevTxHash == hash

/-- The orphans that spend an output of a transaction, and the pool without them. -/
def takeDependents (P : Platform) (s : Mempool) (hash : Str) : List Transaction × Mempool :=
  let dependents := (P.order s.orphans.entries).filter fun entry => dependsOn entry.2.tx hash
  (dependents.map fun entry => entry.2.tx,
    { s with orphans := eraseAll s.orphans (dependents.map Sigma.fst) })

/-! ### Adding -/

/-- There is no room for another entry of `txBytes` bytes. -/
def isFull (cfg : Config) (s : Mempool) (txBytes : UInt64) : Bool :=
  s.entries.keys.length ≥ cfg.maxTxCount || s.totalBytes + txBytes > cfg.maxTotalBytes

/-- The entry is made and put in. -/
def insertEntry (P : Platform) (s : Mempool) (tx : Transaction) (baseFee txBytes : UInt64) :
    Mempool :=
  let (addedAt, s) := nowSecs P s
  let entry : MempoolEntry := { tx, addedAt, effectiveFee := effectiveFee tx baseFee, txBytes }
  { s with
    spentOutpoints := s.spentOutpoints ∪ (spentKeys tx).toFinset
    entries := s.entries.insert tx.txHash entry
    totalBytes := s.totalBytes + txBytes }

/-- The part of `addTransaction` under the lock: whether the transaction got in, and the pool. -/
def addLocked (P : Platform) (s : Mempool) (tx : Transaction) (baseFee txBytes : UInt64) :
    Bool × Mempool :=
  if tx.txHash ∈ s.entries then (false, s)
  else if isDoubleSpend s tx then (false, s)
  else if !checkNonceOrdering P s tx then (false, addOrphanLocked P s tx)
  else if isFull P.cfg s txBytes then
    -- the lock is given up for `trimToCapacity`; the nonce is not checked again
    let s := trimToCapacity P s baseFee
    if tx.txHash ∈ s.entries then (false, s)
    else if isDoubleSpend s tx then (false, s)
    else if isFull P.cfg s txBytes then (false, s)
    else (true, insertEntry P s tx baseFee txBytes)
  else (true, insertEntry P s tx baseFee txBytes)

/-- Why a call does not return. -/
inductive Stuck
  | deadlock
  | outOfFuel
  deriving DecidableEq

/-- `stripeFor(txHash)`. -/
def stripeFor (P : Platform) (txHash : Str) : ℕ := P.hash txHash % 128

/-- A call for each transaction, one after the other. -/
def addEach (add : Mempool → Transaction → Except Stuck (Bool × Mempool)) :
    List Transaction → Mempool → Except Stuck Mempool
  | [], s => .ok s
  | tx :: txs, s => do
      let (_, s) ← add s tx
      addEach add txs s

/-- `addTransaction(tx, baseFee)` within the calls that hold the stripes `held`.  The mutex of a
stripe is not recursive. -/
def addWithin (P : Platform) (getUTXO : Str → Int32 → Option Utxo) (baseFee : UInt64) :
    ℕ → List ℕ → Mempool → Transaction → Except Stuck (Bool × Mempool)
  | 0, _, _, _ => .error .outOfFuel
  | fuel + 1, held, s, tx =>
      let txBytes := estimateTxBytes tx
      let stripe := stripeFor P tx.txHash
      if !validateTx P.cfg getUTXO tx baseFee then .ok (false, s)
      else if txBytes > uint64Max - s.totalBytes then .ok (false, s)
      else if stripe ∈ held then .error .deadlock
      else
        match addLocked P s tx baseFee txBytes with
        | (false, s) => .ok (false, s)
        | (true, s) => do
            let (toPromote, s) := takeDependents P s tx.txHash
            let s ← addEach (addWithin P getUTXO baseFee fuel (stripe :: held)) toPromote s
            .ok (true, s)

/-- `addTransaction(tx, baseFee)`.  Whenever a call is nested in another one there are fewer
orphans, so that the fuel suffices. -/
def addTransaction (P : Platform) (getUTXO : Str → Int32 → Option Utxo) (baseFee : UInt64)
    (s : Mempool) (tx : Transaction) : Except Stuck (Bool × Mempool) :=
  addWithin P getUTXO baseFee (s.orphans.keys.length + 1) [] s tx

/-! ### The other calls -/

def reorgRestore (P : Platform) (getUTXO : Str → Int32 → Option Utxo)
    (reorgedOut : List Transaction) (s : Mempool) : Except Stuck Mempool :=
  addEach (fun s tx =>
    if tx.txHash ∈ s.entries then .ok (false, s)
    else addTransaction P getUTXO P.cfg.minFeePerGas s tx) reorgedOut s

def evictStale (P : Platform) (s : Mempool) : Mempool :=
  let (now, s) := nowSecs P s
  let cutoff := now - P.cfg.maxTxAgeSeconds
  let toRemove := (P.order s.entries.entries).filter fun entry => entry.2.addedAt < cutoff
  evictStaleOrphans P (removeAll s (toRemove.map Sigma.fst))

def evictLowFee (P : Platform) (s : Mempool) (newBaseFee : UInt64) : Mempool :=
  let toRemove := (P.order s.entries.entries).filter fun entry =>
    effectiveFee entry.2.tx newBaseFee < P.cfg.minFeePerGas
  removeAll s (toRemove.map Sigma.fst)

/-- A call, with what `utxoSet_.getUTXO` answers in the meantime. -/
inductive Call
  | addTransaction (getUTXO : Str → Int32 → Option Utxo) (tx : Transaction) (baseFee : UInt64)
  | removeTransaction (txHash : Str)
  | removeConfirmed (block : List Transaction)
  | reorgRestore (getUTXO : Str → Int32 → Option Utxo) (reorgedOut : List Transaction)
  | evictStale (baseFee : UInt64)
  | evictLowFee (newBaseFee : UInt64)
  | trimToCapacity (baseFee : UInt64)

/-- The pool after a call, or why it does not return. -/
def perform (P : Platform) (s : Mempool) : Call → Except Stuck Mempool
  | .addTransaction getUTXO tx baseFee => (addTransaction P getUTXO baseFee s tx).map Prod.snd
  | .removeTransaction txHash => .ok (removeTransaction s txHash)
  | .removeConfirmed block => .ok (removeConfirmed s block)
  | .reorgRestore getUTXO reorgedOut => reorgRestore P getUTXO reorgedOut s
  | .evictStale _ => .ok (evictStale P s)
  | .evictLowFee newBaseFee => .ok (evictLowFee P s newBaseFee)
  | .trimToCapacity baseFee => .ok (trimToCapacity P s baseFee)

/-- The pool after a call that returns. -/
def step (P : Platform) (s : Mempool) (call : Call) : Option Mempool := (perform P s call).toOption

end Mempool

end Node
