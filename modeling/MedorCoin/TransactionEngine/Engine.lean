/-
**The transaction engine.**

The engine keeps the accounts, the mempool and the chain in one database, which is divided into
partitions by the beginnings of its keys: staged transactions, confirmed transactions, balances,
blocks, the transactions of each block, undo logs, and what the staged transactions of each sender
will cost.  A batch of writes is collected and then written at once; what is read in between is what
the database had before.

A staged transaction is also written to a log, with its signature, from which the engine recovers
after a crash.

The engine writes a balance or a total as the text of an integer; here it is the integer.  The
Merkle root of a block and the signature of a line of the log are functions of other modules.

Main definitions:

* `TransactionEngine.Database`, `TransactionEngine.Write`, `TransactionEngine.Database.write` — the
  partitions, and a batch;
* `TransactionEngine.stateRoot` — the hash of all balances;
* `TransactionEngine.Engine.confirmBlock`, `TransactionEngine.Engine.rollbackBlock` — a block;
* `TransactionEngine.stageInternal`, `TransactionEngine.Engine.stageToMempool`,
  `TransactionEngine.Engine.recoverFromCrash` — the mempool and the log.
-/

import MedorCoin.Js.BigInt
import MedorCoin.Js.JsonParse
import MedorCoin.Js.Sha256
import Mathlib.Data.Finmap
import Mathlib.Data.Finset.Sort
import Mathlib.Data.List.Lex
import Mathlib.Order.Lex
import Mathlib.Data.String.Basic
import Mathlib.Logic.Function.Basic

set_option autoImplicit false

namespace TransactionEngine

open Js

/-! ### Transactions -/

/-- A transaction, as the members of its object. -/
abbrev Tx := List (Str × Json)

/-- What a template puts for a value that is neither an array nor an object. -/
def text : Option Json → Str
  | none => "undefined".toList
  | some .null => "null".toList
  | some (.bool b) => if b then "true".toList else "false".toList
  | some (.num n) => Json.intText n
  | some (.frac s) => s
  | some (.str s) => s
  | some _ => "[object Object]".toList

def Tx.sender (tx : Tx) : Str := text (lookup "from".toList tx)

def Tx.recipient (tx : Tx) : Str := text (lookup "to".toList tx)

/-- `BigInt(tx.value)`, `none` where it throws an error. -/
def Tx.value? (tx : Tx) : Option ℤ := Json.bigInt? (lookup "value".toList tx)

def Tx.gasUsed? (tx : Tx) : Option ℤ := Json.bigInt? (lookup "gasUsed".toList tx)

/-- `tx._sig` -/
def Tx.sig (tx : Tx) : Option Json := lookup "_sig".toList tx

/-! ### The database -/

structure UndoEntry where
  address : Str
  balance : ℤ
  deriving DecidableEq

structure BlockRecord where
  hash : Str
  merkleRoot : Str
  stateRoot : Str
  prevHash : Str
  deriving DecidableEq

/-- The partitions `m:`, `c:`, `s:`, `b:`, `i:`, `h:` and `p:`. -/
structure Database where
  mempool : Str → Option Tx
  confirmed : Str → Option Tx
  state : Finmap fun _ : Str => ℤ
  block : ℤ → Option BlockRecord
  index : ℤ → Option (List Json)
  history : ℤ → Option (List UndoEntry)
  pending : Str → Option ℤ

/-- An operation of a batch: a deletion where there is no value. -/
inductive Write
  | mempool (hash : Str) (tx : Option Tx)
  | confirmed (hash : Str) (tx : Option Tx)
  | state (address : Str) (balance : ℤ)
  | block (height : ℤ) (record : Option BlockRecord)
  | index (height : ℤ) (txHashes : Option (List Json))
  | history (height : ℤ) (undoLog : Option (List UndoEntry))
  | pending (address : Str) (total : ℤ)

namespace Database

def apply (db : Database) : Write → Database
  | .mempool hash tx => { db with mempool := Function.update db.mempool hash tx }
  | .confirmed hash tx => { db with confirmed := Function.update db.confirmed hash tx }
  | .state address balance => { db with state := db.state.insert address balance }
  | .block height record => { db with block := Function.update db.block height record }
  | .index height txHashes => { db with index := Function.update db.index height txHashes }
  | .history height undoLog => { db with history := Function.update db.history height undoLog }
  | .pending address total => { db with pending := Function.update db.pending address (some total) }

/-- `batch.write()` -/
def write (db : Database) (batch : List Write) : Database := batch.foldl apply db

def empty : Database where
  mempool _ := none
  confirmed _ := none
  state := ∅
  block _ := none
  index _ := none
  history _ := none
  pending _ := none

/-- The balance of an account, `"0"` where there is no record. -/
def balance (db : Database) (address : Str) : ℤ := (db.state.lookup address).getD 0

/-- What the staged transactions of a sender will cost. -/
def pendingTotal (db : Database) (address : Str) : ℤ := (db.pending address).getD 0

/-- The accounts that the state root sees, in the order of their keys: those with keys between
`"s:"` and `"s:\xff"`. -/
def states (db : Database) : List (Str × ℤ) :=
  ((db.state.keys.filter (· ≤ [Char.ofNat 0xff])).sort (· ≤ ·)).map fun address =>
    (address, db.balance address)

end Database

/-- `_calculateStateRoot` -/
def stateRoot (db : Database) : Str :=
  Sha256.hex (List.intercalate ['|']
    (db.states.map fun e => "s:".toList ++ e.1 ++ ':' :: Json.intText e.2))

/-! ### The engine -/

/-- The database; the log; and what the engine keeps in memory. -/
structure Engine where
  db : Database
  wal : Str
  currentHeight : ℤ
  lastBlockHash : Str
  lastStateRoot : Str

/-- `"0".repeat(64)` -/
def zeroHash : Str := List.replicate 64 '0'

/-- A new engine over a database and its log. -/
def Engine.new (db : Database) (wal : Str) : Engine where
  db := db
  wal := wal
  currentHeight := 0
  lastBlockHash := zeroHash
  lastStateRoot := zeroHash

/-- `_mutateBalance` -/
def mutateBalance (db : Database) (address : Str) (amount : ℤ) (isCredit : Bool) : Write :=
  .state address (if isCredit then db.balance address + amount else db.balance address - amount)

/-- `_getUndoEntry` -/
def getUndoEntry (db : Database) (address : Str) : UndoEntry where
  address := address
  balance := db.balance address

/-! ### Blocks -/

/-- What `confirmBlock` reads of a transaction. -/
structure Transfer where
  tx : Tx
  sender : Str
  recipient : Str
  value : ℤ
  gasUsed : ℤ

/-- A transaction without an integer for its value or its gas throws an error. -/
def transfer? (tx : Tx) : Option Transfer := do
  let gasUsed ← tx.gasUsed?
  let value ← tx.value?
  return {
    tx := tx
    sender := tx.sender
    recipient := tx.recipient
    value := value
    gasUsed := gasUsed }

/-- What a transaction costs its sender. -/
def Transfer.cost (t : Transfer) : ℤ := t.value + t.gasUsed

/-- `{ ...tx, height, status: 'confirmed' }` -/
def confirmedTx (tx : Tx) (height : ℤ) : Tx :=
  store "status".toList (.str "confirmed".toList) (store "height".toList (.num height) tx)

/-- The operations of one transaction, which read the database before the block. -/
def Transfer.writes (db : Database) (height : ℤ) (t : Transfer) : List Write :=
  let remains := db.pendingTotal t.sender - t.cost
  [mutateBalance db t.sender t.cost false,
   mutateBalance db t.recipient t.value true,
   .pending t.sender (if 0 < remains then remains else 0),
   .mempool (text t.tx.sig) none,
   .confirmed (text t.tx.sig) (some (confirmedTx t.tx height))]

def Transfer.undoEntries (db : Database) (t : Transfer) : List UndoEntry :=
  [getUndoEntry db t.sender, getUndoEntry db t.recipient]

def blockReward : ℤ := 5000000000

def totalFees (transfers : List Transfer) : ℤ := (transfers.map (·.gasUsed)).sum

/-- The batch of a block. -/
def blockWrites (db : Database) (transfers : List Transfer) (miner : Str) (height : ℤ) :
    List Write :=
  transfers.flatMap (·.writes db height) ++
    [mutateBalance db miner (totalFees transfers + blockReward) true]

def undoLog (db : Database) (transfers : List Transfer) (miner : Str) : List UndoEntry :=
  transfers.flatMap (·.undoEntries db) ++ [getUndoEntry db miner]

/-- A block with its transactions read. -/
def Engine.confirmTransfers (computeRoot : List Json → Str) (e : Engine)
    (transfers : List Transfer) (miner hash : Str) (height : ℤ) : Engine :=
  let txHashes := transfers.map fun t => t.tx.sig.getD .null
  let db := e.db.write (blockWrites e.db transfers miner height)
  let record : BlockRecord :=
    { hash := hash
      merkleRoot := computeRoot txHashes
      stateRoot := stateRoot db
      prevHash := e.lastBlockHash }
  { e with
    db := db.write
      [.block height (some record),
       .index height (some txHashes),
       .history height (some (undoLog e.db transfers miner))]
    currentHeight := height
    lastBlockHash := hash
    lastStateRoot := stateRoot db }

/-- `confirmBlock`, `none` where it throws an error, which it does before it has written
anything. -/
def Engine.confirmBlock (computeRoot : List Json → Str) (e : Engine) (transactions : List Tx)
    (miner hash : Str) (height : ℤ) : Option Engine :=
  (transactions.mapM transfer?).map fun transfers =>
    e.confirmTransfers computeRoot transfers miner hash height

/-- `{ ...tx, status: 'unconfirmed' }` -/
def unconfirmedTx (tx : Tx) : Tx := store "status".toList (.str "unconfirmed".toList) tx

/-- The operations that put the transactions of a block back, `none` where one is missing. -/
def unconfirmWrites (db : Database) (txHashes : List Json) : Option (List Write) :=
  (txHashes.mapM fun hash => do
    let tx ← db.confirmed (text (some hash))
    return [Write.mempool (text (some hash)) (some (unconfirmedTx tx)),
      Write.confirmed (text (some hash)) none]).map List.flatten

/-- `rollbackBlock`, `none` where it throws an error, which it does before it has written anything.
A block without an undo log is left alone. -/
def Engine.rollbackBlock (e : Engine) (height : ℤ) : Option Engine :=
  match e.db.history height with
  | none => some e
  | some undoLog => do
      let txHashes ← e.db.index height
      let unconfirm ← unconfirmWrites e.db txHashes
      let db := e.db.write
        (undoLog.map (fun entry => .state entry.address entry.balance) ++ unconfirm ++
          [.block height none, .index height none, .history height none])
      let prev := db.block (height - 1)
      return { e with
        db := db
        currentHeight := height - 1
        lastBlockHash := (prev.map (·.hash)).getD zeroHash
        lastStateRoot := (prev.map (·.stateRoot)).getD zeroHash }

/-! ### The mempool and the log -/

/-- `JSON.stringify(tx)` -/
def Tx.json (tx : Tx) : Str := (Json.obj tx).stringify

/-- `JSON.stringify(tx).length`, in units of UTF-16. -/
def utf16Length (s : Str) : ℕ := (s.map fun c => if c.toNat < 0x10000 then 1 else 2).sum

def Tx.gas (tx : Tx) : ℤ := 21000 + (utf16Length tx.json : ℤ) * 16

/-- The entry of the mempool for a transaction. -/
def stagedTx (tx : Tx) (txHash : Str) : Tx :=
  store "gasUsed".toList (.str (Json.intText tx.gas)) (store "_sig".toList (.str txHash) tx)

/-- `tx.from === '0x00'` -/
def Tx.isMint (tx : Tx) : Bool :=
  match lookup "from".toList tx with
  | some (.str s) => s = "0x00".toList
  | _ => false

/-- `_stageInternal`, `none` where it throws an error, which it does before it has written
anything. -/
def stageInternal (db : Database) (tx : Tx) : Option (Database × Str) := do
  let txHash := Sha256.hex tx.json
  let cost := (← tx.value?) + tx.gas
  let sender := tx.sender
  if db.balance sender - db.pendingTotal sender < cost ∧ tx.isMint = false then none
  else
    return (db.write [.pending sender (db.pendingTotal sender + cost),
      .mempool txHash (some (stagedTx tx txHash))], txHash)

/-- `{ ...tx, _sig: txHash }` -/
def loggedTx (tx : Tx) (txHash : Str) : Tx := store "_sig".toList (.str txHash) tx

/-- What `_writeToWAL` appends. -/
def walLine (hmac : Str → Str) (entry : Tx) : Str :=
  hmac entry.json ++ ':' :: (entry.json ++ ['\n'])

/-- `stageToMempool`, `none` where it throws an error. -/
def Engine.stageToMempool (hmac : Str → Str) (e : Engine) (tx : Tx) : Option (Engine × Str) := do
  let (db, txHash) ← stageInternal e.db tx
  return ({ e with db := db, wal := e.wal ++ walLine hmac (loggedTx tx txHash) }, txHash)

/-- What `.` does not match in a regular expression. -/
def isLineTerminator (c : Char) : Bool :=
  c = '\n' || c = '\r' || c = Char.ofNat 0x2028 || c = Char.ofNat 0x2029

/-- The first two parts of `line.split(/:(.+)/)`. -/
def splitLine : Str → Str × Option Str
  | [] => ([], none)
  | c :: rest =>
      let json := rest.takeWhile (!isLineTerminator ·)
      if c = ':' ∧ json ≠ [] then ([], some json)
      else (c :: (splitLine rest).1, (splitLine rest).2)

/-- One line of the log, `none` where it throws an error: where it has no second part, and where its
signature is right but it is not the text of a transaction that can be staged. -/
def replayLine (hmac : Str → Str) (db : Database) (line : Str) : Option Database := do
  let json ← (splitLine line).2
  if (splitLine line).1 = hmac json then
    match ← Json.parse json with
    | .obj tx => (stageInternal db tx).map Prod.fst
    | _ => none
  else return db

/-- The lines of the log one after another.  What was staged before an error stays. -/
def replay (hmac : Str → Str) : Database → List Str → Database × Bool
  | db, [] => (db, true)
  | db, line :: lines =>
      match replayLine hmac db line with
      | none => (db, false)
      | some db' => replay hmac db' lines

/-- `recoverFromCrash`, and whether it completes. -/
def Engine.recoverFromCrash (hmac : Str → Str) (e : Engine) : Engine × Bool :=
  let (db, ok) := replay hmac e.db (nonemptyLines e.wal)
  ({ e with db := db, wal := if ok then [] else e.wal }, ok)

end TransactionEngine
