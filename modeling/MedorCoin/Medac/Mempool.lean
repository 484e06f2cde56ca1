/-
**The pool of pending transactions.**

A node of `medac_node.cjs` keeps the transactions that wait for a block in a `Map`.  A transaction
is checked against the pool and the state of the chain, and put into the pool when the handler goes
on after an `await`; a block or a reorganisation changes the state of the chain first and prunes the
pool after an `await`.  In between other handlers run.

Pruning leaves a pool that is valid on the state.  So the pool is valid whenever no pruning is due,
as long as every transaction still passes its check when it is put in; two transactions that are
checked against one and the same pool need not.

Main definitions:

* `Medac.PoolNode` — a node with its pool and with what its handlers have still to do;
* `Medac.PoolEvent`, `Medac.PoolNode.step` — handlers that start, and handlers that go on;
* `Medac.PoolNode.Timely`, `Medac.TimelyRun` — insertions that still pass the check.

Main results:

* `Medac.revalidateMempool_valid` — pruning leaves a valid pool;
* `Medac.PoolNode.timely_of_unchanged` — an insertion into what was checked is timely;
* `Medac.PoolNode.Pruned.step` — the invariant;
* `Medac.mempool_valid` — **the pool is valid, and a block of it is accepted**.
-/

import MedorCoin.Medac.Chain

set_option autoImplicit false

namespace Medac

open Js

/-! ### Handlers -/

/-- The transactions of a list as the argument of `validateTransactionSequence`. -/
def transactionItems (ts : List Transaction) : Option Json :=
  some (.arr (ts.map Transaction.toJson))

/-- **`acceptTransaction`** of the chain. -/
def MedacChain.acceptTransaction (c : Crypto) (chain : MedacChain) (transaction : Json)
    (pendingTransactions : List Transaction) : Except Error Transaction := do
  let normalized ← normalizeTransaction c transaction
  let _ ← applyTransactions c chain.state (transactionItems (pendingTransactions ++ [normalized]))
  return normalized

/-- **`mineBlockAsync`**, with the nonce at which its search ends and the clock at that time. -/
def mineBlockAsync (c : Crypto) (now : ℕ) (s : State) (minerAddress : Json) (timestamp : ℕ)
    (transactions : List Transaction) (nonce : ℕ) : Except Error Block := do
  assertValidState c s
  let miner ← normalizeAddress (some minerAddress)
  require (timestamp ≤ Json.maxSafeInteger && s.timestamp < timestamp)
    (.error "Invalid MEDAC mining arguments")
  let normalizedTransactions ← (transactions.map Transaction.toJson).mapM (normalizeTransaction c)
  require (nonce ≤ Json.maxSafeInteger) (.error "MEDAC proof-of-work nonce exhausted")
  let header ← prepareBlock s miner timestamp normalizedTransactions nonce
  let block := header.withHash c s.genesisHash
  -- a nonce whose hash is too high is not where the search ends, unless it is given up
  require (hexValue block.hash ≤ s.target) (.error "MEDAC mining cancelled")
  let _ ← applyMinedBlock c now s block.toJson
  return block

/-- What a handler does when it goes on after an `await`. -/
inductive Awaiting
  /-- `submitTransaction`, once the chain has accepted the transaction. -/
  | insert (id : Str) (transaction : Transaction)
  /-- `mine`, once a block has been found. -/
  | append (block : Block)
  /-- `mine` and `_receiveBlock`, once the chain has appended the block. -/
  | remove (transactions : Option Json)
  /-- `_receiveBlocks`, once the chain has adopted the candidate. -/
  | revalidate

/-- A node: its chain, its pool, and the handlers that wait to go on. -/
structure PoolNode where
  chain : MedacChain
  mempool : Map Str Transaction
  waiting : List Awaiting

/-- A handler starts, or one that waits goes on.  The calls of the store come to what the event
says. -/
inductive PoolEvent
  | submit (transaction : Json)
  | mine (now : ℕ) (minerAddress : Json) (timestamp nonce : ℕ)
  | receiveBlock (now : ℕ) (store : Except Error Unit) (block : Json)
  | receiveChain (clock : ℕ → ℕ) (store : Except Error Unit) (blocks : Json)
  /-- The waiting handler number `i` goes on. -/
  | resume (i : ℕ) (now : ℕ) (store : Except Error Unit)

variable {c : Crypto} {options : ConsensusOptions} {config : Consensus}

/-- **`submitTransaction`** up to its `await`. -/
def submitTransaction (c : Crypto) (node : PoolNode) (transaction : Json) :
    Except Error (Option Awaiting) := do
  let normalized ← normalizeTransaction c transaction
  let id ← transactionId c normalized.toJson
  if node.mempool.has id then return none
  else
    let _ ← node.chain.acceptTransaction c normalized.toJson node.mempool.values
    return some (.insert id normalized)

/-- The transactions that `mine` takes. -/
def PoolNode.mined (node : PoolNode) : List Transaction :=
  node.mempool.values.take maxTransactionsPerBlock

/-- **`_revalidateMempool`.** -/
def revalidateMempool (c : Crypto) (s : State) (mempool : Map Str Transaction) :
    Map Str Transaction :=
  mempool.entries.foldl (fun retained e =>
    match applyTransactions c s (transactionItems (retained.values ++ [e.2])) with
    | .ok _ => retained.set e.1 e.2
    | .error _ => retained) Map.empty

/-- **`_removeIncludedTransactions`.** -/
def removeIncludedTransactions (c : Crypto) (s : State) (mempool : Map Str Transaction)
    (transactions : Option Json) : Map Str Transaction :=
  revalidateMempool c s (((Json.array? transactions).getD []).foldl (fun mempool transaction =>
    match transactionId c transaction with
    | .ok id => mempool.delete id
    | .error _ => mempool) mempool)

/-- A block is appended, and the handler waits until it can prune the pool. -/
def PoolNode.appended (c : Crypto) (now : ℕ) (node : PoolNode) (store : Except Error Unit)
    (block : Json) : PoolNode :=
  match node.chain.appendBlock c now store block with
  | .ok chain =>
      { node with chain, waiting := node.waiting ++ [.remove (block.get? "transactions".toList)] }
  | .error _ => node

/-- What a handler does when it goes on. -/
def PoolNode.resume (c : Crypto) (now : ℕ) (node : PoolNode) (store : Except Error Unit) :
    Awaiting → PoolNode
  | .insert id transaction => { node with mempool := node.mempool.set id transaction }
  | .append block => node.appended c now store block.toJson
  | .remove transactions =>
      { node with
        mempool := removeIncludedTransactions c node.chain.state node.mempool transactions }
  | .revalidate => { node with mempool := revalidateMempool c node.chain.state node.mempool }

/-- **One event.** -/
def PoolNode.step (c : Crypto) (node : PoolNode) : PoolEvent → PoolNode
  | .submit transaction =>
      match submitTransaction c node transaction with
      | .ok (some next) => { node with waiting := node.waiting ++ [next] }
      | _ => node
  | .mine now minerAddress timestamp nonce =>
      match mineBlockAsync c now node.chain.state minerAddress timestamp node.mined nonce with
      | .ok block => { node with waiting := node.waiting ++ [.append block] }
      | .error _ => node
  | .receiveBlock now store block => node.appended c now store block
  | .receiveChain clock store blocks =>
      match node.chain.considerChain c clock store blocks with
      | .ok (chain, result) =>
          if result.adopted then { node with chain, waiting := node.waiting ++ [.revalidate] }
          else { node with chain }
      | .error _ => node
  | .resume i now store =>
      match node.waiting[i]? with
      | some next => { node with waiting := node.waiting.eraseIdx i }.resume c now store next
      | none => node

/-! ### Pruning -/

/-- The pool is a list of transactions that the state accepts. -/
def ValidPool (c : Crypto) (s : State) (mempool : Map Str Transaction) : Prop :=
  ∃ l, applyTransactions c s (transactionItems mempool.values) = .ok l

theorem validPool_empty (c : Crypto) (s : State) : ValidPool c s Map.empty :=
  ⟨s.ledger, applyTransactions_eq_ok.2 ⟨[], [], rfl, Nat.zero_le _, .nil, .nil _⟩⟩

/-- **Pruning leaves a valid pool**: it keeps what the state accepts after what has been kept. -/
theorem revalidateMempool_valid (c : Crypto) (s : State) (mempool : Map Str Transaction) :
    ValidPool c s (revalidateMempool c s mempool) := by
  have hfold : ∀ (entries : List (Str × Transaction)) (retained : Map Str Transaction),
      (entries.map Prod.fst).Nodup → (∀ e ∈ entries, retained.get? e.1 = none) →
      ValidPool c s retained → ValidPool c s (entries.foldl (fun retained e =>
        match applyTransactions c s (transactionItems (retained.values ++ [e.2])) with
        | .ok _ => retained.set e.1 e.2
        | .error _ => retained) retained) := by
    intro entries
    induction entries with
    | nil => exact fun retained _ _ hvalid => hvalid
    | cons e entries ih =>
        intro retained hnodup hfresh hvalid
        rw [List.map_cons, List.nodup_cons] at hnodup
        have hrest : ∀ e' ∈ entries, retained.get? e'.1 = none := fun e' he' =>
          hfresh e' (List.mem_cons_of_mem e he')
        rw [List.foldl_cons]
        cases happly : applyTransactions c s (transactionItems (retained.values ++ [e.2])) with
        | ok l =>
            refine ih _ hnodup.2 ?_ ⟨l, ?_⟩
            · intro e' he'
              have hne : e.1 ≠ e'.1 := by
                intro heq
                exact hnodup.1 (heq ▸ List.mem_map_of_mem he')
              rw [Map.get?_set_of_ne _ _ hne]
              exact hrest e' he'
            · rw [Map.values_set_of_get? _ (hfresh e List.mem_cons_self)]
              exact happly
        | error e' => exact ih _ hnodup.2 hrest hvalid
  exact hfold mempool.entries Map.empty mempool.nodup (fun _ _ => rfl) (validPool_empty c s)

/-! ### Insertions -/

/-- The handlers that will prune the pool. -/
def Awaiting.Prunes : Awaiting → Prop
  | .remove _ => True
  | .revalidate => True
  | _ => False

namespace PoolNode

/-- Some handler has still to prune the pool. -/
def PruningDue (node : PoolNode) : Prop := ∃ next ∈ node.waiting, next.Prunes

/-- **An insertion that still passes the check**: another handler has still to prune the pool, or
the pool has the transaction, or it does not have its identifier and the chain accepts it after
those that the pool has now. -/
def Timely (c : Crypto) (node : PoolNode) : PoolEvent → Prop
  | .resume i _ _ => ∀ id transaction, node.waiting[i]? = some (.insert id transaction) →
      node.PruningDue ∨ node.mempool.get? id = some transaction ∨
        (node.mempool.get? id = none ∧
          ∃ t, node.chain.acceptTransaction c transaction.toJson node.mempool.values = .ok t)
  | _ => True

/-- **What holds between the events**: the state of the chain is reachable, and the pool is valid
on it unless it is still to be pruned. -/
structure Pruned (c : Crypto) (options : ConsensusOptions) (config : Consensus) (node : PoolNode) :
    Prop where
  chain : node.chain.Sound c options config
  valid : ¬ node.PruningDue → ValidPool c node.chain.state node.mempool

variable {node : PoolNode}

theorem acceptTransaction_valid {chain : MedacChain} {transaction t : Transaction}
    {pending : List Transaction}
    (h : chain.acceptTransaction c transaction.toJson pending = .ok t) :
    ∃ l, applyTransactions c chain.state (transactionItems (pending ++ [transaction])) = .ok l := by
  obtain ⟨normalized, hnormalized, h⟩ := bind_eq_ok.1 h
  obtain ⟨l, hl, -⟩ := bind_eq_ok.1 h
  obtain rfl := (normalizeTransaction_eq_ok.1 hnormalized).1.unique transaction.readFrom_toJson
  exact ⟨l, hl⟩

/-- **An insertion into what was checked is timely.** -/
theorem timely_of_unchanged {before : PoolNode} {raw : Json} {id : Str} {transaction : Transaction}
    {i now : ℕ} {store : Except Error Unit}
    (hsubmit : submitTransaction c before raw = .ok (some (.insert id transaction)))
    (hchain : node.chain = before.chain) (hmempool : node.mempool = before.mempool)
    (hwaiting : node.waiting[i]? = some (.insert id transaction)) :
    node.Timely c (.resume i now store) := by
  intro id' transaction' hinsert
  rw [hwaiting, Option.some.injEq, Awaiting.insert.injEq] at hinsert
  obtain ⟨rfl, rfl⟩ := hinsert
  obtain ⟨normalized, -, hsubmit⟩ := bind_eq_ok.1 hsubmit
  obtain ⟨id', -, hsubmit⟩ := bind_eq_ok.1 hsubmit
  cases hhas : before.mempool.has id' with
  | true =>
      rw [hhas, if_pos rfl] at hsubmit
      cases hsubmit
  | false =>
      rw [hhas, if_neg Bool.false_ne_true] at hsubmit
      obtain ⟨t, haccept, hsubmit⟩ := bind_eq_ok.1 hsubmit
      cases hsubmit
      refine Or.inr (Or.inr ⟨?_, t, by rw [hchain, hmempool]; exact haccept⟩)
      rw [hmempool]
      simpa [Map.has] using hhas

/-! ### The invariant -/

theorem pruningDue_append {waiting : List Awaiting} {next : Awaiting} {chain : MedacChain}
    {mempool : Map Str Transaction} :
    PruningDue ⟨chain, mempool, waiting ++ [next]⟩ ↔
      PruningDue ⟨chain, mempool, waiting⟩ ∨ next.Prunes := by
  simp only [PruningDue, List.mem_append, List.mem_singleton, or_and_right, exists_or,
    exists_eq_left]

theorem PruningDue.eraseIdx {next : Awaiting} {i : ℕ} (h : node.PruningDue)
    (hnext : node.waiting[i]? = some next) (hprunes : ¬ next.Prunes) :
    PruningDue { node with waiting := node.waiting.eraseIdx i } := by
  obtain ⟨other, hother, hother'⟩ := h
  obtain ⟨j, hj⟩ := List.mem_iff_getElem?.1 hother
  refine ⟨other, List.mem_eraseIdx_iff_getElem?.2 ⟨j, ?_, hj⟩, hother'⟩
  rintro rfl
  rw [hnext, Option.some.injEq] at hj
  exact hprunes (hj ▸ hother')

namespace Pruned

theorem appended (h : node.Pruned c options config) (now : ℕ) (store : Except Error Unit)
    (block : Json) : (node.appended c now store block).Pruned c options config := by
  unfold PoolNode.appended
  split
  · next chain happend =>
      obtain ⟨state, hstate, -, hchain⟩ := MedacChain.appendBlock_eq_ok.1 happend
      have hsound : chain.Sound c options config := by
        rw [hchain]
        exact ⟨h.chain.options_eq, h.chain.parsed, .block h.chain.reachable hstate⟩
      refine ⟨hsound, fun hnot => ?_⟩
      have hprunes : (Awaiting.remove (block.get? "transactions".toList)).Prunes := trivial
      exact absurd (pruningDue_append.2 (Or.inr hprunes)) hnot
  · exact h

theorem resume {i now : ℕ} {store : Except Error Unit} {next : Awaiting}
    (h : node.Pruned c options config) (htimely : node.Timely c (.resume i now store))
    (hnext : node.waiting[i]? = some next) :
    (PoolNode.resume c now { node with waiting := node.waiting.eraseIdx i } store next).Pruned c
      options config := by
  have herased : ¬ next.Prunes → ¬ PruningDue { node with waiting := node.waiting.eraseIdx i } →
      ValidPool c node.chain.state node.mempool := by
    intro hprunes hnot
    exact h.valid fun hdue => hnot (hdue.eraseIdx hnext hprunes)
  cases next with
  | insert id transaction =>
      refine ⟨h.chain, fun hnot => ?_⟩
      have hprunes : ¬ (Awaiting.insert id transaction).Prunes := fun hfalse => hfalse
      rcases htimely id transaction hnext with hdue | hget | ⟨hnone, t, haccept⟩
      · exact absurd (hdue.eraseIdx hnext hprunes) hnot
      · change ValidPool c node.chain.state (node.mempool.set id transaction)
        rw [Map.set_of_get? hget]
        exact herased hprunes hnot
      · obtain ⟨l, hl⟩ := acceptTransaction_valid haccept
        refine ⟨l, ?_⟩
        change applyTransactions c node.chain.state
          (transactionItems (node.mempool.set id transaction).values) = .ok l
        rw [Map.values_set_of_get? _ hnone]
        exact hl
  | append block =>
      have hprunes : ¬ (Awaiting.append block).Prunes := fun hfalse => hfalse
      have hnode : Pruned c options config { node with waiting := node.waiting.eraseIdx i } :=
        ⟨h.chain, herased hprunes⟩
      exact hnode.appended now store block.toJson
  | remove transactions => exact ⟨h.chain, fun _ => revalidateMempool_valid c _ _⟩
  | revalidate => exact ⟨h.chain, fun _ => revalidateMempool_valid c _ _⟩

/-- **Every event keeps it**, as long as insertions are timely. -/
theorem step {event : PoolEvent} (h : node.Pruned c options config)
    (htimely : node.Timely c event) : (node.step c event).Pruned c options config := by
  cases event with
  | submit transaction =>
      unfold PoolNode.step
      dsimp only
      cases hsubmit : submitTransaction c node transaction with
      | error e => exact h
      | ok result =>
          cases result with
          | none => exact h
          | some next =>
              refine ⟨h.chain, fun hnot => h.valid fun hdue => hnot ?_⟩
              exact pruningDue_append.2 (Or.inl hdue)
  | mine now minerAddress timestamp nonce =>
      unfold PoolNode.step
      dsimp only
      cases hmine :
          mineBlockAsync c now node.chain.state minerAddress timestamp node.mined nonce with
      | error e => exact h
      | ok block =>
          refine ⟨h.chain, fun hnot => h.valid fun hdue => hnot ?_⟩
          exact pruningDue_append.2 (Or.inl hdue)
  | receiveBlock now store block => exact h.appended now store block
  | receiveChain clock store blocks =>
      unfold PoolNode.step
      dsimp only
      cases hconsider : node.chain.considerChain c clock store blocks with
      | error e => exact h
      | ok pair =>
          obtain ⟨chain, result⟩ := pair
          obtain ⟨items, candidate, -, -, hreplay, hcases⟩ :=
            MedacChain.considerChain_eq_ok.1 hconsider
          obtain ⟨config', hconfig', hreach⟩ := reachable_of_replayBlocks hreplay
          rw [h.chain.options_eq, h.chain.parsed, Except.ok.injEq] at hconfig'
          subst hconfig'
          rcases hcases with ⟨-, rfl, rfl⟩ | ⟨-, -, rfl, rfl⟩
          · exact h
          · refine ⟨⟨h.chain.options_eq, h.chain.parsed, hreach⟩, fun hnot => ?_⟩
            have hprunes : Awaiting.revalidate.Prunes := trivial
            exact absurd (pruningDue_append.2 (Or.inr hprunes)) hnot
  | resume i now store =>
      unfold PoolNode.step
      dsimp only
      cases hnext : node.waiting[i]? with
      | none => exact h
      | some next => exact h.resume htimely hnext

end Pruned

end PoolNode

/-! ### Runs -/

/-- The nodes that a run leads to whose insertions are timely. -/
inductive TimelyRun (c : Crypto) (start : PoolNode) : PoolNode → Prop
  | start : TimelyRun c start start
  | step {node : PoolNode} (event : PoolEvent) (before : TimelyRun c start node)
      (timely : node.Timely c event) : TimelyRun c start (node.step c event)

/-- A node that has been started. -/
def startedNode (chain : MedacChain) : PoolNode := { chain, mempool := Map.empty, waiting := [] }

theorem TimelyRun.pruned {chain : MedacChain} {node : PoolNode}
    (hchain : chain.Sound c options config) (h : TimelyRun c (startedNode chain) node) :
    node.Pruned c options config := by
  induction h with
  | start => exact ⟨hchain, fun _ => validPool_empty c _⟩
  | step event _ htimely ih => exact ih.step htimely

/-- **A block made of a valid pool is accepted**: `mine` finds it at a nonce with a low hash. -/
theorem ValidPool.exists_block {s : State} {mempool : Map Str Transaction}
    (h : ValidPool c s mempool) (hs : Reachable c config s) (minerAddress : Address)
    {now timestamp nonce : ℕ} (hheight : s.height < Json.maxSafeInteger)
    (hlt : s.timestamp < timestamp) (hsafe : timestamp ≤ Json.maxSafeInteger)
    (hle : timestamp ≤ now + maxFutureSeconds) (hnonce : nonce ≤ Json.maxSafeInteger) :
    ∃ header, prepareBlock s minerAddress timestamp (mempool.values.take maxTransactionsPerBlock)
        nonce = .ok header ∧
      (hexValue (header.withHash c s.genesisHash).hash ≤ s.target →
        mineBlockAsync c now s minerAddress.toJson timestamp
            (mempool.values.take maxTransactionsPerBlock) nonce =
          .ok (header.withHash c s.genesisHash) ∧
        ∃ s', applyMinedBlock c now s (header.withHash c s.genesisHash).toJson = .ok s') := by
  obtain ⟨l, hl⟩ := h
  obtain ⟨items, ts, hitems, hlen, hnormal, hsteps⟩ := applyTransactions_eq_ok.1 hl
  obtain rfl : mempool.values.map Transaction.toJson = items := by
    simpa [transactionItems] using hitems
  have hts : mempool.values = ts := by
    rw [List.forall₂_map_left_iff] at hnormal
    refine List.forall₂_eq_eq_eq ▸ hnormal.imp fun t t' ht => ?_
    exact t.readFrom_toJson.unique (normalizeTransaction_eq_ok.1 ht).1
  subst hts
  rw [List.length_map] at hlen
  rw [List.take_of_length_le hlen]
  have hvalid := hs.valid
  obtain ⟨reward, hreward⟩ : ∃ reward,
      calculateBlockReward (s.height + 1) s.miningIssued = .ok reward :=
    ⟨_, calculateBlockReward_eq (by omega) (by omega) hvalid.miningIssued_le⟩
  obtain ⟨header, hprepare⟩ : ∃ header,
      prepareBlock s minerAddress timestamp mempool.values nonce = .ok header := by
    rw [prepareBlock, hreward]
    exact ⟨_, rfl⟩
  refine ⟨header, hprepare, fun hwork => ?_⟩
  have haccepts := accepts_prepareBlock hheight hlt hsafe hle (hs.medianTime_lt hlt) hnonce hlen
    (accepted_of_forall₂ hnormal) hsteps hreward hprepare hwork
  have happly : applyMinedBlock c now s (header.withHash c s.genesisHash).toJson = .ok _ :=
    applyMinedBlock_eq_ok.2 ⟨hvalid, _, _, _, haccepts.readFrom_toJson, haccepts, rfl⟩
  have hbounds : (timestamp ≤ Json.maxSafeInteger && s.timestamp < timestamp) = true := by
    simp only [hsafe, hlt, decide_true, Bool.and_self]
  refine ⟨?_, _, happly⟩
  rw [mineBlockAsync, assertValidState_eq_ok.2 hvalid, ok_bind, normalizeAddress_toJson, ok_bind,
    require_true hbounds, ok_bind, mapM_eq_ok_iff.2 hnormal, ok_bind,
    require_true (decide_eq_true hnonce), ok_bind, hprepare, ok_bind]
  simp only [require_true (decide_eq_true hwork), ok_bind, happly, pure_eq_ok]

/-- **The pool is valid.**  A node starts on a reachable state with an empty pool, and handlers
start and go on in any order, every insertion being timely.  Whenever no handler has still to prune
the pool, in particular when none waits at all, the chain accepts the list of the transactions in
the pool; and `mine` finds a block of those that it takes, which the chain accepts, at every nonce
with a low hash. -/
theorem mempool_valid {chain : MedacChain} {node : PoolNode}
    (hchain : chain.Sound c options config) (hrun : TimelyRun c (startedNode chain) node)
    (hquiet : ¬ node.PruningDue) :
    ValidPool c node.chain.state node.mempool ∧
    ∀ (minerAddress : Address) (now timestamp nonce : ℕ),
      node.chain.state.height < Json.maxSafeInteger → node.chain.state.timestamp < timestamp →
      timestamp ≤ Json.maxSafeInteger → timestamp ≤ now + maxFutureSeconds →
      nonce ≤ Json.maxSafeInteger →
      ∃ header, prepareBlock node.chain.state minerAddress timestamp node.mined nonce = .ok header ∧
        (hexValue (header.withHash c node.chain.state.genesisHash).hash ≤
            node.chain.state.target →
          mineBlockAsync c now node.chain.state minerAddress.toJson timestamp node.mined nonce =
            .ok (header.withHash c node.chain.state.genesisHash) ∧
          ∃ s', applyMinedBlock c now node.chain.state
            (header.withHash c node.chain.state.genesisHash).toJson = .ok s') := by
  have hpruned := hrun.pruned hchain
  have hvalid := hpruned.valid hquiet
  exact ⟨hvalid, fun minerAddress now timestamp nonce hheight hlt hsafe hle hnonce =>
    hvalid.exists_block hpruned.chain.reachable minerAddress hheight hlt hsafe hle hnonce⟩

/-! ### Two submissions at once -/

/-- Another transfer of the miner of the small network, with the number of the first. -/
def otherTransfer : Transfer :=
  { sampleTransfer with
    amount := numeral (2 * token)
    amount_numeral := by decide +kernel }

/-- The miner's signature of it. -/
def otherSignature : Signature :=
  ⟨("0x764e49acd4bffa5b0429339f3427516e913d75b910288f8429d78a06ab247a14" ++
    "2ad224741b9c20612070c0ec17bd124c960b5cd7f65ff3c4c9627010e3d5ee711b").toList,
    by decide +kernel⟩

/-- SHA-256, and the recovery of the two signatures. -/
def pairCrypto : Crypto where
  sha256 := Sha256.hex
  verifyMessage text signature :=
    if text = sampleTransfer.signingPayload ∧ signature = sampleSignature.val ∨
        text = otherTransfer.signingPayload ∧ signature = otherSignature.val then
      .ok "0x7E5F4552091A69125d5DfCb7b8C2659029395Bdf".toList
    else .error (.typeError "invalid point")
  isLowerHex_sha256 := Sha256.isLowerHex_hex

/-- The other signed transfer. -/
def otherTransaction : Transaction := { otherTransfer with signature := otherSignature }

theorem pair_accepted : sampleTransaction.Accepted pairCrypto ∧
    otherTransaction.Accepted pairCrypto := by
  have hsigner : normalizeAddress
      (some (.str "0x7E5F4552091A69125d5DfCb7b8C2659029395Bdf".toList)) = .ok sampleMiner := by
    decide +kernel
  constructor
  · refine ⟨by decide +kernel, by decide +kernel, by decide +kernel, _, ?_, hsigner⟩
    simp only [sampleTransaction, pairCrypto, and_self, true_or, if_true]
  · refine ⟨by decide +kernel, by decide +kernel, by decide +kernel, _, ?_, hsigner⟩
    simp only [otherTransaction, pairCrypto, and_self, or_true, if_true]

/-- The object of the small network after its first block. -/
def pairObject : MedacChain := { sampleObject with state := sampleFirst }

theorem State.Accepts.of_empty {c' : Crypto} {now reward : ℕ} {s : State} {b : Block} {l : Ledger}
    (hsha : c'.sha256 = c.sha256) (hempty : b.transactions = []) (h : s.Accepts c now b reward l) :
    s.Accepts c' now b reward l := by
  have hledger := h.ledger
  rw [hempty] at hledger
  cases hledger
  exact
    { height_eq := h.height_eq
      height_le := h.height_le
      previousHash_eq := h.previousHash_eq
      lt_timestamp := h.lt_timestamp
      timestamp_safe := h.timestamp_safe
      timestamp_le := h.timestamp_le
      nonce := h.nonce
      target_eq := h.target_eq
      reward_eq := h.reward_eq
      reward := h.reward
      length_transactions := h.length_transactions
      transactions := by
        intro t ht
        rw [hempty] at ht
        cases ht
      ledger := by
        rw [hempty]
        exact .nil _
      median := h.median
      hash_eq := by
        rw [hsha]
        exact h.hash_eq
      work := h.work }

theorem pairObject_sound :
    pairObject.Sound pairCrypto sampleConsensus.toOptions sampleConsensus where
  options_eq := rfl
  parsed := parseConsensusConfig_toOptions _
  reachable := by
    have hgenesis : Reachable pairCrypto sampleConsensus sampleGenesis := .genesis
    exact hgenesis.accepted (State.Accepts.of_empty (c := sampleCrypto) rfl rfl sampleFirst_accepts)

theorem one_le_maxTransactions : 1 ≤ maxTransactionsPerBlock := by decide

theorem submitTransaction_alone {chain : MedacChain} {waiting : List Awaiting} {t : Transaction}
    (ht : t.Accepted c) (hadmits : chain.state.ledger.Admits c chain.state.genesisHash t) :
    submitTransaction c ⟨chain, Map.empty, waiting⟩ t.toJson =
      .ok (some (.insert (t.identifier c) t)) := by
  have hnormal : normalizeTransaction c t.toJson = .ok t :=
    normalizeTransaction_eq_ok.2 ⟨t.readFrom_toJson, ht⟩
  have happly : applyTransactions c chain.state (transactionItems ([] ++ [t])) =
      .ok (chain.state.ledger.after c t) :=
    applyTransactions_eq_ok.2 ⟨[t.toJson], [t], rfl, one_le_maxTransactions, .cons hnormal .nil,
      .cons hadmits (.nil _)⟩
  rw [submitTransaction, hnormal, ok_bind, transactionId_toJson, ok_bind]
  have hhas : (Map.empty : Map Str Transaction).has (t.identifier c) = false := rfl
  rw [hhas, if_neg Bool.false_ne_true, MedacChain.acceptTransaction, hnormal, ok_bind]
  simp only [Map.values_empty, happly, ok_bind, pure_eq_ok]

theorem step_submit_alone (chain : MedacChain) {t : Transaction} (ht : t.Accepted c)
    (hadmits : chain.state.ledger.Admits c chain.state.genesisHash t) :
    (startedNode chain).step c (.submit t.toJson) =
      ⟨chain, Map.empty, [.insert (t.identifier c) t]⟩ := by
  unfold PoolNode.step
  dsimp only
  rw [startedNode, submitTransaction_alone ht hadmits]
  rfl

theorem timelyRun_alone (chain : MedacChain) {t : Transaction} (ht : t.Accepted c)
    (hadmits : chain.state.ledger.Admits c chain.state.genesisHash t) :
    TimelyRun c (startedNode chain) ⟨chain, Map.empty.set (t.identifier c) t, []⟩ := by
  have hsubmitted : TimelyRun c (startedNode chain)
      ⟨chain, Map.empty, [.insert (t.identifier c) t]⟩ := by
    rw [← step_submit_alone chain ht hadmits]
    exact .step _ .start trivial
  have htimely : PoolNode.Timely c ⟨chain, Map.empty, [.insert (t.identifier c) t]⟩
      (.resume 0 0 (.ok ())) :=
    PoolNode.timely_of_unchanged (submitTransaction_alone ht hadmits) rfl rfl rfl
  exact .step (.resume 0 0 (.ok ())) hsubmitted htimely

theorem submit_both (chain : MedacChain) {t t' : Transaction} (ht : t.Accepted c)
    (ht' : t'.Accepted c) (hadmits : chain.state.ledger.Admits c chain.state.genesisHash t)
    (hadmits' : chain.state.ledger.Admits c chain.state.genesisHash t') :
    [PoolEvent.submit t.toJson, .submit t'.toJson, .resume 0 0 (.ok ()),
        .resume 0 0 (.ok ())].foldl (PoolNode.step c) (startedNode chain) =
      ⟨chain, (Map.empty.set (t.identifier c) t).set (t'.identifier c) t', []⟩ := by
  have hfirst := step_submit_alone chain ht hadmits
  have hsecond : PoolNode.step c ⟨chain, Map.empty, [.insert (t.identifier c) t]⟩
      (.submit t'.toJson) =
        ⟨chain, Map.empty, [.insert (t.identifier c) t, .insert (t'.identifier c) t']⟩ := by
    unfold PoolNode.step
    dsimp only
    rw [submitTransaction_alone ht' hadmits']
    rfl
  rw [List.foldl_cons, hfirst, List.foldl_cons, hsecond]
  rfl

theorem not_validPool_pair {s : State} {t t' : Transaction} (hne : t.identifier c ≠ t'.identifier c)
    (hsender : t'.sender = t.sender) (hnonce : t'.nonce = t.nonce) :
    ¬ ValidPool c s ((Map.empty.set (t.identifier c) t).set (t'.identifier c) t') := by
  have hvalues :
      ((Map.empty.set (t.identifier c) t).set (t'.identifier c) t').values = [t, t'] := by
    have hfresh : (Map.empty.set (t.identifier c) t).get? (t'.identifier c) = none := by
      rw [Map.get?_set_of_ne _ _ hne, Map.get?_empty]
    rw [Map.values_set_of_get? _ hfresh, Map.values_set_of_get? _ (Map.get?_empty _)]
    rfl
  rintro ⟨l, hl⟩
  rw [hvalues] at hl
  obtain ⟨items, ts, hitems, -, hnormal, hsteps⟩ := applyTransactions_eq_ok.1 hl
  cases hitems
  obtain ⟨u, us, hu, hus, rfl⟩ := List.forall₂_cons_left_iff.1 hnormal
  obtain ⟨u', us', hu', -, rfl⟩ := List.forall₂_cons_left_iff.1 hus
  obtain rfl := (normalizeTransaction_eq_ok.1 hu).1.unique t.readFrom_toJson
  obtain rfl := (normalizeTransaction_eq_ok.1 hu').1.unique t'.readFrom_toJson
  cases hsteps with
  | cons hadmits hrest =>
      cases hrest with
      | cons hadmits' _ =>
          -- the first has used the number up
          have hused := hadmits'.nonce
          rw [Ledger.after, nonceOf, hsender, Map.get?_set_self, Option.getD_some, hnonce,
            hadmits.nonce] at hused
          omega

theorem pair_admitted :
    sampleFirst.ledger.Admits pairCrypto sampleFirst.genesisHash sampleTransaction ∧
      sampleFirst.ledger.Admits pairCrypto sampleFirst.genesisHash otherTransaction := by
  have hbalance : balanceOf sampleFirst.ledger.balances sampleMiner =
      balanceOf genesisBalances sampleMiner + (initialBlockReward + (0 : ℕ)) :=
    balanceOf_credit_self _ _ _
  rw [initialBlockReward_eq] at hbalance
  constructor
  · refine ⟨rfl, List.not_mem_nil, rfl, ?_⟩
    change _ ≤ balanceOf sampleFirst.ledger.balances sampleMiner
    rw [hbalance]
    decide +kernel
  · refine ⟨rfl, List.not_mem_nil, rfl, ?_⟩
    change _ ≤ balanceOf sampleFirst.ledger.balances sampleMiner
    rw [hbalance]
    decide +kernel

theorem pair_identifier_ne :
    sampleTransaction.identifier pairCrypto ≠ otherTransaction.identifier pairCrypto := by
  decide +kernel

theorem pair_sender : otherTransaction.sender = sampleTransaction.sender := by
  have hother : otherTransaction.sender = sampleMiner := rfl
  have hsample : sampleTransaction.sender = sampleMiner := rfl
  rw [hother, hsample]

theorem pair_nonce : otherTransaction.nonce = sampleTransaction.nonce := by
  have hother : otherTransaction.nonce = 0 := rfl
  have hsample : sampleTransaction.nonce = 0 := rfl
  rw [hother, hsample]

theorem mempool_valid_pairObject : ValidPool pairCrypto sampleFirst
    (Map.empty.set (sampleTransaction.identifier pairCrypto) sampleTransaction) := by
  have hrun := timelyRun_alone pairObject pair_accepted.1 pair_admitted.1
  refine (mempool_valid pairObject_sound hrun ?_).1
  rintro ⟨next, hnext, -⟩
  exact List.not_mem_nil hnext

/-- **Two submissions at once.**  Two transfers of one sender with one number are submitted to the
small network, and both are checked before the first is put into the pool.  When both handlers have
gone on, no handler waits, and the chain does not accept the pool. -/
theorem mempool_valid_race : ∃ node,
    [PoolEvent.submit sampleTransaction.toJson, .submit otherTransaction.toJson,
        .resume 0 0 (.ok ()), .resume 0 0 (.ok ())].foldl (PoolNode.step pairCrypto)
          (startedNode pairObject) = node ∧
    pairObject.Sound pairCrypto sampleConsensus.toOptions sampleConsensus ∧ node.waiting = [] ∧
    ¬ ValidPool pairCrypto node.chain.state node.mempool := by
  have hboth := submit_both pairObject pair_accepted.1 pair_accepted.2 pair_admitted.1
    pair_admitted.2
  exact ⟨_, hboth, pairObject_sound, rfl,
    not_validPool_pair pair_identifier_ne pair_sender pair_nonce⟩

end Medac
