/-
**The two miners.**

`mineBlock` and `mineBlockAsync` of `medac_consensus.cjs` search the nonces from a start on for one
at which the hash of the prepared block is low enough, and apply the block that they find to the
state.  The first runs in one loop; the second searches in batches, lets other work run between
them, and asks before each batch whether it is to give up.

Main definitions:

* `Medac.Miner.tryNonce` — the body of either loop;
* `Medac.Miner.mineBlock`, `Medac.Miner.mineBlockAsync`, `Medac.Miner.MiningOptions`.

Main results:

* `Medac.Miner.mineBlock_eq_mineBlockAsync` — **the miners return the same**;
* `Medac.Miner.mineBlock_sound` — **the nonce is the least one, and the block is accepted**;
* `Medac.Miner.mineBlock_finds` — where a nonce has a low hash the miners find a block;
* `Medac.Miner.mineBlockAsync_refines` — the search in the model of the pool is this one;
* `Medac.Miner.miners_agree` — all of this together.
-/

import MedorCoin.Medac.Replay
import MedorCoin.Medac.Mempool
import MedorCoin.Search.Loops

set_option autoImplicit false

namespace Medac

open Js

/-- The object of a prepared block. -/
def BlockHeader.toJson (h : BlockHeader) : Json :=
  .obj [("height".toList, .num h.height), ("previousHash".toList, .str h.previousHash),
    ("timestamp".toList, .num h.timestamp), ("nonce".toList, .str h.nonce),
    ("minerAddress".toList, h.minerAddress.toJson), ("reward".toList, .str h.reward),
    ("target".toList, .str h.target),
    ("transactions".toList, .arr (h.transactions.map Transaction.toJson))]

/-- A header with another nonce. -/
def BlockHeader.withNonce (h : BlockHeader) (nonce : ℕ) : BlockHeader :=
  { h with nonce := numeral nonce }

namespace Miner

/-! ### The miners -/

/-- The body of either loop: the block with its hash, and the state after it, if the hash is low
enough. -/
def tryNonce (c : Crypto) (now : ℕ) (s : State) (miner : Address) (timestamp : ℕ)
    (transactions : List Transaction) (nonce : ℕ) : Except Error (Option (Block × State)) := do
  let header ← prepareBlock s miner timestamp transactions nonce
  let hash ← hashBlockHeader c header.toJson s.genesisHash
  let block : Block := { header with hash }
  if hexValue block.hash ≤ s.target then
    let next ← applyMinedBlock c now s block.toJson
    return some (block, next)
  else return none

/-- The checks on the timestamp and on the list of transactions, which is empty by default. -/
def readArguments (s : State) (timestamp transactions : Option Json) :
    Except Error (ℕ × List Json) :=
  match Json.safeNat? timestamp, Json.array? (some (transactions.getD (.arr []))) with
  | some timestamp, some items =>
      if s.timestamp < timestamp then .ok (timestamp, items)
      else .error (.error "Invalid MEDAC mining arguments")
  | _, _ => .error (.error "Invalid MEDAC mining arguments")

/-- What a miner makes of the end of its loop. -/
def found : Option (Block × State) → Except Error (Block × State)
  | some result => .ok result
  | none => .error (.error "MEDAC proof-of-work nonce exhausted")

/-- **`mineBlock`**, with the clock at the time when the block is applied. -/
def mineBlock (c : Crypto) (now : ℕ) (s : State) (minerAddress timestamp transactions : Option Json)
    (startNonce : ℤ) : Except Error (Block × State) := do
  assertValidState c s
  let miner ← normalizeAddress minerAddress
  let (timestamp, items) ← readArguments s timestamp transactions
  require (0 ≤ startNonce) (.error "Invalid MEDAC mining arguments")
  let normalizedTransactions ← items.mapM (normalizeTransaction c)
  let result ← Search.scan (tryNonce c now s miner timestamp normalizedTransactions)
    Json.maxSafeInteger startNonce.toNat
  found result

/-- The options of `mineBlockAsync`.  `shouldCancel` is asked before each batch, and the nonce
there tells the calls apart. -/
structure MiningOptions where
  batchSize : Option Json
  shouldCancel : ℕ → Bool
  startNonce : Option ℤ

/-- The check on the batch size. -/
def readBatchSize (batchSize : Option Json) : Except Error {n : ℕ // 0 < n} :=
  match Json.safeNat? (some (batchSize.getD (.num 5000))) with
  | some n =>
      if h : 1 ≤ n ∧ n ≤ 1000000 then .ok ⟨n, h.1⟩
      else .error (.rangeError "Invalid MEDAC mining batch size")
  | none => .error (.rangeError "Invalid MEDAC mining batch size")

/-- **`mineBlockAsync`**, with the clock at the time when the block is applied. -/
def mineBlockAsync (c : Crypto) (now : ℕ) (s : State)
    (minerAddress timestamp transactions : Option Json) (options : MiningOptions) :
    Except Error (Block × State) := do
  assertValidState c s
  let miner ← normalizeAddress minerAddress
  let (timestamp, items) ← readArguments s timestamp transactions
  let batchSize ← readBatchSize options.batchSize
  let normalizedTransactions ← items.mapM (normalizeTransaction c)
  let nonce := options.startNonce.getD 0
  require (0 ≤ nonce) (.rangeError "Invalid MEDAC proof-of-work nonce")
  let result ← Search.scanBatches (tryNonce c now s miner timestamp normalizedTransactions)
    (fun nonce => require (!options.shouldCancel nonce) (.error "MEDAC mining cancelled"))
    batchSize.property Json.maxSafeInteger nonce.toNat
  found result

theorem readArguments_eq_ok {s : State} {timestamp transactions : Option Json} {time : ℕ}
    {items : List Json} :
    readArguments s timestamp transactions = .ok (time, items) ↔
      timestamp = some (.num time) ∧ time ≤ Json.maxSafeInteger ∧ s.timestamp < time ∧
        transactions.getD (.arr []) = .arr items := by
  rw [readArguments]
  constructor
  · intro h
    split at h
    · next time' items' htime hitems =>
        obtain ⟨hget, hsafe⟩ := Json.safeNat?_eq_some.1 htime
        split at h
        · next hlt =>
            cases h
            exact ⟨hget, hsafe, hlt, Option.some.inj (Json.array?_eq_some.1 hitems)⟩
        · cases h
    · cases h
  · rintro ⟨rfl, hsafe, hlt, hitems⟩
    simp only [Json.safeNat?_num hsafe, hitems, Json.array?_arr, if_pos hlt]

/-! ### What a turn does -/

section Turn

variable {c : Crypto} {config : Consensus} {now now' : ℕ} {s : State} {miner : Address}
  {timestamp reward : ℕ} {transactions : List Transaction}

/-- What a miner prepares, for a reward. -/
def header (s : State) (miner : Address) (timestamp reward : ℕ) (transactions : List Transaction)
    (nonce : ℕ) : BlockHeader :=
  { height := s.height + 1, previousHash := s.tipHash, timestamp, nonce := numeral nonce,
    minerAddress := miner, reward := numeral reward, target := numeral s.target, transactions }

theorem prepareBlock_eq (hreward : calculateBlockReward (s.height + 1) s.miningIssued = .ok reward)
    (nonce : ℕ) :
    prepareBlock s miner timestamp transactions nonce =
      .ok (header s miner timestamp reward transactions nonce) := by
  rw [prepareBlock, hreward]
  rfl

theorem hashBlockHeader_toJson {h : BlockHeader}
    (htransactions : ∀ t ∈ h.transactions, t.Accepted c) (genesisHash : Str) :
    hashBlockHeader c h.toJson genesisHash = .ok (h.withHash c genesisHash).hash := by
  have hminer : normalizeAddress (h.toJson.get? "minerAddress".toList) = .ok h.minerAddress :=
    normalizeAddress_toJson h.minerAddress
  have hitems : h.toJson.get? "transactions".toList =
      some (.arr (h.transactions.map Transaction.toJson)) := rfl
  have hnormal : (h.transactions.map Transaction.toJson).mapM (normalizeTransaction c) =
      .ok h.transactions := by
    rw [mapM_eq_ok_iff, List.forall₂_map_left_iff, List.forall₂_same]
    intro t ht
    exact normalizeTransaction_eq_ok.2 ⟨t.readFrom_toJson, htransactions t ht⟩
  rw [hashBlockHeader, hminer, ok_bind, hitems]
  simp only [Json.array?_arr]
  rw [hnormal]
  rfl

/-- **What a turn does**: it looks at the hash of the block with its nonce. -/
theorem tryNonce_eq (hreward : calculateBlockReward (s.height + 1) s.miningIssued = .ok reward)
    (htransactions : ∀ t ∈ transactions, t.Accepted c) (nonce : ℕ) :
    tryNonce c now s miner timestamp transactions nonce =
      let block := (header s miner timestamp reward transactions nonce).withHash c s.genesisHash
      if hexValue block.hash ≤ s.target then
        (fun next => some (block, next)) <$> applyMinedBlock c now s block.toJson
      else .ok none := by
  rw [tryNonce, prepareBlock_eq hreward, ok_bind, hashBlockHeader_toJson htransactions, ok_bind]
  rfl

theorem tryNonce_later {nonce : ℕ} {result : Option (Block × State)} (hnow : now ≤ now')
    (h : tryNonce c now s miner timestamp transactions nonce = .ok result) :
    tryNonce c now' s miner timestamp transactions nonce = .ok result := by
  obtain ⟨header, hheader, h⟩ := bind_eq_ok.1 h
  obtain ⟨hash, hhash, h⟩ := bind_eq_ok.1 h
  refine bind_eq_ok.2 ⟨header, hheader, bind_eq_ok.2 ⟨hash, hhash, ?_⟩⟩
  dsimp only at h ⊢
  split at h
  · next hwork =>
      obtain ⟨next, hnext, h⟩ := bind_eq_ok.1 h
      rw [if_pos hwork]
      exact bind_eq_ok.2 ⟨next, applyMinedBlock_later hnext hnow, h⟩
  · next hwork =>
      rw [if_neg hwork]
      exact h

end Turn

/-! ### The miners agree -/

section Agreement

variable {c : Crypto} {config : Consensus} {now now' : ℕ} {s s' : State}
  {minerAddress timestamp transactions : Option Json} {startNonce : ℤ} {options : MiningOptions}
  {batchSize : {n : ℕ // 0 < n}} {result : Block × State} {block : Block}

/-- **The miners return the same**, a block or an error, if the second is not cancelled. -/
theorem mineBlock_eq_mineBlockAsync (hbatch : readBatchSize options.batchSize = .ok batchSize)
    (hcancel : ∀ nonce, options.shouldCancel nonce = false)
    (hstart : 0 ≤ options.startNonce.getD 0) :
    mineBlock c now s minerAddress timestamp transactions (options.startNonce.getD 0) =
      mineBlockAsync c now s minerAddress timestamp transactions options := by
  rw [mineBlock, mineBlockAsync]
  refine bind_congr fun _ => bind_congr fun miner => bind_congr fun arguments => ?_
  obtain ⟨timestamp, items⟩ := arguments
  have hcheck : ∀ nonce, require (!options.shouldCancel nonce)
      (Error.error "MEDAC mining cancelled") = .ok () := by
    intro nonce
    rw [hcancel]
    rfl
  simp only [hbatch, require_true (decide_eq_true hstart), ok_bind,
    Search.scanBatches_eq_scan batchSize.property hcheck]

theorem mineBlock_eq_ok :
    mineBlock c now s minerAddress timestamp transactions startNonce = .ok result ↔
      s.Valid c ∧ 0 ≤ startNonce ∧ ∃ miner time items normalized,
        normalizeAddress minerAddress = .ok miner ∧
        readArguments s timestamp transactions = .ok (time, items) ∧
        items.mapM (normalizeTransaction c) = .ok normalized ∧
        Search.scan (tryNonce c now s miner time normalized) Json.maxSafeInteger
          startNonce.toNat = .ok (some result) := by
  constructor
  · intro h
    obtain ⟨⟨⟩, hvalid, h⟩ := bind_eq_ok.1 h
    obtain ⟨miner, hminer, h⟩ := bind_eq_ok.1 h
    obtain ⟨⟨time, items⟩, harguments, h⟩ := bind_eq_ok.1 h
    obtain ⟨hstart, h⟩ := bind_require_eq_ok.1 h
    obtain ⟨normalized, hnormalized, h⟩ := bind_eq_ok.1 h
    obtain ⟨end?, hscan, h⟩ := bind_eq_ok.1 h
    cases end? with
    | none => cases h
    | some found =>
        cases h
        exact ⟨assertValidState_eq_ok.1 hvalid, of_decide_eq_true hstart, miner, time, items,
          normalized, hminer, harguments, hnormalized, hscan⟩
  · rintro ⟨hvalid, hstart, miner, time, items, normalized, hminer, harguments, hnormalized, hscan⟩
    rw [mineBlock, assertValidState_eq_ok.2 hvalid, ok_bind, hminer, ok_bind, harguments, ok_bind]
    simp only [require_true (decide_eq_true hstart), ok_bind, hnormalized, hscan, found]

theorem mineBlock_later (hnow : now ≤ now')
    (h : mineBlock c now s minerAddress timestamp transactions startNonce = .ok result) :
    mineBlock c now' s minerAddress timestamp transactions startNonce = .ok result := by
  obtain ⟨hvalid, hstart, miner, time, items, normalized, hminer, harguments, hnormalized, hscan⟩ :=
    mineBlock_eq_ok.1 h
  obtain ⟨nonce, hle, hlimit, hfound, hbefore⟩ := Search.scan_eq_some_iff.1 hscan
  refine mineBlock_eq_ok.2 ⟨hvalid, hstart, miner, time, items, normalized, hminer, harguments,
    hnormalized, Search.scan_eq_some_iff.2 ⟨nonce, hle, hlimit, tryNonce_later hnow hfound, ?_⟩⟩
  intro m hm hlt
  exact tryNonce_later hnow (hbefore m hm hlt)

theorem start_of_mineBlockAsync
    (h : mineBlockAsync c now s minerAddress timestamp transactions options = .ok result) :
    0 ≤ options.startNonce.getD 0 := by
  obtain ⟨-, -, h⟩ := bind_eq_ok.1 h
  obtain ⟨miner, -, h⟩ := bind_eq_ok.1 h
  obtain ⟨⟨time, items⟩, -, h⟩ := bind_eq_ok.1 h
  obtain ⟨batchSize, -, h⟩ := bind_eq_ok.1 h
  obtain ⟨normalized, -, h⟩ := bind_eq_ok.1 h
  obtain ⟨hstart, -⟩ := bind_require_eq_ok.1 h
  exact of_decide_eq_true hstart

/-- **The nonce is the least one with a low hash, and the block is accepted**, now and later, with
the state that was returned. -/
theorem mineBlock_sound
    (h : mineBlock c now s minerAddress timestamp transactions startNonce = .ok (block, s')) :
    block = block.toBlockHeader.withHash c s.genesisHash ∧
    (∃ nonce : ℕ, startNonce ≤ nonce ∧ nonce ≤ Json.maxSafeInteger ∧
      block.nonce = numeral nonce ∧ hexValue block.hash ≤ s.target ∧
      ∀ m : ℕ, startNonce ≤ m → m < nonce →
        s.target < hexValue ((block.toBlockHeader.withNonce m).withHash c s.genesisHash).hash) ∧
    ∀ now', now ≤ now' → applyMinedBlock c now' s block.toJson = .ok s' := by
  obtain ⟨hvalid, hstart, miner, time, items, normalized, hminer, harguments, hnormalized, hscan⟩ :=
    mineBlock_eq_ok.1 h
  obtain ⟨nonce, hle, hlimit, hfound, hbefore⟩ := Search.scan_eq_some_iff.1 hscan
  have haccepted := accepted_of_forall₂ (mapM_eq_ok_iff.1 hnormalized)
  obtain ⟨reward, hreward⟩ : ∃ reward,
      calculateBlockReward (s.height + 1) s.miningIssued = .ok reward := by
    obtain ⟨prepared, hprepared, -⟩ := bind_eq_ok.1 hfound
    obtain ⟨reward, hreward, -⟩ := bind_eq_ok.1 hprepared
    exact ⟨reward, hreward⟩
  rw [tryNonce_eq hreward haccepted] at hfound
  dsimp only at hfound
  split at hfound
  · next hwork =>
      obtain ⟨next, hnext, hresult⟩ := map_eq_ok.1 hfound
      cases hresult
      refine ⟨rfl, ⟨nonce, by omega, hlimit, rfl, hwork, ?_⟩, ?_⟩
      · -- an earlier nonce was tried in vain, with the same reward and transactions
        intro m hm hlt
        have hmiss := hbefore m (by omega) hlt
        rw [tryNonce_eq hreward haccepted] at hmiss
        dsimp only at hmiss
        split at hmiss
        · obtain ⟨_, _, hsome⟩ := map_eq_ok.1 hmiss
          cases hsome
        · next hhigh => exact Nat.lt_of_not_le hhigh
      · intro now' hnow
        exact applyMinedBlock_later hnext hnow
  · cases hfound

/-- **Where a nonce has a low hash the miners find a block**, made of transactions that the ledger
admits, at a time that the clock admits. -/
theorem mineBlock_finds (h : Reachable c config s) {miner : Address} {time reward nonce : ℕ}
    {items : List Json} {normalized : List Transaction} {l : Ledger}
    (hminer : normalizeAddress minerAddress = .ok miner)
    (harguments : readArguments s timestamp transactions = .ok (time, items))
    (hnormalized : items.mapM (normalizeTransaction c) = .ok normalized)
    (hlen : normalized.length ≤ maxTransactionsPerBlock)
    (hsteps : Ledger.Steps c s.genesisHash s.ledger normalized l)
    (hheight : s.height < Json.maxSafeInteger) (hclock : time ≤ now + maxFutureSeconds)
    (hreward : calculateBlockReward (s.height + 1) s.miningIssued = .ok reward)
    (hstart : 0 ≤ startNonce) (hle : startNonce ≤ nonce) (hlimit : nonce ≤ Json.maxSafeInteger)
    (hwork : hexValue ((header s miner time reward normalized nonce).withHash c
      s.genesisHash).hash ≤ s.target) :
    ∃ result, mineBlock c now s minerAddress timestamp transactions startNonce = .ok result := by
  have haccepted := accepted_of_forall₂ (mapM_eq_ok_iff.1 hnormalized)
  obtain ⟨-, hsafe, hlt, -⟩ := readArguments_eq_ok.1 harguments
  -- the least nonce with a low hash is where the loop stops
  let low (k : ℕ) : Prop := startNonce.toNat ≤ k ∧
    hexValue ((header s miner time reward normalized k).withHash c s.genesisHash).hash ≤ s.target
  have hexists : ∃ k, low k := ⟨nonce, by omega, hwork⟩
  classical
  obtain ⟨hfirst, hlow⟩ := Nat.find_spec hexists
  have hbound : Nat.find hexists ≤ Json.maxSafeInteger :=
    le_trans (Nat.find_min' hexists ⟨by omega, hwork⟩) hlimit
  have haccepts := accepts_prepareBlock hheight hlt hsafe hclock (h.medianTime_lt hlt) hbound hlen
    haccepted hsteps hreward (prepareBlock_eq hreward _) hlow
  have happly := applyMinedBlock_eq_ok.2
    ⟨h.valid, _, _, _, haccepts.readFrom_toJson, haccepts, rfl⟩
  have hturn := fun k => (tryNonce_eq hreward haccepted k :
    tryNonce c now s miner time normalized k = _)
  have hfound := (hturn (Nat.find hexists)).trans ((if_pos hlow).trans
    (map_eq_ok.2 ⟨_, happly, rfl⟩))
  refine ⟨_, mineBlock_eq_ok.2 ⟨h.valid, hstart, miner, time, items, normalized, hminer, harguments,
    hnormalized, Search.scan_eq_some_iff.2 ⟨Nat.find hexists, hfirst, hbound, hfound, ?_⟩⟩⟩
  intro m hm hbefore
  exact (hturn m).trans (if_neg fun hle' => Nat.find_min hexists hbefore ⟨hm, hle'⟩)

/-- **The search in the model of the pool is this one**: a block that the second miner returns is
the one at the nonce where its search ends. -/
theorem mineBlockAsync_refines {minerAddress : Json} {time : ℕ} {ts : List Transaction}
    (h : mineBlockAsync c now s (some minerAddress) (some (.num time))
      (some (.arr (ts.map Transaction.toJson))) options = .ok (block, s')) :
    ∃ nonce, Medac.mineBlockAsync c now s minerAddress time ts nonce = .ok block := by
  obtain ⟨⟨⟩, hvalid, h⟩ := bind_eq_ok.1 h
  obtain ⟨miner, hminer, h⟩ := bind_eq_ok.1 h
  obtain ⟨⟨time', items⟩, harguments, h⟩ := bind_eq_ok.1 h
  obtain ⟨batchSize, -, h⟩ := bind_eq_ok.1 h
  obtain ⟨normalized, hnormalized, h⟩ := bind_eq_ok.1 h
  obtain ⟨-, h⟩ := bind_require_eq_ok.1 h
  obtain ⟨end?, hbatches, h⟩ := bind_eq_ok.1 h
  cases end? with
  | none => cases h
  | some result =>
      cases h
      obtain ⟨nonce, -, hlimit, hfound, -⟩ :=
        Search.scan_eq_some_iff.1 (Search.scan_of_scanBatches hbatches)
      obtain ⟨htime, hsafe, hlt, hitems⟩ := readArguments_eq_ok.1 harguments
      obtain rfl : time = time' := by simpa using htime
      obtain rfl : ts.map Transaction.toJson = items := by simpa using hitems
      have haccepted := accepted_of_forall₂ (mapM_eq_ok_iff.1 hnormalized)
      obtain ⟨prepared, hprepared, hrest⟩ := bind_eq_ok.1 hfound
      obtain ⟨reward, hreward, -⟩ := bind_eq_ok.1 hprepared
      rw [tryNonce_eq hreward haccepted] at hfound
      dsimp only at hfound
      split at hfound
      · next hwork =>
          obtain ⟨next, hnext, hresult⟩ := map_eq_ok.1 hfound
          cases hresult
          have hbounds : (time ≤ Json.maxSafeInteger && s.timestamp < time) = true := by
            simp only [hsafe, hlt, decide_true, Bool.and_self]
          refine ⟨nonce, ?_⟩
          rw [Medac.mineBlockAsync, hvalid, ok_bind, hminer, ok_bind, require_true hbounds, ok_bind,
            hnormalized, ok_bind, require_true (decide_eq_true hlimit), ok_bind,
            prepareBlock_eq hreward, ok_bind]
          simp only [require_true (decide_eq_true hwork), ok_bind, hnext, pure_eq_ok]
      · cases hfound

/-- **The miners agree and are sound.**  Whatever the batch size, and not cancelled, the second
miner returns a block exactly when the first does, and the same one, also at another time.  The
nonce of the block is the least one from the start on at which the hash of the header is low enough,
and `applyMinedBlock` accepts the block on the same state, with the state that was returned. -/
theorem miners_agree (hbatch : readBatchSize options.batchSize = .ok batchSize)
    (hcancel : ∀ nonce, options.shouldCancel nonce = false)
    (hnonce : options.startNonce.getD 0 = startNonce) :
    (∀ result, mineBlock c now s minerAddress timestamp transactions startNonce = .ok result ↔
      mineBlockAsync c now s minerAddress timestamp transactions options = .ok result) ∧
    (∀ now' result result',
      mineBlock c now s minerAddress timestamp transactions startNonce = .ok result →
      mineBlockAsync c now' s minerAddress timestamp transactions options = .ok result' →
      result = result') ∧
    ∀ block s', mineBlock c now s minerAddress timestamp transactions startNonce =
        .ok (block, s') →
      block = block.toBlockHeader.withHash c s.genesisHash ∧
      (∃ nonce : ℕ, startNonce ≤ nonce ∧ nonce ≤ Json.maxSafeInteger ∧
        block.nonce = numeral nonce ∧ hexValue block.hash ≤ s.target ∧
        ∀ m : ℕ, startNonce ≤ m → m < nonce →
          s.target < hexValue ((block.toBlockHeader.withNonce m).withHash c s.genesisHash).hash) ∧
      ∀ now', now ≤ now' → applyMinedBlock c now' s block.toJson = .ok s' := by
  subst hnonce
  have hasync : ∀ {now' result},
      mineBlockAsync c now' s minerAddress timestamp transactions options = .ok result →
      mineBlock c now' s minerAddress timestamp transactions (options.startNonce.getD 0) =
        .ok result := by
    intro now' result h
    rw [mineBlock_eq_mineBlockAsync hbatch hcancel (start_of_mineBlockAsync h)]
    exact h
  refine ⟨fun result => ⟨fun h => ?_, hasync⟩, ?_, fun block s' h => mineBlock_sound h⟩
  · obtain ⟨-, hstart, -⟩ := mineBlock_eq_ok.1 h
    rw [← mineBlock_eq_mineBlockAsync hbatch hcancel hstart]
    exact h
  · -- both searches are those of the later of the two readings of the clock
    intro now' result result' h h'
    have hlater := mineBlock_later (le_max_left now now') h
    rw [mineBlock_later (le_max_right now now') (hasync h')] at hlater
    exact (Except.ok.inj hlater).symm

end Agreement

/-! ### A block of the small network -/

def sampleOptions : MiningOptions where
  batchSize := some (.num 1)
  shouldCancel := fun _ => false
  startNonce := some 7

theorem miners_agree_sampleGenesis :
    ∃ block s', mineBlock sampleCrypto 1000 sampleGenesis (some sampleMiner.toJson)
        (some (.num 1000)) none 7 = .ok (block, s') ∧
      mineBlockAsync sampleCrypto 1000 sampleGenesis (some sampleMiner.toJson)
        (some (.num 1000)) none sampleOptions = .ok (block, s') ∧
      applyMinedBlock sampleCrypto 1000 sampleGenesis block.toJson = .ok s' := by
  have hreward : calculateBlockReward (sampleGenesis.height + 1) sampleGenesis.miningIssued =
      .ok initialBlockReward := calculateBlockReward_first (by decide) (by decide) (Nat.zero_le _)
  obtain ⟨⟨block, s'⟩, hmined⟩ : ∃ result, mineBlock sampleCrypto 1000 sampleGenesis
      (some sampleMiner.toJson) (some (.num 1000)) none 7 = .ok result :=
    mineBlock_finds Reachable.genesis (normalizeAddress_toJson sampleMiner)
      (readArguments_eq_ok.2 ⟨rfl, by decide, by decide, rfl⟩) rfl (Nat.zero_le _) (.nil _)
      (by decide) (by decide) hreward (by decide) (le_refl (7 : ℤ)) (by decide)
      (hexValue_le_maxHash (Sha256.isLowerHex_hex _))
  have hbatch : readBatchSize sampleOptions.batchSize = .ok ⟨1, Nat.one_pos⟩ := rfl
  obtain ⟨hagree, -, hsound⟩ := miners_agree (c := sampleCrypto) (s := sampleGenesis)
    hbatch (fun _ => rfl) (show sampleOptions.startNonce.getD 0 = 7 from rfl)
  exact ⟨block, s', hmined, (hagree _).1 hmined, (hsound block s' hmined).2.2 1000 le_rfl⟩

end Miner

end Medac
