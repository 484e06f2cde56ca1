/-
**Asking for blocks and answering.**

A node of `medac_node.cjs` that hears of more work asks its peer for blocks.  The question carries
a locator, hashes of its own blocks that get sparse towards genesis; the answer starts after the
first of them that the peer knows.  An answer has at most a hundred blocks and fits into one
message; when there are more blocks, the node asks for those after the last one.  When there are no
more, what it has put together is a candidate for its chain.

Main definitions:

* `Medac.Request`, `Medac.Response` — the messages `get_blocks` and `blocks`;
* `Medac.requestBlocks`, `Medac.serveBlocks`, `Medac.receiveBlocks` — the handlers.

Main results:

* `Medac.mem_locator` — a locator has hashes of the node's own chain, and the genesis hash;
* `Medac.Reachable.commonHeight_locator`, `Medac.Reachable.commonHeight_after` — where the answer to
  a question starts;
* `Medac.fillBatch_spec` — a batch is a part of the chain;
* `Medac.serveBlocks_eq` — **what is answered**.
-/

import MedorCoin.Medac.Prefix

set_option autoImplicit false

namespace Medac

open Js

def maxMessageBytes : ℕ := 2 * 1024 * 1024

def maxBlocksPerResponse : ℕ := 100

/-! ### Messages -/

/-- A message `get_blocks`: with a locator, or with the hash after which to go on, if that is a
string. -/
inductive Request
  | locator (hashes : List Str)
  | after (hash : Option Str)
  deriving DecidableEq

/-- A message `blocks`. -/
inductive Response
  | restart
  | batch (commonHeight : ℕ) (blocks : List Json) (more : Bool) (tipHeight : ℕ)

/-- The text of an answer is measured. -/
def batchJson (commonHeight : ℕ) (blocks : List Json) (more : Bool) (tipHeight : ℕ) : Json :=
  .obj [("type".toList, .str "blocks".toList), ("commonHeight".toList, .num commonHeight),
    ("blocks".toList, .arr blocks), ("more".toList, .bool more),
    ("tipHeight".toList, .num tipHeight)]

/-! ### Asking -/

/-- The loop of `_requestBlocks`: `n` is one more than the index, `count` the length of the
locator. -/
def locatorLoop (s : State) : ℕ → ℕ → ℕ → ℕ → List Str
  | 0, _, _, _ => []
  | _ + 1, 0, _, _ => []
  | budget + 1, n + 1, step, count =>
      s.tipAt (n + 1) ::
        locatorLoop s budget (n + 1 - step) (if count + 1 > 10 then step * 2 else step) (count + 1)

/-- **`_requestBlocks`.** -/
def requestBlocks (s : State) : Request :=
  .locator (locatorLoop s 32 s.blocks.length 1 0 ++ [s.genesisHash])

/-! ### Answering -/

/-- The map from hashes to heights. -/
def heights (s : State) : Map Str ℕ :=
  s.blocks.foldl (fun m b => m.set b.hash b.height) ((Map.empty : Map Str ℕ).set s.genesisHash 0)

/-- The height after which the answer starts, if the question is understood. -/
def commonHeight (s : State) : Request → Option ℕ
  | .locator hashes =>
      if hashes.length ≤ 100 then hashes.findSome? (heights s).get? else none
  | .after none => none
  | .after (some hash) =>
      if hash = s.genesisHash then some 0
      else (s.blocks.findIdx? fun b => b.hash = hash).map (· + 1)

/-- The size of an answer. -/
def batchBytes (s : State) (common : ℕ) (result : List Block) : ℕ :=
  byteLength (Json.stringify (batchJson common (result.map Block.toJson)
    (common + result.length < s.blocks.length) s.blocks.length))

/-- The loop that fills an answer. -/
def fillBatch (s : State) (common : ℕ) : ℕ → List Block → Except Error (List Block)
  | 0, result => .ok result
  | budget + 1, result =>
      match s.blocks[common + result.length]? with
      | none => .ok result
      | some b =>
          if maxMessageBytes < batchBytes s common (result ++ [b]) then
            match result with
            | [] => throw (.error "MEDAC block exceeds message limit")
            | _ :: _ => .ok result
          else fillBatch s common budget (result ++ [b])

/-- **`_serveBlocks`.**  It fails where the source closes the connection. -/
def serveBlocks (s : State) (request : Request) : Except Error Response :=
  match commonHeight s request with
  | none => .ok .restart
  | some common => do
      let result ← fillBatch s common maxBlocksPerResponse []
      return .batch common (result.map Block.toJson)
        (common + result.length < s.blocks.length) s.blocks.length

/-! ### Receiving -/

/-- `Boolean(value)` -/
def isTruthy : Json → Bool
  | .null => false
  | .bool b => b
  | .num n => n ≠ 0
  | .str s => s ≠ []
  | _ => true

/-- What comes of an answer. -/
inductive Received
  /-- Ask again. -/
  | restarted
  /-- Ask for more, with what has been put together. -/
  | more (sync : List Json) (request : Request)
  /-- Hand over a candidate. -/
  | candidate (blocks : List Json)

/-- The hash after which to go on. -/
def lastHash (s : State) (blocks : List Json) : Option Str :=
  match blocks.getLast? with
  | none => some s.genesisHash
  | some last =>
      if isTruthy last then Json.string? (last.get? "hash".toList) else some s.genesisHash

/-- The blocks to which an answer is added. -/
def syncBase (s : State) (sync : Option (List Json)) (common : ℕ) : Except Error (List Json) :=
  match sync with
  | some blocks => .ok blocks
  | none => do
      require (common ≤ s.height) (.error "Unknown common block")
      return (s.blocks.take common).map Block.toJson

/-- **`_receiveBlocks`.** -/
def receiveBlocks (s : State) (sync : Option (List Json)) : Response → Except Error Received
  | .restart => .ok .restarted
  | .batch common blocks more tipHeight => do
      require (common ≤ Json.maxSafeInteger && blocks.length ≤ maxBlocksPerResponse &&
          tipHeight ≤ Json.maxSafeInteger && common ≤ tipHeight && tipHeight ≤ maxChainBlocks)
        (.error "Invalid MEDAC block batch")
      let base ← syncBase s sync common
      require (!(blocks.isEmpty && more)) (.error "Empty MEDAC block batch")
      require ((base ++ blocks).length ≤ maxChainBlocks) (.error "MEDAC sync exceeds block limit")
      if more then return .more (base ++ blocks) (.after (lastHash s (base ++ blocks)))
      else do
        require ((base ++ blocks).length = tipHeight) (.error "Incomplete MEDAC chain response")
        return .candidate (base ++ blocks)

/-! ### What is asked -/

variable {c : Crypto} {config : Consensus} {s s' : State} {S : Set Str}

theorem mem_locatorLoop {budget n step count : ℕ} {hash : Str} (hn : n ≤ s.blocks.length)
    (h : hash ∈ locatorLoop s budget n step count) : ∃ k ≤ s.blocks.length, hash = s.tipAt k := by
  induction budget generalizing n step count with
  | zero => cases h
  | succ budget ih =>
      cases n with
      | zero => cases h
      | succ n =>
          rw [locatorLoop, List.mem_cons] at h
          rcases h with rfl | h
          · exact ⟨n + 1, hn, rfl⟩
          · exact ih (le_trans (Nat.sub_le _ _) hn) h

theorem length_locatorLoop (s : State) (budget n step count : ℕ) :
    (locatorLoop s budget n step count).length ≤ budget := by
  induction budget generalizing n step count with
  | zero => exact le_rfl
  | succ budget ih =>
      cases n with
      | zero => exact Nat.zero_le _
      | succ n =>
          rw [locatorLoop, List.length_cons]
          exact Nat.succ_le_succ (ih _ _ _)

/-- **A locator has hashes of the node's own chain**, and the genesis hash. -/
theorem mem_locator {hash : Str}
    (h : hash ∈ locatorLoop s 32 s.blocks.length 1 0 ++ [s.genesisHash]) :
    ∃ k ≤ s.blocks.length, hash = s.tipAt k := by
  rcases List.mem_append.1 h with h | h
  · exact mem_locatorLoop le_rfl h
  · exact ⟨0, Nat.zero_le _, List.mem_singleton.1 h⟩

/-! ### What is answered -/

theorem get?_foldl_set (l : List Block) (m : Map Str ℕ) (hash : Str) :
    ((l.foldl (fun m b => m.set b.hash b.height) m).get? hash = none → m.get? hash = none) ∧
      ∀ k, (l.foldl (fun m b => m.set b.hash b.height) m).get? hash = some k →
        m.get? hash = some k ∨ ∃ b ∈ l, b.hash = hash ∧ b.height = k := by
  induction l generalizing m with
  | nil => exact ⟨fun h => h, fun k h => Or.inl h⟩
  | cons b l ih =>
      obtain ⟨hnone, hsome⟩ := ih (m.set b.hash b.height)
      rw [List.foldl_cons]
      constructor
      · intro h
        have hset := hnone h
        rw [Map.get?_set] at hset
        split at hset
        · cases hset
        · exact hset
      · intro k h
        rcases hsome k h with hset | ⟨b', hb', hhash, hheight⟩
        · rw [Map.get?_set] at hset
          split at hset
          · next hb =>
              cases hset
              exact Or.inr ⟨b, List.mem_cons_self, hb, rfl⟩
          · exact Or.inl hset
        · exact Or.inr ⟨b', List.mem_cons_of_mem b hb', hhash, hheight⟩

theorem Reachable.get?_heights (h : Reachable c config s) (hash : Str) :
    ((heights s).get? hash = none → hash ≠ s.genesisHash) ∧
      ∀ k, (heights s).get? hash = some k → k ≤ s.blocks.length ∧ hash = s.tipAt k := by
  obtain ⟨hnone, hsome⟩ := get?_foldl_set s.blocks
    ((Map.empty : Map Str ℕ).set s.genesisHash 0) hash
  constructor
  · rintro hfound rfl
    have hset := hnone hfound
    rw [Map.get?_set_self] at hset
    cases hset
  · intro k hfound
    rcases hsome k hfound with hset | ⟨b, hb, rfl, rfl⟩
    · rw [Map.get?_set] at hset
      split at hset
      · next hgenesis =>
          cases hset
          exact ⟨Nat.zero_le _, hgenesis.symm⟩
      · cases hset
    · obtain ⟨i, hi⟩ := List.mem_iff_getElem?.1 hb
      rw [h.height_eq.2 i b hi, s.tipAt_succ hi]
      obtain ⟨hlt, -⟩ := List.getElem?_eq_some_iff.1 hi
      exact ⟨hlt, rfl⟩

/-- **The common height** that a locator leads to is one at which the chains agree. -/
theorem Reachable.commonHeight_locator (hinj : Set.InjOn c.sha256 S) (h : Reachable c config s)
    (h' : Reachable c config s') (hS : s.preimages ⊆ S) (hS' : s'.preimages ⊆ S) :
    ∃ k, commonHeight s' (requestBlocks s) = some k ∧ k ≤ s.blocks.length ∧
      k ≤ s'.blocks.length ∧ s.blocks.take k = s'.blocks.take k := by
  have hgenesis : s.genesisHash = s'.genesisHash := by rw [h.genesisHash_eq, h'.genesisHash_eq]
  have hlen : (locatorLoop s 32 s.blocks.length 1 0 ++ [s.genesisHash]).length ≤ 100 := by
    have hle := length_locatorLoop s 32 s.blocks.length 1 0
    rw [List.length_append, List.length_singleton]
    omega
  rw [requestBlocks, commonHeight, if_pos hlen]
  cases hfind : (locatorLoop s 32 s.blocks.length 1 0 ++ [s.genesisHash]).findSome?
      (heights s').get? with
  | none =>
      -- the genesis hash is always found
      rw [List.findSome?_eq_none_iff] at hfind
      have hnone := hfind s.genesisHash (by simp)
      exact absurd hgenesis ((h'.get?_heights s.genesisHash).1 hnone)
  | some k =>
      obtain ⟨hash, hmem, hfound⟩ := List.exists_of_findSome?_eq_some hfind
      obtain ⟨hk, htip⟩ := (h'.get?_heights hash).2 k hfound
      obtain ⟨j, hj, rfl⟩ := mem_locator hmem
      obtain ⟨rfl, htake⟩ := h.take_eq_of_tipAt_eq hinj h' hS hS' hj hk htip
      exact ⟨j, rfl, hj, hk, htake⟩

theorem Reachable.commonHeight_after {k : ℕ} (hinj : Set.InjOn c.sha256 S)
    (h : Reachable c config s) (hS : s.preimages ⊆ S) (hk : k ≤ s.blocks.length) :
    commonHeight s (.after (some (s.tipAt k))) = some k := by
  rw [commonHeight]
  cases k with
  | zero => rw [if_pos (s.tipAt_zero)]
  | succ k =>
      have hne : s.tipAt (k + 1) ≠ s.genesisHash := by
        intro heq
        have hzero := h.tipAt_inj hinj hS hk (Nat.zero_le _) heq
        omega
      rw [if_neg hne]
      have hfind : s.blocks.findIdx? (fun b => b.hash = s.tipAt (k + 1)) = some k := by
        rw [List.findIdx?_eq_some_iff_getElem]
        refine ⟨hk, ?_, ?_⟩
        · rw [decide_eq_true_iff, s.tipAt_succ (List.getElem?_eq_getElem hk)]
        · intro j hj
          rw [decide_eq_true_iff, ← s.tipAt_succ (List.getElem?_eq_getElem (lt_trans hj hk))]
          intro heq
          have hjk := h.tipAt_inj hinj hS (lt_trans hj hk) hk heq
          omega
      rw [hfind]
      rfl

/-- Every block fits into an answer of its own. -/
def Servable (s : State) : Prop :=
  ∀ i b, s.blocks[i]? = some b → batchBytes s i [b] ≤ maxMessageBytes

theorem fillBatch_succ (s : State) (common budget : ℕ) (result : List Block) :
    fillBatch s common (budget + 1) result =
      match s.blocks[common + result.length]? with
      | none => .ok result
      | some b =>
          if maxMessageBytes < batchBytes s common (result ++ [b]) then
            match result with
            | [] => throw (.error "MEDAC block exceeds message limit")
            | _ :: _ => .ok result
          else fillBatch s common budget (result ++ [b]) := rfl

/-- **A batch is a part of the chain**, which has a block if there is one. -/
theorem fillBatch_spec {common budget : ℕ} {result r : List Block}
    (h : fillBatch s common budget result = .ok r)
    (hresult : result = (s.blocks.drop common).take result.length) :
    r = (s.blocks.drop common).take r.length ∧ result.length ≤ r.length ∧
      r.length ≤ result.length + budget ∧
      (0 < budget → common + result.length < s.blocks.length → r ≠ []) := by
  induction budget generalizing result with
  | zero =>
      cases h
      exact ⟨hresult, le_rfl, le_rfl, fun hpos => absurd hpos (lt_irrefl 0)⟩
  | succ budget ih =>
      rw [fillBatch_succ] at h
      split at h
      · next hnone =>
          cases h
          refine ⟨hresult, le_rfl, Nat.le_add_right _ _, fun _ hlt => ?_⟩
          exact absurd (List.getElem?_eq_none_iff.1 hnone) (not_le.2 hlt)
      · next b hb =>
          split at h
          · -- the message would be too large
            cases result with
            | nil => cases h
            | cons b' result =>
                cases h
                exact ⟨hresult, le_rfl, Nat.le_add_right _ _, fun _ _ => List.cons_ne_nil _ _⟩
          · have hnext : result ++ [b] =
                (s.blocks.drop common).take (result ++ [b]).length := by
              rw [List.length_append, List.length_singleton, List.take_add_one, ← hresult,
                List.getElem?_drop, hb]
              rfl
            obtain ⟨hr, hle, hle', -⟩ := ih h hnext
            rw [List.length_append, List.length_singleton] at hle hle'
            refine ⟨hr, by omega, by omega, fun _ _ hnil => ?_⟩
            rw [hnil, List.length_nil] at hle
            omega

theorem exists_fillBatch (hservable : Servable s) (common budget : ℕ) (result : List Block) :
    ∃ r, fillBatch s common budget result = .ok r := by
  induction budget generalizing result with
  | zero => exact ⟨result, rfl⟩
  | succ budget ih =>
      rw [fillBatch_succ]
      cases hb : s.blocks[common + result.length]? with
      | none => exact ⟨result, rfl⟩
      | some b =>
          by_cases hlarge : maxMessageBytes < batchBytes s common (result ++ [b])
          · cases result with
            | nil => exact absurd hlarge (not_lt.2 (hservable common b hb))
            | cons b' result =>
                simp only [if_pos hlarge]
                exact ⟨_, rfl⟩
          · simp only [if_neg hlarge]
            exact ih _

/-- **What is answered** once the common height is known. -/
theorem serveBlocks_eq {k : ℕ} {request : Request} {response : Response} (hk : k ≤ s.blocks.length)
    (hcommon : commonHeight s request = some k) (h : serveBlocks s request = .ok response) :
    ∃ n ≤ maxBlocksPerResponse, k + n ≤ s.blocks.length ∧ (k < s.blocks.length → 1 ≤ n) ∧
      response = .batch k (((s.blocks.drop k).take n).map Block.toJson)
        (k + n < s.blocks.length) s.blocks.length := by
  rw [serveBlocks, hcommon] at h
  obtain ⟨r, hr, h⟩ := bind_eq_ok.1 h
  rw [pure_eq_ok, Except.ok.injEq] at h
  obtain ⟨htake, -, hle, hne⟩ := fillBatch_spec hr rfl
  have hlen := congrArg List.length htake
  rw [List.length_take, List.length_drop] at hlen
  refine ⟨r.length, by simpa using hle, by omega, ?_, ?_⟩
  · intro hlt
    exact List.length_pos_iff.2 (hne (by decide) (by simpa using hlt))
  · rw [← h, ← htake]

theorem exists_serveBlocks (hservable : Servable s) (request : Request) :
    ∃ response, serveBlocks s request = .ok response := by
  rw [serveBlocks]
  cases commonHeight s request with
  | none => exact ⟨_, rfl⟩
  | some k =>
      obtain ⟨r, hr⟩ := exists_fillBatch hservable k maxBlocksPerResponse []
      exact ⟨_, bind_eq_ok.2 ⟨r, hr, rfl⟩⟩

end Medac
