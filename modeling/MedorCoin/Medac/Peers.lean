/-
**Two nodes that talk to each other.**

A node of `medac_node.cjs` sends its version when it meets a peer, asks a peer that has more work
for blocks, and tells its peers of every block and of every state that it comes to.  It closes the
connection to a peer whose message it cannot accept.  Between two messages its own chain may change:
it mines, or it takes a block or a chain from somebody else.

The blocks of an answer are added to what has been put together before, or to the node's own first
blocks.  As long as every answer continues what it is added to, what is put together is the
beginning of a chain of an honest node, and no connection is closed.  A node whose chain has changed
since it asked adds the answer to other blocks, and closes the connection to an honest peer.

Main definitions:

* `Medac.Message` — the messages; `Medac.Peer` — a node with what it knows of its peer;
* `Medac.Net`, `Medac.NetEvent`, `Medac.Net.step` — two nodes and the messages in flight;
* `Medac.Continues`, `Medac.Net.Orderly` — answers that continue what they are added to.

Main results:

* `Medac.Message.Honest.fits` — what an honest node sends is not too large;
* `Medac.Peer.Good.handle` — **one message**;
* `Medac.Net.Good.step` — **one event**;
* `Medac.peers_stay_connected` — no connection between honest nodes is closed;
* `Medac.peers_stay_connected_reorganised` — unless a chain changes at the wrong time.
-/

import Mathlib.Data.List.TakeWhile
import MedorCoin.Medac.Limits
import MedorCoin.Medac.Session

set_option autoImplicit false

namespace Medac

open Js

/-! ### Messages -/

/-- The messages that nodes send to each other.  Those that only show that a node is alive are left
out. -/
inductive Message
  | version (message : Json)
  | getBlocks (request : Request)
  | blocks (response : Response)
  | block (block : Json)
  | transaction (transaction : Json)

def Request.toJson : Request → Json
  | .locator hashes =>
      .obj [("type".toList, .str "get_blocks".toList), ("locator".toList, .arr (hashes.map .str))]
  | .after (some hash) =>
      .obj [("type".toList, .str "get_blocks".toList), ("afterHash".toList, .str hash)]
  | .after none => .obj [("type".toList, .str "get_blocks".toList)]

def Response.toJson : Response → Json
  | .restart => .obj [("type".toList, .str "blocks".toList), ("restart".toList, .bool true)]
  | .batch commonHeight blocks more tipHeight => batchJson commonHeight blocks more tipHeight

def Message.toJson : Message → Json
  | .version message => message
  | .getBlocks request => request.toJson
  | .blocks response => response.toJson
  | .block raw => .obj [("type".toList, .str "block".toList), ("block".toList, raw)]
  | .transaction raw =>
      .obj [("type".toList, .str "transaction".toList), ("transaction".toList, raw)]

/-- The check on the size of a message, where it is sent and where it arrives. -/
def Message.fits (message : Message) : Bool :=
  byteLength (Json.stringify message.toJson) ≤ maxMessageBytes

/-- The work that a message `version` names. -/
def announcedWork (message : Json) : ℕ :=
  numeralValue ((Json.string? (message.get? "cumulativeWork".toList)).getD [])

/-! ### A node and its peer -/

/-- What a handler does when it goes on after an `await`. -/
inductive Pending
  /-- `mine`, `_receiveBlock` and `_receiveBlocks`, once the chain has changed: tell the peer of the
  block, unless it came from there, and of the state. -/
  | announce (block : Option Json)
  /-- `_receiveBlock`, once the chain has refused the block. -/
  | request
  /-- `_receiveBlocks`, once the chain has refused the candidate. -/
  | refuse

/-- The chain of a node, and what it keeps for one peer. -/
structure Peer where
  chain : MedacChain
  versionSent : Bool
  ready : Bool
  sync : Option (List Json)
  waiting : List Pending
  closed : Bool

namespace Peer

/-- **`_sendVersion`.** -/
def sendVersion (p : Peer) : Peer × List Message :=
  if p.versionSent then (p, [])
  else ({ p with versionSent := true }, [.version (versionMessage p.chain.state)])

/-- **`_requestBlocks`**, with the session that it resets. -/
def request (p : Peer) : Peer × List Message :=
  ({ p with sync := none }, [.getBlocks (requestBlocks p.chain.state)])

/-- **`_broadcast`**, as far as this peer is concerned. -/
def broadcast (p : Peer) (messages : List Message) : List Message :=
  if p.ready then messages else []

/-- The end of `_receiveBlocks`. -/
def consider (c : Crypto) (now : ℕ) (store : Except Error Unit) (p : Peer) (blocks : List Json) :
    Peer :=
  match p.chain.considerChain c (fun _ => now) store (.arr blocks) with
  | .ok (chain, result) =>
      if result.adopted then { p with chain, waiting := p.waiting ++ [.announce none] }
      else { p with chain }
  | .error _ => { p with waiting := p.waiting ++ [.refuse] }

/-- **`_handleMessage`**, up to the first `await`.  It fails where the source closes the connection.
What becomes of a transaction does not depend on the peer. -/
def handle (c : Crypto) (now : ℕ) (store : Except Error Unit) (p : Peer) :
    Message → Except Error (Peer × List Message)
  | .version message => do
      require (acceptsVersion p.chain.state message) (.error "MEDAC network mismatch")
      let (p, sent) := { p with ready := true }.sendVersion
      if p.chain.state.cumulativeWork < announcedWork message then
        return (p.request.1, sent ++ p.request.2)
      else return (p, sent)
  | .getBlocks request => do
      require p.ready (.error "Handshake required")
      let response ← serveBlocks p.chain.state request
      return (p, [.blocks response])
  | .blocks response => do
      require p.ready (.error "Handshake required")
      match ← receiveBlocks p.chain.state p.sync response with
      | .restarted => return p.request
      | .more sync request => return ({ p with sync := some sync }, [.getBlocks request])
      | .candidate blocks => return ({ p with sync := none }.consider c now store blocks, [])
  | .block block => do
      require p.ready (.error "Handshake required")
      match p.chain.appendBlock c now store block with
      | .ok chain => return ({ p with chain, waiting := p.waiting ++ [.announce none] }, [])
      | .error _ => return ({ p with waiting := p.waiting ++ [.request] }, [])
  | .transaction _ => do
      require p.ready (.error "Handshake required")
      return (p, [])

/-- What a handler does when it goes on. -/
def resume (p : Peer) : Pending → Peer × List Message
  | .announce block =>
      (p, p.broadcast ((block.map Message.block).toList ++
        [.version (versionMessage p.chain.state)]))
  | .request => p.request
  | .refuse => ({ p with closed := true }, [])

end Peer

/-! ### Two nodes -/

/-- Two nodes, each the peer of the other, with the messages on the way to each of them. -/
structure Net where
  now : ℕ
  peer : Bool → Peer
  inbox : Bool → List Message

/-- What happens.  The calls of the store come to what the event says. -/
inductive NetEvent
  | tick
  /-- `_attachPeer`: the node meets its peer. -/
  | attach (i : Bool)
  /-- The node appends a block, its own or somebody else's. -/
  | extend (i : Bool) (store : Except Error Unit) (block : Json)
  /-- The node considers a chain of somebody else. -/
  | reorganise (i : Bool) (store : Except Error Unit) (blocks : Json)
  /-- The node broadcasts a transaction. -/
  | submit (i : Bool) (transaction : Json)
  /-- The node handles the first message on the way to it. -/
  | deliver (i : Bool) (store : Except Error Unit)
  /-- The waiting handler number `k` of the node goes on. -/
  | resume (i : Bool) (k : ℕ)

namespace Net

/-- **`_send`** for every message of a list: one that is too large closes the connection. -/
def put (net : Net) (i : Bool) (step : Peer × List Message) : Net :=
  { net with
    peer := Function.update net.peer i
      { step.1 with closed := step.1.closed || step.2.any fun message => !message.fits }
    inbox := Function.update net.inbox (!i) (net.inbox (!i) ++ step.2.takeWhile Message.fits) }

/-- The node handles a message, if it has met its peer. -/
def handle (c : Crypto) (store : Except Error Unit) (net : Net) (i : Bool) (message : Message) :
    Net :=
  if message.fits then
    match (net.peer i).handle c net.now store message with
    | .ok step => net.put i step
    | .error _ => net.put i ({ net.peer i with closed := true }, [])
  else net.put i ({ net.peer i with closed := true }, [])

/-- An event at a node that has not closed the connection. -/
def act (c : Crypto) (net : Net) : NetEvent → Net
  | .tick => { net with now := net.now + 1 }
  | .attach i => net.put i (net.peer i).sendVersion
  | .extend i store block =>
      match (net.peer i).chain.appendBlock c net.now store block with
      | .ok chain =>
          net.put i ({ net.peer i with
            chain, waiting := (net.peer i).waiting ++ [.announce (some block)] }, [])
      | .error _ => net
  | .reorganise i store blocks =>
      match (net.peer i).chain.considerChain c (fun _ => net.now) store blocks with
      | .ok (chain, result) =>
          if result.adopted then
            net.put i ({ net.peer i with
              chain, waiting := (net.peer i).waiting ++ [.announce none] }, [])
          else net
      | .error _ => net
  | .submit i transaction =>
      match normalizeTransaction c transaction with
      | .ok t => net.put i (net.peer i, (net.peer i).broadcast [.transaction t.toJson])
      | .error _ => net
  | .deliver i store =>
      match net.inbox i with
      | [] => net
      | message :: rest =>
          if (net.peer i).versionSent then
            { net with inbox := Function.update net.inbox i rest }.handle c store i message
          else net
  | .resume i k =>
      match (net.peer i).waiting[k]? with
      | some next =>
          net.put i ({ net.peer i with waiting := (net.peer i).waiting.eraseIdx k }.resume next)
      | none => net

/-- **One event.**  What comes after a connection has been closed does not matter. -/
def step (c : Crypto) (net : Net) (event : NetEvent) : Net :=
  if (net.peer false).closed || (net.peer true).closed then net else net.act c event

end Net

variable {c : Crypto} {options : ConsensusOptions} {config : Consensus} {S : Set Str} {now : ℕ}
  {s : State}

/-! ### The size of what is sent -/

theorem Message.fits_of_length_le {message : Message}
    (h : (Json.stringify message.toJson).length ≤ 500000) : message.fits = true := by
  have hbytes := byteLength_le (Json.stringify message.toJson)
  have hbound : 4 * 500000 ≤ maxMessageBytes := by decide
  exact decide_eq_true (by omega)

theorem Reachable.length_tipAt {k : ℕ} (h : Reachable c config s) (hk : k ≤ s.blocks.length) :
    (s.tipAt k).length = 64 := by
  obtain ⟨p, hp, -, -, htip⟩ := h.exists_prefix hk
  rw [← htip]
  exact (isLowerHex_iff.1 hp.valid.tipHash_hex).1

theorem Reachable.fits_version (h : Reachable c config s)
    (hlen : s.blocks.length ≤ maxChainBlocks) :
    (Message.version (versionMessage s)).fits = true := by
  have hkeys : (Json.quote "type".toList).length + (Json.quote "version".toList).length +
      (Json.quote "networkId".toList).length + (Json.quote networkId).length +
      (Json.quote "genesisHash".toList).length + (Json.quote "height".toList).length +
      (Json.quote "tipHash".toList).length + (Json.quote "cumulativeWork".toList).length ≤ 200 := by
    decide +kernel
  have hgenesis := length_quote_le s.genesisHash
  have htip := length_quote_le s.tipHash
  rw [← s.tipAt_zero, h.length_tipAt (Nat.zero_le _), s.tipAt_zero] at hgenesis
  rw [h.tipHash_eq, h.length_tipAt le_rfl, ← h.tipHash_eq] at htip
  have hheight := length_safe_le h.valid.height_le
  have hwork := length_quote_le (numeral s.cumulativeWork)
  have hdigits := h.length_cumulativeWork_le hlen
  apply Message.fits_of_length_le
  simp only [Message.toJson, versionMessage, Json.stringify, Json.stringifyMembers,
    List.length_cons, List.length_append, List.length_nil]
  omega

theorem Reachable.fits_request (h : Reachable c config s) :
    (Message.getBlocks (requestBlocks s)).fits = true := by
  have hkeys : (Json.quote "type".toList).length + (Json.quote "get_blocks".toList).length +
      (Json.quote "locator".toList).length ≤ 100 := by
    decide +kernel
  have hitems : ∀ v ∈ (locatorLoop s 32 s.blocks.length 1 0 ++ [s.genesisHash]).map Json.str,
      (Json.stringify v).length ≤ 400 := by
    intro v hv
    obtain ⟨hash, hhash, rfl⟩ := List.mem_map.1 hv
    obtain ⟨k, hk, rfl⟩ := mem_locator hhash
    have hquote := length_quote_le (s.tipAt k)
    rw [h.length_tipAt hk] at hquote
    rw [Json.stringify]
    omega
  have hcount := length_locatorLoop s 32 s.blocks.length 1 0
  have hlocator := length_stringify_arr_le hitems
  rw [List.length_map, List.length_append, List.length_singleton] at hlocator
  apply Message.fits_of_length_le
  simp only [Message.toJson, requestBlocks, Request.toJson, Json.stringify, Json.stringifyMembers,
    List.length_cons, List.length_append, List.length_nil] at hlocator ⊢
  omega

theorem Reachable.fits_after {k : ℕ} (h : Reachable c config s) (hk : k ≤ s.blocks.length) :
    (Message.getBlocks (.after (some (s.tipAt k)))).fits = true := by
  have hkeys : (Json.quote "type".toList).length + (Json.quote "get_blocks".toList).length +
      (Json.quote "afterHash".toList).length ≤ 100 := by
    decide +kernel
  have hquote := length_quote_le (s.tipAt k)
  rw [h.length_tipAt hk] at hquote
  apply Message.fits_of_length_le
  simp only [Message.toJson, Request.toJson, Json.stringify, Json.stringifyMembers,
    List.length_cons, List.length_append, List.length_nil]
  omega

theorem fits_transaction (t : Transaction) : (Message.transaction t.toJson).fits = true := by
  have hkeys : (Json.quote "type".toList).length + (Json.quote "transaction".toList).length +
      (Json.quote "transaction".toList).length ≤ 100 := by
    decide +kernel
  have htext := t.length_stringify_le
  apply Message.fits_of_length_le
  simp only [Message.toJson, Json.stringify, Json.stringifyMembers, List.length_cons,
    List.length_append, List.length_nil]
  omega

/-- **A block in normal form fits into a message.** -/
theorem State.Accepts.fits {b : Block} {reward : ℕ} {l : Ledger} (hs : s.Valid c)
    (h : s.Accepts c now b reward l) : (Message.block b.toJson).fits = true := by
  have hkeys : (Json.quote "type".toList).length + (Json.quote "block".toList).length +
      (Json.quote "block".toList).length ≤ 100 := by
    decide +kernel
  have htext := h.length_stringify_le hs
  apply Message.fits_of_length_le
  rw [Message.toJson]
  simp only [Json.stringify, Json.stringifyMembers, List.length_cons,
    List.length_append, List.length_nil]
  omega

theorem fillBatch_fits {common budget : ℕ} {result r : List Block}
    (h : fillBatch s common budget result = .ok r)
    (hresult : result = [] ∨ batchBytes s common result ≤ maxMessageBytes) :
    r = [] ∨ batchBytes s common r ≤ maxMessageBytes := by
  induction budget generalizing result with
  | zero =>
      cases h
      exact hresult
  | succ budget ih =>
      rw [fillBatch_succ] at h
      split at h
      · cases h
        exact hresult
      · split at h
        · cases result with
          | nil => cases h
          | cons b result =>
              cases h
              exact hresult
        · next hfits => exact ih h (Or.inr (not_lt.1 hfits))

theorem Reachable.commonHeight_le {k : ℕ} {request : Request} (h : Reachable c config s)
    (hk : commonHeight s request = some k) : k ≤ s.blocks.length := by
  unfold commonHeight at hk
  split at hk
  · split at hk
    · obtain ⟨hash, -, hfound⟩ := List.exists_of_findSome?_eq_some hk
      exact ((h.get?_heights hash).2 k hfound).1
    · cases hk
  · cases hk
  · split at hk
    · cases hk
      exact Nat.zero_le _
    · obtain ⟨j, hj, rfl⟩ := Option.map_eq_some_iff.1 hk
      exact (List.findIdx?_eq_some_iff_getElem.1 hj).1

/-- **An answer fits into a message.** -/
theorem Reachable.fits_serveBlocks {request : Request} {response : Response}
    (h : Reachable c config s) (hserve : serveBlocks s request = .ok response) :
    (Message.blocks response).fits = true := by
  unfold serveBlocks at hserve
  split at hserve
  · cases hserve
    decide +kernel
  · next common hcommon =>
      obtain ⟨r, hr, hserve⟩ := bind_eq_ok.1 hserve
      cases hserve
      rcases fillBatch_fits hr (Or.inl rfl) with rfl | hbytes
      · -- an answer without blocks
        have hkeys : (Json.quote "type".toList).length + (Json.quote "blocks".toList).length +
            (Json.quote "commonHeight".toList).length + (Json.quote "blocks".toList).length +
            (Json.quote "more".toList).length + (Json.quote "tipHeight".toList).length ≤ 100 := by
          decide +kernel
        have hheight := h.height_eq.1
        have hsafe := h.valid.height_le
        have hle := h.commonHeight_le hcommon
        have hcommonText := length_safe_le (le_trans hle (by omega))
        have htipText := length_safe_le (le_trans hheight.ge hsafe)
        have hmore : ∀ more, (Json.stringify (.bool more)).length ≤ 5 := by
          rintro (- | -) <;> decide
        have hmoreText := hmore (common + 0 < s.blocks.length)
        apply Message.fits_of_length_le
        simp only [Message.toJson, Response.toJson, batchJson, Json.stringify,
          Json.stringifyMembers, List.map_nil, List.length_cons, List.length_append,
          List.length_nil] at hmoreText ⊢
        omega
      · exact decide_eq_true hbytes

/-! ### Chains of honest nodes -/

/-- A chain that an honest node may have at a time: one of the network, not from the future, with
not too many blocks, whose texts are among those on which SHA-256 has no collision. -/
structure Honest (c : Crypto) (config : Consensus) (S : Set Str) (now : ℕ) (s : State) : Prop where
  reachable : Reachable c config s
  preimages : s.preimages ⊆ S
  length_le : s.blocks.length ≤ maxChainBlocks
  timestamp_le : s.timestamp ≤ now + maxFutureSeconds

theorem Honest.later {now' : ℕ} (h : Honest c config S now s) (hle : now ≤ now') :
    Honest c config S now' s :=
  { h with timestamp_le := le_trans h.timestamp_le (Nat.add_le_add_right hle _) }

theorem Honest.next {s' : State} {block : Json} (h : Honest c config S now s)
    (hblock : applyMinedBlock c now s block = .ok s') (hlen : s.blocks.length < maxChainBlocks)
    (hS : s'.preimages ⊆ S) : Honest c config S now s' := by
  have hreach : Reachable c config s' := .block h.reachable hblock
  obtain ⟨-, b, reward, l, -, haccepts, rfl⟩ := applyMinedBlock_eq_ok.1 hblock
  refine ⟨hreach, hS, ?_, haccepts.timestamp_le⟩
  rw [State.next, List.length_append, List.length_singleton]
  exact hlen

theorem Honest.replayed {s' : State} {items : List Json}
    (hparsed : parseConsensusConfig options = .ok config) (hlen : items.length ≤ maxChainBlocks)
    (hreplay : replayBlocks c options (fun _ => now) items = .ok s') (hS : s'.preimages ⊆ S) :
    Honest c config S now s' := by
  obtain ⟨config', hconfig', hreach⟩ := reachable_of_replayBlocks hreplay
  obtain rfl : config = config' := Except.ok.inj (hparsed.symm.trans hconfig')
  refine ⟨hreach, hS, by rw [length_replayBlocks hreplay]; exact hlen, ?_⟩
  obtain ⟨genesis, hgenesis, hblocks⟩ := bind_eq_ok.1 hreplay
  obtain ⟨config', -, rfl⟩ := createGenesisState_eq_ok.1 hgenesis
  have hsteps : ∀ (items : List Json) (s₀ : State), s₀.timestamp ≤ now + maxFutureSeconds →
      applyBlocks c s₀ (timed (fun _ => now) items) = .ok s' →
      s'.timestamp ≤ now + maxFutureSeconds := by
    intro items
    induction items with
    | nil =>
        intro s₀ hs₀ happly
        exact foldlM_nil_eq_ok.1 happly ▸ hs₀
    | cons item items ih =>
        intro s₀ _ happly
        rw [timed_cons] at happly
        obtain ⟨s₁, hfirst, hrest⟩ := foldlM_cons_eq_ok.1 happly
        obtain ⟨-, b, reward, l, -, haccepts, rfl⟩ := applyMinedBlock_eq_ok.1 hfirst
        exact ih _ haccepts.timestamp_le hrest
  exact hsteps items _ (Nat.zero_le _) hblocks

theorem Honest.take {k : ℕ} (h : Honest c config S now s) (hk : k ≤ s.blocks.length) :
    ∃ p, Honest c config S now p ∧ p.blocks = s.blocks.take k ∧ p.tipHash = s.tipAt k := by
  obtain ⟨p, hp, hblocks, hpre, htip⟩ := h.reachable.exists_prefix hk
  refine ⟨p, ⟨hp, hpre.trans h.preimages, ?_, ?_⟩, hblocks, htip⟩
  · rw [hblocks, List.length_take]
    exact le_trans (Nat.min_le_right _ _) h.length_le
  · refine le_trans ?_ h.timestamp_le
    rcases hp.cases_next with rfl | ⟨s₀, now', b, reward, l, -, -, rfl⟩
    · exact Nat.zero_le _
    · -- the last block is one of the chain
      have hmem : b ∈ s.blocks.take k := by
        rw [← hblocks]
        exact List.mem_append_right _ (List.mem_singleton_self b)
      exact h.reachable.timestamp_le b (List.mem_of_mem_take hmem)

theorem Reachable.previousHash_eq {i : ℕ} {b : Block} (h : Reachable c config s)
    (hb : s.blocks[i]? = some b) : b.previousHash = s.tipAt i := by
  obtain ⟨hlt, -⟩ := List.getElem?_eq_some_iff.1 hb
  obtain ⟨p, hp, hblocks, -, -⟩ := h.exists_prefix (Nat.succ_le_of_lt hlt)
  obtain ⟨q, -, hqblocks, -, hqtip⟩ := h.exists_prefix (le_of_lt hlt)
  rcases hp.cases_next with rfl | ⟨s₀, now', b', reward, l, hs₀, haccepts, rfl⟩
  · have hlen := congrArg List.length hblocks
    rw [List.length_take] at hlen
    simp only [genesisState, List.length_nil] at hlen
    omega
  · have hsplit : s₀.blocks ++ [b'] = s.blocks.take i ++ [b] := by
      rw [List.take_add_one, hb] at hblocks
      exact hblocks
    obtain ⟨hbefore, hlast⟩ := List.append_inj' hsplit rfl
    obtain rfl : b' = b := by simpa using hlast
    rw [haccepts.previousHash_eq, hs₀.tipHash_eq]
    have hlen : s₀.blocks.length = i := by
      rw [hbefore, List.length_take]
      omega
    rw [hlen]
    cases i with
    | zero => rw [s₀.tipAt_zero, s.tipAt_zero, hs₀.genesisHash_eq, h.genesisHash_eq]
    | succ i =>
        rw [State.tipAt, State.tipAt, hbefore, List.getElem?_take_of_lt (Nat.lt_succ_self i)]

theorem Reachable.lastHash_objects {p : State} (h : Reachable c config s)
    (hp : Reachable c config p) : lastHash s p.objects = some p.tipHash := by
  rw [hp.tipHash_eq]
  rcases Nat.eq_zero_or_pos p.blocks.length with hzero | hpos
  · have hnil := List.length_eq_zero_iff.1 hzero
    rw [hzero, p.tipAt_zero, hp.genesisHash_eq, ← h.genesisHash_eq, State.objects, hnil]
    rfl
  · have hlast := lastHash_take (s := s) hpos (le_refl p.blocks.length)
    rw [List.take_length] at hlast
    exact hlast

/-! ### Answers -/

/-- The answer of a node that has the `n` blocks after the first `k` of its chain. -/
def answer (s : State) (k n : ℕ) : Response :=
  .batch k (((s.blocks.drop k).take n).map Block.toJson) (k + n < s.blocks.length) s.blocks.length

/-- **A batch that continues what it is added to**: as many blocks as it says are common, the last
of which comes before the first of the batch. -/
def Continues (s : State) (sync : Option (List Json)) (common : ℕ) (blocks : List Json) : Prop :=
  ∃ base, syncBase s sync common = .ok base ∧ base.length = common ∧
    ∀ block ∈ blocks.head?, Json.string? (block.get? "previousHash".toList) = lastHash s base

/-- The answer to a question is one while nothing else has been put together and the chain has the
common blocks. -/
theorem Honest.continues {q : State} {k n : ℕ} (hs : Honest c config S now s)
    (hq : Honest c config S now q) (hk : k ≤ q.blocks.length)
    (htake : s.blocks.take k = q.blocks.take k) :
    Continues s none k (((q.blocks.drop k).take n).map Block.toJson) := by
  obtain ⟨p, hp, hblocks, htip⟩ := hq.take hk
  have hlen : (s.blocks.take k).length = k := by
    rw [htake, List.length_take, Nat.min_eq_left hk]
  have hheight : k ≤ s.height := by
    rw [hs.reachable.height_eq.1]
    rw [List.length_take] at hlen
    omega
  have hbase : (s.blocks.take k).map Block.toJson = p.objects := by
    rw [htake, ← hblocks]
    rfl
  refine ⟨(s.blocks.take k).map Block.toJson, ?_, by rw [List.length_map, hlen], ?_⟩
  · rw [syncBase, require_true (decide_eq_true hheight), ok_bind]
    rfl
  · intro block hblock
    rw [hbase, hs.reachable.lastHash_objects hp.reachable, htip]
    rw [List.head?_map, Option.mem_map] at hblock
    obtain ⟨b, hb, rfl⟩ := hblock
    rw [List.head?_take] at hb
    split at hb
    · cases hb
    · rw [List.head?_drop] at hb
      rw [← hq.reachable.previousHash_eq hb]
      rfl

/-- **What comes of an answer** that continues what it is added to: a chain of an honest node is put
together, or handed over. -/
theorem Honest.receive {q : State} {k n : ℕ} {sync : Option (List Json)}
    (hinj : Set.InjOn c.sha256 S) (hs : Honest c config S now s)
    (hsync : ∀ l, sync = some l → ∃ p, Honest c config S now p ∧ l = p.objects)
    (hq : Honest c config S now q) (hn : n ≤ maxBlocksPerResponse) (hkn : k + n ≤ q.blocks.length)
    (hpos : k < q.blocks.length → 1 ≤ n)
    (hcontinues : Continues s sync k (((q.blocks.drop k).take n).map Block.toJson)) :
    ∃ p, Honest c config S now p ∧
      (receiveBlocks s sync (answer q k n) =
          .ok (.more p.objects (.after (some (p.tipAt p.blocks.length)))) ∨
        receiveBlocks s sync (answer q k n) = .ok (.candidate p.objects)) := by
  obtain ⟨base, hbase, hlen, hfirst⟩ := hcontinues
  -- what has been put together is a chain of an honest node, of `k` blocks
  obtain ⟨p, hp, rfl⟩ : ∃ p, Honest c config S now p ∧ base = p.objects := by
    cases sync with
    | some l =>
        cases hbase
        exact hsync base rfl
    | none =>
        obtain ⟨hheight, hbase⟩ := bind_require_eq_ok.1 hbase
        rw [pure_eq_ok, Except.ok.injEq] at hbase
        have hk := of_decide_eq_true hheight
        rw [hs.reachable.height_eq.1] at hk
        obtain ⟨p, hp, hblocks, -⟩ := hs.take hk
        exact ⟨p, hp, by rw [← hbase, State.objects, hblocks]⟩
  rw [State.objects, List.length_map] at hlen
  rcases Nat.eq_zero_or_pos n with rfl | hone
  · -- no more blocks: what has been put together is a whole chain
    have hall : q.blocks.length = k := by omega
    have hanswer := receiveBlocks_answer (b := p) (k := k) (n := 0) (s := s)
      (by rw [hbase, State.objects, ← hlen, List.take_length]) (Nat.zero_le _) (by omega)
      (fun hlt => absurd hlt (by omega)) hp.length_le
    rw [if_neg (by omega)] at hanswer
    refine ⟨p, hp, Or.inr ?_⟩
    rw [answer, hall, List.take_zero, ← hlen, ← List.take_zero (l := p.blocks.drop k), hlen]
    exact hlen ▸ hanswer
  · -- the first block of the batch tells that the blocks before it are the same
    have hlt : k < q.blocks.length := by omega
    have hget := List.getElem?_eq_getElem hlt
    have hhead : (((q.blocks.drop k).take n).map Block.toJson).head? =
        some (q.blocks[k]).toJson := by
      rw [List.head?_map, List.head?_take, if_neg (by omega), List.head?_drop, hget]
      rfl
    have hprevious := hfirst _ hhead
    rw [hs.reachable.lastHash_objects hp.reachable, hp.reachable.tipHash_eq] at hprevious
    have htip : p.tipAt p.blocks.length = q.tipAt k := by
      rw [← hq.reachable.previousHash_eq hget]
      exact (Option.some.inj hprevious).symm
    have htake := (hp.reachable.take_eq_of_tipAt_eq hinj hq.reachable hp.preimages hq.preimages
      le_rfl (le_of_lt hlt) htip).2
    rw [List.take_length] at htake
    have hanswer := receiveBlocks_answer (s := s) (b := q) (k := k) (n := n)
      (by rw [hbase, State.objects, htake]) hn hkn hpos hq.length_le
    obtain ⟨r, hr, hblocks, hrtip⟩ := hq.take hkn
    by_cases hmore : k + n < q.blocks.length
    · rw [if_pos hmore] at hanswer
      refine ⟨r, hr, Or.inl ?_⟩
      rw [← hr.reachable.tipHash_eq, hrtip, State.objects, hblocks]
      exact hanswer
    · rw [if_neg hmore] at hanswer
      exact ⟨q, hq, Or.inr hanswer⟩

/-! ### One message -/

/-- What an honest node sends. -/
def Message.Honest (c : Crypto) (config : Consensus) (S : Set Str) (now : ℕ) : Message → Prop
  | .version message => ∃ s, Medac.Honest c config S now s ∧ message = versionMessage s
  | .blocks response => response = .restart ∨ ∃ s k n, Medac.Honest c config S now s ∧
      n ≤ maxBlocksPerResponse ∧ k + n ≤ s.blocks.length ∧ (k < s.blocks.length → 1 ≤ n) ∧
      response = answer s k n
  | _ => True

theorem Message.Honest.later {now' : ℕ} {message : Message}
    (h : message.Honest c config S now) (hle : now ≤ now') : message.Honest c config S now' := by
  cases message with
  | version message =>
      obtain ⟨s, hs, heq⟩ := h
      exact ⟨s, hs.later hle, heq⟩
  | blocks response =>
      rcases h with hrestart | ⟨s, k, n, hs, hrest⟩
      · exact Or.inl hrestart
      · exact Or.inr ⟨s, k, n, hs.later hle, hrest⟩
  | getBlocks request => trivial
  | block block => trivial
  | transaction transaction => trivial

namespace Peer

variable {p : Peer}

/-- What holds of an honest node and what it keeps for an honest peer. -/
structure Good (c : Crypto) (options : ConsensusOptions) (config : Consensus) (S : Set Str)
    (now : ℕ) (p : Peer) : Prop where
  chain : p.chain.Sound c options config
  honest : Honest c config S now p.chain.state
  sync : ∀ l, p.sync = some l → ∃ s, Honest c config S now s ∧ l = s.objects
  opened : p.closed = false
  announced : ∀ block, .announce (some block) ∈ p.waiting → (Message.block block).fits = true
  requested : .request ∈ p.waiting → p.ready = true
  not_refused : .refuse ∉ p.waiting
  sent_of_ready : p.ready = true → p.versionSent = true

/-- **A message that the node must expect**: an answer must continue what it is added to, and the
store must not fail on the candidate; a block must not make the chain too long. -/
def Expects (p : Peer) (store : Except Error Unit) : Message → Prop
  | .blocks (.batch common blocks _ _) => store = .ok () ∧
      Continues p.chain.state p.sync common blocks
  | .block _ => p.chain.state.blocks.length < maxChainBlocks
  | _ => True

/-- The message has been handled: the node has met its peer, the connection is open, and what is
sent in turn is honest. -/
def Handled (c : Crypto) (options : ConsensusOptions) (config : Consensus) (S : Set Str) (now : ℕ)
    (outcome : Except Error (Peer × List Message)) : Prop :=
  ∃ next, outcome = .ok next ∧ next.1.Good c options config S now ∧ next.1.ready = true ∧
    next.1.versionSent = true ∧ ∀ answer ∈ next.2, answer.Honest c config S now ∧ answer.fits = true

theorem consider_unchanged (p : Peer) (store : Except Error Unit) (blocks : List Json) :
    (p.consider c now store blocks).ready = p.ready ∧
      (p.consider c now store blocks).versionSent = p.versionSent := by
  rw [Peer.consider]
  split
  · split <;> exact ⟨rfl, rfl⟩
  · exact ⟨rfl, rfl⟩

namespace Good

theorem wait {next : Pending} {chain : MedacChain} (h : p.Good c options config S now)
    (hsound : chain.Sound c options config) (hhonest : Honest c config S now chain.state)
    (hannounced : ∀ block, next = .announce (some block) → (Message.block block).fits = true)
    (hrequested : next = .request → p.ready = true) (hrefused : next ≠ .refuse) :
    Good c options config S now { p with chain, waiting := p.waiting ++ [next] } where
  chain := hsound
  honest := hhonest
  sync := h.sync
  opened := h.opened
  announced := by
    intro block hblock
    rcases List.mem_append.1 hblock with hold | hnew
    · exact h.announced block hold
    · exact hannounced block (List.mem_singleton.1 hnew).symm
  requested := by
    intro hrequest
    rcases List.mem_append.1 hrequest with hold | hnew
    · exact h.requested hold
    · exact hrequested (List.mem_singleton.1 hnew).symm
  not_refused := by
    intro hrefuse
    rcases List.mem_append.1 hrefuse with hold | hnew
    · exact h.not_refused hold
    · exact hrefused (List.mem_singleton.1 hnew).symm
  sent_of_ready := h.sent_of_ready

theorem later {now' : ℕ} (h : p.Good c options config S now) (hle : now ≤ now') :
    p.Good c options config S now' where
  chain := h.chain
  honest := h.honest.later hle
  sync := by
    intro l hl
    obtain ⟨s, hs, heq⟩ := h.sync l hl
    exact ⟨s, hs.later hle, heq⟩
  opened := h.opened
  announced := h.announced
  requested := h.requested
  not_refused := h.not_refused
  sent_of_ready := h.sent_of_ready

theorem with_sync {sync : Option (List Json)} (h : p.Good c options config S now)
    (hsync : ∀ l, sync = some l → ∃ s, Honest c config S now s ∧ l = s.objects) :
    Good c options config S now { p with sync } :=
  { h with sync := hsync }

theorem eraseIdx (h : p.Good c options config S now) (k : ℕ) :
    Good c options config S now { p with waiting := p.waiting.eraseIdx k } :=
  { h with
    announced := fun block hblock => h.announced block (List.mem_of_mem_eraseIdx hblock)
    requested := fun hrequest => h.requested (List.mem_of_mem_eraseIdx hrequest)
    not_refused := fun hrefuse => h.not_refused (List.mem_of_mem_eraseIdx hrefuse) }

theorem sent_of_broadcast {messages : List Message} (h : p.Good c options config S now)
    (hne : p.broadcast messages ≠ []) : p.versionSent = true := by
  unfold broadcast at hne
  split at hne
  · next hready => exact h.sent_of_ready hready
  · exact absurd rfl hne

theorem mem_of_broadcast {messages : List Message} {message : Message}
    (h : message ∈ p.broadcast messages) : message ∈ messages := by
  unfold broadcast at h
  split at h
  · exact h
  · cases h

theorem request (h : p.Good c options config S now) :
    p.request.1.Good c options config S now ∧ ∀ message ∈ p.request.2,
      message.Honest c config S now ∧ message.fits = true := by
  refine ⟨h.with_sync (fun l hl => by cases hl), fun message hmessage => ?_⟩
  rw [Peer.request, List.mem_singleton] at hmessage
  subst hmessage
  exact ⟨trivial, h.honest.reachable.fits_request⟩

/-- **A candidate that is a chain of an honest node is not refused.** -/
theorem consider {s : State} (h : p.Good c options config S now) (hs : Honest c config S now s) :
    (p.consider c now (.ok ()) s.objects).Good c options config S now := by
  have hlen : s.objects.length ≤ maxChainBlocks := by
    rw [State.objects, List.length_map]
    exact hs.length_le
  have hreplay : replayBlocks c p.chain.consensusOptions (fun _ => now) s.objects = .ok s := by
    rw [h.chain.options_eq]
    exact hs.reachable.replayBlocks_objects h.chain.parsed fun _ => hs.timestamp_le
  rw [Peer.consider]
  rcases Nat.lt_or_ge p.chain.state.cumulativeWork s.cumulativeWork with hmore | hless
  · have hadopted : p.chain.considerChain c (fun _ => now) (.ok ()) (.arr s.objects) =
        .ok ({ p.chain with state := s },
          ⟨true, s, some p.chain.state.tipHash, s.cumulativeWork⟩) :=
      MedacChain.considerChain_eq_ok.2 ⟨_, s, rfl, hlen, hreplay, Or.inr ⟨hmore, rfl, rfl, rfl⟩⟩
    simp only [hadopted, if_true]
    exact h.wait ⟨h.chain.options_eq, h.chain.parsed, hs.reachable⟩ hs
      (fun block hblock => by cases hblock) (fun hrequest => by cases hrequest)
      (fun hrefuse => by cases hrefuse)
  · have hkept : p.chain.considerChain c (fun _ => now) (.ok ()) (.arr s.objects) =
        .ok (p.chain, ⟨false, p.chain.state, none, s.cumulativeWork⟩) :=
      MedacChain.considerChain_eq_ok.2 ⟨_, s, rfl, hlen, hreplay, Or.inl ⟨hless, rfl, rfl⟩⟩
    simp only [hkept, Bool.false_eq_true, if_false]
    exact h

theorem handle_version {store : Except Error Unit} {s : State}
    (h : p.Good c options config S now) (hs : Honest c config S now s)
    (hsent : p.versionSent = true) :
    Handled c options config S now (p.handle c now store (.version (versionMessage s))) := by
  have haccepts := (hs.reachable.acceptsVersion_iff h.honest.reachable).2 hs.length_le
  have hgood : Good c options config S now { p with ready := true } :=
    { h with requested := fun _ => rfl, sent_of_ready := fun _ => hsent }
  have hsend : Peer.sendVersion { p with ready := true } = ({ p with ready := true }, []) := by
    rw [sendVersion, if_pos hsent]
  rw [Peer.handle, require_true haccepts, ok_bind, hsend]
  dsimp only
  by_cases hwork : p.chain.state.cumulativeWork < announcedWork (versionMessage s)
  · rw [if_pos hwork]
    exact ⟨_, rfl, hgood.request.1, rfl, hsent, hgood.request.2⟩
  · rw [if_neg hwork]
    exact ⟨_, rfl, hgood, rfl, hsent, fun answer hanswer => by cases hanswer⟩

theorem handle_getBlocks {store : Except Error Unit} (request : Request)
    (h : p.Good c options config S now) (hready : p.ready = true) (hsent : p.versionSent = true) :
    Handled c options config S now (p.handle c now store (.getBlocks request)) := by
  obtain ⟨response, hserve⟩ := exists_serveBlocks h.honest.reachable.servable request
  rw [Peer.handle, require_true hready, ok_bind, hserve, ok_bind]
  refine ⟨_, rfl, h, hready, hsent, fun answer hanswer => ?_⟩
  rw [List.mem_singleton] at hanswer
  subst hanswer
  refine ⟨?_, h.honest.reachable.fits_serveBlocks hserve⟩
  cases hcommon : commonHeight p.chain.state request with
  | none =>
      rw [serveBlocks, hcommon] at hserve
      cases hserve
      exact Or.inl rfl
  | some k =>
      have hk := h.honest.reachable.commonHeight_le hcommon
      obtain ⟨n, hn, hkn, hpos, rfl⟩ := serveBlocks_eq hk hcommon hserve
      exact Or.inr ⟨_, k, n, h.honest, hn, hkn, hpos, rfl⟩

theorem handle_blocks {store : Except Error Unit} {response : Response}
    (hinj : Set.InjOn c.sha256 S) (h : p.Good c options config S now)
    (hmessage : (Message.blocks response).Honest c config S now) (hready : p.ready = true)
    (hsent : p.versionSent = true) (hexpects : p.Expects store (.blocks response)) :
    Handled c options config S now (p.handle c now store (.blocks response)) := by
  rw [Peer.handle, require_true hready, ok_bind]
  rcases hmessage with rfl | ⟨q, k, n, hq, hn, hkn, hpos, rfl⟩
  · exact ⟨_, rfl, h.request.1, hready, hsent, h.request.2⟩
  · obtain ⟨rfl, hcontinues⟩ := hexpects
    obtain ⟨r, hr, hreceive | hreceive⟩ :=
      h.honest.receive hinj h.sync hq hn hkn hpos hcontinues
    · rw [hreceive, ok_bind]
      refine ⟨_, rfl, h.with_sync ?_, hready, hsent, ?_⟩
      · intro l hl
        exact ⟨r, hr, (Option.some.inj hl).symm⟩
      · intro answer hanswer
        rw [List.mem_singleton] at hanswer
        subst hanswer
        exact ⟨trivial, hr.reachable.fits_after le_rfl⟩
    · rw [hreceive, ok_bind]
      have hreset : Good c options config S now { p with sync := none } :=
        h.with_sync fun l hl => by cases hl
      obtain ⟨hsameReady, hsameSent⟩ :=
        consider_unchanged (c := c) { p with sync := none } (.ok ()) r.objects
      exact ⟨_, rfl, hreset.consider hr, hsameReady.trans hready, hsameSent.trans hsent,
        fun answer hanswer => by cases hanswer⟩

theorem handle_block {store : Except Error Unit} {block : Json}
    (h : p.Good c options config S now) (hready : p.ready = true) (hsent : p.versionSent = true)
    (hlen : p.chain.state.blocks.length < maxChainBlocks)
    (htexts : ∀ next, p.handle c now store (.block block) = .ok next →
      next.1.chain.state.preimages ⊆ S) :
    Handled c options config S now (p.handle c now store (.block block)) := by
  cases happend : p.chain.appendBlock c now store block with
  | ok chain =>
      have hhandle : p.handle c now store (.block block) =
          .ok ({ p with chain, waiting := p.waiting ++ [.announce none] }, []) := by
        rw [Peer.handle, require_true hready, ok_bind]
        simp only [happend]
        rfl
      have hS : chain.state.preimages ⊆ S :=
        htexts ({ p with chain, waiting := p.waiting ++ [.announce none] }, []) hhandle
      obtain ⟨state, hstate, -, hchain⟩ := MedacChain.appendBlock_eq_ok.1 happend
      have hnext : Honest c config S now chain.state := by
        rw [hchain] at hS ⊢
        exact h.honest.next hstate hlen hS
      have hsound : chain.Sound c options config := by
        refine ⟨?_, h.chain.parsed, hnext.reachable⟩
        rw [hchain]
        exact h.chain.options_eq
      have hgood : Good c options config S now
          { p with chain, waiting := p.waiting ++ [.announce none] } :=
        h.wait hsound hnext (fun block hblock => by cases hblock)
          (fun hrequest => by cases hrequest) (fun hrefuse => by cases hrefuse)
      exact ⟨_, hhandle, hgood, hready, hsent, fun answer hanswer => by cases hanswer⟩
  | error e =>
      have hhandle : p.handle c now store (.block block) =
          .ok ({ p with waiting := p.waiting ++ [.request] }, []) := by
        rw [Peer.handle, require_true hready, ok_bind]
        simp only [happend]
        rfl
      have hgood : Good c options config S now
          { p with waiting := p.waiting ++ [.request] } :=
        h.wait h.chain h.honest (fun block hblock => by cases hblock) (fun _ => hready)
          (fun hrefuse => by cases hrefuse)
      exact ⟨_, hhandle, hgood, hready, hsent, fun answer hanswer => by cases hanswer⟩

/-- **One message.**  An honest node handles what an honest peer sends without closing the
connection, if it must expect it, and what it sends in turn is honest. -/
theorem handle {message : Message} {store : Except Error Unit} (hinj : Set.InjOn c.sha256 S)
    (h : p.Good c options config S now) (hmessage : message.Honest c config S now)
    (hready : p.ready = true ∨ ∃ raw, message = .version raw) (hsent : p.versionSent = true)
    (hexpects : p.Expects store message)
    (htexts : ∀ next, p.handle c now store message = .ok next →
      next.1.chain.state.preimages ⊆ S) :
    Handled c options config S now (p.handle c now store message) := by
  rcases hready with hready | ⟨raw, rfl⟩
  · cases message with
    | version raw =>
        obtain ⟨s, hs, rfl⟩ := hmessage
        exact h.handle_version hs hsent
    | getBlocks request => exact h.handle_getBlocks request hready hsent
    | blocks response => exact h.handle_blocks hinj hmessage hready hsent hexpects
    | block block => exact h.handle_block hready hsent hexpects htexts
    | transaction transaction =>
        rw [Peer.handle, require_true hready, ok_bind]
        exact ⟨_, rfl, h, hready, hsent, fun answer hanswer => by cases hanswer⟩
  · obtain ⟨s, hs, rfl⟩ := hmessage
    exact h.handle_version hs hsent

end Good

end Peer

/-! ### One event -/

namespace Net

variable {net : Net} {i : Bool}

/-- The first message on the way to a node is a version, or the other has not sent anything. -/
def Greets (net : Net) (i : Bool) : Prop :=
  (net.inbox i = [] ∧ (net.peer !i).versionSent = false) ∨
    ∃ raw rest, net.inbox i = .version raw :: rest

/-- **What holds between the events.** -/
structure Good (c : Crypto) (options : ConsensusOptions) (config : Consensus) (S : Set Str)
    (net : Net) : Prop where
  peer : ∀ i, (net.peer i).Good c options config S net.now
  inbox : ∀ i, ∀ message ∈ net.inbox i,
    message.Honest c config S net.now ∧ message.fits = true
  greets : ∀ i, (net.peer i).ready = false → net.Greets i

/-- **An event as the nodes must expect it**: somebody else's block does not make the chain too long
or fill more than a message, and a message is one that its receiver must expect. -/
def Orderly (net : Net) : NetEvent → Prop
  | .extend i _ block => (net.peer i).chain.state.blocks.length < maxChainBlocks ∧
      (Message.block block).fits = true
  | .deliver i store => ∀ message ∈ (net.inbox i).head?, (net.peer i).Expects store message
  | _ => True

/-- The texts of the chains of the two nodes. -/
def TextsIn (net : Net) (S : Set Str) : Prop := ∀ i, (net.peer i).chain.state.preimages ⊆ S

theorem step_eq_act {event : NetEvent} (hfalse : (net.peer false).closed = false)
    (htrue : (net.peer true).closed = false) : net.step c event = net.act c event := by
  rw [Net.step, hfalse, htrue]
  rfl

theorem act_extend (store : Except Error Unit) (block : Json) :
    net.act c (.extend i store block) =
      match (net.peer i).chain.appendBlock c net.now store block with
      | .ok chain =>
          net.put i ({ net.peer i with
            chain, waiting := (net.peer i).waiting ++ [.announce (some block)] }, [])
      | .error _ => net := by
  rfl

theorem act_reorganise (store : Except Error Unit) (blocks : Json) :
    net.act c (.reorganise i store blocks) =
      match (net.peer i).chain.considerChain c (fun _ => net.now) store blocks with
      | .ok (chain, result) =>
          if result.adopted then
            net.put i ({ net.peer i with
              chain, waiting := (net.peer i).waiting ++ [.announce none] }, [])
          else net
      | .error _ => net := by
  rfl

theorem act_submit (transaction : Json) :
    net.act c (.submit i transaction) =
      match normalizeTransaction c transaction with
      | .ok t => net.put i (net.peer i, (net.peer i).broadcast [.transaction t.toJson])
      | .error _ => net := by
  rfl

theorem act_deliver {store : Except Error Unit} {message : Message} {rest : List Message}
    (hinbox : net.inbox i = message :: rest) (hsent : (net.peer i).versionSent = true) :
    net.act c (.deliver i store) =
      Net.handle c store { net with inbox := Function.update net.inbox i rest } i message := by
  unfold act
  simp only [hinbox, hsent, if_true]

theorem act_deliver_nil {store : Except Error Unit} (hinbox : net.inbox i = []) :
    net.act c (.deliver i store) = net := by
  unfold act
  simp only [hinbox]

theorem act_deliver_early {store : Except Error Unit}
    (hsent : (net.peer i).versionSent = false) : net.act c (.deliver i store) = net := by
  unfold act
  simp only [hsent, Bool.false_eq_true, if_false]
  split <;> rfl

theorem act_resume {k : ℕ} {next : Pending} (hnext : (net.peer i).waiting[k]? = some next) :
    net.act c (.resume i k) = net.put i
      (Peer.resume { net.peer i with waiting := (net.peer i).waiting.eraseIdx k } next) := by
  unfold act
  simp only [hnext]

theorem act_resume_none {k : ℕ} (hnext : (net.peer i).waiting[k]? = none) :
    net.act c (.resume i k) = net := by
  unfold act
  simp only [hnext]

theorem put_eq {step : Peer × List Message} (hopened : step.1.closed = false)
    (hfits : ∀ message ∈ step.2, message.fits = true) :
    net.put i step = { net with
      peer := Function.update net.peer i step.1
      inbox := Function.update net.inbox (!i) (net.inbox (!i) ++ step.2) } := by
  have hany : (step.2.any fun message => !message.fits) = false := by
    rw [List.any_eq_false]
    intro message hmessage
    rw [hfits message hmessage]
    decide
  have hall : step.2.takeWhile Message.fits = step.2 := List.takeWhile_eq_self_iff.2 hfits
  rw [put, hany, hall, hopened, Bool.or_false, ← hopened]

theorem put_chain (step : Peer × List Message) :
    ((net.put i step).peer i).chain = step.1.chain := by
  rw [put]
  simp only [Function.update_self]

namespace Good

/-- **What one node comes to and sends.**  It sends something only after its version. -/
theorem put {step : Peer × List Message} (hthere : (net.peer !i).Good c options config S net.now)
    (hgood : step.1.Good c options config S net.now)
    (hinbox : ∀ i, ∀ message ∈ net.inbox i, message.Honest c config S net.now ∧ message.fits = true)
    (hsends : ∀ message ∈ step.2, message.Honest c config S net.now ∧ message.fits = true)
    (hgreets : (net.peer !i).ready = false → net.Greets (!i))
    (hgreeted : step.1.ready = false → net.Greets i)
    (hversion : (step.1.versionSent = (net.peer i).versionSent ∧
        (step.2 ≠ [] → (net.peer i).versionSent = true)) ∨
      ∃ raw rest, step.2 = .version raw :: rest) :
    (net.put i step).Good c options config S := by
  have hne : (!i) ≠ i := Bool.not_ne_self i
  rw [put_eq hgood.opened fun message hmessage => (hsends message hmessage).2]
  refine ⟨fun j => ?_, fun j => ?_, fun j => ?_⟩
  · rcases eq_or_ne j i with rfl | hj
    · simp only [Function.update_self]
      exact hgood
    · obtain rfl : j = !i := Bool.eq_not.2 hj
      simp only [Function.update_of_ne hj]
      exact hthere
  · rcases eq_or_ne j (!i) with rfl | hj
    · simp only [Function.update_self]
      intro message hmessage
      rcases List.mem_append.1 hmessage with hold | hnew
      · exact hinbox (!i) message hold
      · exact hsends message hnew
    · simp only [Function.update_of_ne hj]
      exact hinbox j
  · rcases eq_or_ne j i with rfl | hj
    · intro hready
      simp only [Function.update_self] at hready
      rw [Greets]
      simp only [Function.update_of_ne hne, Function.update_of_ne hne.symm]
      exact hgreeted hready
    · obtain rfl : j = !i := Bool.eq_not.2 hj
      intro hready
      simp only [Function.update_of_ne hne] at hready
      rw [Greets]
      simp only [Function.update_self, Bool.not_not]
      rcases hgreets hready with ⟨hempty, hsilent⟩ | ⟨raw, rest, hhead⟩
      · rw [Bool.not_not] at hsilent
        rcases hversion with ⟨hsame, hsend⟩ | ⟨raw, rest, hhead⟩
        · -- a node that has not sent its version sends nothing
          have hnil : step.2 = [] := by
            by_contra hcons
            rw [hsend hcons] at hsilent
            cases hsilent
          exact Or.inl ⟨by rw [hempty, hnil, List.append_nil], by rw [hsame, hsilent]⟩
        · exact Or.inr ⟨raw, rest, by rw [hempty, hhead, List.nil_append]⟩
      · exact Or.inr ⟨raw, rest ++ step.2, by rw [hhead, List.cons_append]⟩

theorem put_self {step : Peer × List Message} (h : net.Good c options config S)
    (hgood : step.1.Good c options config S net.now)
    (hsends : ∀ message ∈ step.2, message.Honest c config S net.now ∧ message.fits = true)
    (hready : step.1.ready = (net.peer i).ready)
    (hversion : (step.1.versionSent = (net.peer i).versionSent ∧
        (step.2 ≠ [] → (net.peer i).versionSent = true)) ∨
      ∃ raw rest, step.2 = .version raw :: rest) :
    (net.put i step).Good c options config S :=
  put (h.peer !i) hgood h.inbox hsends (h.greets !i)
    (fun hnot => h.greets i (hready ▸ hnot)) hversion

theorem deliver {store : Except Error Unit} {message : Message} {rest : List Message}
    (hinj : Set.InjOn c.sha256 S) (h : net.Good c options config S)
    (hinbox : net.inbox i = message :: rest) (hsent : (net.peer i).versionSent = true)
    (hexpects : (net.peer i).Expects store message)
    (htexts : (Net.handle c store { net with inbox := Function.update net.inbox i rest } i
      message).TextsIn S) :
    (Net.handle c store { net with inbox := Function.update net.inbox i rest } i
      message).Good c options config S := by
  obtain ⟨hhonest, hfits⟩ := h.inbox i message (hinbox ▸ List.mem_cons_self)
  have hready : (net.peer i).ready = true ∨ ∃ raw, message = .version raw := by
    by_cases hready : (net.peer i).ready = true
    · exact Or.inl hready
    · rcases h.greets i (Bool.eq_false_iff.2 hready) with ⟨hempty, -⟩ | ⟨raw, tail, hhead⟩
      · rw [hinbox] at hempty
        cases hempty
      · rw [hinbox] at hhead
        exact Or.inr ⟨raw, (List.cons.inj hhead).1⟩
  rw [Net.handle, if_pos hfits] at htexts ⊢
  obtain ⟨next, hnext, hgood, hnextReady, hnextSent, hanswers⟩ :=
    (h.peer i).handle hinj hhonest hready hsent hexpects (by
      intro next hnext
      have hchain := htexts i
      simp only [hnext, put_chain] at hchain
      exact hchain)
  simp only [hnext]
  refine put (h.peer !i) hgood ?_ hanswers ?_ ?_ ?_
  · intro j m hm
    rcases eq_or_ne j i with rfl | hj
    · simp only [Function.update_self] at hm
      exact h.inbox j m (hinbox ▸ List.mem_cons_of_mem _ hm)
    · simp only [Function.update_of_ne hj] at hm
      exact h.inbox j m hm
  · intro hnot
    have hgreets := h.greets (!i) hnot
    rw [Greets] at hgreets ⊢
    simp only [Function.update_of_ne (Bool.not_ne_self i)]
    exact hgreets
  · intro hnot
    rw [hnextReady] at hnot
    cases hnot
  · exact Or.inl ⟨by rw [hnextSent, hsent], fun _ => hsent⟩

theorem resume {k : ℕ} {next : Pending} (h : net.Good c options config S)
    (hnext : (net.peer i).waiting[k]? = some next) :
    (net.put i (Peer.resume { net.peer i with waiting := (net.peer i).waiting.eraseIdx k }
      next)).Good c options config S := by
  have hmem := List.mem_of_getElem? hnext
  have hpeer := (h.peer i).eraseIdx k
  cases next with
  | announce block =>
      refine h.put_self hpeer (fun message hmessage => ?_) rfl
        (Or.inl ⟨rfl, hpeer.sent_of_broadcast⟩)
      rcases List.mem_append.1 (Peer.Good.mem_of_broadcast hmessage) with hblock | hversion
      · cases block with
        | none => cases hblock
        | some block =>
            obtain rfl := List.mem_singleton.1 hblock
            exact ⟨trivial, (h.peer i).announced block hmem⟩
      · obtain rfl := List.mem_singleton.1 hversion
        have hhonest := (h.peer i).honest
        exact ⟨⟨_, hhonest, rfl⟩, hhonest.reachable.fits_version hhonest.length_le⟩
  | request =>
      have hsent := (h.peer i).sent_of_ready ((h.peer i).requested hmem)
      exact h.put_self hpeer.request.1 hpeer.request.2 rfl (Or.inl ⟨rfl, fun _ => hsent⟩)
  | refuse => exact absurd hmem (h.peer i).not_refused

theorem tick (h : net.Good c options config S) :
    (net.act c .tick).Good c options config S := by
  have hle : net.now ≤ net.now + 1 := Nat.le_succ _
  constructor
  · intro i
    exact (h.peer i).later hle
  · intro i message hmessage
    obtain ⟨hhonest, hfits⟩ := h.inbox i message hmessage
    exact ⟨hhonest.later hle, hfits⟩
  · exact h.greets

theorem attach (h : net.Good c options config S) (i : Bool) :
    (net.act c (.attach i)).Good c options config S := by
  have hpeer := h.peer i
  have hact : net.act c (.attach i) = net.put i (net.peer i).sendVersion := rfl
  rw [hact, Peer.sendVersion]
  split
  · exact h.put_self hpeer (fun message hmessage => by cases hmessage) rfl
      (Or.inl ⟨rfl, fun hne => absurd rfl hne⟩)
  · refine h.put_self { hpeer with sent_of_ready := fun _ => rfl } ?_ rfl
      (Or.inr ⟨_, [], rfl⟩)
    intro message hmessage
    obtain rfl := List.mem_singleton.1 hmessage
    exact ⟨⟨_, hpeer.honest, rfl⟩, hpeer.honest.reachable.fits_version hpeer.honest.length_le⟩

/-- A node whose chain has changed waits until it can tell its peer. -/
theorem changed {chain : MedacChain} {block : Option Json} (h : net.Good c options config S)
    (i : Bool) (hsound : chain.Sound c options config)
    (hhonest : Honest c config S net.now chain.state)
    (hfits : ∀ b, block = some b → (Message.block b).fits = true) :
    (net.put i ({ net.peer i with
      chain, waiting := (net.peer i).waiting ++ [.announce block] }, [])).Good
        c options config S := by
  have hgood : Peer.Good c options config S net.now { net.peer i with
      chain, waiting := (net.peer i).waiting ++ [.announce block] } := by
    refine (h.peer i).wait hsound hhonest (fun b hb => ?_) (fun hrequest => by cases hrequest)
      (fun hrefuse => by cases hrefuse)
    cases hb
    exact hfits b rfl
  exact h.put_self hgood (fun message hmessage => by cases hmessage) rfl
    (Or.inl ⟨rfl, fun hne => absurd rfl hne⟩)

theorem extend {store : Except Error Unit} {block : Json} (h : net.Good c options config S)
    (hlen : (net.peer i).chain.state.blocks.length < maxChainBlocks)
    (hfits : (Message.block block).fits = true)
    (htexts : (net.act c (.extend i store block)).TextsIn S) :
    (net.act c (.extend i store block)).Good c options config S := by
  have hpeer := h.peer i
  rw [act_extend] at htexts ⊢
  cases happend : (net.peer i).chain.appendBlock c net.now store block with
  | error e => exact h
  | ok chain =>
      have hS : chain.state.preimages ⊆ S := by
        have hi := htexts i
        simp only [happend, put_chain] at hi
        exact hi
      obtain ⟨state, hstate, -, hchain⟩ := MedacChain.appendBlock_eq_ok.1 happend
      have hnext : Honest c config S net.now chain.state := by
        rw [hchain] at hS ⊢
        exact hpeer.honest.next hstate hlen hS
      have hsound : chain.Sound c options config := by
        refine ⟨?_, hpeer.chain.parsed, hnext.reachable⟩
        rw [hchain]
        exact hpeer.chain.options_eq
      refine h.changed i hsound hnext fun b hb => ?_
      rw [← Option.some.inj hb]
      exact hfits

theorem reorganise {store : Except Error Unit} {blocks : Json} (h : net.Good c options config S)
    (htexts : (net.act c (.reorganise i store blocks)).TextsIn S) :
    (net.act c (.reorganise i store blocks)).Good c options config S := by
  have hpeer := h.peer i
  rw [act_reorganise] at htexts ⊢
  cases hconsider : (net.peer i).chain.considerChain c (fun _ => net.now) store blocks with
  | error e => exact h
  | ok pair =>
      obtain ⟨chain, result⟩ := pair
      obtain ⟨items, candidate, -, hlen, hreplay, hcases⟩ :=
        MedacChain.considerChain_eq_ok.1 hconsider
      rcases hcases with ⟨-, rfl, rfl⟩ | ⟨-, -, hchain, rfl⟩
      · exact h
      · have hS : candidate.preimages ⊆ S := by
          have hi := htexts i
          simp only [hconsider, if_true, put_chain, hchain] at hi
          exact hi
        rw [hpeer.chain.options_eq] at hreplay
        have hnext := Honest.replayed hpeer.chain.parsed hlen hreplay hS
        have hstate : chain.state = candidate := by rw [hchain]
        have hsound : chain.Sound c options config := by
          refine ⟨?_, hpeer.chain.parsed, hstate ▸ hnext.reachable⟩
          rw [hchain]
          exact hpeer.chain.options_eq
        exact h.changed i hsound (hstate ▸ hnext) fun b hb => by cases hb

theorem submit (h : net.Good c options config S) (i : Bool) (transaction : Json) :
    (net.act c (.submit i transaction)).Good c options config S := by
  rw [act_submit]
  cases hnormal : normalizeTransaction c transaction with
  | error e => exact h
  | ok t =>
      refine h.put_self (h.peer i) (fun message hmessage => ?_) rfl
        (Or.inl ⟨rfl, (h.peer i).sent_of_broadcast⟩)
      obtain rfl := List.mem_singleton.1 (Peer.Good.mem_of_broadcast hmessage)
      exact ⟨trivial, fits_transaction t⟩

/-- **One event** that is as the nodes must expect it. -/
theorem step {event : NetEvent} (hinj : Set.InjOn c.sha256 S) (h : net.Good c options config S)
    (horderly : net.Orderly event) (htexts : (net.step c event).TextsIn S) :
    (net.step c event).Good c options config S := by
  rw [step_eq_act (h.peer false).opened (h.peer true).opened] at htexts ⊢
  cases event with
  | tick => exact h.tick
  | attach i => exact h.attach i
  | extend i store block => exact h.extend horderly.1 horderly.2 htexts
  | reorganise i store blocks => exact h.reorganise htexts
  | submit i transaction => exact h.submit i transaction
  | deliver i store =>
      cases hinbox : net.inbox i with
      | nil =>
          rw [act_deliver_nil hinbox]
          exact h
      | cons message rest =>
          by_cases hsent : (net.peer i).versionSent = true
          · rw [act_deliver hinbox hsent] at htexts ⊢
            exact h.deliver hinj hinbox hsent (horderly message (by rw [hinbox]; rfl)) htexts
          · rw [act_deliver_early (Bool.eq_false_iff.2 hsent)]
            exact h
  | resume i k =>
      cases hnext : (net.peer i).waiting[k]? with
      | none =>
          rw [act_resume_none hnext]
          exact h
      | some next =>
          rw [act_resume hnext]
          exact h.resume hnext

end Good

end Net

/-! ### Runs -/

/-- The runs whose events are as the nodes must expect them, and whose chains have only texts on
which SHA-256 has no collision. -/
inductive OrderlyRun (c : Crypto) (S : Set Str) (start : Net) : Net → Prop
  | start : OrderlyRun c S start start
  | step {net : Net} (event : NetEvent) (before : OrderlyRun c S start net)
      (orderly : net.Orderly event) (texts : (net.step c event).TextsIn S) :
      OrderlyRun c S start (net.step c event)

/-- A node that has not met its peer. -/
def stranger (chain : MedacChain) : Peer :=
  { chain, versionSent := false, ready := false, sync := none, waiting := [], closed := false }

/-- Two nodes that have not met. -/
def strangers (now : ℕ) (chain : Bool → MedacChain) : Net :=
  { now, peer := fun i => stranger (chain i), inbox := fun _ => [] }

theorem strangers_good {chain : Bool → MedacChain}
    (hchain : ∀ i, (chain i).Sound c options config)
    (hhonest : ∀ i, Honest c config S now (chain i).state) :
    (strangers now chain).Good c options config S where
  peer i :=
    { chain := hchain i
      honest := hhonest i
      sync := fun l hl => by cases hl
      opened := rfl
      announced := fun block hblock => by cases hblock
      requested := fun hrequest => by cases hrequest
      not_refused := fun hrefuse => by cases hrefuse
      sent_of_ready := fun hready => by cases hready }
  inbox i message hmessage := by cases hmessage
  greets i _ := Or.inl ⟨rfl, rfl⟩

/-- **No connection between honest nodes is closed.**  Two nodes of one network start with chains
that are not from the future, and anything happens to them in any order, as they must expect it:
every batch that arrives continues what it is added to, the store does not fail on a candidate, and
the chains stay short enough.  Then neither node closes the connection, and none is going to. -/
theorem peers_stay_connected {chain : Bool → MedacChain} {net : Net}
    (hinj : Set.InjOn c.sha256 S) (hchain : ∀ i, (chain i).Sound c options config)
    (hhonest : ∀ i, Honest c config S now (chain i).state)
    (hrun : OrderlyRun c S (strangers now chain) net) :
    ∀ i, (net.peer i).closed = false ∧ .refuse ∉ (net.peer i).waiting := by
  have hgood : net.Good c options config S := by
    induction hrun with
    | start => exact strangers_good hchain hhonest
    | step event _ horderly htexts ih => exact ih.step hinj horderly htexts
  intro i
  exact ⟨(hgood.peer i).opened, (hgood.peer i).not_refused⟩

/-! ### A question and an answer -/

/-- The two values of a function on the nodes. -/
def sides {α : Type} (x y : α) (i : Bool) : α := if i then y else x

theorem update_sides_false {α : Type} (x y z : α) :
    Function.update (sides x y) false z = sides z y := by
  funext i
  cases i <;> rfl

theorem update_sides_true {α : Type} (x y z : α) :
    Function.update (sides x y) true z = sides x z := by
  funext i
  cases i <;> rfl

/-- The nodes `a` and `b` after they have met, and the second has answered the first. -/
def answered (now : ℕ) (a b : MedacChain) (k n : ℕ) : Net where
  now
  peer := sides { stranger a with versionSent := true, ready := true }
    { stranger b with versionSent := true, ready := true }
  inbox := sides [.blocks (answer b.state k n)] []

/-- The nodes meet, the first hears of more work and asks, and the second answers. -/
def meeting : List NetEvent :=
  [.attach false, .attach true, .deliver true (.ok ()), .deliver false (.ok ()),
    .deliver true (.ok ())]

theorem announcedWork_versionMessage (s : State) :
    announcedWork (versionMessage s) = s.cumulativeWork := by
  obtain ⟨-, -, -, hwork⟩ := versionMessage_get s
  rw [announcedWork, hwork, Json.string?_str, Option.getD_some, numeralValue_numeral]

theorem Net.put_false {A B A' : Peer} {x y out : List Message} (hopened : A'.closed = false)
    (hfits : ∀ message ∈ out, message.fits = true) :
    Net.put ⟨now, sides A B, sides x y⟩ false (A', out) =
      ⟨now, sides A' B, sides x (y ++ out)⟩ := by
  rw [Net.put_eq hopened hfits, update_sides_false, Bool.not_false, update_sides_true]
  rfl

theorem Net.put_true {A B B' : Peer} {x y out : List Message} (hopened : B'.closed = false)
    (hfits : ∀ message ∈ out, message.fits = true) :
    Net.put ⟨now, sides A B, sides x y⟩ true (B', out) =
      ⟨now, sides A B', sides (x ++ out) y⟩ := by
  rw [Net.put_eq hopened hfits, update_sides_true, Bool.not_true, update_sides_false]
  rfl

theorem Net.step_deliver_false {A B A' : Peer} {message : Message} {rest y out : List Message}
    (hA : A.closed = false) (hB : B.closed = false) (hsent : A.versionSent = true)
    (hmessage : message.fits = true) (hhandle : A.handle c now (.ok ()) message = .ok (A', out))
    (hopened : A'.closed = false) (hfits : ∀ message ∈ out, message.fits = true) :
    Net.step c ⟨now, sides A B, sides (message :: rest) y⟩ (.deliver false (.ok ())) =
      ⟨now, sides A' B, sides rest (y ++ out)⟩ := by
  rw [step_eq_act hA hB, act_deliver rfl hsent, update_sides_false, Net.handle, if_pos hmessage]
  simp only [sides, Bool.false_eq_true, if_false] at hhandle ⊢
  rw [hhandle]
  exact put_false hopened hfits

theorem Net.step_deliver_true {A B B' : Peer} {message : Message} {rest x out : List Message}
    (hA : A.closed = false) (hB : B.closed = false) (hsent : B.versionSent = true)
    (hmessage : message.fits = true) (hhandle : B.handle c now (.ok ()) message = .ok (B', out))
    (hopened : B'.closed = false) (hfits : ∀ message ∈ out, message.fits = true) :
    Net.step c ⟨now, sides A B, sides x (message :: rest)⟩ (.deliver true (.ok ())) =
      ⟨now, sides A B', sides (x ++ out) rest⟩ := by
  rw [step_eq_act hA hB, act_deliver rfl hsent, update_sides_true, Net.handle, if_pos hmessage]
  simp only [sides, if_true] at hhandle ⊢
  rw [hhandle]
  exact put_true hopened hfits

/-- **A question and an answer.** -/
theorem orderlyRun_meeting {a b : MedacChain} {k : ℕ} (ha : Honest c config S now a.state)
    (hb : Honest c config S now b.state)
    (hwork : a.state.cumulativeWork < b.state.cumulativeWork)
    (hcommon : commonHeight b.state (requestBlocks a.state) = some k) :
    ∃ n ≤ maxBlocksPerResponse, k + n ≤ b.state.blocks.length ∧
      (k < b.state.blocks.length → 1 ≤ n) ∧
      (Message.blocks (answer b.state k n)).fits = true ∧
      meeting.foldl (Net.step c) (strangers now (sides a b)) = answered now a b k n ∧
      OrderlyRun c S (strangers now (sides a b)) (answered now a b k n) := by
  obtain ⟨response, hserve⟩ :=
    exists_serveBlocks hb.reachable.servable (requestBlocks a.state)
  obtain ⟨n, hn, hkn, hpos, hresponse⟩ :=
    serveBlocks_eq (hb.reachable.commonHeight_le hcommon) hcommon hserve
  refine ⟨n, hn, hkn, hpos, ?_⟩
  have hfitsA := ha.reachable.fits_version ha.length_le
  have hfitsB := hb.reachable.fits_version hb.length_le
  have hfitsRequest := ha.reachable.fits_request
  have hfitsAnswer : (Message.blocks (answer b.state k n)).fits = true := by
    rw [answer, ← hresponse]
    exact hb.reachable.fits_serveBlocks hserve
  have hone : ∀ message : Message, message.fits = true → ∀ m ∈ [message], m.fits = true := by
    intro message hmessage m hm
    rw [List.mem_singleton.1 hm]
    exact hmessage
  -- the nodes send their versions
  have hstart : strangers now (sides a b) =
      ⟨now, sides (stranger a) (stranger b), sides [] []⟩ := by
    have hpeer : (fun i => stranger (sides a b i)) = sides (stranger a) (stranger b) := by
      funext i
      cases i <;> rfl
    have hinbox : (fun _ => []) = sides ([] : List Message) [] := by
      funext i
      cases i <;> rfl
    rw [strangers, hpeer, hinbox]
  have hattachA : Net.step c ⟨now, sides (stranger a) (stranger b), sides [] []⟩ (.attach false) =
      ⟨now, sides { stranger a with versionSent := true } (stranger b),
        sides [] [.version (versionMessage a.state)]⟩ := by
    rw [Net.step_eq_act rfl rfl]
    exact Net.put_false rfl (hone _ hfitsA)
  have hattachB : Net.step c ⟨now, sides { stranger a with versionSent := true } (stranger b),
        sides [] [.version (versionMessage a.state)]⟩ (.attach true) =
      ⟨now, sides { stranger a with versionSent := true } { stranger b with versionSent := true },
        sides [.version (versionMessage b.state)] [.version (versionMessage a.state)]⟩ := by
    rw [Net.step_eq_act rfl rfl]
    exact Net.put_true rfl (hone _ hfitsB)
  -- the second hears of less work, the first of more
  have hhearB : Peer.handle c now (.ok ()) { stranger b with versionSent := true }
      (.version (versionMessage a.state)) =
        .ok ({ stranger b with versionSent := true, ready := true }, []) := by
    have haccepts : acceptsVersion b.state (versionMessage a.state) = true :=
      (ha.reachable.acceptsVersion_iff hb.reachable).2 ha.length_le
    have hless : ¬ b.state.cumulativeWork < announcedWork (versionMessage a.state) := by
      rw [announcedWork_versionMessage]
      omega
    simp only [Peer.handle, stranger, haccepts, require_true, ok_bind, Peer.sendVersion, if_true,
      if_neg hless]
    rfl
  have hhearA : Peer.handle c now (.ok ()) { stranger a with versionSent := true }
      (.version (versionMessage b.state)) =
        .ok ({ stranger a with versionSent := true, ready := true },
          [.getBlocks (requestBlocks a.state)]) := by
    have haccepts : acceptsVersion a.state (versionMessage b.state) = true :=
      (hb.reachable.acceptsVersion_iff ha.reachable).2 hb.length_le
    have hmore : a.state.cumulativeWork < announcedWork (versionMessage b.state) := by
      rw [announcedWork_versionMessage]
      exact hwork
    simp only [Peer.handle, stranger, haccepts, require_true, ok_bind, Peer.sendVersion, if_true,
      if_pos hmore]
    rfl
  have hserveB : Peer.handle c now (.ok ())
      { stranger b with versionSent := true, ready := true } (.getBlocks (requestBlocks a.state)) =
        .ok ({ stranger b with versionSent := true, ready := true },
          [.blocks (answer b.state k n)]) := by
    simp only [Peer.handle, stranger, require_true, ok_bind, hserve, hresponse]
    rfl
  have hdeliverB : Net.step c ⟨now, sides { stranger a with versionSent := true }
        { stranger b with versionSent := true },
        sides [.version (versionMessage b.state)] [.version (versionMessage a.state)]⟩
        (.deliver true (.ok ())) =
      ⟨now, sides { stranger a with versionSent := true }
          { stranger b with versionSent := true, ready := true },
        sides [.version (versionMessage b.state)] []⟩ :=
    Net.step_deliver_true rfl rfl rfl hfitsA hhearB rfl (fun m hm => by cases hm)
  have hdeliverA : Net.step c ⟨now, sides { stranger a with versionSent := true }
          { stranger b with versionSent := true, ready := true },
        sides [.version (versionMessage b.state)] []⟩ (.deliver false (.ok ())) =
      ⟨now, sides { stranger a with versionSent := true, ready := true }
          { stranger b with versionSent := true, ready := true },
        sides [] [.getBlocks (requestBlocks a.state)]⟩ :=
    Net.step_deliver_false rfl rfl rfl hfitsB hhearA rfl (hone _ hfitsRequest)
  have hdeliverRequest : Net.step c ⟨now,
        sides { stranger a with versionSent := true, ready := true }
          { stranger b with versionSent := true, ready := true },
        sides [] [.getBlocks (requestBlocks a.state)]⟩ (.deliver true (.ok ())) =
      answered now a b k n :=
    Net.step_deliver_true rfl rfl rfl hfitsRequest hserveB rfl (hone _ hfitsAnswer)
  have htexts : ∀ (A B : Peer) (inbox : Bool → List Message), A.chain = a → B.chain = b →
      Net.TextsIn ⟨now, sides A B, inbox⟩ S := by
    rintro A B inbox rfl rfl (- | -)
    · exact ha.preimages
    · exact hb.preimages
  refine ⟨hfitsAnswer, ?_, ?_⟩
  · rw [hstart, meeting, List.foldl_cons, hattachA, List.foldl_cons, hattachB, List.foldl_cons,
      hdeliverB, List.foldl_cons, hdeliverA, List.foldl_cons, hdeliverRequest, List.foldl_nil]
  · have hrun : OrderlyRun c S (strangers now (sides a b)) (strangers now (sides a b)) := .start
    rw [hstart] at hrun ⊢
    have hrun := hrun.step (.attach false) trivial (by rw [hattachA]; exact htexts _ _ _ rfl rfl)
    rw [hattachA] at hrun
    have hrun := hrun.step (.attach true) trivial (by rw [hattachB]; exact htexts _ _ _ rfl rfl)
    rw [hattachB] at hrun
    have hrun := hrun.step (.deliver true (.ok ()))
      (fun message hmessage => by cases hmessage; trivial)
      (by rw [hdeliverB]; exact htexts _ _ _ rfl rfl)
    rw [hdeliverB] at hrun
    have hrun := hrun.step (.deliver false (.ok ()))
      (fun message hmessage => by cases hmessage; trivial)
      (by rw [hdeliverA]; exact htexts _ _ _ rfl rfl)
    rw [hdeliverA] at hrun
    have hrun := hrun.step (.deliver true (.ok ()))
      (fun message hmessage => by cases hmessage; trivial)
      (by rw [hdeliverRequest]; exact htexts _ _ _ rfl rfl)
    rw [hdeliverRequest] at hrun
    exact hrun

/-- The first node adopts the chain of the second, which has one block more than they have in
common. -/
theorem orderlyRun_adopted {a b : MedacChain} {k : ℕ} (hsound : a.Sound c options config)
    (ha : Honest c config S now a.state) (hb : Honest c config S now b.state)
    (hwork : a.state.cumulativeWork < b.state.cumulativeWork)
    (hcommon : commonHeight b.state (requestBlocks a.state) = some k)
    (hk : b.state.blocks.length = k + 1)
    (htake : a.state.blocks.take k = b.state.blocks.take k) :
    OrderlyRun c S (strangers now (sides a b)) ⟨now,
      sides { stranger { a with state := b.state } with
          versionSent := true, ready := true, waiting := [.announce none] }
        { stranger b with versionSent := true, ready := true }, sides [] []⟩ := by
  obtain ⟨n, hn, hkn, hpos, hfitsAnswer, -, hrun⟩ := orderlyRun_meeting ha hb hwork hcommon
  have hall : k + n = b.state.blocks.length := by omega
  have hcontinues := ha.continues hb (n := n) (by omega) htake
  have hbase : syncBase a.state none k = .ok ((b.state.blocks.take k).map Block.toJson) := by
    have hlen := congrArg List.length htake
    rw [List.length_take, List.length_take] at hlen
    have hheight : k ≤ a.state.height := by
      rw [ha.reachable.height_eq.1]
      omega
    rw [syncBase, require_true (decide_eq_true hheight), ok_bind, htake]
    rfl
  have hreceive : receiveBlocks a.state none (answer b.state k n) =
      .ok (.candidate b.state.objects) := by
    have hanswer := receiveBlocks_answer hbase hn hkn hpos hb.length_le
    rw [if_neg (by omega)] at hanswer
    exact hanswer
  have hadopt : a.considerChain c (fun _ => now) (.ok ()) (.arr b.state.objects) =
      .ok ({ a with state := b.state },
        ⟨true, b.state, some a.state.tipHash, b.state.cumulativeWork⟩) :=
    (hb.reachable.considerChain_iff hsound hwork fun _ => hb.timestamp_le).2 hb.length_le
  have hhandle : Peer.handle c now (.ok ()) { stranger a with versionSent := true, ready := true }
      (.blocks (answer b.state k n)) =
      .ok ({ stranger { a with state := b.state } with
        versionSent := true, ready := true, waiting := [.announce none] }, []) := by
    simp only [Peer.handle, stranger, require_true, ok_bind, hreceive, Peer.consider, hadopt]
    rfl
  have hdeliver : Net.step c (answered now a b k n) (.deliver false (.ok ())) = ⟨now,
      sides { stranger { a with state := b.state } with
          versionSent := true, ready := true, waiting := [.announce none] }
        { stranger b with versionSent := true, ready := true }, sides [] []⟩ :=
    Net.step_deliver_false rfl rfl rfl hfitsAnswer hhandle rfl fun m hm => by cases hm
  rw [← hdeliver]
  refine hrun.step _ (fun message hmessage => ?_) ?_
  · cases hmessage
    exact ⟨rfl, hcontinues⟩
  · rw [hdeliver]
    rintro (- | -)
    · exact hb.preimages
    · exact hb.preimages

theorem peers_stay_connected_sampleFirst : ∃ net : Net,
    (net.peer false).chain.state = sampleFirst ∧
    ∀ i, (net.peer i).closed = false ∧ .refuse ∉ (net.peer i).waiting := by
  have hgenesis : Reachable sampleCrypto sampleConsensus sampleGenesis := .genesis
  have hreach := hgenesis.accepted sampleFirst_accepts
  have hfirst : Honest sampleCrypto sampleConsensus sampleFirst.preimages 1000 sampleFirst := by
    refine ⟨hreach, subset_rfl, ?_, Nat.le_add_right _ _⟩
    rw [sampleFirst, State.next, List.length_append]
    decide
  have hempty : Honest sampleCrypto sampleConsensus sampleFirst.preimages 1000 sampleGenesis := by
    refine ⟨hgenesis, ?_, Nat.zero_le _, Nat.zero_le _⟩
    rw [sampleFirst, State.preimages_next]
    exact Set.subset_insert _ _
  have hsound : ∀ s, Reachable sampleCrypto sampleConsensus s →
      MedacChain.Sound sampleCrypto sampleConsensus.toOptions sampleConsensus
        { sampleObject with state := s } :=
    fun s hs => ⟨rfl, parseConsensusConfig_toOptions _, hs⟩
  have hwork : sampleGenesis.cumulativeWork < sampleFirst.cumulativeWork :=
    cumulativeWork_lt (applyMinedBlock_eq_ok.2
      ⟨hgenesis.valid, _, _, _, sampleFirst_accepts.readFrom_toJson, sampleFirst_accepts, rfl⟩)
  obtain ⟨k, hcommon, hk, -, htake⟩ := hgenesis.commonHeight_locator sampleFirst_injOn hreach
    hempty.preimages hfirst.preimages
  obtain rfl : k = 0 := Nat.le_zero.1 hk
  let a : MedacChain := { sampleObject with state := sampleGenesis }
  let b : MedacChain := { sampleObject with state := sampleFirst }
  have hchain : ∀ i, (sides a b i).Sound sampleCrypto sampleConsensus.toOptions
      sampleConsensus := by
    rintro (- | -)
    · exact hsound _ hgenesis
    · exact hsound _ hreach
  have hhonest : ∀ i, Honest sampleCrypto sampleConsensus sampleFirst.preimages 1000
      (sides a b i).state := by
    rintro (- | -)
    · exact hempty
    · exact hfirst
  have hrun := orderlyRun_adopted (hchain false) (hhonest false) (hhonest true) hwork hcommon rfl
    htake
  exact ⟨_, rfl, peers_stay_connected sampleFirst_injOn hchain hhonest hrun⟩

/-! ### A chain that changes at the wrong time -/

theorem commonHeight_extended {p q : State} {x y : Block} (hp : p.blocks = [x])
    (hq : q.blocks = [x, y]) (hheight : x.height = 1) (hne : y.hash ≠ x.hash) :
    commonHeight q (requestBlocks p) = some 1 := by
  have htip : p.tipAt 1 = x.hash := by
    rw [State.tipAt, hp]
    rfl
  have hlocator : requestBlocks p = .locator [x.hash, p.genesisHash] := by
    rw [requestBlocks, hp, List.length_singleton, locatorLoop, htip]
    rfl
  have hfound : (heights q).get? x.hash = some 1 := by
    rw [heights, hq, List.foldl_cons, List.foldl_cons, List.foldl_nil,
      Map.get?_set_of_ne _ _ hne, Map.get?_set_self, hheight]
  rw [hlocator, commonHeight, if_pos (by simp), List.findSome?_cons, hfound]

theorem replayBlocks_unlinked {clock : ℕ → ℕ} {y z : Block} (hne : y.previousHash ≠ z.hash) :
    replayBlocks c options clock [z.toJson, y.toJson] ≠ .ok s := by
  intro hreplay
  obtain ⟨genesis, -, hblocks⟩ := bind_eq_ok.1 hreplay
  rw [timed_cons, timed_cons] at hblocks
  obtain ⟨s₁, hfirst, hrest⟩ := foldlM_cons_eq_ok.1 hblocks
  obtain ⟨s₂, hsecond, -⟩ := foldlM_cons_eq_ok.1 hrest
  obtain ⟨-, b, reward, l, hread, -, rfl⟩ := applyMinedBlock_eq_ok.1 hfirst
  obtain ⟨-, b', reward', l', hread', haccepts', -⟩ := applyMinedBlock_eq_ok.1 hsecond
  have hhash : b.hash = z.hash := by
    have hget := hread.hash
    rw [show z.toJson.get? "hash".toList = some (.str z.hash) from rfl] at hget
    simpa using hget.symm
  have hprevious : b'.previousHash = y.previousHash := by
    have hget := hread'.previousHash
    rw [show y.toJson.get? "previousHash".toList = some (.str y.previousHash) from rfl] at hget
    simpa using hget.symm
  have hlinked := haccepts'.previousHash_eq
  rw [State.next, hhash, hprevious] at hlinked
  exact hne hlinked

/-- The first node asks, its chain changes, and the answer comes. -/
def overtaken (r : State) : List NetEvent :=
  meeting ++ [.reorganise false (.ok ()) (.arr r.objects), .deliver false (.ok ()),
    .resume false 1]

/-- **A chain that changes at the wrong time.**  A node with one block asks one that has another
block after it, and adopts a chain with two other blocks before the answer comes.  When it has put
the block of the answer after the first block of its own chain, it closes the connection. -/
theorem closed_of_overtaken {a b : MedacChain} {r : State} {x y z w : Block}
    (hsound : a.Sound c options config) (ha : Honest c config S now a.state)
    (hb : Honest c config S now b.state) (hr : Honest c config S now r)
    (hp : a.state.blocks = [x]) (hq : b.state.blocks = [x, y]) (hrblocks : r.blocks = [z, w])
    (hwork : a.state.cumulativeWork < b.state.cumulativeWork)
    (hmore : a.state.cumulativeWork < r.cumulativeWork) (hxy : y.hash ≠ x.hash)
    (hxz : x.hash ≠ z.hash) :
    (((overtaken r).foldl (Net.step c) (strangers now (sides a b))).peer false).closed = true := by
  have hheight : x.height = 1 := by
    have hall := ha.reachable.height_eq.2 0 x
    rw [hp] at hall
    exact hall rfl
  obtain ⟨n, -, hkn, hpos, hfitsAnswer, hmeeting, -⟩ :=
    orderlyRun_meeting ha hb hwork (commonHeight_extended hp hq hheight hxy)
  obtain rfl : n = 1 := by
    rw [hq] at hkn hpos
    simp only [List.length_cons, List.length_nil] at hkn hpos
    omega
  have hanswer : answer b.state 1 1 = .batch 1 [y.toJson] false 2 := by
    rw [answer, hq]
    rfl
  -- the chain changes
  have hadopt : a.considerChain c (fun _ => now) (.ok ()) (.arr r.objects) =
      .ok ({ a with state := r }, ⟨true, r, some a.state.tipHash, r.cumulativeWork⟩) :=
    (hr.reachable.considerChain_iff hsound hmore fun _ => hr.timestamp_le).2 hr.length_le
  have hreorganise : Net.step c (answered now a b 1 1)
      (.reorganise false (.ok ()) (.arr r.objects)) =
      ⟨now, sides { stranger { a with state := r } with
          versionSent := true, ready := true, waiting := [.announce none] }
        { stranger b with versionSent := true, ready := true },
        sides [.blocks (answer b.state 1 1)] []⟩ := by
    rw [Net.step_eq_act rfl rfl, Net.act_reorganise]
    simp only [answered, sides, stranger, Bool.false_eq_true, if_false, hadopt, if_true]
    exact Net.put_false rfl fun m hm => by cases hm
  -- the answer comes
  have hreceive : receiveBlocks r none (answer b.state 1 1) =
      .ok (.candidate [z.toJson, y.toJson]) := by
    have hrheight : 1 ≤ r.height := by
      rw [hr.reachable.height_eq.1, hrblocks]
      simp
    have hcheck : (1 ≤ Json.maxSafeInteger && [y.toJson].length ≤ maxBlocksPerResponse &&
        2 ≤ Json.maxSafeInteger && 1 ≤ 2 && 2 ≤ maxChainBlocks) = true := by
      rw [List.length_singleton]
      decide
    rw [hanswer, receiveBlocks, require_true hcheck, ok_bind, syncBase,
      require_true (decide_eq_true hrheight), hrblocks]
    rfl
  obtain ⟨e, hrefuse⟩ : ∃ e, ({ a with state := r } : MedacChain).considerChain c (fun _ => now)
      (.ok ()) (.arr [z.toJson, y.toJson]) = .error e := by
    cases hconsider : ({ a with state := r } : MedacChain).considerChain c (fun _ => now)
        (.ok ()) (.arr [z.toJson, y.toJson]) with
    | error e => exact ⟨e, rfl⟩
    | ok pair =>
        obtain ⟨next, result⟩ := pair
        obtain ⟨items, candidate, hitems, -, hreplay, -⟩ :=
          MedacChain.considerChain_eq_ok.1 hconsider
        cases hitems
        have hprevious : y.previousHash = x.hash := by
          have hget : b.state.blocks[1]? = some y := by rw [hq]; rfl
          have hfirst : b.state.blocks[0]? = some x := by rw [hq]; rfl
          rw [hb.reachable.previousHash_eq hget, State.tipAt_succ hfirst]
        exact absurd hreplay (replayBlocks_unlinked (hprevious ▸ hxz))
  have hhandle : Peer.handle c now (.ok ()) { stranger { a with state := r } with
      versionSent := true, ready := true, waiting := [.announce none] }
        (.blocks (answer b.state 1 1)) =
      .ok ({ stranger { a with state := r } with
        versionSent := true, ready := true, waiting := [.announce none, .refuse] }, []) := by
    simp only [Peer.handle, stranger, require_true, ok_bind, hreceive, Peer.consider, hrefuse]
    rfl
  have hdeliver : Net.step c ⟨now, sides { stranger { a with state := r } with
          versionSent := true, ready := true, waiting := [.announce none] }
        { stranger b with versionSent := true, ready := true },
        sides [.blocks (answer b.state 1 1)] []⟩ (.deliver false (.ok ())) =
      ⟨now, sides { stranger { a with state := r } with
          versionSent := true, ready := true, waiting := [.announce none, .refuse] }
        { stranger b with versionSent := true, ready := true }, sides [] []⟩ :=
    Net.step_deliver_false rfl rfl rfl hfitsAnswer hhandle rfl fun m hm => by cases hm
  rw [overtaken, List.foldl_append, hmeeting, List.foldl_cons, hreorganise, List.foldl_cons,
    hdeliver, List.foldl_cons, List.foldl_nil, Net.step_eq_act rfl rfl]
  rfl

def sampleSingle (timestamp : ℕ) : State :=
  sampleGenesis.next (sampleBlock sampleGenesis timestamp []) initialBlockReward
    sampleGenesis.ledger

def sampleDouble (timestamp timestamp' : ℕ) : State :=
  (sampleSingle timestamp).next (sampleBlock (sampleSingle timestamp) timestamp' [])
    initialBlockReward (sampleSingle timestamp).ledger

theorem sampleSingle_reachable {timestamp : ℕ} (hpos : 0 < timestamp)
    (hsafe : timestamp ≤ Json.maxSafeInteger) :
    Reachable sampleCrypto sampleConsensus (sampleSingle timestamp) :=
  Reachable.genesis.accepted (sampleBlock_accepts (by decide) (Nat.zero_le _) hpos hsafe rfl
    (Nat.zero_le _) (by simp) (.nil _) rfl)

theorem sampleDouble_reachable {timestamp timestamp' : ℕ} (hpos : 0 < timestamp)
    (hlt : timestamp < timestamp') (hsafe : timestamp' ≤ Json.maxSafeInteger) :
    Reachable sampleCrypto sampleConsensus (sampleDouble timestamp timestamp') := by
  have hsingle := sampleSingle_reachable hpos (le_trans (le_of_lt hlt) hsafe)
  have hheight : (sampleSingle timestamp).height < 2 := by
    rw [hsingle.height_eq.1, sampleSingle, State.next, List.length_append]
    exact Nat.lt_succ_self 1
  have hissued : (sampleSingle timestamp).miningIssued ≤ initialBlockReward := by
    simp only [sampleSingle, State.next, sampleGenesis, genesisState, Nat.zero_add, le_refl]
  have htarget : (sampleSingle timestamp).target = maxHash := by
    have hnext : calculateNextTarget sampleGenesis 1 timestamp = maxHash := by
      rw [calculateNextTarget, if_pos (by decide)]
      rfl
    exact hnext
  exact hsingle.accepted (sampleBlock_accepts hheight hissued hlt hsafe
    (hsingle.medianTime_lt hlt) (Nat.zero_le _) (by simp) (.nil _) htarget)

theorem sampleDouble_hash_ne :
    (sampleBlock (sampleSingle 1000) 2000 []).hash ≠ (sampleBlock sampleGenesis 1000 []).hash ∧
      (sampleBlock sampleGenesis 1000 []).hash ≠ (sampleBlock sampleGenesis 1500 []).hash := by
  simp only [sampleBlock, sampleSingle, BlockHeader.withHash, initialBlockReward_eq]
  decide +kernel

/-- **A connection that is closed.**  In the small network a node with a block that came at 1000
asks one that has another block after it, from 2000, and adopts a chain with blocks from 1500 and
2500 before the answer comes.  Both chains and the third are ones that honest nodes may have, no
store fails, and the first node closes the connection. -/
theorem peers_stay_connected_reorganised : ∃ a b : MedacChain,
    (∀ i, (sides a b i).Sound sampleCrypto sampleConsensus.toOptions sampleConsensus) ∧
    (∀ i, Honest sampleCrypto sampleConsensus Set.univ 3000 (sides a b i).state) ∧
    Honest sampleCrypto sampleConsensus Set.univ 3000 (sampleDouble 1500 2500) ∧
    (((overtaken (sampleDouble 1500 2500)).foldl (Net.step sampleCrypto)
      (strangers 3000 (sides a b))).peer false).closed = true := by
  have hsingle : Honest sampleCrypto sampleConsensus Set.univ 3000 (sampleSingle 1000) :=
    ⟨sampleSingle_reachable (by decide) (by decide), Set.subset_univ _, by
      rw [sampleSingle, State.next, List.length_append]
      decide, by
      have htime : (sampleSingle 1000).timestamp = 1000 := rfl
      rw [htime]
      decide⟩
  have hdouble : ∀ timestamp timestamp', 0 < timestamp → timestamp < timestamp' →
      timestamp' ≤ 3000 →
      Honest sampleCrypto sampleConsensus Set.univ 3000 (sampleDouble timestamp timestamp') := by
    intro timestamp timestamp' hpos hlt hle
    have hsafe : timestamp' ≤ Json.maxSafeInteger := le_trans hle (by decide)
    refine ⟨sampleDouble_reachable hpos hlt hsafe, Set.subset_univ _, ?_, ?_⟩
    · have hlen : (sampleDouble timestamp timestamp').blocks.length = 2 := rfl
      rw [hlen]
      decide
    · have htime : (sampleDouble timestamp timestamp').timestamp = timestamp' := rfl
      rw [htime]
      exact le_trans hle (Nat.le_add_right _ _)
  have hsound : ∀ s, Reachable sampleCrypto sampleConsensus s →
      MedacChain.Sound sampleCrypto sampleConsensus.toOptions sampleConsensus
        { sampleObject with state := s } :=
    fun s hs => ⟨rfl, parseConsensusConfig_toOptions _, hs⟩
  have hwork : ∀ timestamp timestamp', 0 < timestamp → timestamp < timestamp' →
      timestamp' ≤ 3000 → (sampleSingle 1000).cumulativeWork <
        (sampleDouble timestamp timestamp').cumulativeWork := by
    intro timestamp timestamp' hpos hlt hle
    have hsame : (sampleSingle 1000).cumulativeWork = (sampleSingle timestamp).cumulativeWork := rfl
    have hsum : (sampleDouble timestamp timestamp').cumulativeWork =
        (sampleSingle timestamp).cumulativeWork + blockWork (sampleSingle timestamp).target := rfl
    have hsingle' := sampleSingle_reachable hpos
      (le_trans (le_of_lt hlt) (le_trans hle (by decide)))
    have hone : 1 ≤ blockWork (sampleSingle timestamp).target :=
      one_le_blockWork (le_trans hsingle'.valid.target_le
        (sampleSingle timestamp).consensus.maxTarget_le)
    rw [hsame, hsum]
    omega
  have hb := hdouble 1000 2000 (by decide) (by decide) (by decide)
  have hr := hdouble 1500 2500 (by decide) (by decide) (by decide)
  refine ⟨{ sampleObject with state := sampleSingle 1000 },
    { sampleObject with state := sampleDouble 1000 2000 }, ?_, ?_, hr, ?_⟩
  · rintro (- | -)
    · exact hsound _ hsingle.reachable
    · exact hsound _ hb.reachable
  · rintro (- | -)
    · exact hsingle
    · exact hb
  · exact closed_of_overtaken (hsound _ hsingle.reachable) hsingle hb hr rfl rfl rfl
      (hwork 1000 2000 (by decide) (by decide) (by decide))
      (hwork 1500 2500 (by decide) (by decide) (by decide))
      sampleDouble_hash_ne.1 sampleDouble_hash_ne.2

end Medac
