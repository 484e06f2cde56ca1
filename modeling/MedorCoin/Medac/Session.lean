/-
**A session between two nodes at rest.**

While neither chain changes, a node asks, its peer answers, and so on until the node has put
together a candidate.  Every answer but the last has a block, so the session ends; and what has been
put together is at every moment the beginning of the peer's chain, up to where the last answer
ended.

Main definitions:

* `Medac.session` — the exchange.

Main results:

* `Medac.receiveBlocks_answer` — what an honest answer comes to;
* `Medac.session_eq` — the exchange from any moment on;
* `Medac.quiescent_sync` — **a session reconstructs the peer's chain**;
* `Medac.quiescent_sync_long` — unless it has more blocks than a chain may have.
-/

import MedorCoin.Medac.LongChain

set_option autoImplicit false

namespace Medac

open Js

/-- **The exchange** between a node with the chain `a`, which asks, and one with the chain `b`,
which answers: from a question and what the node has put together, for at most `n` answers.  It
fails where one of the two closes the connection. -/
def session (a b : State) : ℕ → Option (List Json) → Request → Except Error (Option (List Json))
  | 0, _, _ => .ok none
  | n + 1, sync, request => do
      let response ← serveBlocks b request
      match ← receiveBlocks a sync response with
      | .restarted => session a b n none (requestBlocks a)
      | .more sync request => session a b n (some sync) request
      | .candidate blocks => return some blocks

variable {c : Crypto} {config config₁ config₂ : Consensus} {a b s : State} {S : Set Str}

theorem session_succ (a b : State) (n : ℕ) (sync : Option (List Json)) (request : Request) :
    session a b (n + 1) sync request = (do
      let response ← serveBlocks b request
      match ← receiveBlocks a sync response with
      | .restarted => session a b n none (requestBlocks a)
      | .more sync request => session a b n (some sync) request
      | .candidate blocks => return some blocks) := rfl

/-! ### One answer -/

theorem lastHash_take {k : ℕ} (hpos : 1 ≤ k) (hk : k ≤ b.blocks.length) :
    lastHash s ((b.blocks.take k).map Block.toJson) = some (b.tipAt k) := by
  obtain ⟨k, rfl⟩ : ∃ m, k = m + 1 := ⟨k - 1, by omega⟩
  have hlast := List.getElem?_eq_getElem hk
  have htake : (b.blocks.take (k + 1)).map Block.toJson =
      (b.blocks.take k).map Block.toJson ++ [(b.blocks[k]).toJson] := by
    rw [List.take_add_one, hlast, List.map_append]
    rfl
  rw [htake, lastHash, List.getLast?_append, b.tipAt_succ hlast]
  rfl

/-- **What an honest answer comes to**, if the blocks to which it is added are the ones before
it. -/
theorem receiveBlocks_answer {sync : Option (List Json)} {k n : ℕ}
    (hbase : syncBase s sync k = .ok ((b.blocks.take k).map Block.toJson))
    (hn : n ≤ maxBlocksPerResponse) (hkn : k + n ≤ b.blocks.length)
    (hpos : k < b.blocks.length → 1 ≤ n) (hlen : b.blocks.length ≤ maxChainBlocks) :
    receiveBlocks s sync (.batch k (((b.blocks.drop k).take n).map Block.toJson)
        (k + n < b.blocks.length) b.blocks.length) =
      .ok (if k + n < b.blocks.length then
        .more ((b.blocks.take (k + n)).map Block.toJson) (.after (some (b.tipAt (k + n))))
      else .candidate (b.blocks.map Block.toJson)) := by
  have hsafe : maxChainBlocks ≤ Json.maxSafeInteger := by decide
  have hbatch : (((b.blocks.drop k).take n).map Block.toJson).length = n := by
    rw [List.length_map, List.length_take, List.length_drop]
    omega
  have hjoin : (b.blocks.take k).map Block.toJson ++ ((b.blocks.drop k).take n).map Block.toJson =
      (b.blocks.take (k + n)).map Block.toJson := by
    rw [← List.map_append, List.take_add]
  have hjoined : ((b.blocks.take (k + n)).map Block.toJson).length = k + n := by
    rw [List.length_map, List.length_take, Nat.min_eq_left hkn]
  have hcheck : (k ≤ Json.maxSafeInteger &&
      (((b.blocks.drop k).take n).map Block.toJson).length ≤ maxBlocksPerResponse &&
      b.blocks.length ≤ Json.maxSafeInteger && k ≤ b.blocks.length &&
      b.blocks.length ≤ maxChainBlocks) = true := by
    simp only [Bool.and_eq_true, decide_eq_true_eq, hbatch]
    omega
  rw [receiveBlocks, require_true hcheck, ok_bind, hbase, ok_bind, hjoin, hjoined]
  have hlimit : k + n ≤ maxChainBlocks := by omega
  by_cases hmore : k + n < b.blocks.length
  · have hone := hpos (by omega)
    have hne : (!((((b.blocks.drop k).take n).map Block.toJson).isEmpty &&
        decide (k + n < b.blocks.length))) = true := by
      have hempty : (((b.blocks.drop k).take n).map Block.toJson).isEmpty = false := by
        rw [List.isEmpty_eq_false_iff, ← List.length_pos_iff, hbatch]
        exact hone
      rw [hempty]
      rfl
    rw [require_true hne, ok_bind, require_true (decide_eq_true hlimit), ok_bind,
      lastHash_take (by omega) hkn]
    simp only [hmore, decide_true, if_true]
    rfl
  · have hne : (!((((b.blocks.drop k).take n).map Block.toJson).isEmpty &&
        decide (k + n < b.blocks.length))) = true := by
      rw [decide_eq_false hmore, Bool.and_false]
      rfl
    have hall : k + n = b.blocks.length := by omega
    rw [require_true hne, ok_bind, require_true (decide_eq_true hlimit), ok_bind]
    simp only [hmore, decide_false, if_false, Bool.false_eq_true]
    rw [require_true (decide_eq_true hall), ok_bind, hall, List.take_length]
    rfl

/-! ### The whole exchange -/

/-- **The exchange from any moment on.**  What has been put together is the beginning of the peer's
chain, up to the height after which the next answer starts; the induction is on the number of
answers, each of which but the last has a block. -/
theorem session_eq {n k : ℕ} {sync : Option (List Json)} {request : Request}
    (hinj : Set.InjOn c.sha256 S) (hb : Reachable c config b) (hS : b.preimages ⊆ S)
    (hservable : Servable b) (hlen : b.blocks.length ≤ maxChainBlocks)
    (hcommon : commonHeight b request = some k) (hk : k ≤ b.blocks.length)
    (hbase : syncBase a sync k = .ok ((b.blocks.take k).map Block.toJson))
    (hn : b.blocks.length - k < n) :
    session a b n sync request = .ok (some (b.blocks.map Block.toJson)) := by
  induction n generalizing k sync request with
  | zero => exact absurd hn (Nat.not_lt_zero _)
  | succ n ih =>
      obtain ⟨response, hresponse⟩ := exists_serveBlocks hservable request
      obtain ⟨m, hm, hkm, hpos, rfl⟩ := serveBlocks_eq hk hcommon hresponse
      rw [session_succ, hresponse, ok_bind, receiveBlocks_answer hbase hm hkm hpos hlen, ok_bind]
      by_cases hmore : k + m < b.blocks.length
      · have hone := hpos (by omega)
        rw [if_pos hmore]
        exact ih (hb.commonHeight_after hinj hS hkm) hkm rfl (by omega)
      · rw [if_neg hmore]
        rfl

theorem Reachable.consensus_unique (hinj : Set.InjOn c.sha256 S) (ha : Reachable c config₁ a)
    (hb : Reachable c config₂ b) (haS : a.preimages ⊆ S) (hbS : b.preimages ⊆ S)
    (hgenesis : a.genesisHash = b.genesisHash) : config₁ = config₂ := by
  have hatext : genesisText config₁ ∈ S := by
    rw [← ha.consensus_eq]
    exact haS a.genesisText_mem
  have hbtext : genesisText config₂ ∈ S := by
    rw [← hb.consensus_eq]
    exact hbS b.genesisText_mem
  rw [ha.genesisHash_eq, hb.genesisHash_eq] at hgenesis
  exact genesisPreimage_injective (hinj hatext hbtext hgenesis)

/-- **A session reconstructs the peer's chain.**  Two nodes of one network have chains on whose
texts SHA-256 has no collision, every block of the second fits into an answer, and there are not
more of them than a chain may have.  The height at which the first answer starts is one up to which
the two have the same blocks; and after at most one more answer than the second chain has blocks
the first node hands over a candidate, the blocks of that chain. -/
theorem quiescent_sync (hinj : Set.InjOn c.sha256 (a.preimages ∪ b.preimages))
    (ha : Reachable c config₁ a) (hb : Reachable c config₂ b)
    (hgenesis : a.genesisHash = b.genesisHash) (hservable : Servable b)
    (hlen : b.blocks.length ≤ maxChainBlocks) :
    (∃ k, commonHeight b (requestBlocks a) = some k ∧ k ≤ a.blocks.length ∧
      k ≤ b.blocks.length ∧ a.blocks.take k = b.blocks.take k) ∧
    ∀ n, b.blocks.length < n →
      session a b n none (requestBlocks a) = .ok (some (b.blocks.map Block.toJson)) := by
  obtain rfl := ha.consensus_unique hinj hb Set.subset_union_left Set.subset_union_right hgenesis
  obtain ⟨k, hcommon, hka, hkb, htake⟩ :=
    ha.commonHeight_locator hinj hb Set.subset_union_left Set.subset_union_right
  refine ⟨⟨k, hcommon, hka, hkb, htake⟩, fun n hn => ?_⟩
  have hbase : syncBase a none k = .ok ((b.blocks.take k).map Block.toJson) := by
    have hheight : k ≤ a.height := by
      rw [ha.height_eq.1]
      exact hka
    rw [syncBase, require_true (decide_eq_true hheight), ok_bind, htake]
    rfl
  exact session_eq hinj hb Set.subset_union_right hservable hlen hcommon hkb hbase (by omega)

theorem quiescent_sync_sampleFirst :
    session sampleGenesis sampleFirst 2 none (requestBlocks sampleGenesis) =
      .ok (some [(sampleBlock sampleGenesis 1000 []).toJson]) := by
  have hgenesis : Reachable sampleCrypto sampleConsensus sampleGenesis := .genesis
  have hfirst : Reachable sampleCrypto sampleConsensus sampleFirst :=
    hgenesis.accepted sampleFirst_accepts
  have hpreimages : sampleGenesis.preimages ∪ sampleFirst.preimages = sampleFirst.preimages := by
    rw [sampleFirst, State.preimages_next, Set.union_eq_right]
    exact Set.subset_insert _ _
  have hinj : Set.InjOn sampleCrypto.sha256
      (sampleGenesis.preimages ∪ sampleFirst.preimages) := by
    rw [hpreimages]
    exact sampleFirst_injOn
  exact (quiescent_sync hinj hgenesis hfirst rfl hfirst.servable (by decide)).2 2 (by decide)

/-- **A chain with too many blocks is not reconstructed.**  There is a chain of the small network,
one block longer than a chain may be and each block short, that a node without blocks never puts
together: the first answer makes it close the connection. -/
theorem quiescent_sync_long : ∃ b, Reachable sampleCrypto sampleConsensus b ∧ Servable b ∧
    b.blocks.length = maxChainBlocks + 1 ∧
    ∀ n, session sampleGenesis b (n + 1) none (requestBlocks sampleGenesis) =
      .error (.error "Invalid MEDAC block batch") := by
  obtain ⟨b, hb, hlen⟩ := exists_sparse (n := maxChainBlocks + 1) (by decide)
  refine ⟨b, hb.reachable, hb.reachable.servable, hlen, fun n => ?_⟩
  -- the only hash that the node can name is the genesis hash, which its peer knows
  obtain ⟨k, hcommon, hk⟩ : ∃ k, commonHeight b (requestBlocks sampleGenesis) = some k ∧
      k ≤ b.blocks.length := by
    have hgenesis : sampleGenesis.genesisHash = b.genesisHash := hb.reachable.genesisHash_eq.symm
    have hlocator : commonHeight b (requestBlocks sampleGenesis) =
        [sampleGenesis.genesisHash].findSome? (heights b).get? := rfl
    obtain ⟨hnone, hsome⟩ := hb.reachable.get?_heights sampleGenesis.genesisHash
    rw [hlocator, List.findSome?_singleton]
    cases hget : (heights b).get? sampleGenesis.genesisHash with
    | none => exact absurd hgenesis (hnone hget)
    | some k => exact ⟨k, rfl, (hsome k hget).1⟩
  obtain ⟨response, hresponse⟩ :=
    exists_serveBlocks hb.reachable.servable (requestBlocks sampleGenesis)
  obtain ⟨m, -, -, -, rfl⟩ := serveBlocks_eq hk hcommon hresponse
  have htoo : decide (b.blocks.length ≤ maxChainBlocks) = false := by
    rw [hlen]
    exact decide_eq_false (by omega)
  rw [session_succ, hresponse, ok_bind, receiveBlocks, htoo, Bool.and_false]
  rfl

end Medac
