/-
**Runs of the C++ node.**

A node starts on fresh databases, where its constructor finds no block, and from then on adds
blocks; calls that fail are part of a run.

Main definitions:

* `Node.Blockchain.fresh` — the object on fresh databases, before its first block;
* `Node.Blockchain.Reachable` — the states of its runs.

Main results:

* `Node.Blockchain.Reachable.coins` — what is unspent was created by a block of the chain;
* `Node.Blockchain.Reachable.coinbase` — **a block with a reward begins with the coinbase of its
  reward, its miner and the owner**.
-/

import MedorCoin.Node.Application

set_option autoImplicit false

namespace Node

open Cpp

namespace Blockchain

/-- The object on fresh databases, as the constructor leaves it before it adds the first block. -/
def fresh (U : UtxoSet) (cfg : Config) : Blockchain U :=
  { Blockchain.initial U cfg Js.Map.empty {} with baseFeePerGas := cfg.initialBaseFee }

/-- **The states of the runs of a node**; the constructor refuses a configuration without owner. -/
inductive Reachable {U : UtxoSet} (E : Secp256k1) (cfg : Config) : Blockchain U → Prop
  | fresh : cfg.ownerAddress ≠ [] → Reachable E cfg (fresh U cfg)
  | addBlock {s : Blockchain U} (c : Call) : Reachable E cfg s → Reachable E cfg (s.addBlock E c).2

variable {U : UtxoSet} {E : Secp256k1} {cfg : Config} {s : Blockchain U}

theorem addBlock_cases (E : Secp256k1) (s : Blockchain U) (c : Call) :
    s.addBlock E c = (false, s) ∨
      (∃ block, Written E s c block ∧ (s.applied c block).1 = false ∧
        s.addBlock E c = (false, s.rolledBack c block)) ∨
      ∃ block, Written E s c block ∧ (s.applied c block).1 = true ∧
        s.addBlock E c = (true, s.committed c block) := by
  cases hwritten : s.writtenBlock E c with
  | none => exact Or.inl (addBlock_of_rejected hwritten)
  | some block =>
      have hspec := writtenBlock_spec hwritten
      cases happlied : (s.applied c block).1 with
      | false =>
          exact Or.inr (Or.inl ⟨block, hspec, happlied, addBlock_of_failed hwritten happlied⟩)
      | true =>
          exact Or.inr (Or.inr ⟨block, hspec, happlied, addBlock_of_applied hwritten happlied⟩)

@[elab_as_elim] theorem Reachable.induct {P : Blockchain U → Prop} (h : Reachable E cfg s)
    (hfresh : cfg.ownerAddress ≠ [] → P (Blockchain.fresh U cfg))
    (hrolled : ∀ s c block, Reachable E cfg s → P s → Written E s c block →
      (s.applied c block).1 = false → P (s.rolledBack c block))
    (hcommitted : ∀ s c block, Reachable E cfg s → P s → Written E s c block →
      (s.applied c block).1 = true → P (s.committed c block)) : P s := by
  induction h with
  | fresh howner => exact hfresh howner
  | @addBlock s c hs ih =>
      rcases addBlock_cases E s c with h | ⟨block, hwritten, happlied, h⟩ |
        ⟨block, hwritten, happlied, h⟩
      · rw [h]
        exact ih
      · rw [h]
        exact hrolled s c block hs ih hwritten happlied
      · rw [h]
        exact hcommitted s c block hs ih hwritten happlied

theorem Reachable.owner (h : Reachable E cfg s) : cfg.ownerAddress ≠ [] := by
  induction h with
  | fresh howner => exact howner
  | addBlock c _ ih => exact ih

theorem Reachable.cfg_eq (h : Reachable E cfg s) : s.cfg = cfg := by
  refine Reachable.induct h ?_ ?_ ?_
  · exact fun _ => rfl
  · exact fun _ _ _ _ ih _ _ => ih
  · intro s c block _ ih _ _
    rw [committed_cfg, ih]

theorem Reachable.coins (h : Reachable E cfg s) :
    ∀ o ∈ U.coins s.utxoSet, ∃ b ∈ s.chain, ∃ tx ∈ b.transactions, o ∈ tx.outpoints := by
  refine Reachable.induct h ?_ ?_ ?_
  · exact fun _ o ho => absurd ho not_mem_coins_fresh
  · exact fun s c block _ ih _ _ o ho => ih o (mem_coins_rollback ho).1
  · intro s c block _ ih _ _ o ho
    rw [committed_utxoSet] at ho
    rw [committed_chain]
    rcases mem_coins_apply ho with ho | ho
    · obtain ⟨b, hb, tx, htx, ho⟩ := ih o ho
      exact ⟨b, List.mem_append_left _ hb, tx, htx, ho⟩
    · obtain ⟨tx, htx, ho⟩ := Block.mem_outpoints.1 ho
      exact ⟨block, List.mem_append_right _ (List.mem_singleton_self _), tx, htx, ho⟩

theorem Written.fields {c : Call} {block : Block} (h : Written E s c block) :
    block.reward = s.cappedReward c.rewardTime ∧ block.minerAddress = c.minerAddr ∧
      block.timestamp = c.stampTime ∧ block.gasUsed = 0 := by
  obtain ⟨nonce, rfl⟩ := h.eq_withNonce
  exact ⟨rfl, rfl, rfl, rfl⟩

/-- **A block with a reward begins with the coinbase of its reward, its miner and the owner.** -/
theorem Reachable.coinbase (h : Reachable E cfg s) :
    ∀ b ∈ s.chain, 0 < b.reward →
      ∃ txs, b.transactions = coinbaseTx b.reward b.minerAddress cfg.ownerAddress :: txs := by
  refine Reachable.induct h ?_ ?_ ?_
  · exact fun _ b hb => absurd hb List.not_mem_nil
  · exact fun _ _ _ _ ih _ _ => ih
  · intro s c block hs ih hwritten _ b hb hpos
    rw [committed_chain] at hb
    rcases List.mem_append.1 hb with hb | hb
    · exact ih b hb hpos
    · rw [List.mem_singleton.1 hb] at hpos ⊢
      obtain ⟨hreward, hminer, -, -⟩ := hwritten.fields
      rw [hreward] at hpos
      refine ⟨c.transactions, ?_⟩
      rw [hwritten.transactions, blockTransactions_of_pos hpos, hreward, hminer, hs.cfg_eq]

end Blockchain

end Node
