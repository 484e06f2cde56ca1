/-
**Long chains.**

The limits of the program are on the number of blocks, the size of a message and the size of the
journal.  This module has the sizes of the texts in which blocks are sent and stored, and chains of
the small network that are as long as one likes: empty blocks, a thousand seconds apart.

Main definitions:

* `Medac.Sparse` — chains of empty blocks a thousand seconds apart.

Main results:

* `Medac.Reachable.servable` — **every block of a chain fits into an answer**;
* `Medac.exists_sparse_calls` — **there are chains of any length**.
-/

import MedorCoin.Medac.Journal
import MedorCoin.Medac.Sync

set_option autoImplicit false

namespace Medac

open Js

variable {c : Crypto} {now : ℕ} {s : State} {b : Block} {reward : ℕ} {l : Ledger}

/-! ### Sizes -/

theorem length_intText_le {n k : ℕ} (hk : 0 < k) (hn : n < 10 ^ k) :
    (Json.intText n).length ≤ k := by
  rw [Json.intText, if_neg (by omega), Int.natAbs_natCast]
  exact (length_numeral_le_iff hk).2 hn

theorem length_safe_le {n : ℕ} (hn : n ≤ Json.maxSafeInteger) : (Json.intText n).length ≤ 16 := by
  have hsmall : n < 10 ^ 16 := lt_of_le_of_lt hn (by decide)
  exact length_intText_le (by decide) hsmall

theorem length_lowerPrefixedHex {n : ℕ} {text : Str} (h : isLowerPrefixedHex n text) :
    text.length = n + 2 := by
  simp only [Bool.and_eq_true, isLowerPrefixedHex, beq_iff_eq] at h
  obtain ⟨hpre, hhex⟩ := h
  have hdrop := (isLowerHex_iff.1 hhex).1
  have htake := congrArg List.length hpre
  simp only [List.length_take, List.length_drop, List.length_cons, List.length_nil] at hdrop htake
  omega

theorem length_address (a : Address) : a.val.length = 42 := by
  have hproperty := a.property
  rw [Bool.and_eq_true] at hproperty
  exact length_lowerPrefixedHex hproperty.1

theorem length_stringify_arr_le {items : List Json} {k : ℕ}
    (h : ∀ v ∈ items, (Json.stringify v).length ≤ k) :
    (Json.stringify (.arr items)).length ≤ (k + 1) * items.length + 2 := by
  have hitems : ∀ l : List Json, (∀ v ∈ l, (Json.stringify v).length ≤ k) →
      (Json.stringifyItems l).length ≤ (k + 1) * l.length + 1 := by
    intro l hl
    induction l with
    | nil => simp [Json.stringifyItems]
    | cons v l ih =>
        have hv := hl v List.mem_cons_self
        have hrest := ih fun v' hv' => hl v' (List.mem_cons_of_mem v hv')
        rw [Json.stringifyItems, List.length_cons, List.length_append, List.length_cons,
          Nat.mul_succ]
        omega
  cases items with
  | nil => simp [Json.stringify]
  | cons v l =>
      have hv := h v List.mem_cons_self
      have hrest := hitems l fun v' hv' => h v' (List.mem_cons_of_mem v hv')
      rw [Json.stringify, List.length_cons, List.length_append, List.length_cons, Nat.mul_succ]
      omega

theorem Transaction.length_stringify_le (t : Transaction) :
    (Json.stringify t.toJson).length ≤ 3000 := by
  have hkeys : (Json.quote "genesisHash".toList).length + (Json.quote "from".toList).length +
      (Json.quote "to".toList).length + (Json.quote "nonce".toList).length +
      (Json.quote "amount".toList).length + (Json.quote "fee".toList).length +
      (Json.quote "signature".toList).length ≤ 100 := by
    decide +kernel
  have hgenesis := length_quote_le t.genesisHash
  rw [(isLowerHex_iff.1 t.genesisHash_hex).1] at hgenesis
  have hsender := length_quote_le t.sender.val
  have hrecipient := length_quote_le t.recipient.val
  rw [length_address] at hsender hrecipient
  have hnonce := length_safe_le (le_of_lt t.nonce_lt)
  have hamount := length_quote_le t.amount
  have hfee := length_quote_le t.fee
  have hdigits : maxAmountDigits ≤ 30 := by decide +kernel
  have hamountLength := le_trans t.amount_numeral.2 hdigits
  have hfeeLength := le_trans t.fee_numeral.2 hdigits
  have hsignature := length_quote_le t.signature.val
  rw [length_lowerPrefixedHex t.signature.property] at hsignature
  simp only [Transaction.toJson, Address.toJson, Signature.toJson, Json.stringify,
    Json.stringifyMembers, List.length_cons, List.length_append, List.length_nil]
  omega

/-- **The text of a block is short enough for a message.** -/
theorem State.Accepts.length_stringify_le (hs : s.Valid c) (h : s.Accepts c now b reward l) :
    (Json.stringify b.toJson).length ≤ 400000 := by
  have hkeys : (Json.quote "height".toList).length + (Json.quote "previousHash".toList).length +
      (Json.quote "timestamp".toList).length + (Json.quote "nonce".toList).length +
      (Json.quote "minerAddress".toList).length + (Json.quote "reward".toList).length +
      (Json.quote "target".toList).length + (Json.quote "transactions".toList).length +
      (Json.quote "hash".toList).length ≤ 200 := by
    decide +kernel
  have hheight := length_safe_le h.height_le
  have htimestamp := length_safe_le h.timestamp_safe
  have hprevious := length_quote_le b.previousHash
  rw [h.previousHash_eq, (isLowerHex_iff.1 hs.tipHash_hex).1, ← h.previousHash_eq] at hprevious
  have hnonce := length_quote_le b.nonce
  have hnonceLength : b.nonce.length ≤ 16 := by
    have hnonce' := h.nonce
    simp only [isBlockNonce, Bool.and_eq_true, decide_eq_true_eq] at hnonce'
    exact hnonce'.1.2
  have hminer := length_quote_le b.minerAddress.val
  rw [length_address] at hminer
  have hreward := length_quote_le b.reward
  have hrewardLength : b.reward.length ≤ 30 := by
    rw [h.reward_eq, length_numeral_le_iff (by decide)]
    have hle := h.reward_le hs
    have hreserve : miningReserve < 10 ^ 30 := by decide +kernel
    omega
  have htarget := length_quote_le b.target
  have htargetLength : b.target.length ≤ 80 := by
    rw [h.target_eq, length_numeral_le_iff (by decide)]
    have hle := le_trans hs.target_le s.consensus.maxTarget_le
    have hmax : maxHash < 10 ^ 80 := by decide +kernel
    omega
  have htransactions : (Json.stringify (.arr (b.transactions.map Transaction.toJson))).length ≤
      3001 * 100 + 2 := by
    have hitems :
        ∀ v ∈ b.transactions.map Transaction.toJson, (Json.stringify v).length ≤ 3000 := by
      intro v hv
      obtain ⟨t, -, rfl⟩ := List.mem_map.1 hv
      exact t.length_stringify_le
    have hlen : (b.transactions.map Transaction.toJson).length ≤ 100 := by
      rw [List.length_map]
      exact h.length_transactions
    have harr := length_stringify_arr_le hitems
    omega
  have hhash := length_quote_le b.hash
  rw [(isLowerHex_iff.1 h.hash_hex).1] at hhash
  simp only [Block.toJson, Address.toJson, Json.stringify, Json.stringifyMembers,
    List.length_cons, List.length_append, List.length_nil]
  omega

theorem batchBytes_le {i : ℕ} (hshort : (Json.stringify b.toJson).length ≤ 400000)
    (hi : i ≤ Json.maxSafeInteger) (hlen : s.blocks.length ≤ Json.maxSafeInteger) :
    batchBytes s i [b] ≤ maxMessageBytes := by
  have hkeys : (Json.quote "type".toList).length + (Json.quote "blocks".toList).length +
      (Json.quote "commonHeight".toList).length + (Json.quote "blocks".toList).length +
      (Json.quote "more".toList).length + (Json.quote "tipHeight".toList).length ≤ 100 := by
    decide +kernel
  have hcommon := length_safe_le hi
  have htip := length_safe_le hlen
  have hmore : ∀ more, (Json.stringify (.bool more)).length ≤ 5 := by
    rintro (- | -) <;> decide
  have hmore' := hmore (i + 1 < s.blocks.length)
  have htext : (Json.stringify (batchJson i [b.toJson] (i + 1 < s.blocks.length)
      s.blocks.length)).length ≤ 401000 := by
    simp only [batchJson, Json.stringify, Json.stringifyMembers, Json.stringifyItems,
      List.length_cons, List.length_append, List.length_nil] at hmore' ⊢
    omega
  refine le_trans (byteLength_le _) ?_
  have hbound : 4 * 401000 ≤ maxMessageBytes := by decide
  exact le_trans (Nat.mul_le_mul_left 4 htext) hbound

/-- **Every block of a chain fits into an answer.** -/
theorem Reachable.servable {config : Consensus} (h : Reachable c config s) : Servable s := by
  have hshort : ∀ b ∈ s.blocks, (Json.stringify b.toJson).length ≤ 400000 := by
    refine h.induction
      (P := fun s => ∀ b ∈ s.blocks, (Json.stringify b.toJson).length ≤ 400000) ?_ ?_
    · intro b hb
      simp [genesisState] at hb
    · intro s now b reward l _ hvalid haccepts ih b' hb'
      rcases List.mem_append.1 hb' with hold | hnew
      · exact ih b' hold
      · rw [List.mem_singleton.1 hnew]
        exact haccepts.length_stringify_le hvalid
  intro i b hb
  obtain ⟨hlt, -⟩ := List.getElem?_eq_some_iff.1 hb
  have hheight := h.height_eq.1
  have hle := h.valid.height_le
  exact batchBytes_le (hshort b (List.mem_of_getElem? hb)) (by omega) (by omega)

/-! ### Chains of any length -/

/-- A chain of empty blocks of the small network, a thousand seconds apart. -/
structure Sparse (s : State) : Prop where
  reachable : Reachable sampleCrypto sampleConsensus s
  target_eq : s.target = maxHash
  timestamp_eq : s.timestamp = 1000 * s.blocks.length
  timestamps : ∀ i b, s.blocks[i]? = some b → b.timestamp = 1000 * (i + 1)

namespace Sparse

theorem genesis : Sparse sampleGenesis where
  reachable := .genesis
  target_eq := rfl
  timestamp_eq := rfl
  timestamps := fun i b hb => by simp [sampleGenesis, genesisState] at hb

theorem calculateNextTarget_eq (h : Sparse s) :
    calculateNextTarget s (s.height + 1) (1000 * (s.blocks.length + 1)) = maxHash := by
  have hconsensus : s.consensus = sampleConsensus := h.reachable.consensus_eq
  have hheight := h.reachable.height_eq.1
  have hwindow : s.consensus.retargetWindow = 20 := by rw [hconsensus]; rfl
  have hspan : s.consensus.expectedSpan = 1140 := by rw [hconsensus]; rfl
  have hmax : s.consensus.maxTarget = maxHash := by rw [hconsensus]; rfl
  rw [calculateNextTarget, hwindow, hspan, hmax, h.target_eq]
  by_cases hretarget : (s.height + 1) % 20 = 0
  · -- the window starts at the block nineteen before the next one
    have hge : 19 ≤ s.blocks.length := by omega
    have hanchor : s.anchor = 1000 * (s.blocks.length - 19 + 1) := by
      rw [State.anchor, hwindow, if_pos (by omega)]
      have hlt : s.blocks.length - (20 - 1) < s.blocks.length := by omega
      rw [List.getElem?_eq_getElem hlt]
      exact h.timestamps _ _ (List.getElem?_eq_getElem hlt)
    have hactual : 1140 ≤ max (1140 / retargetFactor)
        (min (max 1 (1000 * (s.blocks.length + 1) - s.anchor)) (1140 * retargetFactor)) := by
      rw [hanchor, retargetFactor]
      omega
    have hle := (Nat.le_div_iff_mul_le (by decide)).2 (Nat.mul_le_mul_left maxHash hactual)
    have hpos : 1 ≤ maxHash := sampleConsensus.one_le_initialTarget
    rw [if_neg (not_not.2 hretarget)]
    dsimp only
    rw [if_neg (not_lt.2 (le_trans hpos hle))]
    split_ifs <;> omega
  · rw [if_pos hretarget]

/-- **One more block.** -/
theorem exists_next (h : Sparse s) (hlen : s.blocks.length < 1000000000) :
    ∃ s', Sparse s' ∧ s'.blocks.length = s.blocks.length + 1 ∧
      ∃ now block, applyMinedBlock sampleCrypto now s block = .ok s' := by
  have hvalid := h.reachable.valid
  have hheight := h.reachable.height_eq.1
  have hsafe : 1000 * 1000000000 ≤ Json.maxSafeInteger := by decide
  obtain ⟨reward, hreward⟩ : ∃ reward,
      calculateBlockReward (s.height + 1) s.miningIssued = .ok reward :=
    ⟨_, calculateBlockReward_eq (by omega) (by omega) hvalid.miningIssued_le⟩
  obtain ⟨header, hprepare⟩ : ∃ header,
      prepareBlock s sampleMiner (1000 * (s.blocks.length + 1)) [] 0 = .ok header := by
    rw [prepareBlock, hreward]
    exact ⟨_, rfl⟩
  obtain ⟨hnumber, htimestamp⟩ : header.height = s.height + 1 ∧
      header.timestamp = 1000 * (s.blocks.length + 1) := by
    rw [prepareBlock, hreward, ok_bind, pure_eq_ok, Except.ok.injEq] at hprepare
    subst hprepare
    exact ⟨rfl, rfl⟩
  have hlt : s.timestamp < 1000 * (s.blocks.length + 1) := by
    rw [h.timestamp_eq]
    omega
  have hwork : hexValue (header.withHash sampleCrypto s.genesisHash).hash ≤ s.target := by
    rw [h.target_eq]
    exact hexValue_le_maxHash (Sha256.isLowerHex_hex _)
  have haccepts : s.Accepts sampleCrypto (1000 * (s.blocks.length + 1))
      (header.withHash sampleCrypto s.genesisHash) reward s.ledger :=
    accepts_prepareBlock (by omega) hlt (by omega) (Nat.le_add_right _ _)
      (h.reachable.medianTime_lt hlt) (Nat.zero_le _) (Nat.zero_le _) (by simp) (.nil _) hreward
      hprepare hwork
  refine ⟨s.next (header.withHash sampleCrypto s.genesisHash) reward s.ledger, ?_, ?_, _, _,
    applyMinedBlock_eq_ok.2 ⟨hvalid, _, _, _, haccepts.readFrom_toJson, haccepts, rfl⟩⟩
  · refine ⟨h.reachable.accepted haccepts, ?_, ?_, ?_⟩
    · change calculateNextTarget s header.height header.timestamp = maxHash
      rw [hnumber, htimestamp]
      exact h.calculateNextTarget_eq
    · change header.timestamp = 1000 * (s.blocks ++ [_]).length
      rw [htimestamp, List.length_append, List.length_singleton]
    · intro i b hb
      rw [State.next] at hb
      rcases Nat.lt_or_ge i s.blocks.length with hold | hnew
      · rw [List.getElem?_append_left hold] at hb
        exact h.timestamps i b hb
      · rw [List.getElem?_append_right hnew, List.getElem?_singleton] at hb
        split at hb
        · next hi =>
            cases hb
            change header.timestamp = _
            rw [htimestamp]
            omega
        · cases hb
  · rw [State.next, List.length_append, List.length_singleton]

end Sparse

/-- **There are chains of any length**, made by as many calls of `appendBlock` on an object without
a store. -/
theorem exists_sparse_calls {n : ℕ} (hn : n ≤ 1000000000) : ∃ calls : List ChainCall,
    calls.length = n ∧ Sparse (sampleObject.calls sampleCrypto calls).state ∧
      (sampleObject.calls sampleCrypto calls).state.blocks.length = n := by
  induction n with
  | zero => exact ⟨[], rfl, .genesis, rfl⟩
  | succ n ih =>
      obtain ⟨calls, hcalls, hs, hlen⟩ := ih (by omega)
      obtain ⟨s', hs', hlen', now, block, hblock⟩ := hs.exists_next (by omega)
      have hcall : (sampleObject.calls sampleCrypto
          (calls ++ [.append now (.ok ()) block])).state = s' := by
        rw [MedacChain.calls_snoc, MedacChain.call_append,
          MedacChain.appendBlock_eq_ok.2 ⟨s', hblock, rfl, rfl⟩]
      refine ⟨calls ++ [.append now (.ok ()) block], ?_, ?_, ?_⟩
      · rw [List.length_append, hcalls, List.length_singleton]
      · rw [hcall]
        exact hs'
      · rw [hcall, hlen', hlen]

theorem exists_sparse {n : ℕ} (hn : n ≤ 1000000000) : ∃ s, Sparse s ∧ s.blocks.length = n := by
  obtain ⟨calls, -, hs, hlen⟩ := exists_sparse_calls hn
  exact ⟨_, hs, hlen⟩

end Medac
