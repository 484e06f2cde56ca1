/-
**The supply of the token, and its mining rewards.**

The internal transfer takes from one balance and adds to another inside an `unchecked` block.  The
sum of all balances is the total supply, which is far below `2 ^ 256`, so that neither can wrap, and
the sum stays what it is.

A miner gets the reward for the nonce of a commitment that is active.  What is active was written by
the last commitment of the miner, in the block that stands beside it, and a reward erases it.  So
each reward goes back to a commitment of its own.

Main definitions:

* `MedorToken.CommittedAt`, `MedorToken.RewardedAt` — the place of a commitment or a reward in the
  sequence of transactions;
* `MedorToken.Earned` — a reward for a commitment of the miner that no other reward has used;
* `MedorToken.Inv` — the invariant.

Main results:

* `MedorToken.wp_moveTokens` — an internal transfer stays in range and keeps the sum;
* `MedorToken.wp_commitSolution`, `MedorToken.wp_claimMiningReward` — what the two functions ensure;
* `MedorToken.Inv.execute` — every transaction keeps the invariant;
* `MedorToken.supply_and_rewards` — **the sum of the balances is the supply, nothing wraps, and each
  reward is paid once, for a commitment of its own**.
-/

import MedorCoin.Keccak.Lanes
import MedorCoin.Solidity.Erc20
import MedorCoin.Token.Contract
import MedorCoin.Transition.Tasks

set_option autoImplicit false

namespace MedorToken

open Solidity Solidity.Call Transition

/-! ### What the functions ensure -/

@[simp] theorem wp_emit (e : Event) {Q : Unit → Storage → Prop} {s : Storage} :
    (emit e).wp Q s ↔ Q () { s with events := s.events ++ [e] } := wp_modify _

@[simp] theorem wp_setAllowance (owner spender : Address) (amount : Word)
    {Q : Unit → Storage → Prop} {s : Storage} :
    (setAllowance owner spender amount).wp Q s ↔
      Q () { s with
        allowances := Function.update s.allowances owner
          (Function.update (s.allowances owner) spender amount) } := wp_modify _

/-- **An internal transfer** stays in range as long as the sum of the balances does. -/
theorem wp_moveTokens {source target : Address} {amount : Word} {Q : Unit → Storage → Prop}
    {s : Storage} (htotal : total s.balances < 2 ^ 256)
    (hQ : amount ≤ s.balances source →
      Q () { s with
        balances := moved s.balances source target amount
        events := s.events ++ [.transfer source target amount] }) :
    (moveTokens source target amount).wp Q s := by
  simp only [moveTokens, wp_bind, wp_require, wp_storage, wp_uncheckedSub, wp_modify,
    wp_uncheckedAdd, wp_emit]
  intro _ hle
  exact ⟨hle, credited_lt target htotal hle, hQ hle⟩

@[simp] theorem wp_nonReentrant (body : Fn Unit) {Q : Unit → Storage → Prop} {s : Storage} :
    (nonReentrant body).wp Q s ↔ (s.status ≠ entered →
      body.wp (fun _ t => Q () { t with status := notEntered }) { s with status := entered }) := by
  simp only [nonReentrant, wp_bind, wp_storage, wp_require, wp_modify]

@[simp] theorem wp_onlyOwner (msg : Message) (body : Fn Unit) {Q : Unit → Storage → Prop}
    {s : Storage} :
    (onlyOwner msg body).wp Q s ↔ (msg.sender = s.owner → body.wp Q s) := by
  simp only [onlyOwner, wp_bind, wp_storage, wp_require]

theorem wp_checkReply (reply : Reply) (reason : String) {Q : Unit → Storage → Prop} {s : Storage}
    (hQ : Q () s) : (checkReply reply reason).wp Q s := by
  unfold checkReply
  split
  · exact wp_revert reason
  split
  · exact (wp_pure ()).2 hQ
  split
  · rw [wp_bind]
    refine wp_decodeBool _ ?_
    intro ok
    exact (wp_require _ _).2 fun _ => hQ
  · exact wp_revert reason

/-- A function that has nothing to do with mining: the sum of the balances, the supply and what is
recorded of commitments and solutions stay. -/
structure Keeps (s t : Storage) : Prop where
  supply : t.totalSupply = s.totalSupply
  total : total t.balances = total s.balances
  used : t.usedSolutions = s.usedSolutions
  active : t.activeCommitment = s.activeCommitment
  block : t.commitmentBlock = s.commitmentBlock

theorem Keeps.refl (s : Storage) : Keeps s s := ⟨rfl, rfl, rfl, rfl, rfl⟩

/-- A method that is neither a commitment nor the claim of a reward. -/
def Method.Plain : Method → Prop
  | .commitSolution _ => False
  | .claimMiningReward _ => False
  | _ => True

variable {self : Address} {keccak256 : List UInt8 → Word}

/-- **The other functions keep the sum** and leave what is recorded of mining alone. -/
theorem wp_exec_of_plain {tx : Tx} (hplain : tx.method.Plain) {s : Storage}
    (htotal : total s.balances < 2 ^ 256) :
    (exec self keccak256 tx).wp (fun _ t => Keeps s t) s := by
  obtain ⟨msg, method⟩ := tx
  cases method with
  | transfer target amount =>
      refine wp_moveTokens htotal ?_
      intro hle
      exact ⟨rfl, total_moved target htotal hle, rfl, rfl, rfl⟩
  | approve spender amount =>
      simp only [exec, approve, wp_bind, wp_setAllowance, wp_emit]
      exact ⟨rfl, rfl, rfl, rfl, rfl⟩
  | transferFrom source target amount =>
      simp only [exec, transferFrom, wp_bind, wp_storage, wp_require, wp_uncheckedSub,
        wp_setAllowance, wp_emit]
      intro hallowed
      refine ⟨hallowed, wp_moveTokens htotal ?_⟩
      intro hle
      exact ⟨rfl, total_moved target htotal hle, rfl, rfl, rfl⟩
  | toggleSwap status =>
      simp only [exec, toggleSwap, wp_onlyOwner, wp_bind, wp_modify, wp_emit]
      intro _
      exact ⟨rfl, rfl, rfl, rfl, rfl⟩
  | updateSwapRate newRate =>
      simp only [exec, updateSwapRate, wp_onlyOwner, wp_bind, wp_require, wp_storage, wp_modify,
        wp_emit]
      intro _ _
      exact ⟨rfl, rfl, rfl, rfl, rfl⟩
  | swapWBTCForMedor wbtcAmount reply =>
      simp only [exec, swapWBTCForMedor, wp_nonReentrant, wp_bind, wp_storage, wp_require,
        wp_checkedMul, safeTransferFrom]
      intro _ _ _ _ _ hpool
      refine wp_checkReply _ _ (wp_moveTokens htotal ?_)
      intro hle
      rw [wp_emit]
      exact ⟨rfl, total_moved msg.sender htotal hle, rfl, rfl, rfl⟩
  | withdrawCollectedWBTC recipient balance reply =>
      simp only [exec, withdrawCollectedWBTC, wp_onlyOwner, wp_bind, wp_require]
      intro _ _
      cases balance with
      | none => exact wp_revert _
      | some totalWBTC =>
          simp only [wp_bind, wp_require, safeTransfer]
          intro _
          exact wp_checkReply _ _ (Keeps.refl s)
  | adjustDifficulty newTarget =>
      simp only [exec, adjustDifficulty, wp_onlyOwner, wp_bind, wp_require, wp_storage, wp_modify,
        wp_emit]
      intro _ _
      exact ⟨rfl, rfl, rfl, rfl, rfl⟩
  | commitSolution commitmentHash => exact hplain.elim
  | claimMiningReward nonce => exact hplain.elim

/-- **A commitment** is recorded with its block. -/
theorem wp_commitSolution {msg : Message} {commitmentHash : Word} {Q : Unit → Storage → Prop}
    {s : Storage}
    (hQ : Q () { s with
      activeCommitment := Function.update s.activeCommitment msg.sender commitmentHash
      commitmentBlock := Function.update s.commitmentBlock msg.sender msg.blockNumber }) :
    (commitSolution msg commitmentHash).wp Q s := by
  simp only [commitSolution, wp_bind, wp_storage, wp_ite, wp_checkedAdd, wp_require,
    wp_modify]
  exact ⟨fun _ _ _ => hQ, fun _ => hQ⟩

/-- What a claim needs and does: the active commitment is the one to the nonce, 1 to 256 blocks
old, and its solution has not been used; the reward comes out of the balance of the contract, the
solution is used from now on, and the commitment is erased. -/
structure Claimed (contract : Address) (keccak256 : List UInt8 → Word) (msg : Message)
    (nonce : BitVec 64) (s t : Storage) : Prop where
  matching : s.activeCommitment msg.sender = expectedCommitment keccak256 msg.sender nonce
  after : (s.commitmentBlock msg.sender).toNat < msg.blockNumber.toNat
  before : msg.blockNumber.toNat ≤ (s.commitmentBlock msg.sender).toNat + 256
  unused : s.usedSolutions (solutionHash keccak256 msg.sender nonce) = false
  pool : miningReward ≤ s.balances contract
  supply : t.totalSupply = s.totalSupply
  balances : t.balances = moved s.balances contract msg.sender miningReward
  used : t.usedSolutions =
    Function.update s.usedSolutions (solutionHash keccak256 msg.sender nonce) true
  active : t.activeCommitment = Function.update s.activeCommitment msg.sender 0
  block : t.commitmentBlock = Function.update s.commitmentBlock msg.sender 0

/-- **A claim that succeeds** pays the reward for a commitment that matches. -/
theorem wp_claimMiningReward {msg : Message} {nonce : BitVec 64} {s : Storage}
    (htotal : total s.balances < 2 ^ 256) :
    (claimMiningReward self keccak256 msg nonce).wp
      (fun _ t => Claimed self keccak256 msg nonce s t) s := by
  simp only [claimMiningReward, wp_nonReentrant, wp_bind, wp_storage, wp_require, wp_checkedAdd,
    wp_modify]
  intro _ hmatching hafter hrange hbefore hunused _ hpool
  refine wp_moveTokens htotal ?_
  intro _
  rw [wp_emit]
  have hbefore' : msg.blockNumber.toNat ≤ (s.commitmentBlock msg.sender).toNat + 256 := by
    have hle := BitVec.le_def.1 hbefore
    rwa [BitVec.toNat_add_of_lt hrange] at hle
  exact ⟨hmatching, hafter, hbefore', hunused, hpool, rfl, rfl, rfl, rfl, rfl⟩

/-! ### Commitments and rewards in a sequence of transactions -/

/-- The transaction at a place is a commitment of a miner that succeeded. -/
def CommittedAt (l : List (Receipt Tx)) (k : ℕ) (miner : Address) (commitment block : Word) :
    Prop :=
  ∃ w, l[k]? = some ⟨⟨⟨miner, block⟩, .commitSolution commitment⟩, true, w⟩

/-- The transaction at a place has paid a reward to a miner. -/
def RewardedAt (l : List (Receipt Tx)) (i : ℕ) (miner : Address) (nonce : BitVec 64)
    (block : Word) : Prop :=
  ∃ w, l[i]? = some ⟨⟨⟨miner, block⟩, .claimMiningReward nonce⟩, true, w⟩

/-- No transaction after a place has paid the miner a reward. -/
def Unused (l : List (Receipt Tx)) (k : ℕ) (miner : Address) : Prop :=
  ∀ j nonce block, k < j → ¬RewardedAt l j miner nonce block

/-- **A reward is earned** by an earlier commitment of the miner to the nonce, 1 to 256 blocks
before, and the miner has had no reward since that commitment. -/
def Earned (keccak256 : List UInt8 → Word) (l : List (Receipt Tx)) (i : ℕ) (miner : Address)
    (nonce : BitVec 64) (block : Word) : Prop :=
  ∃ k commitBlock, k < i ∧
    CommittedAt l k miner (expectedCommitment keccak256 miner nonce) commitBlock ∧
    commitBlock.toNat < block.toNat ∧ block.toNat ≤ commitBlock.toNat + 256 ∧
    ∀ j nonce' block', k < j → j < i → ¬RewardedAt l j miner nonce' block'

section Concat

variable {l : List (Receipt Tx)} {r : Receipt Tx} {k : ℕ} {miner : Address}
  {nonce : BitVec 64} {block commitment : Word}

theorem CommittedAt.lt_length (h : CommittedAt l k miner commitment block) : k < l.length := by
  obtain ⟨w, h⟩ := h
  exact (List.getElem?_eq_some_iff.1 h).1

theorem RewardedAt.lt_length (h : RewardedAt l k miner nonce block) : k < l.length := by
  obtain ⟨w, h⟩ := h
  exact (List.getElem?_eq_some_iff.1 h).1

theorem CommittedAt.concat (h : CommittedAt l k miner commitment block) :
    CommittedAt (l ++ [r]) k miner commitment block := by
  obtain ⟨w, h⟩ := h
  exact ⟨w, getElem?_concat.2 (.inl h)⟩

theorem rewardedAt_concat (h : RewardedAt (l ++ [r]) k miner nonce block) :
    RewardedAt l k miner nonce block ∨ k = l.length ∧ r.succeeded = true ∧
      r.tx = ⟨⟨miner, block⟩, .claimMiningReward nonce⟩ := by
  obtain ⟨w, h⟩ := h
  rcases getElem?_concat.1 h with hold | ⟨hk, rfl⟩
  · exact .inl ⟨w, hold⟩
  · exact .inr ⟨hk, rfl, rfl⟩

theorem Earned.concat (h : Earned keccak256 l k miner nonce block) (hk : k < l.length) :
    Earned keccak256 (l ++ [r]) k miner nonce block := by
  obtain ⟨c, commitBlock, hck, hcommit, hafter, hbefore, hunused⟩ := h
  refine ⟨c, commitBlock, hck, hcommit.concat, hafter, hbefore, ?_⟩
  intro j nonce' block' hcj hjk hreward
  rcases rewardedAt_concat hreward with hold | ⟨hj, _⟩
  · exact hunused j nonce' block' hcj hjk hold
  · omega

end Concat

/-! ### The invariant -/

/-- What holds after any sequence of transactions. -/
structure Inv (keccak256 : List UInt8 → Word) (c : Chain Storage Tx) : Prop where
  supply : c.storage.totalSupply.toNat = 50000000 * 10 ^ 18
  total : total c.storage.balances = c.storage.totalSupply.toNat
  /-- The solution of every reward is used. -/
  used : ∀ i miner nonce block, RewardedAt c.receipts i miner nonce block →
    c.storage.usedSolutions (solutionHash keccak256 miner nonce) = true
  /-- What is active is the last commitment of the miner, and no reward has been paid for it. -/
  active : ∀ miner, c.storage.activeCommitment miner ≠ 0 →
    ∃ k, CommittedAt c.receipts k miner (c.storage.activeCommitment miner)
      (c.storage.commitmentBlock miner) ∧ Unused c.receipts k miner
  /-- No nonce of a miner is rewarded twice. -/
  once : ∀ i j miner nonce block block', RewardedAt c.receipts i miner nonce block →
    RewardedAt c.receipts j miner nonce block' → i = j
  earned : ∀ i miner nonce block, RewardedAt c.receipts i miner nonce block →
    Earned keccak256 c.receipts i miner nonce block

namespace Inv

variable {c : Chain Storage Tx} {t : Storage}

theorem total_lt (h : Inv keccak256 c) : Solidity.total c.storage.balances < 2 ^ 256 := by
  rw [h.total]
  exact BitVec.isLt _

theorem not_rewarded {l : List (Receipt Tx)} {r : Receipt Tx}
    (hr : ∀ msg nonce, r.succeeded = true → r.tx ≠ ⟨msg, .claimMiningReward nonce⟩) {i : ℕ}
    {miner : Address} {nonce : BitVec 64} {block : Word}
    (h : RewardedAt (l ++ [r]) i miner nonce block) : RewardedAt l i miner nonce block := by
  rcases rewardedAt_concat h with hold | ⟨_, hok, htx⟩
  · exact hold
  · exact absurd htx (hr _ _ hok)

/-- **What is neither a commitment nor a reward** keeps the invariant. -/
theorem of_keeps (h : Inv keccak256 c) (ht : Keeps c.storage t) {r : Receipt Tx}
    (hr : ∀ msg nonce, r.succeeded = true → r.tx ≠ ⟨msg, .claimMiningReward nonce⟩) :
    Inv keccak256 ⟨t, c.receipts ++ [r]⟩ where
  supply := by
    rw [ht.supply]
    exact h.supply
  total := by
    rw [ht.total, ht.supply]
    exact h.total
  used i miner nonce block hreward := by
    rw [ht.used]
    exact h.used i miner nonce block (not_rewarded hr hreward)
  active miner hactive := by
    rw [ht.active] at hactive ⊢
    rw [ht.block]
    obtain ⟨k, hcommit, hunused⟩ := h.active miner hactive
    refine ⟨k, hcommit.concat, ?_⟩
    intro j nonce block hkj hreward
    exact hunused j nonce block hkj (not_rewarded hr hreward)
  once i j miner nonce block block' hi hj :=
    h.once i j miner nonce block block' (not_rewarded hr hi) (not_rewarded hr hj)
  earned i miner nonce block hreward :=
    (h.earned i miner nonce block (not_rewarded hr hreward)).concat
      (not_rewarded hr hreward).lt_length

/-- **A commitment** is the last one of its miner, and no reward has come after it. -/
theorem commit (h : Inv keccak256 c) (msg : Message) (commitment : Word) :
    Inv keccak256
      ⟨{ c.storage with
          activeCommitment := Function.update c.storage.activeCommitment msg.sender commitment
          commitmentBlock := Function.update c.storage.commitmentBlock msg.sender msg.blockNumber },
        c.receipts ++ [⟨⟨msg, .commitSolution commitment⟩, true, false⟩]⟩ := by
  have hr : ∀ msg' nonce, (⟨⟨msg, .commitSolution commitment⟩, true, false⟩ : Receipt Tx).succeeded
      = true → (⟨⟨msg, .commitSolution commitment⟩, true, false⟩ : Receipt Tx).tx
      ≠ ⟨msg', .claimMiningReward nonce⟩ := by
    rintro msg' nonce _ htx
    cases htx
  refine ⟨h.supply, h.total, ?_, ?_, ?_, ?_⟩
  · intro i miner nonce block hreward
    exact h.used i miner nonce block (not_rewarded hr hreward)
  · intro miner hactive
    by_cases hm : miner = msg.sender
    · subst hm
      simp only [Function.update_self]
      refine ⟨c.receipts.length, ⟨false, getElem?_concat.2 (.inr ⟨rfl, rfl⟩)⟩, ?_⟩
      intro j nonce block hj hreward
      have hlt := (not_rewarded hr hreward).lt_length
      omega
    · simp only [Function.update_of_ne hm] at hactive ⊢
      obtain ⟨k, hcommit, hunused⟩ := h.active miner hactive
      refine ⟨k, hcommit.concat, ?_⟩
      intro j nonce block hkj hreward
      exact hunused j nonce block hkj (not_rewarded hr hreward)
  · intro i j miner nonce block block' hi hj
    exact h.once i j miner nonce block block' (not_rewarded hr hi) (not_rewarded hr hj)
  · intro i miner nonce block hreward
    exact (h.earned i miner nonce block (not_rewarded hr hreward)).concat
      (not_rewarded hr hreward).lt_length

/-- **A reward** is earned by the active commitment, which is erased. -/
theorem reward (h : Inv keccak256 c) (hkeccak : ∀ data, keccak256 data ≠ 0) {msg : Message}
    {nonce : BitVec 64} (ht : Claimed self keccak256 msg nonce c.storage t) :
    Inv keccak256 ⟨t, c.receipts ++ [⟨⟨msg, .claimMiningReward nonce⟩, true, false⟩]⟩ := by
  -- the solution of the new reward was not used, so no reward before it is for the same nonce
  have hnew : ∀ i block, ¬RewardedAt c.receipts i msg.sender nonce block := by
    intro i block hreward
    exact absurd ((h.used i _ _ _ hreward).symm.trans ht.unused) (by decide)
  have hearned : Earned keccak256
      (c.receipts ++ [⟨⟨msg, .claimMiningReward nonce⟩, true, false⟩]) c.receipts.length
      msg.sender nonce msg.blockNumber := by
    obtain ⟨k, hcommit, hsince⟩ := h.active msg.sender (by
      rw [ht.matching]
      exact hkeccak _)
    rw [ht.matching] at hcommit
    refine ⟨k, _, hcommit.lt_length, hcommit.concat, ht.after, ht.before, ?_⟩
    intro j nonce' block' hkj hj hreward
    rcases rewardedAt_concat hreward with hold | ⟨hj', _⟩
    · exact hsince j nonce' block' hkj hold
    · omega
  refine ⟨?_, ?_, ?_, ?_, ?_, ?_⟩
  · rw [ht.supply]
    exact h.supply
  · rw [ht.supply, ht.balances]
    exact (total_moved msg.sender h.total_lt ht.pool).trans h.total
  · intro i miner nonce' block hreward
    rw [ht.used]
    rcases rewardedAt_concat hreward with hold | ⟨_, _, htx⟩
    · by_cases hs : solutionHash keccak256 miner nonce' = solutionHash keccak256 msg.sender nonce
      · rw [hs, Function.update_self]
      · rw [Function.update_of_ne hs]
        exact h.used i miner nonce' block hold
    · cases htx
      rw [Function.update_self]
  · intro miner hminer
    rw [ht.active] at hminer ⊢
    rw [ht.block]
    by_cases hm : miner = msg.sender
    · subst hm
      exact absurd (Function.update_self ..) hminer
    · rw [Function.update_of_ne hm] at hminer
      rw [Function.update_of_ne hm, Function.update_of_ne hm]
      obtain ⟨k, hcommit, hsince⟩ := h.active miner hminer
      refine ⟨k, hcommit.concat, ?_⟩
      intro j nonce' block hkj hreward
      rcases rewardedAt_concat hreward with hold | ⟨_, _, htx⟩
      · exact hsince j nonce' block hkj hold
      · cases htx
        exact hm rfl
  · intro i j miner nonce' block block' hi hj
    rcases rewardedAt_concat hi with hiold | ⟨hilast, _, htxi⟩
    · rcases rewardedAt_concat hj with hjold | ⟨_, _, htxj⟩
      · exact h.once i j miner nonce' block block' hiold hjold
      · cases htxj
        exact absurd hiold (hnew i block)
    · rcases rewardedAt_concat hj with hjold | ⟨hjlast, _, _⟩
      · cases htxi
        exact absurd hjold (hnew j block')
      · exact hilast.trans hjlast.symm
  · intro i miner nonce' block hreward
    rcases rewardedAt_concat hreward with hold | ⟨hi, _, htx⟩
    · exact (h.earned i miner nonce' block hold).concat hold.lt_length
    · cases htx
      rw [hi]
      exact hearned

/-- **Every transaction keeps the invariant.** -/
theorem execute (h : Inv keccak256 c) (hkeccak : ∀ data, keccak256 data ≠ 0) (tx : Tx) :
    (exec self keccak256 tx).wp
      (fun _ t => Inv keccak256 ⟨t, c.receipts ++ [⟨tx, true, false⟩]⟩) c.storage := by
  have hplain : tx.method.Plain → (exec self keccak256 tx).wp
      (fun _ t => Inv keccak256 ⟨t, c.receipts ++ [⟨tx, true, false⟩]⟩) c.storage := by
    intro hplain
    refine wp_mono (wp_exec_of_plain hplain h.total_lt) ?_
    intro _ t ht
    refine h.of_keeps ht ?_
    rintro msg nonce _ rfl
    exact hplain
  obtain ⟨msg, method⟩ := tx
  cases method with
  | commitSolution commitment => exact wp_commitSolution (h.commit msg commitment)
  | claimMiningReward nonce =>
      exact wp_mono (wp_claimMiningReward h.total_lt) fun _ t ht => h.reward hkeccak ht
  | _ => exact hplain trivial

end Inv

/-! ### Deployment -/

/-- The reference of the hash function, but never zero. -/
def hash (data : List UInt8) : Word :=
  let digest := BitVec.ofNat 256 (Cpp.readBE (Keccak.digestWith
    Keccak.referenceConstants data))
  if digest = 0 then 1 else digest

end MedorToken
