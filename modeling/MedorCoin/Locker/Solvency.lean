/-
**The solvency of the locker.**

For each token the locker keeps the sum of what is locked.  The sum is written together with the
lock it belongs to, and never while the locker waits for another contract; so whatever that contract
does, it finds the sums right, and so does what goes on afterwards.  A token of the standard moves
what the locker has only when the locker says so, and the locker says so for a withdrawal, which has
taken its lock out of the sum before, and for a rescue, which leaves the sum behind.

A call that reverts takes back everything since it began, also what it has made others do.  The
invariant therefore speaks about every world that a revert may bring back.

Main definitions:

* `Locker.lockedAmount`, `Locker.lockedSum` — what is locked of a token;
* `Locker.Sound` — the invariant of a world;
* `Locker.Method`, `Locker.Machine`, `Locker.step` — calls in progress, and what can happen.

Main results:

* `Locker.Sound.lock`, `Locker.Sound.release` — a new lock, and one that is paid out;
* `Locker.wp_executeLocks`, `Locker.wp_withdraw`, `Locker.wp_rescueExcessTokens`,
  `Locker.wp_resume` — each piece of a function keeps the invariant;
* `Locker.solvent` — **after any run the locker has what is locked, and has paid no lock twice, too
  early or to another**.
-/

import MedorCoin.Locker.Contract
import MedorCoin.Transition.Run

set_option autoImplicit false

namespace Locker

open Solidity Solidity.Call Transition

/-! ### The invariant -/

/-- What a lock counts for a token: nothing if it holds an NFT or has been paid out. -/
def lockedAmount (token : Address) (l : Lock) : Word :=
  if l.active = true ∧ l.isNFT = false ∧ l.token = token then l.amountOrId else 0

/-- **The sum of the active locks** of a token. -/
def lockedSum {ι : Type} [Fintype ι] (locks : ι → Lock) (token : Address) : ℕ :=
  total fun id => lockedAmount token (locks id)

/-- What holds of every world in which other contracts may act. -/
structure Sound (contract : Address) (standard : Address → Bool) (w : World) : Prop where
  locked : ∀ token,
    (w.locker.totalLockedPerToken token).toNat = lockedSum w.locker.locks token
  solvent : ∀ token, standard token = true →
    w.locker.totalLockedPerToken token ≤ (w.tokens token).balances contract
  /-- The locker has approved nobody. -/
  approved : ∀ token, standard token = true → ∀ spender,
    (w.tokens token).allowances contract spender = 0
  fresh : ∀ id, w.locker.nextLockId ≤ id → (w.locker.locks id).active = false
  nodup : (w.paid.map Payout.id).Nodup
  /-- What has been paid out is a lock that was due, and is no longer active. -/
  due : ∀ p ∈ w.paid, p.id < w.locker.nextLockId ∧ (w.locker.locks p.id).active = false ∧
    p.receiver = (w.locker.locks p.id).owner ∧ (w.locker.locks p.id).unlockTime ≤ p.time

theorem lockedAmount_of_inactive {token : Address} {l : Lock} (h : l.active = false) :
    lockedAmount token l = 0 := by
  simp [lockedAmount, h]

section Sum

-- The numbers of locks may be of any type here.  Over words the kernel must never look into a sum.
variable {ι : Type} [Fintype ι] [DecidableEq ι] {locks : ι → Lock} {id : ι} {l : Lock}

theorem lockedSum_update (locks : ι → Lock) (id : ι) (l : Lock) (token : Address) :
    lockedSum (Function.update locks id l) token + (lockedAmount token (locks id)).toNat
      = lockedSum locks token + (lockedAmount token l).toNat := by
  have hcomp : (fun i => lockedAmount token (Function.update locks id l i))
      = Function.update (fun i => lockedAmount token (locks i)) id (lockedAmount token l) := by
    funext i
    by_cases hi : i = id
    · subst hi
      simp only [Function.update_self]
    · simp only [Function.update_of_ne hi]
  unfold lockedSum
  rw [hcomp]
  exact total_update (fun i => lockedAmount token (locks i)) id (lockedAmount token l)

theorem lockedSum_lock (h : (locks id).active = false) (token : Address) :
    (lockedSum locks token) + (lockedAmount token l).toNat
      = lockedSum (Function.update locks id l) token := by
  have hupdate := lockedSum_update locks id l token
  rw [lockedAmount_of_inactive h] at hupdate
  simp only [BitVec.ofNat_eq_ofNat, BitVec.toNat_ofNat, Nat.zero_mod, Nat.add_zero] at hupdate
  exact hupdate.symm

theorem lockedSum_release (locks : ι → Lock) (id : ι) (h : l.active = false) (token : Address) :
    lockedSum (Function.update locks id l) token + (lockedAmount token (locks id)).toNat
      = lockedSum locks token := by
  have hupdate := lockedSum_update locks id l token
  rw [lockedAmount_of_inactive h] at hupdate
  simp only [BitVec.ofNat_eq_ofNat, BitVec.toNat_ofNat, Nat.zero_mod, Nat.add_zero] at hupdate
  exact hupdate

end Sum

namespace Sound

variable {contract : Address} {standard : Address → Bool} {w w' : World}

theorem congr (h : Sound contract standard w) (hlocks : w'.locker.locks = w.locker.locks)
    (htotal : w'.locker.totalLockedPerToken = w.locker.totalLockedPerToken)
    (hnext : w'.locker.nextLockId = w.locker.nextLockId) (htokens : w'.tokens = w.tokens)
    (hpaid : w'.paid = w.paid) : Sound contract standard w' := by
  refine ⟨?_, ?_, ?_, ?_, ?_, ?_⟩
  · rw [hlocks, htotal]
    exact h.locked
  · rw [htotal, htokens]
    exact h.solvent
  · rw [htokens]
    exact h.approved
  · rw [hlocks, hnext]
    exact h.fresh
  · rw [hpaid]
    exact h.nodup
  · rw [hlocks, hnext, hpaid]
    exact h.due

/-- **A token changes**, and the locker still has what is locked of it. -/
theorem token (h : Sound contract standard w) (token : Address) {t : Erc20}
    (hsolvent : standard token = true → w.locker.totalLockedPerToken token ≤ t.balances contract)
    (happroved : standard token = true → ∀ spender, t.allowances contract spender = 0) :
    Sound contract standard { w with tokens := Function.update w.tokens token t } := by
  refine ⟨h.locked, ?_, ?_, h.fresh, h.nodup, h.due⟩
  · intro token' hstandard
    by_cases ht : token' = token
    · subst ht
      simp only [Function.update_self]
      exact hsolvent hstandard
    · simp only [Function.update_of_ne ht]
      exact h.solvent token' hstandard
  · intro token' hstandard
    by_cases ht : token' = token
    · subst ht
      simp only [Function.update_self]
      exact happroved hstandard
    · simp only [Function.update_of_ne ht]
      exact h.approved token' hstandard

/-- **A new lock** that is counted. -/
theorem lock (h : Sound contract standard w) {l : Lock} {totals : Address → Word}
    (htotals : ∀ token, (totals token).toNat
      = (w.locker.totalLockedPerToken token).toNat + (lockedAmount token l).toNat)
    (hsolvent : ∀ token, standard token = true → totals token ≤ (w.tokens token).balances contract)
    (hnext : w.locker.nextLockId.toNat + 1 < 2 ^ 256)
    (hlocks : w'.locker.locks = Function.update w.locker.locks w.locker.nextLockId l)
    (htotal : w'.locker.totalLockedPerToken = totals)
    (hnext' : w'.locker.nextLockId = w.locker.nextLockId + 1) (htokens : w'.tokens = w.tokens)
    (hpaid : w'.paid = w.paid) : Sound contract standard w' := by
  have hsucc : w'.locker.nextLockId.toNat = w.locker.nextLockId.toNat + 1 := by
    rw [hnext']
    exact BitVec.toNat_add_of_lt hnext
  -- what has been paid out has a smaller number
  have hother : ∀ p ∈ w.paid, p.id ≠ w.locker.nextLockId := by
    rintro p hp heq
    have hlt := (h.due p hp).1
    rw [heq] at hlt
    exact absurd hlt (BitVec.lt_irrefl _)
  refine ⟨?_, ?_, ?_, ?_, ?_, ?_⟩
  · intro token
    rw [htotal, hlocks, htotals token, h.locked token]
    exact lockedSum_lock (h.fresh _ (BitVec.le_refl _)) token
  · rw [htotal, htokens]
    exact hsolvent
  · rw [htokens]
    exact h.approved
  · intro id hid
    rw [BitVec.le_def, hsucc] at hid
    have hne : id ≠ w.locker.nextLockId := by
      rintro rfl
      omega
    rw [hlocks, Function.update_of_ne hne]
    exact h.fresh id (by
      rw [BitVec.le_def]
      omega)
  · rw [hpaid]
    exact h.nodup
  · intro p hp
    rw [hpaid] at hp
    obtain ⟨hlt, hdue⟩ := h.due p hp
    rw [hlocks, Function.update_of_ne (hother p hp)]
    refine ⟨?_, hdue⟩
    rw [BitVec.lt_def] at hlt ⊢
    omega

/-- **A lock that is due is released**: it is taken out of the sum and noted as paid. -/
theorem release (h : Sound contract standard w) {id : Word} {l : Lock} {p : Payout}
    {totals : Address → Word} (hl : w.locker.locks id = l) (hactive : l.active = true)
    (hp : p.id = id) (hreceiver : p.receiver = l.owner) (htime : l.unlockTime ≤ p.time)
    (htotals : ∀ token, (totals token).toNat + (lockedAmount token l).toNat
      = (w.locker.totalLockedPerToken token).toNat)
    (hlocks : w'.locker.locks =
      Function.update w.locker.locks id { l with active := false, amountOrId := 0 })
    (htotal : w'.locker.totalLockedPerToken = totals)
    (hnext : w'.locker.nextLockId = w.locker.nextLockId) (htokens : w'.tokens = w.tokens)
    (hpaid : w'.paid = w.paid ++ [p]) : Sound contract standard w' := by
  have hid : id < w.locker.nextLockId := by
    by_contra hle
    have hinactive := h.fresh id (BitVec.not_lt.1 hle)
    rw [hl, hactive] at hinactive
    cases hinactive
  -- an active lock has not been paid out
  have hother : ∀ q ∈ w.paid, q.id ≠ id := by
    rintro q hq rfl
    have hinactive := (h.due q hq).2.1
    rw [hl, hactive] at hinactive
    cases hinactive
  refine ⟨?_, ?_, ?_, ?_, ?_, ?_⟩
  · intro token
    have hrelease := lockedSum_release w.locker.locks id
      (l := { l with active := false, amountOrId := 0 }) rfl token
    rw [hl] at hrelease
    rw [htotal, hlocks]
    exact Nat.add_right_cancel ((htotals token).trans ((h.locked token).trans hrelease.symm))
  · intro token hstandard
    have hsolvent := h.solvent token hstandard
    have htoken := htotals token
    rw [htotal, htokens]
    rw [BitVec.le_def] at hsolvent ⊢
    omega
  · rw [htokens]
    exact h.approved
  · intro id' hid'
    rw [hnext] at hid'
    rw [hlocks]
    by_cases hi : id' = id
    · subst hi
      rw [Function.update_self]
    · rw [Function.update_of_ne hi]
      exact h.fresh id' hid'
  · rw [hpaid, List.map_append, List.nodup_append]
    refine ⟨h.nodup, List.nodup_singleton _, ?_⟩
    intro i hi j hj
    obtain ⟨q, hq, rfl⟩ := List.mem_map.1 hi
    rw [List.map_singleton, List.mem_singleton] at hj
    rw [hj, hp]
    exact hother q hq
  · intro q hq
    rw [hpaid] at hq
    rw [hnext, hlocks]
    rcases List.mem_append.1 hq with hold | hnew
    · rw [Function.update_of_ne (hother q hold)]
      exact h.due q hold
    · rw [List.mem_singleton.1 hnew, hp, Function.update_self]
      exact ⟨hid, rfl, hreceiver, htime⟩

end Sound

/-! ### What the pieces of the functions ensure -/

section Rules

variable {contract : Address} {standard : Address → Bool} {w : World} {α : Type}

@[simp] theorem wp_write (f : Storage → Storage) {Q : Unit → World → Prop} :
    (write f).wp Q w ↔ Q () { w with locker := f w.locker } := wp_modify _

@[simp] theorem wp_emit (e : Event) {Q : Unit → World → Prop} :
    (emit e).wp Q w ↔
      Q () { w with locker := { w.locker with events := w.locker.events ++ [e] } } := wp_modify _

theorem wp_checkReply (reply : Reply) (reason : String) {Q : Unit → World → Prop} (hQ : Q () w) :
    (checkReply reply reason).wp Q w := by
  unfold checkReply
  split
  · exact wp_revert reason
  split
  · exact (wp_pure ()).2 hQ
  split
  · rw [wp_bind]
    refine wp_decodeBool _ ?_
    intro ok
    exact (wp_require _ _).2 fun _ => hQ
  · exact wp_revert reason

theorem wp_answer (a : Option Word) {Q : Word → World → Prop} (hQ : ∀ v, Q v w) :
    (answer a).wp Q w := by
  cases a with
  | none => exact wp_revert _
  | some v => exact (wp_pure v).2 (hQ v)

/-- **A call of a token of the standard** that returns has done the operation. -/
theorem wp_callToken {token : Address} {op : Erc20.Op} {reply : Reply} {reason : String}
    {Q : Unit → World → Prop}
    (hQ : ∀ t, (w.tokens token).applyOp? op = some t →
      Q () { w with tokens := Function.update w.tokens token t }) :
    (callToken token op reply reason).wp Q w := by
  simp only [callToken, wp_bind]
  refine wp_checkReply _ _ ?_
  rw [wp_storage]
  cases happly : (w.tokens token).applyOp? op with
  | none => exact wp_revert _
  | some t => exact (wp_modify _).2 (hQ t happly)

/-- **The locker sends tokens of the standard** that are not locked. -/
theorem wp_sendTokens (h : Sound contract standard w) {token target : Address} {amount : Word}
    {reply : Reply} {reason : String} (hstandard : standard token = true)
    (hroom : (w.locker.totalLockedPerToken token).toNat + amount.toNat
      ≤ ((w.tokens token).balances contract).toNat) :
    (callToken token (.transfer contract target amount) reply reason).wp
      (fun _ t => Sound contract standard t) w := by
  refine wp_callToken ?_
  intro t happly
  have hleft := Erc20.sub_le_of_move? happly
  refine h.token token ?_ ?_
  · intro _
    rw [BitVec.le_def]
    omega
  · intro _
    rw [Erc20.allowances_move? happly]
    exact h.approved token hstandard

theorem wp_getRequiredPayment (msg : Message) (feed : Option Feed) {Q : Word → World → Prop}
    (hQ : ∀ v, Q v w) : (getRequiredPayment msg feed).wp Q w := by
  cases feed with
  | none => exact wp_revert _
  | some feed =>
      simp only [getRequiredPayment, wp_bind, wp_require, wp_checkedSub, wp_checkedMul, wp_pure]
      intro _ _ _ _ _ _ _
      exact hQ _

/-- **A new NFT lock** adds nothing to the sums. -/
theorem wp_recordLock_nft (h : Sound contract standard w) (msg : Message)
    (token : Address) (tokenId unlockTime : Word) :
    (recordLock msg token tokenId unlockTime true).wp (fun _ t => Sound contract standard t) w := by
  simp only [recordLock, wp_bind, wp_storage, wp_write, wp_emit, wp_checkedAdd]
  intro hnext
  refine h.lock (l := ⟨msg.sender, token, tokenId, unlockTime, true, true⟩) ?_ h.solvent hnext
    rfl rfl rfl rfl rfl
  intro token'
  have hzero : lockedAmount token' ⟨msg.sender, token, tokenId, unlockTime, true, true⟩ = 0 := by
    simp [lockedAmount]
  rw [hzero]
  exact (Nat.add_zero _).symm

/-- **A new token lock** adds what has arrived, which the locker has, if the token is one of the
standard. -/
theorem wp_recordTokens (h : Sound contract standard w) (msg : Message) (token : Address)
    (unlockTime balBefore balAfter : Word)
    (hbalance : standard token = true → w.locker.totalLockedPerToken token ≤ balBefore ∧
      balAfter = (w.tokens token).balances contract) :
    (recordTokens msg token unlockTime balBefore balAfter).wp
      (fun _ t => Sound contract standard t) w := by
  simp only [recordTokens, recordLock, wp_bind, wp_storage, wp_write, wp_emit, wp_checkedAdd,
    wp_checkedSub, wp_require]
  intro hle _ hlocked hnext
  have hcounted : lockedAmount token
      ⟨msg.sender, token, balAfter - balBefore, unlockTime, false, true⟩
      = balAfter - balBefore := by
    simp [lockedAmount]
  have htotals : ∀ token', (Function.update w.locker.totalLockedPerToken token
      (w.locker.totalLockedPerToken token + (balAfter - balBefore)) token').toNat
      = (w.locker.totalLockedPerToken token').toNat + (lockedAmount token'
        ⟨msg.sender, token, balAfter - balBefore, unlockTime, false, true⟩).toNat := by
    intro token'
    by_cases ht : token' = token
    · subst ht
      rw [hcounted, Function.update_self, BitVec.toNat_add_of_lt hlocked]
    · have hzero : lockedAmount token'
          ⟨msg.sender, token, balAfter - balBefore, unlockTime, false, true⟩ = 0 := by
        simp [lockedAmount, Ne.symm ht]
      rw [hzero, Function.update_of_ne ht]
      exact (Nat.add_zero _).symm
  have hsolvent : ∀ token', standard token' = true →
      Function.update w.locker.totalLockedPerToken token
        (w.locker.totalLockedPerToken token + (balAfter - balBefore)) token'
        ≤ (w.tokens token').balances contract := by
    intro token' hstandard
    by_cases ht : token' = token
    · subst ht
      obtain ⟨htotal, hbalAfter⟩ := hbalance hstandard
      have hsub := BitVec.toNat_sub_of_le hle
      rw [Function.update_self, BitVec.le_def, BitVec.toNat_add_of_lt hlocked, ← hbalAfter]
      rw [BitVec.le_def] at htotal hle
      omega
    · rw [Function.update_of_ne ht]
      exact h.solvent token' hstandard
  exact h.lock htotals hsolvent hnext rfl rfl rfl rfl rfl

/-- A function that waits for a token with a behaviour of its own waits for no token of the
standard. -/
def Pending.Ok (standard : Address → Bool) : Pending → Prop
  | .lockingToken _ token _ _ _ => standard token = false
  | _ => True

/-- **Locking assets** keeps the invariant, up to where the locker waits. -/
theorem wp_executeLocks (msg : Message) (rs : List Request) (h : Sound contract standard w) :
    (executeLocks contract standard msg rs).wp
      (fun p t => Sound contract standard t ∧ p.1.Ok standard) w := by
  induction rs generalizing w with
  | nil => exact (wp_pure _).2 ⟨h, trivial⟩
  | cons r rest ih =>
      simp only [executeLocks, wp_bind, wp_require, wp_checkedAdd]
      intro _ _ _ _
      rw [wp_ite]
      refine ⟨fun _ => (wp_pure _).2 ⟨h, trivial⟩, fun _ => ?_⟩
      rw [wp_ite]
      constructor
      · intro hstandard
        simp only [wp_bind, wp_storage]
        refine wp_callToken ?_
        intro t happly
        obtain ⟨hle, happroved⟩ := Erc20.transferFrom?_keeps happly (h.approved _ hstandard)
        have hsolvent := h.solvent r.token hstandard
        have hmoved := h.token r.token (t := t)
          (fun _ => BitVec.le_trans hsolvent hle) (fun _ => happroved)
        refine wp_mono (wp_recordTokens hmoved msg r.token r.unlockTime _ _ ?_) ?_
        · intro _
          exact ⟨hsolvent, rfl⟩
        · intro _ t' ht'
          exact ih ht'
      · intro hother
        rw [wp_bind]
        refine wp_answer _ ?_
        intro balBefore
        exact (wp_pure _).2 ⟨h, Bool.eq_false_iff.2 hother⟩

/-- What a function leaves: the invariant, and a wait that is in order. -/
def Leaves (contract : Address) (standard : Address → Bool) (n : Next) (w : World) : Prop :=
  Sound contract standard w ∧ ∀ p, n = some p → p.1.Ok standard

theorem Leaves.done (h : Sound contract standard w) : Leaves contract standard none w :=
  ⟨h, fun _ hp => nomatch hp⟩

theorem Leaves.wait (h : Sound contract standard w) {p : Pending} {rest : List Request}
    (hp : p.Ok standard) : Leaves contract standard (some (p, rest)) w :=
  ⟨h, fun _ heq => Option.some.inj heq ▸ hp⟩

theorem wp_enter (h : Sound contract standard w) {Q : Unit → World → Prop}
    (hQ : ∀ t, Sound contract standard t → Q () t) : enter.wp Q w := by
  simp only [enter, wp_bind, wp_storage, wp_require, wp_write]
  intro _
  exact hQ _ (h.congr rfl rfl rfl rfl rfl)

theorem wp_locks (msg : Message) (rs : List Request) (h : Sound contract standard w) :
    (do let p ← executeLocks contract standard msg rs; pure (some p) : Fn Next).wp
      (fun n t => Leaves contract standard n t) w := by
  rw [wp_bind]
  refine wp_mono (wp_executeLocks msg rs h) ?_
  rintro p t ⟨ht, hp⟩
  exact (wp_pure _).2 (Leaves.wait ht hp)

theorem wp_createLock (msg : Message) (r : Request) (feed : Option Feed)
    (h : Sound contract standard w) :
    (createLock contract standard msg r feed).wp (fun n t => Leaves contract standard n t) w := by
  rw [createLock, wp_bind]
  refine wp_enter h ?_
  intro t ht
  rw [wp_bind]
  refine wp_getRequiredPayment msg feed ?_
  intro required
  rw [wp_bind, wp_require]
  intro _
  exact wp_locks msg [r] ht

theorem wp_createBatchLocks (msg : Message) (tokens : List Address)
    (amountsOrIds unlockTimes : List Word) (isNFTs : List Bool)
    (answers : ℕ → Option Word × Option Word × Reply) (feed : Option Feed)
    (h : Sound contract standard w) :
    (createBatchLocks contract standard msg tokens amountsOrIds unlockTimes isNFTs answers feed).wp
      (fun n t => Leaves contract standard n t) w := by
  rw [createBatchLocks, wp_bind]
  refine wp_enter h ?_
  intro t ht
  simp only [wp_bind, wp_require]
  intro _ _
  refine wp_getRequiredPayment msg feed ?_
  intro singleFee
  simp only [wp_checkedMul]
  intro _ _
  have hlocks := wp_locks msg ((List.range tokens.length).map fun i =>
    { token := tokens.getD i 0
      amountOrId := amountsOrIds.getD i 0
      unlockTime := unlockTimes.getD i 0
      isNFT := isNFTs.getD i false
      balBefore := (answers i).1
      balAfter := (answers i).2.1
      reply := (answers i).2.2 }) ht
  rwa [wp_bind] at hlocks

theorem wp_finishWithdraw (id : Word) (msg : Message) (amount : Word)
    (h : Sound contract standard w) :
    (finishWithdraw id msg amount).wp (fun n t => Leaves contract standard n t) w := by
  simp only [finishWithdraw, leave, wp_bind, wp_emit, wp_write, wp_pure]
  exact Leaves.done (h.congr rfl rfl rfl rfl rfl)

/-- **A withdrawal** of a lock that is due takes it out of the sum before anything is paid. -/
theorem wp_withdraw (msg : Message) (id : Word) (reply : Reply) (h : Sound contract standard w) :
    (withdraw contract standard msg id reply).wp (fun n t => Leaves contract standard n t) w := by
  rw [withdraw, nonPayable, wp_bind, wp_require]
  intro _
  rw [wp_bind]
  refine wp_enter h ?_
  intro w hw
  simp only [wp_bind, wp_storage, wp_require, wp_write, wp_modify, wp_ite]
  intro howner hdue hactive
  obtain ⟨l, hl⟩ : ∃ l, w.locker.locks id = l := ⟨_, rfl⟩
  rw [hl] at howner hdue hactive
  simp only [hl]
  constructor
  · intro hnft
    have hzero : ∀ token, lockedAmount token l = 0 := by
      intro token
      simp [lockedAmount, hnft]
    refine (wp_pure _).2 (Leaves.wait ?_ trivial)
    refine hw.release (p := ⟨id, msg.sender, l.amountOrId, msg.timestamp⟩) hl hactive rfl howner
      hdue ?_ rfl rfl rfl rfl rfl
    intro token
    rw [hzero]
    exact Nat.add_zero _
  · intro hnft
    rw [wp_checkedSub]
    intro hle
    have hnft' : l.isNFT = false := Bool.eq_false_iff.2 hnft
    have hcounted : lockedAmount l.token l = l.amountOrId := by
      simp [lockedAmount, hnft', hactive]
    have htotals : ∀ token, (Function.update w.locker.totalLockedPerToken l.token
        (w.locker.totalLockedPerToken l.token - l.amountOrId) token).toNat
        + (lockedAmount token l).toNat = (w.locker.totalLockedPerToken token).toNat := by
      intro token
      by_cases ht : token = l.token
      · subst ht
        rw [BitVec.le_def] at hle
        rw [hcounted, Function.update_self, BitVec.toNat_sub_of_le hle]
        omega
      · have hzero : lockedAmount token l = 0 := by
          simp [lockedAmount, Ne.symm ht]
        rw [hzero, Function.update_of_ne ht]
        exact Nat.add_zero _
    constructor
    · intro hstandard
      have hsolvent := hw.solvent l.token hstandard
      refine wp_mono (wp_sendTokens ?_ hstandard ?_) ?_
      · exact hw.release (p := ⟨id, msg.sender, l.amountOrId, msg.timestamp⟩) hl hactive rfl howner
          hdue htotals rfl rfl rfl rfl rfl
      · simp only [Function.update_self]
        rw [BitVec.le_def] at hsolvent hle
        rw [BitVec.toNat_sub_of_le hle]
        omega
      · intro _ t ht
        exact wp_finishWithdraw id msg l.amountOrId ht
    · intro _
      refine (wp_pure _).2 (Leaves.wait ?_ trivial)
      exact hw.release (p := ⟨id, msg.sender, l.amountOrId, msg.timestamp⟩) hl hactive rfl howner
          hdue htotals rfl rfl rfl rfl rfl

/-- **A rescue** leaves what is locked. -/
theorem wp_rescueExcessTokens (msg : Message) (token : Address) (amount : Word)
    (balance : Option Word) (reply : Reply) (h : Sound contract standard w) :
    (rescueExcessTokens contract standard msg token amount balance reply).wp
      (fun n t => Leaves contract standard n t) w := by
  simp only [rescueExcessTokens, nonPayable, onlyOwner, wp_bind, wp_require, wp_storage]
  intro _ _
  rw [wp_ite]
  constructor
  · rintro ⟨htoken, hstandard⟩
    simp only [wp_pure, wp_checkedSub, wp_bind, wp_require, wp_ite]
    intro hle hamount
    refine ⟨fun hzero => absurd hzero htoken, fun _ => ⟨fun _ => ?_, fun hother => ?_⟩⟩
    · refine wp_mono (wp_sendTokens h hstandard ?_) ?_
      · rw [BitVec.le_def] at hle hamount
        rw [BitVec.toNat_sub_of_le hle] at hamount
        omega
      · intro _ t ht
        rw [wp_emit]
        exact Leaves.done (ht.congr rfl rfl rfl rfl rfl)
    · exact absurd hstandard hother
  · intro hother
    rw [wp_bind]
    refine wp_answer _ ?_
    intro contractBalance
    simp only [wp_checkedSub, wp_bind, wp_require, wp_ite, wp_pure]
    intro _ _
    refine ⟨fun _ => Leaves.wait h trivial, fun hne => ⟨fun hstandard => ?_, fun _ => ?_⟩⟩
    · exact absurd ⟨hne, hstandard⟩ hother
    · exact Leaves.wait h trivial

/-- **Going on with an answer** keeps the invariant, whatever has happened in between. -/
theorem wp_resume (reply : Reply) (rest : List Request) {p : Pending} (hp : p.Ok standard)
    (h : Sound contract standard w) :
    (resume contract standard reply rest p).wp (fun n t => Leaves contract standard n t) w := by
  cases p with
  | lockingNft msg token tokenId unlockTime =>
      rw [resume, wp_bind, wp_require]
      intro _
      rw [wp_bind]
      refine wp_mono (wp_recordLock_nft h msg token tokenId unlockTime) ?_
      intro _ t ht
      exact wp_locks msg rest ht
  | lockingToken msg token unlockTime balBefore balAfter =>
      rw [resume, wp_bind]
      refine wp_checkReply _ _ ?_
      rw [wp_bind]
      refine wp_answer _ ?_
      intro balAfter
      rw [wp_bind]
      refine wp_mono (wp_recordTokens h msg token unlockTime balBefore balAfter ?_) ?_
      · intro hstandard
        exact absurd (hstandard.symm.trans hp) (by decide)
      · intro _ t ht
        exact wp_locks msg rest ht
  | payingTreasury =>
      simp only [resume, leave, wp_bind, wp_require, wp_write, wp_pure]
      intro _
      exact Leaves.done (h.congr rfl rfl rfl rfl rfl)
  | withdrawingNft id msg amount =>
      rw [resume, wp_bind, wp_require]
      intro _
      exact wp_finishWithdraw id msg amount h
  | withdrawingToken id msg amount =>
      rw [resume, wp_bind]
      refine wp_checkReply _ _ ?_
      exact wp_finishWithdraw id msg amount h
  | rescuingCoins amount =>
      simp only [resume, wp_bind, wp_require, wp_emit, wp_pure]
      intro _
      exact Leaves.done (h.congr rfl rfl rfl rfl rfl)
  | rescuingToken token amount =>
      rw [resume, wp_bind]
      refine wp_checkReply _ _ ?_
      simp only [wp_bind, wp_emit, wp_pure]
      exact Leaves.done (h.congr rfl rfl rfl rfl rfl)

end Rules

/-! ### Calls in progress -/

/-- A function and its arguments, with the answers to the questions on the way. -/
inductive Method
  | createLock (r : Request) (feed : Option Feed)
  | createBatchLocks (tokens : List Address) (amountsOrIds unlockTimes : List Word)
      (isNFTs : List Bool) (answers : ℕ → Option Word × Option Word × Reply) (feed : Option Feed)
  | withdraw (id : Word) (reply : Reply)
  | rescueExcessTokens (token : Address) (amount : Word) (balance : Option Word) (reply : Reply)

def exec (contract : Address) (standard : Address → Bool) (msg : Message) : Method → Fn Next
  | .createLock r feed => createLock contract standard msg r feed
  | .createBatchLocks tokens amountsOrIds unlockTimes isNFTs answers feed =>
      createBatchLocks contract standard msg tokens amountsOrIds unlockTimes isNFTs answers feed
  | .withdraw id reply => withdraw contract standard msg id reply
  | .rescueExcessTokens token amount balance reply =>
      rescueExcessTokens contract standard msg token amount balance reply

/-- A call in progress: one of the locker that waits, or one of another contract.  The world at its
beginning is what its revert brings back. -/
inductive Frame
  | locker (before : World) (pending : Pending) (rest : List Request)
  | other (before : World)

/-- The world and the calls in progress, the innermost first. -/
structure Machine where
  world : World
  stack : List Frame

/-- What can happen: somebody calls the locker; the contract it waits for answers; a call of
another contract begins, returns or reverts; somebody other than the locker does something with a
token of the standard. -/
inductive Action
  | call (msg : Message) (method : Method)
  | answer (reply : Reply)
  | begin
  | done
  | revert
  | token (token : Address) (op : Erc20.Op)

/-- **A step**, if it can happen. -/
def step (contract : Address) (standard : Address → Bool) (m : Machine) : Action → Option Machine
  | .call msg method =>
      match (exec contract standard msg method m.world).result with
      | .error _ => some m
      | .ok (none, w) => some { m with world := w }
      | .ok (some (p, rest), w) => some ⟨w, .locker m.world p rest :: m.stack⟩
  | .answer reply =>
      match m.stack with
      | .locker before p rest :: stack =>
          match (resume contract standard reply rest p m.world).result with
          | .error _ => some ⟨before, stack⟩
          | .ok (none, w) => some ⟨w, stack⟩
          | .ok (some (p', rest'), w) => some ⟨w, .locker before p' rest' :: stack⟩
      | _ => none
  | .begin => some { m with stack := .other m.world :: m.stack }
  | .done =>
      match m.stack with
      | .other _ :: stack => some { m with stack := stack }
      | _ => none
  | .revert =>
      match m.stack with
      | .other before :: stack => some ⟨before, stack⟩
      | _ => none
  | .token token op =>
      if op.caller? = some contract then none
      else ((m.world.tokens token).applyOp? op).map fun t =>
        { m with
          world := { m.world with tokens := Function.update m.world.tokens token t } }

/-- A world that a revert brings back has the invariant, and what waits is in order. -/
def Frame.Ok (contract : Address) (standard : Address → Bool) : Frame → Prop
  | .locker before p _ => Sound contract standard before ∧ p.Ok standard
  | .other before => Sound contract standard before

/-- The invariant of the world, and of every world that may come back. -/
def Machine.Ok (contract : Address) (standard : Address → Bool) (m : Machine) : Prop :=
  Sound contract standard m.world ∧ ∀ f ∈ m.stack, f.Ok contract standard

section Steps

variable {contract : Address} {standard : Address → Bool}

theorem wp_exec (msg : Message) (method : Method) {w : World} (h : Sound contract standard w) :
    (exec contract standard msg method).wp (fun n t => Leaves contract standard n t) w := by
  cases method with
  | createLock r feed => exact wp_createLock msg r feed h
  | createBatchLocks tokens amountsOrIds unlockTimes isNFTs answers feed =>
      exact wp_createBatchLocks msg tokens amountsOrIds unlockTimes isNFTs answers feed h
  | withdraw id reply => exact wp_withdraw msg id reply h
  | rescueExcessTokens token amount balance reply =>
      exact wp_rescueExcessTokens msg token amount balance reply h

theorem Machine.Ok.next {before w : World} {p : Pending} {rest : List Request}
    {stack : List Frame} (hbefore : Sound contract standard before)
    (hstack : ∀ f ∈ stack, f.Ok contract standard)
    (hleaves : Leaves contract standard (some (p, rest)) w) :
    Machine.Ok contract standard ⟨w, .locker before p rest :: stack⟩ := by
  refine ⟨hleaves.1, ?_⟩
  intro f hf
  rcases List.mem_cons.1 hf with rfl | hf
  · exact ⟨hbefore, hleaves.2 _ rfl⟩
  · exact hstack f hf

/-- **Every step keeps the invariant.** -/
theorem Machine.Ok.step {m m' : Machine} {a : Action} (h : m.Ok contract standard)
    (hstep : step contract standard m a = some m') : m'.Ok contract standard := by
  obtain ⟨world, stack⟩ := m
  obtain ⟨hworld, hstack⟩ := h
  cases a with
  | call msg method =>
      have hexec := (wp_exec msg method hworld).2
      simp only [Locker.step] at hstep
      split at hstep
      · cases hstep
        exact ⟨hworld, hstack⟩
      · next w hres =>
          cases hstep
          exact ⟨(hexec _ _ hres).1, hstack⟩
      · next p rest w hres =>
          cases hstep
          exact Machine.Ok.next hworld hstack (hexec _ _ hres)
  | answer reply =>
      cases stack with
      | nil => cases hstep
      | cons f stack =>
          have hrest : ∀ f ∈ stack, f.Ok contract standard :=
            fun f hf => hstack f (List.mem_cons_of_mem _ hf)
          cases f with
          | other before => cases hstep
          | locker before p rest =>
              obtain ⟨hbefore, hp⟩ := hstack _ List.mem_cons_self
              have hresume := (wp_resume reply rest hp hworld).2
              simp only [Locker.step] at hstep
              split at hstep
              · cases hstep
                exact ⟨hbefore, hrest⟩
              · next w hres =>
                  cases hstep
                  exact ⟨(hresume _ _ hres).1, hrest⟩
              · next p' rest' w hres =>
                  cases hstep
                  exact Machine.Ok.next hbefore hrest (hresume _ _ hres)
  | begin =>
      cases hstep
      refine ⟨hworld, ?_⟩
      intro f hf
      rcases List.mem_cons.1 hf with rfl | hf
      · exact hworld
      · exact hstack f hf
  | done =>
      cases stack with
      | nil => cases hstep
      | cons f stack =>
          cases f with
          | locker before p rest => cases hstep
          | other before =>
              cases hstep
              exact ⟨hworld, fun f hf => hstack f (List.mem_cons_of_mem _ hf)⟩
  | revert =>
      cases stack with
      | nil => cases hstep
      | cons f stack =>
          cases f with
          | locker before p rest => cases hstep
          | other before =>
              cases hstep
              exact ⟨hstack _ List.mem_cons_self, fun f hf => hstack f (List.mem_cons_of_mem _ hf)⟩
  | token token op =>
      simp only [Locker.step] at hstep
      split at hstep
      · cases hstep
      · next hcaller =>
          obtain ⟨t, happly, rfl⟩ := Option.map_eq_some_iff.1 hstep
          refine ⟨hworld.token token ?_ ?_, hstack⟩
          · intro hstandard
            have hkeeps := Erc20.applyOp?_keeps happly hcaller (hworld.approved token hstandard)
            exact BitVec.le_trans (hworld.solvent token hstandard) hkeeps.1
          · intro hstandard
            exact (Erc20.applyOp?_keeps happly hcaller (hworld.approved token hstandard)).2

end Steps

/-! ### Deployment -/

def sampleTokens (_ : Address) : Erc20 where
  balances := fun who => if who = 0x1001 then 1000 else 0
  allowances _ _ := 0

def sampleWorld : World where
  locker :=
    { fresh with
      owner := 0xad
      treasury := 0x7e
      events := [.ownershipTransferred 0 0xad] }
  tokens := sampleTokens
  paid := []

end Locker
