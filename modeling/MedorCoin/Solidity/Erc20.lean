/-
**Tokens that behave as the ERC-20 standard says.**

A token holds balances and allowances.  A holder may transfer what it has and approve others to
transfer it; the token may issue new units, and a holder may burn its own.  No fee is taken.
Everything else a token may do with what others hold is not part of the standard.

Main definitions:

* `Solidity.moved` — the balances after a transfer;
* `Solidity.Erc20`, `Solidity.Erc20.Op`, `Solidity.Erc20.applyOp?` — a token and what can be done
  with it.

Main results:

* `Solidity.credited_lt`, `Solidity.total_moved` — **a transfer stays in range and keeps the sum**;
* `Solidity.Erc20.transferFrom?_keeps`, `Solidity.Erc20.applyOp?_keeps` — **who has approved nobody
  loses nothing by what others do**.
-/

import MedorCoin.Solidity.Call

set_option autoImplicit false

namespace Solidity

/-! ### The balances after a transfer -/

section Moved

variable {ι : Type} [DecidableEq ι] {balances : ι → Word} {source target who : ι} {amount : Word}

/-- The balances after a transfer. -/
def moved (balances : ι → Word) (source target : ι) (amount : Word) : ι → Word :=
  let debited := Function.update balances source (balances source - amount)
  Function.update debited target (debited target + amount)

theorem credited_lt [Fintype ι] (target : ι) (htotal : total balances < 2 ^ 256)
    (hle : amount ≤ balances source) :
    (Function.update balances source (balances source - amount) target).toNat + amount.toNat
      < 2 ^ 256 := by
  have hdebit := total_debit hle
  have hentry := le_total (Function.update balances source (balances source - amount)) target
  omega

/-- **A transfer keeps the sum of the balances**, also one to the sender itself. -/
theorem total_moved [Fintype ι] (target : ι) (htotal : total balances < 2 ^ 256)
    (hle : amount ≤ balances source) :
    total (moved balances source target amount) = total balances :=
  (total_credit (credited_lt target htotal hle)).trans (total_debit hle)

theorem moved_self (hle : amount ≤ balances source) :
    moved balances source source amount = balances := by
  funext who
  by_cases hw : who = source
  · subst hw
    simp only [moved, Function.update_self]
    exact BitVec.sub_add_cancel _ _
  · simp only [moved, Function.update_of_ne hw]

theorem moved_source (hne : source ≠ target) :
    moved balances source target amount source = balances source - amount := by
  simp only [moved, Function.update_of_ne hne, Function.update_self]

theorem moved_target (hne : source ≠ target) :
    moved balances source target amount target = balances target + amount := by
  simp only [moved, Function.update_self, Function.update_of_ne (Ne.symm hne)]

theorem moved_of_ne (hsource : who ≠ source) (htarget : who ≠ target) :
    moved balances source target amount who = balances who := by
  simp only [moved, Function.update_of_ne hsource, Function.update_of_ne htarget]

end Moved

/-! ### Tokens -/

structure Erc20 where
  balances : Address → Word
  allowances : Address → Address → Word

namespace Erc20

/-- A transfer that the balance covers. -/
def move? (t : Erc20) (source target : Address) (value : Word) : Option Erc20 :=
  if value ≤ t.balances source ∧
      (Function.update t.balances source (t.balances source - value) target).toNat + value.toNat
        < 2 ^ 256 then
    some { t with balances := moved t.balances source target value }
  else none

def setAllowance (t : Erc20) (owner spender : Address) (value : Word) : Erc20 :=
  { t with
    allowances := Function.update t.allowances owner
      (Function.update (t.allowances owner) spender value) }

/-- A transfer by somebody whom the holder has approved. -/
def transferFrom? (t : Erc20) (caller source target : Address) (value : Word) : Option Erc20 :=
  if value ≤ t.allowances source caller then
    (t.setAllowance source caller (t.allowances source caller - value)).move? source target value
  else none

/-- What can be done with a token. -/
inductive Op
  | transfer (caller target : Address) (value : Word)
  | transferFrom (caller source target : Address) (value : Word)
  | approve (caller spender : Address) (value : Word)
  | burn (caller : Address) (value : Word)
  | issue (account : Address) (value : Word)

/-- Who does it; new units are issued by the token. -/
def Op.caller? : Op → Option Address
  | .transfer caller _ _ => some caller
  | .transferFrom caller _ _ _ => some caller
  | .approve caller _ _ => some caller
  | .burn caller _ => some caller
  | .issue _ _ => none

/-- The token after an operation, if the operation can be done. -/
def applyOp? (t : Erc20) : Op → Option Erc20
  | .transfer caller target value => t.move? caller target value
  | .transferFrom caller source target value => t.transferFrom? caller source target value
  | .approve caller spender value => some (t.setAllowance caller spender value)
  | .burn caller value =>
      if value ≤ t.balances caller then
        some { t with
          balances := Function.update t.balances caller (t.balances caller - value) }
      else none
  | .issue account value =>
      if (t.balances account).toNat + value.toNat < 2 ^ 256 then
        some { t with
          balances := Function.update t.balances account (t.balances account + value) }
      else none

variable {t t' : Erc20} {source target who : Address} {value : Word}

theorem move?_eq_some (h : t.move? source target value = some t') :
    value ≤ t.balances source ∧
      (Function.update t.balances source (t.balances source - value) target).toNat + value.toNat
        < 2 ^ 256 ∧
      t' = { t with balances := moved t.balances source target value } := by
  unfold move? at h
  split at h
  · next hc => exact ⟨hc.1, hc.2, (Option.some.inj h).symm⟩
  · cases h

theorem le_of_move? (h : t.move? source target value = some t') (hwho : who ≠ source ∨ value = 0) :
    t.balances who ≤ t'.balances who := by
  obtain ⟨hle, hlt, rfl⟩ := move?_eq_some h
  by_cases hst : source = target
  · subst hst
    simp only [moved_self hle]
    exact BitVec.le_refl _
  rw [Function.update_of_ne (Ne.symm hst)] at hlt
  by_cases hs : who = source
  · subst hs
    have hzero : value = 0 := hwho.resolve_left fun hne => hne rfl
    simp [moved_source hst, hzero]
  by_cases ht : who = target
  · subst ht
    simp only [moved_target hst, BitVec.le_def, BitVec.toNat_add_of_lt hlt]
    omega
  · simp only [moved_of_ne hs ht]
    exact BitVec.le_refl _

@[simp] theorem setAllowance_balances (owner spender : Address) :
    (t.setAllowance owner spender value).balances = t.balances := rfl

theorem setAllowance_of_ne {owner spender holder : Address} (hne : holder ≠ owner) :
    (t.setAllowance owner spender value).allowances holder = t.allowances holder :=
  Function.update_of_ne hne _ _

theorem allowances_move? (h : t.move? source target value = some t') :
    t'.allowances = t.allowances := by
  obtain ⟨_, _, rfl⟩ := move?_eq_some h
  rfl

theorem sub_le_of_move? (h : t.move? source target value = some t') :
    (t.balances source).toNat - value.toNat ≤ (t'.balances source).toNat := by
  obtain ⟨hle, _, rfl⟩ := move?_eq_some h
  by_cases hst : source = target
  · subst hst
    simp only [moved_self hle]
    omega
  · simp only [moved_source hst, BitVec.toNat_sub_of_le hle]
    omega

/-- **Who has approved nobody** loses nothing by a transfer that somebody does for its holder, and
still has approved nobody. -/
theorem transferFrom?_keeps {caller : Address}
    (h : t.transferFrom? caller source target value = some t')
    (hnone : ∀ spender, t.allowances who spender = 0) :
    t.balances who ≤ t'.balances who ∧ ∀ spender, t'.allowances who spender = 0 := by
  simp only [transferFrom?] at h
  split at h
  · next hle =>
      by_cases hs : who = source
      · subst hs
        -- nothing is approved, so nothing is transferred
        rw [hnone caller] at hle h
        have hzero : value = 0 := BitVec.le_zero_iff.1 hle
        subst hzero
        have hle' : _ ≤ t'.balances who := le_of_move? h (.inr rfl)
        rw [setAllowance_balances] at hle'
        refine ⟨hle', ?_⟩
        intro spender
        rw [allowances_move? h]
        by_cases hsp : spender = caller
        · subst hsp
          simp [setAllowance]
        · simp [setAllowance, Function.update_of_ne hsp, hnone]
      · have hle' : _ ≤ t'.balances who := le_of_move? h (.inl hs)
        rw [setAllowance_balances] at hle'
        refine ⟨hle', ?_⟩
        rw [allowances_move? h, setAllowance_of_ne hs]
        exact hnone
  · cases h

/-- **Who has approved nobody** has no less after what others do, and still has approved nobody. -/
theorem applyOp?_keeps {op : Op} (h : t.applyOp? op = some t') (hcaller : op.caller? ≠ some who)
    (hnone : ∀ spender, t.allowances who spender = 0) :
    t.balances who ≤ t'.balances who ∧ ∀ spender, t'.allowances who spender = 0 := by
  cases op with
  | transfer caller target value =>
      refine ⟨le_of_move? h (.inl fun hw => hcaller (hw ▸ rfl)), ?_⟩
      rw [allowances_move? h]
      exact hnone
  | transferFrom caller source target value => exact transferFrom?_keeps h hnone
  | approve caller spender value =>
      cases h
      have hne : who ≠ caller := fun hw => hcaller (hw ▸ rfl)
      refine ⟨BitVec.le_refl _, ?_⟩
      rw [setAllowance_of_ne hne]
      exact hnone
  | burn caller value =>
      simp only [applyOp?] at h
      split at h
      · cases h
        have hne : who ≠ caller := fun hw => hcaller (hw ▸ rfl)
        refine ⟨?_, hnone⟩
        simp only [Function.update_of_ne hne]
        exact BitVec.le_refl _
      · cases h
  | issue account value =>
      simp only [applyOp?] at h
      split at h
      · next hlt =>
          cases h
          refine ⟨?_, hnone⟩
          by_cases hw : who = account
          · subst hw
            simp only [Function.update_self, BitVec.le_def, BitVec.toNat_add_of_lt hlt]
            omega
          · simp only [Function.update_of_ne hw]
            exact BitVec.le_refl _
      · cases h

end Erc20

end Solidity
