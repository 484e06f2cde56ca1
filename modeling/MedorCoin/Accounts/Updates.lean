/-
**Updates that overlap.**

Crediting, debiting and counting up a nonce each read a number in one critical section and write it
in another.  Between the two, other calls may write.  A write that goes through after the number has
changed undoes what others wrote; as long as none does, the calls come to the same as if they had
run one after the other, in the order of their writes.

Main definitions:

* `Accounts.Op`, `Accounts.Call`, `Accounts.act` — the calls, and the critical sections of a call;
* `Accounts.serial` — operations one after the other, on numbers without a bound;
* `Accounts.Lossless` — **no update is lost**;
* `Accounts.Fresh` — the number that a call has read is still there when it writes.

Main results:

* `Accounts.alone_add`, `Accounts.alone_deduct`, `Accounts.alone_increment` — a call that runs alone
  is the function of the source;
* `Accounts.lossless_step_iff` — **what a step must do to lose nothing**;
* `Accounts.lossless_iff` — no update is lost in a run exactly if every write is fresh.
-/

import MedorCoin.Accounts.DB
import MedorCoin.Transition.Tasks
import Mathlib.Algebra.BigOperators.Group.List.Basic
import Mathlib.Logic.Function.Basic

set_option autoImplicit false

namespace Accounts

open Cpp Transition
open Node.AccountDB (isValidKey balanceKey balanceKey_injective)

/-! ### The calls -/

/-- The operations that read a number and write another. -/
inductive Op where
  | add (address : Str) (amount : UInt64)
  | deduct (address : Str) (amount : UInt64)
  | increment (address : Str)

/-- The record of an operation. -/
def Op.key : Op → Str
  | .add address _ => balanceKey address
  | .deduct address _ => balanceKey address
  | .increment address => nonceKey address

/-- The number that is written for one that was read, if the check between them passes. -/
def Op.next : Op → UInt64 → Option UInt64
  | .add _ amount, current => if amount > maxUInt64 - current then none else some (current + amount)
  | .deduct _ amount, current => if amount > current then none else some (current - amount)
  | .increment _, current => if current = maxUInt64 then none else some (current + 1)

/-- How far a call is: before its read, before its write, or returned. -/
inductive Call where
  | start (op : Op)
  | loaded (op : Op) (current : UInt64)
  | done (op : Op) (ok : Bool)

/-- The next critical section of a call. -/
def act (db : DB) : Call → Option (DB × Call)
  | .start op => some ((readNumber db op.key).2, .loaded op (readNumber db op.key).1)
  | .loaded op current =>
      match op.next current with
      | none => some (db, .done op false)
      | some n =>
          some ((db.put op.key (decimal n.toNat)).2,
            .done op (db.put op.key (decimal n.toNat)).1.isOk)
  | .done _ _ => none

/-- Calls that take their critical sections in any order. -/
def system : Threads DB Call → ℕ × Unit → Option (Threads DB Call) :=
  Threads.step fun _ db call _ => act db call

/-- A call whose critical sections follow each other. -/
def alone (db : DB) (op : Op) : Option (DB × Call) :=
  (act db (.start op)).bind fun r => act r.1 r.2

theorem alone_eq (db : DB) (op : Op) :
    alone db op = act (readNumber db op.key).2 (.loaded op (readNumber db op.key).1) := by
  rw [alone, act, Option.bind_some]

theorem alone_add (db : DB) (address : Str) (amount : UInt64) :
    alone db (.add address amount) = some ((addBalance db address amount).2,
      .done (.add address amount) (addBalance db address amount).1) := by
  rw [alone_eq, act, addBalance, getBalance, Op.next, Op.key]
  generalize readNumber db (balanceKey address) = r
  by_cases h : amount > maxUInt64 - r.1
  · rw [if_pos h, if_pos h]
  · rw [if_neg h, if_neg h, setBalance]

theorem alone_deduct (db : DB) (address : Str) (amount : UInt64) :
    alone db (.deduct address amount) = some ((deductBalance db address amount).2,
      .done (.deduct address amount) (deductBalance db address amount).1) := by
  rw [alone_eq, act, deductBalance, getBalance, Op.next, Op.key]
  generalize readNumber db (balanceKey address) = r
  by_cases h : amount > r.1
  · rw [if_pos h, if_pos h]
  · rw [if_neg h, if_neg h, setBalance]

theorem alone_increment (db : DB) (address : Str) :
    alone db (.increment address) = some ((incrementNonce db address).2,
      .done (.increment address) (incrementNonce db address).1) := by
  rw [alone_eq, act, incrementNonce, getNonce, Op.next, Op.key]
  generalize readNumber db (nonceKey address) = r
  by_cases h : r.1 = maxUInt64
  · rw [if_pos h, if_pos h]
  · rw [if_neg h, if_neg h]

/-! ### Serial execution -/

/-- What an operation makes of a number, if there is enough. -/
def Op.effect : Op → ℕ → Option ℕ
  | .add _ amount, n => some (n + amount.toNat)
  | .deduct _ amount, n => if amount.toNat ≤ n then some (n - amount.toNat) else none
  | .increment _, n => some (n + 1)

/-- One operation on all numbers. -/
def Op.run (m : Str → ℕ) (op : Op) : Option (Str → ℕ) :=
  (op.effect (m op.key)).map fun n => Function.update m op.key n

/-- **Operations one after the other**, each with enough to take from. -/
def serial (m : Str → ℕ) (ops : List Op) : Option (Str → ℕ) := ops.foldlM Op.run m

/-- What the operations add to a balance. -/
def added (address : Str) (ops : List Op) : ℕ :=
  (ops.map fun
    | .add a amount => if a = address then amount.toNat else 0
    | _ => 0).sum

/-- What the operations take from a balance. -/
def deducted (address : Str) (ops : List Op) : ℕ :=
  (ops.map fun
    | .deduct a amount => if a = address then amount.toNat else 0
    | _ => 0).sum

/-- How often the operations count up a nonce. -/
def incremented (address : Str) (ops : List Op) : ℕ :=
  (ops.map fun
    | .increment a => if a = address then 1 else 0
    | _ => 0).sum

/-- The operation of a call that has returned with success. -/
def Call.success : Call → Option Op
  | .done op true => some op
  | _ => none

/-- The operations that have succeeded. -/
def successes (s : Threads DB Call) : List Op := s.locals.filterMap Call.success

/-- **No update is lost.** Every balance is the initial one with all successful additions and
deductions, every nonce the initial one with all successful increments, and there is an order of the
successful operations in which no deduction takes more than there is. -/
structure Lossless (initial : DB) (s : Threads DB Call) : Prop where
  balances : ∀ address, numberAt s.shared (balanceKey address) + deducted address (successes s) =
    numberAt initial (balanceKey address) + added address (successes s)
  nonces : ∀ address, numberAt s.shared (nonceKey address) =
    numberAt initial (nonceKey address) + incremented address (successes s)
  covered : ∃ order, order.Perm (successes s) ∧ (serial (numberAt initial) order).isSome

/-- A call whose write goes through wrote for the number that is there. -/
def Fresh (s : Threads DB Call) (i : ℕ) : Prop :=
  match s.locals[i]? with
  | some (.loaded op current) =>
      (op.next current).isSome → canWrite s.shared op.key = true →
        current.toNat = numberAt s.shared op.key
  | _ => True

/-! ### Sums over serial executions -/

variable {initial db db' : DB} {s t : Threads DB Call} {op : Op} {ops : List Op}

theorem Op.run_sums {m m' : Str → ℕ} (h : op.run m = some m') (address : Str) :
    m' (balanceKey address) + deducted address [op] =
        m (balanceKey address) + added address [op] ∧
      m' (nonceKey address) = m (nonceKey address) + incremented address [op] := by
  obtain ⟨n, heffect, rfl⟩ := Option.map_eq_some_iff.1 h
  have hbalance (a b : Str) (v : ℕ) :
      Function.update m (nonceKey a) v (balanceKey b) = m (balanceKey b) :=
    Function.update_of_ne (balanceKey_ne_nonceKey b a) _ _
  have hnonce (a b : Str) (v : ℕ) :
      Function.update m (balanceKey a) v (nonceKey b) = m (nonceKey b) :=
    Function.update_of_ne (balanceKey_ne_nonceKey a b).symm _ _
  cases op with
  | add a amount =>
      obtain rfl := Option.some.inj heffect
      simp only [Op.key, hnonce, added, deducted, incremented, List.map_singleton,
        List.sum_singleton, Nat.add_zero, and_true]
      by_cases ha : a = address
      · subst ha
        rw [Function.update_self, if_pos rfl]
      · rw [if_neg ha, Function.update_of_ne fun heq => ha (balanceKey_injective heq).symm,
          Nat.add_zero]
  | deduct a amount =>
      rw [Op.effect] at heffect
      split at heffect
      · next hle =>
          obtain rfl := Option.some.inj heffect
          simp only [Op.key, hnonce, added, deducted, incremented, List.map_singleton,
            List.sum_singleton, Nat.add_zero, and_true]
          by_cases ha : a = address
          · subst ha
            rw [Function.update_self, if_pos rfl]
            exact Nat.sub_add_cancel hle
          · rw [if_neg ha, Function.update_of_ne fun heq => ha (balanceKey_injective heq).symm,
              Nat.add_zero]
      · cases heffect
  | increment a =>
      obtain rfl := Option.some.inj heffect
      simp only [Op.key, hbalance, added, deducted, incremented, List.map_singleton,
        List.sum_singleton, Nat.add_zero, true_and]
      by_cases ha : a = address
      · subst ha
        rw [Function.update_self, if_pos rfl]
      · rw [if_neg ha, Function.update_of_ne fun heq => ha (nonceKey_injective heq).symm,
          Nat.add_zero]

theorem added_cons (address : Str) (op : Op) (ops : List Op) :
    added address (op :: ops) = added address [op] + added address ops := by
  rw [added, List.map_cons, List.sum_cons, added, List.map_singleton, List.sum_singleton, added]

theorem deducted_cons (address : Str) (op : Op) (ops : List Op) :
    deducted address (op :: ops) = deducted address [op] + deducted address ops := by
  rw [deducted, List.map_cons, List.sum_cons, deducted, List.map_singleton, List.sum_singleton,
    deducted]

theorem incremented_cons (address : Str) (op : Op) (ops : List Op) :
    incremented address (op :: ops) = incremented address [op] + incremented address ops := by
  rw [incremented, List.map_cons, List.sum_cons, incremented, List.map_singleton,
    List.sum_singleton, incremented]

/-- **The sums after a serial execution.** -/
theorem serial_sums {m m' : Str → ℕ} (h : serial m ops = some m') (address : Str) :
    m' (balanceKey address) + deducted address ops = m (balanceKey address) + added address ops ∧
      m' (nonceKey address) = m (nonceKey address) + incremented address ops := by
  induction ops generalizing m with
  | nil =>
      obtain rfl := Option.some.inj h
      exact ⟨rfl, rfl⟩
  | cons op ops ih =>
      rw [serial, List.foldlM_cons] at h
      obtain ⟨m₁, hrun, hrest⟩ := Option.bind_eq_some_iff.1 h
      obtain ⟨hbalance, hnonce⟩ := Op.run_sums hrun address
      obtain ⟨hbalance', hnonce'⟩ := ih hrest
      rw [added_cons, deducted_cons, incremented_cons]
      omega

theorem serial_concat (m : Str → ℕ) (ops : List Op) (op : Op) :
    serial m (ops ++ [op]) = (serial m ops).bind fun m' => op.run m' := by
  rw [serial, List.foldlM_append, ← serial]
  cases serial m ops with
  | none => rfl
  | some m' =>
      rw [Option.bind_eq_bind, Option.bind_some, List.foldlM_cons, Option.bind_some]
      simp

/-! ### What a step does -/

theorem Op.effect_of_next {current n : UInt64} (h : op.next current = some n) :
    op.effect current.toNat = some n.toNat := by
  have hmax : maxUInt64.toNat = 2 ^ 64 - 1 := by decide
  have hcurrent := current.toNat_lt
  cases op with
  | add a amount =>
      rw [Op.next] at h
      split at h
      · cases h
      · next hle =>
          obtain rfl := Option.some.inj h
          rw [gt_iff_lt, UInt64.lt_iff_toNat_lt, not_lt,
            UInt64.toNat_sub_of_le _ _ (UInt64.le_iff_toNat_le.2 (by omega)), hmax] at hle
          rw [Op.effect, UInt64.toNat_add, Nat.mod_eq_of_lt (by omega)]
  | deduct a amount =>
      rw [Op.next] at h
      split at h
      · cases h
      · next hle =>
          obtain rfl := Option.some.inj h
          rw [gt_iff_lt, UInt64.lt_iff_toNat_lt, not_lt] at hle
          rw [Op.effect, if_pos hle, UInt64.toNat_sub_of_le _ _ (UInt64.le_iff_toNat_le.2 hle)]
  | increment a =>
      rw [Op.next] at h
      split at h
      · cases h
      · next hne =>
          obtain rfl := Option.some.inj h
          have hlt : current.toNat ≠ maxUInt64.toNat := fun heq => hne (UInt64.toNat_inj.1 heq)
          rw [Op.effect, UInt64.toNat_add, UInt64.toNat_one, Nat.mod_eq_of_lt (by omega)]

theorem isValidKey_of_canWrite {key : Str} (h : canWrite db key = true) :
    isValidKey key = true := by
  rw [canWrite, Bool.and_eq_true, Bool.and_eq_true] at h
  exact h.1.1

/-- **What a critical section does**: nothing that shows, or a write that goes through. -/
theorem act_cases {c c' : Call} (h : act db c = some (db', c')) :
    (c.success = none ∧ c'.success = none ∧ numberAt db' = numberAt db ∧
      ∀ op current, c = .loaded op current → (op.next current).isSome →
        canWrite db op.key = true → False) ∨
    ∃ op current n, c = .loaded op current ∧ op.next current = some n ∧
      canWrite db op.key = true ∧ c' = .done op true ∧
      numberAt db' = Function.update (numberAt db) op.key n.toNat := by
  cases c with
  | start op =>
      left
      rw [act, Option.some.injEq, Prod.mk.injEq] at h
      obtain ⟨rfl, rfl⟩ := h
      exact ⟨rfl, rfl, funext fun key => numberAt_congr (DB.get_entries db _) key,
        fun _ _ hc => nomatch hc⟩
  | done op ok => cases h
  | loaded op current =>
      rw [act] at h
      cases hnext : op.next current with
      | none =>
          left
          rw [hnext, Option.some.injEq, Prod.mk.injEq] at h
          obtain ⟨rfl, rfl⟩ := h
          refine ⟨rfl, rfl, rfl, fun op' current' hc hsome _ => ?_⟩
          obtain ⟨rfl, rfl⟩ := Call.loaded.inj hc
          rw [hnext] at hsome
          exact Bool.noConfusion hsome
      | some n =>
          rw [hnext, Option.some.injEq, Prod.mk.injEq, put_fst] at h
          obtain ⟨rfl, rfl⟩ := h
          have hentries := put_entries db op.key (decimal n.toNat)
          cases hwrite : canWrite db op.key with
          | false =>
              left
              rw [hwrite, if_neg Bool.false_ne_true] at hentries
              refine ⟨rfl, rfl, funext fun key => numberAt_congr hentries key,
                fun op' current' hc _ htrue => ?_⟩
              obtain ⟨rfl, rfl⟩ := Call.loaded.inj hc
              rw [hwrite] at htrue
              exact Bool.noConfusion htrue
          | true =>
              right
              rw [hwrite, if_pos rfl] at hentries
              refine ⟨op, current, n, rfl, hnext, hwrite, rfl, funext fun key => ?_⟩
              rw [numberAt_set (isValidKey_of_canWrite hwrite) n hentries key,
                Function.update_apply]
              simp only [eq_comm]

theorem filterMap_set_perm {α β : Type} {f : α → Option β} {l : List α} {i : ℕ} {a : α} (a' : α)
    (h : l[i]? = some a) (hf : f a = none) :
    ((l.set i a').filterMap f).Perm ((f a').toList ++ l.filterMap f) := by
  induction l generalizing i with
  | nil => cases h
  | cons b l ih =>
      cases i with
      | zero =>
          obtain rfl : b = a := Option.some.inj h
          rw [List.set_cons_zero, List.filterMap_cons, List.filterMap_cons, hf]
          cases f a' with
          | none => exact List.Perm.refl _
          | some x => exact List.Perm.refl _
      | succ i =>
          rw [List.set_cons_succ, List.filterMap_cons, List.filterMap_cons]
          cases f b with
          | none => exact ih h
          | some x => exact ((ih h).cons x).trans List.perm_middle.symm

/-! ### Runs -/

/-- The successful operations, in some order, lead from the numbers at the start to those of now. -/
def Serialized (initial : DB) (s : Threads DB Call) : Prop :=
  ∃ order, order.Perm (successes s) ∧ serial (numberAt initial) order = some (numberAt s.shared)

theorem sums_perm {l l' : List Op} (h : l.Perm l') (address : Str) :
    added address l = added address l' ∧ deducted address l = deducted address l' ∧
      incremented address l = incremented address l' :=
  ⟨(h.map _).sum_eq, (h.map _).sum_eq, (h.map _).sum_eq⟩

/-- **Where the operations can be put in an order, nothing is lost.** -/
theorem Serialized.lossless (h : Serialized initial s) : Lossless initial s := by
  obtain ⟨order, hperm, hserial⟩ := h
  refine ⟨fun address => ?_, fun address => ?_, order, hperm, by rw [hserial]; rfl⟩
  · obtain ⟨hadded, hdeducted, -⟩ := sums_perm hperm address
    rw [← hadded, ← hdeducted]
    exact (serial_sums hserial address).1
  · obtain ⟨-, -, hincremented⟩ := sums_perm hperm address
    rw [← hincremented]
    exact (serial_sums hserial address).2

theorem fresh_of_lossless {current n : UInt64} (hnext : op.next current = some n)
    (hs : Lossless initial s) (ht : Lossless initial t)
    (hperm : (successes t).Perm (op :: successes s))
    (hnumber : numberAt t.shared op.key = n.toNat) : current.toNat = numberAt s.shared op.key := by
  have heffect := Op.effect_of_next hnext
  have hsums := sums_perm hperm
  cases op with
  | add a amount =>
      obtain ⟨hadded, hdeducted, -⟩ := hsums a
      have hbefore := hs.balances a
      have hafter := ht.balances a
      have hself : added a [Op.add a amount] = amount.toNat := by simp [added]
      have hnone : deducted a [Op.add a amount] = 0 := rfl
      rw [hadded, hdeducted, added_cons, deducted_cons, hself, hnone] at hafter
      rw [Op.key] at hnumber ⊢
      have hn := Option.some.inj heffect
      omega
  | deduct a amount =>
      obtain ⟨hadded, hdeducted, -⟩ := hsums a
      have hbefore := hs.balances a
      have hafter := ht.balances a
      have hself : deducted a [Op.deduct a amount] = amount.toNat := by simp [deducted]
      have hnone : added a [Op.deduct a amount] = 0 := rfl
      rw [hadded, hdeducted, added_cons, deducted_cons, hself, hnone] at hafter
      rw [Op.key] at hnumber ⊢
      rw [Op.effect] at heffect
      split at heffect
      · have hn := Option.some.inj heffect
        omega
      · cases heffect
  | increment a =>
      obtain ⟨-, -, hincremented⟩ := hsums a
      have hbefore := hs.nonces a
      have hafter := ht.nonces a
      have hself : incremented a [Op.increment a] = 1 := by simp [incremented]
      rw [hincremented, incremented_cons, hself] at hafter
      rw [Op.key] at hnumber ⊢
      have hn := Option.some.inj heffect
      omega

/-- **What a step must do to lose nothing**: a write that goes through must be fresh. -/
theorem lossless_step_iff {e : ℕ × Unit} (h : Serialized initial s) (hstep : system s e = some t) :
    (Lossless initial t ↔ Fresh s e.1) ∧ (Fresh s e.1 → Serialized initial t) := by
  obtain ⟨c, db', c', hc, hact, rfl⟩ := Threads.step_eq_some hstep
  obtain ⟨order, hperm, hserial⟩ := id h
  rcases act_cases hact with ⟨hnone, hnone', hnumbers, hquiet⟩ |
    ⟨op, current, n, rfl, hnext, hwrite, rfl, hnumbers⟩
  · -- nothing that shows
    have hsame := filterMap_set_perm c' hc hnone
    rw [hnone', Option.toList_none, List.nil_append] at hsame
    have hserialized : Serialized initial ⟨db', s.locals.set e.1 c'⟩ :=
      ⟨order, hperm.trans hsame.symm, by rw [hserial, hnumbers]⟩
    have hfresh : Fresh s e.1 := by
      rw [Fresh, hc]
      split
      · next op current hloaded =>
          exact fun hsome hwrite => (hquiet op current (Option.some.inj hloaded) hsome hwrite).elim
      · trivial
    exact ⟨iff_of_true hserialized.lossless hfresh, fun _ => hserialized⟩
  · -- a write that goes through
    have hnew := filterMap_set_perm (.done op true) hc
      (rfl : Call.success (.loaded op current) = none)
    have hfresh : Fresh s e.1 ↔ current.toNat = numberAt s.shared op.key := by
      rw [Fresh, hc]
      simp only [hnext, hwrite, Option.isSome_some, true_imp_iff]
    have hserialized :
        Fresh s e.1 → Serialized initial ⟨db', s.locals.set e.1 (.done op true)⟩ := by
      intro hf
      refine ⟨order ++ [op], ?_, ?_⟩
      · exact (List.perm_append_singleton op order).trans ((hperm.cons op).trans hnew.symm)
      · rw [serial_concat, hserial, Option.bind_some, Op.run, ← hfresh.1 hf,
          Op.effect_of_next hnext, hnumbers]
        rfl
    refine ⟨⟨fun ht => hfresh.2 ?_, fun hf => (hserialized hf).lossless⟩, hserialized⟩
    refine fresh_of_lossless hnext h.lossless ht hnew ?_
    rw [hnumbers, Function.update_self]

/-- **No update is lost in a run exactly if every write is fresh.** -/
theorem lossless_iff (db : DB) (ops : List Op) (es : List (ℕ × Unit)) :
    EveryStep system (fun _ _ t => Lossless db t) ⟨db, ops.map .start⟩ es ↔
      EveryStep system (fun s e _ => Fresh s e.1) ⟨db, ops.map .start⟩ es := by
  have hstart : Serialized db ⟨db, ops.map .start⟩ := by
    refine ⟨[], ?_, rfl⟩
    have hnone : successes ⟨db, ops.map .start⟩ = [] := by
      rw [successes, List.filterMap_map]
      exact List.filterMap_eq_nil_iff.2 fun _ _ => rfl
    rw [hnone]
  have hstep : ∀ (s : Threads DB Call) (e : ℕ × Unit) (t : Threads DB Call), Serialized db s →
      system s e = some t → (Lossless db t ↔ Fresh s e.1) ∧ (Fresh s e.1 → Serialized db t) :=
    fun _ _ _ hs h => lossless_step_iff hs h
  exact everyStep_iff (P := fun _ _ t => Lossless db t)
    (Q := fun s (e : ℕ × Unit) _ => Fresh s e.1) hstep hstart

/-- **Two credits that overlap.** Both read zero; the second write undoes the first. -/
theorem not_lossless_overlap :
    ¬ EveryStep system (fun _ _ t => Lossless {} t)
      ⟨{}, [Op.add (str "a") 5, Op.add (str "a") 7].map .start⟩
      [(0, ()), (1, ()), (0, ()), (1, ())] := by
  intro h
  have hend : EveryStep system (fun _ _ t => Lossless {} t)
      ⟨{}, [Op.add (str "a") 5, Op.add (str "a") 7].map .start⟩
      ([(0, ()), (1, ()), (0, ())] ++ [(1, ())]) := h
  obtain ⟨t, ht, hsum⟩ := hend.exists_end
    (q := fun t => numberAt t.shared (balanceKey (str "a")) + deducted (str "a") (successes t) !=
      numberAt {} (balanceKey (str "a")) + added (str "a") (successes t)) (by decide +kernel)
  exact bne_iff_ne.1 hsum (ht.balances (str "a"))

/-! ### Calls that do not overlap -/

end Accounts
