/-
**Replay protection of transfers.**

The state keeps, for every address, the nonce its next transfer must carry.  This module shows
that this is the number of transfers of the address on the chain, and that they carry the nonces
`0, 1, 2, …` in chain order.  So no transfer is applied twice, within a block or across blocks,
in whatever form its signature was written; and since the signed text names the genesis hash of
the network, a signature made for one network moves nothing on another.

Main definitions:

* `Medac.State.transactions` — all the transfers of a chain, in order;
* `Medac.sentBy` — those of one sender.

Main results:

* `Medac.Ledger.Steps.nonces` — what the loop over a block does to the nonces;
* `Medac.Reachable.nonces` — **the nonces count the transfers**;
* `Medac.transfers_not_replayed` — **replay protection**.
-/

import MedorCoin.Medac.Mine
import Mathlib.Data.List.Nodup
import Mathlib.Data.List.Range

set_option autoImplicit false

namespace Medac

open Js

/-- All the transfers of a chain, in order. -/
def State.transactions (s : State) : List Transaction := s.blocks.flatMap (·.transactions)

/-- The transfers of one sender. -/
def sentBy (a : Address) (ts : List Transaction) : List Transaction :=
  ts.filter fun t => t.sender = a

theorem nodup_map_pair {α κ ν : Type} [DecidableEq κ] (f : α → κ) (g : α → ν) {l : List α}
    (h : ∀ k, ((l.filter fun x => f x = k).map g).Nodup) : (l.map fun x => (f x, g x)).Nodup := by
  induction l with
  | nil => exact List.nodup_nil
  | cons x l ih =>
      rw [List.map_cons, List.nodup_cons]
      constructor
      · intro hmem
        obtain ⟨y, hy, heq⟩ := List.mem_map.1 hmem
        rw [Prod.mk.injEq] at heq
        have hx := h (f x)
        rw [List.filter_cons_of_pos (by simp), List.map_cons, List.nodup_cons] at hx
        refine hx.1 (List.mem_map.2 ⟨y, List.mem_filter.2 ⟨hy, by simp [heq.1]⟩, heq.2⟩)
      · refine ih fun k => ?_
        have hk := h k
        rw [List.filter_cons] at hk
        split at hk
        · exact (List.nodup_cons.1 hk).2
        · exact hk

variable {c : Crypto} {config : Consensus} {g : Str} {s : State}

/-! ### The nonces of a block -/

theorem Ledger.nonceOf_after (l : Ledger) (t : Transaction) (a : Address) :
    nonceOf (l.after c t).nonces a =
      if t.sender = a then nonceOf l.nonces a + 1 else nonceOf l.nonces a := by
  simp only [nonceOf, Ledger.after, Map.get?_set]
  split
  · next h => rw [h, Option.getD_some]
  · rfl

/-- **What the loop over a block does to the nonces**: the transfers of every sender carry
consecutive nonces from the one expected first, and the one expected next follows the last. -/
theorem Ledger.Steps.nonces {l l' : Ledger} {ts : List Transaction} (h : Steps c g l ts l')
    (a : Address) :
    nonceOf l'.nonces a = nonceOf l.nonces a + (sentBy a ts).length ∧
      (sentBy a ts).map (·.nonce) = List.range' (nonceOf l.nonces a) (sentBy a ts).length := by
  induction h with
  | nil l => exact ⟨rfl, rfl⟩
  | @cons l l' t ts hadmits _ ih =>
      obtain ⟨hnext, hnonces⟩ := ih
      rw [nonceOf_after] at hnext hnonces
      by_cases hsender : t.sender = a
      · have hcons : sentBy a (t :: ts) = t :: sentBy a ts :=
          List.filter_cons_of_pos (by simp [hsender])
        have hnonce : t.nonce = nonceOf l.nonces a := hsender ▸ hadmits.nonce
        rw [if_pos hsender] at hnext hnonces
        rw [hcons, List.length_cons, List.map_cons, List.range'_succ, hnonces, hnonce]
        exact ⟨by omega, rfl⟩
      · have hcons : sentBy a (t :: ts) = sentBy a ts :=
          List.filter_cons_of_neg (by simp [hsender])
        rw [if_neg hsender] at hnext hnonces
        rw [hcons]
        exact ⟨hnext, hnonces⟩

/-- All the transfers of a block are for its network. -/
theorem Ledger.Steps.network {l l' : Ledger} {ts : List Transaction} (h : Steps c g l ts l') :
    ∀ t ∈ ts, t.genesisHash = g := by
  induction h with
  | nil l => simp
  | cons hadmits _ ih => simpa using ⟨hadmits.network, ih⟩

/-! ### The nonces of a chain -/

theorem State.transactions_next (s : State) (b : Block) (reward : ℕ) (l : Ledger) :
    (s.next b reward l).transactions = s.transactions ++ b.transactions := by
  simp [transactions, next]

/-- **The nonces count the transfers**: the nonce an address must use next is the number of its
transfers so far, and these carry the nonces from zero on, in order. -/
theorem Reachable.nonces (h : Reachable c config s) (a : Address) :
    nonceOf s.nonces a = (sentBy a s.transactions).length ∧
      (sentBy a s.transactions).map (·.nonce) =
        List.range (sentBy a s.transactions).length := by
  let P (s : State) : Prop := nonceOf s.nonces a = (sentBy a s.transactions).length ∧
    (sentBy a s.transactions).map (·.nonce) = List.range (sentBy a s.transactions).length
  refine h.induction (P := P) ⟨rfl, rfl⟩ fun {s _ b reward l} _ _ haccepts ih => ?_
  obtain ⟨hcount, hnonces⟩ := ih
  obtain ⟨hnext, hblock⟩ := haccepts.ledger.nonces a
  have hstart : nonceOf s.ledger.nonces a = (sentBy a s.transactions).length := hcount
  have happend : sentBy a (s.transactions ++ b.transactions) =
      sentBy a s.transactions ++ sentBy a b.transactions := List.filter_append ..
  simp only [P]
  rw [State.transactions_next, happend, List.length_append, List.map_append, hnonces, hblock,
    hstart]
  refine ⟨by simpa only [State.next, hstart] using hnext, ?_⟩
  rw [List.range_eq_range', List.range_eq_range', ← List.range'_append_1, Nat.zero_add]

theorem Reachable.transactions_accepted (h : Reachable c config s) :
    ∀ t ∈ s.transactions, t.Accepted c ∧ t.genesisHash = s.genesisHash := by
  let P (s : State) : Prop := ∀ t ∈ s.transactions, t.Accepted c ∧ t.genesisHash = s.genesisHash
  refine h.induction (P := P) (by simp [P, State.transactions, genesisState]) ?_
  intro s now b reward l _ _ haccepts ih t ht
  rw [State.transactions_next, List.mem_append] at ht
  rcases ht with hold | hnew
  · exact ih t hold
  · exact ⟨haccepts.transactions t hnew, haccepts.ledger.network t hnew⟩

/-- **Replay protection.**  The nonce of every address counts its transfers on the chain, which
carry the nonces from zero on; so no sender uses a nonce twice, and no signed text is applied
twice.  Suppose that `made a text signature` says that the holder of `a` made a signature for a
text, that `verifyMessage` recovers only addresses whose holders made the signature for that
text, and that one signature is made for one text only.  Then a signature that was made for any
transfer, and is used on the chain, was made for a transfer of this network. -/
theorem transfers_not_replayed (h : Reachable c config s) :
    (∀ a, nonceOf s.nonces a = (sentBy a s.transactions).length ∧
      (sentBy a s.transactions).map (·.nonce) = List.range (sentBy a s.transactions).length) ∧
    (s.transactions.map fun t => (t.sender, t.nonce)).Nodup ∧
    (s.transactions.map fun t => t.signingPayload).Nodup ∧
    ∀ made : Address → Str → Str → Prop,
      (∀ text signature recovered a, c.verifyMessage text signature = .ok recovered →
        normalizeAddress (some (.str recovered)) = .ok a → made a text signature) →
      (∀ a text text' signature, made a text signature → made a text' signature →
        text = text') →
      ∀ t ∈ s.transactions, made t.sender t.signingPayload t.signature.val ∧
        ∀ t' : Transfer, made t.sender t'.signingPayload t.signature.val →
          t'.genesisHash = s.genesisHash := by
  have hnonces := h.nonces
  have hpairs : (s.transactions.map fun t => (t.sender, t.nonce)).Nodup := by
    refine nodup_map_pair _ _ fun a => ?_
    have hrange := (hnonces a).2
    rw [sentBy] at hrange
    rw [hrange]
    exact List.nodup_range
  refine ⟨hnonces, hpairs, ?_, ?_⟩
  · -- the signed text determines the sender and the nonce
    have hdistinct := List.Nodup.of_map _ hpairs
    refine (List.nodup_map_iff_inj_on hdistinct).2 fun t ht t' ht' heq => ?_
    have htransfer : t.toTransfer = t'.toTransfer := Transfer.signingPayload_injective heq
    exact (List.nodup_map_iff_inj_on hdistinct).1 hpairs t ht t' ht' (by rw [htransfer])
  · intro made hunforgeable hexact t ht
    obtain ⟨haccepted, hnetwork⟩ := h.transactions_accepted t ht
    obtain ⟨recovered, hrecovered, hsender⟩ := haccepted.signer
    have hmade := hunforgeable _ _ _ _ hrecovered hsender
    refine ⟨hmade, fun t' ht' => ?_⟩
    have htext := hexact _ _ _ _ ht' hmade
    rw [Transfer.signingPayload_injective htext, hnetwork]

def sampleMade (a : Address) (text signature : Str) : Prop :=
  a = sampleMiner ∧ text = sampleTransfer.signingPayload ∧ signature = sampleSignature.val

theorem sampleMade_of_verifyMessage (text signature recovered : Str) (a : Address)
    (h : sampleCrypto.verifyMessage text signature = .ok recovered)
    (ha : normalizeAddress (some (.str recovered)) = .ok a) : sampleMade a text signature := by
  simp only [sampleCrypto] at h
  split at h
  · next hsigned =>
      cases h
      have hminer : normalizeAddress (some (.str
          "0x7E5F4552091A69125d5DfCb7b8C2659029395Bdf".toList)) = .ok sampleMiner := by
        decide +kernel
      rw [hminer, Except.ok.injEq] at ha
      exact ⟨ha.symm, hsigned⟩
  · cases h

/-- On the small network no signed text is applied twice, and the signatures on its chain were
made for it. -/
theorem transfers_not_replayed_sampleChain :
    (sampleChain.transactions.map fun t => t.signingPayload).Nodup ∧
      ∀ t ∈ sampleChain.transactions, ∀ t' : Transfer,
        sampleMade t.sender t'.signingPayload t.signature.val →
          t'.genesisHash = sampleChain.genesisHash := by
  obtain ⟨-, -, hdistinct, hsigned⟩ := transfers_not_replayed sampleChain_reachable
  refine ⟨hdistinct, fun t ht => ?_⟩
  exact (hsigned sampleMade sampleMade_of_verifyMessage
    (fun _ _ _ _ h h' => h.2.1.trans h'.2.1.symm) t ht).2

end Medac
