/-
**Heights that are confirmed again and again.**

The master learns of a success from the value of `confirmBlock`, which has none.  So it never takes
over the tip of the engine: it sends out the same height for ever, on the same previous hash, and
the engine confirms whatever comes back.  The first confirmation of a run already leaves the master
behind the engine, and none of the later ones can repair this.

Main definitions:

* `Orchestrator.Inv` — as long as no confirmation goes through, all that is under way is for the
  height after the tip.

Main results:

* `Orchestrator.Inv.step` — safe steps keep the invariant;
* `Orchestrator.Inv.safe_of_sound` — a step after which the master has the tip of the engine is
  safe;
* `Orchestrator.sound_iff_unconfirmed` — **the master and the engine stay together exactly as long
  as nothing is confirmed**;
* `Orchestrator.height_confirmed_twice` — two workers that solve one work load.
-/

import MedorCoin.Mining.Orchestrator
import MedorCoin.Transition.Tasks

set_option autoImplicit false

namespace Orchestrator

open Js Transition TransactionEngine

/-- **As long as no confirmation goes through.** -/
structure Inv (s : State) : Prop where
  confirmed : s.confirmed = []
  currentHeight : s.currentHeight = s.engine.currentHeight
  lastBlockHash : s.lastBlockHash = s.engine.lastBlockHash
  inbox : ∀ worker, ∀ load ∈ s.inbox worker, load.height = s.currentHeight + 1
  job : ∀ worker, ∀ load ∈ s.job worker, load.height = s.currentHeight + 1
  messages : ∀ msg ∈ s.messages, msg.load.height = s.currentHeight + 1
  queue : ∀ msg ∈ s.queue, msg.load.height = s.currentHeight + 1

namespace Inv

variable {computeRoot : List Json → Str} {s s' : State}

theorem sound (h : Inv s) : Sound s := by
  refine ⟨?_, ?_, ?_, h.currentHeight, h.lastBlockHash⟩
  · rw [h.confirmed]
    exact List.nodup_nil
  · rw [State.txHashes, h.confirmed]
    exact List.nodup_nil
  · rw [h.confirmed]
    exact List.isChain_nil

theorem update_job (h : Inv s) (worker : ℕ) {workLoad : Option WorkLoad}
    (hload : ∀ load ∈ workLoad, load.height = s.currentHeight + 1) :
    ∀ w, ∀ load ∈ Function.update s.job worker workLoad w, load.height = s.currentHeight + 1 := by
  intro w load hmem
  by_cases heq : w = worker
  · subst heq
    rw [Function.update_self] at hmem
    exact hload load hmem
  · rw [Function.update_of_ne heq] at hmem
    exact h.job w load hmem

theorem update_inbox (h : Inv s) (worker : ℕ) {rest : List WorkLoad}
    (hrest : ∀ load ∈ rest, load ∈ s.inbox worker) :
    ∀ w, ∀ load ∈ Function.update s.inbox worker rest w, load.height = s.currentHeight + 1 := by
  intro w load hmem
  by_cases heq : w = worker
  · subst heq
    rw [Function.update_self] at hmem
    exact h.inbox w load (hrest load hmem)
  · rw [Function.update_of_ne heq] at hmem
    exact h.inbox w load hmem

theorem queue_tail (h : Inv s) {msg : Found} {queue : List Found}
    (hqueue : s.queue = msg :: queue) :
    ∀ m ∈ queue, m.load.height = s.currentHeight + 1 := by
  intro m hm
  refine h.queue m ?_
  rw [hqueue]
  exact List.mem_cons_of_mem _ hm

theorem isSome_confirmBlock (computeRoot : List Json → Str) (e : Engine) (transactions : List Tx)
    (miner hash : Str) (height : ℤ) :
    (e.confirmBlock computeRoot transactions miner hash height).isSome
      = (transactions.mapM transfer?).isSome := Option.isSome_map

/-- **Safe steps keep the invariant.** -/
theorem step (h : Inv s) {e : Event} (hsafe : Safe s e s')
    (hstep : step computeRoot s e = some s') : Inv s' := by
  cases e with
  | dispatch workers txs targetMiner =>
      cases hstep
      refine ⟨h.confirmed, h.currentHeight, h.lastBlockHash, ?_, h.job, h.messages, h.queue⟩
      intro worker load hmem
      simp only at hmem
      split at hmem
      · rcases mem_concat_cases hmem with hmem | rfl
        · exact h.inbox worker load hmem
        · rfl
      · exact h.inbox worker load hmem
  | receive worker =>
      simp only [Orchestrator.step] at hstep
      split at hstep
      · cases hstep
      · next workLoad rest hinbox =>
          cases hstep
          have hall := h.inbox worker
          rw [hinbox] at hall
          refine ⟨h.confirmed, h.currentHeight, h.lastBlockHash, ?_, ?_, h.messages, h.queue⟩
          · refine h.update_inbox worker ?_
            intro load hmem
            rw [hinbox]
            exact List.mem_cons_of_mem _ hmem
          · refine h.update_job worker ?_
            intro load hmem
            cases hmem
            exact hall _ List.mem_cons_self
  | found worker hash =>
      simp only [Orchestrator.step] at hstep
      split at hstep
      · cases hstep
      · next workLoad hjob =>
          cases hstep
          refine ⟨h.confirmed, h.currentHeight, h.lastBlockHash, h.inbox, ?_, ?_, h.queue⟩
          · refine h.update_job worker ?_
            intro load hmem
            cases hmem
          · intro msg hmsg
            rcases mem_concat_cases hmsg with hmsg | rfl
            · exact h.messages msg hmsg
            · exact h.job worker workLoad hjob
  | giveUp worker =>
      cases hstep
      refine ⟨h.confirmed, h.currentHeight, h.lastBlockHash, h.inbox, ?_, h.messages, h.queue⟩
      refine h.update_job worker ?_
      intro load hmem
      cases hmem
  | exit worker =>
      cases hstep
      refine ⟨h.confirmed, h.currentHeight, h.lastBlockHash, ?_, ?_, h.messages, h.queue⟩
      · refine h.update_inbox worker ?_
        intro load hmem
        cases hmem
      · refine h.update_job worker ?_
        intro load hmem
        cases hmem
  | handle i =>
      simp only [Orchestrator.step] at hstep
      split at hstep
      · cases hstep
      · next msg hmsg =>
          cases hstep
          refine ⟨h.confirmed, h.currentHeight, h.lastBlockHash, h.inbox, h.job, ?_, ?_⟩
          · exact fun m hm => h.messages m (List.mem_of_mem_eraseIdx hm)
          · intro m hm
            rcases mem_concat_cases hm with hm | rfl
            · exact h.queue m hm
            · exact h.messages _ (mem_of_getElem? hmsg)
  | confirm =>
      simp only [Orchestrator.step] at hstep
      cases hqueue : s.queue with
      | nil =>
          rw [hqueue] at hstep
          cases hstep
      | cons msg queue =>
          simp only [Safe, hqueue] at hsafe
          rw [hqueue] at hstep
          simp only at hstep
          split at hstep
          · cases hstep
            exact ⟨h.confirmed, h.currentHeight, h.lastBlockHash, h.inbox, h.job, h.messages,
              h.queue_tail hqueue⟩
          · next hrejected =>
              split at hstep
              · cases hstep
                exact ⟨h.confirmed, h.currentHeight, h.lastBlockHash, h.inbox, h.job, h.messages,
                  h.queue_tail hqueue⟩
              · next engine hconfirm =>
                  have hsome := isSome_confirmBlock computeRoot s.engine
                    msg.load.mempool msg.load.minerAddress msg.hash msg.load.height
                  rw [hconfirm, hsafe.resolve_left hrejected] at hsome
                  cases hsome

/-- **A step after which the master has the tip of the engine is safe.** -/
theorem safe_of_sound (h : Inv s) {e : Event} (hstep : Orchestrator.step computeRoot s e = some s')
    (hsound : Sound s') : Safe s e s' := by
  cases e with
  | confirm =>
      simp only [Orchestrator.step] at hstep
      simp only [Safe]
      cases hqueue : s.queue with
      | nil => trivial
      | cons msg queue =>
          rw [hqueue] at hstep
          simp only at hstep ⊢
          split at hstep
          · next hrejected => exact Or.inl hrejected
          · split at hstep
            · next hnone =>
                refine Or.inr ?_
                rw [← isSome_confirmBlock computeRoot s.engine
                  msg.load.mempool msg.load.minerAddress msg.hash msg.load.height, hnone]
                rfl
            · next engine hconfirm =>
                -- the engine is at the next height now, and the master is not
                obtain ⟨transfers, -, rfl⟩ := Option.map_eq_some_iff.1 hconfirm
                cases hstep
                have htip : s.currentHeight = msg.load.height := hsound.currentHeight
                have hmsg := h.queue msg (by rw [hqueue]; exact List.mem_cons_self)
                omega
  | _ => trivial

theorem start (hmac : Str → Str) (db : Database) (wal : Str) : Inv (start hmac db wal) := by
  refine ⟨rfl, rfl, rfl, ?_, ?_, ?_, ?_⟩ <;> simp [Orchestrator.start]

end Inv

/-! ### Runs -/

/-- **The master and the engine stay together exactly as long as nothing is confirmed.** -/
theorem sound_iff_unconfirmed (computeRoot : List Json → Str) (hmac : Str → Str) (db : Database)
    (wal : Str) (events : List Event) :
    EveryStep (step computeRoot) (fun _ _ s' => Sound s') (start hmac db wal) events ↔
      EveryStep (step computeRoot) Safe (start hmac db wal) events := by
  refine everyStep_iff (I := Inv) ?_ (Inv.start hmac db wal)
  intro s e s' h hstep
  refine ⟨⟨h.safe_of_sound hstep, fun hsafe => (h.step hsafe hstep).sound⟩, ?_⟩
  exact fun hsafe => h.step hsafe hstep

def sampleEvents : List Event :=
  [.dispatch [1, 2] [] "miner".toList, .receive 1, .receive 2, .found 1 "00a1".toList,
   .found 2 "00b2".toList, .handle 0, .handle 0, .confirm]

/-- **A height is confirmed twice.** -/
theorem height_confirmed_twice :
    ¬ ∀ (computeRoot : List Json → Str) (hmac : Str → Str) (db : Database) (wal : Str)
      (events : List Event),
      EveryStep (step computeRoot) (fun _ _ s' => Sound s') (start hmac db wal) events := by
  intro h
  obtain ⟨t, hsound, ht⟩ := (h (fun _ => []) id Database.empty []
    (sampleEvents ++ [.confirm])).exists_end
    (q := fun t => t.confirmed.map (·.load.height) == [1, 1]) (by decide +kernel)
  have hheights := hsound.heights
  rw [beq_iff_eq.1 ht] at hheights
  exact absurd hheights (by decide)

end Orchestrator
