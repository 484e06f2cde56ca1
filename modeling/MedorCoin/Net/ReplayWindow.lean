/-
**How long a message is remembered.**

The peer manager remembers the ids of messages in two buckets, so that a message which comes again
is dropped.  The active bucket becomes the stale one when it holds half of `SEEN_MAX` ids.  The
cleanup empties both.

Main definitions:

* `Net.SeenMessages`, `SeenMessages.markSeen`, `SeenMessages.cleanupSeenMessages` — the part of the
  peer manager that drops replays;
* `SeenMessages.markAll` — the ids that a list of calls accepts, and the state they leave.

Main results:

* `Net.SeenMessages.markSeen_spec` — **one call**: the buckets put in what they do not remember;
* `Net.SeenMessages.exists_holds` — **many calls**: the buckets hold the end of what was accepted;
* `Net.SeenMessages.replay_window` — **how long an id is remembered**.
-/

import MedorCoin.Cache.Forgetting
import MedorCoin.Cpp.Text

set_option autoImplicit false

namespace Net

open Cpp Cache

/-- `SEEN_MAX`. -/
def SEEN_MAX : ℕ := 500000

/-- `seenActive_`, `seenStale_` and `metrics_.replayRejected`. -/
structure SeenMessages where
  seenActive : Finset Str := ∅
  seenStale : Finset Str := ∅
  replayRejected : UInt64 := 0

namespace SeenMessages

/-- `markSeen(msgId)`. -/
def markSeen (s : SeenMessages) (msgId : Str) : Bool × SeenMessages :=
  if msgId ∈ s.seenStale ∨ msgId ∈ s.seenActive then
    (false, { s with replayRejected := s.replayRejected + 1 })
  else
    let s := { s with seenActive := insert msgId s.seenActive }
    if s.seenActive.card ≥ SEEN_MAX / 2 then
      (true, { s with seenStale := s.seenActive, seenActive := ∅ })
    else (true, s)

/-- `cleanupSeenMessages()`. -/
def cleanupSeenMessages (s : SeenMessages) : SeenMessages :=
  { s with seenActive := ∅, seenStale := ∅ }

/-- One call after another: the ids that are accepted, oldest first, and the state at the end. -/
def markAll (s : SeenMessages) : List Str → List Str × SeenMessages
  | [] => ([], s)
  | msgId :: ids =>
      match s.markSeen msgId with
      | (true, s') => ((msgId :: (s'.markAll ids).1), (s'.markAll ids).2)
      | (false, s') => s'.markAll ids

/-- The two buckets. -/
def buckets (s : SeenMessages) : TwoBuckets Str := ⟨s.seenActive, s.seenStale⟩

@[simp] theorem buckets_cleanup (s : SeenMessages) : s.cleanupSeenMessages.buckets = {} := rfl

/-- **One call**: an id that is remembered is rejected, and another one is put in. -/
theorem markSeen_spec (s : SeenMessages) (msgId : Str) :
    (s.buckets.Remembers msgId ∧ (s.markSeen msgId).1 = false ∧
      (s.markSeen msgId).2.buckets = s.buckets) ∨
    (¬ s.buckets.Remembers msgId ∧ (s.markSeen msgId).1 = true ∧
      (s.markSeen msgId).2.buckets = s.buckets.put (SEEN_MAX / 2) msgId) := by
  rw [markSeen]
  by_cases hseen : msgId ∈ s.seenStale ∨ msgId ∈ s.seenActive
  · rw [if_pos hseen]
    exact Or.inl ⟨hseen, rfl, rfl⟩
  · rw [if_neg hseen]
    refine Or.inr ⟨hseen, ?_⟩
    by_cases hfull : (insert msgId s.seenActive).card ≥ SEEN_MAX / 2
    · rw [TwoBuckets.put_of_full hfull, if_pos hfull]
      exact ⟨rfl, rfl⟩
    · rw [TwoBuckets.put_of_room hfull, if_neg hfull]
      exact ⟨rfl, rfl⟩

theorem markSeen_eq_true_iff (s : SeenMessages) (msgId : Str) :
    (s.markSeen msgId).1 = true ↔ ¬ s.buckets.Remembers msgId := by
  rcases s.markSeen_spec msgId with ⟨hseen, hfalse, -⟩ | ⟨hseen, htrue, -⟩
  · simp [hfalse, hseen]
  · simp [htrue, hseen]

/-- **Many calls**: what the buckets hold is the end of what was accepted before and now. -/
theorem holds_markAll {s : SeenMessages} {before forgotten stale active : List Str}
    (h : TwoBuckets.Holds (SEEN_MAX / 2) before s.buckets forgotten stale active)
    (ids : List Str) :
    ∃ forgotten stale active, TwoBuckets.Holds (SEEN_MAX / 2) (before ++ (s.markAll ids).1)
      (s.markAll ids).2.buckets forgotten stale active := by
  induction ids generalizing s before forgotten stale active with
  | nil => exact ⟨forgotten, stale, active, by simpa [markAll] using h⟩
  | cons msgId ids ih =>
      rcases s.markSeen_spec msgId with ⟨-, hresult, hbuckets⟩ | ⟨hseen, hresult, hbuckets⟩ <;>
        obtain ⟨accepted, s', hs'⟩ : ∃ accepted s', s.markSeen msgId = (accepted, s') :=
          ⟨_, _, rfl⟩ <;>
        simp only [hs'] at hresult hbuckets <;> subst hresult <;> simp only [markAll, hs']
      · exact ih (hbuckets ▸ h)
      · obtain ⟨forgotten', stale', active', hput⟩ := h.put hseen
        rw [← hbuckets] at hput
        simpa using ih hput

theorem exists_holds (s : SeenMessages) (ids : List Str) :
    ∃ forgotten stale active, TwoBuckets.Holds (SEEN_MAX / 2)
      (s.cleanupSeenMessages.markAll ids).1 (s.cleanupSeenMessages.markAll ids).2.buckets
      forgotten stale active := by
  have hempty : TwoBuckets.Holds (SEEN_MAX / 2) [] s.cleanupSeenMessages.buckets [] [] [] :=
    TwoBuckets.holds_empty (by decide)
  simpa using holds_markAll hempty ids

/-- **How long an id is remembered**: after any calls since a cleanup, an id is rejected if fewer
than half of `SEEN_MAX` were accepted after it, it is accepted if it never was, and the buckets
share nothing and hold at most `SEEN_MAX` ids. -/
theorem replay_window (s : SeenMessages) (ids : List Str) :
    let accepted := (s.cleanupSeenMessages.markAll ids).1
    let s' := (s.cleanupSeenMessages.markAll ids).2
    (∀ msgId, (∃ k < SEEN_MAX / 2, accepted.reverse[k]? = some msgId) →
      (s'.markSeen msgId).1 = false) ∧
    (∀ msgId ∉ accepted, (s'.markSeen msgId).1 = true) ∧
    Disjoint s'.seenActive s'.seenStale ∧
    s'.seenActive.card + s'.seenStale.card ≤ SEEN_MAX := by
  intro accepted s'
  obtain ⟨forgotten, stale, active, h⟩ := s.exists_holds ids
  refine ⟨?_, ?_, h.disjoint, ?_⟩
  · rintro msgId ⟨k, hk, hmsgId⟩
    rw [← Bool.not_eq_true, markSeen_eq_true_iff, not_not]
    exact h.remembers_of_recent hk hmsgId
  · intro msgId hmsgId
    rw [markSeen_eq_true_iff]
    exact fun hseen => hmsgId (h.mem_of_remembers hseen)
  · exact h.card_lt.le

theorem replay_window_sample :
    (((({} : SeenMessages).cleanupSeenMessages.markAll [str "a"]).2).markSeen (str "a")).1 = false ∧
    (((({} : SeenMessages).cleanupSeenMessages.markAll [str "a"]).2).markSeen (str "b")).1 =
      true := by
  obtain ⟨hrejected, haccepted, -⟩ := replay_window {} [str "a"]
  exact ⟨hrejected (str "a") ⟨0, by decide, by decide +kernel⟩,
    haccepted (str "b") (by decide +kernel)⟩

end SeenMessages

end Net
