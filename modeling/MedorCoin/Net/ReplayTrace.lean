/-
**What a refused transaction leaves in the replay cache.**

`deserializeTx` puts the hash that a message claims into the replay cache before it compares the
hash with the contents and looks at the signature.  A message that fails there has been remembered,
and for an hour the transaction whose hash it claimed is refused as a replay.

Main definitions:

* `Net.ReplayCache.answers` — what the cache answers, one time after another;
* `Net.Genuine` — the hash is the digest of the contents, and the signature is right;
* `Net.Traceless` — a message that is refused, but not as a replay, leaves the answers as they were.

Main results:

* `Net.verifyTx_eq_ok_iff` — what passes behind the replay check is genuine;
* `Net.traceless_iff` — **when a refused message leaves no trace**;
* `Net.refused_after_forgery` — whoever sends a hash makes its transaction be refused.
-/

import MedorCoin.Net.WireTransaction

set_option autoImplicit false

namespace Net

open Cpp Node

/-! ### The answers of the cache -/

namespace ReplayCache

/-- The answers to the hashes of later transactions, at the times of a clock. -/
def answers : ReplayCache → List (UInt64 × Str) → List Bool
  | _, [] => []
  | seen, (now, txHash) :: later =>
      (seen.check now txHash).1 :: answers (seen.check now txHash).2 later

/-- The times do not go back, from a time on. -/
def Steady : UInt64 → List (UInt64 × Str) → Prop
  | _, [] => True
  | now, (time, _) :: later => now ≤ time ∧ Steady time later

theorem check_fst (seen : ReplayCache) (now : UInt64) (txHash : Str) :
    (seen.check now txHash).1 = !(seen.live now).contains txHash := by
  rw [check]
  cases (seen.live now).contains txHash <;> rfl

theorem contains_live_cons (seen : ReplayCache) (now time : UInt64) (txHash : Str)
    (h : time - now ≤ REPLAY_WINDOW_SECONDS) :
    (live ((txHash, now) :: seen) time).contains txHash = true := by
  have hlive : (!decide (time - now > REPLAY_WINDOW_SECONDS)) = true := by
    rw [Bool.not_eq_true', decide_eq_false_iff_not]
    exact UInt64.not_lt.2 h
  simp only [live, List.filter_cons, hlive, if_true]
  simp [contains]

end ReplayCache

section

variable (sha256 : Str → Digest) (lib : Secp256k1)

/-! ### Behind the replay check -/

/-- **The hash is the digest of the contents, and the signature is right**: a key is recovered from
it, and verifies it. -/
def Genuine (tx : Transaction) : Prop :=
  tx.txHash = toHex (contentHash sha256 tx).toList ∧
    0 ≤ computeRecoveryId tx.v tx.chainId ∧
    ∃ key, recoverPubkey lib (contentHash sha256 tx) (sig64 tx)
      (computeRecoveryId tx.v tx.chainId) = some key ∧
      verifyHashWithPubkey lib (contentHash sha256 tx) key (sig64 tx) = true

/-- What passes behind the replay check is genuine; what does not is refused for its hash or its
signature. -/
theorem verifyTx_cases (tx : Transaction) :
    (Genuine sha256 lib tx ∧ verifyTx sha256 lib tx = .ok tx) ∨
    (¬ Genuine sha256 lib tx ∧ ∃ e, verifyTx sha256 lib tx = .error e ∧
      (e.code = .HashMismatch ∨ e.code = .SignatureInvalid)) := by
  rw [verifyTx]
  by_cases hhash : tx.txHash = toHex (contentHash sha256 tx).toList
  · simp only
    rw [if_neg (not_not.2 hhash)]
    by_cases hid : computeRecoveryId tx.v tx.chainId < 0
    · rw [if_pos hid]
      exact .inr ⟨fun h => absurd h.2.1 (Int.not_le.2 hid), _, rfl, .inr rfl⟩
    · rw [if_neg hid]
      cases hkey : recoverPubkey lib (contentHash sha256 tx) (sig64 tx)
          (computeRecoveryId tx.v tx.chainId) with
      | none =>
          refine .inr ⟨?_, _, rfl, .inr rfl⟩
          rintro ⟨-, -, key, hsome, -⟩
          rw [hkey] at hsome
          cases hsome
      | some key =>
          simp only
          by_cases hverify : verifyHashWithPubkey lib (contentHash sha256 tx) key (sig64 tx) = true
          · rw [if_pos hverify]
            exact .inl ⟨⟨hhash, Int.not_lt.1 hid, key, hkey, hverify⟩, rfl⟩
          · rw [if_neg hverify]
            refine .inr ⟨?_, _, rfl, .inr rfl⟩
            rintro ⟨-, -, key', hsome, hright⟩
            rw [hkey, Option.some.injEq] at hsome
            exact hverify (hsome ▸ hright)
  · simp only
    rw [if_pos hhash]
    exact .inr ⟨fun h => hhash h.1, _, rfl, .inl rfl⟩

theorem verifyTx_eq_ok_iff (tx : Transaction) :
    verifyTx sha256 lib tx = .ok tx ↔ Genuine sha256 lib tx := by
  rcases verifyTx_cases sha256 lib tx with ⟨hgenuine, hok⟩ | ⟨hnot, e, herror, -⟩
  · exact iff_of_true hok hgenuine
  · exact iff_of_false (by rw [herror]; exact fun h => nomatch h) hnot

/-! ### Traces -/

/-- **A message that is refused, but not as a replay, leaves the answers as they were.** -/
def Traceless (now : UInt64) (j : Json) (seen : ReplayCache) : Prop :=
  ∀ e, (deserializeTx sha256 lib now j seen).1 = .error e → e.code ≠ .ReplayDetected →
    ∀ later, ReplayCache.Steady now later →
      (deserializeTx sha256 lib now j seen).2.answers later = seen.answers later

theorem deserializeTx_of_readFields (now : UInt64) (seen : ReplayCache) {j : Json}
    {tx : Transaction} (hread : readFields j = .ok tx) :
    ((seen.live now).contains tx.txHash = true ∧
      ∃ e, (deserializeTx sha256 lib now j seen).1 = .error e ∧ e.code = .ReplayDetected) ∨
    ((seen.live now).contains tx.txHash = false ∧
      deserializeTx sha256 lib now j seen =
        (verifyTx sha256 lib tx, (tx.txHash, now) :: seen.live now)) := by
  cases hseen : (seen.live now).contains tx.txHash with
  | true =>
      have hcheck : (seen.check now tx.txHash).1 = false := by
        rw [ReplayCache.check_fst, hseen]
        rfl
      refine .inl ⟨rfl, ⟨.ReplayDetected, str "replay detected: txHash " ++ tx.txHash⟩, ?_, rfl⟩
      rw [deserializeTx, hread]
      simp only
      rw [show seen.check now tx.txHash = (false, (seen.check now tx.txHash).2) from
        Prod.ext hcheck rfl]
      rfl
  | false =>
      refine .inr ⟨rfl, ?_⟩
      rw [deserializeTx, hread]
      simp only
      rw [ReplayCache.check_of_not_contains hseen]

theorem deserializeTx_of_genuine {now : UInt64} {j : Json} {seen : ReplayCache} {tx : Transaction}
    (hread : readFields j = .ok tx) (hseen : (seen.live now).contains tx.txHash = false)
    (h : Genuine sha256 lib tx) : (deserializeTx sha256 lib now j seen).1 = .ok tx := by
  rcases deserializeTx_of_readFields sha256 lib now seen hread with ⟨hold, -⟩ | ⟨-, heq⟩
  · rw [hseen] at hold
    cases hold
  · rw [heq, (verifyTx_eq_ok_iff sha256 lib tx).2 h]

theorem not_traceless_of_not_genuine {now : UInt64} {j : Json} {seen : ReplayCache}
    {tx : Transaction} (hread : readFields j = .ok tx)
    (hseen : (seen.live now).contains tx.txHash = false) (hnot : ¬ Genuine sha256 lib tx) :
    ¬ Traceless sha256 lib now j seen := by
  intro h
  rcases deserializeTx_of_readFields sha256 lib now seen hread with
    ⟨hold, -⟩ | ⟨-, heq⟩
  · rw [hseen] at hold
    cases hold
  rcases verifyTx_cases sha256 lib tx with ⟨hgenuine, -⟩ | ⟨-, e, herror, hcode⟩
  · exact hnot hgenuine
  -- the same hash, asked for once more
  have hanswers := h e (by rw [heq, herror]) (by rcases hcode with hcode | hcode <;> simp [hcode])
    [(now, tx.txHash)] ⟨UInt64.le_refl now, trivial⟩
  have hage : now - now ≤ 3600 := by
    rw [UInt64.sub_self]
    decide
  have hknown := ReplayCache.contains_live_cons (seen.live now) now now tx.txHash hage
  rw [heq] at hanswers
  simp only [ReplayCache.answers, ReplayCache.check_fst, hseen, hknown] at hanswers
  simp at hanswers

/-- **When a refused message leaves no trace**: its fields cannot be read, or its hash was seen
within the hour, or it is genuine and so not refused. -/
theorem traceless_iff (now : UInt64) (j : Json) (seen : ReplayCache) :
    Traceless sha256 lib now j seen ↔ ∀ tx, readFields j = .ok tx →
      (seen.live now).contains tx.txHash = true ∨ Genuine sha256 lib tx := by
  constructor
  · intro h tx hread
    by_contra hnot
    obtain ⟨hseen, hforged⟩ := not_or.1 hnot
    exact not_traceless_of_not_genuine sha256 lib hread (Bool.eq_false_iff.2 hseen) hforged h
  · intro h e herror hcode later _
    cases hread : readFields j with
    | error e' => rw [deserializeTx, hread]
    | ok tx =>
        rcases deserializeTx_of_readFields sha256 lib now seen hread with
          ⟨-, e', herror', hreplay⟩ | ⟨hseen, -⟩
        · rw [herror', Except.error.injEq] at herror
          exact absurd (herror ▸ hreplay) hcode
        · -- a genuine message is not refused
          have hgenuine := (h tx hread).resolve_left (by rw [hseen]; decide)
          rw [deserializeTx_of_genuine sha256 lib hread hseen hgenuine] at herror
          cases herror

/-- **Whoever sends a hash makes its transaction be refused**: if a message is not genuine and its
hash was not seen, then for an hour no message with this hash is let through. -/
theorem refused_after_forgery {now time : UInt64} {j j' : Json} {seen : ReplayCache}
    {tx tx' : Transaction} (hread : readFields j = .ok tx) (hread' : readFields j' = .ok tx')
    (hhash : tx'.txHash = tx.txHash) (hseen : (seen.live now).contains tx.txHash = false)
    (htime : time - now ≤ REPLAY_WINDOW_SECONDS) :
    ∃ e, (deserializeTx sha256 lib time j' (deserializeTx sha256 lib now j seen).2).1 = .error e ∧
      e.code = .ReplayDetected := by
  rcases deserializeTx_of_readFields sha256 lib now seen hread with
    ⟨hold, -⟩ | ⟨-, heq⟩
  · rw [hseen] at hold
    cases hold
  rcases deserializeTx_of_readFields sha256 lib time
    (deserializeTx sha256 lib now j seen).2 hread' with ⟨-, hrefused⟩ | ⟨hnew, -⟩
  · exact hrefused
  · rw [heq, hhash, ReplayCache.contains_live_cons _ _ _ _ htime] at hnew
    cases hnew

end

/-! ### A forged signature -/

/-- The hash of another one's transaction, under a signature that is made up. -/
def forgedTx : Transaction := { signedTx with r := Vector.replicate 32 0 }

theorem bounded_forgedTx : Bounded forgedTx where
  chainId := rfl
  txHash := by decide
  toAddress := by decide +kernel
  data := by decide
  outputIndex := by decide

/-- The transaction of the owner is accepted before the forged one was sent, and refused
afterwards. -/
theorem not_traceless :
    (¬ ∀ sha256 lib now j seen, Traceless sha256 lib now j seen) ∧
    (deserializeTx sha256Digest signedLib 5001 (serializeTx signedTx) []).1 = .ok signedTx ∧
    ∃ e, (deserializeTx sha256Digest signedLib 5001 (serializeTx signedTx)
      (deserializeTx sha256Digest signedLib 5000 (serializeTx forgedTx) []).2).1 = .error e ∧
      e.code = .ReplayDetected := by
  have hread : readFields (serializeTx forgedTx) = .ok forgedTx :=
    readFields_serializeTx bounded_forgedTx
  have hread' : readFields (serializeTx signedTx) = .ok signedTx :=
    readFields_serializeTx signedTx_valid.bounded
  have hforged : ¬ Genuine sha256Digest signedLib forgedTx := by
    have hhash : contentHash sha256Digest forgedTx = signedDigest := contentHash_signedTx
    rintro ⟨-, -, key, hkey, -⟩
    rw [hhash] at hkey
    have hnone : recoverPubkey signedLib signedDigest (sig64 forgedTx)
        (computeRecoveryId forgedTx.v forgedTx.chainId) = none := by decide +kernel
    rw [hnone] at hkey
    cases hkey
  have hgenuine : Genuine sha256Digest signedLib signedTx :=
    (verifyTx_eq_ok_iff _ _ _).1 (verifyTx_of_valid signedLib_documented signedTx_valid)
  refine ⟨fun h => ?_, ?_, ?_⟩
  · exact not_traceless_of_not_genuine sha256Digest signedLib hread rfl hforged (h _ _ 5000 _ [])
  · exact deserializeTx_of_genuine sha256Digest signedLib hread' rfl hgenuine
  · exact refused_after_forgery sha256Digest signedLib hread hread' rfl rfl (by decide)

end Net
