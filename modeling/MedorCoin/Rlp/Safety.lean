/-
**The RLP decoders are safe.**

A length of eight bytes that the sender chose is added to an offset before the sum is compared with
the length of the buffer, and the sum may wrap around.  Where it does, a byte string is longer than
a vector can be, and the payload of a list ends before it begins: both are exceptions.  So whatever
the buffer holds, the decoders read inside it, and return or throw.

Main definitions:

* `Rlp.InBuffer` — the next offset is behind the offset, and in the buffer.

Main results:

* `Rlp.decodeValue_of_le` — more nested calls than are needed change nothing;
* `Rlp.decoders_safe` — **the decoders are safe**.
-/

import MedorCoin.Rlp.Grammar

set_option autoImplicit false

namespace Rlp

open Cpp

/-- The next offset is behind the offset, and in the buffer. -/
def InBuffer {α : Type} (data : List UInt8) (offset : UInt64) (r : α × UInt64) : Prop :=
  offset.toNat < r.2.toNat ∧ r.2.toNat ≤ data.length

/-! ### Where the elements are -/

section Elements

variable {data : List UInt8} {offset : UInt64}
  {decodeChild decodeChild' : UInt64 → Checked (RlpValue × UInt64)}

theorem mem_decodeItems {stop : UInt64} (turns : ℕ) (pos : UInt64) {items : List RlpValue}
    {last : UInt64} (h : decodeItems decodeChild stop turns pos = .ok (items, last)) :
    pos.toNat ≤ last.toNat ∧ ∀ item ∈ items, ∃ p q : UInt64, pos.toNat ≤ p.toNat ∧
      p.toNat < q.toNat ∧ q.toNat ≤ last.toNat ∧ decodeChild p = .ok (item, q) := by
  induction turns generalizing pos items with
  | zero => cases h
  | succ turns ih =>
      rw [decodeItems] at h
      split at h
      · obtain ⟨⟨child, childNext⟩, hchild, h⟩ := bind_eq_ok.1 h
        simp only at h
        split at h
        · cases h
        · next hprogress =>
            obtain ⟨⟨rest, last'⟩, hrest, h⟩ := bind_eq_ok.1 h
            cases h
            obtain ⟨hle, hmem⟩ := ih childNext hrest
            rw [UInt64.not_le, UInt64.lt_iff_toNat_lt] at hprogress
            refine ⟨by omega, fun item hitem => ?_⟩
            rcases List.mem_cons.1 hitem with rfl | hitem
            · exact ⟨pos, childNext, le_refl _, hprogress, hle, hchild⟩
            · obtain ⟨p, q, hp, hpq, hq, hdecode⟩ := hmem item hitem
              exact ⟨p, q, by omega, hpq, hq, hdecode⟩
      · cases h
        exact ⟨le_refl _, fun item hitem => absurd hitem List.not_mem_nil⟩

/-- A list that is decoded has its header at the offset and its elements in the payload, which ends
at the next offset. -/
theorem mem_decodeListWith {turns : ℕ} {items : List RlpValue} {next : UInt64}
    (h : decodeListWith decodeChild turns data offset = .ok (items, next)) :
    ∃ header, decodeLength data offset 0xC0 "decodeList" = .ok header ∧
      next.toNat = header.start.toNat + header.payloadLen.toNat ∧
      ∀ item ∈ items, ∃ p q : UInt64, header.start.toNat ≤ p.toNat ∧ p.toNat < q.toNat ∧
        q.toNat ≤ next.toNat ∧ decodeChild p = .ok (item, q) := by
  unfold decodeListWith at h
  split at h
  · exact nomatch h
  · obtain ⟨first, -, h⟩ := bind_eq_ok.1 h
    split at h
    · exact nomatch h
    · obtain ⟨header, hheader, h⟩ := bind_eq_ok.1 h
      simp only at h
      split at h
      · exact nomatch h
      · obtain ⟨⟨items', pos⟩, hitems, h⟩ := bind_eq_ok.1 h
        simp only at h
        split at h
        · exact nomatch h
        · next hpos =>
            cases h
            rw [ne_eq, not_not] at hpos
            rw [hpos] at hitems
            obtain ⟨hle, hmem⟩ := mem_decodeItems turns header.start hitems
            refine ⟨header, hheader, ?_, hmem⟩
            rw [UInt64.toNat_add] at hle ⊢
            have hlt := header.payloadLen.toNat_lt
            omega

/-! ### Enough nested calls -/

/-- If a decoder of elements comes to an end wherever another does, and with the same result, so
does the loop. -/
theorem decodeItems_of_le {stop : UInt64}
    (hchild : ∀ p, decodeChild p ≠ .error .outOfFuel → decodeChild' p = decodeChild p)
    {turns turns' : ℕ} (hle : turns ≤ turns') (pos : UInt64)
    (h : decodeItems decodeChild stop turns pos ≠ .error .outOfFuel) :
    decodeItems decodeChild' stop turns' pos = decodeItems decodeChild stop turns pos := by
  induction turns generalizing turns' pos with
  | zero => exact absurd rfl h
  | succ turns ih =>
      obtain ⟨turns', rfl⟩ : ∃ n, turns' = n + 1 := ⟨turns' - 1, by omega⟩
      rw [decodeItems] at h
      rw [decodeItems, decodeItems]
      split at h
      · next hlt =>
          rw [if_pos hlt, if_pos hlt]
          have hne : decodeChild pos ≠ .error .outOfFuel := by
            intro heq
            rw [heq] at h
            exact h rfl
          rw [hchild pos hne]
          cases hresult : decodeChild pos with
          | error e => rfl
          | ok r =>
              rw [hresult, bind_of_ok rfl] at h
              rw [bind_of_ok rfl, bind_of_ok rfl]
              simp only at h ⊢
              split at h
              · next hprogress => rw [if_pos hprogress, if_pos hprogress]
              · next hprogress =>
                  rw [if_neg hprogress, if_neg hprogress]
                  rw [ih (by omega) r.2 fun heq => h (by rw [heq]; rfl)]
      · next hlt => rw [if_neg hlt, if_neg hlt]

theorem decodeListWith_of_le
    (hchild : ∀ p, decodeChild p ≠ .error .outOfFuel → decodeChild' p = decodeChild p)
    {turns turns' : ℕ} (hle : turns ≤ turns')
    (h : decodeListWith decodeChild turns data offset ≠ .error .outOfFuel) :
    decodeListWith decodeChild' turns' data offset =
      decodeListWith decodeChild turns data offset := by
  unfold decodeListWith at h ⊢
  split at h
  · next hoffset => rw [if_pos hoffset, if_pos hoffset]
  · next hoffset =>
      rw [if_neg hoffset, if_neg hoffset]
      cases hfirst : byteAt data offset with
      | error e => rfl
      | ok first =>
          rw [hfirst, bind_of_ok rfl] at h
          rw [bind_of_ok rfl, bind_of_ok rfl]
          split at h
          · next hlist => rw [if_pos hlist, if_pos hlist]
          · next hlist =>
              rw [if_neg hlist, if_neg hlist]
              cases hheader : decodeLength data offset 0xC0 "decodeList" with
              | error e => rfl
              | ok header =>
                  rw [hheader, bind_of_ok rfl] at h
                  rw [bind_of_ok rfl, bind_of_ok rfl]
                  simp only at h ⊢
                  split at h
                  · next hfits => rw [if_pos hfits, if_pos hfits]
                  · next hfits =>
                      rw [if_neg hfits, if_neg hfits]
                      rw [decodeItems_of_le hchild hle _ fun heq => h (by rw [heq]; rfl)]

/-- **More nested calls than are needed change nothing.** -/
theorem decodeValue_of_le {fuel fuel' : ℕ} (hle : fuel ≤ fuel') (offset : UInt64)
    (h : decodeValue data fuel offset ≠ .error .outOfFuel) :
    decodeValue data fuel' offset = decodeValue data fuel offset := by
  induction fuel generalizing fuel' offset with
  | zero => exact absurd rfl h
  | succ fuel ih =>
      obtain ⟨fuel', rfl⟩ : ∃ n, fuel' = n + 1 := ⟨fuel' - 1, by omega⟩
      rw [decodeValue] at h
      rw [decodeValue, decodeValue]
      split at h
      · next hoffset => rw [if_pos hoffset, if_pos hoffset]
      · next hoffset =>
          rw [if_neg hoffset, if_neg hoffset]
          cases hfirst : byteAt data offset with
          | error e => rfl
          | ok first =>
              rw [hfirst, bind_of_ok rfl] at h
              rw [bind_of_ok rfl, bind_of_ok rfl]
              split at h
              · next hlist =>
                  rw [if_pos hlist, if_pos hlist]
                  rw [decodeListWith_of_le (fun p hp => ih (by omega) p hp) (by omega)
                    fun heq => h (by rw [heq]; rfl)]
              · next hlist => rw [if_neg hlist, if_neg hlist]

end Elements

/-- **The decoders are safe**: on a buffer of less than `2 ^ 63` bytes, whatever it holds and at any
offset, they read inside the buffer, come to an end, and return with a next offset in the buffer or
throw; a list has its elements in its payload; and with more nested calls than there are bytes the
result is always the same. -/
theorem decoders_safe {data : List UInt8} (hdata : data.length < 2 ^ 63) (offset : UInt64)
    {fuel : ℕ} (hfuel : data.length < fuel) :
    Ensures (decodeBytes data offset) (InBuffer data offset) ∧
      Ensures (decodeList data fuel offset) (InBuffer data offset) ∧
      Ensures (decodeValue data fuel offset) (InBuffer data offset) ∧
      (∀ items next, decodeList data fuel offset = .ok (items, next) →
        ∃ header, decodeLength data offset 0xC0 "decodeList" = .ok header ∧
          next.toNat = header.start.toNat + header.payloadLen.toNat ∧
          ∀ item ∈ items, ∃ p q : UInt64, header.start.toNat ≤ p.toNat ∧ p.toNat < q.toNat ∧
            q.toNat ≤ header.start.toNat + header.payloadLen.toNat ∧
            decodeValue data fuel p = .ok (item, q)) ∧
      ∀ fuel', fuel ≤ fuel' →
        decodeValue data fuel' offset = decodeValue data fuel offset ∧
          decodeList data fuel' offset = decodeList data fuel offset := by
  have hvalue := ensures_decodeValue hdata fuel offset (by omega) (by omega)
  have hlist := ensures_decodeList hdata hfuel offset
  refine ⟨(ensures_decodeBytes hdata).mono fun r h => ⟨h.1, h.2.1⟩,
    hlist.mono fun r h => ⟨h.1, h.2.1⟩, hvalue.mono fun r h => ⟨h.1, h.2.1⟩, ?_, ?_⟩
  · intro items next h
    obtain ⟨header, hheader, hnext, hmem⟩ := mem_decodeListWith h
    rw [hnext] at hmem
    exact ⟨header, hheader, hnext, hmem⟩
  · intro fuel' hle
    refine ⟨decodeValue_of_le hle offset hvalue.ne_outOfFuel, ?_⟩
    exact decodeListWith_of_le
      (fun p _ => decodeValue_of_le hle p
        (ensures_decodeValue hdata fuel p (by omega) (by omega)).ne_outOfFuel)
      (by omega) hlist.ne_outOfFuel

theorem decoders_safe_wrapped :
    Ensures (decodeBytes (0xBF :: List.replicate 8 0xFF) 0)
      (InBuffer (0xBF :: List.replicate 8 0xFF) 0) :=
  (@decoders_safe (0xBF :: List.replicate 8 0xFF) (by decide) 0 10 (by decide)).1

end Rlp
