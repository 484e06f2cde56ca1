/-
**The round trip of stored blocks.**

What the text of a block reads back as is known for a block whose strings are free of the
delimiter.  Conversely, whatever `deserialize` accepts is such a block: the strings of the object
are fields of the text, and its transactions are built of four fields each.  So the blocks that
read back as they were are exactly those.

Main definitions:

* `Node.Block.Clean` — what is read last and what is still to be read is free of the delimiter;
* `Node.Block.Kept` — the blocks the text keeps.

Main results:

* `Node.Block.deserialize_kept` — **whatever is accepted is kept**;
* `Node.Block.deserialize_serialize_iff` — **a block reads back as it was exactly if it is kept**;
* `Node.Block.deserialize_serialize_lossy` — not every block does.
-/

import MedorCoin.Node.Block

set_option autoImplicit false

namespace Node

open Cpp

namespace Block

/-! ### What a successful reading went through -/

/-- What is read last and what is still to be read is free of the delimiter. -/
structure Clean (fields : List Str) (token : Str) : Prop where
  fields : ∀ field ∈ fields, delimiter ∉ field
  token : delimiter ∉ token

section

variable {α β : Type} {fields : List Str} {token : Str} {b : Block} {a : α} {r : Reader}

theorem bind_run_ok {x : Parse α} {k : α → Parse β} {c : β} {s t : Reader}
    (h : (x >>= k).run s = .ok c t) : ∃ a u, x.run s = .ok a u ∧ (k a).run u = .ok c t := by
  change EStateM.bind x k s = _ at h
  rw [EStateM.bind] at h
  cases hx : x s with
  | ok a u =>
      rw [hx] at h
      exact ⟨a, u, hx, h⟩
  | error e u =>
      rw [hx] at h
      exact absurd h (by simp)

theorem throw_bind_not_ok {k : α → Parse β} {s t : Reader} {c : β} :
    ((throw () : Parse α) >>= k).run s ≠ .ok c t := by
  intro h
  obtain ⟨a, u, hthrow, -⟩ := bind_run_ok h
  exact nomatch hthrow

theorem next_bind_ok {k : Str → Parse α} (hclean : Clean fields token)
    (h : (next >>= k).run ⟨fields, token, b⟩ = .ok a r) :
    ∃ field rest, Clean rest field ∧ (k field).run ⟨rest, field, b⟩ = .ok a r := by
  cases fields with
  | nil => exact ⟨token, [], hclean, h⟩
  | cons field rest =>
      refine ⟨field, rest, ⟨fun f hf => hclean.fields f (List.mem_cons_of_mem _ hf), ?_⟩, h⟩
      exact hclean.fields field List.mem_cons_self

theorem nextNumber_bind_ok {k : UInt64 → Parse α} (hclean : Clean fields token)
    (h : (nextNumber >>= k).run ⟨fields, token, b⟩ = .ok a r) :
    ∃ n field rest, Clean rest field ∧ (k n).run ⟨rest, field, b⟩ = .ok a r := by
  rw [nextNumber, bind_assoc] at h
  obtain ⟨field, rest, hrest, h⟩ := next_bind_ok hclean h
  cases hn : stoull field with
  | none =>
      rw [hn] at h
      exact absurd h throw_bind_not_ok
  | some n =>
      rw [hn] at h
      exact ⟨n, field, rest, hrest, h⟩

end

/-! ### What is accepted -/

/-- The text keeps the whole of the transaction. -/
structure KeptTransaction (tx : Transaction) : Prop where
  txHash : delimiter ∉ tx.txHash
  toAddress : delimiter ∉ tx.toAddress
  stored : storedTransaction tx = tx

theorem readTransactions_kept {n : ℕ} {fields : List Str} {token : Str} {b : Block} {r : Reader}
    (hclean : Clean fields token) (hb : ∀ tx ∈ b.transactions, KeptTransaction tx)
    (h : (readTransactions n).run ⟨fields, token, b⟩ = .ok () r) :
    ∃ txs, r.block = { b with transactions := txs } ∧ ∀ tx ∈ txs, KeptTransaction tx := by
  induction n generalizing fields token b with
  | zero =>
      obtain rfl : (⟨fields, token, b⟩ : Reader) = r := (EStateM.Result.ok.inj h).2
      exact ⟨b.transactions, rfl, hb⟩
  | succ n ih =>
      rw [readTransactions] at h
      obtain ⟨txHash, fields, htxHash, h⟩ := next_bind_ok hclean h
      obtain ⟨toAddress, fields, htoAddress, h⟩ := next_bind_ok htxHash h
      obtain ⟨value, token, fields, hclean, h⟩ := nextNumber_bind_ok htoAddress h
      obtain ⟨nonce, token, fields, hclean, h⟩ := nextNumber_bind_ok hclean h
      rw [assign_bind] at h
      refine ih (b := { b with
        transactions := b.transactions ++ [{ txHash, toAddress, value, nonce }] }) hclean
        (fun tx htx => ?_) h
      rcases List.mem_append.1 htx with htx | htx
      · exact hb tx htx
      · obtain rfl := List.mem_singleton.1 htx
        exact ⟨htxHash.token, htoAddress.token, rfl⟩

/-- The blocks the text keeps: no string has the delimiter, and of each transaction there are only
the four fields that are written. -/
structure Kept (b : Block) : Prop where
  previousHash : delimiter ∉ b.previousHash
  data : delimiter ∉ b.data
  minerAddress : delimiter ∉ b.minerAddress
  hash : delimiter ∉ b.hash
  signature : delimiter ∉ b.signature
  transactions : ∀ tx ∈ b.transactions, KeptTransaction tx

theorem readBlock_kept {fields : List Str} {token : Str} {b : Block} {r : Reader}
    (hclean : Clean fields token) (h : readBlock.run ⟨fields, token, b⟩ = .ok () r) :
    r.block.Kept := by
  unfold readBlock at h
  obtain ⟨version, _, _, hclean, h⟩ := nextNumber_bind_ok hclean h
  split at h
  · exact absurd h throw_bind_not_ok
  obtain ⟨previousHash, _, hpreviousHash, h⟩ := next_bind_ok hclean h
  rw [assign_bind] at h
  obtain ⟨data, _, hdata, h⟩ := next_bind_ok hpreviousHash h
  rw [assign_bind] at h
  obtain ⟨difficulty, _, _, hclean, h⟩ := nextNumber_bind_ok hdata h
  rw [assign_bind] at h
  obtain ⟨minerAddress, _, hminerAddress, h⟩ := next_bind_ok hclean h
  rw [assign_bind] at h
  obtain ⟨timestamp, _, _, hclean, h⟩ := nextNumber_bind_ok hminerAddress h
  rw [assign_bind] at h
  obtain ⟨nonce, _, _, hclean, h⟩ := nextNumber_bind_ok hclean h
  rw [assign_bind] at h
  obtain ⟨reward, _, _, hclean, h⟩ := nextNumber_bind_ok hclean h
  rw [assign_bind] at h
  obtain ⟨baseFee, _, _, hclean, h⟩ := nextNumber_bind_ok hclean h
  rw [assign_bind] at h
  obtain ⟨gasUsed, _, _, hclean, h⟩ := nextNumber_bind_ok hclean h
  rw [assign_bind] at h
  obtain ⟨gasLimit, _, _, hclean, h⟩ := nextNumber_bind_ok hclean h
  rw [assign_bind] at h
  obtain ⟨hash, _, hhash, h⟩ := next_bind_ok hclean h
  rw [assign_bind] at h
  obtain ⟨signature, _, hsignature, h⟩ := next_bind_ok hhash h
  rw [assign_bind] at h
  obtain ⟨txCount, _, _, hclean, h⟩ := nextNumber_bind_ok hsignature h
  split at h
  · exact absurd h throw_bind_not_ok
  rw [assign_bind] at h
  obtain ⟨_, r', htxs, h⟩ := bind_run_ok h
  obtain ⟨txs, hblock, hkept⟩ := readTransactions_kept hclean
    (fun tx htx => absurd htx List.not_mem_nil) htxs
  obtain ⟨fields', token', b'⟩ := r'
  obtain rfl : b' = _ := hblock
  rw [assign_bind, get_bind] at h
  split at h
  · exact nomatch h
  obtain rfl := (EStateM.Result.ok.inj h).2
  exact ⟨hpreviousHash.token, hdata.token, hminerAddress.token, hhash.token, hsignature.token,
    hkept⟩

theorem not_mem_of_mem_splitOn {d : UInt8} {raw field : Str} (h : field ∈ raw.splitOn d) :
    d ∉ field := by
  induction raw generalizing field with
  | nil =>
      obtain rfl := List.mem_singleton.1 h
      exact List.not_mem_nil
  | cons c raw ih =>
      rw [List.splitOn_cons_eq_if_modifyHead] at h
      split at h
      · rcases List.mem_cons.1 h with rfl | h
        · exact List.not_mem_nil
        · exact ih h
      · next hc =>
          obtain ⟨first, rest, hsplit⟩ := List.exists_cons_of_ne_nil (List.splitOn_ne_nil d raw)
          rw [hsplit] at ih h
          rcases List.mem_cons.1 h with rfl | h
          · intro hmem
            rcases List.mem_cons.1 hmem with rfl | hmem
            · exact hc (beq_self_eq_true d)
            · exact ih List.mem_cons_self hmem
          · exact ih (List.mem_cons_of_mem _ h)

theorem clean_splitOn (raw : Str) : Clean (raw.splitOn delimiter) [] :=
  ⟨fun _ h => not_mem_of_mem_splitOn h, List.not_mem_nil⟩

/-- **Whatever is accepted is kept.** -/
theorem deserialize_kept {b₀ b : Block} {raw : Str} (h : deserialize b₀ raw = (true, b)) :
    b.Kept := by
  unfold deserialize at h
  split at h
  · exact absurd (congrArg Prod.fst h) (by simp)
  · split at h
    · next r hr =>
        obtain rfl : r.block = b := congrArg Prod.snd h
        exact readBlock_kept (clean_splitOn raw) hr
    · exact absurd (congrArg Prod.fst h) (by simp)

/-! ### The round trip -/

theorem Kept.delimited {b : Block} (h : b.Kept) : b.Delimited where
  previousHash := h.previousHash
  data := h.data
  minerAddress := h.minerAddress
  hash := h.hash
  signature := h.signature
  transactions := fun tx htx => ⟨(h.transactions tx htx).txHash, (h.transactions tx htx).toAddress⟩

theorem Kept.stored_eq {b : Block} (h : b.Kept) : b.stored = b := by
  have htransactions : b.transactions.map storedTransaction = b.transactions :=
    (List.map_congr_left fun tx htx => (h.transactions tx htx).stored).trans
      (List.map_id b.transactions)
  rw [stored, htransactions]

/-- **The round trip of stored blocks**: a block reads back as it was exactly if the text keeps
it. -/
theorem deserialize_serialize_iff {b : Block} (hdifficulty : b.difficulty ≤ maxDifficulty)
    (htimestamp : b.timestamp ≠ 0) (hcount : b.transactions.length ≤ maxTransactions.toNat)
    (b₀ : Block) : deserialize b₀ b.serialize = (true, b) ↔ b.Kept := by
  constructor
  · exact deserialize_kept
  · intro h
    rw [deserialize_serialize h.delimited hdifficulty htimestamp hcount, h.stored_eq]

theorem deserialize_serialize_sample :
    deserialize {} (serialize {
      previousHash := str "prevhash", data := str "block data", difficulty := 2,
      minerAddress := str "minerAddr", timestamp := 1000, transactions := [{ value := 7 }] }) =
    (true, {
      previousHash := str "prevhash", data := str "block data", difficulty := 2,
      minerAddress := str "minerAddr", timestamp := 1000, transactions := [{ value := 7 }] }) := by
  refine (deserialize_serialize_iff (by decide) (by decide) (by decide) {}).2
    ⟨by decide, by decide, by decide, by decide, by decide, fun tx htx => ?_⟩
  obtain rfl := List.mem_singleton.1 htx
  exact ⟨List.not_mem_nil, List.not_mem_nil, rfl⟩

/-- A delimiter in the data is not read back, and neither are the outputs of a transaction. -/
theorem deserialize_serialize_lossy :
    deserialize {} (serialize { data := str "a|b", timestamp := 1 }) ≠
      (true, { data := str "a|b", timestamp := 1 }) ∧
    deserialize {} (serialize { timestamp := 1, transactions := [{ outputs := [{}] }] }) ≠
      (true, { timestamp := 1, transactions := [{ outputs := [{}] }] }) := by
  constructor
  · intro h
    exact absurd (deserialize_kept h).data (by decide)
  · intro h
    have hkept := (deserialize_kept h).transactions _ List.mem_cons_self
    exact absurd (congrArg Transaction.outputs hkept.stored) (by decide)

end Block

end Node
