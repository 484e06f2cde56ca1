/-
**Mnemonics.**

The entropy of a wallet and the first bits of its SHA-256 are cut into groups of eleven bits, each
the number of a word.  `generateMnemonic` reads a group out of three bytes, with shifts; the check
of a mnemonic sets the bits of every word one by one, and compares the last of them with the
SHA-256 of the others.  SHA-256 is a parameter here, as it is a function of another library.

Main definitions:

* `Bip39.tokens` — the words of a text;
* `Bip39.wordIndex`, `Bip39.generateMnemonic`;
* `Bip39.setWord`, `Bip39.readWords`, `Bip39.verifyChecksum`;
* `Bip39.WordList` — 2048 distinct words;
* `Bip39.checksummed` — the entropy and the bits of its checksum as one number.

Main results:

* `Bip39.tokens_intercalate` — **the words of a text put together with blanks**;
* `Bip39.wordIndex_eq`, `Bip39.readBE_bitsOf` — both sides of the packing, as digits of a number;
* `Bip39.verifyChecksum_iff` — **what the check accepts**;
* `Bip39.mnemonic_round_trip` — **mnemonics lead back to their entropy**.
-/

import MedorCoin.Cpp.BitString
import MedorCoin.Cpp.Checked

set_option autoImplicit false

namespace Bip39

open Cpp

/-! ### The words of a text -/

/-- `while (iss >> tok)`, after the first bytes of a word. -/
def tokensFrom (tok : Str) : Str → List Str
  | [] => if tok = [] then [] else [tok]
  | c :: rest =>
      if isSpace c then
        if tok = [] then tokensFrom [] rest else tok :: tokensFrom [] rest
      else tokensFrom (tok ++ [c]) rest

/-- `while (iss >> tok)`. -/
def tokens (text : Str) : List Str := tokensFrom [] text

/-- What `>>` reads is not empty and has no blanks in it. -/
def IsWord (w : Str) : Prop := w ≠ [] ∧ ∀ c ∈ w, isSpace c = false

theorem tokensFrom_word (tok : Str) {w : Str} (h : ∀ c ∈ w, isSpace c = false) (rest : Str) :
    tokensFrom tok (w ++ rest) = tokensFrom (tok ++ w) rest := by
  induction w generalizing tok with
  | nil => rw [List.nil_append, List.append_nil]
  | cons c w ih =>
      have hc : isSpace c = false := h c List.mem_cons_self
      rw [List.cons_append, tokensFrom, if_neg (by rw [hc]; exact Bool.false_ne_true),
        ih _ fun d hd => h d (List.mem_cons_of_mem _ hd), List.append_assoc]
      rfl

/-- **What is read from a text are words.** -/
theorem isWord_of_mem_tokensFrom {tok text w : Str} (htok : ∀ c ∈ tok, isSpace c = false)
    (h : w ∈ tokensFrom tok text) : IsWord w := by
  induction text generalizing tok with
  | nil =>
      rw [tokensFrom] at h
      split at h
      · cases h
      · next hne =>
          obtain rfl := List.mem_singleton.1 h
          exact ⟨hne, htok⟩
  | cons c text ih =>
      rw [tokensFrom] at h
      split at h
      · split at h
        · exact ih (by simp) h
        · next hne =>
            rcases List.mem_cons.1 h with rfl | h
            · exact ⟨hne, htok⟩
            · exact ih (by simp) h
      · next hc =>
          refine ih (fun d hd => ?_) h
          rcases List.mem_append.1 hd with hd | hd
          · exact htok d hd
          · rw [List.mem_singleton.1 hd]
            exact Bool.not_eq_true _ ▸ hc

/-- **The words of a text put together with blanks.** -/
theorem tokens_intercalate {ws : List Str} (h : ∀ w ∈ ws, IsWord w) :
    tokens ([32].intercalate ws) = ws := by
  induction ws with
  | nil => rfl
  | cons w ws ih =>
      obtain ⟨hne, hspace⟩ := h w List.mem_cons_self
      have hrest := ih fun v hv => h v (List.mem_cons_of_mem _ hv)
      cases ws with
      | nil =>
          rw [List.intercalate_singleton, tokens]
          have hword := tokensFrom_word [] hspace []
          rw [List.append_nil, List.nil_append] at hword
          rw [hword, tokensFrom, if_neg hne]
      | cons v ws =>
          rw [List.intercalate_cons_cons, List.append_assoc, tokens, tokensFrom_word [] hspace,
            List.nil_append, List.singleton_append, tokensFrom,
            if_pos (by decide : isSpace 32 = true), if_neg hne]
          exact congrArg (w :: ·) hrest

/-- `getWordList()`: the words of the first of the files that can be opened and has some. -/
def getWordList : List (Option Str) → Checked (List Str)
  | [] => .error (.runtimeError ("BIP39 wordlist not found or empty. " ++
      "Set MEDOR_WORDLIST_PATH or place bip39_wordlist.txt in the working directory."))
  | none :: files => getWordList files
  | some text :: files => if tokens text = [] then getWordList files else .ok (tokens text)

theorem isWord_of_getWordList {files : List (Option Str)} {words : List Str}
    (h : getWordList files = .ok words) : words ≠ [] ∧ ∀ w ∈ words, IsWord w := by
  induction files with
  | nil => cases h
  | cons file files ih =>
      cases file with
      | none => exact ih h
      | some text =>
          rw [getWordList] at h
          split at h
          · exact ih h
          · next hne =>
              obtain rfl := Except.ok.inj h
              exact ⟨hne, fun w hw => isWord_of_mem_tokensFrom (by simp) hw⟩

/-- A list of 2048 distinct words. -/
structure WordList where
  words : List Str
  length_eq : words.length = 2048
  nodup : words.Nodup
  isWord : ∀ w ∈ words, IsWord w

/-- The list that was loaded, if it has so many words and none of them twice. -/
def WordList.ofFiles {files : List (Option Str)} {words : List Str}
    (h : getWordList files = .ok words) (hlength : words.length = 2048) (hnodup : words.Nodup) :
    WordList := ⟨words, hlength, hnodup, (isWord_of_getWordList h).2⟩

/-- The numerals of the first 2048 numbers. -/
instance : Inhabited WordList where
  default :=
    { words := (List.range 2048).map decimal
      length_eq := by rw [List.length_map, List.length_range]
      nodup := List.nodup_range.map fun _ _ => decimal_injective
      isWord := fun w hw => by
        obtain ⟨n, -, rfl⟩ := List.mem_map.1 hw
        exact ⟨decimal_ne_nil n, fun _ hb => isSpace_of_isDigit (isDigit_of_mem_decimal hb)⟩ }

/-! ### The mnemonic of an entropy -/

/-- The eleven bits of word `i`, out of three bytes. -/
def wordIndex (bits : List UInt8) (i : ℕ) : ℕ :=
  let bitOff := i * 11
  let byteIdx := bitOff / 8
  let bitPos := bitOff % 8
  let value := (bits.getD byteIdx 0).toNat <<< 16
  let value := value ||| (bits.getD (byteIdx + 1) 0).toNat <<< 8
  let value := if byteIdx + 2 < 17 then value ||| (bits.getD (byteIdx + 2) 0).toNat else value
  (value >>> (13 - bitPos)) &&& 0x7FF

/-- The words from number `i` on, behind what there is of the mnemonic. -/
def appendWords (words : List Str) (bits : List UInt8) : ℕ → ℕ → Str → Checked Str
  | 0, _, mnemonic => .ok mnemonic
  | k + 1, i, mnemonic =>
      match words[wordIndex bits i]? with
      | none => .error (.runtimeError "generateMnemonic: word index out of range")
      | some word =>
          appendWords words bits k (i + 1) (mnemonic ++ word ++ if i < 11 then [32] else [])

/-! ### The check of a mnemonic -/

/-- Sets the bits of word `i`. -/
def setWord (bits : List UInt8) (i idx : ℕ) : List UInt8 :=
  (List.range 11).reverse.foldl
    (fun bits b => if idx &&& (1 <<< b) ≠ 0 then orBit bits (i * 11 + (10 - b)) else bits) bits

/-- Sets the bits of the words from number `i` on; there are none for a word that is not in the
list. -/
def readWords (words : List Str) : List Str → ℕ → List UInt8 → Option (List UInt8)
  | [], _, bits => some bits
  | tok :: toks, i, bits =>
      match words.idxOf? tok with
      | none => none
      | some idx => readWords words toks (i + 1) (setWord bits i idx)

/-- The bytes of entropy and the bits of checksum in so many words. -/
def layout : ℕ → Option (ℕ × ℕ)
  | 12 => some (16, 4)
  | 15 => some (20, 5)
  | 18 => some (24, 6)
  | 21 => some (28, 7)
  | 24 => some (32, 8)
  | _ => none

/-- The bits of all words. -/
def bitsOf (words toks : List Str) : Option (List UInt8) :=
  readWords words toks 0 (List.replicate ((toks.length * 11 + 7) / 8) 0)

section

variable (sha256 : List UInt8 → Vector UInt8 32)

/-- `verifyChecksum(mnemonic)`. -/
def verifyChecksum (words : List Str) (mnemonic : Str) : Bool :=
  let toks := tokens mnemonic
  match layout toks.length with
  | none => false
  | some (entropyBytes, checksumBits) =>
      match bitsOf words toks with
      | none => false
      | some bits =>
          let hash := (sha256 (bits.take entropyBytes)).toList
          (List.range checksumBits).all fun i => bitAt hash i == bitAt bits (entropyBytes * 8 + i)

/-- `generateMnemonic()`, with what `RAND_bytes` fills its buffer with. -/
def generateMnemonic (words : List Str) (entropy : Vector UInt8 16) : Checked Str := do
  let hash := sha256 entropy.toList
  let bits := entropy.toList ++ [hash[0]]
  let mnemonic ← appendWords words bits 12 0 []
  if verifyChecksum sha256 words mnemonic then .ok mnemonic
  else .error (.runtimeError "Mnemonic checksum self-verification failed.")

end

/-! ### Setting the bits of words -/

variable {bits : List UInt8} {idx i : ℕ}

theorem and_shiftLeft_ne_zero_iff (idx b : ℕ) : idx &&& (1 <<< b) ≠ 0 ↔ idx.testBit b = true := by
  rw [Nat.one_shiftLeft, Nat.and_two_pow]
  cases idx.testBit b <;> simp

theorem bitAt_foldl_orBit {bs : List ℕ} (hbs : ∀ b ∈ bs, b < 11)
    (hi : (i + 1) * 11 ≤ 8 * bits.length) (p : ℕ) :
    bitAt (bs.foldl (fun bits b =>
        if idx &&& (1 <<< b) ≠ 0 then orBit bits (i * 11 + (10 - b)) else bits) bits) p =
      (bs.any (fun b => idx.testBit b && decide (p = i * 11 + (10 - b))) || bitAt bits p) := by
  induction bs generalizing bits with
  | nil => rfl
  | cons b bs ih =>
      have hrest : ∀ b ∈ bs, b < 11 := fun b hb => hbs b (List.mem_cons_of_mem _ hb)
      have hb : b < 11 := hbs b List.mem_cons_self
      rw [List.foldl_cons, List.any_cons]
      simp only [and_shiftLeft_ne_zero_iff] at ih ⊢
      cases hbit : idx.testBit b with
      | false => simp [ih hrest hi]
      | true =>
          simp only [if_true, Bool.true_and]
          rw [ih hrest (by rwa [length_orBit]), bitAt_orBit (by omega), Bool.or_left_comm,
            Bool.or_assoc]

/-- **The bits of a word.** -/
theorem bitAt_setWord (hi : (i + 1) * 11 ≤ 8 * bits.length) (p : ℕ) :
    bitAt (setWord bits i idx) p =
      (decide (p / 11 = i) && idx.testBit (10 - p % 11) || bitAt bits p) := by
  rw [setWord, bitAt_foldl_orBit (fun b hb => by simpa using hb) hi]
  congr 1
  rw [Bool.eq_iff_iff, List.any_eq_true, Bool.and_eq_true, decide_eq_true_eq]
  constructor
  · rintro ⟨b, hb, hbit⟩
    rw [List.mem_reverse, List.mem_range] at hb
    rw [Bool.and_eq_true, decide_eq_true_eq] at hbit
    obtain ⟨hbit, rfl⟩ := hbit
    refine ⟨by omega, ?_⟩
    rwa [show 10 - (i * 11 + (10 - b)) % 11 = b by omega]
  · rintro ⟨hdiv, hbit⟩
    refine ⟨10 - p % 11, ?_, ?_⟩
    · rw [List.mem_reverse, List.mem_range]
      omega
    · rw [Bool.and_eq_true, decide_eq_true_eq]
      exact ⟨hbit, by omega⟩

@[simp] theorem length_setWord (bits : List UInt8) (i idx : ℕ) :
    (setWord bits i idx).length = bits.length := by
  rw [setWord]
  generalize (List.range 11).reverse = bs
  induction bs generalizing bits with
  | nil => rfl
  | cons b bs ih =>
      rw [List.foldl_cons, ih]
      split
      · exact length_orBit _ _
      · rfl

/-! ### Reading the words of a mnemonic -/

/-- The numbers of words. -/
def indices (words toks : List Str) : Option (List ℕ) := toks.mapM fun tok => words.idxOf? tok

theorem indices_cons (words : List Str) (tok : Str) (toks : List Str) :
    indices words (tok :: toks) =
      (words.idxOf? tok).bind fun idx => (indices words toks).map (idx :: ·) := by
  rw [indices, List.mapM_cons, indices]
  cases words.idxOf? tok with
  | none => rfl
  | some idx => cases toks.mapM fun tok => words.idxOf? tok <;> rfl

/-- **The bits of words**, if all of them are in the list. -/
theorem readWords_spec (words toks : List Str) (i : ℕ) (bits : List UInt8)
    (hroom : (i + toks.length) * 11 ≤ 8 * bits.length) :
    match indices words toks with
    | none => readWords words toks i bits = none
    | some idxs =>
        ∃ bits', readWords words toks i bits = some bits' ∧ idxs.length = toks.length ∧
          bits'.length = bits.length ∧ ∀ p, bitAt bits' p =
            (decide (i ≤ p / 11) && (idxs.getD (p / 11 - i) 0).testBit (10 - p % 11) ||
              bitAt bits p) := by
  induction toks generalizing i bits with
  | nil => exact ⟨bits, rfl, rfl, rfl, fun p => by simp⟩
  | cons tok toks ih =>
      rw [List.length_cons] at hroom
      rw [indices_cons, readWords]
      cases hidx : words.idxOf? tok with
      | none => rfl
      | some idx =>
          have hrest := ih (i + 1) (setWord bits i idx) (by rw [length_setWord]; omega)
          rw [Option.bind_some]
          cases hidxs : indices words toks with
          | none =>
              rw [hidxs] at hrest
              exact hrest
          | some idxs =>
              rw [hidxs] at hrest
              obtain ⟨bits', hread, hlength, hlength', hbits⟩ := hrest
              rw [length_setWord] at hlength'
              refine ⟨bits', hread, congrArg Nat.succ hlength, hlength', fun p => ?_⟩
              rw [hbits, bitAt_setWord (by omega), ← Bool.or_assoc]
              congr 1
              rcases Nat.lt_trichotomy (p / 11) i with hlt | heq | hgt
              · simp [Nat.not_le.2 hlt, hlt.ne, show ¬ i + 1 ≤ p / 11 by omega]
              · simp [heq]
              · obtain ⟨k, hk⟩ := Nat.exists_eq_add_of_lt hgt
                have hnext : i + 1 ≤ p / 11 := hgt
                rw [decide_eq_true hnext, decide_eq_true hgt.le, decide_eq_false hgt.ne', hk,
                  show i + k + 1 - i = k + 1 by omega, show i + k + 1 - (i + 1) = k by omega,
                  Bool.false_and, Bool.or_false]
                rfl

theorem readBE_bitsOf {words toks : List Str} {idxs : List ℕ}
    (hidxs : indices words toks = some idxs) (hlt : ∀ x ∈ idxs, x < 2 ^ 11) :
    ∃ bits, bitsOf words toks = some bits ∧ idxs.length = toks.length ∧
      bits.length = (toks.length * 11 + 7) / 8 ∧
      readBE bits = packBE 11 idxs * 2 ^ (8 * bits.length - 11 * idxs.length) := by
  have hspec := readWords_spec words toks 0 (List.replicate ((toks.length * 11 + 7) / 8) 0)
    (by rw [List.length_replicate]; omega)
  rw [hidxs] at hspec
  obtain ⟨bits, hread, hlength, hlength', hbits⟩ := hspec
  rw [List.length_replicate] at hlength'
  refine ⟨bits, hread, hlength, hlength', Nat.eq_of_testBit_eq fun k => ?_⟩
  rw [Nat.testBit_mul_two_pow]
  by_cases hk : k < 8 * bits.length
  · -- bit `k` is bit `p` of the string
    obtain ⟨p, hp, rfl⟩ : ∃ p, p < 8 * bits.length ∧ k = 8 * bits.length - 1 - p :=
      ⟨8 * bits.length - 1 - k, by omega, by omega⟩
    have hzero : bitAt (List.replicate ((toks.length * 11 + 7) / 8) 0) p = false := by
      rw [bitAt, List.getD_replicate _ (by omega)]
      exact Nat.zero_testBit _
    rw [← bitAt_eq_testBit hp, hbits, hzero, Bool.or_false, Nat.sub_zero]
    by_cases hword : p < 11 * idxs.length
    · have hpack := testBit_packBE (by decide) hlt hword
      rw [decide_eq_true (by omega), decide_eq_true (by omega), Bool.true_and, Bool.true_and,
        ← hpack]
      congr 1
      omega
    · rw [List.getD_eq_default _ _ (by omega), Nat.zero_testBit, Bool.and_false,
        decide_eq_false (by omega), Bool.false_and]
  · have hread : readBE bits < 2 ^ k := by
      have hbound := readBE_lt bits
      rw [show 256 = 2 ^ 8 by norm_num, ← Nat.pow_mul] at hbound
      exact hbound.trans_le (Nat.pow_le_pow_right (by decide) (not_lt.1 hk))
    have hpack : packBE 11 idxs < 2 ^ (k - (8 * bits.length - 11 * idxs.length)) :=
      (packBE_lt hlt).trans_le (Nat.pow_le_pow_right (by decide) (by omega))
    rw [Nat.testBit_lt_two_pow hread, Nat.testBit_lt_two_pow hpack, Bool.and_false]

/-! ### What the check accepts -/

theorem layout_eq_some {n entropyBytes checksumBits : ℕ}
    (h : layout n = some (entropyBytes, checksumBits)) :
    n * 11 = 8 * entropyBytes + checksumBits ∧ checksumBits ≤ 8 := by
  unfold layout at h
  split at h <;> cases h <;> omega

theorem take_eq_writeBE {bits : List UInt8} {m c pad N : ℕ} (hm : m ≤ bits.length)
    (hlength : 8 * bits.length = 8 * m + c + pad) (h : readBE bits = N * 2 ^ pad) :
    bits.take m = writeBE m (N / 2 ^ c) := by
  have hread : readBE (bits.take m) = N / 2 ^ c := by
    have hsplit := readBE_append (bits.take m) (bits.drop m)
    have hrest := readBE_lt (bits.drop m)
    rw [List.take_append_drop, h] at hsplit
    rw [List.length_drop, show 256 = 2 ^ 8 by norm_num, ← Nat.pow_mul,
      show 8 * (bits.length - m) = c + pad by omega] at hsplit hrest
    have hdiv : readBE (bits.take m) = N * 2 ^ pad / 2 ^ (c + pad) := by
      rw [hsplit, Nat.mul_comm, Nat.mul_add_div (Nat.two_pow_pos _), Nat.div_eq_of_lt hrest,
        Nat.add_zero]
    rw [hdiv, Nat.pow_add, Nat.mul_comm (2 ^ c), ← Nat.div_div_eq_div_mul,
      Nat.mul_div_cancel _ (Nat.two_pow_pos pad)]
  rw [← hread]
  have hwrite := writeBE_readBE (bits.take m)
  rw [List.length_take, Nat.min_eq_left hm] at hwrite
  exact hwrite.symm

theorem all_bitAt_eq_iff {bits : List UInt8} {m c pad N : ℕ} (hc : c ≤ 8)
    (hlength : 8 * bits.length = 8 * m + c + pad) (h : readBE bits = N * 2 ^ pad)
    (hash : Vector UInt8 32) :
    ((List.range c).all fun i => bitAt hash.toList i == bitAt bits (m * 8 + i)) = true ↔
      N % 2 ^ c = hash[0].toNat / 2 ^ (8 - c) := by
  have hbits (i : ℕ) (hi : i < c) : bitAt bits (m * 8 + i) = N.testBit (c - 1 - i) := by
    rw [bitAt_eq_testBit (by omega), h, Nat.testBit_mul_two_pow, decide_eq_true (by omega),
      Bool.true_and]
    congr 1
    omega
  have hhash (i : ℕ) (hi : i < c) :
      bitAt hash.toList i = (hash[0].toNat / 2 ^ (8 - c)).testBit (c - 1 - i) := by
    rw [bitAt, Nat.div_eq_of_lt (by omega), Nat.mod_eq_of_lt (by omega), Nat.testBit_div_two_pow,
      show c - 1 - i + (8 - c) = 7 - i by omega]
    congr 2
    rw [List.getD_eq_getElem _ _ (by simp)]
    simp
  simp only [List.all_eq_true, List.mem_range, beq_iff_eq]
  constructor
  · intro heq
    refine Nat.eq_of_testBit_eq fun j => ?_
    rw [Nat.testBit_mod_two_pow]
    by_cases hj : j < c
    · have hbit := heq (c - 1 - j) (by omega)
      rw [hhash _ (by omega), hbits _ (by omega), show c - 1 - (c - 1 - j) = j by omega] at hbit
      rw [decide_eq_true hj, Bool.true_and, hbit]
    · have hsmall : hash[0].toNat < 2 ^ (j + (8 - c)) :=
        hash[0].toNat_lt.trans_le (Nat.pow_le_pow_right (by decide) (by omega))
      rw [decide_eq_false hj, Bool.false_and, Nat.testBit_div_two_pow,
        Nat.testBit_lt_two_pow hsmall]
  · intro heq i hi
    rw [hhash i hi, hbits i hi, ← heq, Nat.testBit_mod_two_pow, decide_eq_true (by omega),
      Bool.true_and]

theorem lt_of_indices {words : List Str} (hwords : words.length ≤ 2 ^ 11) {toks : List Str}
    {idxs : List ℕ} (h : indices words toks = some idxs) : ∀ x ∈ idxs, x < 2 ^ 11 := by
  induction toks generalizing idxs with
  | nil =>
      obtain rfl : [] = idxs := Option.some.inj h
      simp
  | cons tok toks ih =>
      rw [indices_cons] at h
      obtain ⟨idx, hidx, hrest⟩ := Option.bind_eq_some_iff.1 h
      obtain ⟨idxs', hidxs, rfl⟩ := Option.map_eq_some_iff.1 hrest
      intro x hx
      rcases List.mem_cons.1 hx with rfl | hx
      · exact (List.idxOf?_eq_some_iff.1 hidx).1.trans_le hwords
      · exact ih hidxs x hx

variable (sha256 : List UInt8 → Vector UInt8 32)

/-- **What the check accepts**: a number of words that has a layout, all of them in the list, whose
last bits are the first ones of the SHA-256 of the others. -/
theorem verifyChecksum_iff {words : List Str} (hwords : words.length ≤ 2 ^ 11) (mnemonic : Str) :
    verifyChecksum sha256 words mnemonic = true ↔
      ∃ entropyBytes checksumBits idxs,
        layout (tokens mnemonic).length = some (entropyBytes, checksumBits) ∧
        indices words (tokens mnemonic) = some idxs ∧
        packBE 11 idxs % 2 ^ checksumBits =
          (sha256 (writeBE entropyBytes (packBE 11 idxs / 2 ^ checksumBits)))[0].toNat /
            2 ^ (8 - checksumBits) := by
  rw [verifyChecksum]
  cases hlayout : layout (tokens mnemonic).length with
  | none => simp
  | some parts =>
      obtain ⟨m, c⟩ := parts
      obtain ⟨hbits, hc⟩ := layout_eq_some hlayout
      cases hidxs : indices words (tokens mnemonic) with
      | none =>
          have hnone := readWords_spec words (tokens mnemonic) 0
            (List.replicate (((tokens mnemonic).length * 11 + 7) / 8) 0)
            (by rw [List.length_replicate]; omega)
          rw [hidxs] at hnone
          simp [bitsOf, hnone]
      | some idxs =>
          obtain ⟨bits, hread, hcount, hlength, hnumber⟩ :=
            readBE_bitsOf hidxs (lt_of_indices hwords hidxs)
          have hcut : 8 * bits.length = 8 * m + c + (8 * bits.length - 11 * idxs.length) := by omega
          simp only [hread, Option.some.injEq, Prod.mk.injEq]
          rw [all_bitAt_eq_iff hc hcut hnumber, take_eq_writeBE (by omega) hcut hnumber]
          constructor
          · exact fun h => ⟨m, c, idxs, ⟨rfl, rfl⟩, rfl, h⟩
          · rintro ⟨_, _, _, ⟨rfl, rfl⟩, rfl, h⟩
            exact h

/-! ### The words of an entropy -/

theorem testBit_threeBytes (a b c : UInt8) {q : ℕ} (hq : q < 24) :
    (a.toNat <<< 16 ||| b.toNat <<< 8 ||| c.toNat).testBit (23 - q) =
      (if q < 8 then a else if q < 16 then b else c).toNat.testBit (7 - q % 8) := by
  have hbyte (x : UInt8) (m : ℕ) (hm : 8 ≤ m) : x.toNat.testBit m = false :=
    Nat.testBit_lt_two_pow (x.toNat_lt.trans_le (Nat.pow_le_pow_right (by decide) hm))
  rw [Nat.testBit_or, Nat.testBit_or, Nat.testBit_shiftLeft, Nat.testBit_shiftLeft]
  rcases Nat.lt_or_ge q 8 with hlow | hlow
  · rw [if_pos hlow, hbyte c _ (by omega), hbyte b _ (by omega), decide_eq_true (by omega),
      show 23 - q - 16 = 7 - q % 8 by omega]
    simp
  · rw [if_neg (not_lt.2 hlow), decide_eq_false (p := 23 - q ≥ 16) (by omega)]
    rcases Nat.lt_or_ge q 16 with hmid | hhigh
    · rw [if_pos hmid, hbyte c _ (by omega), decide_eq_true (by omega),
        show 23 - q - 8 = 7 - q % 8 by omega]
      simp
    · rw [if_neg (not_lt.2 hhigh), decide_eq_false (by omega), show 23 - q = 7 - q % 8 by omega]
      simp

/-- **The words that are read out** are the digits of the number of the bits. -/
theorem wordIndex_eq (hlength : bits.length = 17) (hi : i < 12) :
    wordIndex bits i = groupBE 11 12 (readBE bits / 16) i := by
  refine Nat.eq_of_testBit_eq fun j => ?_
  have hmask : 0x7FF = 2 ^ 11 - 1 := by norm_num
  rw [groupBE, Nat.testBit_mod_two_pow, Nat.testBit_div_two_pow, show 16 = 2 ^ 4 by norm_num,
    Nat.testBit_div_two_pow, wordIndex, hmask, Nat.and_two_pow_sub_one_eq_mod,
    Nat.testBit_mod_two_pow, Nat.testBit_shiftRight]
  by_cases hj : j < 11
  · rw [decide_eq_true hj, Bool.true_and, Bool.true_and]
    -- bit `j` of the word is bit `i * 11 + (10 - j)` of the string
    have hbit : (readBE bits).testBit (j + 11 * (12 - 1 - i) + 4) =
        bitAt bits (i * 11 + (10 - j)) := by
      rw [bitAt_eq_testBit (by omega)]
      congr 1
      omega
    -- where the third byte is not read, it is behind the end
    have hthird : (if i * 11 / 8 + 2 < 17 then
          (bits.getD (i * 11 / 8) 0).toNat <<< 16 ||| (bits.getD (i * 11 / 8 + 1) 0).toNat <<< 8 |||
            (bits.getD (i * 11 / 8 + 2) 0).toNat
        else (bits.getD (i * 11 / 8) 0).toNat <<< 16 |||
            (bits.getD (i * 11 / 8 + 1) 0).toNat <<< 8) =
        (bits.getD (i * 11 / 8) 0).toNat <<< 16 ||| (bits.getD (i * 11 / 8 + 1) 0).toNat <<< 8 |||
            (bits.getD (i * 11 / 8 + 2) 0).toNat := by
      split
      · rfl
      · rw [List.getD_eq_default bits 0 (by omega : bits.length ≤ i * 11 / 8 + 2)]
        exact (Nat.or_zero _).symm
    rw [hbit, bitAt]
    simp only [hthird]
    rw [show 13 - i * 11 % 8 + j = 23 - (i * 11 % 8 + (10 - j)) by omega,
      testBit_threeBytes _ _ _ (by omega)]
    congr 2
    · split_ifs
      · congr 1
        omega
      · congr 1
        omega
      · congr 1
        omega
    · omega
  · rw [decide_eq_false hj, Bool.false_and, Bool.false_and]

theorem WordList.getD_mem (wl : WordList) {v : ℕ} (hv : v < 2 ^ 11) :
    wl.words.getD v [] ∈ wl.words := by
  have hlt : v < wl.words.length := wl.length_eq.symm ▸ hv
  rw [List.getD_eq_getElem _ _ hlt]
  exact List.getElem_mem hlt

theorem appendWords_eq (wl : WordList) (bits : List UInt8) (k i : ℕ) (mnemonic : Str)
    (h : i + k = 12) : appendWords wl.words bits k i mnemonic =
      .ok (mnemonic ++ [32].intercalate
        ((List.range' i k).map fun i => wl.words.getD (wordIndex bits i) [])) := by
  induction k generalizing i mnemonic with
  | zero => simp [appendWords]
  | succ k ih =>
      have hlt : wordIndex bits i < wl.words.length := by
        rw [wl.length_eq]
        exact Nat.and_lt_two_pow _ (by decide : 0x7FF < 2 ^ 11)
      rw [appendWords, List.getElem?_eq_getElem hlt]
      simp only []
      rw [ih (i + 1) _ (by omega), List.range'_succ, List.map_cons, List.getD_eq_getElem _ _ hlt]
      cases k with
      | zero =>
          obtain rfl : i = 11 := by omega
          simp
      | succ k =>
          rw [if_pos (by omega), List.range'_succ, List.map_cons, List.intercalate_cons_cons]
          simp only [List.append_assoc]

/-- **The numbers of words** that are taken from the list. -/
theorem indices_map (wl : WordList) {idxs : List ℕ} (h : ∀ v ∈ idxs, v < 2 ^ 11) :
    indices wl.words (idxs.map fun v => wl.words.getD v []) = some idxs := by
  induction idxs with
  | nil => rfl
  | cons v idxs ih =>
      have hlt : v < wl.words.length := wl.length_eq.symm ▸ h v List.mem_cons_self
      have hidx : wl.words.idxOf? (wl.words.getD v []) = some v := by
        rw [List.getD_eq_getElem _ _ hlt, List.idxOf?_eq_some_iff]
        exact ⟨hlt, rfl, fun j hj heq =>
          hj.ne ((wl.nodup.getElem_inj_iff).1 heq)⟩
      rw [List.map_cons, indices_cons, hidx, ih fun v hv => h v (List.mem_cons_of_mem _ hv)]
      rfl

/-! ### Round trip -/

/-- The entropy and the first four bits of its SHA-256, as one number. -/
def checksummed (entropy : Vector UInt8 16) : ℕ :=
  readBE entropy.toList * 16 + (sha256 entropy.toList)[0].toNat / 16

/-- The words at the groups of eleven bits of an entropy and its checksum. -/
def mnemonicWords (words : List Str) (entropy : Vector UInt8 16) : List Str :=
  (List.range 12).map fun i => words.getD (groupBE 11 12 (checksummed sha256 entropy) i) []

/-- The bytes of entropy among the bits of twelve words. -/
def decodeEntropy (words toks : List Str) : Option (List UInt8) :=
  (bitsOf words toks).map (List.take 16)

theorem checksummed_lt (entropy : Vector UInt8 16) :
    checksummed sha256 entropy < 2 ^ (11 * 12) := by
  have hread : readBE entropy.toList < 256 ^ 16 := by
    simpa using readBE_lt entropy.toList
  have hbyte := (sha256 entropy.toList)[0].toNat_lt
  rw [checksummed]
  omega

theorem packBE_checksummed (entropy : Vector UInt8 16) :
    packBE 11 ((List.range 12).map (groupBE 11 12 (checksummed sha256 entropy))) =
      checksummed sha256 entropy := by
  rw [packBE_map_groupBE, Nat.mod_eq_of_lt (checksummed_lt sha256 entropy)]

theorem indices_mnemonicWords (wl : WordList) (entropy : Vector UInt8 16) :
    indices wl.words (mnemonicWords sha256 wl.words entropy) =
      some ((List.range 12).map (groupBE 11 12 (checksummed sha256 entropy))) := by
  have hmap : mnemonicWords sha256 wl.words entropy =
      ((List.range 12).map (groupBE 11 12 (checksummed sha256 entropy))).map
        fun v => wl.words.getD v [] := by
    rw [mnemonicWords, List.map_map]
    rfl
  rw [hmap]
  refine indices_map wl fun v hv => ?_
  obtain ⟨i, -, rfl⟩ := List.mem_map.1 hv
  exact groupBE_lt _ _ _ _

theorem tokens_mnemonicWords (wl : WordList) (entropy : Vector UInt8 16) :
    tokens ([32].intercalate (mnemonicWords sha256 wl.words entropy)) =
      mnemonicWords sha256 wl.words entropy := by
  refine tokens_intercalate fun w hw => ?_
  obtain ⟨i, -, rfl⟩ := List.mem_map.1 hw
  exact wl.isWord _ (wl.getD_mem (groupBE_lt _ _ _ _))

theorem writeBE_checksummed (entropy : Vector UInt8 16) :
    writeBE 16 (checksummed sha256 entropy / 2 ^ 4) = entropy.toList := by
  have hbyte := (sha256 entropy.toList)[0].toNat_lt
  have hdiv : checksummed sha256 entropy / 2 ^ 4 = readBE entropy.toList := by
    rw [checksummed]
    omega
  have hwrite := writeBE_readBE entropy.toList
  rw [Vector.length_toList] at hwrite
  rw [hdiv, hwrite]

/-- **The mnemonic of an entropy passes the check.** -/
theorem verifyChecksum_mnemonicWords (wl : WordList) (entropy : Vector UInt8 16) :
    verifyChecksum sha256 wl.words ([32].intercalate (mnemonicWords sha256 wl.words entropy)) =
      true := by
  rw [verifyChecksum_iff sha256 wl.length_eq.le, tokens_mnemonicWords]
  refine ⟨16, 4, _, ?_, indices_mnemonicWords sha256 wl entropy, ?_⟩
  · rw [mnemonicWords, List.length_map, List.length_range]
    rfl
  · have hbyte := (sha256 entropy.toList)[0].toNat_lt
    rw [packBE_checksummed, writeBE_checksummed, checksummed]
    omega

/-- **What is generated**: the words at the groups of eleven bits, with blanks between them. -/
theorem generateMnemonic_eq (wl : WordList) (entropy : Vector UInt8 16) :
    generateMnemonic sha256 wl.words entropy =
      .ok ([32].intercalate (mnemonicWords sha256 wl.words entropy)) := by
  have hlength : (entropy.toList ++ [(sha256 entropy.toList)[0]]).length = 17 := by simp
  have hnumber : readBE (entropy.toList ++ [(sha256 entropy.toList)[0]]) / 16 =
      checksummed sha256 entropy := by
    rw [readBE_concat, checksummed]
    omega
  have hwords : (List.range' 0 12).map (fun i => wl.words.getD
        (wordIndex (entropy.toList ++ [(sha256 entropy.toList)[0]]) i) []) =
      mnemonicWords sha256 wl.words entropy := by
    rw [mnemonicWords, List.range_eq_range']
    refine List.map_congr_left fun i hi => ?_
    rw [wordIndex_eq hlength (by simpa using hi), hnumber]
  rw [generateMnemonic, appendWords_eq wl _ 12 0 [] rfl, hwords, List.nil_append]
  exact if_pos (verifyChecksum_mnemonicWords sha256 wl entropy)

/-- **Decoding gives the entropy back.** -/
theorem decodeEntropy_mnemonicWords (wl : WordList) (entropy : Vector UInt8 16) :
    decodeEntropy wl.words (mnemonicWords sha256 wl.words entropy) = some entropy.toList := by
  have hidxs := indices_mnemonicWords sha256 wl entropy
  obtain ⟨bits, hread, hcount, hlength, hnumber⟩ :=
    readBE_bitsOf hidxs (lt_of_indices wl.length_eq.le hidxs)
  rw [List.length_map, List.length_range] at hcount hnumber
  rw [← hcount] at hlength
  rw [packBE_checksummed] at hnumber
  rw [decodeEntropy, hread, Option.map_some,
    take_eq_writeBE (m := 16) (c := 4) (by omega) (by omega) hnumber, writeBE_checksummed]

/-- **Mnemonics lead back to their entropy.** For every entropy of sixteen bytes and every list of
2048 distinct words, what is generated are the words at the twelve groups of eleven bits of the
entropy and the first four bits of its SHA-256; they pass the check, and their numbers give the
entropy back.  Twelve words of the list whose last four bits are not those of the SHA-256 of the
others fail the check. -/
theorem mnemonic_round_trip (wl : WordList) :
    (∀ entropy : Vector UInt8 16, ∃ mnemonic,
      generateMnemonic sha256 wl.words entropy = .ok mnemonic ∧
      tokens mnemonic = (List.range 12).map (fun i => wl.words.getD (groupBE 11 12
        (readBE entropy.toList * 16 + (sha256 entropy.toList)[0].toNat / 16) i) []) ∧
      verifyChecksum sha256 wl.words mnemonic = true ∧
      decodeEntropy wl.words (tokens mnemonic) = some entropy.toList) ∧
    ∀ (mnemonic : Str) (idxs : List ℕ), idxs.length = 12 → (∀ v ∈ idxs, v < 2048) →
      tokens mnemonic = idxs.map (fun v => wl.words.getD v []) →
      packBE 11 idxs % 16 ≠ (sha256 (writeBE 16 (packBE 11 idxs / 16)))[0].toNat / 16 →
      verifyChecksum sha256 wl.words mnemonic = false := by
  constructor
  · intro entropy
    refine ⟨_, generateMnemonic_eq sha256 wl entropy, tokens_mnemonicWords sha256 wl entropy,
      verifyChecksum_mnemonicWords sha256 wl entropy, ?_⟩
    rw [tokens_mnemonicWords]
    exact decodeEntropy_mnemonicWords sha256 wl entropy
  · intro mnemonic idxs hlength hlt htokens hne
    rw [Bool.eq_false_iff]
    intro haccept
    obtain ⟨m, c, idxs', hlayout, hidxs, hcheck⟩ :=
      (verifyChecksum_iff sha256 wl.length_eq.le mnemonic).1 haccept
    rw [htokens, indices_map wl hlt] at hidxs
    rw [htokens, List.length_map, hlength] at hlayout
    cases hidxs
    cases hlayout
    exact hne hcheck

end Bip39
