/-
**Base64 of the wire format.**

Byte strings travel in the JSON of a transaction as Base64.  The encoder takes three bytes at a time
and pads the last group with `'='`.  The decoder knows no groups: it shifts six bits of each
character into a 32-bit buffer, whose upper bits it never clears, and takes a byte out of it when
eight bits have arrived.  A character behind a `'='` and a character outside the alphabet are
refused; the number of `'='` is not looked at.

Main definitions:

* `Net.SerializationError` — what the wire format throws;
* `Net.b64enc` — the encoder; `Net.b64dec` — the decoder, with its state `Net.B64State`.

Main results:

* `Net.B64State.step_sextet` — what a character of the alphabet does to the decoder;
* `Net.B64State.steps_group` — a group of four characters yields its three bytes;
* `Net.b64dec_b64enc` — **every byte string is decoded as what was encoded**.
-/

import MedorCoin.Cpp.Text

set_option autoImplicit false

namespace Net

open Cpp

/-! ### Errors -/

inductive SerializationErrorCode where
  | None
  | MissingField
  | TypeMismatch
  | LengthExceeded
  | InvalidAddress
  | ChainIdMismatch
  | VersionMismatch
  | HashMismatch
  | SignatureInvalid
  | ReplayDetected
  | BadBase64
  | OutOfMemory
  | InternalError
  | DuplicateTx
  | NonceOrdering
  | BlockTooLarge
  deriving DecidableEq

/-- `struct SerializationError`. -/
structure SerializationError where
  code : SerializationErrorCode
  msg : Str
  deriving DecidableEq

/-! ### Encoding -/

/-- `B64_CHARS`. -/
def B64_CHARS : Str := str "ABCDEFGHIJKLMNOPQRSTUVWXYZabcdefghijklmnopqrstuvwxyz0123456789+/"

/-- `'='`. -/
def pad : UInt8 := 61

/-- `B64_CHARS[x & 0x3F]`. -/
def sextet (x : UInt32) : UInt8 := B64_CHARS.getD (x &&& 0x3F).toNat 0

/-- The 24 bits of a group. -/
def group (a b c : UInt8) : UInt32 := (a.toUInt32 <<< 16) ||| (b.toUInt32 <<< 8) ||| c.toUInt32

def b64enc : List UInt8 → Str
  | a :: b :: c :: data =>
      let v := group a b c
      sextet (v >>> 18) :: sextet (v >>> 12) :: sextet (v >>> 6) :: sextet v :: b64enc data
  | [a, b] =>
      let v := group a b 0
      [sextet (v >>> 18), sextet (v >>> 12), sextet (v >>> 6), pad]
  | [a] =>
      let v := group a 0 0
      [sextet (v >>> 18), sextet (v >>> 12), pad, pad]
  | [] => []

/-! ### Decoding -/

/-- `B64_TABLE`. -/
def B64_TABLE : List Int8 := [
  -1,-1,-1,-1,-1,-1,-1,-1,-1,-1,-1,-1,-1,-1,-1,-1,
  -1,-1,-1,-1,-1,-1,-1,-1,-1,-1,-1,-1,-1,-1,-1,-1,
  -1,-1,-1,-1,-1,-1,-1,-1,-1,-1,-1,62,-1,-1,-1,63,
  52,53,54,55,56,57,58,59,60,61,-1,-1,-1, 0,-1,-1,
  -1, 0, 1, 2, 3, 4, 5, 6, 7, 8, 9,10,11,12,13,14,
  15,16,17,18,19,20,21,22,23,24,25,-1,-1,-1,-1,-1,
  -1,26,27,28,29,30,31,32,33,34,35,36,37,38,39,40,
  41,42,43,44,45,46,47,48,49,50,51,-1,-1,-1,-1,-1,
  -1,-1,-1,-1,-1,-1,-1,-1,-1,-1,-1,-1,-1,-1,-1,-1,
  -1,-1,-1,-1,-1,-1,-1,-1,-1,-1,-1,-1,-1,-1,-1,-1,
  -1,-1,-1,-1,-1,-1,-1,-1,-1,-1,-1,-1,-1,-1,-1,-1,
  -1,-1,-1,-1,-1,-1,-1,-1,-1,-1,-1,-1,-1,-1,-1,-1,
  -1,-1,-1,-1,-1,-1,-1,-1,-1,-1,-1,-1,-1,-1,-1,-1,
  -1,-1,-1,-1,-1,-1,-1,-1,-1,-1,-1,-1,-1,-1,-1,-1,
  -1,-1,-1,-1,-1,-1,-1,-1,-1,-1,-1,-1,-1,-1,-1,-1,
  -1,-1,-1,-1,-1,-1,-1,-1,-1,-1,-1,-1,-1,-1,-1,-1]

/-- The local variables of the loop. -/
structure B64State where
  result : List UInt8 := []
  buf : UInt32 := 0
  bits : ℕ := 0
  padSeen : Bool := false

namespace B64State

/-- `buf = (buf << 6) | val` and what follows it. -/
def shiftIn (st : B64State) (val : UInt32) : B64State :=
  let buf := (st.buf <<< 6) ||| val
  if st.bits + 6 ≥ 8 then
    let bits := st.bits + 6 - 8
    { st with buf, bits, result := st.result ++ [((buf >>> bits.toUInt32) &&& 0xFF).toUInt8] }
  else { st with buf, bits := st.bits + 6 }

/-- One turn of the loop. -/
def step (ctx : Str) (st : B64State) (c : UInt8) : Except SerializationError B64State :=
  if c = pad then .ok { st with padSeen := true }
  else if st.padSeen then .error ⟨.BadBase64, ctx ++ str ": data after Base64 padding"⟩
  else
    let val := B64_TABLE.getD c.toNat (-1)
    if val < 0 then .error ⟨.BadBase64, ctx ++ str ": invalid Base64 character"⟩
    else .ok (st.shiftIn val.toInt32.toUInt32)

end B64State

def b64dec (s ctx : Str) : Except SerializationError (List UInt8) := do
  let st ← s.foldlM (B64State.step ctx) {}
  pure st.result

/-! ### The alphabet -/

theorem toNat_and_63 (x : UInt32) : (x &&& 0x3F).toNat = x.toNat % 64 := by
  rw [UInt32.toNat_and]
  exact Nat.and_two_pow_sub_one_eq_mod x.toNat 6

theorem B64_CHARS_ne_pad : ∀ n < 64, B64_CHARS.getD n 0 ≠ pad := by decide +kernel

theorem B64_TABLE_B64_CHARS : ∀ n < 64,
    0 ≤ B64_TABLE.getD (B64_CHARS.getD n 0).toNat (-1) ∧
      (B64_TABLE.getD (B64_CHARS.getD n 0).toNat (-1)).toInt32.toUInt32.toNat = n := by
  decide +kernel

/-! ### Six bits and eight bits -/

theorem toNat_shiftLeft_or {x y : UInt32} (h : y.toNat < 64) :
    ((x <<< 6) ||| y).toNat = (x.toNat * 64 + y.toNat) % 2 ^ 32 := by
  have hx : (x <<< 6).toNat = (x.toNat % 2 ^ 26) <<< 6 := by
    rw [UInt32.toNat_shiftLeft, Nat.shiftLeft_eq, Nat.shiftLeft_eq]
    change x.toNat * 2 ^ 6 % 2 ^ 32 = _
    omega
  rw [UInt32.toNat_or, hx, ← Nat.shiftLeft_add_eq_or_of_lt h, Nat.shiftLeft_eq]
  omega

theorem toNat_group (a b c : UInt8) :
    (group a b c).toNat = a.toNat * 65536 + b.toNat * 256 + c.toNat := by
  have ha := a.toNat_lt
  have hb := b.toNat_lt
  have hc := c.toNat_lt
  have h16 : (a.toUInt32 <<< 16).toNat = a.toNat <<< 16 := by
    rw [UInt32.toNat_shiftLeft, UInt8.toNat_toUInt32, Nat.shiftLeft_eq]
    change a.toNat * 2 ^ 16 % 2 ^ 32 = _
    omega
  have h8 : (b.toUInt32 <<< 8).toNat = b.toNat <<< 8 := by
    rw [UInt32.toNat_shiftLeft, UInt8.toNat_toUInt32, Nat.shiftLeft_eq]
    change b.toNat * 2 ^ 8 % 2 ^ 32 = _
    omega
  have hbc : b.toNat <<< 8 ||| c.toNat = b.toNat * 256 + c.toNat := by
    rw [← Nat.shiftLeft_add_eq_or_of_lt (by omega), Nat.shiftLeft_eq]
  rw [group, UInt32.toNat_or, UInt32.toNat_or, h16, h8, UInt8.toNat_toUInt32, Nat.or_assoc, hbc,
    ← Nat.shiftLeft_add_eq_or_of_lt (by omega), Nat.shiftLeft_eq]
  omega

theorem toNat_shiftRight_of_lt (x : UInt32) {n : ℕ} (h : n < 32) :
    (x >>> n.toUInt32).toNat = x.toNat / 2 ^ n := by
  rw [UInt32.toNat_shiftRight, Nat.shiftRight_eq_div_pow]
  congr 2
  change n % 2 ^ 32 % 32 = n
  omega

theorem byte_eq {x : UInt32} {n : ℕ} (h : n < 32) {b : UInt8}
    (hb : x.toNat / 2 ^ n % 256 = b.toNat) : ((x >>> n.toUInt32) &&& 0xFF).toUInt8 = b := by
  apply UInt8.toNat_inj.1
  rw [UInt32.toNat_toUInt8, UInt32.toNat_and, toNat_shiftRight_of_lt x h, ← hb]
  change (x.toNat / 2 ^ n &&& (2 ^ 8 - 1)) % 256 = _
  rw [Nat.and_two_pow_sub_one_eq_mod]
  omega

/-! ### What a character does -/

namespace B64State

variable (ctx : Str) (res : List UInt8) (buf : UInt32)

theorem step_sextet (bits : ℕ) (x : UInt32) :
    ∃ val : UInt32, val.toNat = x.toNat % 64 ∧
      step ctx ⟨res, buf, bits, false⟩ (sextet x) = .ok (shiftIn ⟨res, buf, bits, false⟩ val) := by
  have hlt : x.toNat % 64 < 64 := Nat.mod_lt _ (by decide)
  obtain ⟨hpos, hval⟩ := B64_TABLE_B64_CHARS _ hlt
  rw [← toNat_and_63] at hpos hval
  refine ⟨_, hval.trans (toNat_and_63 x), ?_⟩
  have hpad : sextet x ≠ pad := by
    rw [sextet, toNat_and_63]
    exact B64_CHARS_ne_pad _ hlt
  rw [step, if_neg hpad]
  exact if_neg (Int8.not_lt.2 hpos)

theorem step_first (x : UInt32) :
    ∃ buf' : UInt32, buf'.toNat = (buf.toNat * 64 + x.toNat % 64) % 2 ^ 32 ∧
      step ctx ⟨res, buf, 0, false⟩ (sextet x) = .ok ⟨res, buf', 6, false⟩ := by
  obtain ⟨val, hval, h⟩ := step_sextet ctx res buf 0 x
  refine ⟨(buf <<< 6) ||| val, ?_, h⟩
  rw [toNat_shiftLeft_or (by omega), hval]

theorem step_next {n : ℕ} (hn : n < 32) {x : UInt32} {b : UInt8}
    (hb : (buf.toNat * 64 + x.toNat % 64) % 2 ^ 32 / 2 ^ n % 256 = b.toNat) :
    ∃ buf' : UInt32, buf'.toNat = (buf.toNat * 64 + x.toNat % 64) % 2 ^ 32 ∧
      step ctx ⟨res, buf, n + 2, false⟩ (sextet x) = .ok ⟨res ++ [b], buf', n, false⟩ := by
  obtain ⟨val, hval, h⟩ := step_sextet ctx res buf (n + 2) x
  have hbuf : ((buf <<< 6) ||| val).toNat = (buf.toNat * 64 + x.toNat % 64) % 2 ^ 32 := by
    rw [toNat_shiftLeft_or (by omega), hval]
  refine ⟨_, hbuf, h.trans ?_⟩
  have hbits : n + 2 + 6 - 8 = n := rfl
  simp only [shiftIn, if_pos (show n + 2 + 6 ≥ 8 by omega), hbits]
  rw [byte_eq hn (by rw [hbuf]; exact hb)]

theorem step_pad (bits : ℕ) (padSeen : Bool) :
    step ctx ⟨res, buf, bits, padSeen⟩ pad = .ok ⟨res, buf, bits, true⟩ := if_pos rfl

/-! ### What a group does -/

variable {ctx} in
theorem steps_append {l l' : Str} {st st' : B64State} (h : l.foldlM (step ctx) st = .ok st') :
    (l ++ l').foldlM (step ctx) st = l'.foldlM (step ctx) st' := by
  rw [List.foldlM_append, h]
  rfl

theorem steps_two (a b c : UInt8) :
    ∃ buf' : UInt32, buf'.toNat % 16 = b.toNat / 16 ∧
      [sextet (group a b c >>> 18), sextet (group a b c >>> 12)].foldlM (step ctx)
        ⟨res, buf, 0, false⟩ = .ok ⟨res ++ [a], buf', 4, false⟩ := by
  have ha := a.toNat_lt
  have hb := b.toNat_lt
  have hc := c.toNat_lt
  have hg := toNat_group a b c
  have hx : (group a b c >>> 18).toNat = (group a b c).toNat / 2 ^ 18 :=
    toNat_shiftRight_of_lt _ (n := 18) (by decide)
  have hy : (group a b c >>> 12).toNat = (group a b c).toNat / 2 ^ 12 :=
    toNat_shiftRight_of_lt _ (n := 12) (by decide)
  obtain ⟨buf₁, hbuf₁, h₁⟩ := step_first ctx res buf (group a b c >>> 18)
  obtain ⟨buf₂, hbuf₂, h₂⟩ := step_next ctx res buf₁ (n := 4) (by decide)
    (x := group a b c >>> 12) (b := a) (by omega)
  refine ⟨buf₂, by omega, ?_⟩
  rw [List.foldlM_cons, h₁]
  change step ctx ⟨res, buf₁, 6, false⟩ _ >>= _ = _
  rw [h₂]
  rfl

theorem steps_three (a b c : UInt8) :
    ∃ buf' : UInt32, buf'.toNat % 4 = c.toNat / 64 ∧
      [sextet (group a b c >>> 18), sextet (group a b c >>> 12),
        sextet (group a b c >>> 6)].foldlM (step ctx) ⟨res, buf, 0, false⟩ =
          .ok ⟨res ++ [a] ++ [b], buf', 2, false⟩ := by
  have hb := b.toNat_lt
  have hc := c.toNat_lt
  have hg := toNat_group a b c
  have hx : (group a b c >>> 6).toNat = (group a b c).toNat / 2 ^ 6 :=
    toNat_shiftRight_of_lt _ (n := 6) (by decide)
  obtain ⟨buf₁, hbuf₁, h₁⟩ := steps_two ctx res buf a b c
  obtain ⟨buf₂, hbuf₂, h₂⟩ := step_next ctx (res ++ [a]) buf₁ (n := 2) (by decide)
    (x := group a b c >>> 6) (b := b) (by omega)
  refine ⟨buf₂, by omega, ?_⟩
  refine (steps_append h₁).trans ?_
  change step ctx ⟨res ++ [a], buf₁, 4, false⟩ _ >>= _ = _
  rw [h₂]
  rfl

/-- **A group of four characters yields its three bytes**, whatever older bits the buffer holds. -/
theorem steps_group (a b c : UInt8) :
    ∃ buf' : UInt32,
      [sextet (group a b c >>> 18), sextet (group a b c >>> 12), sextet (group a b c >>> 6),
        sextet (group a b c)].foldlM (step ctx) ⟨res, buf, 0, false⟩ =
          .ok ⟨res ++ [a, b, c], buf', 0, false⟩ := by
  have hc := c.toNat_lt
  have hg := toNat_group a b c
  obtain ⟨buf₁, hbuf₁, h₁⟩ := steps_three ctx res buf a b c
  obtain ⟨buf₂, -, h₂⟩ := step_next ctx (res ++ [a] ++ [b]) buf₁ (n := 0) (by decide)
    (x := group a b c) (b := c) (by omega)
  refine ⟨buf₂, ?_⟩
  refine (steps_append h₁).trans ?_
  change step ctx ⟨res ++ [a] ++ [b], buf₁, 2, false⟩ _ >>= _ = _
  rw [h₂]
  simp

/-! ### The round trip -/

theorem steps_b64enc (d : List UInt8) (res : List UInt8) (buf : UInt32) :
    ∃ st : B64State, (b64enc d).foldlM (step ctx) ⟨res, buf, 0, false⟩ = .ok st ∧
      st.result = res ++ d := by
  induction d using b64enc.induct generalizing res buf with
  | case1 a b c data ih =>
      obtain ⟨buf', hgroup⟩ := steps_group ctx res buf a b c
      obtain ⟨st, hst, hresult⟩ := ih (res ++ [a, b, c]) buf'
      refine ⟨st, ?_, by rw [hresult, List.append_assoc]; rfl⟩
      exact (steps_append hgroup).trans hst
  | case2 a b =>
      obtain ⟨buf', -, h⟩ := steps_three ctx res buf a b 0
      refine ⟨⟨res ++ [a] ++ [b], buf', 2, true⟩, ?_, by simp⟩
      refine (steps_append h).trans ?_
      change step ctx ⟨_, buf', 2, false⟩ pad >>= _ = _
      rw [step_pad]
      rfl
  | case3 a =>
      obtain ⟨buf', -, h⟩ := steps_two ctx res buf a 0 0
      refine ⟨⟨res ++ [a], buf', 4, true⟩, ?_, rfl⟩
      refine (steps_append h).trans ?_
      change step ctx ⟨_, buf', 4, false⟩ pad >>= _ = _
      rw [step_pad]
      rfl
  | case4 => exact ⟨_, rfl, by simp⟩

end B64State

/-- **Base64 round trip.** -/
theorem b64dec_b64enc (d ctx : Str) : b64dec (b64enc d) ctx = .ok d := by
  obtain ⟨st, hst, hresult⟩ := B64State.steps_b64enc ctx d [] 0
  rw [b64dec, hst]
  exact congrArg Except.ok hresult

theorem length_b64enc (d : List UInt8) : (b64enc d).length = (d.length + 2) / 3 * 4 := by
  induction d using b64enc.induct with
  | case1 a b c data ih =>
      simp only [b64enc, List.length_cons, ih]
      omega
  | case2 a b => simp [b64enc]
  | case3 a => simp [b64enc]
  | case4 => simp [b64enc]

example : b64enc (str "light w") = str "bGlnaHQgdw==" := by decide +kernel

end Net
