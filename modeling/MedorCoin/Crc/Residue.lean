/-
**Cyclic redundancy checks, as residues of polynomials.**

The register of a reflected check is a polynomial over the field of two elements, its highest bit
the constant term: a shift to the right multiplies by `X`, and the exclusive or with the reflected
generator takes the remainder.  So a register is an element of the quotient by the generator, where
what a run of bits does to it is one equation; a table of bytes and an instruction for words
compute what the shifts do because they satisfy it.

A message is a list of bits here, taken by the register one after the other.  In the quotient by the
generator the register after them is a polynomial in the root, to which each bit contributes one
term.  If the generator has a constant term then the root can be divided by; so two messages that
differ only within as many bits as the register holds leave it different.

Main definitions:

* `Crc.poly` — the polynomial of a word;
* `Crc.step`, `Crc.feed` — a shift of the register, and the shifts for a few bits of the message;
* `Crc.generator`, `Crc.residue` — the quotient;
* `Crc.Absorbs` — the register after a word, of any width;
* `Crc.feedBits` — the register after a list of bits;
* `Crc.terms` — what the bits contribute;
* `Crc.bits` — the bits of a word, lowest first.

Main results:

* `Crc.residue_step`, `Crc.residue_injective` — **a shift is a multiplication**, in a faithful
  picture;
* `Crc.absorbs_feed`, `Crc.Absorbs.append`, `Crc.Absorbs.unique` — words one after the other;
* `Crc.absorbs_iff_modByMonic` — the same as a remainder;
* `Crc.feed_eq_table` — **the table**: the shifts of the bits that leave the register depend on
  these bits alone;
* `Crc.residue_feedBits` — **the register after a list of bits**;
* `Crc.feed_eq_feedBits` — the shifts for a word take its bits one by one;
* `Crc.feedBits_ne_of_burst`, `Crc.feedBits_ne_of_within` — **a short burst leaves the register
  different**.
-/

import Mathlib.Algebra.CharP.Two
import Mathlib.Algebra.Field.ZMod
import Mathlib.RingTheory.AdjoinRoot
import Mathlib.Data.List.GetD

set_option autoImplicit false

namespace Crc

open Polynomial

/-! ### Words as polynomials -/

/-- A bit as a coefficient. -/
def coefficient (b : Bool) : ZMod 2 := if b then 1 else 0

theorem coefficient_xor (a b : Bool) : coefficient (a ^^ b) = coefficient a + coefficient b := by
  cases a <;> cases b <;> rfl

theorem coefficient_injective {a b : Bool} (h : coefficient a = coefficient b) : a = b := by
  revert h
  cases a <;> cases b <;> decide

section

variable {v w : ℕ}

/-- The polynomial of a word, its lowest bit the constant term. -/
noncomputable def poly (x : BitVec w) : (ZMod 2)[X] :=
  ∑ i ∈ Finset.range w, monomial i (coefficient (x.getLsbD i))

@[simp] theorem coeff_poly (x : BitVec w) (i : ℕ) :
    (poly x).coeff i = coefficient (x.getLsbD i) := by
  rw [poly, finsetSum_coeff]
  simp only [coeff_monomial, Finset.sum_ite_eq', Finset.mem_range]
  split_ifs with hi
  · rfl
  · rw [BitVec.getLsbD_of_ge x i (Nat.not_lt.1 hi)]
    rfl

theorem poly_injective {x y : BitVec w} (h : poly x = poly y) : x = y := by
  refine BitVec.eq_of_getLsbD_eq fun i _ => coefficient_injective ?_
  rw [← coeff_poly, h, coeff_poly]

theorem poly_xor (x y : BitVec w) : poly (x ^^^ y) = poly x + poly y := by
  ext i
  rw [coeff_add, coeff_poly, BitVec.getLsbD_xor, coefficient_xor, coeff_poly, coeff_poly]

theorem degree_poly_lt (x : BitVec w) : (poly x).degree < w := by
  rw [degree_lt_iff_coeff_zero]
  intro i hi
  rw [coeff_poly, BitVec.getLsbD_of_ge x i hi]
  rfl

theorem poly_shiftLeft (x : BitVec v) {k : ℕ} (h : v + k ≤ w) :
    poly (x.setWidth w <<< k) = X ^ k * poly x := by
  ext i
  rw [coeff_X_pow_mul', coeff_poly, BitVec.getLsbD_shiftLeft, BitVec.getLsbD_setWidth]
  split_ifs with hi
  · rw [coeff_poly]
    by_cases hlt : i - k < v
    · have h₁ : i < w := by omega
      have h₂ : i - k < w := by omega
      have h₃ : ¬ i < k := Nat.not_lt.2 hi
      simp [h₁, h₂, h₃]
    · simp [BitVec.getLsbD_of_ge x (i - k) (Nat.not_lt.1 hlt)]
  · have hlt : i < k := Nat.not_le.1 hi
    simp [hlt, coefficient]

theorem poly_reverse_append (x : BitVec w) (y : BitVec v) :
    poly (x ++ y).reverse = X ^ w * poly y.reverse + poly x.reverse := by
  ext i
  rw [coeff_add, coeff_X_pow_mul', coeff_poly, coeff_poly, coeff_poly, BitVec.getLsbD_reverse,
    BitVec.getLsbD_reverse, BitVec.getLsbD_reverse, BitVec.getMsbD_append]
  split_ifs with hi
  · rw [BitVec.getMsbD_of_ge x i hi]
    simp [coefficient]
  · rw [zero_add]

theorem poly_reverse_setWidth (x : BitVec v) (h : v ≤ w) :
    poly (x.setWidth w).reverse = X ^ (w - v) * poly x.reverse := by
  ext i
  rw [coeff_X_pow_mul', coeff_poly, coeff_poly, BitVec.getLsbD_reverse, BitVec.getLsbD_reverse,
    BitVec.getMsbD_setWidth]
  split_ifs with hi
  · rw [decide_eq_true hi, Bool.true_and]
    congr 2
    omega
  · rw [decide_eq_false hi, Bool.false_and]
    rfl

theorem reverse_xor (x y : BitVec w) : (x ^^^ y).reverse = x.reverse ^^^ y.reverse := by
  refine BitVec.eq_of_getLsbD_eq fun i _ => ?_
  rw [BitVec.getLsbD_xor, BitVec.getLsbD_reverse, BitVec.getLsbD_reverse, BitVec.getLsbD_reverse,
    BitVec.getMsbD_xor]

end

/-! ### The register -/

section

variable {w : ℕ} (p : BitVec w)

/-- A shift of the register. -/
def step (c : BitVec w) : BitVec w := if c.getLsbD 0 then (c >>> 1) ^^^ p else c >>> 1

/-- The shifts for the bits of a word, lowest first. -/
def feed {v : ℕ} (c : BitVec w) (b : BitVec v) : BitVec w := (step p)^[v] (c ^^^ b.setWidth w)

/-- The generator: the leading term, and what the register is combined with. -/
noncomputable def generator : (ZMod 2)[X] := X ^ w + poly p.reverse

theorem monic_generator : (generator p).Monic := monic_X_pow_add (degree_poly_lt _)

theorem degree_generator : (generator p).degree = w := by
  have hlt : (poly p.reverse).degree < (X ^ w : (ZMod 2)[X]).degree := by
    rw [degree_X_pow]
    exact degree_poly_lt _
  rw [generator, degree_add_eq_left_of_degree_lt hlt, degree_X_pow]

/-- A register, in the quotient by the generator. -/
noncomputable def residue (c : BitVec w) : AdjoinRoot (generator p) :=
  AdjoinRoot.mk _ (poly c.reverse)

theorem residue_xor (c d : BitVec w) : residue p (c ^^^ d) = residue p c + residue p d := by
  rw [residue, reverse_xor, poly_xor, map_add, residue, residue]

theorem mk_injective {f g : (ZMod 2)[X]} (hf : f.degree < w) (hg : g.degree < w)
    (h : AdjoinRoot.mk (generator p) f = AdjoinRoot.mk (generator p) g) : f = g := by
  have hdvd := AdjoinRoot.mk_eq_mk.1 h
  have hdegree : (f - g).degree < (generator p).degree := by
    rw [degree_generator]
    exact (degree_sub_le f g).trans_lt (max_lt hf hg)
  exact sub_eq_zero.1 (eq_zero_of_dvd_of_degree_lt hdvd hdegree)

/-- **The picture is faithful.** -/
theorem residue_injective {c d : BitVec w} (h : residue p c = residue p d) : c = d := by
  have hpoly := poly_injective (mk_injective p (degree_poly_lt _) (degree_poly_lt _) h)
  have hreverse := congrArg BitVec.reverse hpoly
  rwa [BitVec.reverse_reverse_eq, BitVec.reverse_reverse_eq] at hreverse

theorem X_mul_poly_reverse (c : BitVec w) (hw : 0 < w) :
    X * poly c.reverse = poly (c >>> 1).reverse + if c.getLsbD 0 then X ^ w else 0 := by
  ext i
  rw [coeff_add, coeff_poly, BitVec.getLsbD_reverse, BitVec.getMsbD_ushiftRight]
  cases i with
  | zero =>
      have hne : ¬ 0 = w := hw.ne
      split_ifs with hbit <;> simp [coeff_X_pow, hne, coefficient]
  | succ i =>
      rw [coeff_X_mul, coeff_poly, BitVec.getLsbD_reverse, Nat.add_sub_cancel]
      rcases Nat.lt_trichotomy (i + 1) w with hlt | heq | hgt
      · have hne : ¬ i + 1 = w := hlt.ne
        split_ifs with hbit <;> simp [coeff_X_pow, hlt, hne]
      · -- the highest coefficient is the lowest bit
        have hbit : c.getMsbD i = c.getLsbD 0 := by
          rw [BitVec.getMsbD_eq_getLsbD, decide_eq_true (by omega), Bool.true_and]
          congr 1
          omega
        rw [hbit]
        split_ifs with hlow <;> simp [coeff_X_pow, heq, hlow, coefficient]
      · have hne : ¬ i + 1 = w := hgt.ne'
        have hnot : ¬ i + 1 < w := hgt.asymm
        rw [BitVec.getMsbD_of_ge c i (by omega)]
        split_ifs with hbit <;> simp [coeff_X_pow, hnot, hne, coefficient]

theorem mk_X_pow : AdjoinRoot.mk (generator p) (X ^ w) = residue p p := by
  refine AdjoinRoot.mk_eq_mk.2 ?_
  rw [CharTwo.sub_eq_add]
  exact dvd_refl _

/-- **A shift is a multiplication.** -/
theorem residue_step (c : BitVec w) (hw : 0 < w) :
    residue p (step p c) = AdjoinRoot.root (generator p) * residue p c := by
  have hshift := congrArg (AdjoinRoot.mk (generator p)) (X_mul_poly_reverse c hw)
  rw [map_mul, map_add, AdjoinRoot.mk_X] at hshift
  change _ * residue p c = residue p (c >>> 1) + _ at hshift
  rw [hshift, step]
  split_ifs with hbit
  · rw [residue_xor, mk_X_pow]
  · rw [map_zero, add_zero]

theorem residue_iterate_step (c : BitVec w) (hw : 0 < w) (n : ℕ) :
    residue p ((step p)^[n] c) = AdjoinRoot.root (generator p) ^ n * residue p c := by
  induction n with
  | zero => rw [Function.iterate_zero_apply, pow_zero, one_mul]
  | succ n ih => rw [Function.iterate_succ_apply', residue_step p _ hw, ih, pow_succ', mul_assoc]

/-! ### Words -/

/-- The register after a word: what was in it is multiplied, and the word is added, its lowest bit
the leading term. -/
def Absorbs {n : ℕ} (c : BitVec w) (x : BitVec n) (r : BitVec w) : Prop :=
  residue p r = AdjoinRoot.mk (generator p) (X ^ n * poly c.reverse + X ^ w * poly x.reverse)

theorem absorbs_feed {v : ℕ} (c : BitVec w) (b : BitVec v) (hw : 0 < w) (hv : v ≤ w) :
    Absorbs p c b (feed p c b) := by
  have hsplit : (X : (ZMod 2)[X]) ^ w = X ^ v * X ^ (w - v) := by
    rw [← pow_add, Nat.add_sub_cancel' hv]
  rw [Absorbs, feed, residue_iterate_step p _ hw, residue_xor, residue, residue,
    poly_reverse_setWidth b hv, ← map_add, ← AdjoinRoot.mk_X, ← map_pow, ← map_mul, hsplit]
  exact congrArg (AdjoinRoot.mk (generator p)) (by ring)

variable {p}

/-- **Words one after the other**: the later one stands above the earlier one. -/
theorem Absorbs.append {n m : ℕ} {c r s : BitVec w} {x : BitVec n} {y : BitVec m}
    (hy : Absorbs p c y r) (hx : Absorbs p r x s) : Absorbs p c (x ++ y) s := by
  rw [Absorbs] at hy hx ⊢
  rw [hx, map_add, map_mul]
  change _ * residue p r + _ = _
  rw [hy, ← map_mul, ← map_add, poly_reverse_append]
  exact congrArg (AdjoinRoot.mk (generator p)) (by ring)

theorem Absorbs.unique {n : ℕ} {c r s : BitVec w} {x : BitVec n} (hr : Absorbs p c x r)
    (hs : Absorbs p c x s) : r = s := residue_injective p (hr.trans hs.symm)

theorem absorbs_iff_modByMonic {n : ℕ} {c r : BitVec w} {x : BitVec n} :
    Absorbs p c x r ↔ poly r.reverse =
      (X ^ n * poly c.reverse + X ^ w * poly x.reverse) %ₘ generator p := by
  have hmk := AdjoinRoot.mk_eq_mk.2 (dvd_modByMonic_sub
    (X ^ n * poly c.reverse + X ^ w * poly x.reverse) (generator p))
  rw [Absorbs, ← hmk]
  constructor
  · intro h
    refine mk_injective p (degree_poly_lt _) ?_ h
    rw [← degree_generator p]
    exact degree_modByMonic_lt _ (monic_generator p)
  · intro h
    rw [residue, h]

/-! ### The table -/

variable (p)

theorem iterate_step_xor (c d : BitVec w) (hw : 0 < w) (n : ℕ) :
    (step p)^[n] (c ^^^ d) = (step p)^[n] c ^^^ (step p)^[n] d := by
  refine residue_injective p ?_
  rw [residue_xor, residue_iterate_step p _ hw, residue_iterate_step p _ hw,
    residue_iterate_step p _ hw, residue_xor, mul_add]

theorem iterate_step_of_low {c : BitVec w} {n : ℕ} (h : ∀ i < n, c.getLsbD i = false) :
    (step p)^[n] c = c >>> n := by
  induction n with
  | zero => rw [Function.iterate_zero_apply, BitVec.ushiftRight_zero]
  | succ n ih =>
      have hlow : ¬ (c >>> n).getLsbD 0 = true := by
        rw [BitVec.getLsbD_ushiftRight, Nat.add_zero, h n n.lt_succ_self]
        exact Bool.false_ne_true
      rw [Function.iterate_succ_apply', ih fun i hi => h i (Nat.lt_succ_of_lt hi), step,
        if_neg hlow, BitVec.shiftRight_add]

theorem split_low (x : BitVec w) (v : ℕ) :
    x = (x >>> v) <<< v ^^^ (x.setWidth v).setWidth w := by
  refine BitVec.eq_of_getLsbD_eq fun i hi => ?_
  rw [BitVec.getLsbD_xor, BitVec.getLsbD_shiftLeft, BitVec.getLsbD_ushiftRight,
    BitVec.getLsbD_setWidth, BitVec.getLsbD_setWidth]
  by_cases hlt : i < v
  · simp [hi, hlt]
  · simp [hi, hlt, Nat.add_sub_cancel' (Nat.not_lt.1 hlt)]

theorem shiftLeft_shiftRight (x : BitVec w) (v : ℕ) : (x >>> v) <<< v >>> v = x >>> v := by
  refine BitVec.eq_of_getLsbD_eq fun i hi => ?_
  rw [BitVec.getLsbD_ushiftRight, BitVec.getLsbD_shiftLeft, BitVec.getLsbD_ushiftRight,
    BitVec.getLsbD_ushiftRight]
  by_cases hlt : v + i < w
  · simp [hlt]
  · simp [BitVec.getLsbD_of_ge x (v + i) (Nat.not_lt.1 hlt)]

/-- **The table**: the shifts for a word are those of the bits that leave the register, and one
shift for the others. -/
theorem feed_eq_table {v : ℕ} (c : BitVec w) (b : BitVec v) (hw : 0 < w) :
    feed p c b = (c ^^^ b.setWidth w) >>> v ^^^
      (step p)^[v] (((c ^^^ b.setWidth w).setWidth v).setWidth w) := by
  have hlow : ∀ i < v, ((c ^^^ b.setWidth w) >>> v <<< v).getLsbD i = false := by
    intro i hi
    simp [hi]
  rw [feed]
  conv_lhs => rw [split_low (c ^^^ b.setWidth w) v]
  rw [iterate_step_xor p _ _ hw, iterate_step_of_low p hlow, shiftLeft_shiftRight]

end

end Crc

namespace Crc

open Polynomial

section

variable {w : ℕ} (p : BitVec w)

/-- The register after a bit. -/
def feedBit (c : BitVec w) (b : Bool) : BitVec w := feed p c (BitVec.ofBool b)

/-- The register after a list of bits. -/
def feedBits (c : BitVec w) (l : List Bool) : BitVec w := l.foldl (feedBit p) c

/-- What a list of bits contributes: the first bit the leading term. -/
noncomputable def terms : List Bool → (ZMod 2)[X]
  | [] => 0
  | b :: l => monomial l.length (coefficient b) + terms l

theorem coeff_terms (l : List Bool) (i : ℕ) :
    (terms l).coeff i = coefficient (l.reverse.getD i false) := by
  induction l with
  | nil => simp [terms, coefficient]
  | cons b l ih =>
      rw [terms, coeff_add, coeff_monomial, ih, List.reverse_cons]
      rcases Nat.lt_trichotomy i l.length with hlt | rfl | hgt
      · simp [hlt.ne', List.getD_eq_getElem?_getD, List.getElem?_append_left, hlt]
      · simp [List.getD_eq_getElem?_getD, coefficient]
      · have hout : (l.reverse ++ [b]).length ≤ i := by simpa using hgt
        have hin : l.reverse.length ≤ i := by simpa using hgt.le
        rw [List.getD_eq_default _ _ hout, List.getD_eq_default _ _ hin]
        simp [hgt.ne, coefficient]

theorem degree_terms_lt (l : List Bool) : (terms l).degree < l.length := by
  rw [degree_lt_iff_coeff_zero]
  intro i hi
  rw [coeff_terms, List.getD_eq_default _ _ (by simpa using hi)]
  rfl

theorem terms_injective {l l' : List Bool} (hlength : l.length = l'.length)
    (h : terms l = terms l') : l = l' := by
  refine List.reverse_injective (List.ext_getElem (by simpa using hlength) fun i hi hi' => ?_)
  rw [← List.getD_eq_getElem _ false hi, ← List.getD_eq_getElem _ false hi']
  exact coefficient_injective (by rw [← coeff_terms, h, coeff_terms])

theorem poly_reverse_ofBool (b : Bool) : poly (BitVec.ofBool b).reverse = C (coefficient b) := by
  ext i
  rw [coeff_poly, coeff_C]
  cases i with
  | zero => cases b <;> rfl
  | succ i =>
      rw [BitVec.getLsbD_of_ge _ _ (by simp), if_neg i.succ_ne_zero]
      rfl

theorem residue_feedBit (c : BitVec w) (b : Bool) (hw : 0 < w) :
    residue p (feedBit p c b) = AdjoinRoot.root (generator p) * residue p c +
      AdjoinRoot.root (generator p) ^ w * AdjoinRoot.mk (generator p) (C (coefficient b)) := by
  have h := absorbs_feed p c (BitVec.ofBool b) hw hw
  rw [Absorbs, poly_reverse_ofBool, map_add, map_mul, map_mul, map_pow, map_pow, AdjoinRoot.mk_X,
    pow_one] at h
  exact h

/-- **The register after a list of bits.** -/
theorem residue_feedBits (c : BitVec w) (l : List Bool) (hw : 0 < w) :
    residue p (feedBits p c l) = AdjoinRoot.root (generator p) ^ l.length * residue p c +
      AdjoinRoot.root (generator p) ^ w * AdjoinRoot.mk (generator p) (terms l) := by
  induction l generalizing c with
  | nil => simp [feedBits, terms]
  | cons b l ih =>
      have hterm : AdjoinRoot.mk (generator p) (monomial l.length (coefficient b)) =
          AdjoinRoot.root (generator p) ^ l.length *
            AdjoinRoot.mk (generator p) (C (coefficient b)) := by
        rw [← C_mul_X_pow_eq_monomial, map_mul, map_pow, AdjoinRoot.mk_X, mul_comm]
      change residue p (feedBits p (feedBit p c b) l) = _
      rw [ih, residue_feedBit p c b hw, terms, map_add, hterm, List.length_cons]
      ring

/-! ### Words -/

/-- The bits of a word, lowest first. -/
def bits {v : ℕ} (x : BitVec v) : List Bool := List.ofFn fun i : Fin v => x.getLsbD i

@[simp] theorem length_bits {v : ℕ} (x : BitVec v) : (bits x).length = v := List.length_ofFn

theorem terms_bits {v : ℕ} (x : BitVec v) : terms (bits x) = poly x.reverse := by
  ext i
  rw [coeff_terms, coeff_poly, BitVec.getLsbD_reverse, BitVec.getMsbD_eq_getLsbD,
    List.getD_eq_getElem?_getD]
  by_cases hi : i < v
  · rw [List.getElem?_reverse (by simpa using hi), length_bits, bits, List.getElem?_ofFn,
      dif_pos (by omega), decide_eq_true hi, Bool.true_and]
    simp [Nat.sub_right_comm]
  · rw [List.getElem?_eq_none (by simpa using hi), decide_eq_false hi]
    rfl

theorem feed_eq_feedBits {v : ℕ} (c : BitVec w) (x : BitVec v) (hw : 0 < w) (hv : v ≤ w) :
    feed p c x = feedBits p c (bits x) := by
  refine residue_injective p ?_
  rw [residue_feedBits p c _ hw, length_bits, terms_bits, absorbs_feed p c x hw hv, map_add,
    map_mul, map_mul, map_pow, map_pow, AdjoinRoot.mk_X]
  rfl

/-! ### Bursts -/

theorem isUnit_root (hp : p.getMsbD 0 = true) : IsUnit (AdjoinRoot.root (generator p)) := by
  have hw : 0 < w := by
    by_contra hzero
    rw [BitVec.getMsbD_of_ge p 0 (Nat.not_lt.1 hzero)] at hp
    exact absurd hp Bool.false_ne_true
  -- the generator is one more than a multiple of `X`
  have hconstant : (generator p).coeff 0 = 1 := by
    rw [generator, coeff_add, coeff_X_pow, if_neg hw.ne, coeff_poly, BitVec.getLsbD_reverse, hp,
      zero_add]
    rfl
  have hsplit : generator p = X * (generator p).divX + 1 := by
    conv_lhs => rw [← X_mul_divX_add (generator p), hconstant, map_one]
  have hzero : AdjoinRoot.root (generator p) * AdjoinRoot.mk _ (generator p).divX + 1 = 0 := by
    rw [← AdjoinRoot.mk_X, ← map_mul, ← map_one (AdjoinRoot.mk (generator p)), ← map_add, ← hsplit,
      AdjoinRoot.mk_self]
  exact IsUnit.of_mul_eq_one (-AdjoinRoot.mk _ (generator p).divX)
    (by rw [mul_neg]; exact neg_eq_of_add_eq_zero_right hzero)

theorem feedBits_injective (hp : p.getMsbD 0 = true) (hw : 0 < w) {c d : BitVec w}
    {l : List Bool} (h : feedBits p c l = feedBits p d l) : c = d := by
  have hresidue := congrArg (residue p) h
  rw [residue_feedBits p c l hw, residue_feedBits p d l hw, add_left_inj] at hresidue
  exact residue_injective p (((isUnit_root p hp).pow _).mul_left_cancel hresidue)

/-- **A short burst leaves the register different**: the bits before and after it are the same, and
it is no longer than the register. -/
theorem feedBits_ne_of_burst (hp : p.getMsbD 0 = true) (hw : 0 < w) (c : BitVec w)
    {before burst burst' after : List Bool} (hlength : burst.length = burst'.length)
    (hle : burst.length ≤ w) (hne : burst ≠ burst') :
    feedBits p c (before ++ burst ++ after) ≠ feedBits p c (before ++ burst' ++ after) := by
  intro h
  simp only [feedBits, List.foldl_append] at h
  have hburst := congrArg (residue p) (feedBits_injective p hp hw (l := after) h)
  change residue p (feedBits p (feedBits p c before) burst) =
    residue p (feedBits p (feedBits p c before) burst') at hburst
  rw [residue_feedBits p _ burst hw, residue_feedBits p _ burst' hw, hlength,
    add_right_inj] at hburst
  have hterms := mk_injective p ((degree_terms_lt burst).trans_le (by exact_mod_cast hle))
    ((degree_terms_lt burst').trans_le (by exact_mod_cast hlength ▸ hle))
    (((isUnit_root p hp).pow _).mul_left_cancel hburst)
  exact hne (terms_injective hlength hterms)

theorem feedBits_ne_of_within (hp : p.getMsbD 0 = true) (hw : 0 < w) (c : BitVec w)
    {l l' : List Bool} (hlength : l.length = l'.length) (hne : l ≠ l') {k : ℕ}
    (h : ∀ i, l[i]? ≠ l'[i]? → k ≤ i ∧ i < k + w) : feedBits p c l ≠ feedBits p c l' := by
  have hsplit (l : List Bool) : l = l.take k ++ (l.drop k).take w ++ l.drop (k + w) := by
    rw [List.append_assoc, ← List.drop_drop, List.take_append_drop, List.take_append_drop]
  have hbefore : l.take k = l'.take k := by
    refine List.ext_getElem? fun i => ?_
    rw [List.getElem?_take, List.getElem?_take]
    split_ifs with hi
    · exact not_not.1 fun hdiffer => absurd (h i hdiffer).1 (by omega)
    · rfl
  have hafter : l.drop (k + w) = l'.drop (k + w) := by
    refine List.ext_getElem? fun i => ?_
    rw [List.getElem?_drop, List.getElem?_drop]
    exact not_not.1 fun hdiffer => absurd (h _ hdiffer).2 (by omega)
  have hburst : (l.drop k).take w ≠ (l'.drop k).take w := by
    intro heq
    exact hne (by rw [hsplit l, hsplit l', hbefore, hafter, heq])
  rw [hsplit l, hsplit l', hbefore, hafter]
  exact feedBits_ne_of_burst p hp hw c (by simp [hlength]) (by simp) hburst

end

end Crc
