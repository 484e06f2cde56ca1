/-
**The lines of a text.**

A journal is a text of lines, each closed by a line break, of which the last may be torn.  This
module has the ways in which the program takes such a text apart: it cuts off what follows the last
line break, and it splits the rest into the lines that are not empty, or not blank.

Main definitions:

* `Js.completePart` — a text up to its last line break;
* `Js.nonemptyLines`, `Js.nonblankLines` — the lines of a text, without the empty ones and without
  the blank ones;
* `Js.Complete` — texts in which every line is closed;
* `Js.closedLines`, `Js.openLine` — the lines of a text that is still coming in.

Main results:

* `Js.completePart_append` — **a torn line is cut off, and nothing else**;
* `Js.nonemptyLines_append` — lines put after a complete text are lines after its lines;
* `Js.nonblankLines_flatMap` — **a text of closed lines has these lines**;
* `Js.closedLines_append` — more text continues the open line.
-/

import MedorCoin.Js.Bytes

set_option autoImplicit false

namespace Js

/-- `s.slice(0, s.lastIndexOf("\n") + 1)` -/
def completePart (s : Str) : Str := (s.reverse.dropWhile (· ≠ '\n')).reverse

/-- `s.split("\n").filter(Boolean)` -/
def nonemptyLines (s : Str) : List Str := (s.splitOn '\n').filter (! ·.isEmpty)

/-- Every line of the text is closed by a line break. -/
def Complete (s : Str) : Prop := s = [] ∨ ∃ t, s = t ++ ['\n']

theorem complete_nil : Complete [] := Or.inl rfl

theorem complete_line (s : Str) : Complete (s ++ ['\n']) := Or.inr ⟨s, rfl⟩

theorem Complete.append {s t : Str} (hs : Complete s) (ht : Complete t) : Complete (s ++ t) := by
  rcases ht with rfl | ⟨t, rfl⟩
  · rw [List.append_nil]
    exact hs
  · exact Or.inr ⟨s ++ t, by rw [List.append_assoc]⟩

theorem completePart_append_of_not_mem (s : Str) {t : Str} (ht : '\n' ∉ t) :
    completePart (s ++ t) = completePart s := by
  have hall : ∀ c ∈ t.reverse, decide (c ≠ '\n') = true := by
    intro c hc
    refine decide_eq_true ?_
    rintro rfl
    exact ht (List.mem_reverse.1 hc)
  rw [completePart, List.reverse_append, List.dropWhile_append_of_pos hall]
  rfl

/-- **A torn line is cut off, and nothing else.** -/
theorem completePart_append {s t : Str} (hs : Complete s) (ht : '\n' ∉ t) :
    completePart (s ++ t) = s := by
  rw [completePart_append_of_not_mem s ht]
  rcases hs with rfl | ⟨s, rfl⟩
  · rfl
  · simp [completePart]

theorem completePart_decode {s : Str} {tail : Bytes} (hs : Complete s) (ht : (10 : UInt8) ∉ tail) :
    completePart (decode (utf8 s ++ tail)) = s := by
  rw [decode_utf8_append]
  exact completePart_append hs fun hmem => ht (newline_mem_decode hmem)

@[simp] theorem nonemptyLines_nil : nonemptyLines [] = [] := rfl

theorem nonemptyLines_append {s : Str} (hs : Complete s) (t : Str) :
    nonemptyLines (s ++ t) = nonemptyLines s ++ nonemptyLines t := by
  rcases hs with rfl | ⟨s, rfl⟩
  · rfl
  · have hlast : nonemptyLines (s ++ ['\n']) = nonemptyLines s := by
      rw [nonemptyLines, List.splitOn_append_cons_self, List.filter_append]
      simp [nonemptyLines]
    rw [hlast, List.append_assoc, List.singleton_append, nonemptyLines,
      List.splitOn_append_cons_self, List.filter_append]
    rfl

theorem nonemptyLines_line {s : Str} (hs : '\n' ∉ s) (hne : s ≠ []) :
    nonemptyLines (s ++ ['\n']) = [s] := by
  have hempty : s.isEmpty = false := by simpa using hne
  rw [nonemptyLines, List.splitOn_append_cons_self, List.splitOn_eq_singleton hs]
  simp [hempty]

/-! ### Blank lines -/

/-- The white space and the line ends that `trim` takes off. -/
def isBlank (c : Char) : Bool :=
  (9 ≤ c.toNat && c.toNat ≤ 13) || c.toNat == 32 || c.toNat == 0xA0 || c.toNat == 0x1680 ||
    (0x2000 ≤ c.toNat && c.toNat ≤ 0x200A) || c.toNat == 0x2028 || c.toNat == 0x2029 ||
    c.toNat == 0x202F || c.toNat == 0x205F || c.toNat == 0x3000 || c.toNat == 0xFEFF

/-- `s.split("\n").filter(l => l.trim())` -/
def nonblankLines (s : Str) : List Str := (s.splitOn '\n').filter fun line => !line.all isBlank

theorem nonblankLines_line {s : Str} (hs : '\n' ∉ s) (hblank : s.all isBlank = false) (t : Str) :
    nonblankLines (s ++ ['\n'] ++ t) = s :: nonblankLines t := by
  rw [List.append_assoc, List.singleton_append, nonblankLines, List.splitOn_append_cons_self,
    List.splitOn_eq_singleton hs, List.filter_append, List.filter_cons, hblank]
  rfl

/-- **A text of closed lines has these lines.** -/
theorem nonblankLines_flatMap {lines : List Str}
    (h : ∀ line ∈ lines, '\n' ∉ line ∧ line.all isBlank = false) :
    nonblankLines (lines.flatMap fun line => line ++ ['\n']) = lines := by
  induction lines with
  | nil => rfl
  | cons line lines ih =>
      obtain ⟨hline, hblank⟩ := h line List.mem_cons_self
      rw [List.flatMap_cons, nonblankLines_line hline hblank,
        ih fun line' h' => h line' (List.mem_cons_of_mem _ h')]

/-! ### Lines as they come in -/

/-- `lines = s.split("\n"); lines.pop()`: the lines that are closed. -/
def closedLines (s : Str) : List Str := (s.splitOn '\n').dropLast

/-- What is popped: the line that is still open. -/
def openLine (s : Str) : Str := (s.splitOn '\n').getLastD []

/-- A text of closed lines and an open one. -/
def ofLines (lines : List Str) (rest : Str) : Str :=
  (lines.flatMap fun line => line ++ ['\n']) ++ rest

theorem ofLines_cons (line : Str) (lines : List Str) (rest : Str) :
    ofLines (line :: lines) rest = line ++ '\n' :: ofLines lines rest := by
  simp [ofLines]

theorem ofLines_append (lines lines' : List Str) (rest : Str) :
    ofLines (lines ++ lines') rest = ofLines lines (ofLines lines' rest) := by
  simp [ofLines]

/-- Lines, the closed ones and the open one, in which there is no line break. -/
structure Unbroken (lines : List Str) (rest : Str) : Prop where
  closed : ∀ line ∈ lines, '\n' ∉ line
  rest : '\n' ∉ rest

theorem splitOn_ofLines {lines : List Str} {rest : Str} (h : Unbroken lines rest) :
    (ofLines lines rest).splitOn '\n' = lines ++ [rest] := by
  induction lines with
  | nil => exact List.splitOn_eq_singleton h.rest
  | cons line lines ih =>
      rw [ofLines_cons, List.splitOn_append_cons_self_of_not_mem (h.closed line List.mem_cons_self),
        ih ⟨fun line' h' => h.closed line' (List.mem_cons_of_mem _ h'), h.rest⟩, List.cons_append]

/-- **The lines of a text of lines.** -/
theorem closedLines_ofLines {lines : List Str} {rest : Str} (h : Unbroken lines rest) :
    closedLines (ofLines lines rest) = lines ∧ openLine (ofLines lines rest) = rest := by
  rw [closedLines, openLine, splitOn_ofLines h]
  simp

theorem closedLines_of_not_mem {s : Str} (h : '\n' ∉ s) : closedLines s = [] ∧ openLine s = s := by
  have hunbroken : Unbroken [] s := ⟨fun _ h => absurd h List.not_mem_nil, h⟩
  exact closedLines_ofLines hunbroken

theorem exists_ofLines (s : Str) : ∃ lines rest, s = ofLines lines rest ∧ Unbroken lines rest := by
  induction s with
  | nil => exact ⟨[], [], rfl, fun _ h => absurd h List.not_mem_nil, List.not_mem_nil⟩
  | cons c s ih =>
      obtain ⟨lines, rest, rfl, h⟩ := ih
      by_cases hc : c = '\n'
      · refine ⟨[] :: lines, rest, by rw [hc, ofLines_cons]; rfl, fun line hline => ?_, h.rest⟩
        rcases List.mem_cons.1 hline with rfl | hline
        · exact List.not_mem_nil
        · exact h.closed line hline
      · have hcons {t : Str} (ht : '\n' ∉ t) : '\n' ∉ c :: t :=
          List.not_mem_cons_of_ne_of_not_mem (Ne.symm hc) ht
        cases lines with
        | nil => exact ⟨[], c :: rest, rfl, h.closed, hcons h.rest⟩
        | cons line lines =>
            refine ⟨(c :: line) :: lines, rest, ?_, fun line' hline' => ?_, h.rest⟩
            · rw [ofLines_cons, ofLines_cons, List.cons_append]
            · rcases List.mem_cons.1 hline' with rfl | hline'
              · exact hcons (h.closed line List.mem_cons_self)
              · exact h.closed line' (List.mem_cons_of_mem _ hline')

/-- **A text is its closed lines and its open line**, which have no line break. -/
theorem ofLines_closedLines (s : Str) :
    s = ofLines (closedLines s) (openLine s) ∧ Unbroken (closedLines s) (openLine s) := by
  obtain ⟨lines, rest, rfl, h⟩ := exists_ofLines s
  obtain ⟨hclosed, hopen⟩ := closedLines_ofLines h
  rw [hclosed, hopen]
  exact ⟨rfl, h⟩

/-- **More text continues the open line.** -/
theorem closedLines_append (s t : Str) :
    closedLines (s ++ t) = closedLines s ++ closedLines (openLine s ++ t) ∧
      openLine (s ++ t) = openLine (openLine s ++ t) := by
  obtain ⟨hs, hunbroken⟩ := ofLines_closedLines s
  obtain ⟨ht, hunbroken'⟩ := ofLines_closedLines (openLine s ++ t)
  have hjoin : s ++ t = ofLines (closedLines s ++ closedLines (openLine s ++ t))
      (openLine (openLine s ++ t)) := by
    rw [ofLines_append, ← ht]
    conv_lhs => rw [hs, ofLines, List.append_assoc]
    rfl
  rw [hjoin]
  refine closedLines_ofLines ⟨fun line hline => ?_, hunbroken'.rest⟩
  rcases List.mem_append.1 hline with h | h
  · exact hunbroken.closed line h
  · exact hunbroken'.closed line h

theorem count_newline_ofLines {lines : List Str} {rest : Str} (h : Unbroken lines rest) :
    (ofLines lines rest).count '\n' = lines.length := by
  induction lines with
  | nil => exact List.count_eq_zero.2 h.rest
  | cons line lines ih =>
      rw [ofLines_cons, List.count_append, List.count_cons_self,
        List.count_eq_zero.2 (h.closed line List.mem_cons_self),
        ih ⟨fun line' h' => h.closed line' (List.mem_cons_of_mem _ h'), h.rest⟩, List.length_cons,
        Nat.zero_add]

theorem openLine_concat (s : Str) : openLine (s ++ ['\n']) = [] := by
  obtain ⟨hs, hunbroken⟩ := ofLines_closedLines s
  have hconcat : s ++ ['\n'] = ofLines (closedLines s ++ [openLine s]) [] := by
    rw [ofLines_append]
    conv_lhs => rw [hs, ofLines, List.append_assoc]
    simp [ofLines]
  rw [hconcat]
  refine (closedLines_ofLines ⟨fun line hline => ?_, List.not_mem_nil⟩).2
  rcases List.mem_append.1 hline with h | h
  · exact hunbroken.closed line h
  · rw [List.mem_singleton.1 h]
    exact hunbroken.rest

end Js
