import Mathlib.Data.List.Basic

/-!
# `Lib.Framing` — splitting a sequence into terminated lines

Lines over any alphabet with a terminator `nl`. A line includes its terminator; the last one may lack it.

## Contents
- `firstLine` and how it behaves on a prefix without terminators (`firstLine_append`), with the
  terminator at a known place (`firstLine_terminated`), or without any (`firstLine_unterminated`).
- `lines`, which takes first lines until nothing is left (`lines_of_ne_nil`), and loses nothing
  (`flatten_lines`).
- `cut`: where the first terminator of a chunk is, as a split of the chunk (`findIdx?_eq_some_cut`).
-/

namespace Framing

variable {α : Type} [DecidableEq α] (nl : α)

/-- The elements up to and including the first terminator, or all of them. -/
def firstLine : List α → List α
  | []      => []
  | a :: as => if a = nl then [a] else a :: firstLine as

/-- All the lines of a sequence. -/
def lines : List α → List (List α)
  | []      => []
  | a :: as =>
      if a = nl then [a] :: lines as
      else
        match lines as with
        | []      => [[a]]
        | l :: ls => (a :: l) :: ls

@[simp] theorem firstLine_nil : firstLine nl [] = [] := rfl
@[simp] theorem lines_nil : lines nl [] = [] := rfl

variable {nl}

theorem firstLine_append {p : List α} (s : List α) (hp : nl ∉ p) :
    firstLine nl (p ++ s) = p ++ firstLine nl s := by
  induction p with
  | nil => rfl
  | cons a p ih =>
      have ha : a ≠ nl := fun h => hp (h ▸ List.mem_cons_self)
      rw [List.cons_append, firstLine, if_neg ha, ih (fun h => hp (List.mem_cons_of_mem a h))]
      rfl

/-- A line that is terminated ends at its terminator. -/
theorem firstLine_terminated {p : List α} (s : List α) (hp : nl ∉ p) :
    firstLine nl (p ++ nl :: s) = p ++ [nl] := by
  rw [firstLine_append _ hp, firstLine, if_pos rfl]

/-- Without a terminator the whole sequence is one line. -/
theorem firstLine_unterminated {p : List α} (hp : nl ∉ p) : firstLine nl p = p := by
  have h := firstLine_append [] hp
  rwa [firstLine_nil, List.append_nil] at h

/-- **Lines one at a time.** The lines of a sequence are its first line and the lines of the rest. -/
theorem lines_of_ne_nil {s : List α} (hs : s ≠ []) :
    lines nl s = firstLine nl s :: lines nl (s.drop (firstLine nl s).length) := by
  induction s with
  | nil => exact absurd rfl hs
  | cons a s ih =>
      by_cases ha : a = nl
      · rw [lines, firstLine, if_pos ha, if_pos ha]
        rfl
      · rw [lines, firstLine, if_neg ha, if_neg ha]
        cases s with
        | nil => rfl
        | cons b s =>
            rw [ih (List.cons_ne_nil b s)]
            rfl

/-- The lines of a sequence make up the sequence. -/
theorem flatten_lines (s : List α) : (lines nl s).flatten = s := by
  induction s with
  | nil => rfl
  | cons a s ih =>
      rw [lines]
      split
      · rw [List.flatten_cons, ih]
        rfl
      · cases hs : lines nl s with
        | nil =>
            rw [hs, List.flatten_nil] at ih
            rw [← ih]
            rfl
        | cons l ls =>
            rw [hs, List.flatten_cons] at ih
            rw [List.flatten_cons, List.cons_append, ih]

/-- A sequence of one line. -/
theorem lines_unterminated {l : List α} (hl : nl ∉ l) (hne : l ≠ []) : lines nl l = [l] := by
  rw [lines_of_ne_nil hne, firstLine_unterminated hl, List.drop_length, lines_nil]

theorem lines_terminated {l : List α} (hl : nl ∉ l) : lines nl (l ++ [nl]) = [l ++ [nl]] := by
  rw [lines_of_ne_nil (List.append_ne_nil_of_right_ne_nil l (List.cons_ne_nil nl [])), firstLine_terminated [] hl,
    List.drop_length, lines_nil]

/-- After the end of a line the lines are those of both parts. -/
theorem lines_append {a : List α} (ha : ∀ x, a.getLast? = some x → x = nl) (b : List α) :
    lines nl (a ++ b) = lines nl a ++ lines nl b := by
  induction a with
  | nil => rfl
  | cons x a ih =>
      cases a with
      | nil =>
          obtain rfl : x = nl := ha x rfl
          rw [List.cons_append, lines, if_pos rfl, lines, if_pos rfl]
          rfl
      | cons y a =>
          have hlines := ih fun z hz => ha z (by rw [List.getLast?_cons_cons, hz])
          obtain ⟨l, ls, hl⟩ : ∃ l ls, lines nl (y :: a) = l :: ls := ⟨_, _, lines_of_ne_nil (List.cons_ne_nil y a)⟩
          have hcons : lines nl (x :: y :: a) = if x = nl then [x] :: l :: ls else (x :: l) :: ls := by
            rw [lines, hl]
          rw [hl] at hlines
          rw [List.cons_append, lines, hlines, hcons]
          split <;> rfl

/-- The position of the first terminator splits the chunk there. -/
theorem findIdx?_eq_some_cut {s : List α} {i : Nat} (h : s.findIdx? (· == nl) = some i) :
    ∃ p q, nl ∉ p ∧ p.length = i ∧ s = p ++ nl :: q := by
  induction s generalizing i with
  | nil => exact absurd h (by simp)
  | cons a s ih =>
      by_cases ha : a = nl
      · subst ha
        obtain rfl : 0 = i := by simpa [List.findIdx?_cons] using h
        exact ⟨[], s, by simp, rfl, rfl⟩
      · rw [List.findIdx?_cons, if_neg (by simpa using ha)] at h
        obtain ⟨j, hj, rfl⟩ := Option.map_eq_some_iff.mp h
        obtain ⟨p, q, hp, hlen, rfl⟩ := ih hj
        refine ⟨a :: p, q, ?_, by simp [hlen], rfl⟩
        simp only [List.mem_cons, not_or]
        exact ⟨Ne.symm ha, hp⟩

/-- A chunk without terminator position has no terminator. -/
theorem not_mem_of_findIdx?_eq_none {s : List α} (h : s.findIdx? (· == nl) = none) : nl ∉ s := by
  intro hmem
  have := List.findIdx?_eq_none_iff.mp h nl hmem
  exact absurd this (by simp)

end Framing
