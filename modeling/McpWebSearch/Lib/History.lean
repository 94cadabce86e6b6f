import Mathlib.Data.List.Induction

/-!
# `Lib.History` — properties of a sequence at each of its positions

`AtEach P l` says that `P` holds of every element of `l` and the elements before it. It grows with the sequence:
`atEach_snoc` is what an induction from the back uses (`snoc_induction`, for a sequence with a given first element).
-/

namespace History

variable {α : Type} {P : List α → α → Prop}

/-- `P` holds at every position, of the elements before and the element there. -/
def AtEach (P : List α → α → Prop) (l : List α) : Prop :=
  ∀ before e after, l = before ++ e :: after → P before e

theorem atEach_nil : AtEach P [] := by
  intro before e after h
  exact absurd h (by simp)

/-- The positions of `l ++ [e]` are those of `l` and the last one. -/
theorem atEach_snoc {l : List α} {e : α} : AtEach P (l ++ [e]) ↔ AtEach P l ∧ P l e := by
  constructor
  · intro h
    refine ⟨fun before d after hl => h before d (after ++ [e]) (by rw [hl]; simp), h l e [] rfl⟩
  · rintro ⟨hl, he⟩ before d after heq
    -- the position is the last one or one of the old ones
    rcases List.eq_nil_or_concat after with rfl | ⟨after', last, rfl⟩
    · obtain ⟨rfl, hlast⟩ := List.append_inj' heq rfl
      rwa [← List.singleton_inj.mp hlast]
    · rw [List.concat_eq_append, ← List.cons_append, ← List.append_assoc] at heq
      exact hl before d after' (List.append_inj' heq rfl).1

/-- A property somewhere in `l ++ [e]` is one somewhere in `l`, or at the end. -/
theorem exists_snoc {l : List α} {e : α} :
    (∃ before d after, l ++ [e] = before ++ d :: after ∧ P before d) ↔
      (∃ before d after, l = before ++ d :: after ∧ P before d) ∨ P l e := by
  have hnot (m : List α) : (∃ before d after, m = before ++ d :: after ∧ P before d) ↔ ¬ AtEach (fun b d => ¬ P b d) m := by
    simp only [AtEach, not_forall, not_not, exists_prop]
  rw [hnot, hnot, atEach_snoc, not_and_or, not_not]

/-- Two sequences one after the other, if the property of the second does not mind what comes before. -/
theorem atEach_append {l l' : List α} (hmono : ∀ b e, P b e → P (l ++ b) e) (hl : AtEach P l) (hl' : AtEach P l') :
    AtEach P (l ++ l') := by
  induction l' using List.reverseRecOn with
  | nil => rwa [List.append_nil]
  | append_singleton l' e ih =>
      obtain ⟨hl', he⟩ := atEach_snoc.mp hl'
      rw [← List.append_assoc]
      exact atEach_snoc.mpr ⟨ih hl', hmono l' e he⟩

/-- Induction from the back over a sequence whose first element satisfies `p`. -/
theorem snoc_induction {Q : List α → Prop} {p : α → Prop} (nil : Q []) (snoc : ∀ l e, (l = [] → p e) → Q l → Q (l ++ [e]))
    {l : List α} (hl : ∀ e, l.head? = some e → p e) : Q l := by
  induction l using List.reverseRecOn with
  | nil => exact nil
  | append_singleton l e ih =>
      apply snoc l e
      · rintro rfl
        exact hl e rfl
      · apply ih
        intro d hd
        apply hl
        rw [List.head?_append, hd, Option.some_or]

/-- A list that has at most one element is empty or a singleton. -/
theorem eq_nil_or_singleton {l : List α} (h : l.length ≤ 1) : l = [] ∨ ∃ a, l = [a] := by
  cases l with
  | nil => exact .inl rfl
  | cons a l =>
      have hl : l = [] := List.eq_nil_of_length_eq_zero (Nat.le_zero.mp (Nat.le_of_succ_le_succ h))
      exact .inr ⟨a, by rw [hl]⟩

end History
