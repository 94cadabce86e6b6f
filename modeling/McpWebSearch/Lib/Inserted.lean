import Mathlib.Data.List.Infix

/-!
# `Lib.Inserted` — a sequence with more elements of one kind put in

`Inserted p xs ys`: leaving out of `ys` some elements with `p` gives `xs`. So `xs` is in `ys`, in order, and what else `ys` has is of
that kind; a pass that decorates what another one writes is stated by it. It composes as the passes do: side by side (`append`) and
one after the other (`trans`).
-/

/-- `ys` is `xs` with elements put in that meet `p`. -/
inductive Inserted {α : Type} (p : α → Bool) : List α → List α → Prop
  | nil : Inserted p [] []
  | keep (x : α) {xs ys : List α} (h : Inserted p xs ys) : Inserted p (x :: xs) (x :: ys)
  | insert {y : α} {xs ys : List α} (hy : p y = true) (h : Inserted p xs ys) : Inserted p xs (y :: ys)

namespace Inserted

variable {α : Type} {p : α → Bool} {xs xs' ys ys' zs : List α}

theorem refl (xs : List α) : Inserted p xs xs := by
  induction xs with
  | nil => exact nil
  | cons x xs ih => exact ih.keep x

theorem append (h : Inserted p xs ys) (h' : Inserted p xs' ys') : Inserted p (xs ++ xs') (ys ++ ys') := by
  induction h with
  | nil => exact h'
  | keep x _ ih => exact ih.keep x
  | insert hy _ ih => exact ih.insert hy

theorem trans (h : Inserted p xs ys) (h' : Inserted p ys zs) : Inserted p xs zs := by
  induction h' generalizing xs with
  | nil => exact h
  | insert hz _ ih => exact (ih h).insert hz
  | keep y _ ih =>
      cases h with
      | keep _ h => exact (ih h).keep y
      | insert hy h => exact (ih h).insert hy

/-- Nothing of the kind, nothing put in. -/
theorem eq_of_none (h : Inserted p xs ys) (hp : ∀ y, p y = false) : xs = ys := by
  induction h with
  | nil => rfl
  | keep x _ ih => exact congrArg (x :: ·) ih
  | insert hy _ _ => exact absurd hy (by rw [hp]; exact Bool.false_ne_true)

/-- Both sequences are the same but for elements of the kind. -/
theorem filter_eq (h : Inserted p xs ys) : ys.filter (fun y => !p y) = xs.filter fun x => !p x := by
  induction h with
  | nil => rfl
  | keep x _ ih => rw [List.filter_cons, List.filter_cons, ih]
  | insert hy _ ih =>
      rw [List.filter_cons_of_neg (by rw [hy]; decide)]
      exact ih

end Inserted
