import Mathlib.Data.List.Basic

/-!
# `Lib.Words` — the words of a sequence

Words are the non-empty parts between separators. They are read one element after the other by a `Scan`, which holds the
words that are complete and the one that is still open; so the words of a concatenation are those of one scan that goes
on where the other stopped. Two scans that see different separators drift apart in one way only: one of them has a word
open that the other has closed (`Behind`, `close`).
-/

namespace Words

variable {α : Type} (p : α → Bool)

/-- The non-empty parts between elements that satisfy `p`. -/
def words (l : List α) : List (List α) := (l.splitOnP p).filter fun w => !w.isEmpty

/-- The complete words, and the one that is open, if it is not empty. -/
structure Scan (α : Type) where
  complete : List (List α)
  current : List α

namespace Scan

def start : Scan α := ⟨[], []⟩

/-- The words read so far. -/
def all (s : Scan α) : List (List α) := s.complete ++ [s.current].filter fun w => !w.isEmpty

/-- The open word is complete. -/
def close (s : Scan α) : Scan α := ⟨s.all, []⟩

def step (s : Scan α) (c : α) : Scan α := if p c then s.close else ⟨s.complete, s.current ++ [c]⟩

def read (s : Scan α) (l : List α) : Scan α := l.foldl (step p) s

end Scan

open Scan

variable {p}

@[simp] theorem read_nil (s : Scan α) : s.read p [] = s := rfl
@[simp] theorem read_cons (s : Scan α) (c : α) (l : List α) : s.read p (c :: l) = (s.step p c).read p l := rfl
theorem read_append (s : Scan α) (l m : List α) : s.read p (l ++ m) = (s.read p l).read p m := List.foldl_append

theorem step_sep {c : α} (hc : p c = true) (s : Scan α) : s.step p c = s.close := if_pos hc
theorem step_letter {c : α} (hc : p c = false) (s : Scan α) : s.step p c = ⟨s.complete, s.current ++ [c]⟩ :=
  if_neg (by rw [hc]; exact Bool.false_ne_true)

@[simp] theorem all_close (s : Scan α) : s.close.all = s.all := by
  unfold close all
  simp

@[simp] theorem close_close (s : Scan α) : s.close.close = s.close := by
  rw [close, all_close, close]

theorem close_of_current_eq_nil {s : Scan α} (h : s.current = []) : s.close = s := by
  obtain ⟨complete, current⟩ := s
  obtain rfl : current = [] := h
  unfold close all
  simp

/-- **Words are read by a scan.** -/
theorem words_eq_read (l : List α) : words p l = ((start : Scan α).read p l).all := by
  have hscan (complete : List (List α)) (acc : List α) :
      complete ++ (List.splitOnPPrepend p l acc).filter (fun w => !w.isEmpty) =
        ((⟨complete, acc.reverse⟩ : Scan α).read p l).all := by
    induction l generalizing complete acc with
    | nil => rfl
    | cons c l ih =>
        cases hc : p c with
        | true =>
            rw [List.splitOnPPrepend_cons_pos hc, read_cons, step_sep hc, ← List.splitOnPPrepend_nil_right]
            have hrest := ih ((⟨complete, acc.reverse⟩ : Scan α).all) []
            rw [List.reverse_nil] at hrest
            rw [close, ← hrest, all, List.append_assoc, ← List.filter_append, List.singleton_append]
        | false =>
            rw [List.splitOnPPrepend_cons_neg hc, read_cons, step_letter hc, ih, List.reverse_cons]
  have hstart := hscan [] []
  rwa [List.nil_append, List.splitOnPPrepend_nil_right] at hstart

/-! ## Separators -/

/-- Of a sequence of separators a scan sees only whether there are any. -/
theorem read_seps {l : List α} (hl : ∀ c ∈ l, p c = true) (s : Scan α) :
    s.read p l = if l = [] then s else s.close := by
  induction l generalizing s with
  | nil => rfl
  | cons c l ih =>
      rw [read_cons, step_sep (hl c List.mem_cons_self), ih fun d hd => hl d (List.mem_cons_of_mem c hd)]
      split
      · rfl
      · exact close_close s

/-- A sequence that begins with a separator closes the open word. -/
theorem read_close {l : List α} {c : α} (hhead : l.head? = some c) (hc : p c = true) (s : Scan α) :
    s.close.read p l = s.read p l := by
  cases l with
  | nil => cases hhead
  | cons d l =>
      obtain rfl := Option.some.inj hhead
      rw [read_cons, read_cons, step_sep hc, step_sep hc, close_close]

/-- Whether a word is open is told by the last element. -/
theorem current_read {l : List α} {c : α} (hlast : l.getLast? = some c) (s : Scan α) :
    (s.read p l).current = [] ↔ p c = true := by
  obtain ⟨init, rfl⟩ := List.getLast?_eq_some_iff.mp hlast
  rw [read_append, read_cons, read_nil]
  cases hc : p c with
  | true =>
      rw [step_sep hc]
      exact iff_of_true rfl rfl
  | false =>
      rw [step_letter hc]
      exact iff_of_false (List.append_ne_nil_of_right_ne_nil _ (List.cons_ne_nil c [])) Bool.false_ne_true

/-! ## Falling behind -/

/-- The scan `t` has read at least `k` words fewer than `s`, and is inside a word whenever `s` is. -/
def Behind (k : Nat) (s t : Scan α) : Prop := t.all.length + k ≤ s.all.length ∧ (s.current ≠ [] → t.current ≠ [])

theorem Behind.refl (s : Scan α) : Behind 0 s s := ⟨Nat.le_refl _, id⟩

theorem length_all_letter (s : Scan α) (c : α) :
    (⟨s.complete, s.current ++ [c]⟩ : Scan α).all.length = if s.current = [] then s.all.length + 1 else s.all.length := by
  have hne : (s.current ++ [c]).isEmpty = false := by simp
  unfold all
  cases hcur : s.current with
  | nil => simp
  | cons d w => simp

/-- **What is behind stays behind**, whatever both read. -/
theorem Behind.step {k : Nat} {s t : Scan α} (h : Behind k s t) (c : α) : Behind k (s.step p c) (t.step p c) := by
  obtain ⟨hle, hopen⟩ := h
  cases hc : p c with
  | true =>
      rw [step_sep hc, step_sep hc]
      refine ⟨?_, fun hne => absurd rfl hne⟩
      rwa [all_close, all_close]
  | false =>
      rw [step_letter hc, step_letter hc]
      refine ⟨?_, fun _ => List.append_ne_nil_of_right_ne_nil _ (List.cons_ne_nil c [])⟩
      rw [length_all_letter, length_all_letter]
      by_cases hs : s.current = []
      · rw [if_pos hs]
        split <;> omega
      · rw [if_neg hs, if_neg (hopen hs)]
        exact hle

theorem Behind.read {k : Nat} {s t : Scan α} (h : Behind k s t) (l : List α) : Behind k (s.read p l) (t.read p l) := by
  induction l generalizing s t with
  | nil => exact h
  | cons c l ih => exact ih (h.step c)

/-- A separator that only `s` sees. -/
theorem Behind.close {k : Nat} {s t : Scan α} (h : Behind k s t) : Behind k s.close t := by
  refine ⟨?_, fun hne => absurd rfl hne⟩
  rw [all_close]
  exact h.1

/-- A letter after a word that only `s` has closed: `t` goes on with that word. -/
theorem Behind.glue {k : Nat} {s t : Scan α} (h : Behind k s t) (hs : s.current = []) (ht : t.current ≠ []) {c : α}
    (hc : p c = false) : Behind (k + 1) (s.step p c) (t.step p c) := by
  obtain ⟨hle, -⟩ := h
  rw [step_letter hc, step_letter hc]
  refine ⟨?_, fun _ => List.append_ne_nil_of_right_ne_nil _ (List.cons_ne_nil c [])⟩
  rw [length_all_letter, length_all_letter, if_pos hs, if_neg ht]
  omega

end Words
