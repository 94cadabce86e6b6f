import McpWebSearch.Lib.Framing
import McpWebSearch.Lib.Seek
import McpWebSearch.Lib.Text

/-!
# `Lib.Fences` — fenced blocks

A fenced block opens at a line that begins with three backticks and closes at the next such line. So a text is outside of
all blocks where it has evenly many of these lines. `fences` counts them, and `fences_concat` says when a further
character makes one.
-/

namespace Fences

open Utf8

def isFence (l : Text) : Bool := "```".toList.isPrefixOf l

/-- The number of lines that begin with three backticks. -/
def fences (t : Text) : Nat := (Framing.lines '\n' t).countP isFence

/-- No fenced block is open after a text. -/
def Closed (t : Text) : Prop := fences t % 2 = 0

instance (t : Text) : Decidable (Closed t) := inferInstanceAs (Decidable (_ = _))

/-- A line is at its end, or none has begun. -/
def EndsLine (t : Text) : Prop := ∀ c, t.getLast? = some c → c = '\n'

/-- What stands on the last line. -/
def lastLine (t : Text) : Text := Seek.line (· == '\n') t

theorem endsLine_iff {t : Text} : EndsLine t ↔ lastLine t = [] := by
  rw [lastLine, Seek.line_eq_nil_iff]
  simp only [EndsLine, beq_iff_eq]

theorem fences_append {a : Text} (ha : EndsLine a) (b : Text) : fences (a ++ b) = fences a + fences b := by
  rw [fences, Framing.lines_append ha, List.countP_append]
  rfl

/-- A text that begins with a fence has one. -/
theorem fences_pos {t : Text} (h : isFence t = true) : 0 < fences t := by
  obtain ⟨r, rfl⟩ := List.isPrefixOf_iff_prefix.mp h
  have hfirst : Framing.firstLine '\n' ("```".toList ++ r) = "```".toList ++ Framing.firstLine '\n' r :=
    Framing.firstLine_append r (by decide)
  rw [fences, Framing.lines_of_ne_nil (by simp), hfirst]
  apply List.countP_pos_iff.mpr
  exact ⟨_, List.mem_cons_self, List.isPrefixOf_iff_prefix.mpr (List.prefix_append _ _)⟩

theorem isFence_append {a : Text} (h : isFence a = true) (b : Text) : isFence (a ++ b) = true := by
  rw [isFence, List.isPrefixOf_iff_prefix] at h ⊢
  exact h.trans (List.prefix_append a b)

/-- **The content of a block is what ends before the first fence.** Two texts before a fence are the same, if both end
    with a line, the one holds no fence, and the other is not longer by more than a character. -/
theorem content_unique {c s r z : Text} (h : c ++ r = s ++ ("```".toList ++ z)) (hc : EndsLine c) (hs : EndsLine s)
    (hfences : fences c = 0) (hr : isFence r = true) (hlength : s.length ≤ c.length + 1) : c = s := by
  rcases List.append_eq_append_iff.mp h with ⟨d, rfl, rfl⟩ | ⟨d, rfl, hd⟩
  · -- what is missing at the end of the content would be the end of a line, and no fence
    rcases List.eq_nil_or_concat d with rfl | ⟨init, e, rfl⟩
    · exact (List.append_nil c).symm
    rw [List.concat_eq_append] at hs hr hlength
    have he : e = '\n' := hs e (by rw [← List.append_assoc, List.getLast?_concat])
    have hinit : init = [] := by
      rw [List.length_append, List.length_append] at hlength
      apply List.eq_nil_of_length_eq_zero
      simp only [List.length_singleton] at hlength
      omega
    rw [hinit, he] at hr
    cases hr
  · -- what is too much would begin with the fence
    rcases List.eq_nil_or_concat d with rfl | ⟨init, e, rfl⟩
    · exact List.append_nil s
    rw [List.concat_eq_append] at hc hd hfences
    have he : e = '\n' := hc e (by rw [← List.append_assoc, List.getLast?_concat])
    rcases List.prefix_or_prefix_of_prefix ⟨z, hd⟩ (List.prefix_append (init ++ [e]) r) with hfence | hshort
    · have hpos := fences_pos (List.isPrefixOf_iff_prefix.mpr hfence)
      rw [fences_append hs] at hfences
      omega
    · have hmem : e ∈ "```".toList := hshort.subset (by simp)
      rw [he] at hmem
      exact absurd hmem (by decide)

theorem isFence_concat (l : Text) (c : Char) :
    isFence (l ++ [c]) = true ↔ isFence l = true ∨ (l = "``".toList ∧ c = '`') := by
  have hconcat : l ++ [c] = "```".toList ↔ l = "``".toList ∧ c = '`' := by
    constructor
    · intro h
      have hparts : l ++ [c] = "``".toList ++ ['`'] := h
      obtain ⟨hl, hc⟩ := List.append_inj' hparts rfl
      exact ⟨hl, List.singleton_inj.mp hc⟩
    · rintro ⟨rfl, rfl⟩
      rfl
  rw [isFence, isFence, List.isPrefixOf_iff_prefix, List.isPrefixOf_iff_prefix, List.prefix_concat_iff, ← hconcat,
    eq_comm, or_comm]

/-- The fences of a text within a line. -/
theorem fences_of_not_mem {l : Text} (hl : '\n' ∉ l) : fences l = if isFence l then 1 else 0 := by
  by_cases hne : l = []
  · rw [hne]
    rfl
  · rw [fences, Framing.lines_unterminated hl hne, List.countP_singleton]

/-- **A character makes a fence where it is the third backtick of its line.** -/
theorem fences_concat (t : Text) (c : Char) :
    fences (t ++ [c]) = fences t + if lastLine t = "``".toList ∧ c = '`' then 1 else 0 := by
  obtain ⟨a, hsplit, ha⟩ := Seek.exists_before_line (· == '\n') t
  have hl : '\n' ∉ lastLine t := fun h => absurd (Seek.newline_of_mem_line h) (by decide)
  have hline : fences (lastLine t ++ [c]) =
      fences (lastLine t) + if lastLine t = "``".toList ∧ c = '`' then 1 else 0 := by
    have hconcat := isFence_concat (lastLine t) c
    by_cases hthird : lastLine t = "``".toList ∧ c = '`'
    · rw [if_pos hthird, hthird.1, hthird.2]
      rfl
    · rw [if_neg hthird, Nat.add_zero, fences_of_not_mem hl]
      by_cases hc : c = '\n'
      · rw [hc, fences, Framing.lines_terminated hl, List.countP_singleton]
        rw [or_iff_left hthird, hc] at hconcat
        simp only [hconcat]
      · have hmem : '\n' ∉ lastLine t ++ [c] := by
          rw [List.mem_append, List.mem_singleton]
          rintro (h | h)
          · exact hl h
          · exact hc h.symm
        rw [fences_of_not_mem hmem]
        rw [or_iff_left hthird] at hconcat
        simp only [hconcat]
  have ht : t = a ++ lastLine t := hsplit
  have ha' : EndsLine a := endsLine_iff.mpr ha
  calc fences (t ++ [c]) = fences (a ++ (lastLine t ++ [c])) := by rw [← List.append_assoc, ← ht]
    _ = fences a + (fences (lastLine t) + _) := by rw [fences_append ha', hline]
    _ = fences t + _ := by rw [← Nat.add_assoc, ← fences_append ha', ← ht]

theorem closed_concat (t : Text) (c : Char) :
    Closed (t ++ [c]) ↔ (Closed t ↔ ¬ (lastLine t = "``".toList ∧ c = '`')) := by
  unfold Closed
  rw [fences_concat]
  by_cases h : lastLine t = "``".toList ∧ c = '`'
  · rw [if_pos h, iff_false_intro (not_not.mpr h), iff_false]
    omega
  · rw [if_neg h, iff_true_intro h, iff_true, Nat.add_zero]

end Fences
