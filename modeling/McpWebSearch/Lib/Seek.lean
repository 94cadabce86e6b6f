import McpWebSearch.Lib.History
import Mathlib.Data.List.DropRight
import Mathlib.Data.List.Induction
import Mathlib.Data.List.Infix

/-!
# `Lib.Seek` — looking for a line that begins with a pattern

A reader of lines that looks for one that begins with a pattern `m` needs no more than the number of elements of `m` that
the current line consists of. Blanks before the first line are passed over, and the pattern counts only if something that
is no blank follows it: `foldl_eq_found_iff` says for which texts the reader ends in `found`.
-/

namespace Seek

variable {α : Type} (newline blank : α → Bool) (m : List α)

/-- The last line. -/
def line (b : List α) : List α := b.rtakeWhile fun x => !newline x

/-- Some line begins with the pattern. -/
def Begins (b : List α) : Prop := ∃ a r, b = a ++ m ++ r ∧ line newline a = []

/-- Some line begins with the pattern, and something follows. -/
def Found (b : List α) : Prop := ∃ a r, b = a ++ m ++ r ∧ line newline a = [] ∧ ∃ z ∈ r, blank z = false

variable {newline blank m}

/-! ## Lines -/

theorem line_concat (b : List α) (x : α) :
    line newline (b ++ [x]) = if newline x then [] else line newline b ++ [x] := by
  unfold line
  cases hx : newline x with
  | true => exact List.rtakeWhile_concat_neg _ _ _ (by simp [hx])
  | false => exact List.rtakeWhile_concat_pos _ _ _ (by simp [hx])

theorem line_eq_nil_iff {a : List α} : line newline a = [] ↔ ∀ x, a.getLast? = some x → newline x = true := by
  unfold line
  rw [List.rtakeWhile_eq_nil_iff]
  constructor
  · intro h x hx
    obtain ⟨init, rfl⟩ := List.getLast?_eq_some_iff.mp hx
    have hlast := h (List.append_ne_nil_of_right_ne_nil init (List.cons_ne_nil x []))
    rw [List.getLast_concat] at hlast
    simpa using hlast
  · intro h hne
    rw [h _ (List.getLast?_eq_some_getLast hne)]
    decide

/-- The last line ends nowhere. -/
theorem newline_of_mem_line {b : List α} {x : α} (hx : x ∈ line newline b) : newline x = false := by
  have h := List.mem_rtakeWhile_imp hx
  simpa using h

theorem line_append {l : List α} (hl : ∀ x ∈ l, newline x = false) (b : List α) :
    line newline (b ++ l) = line newline b ++ l := by
  induction l using List.reverseRecOn with
  | nil => rw [List.append_nil, List.append_nil]
  | append_singleton l x ih =>
      have hx : newline x = false := hl x (by simp)
      rw [← List.append_assoc, line_concat, hx, if_neg Bool.false_ne_true, ih fun y hy => hl y (by simp [hy]),
        List.append_assoc]

theorem mem_line_append {b l : List α} {x : α} (hx : x ∈ line newline l) : x ∈ line newline (b ++ l) := by
  induction l using List.reverseRecOn with
  | nil => cases hx
  | append_singleton l y ih =>
      rw [line_concat] at hx
      rw [← List.append_assoc, line_concat]
      split at hx
      · cases hx
      · rename_i hy
        rw [if_neg hy]
        rcases List.mem_append.mp hx with hx | hx
        · exact List.mem_append_left _ (ih hx)
        · exact List.mem_append_right _ hx

/-- A text is its lines before the last, and the last. -/
theorem exists_before_line (newline : α → Bool) (b : List α) : ∃ a, b = a ++ line newline b ∧ line newline a = [] := by
  refine ⟨b.rdropWhile fun x => !newline x, List.rdropWhile_append_rtakeWhile.symm, ?_⟩
  apply List.rtakeWhile_eq_nil_iff.mpr
  intro hne
  exact List.rdropWhile_last_not _ b hne

theorem begins_concat (hnl : ∀ x ∈ m, newline x = false) (b : List α) (x : α) :
    Begins newline m (b ++ [x]) ↔ Begins newline m b ∨ line newline (b ++ [x]) = m := by
  constructor
  · rintro ⟨a, r, hb, ha⟩
    rcases List.eq_nil_or_concat r with rfl | ⟨r, y, rfl⟩
    · right
      rw [hb, List.append_nil, line_append hnl, ha, List.nil_append]
    · left
      rw [List.concat_eq_append, ← List.append_assoc] at hb
      exact ⟨a, r, (List.append_inj' hb rfl).1, ha⟩
  · rintro (⟨a, r, rfl, ha⟩ | hline)
    · exact ⟨a, r ++ [x], List.append_assoc _ r [x], ha⟩
    · obtain ⟨a, hb, ha⟩ := exists_before_line newline (b ++ [x])
      rw [hline] at hb
      exact ⟨a, [], by rw [hb, List.append_nil], ha⟩

theorem found_concat (b : List α) (x : α) :
    Found newline blank m (b ++ [x]) ↔ Found newline blank m b ∨ (Begins newline m b ∧ blank x = false) := by
  constructor
  · rintro ⟨a, r, hb, ha, z, hz, hblank⟩
    rcases List.eq_nil_or_concat r with rfl | ⟨r, y, rfl⟩
    · cases hz
    · rw [List.concat_eq_append] at hb hz
      rw [← List.append_assoc] at hb
      obtain ⟨hb, hy⟩ := List.append_inj' hb rfl
      rcases List.mem_append.mp hz with hz | hz
      · exact .inl ⟨a, r, hb, ha, z, hz, hblank⟩
      · rw [List.mem_singleton.mp hz, ← List.singleton_inj.mp hy] at hblank
        exact .inr ⟨⟨a, r, hb, ha⟩, hblank⟩
  · rintro (⟨a, r, rfl, ha, z, hz, hblank⟩ | ⟨⟨a, r, rfl, ha⟩, hblank⟩)
    · exact ⟨a, r ++ [x], List.append_assoc _ r [x], ha, z, List.mem_append_left _ hz, hblank⟩
    · exact ⟨a, r ++ [x], List.append_assoc _ r [x], ha, x, by simp, hblank⟩

theorem Found.begins {b : List α} (h : Found newline blank m b) : Begins newline m b := by
  obtain ⟨a, r, hb, ha, -⟩ := h
  exact ⟨a, r, hb, ha⟩

theorem not_begins_nil (hm : m ≠ []) : ¬ Begins newline m [] := by
  rintro ⟨a, r, hb, -⟩
  exact hm (List.append_eq_nil_iff.mp (List.append_eq_nil_iff.mp hb.symm).1).2

/-! ## The reader -/

inductive State
  | opening               -- blanks at most
  | reading (n : Nat)     -- the line is the first `n` elements of the pattern
  | elsewhere             -- the line begins otherwise
  | complete              -- the pattern is read, with blanks at most after it
  | found
  deriving DecidableEq

/-- The state after the end of a line. -/
def State.newLine : State → State
  | .opening => .opening
  | .reading _ | .elsewhere => .reading 0
  | .complete => .complete
  | .found => .found

section Reader

variable [DecidableEq α]

variable (newline m) in
def advance (n : Nat) (x : α) : State :=
  if newline x then .reading 0
  else if m[n]? = some x then (if n + 1 = m.length then .complete else .reading (n + 1))
  else .elsewhere

variable (newline blank m) in
def step : State → α → State
  | .opening, x => if blank x then .opening else advance newline m 0 x
  | .reading n, x => advance newline m n x
  | .elsewhere, x => if newline x then .reading 0 else .elsewhere
  | .complete, x => if blank x then .complete else .found
  | .found, _ => .found

theorem step_newline {x : α} (hx : newline x = true) (hblank : blank x = true) (s : State) :
    step newline blank m s x = s.newLine := by
  cases s with
  | opening => exact if_pos hblank
  | reading n => exact if_pos hx
  | elsewhere => exact if_pos hx
  | complete => exact if_pos hblank
  | found => rfl

theorem step_eq_found_iff {x : α} (hblank : blank x = true) (s : State) :
    step newline blank m s x = .found ↔ s = .found := by
  have hadvance (n : Nat) : advance newline m n x ≠ .found := by
    unfold advance
    split
    · exact State.noConfusion
    split
    · split <;> exact State.noConfusion
    · exact State.noConfusion
  cases s with
  | opening =>
      rw [step, if_pos hblank]
  | reading n => exact iff_of_false (hadvance n) State.noConfusion
  | elsewhere =>
      apply iff_of_false _ State.noConfusion
      rw [step]
      split <;> exact State.noConfusion
  | complete =>
      rw [step, if_pos hblank]
  | found => exact Iff.rfl

/-- The pattern at the beginning of a line is read. -/
theorem foldl_pattern (hm : m ≠ []) (hnl : ∀ x ∈ m, newline x = false) :
    m.foldl (step newline blank m) (.reading 0) = .complete := by
  have hrest (p r : List α) (hr : r ≠ []) (hpr : m = p ++ r) :
      r.foldl (step newline blank m) (.reading p.length) = .complete := by
    induction r generalizing p with
    | nil => exact absurd rfl hr
    | cons x r ih =>
        have hx : newline x = false := hnl x (by rw [hpr]; simp)
        have hnext : m[p.length]? = some x := by
          rw [hpr, List.getElem?_append_right (Nat.le_refl _), Nat.sub_self]
          rfl
        rw [List.foldl_cons, step, advance, hx, if_neg Bool.false_ne_true, if_pos hnext]
        cases r with
        | nil =>
            rw [if_pos (by rw [hpr, List.length_append]; rfl)]
            rfl
        | cons y r =>
            have hlength : p.length + 1 ≠ m.length := by
              rw [hpr]
              simp
            rw [if_neg hlength]
            have hstep := ih (p ++ [x]) (List.cons_ne_nil y r) (by rw [hpr]; simp)
            rwa [List.length_append] at hstep
  exact hrest [] m hm rfl

end Reader

variable (newline blank m) in
/-- What the state says of the text that is read. -/
def Reads (b : List α) : State → Prop
  | .opening => b = []
  | .reading n => ¬ Begins newline m b ∧ b ≠ [] ∧ n < m.length ∧ line newline b = m.take n
  | .elsewhere => ¬ Begins newline m b ∧ b ≠ [] ∧ ¬ line newline b <+: m
  | .complete => Begins newline m b ∧ ¬ Found newline blank m b
  | .found => Found newline blank m b

theorem reads_newline (hm : m ≠ []) (hnl : ∀ x ∈ m, newline x = false) {b : List α} {x : α} (hx : newline x = true)
    (hb : ¬ Begins newline m b) : Reads newline blank m (b ++ [x]) (.reading 0) := by
  have hline : line newline (b ++ [x]) = [] := by rw [line_concat, if_pos hx]
  refine ⟨?_, List.append_ne_nil_of_right_ne_nil b (List.cons_ne_nil x []), List.length_pos_iff.mpr hm, hline⟩
  rw [begins_concat hnl, hline]
  rintro (h | h)
  · exact hb h
  · exact hm h.symm

variable [DecidableEq α]

theorem reads_advance (hm : m ≠ []) (hnl : ∀ x ∈ m, newline x = false) {b : List α} {n : Nat}
    (hb : ¬ Begins newline m b) (hn : n < m.length) (hline : line newline b = m.take n) (x : α) :
    Reads newline blank m (b ++ [x]) (advance newline m n x) := by
  unfold advance
  cases hx : newline x with
  | true => exact reads_newline hm hnl hx hb
  | false =>
      have hne : b ++ [x] ≠ [] := List.append_ne_nil_of_right_ne_nil b (List.cons_ne_nil x [])
      have hline' : line newline (b ++ [x]) = m.take n ++ [x] := by
        rw [line_concat, hx, if_neg Bool.false_ne_true, hline]
      rw [if_neg Bool.false_ne_true]
      by_cases hnext : m[n]? = some x
      · have htake : line newline (b ++ [x]) = m.take (n + 1) := by
          rw [hline', List.take_add_one, hnext]
          rfl
        rw [if_pos hnext]
        by_cases hfull : n + 1 = m.length
        · rw [if_pos hfull]
          constructor
          · apply (begins_concat hnl b x).mpr
            right
            rw [htake, hfull, List.take_length]
          · rw [found_concat]
            rintro (h | h)
            · exact hb h.begins
            · exact hb h.1
        · rw [if_neg hfull]
          refine ⟨?_, hne, by omega, htake⟩
          rw [begins_concat hnl, htake]
          rintro (h | h)
          · exact hb h
          · have hlength := congrArg List.length h
            rw [List.length_take] at hlength
            omega
      · have hprefix : ¬ line newline (b ++ [x]) <+: m := by
          rintro ⟨r, hr⟩
          apply hnext
          rw [hline'] at hr
          have hlength : (m.take n).length = n := by
            rw [List.length_take]
            omega
          rw [← hr, List.append_assoc, List.getElem?_append_right (by rw [hlength]), hlength, Nat.sub_self]
          rfl
        rw [if_neg hnext]
        refine ⟨?_, hne, hprefix⟩
        rw [begins_concat hnl]
        rintro (h | h)
        · exact hb h
        · rw [h] at hprefix
          exact hprefix (List.prefix_refl m)

theorem reads_step (hm : m ≠ []) (hnl : ∀ x ∈ m, newline x = false) {b : List α} {x : α}
    (hfirst : b = [] → blank x = false) {s : State} (h : Reads newline blank m b s) :
    Reads newline blank m (b ++ [x]) (step newline blank m s x) := by
  have hne : b ++ [x] ≠ [] := List.append_ne_nil_of_right_ne_nil b (List.cons_ne_nil x [])
  cases s with
  | opening =>
      obtain rfl : b = [] := h
      rw [step, hfirst rfl]
      exact reads_advance hm hnl (not_begins_nil hm) (List.length_pos_iff.mpr hm) rfl x
  | reading n => exact reads_advance hm hnl h.1 h.2.2.1 h.2.2.2 x
  | elsewhere =>
      obtain ⟨hb, -, hprefix⟩ := h
      rw [step]
      cases hx : newline x with
      | true => exact reads_newline hm hnl hx hb
      | false =>
          have hprefix' : ¬ line newline (b ++ [x]) <+: m := by
            rw [line_concat, hx, if_neg Bool.false_ne_true]
            intro h
            exact hprefix ((List.prefix_append _ [x]).trans h)
          refine ⟨?_, hne, hprefix'⟩
          rw [begins_concat hnl]
          rintro (h | h)
          · exact hb h
          · rw [h] at hprefix'
            exact hprefix' (List.prefix_refl m)
  | complete =>
      obtain ⟨hb, hfound⟩ := h
      rw [step]
      cases hx : blank x with
      | true =>
          refine ⟨(begins_concat hnl b x).mpr (.inl hb), ?_⟩
          rw [found_concat, hx]
          rintro (h | ⟨-, h⟩)
          · exact hfound h
          · cases h
      | false => exact (found_concat b x).mpr (.inr ⟨hb, hx⟩)
  | found => exact (found_concat b x).mpr (.inl h)

/-- **The reader finds the pattern if and only if a line begins with it and something follows**, in a text that does not
    begin with blanks. -/
theorem foldl_eq_found_iff (hm : m ≠ []) (hnl : ∀ x ∈ m, newline x = false) {b : List α}
    (hb : ∀ x, b.head? = some x → blank x = false) :
    b.foldl (step newline blank m) .opening = .found ↔ Found newline blank m b := by
  have hreads : Reads newline blank m b (b.foldl (step newline blank m) .opening) := by
    apply History.snoc_induction (p := fun x => blank x = false) (Q := fun b => Reads newline blank m b _) _ _ hb
    · exact rfl
    · intro b x hfirst ih
      rw [List.foldl_concat]
      exact reads_step hm hnl hfirst ih
  generalize b.foldl (step newline blank m) .opening = s at hreads
  constructor
  · rintro rfl
    exact hreads
  · intro hfound
    cases s with
    | opening =>
        obtain rfl : b = [] := hreads
        exact absurd hfound.begins (not_begins_nil hm)
    | reading n => exact absurd hfound.begins hreads.1
    | elsewhere => exact absurd hfound.begins hreads.1
    | complete => exact absurd hfound hreads.2
    | found => rfl

end Seek
