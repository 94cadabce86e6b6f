import McpWebSearch.Lib.Text

/-!
# `Lib.Traced` — texts whose characters carry an origin

A traced text is a text with a mark on each character that says where it comes from; `erase` forgets the marks. What a
program does to a text by looking at its characters it does to a traced text as well, so a statement about where parts
of an output come from is one about the traced output. A reader is a state that reads one character after the other:
`foldl_trim` says which of them do not see that a text has been trimmed.
-/

namespace Traced

open Utf8

variable {τ σ : Type}

/-- The characters alone. -/
def erase (b : List (Char × τ)) : Text := b.map Prod.fst

/-- A text of one origin. -/
def ofText (o : τ) (t : Text) : List (Char × τ) := t.map (·, o)

/-- The character is white space. -/
def blank (x : Char × τ) : Bool := isWhitespace x.1

/-- Without the white space at the ends. -/
def trim (b : List (Char × τ)) : List (Char × τ) := (b.dropWhile blank).rdropWhile blank

@[simp] theorem erase_nil : erase ([] : List (Char × τ)) = [] := rfl
@[simp] theorem erase_cons (x : Char × τ) (b : List (Char × τ)) : erase (x :: b) = x.1 :: erase b := rfl
@[simp] theorem erase_append (a b : List (Char × τ)) : erase (a ++ b) = erase a ++ erase b := List.map_append

@[simp] theorem erase_ofText (o : τ) (t : Text) : erase (ofText o t) = t := by
  unfold erase ofText
  rw [List.map_map]
  exact List.map_id t

@[simp] theorem ofText_append (o : τ) (s t : Text) : ofText o (s ++ t) = ofText o s ++ ofText o t := List.map_append

theorem origin_of_mem_ofText {o : τ} {t : Text} {x : Char × τ} (h : x ∈ ofText o t) : x.2 = o := by
  obtain ⟨c, -, rfl⟩ := List.mem_map.mp h
  rfl

theorem erase_trim (b : List (Char × τ)) : erase (trim b) = Utf8.trim (erase b) := by
  have hleft (b : List (Char × τ)) : erase (b.dropWhile blank) = (erase b).dropWhile isWhitespace := by
    unfold erase
    rw [List.dropWhile_map]
    rfl
  have hreverse (b : List (Char × τ)) : erase b.reverse = (erase b).reverse := List.map_reverse
  rw [trim, Utf8.trim, List.rdropWhile, List.rdropWhile, hreverse, hleft, hreverse, hleft]

/-! ## Around a character that is not white space -/

theorem dropWhile_split {a r : List (Char × τ)} {x : Char × τ} (hx : blank x = false) :
    (a ++ x :: r).dropWhile blank = a.dropWhile blank ++ x :: r := by
  rw [List.dropWhile_append]
  split
  · rename_i hnil
    rw [List.isEmpty_iff.mp hnil, List.dropWhile_cons_of_neg (by simp [hx]), List.nil_append]
  · rfl

theorem rdropWhile_split {a r : List (Char × τ)} {x : Char × τ} (hx : blank x = false) :
    (a ++ x :: r).rdropWhile blank = a ++ x :: r.rdropWhile blank := by
  have hreverse : (a ++ x :: r).reverse = r.reverse ++ x :: a.reverse := by simp
  rw [List.rdropWhile, hreverse, dropWhile_split hx, List.rdropWhile]
  simp

/-- **Trimming goes on at both sides of a character that stays.** -/
theorem trim_split {a r : List (Char × τ)} {x : Char × τ} (hx : blank x = false) :
    trim (a ++ x :: r) = a.dropWhile blank ++ x :: r.rdropWhile blank := by
  rw [trim, dropWhile_split hx, rdropWhile_split hx]

theorem dropWhile_eq_self {b : List (Char × τ)} (h : ∀ x, b.head? = some x → blank x = false) : b.dropWhile blank = b := by
  cases b with
  | nil => rfl
  | cons x b => exact List.dropWhile_cons_of_neg (by simp [h x rfl])

/-- A trimmed text begins with a character that is not white space. -/
theorem head_trim {b : List (Char × τ)} {x : Char × τ} (h : (trim b).head? = some x) : blank x = false := by
  obtain ⟨rest, hrest⟩ := List.rdropWhile_prefix blank (b.dropWhile blank)
  apply head_dropWhile (l := b)
  rw [← hrest]
  show (trim b ++ rest).head? = some x
  rw [List.head?_append, h]
  rfl

/-- It ends with one, too. -/
theorem getLast?_trim {b : List (Char × τ)} {x : Char × τ} (h : (trim b).getLast? = some x) : blank x = false := by
  have hne : trim b ≠ [] := by
    intro hnil
    rw [hnil] at h
    cases h
  rw [List.getLast?_eq_some_getLast hne] at h
  rw [← Option.some.inj h]
  exact eq_false_of_ne_true (List.rdropWhile_last_not blank (b.dropWhile blank) hne)

/-- What stands before and after a character of a trimmed text. -/
theorem exists_untrimmed {b a r : List (Char × τ)} {x : Char × τ} (h : trim b = a ++ x :: r) (hx : blank x = false) :
    ∃ a' r', b = a' ++ x :: r' ∧ a = a'.dropWhile blank ∧ r = r'.rdropWhile blank := by
  have hb : b = (b.takeWhile blank ++ a) ++ x :: (r ++ (b.dropWhile blank).rtakeWhile blank) := by
    have hright : b.dropWhile blank = trim b ++ (b.dropWhile blank).rtakeWhile blank :=
      List.rdropWhile_append_rtakeWhile.symm
    rw [h] at hright
    calc b = b.takeWhile blank ++ b.dropWhile blank := List.takeWhile_append_dropWhile.symm
      _ = b.takeWhile blank ++ (a ++ x :: r ++ (b.dropWhile blank).rtakeWhile blank) := by rw [← hright]
      _ = _ := by simp only [List.append_assoc, List.cons_append]
  have hleft : a = (b.takeWhile blank ++ a).dropWhile blank := by
    rw [List.dropWhile_append_of_pos fun y hy => List.mem_takeWhile_imp hy]
    apply Eq.symm
    apply dropWhile_eq_self
    intro y hy
    apply head_trim (b := b)
    rw [h, List.head?_append, hy]
    rfl
  refine ⟨_, _, hb, hleft, ?_⟩
  have htrim := (congrArg trim hb).symm.trans h
  rw [trim_split hx, ← hleft] at htrim
  exact (List.cons.inj (List.append_cancel_left htrim)).2.symm

/-! ## Readers -/

section Readers

variable {step : σ → Char × τ → σ} {s : σ}

/-- A reader that ignores white space at the start does not see whether it is there. -/
theorem foldl_dropWhile (hstart : ∀ x, blank x = true → step s x = s) (b : List (Char × τ)) :
    (b.dropWhile blank).foldl step s = b.foldl step s := by
  induction b with
  | nil => rfl
  | cons x b ih =>
      cases hx : blank x with
      | true => rw [List.dropWhile_cons_of_pos hx, List.foldl_cons, hstart x hx, ih]
      | false => rw [List.dropWhile_cons_of_neg (by simp [hx])]

/-- An acceptance that white space does not change is not changed by any at the end. -/
theorem foldl_rdropWhile {accept : σ → Prop} (hend : ∀ s x, blank x = true → (accept (step s x) ↔ accept s))
    (b : List (Char × τ)) : accept ((b.rdropWhile blank).foldl step s) ↔ accept (b.foldl step s) := by
  induction b using List.reverseRecOn with
  | nil => exact Iff.rfl
  | append_singleton b x ih =>
      cases hx : blank x with
      | true => rw [List.rdropWhile_concat_pos _ _ _ hx, ih, List.foldl_append, List.foldl_cons, List.foldl_nil, hend _ x hx]
      | false => rw [List.rdropWhile_concat_neg _ _ _ (by simp [hx])]

/-- **Readers that do not see trimming.** -/
theorem foldl_trim {accept : σ → Prop} (hstart : ∀ x, blank x = true → step s x = s)
    (hend : ∀ s x, blank x = true → (accept (step s x) ↔ accept s)) (b : List (Char × τ)) :
    accept ((trim b).foldl step s) ↔ accept (b.foldl step s) := by
  rw [trim, foldl_rdropWhile hend, foldl_dropWhile hstart]

end Readers

end Traced
