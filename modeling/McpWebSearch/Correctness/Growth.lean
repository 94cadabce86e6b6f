import Mathlib.Data.List.Flatten
import Mathlib.Tactic.Ring
import McpWebSearch.Correctness.Scoping
import McpWebSearch.Correctness.Targets

/-!
# `Correctness.Growth` — how much longer a page can get

What a page is converted to, against the bytes of its tags and texts (`markup`). Markers cost a constant for each byte of a tag, the
number of a list item its digits; but an item is indented for each list around it, and a block quotation puts a mark before each line
inside. So the markdown is linear in the page for each nesting, and no better: lists inside one another are quadratic
(`conversions_bounded`). Quoting is why bytes and ends of lines are bounded together (`Grows`).
-/

namespace McpWebSearch
namespace Scrape

open Utf8 Dom

/-! ## Texts -/

theorem byteLen_trim_le (t : Text) : byteLen (trim t) ≤ byteLen t :=
  byteLen_le_of_sublist ((List.rdropWhile_prefix _ _).sublist.trans (List.dropWhile_sublist _))

theorem byteLen_squeeze_le (n : Nat) (t : Text) : byteLen (squeeze n t) ≤ byteLen t := by
  rw [squeeze_eq_keepRuns]
  exact byteLen_le_of_sublist (Runs.keepRuns_sublist t)

/-- A run of white space is no shorter than a space. -/
theorem byteLen_referenceCollapse_le (t : Text) : byteLen (referenceCollapse t) ≤ byteLen t := by
  rw [referenceCollapse_eq]
  fun_induction collapseRuns t with
  | case1 => exact Nat.le_refl 0
  | case2 c t hc ih =>
      have hrest : byteLen (t.dropWhile isAsciiWhitespace) ≤ byteLen t := byteLen_le_of_sublist (List.dropWhile_sublist _)
      have hspace : Char.utf8Size ' ' = 1 := rfl
      have hpos := c.utf8Size_pos
      rw [byteLen_cons, byteLen_cons]
      omega
  | case3 c t hc ih =>
      rw [byteLen_cons, byteLen_cons]
      omega

theorem byteLen_shown_le (t : Text) : byteLen (shown t) ≤ byteLen t := by
  have hle := byteLen_referenceCollapse_le t
  unfold shown
  split
  · exact hle
  · exact Nat.zero_le _

theorem byteLen_indent (d : Nat) : byteLen (indent d) = 2 * (d - 1) := by
  rw [byteLen_ascii, indent, List.length_replicate]
  intro c hc
  rw [List.eq_of_mem_replicate hc]
  decide

/-- A smaller number has no more digits. -/
theorem byteLen_decimal_le {m n : Nat} (h : m ≤ n) : byteLen (decimal m) ≤ (decimal n).length := by
  have hascii : ∀ c ∈ decimal m, c.toNat < 0x80 := by
    intro c hc
    have hdigit := Char.isDigit_iff_toNat.mp (Nat.isDigit_of_mem_toDigits (by decide) (by decide) hc)
    have hnine : '9'.toNat = 57 := rfl
    omega
  have hn : n < 10 ^ (decimal n).length := (Nat.length_toDigits_le_iff (by decide) Nat.length_toDigits_pos).mp (Nat.le_refl _)
  rw [byteLen_ascii hascii]
  exact (Nat.length_toDigits_le_iff (by decide) Nat.length_toDigits_pos).mpr (Nat.lt_of_le_of_lt h hn)

theorem count_decimal (n : Nat) : (decimal n).count '\n' = 0 := by
  apply List.count_eq_zero.mpr
  intro hmem
  have hdigit : Char.isDigit '\n' = true := Nat.isDigit_of_mem_toDigits (by decide) (by decide) hmem
  exact absurd hdigit (by decide)

theorem count_indent (d : Nat) : (indent d).count '\n' = 0 := by
  rw [indent, List.count_replicate]
  rfl

/-! ## Block quotations -/

theorem stripEol_sublist (l : Text) : (stripEol l).Sublist l := by
  unfold stripEol
  split
  · split
    · exact (List.dropLast_sublist _).trans (List.dropLast_sublist _)
    · exact List.dropLast_sublist _
  · exact List.Sublist.refl _

/-- A character before a line stays before it, if it stays. -/
theorem stripEol_cons_sublist (c : Char) (l : Text) : (stripEol (c :: l)).Sublist (c :: stripEol l) := by
  by_cases hl : l = []
  · rw [hl]
    exact stripEol_sublist [c]
  have hlast : (c :: l).getLast? = l.getLast? := List.getLast?_cons_of_ne_nil hl
  have hdrop : (c :: l).dropLast = c :: l.dropLast := List.dropLast_cons_of_ne_nil hl
  rw [stripEol, stripEol, hlast, hdrop]
  split
  · by_cases hshort : l.dropLast = []
    · -- the line is its newline alone, and its start may be a carriage return
      rw [hshort]
      split
      · exact List.nil_sublist _
      · exact List.Sublist.refl _
    · rw [List.getLast?_cons_of_ne_nil hshort, List.dropLast_cons_of_ne_nil hshort]
      split <;> exact List.Sublist.refl _
  · exact List.Sublist.refl _

/-- A quoted line. -/
def quotedLine (l : Text) : Text := "> " ++ stripEol l ++ "\n"

theorem quoteLines_flatMap (t : Text) : quoteLines t = (Framing.lines '\n' t).flatMap quotedLine := quoteLines_eq t

theorem byteLen_quotedLine (l : Text) : byteLen (quotedLine l) = byteLen (stripEol l) + 3 := by
  have hmark : byteLen ("> " : Text) = 2 := rfl
  have hend : byteLen ("\n" : Text) = 1 := rfl
  rw [quotedLine, byteLen_append, byteLen_append, hmark, hend]
  omega

theorem count_quotedLine (l : Text) : (quotedLine l).count '\n' = (stripEol l).count '\n' + 1 := by
  have hmark : ("> " : Text).count '\n' = 0 := rfl
  have hend : ("\n" : Text).count '\n' = 1 := rfl
  rw [quotedLine, List.count_append, List.count_append, hmark, hend]
  omega

/-- Each line costs a mark, and the last one an end. -/
theorem quoteLines_grows (t : Text) :
    byteLen (quoteLines t) ≤ byteLen t + 2 * t.count '\n' + 3 ∧ (quoteLines t).count '\n' ≤ t.count '\n' + 1 := by
  rw [quoteLines_flatMap]
  induction t with
  | nil => exact ⟨Nat.zero_le _, Nat.zero_le _⟩
  | cons c t ih =>
      obtain ⟨hbytes, hends⟩ := ih
      by_cases hc : c = '\n'
      · subst hc
        have hsize : Char.utf8Size '\n' = 1 := rfl
        have hempty : stripEol ['\n'] = [] := rfl
        rw [Framing.lines, if_pos rfl, List.flatMap_cons, byteLen_append, List.count_append, byteLen_quotedLine, count_quotedLine, hempty,
          byteLen_nil, List.count_nil, byteLen_cons, List.count_cons_self, hsize]
        omega
      · rw [Framing.lines, if_neg hc, byteLen_cons, List.count_cons_of_ne hc]
        cases hlines : Framing.lines '\n' t with
        | nil =>
            have hline : stripEol [c] = [c] := by
              rw [stripEol, if_neg]
              intro h
              exact hc (Option.some.inj h)
            show byteLen ([[c]].flatMap quotedLine) ≤ _ ∧ ([[c]].flatMap quotedLine).count '\n' ≤ _
            rw [List.flatMap_singleton, byteLen_quotedLine, count_quotedLine, hline, byteLen_cons, byteLen_nil, List.count_cons_of_ne hc,
              List.count_nil]
            omega
        | cons l ls =>
            have hsub := stripEol_cons_sublist c l
            have hsubBytes := byteLen_le_of_sublist hsub
            have hsubEnds := hsub.count_le '\n'
            rw [byteLen_cons] at hsubBytes
            rw [List.count_cons_of_ne hc] at hsubEnds
            rw [hlines, List.flatMap_cons, byteLen_append, byteLen_quotedLine] at hbytes
            rw [hlines, List.flatMap_cons, List.count_append, count_quotedLine] at hends
            show byteLen (((c :: l) :: ls).flatMap quotedLine) ≤ _ ∧ (((c :: l) :: ls).flatMap quotedLine).count '\n' ≤ _
            rw [List.flatMap_cons, byteLen_append, List.count_append, byteLen_quotedLine, count_quotedLine]
            omega

/-! ## What an element writes by itself -/

/-- The bytes that an arm writes besides what its children do, with the first marks of a quotation, and without an indentation. -/
def Arm.ownBytes : Arm → Nat
  | .block lead => byteLen lead + 2
  | .inline before after => byteLen before + byteLen after
  | .leaf text => byteLen text
  | .blockquote => 4
  | .pre => 10
  | .code => 2
  | .ul => 2
  | .ol => 1
  | .li => 3

/-- The ends of lines among them. -/
def Arm.ownEnds : Arm → Nat
  | .block lead => lead.count '\n' + 2
  | .inline before after => before.count '\n' + after.count '\n'
  | .leaf text => text.count '\n'
  | .blockquote => 2
  | .pre => 4
  | .code => 0
  | .ul => 2
  | .ol => 1
  | .li => 1

/-- An arm that a tag of so many bytes pays for. -/
def Arm.Within (arm : Arm) (tag : Nat) : Prop := arm.ownBytes ≤ 3 * tag ∧ arm.ownEnds ≤ tag

theorem within_ite {c : Bool} {a b : Arm} {tag : Nat} (ha : c = true → a.Within tag) (hb : b.Within tag) :
    (if c then a else b).Within tag := by
  cases c with
  | true => exact ha rfl
  | false => exact hb

theorem le_byteLen_of_oneOf {name : Text} {names : List String} {k : Nat} (h : oneOf name names = true)
    (hk : ∀ s ∈ names, k ≤ byteLen s.toList) : k ≤ byteLen name := by
  obtain ⟨s, hs, hname⟩ := List.any_eq_true.mp h
  rw [← beq_iff_eq.mp hname]
  exact hk s hs

theorem headingLevel_le {name : Text} (h : oneOf name ["h1", "h2", "h3", "h4", "h5", "h6"] = true) : headingLevel name ≤ 6 := by
  obtain ⟨s, hs, hname⟩ := List.any_eq_true.mp h
  rw [← beq_iff_eq.mp hname]
  clear hname
  revert s
  decide

/-- **Each element pays for its markers.** -/
theorem within_armOf (name : Text) (attrs : List (Text × Text)) : (armOf name attrs).Within (tagMarkup name attrs) := by
  have htag : byteLen name + 2 + attrsMarkup attrs = tagMarkup name attrs := rfl
  have hends (key : Text) : (attr attrs key).count '\n' ≤ byteLen (attr attrs key) := count_le_byteLen _ _
  have hconst {arm : Arm} (hbytes : arm.ownBytes ≤ 6) (hlines : arm.ownEnds ≤ 2) : arm.Within (tagMarkup name attrs) :=
    ⟨by omega, by omega⟩
  unfold armOf
  refine within_ite (fun h => ?_) ?_
  · -- the level of a heading
    have hname : 2 ≤ byteLen name := le_byteLen_of_oneOf h (by decide)
    have hlevel := headingLevel_le h
    have hbytes : byteLen (List.replicate (headingLevel name) '#' ++ [' ']) = headingLevel name + 1 := by
      rw [byteLen_append, byteLen_ascii, List.length_replicate]
      · rfl
      · intro c hc
        rw [List.eq_of_mem_replicate hc]
        decide
    have hcount : (List.replicate (headingLevel name) '#' ++ [' ']).count '\n' = 0 := by
      rw [List.count_append, List.count_replicate]
      rfl
    refine ⟨?_, ?_⟩
    · rw [Arm.ownBytes, hbytes]
      omega
    · rw [Arm.ownEnds, hcount]
      omega
  -- `p`, `br`, `hr` and `blockquote`
  iterate 4 refine within_ite (fun _ => hconst (by decide) (by decide)) ?_
  refine within_ite (fun h => ?_) ?_
  · have hname : 3 ≤ byteLen name := le_byteLen_of_oneOf h (by decide)
    exact ⟨show 10 ≤ _ by omega, show 4 ≤ _ by omega⟩
  -- `code` and the lists
  iterate 4 refine within_ite (fun _ => hconst (by decide) (by decide)) ?_
  have hmiddle : byteLen ("](" : Text) = 2 := rfl
  have hclose : byteLen (")" : Text) = 1 := rfl
  refine within_ite (fun _ => ?_) ?_
  · -- a link, with its target
    have hhref := byteLen_attr_le attrs "href"
    have hhrefEnds := hends "href"
    have hopen : byteLen ("[" : Text) = 1 := rfl
    refine ⟨?_, ?_⟩
    · rw [Arm.ownBytes, byteLen_append, byteLen_append, hopen, hmiddle, hclose]
      omega
    · rw [Arm.ownEnds, List.count_append, List.count_append]
      show 0 + (0 + _ + 0) ≤ _
      omega
  refine within_ite (fun _ => ?_) ?_
  · -- an image, with its text and source
    have hkeys : ("alt" : Text) ≠ "src" := by decide
    have himg := byteLen_attr_add_le hkeys attrs
    have haltEnds := hends "alt"
    have hsrcEnds := hends "src"
    have hopen : byteLen ("![" : Text) = 2 := rfl
    refine ⟨?_, ?_⟩
    · rw [Arm.ownBytes, byteLen_append, byteLen_append, byteLen_append, byteLen_append, hopen, hmiddle, hclose]
      omega
    · rw [Arm.ownEnds, List.count_append, List.count_append, List.count_append, List.count_append]
      show 0 + _ + 0 + _ + 0 ≤ _
      omega
  -- markers of inline elements, and the elements that are skipped
  iterate 8 refine within_ite (fun _ => hconst (by decide) (by decide)) ?_
  refine within_ite (fun h => ?_) ?_
  · have hname : 6 ≤ byteLen name := le_byteLen_of_oneOf h (by decide)
    have hsrc := byteLen_attr_le attrs "src"
    have hsrcEnds := hends "src"
    have hopen : byteLen ("[iframe: " : Text) = 9 := rfl
    have hshut : byteLen ("]" : Text) = 1 := rfl
    split
    · exact hconst (by decide) (by decide)
    · refine ⟨?_, ?_⟩
      · rw [Arm.ownBytes, byteLen_append, byteLen_append, hopen, hshut]
        omega
      · rw [Arm.ownEnds, List.count_append, List.count_append]
        show 0 + _ + 0 ≤ _
        omega
  -- cells, rows and tables
  iterate 3 refine within_ite (fun _ => hconst (by decide) (by decide)) ?_
  exact hconst (by decide) (by decide)

/-! ## The walk -/

section Walk

variable {act act' : Md → Except Panic Md} {d b b' n n' : Nat}

/-- At a list depth an action appends a text of at most so many bytes and so many ends of lines. -/
def Grows (act : Md → Except Panic Md) (d bytes ends : Nat) : Prop :=
  ∀ st st', st.listDepth = d → act st = .ok st' → ∃ t, st' = st.push t ∧ byteLen t ≤ bytes ∧ t.count '\n' ≤ ends

namespace Grows

theorem mono (h : Grows act d b n) (hb : b ≤ b') (hn : n ≤ n') : Grows act d b' n' := by
  intro st st' hd hrun
  obtain ⟨t, ht, hbytes, hends⟩ := h st st' hd hrun
  exact ⟨t, ht, Nat.le_trans hbytes hb, Nat.le_trans hends hn⟩

theorem nothing : Grows pure d 0 0 := by
  intro st st' _ hrun
  obtain rfl := Except.ok.inj hrun
  exact ⟨[], (push_nil st).symm, Nat.le_refl _, Nat.le_refl _⟩

theorem write (f : Nat → Text) : Grows (fun st => pure (st.push (f st.listDepth))) d (byteLen (f d)) ((f d).count '\n') := by
  intro st st' hd hrun
  obtain rfl := Except.ok.inj hrun
  exact ⟨f d, by rw [hd], Nat.le_refl _, Nat.le_refl _⟩

theorem push (t : Text) : Grows (fun st => pure (st.push t)) d (byteLen t) (t.count '\n') := write fun _ => t

theorem bind (h : Grows act d b n) (h' : Grows act' d b' n') : Grows (fun st => act st >>= act') d (b + b') (n + n') := by
  intro st st' hd hrun
  obtain ⟨st₁, hact, hact'⟩ := Except.exists_of_bind_ok hrun
  obtain ⟨s, rfl, hs, hsEnds⟩ := h st st₁ hd hact
  obtain ⟨t, rfl, ht, htEnds⟩ := h' (st.push s) st' hd hact'
  refine ⟨s ++ t, push_push st s t, ?_, ?_⟩
  · rw [byteLen_append]
    exact Nat.add_le_add hs ht
  · rw [List.count_append]
    exact Nat.add_le_add hsEnds htEnds

theorem closeLine : Grows (fun st => pure st.closeLine) d 1 1 := by
  intro st st' _ hrun
  obtain rfl := Except.ok.inj hrun
  unfold Md.closeLine
  split
  · exact ⟨[], (push_nil st).symm, Nat.zero_le _, Nat.zero_le _⟩
  · exact ⟨"\n", rfl, Nat.le_refl _, Nat.le_refl _⟩

theorem newline : Grows (fun st => pure (st.push "\n")) d 1 1 := push "\n"

/-- An end of a line and an empty line. -/
theorem endBlock : Grows (fun st => pure (st.closeLine.push "\n")) d 2 2 := closeLine.bind newline

/-- The indentation and the marker of an item. -/
theorem marker : Grows (fun st => pure (st.push (indent st.listDepth ++ "- "))) d (2 * d + 2) 0 := by
  have hdash : byteLen ("- " : Text) = 2 := rfl
  apply (write fun d => indent d ++ "- ").mono
  · rw [byteLen_append, byteLen_indent, hdash]
    omega
  · rw [List.count_append, count_indent]
    exact Nat.le_refl 0

/-- The indentation and the number of an item, of at most `w`. -/
theorem number {idx w : Nat} (h : idx ≤ w) :
    Grows (fun st => pure (st.push (indent st.listDepth ++ (decimal idx ++ ". ")))) d (2 * d + (decimal w).length + 2) 0 := by
  have hdigits := byteLen_decimal_le h
  have hdot : byteLen (". " : Text) = 2 := rfl
  apply (write fun d => indent d ++ (decimal idx ++ ". ")).mono
  · rw [byteLen_append, byteLen_append, byteLen_indent, hdot]
    omega
  · rw [List.count_append, List.count_append, count_indent, count_decimal]
    exact Nat.le_refl 0

/-- The fences of a preformatted block, around all its text. -/
theorem pre (cs : List Node) :
    Grows (fun st => pure (((st.push "```\n").push (textContents cs)).closeLine.push "```\n\n")) d (10 + markupAll cs)
      (4 + markupAll cs) := by
  have htexts := byteLen_textContents_le cs fun c _ => byteLen_textContent_le c
  have hends := count_le_byteLen '\n' (textContents cs)
  apply ((push "```\n").bind ((push (textContents cs)).bind (closeLine.bind (push "```\n\n")))).mono
  · show 4 + (byteLen (textContents cs) + (1 + 5)) ≤ _
    omega
  · show 1 + ((textContents cs).count '\n' + (1 + 2)) ≤ _
    omega

/-- The marks of a code span, around the texts in it. -/
theorem code (cs : List Node) :
    Grows (fun st => pure (st.push ("`" ++ childTexts trim cs ++ "`"))) d (2 + markupAll cs) (markupAll cs) := by
  have htexts := byteLen_childTexts_le byteLen_trim_le cs
  have hends := count_le_byteLen '\n' (childTexts trim cs)
  apply (push ("`" ++ childTexts trim cs ++ "`")).mono
  · rw [byteLen_append, byteLen_append]
    show 1 + _ + 1 ≤ _
    omega
  · rw [List.count_append, List.count_append]
    show 0 + _ + 0 ≤ _
    omega

theorem text (t : Text) : Grows (fun st => do let s ← reference t; pure (pushText st s)) d (byteLen t) (byteLen t) := by
  intro st st' _ hrun
  have hpush : st' = st.push (shown t) := by
    rw [← pushText_shown]
    exact (Except.ok.inj hrun).symm
  exact ⟨shown t, hpush, byteLen_shown_le t, Nat.le_trans (count_le_byteLen _ _) (byteLen_shown_le t)⟩

/-- A list. -/
theorem nested {after : Md → Md} (h : Grows act (d + 1) b n) (hafter : Grows (fun st => pure (after st)) d b' n') :
    Grows (fun st => do let st ← act st.enter; let st ← st.leave; pure (after st)) d (b + b') (n + n') := by
  intro st st' hd hrun
  obtain ⟨st₁, hact, hrest⟩ := Except.exists_of_bind_ok hrun
  obtain ⟨s, rfl, hs, hsEnds⟩ := h st.enter st₁ (congrArg (· + 1) hd) hact
  rw [leave_enter] at hrest
  obtain ⟨t, rfl, ht, htEnds⟩ := hafter (st.push s) st' hd hrest
  refine ⟨s ++ t, push_push st s t, ?_, ?_⟩
  · rw [byteLen_append]
    exact Nat.add_le_add hs ht
  · rw [List.count_append]
    exact Nat.add_le_add hsEnds htEnds

/-- A quotation puts a mark before each line. -/
theorem quoted (h : Grows act d b n) :
    Grows (fun st => do
      let inner ← act { st with md := [] }
      pure { inner with md := st.md ++ (quoteLines inner.md ++ "\n") }) d (b + 2 * n + 4) (n + 2) := by
  intro st st' hd hrun
  obtain ⟨inner, hact, hpure⟩ := Except.exists_of_bind_ok hrun
  obtain rfl := Except.ok.inj hpure
  obtain ⟨t, rfl, ht, htEnds⟩ := h { st with md := [] } inner hd hact
  obtain ⟨hbytes, hends⟩ := quoteLines_grows t
  have hlast : byteLen ("\n" : Text) = 1 := rfl
  have hlastEnds : ("\n" : Text).count '\n' = 1 := rfl
  refine ⟨quoteLines t ++ "\n", rfl, ?_, ?_⟩
  · rw [byteLen_append, hlast]
    omega
  · rw [List.count_append, hlastEnds]
    omega

end Grows

/-- Limits for the walk of some nodes at a list depth: elements of a numbered list, the list depth, and quotations around. -/
structure Fits (cs : List Node) (w e d q : Nat) : Prop where
  wide : widestAll isNumbered cs ≤ w
  deep : d + nestingAll isList cs ≤ e
  quoted : nestingAll isQuotation cs ≤ q

namespace Fits

variable {cs : List Node} {name : Text} {attrs : List (Text × Text)} {w e q : Nat}

theorem of_mem {c : Node} (h : Fits cs w e d q) (hc : c ∈ cs) : Fits [c] w e d q where
  wide := Nat.max_le.mpr ⟨Nat.le_trans (widest_le hc) h.wide, Nat.zero_le _⟩
  deep := by
    have hle := nesting_le (p := isList) hc
    have hone : nestingAll isList [c] = nesting isList c := Nat.max_zero _
    have hdeep := h.deep
    omega
  quoted := Nat.max_le.mpr ⟨Nat.le_trans (nesting_le hc) h.quoted, Nat.zero_le _⟩

theorem children {n : Node} (h : Fits [n] w e d q) : Fits n.children w e d q where
  wide := Nat.le_trans (widestAll_children_le n) (Nat.max_le.mp h.wide).1
  deep := by
    have hle := nestingAll_children_le (p := isList) n
    have hone : nestingAll isList [n] = nesting isList n := Nat.max_zero _
    have hdeep := h.deep
    omega
  quoted := Nat.le_trans (nestingAll_children_le n) (Nat.max_le.mp h.quoted).1

/-- In a list the list depth is one more. -/
theorem list (h : Fits [.elem name attrs cs] w e d q) (hlist : isList name = true) : Fits cs w e (d + 1) q where
  wide := h.children.wide
  deep := by
    have hnesting : nestingAll isList [.elem name attrs cs] = nestingAll isList cs + 1 := by
      rw [nestingAll, nesting, if_pos hlist]
      exact Nat.max_zero _
    have hdeep := h.deep
    omega
  quoted := h.children.quoted

theorem numbered (h : Fits [.elem name attrs cs] w e d q) (hnumbered : isNumbered name = true) : Dom.elementCount cs ≤ w := by
  have hwidest := (Nat.max_le.mp h.wide).1
  rw [widest, if_pos hnumbered] at hwidest
  exact (Nat.max_le.mp hwidest).2

/-- In a quotation there is one fewer to come. -/
theorem quotation (h : Fits [.elem name attrs cs] w e d q) (hquote : isQuotation name = true) :
    ∃ q', q = q' + 1 ∧ Fits cs w e d q' := by
  have hnesting := (Nat.max_le.mp h.quoted).1
  rw [nesting, if_pos hquote] at hnesting
  exact ⟨q - 1, by omega, h.children.wide, h.children.deep, by omega⟩

end Fits

/-- What a page may cost for each byte of it: a constant, the digits of a number, an indentation, and a mark for each quotation. -/
def rate (w e q : Nat) : Nat := 3 + (decimal w).length + 2 * e + 2 * q

/-- The bytes of some nodes, each at the rate of what the nodes have: the longest numbered list, lists and quotations inside one another. -/
def markdownBound (cs : List Node) : Nat :=
  markupAll cs * rate (widestAll isNumbered cs) (nestingAll isList cs) (nestingAll isQuotation cs)

/-- The tag pays for what its arm writes besides the children. -/
theorem Grows.paid {arm : Arm} {tag below r : Nat} (harm : arm.Within tag) (hr : 3 ≤ r) (h : Grows act d b n)
    (hb : b ≤ arm.ownBytes + below * r) (hn : n ≤ arm.ownEnds + below) : Grows act d ((tag + below) * r) (tag + below) := by
  obtain ⟨hbytes, hends⟩ := harm
  have htag : 3 * tag ≤ tag * r := by
    rw [Nat.mul_comm]
    exact Nat.mul_le_mul_left tag hr
  apply h.mono
  · rw [Nat.add_mul]
    omega
  · omega

theorem grows_elements {cs : List Node} {r : Nat} (h : ∀ c ∈ cs, Grows (walkElement reference c) d (markup c * r) (markup c)) :
    Grows (walkElements reference cs) d (markupAll cs * r) (markupAll cs) := by
  induction cs with
  | nil => exact Grows.nothing.mono (Nat.zero_le _) (Nat.zero_le _)
  | cons c cs ih =>
      have hc := h c List.mem_cons_self
      have hcs := ih fun c hc => h c (List.mem_cons_of_mem _ hc)
      rw [markupAll, Nat.add_mul]
      exact hc.bind hcs

theorem grows_children {cs : List Node} {r : Nat} (hr : 1 ≤ r)
    (h : ∀ c ∈ cs, Grows (walkElement reference c) d (markup c * r) (markup c)) :
    Grows (walkChildren reference cs) d (markupAll cs * r) (markupAll cs) := by
  induction cs with
  | nil => exact Grows.nothing.mono (Nat.zero_le _) (Nat.zero_le _)
  | cons c cs ih =>
      have hc := h c List.mem_cons_self
      have hcs := ih fun c hc => h c (List.mem_cons_of_mem _ hc)
      rw [markupAll, Nat.add_mul]
      cases c with
      | text t =>
          have hrun : walkChildren reference (.text t :: cs) = fun st =>
              (do let s ← reference t; pure (pushText st s)) >>= walkChildren reference cs := by
            funext st
            rw [walkChildren, bind_assoc]
            rfl
          have htext : byteLen t ≤ byteLen t * r := Nat.le_mul_of_pos_right _ hr
          rw [hrun]
          exact ((Grows.text t).mono htext (Nat.le_refl _)).bind hcs
      | elem name attrs gs => exact hc.bind hcs
      | other gs => exact hcs.mono (Nat.le_add_left _ _) (Nat.le_add_left _ _)

theorem two_le_tagMarkup (name : Text) (attrs : List (Text × Text)) : 2 ≤ tagMarkup name attrs :=
  Nat.le_trans (Nat.le_add_left 2 _) (Nat.le_add_right _ _)

/-- Each item of an `ol` has an indentation and a number. -/
theorem grows_items {cs : List Node} {w r : Nat} (hr : 3 + (decimal w).length + 2 * d ≤ r)
    (h : ∀ c ∈ cs, Grows (walkChildren reference c.children) d (markupAll c.children * r) (markupAll c.children)) {idx : Nat}
    (hidx : idx + Dom.elementCount cs ≤ w + 1) : Grows (walkItems reference cs idx) d (markupAll cs * r) (markupAll cs) := by
  induction cs generalizing idx with
  | nil => exact Grows.nothing.mono (Nat.zero_le _) (Nat.zero_le _)
  | cons c cs ih =>
      have hc := h c List.mem_cons_self
      have hcs {idx : Nat} (hidx : idx + Dom.elementCount cs ≤ w + 1) :=
        ih (fun c hc => h c (List.mem_cons_of_mem _ hc)) hidx
      cases c with
      | text t => exact (hcs hidx).mono (Nat.mul_le_mul_right r (Nat.le_add_left _ _)) (Nat.le_add_left _ _)
      | other gs => exact (hcs hidx).mono (Nat.mul_le_mul_right r (Nat.le_add_left _ _)) (Nat.le_add_left _ _)
      | elem name attrs gs =>
          rw [Dom.elementCount] at hidx
          have hnumber : Grows _ d (2 * d + (decimal w).length + 2) 0 := Grows.number (show idx ≤ w by omega)
          have hrest : idx + 1 + Dom.elementCount cs ≤ w + 1 := by omega
          have htag := two_le_tagMarkup name attrs
          have hpay : r ≤ tagMarkup name attrs * r := Nat.le_mul_of_pos_left r (by omega)
          refine (hnumber.bind (hc.bind (Grows.newline.bind (hcs hrest)))).mono ?_ ?_
          · rw [markupAll, markup, Nat.add_mul, Nat.add_mul, Node.children_elem]
            omega
          · rw [markupAll, markup, Node.children_elem]
            omega

/-- **The walk of a page costs its rate for each byte**, at a node and in its children. -/
theorem grows_walk (n : Node) {w e q : Nat} (hfits : Fits [n] w e d q) :
    Grows (walkElement reference n) d (markup n * rate w e q) (markup n) ∧
      Grows (walkChildren reference n.children) d (markupAll n.children * rate w e q) (markupAll n.children) := by
  -- the children are in the statement because an `ol` item is entered without a `walkElement`
  induction n using Node.induct generalizing d q with
  | step n ih =>
      have hrate {q : Nat} : 3 ≤ rate w e q := by
        unfold rate
        omega
      have helement {d q : Nat} (h : Fits n.children w e d q) (c : Node) (hc : c ∈ n.children) :=
        (ih c hc (h.of_mem hc)).1
      have hchildren {d q : Nat} (h : Fits n.children w e d q) :=
        grows_children (Nat.le_trans (by decide) hrate) (helement h)
      refine ⟨?_, hchildren hfits.children⟩
      cases n with
      | text t => exact Grows.nothing.mono (Nat.zero_le _) (Nat.zero_le _)
      | other cs => exact Grows.nothing.mono (Nat.zero_le _) (Nat.zero_le _)
      | elem name attrs cs =>
          have hwithin := within_armOf name attrs
          have hbelow := hchildren hfits.children
          rw [Node.children_elem] at hbelow
          have hrun : walkElement reference (.elem name attrs cs) = fun st => walkElement reference (.elem name attrs cs) st := rfl
          have hpos : 0 < rate w e q := Nat.lt_of_lt_of_le (by decide) hrate
          have hrated : markupAll cs ≤ markupAll cs * rate w e q := Nat.le_mul_of_pos_right _ hpos
          rw [hrun, markup]
          simp only [walkElement]
          cases harm : armOf name attrs with
          | block lead =>
              rw [harm] at hwithin
              have hblock := (Grows.push lead).bind (hbelow.bind (Grows.endBlock))
              exact hblock.paid hwithin hrate (by rw [Arm.ownBytes]; omega) (by rw [Arm.ownEnds]; omega)
          | inline before after =>
              rw [harm] at hwithin
              have hinline := (Grows.push before).bind (hbelow.bind (Grows.push after))
              exact hinline.paid hwithin hrate (by rw [Arm.ownBytes]; omega) (by rw [Arm.ownEnds]; omega)
          | leaf text =>
              rw [harm] at hwithin
              exact (Grows.push text).paid hwithin hrate (Nat.le_add_right _ _) (Nat.le_add_right _ _)
          | blockquote =>
              rw [harm] at hwithin
              obtain ⟨q', rfl, hfits'⟩ := hfits.quotation (armOf_eq_blockquote harm)
              have hinner := hchildren hfits'
              rw [Node.children_elem] at hinner
              -- the marks of the lines are what one more quotation is worth
              have hmarks : markupAll cs * rate w e (q' + 1) = markupAll cs * rate w e q' + 2 * markupAll cs := by
                have hmore : rate w e (q' + 1) = rate w e q' + 2 := rfl
                rw [hmore, Nat.mul_add, Nat.mul_comm _ 2]
              exact hinner.quoted.paid hwithin hrate (by rw [Arm.ownBytes]; omega) (by rw [Arm.ownEnds]; omega)
          | pre =>
              rw [harm] at hwithin
              exact (Grows.pre cs).paid hwithin hrate (Nat.add_le_add_left hrated _) (Nat.le_refl _)
          | code =>
              rw [harm] at hwithin
              exact (Grows.code cs).paid hwithin hrate (Nat.add_le_add_left hrated _) (Nat.le_of_eq (Nat.zero_add _).symm)
          | ul =>
              rw [harm] at hwithin
              have hitems := grows_elements (helement (hfits.list (isList_of_ul harm)))
              rw [Node.children_elem] at hitems
              have hlist := hitems.nested (Grows.endBlock)
              exact hlist.paid hwithin hrate (by rw [Arm.ownBytes]; omega) (by rw [Arm.ownEnds]; omega)
          | ol =>
              rw [harm] at hwithin
              obtain ⟨hisList, hnumbered⟩ := isList_of_ol harm
              have hfits' := hfits.list hisList
              have hdeep : 3 + (decimal w).length + 2 * (d + 1) ≤ rate w e q := by
                have hd := hfits'.deep
                unfold rate
                omega
              have hcount : 1 + Dom.elementCount cs ≤ w + 1 := by
                have hwide := hfits.numbered hnumbered
                omega
              have hitems : Grows (walkItems reference cs 1) (d + 1) (markupAll cs * rate w e q) (markupAll cs) :=
                grows_items hdeep (fun c hc => (ih c hc (hfits'.of_mem hc)).2) hcount
              have hlist := hitems.nested Grows.newline
              exact hlist.paid hwithin hrate (by rw [Arm.ownBytes]; omega) (by rw [Arm.ownEnds]; omega)
          | li =>
              have hdeep : 3 + 2 * d ≤ rate w e q := by
                have hd := hfits.deep
                unfold rate
                omega
              have htag := two_le_tagMarkup name attrs
              have hpay : rate w e q ≤ tagMarkup name attrs * rate w e q := Nat.le_mul_of_pos_left _ (by omega)
              refine (Grows.marker.bind (hbelow.bind Grows.newline)).mono ?_ ?_
              · rw [Nat.add_mul]
                omega
              · omega

end Walk

/-! ## Whole pages -/

/-- The markdown of some nodes, by the reference definition of the collapser. -/
theorem byteLen_markdown_le {cs : List Node} {md : Text} (h : domToMarkdownDoc reference cs = .ok md) :
    byteLen md ≤ markdownBound cs := by
  obtain ⟨st, hwalk, hclean⟩ := Except.exists_of_bind_ok h
  have hmd : md = trim (squeeze 0 st.md) := (Except.ok.inj ((cleanupMd_eq st.md).symm.trans hclean)).symm
  have hfits : Fits cs (widestAll isNumbered cs) (nestingAll isList cs) 0 (nestingAll isQuotation cs) :=
    ⟨Nat.le_refl _, Nat.le_of_eq (Nat.zero_add _), Nat.le_refl _⟩
  obtain ⟨t, rfl, ht, -⟩ := grows_elements (fun c hc => (grows_walk c (hfits.of_mem hc)).1) _ st rfl hwalk
  have hclean : byteLen md ≤ byteLen (Md.push ⟨[], 0⟩ t).md := by
    rw [hmd]
    exact Nat.le_trans (byteLen_trim_le _) (byteLen_squeeze_le 0 _)
  exact Nat.le_trans hclean ht

/-- The texts that are reached, with a space before each of them. -/
theorem byteLen_pushTexts_le (out : Text) (ts : List Text) : byteLen (pushTexts out ts) ≤ byteLen out + 2 * byteLen ts.flatten := by
  induction ts generalizing out with
  | nil => exact Nat.le_refl _
  | cons t ts ih =>
      have hrun : byteLen (run t) ≤ byteLen t := Nat.le_trans (byteLen_referenceCollapse_le _) (byteLen_trim_le t)
      have hpush : byteLen (pushRun out (run t)) ≤ byteLen out + 2 * byteLen t := by
        have hspace : byteLen (" " : Text) = 1 := rfl
        unfold pushRun
        split
        · exact Nat.le_add_right _ _
        · rename_i hne
          have hpos := length_le_byteLen (run t)
          have hlen : 0 < (run t).length := List.length_pos_iff.mpr fun hnil => hne (by rw [hnil]; rfl)
          split
          · rw [byteLen_append]
            omega
          · rw [byteLen_append, byteLen_append, hspace]
            omega
      have hrest := ih (pushRun out (run t))
      show byteLen (pushTexts (pushRun out (run t)) ts) ≤ _
      rw [List.flatten_cons, byteLen_append]
      omega

theorem byteLen_text_le {cs : List Node} {text : Text} (h : htmlToText reference cs = .ok text) : byteLen text ≤ 2 * markupAll cs := by
  have hwalked := htmlToText_of_walk (textWalkRoot_eq cs)
  obtain rfl := Except.ok.inj (h.symm.trans hwalked)
  have htrim : byteLen (trimStart (trimEnd (pushTexts [] (shownTexts cs)))) ≤ byteLen (pushTexts [] (shownTexts cs)) :=
    byteLen_le_of_sublist ((List.dropWhile_sublist _).trans (List.rdropWhile_prefix _ _).sublist)
  have hpushed := byteLen_pushTexts_le [] (shownTexts cs)
  have hshown : byteLen (shownTexts cs).flatten ≤ markupAll cs := by
    have hsub : (shownTexts cs).Sublist (Dom.textsAll cs) := by
      rw [← map_snd_placedAll cs []]
      exact List.filter_sublist.map _
    have hall : byteLen (Dom.textsAll cs).flatten ≤ markupAll cs := by
      rw [flatten_textsAll]
      exact byteLen_textContents_le cs fun c _ => byteLen_textContent_le c
    exact Nat.le_trans (byteLen_le_of_sublist hsub.flatten) hall
  rw [byteLen_nil] at hpushed
  omega

/-- A conversion that does not panic is what it is by the reference. -/
theorem Converts.plain_of_ok {target : Target} {ts : List Text} {run plain : Except Panic Text} {text : Text}
    (h : Converts target ts run plain) (hrun : run = .ok text) : plain = .ok text := by
  by_cases htrips : ∃ t ∈ ts, target.Trips t
  · rw [h.panics htrips] at hrun
    cases hrun
  · rw [← h.agrees fun t ht hbad => htrips ⟨t, ht, hbad⟩]
    exact hrun

/-! ### Lists inside one another -/

/-- So many lists, each in the only item of the one around it. -/
def nestedLists : Nat → List Node
  | 0 => []
  | n + 1 => [.elem "ul" [] [.elem "li" [] (.text "x" :: nestedLists n)]]

/-- Their items, all on one line. -/
def itemLine : Nat → Nat → Text
  | 0, _ => []
  | n + 1, d => indent (d + 1) ++ "- x" ++ itemLine n (d + 1)

theorem byteLen_itemLine (n d : Nat) : byteLen (itemLine n d) = n * n + 2 * n + 2 * n * d := by
  induction n generalizing d with
  | zero => simp [itemLine]
  | succ n ih =>
      have hitem : byteLen ("- x" : Text) = 3 := rfl
      rw [itemLine, byteLen_append, byteLen_append, byteLen_indent, hitem, ih, Nat.add_sub_cancel]
      ring

theorem markupAll_nestedLists (n : Nat) : markupAll (nestedLists n) = 9 * n := by
  induction n with
  | zero => rfl
  | succ n ih =>
      show 4 + (4 + (1 + markupAll (nestedLists n)) + 0) + 0 = _
      rw [ih]
      omega

section Nested

variable {collapse : Text → Except Panic Text} {n : Nat}

/-- An item: its marker, its text, and the lists in it. -/
theorem walk_nestedItem (hcollapse : collapse "x" = .ok "x".toList) {below : Text} (st : Md)
    (h : ∀ st' : Md, st'.listDepth = st.listDepth → walkChildren collapse (nestedLists n) st' = .ok (st'.push below)) :
    walkElement collapse (.elem "li" [] (.text "x" :: nestedLists n)) st =
      .ok (st.push (indent st.listDepth ++ "- x" ++ below ++ "\n")) := by
  have harm : armOf "li" [] = .li := rfl
  have hmarker : ("- x" : Text) = "- " ++ "x" := rfl
  rw [walkElement, harm]
  show (walkChildren collapse (.text "x" :: nestedLists n) (st.push (indent st.listDepth ++ "- ")) >>= fun st =>
    pure (st.push "\n")) = _
  rw [walkChildren, hcollapse]
  show (walkChildren collapse (nestedLists n) ((st.push (indent st.listDepth ++ "- ")).push "x") >>= fun st =>
    pure (st.push "\n")) = _
  rw [h ((st.push (indent st.listDepth ++ "- ")).push "x") rfl]
  show Except.ok ((((st.push _).push "x").push below).push "\n") = _
  rw [push_push, push_push, push_push, hmarker]
  simp only [List.append_assoc]

/-- The walk writes the line, and two ends of lines for each list after it. -/
theorem walk_nestedLists (hcollapse : collapse "x" = .ok "x".toList) (n : Nat) (st : Md) :
    walkChildren collapse (nestedLists n) st = .ok (st.push (itemLine n st.listDepth ++ List.replicate (2 * n) '\n')) := by
  induction n generalizing st with
  | zero =>
      rw [nestedLists, walkChildren]
      exact congrArg Except.ok (push_nil st).symm
  | succ n ih =>
      have harm : armOf "ul" [] = .ul := rfl
      have hbelow (st' : Md) (hd : st'.listDepth = st.enter.listDepth) : walkChildren collapse (nestedLists n) st' =
          .ok (st'.push (itemLine n (st.listDepth + 1) ++ List.replicate (2 * n) '\n')) := by
        rw [ih, hd]
        rfl
      have hitem := walk_nestedItem hcollapse st.enter hbelow
      have hline : indent (st.listDepth + 1) ++ "- x" ++ (itemLine n (st.listDepth + 1) ++ List.replicate (2 * n) '\n') ++ "\n" =
          itemLine (n + 1) st.listDepth ++ List.replicate (2 * n + 1) '\n' := by
        rw [itemLine, List.replicate_succ']
        simp only [List.append_assoc]
        rfl
      -- the item has ended its line
      have hlast (t : Text) : (st.push (t ++ List.replicate (2 * n + 1) '\n')).closeLine =
          st.push (t ++ List.replicate (2 * n + 1) '\n') := by
        rw [Md.closeLine, if_pos]
        show (st.md ++ (t ++ List.replicate (2 * n + 1) '\n')).getLast? = some '\n'
        rw [List.replicate_succ', ← List.append_assoc, ← List.append_assoc]
        exact List.getLast?_concat
      have helements : walkElements collapse [.elem "li" [] (.text "x" :: nestedLists n)] st.enter =
          .ok (st.enter.push (itemLine (n + 1) st.listDepth ++ List.replicate (2 * n + 1) '\n')) := by
        rw [walkElements, hitem]
        show Except.ok (st.enter.push (indent (st.listDepth + 1) ++ _ ++ _ ++ _)) = _
        rw [hline]
      rw [nestedLists, walkChildren, walkElement, harm]
      show ((walkElements collapse [.elem "li" [] (.text "x" :: nestedLists n)] st.enter >>= fun st => st.leave >>= fun st =>
        pure (st.closeLine.push "\n")) >>= walkChildren collapse []) = _
      rw [helements]
      show (((st.enter.push _).leave >>= fun st => pure (st.closeLine.push "\n")) >>= walkChildren collapse []) = _
      rw [leave_enter]
      show Except.ok ((st.push _).closeLine.push "\n") = _
      rw [hlast, push_push, List.append_assoc]
      show Except.ok (st.push (_ ++ (List.replicate (2 * n + 1) '\n' ++ ['\n']))) = _
      rw [← List.replicate_succ']
      rfl

/-- The clean-up takes ends of lines from the end. -/
theorem squeeze_append_replicate {a : Text} (ha : '\n' ∉ a) (k : Nat) : trim (squeeze 0 (a ++ List.replicate k '\n')) = trim a := by
  have hsqueeze : squeeze 0 (a ++ List.replicate k '\n') = a ++ squeeze 0 (List.replicate k '\n') := by
    induction a with
    | nil => rfl
    | cons c a ih =>
        obtain ⟨hc, hrest⟩ := not_or.mp fun h => ha (List.mem_cons.mpr h)
        rw [List.cons_append, squeeze, if_neg (Ne.symm hc), ih hrest]
        rfl
  have hblank : trim (squeeze 0 (List.replicate k '\n')) = [] := by
    apply trim_eq_nil_iff.mpr
    intro c hc
    rw [squeeze_eq_keepRuns] at hc
    rw [List.eq_of_mem_replicate ((Runs.keepRuns_sublist _).mem hc)]
    decide
  rw [hsqueeze, trim_append_of_blank_right hblank]

theorem not_mem_itemLine (n d : Nat) : '\n' ∉ itemLine n d := by
  induction n generalizing d with
  | zero => exact List.not_mem_nil
  | succ n ih =>
      have hindent : '\n' ∉ indent (d + 1) := fun h => absurd (List.eq_of_mem_replicate h) (by decide)
      rw [itemLine, List.mem_append, List.mem_append, not_or, not_or]
      exact ⟨⟨hindent, by decide⟩, ih (d + 1)⟩

theorem getLast?_itemLine (n d : Nat) : (itemLine (n + 1) d).getLast? = some 'x' := by
  induction n generalizing d with
  | zero =>
      rw [itemLine, itemLine, List.append_nil, List.getLast?_append]
      rfl
  | succ n ih =>
      rw [itemLine, List.getLast?_append, ih]
      rfl

theorem trim_itemLine (n : Nat) : trim (itemLine n 0) = itemLine n 0 := by
  cases n with
  | zero => rfl
  | succ n =>
      apply trim_eq_self
      · intro c hc
        obtain rfl : '-' = c := Option.some.inj hc
        decide
      · intro c hc
        rw [getLast?_itemLine] at hc
        obtain rfl : 'x' = c := Option.some.inj hc
        decide

/-- **Lists inside one another** are as long as the square of their number, and the page is not. -/
theorem markdown_nestedLists (hcollapse : collapse "x" = .ok "x".toList) (n : Nat) :
    domToMarkdownDoc collapse (nestedLists n) = .ok (itemLine n 0) := by
  have hwalk : walkElements collapse (nestedLists n) { md := [], listDepth := 0 } =
      .ok ⟨itemLine n 0 ++ List.replicate (2 * n) '\n', 0⟩ := by
    have hchildren := walk_nestedLists hcollapse n { md := [], listDepth := 0 }
    cases n with
    | zero => rfl
    | succ n => exact hchildren
  rw [domToMarkdownDoc_of_walk hwalk, squeeze_append_replicate (not_mem_itemLine n 0), trim_itemLine]

end Nested

/-- No collapser trips over it. -/
theorem collapse_item (target : Target) : target.collapse "x" = .ok "x".toList := by
  cases target with
  | x86_64 profile => cases profile <;> rfl
  | aarch64 => rfl
  | other => rfl

/-- **How much longer a page can get.** On every target, the markdown of a page, or of its main content, has at most so many bytes for
    each byte of the tags and texts as the rate of the page: three, the digits of its longest numbered list, and two for each list and
    each quotation inside one another; the plain text has at most twice the bytes. No rate does for all pages: with `n` lists inside one
    another the page has `9 * n` bytes, and its markdown more than `n * n`. -/
theorem conversions_bounded (target : Target) :
    (∀ (doc : Html) (md : Text), domToMarkdownDoc target.collapse doc.root = .ok md → byteLen md ≤ markdownBound doc.root) ∧
    (∀ (doc : Html) (md : Text), mainToMarkdownDoc target.collapse doc = .ok md → byteLen md ≤ markdownBound doc.mainNodes) ∧
    (∀ (doc : Html) (text : Text), htmlToText target.collapse doc.root = .ok text → byteLen text ≤ 2 * markupAll doc.root) ∧
    ∀ n, markupAll (nestedLists n) = 9 * n ∧
      ∃ md, domToMarkdownDoc target.collapse (nestedLists n) = .ok md ∧ byteLen md = n * n + 2 * n := by
  refine ⟨?_, ?_, ?_, ?_⟩
  · intro doc md h
    exact byteLen_markdown_le ((converts_markdown target doc.root).plain_of_ok h)
  · intro doc md h
    rw [mainToMarkdownDoc_eq] at h
    exact byteLen_markdown_le ((converts_markdown target doc.mainNodes).plain_of_ok h)
  · intro doc text h
    exact byteLen_text_le ((converts_text target doc.root).plain_of_ok h)
  · intro n
    refine ⟨markupAll_nestedLists n, itemLine n 0, markdown_nestedLists (collapse_item target) n, ?_⟩
    rw [byteLen_itemLine, Nat.mul_zero, Nat.add_zero]

theorem conversions_bounded_quote : byteLen "# T\n\n> a b\n>".toList ≤ markdownBound quotedPage.root :=
  (conversions_bounded (.x86_64 .debug)).1 quotedPage "# T\n\n> a b\n>".toList (by decide)

end Scrape
end McpWebSearch
