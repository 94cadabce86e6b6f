import McpWebSearch.Lib.History
import McpWebSearch.Correctness.TreeOrder

/-!
# `Correctness.BlockMarkers` — block markers at the starts of lines

Headings, rules, block quotations and preformatted blocks are marked by how their line begins, but no arm of the walk
makes sure that it stands at the beginning of a line: each relies on what was written before. A block that is a child of
`ol` is rendered as a list item, one inside a preformatted block as its bare text, one inside `code` not at all.
`lineScanner` follows what is on the current line: nothing, list and quotation marks, or more. `block_markers_iff`: every
block begins where only such marks are before it on its line, exactly if the parts of the page are such that it does.
-/

namespace McpWebSearch
namespace Scrape

open Utf8 Dom Traced History Scanner

/-! ## Markers and lines -/

/-- What is written for a block before its content: the marker of a heading or a rule, a fence, the first mark of a
    quotation, the marker of the list item that a block right in `ol` is rendered as. -/
def Origin.opens : Origin → Bool
  | .marker | .fence _ | .quote true => true
  | .item it => it.block
  | .plain | .quote false | .text _ => false

/-- What may stand before a block on its line: indentations and markers of list items, marks of quotations. -/
def Origin.leads : Origin → Bool
  | .item _ | .quote _ => true
  | .plain | .marker | .fence _ | .text _ => false

/-- A character that a block begins with. No marker begins with white space. -/
def opensBlock (x : Char × Origin) : Bool := x.2.opens && !blank x

/-- Every block that is rendered with a marker begins where only marks of lists and quotations are before it on its line. One
    inside a preformatted block has no marker, but its text is copied (`TextLeads`); one inside `code`, `kbd` or a skipped
    element is not rendered. -/
def MarkersLead (out : Buffer) : Prop :=
  AtEach (fun before x => opensBlock x = true → ∀ y ∈ lastLine before, y.2.leads = true) out

/-- The character is of a text below an element. -/
def below (e : Option Path) : Origin → Bool
  | .text node => e.any fun e => decide (e <:+ node.node)
  | .plain | .marker | .fence _ | .quote _ | .item _ => false

/-- The texts below an element, which are its rendering inside a preformatted block, begin where only such marks are before
    them on their line. -/
def TextLeads (e : Option Path) (out : Buffer) : Prop :=
  AtEach (fun before x => below e x.2 = true → blank x = false →
    ∀ y ∈ lastLine before, y.2.leads = true ∨ below e y.2 = true) out

theorem textLeads_none (out : Buffer) : TextLeads none out := by
  rintro before ⟨c, o⟩ after - hbelow
  cases o <;> cases hbelow

/-- A preformatted block that is rendered has a block at a node inside. -/
def Embeds (doc : List Node) (p : Pre) (e : Path) : Prop :=
  ∃ blocks, .pre p blocks ∈ leavesAll (pageParts doc) ∧ e ∈ blocks

/-- The rendering of every block of a page begins where only marks of lists and quotations are before it on its line. -/
def BlocksLead (doc : List Node) (out : Buffer) : Prop :=
  MarkersLead out ∧ ∀ p e, Embeds doc p e → TextLeads (some e) out

/-! ## Blocks among the parts of a page -/

/-- The part is a block with a marker. A quotation has one if anything in it is written. -/
def Part.opens : Part → Bool
  | .start name _ => oneOf name headings
  | .void name _ => oneOf name ["hr"]
  | .pre _ _ => true
  | .quote body => body.any Part.writes
  | .item it => it.block
  | .text _ _ | .code _ _ | .stop _ _ | .itemEnd => false

def Part.isItem : Part → Bool
  | .item _ => true
  | .text _ _ | .code _ _ | .start _ _ | .stop _ _ | .itemEnd | .void _ _ | .pre _ _ | .quote _ => false

/-- What has been read of the current line. What comes before anything is seen is trimmed, at the top of the page only. -/
def currentLine (page : Bool) (ts : List Part) : List Part := onLine (if page then started ts else ts)

/-- Every block comes where nothing but the beginnings of list items is on the line. -/
def OnNewLines (page : Bool) (ts : List Part) : Prop :=
  AtEach (fun before x => x.opens = true → ∀ y ∈ currentLine page before, y.inks = true → y.isItem = true) ts

mutual

/-- The parts of each quotation, at any depth. -/
def Part.bodies : Part → List (List Part)
  | .quote body => body :: bodiesAll body
  | _ => []

def bodiesAll : List Part → List (List Part)
  | [] => []
  | x :: ts => x.bodies ++ bodiesAll ts

end

/-- The text of a preformatted block below an element in it. -/
def Pre.textBelow (p : Pre) (e : Path) : Text := (p.texts.filter fun t => decide (Under e t)).flatMap Prod.snd

/-- The text before that. -/
def Pre.textBefore (p : Pre) (e : Path) : Text := (p.texts.takeWhile fun t => !decide (Under e t)).flatMap Prod.snd

/-- The element begins a line of the text: it has nothing but white space, or it comes after the end of a line, or it ends
    the line itself before anything else. -/
def Pre.Begins (p : Pre) (e : Path) : Prop :=
  solid (p.textBelow e) = [] ∨ (∀ c, (p.textBefore e).getLast? = some c → c = '\n') ∨
    '\n' ∈ (p.textBelow e).takeWhile isWhitespace

/-- Every block of a page comes where a line is new: on the page, in the quotations, in the preformatted blocks. -/
structure BlocksBegin (doc : List Node) : Prop where
  page : OnNewLines true (pageParts doc)
  quotations : ∀ body ∈ bodiesAll (pageParts doc), OnNewLines false body
  embedded : ∀ p e, Embeds doc p e → p.Begins e

/-! ## The scanner -/

/-- What is on the current line. Outside of quotations a `blank` beginning of the page is trimmed. -/
inductive Line
  | blank
  | clear
  | lead
  | own         -- texts below the element, and marks
  | dirty
  deriving DecidableEq

/-- Something else than marks is on the line. -/
def Line.begun : Line → Bool
  | .own | .dirty => true
  | .blank | .clear | .lead => false

@[ext] structure LineState where
  line : Line
  tidy : Bool

def Line.next (e : Option Path) (l : Line) (x : Char × Origin) : Line :=
  if x.1 = '\n' then (if l = .blank then .blank else .clear)
  else if l = .blank ∧ Traced.blank x = true then .blank
  else if x.2.leads = true ∧ l.begun = false then .lead
  else if (x.2.leads = true ∨ below e x.2 = true) ∧ l ≠ .dirty then .own
  else .dirty

def lineScanner (e : Option Path) : Scanner LineState where
  step s x := ⟨s.line.next e x,
    s.tidy && !(opensBlock x && s.line.begun) && !(below e x.2 && !Traced.blank x && s.line == .dirty)⟩
  start := ⟨.blank, true⟩
  inner := ⟨.clear, true⟩
  quote s inner := ⟨.clear, s.tidy && inner.tidy && !s.line.begun⟩

/-- No block begins where something else than marks of lists and quotations is on the line. -/
def Tidy (e : Option Path) (doc : List Node) : Prop :=
  ((lineScanner e).scanAll (pageLayout doc) (lineScanner e).start).tidy = true

instance (e : Option Path) (doc : List Node) : Decidable (Tidy e doc) := inferInstanceAs (Decidable (_ = _))

variable {e : Option Path}

theorem next_newline (l : Line) (o : Origin) : l.next e ('\n', o) = if l = .blank then .blank else .clear := if_pos rfl

theorem next_of_ne_blank {l : Line} {x : Char × Origin} (hl : l ≠ .blank) (hx : x.1 ≠ '\n') :
    l.next e x = if x.2.leads = true ∧ l.begun = false then .lead
      else if (x.2.leads = true ∨ below e x.2 = true) ∧ l ≠ .dirty then .own else .dirty := by
  rw [Line.next, if_neg hx, if_neg fun h => hl h.1]

theorem next_ne_blank {l : Line} (hl : l ≠ .blank) (x : Char × Origin) : l.next e x ≠ .blank := by
  by_cases hx : x.1 = '\n'
  · rw [Line.next, if_pos hx, if_neg hl]
    exact Line.noConfusion
  · rw [next_of_ne_blank hl hx]
    split
    · exact Line.noConfusion
    · split <;> exact Line.noConfusion

theorem lineStep_blank (s : LineState) {x : Char × Origin} (hx : Traced.blank x = true) :
    (lineScanner e).step s x = ⟨s.line.next e x, s.tidy⟩ := by
  show LineState.mk (s.line.next e x) _ = _
  rw [opensBlock, hx]
  simp

theorem lineStep_newline (s : LineState) (o : Origin) :
    (lineScanner e).step s ('\n', o) = ⟨if s.line = .blank then .blank else .clear, s.tidy⟩ := by
  have hblank : isWhitespace '\n' = true := by decide
  rw [lineStep_blank s (x := ('\n', o)) hblank, next_newline]

/-! ### A quotation on a line -/

/-- The states outside and inside of a quotation that begins at a state `s`. -/
structure Inside (s outer inner : LineState) : Prop where
  outer_ne : outer.line ≠ .blank
  inner_ne : inner.line ≠ .blank
  tidy : outer.tidy = (s.tidy && inner.tidy && !s.line.begun)
  line : s.line.begun = true ∨ outer.line = inner.line ∨ (outer.line = .lead ∧ inner.line = .clear)

theorem Inside.step {s outer inner : LineState} (h : Inside s outer inner) (x : Char × Origin) :
    Inside s ((lineScanner e).step outer x) ((lineScanner e).step inner x) := by
  refine ⟨next_ne_blank h.outer_ne x, next_ne_blank h.inner_ne x, ?_, ?_⟩
  · show (outer.tidy && _ && _) = (s.tidy && (inner.tidy && _ && _) && _)
    rw [h.tidy]
    rcases h.line with hs | hline | ⟨hlead, hclear⟩
    · rw [hs]
      simp
    · rw [hline]
      cases s.tidy <;> cases inner.tidy <;> cases s.line.begun <;> simp
    · have hclean : (Line.lead == Line.dirty) = (Line.clear == Line.dirty) := rfl
      rw [hlead, hclear, hclean]
      cases s.tidy <;> cases inner.tidy <;> cases s.line.begun <;> simp [Line.begun]
  · rcases h.line with hs | hline | ⟨hlead, hclear⟩
    · exact .inl hs
    · exact .inr (.inl (congrArg (Line.next e · x) hline))
    · refine .inr (.inl ?_)
      show outer.line.next e x = inner.line.next e x
      rw [hlead, hclear]
      by_cases hx : x.1 = '\n'
      · rw [Line.next, Line.next, if_pos hx, if_pos hx]
        rfl
      · rw [next_of_ne_blank Line.noConfusion hx, next_of_ne_blank Line.noConfusion hx]
        simp [Line.begun]

theorem inside_mark (s : LineState) :
    Inside s ((lineScanner e).read (quoteMark true) s) (lineScanner e).inner := by
  have hread : (lineScanner e).read (quoteMark true) s =
      ⟨if s.line.begun then s.line else .lead, s.tidy && !s.line.begun⟩ := by
    cases s with
    | mk line tidy => cases line <;> cases tidy <;> rfl
  rw [hread]
  refine ⟨?_, Line.noConfusion, ?_, ?_⟩
  · show (if s.line.begun then s.line else Line.lead) ≠ .blank
    split
    · rename_i hs
      intro hblank
      rw [hblank] at hs
      cases hs
    · exact Line.noConfusion
  · show (s.tidy && !s.line.begun) = (s.tidy && true && !s.line.begun)
    rw [Bool.and_true]
  · by_cases hs : s.line.begun = true
    · exact .inl hs
    · exact .inr (.inr ⟨if_neg hs, rfl⟩)

/-- Outside of a quotation the line goes on as inside, after the marks. -/
theorem lineScanner_lawful (e : Option Path) : (lineScanner e).Lawful := by
  have hcleared {s outer inner : LineState} {x : Char × Origin} (h : Inside s outer inner) (hx : (x.1 == '\n') = true) :
      ((lineScanner e).step outer x).line = .clear ∧ ((lineScanner e).step inner x).line = .clear := by
    have hline {l : Line} (hl : l ≠ .blank) : l.next e x = .clear := by
      rw [Line.next, if_pos (eq_of_beq hx), if_neg hl]
    exact ⟨hline h.outer_ne, hline h.inner_ne⟩
  apply Lawful.of_related
    (R := fun s start outer inner => Inside s outer inner ∧ (start = true → outer.line = .clear ∧ inner.line = .clear))
  · intro s o o'
    rw [lineStep_newline, lineStep_newline]
    cases s with
    | mk line tidy => cases line <;> rfl
  · intro s o o'
    have hblank : isWhitespace '\r' = true := by decide
    rw [lineStep_blank s (x := ('\r', o)) hblank, lineStep_newline, lineStep_newline]
    by_cases hs : s.line = .blank
    · have hnext : s.line.next e ('\r', o) = .blank := by
        rw [hs]
        rfl
      rw [if_pos hs, if_pos hnext]
    · rw [if_neg hs, if_neg (next_ne_blank hs _)]
  · intro s x
    exact ⟨(inside_mark s).step x, hcleared (inside_mark s)⟩
  · rintro s start outer inner x ⟨h, hstart⟩
    cases start with
    | false => exact ⟨h.step x, hcleared h⟩
    | true =>
        -- the mark of the next line
        obtain ⟨houter, hinner⟩ := hstart rfl
        have hmark : Inside s ((lineScanner e).read (quoteMark false) outer) inner := by
          have hread : (lineScanner e).read (quoteMark false) outer = ⟨.lead, outer.tidy⟩ := by
            cases outer with
            | mk line tidy =>
                obtain rfl : line = .clear := houter
                cases tidy <;> rfl
          rw [hread]
          exact ⟨Line.noConfusion, h.inner_ne, h.tidy, .inr (.inr ⟨rfl, hinner⟩)⟩
        exact ⟨hmark.step x, hcleared hmark⟩
  · rintro s start outer inner ⟨h, -⟩
    rw [newline, lineStep_newline, if_neg h.outer_ne, h.tidy]
    rfl

/-! ## What the scanner says of an output -/

/-- What the line says of a text that does not begin with white space. -/
structure Line.Of (e : Option Path) (b : Buffer) (l : Line) : Prop where
  blank : l = .blank ↔ b = []
  begun : l.begun = true ↔ ∃ y ∈ lastLine b, y.2.leads = false
  dirty : l = .dirty ↔ ∃ y ∈ lastLine b, y.2.leads = false ∧ below e y.2 = false

theorem Line.Of.next {b : Buffer} {l : Line} (h : l.Of e b) {x : Char × Origin} (hx : b = [] → Traced.blank x = false) :
    (l.next e x).Of e (b ++ [x]) := by
  have hfirst : ¬ (l = .blank ∧ Traced.blank x = true) := by
    rintro ⟨hl, hblank⟩
    rw [hx (h.blank.mp hl)] at hblank
    cases hblank
  have hne : b ++ [x] ≠ [] := List.append_ne_nil_of_right_ne_nil b (List.cons_ne_nil x [])
  have hline : lastLine (b ++ [x]) = if x.1 = '\n' then [] else lastLine b ++ [x] := lastLine_concat b x
  rw [Line.next, if_neg hfirst]
  by_cases hnl : x.1 = '\n'
  · have hl : l ≠ .blank := by
      intro hl
      apply hfirst ⟨hl, _⟩
      rw [Traced.blank, hnl]
      decide
    rw [if_pos hnl] at hline
    rw [if_pos hnl, if_neg hl]
    refine ⟨iff_of_false Line.noConfusion hne, iff_of_false Bool.noConfusion ?_, iff_of_false Line.noConfusion ?_⟩
    · rw [hline]
      simp
    · rw [hline]
      simp
  · rw [if_neg hnl] at hline
    have hbegun : (∃ y ∈ lastLine (b ++ [x]), y.2.leads = false) ↔ l.begun = true ∨ x.2.leads = false := by
      rw [h.begun, hline]
      simp only [List.mem_append, List.mem_singleton, or_and_right, exists_or, exists_eq_left]
    have hdirty : (∃ y ∈ lastLine (b ++ [x]), y.2.leads = false ∧ below e y.2 = false) ↔
        l = .dirty ∨ (x.2.leads = false ∧ below e x.2 = false) := by
      rw [h.dirty, hline]
      simp only [List.mem_append, List.mem_singleton, or_and_right, exists_or, exists_eq_left]
    have hsub : l = .dirty → l.begun = true := by
      rintro rfl
      rfl
    rw [if_neg hnl]
    by_cases hlead : x.2.leads = true ∧ l.begun = false
    · rw [if_pos hlead]
      refine ⟨iff_of_false Line.noConfusion hne, ?_, ?_⟩
      · rw [hbegun, hlead.1, hlead.2]
        simp [Line.begun]
      · rw [hdirty, hlead.1]
        refine iff_of_false Line.noConfusion ?_
        rintro (hl | ⟨hf, -⟩)
        · rw [hsub hl] at hlead
          cases hlead.2
        · cases hf
    · rw [if_neg hlead]
      have hor : l.begun = true ∨ x.2.leads = false := by
        cases hleads : x.2.leads with
        | false => exact .inr rfl
        | true => exact .inl ((Bool.not_eq_false _).mp fun hl => hlead ⟨hleads, hl⟩)
      by_cases hown : (x.2.leads = true ∨ below e x.2 = true) ∧ l ≠ .dirty
      · rw [if_pos hown]
        refine ⟨iff_of_false Line.noConfusion hne, iff_of_true rfl (hbegun.mpr hor), ?_⟩
        rw [hdirty]
        refine iff_of_false Line.noConfusion ?_
        rintro (hl | ⟨hleads, hbelow⟩)
        · exact hown.2 hl
        · rw [hleads, hbelow] at hown
          simp at hown
      · rw [if_neg hown]
        refine ⟨iff_of_false Line.noConfusion hne, iff_of_true rfl (hbegun.mpr hor), ?_⟩
        rw [hdirty]
        refine iff_of_true rfl ?_
        by_cases hl : l = .dirty
        · exact .inl hl
        · have hnot : ¬ (x.2.leads = true ∨ below e x.2 = true) := fun h => hown ⟨h, hl⟩
          rw [not_or, Bool.not_eq_true, Bool.not_eq_true] at hnot
          exact .inr hnot

/-- What is on the last line of a text that does not begin with white space, and whether all that has to lead its line
    does. -/
theorem read_start {b : Buffer} (hb : ∀ x, b.head? = some x → Traced.blank x = false) :
    let s := (lineScanner e).read b (lineScanner e).start
    s.line.Of e b ∧ (s.tidy = true ↔ MarkersLead b ∧ TextLeads e b) := by
  apply snoc_induction (p := fun x => Traced.blank x = false) (Q := fun b =>
    ((lineScanner e).read b (lineScanner e).start).line.Of e b ∧
      (((lineScanner e).read b (lineScanner e).start).tidy = true ↔ MarkersLead b ∧ TextLeads e b)) _ _ hb
  · have hnone {p : Char × Origin → Prop} : ¬ ∃ y ∈ lastLine [], p y := by
      rintro ⟨y, hy, -⟩
      cases hy
    refine ⟨⟨iff_of_true rfl rfl, iff_of_false Bool.noConfusion hnone, iff_of_false Line.noConfusion hnone⟩, ?_⟩
    exact iff_of_true rfl ⟨atEach_nil, atEach_nil⟩
  · rintro b x hx ⟨hline, htidy⟩
    rw [read_concat]
    generalize (lineScanner e).read b (lineScanner e).start = s at hline htidy
    refine ⟨hline.next hx, ?_⟩
    rw [MarkersLead, TextLeads, atEach_snoc, atEach_snoc, ← MarkersLead, ← TextLeads]
    show (s.tidy && !(opensBlock x && s.line.begun) && !(below e x.2 && !blank x && s.line == .dirty)) = true ↔ _
    have hmarker : (!(opensBlock x && s.line.begun)) = true ↔
        (opensBlock x = true → ∀ y ∈ lastLine b, y.2.leads = true) := by
      rw [Bool.not_eq_true', Bool.and_eq_false_imp, Bool.eq_false_iff, ne_eq, hline.begun]
      simp
    have htext : (!(below e x.2 && !blank x && s.line == .dirty)) = true ↔
        (below e x.2 = true → blank x = false → ∀ y ∈ lastLine b, y.2.leads = true ∨ below e y.2 = true) := by
      rw [Bool.not_eq_true', Bool.and_eq_false_imp, beq_eq_false_iff_ne, ne_eq, hline.dirty, Bool.and_eq_true,
        Bool.not_eq_true']
      simp [or_iff_not_imp_left]
    rw [Bool.and_eq_true, Bool.and_eq_true, htidy, hmarker, htext]
    tauto

theorem leads_output (e : Option Path) (doc : List Node) :
    MarkersLead (output doc) ∧ TextLeads e (output doc) ↔ Tidy e doc := by
  have haccept : Tidy e doc ↔ ((lineScanner e).read (output doc) (lineScanner e).start).tidy = true := by
    apply accept_output (lineScanner_lawful e) (fun s => s.tidy = true)
    · intro x hx
      have hnext : Line.next e .blank x = .blank := by
        unfold Line.next
        rw [if_pos rfl]
        split
        · rfl
        · exact if_pos (And.intro rfl hx)
      rw [lineStep_blank _ hx]
      exact congrArg (LineState.mk · true) hnext
    · intro s x hx
      rw [lineStep_blank s hx]
  rw [haccept]
  exact (read_start fun x hx => head_trim hx).2.symm

/-! ## The scanner over a part -/

/-- After a text of a shape that is no mark of a list. -/
def Line.pass (l : Line) (r : Shape) : Line :=
  match l with
  | .blank => if r.shows then (if r.ends then .clear else .dirty) else .blank
  | .clear | .lead | .own | .dirty => if r.ends then .clear else if r.inks then .dirty else l

/-- After a part. -/
def Line.part (l : Line) (x : Part) : Line :=
  if x.isItem then (if l.begun then l else .lead) else l.pass x.shape

theorem next_pass_of_plain {x : Char × Origin} (hleads : x.2.leads = false) (hbelow : below e x.2 = false) (l : Line)
    (r : Shape) : (l.pass r).next e x =
      l.pass ⟨x.1 == '\n', x.1 != '\n', r.shows || !isWhitespace x.1, r.spaces || isWhitespace x.1⟩ := by
  have hplain (l : Line) : l.next e x =
      if x.1 = '\n' then (if l = .blank then .blank else .clear)
      else if l = .blank ∧ Traced.blank x = true then .blank else .dirty := by
    rw [Line.next, hleads, hbelow]
    simp
  have hblank : Traced.blank x = isWhitespace x.1 := rfl
  rw [hplain, hblank]
  by_cases hnl : x.1 = '\n'
  · have hws : isWhitespace '\n' = true := by decide
    rw [hnl]
    cases l with
    | blank => cases hshows : r.shows <;> cases hends : r.ends <;> simp [Line.pass, hshows, hends, hws]
    | _ => cases hends : r.ends <;> cases hinks : r.inks <;> simp [Line.pass, hends, hinks]
  · cases l with
    | blank =>
        cases hshows : r.shows <;> cases hends : r.ends <;> cases hws : isWhitespace x.1 <;>
          simp [Line.pass, hshows, hends, hnl]
    | _ => cases hends : r.ends <;> cases hinks : r.inks <;> simp [Line.pass, hends, hinks, hnl]

/-- Of a text that is no mark of a list the line needs no more than the shape. -/
theorem line_read {b : Buffer} (hb : ∀ y ∈ b, y.2.leads = false ∧ below e y.2 = false) (s : LineState) :
    ((lineScanner e).read b s).line = s.line.pass (shape (erase b)) := by
  induction b using List.reverseRecOn with
  | nil =>
      show s.line = s.line.pass ⟨false, false, false, false⟩
      cases s.line <;> rfl
  | append_singleton b x ih =>
      have hx := hb x (List.mem_append_right b List.mem_cons_self)
      have hline := ih fun y hy => hb y (List.mem_append_left [x] hy)
      have herase : erase (b ++ [x]) = erase b ++ [x.1] := erase_append b [x]
      rw [read_concat, herase, shape_concat]
      show Line.next e _ x = _
      rw [hline]
      exact next_pass_of_plain hx.1 hx.2 s.line (shape (erase b))

theorem tidy_read {b : Buffer} (hb : ∀ y ∈ b, opensBlock y = false ∧ below e y.2 = false) (s : LineState) :
    ((lineScanner e).read b s).tidy = s.tidy := by
  induction b generalizing s with
  | nil => rfl
  | cons x b ih =>
      obtain ⟨hopens, hbelow⟩ := hb x List.mem_cons_self
      have hstep : ((lineScanner e).step s x).tidy = s.tidy := by
        show (s.tidy && !(opensBlock x && s.line.begun) && !(below e x.2 && !blank x && s.line == .dirty)) = s.tidy
        rw [hopens, hbelow]
        simp
      rw [read_cons, ih fun y hy => hb y (List.mem_cons_of_mem x hy), hstep]

/-- What a state says of a part that was written after it. -/
structure Passed (e : Option Path) (s : LineState) (x : Part) (s' : LineState) : Prop where
  line : s'.line = s.line.part x
  tidy : s'.tidy = true ↔ s.tidy = true ∧ (x.opens = true → s.line.begun = false)

theorem passed_plain {x : Part} (hquote : x.isQuote = false) (hitem : x.isItem = false) (hopens : x.opens = false)
    (hx : ∀ y ∈ x.traced, y.2.leads = false ∧ below e y.2 = false ∧ y.2.opens = false) (s : LineState) :
    Passed e s x ((lineScanner e).scanAll x.ops s) := by
  rw [scanAll_ops (lineScanner e) hquote]
  constructor
  · rw [line_read (fun y hy => ⟨(hx y hy).1, (hx y hy).2.1⟩), shape_traced hquote, Line.part, hitem]
    rfl
  · have hopensBlock : ∀ y ∈ x.traced, opensBlock y = false ∧ below e y.2 = false := by
      intro y hy
      obtain ⟨-, hbelow, hopens⟩ := hx y hy
      rw [opensBlock, hopens]
      exact ⟨Bool.false_and _, hbelow⟩
    rw [tidy_read hopensBlock, hopens]
    simp

/-- The marker of a heading or of a rule. -/
theorem passed_marker {x : Part} (hquote : x.isQuote = false) (hitem : x.isItem = false) (hopens : x.opens = true)
    {c : Char} {t : Text} (hc : isWhitespace c = false) (hx : x.traced = (c, .marker) :: ofText .plain t) (s : LineState) :
    Passed e s x ((lineScanner e).scanAll x.ops s) := by
  have hplain {y : Char × Origin} (hy : y ∈ ofText Origin.plain t) : y.2 = .plain := origin_of_mem_ofText hy
  rw [scanAll_ops (lineScanner e) hquote]
  constructor
  · rw [line_read, shape_traced hquote, Line.part, hitem]
    · rfl
    · rw [hx]
      intro y hy
      rcases List.mem_cons.mp hy with rfl | hy
      · exact ⟨rfl, rfl⟩
      · rw [hplain hy]
        exact ⟨rfl, rfl⟩
  · rw [hx, read_cons, tidy_read]
    · show (s.tidy && !((!isWhitespace c) && s.line.begun) && !(false && _ && _)) = true ↔ _
      rw [hc, hopens]
      simp
    · intro y hy
      rw [opensBlock, hplain hy]
      exact ⟨rfl, rfl⟩

/-- The characters of a list item's marker do not make the line another one, but for its beginning. -/
theorem read_item (it : Item) {t : Text} (ht : '\n' ∉ t) (s : LineState) :
    (lineScanner e).read (ofText (.item it) t) s =
      ⟨if s.line.begun then s.line else if solid t = [] then (if s.line = .blank ∨ t = [] then s.line else .lead) else .lead,
        s.tidy && !(it.block && s.line.begun && !(solid t).isEmpty)⟩ := by
  induction t using List.reverseRecOn with
  | nil =>
      cases s with
      | mk line tidy => cases line <;> cases tidy <;> simp [ofText, read_nil, Line.begun]
  | append_singleton t c ih =>
      have hnl : c ≠ '\n' := by
        rintro rfl
        exact ht (by simp)
      rw [ofText_append, read_append, ih fun h => ht (by simp [h])]
      show (lineScanner e).step _ (c, .item it) = _
      show LineState.mk (Line.next e _ (c, .item it)) (_ && !((it.block && !isWhitespace c) && _) && !(false && _ && _)) = _
      rw [Line.next, if_neg hnl]
      cases hc : isWhitespace c with
      | true =>
          have hblank : Traced.blank ((c, Origin.item it) : Char × Origin) = true := hc
          rw [hblank, solid_concat_blank hc]
          cases s with
          | mk line tidy =>
              cases line <;> by_cases hsolid : solid t = [] <;> by_cases hnil : t = [] <;>
                simp [hsolid, hnil, Line.begun, Origin.leads]
      | false =>
          have hblank : Traced.blank ((c, Origin.item it) : Char × Origin) = false := hc
          rw [hblank, solid_append, solid_cons_solid hc]
          cases s with
          | mk line tidy =>
              cases line <;> cases hblock : it.block <;> by_cases hsolid : solid t = [] <;> by_cases hnil : t = [] <;>
                simp [hsolid, hnil, Line.begun, Origin.leads]

theorem passed_item (it : Item) (s : LineState) :
    Passed e s (.item it) ((lineScanner e).scanAll (Part.item it).ops s) := by
  have hnl : '\n' ∉ it.marker := by
    intro h
    rcases mem_marker h with hspace | hblank
    · cases hspace
    · cases hblank
  have hsolid : solid it.marker ≠ [] := by
    have hshows : (!(solid it.marker).isEmpty) = true := congrArg Shape.shows (shape_marker it)
    simpa using hshows
  have htraced : (Part.item it).traced = ofText (.item it) it.marker := List.append_nil _
  rw [scanAll_ops (lineScanner e) rfl, htraced, read_item it hnl, if_neg hsolid]
  refine ⟨rfl, ?_⟩
  show (s.tidy && !(it.block && s.line.begun && !(solid it.marker).isEmpty)) = true ↔ _ ∧ (it.block = true → _)
  cases it.block <;> simp [hsolid]

def Arm.lead? : Arm → Option Text
  | .block lead => some lead
  | .inline _ _ | .leaf _ | .blockquote | .pre | .code | .ul | .ol | .li => none

/-- The arms of headings begin with their marker, all others with none. -/
theorem lead_armOf (name : Text) (attrs : List (Text × Text)) :
    (armOf name attrs).lead?.bind List.head? = if oneOf name headings then some '#' else none := by
  have hattrs (name : Text) : (armOf name attrs).lead? = (armOf name []).lead? := by
    simp only [armOf, apply_ite Arm.lead?]
    rfl
  induction name using element_cases with
  | named s hs =>
      rw [hattrs]
      revert s
      decide +kernel
  | other name h =>
      rw [armOf_other h, h _ (by decide)]
      rfl

theorem passed_start (name : Text) (attrs : List (Text × Text)) (s : LineState) :
    Passed e s (.start name attrs) ((lineScanner e).scanAll (Part.start name attrs).ops s) := by
  have hlead := lead_armOf name attrs
  cases hheading : oneOf name headings with
  | true =>
      rw [hheading, if_pos rfl] at hlead
      cases harm : armOf name attrs with
      | block lead =>
          rw [harm] at hlead
          obtain ⟨t, rfl⟩ := List.head?_eq_some_iff.mp hlead
          have htraced : (Part.start name attrs).traced = ('#', .marker) :: ofText .plain t := by
            rw [Part.traced, Part.ops, harm, List.flatMap_singleton]
            rfl
          exact passed_marker (x := .start name attrs) rfl rfl hheading (by decide) htraced s
      | _ =>
          rw [harm] at hlead
          cases hlead
  | false =>
      rw [hheading, if_neg Bool.false_ne_true] at hlead
      apply passed_plain (x := .start name attrs) rfl rfl hheading
      intro y hy
      rw [Part.traced, Part.ops] at hy
      split at hy
      · rename_i lead harm
        rw [harm] at hlead
        rw [List.flatMap_singleton, List.head?_eq_none_iff.mp hlead] at hy
        cases hy
      · rw [List.flatMap_singleton] at hy
        rw [origin_of_mem_ofText hy]
        exact ⟨rfl, rfl, rfl⟩
      · rw [List.flatMap_singleton] at hy
        rw [origin_of_mem_ofText hy]
        exact ⟨rfl, rfl, rfl⟩
      · cases hy

theorem passed_stop (name : Text) (attrs : List (Text × Text)) (s : LineState) :
    Passed e s (.stop name attrs) ((lineScanner e).scanAll (Part.stop name attrs).ops s) := by
  apply passed_plain (x := .stop name attrs) rfl rfl rfl
  have hplain {y : Char × Origin} (hy : y.2 = .plain) : y.2.leads = false ∧ below e y.2 = false ∧ y.2.opens = false := by
    rw [hy]
    exact ⟨rfl, rfl, rfl⟩
  have hlines {y : Char × Origin} (hy : y ∈ [newline, newline]) : y.2 = .plain := by
    simp only [List.mem_cons, List.not_mem_nil, or_false, or_self] at hy
    rw [hy]
    rfl
  intro y hy
  apply hplain
  rw [Part.traced, Part.ops] at hy
  split at hy
  · exact hlines hy
  · exact hlines hy
  · rw [List.flatMap_singleton] at hy
    exact origin_of_mem_ofText hy
  · rw [List.flatMap_singleton] at hy
    exact origin_of_mem_ofText hy
  · rw [List.flatMap_singleton] at hy
    exact origin_of_mem_ofText hy
  · cases hy

theorem passed_void (name : Text) (attrs : List (Text × Text)) (s : LineState) :
    Passed e s (.void name attrs) ((lineScanner e).scanAll (Part.void name attrs).ops s) := by
  cases hrule : oneOf name ["hr"] with
  | true =>
      obtain rfl := oneOf_singleton.mp hrule
      exact passed_marker (x := .void "hr".toList attrs) (c := '-') (t := "--\n\n".toList) rfl rfl rfl (by decide) rfl s
  | false =>
      apply passed_plain (x := .void name attrs) rfl rfl hrule
      intro y hy
      rw [Part.traced, Part.ops, hrule] at hy
      split at hy
      · rw [List.flatMap_singleton] at hy
        rw [origin_of_mem_ofText hy]
        exact ⟨rfl, rfl, rfl⟩
      · cases hy

/-- A text that is not below the element. -/
theorem passed_text {x : Part} {node : TextNode} {t : Text} (hquote : x.isQuote = false) (hitem : x.isItem = false)
    (hopens : x.opens = false) (hx : x.traced = ofText (.text node) t) (hnode : below e (.text node) = false)
    (s : LineState) : Passed e s x ((lineScanner e).scanAll x.ops s) := by
  apply passed_plain hquote hitem hopens
  rw [hx]
  intro y hy
  rw [origin_of_mem_ofText hy]
  exact ⟨rfl, hnode, rfl⟩

/-! ### Preformatted blocks -/

/-- The texts of a preformatted block, from the beginning of its first line. -/
def Pre.scan (e : Option Path) (p : Pre) : LineState :=
  (lineScanner e).read (p.texts.flatMap fun t => ofText (Origin.text t.1) t.2) ⟨.clear, true⟩

/-- What was tidy before does not matter for the line, and is kept. -/
theorem read_tidy (b : Buffer) (l : Line) (tidy : Bool) :
    (lineScanner e).read b ⟨l, tidy⟩ =
      ⟨((lineScanner e).read b ⟨l, true⟩).line, tidy && ((lineScanner e).read b ⟨l, true⟩).tidy⟩ := by
  induction b using List.reverseRecOn with
  | nil => cases tidy <;> rfl
  | append_singleton b x ih =>
      rw [read_concat, read_concat, ih]
      show LineState.mk _ _ = LineState.mk _ _
      congr 1
      show (tidy && _ && _ && _) = (tidy && (_ && _ && _))
      simp only [Bool.and_assoc]

theorem read_ne_blank {s : LineState} (hs : s.line ≠ .blank) (b : Buffer) : ((lineScanner e).read b s).line ≠ .blank := by
  induction b generalizing s with
  | nil => exact hs
  | cons x b ih => exact ih (next_ne_blank hs x)

/-- A preformatted block is tidy where it comes on a new line, and its texts are tidy. -/
theorem passed_pre (p : Pre) (blocks : List Path) (s : LineState) :
    ((lineScanner e).scanAll (Part.pre p blocks).ops s).line = s.line.part (.pre p blocks) ∧
      (((lineScanner e).scanAll (Part.pre p blocks).ops s).tidy = true ↔
        s.tidy = true ∧ s.line.begun = false ∧ (p.scan e).tidy = true) := by
  have htraced : (Part.pre p blocks).traced = (Writing.pre p).traced := List.append_nil _
  have hopen : (lineScanner e).read (('`', .fence p) :: ofText .plain "``\n") s = ⟨.clear, s.tidy && !s.line.begun⟩ := by
    cases s with
    | mk line tidy => cases line <;> cases tidy <;> rfl
  have hclosing : ∀ y ∈ p.closing, opensBlock y = false ∧ below e y.2 = false := by
    intro y hy
    rw [opensBlock, origin_closing hy]
    exact ⟨rfl, rfl⟩
  have hclear : (⟨.clear, s.tidy && !s.line.begun⟩ : LineState).line ≠ .blank := Line.noConfusion
  have hline : ((lineScanner e).read p.closing ((lineScanner e).read (p.texts.flatMap fun t => ofText (.text t.1) t.2)
      ⟨.clear, s.tidy && !s.line.begun⟩)).line ≠ .blank := read_ne_blank (read_ne_blank hclear _) _
  rw [scanAll_ops (lineScanner e) rfl, htraced, traced_pre, read_append, read_append, read_concat, hopen, newline,
    lineStep_newline, if_neg hline, tidy_read hclosing, read_tidy, ← Pre.scan]
  constructor
  · show Line.clear = s.line.pass ⟨true, false, true, true⟩
    cases s.line <;> rfl
  · show (s.tidy && !s.line.begun && (p.scan e).tidy) = true ↔ _
    rw [Bool.and_eq_true, Bool.and_eq_true, Bool.not_eq_true', and_assoc]

/-- Only texts are below an element. -/
theorem leads_of_below {o : Origin} (ho : below e o = true) : o.leads = false ∧ o.opens = false := by
  cases o with
  | text node => exact ⟨rfl, rfl⟩
  | _ => cases ho

/-- On a line with nothing else the texts below the element do no harm. -/
theorem read_below_clean {b : Buffer} (hb : ∀ y ∈ b, below e y.2 = true) {s : LineState}
    (hs : s.line = .clear ∨ s.line = .own) : ((lineScanner e).read b s).tidy = s.tidy := by
  induction b generalizing s with
  | nil => rfl
  | cons x b ih =>
      obtain ⟨c, o⟩ := x
      have ho : below e o = true := hb (c, o) List.mem_cons_self
      obtain ⟨hleads, hopens⟩ := leads_of_below ho
      have hstep : (lineScanner e).step s (c, o) = ⟨if c = '\n' then .clear else .own, s.tidy⟩ := by
        show LineState.mk (s.line.next e (c, o)) (s.tidy && !((o.opens && _) && _) && !(below e o && _ && s.line == .dirty)) = _
        rw [Line.next, hleads, hopens, ho]
        rcases hs with hs | hs
        · have hclean : (Line.clear == Line.dirty) = false := rfl
          rw [hs, hclean]
          simp
        · have hclean : (Line.own == Line.dirty) = false := rfl
          rw [hs, hclean]
          simp
      rw [read_cons, hstep, ih fun y hy => hb y (List.mem_cons_of_mem _ hy)]
      show (if c = '\n' then Line.clear else .own) = .clear ∨ (if c = '\n' then Line.clear else .own) = .own
      split
      · exact .inl rfl
      · exact .inr rfl

/-- After something else on the line they do, if they do not end it first. -/
theorem read_below_dirty {b : Buffer} (hb : ∀ y ∈ b, below e y.2 = true) (tidy : Bool) :
    ((lineScanner e).read b ⟨.dirty, tidy⟩).tidy = true ↔
      tidy = true ∧ (solid (erase b) = [] ∨ '\n' ∈ (erase b).takeWhile isWhitespace) := by
  induction b generalizing tidy with
  | nil => exact (and_iff_left (.inl rfl)).symm
  | cons x b ih =>
      obtain ⟨c, o⟩ := x
      have ho : below e o = true := hb (c, o) List.mem_cons_self
      obtain ⟨hleads, hopens⟩ := leads_of_below ho
      have hrest : ∀ y ∈ b, below e y.2 = true := fun y hy => hb y (List.mem_cons_of_mem _ hy)
      have hstep : (lineScanner e).step ⟨.dirty, tidy⟩ (c, o) = ⟨if c = '\n' then .clear else .dirty, tidy && isWhitespace c⟩ := by
        show LineState.mk (Line.dirty.next e (c, o)) (tidy && !((o.opens && _) && _) && !(below e o && !isWhitespace c && true)) = _
        rw [Line.next, hleads, hopens, ho]
        simp [Line.begun]
      rw [read_cons, hstep, erase_cons]
      by_cases hnl : c = '\n'
      · subst hnl
        have hws : isWhitespace '\n' = true := by decide
        rw [if_pos rfl, read_below_clean hrest (.inl rfl), List.takeWhile_cons_of_pos hws, hws, Bool.and_true]
        exact (and_iff_left (.inr List.mem_cons_self)).symm
      · rw [if_neg hnl, ih hrest]
        cases hws : isWhitespace c with
        | true =>
            have hmem : '\n' ∈ c :: (erase b).takeWhile isWhitespace ↔ '\n' ∈ (erase b).takeWhile isWhitespace := by
              rw [List.mem_cons]
              exact or_iff_right fun h => hnl h.symm
            rw [List.takeWhile_cons_of_pos hws, solid_cons_blank hws, hmem, Bool.and_true]
        | false =>
            rw [List.takeWhile_cons_of_neg (by simp [hws]), solid_cons_solid hws]
            simp

/-- The text below an element, where the texts below it follow each other. -/
theorem textBelow_of_split {p : Pre} {e : Path} {before inside after : List (TextNode × Text)}
    (htexts : p.texts = before ++ (inside ++ after)) (hbefore : ∀ t ∈ before, ¬ Under e t) (hinside : ∀ t ∈ inside, Under e t)
    (hafter : ∀ t ∈ after, ¬ Under e t) : p.textBelow e = inside.flatMap Prod.snd := by
  have hnone {ts : List (TextNode × Text)} (hts : ∀ t ∈ ts, ¬ Under e t) : ts.filter (fun t => decide (Under e t)) = [] :=
    List.filter_eq_nil_iff.mpr fun t ht => by simpa using hts t ht
  rw [Pre.textBelow, htexts, List.filter_append, List.filter_append, hnone hbefore, hnone hafter,
    List.filter_eq_self.mpr fun t ht => decide_eq_true (hinside t ht), List.nil_append, List.append_nil]

/-- The text before it, if there is text below it. -/
theorem textBefore_of_split {p : Pre} {e : Path} {before after : List (TextNode × Text)} {t : TextNode × Text}
    (htexts : p.texts = before ++ t :: after) (hbefore : ∀ u ∈ before, ¬ Under e u) (ht : Under e t) :
    p.textBefore e = before.flatMap Prod.snd := by
  have hpos : ∀ u ∈ before, (!decide (Under e u)) = true := by
    intro u hu
    rw [decide_eq_false (hbefore u hu)]
    rfl
  have hneg : ¬ (!decide (Under e t)) = true := by
    rw [decide_eq_true ht]
    exact Bool.false_ne_true
  have hstop : (t :: after).takeWhile (fun u => !decide (Under e u)) = [] := List.takeWhile_cons_of_neg hneg
  rw [Pre.textBefore, htexts, List.takeWhile_append_of_pos hpos, hstop, List.append_nil]

/-- Texts from the beginning of a line leave it clear exactly if they end it. -/
theorem clear_pass (b : Text) : Line.clear.pass (shape b) = if b.getLast?.getD '\n' = '\n' then .clear else .dirty := by
  show (if (shape b).ends then Line.clear else if (shape b).inks then .dirty else .clear) = _
  cases hlast : b.getLast? with
  | none => simp [shape, hlast]
  | some c =>
      by_cases hc : c = '\n'
      · simp [shape, hlast, hc]
      · simp [shape, hlast, hc]

/-- What a preformatted block holds is text, and it is below an element where its node is. -/
theorem below_of_mem_texts (e : Path) {ts : List (TextNode × Text)} {y : Char × Origin}
    (hy : y ∈ ts.flatMap fun t => ofText (Origin.text t.1) t.2) :
    y.2.leads = false ∧ opensBlock y = false ∧ ∃ t ∈ ts, below (some e) y.2 = decide (Under e t) := by
  obtain ⟨t, ht, hy⟩ := List.mem_flatMap.mp hy
  rw [opensBlock, origin_of_mem_ofText hy]
  exact ⟨rfl, rfl, t, ht, rfl⟩

/-- The texts of a preformatted block are tidy where the element begins a line of them. -/
theorem tidy_scan_iff {p : Pre} {e : Path} (h : Run e p.texts) : (p.scan (some e)).tidy = true ↔ p.Begins e := by
  obtain ⟨before, inside, after, htexts, hbefore, hinside, hafter⟩ := h
  have hout {ts : List (TextNode × Text)} (hts : ∀ t ∈ ts, ¬ Under e t) :
      ∀ y ∈ ts.flatMap fun t => ofText (Origin.text t.1) t.2, opensBlock y = false ∧ below (some e) y.2 = false := by
    intro y hy
    obtain ⟨-, hopens, t, ht, hbelow⟩ := below_of_mem_texts e hy
    exact ⟨hopens, hbelow.trans (decide_eq_false (hts t ht))⟩
  have hin : ∀ y ∈ inside.flatMap fun t => ofText (Origin.text t.1) t.2, below (some e) y.2 = true := by
    intro y hy
    obtain ⟨-, -, t, ht, hbelow⟩ := below_of_mem_texts e hy
    exact hbelow.trans (decide_eq_true (hinside t ht))
  -- before the element the scanner only sees where lines end
  have hfirst : (lineScanner (some e)).read (before.flatMap fun t => ofText (.text t.1) t.2) ⟨.clear, true⟩ =
      ⟨Line.clear.pass (shape (before.flatMap Prod.snd)), true⟩ := by
    have hline := line_read (fun y hy => ⟨(below_of_mem_texts e hy).1, (hout hbefore y hy).2⟩) ⟨.clear, true⟩
    rw [erase_texts] at hline
    exact LineState.ext hline (tidy_read (hout hbefore) ⟨.clear, true⟩)
  have hscan : (p.scan (some e)).tidy = ((lineScanner (some e)).read (inside.flatMap fun t => ofText (.text t.1) t.2)
      ⟨Line.clear.pass (shape (before.flatMap Prod.snd)), true⟩).tidy := by
    rw [Pre.scan, htexts, List.flatMap_append, List.flatMap_append, read_append, read_append, tidy_read (hout hafter), hfirst]
  rw [hscan, Pre.Begins, textBelow_of_split htexts hbefore hinside hafter, clear_pass]
  cases inside with
  | nil => exact iff_of_true rfl (.inl rfl)
  | cons t ts =>
      have hends : (∀ c, (before.flatMap Prod.snd).getLast? = some c → c = '\n') ↔
          (before.flatMap Prod.snd).getLast?.getD '\n' = '\n' := by
        cases (before.flatMap Prod.snd).getLast? <;> simp
      rw [textBefore_of_split htexts hbefore (hinside t List.mem_cons_self), hends]
      split
      next hnew => exact iff_of_true (read_below_clean hin (.inl rfl)) (.inr (.inl hnew))
      next hnew =>
        rw [read_below_dirty hin, erase_texts]
        simp [hnew]

/-! ## The scanner over the parts of a page -/

/-- What is on the line after some parts. -/
def lineAfter (page : Bool) (ts : List Part) : Line :=
  if page = true ∧ started ts = [] then .blank
  else if (currentLine page ts).any fun y => y.inks && !y.isItem then .dirty
  else if (currentLine page ts).any Part.inks then .lead
  else .clear

theorem isItem_iff {x : Part} : x.isItem = true ↔ ∃ it, x = .item it := by
  cases x with
  | item it => exact iff_of_true rfl ⟨it, rfl⟩
  | _ => exact iff_of_false Bool.noConfusion fun ⟨it, h⟩ => Part.noConfusion h

theorem lineAfter_concat (page : Bool) (ts : List Part) (x : Part) :
    (lineAfter page ts).part x = lineAfter page (ts ++ [x]) := by
  have hitem {x : Part} (hx : x.isItem = true) : x.shows = true ∧ x.ends = false ∧ x.inks = true := by
    obtain ⟨it, rfl⟩ := isItem_iff.mp hx
    exact ⟨rfl, rfl, rfl⟩
  unfold lineAfter
  by_cases hfirst : page = true ∧ started ts = []
  · obtain ⟨rfl, hts⟩ := hfirst
    have hstarted := started_first hts x
    rw [if_pos ⟨rfl, hts⟩]
    cases hshows : x.shows with
    | false =>
        rw [hshows, if_neg Bool.false_ne_true] at hstarted
        rw [if_pos ⟨rfl, hstarted⟩, Line.part]
        split
        · rename_i hx
          rw [(hitem hx).1] at hshows
          cases hshows
        · show (if x.shows then _ else Line.blank) = .blank
          rw [hshows]
          rfl
    | true =>
        have hwrites := writes_of_shows hshows
        have hline : currentLine true (ts ++ [x]) = if x.ends then [] else [x] := by
          show onLine (started (ts ++ [x])) = _
          rw [hstarted, hshows]
          exact onLine_concat [] x
        rw [hshows, if_pos rfl] at hstarted
        rw [if_neg fun h => List.cons_ne_nil x [] (hstarted.symm.trans h.2), hline, Line.part]
        cases hx : x.isItem with
        | true =>
            obtain ⟨-, hends, hinks⟩ := hitem hx
            simp [hends, hinks, hx, Line.begun]
        | false =>
            rw [Part.writes] at hwrites
            cases hends : x.ends with
            | true => simp [Line.pass, Part.shape, hshows, hends]
            | false =>
                rw [hends, Bool.false_or] at hwrites
                simp [Line.pass, Part.shape, hshows, hends, hwrites, hx]
  · have hview : currentLine page (ts ++ [x]) = if x.ends then [] else currentLine page ts ++ [x] := by
      cases page with
      | false => exact onLine_concat ts x
      | true =>
          have hts : started ts ≠ [] := fun h => hfirst ⟨rfl, h⟩
          show onLine (started (ts ++ [x])) = _
          rw [started_concat hts]
          exact onLine_concat (started ts) x
    have hsecond : ¬ (page = true ∧ started (ts ++ [x]) = []) := by
      rintro ⟨rfl, h⟩
      rw [started_concat fun h => hfirst ⟨rfl, h⟩] at h
      exact List.append_ne_nil_of_right_ne_nil _ (List.cons_ne_nil x []) h
    rw [if_neg hfirst, if_neg hsecond, hview, Line.part]
    cases hx : x.isItem with
    | true =>
        obtain ⟨-, hends, hinks⟩ := hitem hx
        rw [hends, if_neg Bool.false_ne_true, List.any_append, List.any_append]
        cases (currentLine page ts).any fun y => y.inks && !y.isItem <;> cases (currentLine page ts).any Part.inks <;>
          simp [hinks, hx, Line.begun]
    | false =>
        cases hends : x.ends with
        | true =>
            cases (currentLine page ts).any fun y => y.inks && !y.isItem <;> cases (currentLine page ts).any Part.inks <;>
              simp [Line.pass, Part.shape, hends]
        | false =>
            rw [if_neg Bool.false_ne_true, if_neg Bool.false_ne_true, List.any_append, List.any_append]
            cases (currentLine page ts).any fun y => y.inks && !y.isItem <;> cases (currentLine page ts).any Part.inks <;>
              cases hinks : x.inks <;> simp [Line.pass, Part.shape, hends, hinks, hx]

theorem begun_lineAfter (page : Bool) (ts : List Part) :
    (lineAfter page ts).begun = false ↔ ∀ y ∈ currentLine page ts, y.inks = true → y.isItem = true := by
  have hany : ((currentLine page ts).any fun y => y.inks && !y.isItem) = false ↔
      ∀ y ∈ currentLine page ts, y.inks = true → y.isItem = true := by
    simp
  rw [← hany, lineAfter]
  by_cases hfirst : page = true ∧ started ts = []
  · have hnil : currentLine page ts = [] := by
      rw [currentLine, hfirst.1, hfirst.2]
      rfl
    rw [if_pos hfirst, hnil]
    exact iff_of_true rfl rfl
  · rw [if_neg hfirst]
    cases (currentLine page ts).any fun y => y.inks && !y.isItem with
    | true => exact iff_of_false Bool.noConfusion Bool.noConfusion
    | false =>
        rw [if_neg Bool.false_ne_true]
        split <;> exact iff_of_true rfl rfl

/-- What is inside a part is tidy. -/
structure Part.Inner (e : Option Path) (x : Part) : Prop where
  bodies : ∀ body ∈ x.bodies, OnNewLines false body
  pres : ∀ p blocks, .pre p blocks ∈ x.leaves → (p.scan e).tidy = true

/-- The scanner passes over a part. -/
def Passes (e : Option Path) (x : Part) : Prop :=
  ∀ s, ((lineScanner e).scanAll x.ops s).line = s.line.part x ∧
    (((lineScanner e).scanAll x.ops s).tidy = true ↔
      s.tidy = true ∧ (x.opens = true → s.line.begun = false) ∧ x.Inner e)

theorem scan_parts (page : Bool) {ts : List Part} (hts : ∀ x ∈ ts, Passes e x) :
    let s := (lineScanner e).scanAll (opsAll ts) ⟨if page then .blank else .clear, true⟩
    s.line = lineAfter page ts ∧ (s.tidy = true ↔ OnNewLines page ts ∧ ∀ x ∈ ts, x.Inner e) := by
  induction ts using List.reverseRecOn with
  | nil =>
      refine ⟨?_, iff_of_true rfl ⟨atEach_nil, fun _ hx => (nomatch hx)⟩⟩
      cases page <;> rfl
  | append_singleton ts x ih =>
      obtain ⟨hline, htidy⟩ := ih fun y hy => hts y (List.mem_append_left [x] hy)
      obtain ⟨hline', htidy'⟩ := hts x (by simp) ((lineScanner e).scanAll (opsAll ts) ⟨if page then .blank else .clear, true⟩)
      rw [opsAll_append, opsAll_singleton, scanAll_append]
      constructor
      · rw [hline', hline, lineAfter_concat]
      · have hsnoc : OnNewLines page (ts ++ [x]) ↔ OnNewLines page ts ∧
            (x.opens = true → ∀ y ∈ currentLine page ts, y.inks = true → y.isItem = true) := atEach_snoc
        rw [htidy', htidy, hline, begun_lineAfter, hsnoc]
        simp only [List.mem_append, List.mem_singleton, or_imp, forall_and, forall_eq]
        tauto

theorem mem_bodiesAll {ts : List Part} {body : List Part} : body ∈ bodiesAll ts ↔ ∃ x ∈ ts, body ∈ x.bodies := by
  induction ts with
  | nil => simp [bodiesAll]
  | cons x ts ih => rw [bodiesAll, List.mem_append, ih, List.exists_mem_cons_iff]

theorem mem_leavesAll {ts : List Part} {y : Part} : y ∈ leavesAll ts ↔ ∃ x ∈ ts, y ∈ x.leaves := by
  induction ts with
  | nil => simp [leavesAll]
  | cons x ts ih => rw [leavesAll, List.mem_append, ih, List.exists_mem_cons_iff]

theorem inner_all {ts : List Part} : (∀ x ∈ ts, x.Inner e) ↔
    (∀ body ∈ bodiesAll ts, OnNewLines false body) ∧ ∀ p blocks, .pre p blocks ∈ leavesAll ts → (p.scan e).tidy = true := by
  constructor
  · intro h
    refine ⟨fun body hbody => ?_, fun p blocks hp => ?_⟩
    · obtain ⟨x, hx, hbody⟩ := mem_bodiesAll.mp hbody
      exact (h x hx).bodies body hbody
    · obtain ⟨x, hx, hp⟩ := mem_leavesAll.mp hp
      exact (h x hx).pres p blocks hp
  · rintro ⟨hbodies, hpres⟩ x hx
    exact ⟨fun body hbody => hbodies body (mem_bodiesAll.mpr ⟨x, hx, hbody⟩),
      fun p blocks hp => hpres p blocks (mem_leavesAll.mpr ⟨x, hx, hp⟩)⟩

/-- The texts outside of preformatted blocks are not below the element. -/
def Part.Free (e : Option Path) (x : Part) : Prop :=
  ∀ node t, .text node t ∈ x.leaves ∨ .code node t ∈ x.leaves → below e (.text node) = false

/-- A part with nothing inside. -/
theorem Passed.passes {x : Part} (hleaves : x.leaves = [x]) (hbodies : x.bodies = []) (hpre : ∀ p blocks, x ≠ .pre p blocks)
    (h : ∀ s, Passed e s x ((lineScanner e).scanAll x.ops s)) : Passes e x := by
  have hinner : x.Inner e := by
    constructor
    · rw [hbodies]
      exact fun _ hbody => (nomatch hbody)
    · rw [hleaves]
      exact fun p blocks hp => absurd (List.mem_singleton.mp hp).symm (hpre p blocks)
  intro s
  refine ⟨(h s).line, ?_⟩
  rw [(h s).tidy]
  simp [hinner]

theorem passes_quote {body : List Part} (hbody : ∀ y ∈ body, Passes e y) : Passes e (.quote body) := by
  have hinner : (Part.quote body).Inner e ↔ OnNewLines false body ∧ ∀ y ∈ body, y.Inner e := by
    rw [inner_all]
    constructor
    · intro h
      exact ⟨h.bodies body List.mem_cons_self, fun b hb => h.bodies b (List.mem_cons_of_mem body hb), h.pres⟩
    · rintro ⟨hlines, hbodies, hpres⟩
      refine ⟨fun b hb => ?_, hpres⟩
      rcases List.mem_cons.mp hb with rfl | hb
      · exact hlines
      · exact hbodies b hb
  obtain ⟨-, htidy⟩ := scan_parts false hbody
  intro s
  show (if (opsAll body).any Op.writes then (lineScanner e).quote s _ else (lineScanner e).step s newline).line = _ ∧
    ((if (opsAll body).any Op.writes then (lineScanner e).quote s _ else (lineScanner e).step s newline).tidy = true ↔ _)
  rw [hinner, ← htidy]
  have hshape : Part.shape (.quote body) = ⟨true, false, body.any Part.writes, true⟩ := rfl
  have hopens : Part.opens (.quote body) = body.any Part.writes := rfl
  have hpart : s.line.part (.quote body) = s.line.pass ⟨true, false, body.any Part.writes, true⟩ := rfl
  rw [hpart, hopens, ← any_writes_opsAll]
  cases hwrites : (opsAll body).any Op.writes with
  | true =>
      constructor
      · show Line.clear = _
        cases s.line <;> rfl
      · show (s.tidy && ((lineScanner e).scanAll (opsAll body) (lineScanner e).inner).tidy && !s.line.begun) = true ↔ _
        rw [Bool.and_eq_true, Bool.and_eq_true, Bool.not_eq_true']
        simp only [lineScanner]
        tauto
  | false =>
      -- nothing is written of it
      have hstate : (lineScanner e).scanAll (opsAll body) ⟨.clear, true⟩ = ⟨.clear, true⟩ := by
        have hread := scanAll_eq_foldl (lineScanner_lawful e) (opsAll body) [] ⟨.clear, true⟩
        rwa [(runAll_eq_nil_iff _).mpr hwrites] at hread
      rw [if_neg Bool.false_ne_true, if_neg Bool.false_ne_true, newline, lineStep_newline, hstate]
      refine ⟨?_, by simp⟩
      cases s.line <;> rfl

/-- **The scanner passes over every part.** -/
theorem passes {x : Part} (hfree : x.Free e) : Passes e x := by
  induction x using Part.induct with
  | step x ih =>
      cases x with
      | text node t =>
          have hnode := hfree node t (.inl List.mem_cons_self)
          exact Passed.passes rfl rfl (fun _ _ => Part.noConfusion) (passed_text rfl rfl rfl (List.append_nil _) hnode)
      | code node t =>
          have hnode := hfree node t (.inr List.mem_cons_self)
          exact Passed.passes rfl rfl (fun _ _ => Part.noConfusion) (passed_text rfl rfl rfl (List.append_nil _) hnode)
      | start name attrs => exact Passed.passes rfl rfl (fun _ _ => Part.noConfusion) (passed_start name attrs)
      | stop name attrs => exact Passed.passes rfl rfl (fun _ _ => Part.noConfusion) (passed_stop name attrs)
      | item it => exact Passed.passes rfl rfl (fun _ _ => Part.noConfusion) (passed_item it)
      | itemEnd =>
          apply Passed.passes rfl rfl (fun _ _ => Part.noConfusion)
          apply passed_plain (x := .itemEnd) rfl rfl rfl
          intro y hy
          rw [List.mem_singleton.mp hy]
          exact ⟨rfl, rfl, rfl⟩
      | void name attrs => exact Passed.passes rfl rfl (fun _ _ => Part.noConfusion) (passed_void name attrs)
      | pre p blocks =>
          intro s
          obtain ⟨hline, htidy⟩ := passed_pre (e := e) p blocks s
          refine ⟨hline, ?_⟩
          have hinner : (Part.pre p blocks).Inner e ↔ (p.scan e).tidy = true := by
            constructor
            · exact fun h => h.pres p blocks List.mem_cons_self
            · intro h
              refine ⟨fun _ hbody => (nomatch hbody), fun q blocks' hq => ?_⟩
              rw [(Part.pre.inj (List.mem_singleton.mp hq)).1]
              exact h
          rw [htidy, hinner]
          simp [Part.opens]
      | quote body =>
          apply passes_quote
          intro y hy
          apply ih body rfl y hy
          intro node t hleaf
          exact hfree node t (hleaf.imp (fun h => mem_leavesAll.mpr ⟨y, hy, h⟩) fun h => mem_leavesAll.mpr ⟨y, hy, h⟩)

theorem tidy_iff {doc : List Node} (hfree : ∀ x ∈ pageParts doc, x.Free e) :
    Tidy e doc ↔ OnNewLines true (pageParts doc) ∧ (∀ body ∈ bodiesAll (pageParts doc), OnNewLines false body) ∧
      ∀ p blocks, .pre p blocks ∈ leavesAll (pageParts doc) → (p.scan e).tidy = true := by
  obtain ⟨-, htidy⟩ := scan_parts true fun x hx => passes (hfree x hx)
  rw [Tidy, pageLayout_eq_opsAll, ← inner_all]
  exact htidy

/-! ## The blocks of the output -/

/-- Texts that are not below the element do no harm to it. -/
theorem tidy_scan_of_not_below {p : Pre} (h : ∀ t ∈ p.texts, below e (.text t.1) = false) : (p.scan e).tidy = true := by
  rw [Pre.scan, tidy_read]
  intro y hy
  obtain ⟨t, ht, hy⟩ := List.mem_flatMap.mp hy
  rw [opensBlock, origin_of_mem_ofText hy]
  exact ⟨rfl, h t ht⟩

theorem tidy_none_iff (doc : List Node) :
    Tidy none doc ↔ OnNewLines true (pageParts doc) ∧ ∀ body ∈ bodiesAll (pageParts doc), OnNewLines false body := by
  have hscan : ∀ p blocks, .pre p blocks ∈ leavesAll (pageParts doc) → (p.scan none).tidy = true :=
    fun p _ _ => tidy_scan_of_not_below fun _ _ => rfl
  rw [tidy_iff fun x _ node t _ => rfl]
  simp only [and_iff_left hscan]

/-- An element in a preformatted block is above no text outside of it. -/
theorem tidy_some_iff {doc : List Node} {p : Pre} {e : Path} (h : Embeds doc p e) :
    Tidy (some e) doc ↔ OnNewLines true (pageParts doc) ∧
      (∀ body ∈ bodiesAll (pageParts doc), OnNewLines false body) ∧ p.Begins e := by
  obtain ⟨blocks, hp, he⟩ := h
  have hordered := ordered_pageParts doc
  obtain ⟨x, cs, hx, htexts, rfl⟩ := hordered.whole p blocks hp
  have hbelow : p.node <:+ e := suffix_of_mem_markedBelow (n := .other cs) he
  have hrun : Run e p.texts := by
    rw [htexts]
    exact run_verbatim (.other cs) x e
  -- a node below the element is below the block, and so is at no other leaf of the page
  have hother {y : Part} {m n : Path} (hy : y ∈ leavesAll (pageParts doc)) (hne : y ≠ .pre p (markedBelowAll p.node 0 cs))
      (hm : y.spot? = some m) (hn : m <:+ n) : ¬ e <:+ n := by
    intro hen
    have hunrelated := hordered.unrelated.forall hy hp hne m hm p.node rfl
    rcases List.suffix_or_suffix_of_suffix hn (hbelow.trans hen) with hmp | hpm
    · exact hunrelated.1 hmp
    · exact hunrelated.2 hpm
  have hfree : ∀ y ∈ pageParts doc, y.Free (some e) := by
    intro y hy node t hleaf
    apply decide_eq_false
    rcases hleaf with hleaf | hleaf
    · exact hother (mem_leavesAll.mpr ⟨y, hy, hleaf⟩) Part.noConfusion rfl (List.suffix_refl _)
    · exact hother (mem_leavesAll.mpr ⟨y, hy, hleaf⟩) Part.noConfusion rfl (List.suffix_refl _)
  have hpres : (∀ q blocks, .pre q blocks ∈ leavesAll (pageParts doc) → (q.scan (some e)).tidy = true) ↔ p.Begins e := by
    rw [← tidy_scan_iff hrun]
    constructor
    · exact fun h => h p _ hp
    · intro h q blocks hq
      by_cases hsame : Part.pre q blocks = .pre p (markedBelowAll p.node 0 cs)
      · rw [(Part.pre.inj hsame).1]
        exact h
      · apply tidy_scan_of_not_below
        intro t ht
        obtain ⟨y, ds, hnode, hq', -⟩ := hordered.whole q blocks hq
        rw [hq'] at ht
        have hsuffix := suffix_of_mem_verbatim (n := .other ds) ht
        rw [hnode] at hsuffix
        exact decide_eq_false (hother hq hsame rfl hsuffix)
  rw [tidy_iff hfree, hpres]

theorem blocksLead_iff (doc : List Node) : BlocksLead doc (output doc) ↔ BlocksBegin doc := by
  have hnone : MarkersLead (output doc) ↔
      OnNewLines true (pageParts doc) ∧ ∀ body ∈ bodiesAll (pageParts doc), OnNewLines false body := by
    rw [← tidy_none_iff, ← leads_output, and_iff_left (textLeads_none (output doc))]
  have hsome {p : Pre} {e : Path} (h : Embeds doc p e) := (leads_output (some e) doc).trans (tidy_some_iff h)
  constructor
  · rintro ⟨hmarkers, htexts⟩
    obtain ⟨hpage, hquotations⟩ := hnone.mp hmarkers
    exact ⟨hpage, hquotations, fun p e h => ((hsome h).mp ⟨hmarkers, htexts p e h⟩).2.2⟩
  · rintro ⟨hpage, hquotations, hembedded⟩
    exact ⟨hnone.mpr ⟨hpage, hquotations⟩, fun p e h => ((hsome h).mpr ⟨hpage, hquotations, hembedded p e h⟩).2⟩

/-- **The rendering of every block begins where only marks of lists and quotations stand before it on its line, exactly if
    the block comes where a line is new**: on the page or in a quotation, after a part that ends the line, with nothing
    since but the beginnings of list items; in a preformatted block, at the beginning of a line of the text. -/
theorem block_markers_iff (doc : List Node) :
    domToMarkdownDoc reference doc = .ok (erase (output doc)) ∧ (BlocksLead doc (output doc) ↔ BlocksBegin doc) :=
  ⟨domToMarkdownDoc_eq_output doc, blocksLead_iff doc⟩

/-- A heading after text, in one `div`. -/
def headingAfterText : List Node := [.elem "div" [] [.text "intro", .elem "h2" [] [.text "T"]]]

theorem heading_glued :
    domToMarkdownDoc reference headingAfterText = .ok "intro## T" ∧ ¬ BlocksLead headingAfterText (output headingAfterText) := by
  constructor
  · decide
  · rintro ⟨hmarkers, -⟩
    have htidy : Tidy none headingAfterText := (leads_output none _).mp ⟨hmarkers, textLeads_none _⟩
    exact absurd htidy (by decide)

end Scrape
end McpWebSearch
