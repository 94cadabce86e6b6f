import McpWebSearch.Lib.Fences
import McpWebSearch.Lib.History
import McpWebSearch.Correctness.ListItems

/-!
# `Correctness.Preformatted` — the fenced blocks of preformatted text

The text of a `pre` element is copied between two fences, and again no arm makes sure that the first one begins a line;
besides, the text may hold fences, and the clean-up at the end drops newlines in it as everywhere. `fenceScanner` follows
where lines begin and whether a fenced block is open, and finds the fence of one element. `fenced_blocks_iff`: each `pre`
outside of quotations has its fenced block in the output exactly if its fence is `Opened` and its text `Survives`; and on the tree
a fence is opened where the line is new and no block is open (`opened_iff`).
-/

namespace McpWebSearch
namespace Scrape

open Utf8 Dom Traced Fences Scanner

/-! ## The preformatted blocks of a page -/

mutual

/-- The `pre` elements outside of block quotations, with the text nodes in them. -/
def preBlocks (x : Spot) : Node → List Pre
  | .text _ => []
  | .other cs => preBlocksAll x 0 1 cs
  | .elem name _ cs =>
      if oneOf name ["blockquote"] then []
      else
        (if oneOf name ["pre"] then [⟨x.node, x.quoted, verbatimAll (x.inside name) 0 cs⟩] else []) ++
          preBlocksAll (x.inside name) 0 1 cs

def preBlocksAll (x : Spot) (i number : Nat) : List Node → List Pre
  | [] => []
  | c :: cs => preBlocks (x.child i number) c ++ preBlocksAll x (i + 1) (number + elementCount c) cs

end

/-- The preformatted blocks of a document. -/
def pagePres (doc : List Node) : List Pre := preBlocksAll Spot.root 0 1 doc

/-- The fence of a `pre` opens a fenced block, and that holds its text and one more newline at most. -/
def HasBlock (out : Buffer) (p : Pre) : Prop :=
  ∃ before opening content rest, out = before ++ (opening ++ (content ++ rest)) ∧
    -- a line begins, and no block is open
    EndsLine (erase before) ∧ Closed (erase before) ∧
    -- the line that opens the block is the fence of the element
    opening.head? = some ('`', .fence p) ∧ isFence (erase opening) = true ∧
    (∃ info, '\n' ∉ info ∧ erase opening = info ++ ['\n']) ∧
    -- up to the next fence
    EndsLine (erase content) ∧ fences (erase content) = 0 ∧ isFence (erase rest) = true ∧
    (erase content = p.content ∨ erase content = p.content ++ ['\n'])

/-- A text with no newlines that the clean-up drops, right after a fence, and no line that is a fence. -/
def Survives (t : Text) : Prop := ¬ "\n\n".toList <+: t ∧ ¬ "\n\n\n".toList <:+: t ∧ fences t = 0

instance (t : Text) : Decidable (Survives t) := inferInstanceAs (Decidable (_ ∧ _))

/-! ## The scanner -/

/-- Where a line is. -/
inductive LinePos
  | opening             -- nothing but white space is written
  | ticks (n : Nat)     -- the line consists of at most two backticks
  | within
  deriving DecidableEq

namespace LinePos

def next : LinePos → Char → LinePos
  | .opening, c => if isWhitespace c then .opening else if c = '`' then .ticks 1 else .within
  | .ticks n, c =>
      if c = '\n' then .ticks 0 else if c = '`' then (if n < 2 then .ticks (n + 1) else .within) else .within
  | .within, c => if c = '\n' then .ticks 0 else .within

def newLine : LinePos → LinePos
  | .opening => .opening
  | .ticks _ | .within => .ticks 0

end LinePos

structure FenceState where
  pos : LinePos
  inside : Bool       -- whether a fenced block is open
  found : Bool        -- whether the fence of the element has opened one

def fenceScanner (p : Pre) : Scanner FenceState where
  step s x :=
    { pos := s.pos.next x.1
      inside := s.inside ^^ (s.pos == .ticks 2 && x.1 == '`')
      found := s.found || (x == ('`', .fence p) && ((s.pos == .opening || s.pos == .ticks 0) && !s.inside)) }
  start := ⟨.opening, false, false⟩
  inner := ⟨.within, false, false⟩
  quote s _ := { s with pos := .ticks 0 }

/-- The fence of the element is written when a line begins and no block is open. -/
def Opened (doc : List Node) (p : Pre) : Prop :=
  ((fenceScanner p).scanAll (pageLayout doc) (fenceScanner p).start).found = true

instance (doc : List Node) (p : Pre) : Decidable (Opened doc p) := inferInstanceAs (Decidable (_ = _))

/-- A character that is no backtick. -/
theorem fenceStep_other {p : Pre} {s : FenceState} {x : Char × Origin} (hx : x.1 ≠ '`') :
    (fenceScanner p).step s x = { s with pos := s.pos.next x.1 } := by
  have htick : (x.1 == '`') = false := beq_eq_false_iff_ne.mpr hx
  have hfence : (x == ('`', Origin.fence p)) = false := by
    apply beq_eq_false_iff_ne.mpr
    rintro rfl
    exact hx rfl
  show FenceState.mk _ (s.inside ^^ (_ && (x.1 == '`'))) (s.found || ((x == _) && _)) = _
  rw [htick, hfence, Bool.and_false, Bool.xor_false, Bool.false_and, Bool.or_false]

theorem ne_tick_of_blank {x : Char × Origin} (hx : blank x = true) : x.1 ≠ '`' := by
  intro h
  rw [blank, h] at hx
  exact absurd hx (by decide)

/-- White space at the opening is passed over. -/
theorem fenceStep_start (p : Pre) {x : Char × Origin} (hx : blank x = true) :
    (fenceScanner p).step (fenceScanner p).start x = (fenceScanner p).start := by
  rw [fenceStep_other (ne_tick_of_blank hx)]
  exact congrArg (fun l => FenceState.mk l false false) (if_pos hx)

theorem LinePos.next_newline (l : LinePos) : l.next '\n' = l.newLine := by cases l <;> rfl

theorem fenceStep_newline (p : Pre) (s : FenceState) (o : Origin) :
    (fenceScanner p).step s ('\n', o) = { s with pos := s.pos.newLine } := by
  rw [fenceStep_other (by decide : ('\n' : Char) ≠ '`')]
  exact congrArg (fun l => FenceState.mk l s.inside s.found) (LinePos.next_newline s.pos)

theorem LinePos.newLine_newLine (l : LinePos) : l.newLine.newLine = l.newLine := by cases l <;> rfl

theorem LinePos.next_return (l : LinePos) : (l.next '\r').newLine = l.newLine := by cases l <;> rfl

/-- In a line that does not begin with backticks. -/
theorem fenceStep_within (p : Pre) (s : FenceState) (x : Char × Origin) :
    (fenceScanner p).step { s with pos := .within } x =
      { s with pos := if x.1 == '\n' then .ticks 0 else .within } := by
  show FenceState.mk (if x.1 = '\n' then .ticks 0 else .within) (s.inside ^^ (false && _)) (s.found || (_ && (false && _))) = _
  rw [Bool.false_and, Bool.xor_false, Bool.false_and, Bool.and_false, Bool.or_false]
  simp only [beq_iff_eq]

theorem fenceRead_mark (p : Pre) (first : Bool) (s : FenceState) :
    (fenceScanner p).read (quoteMark first) s = { s with pos := .within } := by
  show (fenceScanner p).step ((fenceScanner p).step s ('>', .quote first)) (' ', .quote false) = _
  have hmark : s.pos.next '>' = .within := by cases s.pos <;> rfl
  rw [fenceStep_other (x := ('>', .quote first)) (by decide : ('>' : Char) ≠ '`'), hmark]
  exact fenceStep_within p s (' ', .quote false)

/-- No line of a quotation is a fence. -/
theorem fenceScanner_lawful (p : Pre) : (fenceScanner p).Lawful := by
  apply Lawful.of_related
    (R := fun s start outer _ => outer = { s with pos := if start then LinePos.ticks 0 else LinePos.within })
  · intro s o o'
    rw [fenceStep_newline, fenceStep_newline]
    exact congrArg (fun l => FenceState.mk l s.inside s.found) (LinePos.newLine_newLine s.pos)
  · intro s o o'
    rw [fenceStep_other (x := ('\r', o)) (by decide : ('\r' : Char) ≠ '`'), fenceStep_newline, fenceStep_newline]
    exact congrArg (fun l => FenceState.mk l s.inside s.found) (LinePos.next_return s.pos)
  · intro s x
    rw [fenceRead_mark]
    exact fenceStep_within p s x
  · rintro s start outer inner x rfl
    cases start with
    | false => exact fenceStep_within p s x
    | true =>
        rw [if_pos rfl, if_pos rfl, fenceRead_mark]
        exact fenceStep_within p s x
  · rintro s start outer inner rfl
    rw [newline, fenceStep_newline]
    cases start <;> rfl

/-! ## What the scanner says of an output -/

/-- What the position in a line says of the text before it. -/
def LinePos.Of (t : Text) : LinePos → Prop
  | .opening => t = []
  | .ticks n => n ≤ 2 ∧ Fences.lastLine t = List.replicate n '`'
  | .within => ∀ n ≤ 2, Fences.lastLine t ≠ List.replicate n '`'

theorem fenceLine_concat (t : Text) (c : Char) :
    Fences.lastLine (t ++ [c]) = if c = '\n' then [] else Fences.lastLine t ++ [c] := by
  rw [Fences.lastLine, Seek.line_concat]
  simp only [beq_iff_eq]
  rfl

theorem of_newline (t : Text) : (LinePos.ticks 0).Of (t ++ ['\n']) := by
  refine ⟨Nat.zero_le 2, ?_⟩
  rw [fenceLine_concat, if_pos rfl]
  rfl

theorem of_other {c : Char} (hnl : c ≠ '\n') (htick : c ≠ '`') (t : Text) : LinePos.within.Of (t ++ [c]) := by
  intro n _ hline
  rw [fenceLine_concat, if_neg hnl] at hline
  apply htick
  apply List.eq_of_mem_replicate (a := '`') (n := n)
  rw [← hline]
  simp

/-- One more backtick on a line of backticks. -/
theorem of_tick {t : Text} {n : Nat} (h : (LinePos.ticks n).Of t) :
    (if n < 2 then LinePos.ticks (n + 1) else .within).Of (t ++ ['`']) := by
  have hline : Fences.lastLine (t ++ ['`']) = List.replicate (n + 1) '`' := by
    rw [fenceLine_concat, if_neg (by decide), h.2, List.replicate_succ']
  split
  · rename_i hlt
    exact ⟨hlt, hline⟩
  · rename_i hlt
    intro k hk hshort
    have hlength := congrArg List.length (hline.symm.trans hshort)
    rw [List.length_replicate, List.length_replicate] at hlength
    omega

theorem of_within {t : Text} (h : LinePos.within.Of t) {c : Char} (hnl : c ≠ '\n') : LinePos.within.Of (t ++ [c]) := by
  intro n hn hline
  rw [fenceLine_concat, if_neg hnl] at hline
  cases n with
  | zero => exact absurd hline (by simp)
  | succ n =>
      rw [List.replicate_succ'] at hline
      exact h n (by omega) (List.append_inj' hline rfl).1

theorem of_next {t : Text} {l : LinePos} (h : l.Of t) {c : Char} (hc : t = [] → isWhitespace c = false) :
    (l.next c).Of (t ++ [c]) := by
  by_cases hnl : c = '\n'
  · subst hnl
    cases l with
    | opening => exact absurd (hc h) (by decide)
    | ticks n => exact of_newline t
    | within => exact of_newline t
  · cases l with
    | opening =>
        obtain rfl : t = [] := h
        rw [LinePos.next, hc rfl, if_neg Bool.false_ne_true]
        split
        · rename_i htick
          rw [htick]
          exact ⟨by decide, rfl⟩
        · rename_i htick
          exact of_other hnl htick []
    | ticks n =>
        rw [LinePos.next, if_neg hnl]
        split
        · rename_i htick
          rw [htick]
          exact of_tick h
        · rename_i htick
          exact of_other hnl htick t
    | within =>
        rw [LinePos.next, if_neg hnl]
        exact of_within h hnl

/-- The fence of an element stands at the beginning of a line, where no block is open. -/
def FenceAt (p : Pre) (before : Buffer) (x : Char × Origin) : Prop :=
  x = ('`', .fence p) ∧ EndsLine (erase before) ∧ Closed (erase before)

theorem third_iff {t : Text} {l : LinePos} (h : l.Of t) : l = .ticks 2 ↔ Fences.lastLine t = "``".toList := by
  cases l with
  | opening =>
      obtain rfl : t = [] := h
      exact iff_of_false LinePos.noConfusion (by decide)
  | ticks n =>
      constructor
      · rintro h'
        rw [h.2, LinePos.ticks.inj h']
        rfl
      · intro hline
        have hlength := congrArg List.length (h.2.symm.trans hline)
        rw [List.length_replicate] at hlength
        exact congrArg LinePos.ticks hlength
  | within =>
      apply iff_of_false LinePos.noConfusion
      exact h 2 (Nat.le_refl 2)

theorem fresh_iff {t : Text} {l : LinePos} (h : l.Of t) : l = .opening ∨ l = .ticks 0 ↔ EndsLine t := by
  rw [endsLine_iff]
  cases l with
  | opening =>
      obtain rfl : t = [] := h
      exact iff_of_true (.inl rfl) rfl
  | ticks n =>
      rw [h.2, List.replicate_eq_nil_iff]
      simp
  | within =>
      apply iff_of_false
      · rintro (h | h) <;> cases h
      · exact h 0 (Nat.zero_le 2)

/-- Where the line is, whether a block is open, and whether the fence was there. -/
theorem read_fences (p : Pre) {b : Buffer} (hb : ∀ x, b.head? = some x → blank x = false) :
    let s := (fenceScanner p).read b (fenceScanner p).start
    s.pos.Of (erase b) ∧ (s.inside = false ↔ Closed (erase b)) ∧
      (s.found = false ↔ History.AtEach (fun before x => ¬ FenceAt p before x) b) := by
  apply History.snoc_induction (p := fun x => blank x = false) (Q := fun b =>
    ((fenceScanner p).read b (fenceScanner p).start).pos.Of (erase b) ∧
      (((fenceScanner p).read b (fenceScanner p).start).inside = false ↔ Closed (erase b)) ∧
      (((fenceScanner p).read b (fenceScanner p).start).found = false ↔
        History.AtEach (fun before x => ¬ FenceAt p before x) b)) _ _ hb
  · exact ⟨rfl, iff_of_true rfl rfl, iff_of_true rfl History.atEach_nil⟩
  · rintro b x hx ⟨hpos, hinside, hfound⟩
    rw [read_concat]
    generalize (fenceScanner p).read b (fenceScanner p).start = s at hpos hinside hfound
    refine ⟨?_, ?_, ?_⟩
    · rw [erase_append]
      exact of_next hpos (c := x.1) fun hnil => hx (List.map_eq_nil_iff.mp hnil)
    · have htoggle : (s.pos == .ticks 2 && x.1 == '`') = true ↔
          Fences.lastLine (erase b) = "``".toList ∧ x.1 = '`' := by
        rw [Bool.and_eq_true, beq_iff_eq, beq_iff_eq, third_iff hpos]
      show (s.inside ^^ (s.pos == .ticks 2 && x.1 == '`')) = false ↔ _
      rw [erase_append]
      show _ ↔ Closed (erase b ++ [x.1])
      rw [closed_concat, ← htoggle, ← hinside]
      cases s.inside <;> cases (s.pos == .ticks 2 && x.1 == '`') <;> simp
    · show (s.found || (x == ('`', Origin.fence p) && ((s.pos == .opening || s.pos == .ticks 0) && !s.inside))) = false ↔ _
      rw [History.atEach_snoc, ← hfound, Bool.or_eq_false_iff]
      apply and_congr_right'
      rw [FenceAt, ← fresh_iff hpos, ← hinside, ← Bool.not_eq_true, not_iff_not]
      simp only [Bool.and_eq_true, Bool.or_eq_true, beq_iff_eq, Bool.not_eq_true']

theorem fenceAt_output (doc : List Node) (p : Pre) :
    (∃ before after, output doc = before ++ ('`', .fence p) :: after ∧ EndsLine (erase before) ∧ Closed (erase before)) ↔
      Opened doc p := by
  have haccept : Opened doc p ↔ ((fenceScanner p).read (output doc) (fenceScanner p).start).found = true := by
    apply accept_output (fenceScanner_lawful p) (fun s => s.found = true)
    · intro x hx
      exact fenceStep_start p hx
    · intro s x hx
      rw [fenceStep_other (ne_tick_of_blank hx)]
  rw [haccept]
  rw [← not_iff_not, Bool.not_eq_true, (read_fences p (b := output doc) fun x hx => head_trim hx).2.2]
  constructor
  · rintro h before x after hout ⟨rfl, hfence⟩
    exact h ⟨before, after, hout, hfence⟩
  · rintro h ⟨before, after, hout, hfence⟩
    exact h before _ after hout ⟨rfl, hfence⟩

/-! ## What follows a fence -/

/-- Something is written on the last line. -/
def Begun (b : Buffer) : Prop := ∃ y ∈ lastLine b, blank y = false

/-- After the first character of a fence the rest of the block is written, if the fence begins a line. -/
def FencesComplete (b : Buffer) : Prop :=
  ∀ a p r, b = a ++ ('`', .fence p) :: r → Begun a ∨ ∃ w, r = p.fenced ++ w

theorem append_eq_split {b w a r : Buffer} {x : Char × Origin} (h : b ++ w = a ++ x :: r) :
    (∃ r', b = a ++ x :: r' ∧ r = r' ++ w) ∨ ∃ a', a = b ++ a' ∧ w = a' ++ x :: r := by
  rcases List.append_eq_append_iff.mp h with ⟨a', ha, hw⟩ | ⟨r', hb, hr⟩
  · exact .inr ⟨a', ha, hw⟩
  · cases r' with
    | nil => exact .inr ⟨[], by rw [hb, List.append_nil, List.append_nil], hr.symm⟩
    | cons y r' =>
        obtain ⟨rfl, htail⟩ := List.cons.inj hr
        exact .inl ⟨r', hb, htail⟩

theorem FencesComplete.append {b w : Buffer} (hb : FencesComplete b)
    (hw : ∀ a p r, w = a ++ ('`', .fence p) :: r → Begun (b ++ a) ∨ ∃ w', r = p.fenced ++ w') :
    FencesComplete (b ++ w) := by
  intro a p r h
  rcases append_eq_split h with ⟨r', hb', rfl⟩ | ⟨a', rfl, hw'⟩
  · rcases hb a p r' hb' with hbegun | ⟨w', rfl⟩
    · exact .inl hbegun
    · exact .inr ⟨w' ++ w, List.append_assoc _ w' w⟩
  · exact hw a' p r hw'

theorem fenced_of_traced {w : Writing} {a r : Buffer} {p : Pre} (h : w.traced = a ++ ('`', .fence p) :: r) :
    r = p.fenced := by
  have hmem : ('`', Origin.fence p) ∈ w.traced := by
    rw [h]
    simp
  have hplain {o : Origin} {t : Text} (ho : o ≠ .fence p) (hx : ('`', Origin.fence p) ∈ ofText o t) : False :=
    ho (origin_of_mem_ofText hx).symm
  cases w with
  | plain t => exact (hplain Origin.noConfusion hmem).elim
  | marker t =>
      cases t with
      | nil => cases hmem
      | cons c t =>
          rcases List.mem_cons.mp hmem with hx | hx
          · cases hx
          · exact (hplain Origin.noConfusion hx).elim
  | item it => exact (hplain Origin.noConfusion hmem).elim
  | text node t => exact (hplain Origin.noConfusion hmem).elim
  | pre q =>
      cases a with
      | nil =>
          obtain ⟨hq, hr⟩ := List.cons.inj h
          rw [← hr, Origin.fence.inj (congrArg Prod.snd hq)]
      | cons y a =>
          have hx : ('`', Origin.fence p) ∈ q.fenced := by
            rw [(List.cons.inj h).2]
            simp
          rcases origin_fenced hx with horigin | ⟨node, horigin⟩
          · cases horigin
          · cases horigin

/-- In a quotation a line begins with its mark. -/
theorem begun_quoteFrom {first start : Bool} {b a r pre : Buffer} {x : Char × Origin} (hx : x.1 = '`')
    (h : quoteFrom first start b = a ++ x :: r) (hstart : start = false → Begun pre) : Begun (pre ++ a) := by
  induction b generalizing first start a pre with
  | nil =>
      rw [quoteFrom] at h
      cases start with
      | true => exact absurd h.symm (List.append_ne_nil_of_right_ne_nil a (List.cons_ne_nil x r))
      | false =>
          have hmem : x ∈ [newline] := by
            rw [if_neg Bool.false_ne_true] at h
            rw [h]
            simp
          rw [List.mem_singleton.mp hmem] at hx
          cases hx
  | cons c b ih =>
      rw [quoteFrom] at h
      have hmark : Begun (pre ++ if start then quoteMark first else []) := by
        cases start with
        | false =>
            rw [if_neg Bool.false_ne_true, List.append_nil]
            exact hstart rfl
        | true =>
            refine ⟨('>', .quote first), Seek.mem_line_append ?_, rfl⟩
            cases first <;> decide
      rcases append_eq_split h with ⟨r', hmarks, -⟩ | ⟨a', rfl, hrest⟩
      · -- the character is none of a mark
        exfalso
        cases start with
        | false => exact absurd hmarks.symm (List.append_ne_nil_of_right_ne_nil a (List.cons_ne_nil x r'))
        | true =>
            have hmem : x ∈ quoteMark first := by
              rw [if_pos rfl] at hmarks
              rw [hmarks]
              simp
            rcases List.mem_cons.mp hmem with rfl | hmem
            · cases hx
            · rw [List.mem_singleton.mp hmem] at hx
              cases hx
      · rw [← List.append_assoc]
        cases a' with
        | nil =>
            rw [List.append_nil]
            exact hmark
        | cons d a' =>
            obtain ⟨rfl, htail⟩ := List.cons.inj hrest
            have hnext : (c.1 == '\n') = false → Begun (pre ++ (if start then quoteMark first else []) ++ [c]) := by
              intro hc
              obtain ⟨y, hy, hblank⟩ := hmark
              refine ⟨y, ?_, hblank⟩
              rw [lastLine_concat, if_neg (beq_eq_false_iff_ne.mp hc)]
              exact List.mem_append_left _ hy
            have h := ih htail hnext
            rwa [List.append_assoc, List.singleton_append] at h

theorem fencesComplete_run (op : Op) {b : Buffer} (hb : FencesComplete b) : FencesComplete (op.run b) := by
  have hnewline {b : Buffer} (hb : FencesComplete b) : FencesComplete (b ++ [newline]) := by
    apply hb.append
    intro a p r h
    have hmem : ('`', Origin.fence p) ∈ [newline] := by
      rw [h]
      simp
    cases List.mem_singleton.mp hmem
  cases op with
  | put w =>
      apply hb.append
      intro a p r h
      exact .inr ⟨[], by rw [List.append_nil, fenced_of_traced h]⟩
  | endLine =>
      rw [Op.run, closeLine]
      split
      · exact hb
      · exact hnewline hb
  | quote body =>
      rw [Op.run, ← List.append_assoc]
      apply hnewline
      apply hb.append
      intro a p r h
      exact .inl (begun_quoteFrom rfl h Bool.noConfusion)

theorem fencesComplete_runAll (ops : List Op) {b : Buffer} (hb : FencesComplete b) : FencesComplete (runAll ops b) := by
  induction ops generalizing b with
  | nil => exact hb
  | cons op ops ih => exact ih (fencesComplete_run op hb)

/-- The text between the fences, after the clean-up. -/
def Pre.inner (p : Pre) : Buffer := squeezeBuffer 1 p.body

theorem read_leading (p : Pre) (a : Buffer) :
    (fenceScanner p).read (a.dropWhile blank) (fenceScanner p).start = (fenceScanner p).read a (fenceScanner p).start := by
  apply foldl_dropWhile
  intro x hx
  exact fenceStep_start p hx

/-- Where a line of the output begins, one began before the clean-up. -/
theorem not_begun (p : Pre) {a : Buffer} (h : EndsLine (erase ((squeezeBuffer 0 a).dropWhile blank))) : ¬ Begun a := by
  have hread : (fenceScanner p).read ((squeezeBuffer 0 a).dropWhile blank) (fenceScanner p).start =
      (fenceScanner p).read (a.dropWhile blank) (fenceScanner p).start := by
    rw [read_leading, read_leading, read_squeezeBuffer (fenceScanner_lawful p) fun hle => absurd hle (by omega)]
  have hcleaned := (read_fences p (b := (squeezeBuffer 0 a).dropWhile blank) fun x hx => head_dropWhile hx).1
  have hraw := (read_fences p (b := a.dropWhile blank) fun x hx => head_dropWhile hx).1
  rw [hread] at hcleaned
  have hends : EndsLine (erase (a.dropWhile blank)) := (fresh_iff hraw).mp ((fresh_iff hcleaned).mpr h)
  have hsplit : a = a.takeWhile blank ++ a.dropWhile blank := List.takeWhile_append_dropWhile.symm
  rintro ⟨y, hy, hblank⟩
  rcases List.eq_nil_or_concat (a.dropWhile blank) with hnil | ⟨init, z, hconcat⟩
  · have hmem : y ∈ a := (List.rtakeWhile_suffix _ a).subset hy
    rw [List.dropWhile_eq_nil_iff.mp hnil y hmem] at hblank
    cases hblank
  · rw [List.concat_eq_append] at hconcat
    have hz : z.1 = '\n' := by
      apply hends
      rw [hconcat, erase_append]
      exact List.getLast?_concat
    rw [hsplit, hconcat, ← List.append_assoc, lastLine_concat, if_pos hz] at hy
    cases hy

/-- What follows a fence in the output. -/
theorem fenced_output {doc : List Node} {p : Pre} {before after : Buffer}
    (hout : output doc = before ++ ('`', .fence p) :: after) (hbefore : EndsLine (erase before)) :
    ∃ z, after = ofText .plain "``\n" ++ (p.inner ++ (ofText .plain "```" ++ z)) := by
  obtain ⟨a, r, hsqueezed, rfl, rfl⟩ := exists_untrimmed hout (by rfl)
  obtain ⟨a, r, hrun, rfl, rfl⟩ := exists_unsqueezed (by decide : ('`' : Char) ≠ '\n') hsqueezed
  have hcomplete : FencesComplete (runAll (pageLayout doc) []) := by
    apply fencesComplete_runAll
    intro a p r h
    exact absurd h.symm (List.append_ne_nil_of_right_ne_nil a (List.cons_ne_nil _ r))
  rcases hcomplete a p r hrun with hbegun | ⟨w, rfl⟩
  · exact absurd hbegun (not_begun p hbefore)
  have hsqueeze : squeezeBuffer 0 (p.fenced ++ w) =
      (ofText .plain "``\n" ++ (p.inner ++ ofText .plain "``")) ++
        ('`', .plain) :: squeezeBuffer 0 (ofText .plain "\n\n" ++ w) := by
    have hfenced : p.fenced ++ w = ofText .plain "``\n" ++ (p.body ++ ('`', .plain) ::
        (ofText .plain "``\n\n" ++ w)) := by
      rw [Pre.fenced, List.append_assoc, List.append_assoc]
      rfl
    have hopen (b : Buffer) : squeezeBuffer 0 (ofText .plain "``\n" ++ b) = ofText .plain "``\n" ++ squeezeBuffer 1 b := rfl
    have hclose : squeezeBuffer 0 (ofText .plain "``\n\n" ++ w) =
        ofText .plain "``" ++ squeezeBuffer 0 (ofText .plain "\n\n" ++ w) := rfl
    rw [hfenced, hopen, squeezeBuffer_append 1 p.body _ (by decide : ('`' : Char) ≠ '\n'), hclose, Pre.inner]
    simp only [List.append_assoc]
    rfl
  refine ⟨(squeezeBuffer 0 (ofText .plain "\n\n" ++ w)).rdropWhile blank, ?_⟩
  rw [hsqueeze, rdropWhile_split (by rfl)]
  simp only [List.append_assoc]
  rfl

/-! ## The text between the fences -/

/-- The text that is put between the fences, after the clean-up. -/
def cleaned (t : Text) : Text := squeeze 1 (t ++ if t.getLast?.getD '\n' = '\n' then [] else ['\n'])

theorem erase_inner (p : Pre) : erase p.inner = cleaned p.content := by
  rw [Pre.inner, erase_squeezeBuffer, erase_body, cleaned]

theorem length_squeeze_le (n : Nat) (t : Text) : (squeeze n t).length ≤ t.length := by
  rw [squeeze_eq_keepRuns]
  exact (Runs.keepRuns_sublist t).length_le

/-- The clean-up keeps a text in which no third newline follows two. -/
theorem squeeze_eq_self_iff {n : Nat} (hn : n ≤ 2) (t : Text) :
    squeeze n t = t ↔ ¬ List.replicate (3 - n) '\n' <+: t ∧ ¬ "\n\n\n".toList <:+: t := by
  induction t generalizing n with
  | nil =>
      apply iff_of_true rfl
      rw [List.prefix_nil, List.replicate_eq_nil_iff, List.infix_nil]
      exact ⟨by omega, by decide⟩
  | cons c t ih =>
      rw [List.infix_cons_iff, squeeze]
      by_cases hc : c = '\n'
      · subst hc
        rw [if_pos rfl]
        by_cases hlast : n + 1 ≤ 2
        · have hprefix : List.replicate (3 - n) '\n' <+: '\n' :: t ↔ List.replicate (3 - (n + 1)) '\n' <+: t := by
            rw [show 3 - n = 3 - (n + 1) + 1 by omega, List.replicate_succ, List.cons_prefix_cons, and_iff_right rfl]
          have hthree (h : "\n\n\n".toList <+: '\n' :: t) : List.replicate (3 - (n + 1)) '\n' <+: t := by
            have htwo : List.replicate 2 '\n' <+: t := (List.cons_prefix_cons.mp h).2
            exact List.IsPrefix.trans (List.prefix_replicate_iff.mpr ⟨by simp, by simp⟩) htwo
          rw [if_pos hlast, List.cons_inj_right, ih hlast, hprefix]
          tauto
        · have hshort : squeeze (n + 1) t ≠ '\n' :: t := by
            intro h
            have hlength := length_squeeze_le (n + 1) t
            rw [h] at hlength
            exact absurd hlength (Nat.not_succ_le_self _)
          rw [if_neg hlast]
          apply iff_of_false hshort
          rw [show 3 - n = 1 by omega]
          exact fun h => h.1 (List.cons_prefix_cons.mpr ⟨rfl, List.nil_prefix⟩)
      · have hhead {r : Text} : ¬ '\n' :: r <+: c :: t := fun h => hc (List.cons_prefix_cons.mp h).1.symm
        have hprefix : ¬ List.replicate (3 - n) '\n' <+: c :: t := by
          rw [show 3 - n = 2 - n + 1 by omega, List.replicate_succ]
          exact hhead
        have hthree : ¬ "\n\n\n".toList <+: c :: t := hhead
        have hinfix (h : "\n\n\n".toList <+: t) : "\n\n\n".toList <:+: t := h.isInfix
        rw [if_neg hc, List.cons_inj_right, ih (Nat.zero_le 2)]
        show ¬ "\n\n\n".toList <+: t ∧ _ ↔ _
        tauto

theorem survives_iff_squeeze (t : Text) : Survives t ↔ squeeze 1 t = t ∧ fences t = 0 := by
  rw [Survives, squeeze_eq_self_iff (by decide), and_assoc]
  rfl

/-- The end of a last line is kept. -/
theorem squeeze_newline {t : Text} (n : Nat) (h : t.getLast?.getD '\n' ≠ '\n') :
    squeeze n (t ++ ['\n']) = squeeze n t ++ ['\n'] := by
  rcases List.eq_nil_or_concat t with rfl | ⟨init, c, rfl⟩
  · exact absurd rfl h
  rw [List.concat_eq_append] at h ⊢
  rw [List.getLast?_concat] at h
  have happend (r : Text) : squeeze n (init ++ c :: r) = squeeze n init ++ c :: squeeze 0 r := by
    rw [squeeze_eq_keepRuns, squeeze_eq_keepRuns, squeeze_eq_keepRuns]
    exact Runs.keepRuns_append_cons h init r
  rw [List.append_assoc, List.singleton_append, happend, happend]
  show _ = squeeze n init ++ [c] ++ ['\n']
  rw [List.append_assoc]
  rfl

theorem survives_iff (t : Text) :
    Survives t ↔ fences (cleaned t) = 0 ∧ (cleaned t = t ∨ cleaned t = t ++ ['\n']) := by
  by_cases hlast : t.getLast?.getD '\n' = '\n'
  · have hcleaned : cleaned t = squeeze 1 t := by rw [cleaned, if_pos hlast, List.append_nil]
    have hlonger : squeeze 1 t ≠ t ++ ['\n'] := by
      intro h
      have hlength := length_squeeze_le 1 t
      rw [h, List.length_append] at hlength
      exact absurd hlength (by simp)
    rw [hcleaned, survives_iff_squeeze, or_iff_left hlonger]
    constructor
    · rintro ⟨hsqueeze, hfences⟩
      rw [hsqueeze]
      exact ⟨hfences, rfl⟩
    · rintro ⟨hfences, hsqueeze⟩
      rw [hsqueeze] at hfences
      exact ⟨hsqueeze, hfences⟩
  · have hcleaned : cleaned t = squeeze 1 t ++ ['\n'] := by rw [cleaned, if_neg hlast, squeeze_newline 1 hlast]
    have hfences (t : Text) : fences (t ++ ['\n']) = fences t := by
      rw [fences_concat, if_neg fun h => absurd h.2 (by decide), Nat.add_zero]
    have hshorter : squeeze 1 t ++ ['\n'] ≠ t := by
      intro h
      apply hlast
      rw [← h, List.getLast?_concat]
      rfl
    rw [hcleaned, survives_iff_squeeze, or_iff_right hshorter, hfences, List.append_left_inj]
    constructor
    · rintro ⟨hsqueeze, hfences⟩
      rw [hsqueeze]
      exact ⟨hfences, rfl⟩
    · rintro ⟨hfences, hsqueeze⟩
      rw [hsqueeze] at hfences
      exact ⟨hsqueeze, hfences⟩

/-- The text between the fences ends with the end of a line. -/
theorem endsLine_inner (p : Pre) : EndsLine (erase p.inner) := by
  have hbody : EndsLine (erase p.body) := by
    intro c hc
    rw [erase_body] at hc
    split at hc
    · rename_i hlast
      rw [List.append_nil] at hc
      rwa [hc] at hlast
    · rw [List.getLast?_concat] at hc
      exact (Option.some.inj hc).symm
  intro c hc
  by_contra hne
  obtain ⟨x, hx, rfl⟩ : ∃ x, p.inner.getLast? = some x ∧ x.1 = c := by
    rw [erase, List.getLast?_map] at hc
    exact Option.map_eq_some_iff.mp hc
  obtain ⟨init, hinner⟩ := List.getLast?_eq_some_iff.mp hx
  obtain ⟨a, r, hsplit, -, hr⟩ := exists_unsqueezed hne hinner
  cases r with
  | nil =>
      apply hne
      apply hbody
      rw [hsplit, erase_append]
      exact List.getLast?_concat
  | cons y r =>
      rw [squeezeBuffer] at hr
      split at hr
      · cases hr
      · cases hr

/-! ## The fenced blocks -/

theorem length_cleaned_le (t : Text) : (cleaned t).length ≤ t.length + 1 := by
  have hlength := length_squeeze_le 1 (t ++ if t.getLast?.getD '\n' = '\n' then [] else ['\n'])
  rw [List.length_append] at hlength
  have hone : (if t.getLast?.getD '\n' = '\n' then [] else ['\n'] : Text).length ≤ 1 := by
    split
    · exact Nat.zero_le 1
    · exact Nat.le_refl 1
  rw [cleaned]
  omega

/-- What comes after a first line is given by the whole. -/
theorem rest_of_firstLine {i j s t : Text} (hi : '\n' ∉ i) (hj : '\n' ∉ j) (h : i ++ '\n' :: s = j ++ '\n' :: t) :
    s = t := by
  have hfirst : i ++ ['\n'] = j ++ ['\n'] := by
    rw [← Framing.firstLine_terminated s hi, h, Framing.firstLine_terminated t hj]
  rw [(List.append_inj' hfirst rfl).1] at h
  exact (List.cons.inj (List.append_cancel_left h)).2

theorem hasBlock_iff (doc : List Node) (p : Pre) : HasBlock (output doc) p ↔ Opened doc p ∧ Survives p.content := by
  rw [← fenceAt_output, survives_iff, ← erase_inner]
  constructor
  · rintro ⟨before, opening, content, rest, hout, hbefore, hclosed, hhead, -, ⟨info, hinfo, hline⟩, hends, hfences, hrest,
      hcontent⟩
    obtain ⟨o, rfl⟩ := List.head?_eq_some_iff.mp hhead
    rw [List.cons_append] at hout
    obtain ⟨z, hz⟩ := fenced_output hout hbefore
    refine ⟨⟨before, _, hout, hbefore, hclosed⟩, ?_⟩
    -- the line of the fence ends after its backticks
    have htext : erase o ++ (erase content ++ erase rest) =
        "``\n".toList ++ (erase p.inner ++ ("```".toList ++ erase z)) := by
      have h := congrArg erase hz
      simpa only [erase_append, erase_ofText] using h
    obtain ⟨i, rfl⟩ : ∃ i, info = '`' :: i := by
      cases info with
      | nil => cases (List.cons.inj hline).1
      | cons c i =>
          obtain rfl : '`' = c := (List.cons.inj hline).1
          exact ⟨i, rfl⟩
    have ho : erase o = i ++ ['\n'] := (List.cons.inj hline).2
    rw [ho, List.append_assoc] at htext
    have hrests : erase content ++ erase rest = erase p.inner ++ ("```".toList ++ erase z) :=
      rest_of_firstLine (i := i) (j := "``".toList) (fun h => hinfo (List.mem_cons_of_mem _ h)) (by decide) htext
    have hlength : (erase p.inner).length ≤ (erase content).length + 1 := by
      have hle := length_cleaned_le p.content
      rw [← erase_inner] at hle
      rcases hcontent with h | h
      · rw [h]
        exact hle
      · rw [h, List.length_append]
        omega
    have hinner := content_unique hrests hends (endsLine_inner p) hfences hrest hlength
    rw [← hinner]
    exact ⟨hfences, hcontent⟩
  · rintro ⟨⟨before, after, hout, hbefore, hclosed⟩, hfences, hcontent⟩
    obtain ⟨z, rfl⟩ := fenced_output hout hbefore
    refine ⟨before, ('`', .fence p) :: ofText .plain "``\n", p.inner, ofText .plain "```" ++ z, hout, hbefore, hclosed,
      rfl, rfl, ⟨"```".toList, by decide, rfl⟩, endsLine_inner p, hfences, ?_, hcontent⟩
    rw [erase_append, erase_ofText]
    exact isFence_append rfl (erase z)

/-! ## Where a fence opens a block, by the parts before -/

/-- What a position says of the line, backticks or not. -/
def LinePos.progress : LinePos → Progress
  | .opening => .opening
  | .ticks 0 => .fresh
  | .ticks (_ + 1) | .within => .within

theorem LinePos.progress_next (l : LinePos) (c : Char) : (l.next c).progress = l.progress.next c := by
  cases l with
  | opening =>
      rw [next]
      show _ = if isWhitespace c then Progress.opening else .within
      split
      · rfl
      · split <;> rfl
  | ticks n =>
      have hticks : (LinePos.ticks n).progress.next c = if c = '\n' then .fresh else .within := by cases n <;> rfl
      rw [hticks, next]
      split
      · rfl
      · split
        · split <;> rfl
        · rfl
  | within =>
      rw [next]
      show _ = if c = '\n' then Progress.fresh else .within
      split <;> rfl

theorem progress_read (p : Pre) (b : Buffer) (s : FenceState) :
    ((fenceScanner p).read b s).pos.progress = s.pos.progress.write (erase b) := by
  induction b generalizing s with
  | nil => rfl
  | cons x b ih =>
      rw [read_cons, ih]
      exact congrArg (Progress.write · (erase b)) (s.pos.progress_next x.1)

theorem found_read {p : Pre} {b : Buffer} (hb : ∀ x ∈ b, x.2 ≠ .fence p) (s : FenceState) :
    ((fenceScanner p).read b s).found = s.found := by
  induction b generalizing s with
  | nil => rfl
  | cons x b ih =>
      have hx : (x == ('`', Origin.fence p)) = false := by
        apply beq_eq_false_iff_ne.mpr
        rintro rfl
        exact hb _ List.mem_cons_self rfl
      rw [read_cons, ih fun y hy => hb y (List.mem_cons_of_mem x hy)]
      show (s.found || ((x == _) && _)) = s.found
      rw [hx, Bool.false_and, Bool.or_false]

/-- Only for a preformatted block its fence is written. -/
theorem origin_of_part {p : Pre} {x : Part} (hx : ∀ blocks, x ≠ .pre p blocks) : ∀ y ∈ x.traced, y.2 ≠ .fence p := by
  have hof {o : Origin} {t : Text} {y : Char × Origin} (ho : o ≠ .fence p) (hy : y ∈ ofText o t) : y.2 ≠ .fence p := by
    rw [origin_of_mem_ofText hy]
    exact ho
  have hmarkup (h : x.isMarkup = true) : ∀ y ∈ x.traced, y.2 ≠ .fence p := by
    intro y hy
    rcases origin_markup h y hy with horigin | horigin
    · rw [horigin]
      exact Origin.noConfusion
    · rw [horigin]
      exact Origin.noConfusion
  intro y hy
  cases x with
  | text node t => exact hof Origin.noConfusion (mem_traced_put hy)
  | code node t => exact hof Origin.noConfusion (mem_traced_put hy)
  | item it => exact hof Origin.noConfusion (mem_traced_put hy)
  | pre q blocks =>
      rcases List.mem_cons.mp (mem_traced_put hy) with rfl | hy
      · intro hq
        exact hx blocks (congrArg (Part.pre · blocks) (Origin.fence.inj hq))
      · rcases origin_fenced hy with horigin | ⟨node, horigin⟩
        · rw [horigin]
          exact Origin.noConfusion
        · rw [horigin]
          exact Origin.noConfusion
  | quote body => cases hy
  | _ => exact hmarkup rfl y hy

/-- The state after some parts. -/
def Pre.follow (p : Pre) (ts : List Part) : FenceState := (fenceScanner p).scanAll (opsAll ts) (fenceScanner p).start

theorem follow_concat (p : Pre) (ts : List Part) (x : Part) :
    p.follow (ts ++ [x]) = (fenceScanner p).scanAll x.ops (p.follow ts) := by
  rw [Pre.follow, opsAll_append, opsAll_singleton, scanAll_append]
  rfl

/-- The position in the line is where the parts have led. -/
theorem progress_follow (p : Pre) (ts : List Part) : (p.follow ts).pos.progress = lineProgress ts := by
  induction ts using List.reverseRecOn with
  | nil => rfl
  | append_singleton ts x ih =>
      rw [follow_concat, ← lineProgress_concat, ← ih]
      cases hquote : x.isQuote with
      | false =>
          rw [scanAll_ops (fenceScanner p) hquote, progress_read, Progress.write_eq_pass]
          exact congrArg _ (shape_traced hquote)
      | true =>
          cases x with
          | quote body =>
              have hshape : Part.shape (.quote body) = ⟨true, false, (opsAll body).any Op.writes, true⟩ := by
                rw [any_writes_opsAll]
                rfl
              rw [hshape]
              show (if (opsAll body).any Op.writes then (fenceScanner p).quote (p.follow ts) _
                else (fenceScanner p).step (p.follow ts) newline).pos.progress = _
              rw [newline, fenceStep_newline]
              cases (opsAll body).any Op.writes <;> cases (p.follow ts).pos with
              | opening => rfl
              | ticks n => cases n <;> rfl
              | within => rfl
          | _ => cases hquote

/-- What a part does to whether the fence has opened a block. -/
theorem found_concat (p : Pre) (ts : List Part) (x : Part) :
    (p.follow (ts ++ [x])).found = true ↔ (p.follow ts).found = true ∨
      ((∃ blocks, x = .pre p blocks) ∧ (lineProgress ts = .opening ∨ lineProgress ts = .fresh) ∧
        (p.follow ts).inside = false) := by
  rw [follow_concat, ← progress_follow p ts]
  generalize p.follow ts = s
  by_cases hx : ∃ blocks, x = .pre p blocks
  · obtain ⟨blocks, rfl⟩ := hx
    have htraced : (Part.pre p blocks).traced = ('`', .fence p) :: p.fenced := List.append_nil _
    have hrest : ∀ y ∈ p.fenced, y.2 ≠ .fence p := by
      intro y hy
      rcases origin_fenced hy with horigin | ⟨node, horigin⟩
      · rw [horigin]
        exact Origin.noConfusion
      · rw [horigin]
        exact Origin.noConfusion
    have hpos : (s.pos == .opening || s.pos == .ticks 0) = true ↔
        s.pos.progress = .opening ∨ s.pos.progress = .fresh := by
      cases s.pos with
      | opening => exact iff_of_true rfl (.inl rfl)
      | ticks n => cases n <;> simp [LinePos.progress]
      | within => simp [LinePos.progress]
    have hsame : ((('`', Origin.fence p) : Char × Origin) == ('`', .fence p)) = true := beq_self_eq_true _
    rw [scanAll_ops (fenceScanner p) rfl, htraced, read_cons, found_read hrest, ← hpos]
    show (s.found || ((('`', Origin.fence p) : Char × Origin) == ('`', .fence p) && (_ && !s.inside))) = true ↔ _
    rw [hsame, Bool.true_and, Bool.or_eq_true, Bool.and_eq_true, Bool.not_eq_true']
    simp
  · have hfound : ((fenceScanner p).scanAll x.ops s).found = s.found := by
      cases hquote : x.isQuote with
      | false =>
          rw [scanAll_ops (fenceScanner p) hquote]
          exact found_read (origin_of_part fun blocks h => hx ⟨blocks, h⟩) s
      | true =>
          cases x with
          | quote body =>
              show (if (opsAll body).any Op.writes then (fenceScanner p).quote s _
                else (fenceScanner p).step s newline).found = _
              rw [newline, fenceStep_newline]
              split <;> rfl
          | _ => cases hquote
    rw [hfound]
    simp [hx]

/-- The fence is found where it is written on a new line, and no block is open. -/
theorem found_follow (p : Pre) (ts : List Part) :
    (p.follow ts).found = true ↔ ∃ before x after, ts = before ++ x :: after ∧ (∃ blocks, x = .pre p blocks) ∧
      (lineProgress before = .opening ∨ lineProgress before = .fresh) ∧ (p.follow before).inside = false := by
  induction ts using List.reverseRecOn with
  | nil =>
      apply iff_of_false Bool.noConfusion
      rintro ⟨before, x, after, hts, -⟩
      exact absurd hts.symm (List.append_ne_nil_of_right_ne_nil _ (List.cons_ne_nil _ _))
  | append_singleton ts x ih => rw [found_concat, ih, History.exists_snoc]

theorem closed_follow (p : Pre) (ts : List Part) :
    (p.follow ts).inside = false ↔ Closed (trimStart (erase (runAll (opsAll ts) []))) := by
  have hread : p.follow ts = (fenceScanner p).read ((runAll (opsAll ts) []).dropWhile blank) (fenceScanner p).start := by
    have hscan := scanAll_eq_foldl (fenceScanner_lawful p) (opsAll ts) [] (fenceScanner p).start
    have hdrop := foldl_dropWhile (fun x hx => fenceStep_start p hx) (runAll (opsAll ts) [])
    exact hscan.trans hdrop.symm
  have herase : erase ((runAll (opsAll ts) []).dropWhile blank) = trimStart (erase (runAll (opsAll ts) [])) := by
    unfold erase trimStart
    rw [List.dropWhile_map]
    rfl
  rw [hread, ← herase]
  exact (read_fences p fun x hx => head_dropWhile hx).2.1

/-- **A fence opens a block exactly where the line is new and no block is open**: since the last part that ends a line
    nothing is left on it, and of what is written before evenly many lines are fences. -/
theorem opened_iff (doc : List Node) (p : Pre) :
    Opened doc p ↔ ∃ before blocks after, pageParts doc = before ++ .pre p blocks :: after ∧
      (∀ t ∈ onLine (started before), t.inks = false) ∧ Closed (trimStart (erase (runAll (opsAll before) []))) := by
  rw [Opened, pageLayout_eq_opsAll]
  refine (found_follow p (pageParts doc)).trans ?_
  constructor
  · rintro ⟨before, x, after, hparts, ⟨blocks, rfl⟩, hline, hinside⟩
    exact ⟨before, blocks, after, hparts, (newLine_iff before).mp hline, (closed_follow p before).mp hinside⟩
  · rintro ⟨before, blocks, after, hparts, hline, hclosed⟩
    exact ⟨before, _, after, hparts, ⟨blocks, rfl⟩, (newLine_iff before).mpr hline, (closed_follow p before).mpr hclosed⟩

/-- **Every preformatted text is in a fenced block of its own, exactly if its fence opens one and it survives**: if
    the walk comes to it when a line begins and no block is open, no line of it is a fence, and the clean-up drops none of
    its newlines. -/
theorem fenced_blocks_iff (doc : List Node) :
    domToMarkdownDoc reference doc = .ok (erase (output doc)) ∧
      ((∀ p ∈ pagePres doc, HasBlock (output doc) p) ↔ ∀ p ∈ pagePres doc, Opened doc p ∧ Survives p.content) :=
  ⟨domToMarkdownDoc_eq_output doc, forall₂_congr fun p _ => hasBlock_iff doc p⟩

/-- Preformatted text after other text, in one `div`. -/
def preAfterText : List Node := [.elem "div" [] [.text "Example:", .elem "pre" [] [.text "x"]]]

theorem fence_glued :
    domToMarkdownDoc reference preAfterText = .ok "Example:```\nx\n```" ∧
      ¬ ∀ p ∈ pagePres preAfterText, HasBlock (output preAfterText) p := by
  constructor
  · decide
  · simp only [hasBlock_iff]
    decide

end Scrape
end McpWebSearch
