import McpWebSearch.Lib.Runs
import McpWebSearch.Actions.Scrape.Markdown
import McpWebSearch.Correctness.Collapse

/-!
# `Correctness.Markdown` — what the markdown walk takes from skipped elements

`walk_element` renders nothing at a skipped element, but not every arm reaches its children through `walk_element`:
`pre` prints all text below it, and `ol` walks the children of each of its element children. `leaked` counts the
skipped elements that are reached that way. `domToMarkdown_agree_iff`: the output is independent of what is below
skipped elements exactly if there are none of them, or else if the page panics in any case.

The argument goes through `pieces`, the texts that the walk takes from the document. `WalkRules` is what a statement
about actions and pieces has to satisfy to hold of the whole walk (`WalkRules.page`). The one used here is `Takes`: an
action takes pieces if it panics where the collapser does on one of them and otherwise adds their marks, a mark being
one fixed character that no layout text contains.
-/

namespace McpWebSearch
namespace Scrape

open Utf8 Dom

/-! ## White space -/

theorem solid_referenceStep (o : Collapsed) (c : Char) :
    solid (referenceStep o c).out = solid o.out ++ solid [c] := by
  unfold referenceStep
  split
  · rename_i hascii
    have hc := isWhitespace_of_isAsciiWhitespace hascii
    rw [solid_cons_blank hc, solid_nil, List.append_nil]
    unfold Collapsed.space
    split
    · rfl
    · exact solid_concat_blank (by decide) o.out
  · exact solid_append o.out [c]

/-- Collapsing takes white space only. -/
theorem solid_referenceCollapse (t : Text) : solid (referenceCollapse t) = solid t := by
  have hfold (s : Text) (o : Collapsed) : solid (s.foldl referenceStep o).out = solid o.out ++ solid s := by
    induction s generalizing o with
    | nil => exact (List.append_nil _).symm
    | cons c s ih =>
        rw [List.foldl_cons, ih, solid_referenceStep, List.append_assoc, ← solid_append]
        rfl
  exact hfold t Collapsed.empty

theorem solid_dropLast {l : Text} {c : Char} (hlast : l.getLast? = some c) (hc : isWhitespace c = true) :
    solid l.dropLast = solid l := by
  obtain ⟨init, rfl⟩ := List.getLast?_eq_some_iff.mp hlast
  rw [List.dropLast_concat, solid_concat_blank hc]

theorem solid_stripEol (l : Text) : solid (stripEol l) = solid l := by
  unfold stripEol
  split
  · rename_i hnl
    split
    · rename_i hcr
      rw [solid_dropLast hcr (by decide), solid_dropLast hnl (by decide)]
    · exact solid_dropLast hnl (by decide)
  · rfl

/-! ## Marks -/

/-- The number of marks in a text. -/
def marks (t : Text) : Nat := t.count 'x'

@[simp] theorem marks_nil : marks [] = 0 := rfl
@[simp] theorem marks_append (s t : Text) : marks (s ++ t) = marks s + marks t := List.count_append

theorem marks_of_not_mem {t : Text} (h : 'x' ∉ t) : marks t = 0 := List.count_eq_zero.mpr h

/-- Marks are not white space. -/
theorem marks_congr {s t : Text} (h : solid s = solid t) : marks s = marks t := by
  have hsolid (u : Text) : marks (solid u) = marks u := List.count_filter (by decide)
  rw [← hsolid s, h, hsolid]

theorem marks_indent (d : Nat) : marks (indent d) = 0 := by
  apply marks_of_not_mem
  intro h
  exact absurd (List.eq_of_mem_replicate h) (by decide)

theorem marks_decimal (n : Nat) : marks (decimal n) = 0 := by
  apply marks_of_not_mem
  intro h
  exact absurd (Nat.isDigit_of_mem_toDigits (by decide) (by decide) h) (by decide)

/-- Quoting adds no marks and removes none. -/
theorem marks_quoteLines (inner : Text) : marks (quoteLines inner) = marks inner := by
  have hline (l : Text) : marks ("> " ++ stripEol l ++ "\n") = marks l := by
    rw [marks_append, marks_append, marks_congr (solid_stripEol l)]
    exact Nat.zero_add _
  have hlines (ls : List Text) : marks (ls.flatMap fun l => "> " ++ stripEol l ++ "\n") = marks ls.flatten := by
    induction ls with
    | nil => rfl
    | cons l ls ih => rw [List.flatMap_cons, List.flatten_cons, marks_append, hline, ih, marks_append]
  rw [quoteLines, strLines, List.flatMap_map, hlines, Framing.flatten_lines]

/-! ## The clean-up -/

/-- At most two newlines in a row, after `n` of them. -/
def squeeze : Nat → Text → Text
  | _, [] => []
  | n, c :: t =>
      if c = '\n' then (if n + 1 ≤ 2 then '\n' :: squeeze (n + 1) t else squeeze (n + 1) t)
      else c :: squeeze 0 t

theorem cleanupLoop_stop {bytes : List UInt8} {md : Text} {i : Nat} (h : ¬ i < bytes.length) (fuel n : Nat)
    (out : Text) : cleanupLoop bytes md fuel i n out = .ok out := by
  cases fuel with
  | zero => rw [cleanupLoop, if_neg h]
  | succ fuel => rw [cleanupLoop, List.getElem?_eq_none (Nat.le_of_not_lt h)]

/-- Reading a byte at the cursor is reading one character: a newline, or another one, whatever its width. -/
theorem readByte_cursor {β : Type} {md pre t : Text} {c : Char} (hmd : md = pre ++ c :: t) (stop fail : β)
    (newline : Nat → β) (other : Nat → Text → β) :
    (match (bytes md)[byteLen pre]? with
      | none => stop
      | some b =>
          if b = 0x0A then newline (byteLen pre + 1)
          else if b < 0x80 then other (byteLen pre + 1) [Char.ofNat b.toNat]
          else
            let fin := min (byteLen pre + utf8SeqLen b) (bytes md).length
            match slice md (byteLen pre) fin with
            | none => fail
            | some t => other fin t) =
      if c = '\n' then newline (byteLen (pre ++ [c])) else other (byteLen (pre ++ [c])) [c] := by
  have hnext : byteLen (pre ++ [c]) = byteLen pre + c.utf8Size := by simp
  have hbyte : (bytes md)[byteLen pre]? = some (lead c) := by rw [hmd, bytes_getElem?_cursor]
  have hnl : lead c = 0x0A ↔ c = '\n' := lead_eq_ofNat_iff (by decide)
  have hascii : lead c < 0x80 ↔ c.toNat < 0x80 := lead_lt_iff c
  rw [hbyte, hnext]
  simp only [hnl, hascii]
  by_cases hc : c = '\n'
  · have hone : c.utf8Size = 1 := by rw [hc]; rfl
    rw [if_pos hc, if_pos hc, hone]
  · rw [if_neg hc, if_neg hc]
    by_cases hlow : c.toNat < 0x80
    · have hone := (utf8Size_eq_one_iff_toNat c).mpr hlow
      rw [if_pos hlow, ofNat_lead hlow, hone]
    · have hend := seqEnd_cursor hmd hlow
      have hslice : slice md (byteLen pre) (byteLen pre + c.utf8Size) = some [c] := by rw [hmd, slice_cursor]
      rw [if_neg hlow]
      simp only [hend, hslice]

/-- One round of the clean-up is one character. -/
theorem cleanupLoop_step {md pre t : Text} {c : Char} (hmd : md = pre ++ c :: t) (fuel n : Nat) (out : Text) :
    cleanupLoop (bytes md) md (fuel + 1) (byteLen pre) n out =
      if c = '\n' then
        cleanupLoop (bytes md) md fuel (byteLen (pre ++ [c])) (n + 1) (if n + 1 ≤ 2 then out ++ ['\n'] else out)
      else cleanupLoop (bytes md) md fuel (byteLen (pre ++ [c])) 0 (out ++ [c]) := by
  rw [cleanupLoop]
  exact readByte_cursor hmd _ _
    (fun i => cleanupLoop (bytes md) md fuel i (n + 1) (if n + 1 ≤ 2 then out ++ ['\n'] else out))
    (fun i t => cleanupLoop (bytes md) md fuel i 0 (out ++ t))

/-- The byte loop squeezes what is after the cursor. -/
theorem cleanupLoop_spec {md pre t : Text} (hmd : md = pre ++ t) {fuel : Nat} (hfuel : byteLen t ≤ fuel) (n : Nat)
    (out : Text) : cleanupLoop (bytes md) md fuel (byteLen pre) n out = .ok (out ++ squeeze n t) := by
  induction t generalizing pre fuel n out with
  | nil =>
      have hend : ¬ byteLen pre < (bytes md).length := by rw [length_bytes, hmd, List.append_nil]; omega
      rw [cleanupLoop_stop hend, squeeze, List.append_nil]
  | cons c t ih =>
      have hpos := c.utf8Size_pos
      rw [byteLen_cons] at hfuel
      obtain ⟨fuel, rfl⟩ : ∃ k, fuel = k + 1 := ⟨fuel - 1, by omega⟩
      have hmd' : md = (pre ++ [c]) ++ t := by rw [hmd, List.append_assoc, List.singleton_append]
      have hfuel' : byteLen t ≤ fuel := by omega
      rw [cleanupLoop_step hmd, ih hmd' hfuel', ih hmd' hfuel', squeeze]
      by_cases hc : c = '\n'
      · rw [if_pos hc, if_pos hc]
        split
        · simp
        · rfl
      · rw [if_neg hc, if_neg hc, List.append_assoc, List.singleton_append]

/-- **`cleanup_md` squeezes newlines and trims**; it never fails. -/
theorem cleanupMd_eq (md : Text) : cleanupMd md = .ok (trim (squeeze 0 md)) := by
  unfold cleanupMd
  by_cases hnil : md = []
  · rw [hnil]
    rfl
  · have hpos : ¬ (bytes md).length = 0 := fun h => hnil (bytes_eq_nil_iff.mp (List.eq_nil_of_length_eq_zero h))
    have hstart : md = [] ++ md := rfl
    have hloop := cleanupLoop_spec hstart (Nat.le_refl (byteLen md)) 0 []
    rw [byteLen_nil, ← length_bytes] at hloop
    rw [if_neg hpos, hloop]
    rfl

/-- It keeps the first two newlines of a run. -/
theorem squeeze_eq_keepRuns (n : Nat) (t : Text) : squeeze n t = Runs.keepRuns '\n' (fun j => decide (j ≤ 2)) n t := by
  induction t generalizing n with
  | nil => rfl
  | cons c t ih =>
      rw [squeeze, Runs.keepRuns]
      by_cases hc : c = '\n'
      · rw [if_pos hc, if_pos hc, ih]
        exact if_congr decide_eq_true_iff.symm rfl rfl
      · rw [if_neg hc, if_neg hc, ih]

/-- Squeezing takes newlines only. -/
theorem solid_squeeze (n : Nat) (t : Text) : solid (squeeze n t) = solid t := by
  induction t generalizing n with
  | nil => rfl
  | cons c t ih =>
      rw [squeeze]
      by_cases hc : c = '\n'
      · have hblank : isWhitespace '\n' = true := by decide
        rw [if_pos hc, hc, solid_cons_blank hblank]
        split
        · rw [solid_cons_blank hblank, ih]
        · exact ih (n + 1)
      · rw [if_neg hc]
        cases hblank : isWhitespace c with
        | true => rw [solid_cons_blank hblank, solid_cons_blank hblank, ih]
        | false => rw [solid_cons_solid hblank, solid_cons_solid hblank, ih]

/-! ## Elements of an arm -/

/-- The one name of the elements of an arm, if it has only one. -/
def Arm.name : Arm → Option String
  | .blockquote => "blockquote"
  | .pre => "pre"
  | .ul => "ul"
  | .ol => "ol"
  | .li => "li"
  | .block _ | .inline _ _ | .leaf _ | .code => none

theorem oneOf_singleton {name : Text} {s : String} : oneOf name [s] = true ↔ name = s.toList := by
  rw [oneOf, List.any_cons, List.any_nil, Bool.or_false, beq_iff_eq]
  exact eq_comm

theorem name_ite {c : Bool} {a b : Arm} {s : String} (h : (if c then a else b).name = some s) :
    (c = true ∧ a.name = some s) ∨ b.name = some s := by
  cases c with
  | true => exact .inl ⟨rfl, h⟩
  | false => exact .inr h

theorem name_of_armOf {name : Text} {attrs : List (Text × Text)} {s : String} (h : (armOf name attrs).name = some s) :
    name = s.toList := by
  have hsingle {k : String} (hname : oneOf name [k] = true) (hk : some k = some s) : name = s.toList := by
    rw [← Option.some.inj hk]
    exact oneOf_singleton.mp hname
  unfold armOf at h
  -- headings, `p`, `br` and `hr`
  iterate 4
    rcases name_ite h with ⟨-, h⟩ | h
    · cases h
  rcases name_ite h with ⟨hquote, h⟩ | h
  · exact hsingle hquote h
  rcases name_ite h with ⟨hpre, h⟩ | h
  · exact hsingle hpre h
  rcases name_ite h with ⟨-, h⟩ | h
  · cases h
  rcases name_ite h with ⟨hul, h⟩ | h
  · exact hsingle hul h
  rcases name_ite h with ⟨hol, h⟩ | h
  · exact hsingle hol h
  rcases name_ite h with ⟨hli, h⟩ | h
  · exact hsingle hli h
  -- everything from `a` on
  iterate 14
    rcases name_ite h with ⟨-, h⟩ | h
    · cases h
  cases h

/-! ## What the walk takes from the document -/

/-- A text of the document in the output: collapsed, or as it is. -/
inductive Piece
  | collapsed (text : Text)
  | verbatim (text : Text)

def Piece.text : Piece → Text
  | .collapsed t => t
  | .verbatim t => t

mutual

/-- The pieces that `walk_element` takes. -/
def pieces : Node → List Piece
  | .elem name attrs cs =>
      match armOf name attrs with
      | .block lead => .verbatim lead :: childPieces cs
      | .inline before after => .verbatim before :: (childPieces cs ++ [.verbatim after])
      | .leaf text => [.verbatim text]
      | .blockquote => childPieces cs
      | .pre => [.verbatim (textContents cs)]
      | .code => [.verbatim (childTexts trim cs)]
      | .ul => elementPieces cs
      | .ol => itemPieces cs
      | .li => childPieces cs
  | .text _ => []
  | .other _ => []

/-- The pieces that `walk_children` takes. -/
def childPieces : List Node → List Piece
  | [] => []
  | .text t :: rest => .collapsed t :: childPieces rest
  | .elem name attrs cs :: rest => pieces (.elem name attrs cs) ++ childPieces rest
  | .other _ :: rest => childPieces rest

def elementPieces : List Node → List Piece
  | [] => []
  | c :: rest => pieces c ++ elementPieces rest

def itemPieces : List Node → List Piece
  | [] => []
  | .elem _ _ cs :: rest => childPieces cs ++ itemPieces rest
  | .text _ :: rest => itemPieces rest
  | .other _ :: rest => itemPieces rest

end

mutual

/-- The number of skipped elements whose content the walk renders: those below a `pre`, and the children of an `ol`. -/
def leaked : Node → Nat
  | .elem name attrs cs =>
      match armOf name attrs with
      | .leaf _ => 0
      | .code => 0
      | .pre => skippedInAll isSkipped cs
      | .ol => leakedInItems cs
      | _ => leakedInAll cs
  | .text _ => 0
  | .other _ => 0

def leakedInAll : List Node → Nat
  | [] => 0
  | c :: rest => leaked c + leakedInAll rest

def leakedInItems : List Node → Nat
  | [] => 0
  | .elem name _ cs :: rest => (if isSkipped name then 1 else leakedInAll cs) + leakedInItems rest
  | .text _ :: rest => leakedInItems rest
  | .other _ :: rest => leakedInItems rest

end

/-- A page leaks if the walk renders the content of a skipped element. -/
def Leaks (doc : List Node) : Prop := leakedInAll doc ≠ 0

/-- The marks of some pieces. -/
def marksOf : List Piece → Nat
  | [] => 0
  | p :: ps => marks p.text + marksOf ps

@[simp] theorem marksOf_nil : marksOf [] = 0 := rfl
@[simp] theorem marksOf_cons (p : Piece) (ps : List Piece) : marksOf (p :: ps) = marks p.text + marksOf ps := rfl
@[simp] theorem marksOf_append (ps qs : List Piece) : marksOf (ps ++ qs) = marksOf ps + marksOf qs := by
  induction ps with
  | nil => simp
  | cons p ps ih => rw [List.cons_append, marksOf_cons, marksOf_cons, ih, Nat.add_assoc]

/-! ## Rules of the walk -/

/-- A way `C act ps` to say that an action on the buffer takes some pieces, with the layout actions `L` around it: one
    rule for each thing the walk does. -/
structure WalkRules (collapse : Text → Except Panic Text) (C : (Md → Except Panic Md) → List Piece → Prop)
    (L : (Md → Md) → Prop) : Prop where
  idle : L id
  write : ∀ t : Nat → Text, (∀ d, marks (t d) = 0) → L fun st => st.push (t st.listDepth)
  closeLine : L Md.closeLine
  comp : ∀ {f g}, L f → L g → L fun st => g (f st)
  nothing : C pure []
  bind : ∀ {act act' ps qs}, C act ps → C act' qs → C (fun st => act st >>= act') (ps ++ qs)
  layout : ∀ {act ps before after}, C act ps → L before → L after →
    C (fun st => do let st ← act (before st); pure (after st)) ps
  text : ∀ t, C (fun st => do let s ← collapse t; pure (pushText st s)) [.collapsed t]
  push : ∀ t, C (fun st => pure (st.push t)) [.verbatim t]
  fenced : ∀ t, C (fun st => pure (st.push ("`" ++ t ++ "`"))) [.verbatim t]
  nested : ∀ {act ps after}, C act ps → L after →
    C (fun st => do let st ← act st.enter; let st ← st.leave; pure (after st)) ps
  quoted : ∀ {act ps}, C act ps →
    C (fun st => do
      let inner ← act { st with md := [] }
      pure { inner with md := st.md ++ (quoteLines inner.md ++ "\n") }) ps

namespace WalkRules

variable {collapse : Text → Except Panic Text} {C : (Md → Except Panic Md) → List Piece → Prop}
  {L : (Md → Md) → Prop}

theorem elements (hC : WalkRules collapse C L) {cs : List Node}
    (h : ∀ c ∈ cs, C (walkElement collapse c) (pieces c)) : C (walkElements collapse cs) (elementPieces cs) := by
  induction cs with
  | nil => exact hC.nothing
  | cons c cs ih =>
      have hc := h c List.mem_cons_self
      have hcs := ih fun d hd => h d (List.mem_cons_of_mem c hd)
      exact hC.bind hc hcs

theorem children (hC : WalkRules collapse C L) {cs : List Node}
    (h : ∀ c ∈ cs, C (walkElement collapse c) (pieces c)) : C (walkChildren collapse cs) (childPieces cs) := by
  induction cs with
  | nil => exact hC.nothing
  | cons c cs ih =>
      have hc := h c List.mem_cons_self
      have hcs := ih fun d hd => h d (List.mem_cons_of_mem c hd)
      cases c with
      | text t =>
          have hrun : walkChildren collapse (.text t :: cs) = fun st =>
              (do let s ← collapse t; pure (pushText st s)) >>= walkChildren collapse cs := by
            funext st
            rw [walkChildren, bind_assoc]
            rfl
          rw [hrun, childPieces]
          exact hC.bind (hC.text t) hcs
      | elem name attrs gs => exact hC.bind hc hcs
      | other gs => exact hcs

/-- In an ordered list it is the grandchildren that count. -/
theorem items (hC : WalkRules collapse C L) {cs : List Node}
    (h : ∀ c ∈ cs, C (walkChildren collapse c.children) (childPieces c.children)) (idx : Nat) :
    C (walkItems collapse cs idx) (itemPieces cs) := by
  induction cs generalizing idx with
  | nil => exact hC.nothing
  | cons c cs ih =>
      have hc := h c List.mem_cons_self
      have hcs := ih (fun d hd => h d (List.mem_cons_of_mem c hd))
      cases c with
      | text t => exact hcs idx
      | other gs => exact hcs idx
      | elem name attrs gs =>
          have hbefore : L fun st => st.push (indent st.listDepth ++ (decimal idx ++ ". ")) := by
            apply hC.write fun d => indent d ++ (decimal idx ++ ". ")
            intro d
            rw [marks_append, marks_append, marks_indent, marks_decimal]
            rfl
          have hafter : L fun st => st.push "\n" := hC.write (fun _ => "\n") fun _ => rfl
          have hitem := hC.bind (hC.layout hc hbefore hafter) (hcs (idx + 1))
          have hrun : walkItems collapse (.elem name attrs gs :: cs) idx = fun st =>
              (do let st ← walkChildren collapse gs (st.push (indent st.listDepth ++ (decimal idx ++ ". ")))
                  pure (st.push "\n")) >>= walkItems collapse cs (idx + 1) := by
            funext st
            rw [walkItems, bind_assoc]
            rfl
          rw [hrun, itemPieces]
          exact hitem

/-- **The walk takes its pieces**, at a node and in its children. -/
theorem walk (hC : WalkRules collapse C L) (n : Node) :
    C (walkElement collapse n) (pieces n) ∧ C (walkChildren collapse n.children) (childPieces n.children) := by
  -- the children are in the statement because an `ol` item is entered without a `walkElement`
  induction n using Node.induct with
  | step n ih =>
      have hchildren := hC.children fun c hc => (ih c hc).1
      have helements := hC.elements fun c hc => (ih c hc).1
      have hitems := hC.items (fun c hc => (ih c hc).2) 1
      refine ⟨?_, hchildren⟩
      cases n with
      | text t => exact hC.nothing
      | other cs => exact hC.nothing
      | elem name attrs cs =>
          rw [Node.children_elem] at hchildren helements hitems
          have hnl : L fun st => st.push "\n" := hC.write (fun _ => "\n") fun _ => rfl
          have hend : L fun st => (Md.closeLine st).push "\n" := hC.comp hC.closeLine hnl
          have hrun : walkElement collapse (.elem name attrs cs) = fun st =>
              walkElement collapse (.elem name attrs cs) st := rfl
          rw [hrun]
          simp only [walkElement, pieces]
          cases armOf name attrs with
          | block lead => exact hC.bind (hC.push lead) (hC.layout hchildren hC.idle hend)
          | inline before after => exact hC.bind (hC.push before) (hC.bind hchildren (hC.push after))
          | leaf text => exact hC.push text
          | blockquote => exact hC.quoted hchildren
          | pre =>
              have hopen : L (·.push "```\n") := hC.write (fun _ => "```\n") fun _ => rfl
              have hfence : L (·.push "```\n\n") := hC.write (fun _ => "```\n\n") fun _ => rfl
              exact hC.layout (hC.push (textContents cs)) hopen (hC.comp hC.closeLine hfence)
          | code => exact hC.fenced (childTexts trim cs)
          | ul => exact hC.nested helements hend
          | ol => exact hC.nested hitems hnl
          | li =>
              have hbefore : L fun st => st.push (indent st.listDepth ++ "- ") := by
                apply hC.write fun d => indent d ++ "- "
                intro d
                rw [marks_append, marks_indent]
                rfl
              exact hC.layout hchildren hbefore hnl

/-- The same for a whole page. -/
theorem page (hC : WalkRules collapse C L) (doc : List Node) : C (walkElements collapse doc) (elementPieces doc) :=
  hC.elements fun c _ => (hC.walk c).1

end WalkRules

/-! ## Actions on the buffer -/

section Walk

variable {collapse : Text → Except Panic Text} {bad : Text → Prop} {panic : Panic}

/-- A collapser that is the reference but on the `bad` texts, where it panics. -/
structure Collapses (collapse : Text → Except Panic Text) (bad : Text → Prop) (panic : Panic) : Prop where
  ok : ∀ t, ¬ bad t → collapse t = .ok (referenceCollapse t)
  panics : ∀ t, bad t → collapse t = .error panic

/-- One of the pieces makes the collapser panic. -/
def SomeBad (bad : Text → Prop) (ps : List Piece) : Prop := ∃ t, Piece.collapsed t ∈ ps ∧ bad t

theorem someBad_append {ps qs : List Piece} : SomeBad bad (ps ++ qs) ↔ SomeBad bad ps ∨ SomeBad bad qs := by
  constructor
  · rintro ⟨t, ht, hbad⟩
    rcases List.mem_append.mp ht with h | h
    · exact Or.inl ⟨t, h, hbad⟩
    · exact Or.inr ⟨t, h, hbad⟩
  · rintro (⟨t, ht, hbad⟩ | ⟨t, ht, hbad⟩)
    · exact ⟨t, List.mem_append_left _ ht, hbad⟩
    · exact ⟨t, List.mem_append_right _ ht, hbad⟩

theorem not_someBad_verbatim (t : Text) : ¬ SomeBad bad [.verbatim t] := by
  rintro ⟨u, hu, -⟩
  simp at hu

/-- What an action on the buffer takes: it panics if the collapser does on one of the pieces; otherwise it adds their
    marks, and leaves the list depth alone. -/
def Takes (bad : Text → Prop) (panic : Panic) (act : Md → Except Panic Md) (ps : List Piece) : Prop :=
  ∀ st, (SomeBad bad ps → act st = .error panic) ∧
    (¬ SomeBad bad ps → ∃ st', act st = .ok st' ∧ marks st'.md = marks st.md + marksOf ps ∧
      st'.listDepth = st.listDepth)

/-- An action that writes layout text only. -/
def Layout (act : Md → Md) : Prop := ∀ st, marks (act st).md = marks st.md ∧ (act st).listDepth = st.listDepth

theorem Layout.push {t : Text} (ht : marks t = 0) : Layout (·.push t) := by
  intro st
  refine ⟨?_, rfl⟩
  show marks (st.md ++ t) = marks st.md
  rw [marks_append, ht, Nat.add_zero]

theorem Layout.closeLine : Layout Md.closeLine := by
  intro st
  unfold Md.closeLine
  split
  · exact ⟨rfl, rfl⟩
  · exact Layout.push rfl st

theorem Layout.comp {act act' : Md → Md} (h : Layout act) (h' : Layout act') : Layout fun st => act' (act st) := by
  intro st
  exact ⟨((h' _).1).trans (h st).1, ((h' _).2).trans (h st).2⟩

/-- Layout before and after an action. -/
theorem Takes.layout {act : Md → Except Panic Md} {ps : List Piece} (h : Takes bad panic act ps)
    {before after : Md → Md} (hb : Layout before) (ha : Layout after) :
    Takes bad panic (fun st => do let st ← act (before st); pure (after st)) ps := by
  intro st
  obtain ⟨herr, hok⟩ := h (before st)
  constructor
  · intro hbad
    show (act (before st) >>= fun st => pure (after st)) = _
    rw [herr hbad]
    rfl
  · intro hbad
    obtain ⟨st', hact, hmarks, hdepth⟩ := hok hbad
    refine ⟨after st', ?_, ?_, ?_⟩
    · show (act (before st) >>= fun st => pure (after st)) = _
      rw [hact]
      rfl
    · rw [(ha st').1, hmarks, (hb st).1]
    · rw [(ha st').2, hdepth, (hb st).2]

theorem Takes.nothing : Takes bad panic pure [] := by
  intro st
  constructor
  · rintro ⟨t, ht, -⟩
    simp at ht
  · intro _
    exact ⟨st, rfl, rfl, rfl⟩

/-- Writing a text, with layout around it. -/
theorem Takes.verbatim {t t' : Text} (h : marks t' = marks t) :
    Takes bad panic (fun st => pure (st.push t')) [.verbatim t] := by
  intro st
  constructor
  · intro hbad
    exact absurd hbad (not_someBad_verbatim t)
  · intro _
    exact ⟨st.push t', rfl, by simp [Md.push, Piece.text, h], rfl⟩

theorem Takes.push (t : Text) : Takes bad panic (fun st => pure (st.push t)) [.verbatim t] := Takes.verbatim rfl

theorem Takes.bind {act act' : Md → Except Panic Md} {ps qs : List Piece} (h : Takes bad panic act ps)
    (h' : Takes bad panic act' qs) : Takes bad panic (fun st => act st >>= act') (ps ++ qs) := by
  intro st
  obtain ⟨herr, hok⟩ := h st
  by_cases hbad : SomeBad bad ps
  · constructor
    · intro _
      show act st >>= act' = _
      rw [herr hbad]
      rfl
    · intro hnot
      exact absurd (someBad_append.mpr (Or.inl hbad)) hnot
  · obtain ⟨st₁, hact, hmarks, hdepth⟩ := hok hbad
    obtain ⟨herr', hok'⟩ := h' st₁
    have hrun : act st >>= act' = act' st₁ := by rw [hact]; rfl
    constructor
    · intro hsome
      show act st >>= act' = _
      rw [hrun, herr' ((someBad_append.mp hsome).resolve_left hbad)]
    · intro hnot
      obtain ⟨st₂, hact', hmarks', hdepth'⟩ := hok' fun hq => hnot (someBad_append.mpr (Or.inr hq))
      refine ⟨st₂, hrun.trans hact', ?_, hdepth'.trans hdepth⟩
      rw [hmarks', hmarks, marksOf_append, Nat.add_assoc]

/-- A text node. -/
theorem Takes.text (hcol : Collapses collapse bad panic) (t : Text) :
    Takes bad panic (fun st => do let s ← collapse t; pure (pushText st s)) [.collapsed t] := by
  have hbad_iff : SomeBad bad [.collapsed t] ↔ bad t := by simp [SomeBad]
  intro st
  constructor
  · intro hbad
    show (collapse t >>= fun s => pure (pushText st s)) = _
    rw [hcol.panics t (hbad_iff.mp hbad)]
    rfl
  · intro hbad
    refine ⟨pushText st (referenceCollapse t), ?_, ?_, ?_⟩
    · show (collapse t >>= fun s => pure (pushText st s)) = _
      rw [hcol.ok t fun h => hbad (hbad_iff.mpr h)]
      rfl
    · rw [marksOf_cons, marksOf_nil, Piece.text, ← marks_congr (solid_referenceCollapse t), pushText]
      split
      · simp [Md.push]
      · -- what is not written is empty or a single space
        rename_i hblank
        have hzero : marks (referenceCollapse t) = 0 := by
          by_cases hnil : referenceCollapse t = []
          · rw [hnil]
            rfl
          · have hspace : referenceCollapse t = " " := by
              by_contra hne
              exact hblank ⟨hnil, hne⟩
            rw [hspace]
            rfl
        rw [hzero]
        rfl
    · unfold pushText
      split <;> rfl

/-- A list: one level deeper, and back. -/
theorem Takes.nested {act : Md → Except Panic Md} {ps : List Piece} (h : Takes bad panic act ps) {after : Md → Md}
    (ha : Layout after) :
    Takes bad panic (fun st => do let st ← act st.enter; let st ← st.leave; pure (after st)) ps := by
  intro st
  obtain ⟨herr, hok⟩ := h st.enter
  constructor
  · intro hbad
    show (act st.enter >>= fun st => st.leave >>= fun st => pure (after st)) = _
    rw [herr hbad]
    rfl
  · intro hbad
    obtain ⟨st', hact, hmarks, hdepth⟩ := hok hbad
    have hdepth' : st'.listDepth = st.listDepth + 1 := hdepth
    have hleave : st'.leave = .ok { st' with listDepth := st.listDepth } := by
      rw [Md.leave, hdepth', if_neg (Nat.succ_ne_zero _)]
      rfl
    refine ⟨after { st' with listDepth := st.listDepth }, ?_, ?_, ?_⟩
    · show (act st.enter >>= fun st => st.leave >>= fun st => pure (after st)) = _
      rw [hact]
      show (st'.leave >>= fun st => pure (after st)) = _
      rw [hleave]
      rfl
    · rw [(ha _).1]
      exact hmarks
    · exact (ha _).2

/-- A block quotation: the children on an empty buffer, quoted. -/
theorem Takes.quoted {act : Md → Except Panic Md} {ps : List Piece} (h : Takes bad panic act ps) :
    Takes bad panic (fun st => do
      let inner ← act { st with md := [] }
      pure { inner with md := st.md ++ (quoteLines inner.md ++ "\n") }) ps := by
  intro st
  obtain ⟨herr, hok⟩ := h { st with md := [] }
  constructor
  · intro hbad
    show (act { st with md := [] } >>= fun inner => pure _) = _
    rw [herr hbad]
    rfl
  · intro hbad
    obtain ⟨inner, hact, hmarks, hdepth⟩ := hok hbad
    refine ⟨{ inner with md := st.md ++ (quoteLines inner.md ++ "\n") }, ?_, ?_, hdepth⟩
    · show (act { st with md := [] } >>= fun inner => pure _) = _
      rw [hact]
      rfl
    · have hnl : marks ("\n" : Text) = 0 := rfl
      rw [marks_append, marks_append, marks_quoteLines, hmarks, hnl]
      simp

/-- **What the walk takes of a page**: its pieces. -/
theorem takes_rules (hcol : Collapses collapse bad panic) : WalkRules collapse (Takes bad panic) Layout where
  idle := fun _ => ⟨rfl, rfl⟩
  write := fun _ ht st => Layout.push (ht st.listDepth) st
  closeLine := Layout.closeLine
  comp := Layout.comp
  nothing := Takes.nothing
  bind := Takes.bind
  layout := fun h hb ha => h.layout hb ha
  text := Takes.text hcol
  push := Takes.push
  fenced := by
    intro t
    apply Takes.verbatim
    rw [marks_append, marks_append]
    exact Nat.zero_add _
  nested := fun h ha => h.nested ha
  quoted := Takes.quoted

end Walk

/-! ## Edited pages -/

/-- A skipped element is an arm without output. -/
theorem armOf_of_isSkipped {name : Text} (h : isSkipped name = true) (attrs : List (Text × Text)) :
    armOf name attrs = .leaf [] := by
  simp only [isSkipped, oneOf, skippedElements, List.any_cons, List.any_nil, Bool.or_false, Bool.or_eq_true,
    beq_iff_eq] at h
  rcases h with h | h | h | h | h | h | h | h | h | h | h | h | h
  all_goals
    subst h
    rfl

/-- The text children do not depend on what is below elements. -/
theorem childTexts_editAll (g : Text → Text) (f : List Node → List Node) (cs : List Node) :
    childTexts g (editAll isSkipped f cs) = childTexts g cs := by
  induction cs with
  | nil => rfl
  | cons c cs ih =>
      cases c with
      | text t => exact congrArg (g t ++ ·) ih
      | elem name attrs gs => exact ih
      | other gs => exact ih

/-- A relation between the pieces of an edited page and those of the pruned page, that counts the leaks: it holds with
    equal pieces and no leak, piece by piece along a list, and with one leak for a skipped list item. -/
structure LeakRel (f : List Node → List Node) (R : List Piece → List Piece → Nat → Prop) : Prop where
  refl : ∀ ps, R ps ps 0
  append : ∀ {ps qs ps' qs' k k'}, R ps qs k → R ps' qs' k' → R (ps ++ ps') (qs ++ qs') (k + k')
  item : ∀ cs, R (childPieces (f cs)) [] 1
  pre : ∀ cs, R [.verbatim (textContents (editAll isSkipped f cs))] [.verbatim (textContents (pruneAll isSkipped cs))]
    (skippedInAll isSkipped cs)

namespace LeakRel

variable {f : List Node → List Node} {R : List Piece → List Piece → Nat → Prop}

theorem cons (hR : LeakRel f R) {ps qs : List Piece} {k : Nat} (p : Piece) (h : R ps qs k) :
    R (p :: ps) (p :: qs) k := by
  have happ := hR.append (hR.refl [p]) h
  rwa [Nat.zero_add] at happ

theorem elements (hR : LeakRel f R) {cs : List Node}
    (h : ∀ c ∈ cs, R (pieces (edit isSkipped f c)) (pieces (prune isSkipped c)) (leaked c)) :
    R (elementPieces (editAll isSkipped f cs)) (elementPieces (pruneAll isSkipped cs)) (leakedInAll cs) := by
  induction cs with
  | nil => exact hR.refl []
  | cons c cs ih =>
      have hc := h c List.mem_cons_self
      have hcs := ih fun d hd => h d (List.mem_cons_of_mem c hd)
      exact hR.append hc hcs

theorem children (hR : LeakRel f R) {cs : List Node}
    (h : ∀ c ∈ cs, R (pieces (edit isSkipped f c)) (pieces (prune isSkipped c)) (leaked c)) :
    R (childPieces (editAll isSkipped f cs)) (childPieces (pruneAll isSkipped cs)) (leakedInAll cs) := by
  induction cs with
  | nil => exact hR.refl []
  | cons c cs ih =>
      have hc := h c List.mem_cons_self
      have hcs := ih fun d hd => h d (List.mem_cons_of_mem c hd)
      cases c with
      | text t =>
          have hzero : leakedInAll (.text t :: cs) = leakedInAll cs := Nat.zero_add _
          rw [hzero]
          exact hR.cons (.collapsed t) hcs
      | elem name attrs gs => exact hR.append hc hcs
      | other gs =>
          have hzero : leakedInAll (.other gs :: cs) = leakedInAll cs := Nat.zero_add _
          rw [hzero]
          exact hcs

theorem items (hR : LeakRel f R) {cs : List Node}
    (h : ∀ c ∈ cs, R (childPieces (editAll isSkipped f c.children)) (childPieces (pruneAll isSkipped c.children))
      (leakedInAll c.children)) :
    R (itemPieces (editAll isSkipped f cs)) (itemPieces (pruneAll isSkipped cs)) (leakedInItems cs) := by
  induction cs with
  | nil => exact hR.refl []
  | cons c cs ih =>
      have hc := h c List.mem_cons_self
      have hcs := ih fun d hd => h d (List.mem_cons_of_mem c hd)
      cases c with
      | text t => exact hcs
      | other gs => exact hcs
      | elem name attrs gs =>
          have hitem : R (childPieces (if isSkipped name then f gs else editAll isSkipped f gs))
              (childPieces (if isSkipped name then [] else pruneAll isSkipped gs))
              (if isSkipped name then 1 else leakedInAll gs) := by
            cases isSkipped name with
            | true => exact hR.item gs
            | false => exact hc
          exact hR.append hitem hcs

/-- **The pieces of an edited page and of the pruned page are related, leak by leak.** -/
theorem holds (hR : LeakRel f R) (n : Node) :
    R (pieces (edit isSkipped f n)) (pieces (prune isSkipped n)) (leaked n) ∧
      R (childPieces (editAll isSkipped f n.children)) (childPieces (pruneAll isSkipped n.children))
        (leakedInAll n.children) := by
  induction n using Node.induct with
  | step n ih =>
      have hchildren := hR.children fun c hc => (ih c hc).1
      have helements := hR.elements fun c hc => (ih c hc).1
      have hitems := hR.items fun c hc => (ih c hc).2
      refine ⟨?_, hchildren⟩
      cases n with
      | text t => exact hR.refl []
      | other cs => exact hR.refl []
      | elem name attrs cs =>
          rw [Node.children_elem] at hchildren helements hitems
          cases hs : isSkipped name with
          | true =>
              -- reached through `walkElement`, so nothing of it is taken
              rw [edit, prune, edit, hs, pieces, pieces, leaked, armOf_of_isSkipped hs]
              exact hR.refl _
          | false =>
              rw [edit, prune, edit, hs, pieces, pieces, leaked]
              cases armOf name attrs with
              | block lead => exact hR.cons _ hchildren
              | inline before after => exact hR.cons _ (hR.append hchildren (hR.refl [.verbatim after]))
              | leaf text => exact hR.refl _
              | blockquote => exact hchildren
              | pre => exact hR.pre cs
              | code =>
                  simp only [Bool.false_eq_true, if_false, childTexts_editAll]
                  exact hR.refl _
              | ul => exact helements
              | ol => exact hitems
              | li => exact hchildren

/-- The same for a whole page. -/
theorem page (hR : LeakRel f R) (doc : List Node) :
    R (elementPieces (editAll isSkipped f doc)) (elementPieces (pruneAll isSkipped doc)) (leakedInAll doc) :=
  hR.elements fun c _ => (hR.holds c).1

end LeakRel

/-- What the collapser sees of the pruned page it sees of every edited page. -/
theorem leakRel_collapsed (f : List Node → List Node) :
    LeakRel f fun ps qs _ => ∀ t, Piece.collapsed t ∈ qs → Piece.collapsed t ∈ ps where
  refl := fun _ _ ht => ht
  append := by
    intro ps qs ps' qs' _ _ h h' t ht
    rw [List.mem_append] at ht ⊢
    exact ht.imp (h t) (h' t)
  item := by simp
  pre := by simp

/-- One mark in every skipped element. -/
def marked (_ : List Node) : List Node := [.text "x"]

theorem marks_textContents_marked (cs : List Node) :
    marks (textContents (editAll isSkipped marked cs)) =
      marks (textContents (pruneAll isSkipped cs)) + skippedInAll isSkipped cs := by
  have hnode (n : Node) : marks (textContent (edit isSkipped marked n)) =
      marks (textContent (prune isSkipped n)) + skippedIn isSkipped n := by
    induction n using Node.induct with
    | step n ih =>
        have hall : marks (textContents (editAll isSkipped marked n.children)) =
            marks (textContents (pruneAll isSkipped n.children)) + skippedInAll isSkipped n.children := by
          generalize n.children = cs at ih
          induction cs with
          | nil => rfl
          | cons c cs ihcs =>
              have hc := ih c List.mem_cons_self
              have hcs := ihcs fun d hd => ih d (List.mem_cons_of_mem c hd)
              show marks (textContent (edit isSkipped marked c) ++ textContents (editAll isSkipped marked cs)) =
                marks (textContent (prune isSkipped c) ++ textContents (pruneAll isSkipped cs)) +
                  (skippedIn isSkipped c + skippedInAll isSkipped cs)
              rw [marks_append, marks_append, hc, hcs]
              omega
        cases n with
        | text t => rfl
        | other cs => exact hall
        | elem name attrs cs =>
            rw [edit, prune, edit, skippedIn]
            cases isSkipped name with
            | true => rfl
            | false => exact hall
  exact hnode (.other cs)

/-- Each leak shows its mark, and a marked page gives the collapser nothing else to see. -/
theorem leakRel_marked :
    LeakRel marked fun ps qs k => marksOf ps = marksOf qs + k ∧
      ∀ t, Piece.collapsed t ∈ ps → Piece.collapsed t ∈ qs ∨ t = "x" where
  refl := fun _ => ⟨rfl, fun _ ht => Or.inl ht⟩
  append := by
    rintro ps qs ps' qs' k k' ⟨hmarks, htexts⟩ ⟨hmarks', htexts'⟩
    constructor
    · rw [marksOf_append, marksOf_append, hmarks, hmarks']
      omega
    · intro t ht
      rw [List.mem_append] at ht ⊢
      rcases ht with ht | ht
      · exact (htexts t ht).imp_left Or.inl
      · exact (htexts' t ht).imp_left Or.inr
  item := by
    intro cs
    refine ⟨rfl, ?_⟩
    intro t ht
    exact Or.inr (by simpa [marked, childPieces] using ht)
  pre := by
    intro cs
    refine ⟨marks_textContents_marked cs, ?_⟩
    intro t ht
    exact absurd (List.mem_singleton.mp ht) (by simp)

/-! ## Pages without leaks -/

/-- Editing below skipped elements does not change where the leaks are. -/
theorem leaked_edit (f : List Node → List Node) (n : Node) :
    leaked (edit isSkipped f n) = leaked n ∧ leakedInAll (editAll isSkipped f n.children) = leakedInAll n.children := by
  induction n using Node.induct with
  | step n ih =>
      have hall : leakedInAll (editAll isSkipped f n.children) = leakedInAll n.children := by
        generalize n.children = cs at ih
        induction cs with
        | nil => rfl
        | cons c cs ihcs =>
            have hc := (ih c List.mem_cons_self).1
            have hcs := ihcs fun d hd => ih d (List.mem_cons_of_mem c hd)
            exact congrArg₂ (· + ·) hc hcs
      have hitems : leakedInItems (editAll isSkipped f n.children) = leakedInItems n.children := by
        generalize n.children = cs at ih
        induction cs with
        | nil => rfl
        | cons c cs ihcs =>
            have hc := (ih c List.mem_cons_self).2
            have hcs := ihcs fun d hd => ih d (List.mem_cons_of_mem c hd)
            cases c with
            | text t => exact hcs
            | other gs => exact hcs
            | elem name attrs gs =>
                have hitem : (if isSkipped name then 1 else
                    leakedInAll (if isSkipped name then f gs else editAll isSkipped f gs)) =
                    if isSkipped name then 1 else leakedInAll gs := by
                  cases isSkipped name with
                  | true => rfl
                  | false => exact hc
                exact congrArg₂ (· + ·) hitem hcs
      refine ⟨?_, hall⟩
      cases n with
      | text t => rfl
      | other cs => rfl
      | elem name attrs cs =>
          cases hs : isSkipped name with
          | true => rw [edit, hs, leaked, leaked, armOf_of_isSkipped hs]
          | false =>
              rw [edit, hs, leaked, leaked]
              cases armOf name attrs with
              | leaf text => rfl
              | code => rfl
              | pre => exact skippedInAll_editAll cs
              | ol => exact hitems
              | block lead => exact hall
              | inline before after => exact hall
              | blockquote => exact hall
              | ul => exact hall
              | li => exact hall

theorem leakedInAll_edit (f : List Node → List Node) (doc : List Node) :
    leakedInAll (editAll isSkipped f doc) = leakedInAll doc := (leaked_edit f (.other doc)).2

section NoLeak

variable {collapse : Text → Except Panic Text}

theorem walkElements_prune {cs : List Node}
    (h : ∀ c ∈ cs, leaked c = 0 → walkElement collapse (prune isSkipped c) = walkElement collapse c)
    (h0 : leakedInAll cs = 0) : walkElements collapse (pruneAll isSkipped cs) = walkElements collapse cs := by
  induction cs with
  | nil => rfl
  | cons c cs ih =>
      obtain ⟨hc0, hcs0⟩ := Nat.add_eq_zero_iff.mp h0
      have hc := h c List.mem_cons_self hc0
      have hcs := ih (fun d hd => h d (List.mem_cons_of_mem c hd)) hcs0
      funext st
      show (walkElement collapse (prune isSkipped c) st >>= walkElements collapse (pruneAll isSkipped cs)) =
        walkElement collapse c st >>= walkElements collapse cs
      rw [hc, hcs]

theorem walkChildren_prune {cs : List Node}
    (h : ∀ c ∈ cs, leaked c = 0 → walkElement collapse (prune isSkipped c) = walkElement collapse c)
    (h0 : leakedInAll cs = 0) : walkChildren collapse (pruneAll isSkipped cs) = walkChildren collapse cs := by
  induction cs with
  | nil => rfl
  | cons c cs ih =>
      obtain ⟨hc0, hcs0⟩ := Nat.add_eq_zero_iff.mp h0
      have hc := h c List.mem_cons_self hc0
      have hcs := ih (fun d hd => h d (List.mem_cons_of_mem c hd)) hcs0
      funext st
      cases c with
      | text t =>
          show (collapse t >>= fun s => walkChildren collapse (pruneAll isSkipped cs) (pushText st s)) = _
          rw [hcs, walkChildren]
      | elem name attrs gs =>
          show (walkElement collapse (prune isSkipped (.elem name attrs gs)) st >>=
            walkChildren collapse (pruneAll isSkipped cs)) = _
          rw [hc, hcs, walkChildren]
      | other gs => exact congrFun hcs st

theorem walkItems_prune {cs : List Node}
    (h : ∀ c ∈ cs, leakedInAll c.children = 0 →
      walkChildren collapse (pruneAll isSkipped c.children) = walkChildren collapse c.children)
    (h0 : leakedInItems cs = 0) (idx : Nat) :
    walkItems collapse (pruneAll isSkipped cs) idx = walkItems collapse cs idx := by
  induction cs generalizing idx with
  | nil => rfl
  | cons c cs ih =>
      have hcs := ih fun d hd => h d (List.mem_cons_of_mem c hd)
      funext st
      cases c with
      | text t => exact congrFun (hcs h0 idx) st
      | other gs => exact congrFun (hcs h0 idx) st
      | elem name attrs gs =>
          obtain ⟨hc0, hcs0⟩ := Nat.add_eq_zero_iff.mp h0
          -- a skipped item would be a leak
          have hname : isSkipped name = false := by
            cases hs : isSkipped name with
            | true => simp [hs] at hc0
            | false => rfl
          rw [hname] at hc0
          have hc := h _ List.mem_cons_self hc0
          rw [Node.children_elem] at hc
          rw [pruneAll, editAll, edit, hname, walkItems, walkItems]
          show (walkChildren collapse (pruneAll isSkipped gs) _ >>= fun st =>
            walkItems collapse (pruneAll isSkipped cs) (idx + 1) (st.push "\n")) = _
          rw [hc, hcs hcs0 (idx + 1)]

/-- **Without leaks the walk does not see what is below skipped elements.** -/
theorem walk_prune (n : Node) :
    (leaked n = 0 → walkElement collapse (prune isSkipped n) = walkElement collapse n) ∧
      (leakedInAll n.children = 0 →
        walkChildren collapse (pruneAll isSkipped n.children) = walkChildren collapse n.children) := by
  induction n using Node.induct with
  | step n ih =>
      have hchildren := walkChildren_prune fun c hc => (ih c hc).1
      have helements := walkElements_prune fun c hc => (ih c hc).1
      have hitems := walkItems_prune fun c hc => (ih c hc).2
      refine ⟨?_, hchildren⟩
      intro h0
      cases n with
      | text t => rfl
      | other cs => rfl
      | elem name attrs cs =>
          rw [Node.children_elem] at hchildren helements hitems
          funext st
          cases hs : isSkipped name with
          | true => rw [prune, edit, hs, walkElement, walkElement, armOf_of_isSkipped hs]
          | false =>
              rw [leaked] at h0
              rw [prune, edit, hs, walkElement, walkElement]
              simp only [Bool.false_eq_true, if_false]
              rw [← pruneAll]
              cases harm : armOf name attrs with
              | block lead => rw [harm] at h0; simp only [hchildren h0]
              | inline before after => rw [harm] at h0; simp only [hchildren h0]
              | leaf text => rfl
              | blockquote => rw [harm] at h0; simp only [hchildren h0]
              | pre =>
                  -- no skipped element below, so that pruning changes nothing
                  rw [harm] at h0
                  have hsame : pruneAll isSkipped cs = cs := Node.other.inj (edit_eq_self (n := .other cs) h0)
                  rw [hsame]
              | code => simp only [pruneAll, childTexts_editAll]
              | ul => rw [harm] at h0; simp only [helements h0]
              | ol => rw [harm] at h0; simp only [hitems h0]
              | li => rw [harm] at h0; simp only [hchildren h0]

end NoLeak

/-! ## Whole pages -/

theorem domToMarkdownDoc_of_walk {collapse : Text → Except Panic Text} {doc : List Node} {st : Md}
    (h : walkElements collapse doc { md := [], listDepth := 0 } = .ok st) :
    domToMarkdownDoc collapse doc = .ok (trim (squeeze 0 st.md)) := by
  rw [domToMarkdownDoc, h]
  exact cleanupMd_eq st.md

theorem domToMarkdownDoc_of_panic {collapse : Text → Except Panic Text} {doc : List Node} {panic : Panic}
    (h : walkElements collapse doc { md := [], listDepth := 0 } = .error panic) :
    domToMarkdownDoc collapse doc = .error panic := by
  rw [domToMarkdownDoc, h]
  rfl

section Page

variable {collapse : Text → Except Panic Text} {bad : Text → Prop} {panic : Panic}

/-- A page panics if the collapser does on one of its pieces, and otherwise shows all their marks. -/
theorem domToMarkdownDoc_takes (hcol : Collapses collapse bad panic) (doc : List Node) :
    (SomeBad bad (elementPieces doc) → domToMarkdownDoc collapse doc = .error panic) ∧
      (¬ SomeBad bad (elementPieces doc) →
        ∃ md, domToMarkdownDoc collapse doc = .ok md ∧ marks md = marksOf (elementPieces doc)) := by
  have htakes := (takes_rules hcol).page doc
  obtain ⟨herr, hok⟩ := htakes { md := [], listDepth := 0 }
  constructor
  · intro hbad
    exact domToMarkdownDoc_of_panic (herr hbad)
  · intro hbad
    obtain ⟨st, hwalk, hmarks, -⟩ := hok hbad
    refine ⟨trim (squeeze 0 st.md), domToMarkdownDoc_of_walk hwalk, ?_⟩
    rw [marks_congr (solid_trim _), marks_congr (solid_squeeze 0 _), hmarks]
    exact Nat.zero_add _

/-- Without leaks the output is that of the pruned page. -/
theorem domToMarkdownDoc_prune {doc : List Node} (h : leakedInAll doc = 0) :
    domToMarkdownDoc collapse (pruneAll isSkipped doc) = domToMarkdownDoc collapse doc := by
  have hwalk := walkElements_prune (fun c (_ : c ∈ doc) => (@walk_prune collapse c).1) h
  rw [domToMarkdownDoc, domToMarkdownDoc, hwalk]

/-- **The output is the same for all pages that differ below skipped elements only, exactly if the page does not leak**,
    or if all of them panic, which they do if a text outside skipped elements makes the collapser panic. -/
theorem domToMarkdownDoc_agree_iff (hcol : Collapses collapse bad panic) (hx : ¬ bad "x") (doc : List Node) :
    (∀ doc', AgreeOutside isSkipped doc doc' → domToMarkdownDoc collapse doc' = domToMarkdownDoc collapse doc) ↔
      ¬ Leaks doc ∨ SomeBad bad (elementPieces (pruneAll isSkipped doc)) := by
  constructor
  · intro hall
    by_contra hnot
    rw [not_or, not_not] at hnot
    obtain ⟨hleaks, hgood⟩ := hnot
    -- the pruned page and the marked page differ by the marks of the leaks
    obtain ⟨hmarks, htexts⟩ := leakRel_marked.page doc
    have hgood' : ¬ SomeBad bad (elementPieces (editAll isSkipped marked doc)) := by
      rintro ⟨t, ht, hbad⟩
      rcases htexts t ht with hmem | rfl
      · exact hgood ⟨t, hmem, hbad⟩
      · exact hx hbad
    obtain ⟨md, hrun, hmd⟩ := (domToMarkdownDoc_takes hcol (pruneAll isSkipped doc)).2 hgood
    obtain ⟨md', hrun', hmd'⟩ := (domToMarkdownDoc_takes hcol (editAll isSkipped marked doc)).2 hgood'
    have hpruned := hall (pruneAll isSkipped doc) (pruneAll_editAll doc).symm
    have hmarked := hall (editAll isSkipped marked doc) (pruneAll_editAll doc).symm
    have hsame : md' = md := by
      rw [hrun] at hpruned
      rw [hrun', ← hpruned] at hmarked
      exact Except.ok.inj hmarked
    rw [hsame, hmd, hmarks] at hmd'
    exact hleaks (by omega)
  · rintro (hclean | hbad) doc' hagree
    · have h0 : leakedInAll doc = 0 := not_not.mp hclean
      have h0' : leakedInAll doc' = 0 := by
        rw [← leakedInAll_edit (fun _ => []) doc', ← pruneAll, ← hagree, pruneAll, leakedInAll_edit, h0]
      rw [← domToMarkdownDoc_prune h0, ← domToMarkdownDoc_prune h0', hagree]
    · have hpanics (page : List Node) (hpage : pruneAll isSkipped page = pruneAll isSkipped doc) :
          domToMarkdownDoc collapse page = .error panic := by
        apply (domToMarkdownDoc_takes hcol page).1
        obtain ⟨t, ht, hbad⟩ := hbad
        have hmem := (leakRel_collapsed id).page page t
        rw [editAll_id, hpage] at hmem
        exact ⟨t, hmem ht, hbad⟩
      rw [hpanics doc rfl, hpanics doc' hagree.symm]

end Page

/-- A text that the `x86_64` collapser panics on. -/
def LoneText (t : Text) : Prop := ∃ k, LoneTrailing (chunkAt t k)

theorem collapses_collapseWhitespace (profile : Profile) :
    Collapses (collapseWhitespace profile) LoneText (lonePanic profile) where
  ok := fun _ h => collapseWhitespace_ok (fun k hk => h ⟨k, hk⟩) profile
  panics := fun _ h => collapseWhitespace_lone h profile

/-- **`dom_to_markdown` hides what is below skipped elements exactly if the page does not leak**, or panics on a text
    outside them whatever is below them. -/
theorem domToMarkdown_agree_iff (profile : Profile) (doc : List Node) :
    (∀ doc', AgreeOutside isSkipped doc doc' → domToMarkdown profile doc' = domToMarkdown profile doc) ↔
      ¬ Leaks doc ∨ SomeBad LoneText (elementPieces (pruneAll isSkipped doc)) := by
  have hx : ¬ LoneText "x" := by
    rintro ⟨k, hk⟩
    have hle := byteLen_chunkAt_le ("x" : Text) k
    have hlone := hk.le_byteLen
    have hone : byteLen ("x" : Text) = 1 := rfl
    omega
  exact domToMarkdownDoc_agree_iff (collapses_collapseWhitespace profile) hx doc

/-- A script in a numbered list is printed. -/
theorem ol_script_leaks :
    AgreeOutside isSkipped [.elem "ol" [] [.elem "script" [] [.text "secret"]]] [.elem "ol" [] [.elem "script" [] []]] ∧
      domToMarkdown .debug [.elem "ol" [] [.elem "script" [] [.text "secret"]]] = .ok "1. secret".toList ∧
      domToMarkdown .debug [.elem "ol" [] [.elem "script" [] []]] = .ok "1.".toList := by
  refine ⟨?_, ?_, ?_⟩
  · rfl
  · decide
  · decide

end Scrape
end McpWebSearch
