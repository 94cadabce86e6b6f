import McpWebSearch.Lib.History
import McpWebSearch.Correctness.Parts

/-!
# `Correctness.BlockText` — the texts of different blocks

Some blocks end with a newline or a space, some with nothing, and none begins with one; so the texts of two blocks may be
written without white space between them. `textScanner` remembers the block of the last text and whether there was white
space since. Of the parts of a page it needs no more than their marks (`Scanned`): texts, and white space between them.
`block_texts_iff`: the texts of different blocks are apart in the output exactly if they are on the page (`TextsApart`).
The output renders the texts in the order of the page, whatever it leaves out (`rendered_sublist`).
-/

namespace McpWebSearch
namespace Scrape

open Utf8 Dom Traced History Scanner

/-! ## Texts and what is between them -/

/-- The text node that a character of the output renders. White space is none of it. -/
def rendered (x : Char × Origin) : Option TextNode :=
  match x.2 with
  | .text node => if blank x then none else some node
  | _ => none

/-- The text node that is rendered last. -/
def lastText (b : Buffer) : Option TextNode := (b.filterMap rendered).getLast?

/-- What stands after its rendering. -/
def sinceText (b : Buffer) : Buffer := b.rtakeWhile fun x => (rendered x).isNone

/-- Two text nodes in different innermost blocks. -/
def InOtherBlock (u v : TextNode) : Prop := u.block.isSome = true ∧ v.block.isSome = true ∧ u.block ≠ v.block

instance (u v : TextNode) : Decidable (InOtherBlock u v) := inferInstanceAs (Decidable (_ ∧ _))

/-- Between the renderings of two text nodes that follow each other and are in different blocks there is white space. -/
def BlocksApart (out : Buffer) : Prop :=
  AtEach (fun before y => ∀ v, rendered y = some v → ∀ u, lastText before = some u → InOtherBlock u v →
    ∃ z ∈ sinceText before, blank z = true) out

/-! ## What separates the texts of a page -/

/-- What of a part matters for the texts around it: white space, or a text, and whether there is white space at its
    beginning and at its end. -/
inductive Mark
  | gap
  | text (node : TextNode) (lead trail : Bool)

def beginsBlank (t : Text) : Bool := t.head?.any isWhitespace
def endsBlank (t : Text) : Bool := t.getLast?.any isWhitespace

/-- The marks of a text as it is. -/
def textMarks (node : TextNode) (t : Text) : List Mark :=
  if solid t = [] then (if t = [] then [] else [.gap]) else [.text node (beginsBlank t) (endsBlank t)]

mutual

/-- The marks of a part. Only what is all ASCII white space is dropped outside of code and preformatted blocks. -/
def Part.marks : Part → List Mark
  | .text node t => if Blank t then [] else textMarks node t
  | .code node t => if solid t = [] then [] else [.text node false false]
  | .pre p _ => .gap :: (p.texts.flatMap (fun t => textMarks t.1 t.2) ++ [.gap])
  | .quote body => .gap :: (marksAll body ++ [.gap])
  | x => if x.spaces then [.gap] else []

def marksAll : List Part → List Mark
  | [] => []
  | x :: ts => x.marks ++ marksAll ts

end

/-- What may follow each other: two texts of different blocks with white space at the end of the first or at the beginning
    of the second. -/
def Mark.Apart : Mark → Mark → Prop
  | .text u _ trail, .text v lead _ => InOtherBlock u v → trail = true ∨ lead = true
  | .gap, _ | .text _ _ _, .gap => True

/-- Between the texts of different blocks there is white space on the page, at their ends or in the parts between them. -/
def TextsApart (doc : List Node) : Prop := (marksAll (pageParts doc)).IsChain Mark.Apart

/-! ## The scanner -/

structure TextState where
  last : Option TextNode
  blanks : Bool             -- whether there was white space since
  apart : Bool

/-- Whether a text node is written right after one of another block. -/
def TextState.collides (s : TextState) (v : TextNode) : Bool :=
  !s.blanks && s.last.any fun u => InOtherBlock u v

def TextState.next (s : TextState) (x : Char × Origin) : TextState :=
  match rendered x with
  | some v => ⟨some v, false, s.apart && !s.collides v⟩
  | none => { s with blanks := s.blanks || blank x }

def textScanner : Scanner TextState where
  step := TextState.next
  start := ⟨none, true, true⟩
  inner := ⟨none, true, true⟩
  quote s inner := ⟨inner.last.or s.last, true, s.apart && inner.apart⟩

/-- No text is written right after a text of another block. -/
def Separated (doc : List Node) : Prop := (textScanner.scanAll (pageLayout doc) textScanner.start).apart = true

instance (doc : List Node) : Decidable (Separated doc) := inferInstanceAs (Decidable (_ = _))

theorem rendered_of_blank {x : Char × Origin} (hx : blank x = true) : rendered x = none := by
  unfold rendered
  split
  · rw [if_pos hx]
  · rfl

theorem next_blank (s : TextState) {x : Char × Origin} (hx : blank x = true) : s.next x = { s with blanks := true } := by
  rw [TextState.next, rendered_of_blank hx, hx, Bool.or_true]

theorem textStep_blank {s : TextState} {c : Char} (o : Origin) (hc : isWhitespace c = true) :
    textScanner.step s (c, o) = { s with blanks := true } := next_blank s hc

theorem textRead_mark (s : TextState) (first : Bool) :
    textScanner.read (quoteMark first) s = { s with blanks := true } :=
  textStep_blank (s := s.next ('>', .quote first)) (.quote false) (by decide)

/-! ### A quotation on a page -/

/-- The states outside and inside of a quotation that begins at a state `s`. -/
structure Within (s outer inner : TextState) : Prop where
  last : outer.last = inner.last.or s.last
  blanks : outer.blanks = inner.blanks
  apart : outer.apart = (s.apart && inner.apart)
  first : inner.last = none → inner.blanks = true

theorem Within.step {s outer inner : TextState} (h : Within s outer inner) (x : Char × Origin) :
    Within s (outer.next x) (inner.next x) := by
  unfold TextState.next
  cases rendered x with
  | none =>
      refine ⟨h.last, congrArg (· || blank x) h.blanks, h.apart, ?_⟩
      intro hnone
      show (inner.blanks || blank x) = true
      rw [h.first hnone, Bool.true_or]
  | some v =>
      refine ⟨rfl, rfl, ?_, fun hnone => nomatch hnone⟩
      show (outer.apart && !outer.collides v) = (s.apart && (inner.apart && !inner.collides v))
      have hcollides : outer.collides v = inner.collides v := by
        unfold TextState.collides
        rw [h.last, h.blanks]
        cases hlast : inner.last with
        | some u => rfl
        | none =>
            -- the first text of the quotation comes after the blank of a mark
            rw [h.first hlast]
            rfl
      rw [h.apart, hcollides, Bool.and_assoc]

theorem Within.mark {s outer inner : TextState} (h : Within s outer inner) (hblanks : inner.blanks = true) (first : Bool) :
    Within s (textScanner.read (quoteMark first) outer) inner := by
  rw [textRead_mark]
  exact ⟨h.last, hblanks.symm, h.apart, h.first⟩

/-- Outside of a quotation the texts follow each other as inside, after what was written before. -/
theorem textScanner_lawful : textScanner.Lawful := by
  have hnl : isWhitespace '\n' = true := by decide
  have hblanks (inner : TextState) {x : Char × Origin} (hx : (x.1 == '\n') = true) : (inner.next x).blanks = true := by
    have hblank : blank x = true := by
      unfold blank
      rw [eq_of_beq hx]
      exact hnl
    rw [next_blank inner hblank]
  apply Lawful.of_related (R := fun s start outer inner => Within s outer inner ∧ (start = true → inner.blanks = true))
  · intro s o o'
    rw [textStep_blank o hnl, textStep_blank o' hnl]
  · intro s o o'
    rw [textStep_blank o (by decide), textStep_blank o' hnl, textStep_blank o' hnl]
  · intro s x
    have hmark : Within s (textScanner.read (quoteMark true) s) textScanner.inner := by
      rw [textRead_mark]
      exact ⟨rfl, rfl, (Bool.and_true s.apart).symm, fun _ => rfl⟩
    exact ⟨hmark.step x, hblanks _⟩
  · rintro s start outer inner x ⟨h, hstart⟩
    cases start with
    | false => exact ⟨h.step x, hblanks inner⟩
    | true => exact ⟨(h.mark (hstart rfl) false).step x, hblanks inner⟩
  · rintro s start outer inner ⟨h, -⟩
    rw [newline, textStep_blank .plain hnl, h.last, h.apart]
    rfl

/-! ## What the scanner says of an output -/

theorem lastText_concat (b : Buffer) (x : Char × Origin) :
    lastText (b ++ [x]) = (rendered x).or (lastText b) := by
  unfold lastText
  rw [List.filterMap_append, List.getLast?_append]
  cases hx : rendered x <;> simp [hx]

theorem sinceText_concat (b : Buffer) (x : Char × Origin) :
    sinceText (b ++ [x]) = if (rendered x).isNone then sinceText b ++ [x] else [] := by
  unfold sinceText
  cases hx : rendered x with
  | none => rw [List.rtakeWhile_concat_pos _ _ _ (by simp [hx])]; rfl
  | some v => rw [List.rtakeWhile_concat_neg _ _ _ (by simp [hx])]; rfl

/-- A text node collides with the last text unless white space stands between, or both are in one block. -/
theorem collides_eq_false_iff {b : Buffer} {s : TextState} (hlast : s.last = lastText b)
    (hblanks : s.blanks = true ↔ lastText b = none ∨ ∃ z ∈ sinceText b, blank z = true) (v : TextNode) :
    s.collides v = false ↔ ∀ u, lastText b = some u → InOtherBlock u v → ∃ z ∈ sinceText b, blank z = true := by
  rw [TextState.collides, Bool.and_eq_false_iff, Bool.not_eq_false', hblanks, hlast]
  cases lastText b with
  | none => simp
  | some u =>
      show ((some u = none ∨ _) ∨ decide (InOtherBlock u v) = false) ↔ _
      rw [decide_eq_false_iff_not]
      constructor
      · rintro ((hnone | hblank) | hsame) u' hu hother
        · cases hnone
        · exact hblank
        · rw [← Option.some.inj hu] at hother
          exact absurd hother hsame
      · intro h
        by_cases hother : InOtherBlock u v
        · exact .inl (.inr (h u rfl hother))
        · exact .inr hother

/-- Which text is the last, whether there is white space after it, and whether the texts of blocks are apart. -/
theorem read_texts (b : Buffer) :
    let s := textScanner.read b textScanner.start
    s.last = lastText b ∧ (s.blanks = true ↔ lastText b = none ∨ ∃ z ∈ sinceText b, blank z = true) ∧
      (s.apart = true ↔ BlocksApart b) := by
  induction b using List.reverseRecOn with
  | nil => exact ⟨rfl, iff_of_true rfl (.inl rfl), iff_of_true rfl atEach_nil⟩
  | append_singleton b x ih =>
      obtain ⟨hlast, hblanks, hapart⟩ := ih
      rw [read_concat]
      show (TextState.next _ x).last = _ ∧ ((TextState.next _ x).blanks = true ↔ _) ∧ ((TextState.next _ x).apart = true ↔ _)
      generalize textScanner.read b textScanner.start = s at hlast hblanks hapart
      rw [BlocksApart, atEach_snoc, ← BlocksApart, ← hapart, lastText_concat, sinceText_concat, TextState.next]
      cases hx : rendered x with
      | none =>
          refine ⟨hlast, ?_, ?_⟩
          · show (s.blanks || blank x) = true ↔ lastText b = none ∨ ∃ z ∈ sinceText b ++ [x], blank z = true
            rw [Bool.or_eq_true, hblanks]
            simp only [List.mem_append, List.mem_singleton, or_and_right, exists_or, exists_eq_left, or_assoc]
          · show s.apart = true ↔ _
            simp
      | some v =>
          refine ⟨rfl, ?_, ?_⟩
          · apply iff_of_false Bool.noConfusion
            simp
          · show (s.apart && !s.collides v) = true ↔ _
            rw [Bool.and_eq_true, Bool.not_eq_true', collides_eq_false_iff hlast hblanks]
            simp only [Option.some.injEq, forall_eq']

/-! ## The order of the texts -/

/-- The text nodes of a document in its order, each as often as it has characters that are not white space. -/
def textsInOrder (ts : List (TextNode × Text)) : List TextNode := ts.flatMap fun t => (solid t.2).map fun _ => t.1

theorem textsInOrder_append (ts us : List (TextNode × Text)) :
    textsInOrder (ts ++ us) = textsInOrder ts ++ textsInOrder us := List.flatMap_append

mutual

/-- The renderings that an operation writes. -/
def Op.texts : Op → List TextNode
  | .put w => w.traced.filterMap rendered
  | .endLine => []
  | .quote body => textsAll body

def textsAll : List Op → List TextNode
  | [] => []
  | op :: ops => op.texts ++ textsAll ops

end

theorem textsAll_append (ops ops' : List Op) : textsAll (ops ++ ops') = textsAll ops ++ textsAll ops' := by
  induction ops with
  | nil => rfl
  | cons op ops ih => rw [List.cons_append, textsAll, ih, textsAll, List.append_assoc]

theorem filterMap_rendered_of_origin {b : Buffer} (hb : ∀ x ∈ b, ∀ node, x.2 ≠ .text node) : b.filterMap rendered = [] := by
  apply List.filterMap_eq_nil_iff.mpr
  intro x hx
  unfold rendered
  split
  · rename_i node hnode
    exact absurd hnode (hb x hx node)
  · rfl

theorem filterMap_rendered_ofText {o : Origin} (ho : ∀ node, o ≠ .text node) (t : Text) :
    (ofText o t).filterMap rendered = [] := by
  apply filterMap_rendered_of_origin
  intro x hx
  rw [origin_of_mem_ofText hx]
  exact ho

theorem filterMap_rendered_text (node : TextNode) (t : Text) :
    (ofText (.text node) t).filterMap rendered = (solid t).map fun _ => node := by
  induction t with
  | nil => rfl
  | cons c t ih =>
      show List.filterMap rendered ((c, .text node) :: ofText (.text node) t) = _
      have hrendered : rendered (c, .text node) = if isWhitespace c then none else some node := rfl
      cases hc : isWhitespace c with
      | true => rw [List.filterMap_cons, hrendered, hc, solid_cons_blank hc, ← ih]; rfl
      | false => rw [List.filterMap_cons, hrendered, hc, solid_cons_solid hc, List.map_cons, ← ih]; rfl

theorem filterMap_rendered_stripReturns (b : Buffer) : (stripReturns b).filterMap rendered = b.filterMap rendered := by
  induction b with
  | nil => rfl
  | cons x b ih =>
      rw [stripReturns]
      split
      · rename_i hreturn
        have hblank : blank x = true := by
          unfold blank
          rw [hreturn.1]
          decide
        rw [ih, List.filterMap_cons, rendered_of_blank hblank]
      · rw [List.filterMap_cons, List.filterMap_cons, ih]

theorem filterMap_rendered_quoteFrom (first start : Bool) (b : Buffer) :
    (quoteFrom first start b).filterMap rendered = b.filterMap rendered := by
  induction b generalizing first start with
  | nil => cases start <;> rfl
  | cons x b ih =>
      have hmark : (if start then quoteMark first else []).filterMap rendered = [] := by
        cases start <;> rfl
      rw [quoteFrom, List.filterMap_append, hmark, List.nil_append, List.filterMap_cons, List.filterMap_cons, ih]

/-- The marks of a quotation are no texts, and the carriage returns it drops are white space. -/
theorem filterMap_rendered_quoteBuffer (b : Buffer) : (quoteBuffer b).filterMap rendered = b.filterMap rendered := by
  rw [quoteBuffer, filterMap_rendered_quoteFrom, filterMap_rendered_stripReturns]

theorem filterMap_rendered_runAll (ops : List Op) (b : Buffer) :
    (runAll ops b).filterMap rendered = b.filterMap rendered ++ textsAll ops := by
  have hall {ops : List Op} (h : ∀ op ∈ ops, ∀ b, (op.run b).filterMap rendered = b.filterMap rendered ++ op.texts)
      (b : Buffer) : (runAll ops b).filterMap rendered = b.filterMap rendered ++ textsAll ops := by
    induction ops generalizing b with
    | nil => exact (List.append_nil _).symm
    | cons op ops ih =>
        rw [runAll, ih (fun op' hop' => h op' (List.mem_cons_of_mem op hop')), h op List.mem_cons_self, textsAll,
          List.append_assoc]
  have hop (op : Op) (b : Buffer) : (op.run b).filterMap rendered = b.filterMap rendered ++ op.texts := by
    induction op using Op.induct generalizing b with
    | put w => exact List.filterMap_append
    | endLine =>
        rw [Op.run, closeLine, Op.texts, List.append_nil]
        split
        · rfl
        · exact List.filterMap_append.trans (List.append_nil _)
    | quote body ih =>
        have hnewline : [newline].filterMap rendered = [] := rfl
        rw [Op.run, List.filterMap_append, List.filterMap_append, hnewline, List.append_nil,
          filterMap_rendered_quoteBuffer, hall ih, Op.texts]
        rfl
  exact hall (fun op _ => hop op) b

theorem filterMap_rendered_squeezeBuffer (n : Nat) (b : Buffer) :
    (squeezeBuffer n b).filterMap rendered = b.filterMap rendered := by
  induction b generalizing n with
  | nil => rfl
  | cons x b ih =>
      rw [squeezeBuffer]
      split
      · rename_i hnl
        have hblank : blank x = true := by
          unfold blank
          rw [hnl]
          decide
        split
        · rw [List.filterMap_cons, List.filterMap_cons, ih]
        · rw [List.filterMap_cons, rendered_of_blank hblank, ih]
      · rw [List.filterMap_cons, List.filterMap_cons, ih]

theorem filterMap_rendered_trim (b : Buffer) : (Traced.trim b).filterMap rendered = b.filterMap rendered := by
  have hblanks {l : Buffer} (hl : ∀ x ∈ l, blank x = true) : l.filterMap rendered = [] :=
    List.filterMap_eq_nil_iff.mpr fun x hx => rendered_of_blank (hl x hx)
  have hleft : (b.dropWhile blank).filterMap rendered = b.filterMap rendered := by
    have hsplit := congrArg (List.filterMap rendered) (List.takeWhile_append_dropWhile (p := blank) (l := b))
    rwa [List.filterMap_append, hblanks fun x hx => List.mem_takeWhile_imp hx, List.nil_append] at hsplit
  rw [← hleft, Traced.trim]
  have hsplit := congrArg (List.filterMap rendered) (List.rdropWhile_append_rtakeWhile (p := blank) (l := b.dropWhile blank))
  rwa [List.filterMap_append, hblanks fun x hx => List.mem_rtakeWhile_imp hx, List.append_nil] at hsplit

theorem filterMap_rendered_output (doc : List Node) :
    (output doc).filterMap rendered = textsAll (pageLayout doc) := by
  rw [output, filterMap_rendered_trim, filterMap_rendered_squeezeBuffer, filterMap_rendered_runAll]
  rfl

theorem texts_plain (t : Text) : (Op.put (.plain t)).texts = [] := filterMap_rendered_ofText (fun _ => Origin.noConfusion) t
theorem texts_item (it : Item) : (Op.put (.item it)).texts = [] :=
  filterMap_rendered_ofText (fun _ => Origin.noConfusion) it.marker

theorem texts_marker (t : Text) : (Op.put (.marker t)).texts = [] := by
  cases t with
  | nil => rfl
  | cons c t => exact filterMap_rendered_ofText (fun _ => Origin.noConfusion) t

theorem texts_pre (p : Pre) : (Op.put (.pre p)).texts = textsInOrder p.texts := by
  have hplain (t : Text) := filterMap_rendered_ofText (o := .plain) (fun _ => Origin.noConfusion) t
  have hbody : p.body.filterMap rendered = textsInOrder p.texts := by
    have hend : (if p.content.getLast?.getD '\n' = '\n' then [] else [newline]).filterMap rendered = [] := by
      split <;> rfl
    rw [Pre.body, List.filterMap_append, hend, List.append_nil, textsInOrder]
    induction p.texts with
    | nil => rfl
    | cons t ts ih =>
        rw [List.flatMap_cons, List.flatMap_cons, List.filterMap_append, filterMap_rendered_text, ih]
  show List.filterMap rendered (('`', Origin.fence p) :: p.fenced) = _
  have hfence : rendered ('`', Origin.fence p) = none := rfl
  rw [List.filterMap_cons, hfence, Pre.fenced, List.filterMap_append, List.filterMap_append, hplain, hplain, hbody,
    List.nil_append, List.append_nil]

theorem verbatimAll_congr {cs : List Node}
    (h : ∀ c ∈ cs, ∀ x y : Spot, x.node = y.node → x.block = y.block → verbatim x c = verbatim y c) {x y : Spot}
    (hnode : x.node = y.node) (hblock : x.block = y.block) (i : Nat) : verbatimAll x i cs = verbatimAll y i cs := by
  induction cs generalizing i with
  | nil => rfl
  | cons c cs ih =>
      have hc := h c List.mem_cons_self (x.child i 0) (y.child i 0) (congrArg (i :: ·) hnode) hblock
      rw [verbatimAll, verbatimAll, hc, ih fun d hd => h d (List.mem_cons_of_mem c hd)]

theorem inside_block_congr {x y : Spot} (hnode : x.node = y.node) (hblock : x.block = y.block) (name : Text) :
    (x.inside name).block = (y.inside name).block := by
  show (if oneOf name blockElements then some x.node else x.block) = _
  rw [hnode, hblock]
  rfl

/-- Of a spot only the node and the block matter for the texts. -/
theorem verbatim_congr (n : Node) {x y : Spot} (hnode : x.node = y.node) (hblock : x.block = y.block) :
    verbatim x n = verbatim y n := by
  induction n using Node.induct generalizing x y with
  | step n ih =>
      have hchildren {x y : Spot} (hnode : x.node = y.node) (hblock : x.block = y.block) :
          verbatimAll x 0 n.children = verbatimAll y 0 n.children :=
        verbatimAll_congr (fun c hc _ _ => ih c hc) hnode hblock 0
      cases n with
      | text t =>
          rw [verbatim, verbatim, Spot.textNode, Spot.textNode, hnode, hblock]
      | elem name attrs cs => exact hchildren (x := x.inside name) (y := y.inside name) hnode (inside_block_congr hnode hblock name)
      | other cs => exact hchildren hnode hblock

theorem textsAll_layoutAll {p : Place} {cs : List Node} (h : ∀ c ∈ cs, ∀ x y : Spot, x.node = y.node → x.block = y.block →
      (textsAll (layout p x c)).Sublist (textsInOrder (verbatim y c))) {x y : Spot} (hnode : x.node = y.node)
    (hblock : x.block = y.block) (i number : Nat) :
    (textsAll (layoutAll p x i number cs)).Sublist (textsInOrder (verbatimAll y i cs)) := by
  induction cs generalizing i number with
  | nil => exact List.Sublist.refl []
  | cons c cs ih =>
      rw [layoutAll, verbatimAll, textsAll_append, textsInOrder_append]
      have hc := h c List.mem_cons_self (x.child i number) (y.child i 0) (congrArg (i :: ·) hnode) hblock
      exact hc.append (ih (fun d hd => h d (List.mem_cons_of_mem c hd)) (i + 1) (number + elementCount c))

/-- What an arm writes around the children of an element is no text. -/
theorem textsAll_around {op : Op} {ops after : List Op} (hop : op.texts = []) (hafter : textsAll after = []) :
    textsAll (op :: (ops ++ after)) = textsAll ops := by
  rw [textsAll, hop, List.nil_append, textsAll_append, hafter, List.append_nil]

theorem textsAll_layout (n : Node) (p : Place) {x y : Spot} (hnode : x.node = y.node) (hblock : x.block = y.block) :
    (textsAll (layout p x n)).Sublist (textsInOrder (verbatim y n)) := by
  induction n using Node.induct generalizing p x y with
  | step n ih =>
      cases n with
      | text t =>
          have htexts {t' : Text} (h : solid t' = solid t) :
              textsAll [.put (.text x.textNode t')] = textsInOrder (verbatim y (.text t)) := by
            have hsame : x.textNode = y.textNode := by
              unfold Spot.textNode
              rw [hnode, hblock]
            show List.filterMap rendered (ofText (.text x.textNode) t') ++ [] = _
            rw [List.append_nil, filterMap_rendered_text, h, hsame]
            exact (List.append_nil _).symm
          cases p with
          | element => exact List.nil_sublist _
          | item => exact List.nil_sublist _
          | child => exact (htexts (solid_shown t)) ▸ List.Sublist.refl _
          | code => exact (htexts (solid_trim t)) ▸ List.Sublist.refl _
      | other cs => cases p <;> exact List.nil_sublist _
      | elem name attrs cs =>
          have hblock' := inside_block_congr hnode hblock name
          have hchildren (p : Place) {x' : Spot} (hnode' : x'.node = y.node) (hblock' : x'.block = (y.inside name).block) :
              (textsAll (layoutAll p x' 0 1 cs)).Sublist (textsInOrder (verbatimAll (y.inside name) 0 cs)) :=
            textsAll_layoutAll (y := y.inside name) (fun c hc x y hnode hblock => ih c hc p hnode hblock) hnode' hblock' 0 1
          have hline : textsAll [.put (.plain "\n")] = [] := rfl
          have hend : textsAll [.endLine, .put (.plain "\n")] = [] := rfl
          have harm : (textsAll (layout .element x (.elem name attrs cs))).Sublist
              (textsInOrder (verbatimAll (y.inside name) 0 cs)) := by
            simp only [layout]
            cases armOf name attrs with
            | block lead =>
                rw [textsAll_around (texts_marker lead) hend]
                exact hchildren .child hnode hblock'
            | inline before after =>
                have hafter : textsAll [.put (.plain after)] = [] := by
                  rw [textsAll, texts_plain]
                  rfl
                rw [textsAll_around (texts_plain before) hafter]
                exact hchildren .child hnode hblock'
            | leaf text =>
                have hleaf : textsAll [.put (if oneOf name ["hr"] then .marker text else .plain text)] = [] := by
                  rw [textsAll]
                  split
                  · rw [texts_marker]
                    rfl
                  · rw [texts_plain]
                    rfl
                rw [hleaf]
                exact List.nil_sublist _
            | blockquote =>
                show (textsAll (layoutAll .child (x.inside name) 0 1 cs) ++ []).Sublist _
                rw [List.append_nil]
                exact hchildren .child hnode hblock'
            | pre =>
                show ((Op.put (.pre _)).texts ++ []).Sublist _
                rw [List.append_nil, texts_pre, verbatimAll_congr (x := x.inside name) (y := y.inside name)
                  (fun c _ _ _ => verbatim_congr c) hnode hblock' 0]
            | code =>
                rw [textsAll_around (texts_plain _) rfl]
                exact hchildren .code hnode hblock'
            | ul =>
                rw [textsAll_append, hend, List.append_nil]
                exact hchildren .element hnode hblock'
            | ol =>
                rw [textsAll_append, hline, List.append_nil]
                exact hchildren .item hnode hblock'
            | li =>
                rw [textsAll_around (texts_item _) hline]
                exact hchildren .child hnode hblock'
          cases p with
          | element => exact harm
          | child => exact harm
          | code => exact List.nil_sublist _
          | item =>
              rw [layout, textsAll_around (texts_item _) hline]
              exact hchildren .child hnode hblock'

/-- **The texts are rendered in the order of the document.** -/
theorem rendered_sublist (doc : List Node) :
    ((output doc).filterMap rendered).Sublist (textsInOrder (verbatimAll Spot.root 0 doc)) := by
  rw [filterMap_rendered_output]
  exact textsAll_layoutAll (fun c _ x y hnode hblock => textsAll_layout c .element hnode hblock) rfl rfl 0 1

theorem blocksApart_output (doc : List Node) : BlocksApart (output doc) ↔ Separated doc := by
  have haccept : Separated doc ↔ (textScanner.read (output doc) textScanner.start).apart = true := by
    apply accept_output textScanner_lawful (fun s => s.apart = true)
    · intro x hx
      exact next_blank textScanner.start hx
    · intro s x hx
      show (s.next x).apart = true ↔ _
      rw [next_blank s hx]
  rw [haccept]
  exact (read_texts (output doc)).2.2.symm

/-! ## The scanner over the parts -/

theorem read_untexted {b : Buffer} (hb : b.filterMap rendered = []) (s : TextState) :
    textScanner.read b s = { s with blanks := s.blanks || (erase b).any isWhitespace } := by
  induction b generalizing s with
  | nil =>
      rw [read_nil, erase_nil, List.any_nil, Bool.or_false]
  | cons x b ih =>
      have hx : rendered x = none := by
        cases hx : rendered x with
        | none => rfl
        | some v =>
            rw [List.filterMap_cons, hx] at hb
            cases hb
      rw [List.filterMap_cons, hx] at hb
      have hstep : textScanner.step s x = { s with blanks := s.blanks || isWhitespace x.1 } := by
        show s.next x = _
        rw [TextState.next, hx]
        rfl
      rw [read_cons, ih hb, hstep, erase_cons, List.any_cons, Bool.or_assoc]

theorem next_solid (s : TextState) (v : TextNode) {c : Char} (hc : isWhitespace c = false) :
    s.next (c, .text v) = ⟨some v, false, s.apart && !s.collides v⟩ := by
  have hrendered : rendered ((c, Origin.text v) : Char × Origin) = some v := by
    show (if isWhitespace c then none else some v) = some v
    rw [hc]
    rfl
  rw [TextState.next, hrendered]

theorem not_inOtherBlock_self (v : TextNode) : ¬ InOtherBlock v v := fun h => h.2.2 rfl

/-- A text of a node is the last one after it, and collides with the one before if none of the two has white space there. -/
theorem read_text (v : TextNode) (t : Text) (s : TextState) :
    textScanner.read (ofText (.text v) t) s =
      if solid t = [] then { s with blanks := s.blanks || !t.isEmpty }
      else ⟨some v, endsBlank t, s.apart && !TextState.collides { s with blanks := s.blanks || beginsBlank t } v⟩ := by
  induction t using List.reverseRecOn with
  | nil => simp [ofText, read_nil]
  | append_singleton t c ih =>
      rw [ofText_append, read_append, ih]
      show TextState.next _ (c, .text v) = _
      have hends : endsBlank (t ++ [c]) = isWhitespace c := by
        rw [endsBlank, List.getLast?_concat]
        rfl
      have hbegins (ht : t ≠ []) : beginsBlank (t ++ [c]) = beginsBlank t := by
        rw [beginsBlank, List.head?_append_of_ne_nil t ht, beginsBlank]
      have hempty : (t ++ [c]).isEmpty = false := by simp
      rw [hends, hempty]
      cases hc : isWhitespace c with
      | true =>
          have hsolid : solid (t ++ [c]) = solid t := solid_concat_blank hc t
          have hblank : blank ((c, Origin.text v) : Char × Origin) = true := hc
          rw [next_blank _ hblank, hsolid]
          by_cases ht : solid t = []
          · rw [if_pos ht, if_pos ht]
            simp
          · have hne : t ≠ [] := by
              rintro rfl
              exact ht rfl
            rw [if_neg ht, if_neg ht, hbegins hne]
      | false =>
          have hsolid : solid (t ++ [c]) ≠ [] := by
            rw [solid_append, solid_cons_solid hc]
            simp
          rw [if_neg hsolid, next_solid _ v hc]
          by_cases ht : solid t = []
          · have hlead : (!t.isEmpty) = beginsBlank (t ++ [c]) := by
              cases t with
              | nil =>
                  show false = (isWhitespace c)
                  exact hc.symm
              | cons d t =>
                  have hd : isWhitespace d = true := by
                    by_contra hd
                    rw [solid_cons_solid (Bool.not_eq_true _ ▸ hd)] at ht
                    cases ht
                  exact hd.symm
            rw [if_pos ht, hlead]
          · -- the text goes on
            have hne : t ≠ [] := by
              rintro rfl
              exact ht rfl
            have hself : TextState.collides
                ⟨some v, endsBlank t, s.apart && !TextState.collides { s with blanks := s.blanks || beginsBlank t } v⟩ v =
                  false := by
              show (!endsBlank t && decide (InOtherBlock v v)) = false
              rw [decide_eq_false (not_inOtherBlock_self v), Bool.and_false]
            rw [if_neg ht, hself, hbegins hne, Bool.not_false, Bool.and_true]

/-- What the state of the scanner says of the marks that it has come across. -/
structure Scanned (ms : List Mark) (s : TextState) : Prop where
  text : ∀ u lead trail, ms.getLast? = some (.text u lead trail) → s.last = some u ∧ s.blanks = trail
  gap : (∀ u lead trail, ms.getLast? ≠ some (.text u lead trail)) → s.blanks = true
  apart : s.apart = true ↔ ms.IsChain Mark.Apart

theorem scanned_nil : Scanned [] textScanner.start where
  text _ _ _ h := nomatch h
  gap _ := rfl
  apart := iff_of_true rfl List.IsChain.nil

namespace Scanned

variable {ms us : List Mark} {s : TextState}

/-- White space separates whatever is around it. -/
theorem isChain_gap : (ms ++ Mark.gap :: us).IsChain Mark.Apart ↔ ms.IsChain Mark.Apart ∧ us.IsChain Mark.Apart := by
  have hbefore (m : Mark) : m.Apart .gap := by cases m <;> trivial
  rw [List.isChain_append, List.isChain_cons]
  constructor
  · rintro ⟨hms, ⟨-, hus⟩, -⟩
    exact ⟨hms, hus⟩
  · rintro ⟨hms, hus⟩
    refine ⟨hms, ⟨fun m _ => trivial, hus⟩, fun m _ n hn => ?_⟩
    rw [List.head?_cons, Option.mem_some_iff] at hn
    rw [← hn]
    exact hbefore m

/-- After white space. -/
theorem of_gap {s' : TextState} (h : (ms ++ [Mark.gap]).IsChain Mark.Apart ↔ s'.apart = true) (hblanks : s'.blanks = true) :
    Scanned (ms ++ [.gap]) s' where
  text _ _ _ hlast := by
    rw [List.getLast?_concat] at hlast
    cases hlast
  gap _ := hblanks
  apart := h.symm

theorem concat_gap (h : Scanned ms s) : Scanned (ms ++ [.gap]) { s with blanks := true } := by
  apply of_gap _ rfl
  rw [isChain_gap, ← h.apart]
  exact and_iff_left List.IsChain.nil

/-- What is no text. -/
theorem untexted (h : Scanned ms s) {b : Buffer} (hb : b.filterMap rendered = []) :
    Scanned (ms ++ if (erase b).any isWhitespace then [.gap] else []) (textScanner.read b s) := by
  rw [read_untexted hb]
  cases (erase b).any isWhitespace with
  | true =>
      rw [Bool.or_true]
      exact h.concat_gap
  | false =>
      rw [Bool.or_false, if_neg Bool.false_ne_true, List.append_nil]
      exact h

/-- A text of a node. -/
theorem written (h : Scanned ms s) (v : TextNode) (t : Text) :
    Scanned (ms ++ textMarks v t) (textScanner.read (ofText (.text v) t) s) := by
  rw [read_text, textMarks]
  by_cases hsolid : solid t = []
  · rw [if_pos hsolid, if_pos hsolid]
    cases t with
    | nil =>
        rw [if_pos rfl, List.append_nil, List.isEmpty_nil, Bool.not_true, Bool.or_false]
        exact h
    | cons c t =>
        rw [if_neg (List.cons_ne_nil c t), List.isEmpty_cons, Bool.not_false, Bool.or_true]
        exact h.concat_gap
  · rw [if_neg hsolid, if_neg hsolid]
    refine ⟨?_, ?_, ?_⟩
    · intro u lead trail hlast
      rw [List.getLast?_concat, Option.some.injEq, Mark.text.injEq] at hlast
      obtain ⟨rfl, -, rfl⟩ := hlast
      exact ⟨rfl, rfl⟩
    · intro hnone
      exact absurd List.getLast?_concat (hnone v (beginsBlank t) (endsBlank t))
    · rw [Bool.and_eq_true, h.apart, Bool.not_eq_true', List.isChain_append]
      have hsingle : [Mark.text v (beginsBlank t) (endsBlank t)].IsChain Mark.Apart := List.isChain_singleton _
      have hcollides : TextState.collides { s with blanks := s.blanks || beginsBlank t } v = false ↔
          ∀ m ∈ ms.getLast?, m.Apart (.text v (beginsBlank t) (endsBlank t)) := by
        unfold TextState.collides
        rw [Bool.and_eq_false_iff, Bool.not_eq_false', Bool.or_eq_true]
        cases hlast : ms.getLast? with
        | none =>
            have hblanks := h.gap (by simp [hlast])
            exact iff_of_true (.inl (.inl hblanks)) (fun m hm => nomatch hm)
        | some m =>
            cases m with
            | gap =>
                have hblanks := h.gap (by simp [hlast])
                refine iff_of_true (.inl (.inl hblanks)) fun m hm => ?_
                rw [← Option.mem_some_iff.mp hm]
                trivial
            | text u lead trail =>
                obtain ⟨hu, hblanks⟩ := h.text u lead trail hlast
                have hother : (s.last.any fun u => decide (InOtherBlock u v)) = false ↔ ¬ InOtherBlock u v := by
                  rw [hu]
                  exact decide_eq_false_iff_not
                rw [hother, hblanks]
                simp only [Option.mem_def, Option.some.injEq, forall_eq']
                show _ ↔ (InOtherBlock u v → trail = true ∨ beginsBlank t = true)
                rw [imp_iff_not_or, or_comm]
      rw [hcollides]
      simp [hsingle]

/-- The texts of a preformatted block, as they are. -/
theorem verbatim (h : Scanned ms s) (ts : List (TextNode × Text)) :
    Scanned (ms ++ ts.flatMap fun t => textMarks t.1 t.2)
      (textScanner.read (ts.flatMap fun t => ofText (.text t.1) t.2) s) := by
  induction ts generalizing ms s with
  | nil =>
      rw [List.flatMap_nil, List.append_nil]
      exact h
  | cons t ts ih =>
      rw [List.flatMap_cons, List.flatMap_cons, ← List.append_assoc, read_append]
      exact ih (h.written t.1 t.2)

/-- The fences are lines of their own. -/
theorem pre (h : Scanned ms s) (p : Pre) :
    Scanned (ms ++ .gap :: (p.texts.flatMap (fun t => textMarks t.1 t.2) ++ [.gap]))
      (textScanner.read (Writing.pre p).traced s) := by
  have hplain (t : Text) := filterMap_rendered_ofText (o := .plain) (fun _ => Origin.noConfusion) t
  have hopen := h.untexted (b := ('`', .fence p) :: ofText .plain "``\n") (hplain "``\n")
  have htexts := hopen.verbatim p.texts
  have hnone : (p.closing ++ [newline]).filterMap rendered = [] := by
    rw [List.filterMap_append, List.append_eq_nil_iff]
    refine ⟨filterMap_rendered_of_origin fun x hx => ?_, rfl⟩
    rw [origin_closing hx]
    exact fun _ => Origin.noConfusion
  have hspaces : (erase (p.closing ++ [newline])).any isWhitespace = true := by
    rw [erase_append, List.any_append, Bool.or_eq_true]
    exact .inr rfl
  have hclose := htexts.untexted hnone
  rw [hspaces, if_pos rfl] at hclose
  have hfirst : (erase (('`', Origin.fence p) :: ofText .plain "``\n")).any isWhitespace = true := rfl
  rw [hfirst, if_pos rfl] at hclose
  rw [traced_pre, read_append, read_append]
  simpa only [List.append_assoc, List.cons_append, List.nil_append] using hclose

end Scanned

theorem textMarks_shown (node : TextNode) (t : Text) :
    textMarks node (shown t) = if Blank t then [] else textMarks node t := by
  have hwhite (c : Char) : isWhitespace (collapsedChar c) = isWhitespace c := by
    unfold collapsedChar
    split
    · rename_i hc
      rw [isWhitespace_of_isAsciiWhitespace hc]
      decide
    · rfl
  have hends (o : Option Char) : (o.map collapsedChar).any isWhitespace = o.any isWhitespace := by
    cases o with
    | none => rfl
    | some c => exact hwhite c
  rw [textMarks, solid_shown, shown_eq]
  by_cases ht : Blank t
  · have hsolid : solid t = [] := by
      apply List.filter_eq_nil_iff.mpr
      intro c hc
      rw [isWhitespace_of_isAsciiWhitespace (ht c hc)]
      decide
    rw [if_pos ht, if_pos ht, if_pos hsolid, if_pos rfl]
  · have hnil : collapseRuns t = [] ↔ t = [] := by
      rw [← List.head?_eq_none_iff, head?_collapseRuns, Option.map_eq_none_iff, List.head?_eq_none_iff]
    rw [if_neg ht, if_neg ht, textMarks, beginsBlank, endsBlank, head?_collapseRuns, getLast?_collapseRuns, hends, hends]
    simp only [hnil]
    rfl

theorem textMarks_trim (node : TextNode) (t : Text) :
    textMarks node (trim t) = if solid t = [] then [] else [.text node false false] := by
  have hends {o : Option Char} (ho : ∀ c ∈ o, isWhitespace c = false) : o.any isWhitespace = false := by
    cases o with
    | none => rfl
    | some c => exact ho c rfl
  rw [textMarks, solid_trim]
  by_cases ht : solid t = []
  · have htrim : trim t = [] := by
      apply trim_eq_nil_iff.mpr
      intro c hc
      have hnot := List.filter_eq_nil_iff.mp ht c hc
      simpa using hnot
    rw [if_pos ht, if_pos ht, if_pos htrim]
  · rw [if_neg ht, if_neg ht, beginsBlank, endsBlank, hends fun c hc => Utf8.head_trim hc, hends fun c hc => Utf8.last_trim hc]

/-- What is written for markup is no text. -/
theorem filterMap_rendered_markup {x : Part} (hx : x.isMarkup = true) : x.traced.filterMap rendered = [] := by
  apply List.filterMap_eq_nil_iff.mpr
  intro y hy
  unfold rendered
  rcases origin_markup hx y hy with horigin | horigin
  · rw [horigin]
  · rw [horigin]

namespace Scanned

variable {ms : List Mark} {s : TextState}

/-- A part without texts. -/
theorem plain (h : Scanned ms s) {x : Part} (hquote : x.isQuote = false) (hx : x.traced.filterMap rendered = []) :
    Scanned (ms ++ if x.spaces then [.gap] else []) (textScanner.scanAll x.ops s) := by
  have hspaces : (erase x.traced).any isWhitespace = x.spaces := congrArg Shape.spaces (shape_traced hquote)
  rw [scanAll_ops textScanner hquote, ← hspaces]
  exact h.untexted hx

theorem all {ts : List Part} (hts : ∀ x ∈ ts, ∀ {ms s}, Scanned ms s → Scanned (ms ++ x.marks) (textScanner.scanAll x.ops s))
    (h : Scanned ms s) : Scanned (ms ++ marksAll ts) (textScanner.scanAll (opsAll ts) s) := by
  induction ts generalizing ms s with
  | nil =>
      rw [marksAll, List.append_nil]
      exact h
  | cons x ts ih =>
      rw [marksAll, ← List.append_assoc, opsAll, scanAll_append]
      exact ih (fun y hy => hts y (List.mem_cons_of_mem x hy)) (hts x List.mem_cons_self h)

/-- A quotation is a text of its own, with white space around it. -/
theorem quote (h : Scanned ms s) {body : List Part}
    (hbody : Scanned (marksAll body) (textScanner.scanAll (opsAll body) textScanner.inner)) :
    Scanned (ms ++ .gap :: (marksAll body ++ [.gap])) (textScanner.scanAll [.quote (opsAll body)] s) := by
  have hchain : (ms ++ Mark.gap :: (marksAll body ++ [.gap])).IsChain Mark.Apart ↔
      s.apart = true ∧ (textScanner.scanAll (opsAll body) textScanner.inner).apart = true := by
    rw [isChain_gap, isChain_gap, h.apart, hbody.apart]
    simp
  have hlist : ms ++ Mark.gap :: (marksAll body ++ [.gap]) = ms ++ Mark.gap :: marksAll body ++ [.gap] := by
    rw [List.append_assoc, List.cons_append]
  rw [hlist] at hchain ⊢
  show Scanned _ (if (opsAll body).any Op.writes then textScanner.quote s _ else textScanner.step s newline)
  cases hwrites : (opsAll body).any Op.writes with
  | true =>
      apply of_gap _ rfl
      rw [hchain]
      exact (Bool.and_eq_true _ _).symm.to_iff
  | false =>
      -- nothing is written of it
      have hstate : textScanner.scanAll (opsAll body) textScanner.inner = textScanner.inner := by
        have hread := scanAll_eq_foldl textScanner_lawful (opsAll body) [] textScanner.inner
        rwa [(runAll_eq_nil_iff _).mpr hwrites] at hread
      rw [hstate] at hchain
      have hnl : textScanner.step s newline = { s with blanks := true } := textStep_blank .plain (by decide)
      rw [if_neg Bool.false_ne_true, hnl]
      apply of_gap _ rfl
      rw [hchain]
      exact and_iff_left rfl

/-- **The scanner goes over a part as its marks say.** -/
theorem part (x : Part) (h : Scanned ms s) : Scanned (ms ++ x.marks) (textScanner.scanAll x.ops s) := by
  induction x using Part.induct generalizing ms s with
  | step x ih =>
      cases x with
      | text node t =>
          have hwritten := h.written node (shown t)
          rw [textMarks_shown] at hwritten
          exact hwritten
      | code node t =>
          have hwritten := h.written node (trim t)
          rw [textMarks_trim] at hwritten
          exact hwritten
      | start name attrs => exact h.plain rfl (filterMap_rendered_markup rfl)
      | stop name attrs => exact h.plain rfl (filterMap_rendered_markup rfl)
      | void name attrs => exact h.plain rfl (filterMap_rendered_markup rfl)
      | item it =>
          have hitem : (Part.item it).traced.filterMap rendered = [] :=
            (congrArg (List.filterMap rendered) (List.append_nil _)).trans (texts_item it)
          exact h.plain rfl hitem
      | itemEnd => exact h.plain (x := .itemEnd) rfl (filterMap_rendered_markup rfl)
      | pre p blocks => exact h.pre p
      | quote body => exact h.quote (all (fun y hy _ _ => ih body rfl y hy) scanned_nil)

end Scanned

theorem separated_iff_textsApart (doc : List Node) : Separated doc ↔ TextsApart doc := by
  rw [Separated, pageLayout_eq_opsAll]
  exact (Scanned.all (fun x _ _ _ => Scanned.part x) scanned_nil).apart

/-- **The texts of different blocks have white space between them in the output, exactly if they have on the page**: at
    their ends, or in the parts between them. The output renders them in their order. -/
theorem block_texts_iff (doc : List Node) :
    domToMarkdownDoc reference doc = .ok (erase (output doc)) ∧
      ((output doc).filterMap rendered).Sublist (textsInOrder (verbatimAll Spot.root 0 doc)) ∧
      (BlocksApart (output doc) ↔ TextsApart doc) :=
  ⟨domToMarkdownDoc_eq_output doc, rendered_sublist doc, (blocksApart_output doc).trans (separated_iff_textsApart doc)⟩


/-- A term and its definition. -/
def definitionList : List Node :=
  [.elem "dl" [] [.elem "dt" [] [.text "Term"], .elem "dd" [] [.text "Definition"]]]

theorem definition_glued :
    domToMarkdownDoc reference definitionList = .ok "TermDefinition" ∧ ¬ BlocksApart (output definitionList) := by
  constructor
  · decide
  · rw [blocksApart_output]
    decide

end Scrape
end McpWebSearch
