import McpWebSearch.Correctness.PlainText
import McpWebSearch.Correctness.Scanner

/-!
# `Correctness.Parts` — the parts of a page, in the order of reading

What a page is to a reader who goes through it from the top: where an element begins and where it ends, the texts
between, quotations with their parts, preformatted blocks as a whole (`Part`, `pageParts`). `parts` is defined by the
names of elements alone. So are the tables of this module: which parts end the line that they are on (`Part.ends`), which
leave something on it (`Part.inks`), which can be seen at all (`Part.shows`). `layoutAll_eq_opsAll`: the walk does for
each part what depends on that part only. `written`: and what it writes there is as the tables say.
-/

namespace McpWebSearch
namespace Scrape

open Utf8 Dom Traced

/-! ## Elements by name -/

def headings : List String := ["h1", "h2", "h3", "h4", "h5", "h6"]

/-- The elements that are marked at both ends. -/
def inlineElements : List String := ["a", "strong", "b", "em", "i", "del", "s", "q", "sub", "sup", "code", "kbd"]

/-- The elements after which a line ends. -/
def lineElements : List String := headings ++ ["p", "ul", "ol", "tr", "table"]

def cells : List String := ["td", "th"]

/-- The elements of which nothing inside is taken. -/
def voidElements : List String := ["br", "hr", "img", "iframe"] ++ skippedElements

/-- The elements that are treated by their names. -/
def namedElements : List String :=
  lineElements ++ inlineElements ++ cells ++ voidElements ++ ["blockquote", "pre", "li"]

/-- How the parts of an element are found. -/
inductive Form
  | void
  | quote
  | pre
  | item
  | within (p : Place)     -- between its beginning and its end
  deriving DecidableEq

def formOf (name : Text) : Form :=
  if oneOf name voidElements then .void
  else if oneOf name ["blockquote"] then .quote
  else if oneOf name ["pre"] then .pre
  else if oneOf name ["li"] then .item
  else if oneOf name ["code", "kbd"] then .within .code
  else if oneOf name ["ul"] then .within .element
  else if oneOf name ["ol"] then .within .item
  else .within .child

/-! ## Parts -/

inductive Part
  | text (node : TextNode) (t : Text)
  | code (node : TextNode) (t : Text)      -- a text in `code` or `kbd`
  | start (name : Text) (attrs : List (Text × Text))
  | stop (name : Text) (attrs : List (Text × Text))
  | item (it : Item)
  | itemEnd
  | void (name : Text) (attrs : List (Text × Text))
  | pre (p : Pre) (blocks : List Path)     -- with the marked blocks inside
  | quote (body : List Part)

/-- A part may be shown to have a property from the parts inside it. -/
theorem Part.induct {P : Part → Prop} (step : ∀ x : Part, (∀ body, x = .quote body → ∀ y ∈ body, P y) → P x) (x : Part) :
    P x := by
  have hleaf {x : Part} (hx : ∀ body, x ≠ .quote body) : P x := step x fun body h => absurd h (hx body)
  refine @Part.rec P (fun ts => ∀ y ∈ ts, P y) ?_ ?_ ?_ ?_ ?_ ?_ ?_ ?_ ?_ ?_ ?_ x
  · intro node t
    exact hleaf fun _ => Part.noConfusion
  · intro node t
    exact hleaf fun _ => Part.noConfusion
  · intro name attrs
    exact hleaf fun _ => Part.noConfusion
  · intro name attrs
    exact hleaf fun _ => Part.noConfusion
  · intro it
    exact hleaf fun _ => Part.noConfusion
  · exact hleaf fun _ => Part.noConfusion
  · intro name attrs
    exact hleaf fun _ => Part.noConfusion
  · intro p blocks
    exact hleaf fun _ => Part.noConfusion
  · intro body ih
    apply step
    intro body' h
    rw [← Part.quote.inj h]
    exact ih
  · simp
  · intro y ts hy hts z hz
    rcases List.mem_cons.mp hz with rfl | hz
    · exact hy
    · exact hts z hz

mutual

/-- The marked blocks at and below a node. -/
def markedBelow (node : Path) : Node → List Path
  | .text _ => []
  | .elem name _ cs => (if oneOf name markedBlocks then [node] else []) ++ markedBelowAll node 0 cs
  | .other cs => markedBelowAll node 0 cs

def markedBelowAll (node : Path) (i : Nat) : List Node → List Path
  | [] => []
  | c :: cs => markedBelow (i :: node) c ++ markedBelowAll node (i + 1) cs

end

mutual

/-- The parts of a node at a place. -/
def parts : Place → Spot → Node → List Part
  | .child, x, .text t => [.text x.textNode t]
  | .code, x, .text t => [.code x.textNode t]
  | .element, _, .text _ => []
  | .item, _, .text _ => []
  | _, _, .other _ => []
  | .code, _, .elem _ _ _ => []
  | .item, x, .elem name _ cs =>
      .item (x.item (some x.number) name) ::
        (partsAll .child { x.inside name with depth := x.depth, quoted := x.quoted, list := none } 0 1 cs ++ [.itemEnd])
  | _, x, .elem name attrs cs =>
      match formOf name with
      | .void => [.void name attrs]
      | .quote => [.quote (partsAll .child (x.inside name) 0 1 cs)]
      | .pre => [.pre ⟨x.node, x.quoted, verbatimAll (x.inside name) 0 cs⟩ (markedBelowAll x.node 0 cs)]
      | .item => .item (x.item none name) :: (partsAll .child (x.inside name) 0 1 cs ++ [.itemEnd])
      | .within p => .start name attrs :: (partsAll p (x.inside name) 0 1 cs ++ [.stop name attrs])

def partsAll : Place → Spot → Nat → Nat → List Node → List Part
  | _, _, _, _, [] => []
  | p, x, i, number, c :: cs => parts p (x.child i number) c ++ partsAll p x (i + 1) (number + elementCount c) cs

end

/-- The parts of a document. -/
def pageParts (doc : List Node) : List Part := partsAll .element Spot.root 0 1 doc

/-! ## Lines of parts -/

namespace Part

/-- The line ends with the part. -/
def ends : Part → Bool
  | .stop name _ => oneOf name lineElements
  | .void name _ => oneOf name ["br", "hr"]
  | .itemEnd | .pre _ _ | .quote _ => true
  | .text _ _ | .code _ _ | .start _ _ | .item _ => false

/-- A frame with an address, which is shown. -/
def isFrame (name : Text) (attrs : List (Text × Text)) : Bool := oneOf name ["iframe"] && !(attr attrs "src").isEmpty

/-- The part leaves something on the line, be it a space. -/
def inks : Part → Bool
  | .text _ t => !decide (Blank t)
  | .code _ t => !(solid t).isEmpty
  | .start name _ => oneOf name (headings ++ inlineElements)
  | .stop name _ => oneOf name (inlineElements ++ cells)
  | .void name attrs => oneOf name ["img"] || isFrame name attrs
  | .item _ => true
  | .itemEnd | .pre _ _ | .quote _ => false

def writes (x : Part) : Bool := x.ends || x.inks

/-- There is something of the part that is not white space. -/
def shows : Part → Bool
  | .text _ t | .code _ t => !(solid t).isEmpty
  | .start name _ => oneOf name (headings ++ inlineElements)
  | .stop name _ => oneOf name inlineElements
  | .void name attrs => oneOf name ["hr", "img"] || isFrame name attrs
  | .item _ | .pre _ _ => true
  | .quote body => body.any writes
  | .itemEnd => false

/-- There is white space in the part. -/
def spaces : Part → Bool
  | .text _ t => !decide (Blank t) && t.any isWhitespace
  | .code _ t => (trim t).any isWhitespace
  | .start name _ => oneOf name headings
  | .stop name attrs =>
      oneOf name (lineElements ++ cells) || (oneOf name ["a"] && (attr attrs "href").any isWhitespace)
  | .void name attrs =>
      oneOf name ["br", "hr"] || isFrame name attrs ||
        (oneOf name ["img"] && ((attr attrs "alt").any isWhitespace || (attr attrs "src").any isWhitespace))
  | .item _ | .itemEnd | .pre _ _ | .quote _ => true

end Part

/-- The parts that are on the last line. -/
def onLine (ts : List Part) : List Part := ts.rtakeWhile fun t => !t.ends

/-- Without the parts before anything is seen. -/
def started (ts : List Part) : List Part := ts.dropWhile fun t => !t.shows

theorem onLine_concat (ts : List Part) (x : Part) : onLine (ts ++ [x]) = if x.ends then [] else onLine ts ++ [x] := by
  unfold onLine
  cases hx : x.ends with
  | true => exact List.rtakeWhile_concat_neg _ _ _ (by simp [hx])
  | false => exact List.rtakeWhile_concat_pos _ _ _ (by simp [hx])

theorem started_concat {ts : List Part} (hts : started ts ≠ []) (x : Part) : started (ts ++ [x]) = started ts ++ [x] := by
  unfold started at hts ⊢
  rw [List.dropWhile_append, if_neg (by simpa using hts)]

/-- The first part that is seen. -/
theorem started_first {ts : List Part} (hts : started ts = []) (x : Part) :
    started (ts ++ [x]) = if x.shows then [x] else [] := by
  unfold started at hts ⊢
  rw [List.dropWhile_append, hts]
  cases hx : x.shows <;> simp [hx]

/-! ## What the walk does for a part -/

mutual

def Part.ops : Part → List Op
  | .text node t => [.put (.text node (shown t))]
  | .code node t => [.put (.text node (trim t))]
  | .start name attrs =>
      match armOf name attrs with
      | .block lead => [.put (.marker lead)]
      | .inline before _ => [.put (.plain before)]
      | .code => [.put (.plain "`")]
      | _ => []
  | .stop name attrs =>
      match armOf name attrs with
      | .block _ | .ul => [.endLine, .put (.plain "\n")]
      | .inline _ after => [.put (.plain after)]
      | .code => [.put (.plain "`")]
      | .ol => [.put (.plain "\n")]
      | _ => []
  | .item it => [.put (.item it)]
  | .itemEnd => [.put (.plain "\n")]
  | .void name attrs =>
      match armOf name attrs with
      | .leaf text => [.put (if oneOf name ["hr"] then .marker text else .plain text)]
      | _ => []
  | .pre p _ => [.put (.pre p)]
  | .quote body => [.quote (opsAll body)]

def opsAll : List Part → List Op
  | [] => []
  | x :: ts => x.ops ++ opsAll ts

end

theorem opsAll_append (ts us : List Part) : opsAll (ts ++ us) = opsAll ts ++ opsAll us := by
  induction ts with
  | nil => rfl
  | cons x ts ih => rw [List.cons_append, opsAll, ih, opsAll, List.append_assoc]

theorem opsAll_singleton (x : Part) : opsAll [x] = x.ops := List.append_nil _

theorem opsAll_around (x y : Part) (ts : List Part) : opsAll (x :: (ts ++ [y])) = x.ops ++ (opsAll ts ++ y.ops) := by
  rw [opsAll, opsAll_append, opsAll_singleton]

/-! ### Names and arms -/

/-- An element is treated by its name, or as all others are. -/
theorem element_cases {P : Text → Prop} (named : ∀ s ∈ namedElements, P s.toList)
    (other : ∀ name, (∀ l, l ⊆ namedElements → oneOf name l = false) → P name) (name : Text) : P name := by
  cases hname : oneOf name namedElements with
  | true =>
      obtain ⟨s, hs, heq⟩ := List.any_eq_true.mp hname
      rw [← eq_of_beq heq]
      exact named s hs
  | false =>
      apply other
      intro l hl
      rw [oneOf, List.any_eq_false] at hname ⊢
      exact fun s hs => hname s (hl hs)

theorem armOf_other {name : Text} (h : ∀ l, l ⊆ namedElements → oneOf name l = false) (attrs : List (Text × Text)) :
    armOf name attrs = .inline [] [] := by
  unfold armOf isSkipped
  iterate 24 rw [h _ (by decide)]
  simp only [Bool.false_eq_true, if_false]

def Arm.form : Arm → Form
  | .block _ | .inline _ _ => .within .child
  | .leaf _ => .void
  | .blockquote => .quote
  | .pre => .pre
  | .code => .within .code
  | .ul => .within .element
  | .ol => .within .item
  | .li => .item

theorem form_armOf (name : Text) (attrs : List (Text × Text)) : (armOf name attrs).form = formOf name := by
  -- the arms differ by attributes in their texts only
  have hattrs (name : Text) : (armOf name attrs).form = (armOf name []).form := by
    simp only [armOf, apply_ite Arm.form]
    rfl
  induction name using element_cases with
  | named s hs =>
      rw [hattrs]
      revert s
      decide +kernel
  | other name h =>
      rw [armOf_other h]
      unfold formOf
      iterate 7 rw [h _ (by decide)]
      rfl

/-! ### The walk, part by part -/

theorem layoutAll_of_layout {cs : List Node} {p : Place}
    (h : ∀ c ∈ cs, ∀ x : Spot, layout p x c = opsAll (parts p x c)) (x : Spot) (i number : Nat) :
    layoutAll p x i number cs = opsAll (partsAll p x i number cs) := by
  induction cs generalizing i number with
  | nil => rfl
  | cons c cs ih =>
      have hc := h c List.mem_cons_self (x.child i number)
      have hcs := ih (fun d hd => h d (List.mem_cons_of_mem c hd)) (i + 1) (number + elementCount c)
      rw [layoutAll, partsAll, opsAll_append, hc, hcs]

theorem layout_eq_opsAll (n : Node) (p : Place) (x : Spot) : layout p x n = opsAll (parts p x n) := by
  induction n using Node.induct generalizing p x with
  | step n ih =>
      have hchildren (p : Place) (x : Spot) :
          layoutAll p x 0 1 n.children = opsAll (partsAll p x 0 1 n.children) :=
        layoutAll_of_layout (fun c hc x => ih c hc p x) x 0 1
      cases n with
      | text t => cases p <;> rfl
      | other cs => cases p <;> rfl
      | elem name attrs cs =>
          rw [Node.children_elem] at hchildren
          have hform := form_armOf name attrs
          have harm (p : Place) (hp : p = .element ∨ p = .child) :
              layout p x (.elem name attrs cs) = opsAll (parts p x (.elem name attrs cs)) := by
            have hparts : layout p x (.elem name attrs cs) = layout .element x (.elem name attrs cs) ∧
                parts p x (.elem name attrs cs) = parts .element x (.elem name attrs cs) := by
              rcases hp with rfl | rfl
              · exact ⟨rfl, rfl⟩
              · exact ⟨rfl, rfl⟩
            rw [hparts.1, hparts.2]
            simp only [layout, parts]
            rw [← hform]
            cases harm : armOf name attrs with
            | block lead => simp only [Arm.form, opsAll_around, Part.ops, harm, hchildren]; rfl
            | inline before after => simp only [Arm.form, opsAll_around, Part.ops, harm, hchildren]; rfl
            | leaf text => simp only [Arm.form, opsAll_singleton, Part.ops, harm]
            | blockquote => simp only [Arm.form, opsAll_singleton, Part.ops, hchildren]
            | pre => simp only [Arm.form, opsAll_singleton, Part.ops]
            | code => simp only [Arm.form, opsAll_around, Part.ops, harm, hchildren]; rfl
            | ul => simp only [Arm.form, opsAll_around, Part.ops, harm, hchildren]; rfl
            | ol => simp only [Arm.form, opsAll_around, Part.ops, harm, hchildren]; rfl
            | li => simp only [Arm.form, opsAll_around, Part.ops, hchildren]; rfl
          cases p with
          | element => exact harm .element (.inl rfl)
          | child => exact harm .child (.inr rfl)
          | code => rfl
          | item =>
              rw [layout, parts, opsAll_around, hchildren]
              rfl

/-- **The walk goes from part to part**, and does for each what depends on that part only. -/
theorem pageLayout_eq_opsAll (doc : List Node) : pageLayout doc = opsAll (pageParts doc) :=
  layoutAll_of_layout (fun c _ x => layout_eq_opsAll c .element x) Spot.root 0 1

/-! ## What is written for a part -/

/-- What of a text matters for lines and words. -/
structure Shape where
  ends : Bool               -- its last character ends a line
  inks : Bool               -- it has a last character that does not
  shows : Bool
  spaces : Bool
  deriving DecidableEq

def shape (t : Text) : Shape :=
  ⟨t.getLast? == some '\n', t.getLast?.any (· != '\n'), !(solid t).isEmpty, t.any isWhitespace⟩

theorem shape_concat (t : Text) (c : Char) :
    shape (t ++ [c]) = ⟨c == '\n', c != '\n', (shape t).shows || !isWhitespace c, (shape t).spaces || isWhitespace c⟩ := by
  have hshows : (!(solid (t ++ [c])).isEmpty) = (!(solid t).isEmpty || !isWhitespace c) := by
    rw [solid_append]
    cases hc : isWhitespace c with
    | true => rw [solid_cons_blank hc, solid_nil, List.append_nil, Bool.not_true, Bool.or_false]
    | false =>
        rw [solid_cons_solid hc]
        simp
  rw [shape, List.getLast?_concat, hshows, List.any_append, List.any_cons, List.any_nil, Bool.or_false]
  rfl

/-- The characters of an operation that is no quotation. -/
def Op.traced : Op → Buffer
  | .put w => w.traced
  | .endLine => [newline]
  | .quote _ => []

/-- The characters of a part that is no quotation. -/
def Part.traced (x : Part) : Buffer := x.ops.flatMap Op.traced

/-! ### Arms -/

namespace Arm

def before : Arm → Text
  | .block lead => lead
  | .inline before _ => before
  | .code => "`"
  | .leaf _ | .blockquote | .pre | .ul | .ol | .li => []

def after : Arm → Text
  | .block _ | .ul => "\n\n"
  | .inline _ after => after
  | .code => "`"
  | .ol => "\n"
  | .leaf _ | .blockquote | .pre | .li => []

def whole : Arm → Text
  | .leaf text => text
  | .block _ | .inline _ _ | .code | .blockquote | .pre | .ul | .ol | .li => []

end Arm

theorem erase_start (name : Text) (attrs : List (Text × Text)) :
    erase (Part.start name attrs).traced = (armOf name attrs).before := by
  unfold Part.traced Part.ops
  cases armOf name attrs with
  | block lead => exact (congrArg erase (List.append_nil _)).trans (erase_marker lead)
  | inline before after => exact (congrArg erase (List.append_nil _)).trans (erase_ofText _ before)
  | _ => rfl

theorem erase_stop (name : Text) (attrs : List (Text × Text)) :
    erase (Part.stop name attrs).traced = (armOf name attrs).after := by
  unfold Part.traced Part.ops
  cases armOf name attrs with
  | inline before after => exact (congrArg erase (List.append_nil _)).trans (erase_ofText _ after)
  | _ => rfl

theorem erase_void (name : Text) (attrs : List (Text × Text)) :
    erase (Part.void name attrs).traced = (armOf name attrs).whole := by
  unfold Part.traced Part.ops
  cases armOf name attrs with
  | leaf text =>
      refine (congrArg erase (List.append_nil _)).trans ?_
      show erase (if oneOf name ["hr"] then Writing.marker text else Writing.plain text).traced = text
      split
      · exact erase_marker text
      · exact erase_ofText _ text
  | _ => rfl

theorem shape_before (name : Text) (attrs : List (Text × Text)) :
    shape (armOf name attrs).before =
      ⟨false, oneOf name (headings ++ inlineElements), oneOf name (headings ++ inlineElements), oneOf name headings⟩ := by
  have hattrs (name : Text) : (armOf name attrs).before = (armOf name []).before := by
    simp only [armOf, apply_ite Arm.before]
    rfl
  induction name using element_cases with
  | named s hs =>
      rw [hattrs]
      revert s
      decide +kernel
  | other name h =>
      rw [armOf_other h, h _ (by decide), h _ (by decide)]
      rfl

/-- A text that ends with a character that is not white space. -/
theorem shape_of_getLast? {t : Text} {c : Char} (hlast : t.getLast? = some c) (hc : isWhitespace c = false) :
    shape t = ⟨false, true, true, t.any isWhitespace⟩ := by
  have hne : c ≠ '\n' := by
    rintro rfl
    cases hc
  have hsolid : (solid t).isEmpty = false := by
    obtain ⟨init, rfl⟩ := List.getLast?_eq_some_iff.mp hlast
    rw [solid_append, solid_cons_solid hc]
    simp
  rw [shape, hlast, hsolid]
  simp [hne]

theorem shape_after (name : Text) (attrs : List (Text × Text)) :
    shape (armOf name attrs).after =
      ⟨oneOf name lineElements, oneOf name (inlineElements ++ cells), oneOf name inlineElements,
        oneOf name (lineElements ++ cells) || (oneOf name ["a"] && (attr attrs "href").any isWhitespace)⟩ := by
  cases hlink : oneOf name ["a"] with
  | true =>
      obtain rfl := oneOf_singleton.mp hlink
      have hafter : (armOf "a".toList attrs).after = "](" ++ attr attrs "href" ++ ")" := rfl
      have hspaces : (attr attrs "href").any isWhitespace = ("](" ++ attr attrs "href" ++ ")" : Text).any isWhitespace := by
        rw [List.any_append, List.any_append]
        simp [isWhitespace]
      have hlast : ("](" ++ attr attrs "href" ++ ")" : Text).getLast? = some ')' := List.getLast?_concat
      rw [hafter, shape_of_getLast? hlast (by decide), ← hspaces]
      rfl
  | false =>
      have hattrs {name : Text} (hlink : oneOf name ["a"] = false) : (armOf name attrs).after = (armOf name []).after := by
        simp only [armOf, apply_ite Arm.after, hlink]
        rfl
      rw [hattrs hlink, Bool.false_and, Bool.or_false]
      induction name using element_cases with
      | named s hs =>
          revert s
          decide +kernel
      | other name h =>
          rw [armOf_other h, h _ (by decide), h _ (by decide), h _ (by decide), h _ (by decide)]
          rfl

theorem shape_whole (name : Text) (attrs : List (Text × Text)) :
    shape (armOf name attrs).whole =
      ⟨oneOf name ["br", "hr"], oneOf name ["img"] || Part.isFrame name attrs,
        oneOf name ["hr", "img"] || Part.isFrame name attrs,
        oneOf name ["br", "hr"] || Part.isFrame name attrs ||
          (oneOf name ["img"] && ((attr attrs "alt").any isWhitespace || (attr attrs "src").any isWhitespace))⟩ := by
  unfold Part.isFrame
  cases himage : oneOf name ["img"] with
  | true =>
      obtain rfl := oneOf_singleton.mp himage
      have hwhole : (armOf "img".toList attrs).whole =
          ("![" ++ attr attrs "alt" ++ "](" ++ attr attrs "src" ++ ")" : Text) := rfl
      have hspaces : ("![" ++ attr attrs "alt" ++ "](" ++ attr attrs "src" ++ ")" : Text).any isWhitespace =
          ((attr attrs "alt").any isWhitespace || (attr attrs "src").any isWhitespace) := by
        simp [List.any_append, isWhitespace]
      have hlast : ("![" ++ attr attrs "alt" ++ "](" ++ attr attrs "src" ++ ")" : Text).getLast? = some ')' :=
        List.getLast?_concat
      rw [hwhole, shape_of_getLast? hlast (by decide), hspaces]
      rfl
  | false =>
      cases hframe : oneOf name ["iframe"] with
      | true =>
          obtain rfl := oneOf_singleton.mp hframe
          have hwhole : (armOf "iframe".toList attrs).whole =
              if (attr attrs "src").isEmpty then [] else ("[iframe: " ++ attr attrs "src" ++ "]" : Text) := rfl
          rw [hwhole]
          split
          · rename_i hempty
            rw [hempty]
            rfl
          · rename_i hsrc
            have hlast : ("[iframe: " ++ attr attrs "src" ++ "]" : Text).getLast? = some ']' := List.getLast?_concat
            have hspaces : ("[iframe: " ++ attr attrs "src" ++ "]" : Text).any isWhitespace = true := by
              simp [List.any_append, isWhitespace]
            rw [Bool.not_eq_true] at hsrc
            rw [shape_of_getLast? hlast (by decide), hspaces, hsrc]
            rfl
      | false =>
          have hattrs {name : Text} (himage : oneOf name ["img"] = false) (hframe : oneOf name ["iframe"] = false) :
              (armOf name attrs).whole = (armOf name []).whole := by
            simp only [armOf, apply_ite Arm.whole, himage, hframe]
            rfl
          rw [hattrs himage hframe, Bool.false_and, Bool.false_and, Bool.or_false, Bool.or_false, Bool.or_false, Bool.or_false]
          induction name using element_cases with
          | named s hs =>
              revert s
              decide +kernel
          | other name h =>
              rw [armOf_other h, h _ (by decide), h _ (by decide)]
              rfl

/-! ### Texts and markers -/

theorem solid_shown (t : Text) : solid (shown t) = solid t := by
  rw [← solid_referenceCollapse t]
  unfold shown
  split
  · rfl
  · rename_i h
    by_cases hnil : referenceCollapse t = []
    · rw [hnil]
    · by_cases hspace : referenceCollapse t = " "
      · rw [hspace]
        rfl
      · exact absurd ⟨hnil, hspace⟩ h

theorem any_collapseRuns (t : Text) : (collapseRuns t).any isWhitespace = t.any isWhitespace := by
  fun_induction collapseRuns t with
  | case1 => rfl
  | case2 c t hc ih =>
      have hspace : isWhitespace ' ' = true := by decide
      rw [List.any_cons, List.any_cons, hspace, isWhitespace_of_isAsciiWhitespace hc, Bool.true_or, Bool.true_or]
  | case3 c t hc ih => rw [List.any_cons, List.any_cons, ih]

/-- No newline is left in a collapsed text, and only a blank one is dropped. -/
theorem shape_shown (t : Text) :
    shape (shown t) = ⟨false, !decide (Blank t), !(solid t).isEmpty, !decide (Blank t) && t.any isWhitespace⟩ := by
  have hshows : (solid (shown t)).isEmpty = (solid t).isEmpty := by rw [solid_shown]
  rw [shape, hshows, shown_eq]
  by_cases ht : Blank t
  · rw [if_pos ht, decide_eq_true ht]
    rfl
  · rw [if_neg ht, decide_eq_false ht, any_collapseRuns, getLast?_collapseRuns]
    cases hlast : t.getLast? with
    | none =>
        rw [List.getLast?_eq_none_iff.mp hlast] at ht
        exact absurd (fun c hc => nomatch hc) ht
    | some c =>
        have hne : collapsedChar c ≠ '\n' := by
          unfold collapsedChar
          split
          · decide
          · rename_i hc
            rintro rfl
            exact hc (by decide)
        simp [hne]

theorem shape_trim (t : Text) : shape (trim t) = ⟨false, !(solid t).isEmpty, !(solid t).isEmpty, (trim t).any isWhitespace⟩ := by
  cases hlast : (trim t).getLast? with
  | none =>
      have hnil := List.getLast?_eq_none_iff.mp hlast
      rw [← solid_trim t, hnil]
      rfl
  | some c =>
      have hc : isWhitespace c = false := last_trim hlast
      have hshape := shape_of_getLast? hlast hc
      have hsolid : (solid t).isEmpty = false := by
        rw [← solid_trim t]
        exact (Bool.not_eq_true' _).mp (congrArg Shape.shows hshape)
      rw [hshape, hsolid]
      rfl

theorem isWhitespace_of_isDigit {c : Char} (hc : c.isDigit = true) : isWhitespace c = false := by
  obtain ⟨hlow, hhigh⟩ := Char.isDigit_iff_toNat.mp hc
  have hzero : '0'.toNat = 48 := rfl
  have hnine : '9'.toNat = 57 := rfl
  unfold isWhitespace
  simp only [Bool.or_eq_false_iff, Bool.and_eq_false_iff, beq_eq_false_iff_ne, decide_eq_false_iff_not]
  omega

/-- A marker is an indentation, a character that is not white space, and more on the same line, a space at last. -/
theorem exists_marker (it : Item) :
    ∃ c rest, it.marker = List.replicate (2 * (it.depth - 1)) ' ' ++ c :: rest ∧ isWhitespace c = false ∧
      (∀ d ∈ rest, d = ' ' ∨ isWhitespace d = false) ∧ (c :: rest).getLast? = some ' ' := by
  cases hnumber : it.number with
  | none =>
      refine ⟨'-', [' '], ?_, by decide, ?_, rfl⟩
      · rw [Item.marker, hnumber]
        rfl
      · intro d hd
        exact .inl (List.mem_singleton.mp hd)
  | some n =>
      obtain ⟨c, ds, hds⟩ := List.exists_cons_of_ne_nil (Nat.toDigits_ne_nil (n := n) (b := 10))
      have hdigit (d : Char) (hd : d ∈ c :: ds) : isWhitespace d = false := by
        rw [← hds] at hd
        exact isWhitespace_of_isDigit (Nat.isDigit_of_mem_toDigits (by decide) (by decide) hd)
      refine ⟨c, ds ++ ['.', ' '], ?_, hdigit c List.mem_cons_self, ?_, ?_⟩
      · rw [Item.marker, hnumber]
        show indent it.depth ++ (decimal n ++ ". ".toList) = _
        rw [decimal, hds]
        rfl
      · intro d hd
        rcases List.mem_append.mp hd with hd | hd
        · exact .inr (hdigit d (List.mem_cons_of_mem c hd))
        · rcases List.mem_cons.mp hd with rfl | hd
          · exact .inr (by decide)
          · exact .inl (List.mem_singleton.mp hd)
      · rw [← List.cons_append, List.getLast?_append]
        rfl

theorem mem_marker {it : Item} {d : Char} (hd : d ∈ it.marker) : d = ' ' ∨ isWhitespace d = false := by
  obtain ⟨c, rest, hmarker, hc, hrest, -⟩ := exists_marker it
  rw [hmarker] at hd
  rcases List.mem_append.mp hd with hd | hd
  · exact .inl (List.eq_of_mem_replicate hd)
  · rcases List.mem_cons.mp hd with rfl | hd
    · exact .inr hc
    · exact hrest d hd

theorem marker_ne_nil (it : Item) : it.marker ≠ [] := by
  obtain ⟨c, rest, hmarker, -⟩ := exists_marker it
  rw [hmarker]
  exact List.append_ne_nil_of_right_ne_nil _ (List.cons_ne_nil c rest)

theorem getLast?_marker (it : Item) : it.marker.getLast? = some ' ' := by
  obtain ⟨c, rest, hmarker, -, -, hlast⟩ := exists_marker it
  rw [hmarker, List.getLast?_append, hlast]
  rfl

theorem shape_marker (it : Item) : shape it.marker = ⟨false, true, true, true⟩ := by
  obtain ⟨c, rest, hmarker, hc, -, -⟩ := exists_marker it
  have hspaces : it.marker.any isWhitespace = true := by
    apply List.any_eq_true.mpr
    exact ⟨' ', List.mem_of_getLast? (getLast?_marker it), by decide⟩
  have hsolid : (solid it.marker).isEmpty = false := by
    rw [hmarker, solid_append, solid_cons_solid hc]
    simp
  rw [shape, getLast?_marker, hspaces, hsolid]
  rfl

/-- A preformatted block ends with the line of its fence, and an empty one. -/
theorem shape_pre (p : Pre) : shape (erase (Writing.pre p).traced) = ⟨true, false, true, true⟩ := by
  obtain ⟨t, ht⟩ : ∃ t, erase (Writing.pre p).traced = '`' :: (t ++ "```\n\n".toList) := by
    refine ⟨"``\n".toList ++ erase p.body, ?_⟩
    show erase (('`', Origin.fence p) :: p.fenced) = _
    rw [erase_cons, Pre.fenced, erase_append, erase_append, erase_ofText, erase_ofText, List.append_assoc]
  have hlast : ('`' :: (t ++ "```\n\n".toList)).getLast? = some '\n' := by
    rw [← List.cons_append, List.getLast?_append]
    rfl
  have hspaces : ('`' :: (t ++ "```\n\n".toList)).any isWhitespace = true :=
    List.any_eq_true.mpr ⟨'\n', List.mem_of_getLast? hlast, by decide⟩
  rw [ht, shape, hlast, hspaces, solid_cons_solid (by decide)]
  rfl

/-! ### Parts -/

def Op.isQuote : Op → Bool
  | .quote _ => true
  | .put _ | .endLine => false

def Part.isQuote : Part → Bool
  | .quote _ => true
  | .text _ _ | .code _ _ | .start _ _ | .stop _ _ | .item _ | .itemEnd | .void _ _ | .pre _ _ => false

/-- Only quotations are quoted. -/
theorem any_isQuote_ops (x : Part) : x.ops.any Op.isQuote = x.isQuote := by
  cases x with
  | start name attrs =>
      rw [Part.ops]
      split <;> rfl
  | stop name attrs =>
      rw [Part.ops]
      split <;> rfl
  | void name attrs =>
      rw [Part.ops]
      split <;> rfl
  | _ => rfl

def Part.shape (x : Part) : Shape := ⟨x.ends, x.inks, x.shows, x.spaces⟩

/-- **What is written for a part is as the tables say.** -/
theorem shape_traced {x : Part} (hx : x.isQuote = false) : Scrape.shape (erase x.traced) = x.shape := by
  have htext {o : Origin} {t : Text} {b : Buffer} (hb : b = ofText o t ++ []) {r : Shape} (ht : Scrape.shape t = r) :
      Scrape.shape (erase b) = r := by
    rw [hb, List.append_nil, erase_ofText, ht]
  cases x with
  | text node t => exact htext rfl (shape_shown t)
  | code node t => exact htext rfl (shape_trim t)
  | start name attrs => exact (congrArg Scrape.shape (erase_start name attrs)).trans (shape_before name attrs)
  | stop name attrs => exact (congrArg Scrape.shape (erase_stop name attrs)).trans (shape_after name attrs)
  | item it => exact htext rfl (shape_marker it)
  | itemEnd => rfl
  | void name attrs => exact (congrArg Scrape.shape (erase_void name attrs)).trans (shape_whole name attrs)
  | pre p blocks =>
      have htraced : (Part.pre p blocks).traced = (Writing.pre p).traced := List.append_nil _
      rw [htraced]
      exact shape_pre p
  | quote body => cases hx

/-- The beginning or the end of something, or an element without content. -/
def Part.isMarkup : Part → Bool
  | .start _ _ | .stop _ _ | .void _ _ | .itemEnd => true
  | .text _ _ | .code _ _ | .item _ | .pre _ _ | .quote _ => false

theorem mem_traced_put {w : Writing} {y : Char × Origin} (hy : y ∈ [Op.put w].flatMap Op.traced) : y ∈ w.traced := by
  rwa [List.flatMap_singleton] at hy

theorem origin_markup {x : Part} (hx : x.isMarkup = true) : ∀ y ∈ x.traced, y.2 = .plain ∨ y.2 = .marker := by
  have hplain {t : Text} {y : Char × Origin} (hy : y ∈ ofText Origin.plain t) : y.2 = .plain ∨ y.2 = .marker :=
    .inl (origin_of_mem_ofText hy)
  have hmarker {t : Text} {y : Char × Origin} (hy : y ∈ (Writing.marker t).traced) : y.2 = .plain ∨ y.2 = .marker := by
    cases t with
    | nil => cases hy
    | cons c t =>
        rcases List.mem_cons.mp hy with rfl | hy
        · exact .inr rfl
        · exact hplain hy
  have hlines {y : Char × Origin} (hy : y ∈ [newline, newline]) : y.2 = .plain ∨ y.2 = .marker := by
    simp only [List.mem_cons, List.not_mem_nil, or_false, or_self] at hy
    rw [hy]
    exact .inl rfl
  intro y hy
  cases x with
  | start name attrs =>
      rw [Part.traced, Part.ops] at hy
      split at hy
      · exact hmarker (mem_traced_put hy)
      · exact hplain (mem_traced_put hy)
      · exact hplain (mem_traced_put hy)
      · cases hy
  | stop name attrs =>
      rw [Part.traced, Part.ops] at hy
      split at hy
      · exact hlines hy
      · exact hlines hy
      · exact hplain (mem_traced_put hy)
      · exact hplain (mem_traced_put hy)
      · exact hplain (mem_traced_put hy)
      · cases hy
  | void name attrs =>
      rw [Part.traced, Part.ops] at hy
      split at hy
      · have hy := mem_traced_put hy
        split at hy
        · exact hmarker hy
        · exact hplain hy
      · cases hy
  | itemEnd =>
      rw [List.mem_singleton.mp hy]
      exact .inl rfl
  | _ => cases hx

/-! ### What is written at all -/

theorem isEmpty_of_shape {t : Text} {s : Shape} (h : shape t = s) : (s.ends || s.inks) = !t.isEmpty := by
  rw [← h, shape]
  cases hlast : t.getLast? with
  | none =>
      rw [List.getLast?_eq_none_iff.mp hlast]
      rfl
  | some c =>
      have hne : t.isEmpty = false := by
        cases t with
        | nil => cases hlast
        | cons d t => rfl
      rw [hne]
      by_cases hc : c = '\n' <;> simp [hc]

/-- The operations that are no quotations write their characters. -/
theorem any_writes_of_plain {ops : List Op} (hops : ops.any Op.isQuote = false) :
    ops.any Op.writes = !(erase (ops.flatMap Op.traced)).isEmpty := by
  induction ops with
  | nil => rfl
  | cons op ops ih =>
      rw [List.any_cons, Bool.or_eq_false_iff] at hops
      rw [List.any_cons, ih hops.2, List.flatMap_cons, erase_append]
      cases op with
      | put w =>
          show (!w.traced.isEmpty || _) = _
          rw [Op.traced]
          cases w.traced with
          | nil => rfl
          | cons y b => rfl
      | endLine => rfl
      | quote body => cases hops.1

theorem any_writes_ops (x : Part) : x.ops.any Op.writes = x.writes := by
  cases hx : x.isQuote with
  | true =>
      cases x with
      | quote body => rfl
      | _ => cases hx
  | false => exact (any_writes_of_plain ((any_isQuote_ops x).trans hx)).trans (isEmpty_of_shape (shape_traced hx)).symm

/-- What can be seen is written. -/
theorem writes_of_shows {x : Part} (h : x.shows = true) : x.writes = true := by
  cases hx : x.isQuote with
  | true =>
      cases x with
      | quote body => rfl
      | _ => cases hx
  | false =>
      have hshape := shape_traced hx
      have hempty : (x.ends || x.inks) = !(erase x.traced).isEmpty := isEmpty_of_shape hshape
      rw [Part.writes, hempty]
      cases herase : erase x.traced with
      | nil =>
          rw [herase] at hshape
          have hshows : false = x.shows := congrArg Shape.shows hshape
          rw [h] at hshows
          cases hshows
      | cons c t => rfl

theorem any_writes_opsAll (ts : List Part) : (opsAll ts).any Op.writes = ts.any Part.writes := by
  induction ts with
  | nil => rfl
  | cons x ts ih => rw [opsAll, List.any_append, any_writes_ops, ih, List.any_cons]

/-! ### Scanning a part -/

/-- A part that is no quotation is read as it is written. -/
theorem Scanner.scanAll_ops {σ : Type} (S : Scanner σ) {x : Part} (hx : x.isQuote = false) (s : σ) :
    S.scanAll x.ops s = S.read x.traced s := by
  have hplain {ops : List Op} (hops : ops.any Op.isQuote = false) (s : σ) :
      S.scanAll ops s = S.read (ops.flatMap Op.traced) s := by
    induction ops generalizing s with
    | nil => rfl
    | cons op ops ih =>
        rw [List.any_cons, Bool.or_eq_false_iff] at hops
        rw [Scanner.scanAll, ih hops.2, List.flatMap_cons, Scanner.read_append]
        cases op with
        | put w => rfl
        | endLine => rfl
        | quote body => cases hops.1
  exact hplain ((any_isQuote_ops x).trans hx) s

theorem Scanner.scanAll_append {σ : Type} (S : Scanner σ) (ops ops' : List Op) (s : σ) :
    S.scanAll (ops ++ ops') s = S.scanAll ops' (S.scanAll ops s) := by
  induction ops generalizing s with
  | nil => rfl
  | cons op ops ih => exact ih (S.scan op s)

end Scrape
end McpWebSearch
