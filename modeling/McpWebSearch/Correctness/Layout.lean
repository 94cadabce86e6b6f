import McpWebSearch.Lib.Traced
import McpWebSearch.Correctness.InlineText

/-!
# `Correctness.Layout` — where the characters of the markdown come from

What the walk does to its buffer is independent of the buffer but for one test, whether it ends with a newline. So the
walk of a document is a list of operations (`Op`, `layout`), which may be carried out on a buffer of traced characters:
each one bears the part of the page it was written for (`Origin`). `domToMarkdownDoc_eq_output`: without its marks the
traced `output` is what `dom_to_markdown` returns. Statements about the rendering of an element are statements about it.
-/

namespace McpWebSearch
namespace Scrape

open Utf8 Dom Traced

/-! ## Spots -/

/-- Where a node stands in the document: the positions among the siblings, the innermost first. -/
abbrev Path := List Nat

/-- A text node, and the innermost block element around it. -/
structure TextNode where
  node : Path
  block : Option Path
  deriving DecidableEq

/-- A list item: with its number if it is one of an ordered list, which numbers all its element children. -/
structure Item where
  node : Path
  depth : Nat
  number : Option Nat
  listed : Bool
  quoted : Bool
  block : Bool                -- a heading, a rule, a quotation or a preformatted block
  deriving DecidableEq

/-- The indentation and the marker of a list item. -/
def Item.marker (it : Item) : Text :=
  indent it.depth ++ (match it.number with
    | none => "- "
    | some n => decimal n ++ ". ")

/-- A preformatted block, with the text nodes in it. -/
structure Pre where
  node : Path
  quoted : Bool
  texts : List (TextNode × Text)
  deriving DecidableEq

/-- All text of a preformatted block. -/
def Pre.content (p : Pre) : Text := p.texts.flatMap Prod.snd

inductive ListKind
  | ul
  | ol
  deriving DecidableEq

/-- What of its ancestors and siblings matters for a node. -/
structure Spot where
  node : Path
  depth : Nat
  number : Nat                -- the position among the element siblings
  list : Option ListKind      -- the parent, if it is a list
  quoted : Bool
  block : Option Path

def blockElements : List String :=
  ["p", "h1", "h2", "h3", "h4", "h5", "h6", "div", "section", "article", "main", "header", "figure", "figcaption",
    "details", "summary", "dl", "dt", "dd", "ul", "ol", "li", "table", "tr", "td", "th", "blockquote", "pre"]

/-- The blocks that are marked by how their line begins. -/
def markedBlocks : List String := ["h1", "h2", "h3", "h4", "h5", "h6", "hr", "blockquote", "pre"]

def listKind (name : Text) : Option ListKind :=
  if oneOf name ["ul"] then some .ul else if oneOf name ["ol"] then some .ol else none

namespace Spot

/-- The children of the document root. -/
def root : Spot := ⟨[], 0, 0, none, false, none⟩

/-- Inside an element. -/
def inside (x : Spot) (name : Text) : Spot :=
  { x with
    depth := if (listKind name).isSome then x.depth + 1 else x.depth
    list := listKind name
    quoted := x.quoted || oneOf name ["blockquote"]
    block := if oneOf name blockElements then some x.node else x.block }

/-- The child at a position. -/
def child (x : Spot) (i number : Nat) : Spot := { x with node := i :: x.node, number := number }

def textNode (x : Spot) : TextNode := ⟨x.node, x.block⟩

/-- The list item at this spot. -/
def item (x : Spot) (number : Option Nat) (name : Text) : Item :=
  ⟨x.node, x.depth, number, x.list.isSome, x.quoted, oneOf name markedBlocks⟩

end Spot

/-! ## Operations -/

/-- What a character of the output was written for. -/
inductive Origin
  | plain                      -- ends of lines, markers of inline elements, targets of links
  | marker                     -- the first character of the marker of a heading or a rule
  | fence (p : Pre)            -- the first character of a preformatted block
  | quote (first : Bool)       -- the marks before the lines of a block quotation, and the first one of them
  | item (it : Item)
  | text (node : TextNode)
  deriving DecidableEq

abbrev Buffer := List (Char × Origin)

/-- A text that the walk writes. -/
inductive Writing
  | plain (t : Text)
  | marker (t : Text)
  | item (it : Item)
  | text (node : TextNode) (t : Text)
  | pre (p : Pre)

def newline : Char × Origin := ('\n', .plain)

/-- The texts of a preformatted block, and the newline that is added where they do not end with one. -/
def Pre.body (p : Pre) : Buffer :=
  p.texts.flatMap (fun t => ofText (Origin.text t.1) t.2) ++ if p.content.getLast?.getD '\n' = '\n' then [] else [newline]

/-- What is written after the first backtick of a preformatted block. -/
def Pre.fenced (p : Pre) : Buffer := ofText .plain "``\n" ++ (p.body ++ ofText .plain "```\n\n")

def Writing.traced : Writing → Buffer
  | .plain t => ofText .plain t
  | .marker [] => []
  | .marker (c :: t) => (c, .marker) :: ofText .plain t
  | .item it => ofText (.item it) it.marker
  | .text node t => ofText (.text node) t
  | .pre p => ('`', .fence p) :: p.fenced

/-- What the walk does to its buffer. -/
inductive Op
  | put (w : Writing)
  | endLine
  | quote (body : List Op)

/-- `if !md.ends_with('\n') { md.push('\n') }`. -/
def closeLine (b : Buffer) : Buffer := if (b.getLast?.map Prod.fst) = some '\n' then b else b ++ [newline]

/-- The carriage returns of line ends are dropped. -/
def stripReturns : Buffer → Buffer
  | [] => []
  | x :: b => if x.1 = '\r' ∧ (b.head?.map Prod.fst) = some '\n' then stripReturns b else x :: stripReturns b

def quoteMark (first : Bool) : Buffer := [('>', .quote first), (' ', .quote false)]

/-- The lines of a buffer, each after a mark and with its end; `start` if the next character begins a line. -/
def quoteFrom (first start : Bool) : Buffer → Buffer
  | [] => if start then [] else [newline]
  | x :: b => (if start then quoteMark first else []) ++ x :: quoteFrom (first && !start) (x.1 == '\n') b

def quoteBuffer (b : Buffer) : Buffer := quoteFrom true true (stripReturns b)

mutual

def Op.run : Op → Buffer → Buffer
  | .put w, b => b ++ w.traced
  | .endLine, b => closeLine b
  | .quote body, b => b ++ (quoteBuffer (runAll body []) ++ [newline])

def runAll : List Op → Buffer → Buffer
  | [], b => b
  | op :: ops, b => runAll ops (op.run b)

end

theorem runAll_append (ops ops' : List Op) (b : Buffer) : runAll (ops ++ ops') b = runAll ops' (runAll ops b) := by
  induction ops generalizing b with
  | nil => rfl
  | cons op ops ih => exact ih (op.run b)

/-! ## The operations of a document -/

mutual

/-- The text nodes in a preformatted block. -/
def verbatim (x : Spot) : Node → List (TextNode × Text)
  | .text t => [(x.textNode, t)]
  | .elem name _ cs => verbatimAll (x.inside name) 0 cs
  | .other cs => verbatimAll x 0 cs

def verbatimAll (x : Spot) (i : Nat) : List Node → List (TextNode × Text)
  | [] => []
  | c :: cs => verbatim (x.child i 0) c ++ verbatimAll x (i + 1) cs

end

/-- The number of element children among some nodes. -/
def elementCount : Node → Nat
  | .elem _ _ _ => 1
  | _ => 0

mutual

/-- The operations of the walk at a node that it reaches at a place. -/
def layout : Place → Spot → Node → List Op
  | .child, x, .text t => [.put (.text x.textNode (shown t))]
  | .code, x, .text t => [.put (.text x.textNode (trim t))]
  | .element, _, .text _ => []
  | .item, _, .text _ => []
  | _, _, .other _ => []
  | .code, _, .elem _ _ _ => []
  | .item, x, .elem name _ cs =>
      -- the depth and the quotation are those of the list, whatever the element is
      .put (.item (x.item (some x.number) name)) ::
        (layoutAll .child { x.inside name with depth := x.depth, quoted := x.quoted, list := none } 0 1 cs ++
          [.put (.plain "\n")])
  | _, x, .elem name attrs cs =>
      match armOf name attrs with
      | .block lead => .put (.marker lead) :: (layoutAll .child (x.inside name) 0 1 cs ++ [.endLine, .put (.plain "\n")])
      | .inline before after =>
          .put (.plain before) :: (layoutAll .child (x.inside name) 0 1 cs ++ [.put (.plain after)])
      | .leaf text => [.put (if oneOf name ["hr"] then .marker text else .plain text)]
      | .blockquote => [.quote (layoutAll .child (x.inside name) 0 1 cs)]
      | .pre => [.put (.pre ⟨x.node, x.quoted, verbatimAll (x.inside name) 0 cs⟩)]
      | .code => .put (.plain "`") :: (layoutAll .code (x.inside name) 0 1 cs ++ [.put (.plain "`")])
      | .ul => layoutAll .element (x.inside name) 0 1 cs ++ [.endLine, .put (.plain "\n")]
      | .ol => layoutAll .item (x.inside name) 0 1 cs ++ [.put (.plain "\n")]
      | .li => .put (.item (x.item none name)) :: (layoutAll .child (x.inside name) 0 1 cs ++ [.put (.plain "\n")])

def layoutAll : Place → Spot → Nat → Nat → List Node → List Op
  | _, _, _, _, [] => []
  | p, x, i, number, c :: cs =>
      layout p (x.child i number) c ++ layoutAll p x (i + 1) (number + elementCount c) cs

end

/-- The operations of the walk over a document. -/
def pageLayout (doc : List Node) : List Op := layoutAll .element Spot.root 0 1 doc

/-- At most two newlines in a row, after `n` of them. -/
def squeezeBuffer : Nat → Buffer → Buffer
  | _, [] => []
  | n, x :: b =>
      if x.1 = '\n' then (if n + 1 ≤ 2 then x :: squeezeBuffer (n + 1) b else squeezeBuffer (n + 1) b)
      else x :: squeezeBuffer 0 b

/-- Around a character that is no newline the clean-up goes on anew. -/
theorem squeezeBuffer_append (n : Nat) (a r : Buffer) {x : Char × Origin} (hx : x.1 ≠ '\n') :
    squeezeBuffer n (a ++ x :: r) = squeezeBuffer n a ++ x :: squeezeBuffer 0 r := by
  induction a generalizing n with
  | nil =>
      show squeezeBuffer n (x :: r) = x :: squeezeBuffer 0 r
      rw [squeezeBuffer, if_neg hx]
  | cons y a ih =>
      rw [List.cons_append, squeezeBuffer, squeezeBuffer]
      split
      · split
        · rw [ih, List.cons_append]
        · exact ih (n + 1)
      · rw [ih, List.cons_append]

theorem exists_unsqueezed {n : Nat} {b a r : Buffer} {x : Char × Origin} (hx : x.1 ≠ '\n')
    (h : squeezeBuffer n b = a ++ x :: r) :
    ∃ a' r', b = a' ++ x :: r' ∧ a = squeezeBuffer n a' ∧ r = squeezeBuffer 0 r' := by
  induction b generalizing n a with
  | nil => exact absurd h.symm (List.append_ne_nil_of_right_ne_nil a (List.cons_ne_nil x r))
  | cons y b ih =>
      rw [squeezeBuffer] at h
      by_cases hy : y.1 = '\n'
      · rw [if_pos hy] at h
        by_cases hn : n + 1 ≤ 2
        · rw [if_pos hn] at h
          cases a with
          | nil =>
              obtain rfl : y = x := (List.cons.inj h).1
              exact absurd hy hx
          | cons z a =>
              obtain ⟨rfl, htail⟩ := List.cons.inj h
              obtain ⟨a', r', rfl, rfl, rfl⟩ := ih htail
              refine ⟨y :: a', r', rfl, ?_, rfl⟩
              rw [squeezeBuffer, if_pos hy, if_pos hn]
        · rw [if_neg hn] at h
          obtain ⟨a', r', rfl, rfl, rfl⟩ := ih h
          refine ⟨y :: a', r', rfl, ?_, rfl⟩
          rw [squeezeBuffer, if_pos hy, if_neg hn]
      · rw [if_neg hy] at h
        cases a with
        | nil =>
            obtain ⟨rfl, rfl⟩ := List.cons.inj h
            exact ⟨[], b, rfl, rfl, rfl⟩
        | cons z a =>
            obtain ⟨rfl, htail⟩ := List.cons.inj h
            obtain ⟨a', r', rfl, rfl, rfl⟩ := ih htail
            refine ⟨y :: a', r', rfl, ?_, rfl⟩
            rw [squeezeBuffer, if_neg hy]

/-- The traced output. -/
def output (doc : List Node) : Buffer := Traced.trim (squeezeBuffer 0 (runAll (pageLayout doc) []))

/-! ## Without its marks the output is that of the walk -/

theorem erase_squeezeBuffer (n : Nat) (b : Buffer) : erase (squeezeBuffer n b) = squeeze n (erase b) := by
  induction b generalizing n with
  | nil => rfl
  | cons x b ih =>
      obtain ⟨c, o⟩ := x
      rw [squeezeBuffer, erase_cons, squeeze]
      by_cases hc : c = '\n'
      · subst hc
        rw [if_pos rfl, if_pos rfl]
        split
        · rw [erase_cons, ih]
        · exact ih (n + 1)
      · rw [if_neg hc, if_neg hc, erase_cons, ih]

theorem erase_closeLine (b : Buffer) (d : Nat) : Md.closeLine ⟨erase b, d⟩ = ⟨erase (closeLine b), d⟩ := by
  have hlast : (erase b).getLast? = b.getLast?.map Prod.fst := List.getLast?_map
  rw [Md.closeLine, closeLine, hlast]
  split
  · rfl
  · rw [erase_append]
    rfl

theorem erase_marker (t : Text) : erase (Writing.marker t).traced = t := by
  cases t with
  | nil => rfl
  | cons c t => rw [Writing.traced, erase_cons, erase_ofText]

/-- But for the first character a preformatted block is plain or text. -/
theorem origin_fenced {p : Pre} {x : Char × Origin} (hx : x ∈ p.fenced) : x.2 = .plain ∨ ∃ node, x.2 = .text node := by
  rcases List.mem_append.mp hx with hx | hx
  · exact .inl (origin_of_mem_ofText hx)
  rcases List.mem_append.mp hx with hx | hx
  · rcases List.mem_append.mp hx with hx | hx
    · obtain ⟨t, -, hx⟩ := List.mem_flatMap.mp hx
      exact .inr ⟨t.1, origin_of_mem_ofText hx⟩
    · split at hx
      · cases hx
      · rw [List.mem_singleton.mp hx]
        exact .inl rfl
  · exact .inl (origin_of_mem_ofText hx)

theorem erase_texts (ts : List (TextNode × Text)) :
    erase (ts.flatMap fun t => ofText (Origin.text t.1) t.2) = ts.flatMap Prod.snd := by
  induction ts with
  | nil => rfl
  | cons t ts ih => rw [List.flatMap_cons, List.flatMap_cons, erase_append, erase_ofText, ih]

theorem erase_body (p : Pre) :
    erase p.body = p.content ++ if p.content.getLast?.getD '\n' = '\n' then [] else ['\n'] := by
  rw [Pre.body, erase_append, erase_texts, ← Pre.content]
  split <;> rfl

/-- What closes a fenced block, the last newline apart. -/
def Pre.closing (p : Pre) : Buffer :=
  (if p.content.getLast?.getD '\n' = '\n' then [] else [newline]) ++ ofText .plain "```\n"

theorem origin_closing {p : Pre} {x : Char × Origin} (hx : x ∈ p.closing) : x.2 = .plain := by
  rcases List.mem_append.mp hx with hx | hx
  · split at hx
    · cases hx
    · rw [List.mem_singleton.mp hx]
      rfl
  · exact origin_of_mem_ofText hx

/-- A fenced block: its opening, its texts, its closing. -/
theorem traced_pre (p : Pre) :
    (Writing.pre p).traced =
      (('`', .fence p) :: ofText .plain "``\n") ++
        ((p.texts.flatMap fun t => ofText (.text t.1) t.2) ++ (p.closing ++ [newline])) := by
  show ('`', Origin.fence p) :: (ofText .plain "``\n" ++ (p.body ++ _)) = _
  rw [Pre.body, Pre.closing]
  simp only [List.append_assoc]
  rfl

/-- A preformatted block is written as the `pre` arm writes it. -/
theorem erase_pre (p : Pre) (st : Md) :
    (((st.push "```\n").push p.content).closeLine.push "```\n\n") = st.push (erase (Writing.pre p).traced) := by
  have hopen : erase (('`', Origin.fence p) :: ofText .plain "``\n") = "```\n".toList := by
    rw [erase_cons, erase_ofText]
    rfl
  have hlast : (st.md ++ "```\n".toList ++ p.content).getLast? = some (p.content.getLast?.getD '\n') := by
    rw [List.append_assoc, List.getLast?_append, List.getLast?_append]
    cases p.content.getLast? <;> rfl
  have htraced : (Writing.pre p).traced =
      ('`', Origin.fence p) :: ofText .plain "``\n" ++ (p.body ++ ofText .plain "```\n\n") := rfl
  rw [htraced, erase_append, erase_append, erase_body, hopen, erase_ofText]
  show (Md.closeLine ⟨st.md ++ "```\n".toList ++ p.content, st.listDepth⟩).push _ = _
  rw [Md.closeLine, hlast]
  by_cases hnl : p.content.getLast?.getD '\n' = '\n'
  · rw [if_pos (congrArg some hnl), if_pos hnl]
    unfold Md.push
    simp
  · rw [if_neg (fun h => hnl (Option.some.inj h)), if_neg hnl]
    unfold Md.push
    simp

/-! ### Block quotations -/

theorem erase_quoteFrom_first (first first' start : Bool) (b : Buffer) :
    erase (quoteFrom first start b) = erase (quoteFrom first' start b) := by
  induction b generalizing first first' start with
  | nil => rfl
  | cons x b ih =>
      rw [quoteFrom, quoteFrom, erase_append, erase_append, erase_cons, erase_cons, ih (first && !start) (first' && !start)]
      cases start <;> rfl

theorem stripReturns_ne_nil {b : Buffer} (h : b ≠ []) : stripReturns b ≠ [] := by
  induction b with
  | nil => exact absurd rfl h
  | cons x b ih =>
      rw [stripReturns]
      split
      · rename_i hreturn
        apply ih
        rintro rfl
        cases hreturn.2
      · exact List.cons_ne_nil _ _

/-- A character before a line, but for the carriage return of an empty one. -/
theorem stripEol_cons {c : Char} {l : Text} (hl : l ≠ []) (hreturn : ¬ (c = '\r' ∧ l.head? = some '\n')) :
    stripEol (c :: l) = c :: stripEol l := by
  have hlast : (c :: l).getLast? = l.getLast? := List.getLast?_cons_of_ne_nil hl
  have hdrop : (c :: l).dropLast = c :: l.dropLast := List.dropLast_cons_of_ne_nil hl
  rw [stripEol, stripEol, hlast, hdrop]
  split
  · rename_i hnl
    by_cases hshort : l.dropLast = []
    · -- the line is its newline alone
      have hline : l = ['\n'] := by
        obtain ⟨init, rfl⟩ := List.getLast?_eq_some_iff.mp hnl
        rw [List.dropLast_concat] at hshort
        rw [hshort]
        rfl
      have hc : c ≠ '\r' := fun hc => hreturn ⟨hc, by rw [hline]; rfl⟩
      rw [hshort, if_neg (by simpa using hc)]
      rfl
    · rw [List.getLast?_cons_of_ne_nil hshort, List.dropLast_cons_of_ne_nil hshort]
      split <;> rfl
  · rfl

theorem quoteLines_eq (t : Text) :
    quoteLines t = (Framing.lines '\n' t).flatMap fun l => "> ".toList ++ stripEol l ++ "\n".toList := by
  rw [quoteLines, strLines, List.flatMap_map]

theorem erase_quoteFrom_start {b : Buffer} (hb : b ≠ []) (first : Bool) :
    erase (quoteFrom first true b) = "> ".toList ++ erase (quoteFrom first false b) := by
  obtain ⟨y, rest, rfl⟩ := List.exists_cons_of_ne_nil hb
  rw [quoteFrom, quoteFrom, erase_append, erase_append, erase_cons, erase_cons,
    erase_quoteFrom_first (first && !true) (first && !false)]
  rfl

/-- The first line of a buffer, quoted without its mark, and the other lines. -/
theorem exists_quoted_lines {b : Buffer} (hb : b ≠ []) (first : Bool) :
    ∃ l ls, Framing.lines '\n' (erase b) = l :: ls ∧ l ≠ [] ∧
      erase (quoteFrom first false (stripReturns b)) =
        stripEol l ++ "\n".toList ++ ls.flatMap fun l => "> ".toList ++ stripEol l ++ "\n".toList := by
  induction b generalizing first with
  | nil => exact absurd rfl hb
  | cons x b ih =>
      obtain ⟨c, o⟩ := x
      by_cases hc : c = '\n'
      · subst hc
        have hrest : erase (quoteFrom (first && !false) true (stripReturns b)) = quoteLines (erase b) := by
          by_cases hb : b = []
          · rw [hb]
            rfl
          · obtain ⟨l, ls, hlines, -, hrest⟩ := ih hb (first && !false)
            rw [erase_quoteFrom_start (stripReturns_ne_nil hb), hrest, quoteLines_eq, hlines, List.flatMap_cons]
            simp only [List.append_assoc]
        refine ⟨['\n'], Framing.lines '\n' (erase b), ?_, List.cons_ne_nil _ _, ?_⟩
        · rw [erase_cons, Framing.lines, if_pos rfl]
        · have hnot : ¬ ('\n' = '\r' ∧ (b.head?.map Prod.fst) = some '\n') := fun h => absurd h.1 (by decide)
          rw [stripReturns, if_neg hnot, quoteFrom, ← quoteLines_eq]
          exact congrArg ('\n' :: ·) hrest
      have hbeq : (c == '\n') = false := by simpa using hc
      by_cases hnil : b = []
      · subst hnil
        refine ⟨[c], [], ?_, List.cons_ne_nil _ _, ?_⟩
        · rw [erase_cons, erase_nil, Framing.lines, if_neg hc, Framing.lines_nil]
        · have hline : stripEol [c] = [c] := if_neg (by simpa using hc)
          rw [hline, stripReturns, if_neg (by simp), quoteFrom, hbeq]
          rfl
      obtain ⟨l, ls, hlines, hl, hrest⟩ := ih hnil first
      have hflat : (Framing.lines '\n' (erase b)).flatten = erase b := Framing.flatten_lines (erase b)
      rw [hlines, List.flatten_cons] at hflat
      have hhead : b.head?.map Prod.fst = l.head? := by
        have hmap : (erase b).head? = b.head?.map Prod.fst := List.head?_map
        rw [← hmap, ← hflat, List.head?_append_of_ne_nil _ hl]
      refine ⟨c :: l, ls, ?_, List.cons_ne_nil _ _, ?_⟩
      · rw [erase_cons, Framing.lines, if_neg hc, hlines]
      rw [stripReturns, hhead]
      by_cases hreturn : c = '\r' ∧ l.head? = some '\n'
      · -- the carriage return and the line feed are one end of a line
        obtain ⟨rfl, hnl⟩ := hreturn
        obtain ⟨rest, rfl⟩ := List.head?_eq_some_iff.mp hnl
        rw [← hflat, List.cons_append, Framing.lines, if_pos rfl] at hlines
        obtain rfl := (List.cons.inj (List.cons.inj hlines).1).2
        rw [if_pos ⟨rfl, hnl⟩, hrest]
        rfl
      · have hrest' := (erase_quoteFrom_first (first && !false) first false (stripReturns b)).trans hrest
        rw [if_neg hreturn, quoteFrom, hbeq, stripEol_cons hl hreturn]
        exact congrArg (c :: ·) hrest'

/-- **Quoting character by character is quoting line by line.** -/
theorem erase_quoteBuffer (b : Buffer) : erase (quoteBuffer b) = quoteLines (erase b) := by
  by_cases hb : b = []
  · rw [hb]
    rfl
  · obtain ⟨l, ls, hlines, -, hrest⟩ := exists_quoted_lines hb true
    rw [quoteBuffer, erase_quoteFrom_start (stripReturns_ne_nil hb), hrest, quoteLines_eq, hlines, List.flatMap_cons]
    simp only [List.append_assoc]

/-! ### Arms and names -/

/-- Lists are the elements of two arms. -/
theorem listKind_of_armOf {name : Text} {attrs : List (Text × Text)} (hul : armOf name attrs ≠ .ul)
    (hol : armOf name attrs ≠ .ol) : listKind name = none := by
  unfold listKind
  split
  · rename_i hname
    rw [oneOf_singleton.mp hname] at hul
    exact absurd rfl hul
  split
  · rename_i hname
    rw [oneOf_singleton.mp hname] at hol
    exact absurd rfl hol
  · rfl

/-! ### The walk -/

/-- What an action does to the buffer, at a list depth that it keeps: the operations. -/
def Runs (act : Md → Except Panic Md) (d : Nat) (ops : List Op) : Prop :=
  ∀ b, act ⟨erase b, d⟩ = .ok ⟨erase (runAll ops b), d⟩

namespace Runs

variable {act act' : Md → Except Panic Md} {d : Nat} {ops ops' : List Op}

theorem nothing : Runs pure d [] := fun _ => rfl

theorem bind (h : Runs act d ops) (h' : Runs act' d ops') : Runs (fun st => act st >>= act') d (ops ++ ops') := by
  intro b
  show act ⟨erase b, d⟩ >>= act' = _
  rw [h b, runAll_append]
  exact h' (runAll ops b)

theorem put {w : Writing} {t : Nat → Text} (h : erase w.traced = t d) :
    Runs (fun st => pure (st.push (t st.listDepth))) d [.put w] := by
  intro b
  show Except.ok (Md.mk (erase b ++ t d) d) = .ok ⟨erase (b ++ w.traced), d⟩
  rw [erase_append, h]

theorem plain (t : Text) : Runs (fun st => pure (st.push t)) d [.put (.plain t)] :=
  put (t := fun _ => t) (erase_ofText _ t)

theorem endLine : Runs (fun st => pure (Md.closeLine st)) d [.endLine] := by
  intro b
  exact congrArg Except.ok (erase_closeLine b d)

/-- A list: one level deeper, and back. -/
theorem nested (h : Runs act (d + 1) ops) {after : Md → Md} (h' : Runs (fun st => pure (after st)) d ops') :
    Runs (fun st => do let st ← act st.enter; let st ← st.leave; pure (after st)) d (ops ++ ops') := by
  intro b
  show (act ⟨erase b, d + 1⟩ >>= fun st => st.leave >>= fun st => pure (after st)) = _
  rw [h b, runAll_append]
  exact h' (runAll ops b)

theorem quoted (h : Runs act d ops) :
    Runs (fun st => do
      let inner ← act { st with md := [] }
      pure { inner with md := st.md ++ (quoteLines inner.md ++ "\n") }) d [.quote ops] := by
  intro b
  show (act ⟨erase ([] : Buffer), d⟩ >>= fun inner => pure _) = _
  rw [h []]
  show Except.ok (Md.mk (erase b ++ (quoteLines (erase (runAll ops [])) ++ "\n".toList)) d) =
    .ok ⟨erase (b ++ (quoteBuffer (runAll ops []) ++ [newline])), d⟩
  rw [erase_append, erase_append, erase_quoteBuffer]
  rfl

theorem elements {cs : List Node} (h : ∀ c ∈ cs, ∀ x : Spot, Runs (walkElement reference c) x.depth (layout .element x c))
    (x : Spot) (i number : Nat) : Runs (walkElements reference cs) x.depth (layoutAll .element x i number cs) := by
  induction cs generalizing i number with
  | nil => exact nothing
  | cons c cs ih =>
      have hc := h c List.mem_cons_self (x.child i number)
      have hcs := ih (fun d hd => h d (List.mem_cons_of_mem c hd)) (i + 1) (number + elementCount c)
      exact hc.bind hcs

theorem children {cs : List Node} (h : ∀ c ∈ cs, ∀ x : Spot, Runs (walkElement reference c) x.depth (layout .element x c))
    (x : Spot) (i number : Nat) : Runs (walkChildren reference cs) x.depth (layoutAll .child x i number cs) := by
  induction cs generalizing i number with
  | nil => exact nothing
  | cons c cs ih =>
      have hc := h c List.mem_cons_self (x.child i number)
      have hcs := ih (fun d hd => h d (List.mem_cons_of_mem c hd)) (i + 1) (number + elementCount c)
      cases c with
      | text t =>
          have htext : Runs (fun st => pure (pushText st (referenceCollapse t))) x.depth
              (layout .child (x.child i number) (.text t)) := by
            intro b
            show Except.ok (pushText _ _) = .ok ⟨erase (b ++ ofText (.text (x.child i number).textNode) (shown t)), x.depth⟩
            rw [pushText_shown, erase_append, erase_ofText]
            rfl
          exact htext.bind hcs
      | elem name attrs gs => exact hc.bind hcs
      | other gs => exact hcs

theorem items {cs : List Node} (h : ∀ c ∈ cs, ∀ (x : Spot) (i number : Nat),
      Runs (walkChildren reference c.children) x.depth (layoutAll .child x i number c.children))
    (x : Spot) (i number : Nat) : Runs (walkItems reference cs number) x.depth (layoutAll .item x i number cs) := by
  induction cs generalizing i number with
  | nil => exact nothing
  | cons c cs ih =>
      have hcs := ih (fun d hd => h d (List.mem_cons_of_mem c hd)) (i + 1)
      cases c with
      | text t => exact hcs number
      | other gs => exact hcs number
      | elem name attrs gs =>
          have hc := h _ List.mem_cons_self { (x.child i number).inside name with depth := x.depth, quoted := x.quoted, list := none } 0 1
          have hmarker : Runs (fun st => pure (st.push (indent st.listDepth ++ (decimal number ++ ". ")))) x.depth
              [.put (.item ((x.child i number).item (some number) name))] := by
            apply put (t := fun d => indent d ++ (decimal number ++ ". "))
            exact erase_ofText _ _
          have hitem := (hmarker.bind (hc.bind (plain "\n"))).bind (hcs (number + 1))
          have hrun : walkItems reference (.elem name attrs gs :: cs) number = fun st =>
              (pure (st.push (indent st.listDepth ++ (decimal number ++ ". "))) >>= fun st =>
                (walkChildren reference gs st >>= fun st => pure (st.push "\n"))) >>=
                walkItems reference cs (number + 1) := by
            funext st
            rw [walkItems, pure_bind, bind_assoc]
            rfl
          rw [hrun]
          exact hitem

/-- The text children of `code` and `kbd`. -/
theorem code (cs : List Node) (x : Spot) (i number : Nat) :
    Runs (fun st => pure (st.push (childTexts trim cs))) d (layoutAll .code x i number cs) := by
  induction cs generalizing i number with
  | nil =>
      intro b
      exact congrArg Except.ok (push_nil _)
  | cons c cs ih =>
      have hcs := ih (i + 1) (number + elementCount c)
      cases c with
      | text t =>
          have htext : Runs (fun st => pure (st.push (trim t))) d (layout .code (x.child i number) (.text t)) :=
            put (t := fun _ => trim t) (erase_ofText _ _)
          intro b
          refine Eq.trans ?_ ((htext.bind hcs) b)
          show Except.ok (Md.push _ _) = .ok ((Md.push _ _).push _)
          rw [push_push]
          rfl
      | elem name attrs gs => exact hcs
      | other gs => exact hcs

end Runs

theorem content_verbatimAll (cs : List Node) (x : Spot) (i : Nat) :
    (verbatimAll x i cs).flatMap Prod.snd = Dom.textContents cs := by
  have hall {cs : List Node} (h : ∀ c ∈ cs, ∀ x : Spot, (verbatim x c).flatMap Prod.snd = Dom.textContent c) (x : Spot)
      (i : Nat) : (verbatimAll x i cs).flatMap Prod.snd = Dom.textContents cs := by
    induction cs generalizing i with
    | nil => rfl
    | cons c cs ih =>
        have hc := h c List.mem_cons_self (x.child i 0)
        have hcs := ih (fun d hd => h d (List.mem_cons_of_mem c hd)) (i + 1)
        rw [verbatimAll, List.flatMap_append, hc, hcs, Dom.textContents]
  have hnode (n : Node) (x : Spot) : (verbatim x n).flatMap Prod.snd = Dom.textContent n := by
    induction n using Node.induct generalizing x with
    | step n ih =>
        cases n with
        | text t => exact List.append_nil t
        | elem name attrs gs => exact hall (fun c hc x => ih c hc x) (x.inside name) 0
        | other gs => exact hall (fun c hc x => ih c hc x) x 0
  exact hall (fun c _ x => hnode c x) x i

/-- **The walk carries out the operations of its layout**, at a node and in its children. -/
theorem runs_walk (n : Node) :
    (∀ x : Spot, Runs (walkElement reference n) x.depth (layout .element x n)) ∧
      ∀ (x : Spot) (i number : Nat),
        Runs (walkChildren reference n.children) x.depth (layoutAll .child x i number n.children) := by
  induction n using Node.induct with
  | step n ih =>
      have hchildren := Runs.children fun c hc => (ih c hc).1
      have helements := Runs.elements fun c hc => (ih c hc).1
      have hitems := Runs.items fun c hc => (ih c hc).2
      refine ⟨?_, hchildren⟩
      intro x
      cases n with
      | text t => exact Runs.nothing
      | other cs => exact Runs.nothing
      | elem name attrs cs =>
          rw [Node.children_elem] at hchildren helements hitems
          have hrun : walkElement reference (.elem name attrs cs) = fun st =>
              walkElement reference (.elem name attrs cs) st := rfl
          have hkeep (hul : armOf name attrs ≠ .ul) (hol : armOf name attrs ≠ .ol) : (x.inside name).depth = x.depth := by
            unfold Spot.inside
            rw [listKind_of_armOf hul hol]
            rfl
          have hlist {k : String} (hk : (armOf name attrs).name = some k) (hlist : (listKind k.toList).isSome = true) :
              (x.inside name).depth = x.depth + 1 := by
            unfold Spot.inside
            rw [name_of_armOf hk, if_pos hlist]
          have hbody := hchildren (x.inside name) 0 1
          rw [hrun]
          simp only [walkElement, layout]
          cases harm : armOf name attrs with
          | block lead =>
              rw [hkeep (by simp [harm]) (by simp [harm])] at hbody
              have hlead : Runs (fun st => pure (st.push lead)) x.depth [.put (.marker lead)] :=
                Runs.put (t := fun _ => lead) (erase_marker lead)
              exact hlead.bind (hbody.bind (Runs.endLine.bind (Runs.plain "\n")))
          | inline before after =>
              rw [hkeep (by simp [harm]) (by simp [harm])] at hbody
              exact (Runs.plain before).bind (hbody.bind (Runs.plain after))
          | leaf text =>
              show Runs (fun st => pure (st.push text)) x.depth
                [.put (if oneOf name ["hr"] then .marker text else .plain text)]
              split
              · exact Runs.put (t := fun _ => text) (erase_marker text)
              · exact Runs.plain text
          | blockquote =>
              rw [hkeep (by simp [harm]) (by simp [harm])] at hbody
              exact hbody.quoted
          | pre =>
              intro b
              have hcontent : (Pre.mk x.node x.quoted (verbatimAll (x.inside name) 0 cs)).content = textContents cs :=
                content_verbatimAll cs (x.inside name) 0
              have hpre := erase_pre ⟨x.node, x.quoted, verbatimAll (x.inside name) 0 cs⟩ ⟨erase b, x.depth⟩
              rw [hcontent] at hpre
              refine (congrArg Except.ok hpre).trans ?_
              rw [runAll, runAll, Op.run, erase_append]
              rfl
          | code =>
              have hticks := (Runs.plain "`").bind ((Runs.code cs (x.inside name) 0 1).bind (Runs.plain (d := x.depth) "`"))
              intro b
              refine Eq.trans ?_ (hticks b)
              show Except.ok (Md.push _ _) = .ok (((Md.push _ _).push _).push _)
              rw [push_push, push_push, List.append_assoc]
          | ul =>
              have hdepth := hlist (congrArg Arm.name harm) rfl
              have hlist := helements (x.inside name) 0 1
              rw [hdepth] at hlist
              exact hlist.nested (Runs.endLine.bind (Runs.plain "\n"))
          | ol =>
              have hdepth := hlist (congrArg Arm.name harm) rfl
              have hlist := hitems (x.inside name) 0 1
              rw [hdepth] at hlist
              exact hlist.nested (Runs.plain "\n")
          | li =>
              rw [hkeep (by simp [harm]) (by simp [harm])] at hbody
              have hmarker : Runs (fun st => pure (st.push (indent st.listDepth ++ "- "))) x.depth
                  [.put (.item (x.item none name))] := by
                apply Runs.put (t := fun d => indent d ++ "- ")
                exact erase_ofText _ _
              exact hmarker.bind (hbody.bind (Runs.plain "\n"))

/-- **The traced output without its marks is what `dom_to_markdown` returns.** -/
theorem domToMarkdownDoc_eq_output (doc : List Node) : domToMarkdownDoc reference doc = .ok (erase (output doc)) := by
  have hwalk : walkElements reference doc ⟨[], 0⟩ = .ok ⟨erase (runAll (pageLayout doc) []), 0⟩ :=
    Runs.elements (fun c (_ : c ∈ doc) => (runs_walk c).1) Spot.root 0 1 []
  rw [domToMarkdownDoc_of_walk hwalk, output, erase_trim, erase_squeezeBuffer]

end Scrape
end McpWebSearch
