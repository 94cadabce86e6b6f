import McpWebSearch.Lib.Dom
import McpWebSearch.Lib.Framing
import McpWebSearch.Actions.Scrape.Collapse

/-!
# `Actions.Scrape.Markdown` — HTML to markdown (`src/actions/scrape.rs`)

`walk_element` and `walk_children` over a document tree, and `cleanup_md` on their output. The arms of `walk_element`
that differ in the text they put around the children are one arm with parameters (`Arm`); `armOf` is the table of
element names, in the order of the source. The collapser is a parameter of the walk, since it differs by target.
-/

namespace McpWebSearch
namespace Scrape

open Utf8 Dom

/-! ## Elements -/

/-- What `walk_element` does at an element. -/
inductive Arm
  | block (lead : Text)            -- `lead`, the children, the end of the line, an empty line
  | inline (before after : Text)   -- the children between two texts
  | leaf (text : Text)             -- a text; the children are not visited
  | blockquote
  | pre
  | code                           -- the text children, trimmed, between backticks
  | ul
  | ol
  | li

def oneOf (name : Text) (names : List String) : Bool := names.any fun n => n.toList == name

/-- Skip elements whose children are not user-facing content. -/
def skippedElements : List String :=
  ["script", "style", "head", "nav", "footer", "aside", "form", "svg", "math", "input", "button", "select", "textarea"]

def isSkipped (name : Text) : Bool := oneOf name skippedElements

/-- `name.as_bytes()[1] - b'0'`, of the names `h1` to `h6` only. -/
def headingLevel (name : Text) : Nat := ((bytes name).getD 1 0 - 0x30).toNat

/-- The `match` of `walk_element`. -/
def armOf (name : Text) (attrs : List (Text × Text)) : Arm :=
  if oneOf name ["h1", "h2", "h3", "h4", "h5", "h6"] then .block (List.replicate (headingLevel name) '#' ++ [' '])
  else if oneOf name ["p"] then .block []
  else if oneOf name ["br"] then .leaf "\n"
  else if oneOf name ["hr"] then .leaf "---\n\n"
  else if oneOf name ["blockquote"] then .blockquote
  else if oneOf name ["pre"] then .pre
  else if oneOf name ["code"] then .code
  else if oneOf name ["ul"] then .ul
  else if oneOf name ["ol"] then .ol
  else if oneOf name ["li"] then .li
  else if oneOf name ["a"] then .inline "[" ("](" ++ attr attrs "href" ++ ")")
  else if oneOf name ["img"] then .leaf ("![" ++ attr attrs "alt" ++ "](" ++ attr attrs "src" ++ ")")
  else if oneOf name ["strong", "b"] then .inline "**" "**"
  else if oneOf name ["em", "i"] then .inline "*" "*"
  else if oneOf name ["del", "s"] then .inline "~~" "~~"
  else if isSkipped name then .leaf []
  else if oneOf name ["q"] then .inline "\"" "\""
  else if oneOf name ["kbd"] then .code
  else if oneOf name ["sub"] then .inline "_\x7b" "\x7d"
  else if oneOf name ["sup"] then .inline "^" "^"
  else if oneOf name ["iframe"] then
    .leaf (if (attr attrs "src").isEmpty then [] else "[iframe: " ++ attr attrs "src" ++ "]")
  else if oneOf name ["td", "th"] then .inline [] " "
  else if oneOf name ["tr"] then .inline [] "\n"
  else if oneOf name ["table"] then .inline [] "\n"
  else .inline [] []

/-! ## The walk -/

/-- `md` and `list_depth`. No tree nests `2^32` lists, so the depth is a `Nat`. -/
structure Md where
  md : Text
  listDepth : Nat

namespace Md

def push (st : Md) (t : Text) : Md := { st with md := st.md ++ t }

/-- `if !md.ends_with('\n') { md.push('\n') }`. -/
def closeLine (st : Md) : Md := if st.md.getLast? = some '\n' then st else st.push "\n"

/-- `*list_depth += 1`. -/
def enter (st : Md) : Md := { st with listDepth := st.listDepth + 1 }

/-- `*list_depth -= 1`. -/
def leave (st : Md) : Except Panic Md :=
  if st.listDepth = 0 then .error .subOverflow else .ok { st with listDepth := st.listDepth - 1 }

end Md

/-- `"  ".repeat(list_depth.saturating_sub(1))`. -/
def indent (listDepth : Nat) : Text := List.replicate (2 * (listDepth - 1)) ' '

/-- A line of `str::lines`: without its `"\n"` or `"\r\n"`. -/
def stripEol (l : Text) : Text :=
  if l.getLast? = some '\n' then
    if l.dropLast.getLast? = some '\r' then l.dropLast.dropLast else l.dropLast
  else l

/-- `str::lines`. -/
def strLines (s : Text) : List Text := (Framing.lines '\n' s).map stripEol

/-- The lines of a block quotation. -/
def quoteLines (inner : Text) : Text := (strLines inner).flatMap fun line => "> " ++ line ++ "\n"

/-- The text of a text node, if it is not blank. -/
def pushText (st : Md) (s : Text) : Md := if s ≠ [] ∧ s ≠ " " then st.push s else st

section Walk

variable (collapse : Text → Except Panic Text)

mutual

/-- `walk_element`; other nodes are not wrapped by `ElementRef::wrap`. -/
def walkElement : Node → Md → Except Panic Md
  | .elem name attrs cs, st =>
      match armOf name attrs with
      | .block lead => do
          let st ← walkChildren cs (st.push lead)
          pure (st.closeLine.push "\n")
      | .inline before after => do
          let st ← walkChildren cs (st.push before)
          pure (st.push after)
      | .leaf text => pure (st.push text)
      | .blockquote => do
          -- a buffer of its own, quoted line by line
          let inner ← walkChildren cs { st with md := [] }
          pure { inner with md := st.md ++ (quoteLines inner.md ++ "\n") }
      -- all text below, whatever elements it is in
      | .pre => pure (((st.push "```\n").push (textContents cs)).closeLine.push "```\n\n")
      | .code => pure (st.push ("`" ++ childTexts trim cs ++ "`"))
      | .ul => do
          let st ← walkElements cs st.enter
          let st ← st.leave
          pure (st.closeLine.push "\n")
      | .ol => do
          let st ← walkItems cs 1 st.enter
          let st ← st.leave
          -- no `closeLine` here, unlike `ul`
          pure (st.push "\n")
      | .li => do
          let st ← walkChildren cs (st.push (indent st.listDepth ++ "- "))
          pure (st.push "\n")
  | .text _, st => pure st
  | .other _, st => pure st

/-- `walk_children`. -/
def walkChildren : List Node → Md → Except Panic Md
  | [], st => pure st
  | .text t :: rest, st => do
      let s ← collapse t
      walkChildren rest (pushText st s)
  | .elem name attrs cs :: rest, st => do
      let st ← walkElement (.elem name attrs cs) st
      walkChildren rest st
  | .other _ :: rest, st => walkChildren rest st

/-- The loop of the `ul` arm, and of the document root. -/
def walkElements : List Node → Md → Except Panic Md
  | [], st => pure st
  | c :: rest, st => do
      let st ← walkElement c st
      walkElements rest st

/-- The loop of the `ol` arm: the children of every element child, whatever its name. -/
def walkItems : List Node → Nat → Md → Except Panic Md
  | [], _, st => pure st
  | .elem _ _ cs :: rest, idx, st => do
      let st ← walkChildren cs (st.push (indent st.listDepth ++ (decimal idx ++ ". ")))
      walkItems rest (idx + 1) (st.push "\n")
  | .text _ :: rest, idx, st => walkItems rest idx st
  | .other _ :: rest, idx, st => walkItems rest idx st

end

end Walk

/-! ## Clean-up -/

/-- The byte loop of `cleanup_md`. -/
def cleanupLoop (bytes : List UInt8) (md : Text) : Nat → Nat → Nat → Text → Except Panic Text
  | 0, i, _, out => if i < bytes.length then .error .outOfFuel else .ok out
  | fuel + 1, i, consecutiveNl, out =>
      match bytes[i]? with
      | none => .ok out
      | some b =>
          if b = 0x0A then
            cleanupLoop bytes md fuel (i + 1) (consecutiveNl + 1) (if consecutiveNl + 1 ≤ 2 then out ++ ['\n'] else out)
          else if b < 0x80 then cleanupLoop bytes md fuel (i + 1) 0 (out ++ [Char.ofNat b.toNat])
          else
            let fin := min (i + utf8SeqLen b) bytes.length
            match slice md i fin with
            | none => .error .slice
            | some t => cleanupLoop bytes md fuel fin 0 (out ++ t)

/-- `cleanup_md`: at most two newlines in a row, and no white space at the ends. -/
def cleanupMd (md : Text) : Except Panic Text :=
  if (bytes md).length = 0 then .ok md
  else do
    let out ← cleanupLoop (bytes md) md (bytes md).length 0 0 []
    pure (trim out)

/-- `dom_to_markdown_doc`, on the children of the document root. -/
def domToMarkdownDoc (collapse : Text → Except Panic Text) (doc : List Node) : Except Panic Text := do
  let st ← walkElements collapse doc { md := [], listDepth := 0 }
  cleanupMd st.md

/-- `dom_to_markdown` after parsing, on `x86_64`. -/
def domToMarkdown (profile : Profile) (doc : List Node) : Except Panic Text :=
  domToMarkdownDoc (collapseWhitespace profile) doc

end Scrape
end McpWebSearch
