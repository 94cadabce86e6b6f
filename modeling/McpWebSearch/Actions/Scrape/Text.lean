import McpWebSearch.Lib.Dom
import McpWebSearch.Actions.Scrape.Collapse

/-!
# `Actions.Scrape.Text` — HTML to plain text (`src/actions/scrape.rs`)

`text_walk_element` over a document tree, and `html_to_text` on its output. The collapser is a parameter of the walk, as
it is for markdown.
-/

namespace McpWebSearch
namespace Scrape

open Utf8 Dom

/-- `text_skip_element`. -/
def textSkipElement (name : Text) : Bool :=
  ["script", "style", "nav", "footer", "aside", "head"].any fun n => n.toList == name

/-- What `text_walk_element` does with the text `s` of a text node. -/
def pushRun (out s : Text) : Text := if s.isEmpty then out else (if out.isEmpty then out else out ++ " ") ++ s

section Walk

variable (collapse : Text → Except Panic Text)

mutual

/-- `text_walk_element`; other nodes are not wrapped by `ElementRef::wrap`. -/
def textWalkElement : Node → Text → Except Panic Text
  | .elem name _ cs, out => if textSkipElement name then pure out else textWalkChildren cs out
  | .text _, out => pure out
  | .other _, out => pure out

/-- The loop of `text_walk_element`. -/
def textWalkChildren : List Node → Text → Except Panic Text
  | [], out => pure out
  | .text t :: rest, out => do
      let s ← collapse (trim t)
      textWalkChildren rest (pushRun out s)
  | .elem name attrs cs :: rest, out => do
      let out ← textWalkElement (.elem name attrs cs) out
      textWalkChildren rest out
  | .other _ :: rest, out => textWalkChildren rest out

end

/-- The loop of `html_to_text`, on the children of the document root. -/
def textWalkRoot (doc : List Node) : Except Panic Text := doc.foldlM (fun out c => textWalkElement collapse c out) []

end Walk

/-- `String::truncate`. -/
def truncate (s : Text) (newLen : Nat) : Except Panic Text :=
  if newLen ≤ byteLen s then
    match takeBytes newLen s with
    | some t => .ok t
    | none => .error .slice
  else .ok s

/-- `String::drain(..start)`. -/
def drainTo (s : Text) (start : Nat) : Except Panic Text :=
  match dropBytes start s with
  | some t => .ok t
  | none => .error .slice

/-- `html_to_text` after parsing. -/
def htmlToText (collapse : Text → Except Panic Text) (doc : List Node) : Except Panic Text := do
  let out ← textWalkRoot collapse doc
  let fin := byteLen (trimEnd out)
  let out ← truncate out fin
  let start := byteLen out - byteLen (trimStart out)
  drainTo out start

end Scrape
end McpWebSearch
