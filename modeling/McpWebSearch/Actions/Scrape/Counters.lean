import McpWebSearch.Actions.Scrape.Markdown

/-!
# `Actions.Scrape.Counters` — the `u32` counters of the markdown conversion (`src/actions/scrape.rs`)

`cleanup_md`, `walk_children` and `walk_element` once more, with the counters as the source declares them: the newlines in a
row, `list_depth`, and the number of an item. A debug build checks their arithmetic, a release build wraps. In
`Actions.Scrape.Markdown` they have no bound.
-/

namespace McpWebSearch
namespace Scrape

open Utf8 Dom

/-- `n += 1`. -/
def incU32 (profile : Profile) (n : UInt32) : Except Panic UInt32 :=
  match profile with
  | .debug => if n.toNat + 1 < UInt32.size then .ok (n + 1) else .error .addOverflow
  | .release => .ok (n + 1)

/-- `n -= 1`. -/
def decU32 (profile : Profile) (n : UInt32) : Except Panic UInt32 :=
  match profile with
  | .debug => if n = 0 then .error .subOverflow else .ok (n - 1)
  | .release => .ok (n - 1)

/-! ## Clean-up -/

/-- The byte loop of `cleanup_md`. -/
def cleanupLoop32 (profile : Profile) (bytes : List UInt8) (md : Text) :
    Nat → Nat → UInt32 → Text → Except Panic Text
  | 0, i, _, out => if i < bytes.length then .error .outOfFuel else .ok out
  | fuel + 1, i, consecutiveNl, out =>
      match bytes[i]? with
      | none => .ok out
      | some b =>
          if b = 0x0A then do
            let consecutiveNl ← incU32 profile consecutiveNl
            cleanupLoop32 profile bytes md fuel (i + 1) consecutiveNl (if consecutiveNl ≤ 2 then out ++ ['\n'] else out)
          else if b < 0x80 then cleanupLoop32 profile bytes md fuel (i + 1) 0 (out ++ [Char.ofNat b.toNat])
          else
            let fin := min (i + utf8SeqLen b) bytes.length
            match slice md i fin with
            | none => .error .slice
            | some t => cleanupLoop32 profile bytes md fuel fin 0 (out ++ t)

/-- `cleanup_md`. -/
def cleanupMd32 (profile : Profile) (md : Text) : Except Panic Text :=
  if (bytes md).length = 0 then .ok md
  else do
    let out ← cleanupLoop32 profile (bytes md) md (bytes md).length 0 0 []
    pure (trim out)

/-! ## The walk -/

/-- `md` and `list_depth`. -/
structure Md32 where
  md : Text
  listDepth : UInt32

namespace Md32

def push (st : Md32) (t : Text) : Md32 := { st with md := st.md ++ t }

/-- `if !md.ends_with('\n') { md.push('\n') }`. -/
def closeLine (st : Md32) : Md32 := if st.md.getLast? = some '\n' then st else st.push "\n"

/-- `*list_depth += 1`. -/
def enter (profile : Profile) (st : Md32) : Except Panic Md32 := do
  let listDepth ← incU32 profile st.listDepth
  pure { st with listDepth }

/-- `*list_depth -= 1`. -/
def leave (profile : Profile) (st : Md32) : Except Panic Md32 := do
  let listDepth ← decU32 profile st.listDepth
  pure { st with listDepth }

end Md32

/-- The text of a text node, if it is not blank. -/
def pushText32 (st : Md32) (s : Text) : Md32 := if s ≠ [] ∧ s ≠ " " then st.push s else st

section Walk

variable (profile : Profile) (collapse : Text → Except Panic Text)

mutual

/-- `walk_element`. -/
def walkElement32 : Node → Md32 → Except Panic Md32
  | .elem name attrs cs, st =>
      match armOf name attrs with
      | .block lead => do
          let st ← walkChildren32 cs (st.push lead)
          pure (st.closeLine.push "\n")
      | .inline before after => do
          let st ← walkChildren32 cs (st.push before)
          pure (st.push after)
      | .leaf text => pure (st.push text)
      | .blockquote => do
          let inner ← walkChildren32 cs { st with md := [] }
          pure { inner with md := st.md ++ (quoteLines inner.md ++ "\n") }
      | .pre => pure (((st.push "```\n").push (textContents cs)).closeLine.push "```\n\n")
      | .code => pure (st.push ("`" ++ childTexts trim cs ++ "`"))
      | .ul => do
          let st ← st.enter profile
          let st ← walkElements32 cs st
          let st ← st.leave profile
          pure (st.closeLine.push "\n")
      | .ol => do
          let st ← st.enter profile
          let st ← walkItems32 cs 1 st
          let st ← st.leave profile
          pure (st.push "\n")
      | .li => do
          let st ← walkChildren32 cs (st.push (indent st.listDepth.toNat ++ "- "))
          pure (st.push "\n")
  | .text _, st => pure st
  | .other _, st => pure st

/-- `walk_children`. -/
def walkChildren32 : List Node → Md32 → Except Panic Md32
  | [], st => pure st
  | .text t :: rest, st => do
      let s ← collapse t
      walkChildren32 rest (pushText32 st s)
  | .elem name attrs cs :: rest, st => do
      let st ← walkElement32 (.elem name attrs cs) st
      walkChildren32 rest st
  | .other _ :: rest, st => walkChildren32 rest st

/-- The loop of the `ul` arm, and of the document root. -/
def walkElements32 : List Node → Md32 → Except Panic Md32
  | [], st => pure st
  | c :: rest, st => do
      let st ← walkElement32 c st
      walkElements32 rest st

/-- The loop of the `ol` arm. -/
def walkItems32 : List Node → UInt32 → Md32 → Except Panic Md32
  | [], _, st => pure st
  | .elem _ _ cs :: rest, idx, st => do
      let st ← walkChildren32 cs (st.push (indent st.listDepth.toNat ++ (decimal idx.toNat ++ ". ")))
      let idx ← incU32 profile idx
      walkItems32 rest idx (st.push "\n")
  | .text _ :: rest, idx, st => walkItems32 rest idx st
  | .other _ :: rest, idx, st => walkItems32 rest idx st

end

end Walk

end Scrape
end McpWebSearch
