import McpWebSearch.Actions.Fetch
import McpWebSearch.Actions.Scrape.WebScrape
import McpWebSearch.Lib.Buffered

/-!
# `Actions.Extract` — `web_extract` (`src/actions/extract.rs`)

Many pages at once: each URL is fetched and converted by a future of its own, a bounded number at a time, and every
outcome is a section of text. The sections come in the order of completion, which the schedule chooses.

The conversion of a body is a blocking task, and what its panic does is decided by the build (`PanicStrategy`): where panics
unwind it is a `JoinError` of that one task; in the release profile of `Cargo.toml`, with `panic = "abort"`, it is the end of the
process and of all that runs in it.
-/

namespace McpWebSearch
namespace Actions

open Utf8 Scrape

/-- `panic` of the build profile. -/
inductive PanicStrategy
  | unwind
  | abort
  deriving DecidableEq, Repr

/-- What something comes to that may end the process. -/
inductive Ended (α : Type)
  | returned (a : α)
  | aborted
  deriving DecidableEq

namespace Ended

variable {α β : Type}

def map (f : α → β) : Ended α → Ended β
  | .returned a => .returned (f a)
  | .aborted => .aborted

def value? : Ended α → Option α
  | .returned a => some a
  | .aborted => none

@[simp] theorem value?_returned (a : α) : (returned a).value? = some a := rfl
@[simp] theorem value?_aborted : (aborted : Ended α).value? = none := rfl

end Ended

/-- `main_to_markdown`. -/
def mainToMarkdown (lib : ScrapeLib) (body : Text) : Except Panic Text :=
  mainToMarkdownDoc lib.collapse (lib.parseDocument body)

/-- The blocking task that converts a body: a `JoinError` (`none`) if it is cancelled before it runs, or if it panics and the
    panic unwinds. -/
def convertBlocking (panic : PanicStrategy) (lib : ScrapeLib) (cancelled : Bool) (body : Text) : Ended (Option Text) :=
  if cancelled then .returned none
  else
    match mainToMarkdown lib body, panic with
    | .ok md, _ => .returned (some md)
    | .error _, .unwind => .returned none
    | .error _, .abort => .aborted

/-- The section of a page, from what its conversion comes to. -/
def pageSection (url : Text) : Option Text → Text
  | some md => "## Content from " ++ url ++ "\n\n" ++ md
  | none => "## Failed to extract from " ++ url ++ "\n\nError: parse task panicked"

/-- What the future of a URL yields, on a network of its own. -/
def extractSection (panic : PanicStrategy) (net : Net) (lib : ScrapeLib) (cancelled : Bool) (config : Config) (url : Text) :
    Ended Text :=
  match (fetchPage net config url World.initial).1 with
  | .ok page => (convertBlocking panic lib cancelled page.body).map (pageSection url)
  | .error e => .returned ("## Failed to extract from " ++ url ++ "\n\nError: " ++ e.display)

/-- What the future of URL `i` yields: with the network and the fate of the blocking task as it finds them. -/
def extractedSection (panic : PanicStrategy) (nets : Nat → Net) (lib : ScrapeLib) (cancelled : Nat → Bool) (config : Config)
    (i : Nat) (url : Text) : Ended Text :=
  extractSection panic (nets i) lib (cancelled i) config url

/-- The sections that have come in, unless one of the conversions has ended the process. -/
def sectionsOf : List (Ended Text) → Ended (List Text)
  | [] => .returned []
  | .aborted :: _ => .aborted
  | .returned s :: out => (sectionsOf out).map (s :: ·)

/-- `web_extract` under a schedule of its futures; no result if the schedule does not complete them, unless the process has ended
    before. -/
def webExtract (panic : PanicStrategy) (nets : Nat → Net) (lib : ScrapeLib) (cancelled : Nat → Bool) (cpus : Nat)
    (config : Config) (args : Option Value) (schedule : List Buffered.PoolMove) : Option (Ended (Result Value)) :=
  match bulkUrls config args with
  | .error e => some (.returned (.error e))
  | .ok urls =>
      let concurrency := max (cpus * 2) 4
      ((Buffered.bufferUnordered concurrency (extractedSection panic nets lib cancelled config) urls).exec
        Buffered.Pool.initial schedule).bind fun s =>
          match sectionsOf s.out with
          | .aborted => some .aborted
          | .returned sections =>
              if s.finished urls then some (.returned (.ok (textContent (join "\n\n---\n\n" sections)))) else none

end Actions
end McpWebSearch
