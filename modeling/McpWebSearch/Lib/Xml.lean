import McpWebSearch.Lib.Text

/-!
# `Lib.Xml` — the events of a streaming XML reader

What a pull parser delivers for a document: tags, self-closing tags, character data. The character data of an
element is that of everything up to its end tag, at any depth; `elements` collects it for all elements of a
name, in the order of their start tags.

## Contents
- `Event`, `wellFormed`: tags nest, and every text decodes.
- `charData` / `elements`: read off the events by looking ahead to the matching end tag.
- `Span` / `spans`: the same by one pass that keeps, for each element met so far, its text and whether it is
  still open; `elements_eq_spans` says that the two agree.
-/

namespace Xml

open Utf8

/-- An event of the reader; a text is `none` when an entity in it cannot be decoded. -/
inductive Event
  | start (name : Text)
  | empty (name : Text)
  | close (name : Text)
  | text (decoded : Option Text)
  | cdata (s : Text)
  | other
  deriving DecidableEq

/-- Start and end tags pair up by name, inside the elements `stack`, and every text decodes. -/
def nests : List Text → List Event → Bool
  | stack, [] => stack.isEmpty
  | stack, .start n :: es => nests (n :: stack) es
  | m :: stack, .close n :: es => m == n && nests stack es
  | [], .close _ :: _ => false
  | _, .text none :: _ => false
  | stack, _ :: es => nests stack es

/-- A well-formed sequence of events. -/
def wellFormed (es : List Event) : Bool := nests [] es

/-! ## Character data -/

/-- The characters an event contributes. -/
def Event.chars : Event → Text
  | .text (some t) => t
  | .cdata s => s
  | _ => []

/-- The character data up to the end tag `depth` levels out. -/
def charData : Nat → List Event → Text
  | _, [] => []
  | depth, .start _ :: es => charData (depth + 1) es
  | 0, .close _ :: _ => []
  | depth + 1, .close _ :: es => charData depth es
  | depth, e :: es => e.chars ++ charData depth es

/-- The character data of every element called `name`, in document order. -/
def elements (name : Text) : List Event → List Text
  | [] => []
  | .start n :: es => (if n = name then [charData 0 es] else []) ++ elements name es
  | .empty n :: es => (if n = name then [[]] else []) ++ elements name es
  | _ :: es => elements name es

/-- Character data comes from the events. -/
theorem mem_charData {c : Char} {depth : Nat} {es : List Event} (h : c ∈ charData depth es) :
    ∃ e ∈ es, c ∈ e.chars := by
  induction es generalizing depth with
  | nil => cases h
  | cons e es ih =>
      have hrest : ∀ d, c ∈ charData d es → ∃ e' ∈ e :: es, c ∈ e'.chars := by
        intro d hd
        obtain ⟨e', hmem, hc⟩ := ih hd
        exact ⟨e', List.mem_cons_of_mem e hmem, hc⟩
      cases e with
      | start n => exact hrest _ h
      | close n =>
          cases depth with
          | zero => cases h
          | succ d => exact hrest d h
      | empty n | text t | cdata s | other =>
          rw [charData] at h
          · rcases List.mem_append.mp h with hhere | hd
            · exact ⟨_, List.mem_cons_self, hhere⟩
            · exact hrest depth hd
          all_goals simp

/-- What an element contains comes from the events. -/
theorem mem_of_mem_elements {name s : Text} {c : Char} {es : List Event} (hs : s ∈ elements name es)
    (hc : c ∈ s) : ∃ e ∈ es, c ∈ e.chars := by
  induction es with
  | nil => cases hs
  | cons e es ih =>
      have hrest : s ∈ elements name es → ∃ e' ∈ e :: es, c ∈ e'.chars := by
        intro h
        obtain ⟨e', hmem, hc'⟩ := ih h
        exact ⟨e', List.mem_cons_of_mem e hmem, hc'⟩
      cases e with
      | start n =>
          rcases List.mem_append.mp hs with hhere | hlater
          · split at hhere
            · obtain rfl := List.mem_singleton.mp hhere
              obtain ⟨e', hmem, hc'⟩ := mem_charData hc
              exact ⟨e', List.mem_cons_of_mem _ hmem, hc'⟩
            · cases hhere
          · exact hrest hlater
      | empty n =>
          rcases List.mem_append.mp hs with hhere | hlater
          · split at hhere
            · obtain rfl := List.mem_singleton.mp hhere
              cases hc
            · cases hhere
          · exact hrest hlater
      | close n | text t | cdata s' | other => exact hrest hs

/-! ## One pass -/

/-- An element met so far: how many elements are open inside it (`none` once it is closed), and its
    characters. -/
structure Span where
  depth : Option Nat
  chars : Text
  deriving DecidableEq

namespace Span

def isOpen (sp : Span) : Bool := sp.depth.isSome

/-- The span after one more event. -/
def advance (e : Event) (sp : Span) : Span :=
  match sp.depth, e with
  | none, _ => sp
  | some d, .start _ => { sp with depth := some (d + 1) }
  | some 0, .close _ => { sp with depth := none }
  | some (d + 1), .close _ => { sp with depth := some d }
  | some _, e => { sp with chars := sp.chars ++ e.chars }

/-- What the span will have for characters if the events `es` follow. -/
def complete (es : List Event) (sp : Span) : Text :=
  sp.chars ++ match sp.depth with
    | none => []
    | some d => charData d es

end Span

/-- The span an event opens, if it is a tag called `name`. -/
def opened (name : Text) : Event → List Span
  | .start n => if n = name then [⟨some 0, []⟩] else []
  | .empty n => if n = name then [⟨none, []⟩] else []
  | _ => []

/-- A new span has no characters yet. -/
theorem opened_chars {name : Text} {e : Event} {sp : Span} (h : sp ∈ opened name e) : sp.chars = [] := by
  unfold opened at h
  split at h
  · split at h
    · obtain rfl := List.mem_singleton.mp h
      rfl
    · cases h
  · split at h
    · obtain rfl := List.mem_singleton.mp h
      rfl
    · cases h
  · cases h

/-- The elements called `name` after one more event. -/
def advance (name : Text) (sps : List Span) (e : Event) : List Span :=
  sps.map (Span.advance e) ++ opened name e

/-- The elements called `name` met in the events, in document order. -/
def spans (name : Text) (es : List Event) : List Span := es.foldl (advance name) []

@[simp] theorem spans_nil (name : Text) : spans name [] = [] := rfl

theorem spans_snoc (name : Text) (es : List Event) (e : Event) :
    spans name (es ++ [e]) = advance name (spans name es) e := by
  unfold spans
  rw [List.foldl_append]
  rfl

/-- A closed span stays as it is. -/
theorem Span.advance_of_closed {e : Event} {sp : Span} (h : sp.isOpen = false) : sp.advance e = sp := by
  obtain ⟨depth, chars⟩ := sp
  cases depth with
  | none => rfl
  | some d => cases h

/-- No event opens a span that is closed. -/
theorem Span.isOpen_of_isOpen_advance {e : Event} {sp : Span} (h : (sp.advance e).isOpen = true) :
    sp.isOpen = true := by
  cases hsp : sp.isOpen with
  | true => rfl
  | false =>
      rw [Span.advance_of_closed hsp] at h
      rw [← hsp, h]

/-- One event taken off what follows goes into the span. -/
theorem complete_cons (sp : Span) (e : Event) (es : List Event) :
    sp.complete (e :: es) = (sp.advance e).complete es := by
  obtain ⟨depth, chars⟩ := sp
  cases depth with
  | none => rfl
  | some d =>
      cases e with
      | start n => rfl
      | close n =>
          cases d with
          | zero => rfl
          | succ d => rfl
      | empty n | text t | cdata s | other =>
          simp [Span.complete, Span.advance, charData]

/-- The elements that follow an event: the one it opens, and those after it. -/
theorem elements_cons (name : Text) (e : Event) (es : List Event) :
    elements name (e :: es) = (opened name e).map (Span.complete es) ++ elements name es := by
  cases e with
  | start n =>
      by_cases hn : n = name
      · simp [elements, opened, hn, Span.complete]
      · simp [elements, opened, hn]
  | empty n =>
      by_cases hn : n = name
      · simp [elements, opened, hn, Span.complete]
      · simp [elements, opened, hn]
  | close n | text t | cdata s | other => rfl

/-- The spans of a prefix, completed by the rest, are the elements of the whole. -/
theorem elements_append (name : Text) (pre es : List Event) :
    elements name (pre ++ es) = (spans name pre).map (Span.complete es) ++ elements name es := by
  induction pre using List.reverseRecOn generalizing es with
  | nil => rfl
  | append_singleton pre e ih =>
      rw [List.append_assoc, List.singleton_append, ih, elements_cons, spans_snoc, advance,
        List.map_append, List.append_assoc, List.map_map]
      refine congrArg (· ++ _) (List.map_congr_left ?_)
      intro sp _
      exact complete_cons sp e es

/-- **One pass is enough**: the elements of the events, read off the spans at the end. -/
theorem elements_eq_spans (name : Text) (es : List Event) :
    elements name es = (spans name es).map Span.chars := by
  have h := elements_append name es []
  rw [List.append_nil] at h
  rw [h]
  show _ ++ [] = _
  rw [List.append_nil]
  refine List.map_congr_left ?_
  rintro ⟨depth, chars⟩ -
  cases depth with
  | none => exact List.append_nil chars
  | some d => exact List.append_nil chars

end Xml
