import Mathlib.Data.List.Forall2
import McpWebSearch.Correctness.Sitemap

/-!
# `Correctness.Locs` — what `parse_sitemap_fast` extracts

`locEntries` is the purpose of the parser: the character data of every `loc` element. `Clean` says of a sequence
of events where its character data may stand, and `parseSitemapFast_of_clean` that the parser then returns
the entries. It is exact up to the texts themselves: of a sequence that is not clean, `markedAt` puts a `y` in
the piece that offends, and the parser and the elements disagree about that letter (`extracts_locs_iff`).
-/

namespace McpWebSearch
namespace Actions

open Utf8 Xml History

/-! ## The `loc` elements -/

/-- What `parse_sitemap_fast` is to return: for each `loc` element its character data, trimmed, unless that is
    nothing. -/
def locEntries (es : List Event) : List Text := ((elements "loc" es).map trim).filter (fun t => !t.isEmpty)

/-- A piece of character data: a decoded text or a CDATA section with more than white space in it. -/
def IsPiece (e : Event) : Prop := trim e.chars ≠ []

instance (e : Event) : Decidable (IsPiece e) := inferInstanceAs (Decidable (_ ≠ _))

def isText : Event → Bool
  | .text _ => true
  | _ => false

/-- The `loc` elements that enclose what comes after `pre`, with their character data so far. -/
def enclosing (pre : List Event) : List Span := (spans "loc" pre).filter Span.isOpen

/-- Where a piece is extracted as it should be: outside every `loc` it is passed over; in a `loc` it is a text,
    the flag is up, no second `loc` encloses it, and nothing but white space precedes it in its `loc`. -/
def Extracted (pre : List Event) (e : Event) : Prop :=
  if isText e = true ∧ locOpen pre = true then ∃ sp, enclosing pre = [sp] ∧ trim sp.chars = []
  else enclosing pre = []

/-- Every piece is extracted as it should be. -/
def Clean (es : List Event) : Prop := AtEach (fun pre e => IsPiece e → Extracted pre e) es

/-- The entries of the spans of a prefix. -/
def entriesOf (sps : List Span) : List Text := ((sps.map Span.chars).map trim).filter (fun t => !t.isEmpty)

theorem locEntries_eq (es : List Event) : locEntries es = entriesOf (spans "loc" es) := by
  unfold locEntries entriesOf
  rw [elements_eq_spans]

theorem entriesOf_append (a b : List Span) : entriesOf (a ++ b) = entriesOf a ++ entriesOf b := by
  simp [entriesOf]

/-- Blank spans have no entries. -/
theorem entriesOf_blank {sps : List Span} (h : ∀ sp ∈ sps, trim sp.chars = []) : entriesOf sps = [] := by
  unfold entriesOf
  rw [List.filter_eq_nil_iff]
  intro t ht
  simp only [List.map_map, List.mem_map, Function.comp_apply] at ht
  obtain ⟨sp, hsp, rfl⟩ := ht
  rw [h sp hsp]
  simp

/-- Entries do not change when characters change by white space at the end only. -/
theorem entriesOf_congr {f : Span → Span} {sps : List Span}
    (h : ∀ sp ∈ sps, trim (f sp).chars = trim sp.chars) : entriesOf (sps.map f) = entriesOf sps := by
  unfold entriesOf
  rw [List.map_map, List.map_map, List.map_map]
  refine congrArg _ (List.map_congr_left ?_)
  intro sp hsp
  exact h sp hsp

/-- What one event does to the trimmed characters of an element. -/
theorem trim_advance {e : Event} {sp : Span} (h : sp.isOpen = false ∨ ¬ IsPiece e) :
    trim (sp.advance e).chars = trim sp.chars := by
  obtain ⟨depth, chars⟩ := sp
  cases depth with
  | none => rfl
  | some d =>
      have hblank : trim e.chars = [] := by
        rcases h with h | h
        · cases h
        · exact not_not.mp h
      cases e with
      | start n => rfl
      | close n =>
          cases d with
          | zero => rfl
          | succ d => rfl
      | empty n | text t | cdata s | other => exact trim_append_of_blank_right hblank

theorem opened_blank {e : Event} {sp : Span} (h : sp ∈ opened "loc" e) : trim sp.chars = [] := by
  rw [opened_chars h]
  rfl

/-- A piece opens nothing, and goes at the end of an open span. -/
theorem piece_advance {e : Event} (h : IsPiece e) :
    opened "loc" e = [] ∧ ∀ sp : Span, sp.isOpen = true → sp.advance e = { sp with chars := sp.chars ++ e.chars } := by
  have hadvance : ∀ sp : Span, sp.isOpen = true → sp = ⟨some (sp.depth.getD 0), sp.chars⟩ := by
    rintro ⟨depth, chars⟩ hopen
    cases depth with
    | none => cases hopen
    | some d => rfl
  cases e with
  | start n | empty n | close n | other => exact absurd rfl h
  | text t | cdata s =>
      refine ⟨rfl, fun sp hopen => ?_⟩
      rw [hadvance sp hopen]
      rfl

/-- What follows an open `loc` and starts inside it has only white space. -/
def LaterBlank (sps : List Span) : Prop :=
  sps.Pairwise (fun sp later => sp.isOpen = true → trim later.chars = [])

/-- What is pushed at an event that is not a piece: nothing. -/
theorem fastTexts_of_not_piece {e : Event} (h : ¬ IsPiece e) : fastTexts e = [] := by
  cases e with
  | start n | empty n | close n | cdata s | other => rfl
  | text t =>
      cases t with
      | none => rfl
      | some t => exact if_pos (not_not.mp h)

/-- **An event that is not a piece** changes no entry. -/
theorem entriesOf_advance_blank {e : Event} {sps : List Span} (he : ¬ IsPiece e) (hlater : LaterBlank sps) :
    entriesOf (advance "loc" sps e) = entriesOf sps ∧ LaterBlank (advance "loc" sps e) := by
  have hsame : ∀ sp : Span, trim (sp.advance e).chars = trim sp.chars := fun sp => trim_advance (.inr he)
  constructor
  · unfold advance
    rw [entriesOf_append, entriesOf_blank (fun sp hsp => opened_blank hsp), List.append_nil]
    exact entriesOf_congr (fun sp _ => hsame sp)
  · unfold LaterBlank advance
    refine List.pairwise_append.mpr ⟨List.pairwise_map.mpr ?_, ?_, ?_⟩
    · refine hlater.imp ?_
      intro sp later hblank hopen
      rw [hsame]
      exact hblank (Span.isOpen_of_isOpen_advance hopen)
    · exact List.pairwise_of_forall_mem_list (fun _ _ later hmem _ => opened_blank hmem)
    · exact fun _ _ later hmem _ => opened_blank hmem

/-- **A piece in one `loc`** with nothing before it is a new last entry. -/
theorem entriesOf_advance_piece {e : Event} {sps : List Span} {sp : Span} (he : IsPiece e)
    (hopen : sps.filter Span.isOpen = [sp]) (hblank : trim sp.chars = []) (hlater : LaterBlank sps) :
    entriesOf (advance "loc" sps e) = entriesOf sps ++ [trim e.chars] ∧
      LaterBlank (advance "loc" sps e) := by
  obtain ⟨l₁, l₂, rfl, hl₁, hsp, hl₂⟩ := List.filter_eq_cons_iff.mp hopen
  have hclosed₁ : l₁.map (Span.advance e) = l₁ := by
    refine (List.map_congr_left fun sp' hmem => ?_).trans (List.map_id l₁)
    exact Span.advance_of_closed (by simpa using hl₁ sp' hmem)
  have hclosed₂ : l₂.map (Span.advance e) = l₂ := by
    refine (List.map_congr_left fun sp' hmem => ?_).trans (List.map_id l₂)
    exact Span.advance_of_closed (by simpa using List.filter_eq_nil_iff.mp hl₂ sp' hmem)
  have hafter : ∀ later ∈ l₂, trim later.chars = [] := by
    intro later hmem
    exact (List.pairwise_cons.mp (List.pairwise_append.mp hlater).2.1).1 later hmem hsp
  have hadvance : advance "loc" (l₁ ++ sp :: l₂) e =
      l₁ ++ { sp with chars := sp.chars ++ e.chars } :: l₂ := by
    unfold advance
    rw [(piece_advance he).1, List.append_nil, List.map_append, List.map_cons, hclosed₁, hclosed₂,
      (piece_advance he).2 sp hsp]
  rw [hadvance]
  constructor
  · have hentry : entriesOf [{ sp with chars := sp.chars ++ e.chars }] = [trim e.chars] := by
      unfold entriesOf
      rw [List.map_singleton, List.map_singleton, trim_append_of_blank_left hblank,
        List.filter_cons_of_pos (by rw [List.isEmpty_eq_false_iff.mpr he]; rfl), List.filter_nil]
    have hnone : entriesOf (sp :: l₂) = [] := by
      apply entriesOf_blank
      intro later hmem
      rcases List.mem_cons.mp hmem with rfl | hmem
      · exact hblank
      · exact hafter later hmem
    rw [← List.singleton_append, entriesOf_append, entriesOf_append, entriesOf_append, hentry, hnone,
      entriesOf_blank hafter, List.append_nil, List.append_nil]
  · refine List.pairwise_append.mpr ⟨(List.pairwise_append.mp hlater).1, List.pairwise_cons.mpr
      ⟨fun later hmem _ => hafter later hmem, (List.pairwise_cons.mp (List.pairwise_append.mp hlater).2.1).2⟩, ?_⟩
    intro sp' hmem later _ hopen'
    exact absurd hopen' (hl₁ sp' hmem)

/-- **A piece outside every `loc`** changes nothing. -/
theorem advance_of_no_open {e : Event} {sps : List Span} (he : IsPiece e)
    (hopen : sps.filter Span.isOpen = []) : advance "loc" sps e = sps := by
  unfold advance
  rw [(piece_advance he).1, List.append_nil]
  refine (List.map_congr_left ?_).trans (List.map_id sps)
  intro sp hsp
  exact Span.advance_of_closed (by simpa using List.filter_eq_nil_iff.mp hopen sp hsp)

/-- A piece is a decoded text or a CDATA section. -/
theorem piece_cases {e : Event} (h : IsPiece e) :
    (isText e = true ∧ fastTexts e = [trim e.chars]) ∨ (isText e = false ∧ fastTexts e = []) := by
  cases e with
  | start n | empty n | close n | other => exact absurd rfl h
  | cdata s => exact .inr ⟨rfl, rfl⟩
  | text t =>
      cases t with
      | none => exact absurd rfl h
      | some t => exact .inl ⟨rfl, if_neg h⟩

/-- **Clean sequences are parsed exactly**: after every prefix the list pushed is that of the entries so far. -/
theorem parseSitemapFast_of_clean {es : List Event} (h : Clean es) :
    parseSitemapFast es = entriesOf (spans "loc" es) ∧ LaterBlank (spans "loc" es) := by
  rw [show parseSitemapFast es = pushes locOpen fastTexts [] es from
    congrArg Prod.snd (parseSitemapFast_state es)]
  induction es using List.reverseRecOn with
  | nil => exact ⟨rfl, List.Pairwise.nil⟩
  | append_singleton es e ih =>
      obtain ⟨hbefore, hhere⟩ := atEach_snoc.mp h
      obtain ⟨ihlist, ihlater⟩ := ih hbefore
      rw [pushes_snoc, List.nil_append, spans_snoc, ihlist]
      by_cases he : IsPiece e
      · have hextracted := hhere he
        unfold Extracted enclosing at hextracted
        by_cases hpush : isText e = true ∧ locOpen es = true
        · rw [if_pos hpush] at hextracted
          obtain ⟨sp, hopen, hblank⟩ := hextracted
          obtain ⟨hentries, hlater⟩ := entriesOf_advance_piece he hopen hblank ihlater
          rcases piece_cases he with ⟨-, htexts⟩ | ⟨hcdata, -⟩
          · rw [if_pos hpush.2, htexts]
            exact ⟨hentries.symm, hlater⟩
          · rw [hcdata] at hpush
            exact absurd hpush.1 Bool.false_ne_true
        · rw [if_neg hpush] at hextracted
          rw [advance_of_no_open he hextracted]
          refine ⟨?_, ihlater⟩
          rcases piece_cases he with ⟨htext, -⟩ | ⟨-, htexts⟩
          · rw [if_neg (fun hopen => hpush ⟨htext, hopen⟩), List.append_nil]
          · rw [htexts, ite_self, List.append_nil]
      · obtain ⟨hentries, hlater⟩ := entriesOf_advance_blank he ihlater
        rw [fastTexts_of_not_piece he, ite_self, List.append_nil, hentries]
        exact ⟨rfl, hlater⟩

/-! ## Exactness -/

/-- The events with every piece replaced by `x` and every blank text by nothing. -/
def skeleton : Event → Event
  | .text (some t) => .text (some (if trim t = [] then [] else ['x']))
  | .cdata s => .cdata (if trim s = [] then [] else ['x'])
  | e => e

/-- The same markup, with pieces in the same places. -/
def SameMarkup (es es' : List Event) : Prop := es.map skeleton = es'.map skeleton

/-- A piece replaced by `y`. -/
def marked : Event → Event
  | .text _ => .text (some ['y'])
  | _ => .cdata ['y']

/-- The events with one piece marked. -/
def markedAt (pre : List Event) (e : Event) (post : List Event) : List Event :=
  pre.map skeleton ++ marked e :: post.map skeleton

theorem skeleton_skeleton (e : Event) : skeleton (skeleton e) = skeleton e := by
  have hx : trim ['x'] ≠ [] := by decide
  cases e with
  | start n | empty n | close n | other => rfl
  | cdata s =>
      by_cases h : trim s = []
      · simp [skeleton, h]
      · simp [skeleton, h, hx]
  | text t =>
      cases t with
      | none => rfl
      | some t =>
          by_cases h : trim t = []
          · simp [skeleton, h]
          · simp [skeleton, h, hx]

theorem skeleton_marked {e : Event} (he : IsPiece e) : skeleton (marked e) = skeleton e := by
  have hy : trim ['y'] ≠ [] := by decide
  cases e with
  | start n | empty n | close n | other => exact absurd rfl he
  | cdata s =>
      have hs : trim s ≠ [] := he
      simp [skeleton, marked, hs, hy]
  | text t =>
      cases t with
      | none => exact absurd rfl he
      | some t =>
          have ht : trim t ≠ [] := he
          simp [skeleton, marked, ht, hy]

/-- Marking a piece keeps the markup. -/
theorem sameMarkup_markedAt {pre post : List Event} {e : Event} (he : IsPiece e) :
    SameMarkup (pre ++ e :: post) (markedAt pre e post) := by
  have hmap : ∀ l : List Event, (l.map skeleton).map skeleton = l.map skeleton := by
    intro l
    rw [List.map_map]
    exact List.map_congr_left (fun e _ => skeleton_skeleton e)
  unfold SameMarkup markedAt
  rw [List.map_append, List.map_cons, List.map_append, List.map_cons, hmap, hmap, skeleton_marked he]

/-- Only tags matter to the flag. -/
theorem locOpen_skeleton (pre : List Event) : locOpen (pre.map skeleton) = locOpen pre := by
  have htags : ∀ e, setsLoc (skeleton e) = setsLoc e ∧ closesLoc (skeleton e) = closesLoc e := by
    intro e
    cases e with
    | start n | empty n | close n | cdata s | other => exact ⟨rfl, rfl⟩
    | text t =>
        cases t with
        | none => exact ⟨rfl, rfl⟩
        | some t => exact ⟨rfl, rfl⟩
  induction pre using List.reverseRecOn with
  | nil => rfl
  | append_singleton pre e ih =>
      rw [List.map_append, List.map_singleton, locOpen_snoc, locOpen_snoc, ih, (htags e).1, (htags e).2]

/-- A word of `x` is blank only if it is empty. -/
theorem trim_marks_eq_nil_iff {s : Text} (h : ∀ c ∈ s, c = 'x') : trim s = [] ↔ s = [] := by
  rw [trim_eq_nil_iff]
  constructor
  · intro hblank
    cases s with
    | nil => rfl
    | cons c s =>
        have hws := hblank c List.mem_cons_self
        rw [h c List.mem_cons_self] at hws
        exact absurd hws (by decide)
  · rintro rfl
    exact fun c hc => absurd hc List.not_mem_nil

/-- The spans of the skeleton: as deep as before, and blank where they were. -/
def Shadows (sp' sp : Span) : Prop :=
  sp'.depth = sp.depth ∧ (∀ c ∈ sp'.chars, c = 'x') ∧ (sp'.chars = [] ↔ trim sp.chars = [])

/-- The characters of a skeleton event: `x` if it was a piece. -/
theorem chars_skeleton (e : Event) :
    (∀ c ∈ (skeleton e).chars, c = 'x') ∧ ((skeleton e).chars = [] ↔ trim e.chars = []) := by
  have hcases : ∀ t : Text, (∀ c ∈ (if trim t = [] then [] else ['x'] : Text), c = 'x') ∧
      ((if trim t = [] then [] else ['x'] : Text) = [] ↔ trim t = []) := by
    intro t
    by_cases h : trim t = []
    · simp [h]
    · simp [h]
  cases e with
  | start n | empty n | close n | other => exact ⟨fun c hc => absurd hc List.not_mem_nil, fun _ => rfl, fun _ => rfl⟩
  | cdata s => exact hcases s
  | text t =>
      cases t with
      | none => exact ⟨fun c hc => absurd hc List.not_mem_nil, fun _ => rfl, fun _ => rfl⟩
      | some t => exact hcases t

theorem shadows_advance {sp' sp : Span} (h : Shadows sp' sp) (e : Event) :
    Shadows (sp'.advance (skeleton e)) (sp.advance e) := by
  obtain ⟨depth', chars'⟩ := sp'
  obtain ⟨depth, chars⟩ := sp
  obtain ⟨hdepth, hx, hblank⟩ := h
  cases hdepth
  cases depth' with
  | none => exact ⟨rfl, hx, hblank⟩
  | some d =>
      have happend : Shadows ⟨some d, chars' ++ (skeleton e).chars⟩ ⟨some d, chars ++ e.chars⟩ := by
        obtain ⟨hskeleton, hempty⟩ := chars_skeleton e
        refine ⟨rfl, ?_, ?_⟩
        · intro c hc
          rcases List.mem_append.mp hc with hc | hc
          · exact hx c hc
          · exact hskeleton c hc
        · rw [List.append_eq_nil_iff, trim_append_eq_nil_iff]
          exact and_congr hblank hempty
      cases e with
      | start n => exact ⟨rfl, hx, hblank⟩
      | close n =>
          cases d with
          | zero => exact ⟨rfl, hx, hblank⟩
          | succ d => exact ⟨rfl, hx, hblank⟩
      | empty n | cdata s | other => exact happend
      | text t =>
          cases t with
          | none => exact happend
          | some t => exact happend

/-- The skeleton of a prefix has the spans of the prefix, but for their texts. -/
theorem spans_skeleton (pre : List Event) :
    List.Forall₂ Shadows (spans "loc" (pre.map skeleton)) (spans "loc" pre) := by
  induction pre using List.reverseRecOn with
  | nil => exact List.Forall₂.nil
  | append_singleton pre e ih =>
      have hopened : opened "loc" (skeleton e) = opened "loc" e := by
        cases e with
        | start n | empty n | close n | cdata s | other => rfl
        | text t =>
            cases t with
            | none => rfl
            | some t => rfl
      rw [List.map_append, List.map_singleton, spans_snoc, spans_snoc]
      unfold advance
      rw [hopened]
      refine List.rel_append ?_ (List.forall₂_same.mpr ?_)
      · apply List.forall₂_map_left_iff.mpr
        apply List.forall₂_map_right_iff.mpr
        exact ih.imp (fun _ _ h => shadows_advance h e)
      · intro sp hsp
        have hchars := opened_chars hsp
        refine ⟨rfl, ?_, fun _ => opened_blank hsp, fun _ => hchars⟩
        rw [hchars]
        exact fun c hc => absurd hc List.not_mem_nil

/-- The enclosing elements of the skeleton are those of the prefix, but for their texts. -/
theorem enclosing_skeleton (pre : List Event) :
    List.Forall₂ Shadows (enclosing (pre.map skeleton)) (enclosing pre) := by
  refine List.rel_filter ?_ (spans_skeleton pre)
  intro sp' sp hsp
  show (sp'.depth.isSome = true) ↔ (sp.depth.isSome = true)
  rw [hsp.1]

/-- Texts with the letter of the marked piece. -/
def HasMark (t : Text) : Prop := 'y' ∈ t

instance (t : Text) : Decidable (HasMark t) := inferInstanceAs (Decidable (_ ∈ _))

/-- A skeleton has no mark. -/
theorem not_hasMark_of_skeleton {t : Text} {es : List Event}
    (h : ∀ c ∈ t, ∃ e ∈ es.map skeleton, c ∈ e.chars) : ¬ HasMark t := by
  intro hmark
  obtain ⟨e', hmem, hc⟩ := h 'y' hmark
  obtain ⟨e, -, rfl⟩ := List.mem_map.mp hmem
  exact absurd ((chars_skeleton e).1 'y' hc) (by decide)

/-- The pushes at skeleton events have no mark. -/
theorem pushes_skeleton_unmarked (pre es : List Event) :
    (pushes locOpen fastTexts pre (es.map skeleton)).filter (fun t => decide (HasMark t)) = [] := by
  induction es generalizing pre with
  | nil => rfl
  | cons e es ih =>
      rw [List.map_cons, pushes, List.filter_append, ih, List.append_nil, List.filter_eq_nil_iff]
      intro t ht hmark
      have hchars : ∀ c ∈ t, c ∈ (skeleton e).chars := by
        split at ht
        · exact fun c hc => mem_of_mem_fastTexts ht hc
        · cases ht
      refine @not_hasMark_of_skeleton t [e] ?_ (of_decide_eq_true hmark)
      exact fun c hc => ⟨skeleton e, List.mem_singleton_self _, hchars c hc⟩

/-- **The mark in the list of the parser**: there if the marked piece is a text and the flag is up. -/
theorem marked_parse {pre post : List Event} {e : Event} (he : IsPiece e) :
    (parseSitemapFast (markedAt pre e post)).filter (fun t => decide (HasMark t)) =
      if isText e = true ∧ locOpen pre = true then [['y']] else [] := by
  have hparse : parseSitemapFast (markedAt pre e post) = pushes locOpen fastTexts [] (markedAt pre e post) :=
    congrArg Prod.snd (parseSitemapFast_state _)
  rw [hparse, markedAt, pushes_append, List.filter_append, pushes_skeleton_unmarked, pushes,
    List.filter_append, pushes_skeleton_unmarked, List.append_nil, List.nil_append, List.nil_append,
    locOpen_skeleton]
  have hy : trim ['y'] = ['y'] := by decide
  rcases piece_cases he with ⟨htext, -⟩ | ⟨hcdata, -⟩
  · have htexts : fastTexts (marked e) = [['y']] := by
      cases e with
      | text t =>
          show (if trim ['y'] = [] then [] else [trim ['y']]) = [['y']]
          rw [hy]
          rfl
      | start n | empty n | close n | cdata s | other => cases htext
    rw [htexts, htext]
    cases locOpen pre with
    | true => decide
    | false => decide
  · have htexts : fastTexts (marked e) = [] := by
      cases e with
      | text t => cases hcdata
      | start n | empty n | close n | cdata s | other => rfl
    rw [htexts, hcdata, ite_self, if_neg (fun h => Bool.false_ne_true h.1)]
    rfl

/-- Nothing in a marked sequence is white space. -/
theorem trim_of_mem_elements_markedAt {pre post : List Event} {e : Event} {s : Text}
    (hs : s ∈ elements "loc" (markedAt pre e post)) : trim s = s := by
  have hword : ∀ c ∈ s, isWhitespace c = false := by
    intro c hc
    obtain ⟨e', hmem, hc'⟩ := mem_of_mem_elements hs hc
    unfold markedAt at hmem
    have hskeleton : ∀ es : List Event, e' ∈ es.map skeleton → isWhitespace c = false := by
      intro es hes
      obtain ⟨e'', -, rfl⟩ := List.mem_map.mp hes
      rw [(chars_skeleton e'').1 c hc']
      rfl
    rcases List.mem_append.mp hmem with hpre | hrest
    · exact hskeleton pre hpre
    · rcases List.mem_cons.mp hrest with rfl | hpost
      · have hy : c = 'y' := by
          unfold marked at hc'
          split at hc'
          · exact List.mem_singleton.mp hc'
          · exact List.mem_singleton.mp hc'
        rw [hy]
        rfl
      · exact hskeleton post hpost
  apply trim_eq_self
  · exact fun c hc => hword c (List.mem_of_mem_head? hc)
  · exact fun c hc => hword c (List.mem_of_getLast? hc)

/-- An open span of the skeleton has the mark once the sequence goes on with it, a closed one does not. -/
theorem hasMark_complete {pre post : List Event} {e : Event} (he : IsPiece e) {sp : Span}
    (hsp : sp ∈ spans "loc" (pre.map skeleton)) :
    (sp.isOpen = true → sp.complete (marked e :: post.map skeleton) =
      sp.chars ++ 'y' :: Span.complete (post.map skeleton) ⟨sp.depth, []⟩) ∧
    (sp.isOpen = false → ¬ HasMark (sp.complete (marked e :: post.map skeleton))) := by
  have hpiece : IsPiece (marked e) ∧ (marked e).chars = ['y'] := by
    have hy : trim ['y'] ≠ [] := by decide
    cases e with
    | start n | empty n | close n | other => exact absurd rfl he
    | text t | cdata s => exact ⟨hy, rfl⟩
  constructor
  · intro hopen
    rw [complete_cons, (piece_advance hpiece.1).2 sp hopen, hpiece.2]
    simp [Span.complete]
  · intro hclosed
    rw [complete_cons, Span.advance_of_closed hclosed]
    have hcomplete : sp.complete (post.map skeleton) = sp.chars := by
      obtain ⟨depth, chars⟩ := sp
      cases depth with
      | none => exact List.append_nil chars
      | some d => cases hclosed
    rw [hcomplete]
    apply @not_hasMark_of_skeleton _ pre
    intro c hc
    have hmem : sp.chars ∈ elements "loc" (pre.map skeleton) := by
      rw [elements_eq_spans]
      exact List.mem_map_of_mem hsp
    exact mem_of_mem_elements hmem hc

/-- **The mark in the elements**: once for each `loc` around the marked piece, in its place there. -/
theorem marked_entries {pre post : List Event} {e : Event} (he : IsPiece e) :
    ∃ rest : Span → Text, (locEntries (markedAt pre e post)).filter (fun t => decide (HasMark t)) =
      (enclosing (pre.map skeleton)).map (fun sp => sp.chars ++ 'y' :: rest sp) := by
  refine ⟨fun sp => Span.complete (post.map skeleton) ⟨sp.depth, []⟩, ?_⟩
  have htrim : (elements "loc" (markedAt pre e post)).map trim = elements "loc" (markedAt pre e post) := by
    refine (List.map_congr_left ?_).trans (List.map_id _)
    exact fun s hs => trim_of_mem_elements_markedAt hs
  have hnonempty : ∀ t : Text, (decide (HasMark t) && !t.isEmpty) = decide (HasMark t) := by
    intro t
    cases t with
    | nil => decide
    | cons c t => simp
  have hafter : (elements "loc" (marked e :: post.map skeleton)).filter (fun t => decide (HasMark t)) = [] := by
    have hopened : opened "loc" (marked e) = [] := by
      unfold marked
      split
      · rfl
      · rfl
    rw [elements_cons, hopened, List.map_nil, List.nil_append, List.filter_eq_nil_iff]
    intro t ht hmark
    exact not_hasMark_of_skeleton (fun c hc => mem_of_mem_elements ht hc) (of_decide_eq_true hmark)
  unfold locEntries
  rw [htrim, List.filter_filter]
  simp only [hnonempty]
  rw [markedAt, elements_append, List.filter_append, hafter, List.append_nil, List.filter_map]
  have hopen : (spans "loc" (pre.map skeleton)).filter
      ((fun t => decide (HasMark t)) ∘ Span.complete (marked e :: post.map skeleton)) =
        enclosing (pre.map skeleton) := by
    apply List.filter_congr
    intro sp hsp
    obtain ⟨hin, hout⟩ := @hasMark_complete pre post e he sp hsp
    cases hsp' : sp.isOpen with
    | true =>
        show decide (HasMark _) = true
        rw [hin hsp']
        exact decide_eq_true (List.mem_append_right _ List.mem_cons_self)
    | false => exact decide_eq_false (hout hsp')
  rw [hopen]
  apply List.map_congr_left
  intro sp hsp
  obtain ⟨hmem, hsp'⟩ := List.mem_filter.mp hsp
  exact (hasMark_complete he hmem).1 hsp'

/-- A marked sequence that is parsed exactly has its piece where pieces may stand. -/
theorem extracted_of_marked {pre post : List Event} {e : Event} (he : IsPiece e)
    (h : parseSitemapFast (markedAt pre e post) = locEntries (markedAt pre e post)) : Extracted pre e := by
  have hshadow := enclosing_skeleton pre
  obtain ⟨rest, hrest⟩ := @marked_entries pre post e he
  have hlists := @marked_parse pre post e he
  rw [h, hrest] at hlists
  unfold Extracted
  split
  next hpush =>
    rw [if_pos hpush] at hlists
    -- one `loc` has the mark, and has nothing else
    obtain ⟨sp', hsp', hentry⟩ := List.map_eq_singleton_iff.mp hlists
    rw [hsp'] at hshadow
    obtain ⟨sp, others, hsp, hnil, heq⟩ := List.forall₂_cons_left_iff.mp hshadow
    obtain rfl := List.forall₂_nil_left_iff.mp hnil
    refine ⟨sp, heq, hsp.2.2.mp ?_⟩
    cases hchars : sp'.chars with
    | nil => rfl
    | cons c cs =>
        rw [hchars] at hentry
        have hlength := congrArg List.length hentry
        simp at hlength
  next hpush =>
    rw [if_neg hpush] at hlists
    rw [List.map_eq_nil_iff.mp hlists] at hshadow
    exact List.forall₂_nil_left_iff.mp hshadow

/-- Where a piece may stand depends on the skeleton of what precedes it. -/
theorem extracted_skeleton (pre : List Event) (e : Event) :
    Extracted (pre.map skeleton) (skeleton e) ↔ Extracted pre e := by
  have htext : isText (skeleton e) = isText e := by
    unfold skeleton
    split
    · rfl
    · rfl
    · rfl
  have hshadow := enclosing_skeleton pre
  unfold Extracted
  rw [htext, locOpen_skeleton]
  split
  · constructor
    · rintro ⟨sp', hsp', hblank⟩
      rw [hsp'] at hshadow
      obtain ⟨sp, others, hsp, hnil, heq⟩ := List.forall₂_cons_left_iff.mp hshadow
      obtain rfl := List.forall₂_nil_left_iff.mp hnil
      exact ⟨sp, heq, hsp.2.2.mp ((trim_marks_eq_nil_iff hsp.2.1).mp hblank)⟩
    · rintro ⟨sp, hsp, hblank⟩
      rw [hsp] at hshadow
      obtain ⟨sp', others, hsp', hnil, heq⟩ := List.forall₂_cons_right_iff.mp hshadow
      obtain rfl := List.forall₂_nil_right_iff.mp hnil
      refine ⟨sp', heq, ?_⟩
      rw [hsp'.2.2.mpr hblank]
      rfl
  · constructor
    · intro hnil
      rw [hnil] at hshadow
      exact List.forall₂_nil_left_iff.mp hshadow
    · intro hnil
      rw [hnil] at hshadow
      exact List.forall₂_nil_right_iff.mp hshadow

/-- So does being clean. -/
theorem clean_skeleton (es : List Event) : Clean (es.map skeleton) ↔ Clean es := by
  have hpiece : ∀ e, IsPiece (skeleton e) ↔ IsPiece e := by
    intro e
    obtain ⟨hx, hblank⟩ := chars_skeleton e
    unfold IsPiece
    rw [ne_eq, ne_eq, trim_marks_eq_nil_iff hx, hblank]
  unfold Clean
  induction es using List.reverseRecOn with
  | nil => exact Iff.rfl
  | append_singleton es e ih =>
      rw [List.map_append, List.map_singleton, atEach_snoc, atEach_snoc, hpiece, extracted_skeleton]
      exact and_congr ih Iff.rfl

/-- **When the parser extracts the `loc` elements.** The sequences that are clean are parsed exactly; of one
    that is not, some sequence with the same markup and white space is not parsed exactly. -/
theorem extracts_locs_iff (es : List Event) :
    (∀ es', SameMarkup es es' → parseSitemapFast es' = locEntries es') ↔ Clean es := by
  constructor
  · rintro h pre e post rfl he
    exact extracted_of_marked he (h _ (sameMarkup_markedAt he))
  · intro h es' hsame
    have hclean : Clean es' := by
      rw [← clean_skeleton, ← hsame, clean_skeleton]
      exact h
    rw [locEntries_eq]
    exact (parseSitemapFast_of_clean hclean).1

/-- **A self-closing `loc`** leaves the flag up: in `<urlset><loc/><title>x</title></urlset>` the title is
    extracted. -/
theorem self_closing_loc_leaks :
    ¬ ∀ es, wellFormed es = true → parseSitemapFast es = locEntries es := by
  intro h
  have htitle := h [.start "urlset", .empty "loc", .start "title", .text (some "x"), .close "title",
    .close "urlset"] (by decide)
  exact absurd htitle (by decide)

end Actions
end McpWebSearch
