import McpWebSearch.Correctness.Markdown

/-!
# `Correctness.VisibleText` — which visible text the markdown walk loses

The visible text of a page is what is below neither a skipped element nor an `iframe`. Each arm of `walk_element`
decides for itself which children it visits, so some visible text is taken by none: `lost` collects it, by the `Place`
a node is reached at. A page that loses nothing but white space shows all its visible text, in order
(`visible_sublist`, and `Writes` for the way to the output); and wherever a page does lose some, a page of the same
markup with more text there does not show it (`exists_more_lost`). `visible_text_shown_iff` puts the two together.
-/

namespace McpWebSearch
namespace Scrape

open Utf8 Dom

/-! ## Visible text -/

/-- The elements whose text is not shown: the skipped ones, and `iframe`. -/
def isHidden (name : Text) : Bool := isSkipped name || oneOf name ["iframe"]

/-- The visible text of a node, without its white space. -/
def visible (n : Node) : Text := solid (textContent (prune isHidden n))

def visibleAll (cs : List Node) : Text := solid (textContents (pruneAll isHidden cs))

theorem visible_elem (name : Text) (attrs : List (Text × Text)) (cs : List Node) :
    visible (.elem name attrs cs) = if isHidden name then [] else visibleAll cs := by
  unfold visible
  rw [prune, edit]
  cases isHidden name with
  | true => rfl
  | false => rfl

theorem visibleAll_cons (c : Node) (cs : List Node) : visibleAll (c :: cs) = visible c ++ visibleAll cs :=
  solid_append (textContent (prune isHidden c)) (textContents (pruneAll isHidden cs))

theorem visibleAll_append (cs ds : List Node) : visibleAll (cs ++ ds) = visibleAll cs ++ visibleAll ds := by
  induction cs with
  | nil => rfl
  | cons c cs ih => rw [List.cons_append, visibleAll_cons, visibleAll_cons, ih, List.append_assoc]

theorem visibleAll_eq_nil_iff {cs : List Node} : visibleAll cs = [] ↔ ∀ c ∈ cs, visible c = [] := by
  induction cs with
  | nil => simp [visibleAll, pruneAll, editAll, textContents]
  | cons c cs ih => rw [visibleAll_cons, List.append_eq_nil_iff, ih, List.forall_mem_cons]

/-! ## Lost text -/

/-- How the walk reaches a node: as an element (at the root and in `ul`), as a child, as an item of an `ol`, or as a
    child of `code` and `kbd`. -/
inductive Place
  | element
  | child
  | item
  | code
  deriving DecidableEq

/-- A text node is taken as a child, and not as an element or an item. -/
def Place.losesText : Place → Bool
  | .element | .item => true
  | .child | .code => false

mutual

/-- The visible text at or below a node that the walk does not take. -/
def lost : Place → Node → Text
  | p, .text t => if p.losesText then solid t else []
  | _, .other cs => visibleAll cs
  | p, .elem name attrs cs =>
      if isHidden name then []
      else
        match p with
        | .code => visibleAll cs
        | .item => lostAll .child cs
        | .element | .child =>
            match armOf name attrs with
            | .leaf _ => visibleAll cs
            | .pre => []
            | .code => lostAll .code cs
            | .ul => lostAll .element cs
            | .ol => lostAll .item cs
            | .block _ | .inline _ _ | .blockquote | .li => lostAll .child cs

def lostAll : Place → List Node → Text
  | _, [] => []
  | p, c :: cs => lost p c ++ lostAll p cs

end

/-- A page loses nothing if all the text it loses is white space. -/
def LosesNothing (doc : List Node) : Prop := lostAll .element doc = []

instance (doc : List Node) : Decidable (LosesNothing doc) := inferInstanceAs (Decidable (_ = _))

theorem lostAll_eq_nil_iff {p : Place} {cs : List Node} : lostAll p cs = [] ↔ ∀ c ∈ cs, lost p c = [] := by
  induction cs with
  | nil => simp [lostAll]
  | cons c cs ih => rw [lostAll, List.append_eq_nil_iff, ih, List.forall_mem_cons]

theorem lost_hidden {name : Text} (h : isHidden name = true) (p : Place) (attrs : List (Text × Text))
    (cs : List Node) : lost p (.elem name attrs cs) = [] := by
  cases p with
  | element => rw [lost, h, if_pos rfl]
  | child => rw [lost, h, if_pos rfl]
  | item => rw [lost, h, if_pos rfl]
  | code => rw [lost, h, if_pos rfl]

/-- The pieces taken of a node at its place. -/
def taken : Place → Node → List Piece
  | .element, n => pieces n
  | .child, .text t => [.collapsed t]
  | .child, n => pieces n
  | .item, .elem _ _ cs => childPieces cs
  | .item, _ => []
  | .code, .text t => [.verbatim (trim t)]
  | .code, _ => []

def takenAll (p : Place) (cs : List Node) : List Piece := cs.flatMap (taken p)

theorem elementPieces_eq (cs : List Node) : elementPieces cs = takenAll .element cs := by
  induction cs with
  | nil => rfl
  | cons c cs ih => rw [elementPieces, ih, takenAll, takenAll, List.flatMap_cons, taken]

theorem childPieces_eq (cs : List Node) : childPieces cs = takenAll .child cs := by
  induction cs with
  | nil => rfl
  | cons c cs ih =>
      cases c with
      | text t => exact congrArg (Piece.collapsed t :: ·) ih
      | elem name attrs gs => exact congrArg (pieces (.elem name attrs gs) ++ ·) ih
      | other gs => exact ih

theorem itemPieces_eq (cs : List Node) : itemPieces cs = takenAll .item cs := by
  induction cs with
  | nil => rfl
  | cons c cs ih =>
      cases c with
      | text t => exact ih
      | elem name attrs gs => exact congrArg (childPieces gs ++ ·) ih
      | other gs => exact ih

/-- The text of some pieces. -/
def textOf (ps : List Piece) : Text := ps.flatMap Piece.text

theorem childTexts_eq (cs : List Node) : childTexts trim cs = textOf (takenAll .code cs) := by
  induction cs with
  | nil => rfl
  | cons c cs ih =>
      cases c with
      | text t => exact congrArg (trim t ++ ·) ih
      | elem name attrs gs => exact ih
      | other gs => exact ih

/-- The place at which an arm reaches the children of its element, if it visits them one by one. -/
def Arm.childPlace : Arm → Option Place
  | .block _ | .inline _ _ | .blockquote | .li => some .child
  | .code => some .code
  | .ul => some .element
  | .ol => some .item
  | .leaf _ | .pre => none

/-- Such an arm loses what its children lose. -/
theorem lost_of_childPlace {name : Text} {attrs : List (Text × Text)} {q : Place}
    (hq : (armOf name attrs).childPlace = some q) (hhidden : isHidden name = false) (cs : List Node) :
    lost .element (.elem name attrs cs) = lostAll q cs := by
  rw [lost, hhidden, if_neg Bool.false_ne_true]
  cases harm : armOf name attrs with
  | leaf text => rw [harm] at hq; cases hq
  | pre => rw [harm] at hq; cases hq
  | _ =>
      rw [harm] at hq
      obtain rfl := Option.some.inj hq
      rfl

/-- Such an arm takes the pieces of its children. -/
theorem pieces_congr {name : Text} {attrs : List (Text × Text)} {q : Place}
    (hq : (armOf name attrs).childPlace = some q) {cs cs' : List Node} (h : takenAll q cs' = takenAll q cs) :
    pieces (.elem name attrs cs') = pieces (.elem name attrs cs) := by
  rw [pieces, pieces]
  cases harm : armOf name attrs with
  | leaf text => rfl
  | pre => rw [harm] at hq; cases hq
  | _ =>
      rw [harm] at hq
      obtain rfl := Option.some.inj hq
      simp only [elementPieces_eq, childPieces_eq, itemPieces_eq, childTexts_eq, h]

/-! ## What is not lost is taken -/

/-- The text of some pieces without its white space. -/
def solidOf (ps : List Piece) : Text := solid (textOf ps)

@[simp] theorem solidOf_append (ps qs : List Piece) : solidOf (ps ++ qs) = solidOf ps ++ solidOf qs := by
  unfold solidOf textOf
  rw [List.flatMap_append, solid_append]

theorem solidOf_cons (p : Piece) (ps : List Piece) : solidOf (p :: ps) = solid p.text ++ solidOf ps :=
  solid_append p.text (textOf ps)

theorem solidOf_singleton (p : Piece) : solidOf [p] = solid p.text := by
  rw [solidOf_cons]
  exact List.append_nil _

/-- Among children of which nothing is lost. -/
theorem visibleAll_sublist {p : Place} {cs : List Node}
    (h : ∀ c ∈ cs, lost p c = [] → (visible c).Sublist (solidOf (taken p c))) (hlost : lostAll p cs = []) :
    (visibleAll cs).Sublist (solidOf (takenAll p cs)) := by
  induction cs with
  | nil => exact List.nil_sublist _
  | cons c cs ih =>
      obtain ⟨hc, hcs⟩ := List.append_eq_nil_iff.mp hlost
      rw [visibleAll_cons, takenAll, List.flatMap_cons, solidOf_append]
      have hhead := h c List.mem_cons_self hc
      have htail := ih (fun d hd => h d (List.mem_cons_of_mem c hd)) hcs
      exact hhead.append htail

/-- An element that `walk_element` is called on: one case for each arm. -/
theorem walked_sublist {name : Text} {attrs : List (Text × Text)} {cs : List Node} (hhidden : isHidden name = false)
    (hall : ∀ p, lostAll p cs = [] → (visibleAll cs).Sublist (solidOf (takenAll p cs)))
    (hlost : lost .element (.elem name attrs cs) = []) :
    (visibleAll cs).Sublist (solidOf (pieces (.elem name attrs cs))) := by
  rw [lost, hhidden, if_neg Bool.false_ne_true] at hlost
  rw [pieces]
  cases harm : armOf name attrs with
  | leaf text =>
      rw [harm] at hlost
      rw [show visibleAll cs = [] from hlost]
      exact List.nil_sublist _
  | pre =>
      rw [solidOf_singleton]
      exact solid_sublist (textContents_pruneAll_sublist cs)
  | code =>
      rw [harm] at hlost
      rw [solidOf_singleton, childTexts_eq]
      exact hall .code hlost
  | ul =>
      rw [harm] at hlost
      rw [elementPieces_eq]
      exact hall .element hlost
  | ol =>
      rw [harm] at hlost
      rw [itemPieces_eq]
      exact hall .item hlost
  | block lead =>
      rw [harm] at hlost
      rw [solidOf_cons, childPieces_eq]
      exact (hall .child hlost).trans (List.sublist_append_right _ _)
  | inline before after =>
      rw [harm] at hlost
      rw [solidOf_cons, solidOf_append, childPieces_eq]
      apply (hall .child hlost).trans
      exact (List.sublist_append_left _ _).trans (List.sublist_append_right _ _)
  | blockquote =>
      rw [harm] at hlost
      rw [childPieces_eq]
      exact hall .child hlost
  | li =>
      rw [harm] at hlost
      rw [childPieces_eq]
      exact hall .child hlost

/-- **What is visible and not lost is taken**, in order. -/
theorem visible_sublist (n : Node) (p : Place) (hlost : lost p n = []) :
    (visible n).Sublist (solidOf (taken p n)) := by
  induction n using Node.induct generalizing p with
  | step n ih =>
      have hall (p : Place) (h : lostAll p n.children = []) :
          (visibleAll n.children).Sublist (solidOf (takenAll p n.children)) :=
        visibleAll_sublist (fun c hc hlost => ih c hc p hlost) h
      cases n with
      | text t =>
          rw [lost] at hlost
          show (solid t).Sublist _
          cases p with
          | element =>
              rw [show solid t = [] from hlost]
              exact List.nil_sublist _
          | item =>
              rw [show solid t = [] from hlost]
              exact List.nil_sublist _
          | child =>
              rw [taken, solidOf_cons]
              exact List.sublist_append_left _ _
          | code =>
              rw [taken, solidOf_singleton]
              show (solid t).Sublist (solid (trim t))
              rw [solid_trim]
      | other cs =>
          rw [lost] at hlost
          show (visibleAll cs).Sublist _
          rw [hlost]
          exact List.nil_sublist _
      | elem name attrs cs =>
          rw [Node.children_elem] at hall
          cases hhidden : isHidden name with
          | true =>
              rw [visible_elem, hhidden]
              exact List.nil_sublist _
          | false =>
              rw [visible_elem, hhidden, if_neg Bool.false_ne_true]
              cases p with
              | element => exact walked_sublist hhidden hall hlost
              | child => exact walked_sublist hhidden hall hlost
              | item =>
                  rw [lost, hhidden, if_neg Bool.false_ne_true] at hlost
                  rw [taken, childPieces_eq]
                  exact hall .child hlost
              | code =>
                  rw [lost, hhidden, if_neg Bool.false_ne_true] at hlost
                  rw [show visibleAll cs = [] from hlost]
                  exact List.nil_sublist _

/-! ## What is taken is written -/

/-- An action on the buffer that always succeeds and appends a text with what is solid of the pieces. -/
def Writes (act : Md → Except Panic Md) (ps : List Piece) : Prop :=
  ∀ st, ∃ t, act st = .ok (st.push t) ∧ (solidOf ps).Sublist (solid t)

/-- An action that appends some text. -/
def Appends (act : Md → Md) : Prop := ∀ st, ∃ t, act st = st.push t

theorem push_push (st : Md) (s t : Text) : (st.push s).push t = st.push (s ++ t) := by
  unfold Md.push
  rw [List.append_assoc]

theorem push_nil (st : Md) : st.push [] = st := by
  unfold Md.push
  rw [List.append_nil]

theorem Appends.idle : Appends id := fun st => ⟨[], (push_nil st).symm⟩

theorem Appends.closeLine : Appends Md.closeLine := by
  intro st
  unfold Md.closeLine
  split
  · exact ⟨[], (push_nil st).symm⟩
  · exact ⟨"\n", rfl⟩

theorem Appends.comp {f g : Md → Md} (hf : Appends f) (hg : Appends g) : Appends fun st => g (f st) := by
  intro st
  obtain ⟨s, hs⟩ := hf st
  obtain ⟨t, ht⟩ := hg (f st)
  refine ⟨s ++ t, ?_⟩
  show g (f st) = _
  rw [ht, hs, push_push]

theorem Writes.bind {act act' : Md → Except Panic Md} {ps qs : List Piece} (h : Writes act ps)
    (h' : Writes act' qs) : Writes (fun st => act st >>= act') (ps ++ qs) := by
  intro st
  obtain ⟨s, hs, hps⟩ := h st
  obtain ⟨t, ht, hqs⟩ := h' (st.push s)
  refine ⟨s ++ t, ?_, ?_⟩
  · show act st >>= act' = _
    rw [hs]
    show act' (st.push s) = _
    rw [ht, push_push]
  · rw [solidOf_append, solid_append]
    exact hps.append hqs

theorem Writes.layout {act : Md → Except Panic Md} {ps : List Piece} {before after : Md → Md} (h : Writes act ps)
    (hb : Appends before) (ha : Appends after) :
    Writes (fun st => do let st ← act (before st); pure (after st)) ps := by
  intro st
  obtain ⟨s, hs⟩ := hb st
  obtain ⟨t, ht, hps⟩ := h (before st)
  obtain ⟨u, hu⟩ := ha ((before st).push t)
  refine ⟨s ++ (t ++ u), ?_, ?_⟩
  · show (act (before st) >>= fun st => pure (after st)) = _
    rw [ht]
    show Except.ok (after ((before st).push t)) = _
    rw [hu, hs, push_push, push_push]
  · rw [solid_append, solid_append]
    exact (hps.trans (List.sublist_append_left _ _)).trans (List.sublist_append_right _ _)

/-- Quoting keeps every line. -/
theorem solid_quoteLines (inner : Text) : (solid inner).Sublist (solid (quoteLines inner)) := by
  have hline (l : Text) : (solid l).Sublist (solid ("> " ++ stripEol l ++ "\n")) := by
    rw [solid_append, solid_append, solid_stripEol]
    exact (List.sublist_append_right _ _).trans (List.sublist_append_left _ _)
  have hlines (ls : List Text) :
      (solid ls.flatten).Sublist (solid (ls.flatMap fun l => "> " ++ stripEol l ++ "\n")) := by
    induction ls with
    | nil => exact List.nil_sublist _
    | cons l ls ih =>
        rw [List.flatMap_cons, List.flatten_cons, solid_append, solid_append]
        exact (hline l).append ih
  have hall := hlines (Framing.lines '\n' inner)
  rw [Framing.flatten_lines] at hall
  rw [quoteLines, strLines, List.flatMap_map]
  exact hall

theorem Writes.text (t : Text) :
    Writes (fun st => do let s ← reference t; pure (pushText st s)) [.collapsed t] := by
  intro st
  rw [solidOf_singleton]
  show ∃ s, Except.ok (pushText st (referenceCollapse t)) = _ ∧ (solid t).Sublist _
  rw [← solid_referenceCollapse t, pushText]
  split
  · exact ⟨referenceCollapse t, rfl, List.Sublist.refl _⟩
  · -- what is not written is empty or a single space
    rename_i hblank
    refine ⟨[], by rw [push_nil], ?_⟩
    have hnothing : solid (referenceCollapse t) = [] := by
      by_cases hnil : referenceCollapse t = []
      · rw [hnil]
        rfl
      · have hspace : referenceCollapse t = " " := by
          by_contra hne
          exact hblank ⟨hnil, hne⟩
        rw [hspace]
        rfl
    rw [hnothing]
    exact List.nil_sublist _

theorem Writes.push (t : Text) : Writes (fun st => pure (st.push t)) [.verbatim t] := by
  intro st
  rw [solidOf_singleton]
  exact ⟨t, rfl, List.Sublist.refl _⟩

theorem Writes.fenced (t : Text) : Writes (fun st => pure (st.push ("`" ++ t ++ "`"))) [.verbatim t] := by
  intro st
  refine ⟨"`" ++ t ++ "`", rfl, ?_⟩
  rw [solidOf_singleton, solid_append, solid_append]
  exact (List.sublist_append_right _ _).trans (List.sublist_append_left _ _)

/-- A list: the depth is what it was. -/
theorem Writes.nested {act : Md → Except Panic Md} {ps : List Piece} {after : Md → Md} (h : Writes act ps)
    (ha : Appends after) :
    Writes (fun st => do let st ← act st.enter; let st ← st.leave; pure (after st)) ps := by
  intro st
  obtain ⟨t, ht, hps⟩ := h st.enter
  obtain ⟨u, hu⟩ := ha (st.push t)
  refine ⟨t ++ u, ?_, ?_⟩
  · show (act st.enter >>= fun st => st.leave >>= fun st => pure (after st)) = _
    rw [ht]
    show ((st.enter.push t).leave >>= fun st => pure (after st)) = _
    have hleave : (st.enter.push t).leave = .ok (st.push t) := by
      have hdepth : ¬ (st.enter.push t).listDepth = 0 := Nat.succ_ne_zero _
      unfold Md.leave
      rw [if_neg hdepth]
      rfl
    rw [hleave, ← push_push, ← hu]
    rfl
  · rw [solid_append]
    exact hps.trans (List.sublist_append_left _ _)

theorem Writes.quoted {act : Md → Except Panic Md} {ps : List Piece} (h : Writes act ps) :
    Writes (fun st => do
      let inner ← act { st with md := [] }
      pure { inner with md := st.md ++ (quoteLines inner.md ++ "\n") }) ps := by
  intro st
  obtain ⟨t, ht, hps⟩ := h { st with md := [] }
  refine ⟨quoteLines t ++ "\n", ?_, ?_⟩
  · show (act { st with md := [] } >>= fun inner => pure _) = _
    rw [ht]
    rfl
  · rw [solid_append]
    exact (hps.trans (solid_quoteLines t)).trans (List.sublist_append_left _ _)

/-- **The walk writes its pieces.** -/
theorem writes_rules : WalkRules reference Writes Appends where
  idle := Appends.idle
  write := fun t _ st => ⟨t st.listDepth, rfl⟩
  closeLine := Appends.closeLine
  comp := Appends.comp
  nothing := fun st => ⟨[], by rw [push_nil]; rfl, List.nil_sublist _⟩
  bind := Writes.bind
  layout := fun h hb ha => h.layout hb ha
  text := Writes.text
  push := Writes.push
  fenced := Writes.fenced
  nested := fun h ha => h.nested ha
  quoted := Writes.quoted

/-- A page shows all its visible text if that is, in order, part of its output. -/
def ShowsAll (doc : List Node) : Prop :=
  ∃ md, domToMarkdownDoc reference doc = .ok md ∧ (visibleAll doc).Sublist md

/-- A page that loses nothing shows all its visible text. -/
theorem showsAll_of_losesNothing {doc : List Node} (h : LosesNothing doc) : ShowsAll doc := by
  obtain ⟨t, hwalk, hwritten⟩ := writes_rules.page doc { md := [], listDepth := 0 }
  refine ⟨_, domToMarkdownDoc_of_walk hwalk, ?_⟩
  have htaken : (visibleAll doc).Sublist (solidOf (elementPieces doc)) := by
    rw [elementPieces_eq]
    exact visibleAll_sublist (fun c _ hlost => visible_sublist c .element hlost) h
  have hshown : (visibleAll doc).Sublist (solid (trim (squeeze 0 t))) := by
    rw [solid_trim, solid_squeeze]
    exact htaken.trans hwritten
  exact hshown.trans List.filter_sublist

/-! ## Pages of the same markup -/

/-- Of a text no more than whether there is more to it than white space. -/
def outline (t : Text) : Text := if solid t = [] then [] else ['x']

theorem solid_outline (t : Text) : solid (outline t) = [] ↔ solid t = [] := by
  unfold outline
  split
  · rename_i h
    exact iff_of_true rfl h
  · rename_i h
    exact iff_of_false (by decide) h

/-- Two pages with the same elements and attributes, and white space in the same text nodes. -/
def SameMarkup (doc doc' : List Node) : Prop := mapTextsAll outline doc = mapTextsAll outline doc'

theorem visible_outline (n : Node) : visible (mapTexts outline n) = [] ↔ visible n = [] := by
  induction n using Node.induct with
  | step n ih =>
      have hall : visibleAll (mapTextsAll outline n.children) = [] ↔ visibleAll n.children = [] := by
        rw [visibleAll_eq_nil_iff, visibleAll_eq_nil_iff, mapTextsAll_eq_map, List.forall_mem_map]
        exact forall₂_congr ih
      cases n with
      | text t => exact solid_outline t
      | other cs => exact hall
      | elem name attrs cs =>
          rw [mapTexts, visible_elem, visible_elem]
          cases isHidden name with
          | true => exact Iff.rfl
          | false => exact hall

/-- What an element loses, it loses of its children: one case for each arm. -/
theorem lost_elem_congr {name : Text} {attrs : List (Text × Text)} {cs cs' : List Node}
    (hvisible : visibleAll cs' = [] ↔ visibleAll cs = []) (hall : ∀ p, lostAll p cs' = [] ↔ lostAll p cs = [])
    (p : Place) : lost p (.elem name attrs cs') = [] ↔ lost p (.elem name attrs cs) = [] := by
  have hwalked : lost .element (.elem name attrs cs') = [] ↔ lost .element (.elem name attrs cs) = [] := by
    rw [lost, lost]
    split
    · exact Iff.rfl
    · cases armOf name attrs with
      | leaf text => exact hvisible
      | pre => exact Iff.rfl
      | code => exact hall .code
      | ul => exact hall .element
      | ol => exact hall .item
      | block lead => exact hall .child
      | inline before after => exact hall .child
      | blockquote => exact hall .child
      | li => exact hall .child
  cases p with
  | element => exact hwalked
  | child => exact hwalked
  | item =>
      rw [lost, lost]
      split
      · exact Iff.rfl
      · exact hall .child
  | code =>
      rw [lost, lost]
      split
      · exact Iff.rfl
      · exact hvisible

/-- Where text is lost depends on the markup alone. -/
theorem lost_outline (n : Node) (p : Place) : lost p (mapTexts outline n) = [] ↔ lost p n = [] := by
  induction n using Node.induct generalizing p with
  | step n ih =>
      have hvisible : visibleAll (mapTextsAll outline n.children) = [] ↔ visibleAll n.children = [] :=
        visible_outline (.other n.children)
      have hall (p : Place) : lostAll p (mapTextsAll outline n.children) = [] ↔ lostAll p n.children = [] := by
        rw [lostAll_eq_nil_iff, lostAll_eq_nil_iff, mapTextsAll_eq_map, List.forall_mem_map]
        exact forall₂_congr fun c hc => ih c hc p
      cases n with
      | text t =>
          rw [mapTexts, lost, lost]
          split
          · exact solid_outline t
          · exact Iff.rfl
      | other cs =>
          rw [mapTexts, lost, lost]
          exact hvisible
      | elem name attrs cs =>
          rw [mapTexts]
          exact lost_elem_congr hvisible hall p

theorem losesNothing_of_sameMarkup {doc doc' : List Node} (h : SameMarkup doc doc') (hdoc : LosesNothing doc) :
    LosesNothing doc' := by
  have houtline (cs : List Node) : lostAll .element (mapTextsAll outline cs) = [] ↔ lostAll .element cs = [] := by
    rw [lostAll_eq_nil_iff, lostAll_eq_nil_iff, mapTextsAll_eq_map, List.forall_mem_map]
    exact forall₂_congr fun c _ => lost_outline c .element
  unfold LosesNothing at hdoc ⊢
  rw [← houtline, ← h, houtline]
  exact hdoc

/-! ## More text where some is lost -/

/-- A text of `k` marks and one more. -/
def loud (k : Nat) : Text := List.replicate (k + 1) 'x'

theorem le_marks_loud (k : Nat) : k ≤ marks (solid (loud k)) := by
  have hsolid : solid (loud k) = loud k := by
    apply List.filter_eq_self.mpr
    intro c hc
    rw [List.eq_of_mem_replicate hc]
    decide
  rw [hsolid, marks, loud, List.count_replicate_self]
  exact Nat.le_succ k

/-- A text that is not blank may be exchanged for a loud one. -/
theorem outline_loud {t : Text} (h : solid t ≠ []) (k : Nat) : outline t = outline (loud k) := by
  have hloud : solid (loud k) ≠ [] := by
    unfold loud
    rw [List.replicate_succ, solid_cons_solid (by decide)]
    exact List.cons_ne_nil _ _
  rw [outline, outline, if_neg h, if_neg hloud]

/-- One child exchanged, the others as they are. -/
theorem exists_exchanged {α : Type} (f : Node → List α) {cs : List Node} {c : Node} (hc : c ∈ cs) {k : Nat}
    (h : ∃ c', mapTexts outline c = mapTexts outline c' ∧ f c' = f c ∧ k ≤ marks (visible c')) :
    ∃ cs', mapTextsAll outline cs = mapTextsAll outline cs' ∧ cs'.flatMap f = cs.flatMap f ∧
      k ≤ marks (visibleAll cs') := by
  obtain ⟨c', houtline, hsame, hk⟩ := h
  obtain ⟨before, after, rfl⟩ := List.append_of_mem hc
  refine ⟨before ++ c' :: after, ?_, ?_, ?_⟩
  · rw [mapTextsAll_eq_map, mapTextsAll_eq_map, List.map_append, List.map_append, List.map_cons, List.map_cons,
      houtline]
  · rw [List.flatMap_append, List.flatMap_append, List.flatMap_cons, List.flatMap_cons, hsame]
  · rw [visibleAll_append, visibleAll_cons, marks_append, marks_append]
    omega

theorem exists_more_of_children {k : Nat} {cs : List Node}
    (h : ∀ c ∈ cs, visible c ≠ [] → ∃ c', mapTexts outline c = mapTexts outline c' ∧ k ≤ marks (visible c'))
    (hne : visibleAll cs ≠ []) :
    ∃ cs', mapTextsAll outline cs = mapTextsAll outline cs' ∧ k ≤ marks (visibleAll cs') := by
  obtain ⟨c, hc⟩ := not_forall.mp (mt visibleAll_eq_nil_iff.mpr hne)
  obtain ⟨hmem, hvisible⟩ := Classical.not_imp.mp hc
  obtain ⟨c', houtline, hk⟩ := h c hmem hvisible
  obtain ⟨cs', houtlines, -, hks⟩ := exists_exchanged (fun _ => ([] : List Piece)) hmem ⟨c', houtline, rfl, hk⟩
  exact ⟨cs', houtlines, hks⟩

/-- Visible text may be exchanged for more. -/
theorem exists_more_visible (k : Nat) (n : Node) (h : visible n ≠ []) :
    ∃ n', mapTexts outline n = mapTexts outline n' ∧ k ≤ marks (visible n') := by
  induction n using Node.induct with
  | step n ih =>
      cases n with
      | text t => exact ⟨.text (loud k), congrArg Node.text (outline_loud h k), le_marks_loud k⟩
      | other cs =>
          obtain ⟨cs', houtline, hk⟩ := exists_more_of_children ih h
          exact ⟨.other cs', congrArg Node.other houtline, hk⟩
      | elem name attrs cs =>
          rw [visible_elem] at h
          cases hhidden : isHidden name with
          | true =>
              rw [hhidden] at h
              exact absurd rfl h
          | false =>
              rw [hhidden] at h
              obtain ⟨cs', houtline, hk⟩ := exists_more_of_children ih h
              refine ⟨.elem name attrs cs', congrArg (Node.elem name attrs) houtline, ?_⟩
              rw [visible_elem, hhidden]
              exact hk

theorem exists_more_visibleAll (k : Nat) {cs : List Node} (h : visibleAll cs ≠ []) :
    ∃ cs', mapTextsAll outline cs = mapTextsAll outline cs' ∧ k ≤ marks (visibleAll cs') :=
  exists_more_of_children (fun c _ => exists_more_visible k c) h

/-- The children of an element may be exchanged for some with more text, where it loses some: among the children
    its arm visits, or below an arm that visits none. -/
theorem exists_more_walked {name : Text} {attrs : List (Text × Text)} {cs : List Node} {k : Nat}
    (hall : ∀ p, lostAll p cs ≠ [] → ∃ cs', mapTextsAll outline cs = mapTextsAll outline cs' ∧
      takenAll p cs' = takenAll p cs ∧ k ≤ marks (visibleAll cs'))
    (h : lost .element (.elem name attrs cs) ≠ []) :
    ∃ cs', mapTextsAll outline cs = mapTextsAll outline cs' ∧
      pieces (.elem name attrs cs') = pieces (.elem name attrs cs) ∧ k ≤ marks (visibleAll cs') := by
  have hhidden : isHidden name = false := by
    by_contra hhidden
    exact h (lost_hidden (by simpa using hhidden) .element attrs cs)
  have hvisits {q : Place} (hq : (armOf name attrs).childPlace = some q) :
      ∃ cs', mapTextsAll outline cs = mapTextsAll outline cs' ∧
        pieces (.elem name attrs cs') = pieces (.elem name attrs cs) ∧ k ≤ marks (visibleAll cs') := by
    rw [lost_of_childPlace hq hhidden] at h
    obtain ⟨cs', houtline, htaken, hk⟩ := hall q h
    exact ⟨cs', houtline, pieces_congr hq htaken, hk⟩
  cases harm : armOf name attrs with
  | leaf text =>
      rw [lost, hhidden, harm] at h
      obtain ⟨cs', houtline, hk⟩ := exists_more_visibleAll k h
      exact ⟨cs', houtline, by rw [pieces, pieces, harm], hk⟩
  | pre =>
      rw [lost, hhidden, harm] at h
      exact absurd rfl h
  | code => exact hvisits (congrArg Arm.childPlace harm)
  | ul => exact hvisits (congrArg Arm.childPlace harm)
  | ol => exact hvisits (congrArg Arm.childPlace harm)
  | block lead => exact hvisits (congrArg Arm.childPlace harm)
  | inline before after => exact hvisits (congrArg Arm.childPlace harm)
  | blockquote => exact hvisits (congrArg Arm.childPlace harm)
  | li => exact hvisits (congrArg Arm.childPlace harm)

/-- An element, at each place. -/
theorem exists_more_elem {name : Text} {attrs : List (Text × Text)} {cs : List Node} {k : Nat}
    (hall : ∀ p, lostAll p cs ≠ [] → ∃ cs', mapTextsAll outline cs = mapTextsAll outline cs' ∧
      takenAll p cs' = takenAll p cs ∧ k ≤ marks (visibleAll cs')) (p : Place)
    (h : lost p (.elem name attrs cs) ≠ []) :
    ∃ n', mapTexts outline (.elem name attrs cs) = mapTexts outline n' ∧
      taken p n' = taken p (.elem name attrs cs) ∧ k ≤ marks (visible n') := by
  have hhidden : isHidden name = false := by
    by_contra hhidden
    exact h (lost_hidden (by simpa using hhidden) p attrs cs)
  obtain ⟨cs', houtline, htaken, hk⟩ :
      ∃ cs', mapTextsAll outline cs = mapTextsAll outline cs' ∧
        taken p (.elem name attrs cs') = taken p (.elem name attrs cs) ∧ k ≤ marks (visibleAll cs') := by
    cases p with
    | element => exact exists_more_walked hall h
    | child => exact exists_more_walked hall h
    | item =>
        rw [lost, hhidden, if_neg Bool.false_ne_true] at h
        obtain ⟨cs', houtline, htaken, hk⟩ := hall .child h
        refine ⟨cs', houtline, ?_, hk⟩
        rw [taken, taken, childPieces_eq, childPieces_eq, htaken]
    | code =>
        rw [lost, hhidden, if_neg Bool.false_ne_true] at h
        obtain ⟨cs', houtline, hk⟩ := exists_more_visibleAll k h
        exact ⟨cs', houtline, rfl, hk⟩
  refine ⟨.elem name attrs cs', congrArg (Node.elem name attrs) houtline, htaken, ?_⟩
  rw [visible_elem, hhidden]
  exact hk

/-- **Lost text may be exchanged for more**, and the walk takes the same pieces as before. -/
theorem exists_more_lost (k : Nat) (n : Node) (p : Place) (h : lost p n ≠ []) :
    ∃ n', mapTexts outline n = mapTexts outline n' ∧ taken p n' = taken p n ∧ k ≤ marks (visible n') := by
  induction n using Node.induct generalizing p with
  | step n ih =>
      have hall (p : Place) (hlost : lostAll p n.children ≠ []) :
          ∃ cs', mapTextsAll outline n.children = mapTextsAll outline cs' ∧
            takenAll p cs' = takenAll p n.children ∧ k ≤ marks (visibleAll cs') := by
        obtain ⟨c, hc⟩ := not_forall.mp (mt lostAll_eq_nil_iff.mpr hlost)
        obtain ⟨hmem, hne⟩ := Classical.not_imp.mp hc
        exact exists_exchanged (taken p) hmem (ih c hmem p hne)
      cases n with
      | text t =>
          rw [lost] at h
          split at h
          · rename_i hplace
            refine ⟨.text (loud k), congrArg Node.text (outline_loud h k), ?_, le_marks_loud k⟩
            cases p with
            | element => rfl
            | item => rfl
            | child => cases hplace
            | code => cases hplace
          · exact absurd rfl h
      | other cs =>
          rw [lost] at h
          obtain ⟨cs', houtline, hk⟩ := exists_more_visibleAll k h
          refine ⟨.other cs', congrArg Node.other houtline, ?_, hk⟩
          cases p with
          | element => rfl
          | item => rfl
          | child => rfl
          | code => rfl
      | elem name attrs cs =>
          exact exists_more_elem hall p h

/-- **Which pages show all their visible text**, with all other pages of their markup: exactly those that lose
    nothing but white space. -/
theorem visible_text_shown_iff (doc : List Node) :
    (∀ doc', SameMarkup doc doc' → ShowsAll doc') ↔ LosesNothing doc := by
  constructor
  · intro hall
    by_contra hloses
    -- one mark more where text is lost than there are in the output
    obtain ⟨c, hc⟩ := not_forall.mp (mt lostAll_eq_nil_iff.mpr hloses)
    obtain ⟨hmem, hlost⟩ := Classical.not_imp.mp hc
    have hmore := exists_more_lost (marksOf (elementPieces doc) + 1) c .element hlost
    obtain ⟨doc', hmarkup, hsame, hk⟩ := exists_exchanged (taken .element) hmem hmore
    obtain ⟨md, hrun, hshown⟩ := hall doc' hmarkup
    have hmarks : marks md = marksOf (elementPieces doc) := by
      have hsound : Collapses reference (fun _ => False) .slice := ⟨fun _ _ => rfl, fun _ h => h.elim⟩
      obtain ⟨md', hrun', hmd'⟩ := (domToMarkdownDoc_takes hsound doc').2 (fun ⟨_, _, h⟩ => h)
      rw [hrun] at hrun'
      rw [Except.ok.inj hrun', hmd', elementPieces_eq, elementPieces_eq]
      exact congrArg marksOf hsame
    have hle : marks (visibleAll doc') ≤ marks md := hshown.count_le 'x'
    omega
  · intro hdoc doc' hmarkup
    exact showsAll_of_losesNothing (losesNothing_of_sameMarkup hmarkup hdoc)

/-- **Highlighted code**: of an element inside `code` nothing is written. -/
theorem code_span_lost :
    domToMarkdownDoc reference [.elem "p" [] [.elem "code" [] [.elem "span" [] [.text "fn"]]]] = .ok "``".toList ∧
      ¬ ShowsAll [.elem "p" [] [.elem "code" [] [.elem "span" [] [.text "fn"]]]] := by
  have hrun : domToMarkdownDoc reference [.elem "p" [] [.elem "code" [] [.elem "span" [] [.text "fn"]]]] =
      .ok "``".toList := by decide
  refine ⟨hrun, ?_⟩
  rintro ⟨md, hmd, hshown⟩
  rw [hrun] at hmd
  obtain rfl := Except.ok.inj hmd
  exact absurd hshown (by decide)

end Scrape
end McpWebSearch
