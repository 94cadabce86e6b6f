import McpWebSearch.Correctness.PlainText
import McpWebSearch.Correctness.Rendering
import McpWebSearch.Correctness.VisibleText

/-!
# `Correctness.Targets` — the conversions on each target

The three versions of `collapse_whitespace` are one function but for the texts that the `x86_64` one panics on (`Target.Trips`), and
the conversions call it for some texts of a page only. So the targets convert a page to the same text, unless one of these texts
trips; then the conversion panics, whatever else is on the page. For markdown it is a congruence of the walk (`walk_congr`), for plain
text the walk is a fold over the texts (`textWalkChildren_eq_foldlM`).
-/

namespace McpWebSearch
namespace Scrape

open Utf8 Dom

/-! ## The collapser of a target -/

/-- The texts that the collapser of a target panics on. -/
def Target.Trips : Target → Text → Prop
  | .x86_64 _, t => LoneText t
  | .aarch64, _ | .other, _ => False

/-- How it does. -/
def Target.panic : Target → Panic
  | .x86_64 profile => lonePanic profile
  | .aarch64 | .other => .index  -- never

/-- The crates, with the collapser of a target. -/
def ScrapeLib.on (lib : ScrapeLib) (target : Target) : ScrapeLib := { lib with collapse := target.collapse }

theorem collapses_target (target : Target) : Collapses target.collapse target.Trips target.panic := by
  cases target with
  | x86_64 profile => exact collapses_collapseWhitespace profile
  | aarch64 => exact ⟨fun t _ => collapseWhitespaceNeon_eq t, fun _ h => h.elim⟩
  | other => exact ⟨fun t _ => collapseWhitespaceGeneric_eq t, fun _ h => h.elim⟩

/-! ## Markdown -/

section Congr

variable {collapse collapse' : Text → Except Panic Text}

/-- Two collapsers agree on the texts that are collapsed among some pieces. -/
def AgreeOn (collapse collapse' : Text → Except Panic Text) (ps : List Piece) : Prop :=
  ∀ t, Piece.collapsed t ∈ ps → collapse t = collapse' t

theorem agreeOn_append {ps qs : List Piece} :
    AgreeOn collapse collapse' (ps ++ qs) ↔ AgreeOn collapse collapse' ps ∧ AgreeOn collapse collapse' qs := by
  constructor
  · intro h
    exact ⟨fun t ht => h t (List.mem_append_left _ ht), fun t ht => h t (List.mem_append_right _ ht)⟩
  · rintro ⟨hps, hqs⟩ t ht
    rcases List.mem_append.mp ht with ht | ht
    · exact hps t ht
    · exact hqs t ht

theorem walkElements_congr {cs : List Node}
    (h : ∀ c ∈ cs, AgreeOn collapse collapse' (pieces c) → walkElement collapse c = walkElement collapse' c)
    (hagree : AgreeOn collapse collapse' (elementPieces cs)) : walkElements collapse cs = walkElements collapse' cs := by
  induction cs with
  | nil => rfl
  | cons c cs ih =>
      obtain ⟨hc, hcs⟩ := agreeOn_append.mp hagree
      have hhead := h c List.mem_cons_self hc
      have htail := ih (fun d hd => h d (List.mem_cons_of_mem c hd)) hcs
      funext st
      rw [walkElements, walkElements, hhead, htail]

theorem walkChildren_congr {cs : List Node}
    (h : ∀ c ∈ cs, AgreeOn collapse collapse' (pieces c) → walkElement collapse c = walkElement collapse' c)
    (hagree : AgreeOn collapse collapse' (childPieces cs)) : walkChildren collapse cs = walkChildren collapse' cs := by
  induction cs with
  | nil => rfl
  | cons c cs ih =>
      have hrest := ih fun d hd => h d (List.mem_cons_of_mem c hd)
      funext st
      cases c with
      | text t =>
          have htext : collapse t = collapse' t := hagree t List.mem_cons_self
          have htail := hrest fun u hu => hagree u (List.mem_cons_of_mem _ hu)
          rw [walkChildren, walkChildren, htext, htail]
      | elem name attrs gs =>
          obtain ⟨hc, hcs⟩ := agreeOn_append.mp hagree
          rw [walkChildren, walkChildren, h _ List.mem_cons_self hc, hrest hcs]
      | other gs => exact congrFun (hrest hagree) st

theorem walkItems_congr {cs : List Node}
    (h : ∀ c ∈ cs, AgreeOn collapse collapse' (childPieces c.children) →
      walkChildren collapse c.children = walkChildren collapse' c.children)
    (hagree : AgreeOn collapse collapse' (itemPieces cs)) (idx : Nat) :
    walkItems collapse cs idx = walkItems collapse' cs idx := by
  induction cs generalizing idx with
  | nil => rfl
  | cons c cs ih =>
      have hrest := ih fun d hd => h d (List.mem_cons_of_mem c hd)
      funext st
      cases c with
      | text t => exact congrFun (hrest hagree idx) st
      | other gs => exact congrFun (hrest hagree idx) st
      | elem name attrs gs =>
          obtain ⟨hc, hcs⟩ := agreeOn_append.mp hagree
          have hitem := h _ List.mem_cons_self hc
          rw [Node.children_elem] at hitem
          rw [walkItems, walkItems, hitem, hrest hcs]

/-- **The walk depends on the collapser by its pieces only.** -/
theorem walk_congr (n : Node) :
    (AgreeOn collapse collapse' (pieces n) → walkElement collapse n = walkElement collapse' n) ∧
      (AgreeOn collapse collapse' (childPieces n.children) →
        walkChildren collapse n.children = walkChildren collapse' n.children) := by
  induction n using Node.induct with
  | step n ih =>
      have hchildren := walkChildren_congr fun c hc => (ih c hc).1
      have helements := walkElements_congr fun c hc => (ih c hc).1
      have hitems := walkItems_congr fun c hc => (ih c hc).2
      refine ⟨fun hagree => ?_, hchildren⟩
      cases n with
      | text t => rfl
      | other cs => rfl
      | elem name attrs cs =>
          rw [Node.children_elem] at hchildren helements hitems
          funext st
          rw [pieces] at hagree
          rw [walkElement, walkElement]
          cases harm : armOf name attrs with
          | block lead =>
              rw [harm] at hagree
              have hcs := hchildren fun t ht => hagree t (List.mem_cons_of_mem _ ht)
              simp only [hcs]
          | inline before after =>
              rw [harm] at hagree
              have hcs := hchildren fun t ht => hagree t (List.mem_cons_of_mem _ (List.mem_append_left _ ht))
              simp only [hcs]
          | leaf text => rfl
          | blockquote =>
              rw [harm] at hagree
              simp only [hchildren hagree]
          | pre => rfl
          | code => rfl
          | ul =>
              rw [harm] at hagree
              simp only [helements hagree]
          | ol =>
              rw [harm] at hagree
              simp only [hitems hagree]
          | li =>
              rw [harm] at hagree
              simp only [hchildren hagree]

theorem domToMarkdownDoc_congr {cs : List Node} (h : AgreeOn collapse collapse' (elementPieces cs)) :
    domToMarkdownDoc collapse cs = domToMarkdownDoc collapse' cs := by
  rw [domToMarkdownDoc, domToMarkdownDoc, walkElements_congr (fun c _ => (walk_congr c).1) h]

end Congr

/-! ## Plain text -/

section Fold

variable {collapse : Text → Except Panic Text}

/-- One text of the plain-text walk. -/
def textStepWith (collapse : Text → Except Panic Text) (out t : Text) : Except Panic Text := do
  let s ← collapse (trim t)
  pure (pushRun out s)

/-- At an element, from what holds of its children. -/
theorem textWalkElement_eq_foldlM {name : Text} {attrs : List (Text × Text)} {cs : List Node}
    (ih : ∀ above out, above ≠ [] → reached above = true →
      textWalkChildren collapse cs out = (textsBelow above cs).foldlM (textStepWith collapse) out)
    {above : List (Option Text)} (h : reached above = true) (out : Text) :
    textWalkElement collapse (.elem name attrs cs) out =
      (textsBelow (above ++ [some name]) cs).foldlM (textStepWith collapse) out := by
  have hstep : reached (above ++ [some name]) = !textSkipElement name := reached_snoc h (some name)
  rw [textWalkElement]
  cases hskip : textSkipElement name with
  | true =>
      rw [hskip] at hstep
      rw [if_pos rfl, textsBelow_of_not_reached hstep]
      rfl
  | false =>
      rw [hskip] at hstep
      have hne : above ++ [some name] ≠ [] := List.append_ne_nil_of_right_ne_nil above (List.cons_ne_nil _ _)
      rw [if_neg Bool.false_ne_true]
      exact ih (above ++ [some name]) out hne hstep

/-- **The plain-text walk is a fold** over the texts that are reached, whatever the collapser. -/
theorem textWalkChildren_eq_foldlM (n : Node) (above : List (Option Text)) (out : Text) (hne : above ≠ [])
    (h : reached above = true) :
    textWalkChildren collapse n.children out = (textsBelow above n.children).foldlM (textStepWith collapse) out := by
  induction n using Node.induct generalizing above out with
  | step n ih =>
      generalize n.children = cs at ih ⊢
      induction cs generalizing out with
      | nil => rfl
      | cons c cs ihcs =>
          have hrest (out : Text) : textWalkChildren collapse cs out = (textsBelow above cs).foldlM (textStepWith collapse) out :=
            ihcs out (fun d hd => ih d (List.mem_cons_of_mem c hd))
          cases c with
          | text t =>
              have hreached : textReached (above, t) = true := by
                unfold textReached
                rw [h, Bool.and_true, Bool.not_eq_true']
                exact List.isEmpty_eq_false_iff.mpr hne
              rw [textsBelow_text, if_pos hreached, List.singleton_append, List.foldlM_cons, textStepWith, bind_assoc,
                textWalkChildren]
              exact bind_congr fun s => hrest _
          | elem name attrs below =>
              have hbelow : textWalkElement collapse (.elem name attrs below) out =
                  (textsBelow (above ++ [some name]) below).foldlM (textStepWith collapse) out :=
                textWalkElement_eq_foldlM
                  (fun above out hne h => ih (.elem name attrs below) List.mem_cons_self above out hne h) h out
              rw [textsBelow_elem, List.foldlM_append, textWalkChildren, hbelow]
              exact bind_congr fun out => hrest out
          | other below =>
              rw [textsBelow_other h, textWalkChildren]
              exact hrest out

theorem textWalkRoot_eq_foldlM (doc : List Node) :
    textWalkRoot collapse doc = (shownTexts doc).foldlM (textStepWith collapse) [] := by
  have hroot (out : Text) : doc.foldlM (fun out c => textWalkElement collapse c out) out =
      (textsBelow [] doc).foldlM (textStepWith collapse) out := by
    induction doc generalizing out with
    | nil => rfl
    | cons c doc ih =>
        rw [List.foldlM_cons]
        cases c with
        | text t =>
            -- no text of the root itself
            rw [textsBelow_text, textWalkElement]
            exact ih out
        | elem name attrs below =>
            have hbelow : textWalkElement collapse (.elem name attrs below) out =
                (textsBelow ([] ++ [some name]) below).foldlM (textStepWith collapse) out :=
              textWalkElement_eq_foldlM
                (fun above out hne h => textWalkChildren_eq_foldlM (.elem name attrs below) above out hne h) rfl out
            rw [textsBelow_elem, List.foldlM_append, hbelow]
            exact bind_congr fun out => ih out
        | other below =>
            have hstart : reached [] = true := rfl
            rw [textsBelow_other hstart, textWalkElement]
            exact ih out
  exact hroot []

variable {bad : Text → Prop} {panic : Panic}

/-- The fold panics at the first text that the collapser panics on, and is the fold with the reference up to there. -/
theorem foldlM_collapses (hcol : Collapses collapse bad panic) (ts : List Text) (out : Text) :
    ((∃ t ∈ ts, bad (trim t)) → ts.foldlM (textStepWith collapse) out = .error panic) ∧
      ((∀ t ∈ ts, ¬ bad (trim t)) → ts.foldlM (textStepWith collapse) out = ts.foldlM (textStepWith reference) out) := by
  induction ts generalizing out with
  | nil =>
      refine ⟨?_, fun _ => rfl⟩
      rintro ⟨t, ht, -⟩
      cases ht
  | cons t ts ih =>
      rw [List.foldlM_cons, List.foldlM_cons]
      by_cases hbad : bad (trim t)
      · have hstep : textStepWith collapse out t = .error panic := by
          rw [textStepWith, hcol.panics _ hbad]
          rfl
        refine ⟨fun _ => by rw [hstep]; rfl, fun hnone => absurd hbad (hnone t List.mem_cons_self)⟩
      · have hstep : textStepWith collapse out t = textStepWith reference out t := by
          rw [textStepWith, textStepWith, hcol.ok _ hbad]
          rfl
        rw [hstep]
        constructor
        · rintro ⟨u, hu, hbadu⟩
          rcases List.mem_cons.mp hu with rfl | hu
          · exact absurd hbadu hbad
          · exact (ih _).1 ⟨u, hu, hbadu⟩
        · intro hnone
          exact (ih _).2 fun u hu => hnone u (List.mem_cons_of_mem t hu)

end Fold

/-! ## The conversions -/

/-- The texts of some nodes that the markdown walk collapses. -/
def collapsedTexts (cs : List Node) : List Text :=
  (elementPieces cs).filterMap fun
    | .collapsed t => some t
    | .verbatim _ => none

/-- The texts of some nodes that the plain-text walk collapses. -/
def trimmedTexts (cs : List Node) : List Text := (shownTexts cs).map trim

/-- A conversion that collapses these texts: on the target it panics if one of them trips the collapser, and otherwise it is what
    it is by the reference, which is some text. -/
structure Converts (target : Target) (ts : List Text) (run plain : Except Panic Text) : Prop where
  panics : (∃ t ∈ ts, target.Trips t) → run = .error target.panic
  agrees : (∀ t ∈ ts, ¬ target.Trips t) → run = plain
  plain_ok : ∃ text, plain = .ok text

theorem mem_collapsedTexts {t : Text} {cs : List Node} : t ∈ collapsedTexts cs ↔ Piece.collapsed t ∈ elementPieces cs := by
  unfold collapsedTexts
  rw [List.mem_filterMap]
  constructor
  · rintro ⟨piece, hpiece, ht⟩
    cases piece with
    | collapsed u =>
        obtain rfl := Option.some.inj ht
        exact hpiece
    | verbatim u => cases ht
  · intro h
    exact ⟨.collapsed t, h, rfl⟩

theorem converts_markdown (target : Target) (cs : List Node) :
    Converts target (collapsedTexts cs) (domToMarkdownDoc target.collapse cs) (domToMarkdownDoc reference cs) where
  panics := by
    rintro ⟨t, ht, htrips⟩
    exact (domToMarkdownDoc_takes (collapses_target target) cs).1 ⟨t, mem_collapsedTexts.mp ht, htrips⟩
  agrees h := domToMarkdownDoc_congr fun t ht => (collapses_target target).ok t (h t (mem_collapsedTexts.mpr ht))
  plain_ok := by
    obtain ⟨t, hwalk, -⟩ := writes_rules.page cs { md := [], listDepth := 0 }
    exact ⟨_, domToMarkdownDoc_of_walk hwalk⟩

/-- A conversion returns exactly if no text that it collapses trips the collapser. -/
theorem Converts.ok_iff {target : Target} {ts : List Text} {run plain : Except Panic Text} (h : Converts target ts run plain) :
    (∃ text, run = .ok text) ↔ ∀ t ∈ ts, ¬ target.Trips t := by
  constructor
  · rintro ⟨text, hok⟩ t ht htrips
    rw [h.panics ⟨t, ht, htrips⟩] at hok
    cases hok
  · intro hnone
    rw [h.agrees hnone]
    exact h.plain_ok

theorem converts_main (target : Target) (doc : Html) :
    Converts target (collapsedTexts doc.mainNodes) (mainToMarkdownDoc target.collapse doc) (mainToMarkdownDoc reference doc) := by
  rw [mainToMarkdownDoc_eq, mainToMarkdownDoc_eq]
  exact converts_markdown target doc.mainNodes

theorem converts_text (target : Target) (cs : List Node) :
    Converts target (trimmedTexts cs) (htmlToText target.collapse cs) (htmlToText reference cs) where
  panics := by
    rintro ⟨u, hu, htrips⟩
    obtain ⟨t, ht, rfl⟩ := List.mem_map.mp hu
    have hwalk : textWalkRoot target.collapse cs = .error target.panic := by
      rw [textWalkRoot_eq_foldlM]
      exact (foldlM_collapses (collapses_target target) _ _).1 ⟨t, ht, htrips⟩
    unfold htmlToText
    rw [hwalk]
    rfl
  agrees h := by
    have hwalk : textWalkRoot target.collapse cs = textWalkRoot reference cs := by
      rw [textWalkRoot_eq_foldlM, textWalkRoot_eq_foldlM]
      exact (foldlM_collapses (collapses_target target) _ _).2 fun t ht => h (trim t) (List.mem_map_of_mem ht)
    unfold htmlToText
    rw [hwalk]
  plain_ok := ⟨_, htmlToText_of_walk (textWalkRoot_eq cs)⟩

/-- **The conversions on each target.** `dom_to_markdown`, `main_to_markdown` and `html_to_text` panic on a page exactly if a text that
    they collapse trips the collapser of the target, whatever else is on the page; otherwise they return what they do by the reference
    definition of the collapser, so the same on every target. Off `x86_64` no text trips it. -/
theorem conversions_by_target (target : Target) (doc : Html) :
    Converts target (collapsedTexts doc.root) (domToMarkdownDoc target.collapse doc.root) (domToMarkdownDoc reference doc.root) ∧
    Converts target (collapsedTexts doc.mainNodes) (mainToMarkdownDoc target.collapse doc) (mainToMarkdownDoc reference doc) ∧
    Converts target (trimmedTexts doc.root) (htmlToText target.collapse doc.root) (htmlToText reference doc.root) :=
  ⟨converts_markdown target doc.root, converts_main target doc, converts_text target doc.root⟩

/-- The plain-text walk trims a text before it collapses it, and so is not tripped where the markdown walk is. -/
example : LoneText "aaaaaaaaaaaaaaa ".toList ∧ ¬ LoneText (trim "aaaaaaaaaaaaaaa ".toList) := by
  refine ⟨⟨0, by decide⟩, ?_⟩
  rintro ⟨k, hk⟩
  have hle := byteLen_chunkAt_le (trim "aaaaaaaaaaaaaaa ".toList) k
  have hlone := hk.le_byteLen
  have hshort : byteLen (trim "aaaaaaaaaaaaaaa ".toList) = 15 := by decide
  omega

end Scrape
end McpWebSearch
