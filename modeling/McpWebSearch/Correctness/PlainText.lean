import Mathlib.Data.List.Chain
import McpWebSearch.Actions.Scrape.Text
import McpWebSearch.Correctness.Collapse

/-!
# `Correctness.PlainText` — what `html_to_text` writes

The walk appends the text nodes it reaches, each trimmed and collapsed, with a space between two of them. It reaches the
ones that all ancestors let through (`reached`); the contents of a `template` are below a fragment, which is no element, and
are not among them. Every run it writes begins and ends with a character that is not white space, so there is nothing left
to trim at the end (`htmlToText_eq`).
-/

namespace McpWebSearch
namespace Scrape

open Utf8 Dom

/-! ## Runs -/

/-- ASCII white space is single spaces only. -/
structure SingleSpaced (s : Text) : Prop where
  spaces : ∀ c ∈ s, isAsciiWhitespace c = true → c = ' '
  single : s.IsChain fun a b => ¬ (isAsciiWhitespace a = true ∧ isAsciiWhitespace b = true)

/-- Text as `html_to_text` puts it out: single spaces, and no white space at the ends. -/
structure PlainLine (s : Text) : Prop extends SingleSpaced s where
  head : ∀ c ∈ s.head?, isWhitespace c = false
  last : ∀ c ∈ s.getLast?, isWhitespace c = false

/-- What collapsing makes of one character. -/
def collapsedChar (c : Char) : Char := if isAsciiWhitespace c then ' ' else c

theorem collapsedChar_of_solid {c : Char} (h : isWhitespace c = false) : collapsedChar c = c :=
  if_neg (by rw [isAsciiWhitespace_of_solid h]; exact Bool.false_ne_true)

theorem head?_collapseRuns (s : Text) : (collapseRuns s).head? = s.head?.map collapsedChar := by
  fun_cases collapseRuns s with
  | case1 => rfl
  | case2 c s hc => simp [collapsedChar, hc]
  | case3 c s hc => simp [collapsedChar, hc]

theorem getLast?_collapseRuns (s : Text) : (collapseRuns s).getLast? = s.getLast?.map collapsedChar := by
  fun_induction collapseRuns s with
  | case1 => rfl
  | case2 c s hc ih =>
      rw [List.getLast?_cons, ih, List.getLast?_cons]
      cases hd : s.dropWhile isAsciiWhitespace with
      | nil =>
          -- the run goes on to the end
          have hall := List.dropWhile_eq_nil_iff.mp hd
          have hlast : isAsciiWhitespace (s.getLast?.getD c) = true := by
            cases hs : s.getLast? with
            | none => exact hc
            | some d => exact hall d (List.mem_of_getLast? hs)
          simp [collapsedChar, hlast]
      | cons d t =>
          have hsuffix : s.takeWhile isAsciiWhitespace ++ (d :: t) = s := by rw [← hd, List.takeWhile_append_dropWhile]
          rw [← hsuffix, List.getLast?_append, List.getLast?_cons]
          rfl
  | case3 c s hc ih =>
      rw [List.getLast?_cons, ih, List.getLast?_cons]
      cases s.getLast? with
      | none => simp [collapsedChar, hc]
      | some d => rfl

theorem singleSpaced_collapseRuns (s : Text) : SingleSpaced (collapseRuns s) := by
  fun_induction collapseRuns s with
  | case1 => exact ⟨fun c hc => absurd hc List.not_mem_nil, List.IsChain.nil⟩
  | case2 c s hc ih =>
      refine ⟨?_, List.isChain_cons.mpr ⟨?_, ih.single⟩⟩
      · intro d hd hws
        rcases List.mem_cons.mp hd with rfl | hd
        · rfl
        · exact ih.spaces d hd hws
      · -- what follows the run does not begin with white space
        intro d hd hboth
        rw [head?_collapseRuns] at hd
        obtain ⟨e, he, rfl⟩ := Option.map_eq_some_iff.mp hd
        have hnot : isAsciiWhitespace e = false := head_dropWhile he
        unfold collapsedChar at hboth
        rw [if_neg (by rw [hnot]; exact Bool.false_ne_true), hnot] at hboth
        exact Bool.false_ne_true hboth.2
  | case3 c s hc ih =>
      refine ⟨?_, List.isChain_cons.mpr ⟨?_, ih.single⟩⟩
      · intro d hd hws
        rcases List.mem_cons.mp hd with rfl | hd
        · exact absurd hws hc
        · exact ih.spaces d hd hws
      · intro d _ hboth
        exact hc hboth.1

/-- The run of a text node. -/
def run (t : Text) : Text := referenceCollapse (trim t)

/-- **A run is a plain line**: only inside it does collapsing find white space to replace. -/
theorem plainLine_run (t : Text) : PlainLine (run t) := by
  unfold run
  rw [referenceCollapse_eq]
  refine ⟨singleSpaced_collapseRuns _, ?_, ?_⟩
  · intro c hc
    rw [head?_collapseRuns] at hc
    obtain ⟨d, hd, rfl⟩ := Option.map_eq_some_iff.mp hc
    have hsolid : isWhitespace d = false := head_trim hd
    rw [collapsedChar_of_solid hsolid]
    exact hsolid
  · intro c hc
    rw [getLast?_collapseRuns] at hc
    obtain ⟨d, hd, rfl⟩ := Option.map_eq_some_iff.mp hc
    have hsolid : isWhitespace d = false := last_trim hd
    rw [collapsedChar_of_solid hsolid]
    exact hsolid

/-- One more run, after a space. -/
theorem plainLine_pushRun {out s : Text} (hout : PlainLine out) (hs : PlainLine s) : PlainLine (pushRun out s) := by
  unfold pushRun
  cases s with
  | nil => exact hout
  | cons a s =>
      cases out with
      | nil => exact hs
      | cons b out =>
          have hjoined : (if (a :: s).isEmpty then b :: out else (if (b :: out).isEmpty then b :: out else b :: out ++ " ") ++
              a :: s) = (b :: out) ++ (' ' :: a :: s) := by simp
          rw [hjoined]
          have ha : isAsciiWhitespace a = false := isAsciiWhitespace_of_solid (hs.head a rfl)
          refine ⟨⟨?_, ?_⟩, ?_, ?_⟩
          · intro c hc hws
            rcases List.mem_append.mp hc with hc | hc
            · exact hout.spaces c hc hws
            · rcases List.mem_cons.mp hc with rfl | hc
              · rfl
              · exact hs.spaces c hc hws
          · apply hout.single.append
            · refine List.isChain_cons.mpr ⟨?_, hs.single⟩
              intro c hc hboth
              obtain rfl := Option.some.inj hc
              rw [ha] at hboth
              exact Bool.false_ne_true hboth.2
            · intro c hc d _ hboth
              have hsolid := isAsciiWhitespace_of_solid (hout.last c hc)
              rw [hsolid] at hboth
              exact Bool.false_ne_true hboth.1
          · exact hout.head
          · intro c hc
            apply hs.last c
            rw [List.getLast?_append_of_ne_nil _ (List.cons_ne_nil _ _)] at hc
            exact hc

theorem plainLine_nil : PlainLine [] where
  spaces _ hc := absurd hc List.not_mem_nil
  single := List.IsChain.nil
  head _ hc := by cases hc
  last _ hc := by cases hc

/-- A part that is joined already. -/
theorem join_append_cons (sep a b : Text) (rs : List Text) :
    join sep ((a ++ (sep ++ b)) :: rs) = join sep (a :: b :: rs) := by
  unfold join
  cases rs with
  | nil => simp [List.intercalate_cons_cons]
  | cons r rs => simp [List.intercalate_cons_cons]

/-- **The buffer is the runs that are not empty, joined by spaces.** -/
theorem foldl_pushRun (out : Text) (rs : List Text) :
    rs.foldl pushRun out = join " " ((out :: rs).filter fun r => !r.isEmpty) := by
  induction rs generalizing out with
  | nil =>
      cases out with
      | nil => rfl
      | cons a out => exact List.intercalate_singleton.symm
  | cons r rs ih =>
      rw [List.foldl_cons, ih]
      cases r with
      | nil => cases out <;> rfl
      | cons b r =>
          cases out with
          | nil => rfl
          | cons a out =>
              have hpush : pushRun (a :: out) (b :: r) = (a :: out) ++ (" ".toList ++ (b :: r)) := by simp [pushRun]
              rw [hpush]
              exact join_append_cons " " (a :: out) (b :: r) _

/-- Runs joined by spaces are a plain line. -/
theorem plainLine_foldl_pushRun {out : Text} (hout : PlainLine out) (ts : List Text) : PlainLine ((ts.map run).foldl pushRun out) := by
  induction ts generalizing out with
  | nil => exact hout
  | cons t ts ih => exact ih (plainLine_pushRun hout (plainLine_run t))

/-! ## The text nodes that are reached -/

/-- All these ancestors let the walk through: elements that are not skipped. -/
def reached (above : List (Option Text)) : Bool := above.all fun a => a.any fun name => !textSkipElement name

/-- The text nodes that are reached: below an element of the root, and through elements only. -/
def textReached (p : List (Option Text) × Text) : Bool := !p.1.isEmpty && reached p.1

/-- The texts that are reached of nodes with these ancestors, in order. -/
def textsBelow (above : List (Option Text)) (cs : List Node) : List Text :=
  ((placedAll above cs).filter textReached).map Prod.snd

/-- The texts of a document that are reached. -/
def shownTexts (doc : List Node) : List Text := textsBelow [] doc

/-- Below an ancestor that is not let through nothing is reached. -/
theorem textsBelow_of_not_reached {above : List (Option Text)} (h : reached above = false) (cs : List Node) :
    textsBelow above cs = [] := by
  have hnone : (placedAll above cs).filter textReached = [] := by
    apply List.filter_eq_nil_iff.mpr
    rintro ⟨anc, t⟩ hmem hreached
    obtain ⟨rest, rfl⟩ := prefix_of_mem_placedAll hmem
    unfold textReached reached at hreached
    rw [List.all_append] at hreached
    unfold reached at h
    rw [h, Bool.false_and, Bool.and_false] at hreached
    cases hreached
  rw [textsBelow, hnone, List.map_nil]

theorem reached_snoc {above : List (Option Text)} (h : reached above = true) (a : Option Text) :
    reached (above ++ [a]) = a.any fun name => !textSkipElement name := by
  unfold reached at h ⊢
  rw [List.all_append, h, Bool.true_and, List.all_cons, List.all_nil, Bool.and_true]

theorem textsBelow_cons (above : List (Option Text)) (c : Node) (cs : List Node) :
    textsBelow above (c :: cs) = ((placed above c).filter textReached).map Prod.snd ++ textsBelow above cs := by
  simp [textsBelow, placedAll]

theorem textsBelow_text (above : List (Option Text)) (t : Text) (cs : List Node) :
    textsBelow above (.text t :: cs) = (if textReached (above, t) then [t] else []) ++ textsBelow above cs := by
  rw [textsBelow_cons, placed]
  cases hreached : textReached (above, t) with
  | true => simp [hreached]
  | false => simp [hreached]

theorem textsBelow_elem (above : List (Option Text)) (name : Text) (attrs : List (Text × Text)) (below cs : List Node) :
    textsBelow above (.elem name attrs below :: cs) = textsBelow (above ++ [some name]) below ++ textsBelow above cs :=
  textsBelow_cons above (.elem name attrs below) cs

theorem textsBelow_other {above : List (Option Text)} (h : reached above = true) (below cs : List Node) :
    textsBelow above (.other below :: cs) = textsBelow above cs := by
  have hnone : textsBelow (above ++ [none]) below = [] := textsBelow_of_not_reached (reached_snoc h none) below
  have hcons : textsBelow above (.other below :: cs) = textsBelow (above ++ [none]) below ++ textsBelow above cs :=
    textsBelow_cons above (.other below) cs
  rw [hcons, hnone, List.nil_append]

/-! ## The walk -/

/-- The buffer after some texts. -/
def pushTexts (out : Text) (ts : List Text) : Text := (ts.map run).foldl pushRun out

theorem pushTexts_append (out : Text) (ts us : List Text) : pushTexts out (ts ++ us) = pushTexts (pushTexts out ts) us := by
  unfold pushTexts
  rw [List.map_append, List.foldl_append]

/-- At an element, from what holds of its children. -/
theorem textWalkElement_eq {name : Text} {attrs : List (Text × Text)} {cs : List Node}
    (ih : ∀ above out, above ≠ [] → reached above = true →
      textWalkChildren reference cs out = .ok (pushTexts out (textsBelow above cs)))
    {above : List (Option Text)} (h : reached above = true) (out : Text) :
    textWalkElement reference (.elem name attrs cs) out =
      .ok (pushTexts out (textsBelow (above ++ [some name]) cs)) := by
  have hstep : reached (above ++ [some name]) = !textSkipElement name := reached_snoc h (some name)
  rw [textWalkElement]
  cases hskip : textSkipElement name with
  | true =>
      rw [hskip] at hstep
      rw [if_pos rfl, textsBelow_of_not_reached hstep]
      rfl
  | false =>
      rw [hskip] at hstep
      have hne : above ++ [some name] ≠ [] := List.append_ne_nil_of_right_ne_nil above (List.cons_ne_nil _ _)
      rw [if_neg Bool.false_ne_true]
      exact ih (above ++ [some name]) out hne hstep

/-- **The walk** appends the texts that are reached below a node. -/
theorem textWalkChildren_eq (n : Node) (above : List (Option Text)) (out : Text) (hne : above ≠ [])
    (h : reached above = true) :
    textWalkChildren reference n.children out = .ok (pushTexts out (textsBelow above n.children)) := by
  induction n using Node.induct generalizing above out with
  | step n ih =>
      generalize n.children = cs at ih ⊢
      induction cs generalizing out with
      | nil => rfl
      | cons c cs ihcs =>
          have hrest : ∀ out, textWalkChildren reference cs out = .ok (pushTexts out (textsBelow above cs)) :=
            fun out => ihcs out (fun d hd => ih d (List.mem_cons_of_mem c hd))
          cases c with
          | text t =>
              have hreached : textReached (above, t) = true := by
                unfold textReached
                rw [h, Bool.and_true, Bool.not_eq_true']
                exact List.isEmpty_eq_false_iff.mpr hne
              rw [textsBelow_text, if_pos hreached, pushTexts_append, textWalkChildren]
              exact hrest _
          | elem name attrs below =>
              have hbelow : textWalkElement reference (.elem name attrs below) out =
                  .ok (pushTexts out (textsBelow (above ++ [some name]) below)) :=
                textWalkElement_eq (fun above out hne h => ih (.elem name attrs below) List.mem_cons_self above out hne h) h out
              rw [textsBelow_elem, pushTexts_append, textWalkChildren, hbelow]
              exact hrest _
          | other below =>
              rw [textsBelow_other h, textWalkChildren]
              exact hrest _

/-- The whole document. -/
theorem textWalkRoot_eq (doc : List Node) : textWalkRoot reference doc = .ok (pushTexts [] (shownTexts doc)) := by
  have hroot (out : Text) : doc.foldlM (fun out c => textWalkElement reference c out) out =
      .ok (pushTexts out (textsBelow [] doc)) := by
    induction doc generalizing out with
    | nil => rfl
    | cons c doc ih =>
        rw [List.foldlM_cons]
        cases c with
        | text t =>
            -- no text of the root itself
            rw [textsBelow_text, textWalkElement]
            exact ih out
        | elem name attrs below =>
            have hbelow : textWalkElement reference (.elem name attrs below) out =
                .ok (pushTexts out (textsBelow ([] ++ [some name]) below)) :=
              textWalkElement_eq (fun above out hne h => textWalkChildren_eq (.elem name attrs below) above out hne h) rfl out
            rw [textsBelow_elem, pushTexts_append, hbelow]
            exact ih _
        | other below =>
            have hstart : reached [] = true := rfl
            rw [textsBelow_other hstart, textWalkElement]
            exact ih out
  exact hroot []

/-! ## The end -/

/-- `out.truncate(out.trim_end().len())`. -/
theorem truncate_trimEnd (s : Text) : truncate s (byteLen (trimEnd s)) = .ok (trimEnd s) := by
  obtain ⟨rest, hrest⟩ := List.rdropWhile_prefix isWhitespace s
  have hs : trimEnd s ++ rest = s := hrest
  have htake : takeBytes (byteLen (trimEnd s)) s = some (trimEnd s) := by
    calc takeBytes (byteLen (trimEnd s)) s = takeBytes (byteLen (trimEnd s)) (trimEnd s ++ rest) := by rw [hs]
      _ = some (trimEnd s) := takeBytes_append _ _
  unfold truncate
  rw [if_pos (takeBytes_length htake), htake]

/-- `out.drain(..out.len() - out.trim_start().len())`. -/
theorem drainTo_trimStart (s : Text) : drainTo s (byteLen s - byteLen (trimStart s)) = .ok (trimStart s) := by
  obtain ⟨pre, hpre⟩ := List.dropWhile_suffix (l := s) isWhitespace
  have hs : pre ++ trimStart s = s := hpre
  have hlen : byteLen s - byteLen (trimStart s) = byteLen pre := by
    have hsum : byteLen s = byteLen pre + byteLen (trimStart s) := by
      calc byteLen s = byteLen (pre ++ trimStart s) := by rw [hs]
        _ = byteLen pre + byteLen (trimStart s) := byteLen_append _ _
    omega
  have hdrop : dropBytes (byteLen pre) s = some (trimStart s) := by
    calc dropBytes (byteLen pre) s = dropBytes (byteLen pre) (pre ++ trimStart s) := by rw [hs]
      _ = some (trimStart s) := dropBytes_append _ _
  unfold drainTo
  rw [hlen, hdrop]

/-- `html_to_text` is the walk, trimmed on the right and then on the left. -/
theorem htmlToText_of_walk {collapse : Text → Except Panic Text} {doc : List Node} {out : Text}
    (h : textWalkRoot collapse doc = .ok out) : htmlToText collapse doc = .ok (trimStart (trimEnd out)) := by
  unfold htmlToText
  rw [h]
  show (truncate out (byteLen (trimEnd out)) >>= fun out => drainTo out (byteLen out - byteLen (trimStart out))) = _
  rw [truncate_trimEnd]
  exact drainTo_trimStart _

/-- Nothing is trimmed from a plain line. -/
theorem PlainLine.trimStart_trimEnd {s : Text} (h : PlainLine s) : trimStart (trimEnd s) = s := by
  have hend : trimEnd s = s := by
    apply List.rdropWhile_eq_self_iff.mpr
    intro hne
    rw [h.last _ (List.getLast?_eq_some_getLast hne)]
    exact Bool.false_ne_true
  rw [hend]
  cases s with
  | nil => rfl
  | cons c s => exact List.dropWhile_cons_of_neg (by rw [h.head c rfl]; exact Bool.false_ne_true)

/-! ## What is below skipped elements -/

section Prune

variable {collapse : Text → Except Panic Text}

/-- Pruning changes nothing for the walk. -/
theorem textWalkChildren_prune (n : Node) (out : Text) :
    textWalkChildren collapse (pruneAll textSkipElement n.children) out = textWalkChildren collapse n.children out := by
  induction n using Node.induct generalizing out with
  | step n ih =>
      generalize n.children = cs at ih ⊢
      induction cs generalizing out with
      | nil => rfl
      | cons c cs ihcs =>
          have hrest : ∀ out, textWalkChildren collapse (pruneAll textSkipElement cs) out = textWalkChildren collapse cs out :=
            fun out => ihcs out (fun d hd => ih d (List.mem_cons_of_mem c hd))
          rw [pruneAll_cons]
          cases c with
          | text t =>
              rw [prune_text, textWalkChildren, textWalkChildren]
              exact bind_congr fun s => hrest _
          | elem name attrs below =>
              have hbelow : textWalkChildren collapse (pruneAll textSkipElement below) out =
                  textWalkChildren collapse below out := ih (.elem name attrs below) List.mem_cons_self out
              rw [prune_elem, textWalkChildren, textWalkChildren, textWalkElement, textWalkElement]
              cases textSkipElement name with
              | true => exact bind_congr fun out => hrest out
              | false =>
                  rw [if_neg Bool.false_ne_true, if_neg Bool.false_ne_true, if_neg Bool.false_ne_true, hbelow]
                  exact bind_congr fun out => hrest out
          | other below => exact hrest out

theorem textWalkElement_prune (n : Node) (out : Text) :
    textWalkElement collapse (prune textSkipElement n) out = textWalkElement collapse n out := by
  cases n with
  | text t => rfl
  | other below => rfl
  | elem name attrs below =>
      rw [prune_elem, textWalkElement, textWalkElement]
      cases textSkipElement name with
      | true => rfl
      | false => exact textWalkChildren_prune (.elem name attrs below) out

theorem textWalkRoot_prune (doc : List Node) :
    textWalkRoot collapse (pruneAll textSkipElement doc) = textWalkRoot collapse doc := by
  have hroot (out : Text) : (pruneAll textSkipElement doc).foldlM (fun out c => textWalkElement collapse c out) out =
      doc.foldlM (fun out c => textWalkElement collapse c out) out := by
    induction doc generalizing out with
    | nil => rfl
    | cons c doc ih =>
        rw [pruneAll_cons, List.foldlM_cons, List.foldlM_cons, textWalkElement_prune]
        exact bind_congr fun out => ih out
  exact hroot []

/-- **What is below skipped elements does not matter**, whatever the collapser. -/
theorem htmlToText_agree {doc doc' : List Node} (h : AgreeOutside textSkipElement doc doc') :
    htmlToText collapse doc = htmlToText collapse doc' := by
  have hwalk : textWalkRoot collapse doc = textWalkRoot collapse doc' := by
    calc textWalkRoot collapse doc = textWalkRoot collapse (pruneAll textSkipElement doc) := (textWalkRoot_prune doc).symm
      _ = textWalkRoot collapse (pruneAll textSkipElement doc') := by rw [show pruneAll _ doc = pruneAll _ doc' from h]
      _ = textWalkRoot collapse doc' := textWalkRoot_prune doc'
  unfold htmlToText
  rw [hwalk]

end Prune

/-! ## Whole documents -/

/-- The plain text of a document: its texts that are reached, trimmed and collapsed, the ones that are not blank, with a
    space between two. -/
def plainText (doc : List Node) : Text :=
  join " " (((shownTexts doc).map fun t => referenceCollapse (trim t)).filter fun r => !r.isEmpty)

theorem plainText_eq (doc : List Node) : pushTexts [] (shownTexts doc) = plainText doc := by
  unfold pushTexts plainText
  rw [foldl_pushRun]
  rfl

/-- **`html_to_text` writes the plain text.** The walk leaves it in the buffer already, so that the last trimming removes
    nothing; it has no white space at its ends, and no ASCII white space but single spaces; and two documents that agree
    outside skipped elements have the same. -/
theorem htmlToText_eq (doc : List Node) :
    htmlToText reference doc = .ok (plainText doc) ∧ textWalkRoot reference doc = .ok (plainText doc) ∧
      PlainLine (plainText doc) ∧
      ∀ doc', AgreeOutside textSkipElement doc doc' → htmlToText reference doc' = .ok (plainText doc) := by
  have hwalk : textWalkRoot reference doc = .ok (plainText doc) := by rw [textWalkRoot_eq, plainText_eq]
  have hplain : PlainLine (plainText doc) := by
    rw [← plainText_eq]
    exact plainLine_foldl_pushRun plainLine_nil (shownTexts doc)
  have htext : htmlToText reference doc = .ok (plainText doc) := by
    rw [htmlToText_of_walk hwalk, hplain.trimStart_trimEnd]
  refine ⟨htext, hwalk, hplain, fun doc' hagree => ?_⟩
  rw [← htmlToText_agree hagree, htext]

/-- All texts without a skipped element above them, reached or not. -/
def unskippedTexts (doc : List Node) : List Text :=
  ((placedAll [] doc).filter fun p => p.1.all fun a => !a.any textSkipElement).map Prod.snd

/-- A paragraph, and a `template` with a text. -/
def templatePage : List Node :=
  [.elem "html" [] [.elem "head" [] [],
    .elem "body" [] [.elem "p" [] [.text "a"], .elem "template" [] [.other [.text "b"]]]]]

/-- **The contents of a template are left out**, though no skipped element is above them. -/
theorem template_left_out :
    htmlToText reference templatePage = .ok "a".toList ∧
      join " " (((unskippedTexts templatePage).map fun t => referenceCollapse (trim t)).filter fun r => !r.isEmpty) =
        "a b".toList := by
  refine ⟨?_, ?_⟩ <;> decide

end Scrape
end McpWebSearch
