import McpWebSearch.Lib.Words
import McpWebSearch.Correctness.VisibleText

/-!
# `Correctness.InlineText` — the words of inline text

`walk_children` collapses each text node by itself and drops those that are white space only. Collapsing keeps the
words, whatever is written around a text; dropping a text keeps them unless it is the only white space between two words
(`Glued`). `inline_words_iff`: among text nodes and elements that are passed through, the walk keeps the words exactly if
no two are glued. Where two are, the scan of the output falls behind the scan of the text content for good.
-/

namespace McpWebSearch
namespace Scrape

open Utf8 Dom Words Words.Scan

/-! ## What is written of text nodes -/

/-- A tree of text nodes and of elements that `walk_element` passes through. -/
inductive PassThrough : Node → Prop
  | text (t : Text) : PassThrough (.text t)
  | elem {name : Text} {attrs : List (Text × Text)} {cs : List Node} (harm : armOf name attrs = .inline [] [])
      (hcs : ∀ c ∈ cs, PassThrough c) : PassThrough (.elem name attrs cs)

/-- What is written of a text node. -/
def shown (t : Text) : Text :=
  if referenceCollapse t ≠ [] ∧ referenceCollapse t ≠ " " then referenceCollapse t else []

theorem pushText_shown (st : Md) (t : Text) : pushText st (referenceCollapse t) = st.push (shown t) := by
  unfold pushText shown
  split
  · rfl
  · exact (push_nil st).symm

/-- The children one after the other. -/
theorem walkChildren_cons (collapse : Text → Except Panic Text) (c : Node) (cs : List Node) (st : Md) :
    walkChildren collapse (c :: cs) st = walkChildren collapse [c] st >>= walkChildren collapse cs := by
  cases c with
  | text t =>
      rw [walkChildren, walkChildren, bind_assoc]
      rfl
  | elem name attrs gs =>
      rw [walkChildren, walkChildren, bind_assoc]
      rfl
  | other gs => rfl

/-- **Among elements that are passed through the text nodes are written one after the other.** -/
theorem walkChildren_passThrough {cs : List Node} (hcs : ∀ c ∈ cs, PassThrough c) (st : Md) :
    walkChildren reference cs st = .ok (st.push ((textsAll cs).flatMap shown)) := by
  have hall {cs : List Node}
      (h : ∀ c ∈ cs, ∀ st, walkChildren reference [c] st = .ok (st.push ((texts c).flatMap shown))) (st : Md) :
      walkChildren reference cs st = .ok (st.push ((textsAll cs).flatMap shown)) := by
    induction cs generalizing st with
    | nil => exact congrArg Except.ok (push_nil st).symm
    | cons c cs ih =>
        have hrest := ih (fun d hd => h d (List.mem_cons_of_mem c hd)) (st.push ((texts c).flatMap shown))
        rw [walkChildren_cons, h c List.mem_cons_self, textsAll, List.flatMap_append, ← push_push]
        exact hrest
  have hnode (n : Node) (hn : PassThrough n) (st : Md) :
      walkChildren reference [n] st = .ok (st.push ((texts n).flatMap shown)) := by
    induction n using Node.induct generalizing st with
    | step n ih =>
        cases hn with
        | text t =>
            show Except.ok (pushText st (referenceCollapse t)) = _
            rw [pushText_shown, texts, List.flatMap_singleton]
        | @elem name attrs gs harm hgs =>
            have hgs' := hall (fun c hc st => ih c hc (hgs c hc) st) (st.push [])
            rw [Node.children_elem, push_nil] at hgs'
            rw [walkChildren, walkElement, harm]
            show (walkChildren reference gs (st.push []) >>= fun st => pure (st.push [])) >>= walkChildren reference [] = _
            rw [push_nil, hgs']
            show Except.ok ((st.push _).push []) = _
            rw [push_nil]
            rfl
  exact hall (fun c hc st => hnode c (hcs c hc) st) st

/-! ## Blank texts -/

/-- All of a text is ASCII white space. -/
def Blank (t : Text) : Prop := ∀ c ∈ t, isAsciiWhitespace c = true

instance (t : Text) : Decidable (Blank t) := inferInstanceAs (Decidable (∀ c ∈ t, _))

/-- A text that is not blank, or nothing. -/
def kept (t : Text) : Text := if Blank t then [] else t

theorem mem_collapseRuns {c : Char} {t : Text} (hmem : c ∈ t) (hc : isAsciiWhitespace c = false) :
    c ∈ collapseRuns t := by
  fun_induction collapseRuns t with
  | case1 => exact hmem
  | case2 d t hd ih =>
      apply List.mem_cons_of_mem
      apply ih
      have htail : c ∈ t := by
        rcases List.mem_cons.mp hmem with rfl | h
        · rw [hc] at hd
          cases hd
        · exact h
      rw [← List.takeWhile_append_dropWhile (p := isAsciiWhitespace) (l := t), List.mem_append] at htail
      rcases htail with h | h
      · rw [List.mem_takeWhile_imp h] at hc
        cases hc
      · exact h
  | case3 d t hd ih =>
      rcases List.mem_cons.mp hmem with rfl | h
      · exact List.mem_cons_self
      · exact List.mem_cons_of_mem d (ih h)

theorem collapseRuns_blank {t : Text} (ht : Blank t) : collapseRuns t = [] ∨ collapseRuns t = " " := by
  cases t with
  | nil =>
      rw [collapseRuns]
      exact .inl rfl
  | cons c t =>
      have htail : t.dropWhile isAsciiWhitespace = [] :=
        List.dropWhile_eq_nil_iff.mpr fun d hd => ht d (List.mem_cons_of_mem c hd)
      rw [collapseRuns, if_pos (ht c List.mem_cons_self), htail, collapseRuns]
      exact .inr rfl

/-- Exactly the blank texts are dropped. -/
theorem shown_eq (t : Text) : shown t = if Blank t then [] else collapseRuns t := by
  unfold shown
  rw [referenceCollapse_eq]
  by_cases ht : Blank t
  · rw [if_pos ht, if_neg]
    rintro ⟨hnil, hspace⟩
    rcases collapseRuns_blank ht with h | h
    · exact hnil h
    · exact hspace h
  · -- a character that is not white space is in the collapsed text
    obtain ⟨c, hc⟩ := not_forall.mp ht
    obtain ⟨hmem, hws⟩ := Classical.not_imp.mp hc
    rw [Bool.not_eq_true] at hws
    have hshown := mem_collapseRuns hmem hws
    rw [if_neg ht, if_pos]
    constructor
    · intro hnil
      rw [hnil] at hshown
      cases hshown
    · intro hspace
      rw [hspace] at hshown
      obtain rfl := List.mem_singleton.mp hshown
      cases hws

/-! ## Scanning -/

/-- A scan does not see whether a text has been collapsed. -/
theorem read_collapseRuns (s : Scan Char) (t : Text) :
    s.read isAsciiWhitespace (collapseRuns t) = s.read isAsciiWhitespace t := by
  fun_induction collapseRuns t generalizing s with
  | case1 => rfl
  | case2 c t hc ih =>
      have hseps : ∀ d ∈ t.takeWhile isAsciiWhitespace, isAsciiWhitespace d = true := fun d hd => List.mem_takeWhile_imp hd
      have hskip : s.close.read isAsciiWhitespace (t.takeWhile isAsciiWhitespace) = s.close := by
        rw [read_seps hseps, close_close, ite_self]
      have hspace : isAsciiWhitespace ' ' = true := by decide
      rw [read_cons, step_sep hspace, ih, read_cons, step_sep hc]
      conv => rhs; rw [← List.takeWhile_append_dropWhile (p := isAsciiWhitespace) (l := t), read_append, hskip]
  | case3 c t hc ih => rw [read_cons, read_cons, ih]

theorem read_shown (s : Scan Char) (t : Text) :
    s.read isAsciiWhitespace (shown t) = s.read isAsciiWhitespace (kept t) := by
  rw [shown_eq, kept]
  split
  · rfl
  · exact read_collapseRuns s t

theorem read_flatMap_shown (s : Scan Char) (ts : List Text) :
    s.read isAsciiWhitespace (ts.flatMap shown) = s.read isAsciiWhitespace (ts.flatMap kept) := by
  induction ts generalizing s with
  | nil => rw [List.flatMap_nil, List.flatMap_nil]
  | cons t ts ih => rw [List.flatMap_cons, List.flatMap_cons, read_append, read_append, read_shown, ih]

/-- A text begins with a character that is not white space. -/
def StartsWord (t : Text) : Prop := ∃ c, t.head? = some c ∧ isAsciiWhitespace c = false

/-- A text ends with a character that is not white space. -/
def EndsWord (t : Text) : Prop := ∃ c, t.getLast? = some c ∧ isAsciiWhitespace c = false

/-- Two words are glued: between a text that ends in a word and one that begins with a word there is white space, but in
    blank texts only. -/
def Glued (ts : List Text) : Prop :=
  ∃ before u gap v after, ts = before ++ u :: (gap ++ v :: after) ∧ EndsWord u ∧ (∀ g ∈ gap, Blank g) ∧
    gap.flatten ≠ [] ∧ StartsWord v

theorem StartsWord.kept {t : Text} (h : StartsWord t) : kept t = t := by
  obtain ⟨c, hhead, hc⟩ := h
  apply if_neg
  intro hblank
  rw [hblank c (List.mem_of_mem_head? hhead)] at hc
  cases hc

theorem EndsWord.kept {t : Text} (h : EndsWord t) : kept t = t := by
  obtain ⟨c, hlast, hc⟩ := h
  apply if_neg
  intro hblank
  rw [hblank c (List.mem_of_mem_getLast? hlast)] at hc
  cases hc

/-- Dropping blank texts never adds words. -/
theorem behind_kept {k : Nat} {s t : Scan Char} (h : Behind k s t) (ts : List Text) :
    Behind k (s.read isAsciiWhitespace ts.flatten) (t.read isAsciiWhitespace (ts.flatMap kept)) := by
  induction ts generalizing s t with
  | nil => exact h
  | cons u ts ih =>
      rw [List.flatten_cons, List.flatMap_cons, read_append, read_append]
      apply ih
      rw [kept]
      split
      · rename_i hblank
        rw [read_seps hblank, read_nil]
        split
        · exact h
        · exact h.close
      · exact h.read u

/-- **Glued words are lost.** -/
theorem length_words_of_glued {ts : List Text} (h : Glued ts) :
    (words isAsciiWhitespace (ts.flatMap kept)).length < (words isAsciiWhitespace ts.flatten).length := by
  obtain ⟨before, u, gap, v, after, rfl, hu, hgap, hne, hv⟩ := h
  have hkept : gap.flatMap kept = [] := by
    rw [List.flatMap_eq_nil_iff]
    intro g hg
    exact if_pos (hgap g hg)
  have hseps : ∀ c ∈ gap.flatten, isAsciiWhitespace c = true := by
    intro c hc
    obtain ⟨g, hg, hcg⟩ := List.mem_flatten.mp hc
    exact hgap g hg c hcg
  have hopen (s : Scan Char) : (s.read isAsciiWhitespace u).current ≠ [] := by
    obtain ⟨c, hlast, hc⟩ := hu
    rw [ne_eq, current_read hlast, hc]
    exact Bool.false_ne_true
  have hstart := (behind_kept (Behind.refl start) before).read (p := isAsciiWhitespace) u
  have hglued : Behind 1
      ((start.read isAsciiWhitespace before.flatten |>.read isAsciiWhitespace u).close.read isAsciiWhitespace v)
      ((start.read isAsciiWhitespace (before.flatMap kept) |>.read isAsciiWhitespace u).read isAsciiWhitespace v) := by
    obtain ⟨c, hhead, hc⟩ := hv
    obtain ⟨v, rfl⟩ := List.head?_eq_some_iff.mp hhead
    exact (hstart.close.glue rfl (hopen _) hc).read v
  have hend := (behind_kept hglued after).1
  rw [words_eq_read, words_eq_read, List.flatMap_append, List.flatMap_cons, List.flatMap_append, List.flatMap_cons,
    List.flatten_append, List.flatten_cons, List.flatten_append, List.flatten_cons, hkept, hu.kept, hv.kept]
  simp only [read_append, read_nil]
  rw [read_seps hseps, if_neg hne]
  exact hend

/-- No text that begins with a word comes after blank texts only; if no white space is `held` back before, there must be
    some in these. -/
def Free (held : Bool) (ts : List Text) : Prop :=
  ∀ gap v after, ts = gap ++ v :: after → (∀ g ∈ gap, Blank g) → (held = true ∨ gap.flatten ≠ []) → ¬ StartsWord v

/-- Blank texts go on with the gap. -/
theorem Free.tail {held : Bool} {t : Text} {ts : List Text} (h : Free held (t :: ts)) (ht : Blank t) :
    Free (held || !t.isEmpty) ts := by
  rintro gap v after rfl hgap hheld
  apply h (t :: gap) v after rfl
  · exact List.forall_mem_cons.mpr ⟨ht, hgap⟩
  · rw [List.flatten_cons]
    rcases hheld with hheld | hne
    · rw [Bool.or_eq_true] at hheld
      refine hheld.imp_right fun hnil => ?_
      apply List.append_ne_nil_of_left_ne_nil
      simpa using hnil
    · exact .inr (List.append_ne_nil_of_right_ne_nil t hne)

/-- **Without glued words all are read**: the scans are the same, or one has closed a word that the other may still go
    on with, and no text goes on with it. -/
theorem all_read_kept {ts : List Text} (hts : ¬ Glued ts) {s t : Scan Char}
    (h : s = t ∧ (t.current ≠ [] → Free false ts) ∨ s = t.close ∧ Free true ts) :
    (s.read isAsciiWhitespace ts.flatten).all = (t.read isAsciiWhitespace (ts.flatMap kept)).all := by
  induction ts generalizing s t with
  | nil =>
      rcases h with ⟨rfl, -⟩ | ⟨rfl, -⟩
      · rfl
      · exact all_close t
  | cons u ts ih =>
      have hts' : ¬ Glued ts := by
        rintro ⟨before, u', gap, v, after, rfl, hrest⟩
        exact hts ⟨u :: before, u', gap, v, after, rfl, hrest⟩
      rw [List.flatten_cons, List.flatMap_cons, read_append, read_append, kept]
      by_cases hblank : Blank u
      · rw [if_pos hblank, read_seps hblank, read_nil]
        apply ih hts'
        by_cases hu : u = []
        · subst hu
          rw [if_pos rfl]
          refine h.imp (And.imp_right fun hfree hcur => ?_) (And.imp_right fun hfree => ?_)
          · exact (hfree hcur).tail hblank
          · exact hfree.tail hblank
        · rw [if_neg hu]
          rcases h with ⟨rfl, hfree⟩ | ⟨rfl, hfree⟩
          · by_cases hcur : s.current = []
            · exact .inl ⟨close_of_current_eq_nil hcur, fun hne => absurd hcur hne⟩
            · have htail := (hfree hcur).tail hblank
              rw [Bool.false_or, show (!u.isEmpty) = true by simpa using hu] at htail
              exact .inr ⟨rfl, htail⟩
          · exact .inr ⟨close_close t, hfree.tail hblank⟩
      · rw [if_neg hblank]
        apply ih hts'
        left
        constructor
        · rcases h with ⟨rfl, -⟩ | ⟨rfl, hfree⟩
          · rfl
          · -- the text after the gap begins with white space
            have hstart := hfree [] u ts rfl (by simp) (.inl rfl)
            cases u with
            | nil => exact absurd (fun c hc => by cases hc) hblank
            | cons c u =>
                have hc : isAsciiWhitespace c = true := by
                  by_contra hc
                  exact hstart ⟨c, rfl, by simpa using hc⟩
                exact read_close rfl hc t
        · intro hcur gap v after hsplit hgap hne hv
          have hnil : u ≠ [] := by
            rintro rfl
            exact hblank fun c hc => by cases hc
          have hlast := List.getLast?_eq_some_getLast hnil
          have hends : EndsWord u := by
            refine ⟨_, hlast, ?_⟩
            rw [ne_eq, current_read hlast] at hcur
            simpa using hcur
          refine hts ⟨[], u, gap, v, after, by rw [hsplit]; rfl, hends, hgap, ?_, hv⟩
          exact hne.resolve_left Bool.false_ne_true

/-- **The walk keeps the words of inline text exactly if it glues no two of them.** -/
theorem inline_words_iff (cs : List Node) (hcs : ∀ c ∈ cs, PassThrough c) (st : Md) :
    (∃ t, walkChildren reference cs st = .ok (st.push t) ∧
      words isAsciiWhitespace t = words isAsciiWhitespace (textContents cs)) ↔ ¬ Glued (textsAll cs) := by
  have hwords : words isAsciiWhitespace ((textsAll cs).flatMap shown) =
      words isAsciiWhitespace ((textsAll cs).flatMap kept) := by
    rw [words_eq_read, words_eq_read, read_flatMap_shown]
  rw [walkChildren_passThrough hcs, ← flatten_textsAll]
  constructor
  · rintro ⟨t, hrun, ht⟩ hglued
    have hsame : t = (textsAll cs).flatMap shown := by
      have hmd := congrArg Md.md (Except.ok.inj hrun)
      exact (List.append_cancel_left hmd).symm
    have hlt := length_words_of_glued hglued
    rw [← ht, hsame, hwords] at hlt
    exact absurd hlt (Nat.lt_irrefl _)
  · intro hfree
    refine ⟨_, rfl, ?_⟩
    rw [hwords, words_eq_read, words_eq_read]
    exact (all_read_kept hfree (.inl ⟨rfl, fun hne => absurd rfl hne⟩)).symm

/-- The inline elements among the names that `walk_element` passes through, and an unknown one. -/
theorem armOf_passThrough (attrs : List (Text × Text)) :
    ∀ name ∈ ["span", "u", "ins", "mark", "small", "cite", "dfn", "abbr", "bdi", "bdo", "x-unknown"],
      armOf name.toList attrs = .inline [] [] := by
  intro name hname
  simp only [List.mem_cons, List.not_mem_nil, or_false] at hname
  rcases hname with rfl | rfl | rfl | rfl | rfl | rfl | rfl | rfl | rfl | rfl | rfl <;> rfl

/-- Two words of two elements, the space in the first one. -/
theorem inline_words_iff_mark :
    (∃ t, walkChildren reference [.elem "u" [] [.text "a "], .elem "mark" [] [.text "b"]] ⟨[], 0⟩ = .ok (Md.push ⟨[], 0⟩ t) ∧
      words isAsciiWhitespace t =
        words isAsciiWhitespace (textContents [.elem "u" [] [.text "a "], .elem "mark" [] [.text "b"]])) ↔
      ¬ Glued (textsAll [.elem "u" [] [.text "a "], .elem "mark" [] [.text "b"]]) := by
  apply inline_words_iff
  have hname (name : String)
      (hname : name ∈ ["span", "u", "ins", "mark", "small", "cite", "dfn", "abbr", "bdi", "bdo", "x-unknown"])
      (t : Text) : PassThrough (.elem name [] [.text t]) := by
    apply PassThrough.elem (armOf_passThrough [] name hname)
    intro c hc
    rw [List.mem_singleton.mp hc]
    exact .text t
  intro c hc
  simp only [List.mem_cons, List.not_mem_nil, or_false] at hc
  rcases hc with rfl | rfl
  · exact hname "u" (by decide) _
  · exact hname "mark" (by decide) _

/-- Two words in spans of their own, with a space between: the walk writes one. -/
theorem spans_glued :
    walkChildren reference [.elem "span" [] [.text "a"], .text " ", .elem "span" [] [.text "b"]] ⟨[], 0⟩ =
        .ok ⟨"ab", 0⟩ ∧
      words isAsciiWhitespace "ab" ≠
        words isAsciiWhitespace
          (textContents [.elem "span" [] [.text "a"], .text " ", .elem "span" [] [.text "b"]]) := by
  exact ⟨rfl, by decide⟩

end Scrape
end McpWebSearch
