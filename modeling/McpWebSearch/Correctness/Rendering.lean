import McpWebSearch.Lib.Inserted
import McpWebSearch.Actions.Scrape.WebScrape
import McpWebSearch.Correctness.ListItems
import McpWebSearch.Correctness.Neon

/-!
# `Correctness.Rendering` — what the markdown of a page says

`said` is the meaning of a page without the buffer of the walk, its lines and its depth: each element puts its markers around what
its children say, and white space says nothing. The markdown says the same, and block quotations put `>` before lines (`Says`, one
rule for each thing the walk does). So what an element is rendered to does not depend on where it stands, and the main content of a
page says a part of what the page says.
-/

namespace McpWebSearch
namespace Scrape

open Utf8 Dom

/-! ## The meaning of a page -/

/-- What an arm writes before its children, white space aside. -/
def Arm.opening : Arm → Text
  | .block lead => solid lead
  | .inline before _ => solid before
  | .leaf text => solid text
  | .pre => "```"
  | .code => "`"
  | .li => "-"
  | .blockquote | .ul | .ol => []

/-- What an arm writes after its children. -/
def Arm.closing : Arm → Text
  | .inline _ after => solid after
  | .pre => "```"
  | .code => "`"
  | .block _ | .leaf _ | .li | .blockquote | .ul | .ol => []

mutual

/-- What a node says that `walk_element` is called on. -/
def said : Node → Text
  | .elem name attrs cs =>
      (armOf name attrs).opening ++
        ((match armOf name attrs with
          | .leaf _ => []
          | .pre => solid (textContents cs)
          | .code => solid (childTexts id cs)
          | .ul => saidElements cs
          | .ol => saidItems cs 1
          | .block _ | .inline _ _ | .blockquote | .li => saidChildren cs) ++
        (armOf name attrs).closing)
  | .text _ => []
  | .other _ => []

/-- What children say: their text, and their elements. -/
def saidChildren : List Node → Text
  | [] => []
  | .text t :: rest => solid t ++ saidChildren rest
  | .elem name attrs cs :: rest => said (.elem name attrs cs) ++ saidChildren rest
  | .other _ :: rest => saidChildren rest

/-- What the children of a `ul` or of the root say: their elements. -/
def saidElements : List Node → Text
  | [] => []
  | c :: rest => said c ++ saidElements rest

/-- What the children of an `ol` say: their elements, numbered from `idx`. -/
def saidItems : List Node → Nat → Text
  | [], _ => []
  | .elem _ _ cs :: rest, idx => (decimal idx ++ ".") ++ (saidChildren cs ++ saidItems rest (idx + 1))
  | .text _ :: rest, idx => saidItems rest idx
  | .other _ :: rest, idx => saidItems rest idx

end

/-! ## Actions on the buffer -/

section Walk

variable {collapse : Text → Except Panic Text} {p : Char → Bool} {act act' : Md → Except Panic Md} {s t u : Text}

/-- An action that appends a text, if it does not panic: white space aside, what it says with more of `p` put in. -/
def Says (p : Char → Bool) (act : Md → Except Panic Md) (t : Text) : Prop :=
  ∀ st st', act st = .ok st' → ∃ u, st' = st.push u ∧ Inserted p t (solid u)

theorem Says.nothing : Says p pure [] := by
  intro st st' h
  obtain rfl := Except.ok.inj h
  exact ⟨[], (push_nil st).symm, .nil⟩

/-- A text that may depend on the list depth. -/
theorem Says.write {f : Nat → Text} (hf : ∀ d, solid (f d) = t) : Says p (fun st => pure (st.push (f st.listDepth))) t := by
  intro st st' h
  obtain rfl := Except.ok.inj h
  exact ⟨f st.listDepth, rfl, (hf st.listDepth).symm ▸ Inserted.refl t⟩

theorem Says.push (t : Text) : Says p (fun st => pure (st.push t)) (solid t) := Says.write (f := fun _ => t) fun _ => rfl

theorem Says.bind (h : Says p act s) (h' : Says p act' t) : Says p (fun st => act st >>= act') (s ++ t) := by
  intro st st' hrun
  obtain ⟨st₁, hact, hact'⟩ := Except.exists_of_bind_ok hrun
  obtain ⟨v, rfl, hv⟩ := h st st₁ hact
  obtain ⟨w, rfl, hw⟩ := h' _ st' hact'
  refine ⟨v ++ w, push_push st v w, ?_⟩
  rw [solid_append]
  exact hv.append hw

theorem Says.closeLine : Says p (fun st => pure st.closeLine) [] := by
  intro st st' h
  obtain rfl := Except.ok.inj h
  unfold Md.closeLine
  split
  · exact ⟨[], (push_nil st).symm, .nil⟩
  · exact ⟨"\n", rfl, .nil⟩

/-- An end of a line and another newline. -/
theorem Says.endLine {after : Text} (hafter : solid after = t) : Says p (fun st => pure (st.closeLine.push after)) t :=
  Says.closeLine.bind (Says.write (f := fun _ => after) fun _ => hafter)

/-- Markers around an action. -/
theorem Says.around {before after : Md → Md} (h : Says p act t) (hbefore : Says p (fun st => pure (before st)) s)
    (hafter : Says p (fun st => pure (after st)) u) :
    Says p (fun st => do let st ← act (before st); pure (after st)) (s ++ (t ++ u)) :=
  hbefore.bind (h.bind hafter)

/-- A collapser that takes white space only, if it does not panic. -/
def KeepsSolid (collapse : Text → Except Panic Text) : Prop := ∀ t s, collapse t = .ok s → solid s = solid t

theorem Says.text (hcollapse : KeepsSolid collapse) (t : Text) :
    Says p (fun st => do let s ← collapse t; pure (pushText st s)) (solid t) := by
  intro st st' h
  obtain ⟨s, hs, hpush⟩ := Except.exists_of_bind_ok h
  obtain rfl := Except.ok.inj hpush
  rw [← hcollapse t s hs]
  unfold pushText
  split
  · exact ⟨s, rfl, Inserted.refl _⟩
  · -- what is not pushed is empty or a single space
    rename_i hblank
    refine ⟨[], (push_nil st).symm, ?_⟩
    by_cases hnil : s = []
    · rw [hnil]
      exact .nil
    · have hspace : s = " " := by
        by_contra hne
        exact hblank ⟨hnil, hne⟩
      rw [hspace]
      exact .nil

/-- After a list the depth is what it was. -/
theorem leave_enter (st : Md) (t : Text) : (st.enter.push t).leave = .ok (st.push t) := by
  have hdepth : ¬ (st.enter.push t).listDepth = 0 := Nat.succ_ne_zero _
  unfold Md.leave
  rw [if_neg hdepth]
  rfl

/-- A list. -/
theorem Says.nested {after : Md → Md} (h : Says p act t) (hafter : Says p (fun st => pure (after st)) u) :
    Says p (fun st => do let st ← act st.enter; let st ← st.leave; pure (after st)) (t ++ u) := by
  intro st st' hrun
  obtain ⟨st₁, hact, hrest⟩ := Except.exists_of_bind_ok hrun
  obtain ⟨v, rfl, hv⟩ := h st.enter st₁ hact
  rw [leave_enter] at hrest
  obtain ⟨w, rfl, hw⟩ := hafter (st.push v) st' hrest
  refine ⟨v ++ w, push_push st v w, ?_⟩
  rw [solid_append]
  exact hv.append hw

/-- Quoting puts a mark before every line. -/
theorem inserted_quoteLines (hp : p '>' = true) (inner : Text) : Inserted p (solid inner) (solid (quoteLines inner)) := by
  have hline (l : Text) : Inserted p (solid l) (solid ("> " ++ stripEol l ++ "\n")) := by
    have hsolid : solid ("> " ++ stripEol l ++ "\n") = '>' :: solid l := by
      rw [solid_append, solid_append, solid_stripEol]
      exact List.append_nil _
    rw [hsolid]
    exact (Inserted.refl _).insert hp
  have hlines (ls : List Text) : Inserted p (solid ls.flatten) (solid (ls.flatMap fun l => "> " ++ stripEol l ++ "\n")) := by
    induction ls with
    | nil => exact .nil
    | cons l ls ih =>
        rw [List.flatMap_cons, List.flatten_cons, solid_append, solid_append]
        exact (hline l).append ih
  have hall := hlines (Framing.lines '\n' inner)
  rw [Framing.flatten_lines] at hall
  rw [quoteLines, strLines, List.flatMap_map]
  exact hall

theorem Says.quoted (hp : p '>' = true) (h : Says p act t) :
    Says p (fun st => do
      let inner ← act { st with md := [] }
      pure { inner with md := st.md ++ (quoteLines inner.md ++ "\n") }) t := by
  intro st st' hrun
  obtain ⟨inner, hact, hpure⟩ := Except.exists_of_bind_ok hrun
  obtain rfl := Except.ok.inj hpure
  obtain ⟨v, rfl, hv⟩ := h { st with md := [] } inner hact
  refine ⟨quoteLines v ++ "\n", rfl, ?_⟩
  have hsolid : solid (quoteLines v ++ "\n") = solid (quoteLines v) := solid_concat_blank (by decide) (quoteLines v)
  rw [hsolid]
  exact hv.trans (inserted_quoteLines hp v)

/-! ## The walk -/

/-- The block quotations that a node contains, outermost ones only. -/
def isQuotation (name : Text) : Bool := oneOf name ["blockquote"]

theorem armOf_eq_blockquote {name : Text} {attrs : List (Text × Text)} (h : armOf name attrs = .blockquote) :
    isQuotation name = true := by
  have hname : (armOf name attrs).name = some "blockquote" := congrArg Arm.name h
  rw [isQuotation, oneOf_singleton]
  exact name_of_armOf hname

/-- Nothing in a node is quoted, or quote marks may be put in. -/
def QuotesOnlyIf (p : Char → Bool) (cs : List Node) : Prop := skippedInAll isQuotation cs = 0 ∨ p '>' = true

theorem QuotesOnlyIf.of_mem {c : Node} {cs : List Node} (h : QuotesOnlyIf p cs) (hc : c ∈ cs) : QuotesOnlyIf p [c] := by
  rcases h with hnone | hp
  · left
    induction cs with
    | nil => cases hc
    | cons d cs ih =>
        obtain ⟨hd, hcs⟩ := Nat.add_eq_zero_iff.mp hnone
        rcases List.mem_cons.mp hc with rfl | hc
        · exact Nat.add_eq_zero_iff.mpr ⟨hd, rfl⟩
        · exact ih hc hcs
  · exact .inr hp

/-- An element that is no quotation has them below, if anywhere. -/
theorem QuotesOnlyIf.children {n : Node} (h : QuotesOnlyIf p [n]) : QuotesOnlyIf p n.children := by
  rcases h with hnone | hp
  · left
    have hn : skippedIn isQuotation n = 0 := (Nat.add_eq_zero_iff.mp hnone).1
    cases n with
    | text t => rfl
    | other cs => exact hn
    | elem name attrs cs =>
        rw [skippedIn] at hn
        split at hn
        · cases hn
        · exact hn
  · exact .inr hp

theorem QuotesOnlyIf.blockquote {name : Text} {attrs : List (Text × Text)} {cs : List Node}
    (h : QuotesOnlyIf p [.elem name attrs cs]) (harm : armOf name attrs = .blockquote) : p '>' = true := by
  rcases h with hnone | hp
  · have hn : skippedIn isQuotation (.elem name attrs cs) = 0 := (Nat.add_eq_zero_iff.mp hnone).1
    rw [skippedIn, armOf_eq_blockquote harm, if_pos rfl] at hn
    cases hn
  · exact hp

/-- Elements, one after the other. -/
theorem says_elements {cs : List Node} (h : ∀ c ∈ cs, Says p (walkElement collapse c) (said c)) :
    Says p (walkElements collapse cs) (saidElements cs) := by
  induction cs with
  | nil => exact Says.nothing
  | cons c cs ih =>
      have hc := h c List.mem_cons_self
      have hcs := ih fun d hd => h d (List.mem_cons_of_mem c hd)
      exact hc.bind hcs

theorem says_children (hcollapse : KeepsSolid collapse) {cs : List Node}
    (h : ∀ c ∈ cs, Says p (walkElement collapse c) (said c)) : Says p (walkChildren collapse cs) (saidChildren cs) := by
  induction cs with
  | nil => exact Says.nothing
  | cons c cs ih =>
      have hc := h c List.mem_cons_self
      have hcs := ih fun d hd => h d (List.mem_cons_of_mem c hd)
      cases c with
      | text t =>
          have hrun : walkChildren collapse (.text t :: cs) = fun st =>
              (do let s ← collapse t; pure (pushText st s)) >>= walkChildren collapse cs := by
            funext st
            rw [walkChildren, bind_assoc]
            rfl
          rw [hrun, saidChildren]
          exact (Says.text hcollapse t).bind hcs
      | elem name attrs gs => exact hc.bind hcs
      | other gs => exact hcs

theorem solid_indent (d : Nat) : solid (indent d) = [] := by
  apply List.filter_eq_nil_iff.mpr
  intro c hc
  rw [List.eq_of_mem_replicate hc]
  decide

/-- The number of an item is written out. -/
theorem solid_number (d idx : Nat) : solid (indent d ++ (decimal idx ++ ". ")) = decimal idx ++ "." := by
  have hdecimal : solid (decimal idx) = decimal idx := by
    apply List.filter_eq_self.mpr
    intro c hc
    rw [isWhitespace_of_isDigit (Nat.isDigit_of_mem_toDigits (by decide) (by decide) hc)]
    rfl
  rw [solid_append, solid_append, solid_indent, hdecimal]
  rfl

theorem says_items {cs : List Node} (h : ∀ c ∈ cs, Says p (walkChildren collapse c.children) (saidChildren c.children))
    (idx : Nat) : Says p (walkItems collapse cs idx) (saidItems cs idx) := by
  induction cs generalizing idx with
  | nil => exact Says.nothing
  | cons c cs ih =>
      have hc := h c List.mem_cons_self
      have hcs := ih (fun d hd => h d (List.mem_cons_of_mem c hd))
      cases c with
      | text t => exact hcs idx
      | other gs => exact hcs idx
      | elem name attrs gs =>
          have hnumber : Says p (fun st => pure (st.push (indent st.listDepth ++ (decimal idx ++ ". ")))) (decimal idx ++ ".") :=
            Says.write (f := fun d => indent d ++ (decimal idx ++ ". ")) fun d => solid_number d idx
          exact hnumber.bind (hc.bind ((Says.push "\n").bind (hcs (idx + 1))))

/-- A code span trims its texts. -/
theorem solid_childTexts_trim (cs : List Node) : solid (childTexts trim cs) = solid (childTexts id cs) := by
  induction cs with
  | nil => rfl
  | cons c cs ih =>
      cases c with
      | text t =>
          rw [childTexts, childTexts, solid_append, solid_append, solid_trim, ih]
          rfl
      | elem name attrs gs => exact ih
      | other gs => exact ih

/-- **The walk says what the page says**, at a node and in its children. -/
theorem says_walk (hcollapse : KeepsSolid collapse) (n : Node) (hquotes : QuotesOnlyIf p [n]) :
    Says p (walkElement collapse n) (said n) ∧ Says p (walkChildren collapse n.children) (saidChildren n.children) := by
  -- the children are in the statement because an `ol` item is entered without a `walkElement`
  induction n using Node.induct with
  | step n ih =>
      have hbelow (c : Node) (hc : c ∈ n.children) : QuotesOnlyIf p [c] := hquotes.children.of_mem hc
      have hchildren := says_children hcollapse fun c hc => (ih c hc (hbelow c hc)).1
      have helements := says_elements fun c hc => (ih c hc (hbelow c hc)).1
      have hitems := says_items (fun c hc => (ih c hc (hbelow c hc)).2) 1
      refine ⟨?_, hchildren⟩
      cases n with
      | text t => exact Says.nothing
      | other cs => exact Says.nothing
      | elem name attrs cs =>
          rw [Node.children_elem] at hchildren helements hitems
          have hrun : walkElement collapse (.elem name attrs cs) = fun st =>
              walkElement collapse (.elem name attrs cs) st := rfl
          rw [hrun]
          simp only [walkElement, said]
          cases harm : armOf name attrs with
          | block lead => exact hchildren.around (Says.push lead) (Says.endLine rfl)
          | inline before after => exact hchildren.around (Says.push before) (Says.push after)
          | leaf text =>
              rw [List.nil_append, Arm.closing, List.append_nil]
              exact Says.push text
          | blockquote =>
              show Says p _ ([] ++ (saidChildren cs ++ []))
              rw [List.nil_append, List.append_nil]
              exact hchildren.quoted (hquotes.blockquote harm)
          | pre => exact (Says.push (textContents cs)).around (Says.push "```\n") (Says.endLine rfl)
          | code =>
              have hcode : solid ("`" ++ childTexts trim cs ++ "`") = "`" ++ (solid (childTexts id cs) ++ "`") := by
                rw [solid_append, solid_append, solid_childTexts_trim, List.append_assoc]
                rfl
              exact Says.write (f := fun _ => "`" ++ childTexts trim cs ++ "`") fun _ => hcode
          | ul => exact helements.nested (Says.endLine rfl)
          | ol => exact hitems.nested (Says.push "\n")
          | li =>
              have hmarker : Says p (fun st => pure (st.push (indent st.listDepth ++ "- "))) "-" := by
                apply Says.write (f := fun d => indent d ++ "- ")
                intro d
                rw [solid_append, solid_indent]
                rfl
              exact hchildren.around hmarker (Says.push "\n")

/-! ## The markdown of a page -/

/-- A markdown of some nodes that says `t`: white space aside it is `t`, with quote marks put in where there are quotations. -/
structure Renders (cs : List Node) (t md : Text) : Prop where
  quoted : Inserted (· == '>') t (solid md)
  plain : skippedInAll isQuotation cs = 0 → solid md = t

theorem renders_of_ok (hcollapse : KeepsSolid collapse) {cs : List Node} {md : Text} (h : domToMarkdownDoc collapse cs = .ok md) :
    Renders cs (saidElements cs) md := by
  obtain ⟨st, hwalk, hclean⟩ := Except.exists_of_bind_ok h
  have hmd : md = trim (squeeze 0 st.md) := (Except.ok.inj ((cleanupMd_eq st.md).symm.trans hclean)).symm
  have hsolid : solid md = solid st.md := by rw [hmd, solid_trim, solid_squeeze]
  -- what is said with `p` put in, for each `p` that will do
  have hshown {p : Char → Bool} (hquotes : QuotesOnlyIf p cs) : Inserted p (saidElements cs) (solid md) := by
    have hwalked : Says p (walkElements collapse cs) (saidElements cs) :=
      says_elements fun c hc => (says_walk hcollapse c (hquotes.of_mem hc)).1
    obtain ⟨u, hu, hinserted⟩ := hwalked _ st hwalk
    have hst : st.md = u := congrArg Md.md hu
    rw [hsolid, hst]
    exact hinserted
  refine ⟨hshown (.inr rfl), fun hnone => ?_⟩
  exact ((hshown (p := fun _ => false) (.inl hnone)).eq_of_none fun _ => rfl).symm

end Walk

theorem keepsSolid_target (target : Target) : KeepsSolid target.collapse := by
  have hreference {t s : Text} (h : Except.ok (referenceCollapse t) = (.ok s : Except Panic Text)) : solid s = solid t := by
    rw [← Except.ok.inj h]
    exact solid_referenceCollapse t
  intro t s h
  cases target with
  | aarch64 =>
      rw [Target.collapse, collapseWhitespaceNeon_eq] at h
      exact hreference h
  | other =>
      rw [Target.collapse, collapseWhitespaceGeneric_eq] at h
      exact hreference h
  | x86_64 profile =>
      have hcollapses := collapses_collapseWhitespace profile
      by_cases hlone : LoneText t
      · have hpanic := hcollapses.panics t hlone
        cases hpanic.symm.trans h
      · rw [Target.collapse, hcollapses.ok t hlone] at h
        exact hreference h

/-- What `main_to_markdown` converts. -/
def Html.mainNodes (doc : Html) : List Node :=
  match doc.main with
  | some (main, _) => [main]
  | none => doc.root

/-- `main_to_markdown` is `dom_to_markdown` of the main content. -/
theorem mainToMarkdownDoc_eq (collapse : Text → Except Panic Text) (doc : Html) :
    mainToMarkdownDoc collapse doc = domToMarkdownDoc collapse doc.mainNodes := by
  unfold mainToMarkdownDoc domToMarkdownDoc Html.mainNodes
  cases doc.main with
  | none => rfl
  | some found =>
      obtain ⟨main, html⟩ := found
      show (walkElement collapse main _ >>= fun st => cleanupMd st.md) =
        ((walkElement collapse main _ >>= fun st => walkElements collapse [] st) >>= fun st => cleanupMd st.md)
      cases walkElement collapse main { md := [], listDepth := 0 } with
      | error p => rfl
      | ok st => rfl

/-- **What the markdown of a page says.** On every target, the markdown of a page is its meaning, white space aside, with the `>` of
    block quotations put in, and nothing put in on a page without them; so is the markdown of the main content. -/
theorem markdown_renders (target : Target) (doc : Html) (md : Text) :
    (domToMarkdownDoc target.collapse doc.root = .ok md → Renders doc.root (saidElements doc.root) md) ∧
    (mainToMarkdownDoc target.collapse doc = .ok md → Renders doc.mainNodes (saidElements doc.mainNodes) md) := by
  refine ⟨renders_of_ok (keepsSolid_target target), fun h => ?_⟩
  rw [mainToMarkdownDoc_eq] at h
  exact renders_of_ok (keepsSolid_target target) h

/-- A quotation below a heading, and in it the main content of the page. -/
def quotedPage : Html where
  root := [.elem "h1" [] [.text "T"], .elem "blockquote" [] [.elem "p" [] [.text "a b"]]]
  main := some (.elem "p" [] [.text "a b"], "<p>a b</p>")
  hrefs := []

theorem markdown_renders_quote :
    Renders quotedPage.root "#Tab".toList "# T\n\n> a b\n>".toList ∧ Renders quotedPage.mainNodes "ab".toList "a b".toList :=
  ⟨(markdown_renders (.x86_64 .debug) quotedPage "# T\n\n> a b\n>".toList).1 (by decide),
    (markdown_renders (.x86_64 .debug) quotedPage "a b".toList).2 (by decide)⟩

/-! ## The main content in the page -/

/-- The walk goes on from an element to a node below it; from an `ol` to what is below its items. -/
def WalksTo : Node → Node → Prop
  | .elem name attrs cs, c =>
      match armOf name attrs with
      | .leaf _ | .pre | .code => False
      | .ol => ∃ name attrs gs, .elem name attrs gs ∈ cs ∧ c ∈ gs
      | .block _ | .inline _ _ | .blockquote | .ul | .li => c ∈ cs
  | .text _, _ => False
  | .other _, _ => False

/-- The walk of some nodes comes to a node. -/
def Walked (cs : List Node) (m : Node) : Prop := ∃ c ∈ cs, Relation.ReflTransGen WalksTo c m

theorem infix_elements {c : Node} {cs : List Node} (hc : c ∈ cs) : said c <:+: saidElements cs := by
  induction cs with
  | nil => cases hc
  | cons d cs ih =>
      rcases List.mem_cons.mp hc with rfl | hmem
      · exact (List.prefix_append _ _).isInfix
      · exact (ih hmem).trans (List.suffix_append _ _).isInfix

theorem infix_children {c : Node} {cs : List Node} (hc : c ∈ cs) : said c <:+: saidChildren cs := by
  induction cs with
  | nil => cases hc
  | cons d cs ih =>
      rcases List.mem_cons.mp hc with rfl | hmem
      · cases c with
        | text t => exact List.nil_infix
        | other gs => exact List.nil_infix
        | elem name attrs gs => exact (List.prefix_append _ _).isInfix
      · cases d with
        | text t => exact (ih hmem).trans (List.suffix_append _ _).isInfix
        | other gs => exact ih hmem
        | elem name attrs gs => exact (ih hmem).trans (List.suffix_append _ _).isInfix

theorem infix_items {name : Text} {attrs : List (Text × Text)} {gs cs : List Node} (hc : .elem name attrs gs ∈ cs) (idx : Nat) :
    saidChildren gs <:+: saidItems cs idx := by
  induction cs generalizing idx with
  | nil => cases hc
  | cons d cs ih =>
      rcases List.mem_cons.mp hc with rfl | hmem
      · exact (List.prefix_append _ _).isInfix.trans (List.suffix_append _ _).isInfix
      · cases d with
        | text t => exact ih hmem idx
        | other hs => exact ih hmem idx
        | elem name' attrs' hs =>
            have hlater := (ih hmem (idx + 1)).trans (List.suffix_append (saidChildren hs) _).isInfix
            exact hlater.trans (List.suffix_append _ _).isInfix

/-- What a node says is part of what the element says that the walk comes to it from. -/
theorem WalksTo.said_infix {n c : Node} (h : WalksTo n c) : said c <:+: said n := by
  cases n with
  | text t => cases h
  | other cs => cases h
  | elem name attrs cs =>
      rw [WalksTo] at h
      rw [said]
      have hmiddle {s t u : Text} (h : said c <:+: t) : said c <:+: s ++ (t ++ u) :=
        (h.trans (List.prefix_append t u).isInfix).trans (List.suffix_append s _).isInfix
      apply hmiddle
      cases harm : armOf name attrs with
      | leaf _ | pre | code =>
          rw [harm] at h
          cases h
      | ol =>
          rw [harm] at h
          obtain ⟨name', attrs', gs, hgs, hc⟩ := h
          exact (infix_children hc).trans (infix_items hgs 1)
      | ul =>
          rw [harm] at h
          exact infix_elements h
      | block _ | inline _ _ | blockquote | li =>
          rw [harm] at h
          exact infix_children h

/-- Where nothing is quoted, the walk comes to nothing quoted. -/
theorem WalksTo.quotesOnlyIf {p : Char → Bool} {n c : Node} (h : WalksTo n c) (hquotes : QuotesOnlyIf p [n]) :
    QuotesOnlyIf p [c] := by
  cases n with
  | text t => cases h
  | other cs => cases h
  | elem name attrs cs =>
      have hbelow : QuotesOnlyIf p cs := hquotes.children
      rw [WalksTo] at h
      cases harm : armOf name attrs with
      | leaf _ | pre | code =>
          rw [harm] at h
          cases h
      | ol =>
          rw [harm] at h
          obtain ⟨name', attrs', gs, hgs, hc⟩ := h
          exact (hbelow.of_mem hgs).children.of_mem hc
      | block _ | inline _ _ | blockquote | ul | li =>
          rw [harm] at h
          exact hbelow.of_mem h

theorem Walked.said_infix {cs : List Node} {m : Node} (h : Walked cs m) : said m <:+: saidElements cs := by
  obtain ⟨c, hc, hwalk⟩ := h
  have hbelow : said m <:+: said c := by
    induction hwalk with
    | refl => exact List.infix_rfl
    | tail _ hstep ih => exact hstep.said_infix.trans ih
  exact hbelow.trans (infix_elements hc)

theorem Walked.quotesOnlyIf {p : Char → Bool} {cs : List Node} {m : Node} (h : Walked cs m) (hquotes : QuotesOnlyIf p cs) :
    QuotesOnlyIf p [m] := by
  obtain ⟨c, hc, hwalk⟩ := h
  induction hwalk with
  | refl => exact hquotes.of_mem hc
  | tail _ hstep ih => exact hstep.quotesOnlyIf ih

/-- **The main content is a part of the page.** If the walk of the page comes to the main content, what `main_to_markdown` returns
    is in one piece in what `dom_to_markdown` returns, white space and quote marks aside; on a page without block quotations, white
    space aside. -/
theorem main_within_page (target : Target) (doc : Html) {main : Node} {html md md' : Text} (hmain : doc.main = some (main, html))
    (hwalked : Walked doc.root main) (h : mainToMarkdownDoc target.collapse doc = .ok md)
    (h' : domToMarkdownDoc target.collapse doc.root = .ok md') :
    (solid md).filter (fun c => !(c == '>')) <:+: (solid md').filter (fun c => !(c == '>')) ∧
      (skippedInAll isQuotation doc.root = 0 → solid md <:+: solid md') := by
  have hnodes : doc.mainNodes = [main] := by rw [Html.mainNodes, hmain]
  have hsaid : saidElements [main] = said main := List.append_nil (said main)
  rw [mainToMarkdownDoc_eq, hnodes] at h
  obtain ⟨hpart, hpartPlain⟩ := renders_of_ok (keepsSolid_target target) h
  obtain ⟨hpage, hpagePlain⟩ := renders_of_ok (keepsSolid_target target) h'
  rw [hsaid] at hpart hpartPlain
  refine ⟨?_, fun hnone => ?_⟩
  · rw [hpart.filter_eq, hpage.filter_eq]
    exact hwalked.said_infix.filter _
  · have hquotes : QuotesOnlyIf (fun _ => false) [main] := hwalked.quotesOnlyIf (.inl hnone)
    rw [hpartPlain (hquotes.resolve_right Bool.false_ne_true), hpagePlain hnone]
    exact hwalked.said_infix

theorem main_within_page_quote :
    (solid "a b".toList).filter (fun c => !(c == '>')) <:+: (solid "# T\n\n> a b\n>".toList).filter (fun c => !(c == '>')) :=
  (main_within_page (.x86_64 .debug) quotedPage rfl
    ⟨.elem "blockquote" [] [.elem "p" [] [.text "a b"]], by simp [quotedPage], .single List.mem_cons_self⟩ (by decide) (by decide)).1

end Scrape
end McpWebSearch
