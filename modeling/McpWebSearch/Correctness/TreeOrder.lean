import Mathlib.Data.List.Pairwise
import McpWebSearch.Correctness.Parts

/-!
# `Correctness.TreeOrder` — the parts of a page by their nodes

A node is below another if its path ends with the path of the other. The texts and the preformatted blocks among the parts
of a page are at nodes none of which is below another (`ordered_pageParts`), so an element inside of a preformatted block
is above no text outside of it; and the texts below an element follow each other (`exists_run`).
-/

namespace McpWebSearch
namespace Scrape

open Utf8 Dom

/-! ## Paths -/

/-- None of two nodes is below the other. -/
def Unrelated (m n : Path) : Prop := ¬ m <:+ n ∧ ¬ n <:+ m

theorem eq_of_siblings {a n : Path} {i k : Nat} (hi : (i :: a) <:+ n) (hk : (k :: a) <:+ n) : i = k := by
  have hsuffix : (i :: a) <:+ (k :: a) := List.suffix_of_suffix_length_le hi hk (Nat.le_refl _)
  exact (List.cons.inj (hsuffix.eq_of_length rfl)).1

theorem unrelated_of_siblings {a m n : Path} {i k : Nat} (hne : i ≠ k) (hm : (i :: a) <:+ m) (hn : (k :: a) <:+ n) :
    Unrelated m n :=
  ⟨fun h => hne (eq_of_siblings (hm.trans h) hn), fun h => hne (eq_of_siblings hm (hn.trans h))⟩

/-! ## Leaves -/

mutual

/-- The parts that are no quotations, at any depth. -/
def Part.leaves : Part → List Part
  | .quote body => leavesAll body
  | x => [x]

def leavesAll : List Part → List Part
  | [] => []
  | x :: ts => x.leaves ++ leavesAll ts

end

theorem leavesAll_append (ts us : List Part) : leavesAll (ts ++ us) = leavesAll ts ++ leavesAll us := by
  induction ts with
  | nil => rfl
  | cons x ts ih => rw [List.cons_append, leavesAll, ih, leavesAll, List.append_assoc]

/-- The node of a text or of a preformatted block. -/
def Part.spot? : Part → Option Path
  | .text node _ | .code node _ => some node.node
  | .pre p _ => some p.node
  | .start _ _ | .stop _ _ | .item _ | .itemEnd | .void _ _ | .quote _ => none

def Part.Unrelated (x y : Part) : Prop := ∀ m ∈ x.spot?, ∀ n ∈ y.spot?, Scrape.Unrelated m n

instance : Std.Symm Part.Unrelated where
  symm _ _ h m hm n hn := ⟨(h n hn m hm).2, (h n hn m hm).1⟩

/-- A preformatted block has the texts and the marked blocks of the children of its node. -/
def Whole (p : Pre) (blocks : List Path) : Prop :=
  ∃ (x : Spot) (cs : List Node), x.node = p.node ∧ p.texts = verbatimAll x 0 cs ∧ blocks = markedBelowAll p.node 0 cs

/-- Parts whose leaves are at different nodes of a region of the tree. -/
structure Ordered (region : Path → Prop) (ts : List Part) : Prop where
  region : ∀ y ∈ leavesAll ts, ∀ m ∈ y.spot?, region m
  whole : ∀ p blocks, .pre p blocks ∈ leavesAll ts → Whole p blocks
  unrelated : (leavesAll ts).Pairwise Part.Unrelated

namespace Ordered

variable {region region' : Path → Prop} {ts us : List Part}

theorem nil : Ordered region [] := ⟨fun _ hy => (nomatch hy), fun _ _ hy => (nomatch hy), List.Pairwise.nil⟩

theorem mono (h : Ordered region ts) (hregion : ∀ m, region m → region' m) : Ordered region' ts :=
  ⟨fun y hy m hm => hregion m (h.region y hy m hm), h.whole, h.unrelated⟩

theorem of_leaves (h : Ordered region ts) (hleaves : leavesAll us = leavesAll ts) : Ordered region us := by
  refine ⟨?_, ?_, ?_⟩
  · rw [hleaves]
    exact h.region
  · rw [hleaves]
    exact h.whole
  · rw [hleaves]
    exact h.unrelated

/-- Two regions none of which is below the other. -/
theorem append (h : Ordered region ts) (h' : Ordered region' us)
    (hne : ∀ m n, region m → region' n → Scrape.Unrelated m n) : Ordered (fun m => region m ∨ region' m) (ts ++ us) := by
  have hmem {y : Part} (hy : y ∈ leavesAll (ts ++ us)) : y ∈ leavesAll ts ∨ y ∈ leavesAll us := by
    rw [leavesAll_append] at hy
    exact List.mem_append.mp hy
  refine ⟨?_, ?_, ?_⟩
  · intro y hy m hm
    exact (hmem hy).imp (fun hy => h.region y hy m hm) (fun hy => h'.region y hy m hm)
  · intro p blocks hy
    exact (hmem hy).elim (h.whole p blocks) (h'.whole p blocks)
  · rw [leavesAll_append, List.pairwise_append]
    exact ⟨h.unrelated, h'.unrelated, fun y hy z hz m hm n hn => hne m n (h.region y hy m hm) (h'.region z hz n hn)⟩

/-- A leaf. -/
theorem singleton {x : Part} (hleaf : x.leaves = [x]) (hregion : ∀ m ∈ x.spot?, region m)
    (hwhole : ∀ p blocks, x = .pre p blocks → Whole p blocks) : Ordered region [x] := by
  have hleaves : leavesAll [x] = [x] := (List.append_nil _).trans hleaf
  refine ⟨?_, ?_, ?_⟩
  · rw [hleaves]
    intro y hy
    rw [List.mem_singleton.mp hy]
    exact hregion
  · rw [hleaves]
    intro p blocks hy
    exact hwhole p blocks (List.mem_singleton.mp hy).symm
  · rw [hleaves]
    exact List.pairwise_singleton _ _

/-- Around some parts, parts without a node do not matter. -/
theorem around (h : Ordered region ts) {x y : Part} (hx : x.leaves = [x] ∧ x.spot? = none)
    (hy : y.leaves = [y] ∧ y.spot? = none) : Ordered region (x :: (ts ++ [y])) := by
  have hplain {z : Part} (hz : z.leaves = [z] ∧ z.spot? = none) : Ordered (fun _ => False) [z] := by
    apply singleton hz.1
    · intro m hm
      rw [hz.2] at hm
      cases hm
    · rintro p blocks rfl
      cases hz.2
  have hfirst := (hplain hx).append h fun m n hm _ => hm.elim
  have hall := hfirst.append (hplain hy) fun m n _ hn => hn.elim
  apply mono hall
  rintro m ((hm | hm) | hm)
  · exact hm.elim
  · exact hm
  · exact hm.elim

end Ordered

theorem ordered_partsAll {p : Place} {cs : List Node}
    (h : ∀ c ∈ cs, ∀ x : Spot, Ordered (x.node <:+ ·) (parts p x c)) (x : Spot) (i number : Nat) :
    Ordered (fun m => ∃ k, i ≤ k ∧ (k :: x.node) <:+ m) (partsAll p x i number cs) := by
  induction cs generalizing i number with
  | nil => exact Ordered.nil
  | cons c cs ih =>
      have hc := h c List.mem_cons_self (x.child i number)
      have hcs := ih (fun d hd => h d (List.mem_cons_of_mem c hd)) (i + 1) (number + elementCount c)
      have hall := hc.append hcs fun m n hm ⟨k, hk, hn⟩ => unrelated_of_siblings (Nat.ne_of_lt hk) hm hn
      apply hall.mono
      rintro m (hm | ⟨k, hk, hm⟩)
      · exact ⟨i, Nat.le_refl i, hm⟩
      · exact ⟨k, Nat.le_of_succ_le hk, hm⟩

theorem ordered_parts (n : Node) (p : Place) (x : Spot) : Ordered (x.node <:+ ·) (parts p x n) := by
  induction n using Node.induct generalizing p x with
  | step n ih =>
      have hchildren (p : Place) (x : Spot) : Ordered (x.node <:+ ·) (partsAll p x 0 1 n.children) := by
        apply (ordered_partsAll (fun c hc x => ih c hc p x) x 0 1).mono
        rintro m ⟨k, -, hm⟩
        exact (List.suffix_cons k x.node).trans hm
      cases n with
      | text t =>
          cases p with
          | child =>
              apply Ordered.singleton rfl
              · intro m hm
                rw [← Option.some.inj hm]
                exact List.suffix_refl _
              · intro p blocks h
                cases h
          | code =>
              apply Ordered.singleton rfl
              · intro m hm
                rw [← Option.some.inj hm]
                exact List.suffix_refl _
              · intro p blocks h
                cases h
          | element => exact Ordered.nil
          | item => exact Ordered.nil
      | other cs => cases p <;> exact Ordered.nil
      | elem name attrs cs =>
          rw [Node.children_elem] at hchildren
          have hflow : Ordered (x.node <:+ ·) (parts .element x (.elem name attrs cs)) := by
            simp only [parts]
            split
            · apply Ordered.singleton rfl
              · intro m hm
                cases hm
              · intro p blocks h
                cases h
            · have hbody := hchildren .child (x.inside name)
              exact hbody.of_leaves (List.append_nil _)
            · apply Ordered.singleton rfl
              · intro m hm
                rw [← Option.some.inj hm]
              · intro p blocks h
                obtain ⟨rfl, rfl⟩ := Part.pre.inj h
                exact ⟨x.inside name, cs, rfl, rfl, rfl⟩
            · exact (hchildren .child (x.inside name)).around ⟨rfl, rfl⟩ ⟨rfl, rfl⟩
            · rename_i q _
              exact (hchildren q (x.inside name)).around ⟨rfl, rfl⟩ ⟨rfl, rfl⟩
          cases p with
          | element => exact hflow
          | child => exact hflow
          | code => exact Ordered.nil
          | item =>
              have hbody := hchildren .child { x.inside name with depth := x.depth, quoted := x.quoted, list := none }
              exact hbody.around ⟨rfl, rfl⟩ ⟨rfl, rfl⟩

/-! ## The texts below an element -/

/-- The text node is below the element at a path. -/
def Under (e : Path) (t : TextNode × Text) : Prop := e <:+ t.1.node

instance (e : Path) (t : TextNode × Text) : Decidable (Under e t) := inferInstanceAs (Decidable (_ <:+ _))

/-- The texts of a node are below it. -/
theorem suffix_of_mem_verbatimAll {cs : List Node}
    (h : ∀ c ∈ cs, ∀ x : Spot, ∀ t ∈ verbatim x c, x.node <:+ t.1.node) {x : Spot} {i : Nat} {t : TextNode × Text}
    (ht : t ∈ verbatimAll x i cs) : ∃ k, i ≤ k ∧ (k :: x.node) <:+ t.1.node := by
  induction cs generalizing i with
  | nil => cases ht
  | cons c cs ih =>
      rcases List.mem_append.mp ht with ht | ht
      · exact ⟨i, Nat.le_refl i, h c List.mem_cons_self (x.child i 0) t ht⟩
      · obtain ⟨k, hk, hsuffix⟩ := ih (fun d hd => h d (List.mem_cons_of_mem c hd)) ht
        exact ⟨k, Nat.le_of_succ_le hk, hsuffix⟩

theorem suffix_of_mem_verbatim {n : Node} {x : Spot} {t : TextNode × Text} (ht : t ∈ verbatim x n) :
    x.node <:+ t.1.node := by
  induction n using Node.induct generalizing x t with
  | step n ih =>
      have hchildren {x : Spot} (ht : t ∈ verbatimAll x 0 n.children) : x.node <:+ t.1.node := by
        obtain ⟨k, -, hsuffix⟩ := suffix_of_mem_verbatimAll (fun c hc x t ht => ih c hc ht) ht
        exact (List.suffix_cons k x.node).trans hsuffix
      cases n with
      | text s =>
          rw [List.mem_singleton.mp ht]
          exact List.suffix_refl _
      | elem name attrs cs => exact hchildren (x := x.inside name) ht
      | other cs => exact hchildren ht

theorem suffix_of_mem_markedBelow {n : Node} {node e : Path} (he : e ∈ markedBelow node n) : node <:+ e := by
  induction n using Node.induct generalizing node with
  | step n ih =>
      have hall (cs : List Node) (hcs : ∀ c ∈ cs, c ∈ n.children) (i : Nat) (he : e ∈ markedBelowAll node i cs) :
          node <:+ e := by
        induction cs generalizing i with
        | nil => cases he
        | cons c cs ihcs =>
            rcases List.mem_append.mp he with he | he
            · exact (List.suffix_cons i node).trans (ih c (hcs c List.mem_cons_self) he)
            · exact ihcs (fun d hd => hcs d (List.mem_cons_of_mem c hd)) (i + 1) he
      cases n with
      | text s => cases he
      | elem name attrs cs =>
          rcases List.mem_append.mp he with he | he
          · split at he
            · rw [List.mem_singleton.mp he]
            · cases he
          · exact hall cs (fun c hc => hc) 0 he
      | other cs => exact hall cs (fun c hc => hc) 0 he

/-- Some texts that follow each other are those below the element. -/
def Run (e : Path) (ts : List (TextNode × Text)) : Prop :=
  ∃ before inside after, ts = before ++ (inside ++ after) ∧ (∀ t ∈ before, ¬ Under e t) ∧ (∀ t ∈ inside, Under e t) ∧
    ∀ t ∈ after, ¬ Under e t

theorem Run.none {e : Path} {ts : List (TextNode × Text)} (h : ∀ t ∈ ts, ¬ Under e t) : Run e ts :=
  ⟨ts, [], [], (List.append_nil ts).symm, h, fun _ ht => (nomatch ht), fun _ ht => (nomatch ht)⟩

theorem Run.append_none {e : Path} {ts us : List (TextNode × Text)} (h : Run e ts) (hus : ∀ t ∈ us, ¬ Under e t) :
    Run e (ts ++ us) := by
  obtain ⟨before, inside, after, rfl, hbefore, hinside, hafter⟩ := h
  refine ⟨before, inside, after ++ us, by simp only [List.append_assoc], hbefore, hinside, ?_⟩
  intro t ht
  exact (List.mem_append.mp ht).elim (hafter t) (hus t)

theorem Run.none_append {e : Path} {ts us : List (TextNode × Text)} (hts : ∀ t ∈ ts, ¬ Under e t) (h : Run e us) :
    Run e (ts ++ us) := by
  obtain ⟨before, inside, after, rfl, hbefore, hinside, hafter⟩ := h
  refine ⟨ts ++ before, inside, after, (List.append_assoc _ _ _).symm, ?_, hinside, hafter⟩
  intro t ht
  exact (List.mem_append.mp ht).elim (hts t) (hbefore t)

/-- An element that is not the node or above it is below one of its children at most. -/
theorem run_verbatimAll {cs : List Node} {e : Path} (h : ∀ c ∈ cs, ∀ x : Spot, Run e (verbatim x c)) {x : Spot}
    (hx : ¬ e <:+ x.node) (i : Nat) : Run e (verbatimAll x i cs) := by
  induction cs generalizing i with
  | nil => exact Run.none fun _ ht => (nomatch ht)
  | cons c cs ih =>
      rw [verbatimAll]
      have hc := h c List.mem_cons_self (x.child i 0)
      have hcs := ih (fun d hd => h d (List.mem_cons_of_mem c hd)) (i + 1)
      have hlow {k : Nat} {t : TextNode × Text} (ht : (k :: x.node) <:+ t.1.node) (hunder : Under e t) :
          (k :: x.node) <:+ e := by
        rcases List.suffix_or_suffix_of_suffix hunder ht with he | hk
        · rcases List.suffix_cons_iff.mp he with rfl | he
          · exact List.suffix_refl _
          · exact absurd he hx
        · exact hk
      by_cases hany : ∃ t ∈ verbatim (x.child i 0) c, Under e t
      · -- the siblings that follow are not above the element
        obtain ⟨t, ht, hunder⟩ := hany
        apply hc.append_none
        intro u hu hunder'
        obtain ⟨k, hk, hsuffix⟩ := suffix_of_mem_verbatimAll (fun c _ x t ht => suffix_of_mem_verbatim ht) hu
        have hi := hlow (suffix_of_mem_verbatim ht) hunder
        exact absurd (eq_of_siblings hi (hlow hsuffix hunder')) (Nat.ne_of_lt hk)
      · apply Run.none_append _ hcs
        intro t ht hunder
        exact hany ⟨t, ht, hunder⟩

/-- **The texts below an element follow each other.** -/
theorem run_verbatim (n : Node) (x : Spot) (e : Path) : Run e (verbatim x n) := by
  induction n using Node.induct generalizing x with
  | step n ih =>
      by_cases hx : e <:+ x.node
      · refine ⟨[], verbatim x n, [], (List.append_nil _).symm, fun _ ht => (nomatch ht), ?_, fun _ ht => (nomatch ht)⟩
        exact fun t ht => hx.trans (suffix_of_mem_verbatim ht)
      · have hchildren {y : Spot} (hy : y.node = x.node) : Run e (verbatimAll y 0 n.children) := by
          apply run_verbatimAll (fun c hc z => ih c hc z)
          rw [hy]
          exact hx
        cases n with
        | text t =>
            apply Run.none
            intro u hu hunder
            rw [List.mem_singleton.mp hu] at hunder
            exact hx hunder
        | elem name attrs cs => exact hchildren (y := x.inside name) rfl
        | other cs => exact hchildren rfl

/-- **The texts and the preformatted blocks of a page are at different nodes**, none of them below another. -/
theorem ordered_pageParts (doc : List Node) : Ordered (fun _ => True) (pageParts doc) := by
  apply (ordered_partsAll (fun c _ x => ordered_parts c .element x) Spot.root 0 1).mono
  exact fun _ _ => trivial

end Scrape
end McpWebSearch
