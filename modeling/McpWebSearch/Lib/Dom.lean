import McpWebSearch.Lib.Utf8

/-!
# `Lib.Dom` — document trees

A document tree as a parser leaves it: text nodes, elements, and other nodes (comments, doctypes, the fragment of a
template), which may have children too. `Node.induct` is induction over the tree with one case: a node, given the
property for its children.
-/

namespace Dom

open Utf8

inductive Node
  | text (text : Text)
  | elem (name : Text) (attrs : List (Text × Text)) (children : List Node)
  | other (children : List Node)

/-- The value of an attribute, empty if it is missing. -/
def attr (attrs : List (Text × Text)) (name : Text) : Text := (attrs.lookup name).getD []

namespace Node

def children : Node → List Node
  | .text _ => []
  | .elem _ _ cs => cs
  | .other cs => cs

@[simp] theorem children_text (t : Text) : (Node.text t).children = [] := rfl
@[simp] theorem children_elem (name : Text) (attrs : List (Text × Text)) (cs : List Node) :
    (Node.elem name attrs cs).children = cs := rfl
@[simp] theorem children_other (cs : List Node) : (Node.other cs).children = cs := rfl

/-- A property of a node may be shown from the property of its children. -/
theorem induct {P : Node → Prop} (step : ∀ n, (∀ c ∈ n.children, P c) → P n) (n : Node) : P n := by
  refine @Node.rec P (fun cs => ∀ c ∈ cs, P c) ?_ ?_ ?_ ?_ ?_ n
  · intro t
    exact step (.text t) (by simp)
  · intro name attrs cs ih
    exact step (.elem name attrs cs) ih
  · intro cs ih
    exact step (.other cs) ih
  · simp
  · intro c cs hc hcs d hd
    rcases List.mem_cons.mp hd with rfl | hd
    · exact hc
    · exact hcs d hd

end Node

mutual

/-- The text of a node and everything below it, in document order. -/
def textContent : Node → Text
  | .text t => t
  | .elem _ _ cs => textContents cs
  | .other cs => textContents cs

def textContents : List Node → Text
  | [] => []
  | c :: cs => textContent c ++ textContents cs

end

mutual

/-- The text nodes at and below a node, in document order. -/
def texts : Node → List Text
  | .text t => [t]
  | .elem _ _ cs => textsAll cs
  | .other cs => textsAll cs

def textsAll : List Node → List Text
  | [] => []
  | c :: cs => texts c ++ textsAll cs

end

/-- The text content is made of the text nodes. -/
theorem flatten_texts (n : Node) : (texts n).flatten = textContent n := by
  induction n using Node.induct with
  | step n ih =>
      have hall : (textsAll n.children).flatten = textContents n.children := by
        generalize n.children = cs at ih
        induction cs with
        | nil => rfl
        | cons c cs ihcs =>
            have hc := ih c List.mem_cons_self
            have hcs := ihcs fun d hd => ih d (List.mem_cons_of_mem c hd)
            rw [textsAll, textContents, List.flatten_append, hc, hcs]
      cases n with
      | text t => exact List.append_nil t
      | elem name attrs cs => exact hall
      | other cs => exact hall

theorem flatten_textsAll (cs : List Node) : (textsAll cs).flatten = textContents cs := flatten_texts (.other cs)

mutual

/-- The text nodes at and below a node, in document order, each with its ancestors: `above`, and those below that, by
    their names; `none` is one that is no element. -/
def placed (above : List (Option Text)) : Node → List (List (Option Text) × Text)
  | .text t => [(above, t)]
  | .elem name _ cs => placedAll (above ++ [some name]) cs
  | .other cs => placedAll (above ++ [none]) cs

def placedAll (above : List (Option Text)) : List Node → List (List (Option Text) × Text)
  | [] => []
  | c :: cs => placed above c ++ placedAll above cs

end

/-- Without their ancestors they are the texts. -/
theorem map_snd_placed (n : Node) (above : List (Option Text)) : (placed above n).map Prod.snd = texts n := by
  induction n using Node.induct generalizing above with
  | step n ih =>
      have hall (above' : List (Option Text)) : (placedAll above' n.children).map Prod.snd = textsAll n.children := by
        generalize n.children = cs at ih
        induction cs with
        | nil => rfl
        | cons c cs ihcs =>
            have hc := ih c List.mem_cons_self above'
            have hcs := ihcs fun d hd => ih d (List.mem_cons_of_mem c hd)
            rw [placedAll, List.map_append, hc, hcs, textsAll]
      cases n with
      | text t => rfl
      | elem name attrs cs => exact hall _
      | other cs => exact hall _

theorem map_snd_placedAll (cs : List Node) (above : List (Option Text)) : (placedAll above cs).map Prod.snd = textsAll cs := by
  induction cs with
  | nil => rfl
  | cons c cs ih => rw [placedAll, List.map_append, map_snd_placed, ih, textsAll]

/-- The ancestors of a text node begin with the ones above the tree. -/
theorem prefix_of_mem_placed {n : Node} {above anc : List (Option Text)} {t : Text} (h : (anc, t) ∈ placed above n) :
    above <+: anc := by
  induction n using Node.induct generalizing above with
  | step n ih =>
      have hall {above' : List (Option Text)} (hmem : (anc, t) ∈ placedAll above' n.children) : above' <+: anc := by
        generalize n.children = cs at ih hmem
        induction cs with
        | nil => cases hmem
        | cons c cs ihcs =>
            rcases List.mem_append.mp hmem with hc | hcs
            · exact ih c List.mem_cons_self hc
            · exact ihcs (fun d hd => ih d (List.mem_cons_of_mem c hd)) hcs
      cases n with
      | text t' =>
          obtain ⟨rfl, rfl⟩ := Prod.mk.inj (List.mem_singleton.mp h)
          exact List.prefix_refl _
      | elem name attrs cs => exact (List.prefix_append above [some name]).trans (hall h)
      | other cs => exact (List.prefix_append above [none]).trans (hall h)

theorem prefix_of_mem_placedAll {cs : List Node} {above anc : List (Option Text)} {t : Text}
    (h : (anc, t) ∈ placedAll above cs) : above <+: anc := by
  induction cs with
  | nil => cases h
  | cons c cs ih =>
      rcases List.mem_append.mp h with hc | hcs
      · exact prefix_of_mem_placed hc
      · exact ih hcs

/-- The text nodes among the children themselves, each passed through `f`. -/
def childTexts (f : Text → Text) : List Node → Text
  | [] => []
  | .text t :: cs => f t ++ childTexts f cs
  | _ :: cs => childTexts f cs

/-! ## Measures -/

/-- The number of elements among some nodes. -/
def elementCount : List Node → Nat
  | [] => 0
  | .elem _ _ _ :: cs => elementCount cs + 1
  | .text _ :: cs => elementCount cs
  | .other _ :: cs => elementCount cs

section Measures

variable (p : Text → Bool)

mutual

/-- How many elements with a name in `p` are inside one another, at most. -/
def nesting : Node → Nat
  | .text _ => 0
  | .elem name _ cs => nestingAll cs + if p name then 1 else 0
  | .other cs => nestingAll cs

def nestingAll : List Node → Nat
  | [] => 0
  | c :: cs => max (nesting c) (nestingAll cs)

end

mutual

/-- How many elements an element with a name in `p` has among its children, at most. -/
def widest : Node → Nat
  | .text _ => 0
  | .elem name _ cs => max (widestAll cs) (if p name then elementCount cs else 0)
  | .other cs => widestAll cs

def widestAll : List Node → Nat
  | [] => 0
  | c :: cs => max (widest c) (widestAll cs)

end

variable {p}

theorem texts_subset {c : Node} {cs : List Node} (h : c ∈ cs) : texts c ⊆ textsAll cs := by
  induction cs with
  | nil => cases h
  | cons d cs ih =>
      rw [textsAll]
      rcases List.mem_cons.mp h with rfl | h
      · exact List.subset_append_left _ _
      · exact fun t ht => List.mem_append_right _ (ih h ht)

theorem nesting_le {c : Node} {cs : List Node} (h : c ∈ cs) : nesting p c ≤ nestingAll p cs := by
  induction cs with
  | nil => cases h
  | cons d cs ih =>
      rw [nestingAll]
      rcases List.mem_cons.mp h with rfl | h
      · exact Nat.le_max_left _ _
      · exact Nat.le_trans (ih h) (Nat.le_max_right _ _)

theorem widest_le {c : Node} {cs : List Node} (h : c ∈ cs) : widest p c ≤ widestAll p cs := by
  induction cs with
  | nil => cases h
  | cons d cs ih =>
      rw [widestAll]
      rcases List.mem_cons.mp h with rfl | h
      · exact Nat.le_max_left _ _
      · exact Nat.le_trans (ih h) (Nat.le_max_right _ _)

/-- The children of a node measure no more than the node. -/
theorem textsAll_children_subset (n : Node) : textsAll n.children ⊆ texts n := by
  cases n with
  | text t => exact List.nil_subset _
  | elem name attrs cs => exact List.Subset.refl _
  | other cs => exact List.Subset.refl _

theorem nestingAll_children_le (n : Node) : nestingAll p n.children ≤ nesting p n := by
  cases n with
  | text t => exact Nat.le_refl 0
  | elem name attrs cs => exact Nat.le_add_right _ _
  | other cs => exact Nat.le_refl _

theorem widestAll_children_le (n : Node) : widestAll p n.children ≤ widest p n := by
  cases n with
  | text t => exact Nat.le_refl 0
  | elem name attrs cs => exact Nat.le_max_left _ _
  | other cs => exact Nat.le_refl _

end Measures

/-! ### Bytes -/

/-- The bytes of some attributes, with a space and an equals sign for each. -/
def attrsMarkup : List (Text × Text) → Nat
  | [] => 0
  | (key, value) :: attrs => byteLen key + byteLen value + 2 + attrsMarkup attrs

/-- The bytes of a start tag. -/
def tagMarkup (name : Text) (attrs : List (Text × Text)) : Nat := byteLen name + 2 + attrsMarkup attrs

mutual

/-- The bytes of the start tags and the texts in a node. -/
def markup : Node → Nat
  | .text t => byteLen t
  | .elem name attrs cs => tagMarkup name attrs + markupAll cs
  | .other cs => markupAll cs

def markupAll : List Node → Nat
  | [] => 0
  | c :: cs => markup c + markupAll cs

end

theorem byteLen_attr_le (attrs : List (Text × Text)) (name : Text) : byteLen (attr attrs name) ≤ attrsMarkup attrs := by
  induction attrs with
  | nil => exact Nat.le_refl 0
  | cons a attrs ih =>
      obtain ⟨key, value⟩ := a
      rw [attr, List.lookup_cons, attrsMarkup]
      split
      · rw [Option.getD_some]
        omega
      · exact Nat.le_trans ih (Nat.le_add_left _ _)

/-- Two attributes are two of them. -/
theorem byteLen_attr_add_le {name name' : Text} (hne : name ≠ name') (attrs : List (Text × Text)) :
    byteLen (attr attrs name) + byteLen (attr attrs name') ≤ attrsMarkup attrs := by
  induction attrs with
  | nil => exact Nat.le_refl 0
  | cons a attrs ih =>
      obtain ⟨key, value⟩ := a
      have hname := byteLen_attr_le attrs name
      have hname' := byteLen_attr_le attrs name'
      unfold attr at ih hname hname'
      rw [attr, attr, List.lookup_cons, List.lookup_cons, attrsMarkup]
      cases h : name == key with
      | true =>
          cases h' : name' == key with
          | true => exact absurd ((beq_iff_eq.mp h).trans (beq_iff_eq.mp h').symm) hne
          | false =>
              show byteLen value + byteLen ((attrs.lookup name').getD []) ≤ _
              omega
      | false =>
          cases h' : name' == key with
          | true =>
              show byteLen ((attrs.lookup name).getD []) + byteLen value ≤ _
              omega
          | false => exact Nat.le_trans ih (Nat.le_add_left _ _)

theorem byteLen_textContents_le (cs : List Node) (h : ∀ c ∈ cs, byteLen (textContent c) ≤ markup c) :
    byteLen (textContents cs) ≤ markupAll cs := by
  induction cs with
  | nil => exact Nat.le_refl 0
  | cons c cs ih =>
      rw [textContents, byteLen_append, markupAll]
      exact Nat.add_le_add (h c List.mem_cons_self) (ih fun d hd => h d (List.mem_cons_of_mem c hd))

theorem byteLen_textContent_le (n : Node) : byteLen (textContent n) ≤ markup n := by
  induction n using Node.induct with
  | step n ih =>
      have hchildren := byteLen_textContents_le n.children ih
      cases n with
      | text t => exact Nat.le_refl _
      | elem name attrs cs => exact Nat.le_trans hchildren (Nat.le_add_left _ _)
      | other cs => exact hchildren

theorem byteLen_childTexts_le {f : Text → Text} (hf : ∀ t, byteLen (f t) ≤ byteLen t) (cs : List Node) :
    byteLen (childTexts f cs) ≤ markupAll cs := by
  induction cs with
  | nil => exact Nat.le_refl 0
  | cons c cs ih =>
      cases c with
      | text t =>
          rw [childTexts, byteLen_append, markupAll]
          exact Nat.add_le_add (hf t) ih
      | elem name attrs below => exact Nat.le_trans ih (Nat.le_add_left _ _)
      | other below => exact Nat.le_trans ih (Nat.le_add_left _ _)

/-! ## Editing texts -/

section MapTexts

variable (f : Text → Text)

mutual

/-- Apply `f` to every text node. -/
def mapTexts : Node → Node
  | .text t => .text (f t)
  | .elem name attrs cs => .elem name attrs (mapTextsAll cs)
  | .other cs => .other (mapTextsAll cs)

def mapTextsAll : List Node → List Node
  | [] => []
  | c :: cs => mapTexts c :: mapTextsAll cs

end

variable {f}

theorem mapTextsAll_eq_map (cs : List Node) : mapTextsAll f cs = cs.map (mapTexts f) := by
  induction cs with
  | nil => rfl
  | cons c cs ih => rw [mapTextsAll, ih, List.map_cons]

end MapTexts

/-! ## Editing what is below some elements -/

section Edit

variable (skip : Text → Bool) (f : List Node → List Node)

mutual

/-- Apply `f` to the children of every outermost element whose name is in `skip`. -/
def edit : Node → Node
  | .text t => .text t
  | .elem name attrs cs => .elem name attrs (if skip name then f cs else editAll cs)
  | .other cs => .other (editAll cs)

def editAll : List Node → List Node
  | [] => []
  | c :: cs => edit c :: editAll cs

end

/-- The tree without what is below those elements. -/
def prune : Node → Node := edit skip fun _ => []
def pruneAll : List Node → List Node := editAll skip fun _ => []

/-- Two documents that differ only below those elements. -/
def AgreeOutside (doc doc' : List Node) : Prop := pruneAll skip doc = pruneAll skip doc'

mutual

/-- The number of outermost such elements at or below a node. -/
def skippedIn : Node → Nat
  | .text _ => 0
  | .elem name _ cs => if skip name then 1 else skippedInAll cs
  | .other cs => skippedInAll cs

def skippedInAll : List Node → Nat
  | [] => 0
  | c :: cs => skippedIn c + skippedInAll cs

end

end Edit

section Laws

variable {skip : Text → Bool} {f : List Node → List Node}

theorem editAll_eq_map (cs : List Node) : editAll skip f cs = cs.map (edit skip f) := by
  induction cs with
  | nil => rfl
  | cons c cs ih => rw [editAll, ih, List.map_cons]

@[simp] theorem prune_text (t : Text) : prune skip (.text t) = .text t := rfl
@[simp] theorem prune_elem (name : Text) (attrs : List (Text × Text)) (cs : List Node) :
    prune skip (.elem name attrs cs) = .elem name attrs (if skip name then [] else pruneAll skip cs) := rfl
@[simp] theorem prune_other (cs : List Node) : prune skip (.other cs) = .other (pruneAll skip cs) := rfl
@[simp] theorem pruneAll_cons (c : Node) (cs : List Node) :
    pruneAll skip (c :: cs) = prune skip c :: pruneAll skip cs := rfl

/-- Editing does not change which elements are outermost. -/
theorem skippedIn_edit (n : Node) : skippedIn skip (edit skip f n) = skippedIn skip n := by
  induction n using Node.induct with
  | step n ih =>
      have hall : skippedInAll skip (editAll skip f n.children) = skippedInAll skip n.children := by
        generalize n.children = cs at ih
        induction cs with
        | nil => rfl
        | cons c cs ihcs =>
            have hc := ih c List.mem_cons_self
            have hcs := ihcs fun d hd => ih d (List.mem_cons_of_mem c hd)
            rw [editAll, skippedInAll, skippedInAll, hc, hcs]
      cases n with
      | text t => rfl
      | elem name attrs cs =>
          cases hs : skip name with
          | true => simp [edit, skippedIn, hs]
          | false => simpa [edit, skippedIn, hs] using hall
      | other cs => exact hall

theorem skippedInAll_editAll (cs : List Node) : skippedInAll skip (editAll skip f cs) = skippedInAll skip cs :=
  skippedIn_edit (.other cs)

/-- Where no such element is, an edit changes nothing. -/
theorem edit_eq_self {n : Node} (h : skippedIn skip n = 0) : edit skip f n = n := by
  induction n using Node.induct with
  | step n ih =>
      have hall (h0 : skippedInAll skip n.children = 0) : editAll skip f n.children = n.children := by
        generalize n.children = cs at ih h0
        induction cs with
        | nil => rfl
        | cons c cs ihcs =>
            obtain ⟨hc0, hcs0⟩ := Nat.add_eq_zero_iff.mp h0
            have hc := ih c List.mem_cons_self hc0
            have hcs := ihcs (fun d hd => ih d (List.mem_cons_of_mem c hd)) hcs0
            rw [editAll, hc, hcs]
      cases n with
      | text t => rfl
      | elem name attrs cs =>
          cases hs : skip name with
          | true => simp [skippedIn, hs] at h
          | false =>
              rw [skippedIn, hs] at h
              rw [edit, hs]
              exact congrArg (Node.elem name attrs) (hall h)
      | other cs => exact congrArg Node.other (hall h)

/-- The edit that leaves every list of children as it is. -/
theorem edit_id (n : Node) : edit skip id n = n := by
  induction n using Node.induct with
  | step n ih =>
      have hall : editAll skip id n.children = n.children := by
        rw [editAll_eq_map]
        exact (List.map_congr_left ih).trans (List.map_id' _)
      cases n with
      | text t => rfl
      | elem name attrs cs =>
          rw [edit]
          split
          · rfl
          · exact congrArg (Node.elem name attrs) hall
      | other cs => exact congrArg Node.other hall

theorem editAll_id (cs : List Node) : editAll skip id cs = cs := by
  rw [editAll_eq_map]
  exact (List.map_congr_left fun c _ => edit_id c).trans (List.map_id' _)

/-- An edit is lost when the tree is pruned. -/
theorem prune_edit (n : Node) : prune skip (edit skip f n) = prune skip n := by
  induction n using Node.induct with
  | step n ih =>
      have hall : pruneAll skip (editAll skip f n.children) = pruneAll skip n.children := by
        rw [pruneAll, editAll_eq_map, editAll_eq_map, editAll_eq_map, List.map_map]
        exact List.map_congr_left ih
      cases n with
      | text t => rfl
      | elem name attrs cs =>
          cases hs : skip name with
          | true => simp [prune, edit, hs]
          | false => simpa [prune, pruneAll, edit, hs] using hall
      | other cs => exact congrArg Node.other hall

theorem pruneAll_editAll (cs : List Node) : pruneAll skip (editAll skip f cs) = pruneAll skip cs := by
  have hother : prune skip (edit skip f (.other cs)) = prune skip (.other cs) := prune_edit (.other cs)
  exact Node.other.inj hother

/-- The text of the pruned tree is part of that of the tree. -/
theorem textContent_prune_sublist (n : Node) : (textContent (prune skip n)).Sublist (textContent n) := by
  induction n using Node.induct with
  | step n ih =>
      have hall : (textContents (pruneAll skip n.children)).Sublist (textContents n.children) := by
        generalize n.children = cs at ih
        induction cs with
        | nil => exact List.Sublist.refl _
        | cons c cs ihcs =>
            have hc := ih c List.mem_cons_self
            have hcs := ihcs fun d hd => ih d (List.mem_cons_of_mem c hd)
            exact hc.append hcs
      cases n with
      | text t => exact List.Sublist.refl _
      | elem name attrs cs =>
          rw [prune, edit]
          cases skip name with
          | true => exact List.nil_sublist _
          | false => exact hall
      | other cs => exact hall

theorem textContents_pruneAll_sublist (cs : List Node) :
    (textContents (pruneAll skip cs)).Sublist (textContents cs) := textContent_prune_sublist (.other cs)

end Laws

end Dom
