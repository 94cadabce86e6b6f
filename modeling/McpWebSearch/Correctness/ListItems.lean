import McpWebSearch.Correctness.Parts

/-!
# `Correctness.ListItems` — the lines of list items

A list item is marked with its indentation and its bullet or number, and again no arm makes sure that the line begins
there. What becomes of one item is followed with `place`, operation by operation: whether its marker comes when the line
is new, and whether anything but white space comes after it, so that the marker is not trimmed at the end of the page.
Part by part it depends on what the parts leave on the line (`reached_opsAll`). `list_items_iff`: each item of a list
outside of quotations and preformatted blocks begins a line of the output with its marker exactly if it is `OnOwnLine`.
-/

namespace McpWebSearch
namespace Scrape

open Utf8 Dom Traced Scanner

/-! ## The items of a page -/

mutual

/-- The `li` elements with a list as their parent, outside of block quotations and preformatted blocks. -/
def listItems (x : Spot) : Node → List Item
  | .text _ => []
  | .other cs => listItemsAll x 0 1 cs
  | .elem name _ cs =>
      if oneOf name ["blockquote", "pre"] then []
      else
        (match x.list with
          | some .ul => if oneOf name ["li"] then [x.item none name] else []
          | some .ol => if oneOf name ["li"] then [x.item (some x.number) name] else []
          | none => []) ++ listItemsAll (x.inside name) 0 1 cs

def listItemsAll (x : Spot) (i number : Nat) : List Node → List Item
  | [] => []
  | c :: cs => listItems (x.child i number) c ++ listItemsAll x (i + 1) (number + elementCount c) cs

end

/-- The items of a document. -/
def pageItems (doc : List Node) : List Item := listItemsAll Spot.root 0 1 doc

/-- A line of the output begins with the indentation and the marker of an item. -/
def BeginsLine (out : Buffer) (it : Item) : Prop :=
  ∃ before after, out = before ++ ofText (.item it) it.marker ++ after ∧
    ∀ x, before.getLast? = some x → x.1 = '\n'

/-- The line is new, or nothing was seen yet and the item has no indentation, which would be trimmed. -/
def BeginsAt (it : Item) (before : List Part) : Prop :=
  (∀ t ∈ onLine (started before), t.inks = false) ∧ (started before = [] → it.depth ≤ 1)

/-- The item comes, among the parts of the page, after one that ends the line and none since that leaves something on it.
    Something is seen after it. -/
def OnOwnLine (doc : List Node) (it : Item) : Prop :=
  ∃ before after, pageParts doc = before ++ .item it :: after ∧ BeginsAt it before ∧ after.any Part.shows = true

/-! ## What the walk does about an item -/

/-- How far the walk is with an item. -/
inductive Progress
  | opening       -- nothing but white space is written
  | fresh         -- a line begins
  | within        -- a line has begun
  | marked        -- a line was begun with the marker, nothing but white space is written after it
  | followed      -- something was written after the marker
  deriving DecidableEq

namespace Progress

def next : Progress → Char → Progress
  | .opening, c => if isWhitespace c then .opening else .within
  | .fresh, c => if c = '\n' then .fresh else .within
  | .within, c => if c = '\n' then .fresh else .within
  | .marked, c => if isWhitespace c then .marked else .followed
  | .followed, _ => .followed

def write (s : Progress) (t : Text) : Progress := t.foldl next s

/-- The marker of the item. At the opening an indentation would be trimmed. -/
def mark (it : Item) (s : Progress) : Progress :=
  if s = .fresh ∨ (s = .opening ∧ it.depth ≤ 1) then .marked else s.write it.marker

/-- A quotation that is not empty: its lines begin with its marks. -/
def quote : Progress → Progress
  | .opening | .fresh | .within => .fresh
  | .marked | .followed => .followed

end Progress

def Writing.isItem (it : Item) : Writing → Bool
  | .item it' => it' = it
  | .plain _ | .marker _ | .text _ _ | .pre _ => false

def place (it : Item) (s : Progress) : Op → Progress
  | .put w => if w.isItem it then s.mark it else s.write (erase w.traced)
  | .endLine => s.next '\n'
  | .quote body => if body.any Op.writes then s.quote else s.next '\n'

/-- The marker of the item is written when a line begins, and more is written later. -/
def Placed (doc : List Node) (it : Item) : Prop := (pageLayout doc).foldl (place it) .opening = .followed

instance (doc : List Node) (it : Item) : Decidable (Placed doc it) := inferInstanceAs (Decidable (_ = _))

/-! ## The reader of an item -/

/-- The marker of an item as it is written. -/
def Item.traced (it : Item) : Buffer := ofText (.item it) it.marker

theorem traced_ne_nil (it : Item) : it.traced ≠ [] := by
  unfold Item.traced ofText
  rw [ne_eq, List.map_eq_nil_iff]
  exact marker_ne_nil it

theorem mem_traced {it : Item} {x : Char × Origin} (hx : x ∈ it.traced) :
    x.2 = .item it ∧ (x.1 = ' ' ∨ blank x = false) := by
  obtain ⟨d, hd, rfl⟩ := List.mem_map.mp hx
  exact ⟨rfl, mem_marker hd⟩

theorem isNewline_traced {it : Item} : ∀ x ∈ it.traced, isNewline x = false := by
  intro x hx
  have hne : x.1 ≠ '\n' := by
    intro hnl
    rcases (mem_traced hx).2 with hspace | hblank
    · rw [hnl] at hspace
      cases hspace
    · rw [blank, hnl] at hblank
      cases hblank
  exact beq_eq_false_iff_ne.mpr hne

/-- The state in a line that begins with the mark of a quotation. -/
def afterMark : Seek.State → Seek.State
  | .complete | .found => .found
  | .opening | .reading _ | .elsewhere => .elsewhere

def itemReader (it : Item) : Scanner Seek.State where
  step := Seek.step isNewline blank it.traced
  start := .opening
  inner := .elsewhere
  quote s _ := (afterMark s).newLine

theorem itemStep_newline (it : Item) (s : Seek.State) (o : Origin) : (itemReader it).step s ('\n', o) = s.newLine := by
  have hblank : isWhitespace '\n' = true := by decide
  exact Seek.step_newline (x := ('\n', o)) (rfl : isNewline ('\n', o) = true) hblank s

theorem getElem?_traced_ne {it : Item} {x : Char × Origin} (hx : x.2 ≠ .item it ∨ x.1 = '\r') (n : Nat) :
    it.traced[n]? ≠ some x := by
  intro h
  obtain ⟨horigin, hchar⟩ := mem_traced (List.mem_of_getElem? h)
  rcases hx with hx | hx
  · exact hx horigin
  · rcases hchar with hspace | hblank
    · rw [hx] at hspace
      cases hspace
    · rw [blank, hx] at hblank
      cases hblank

theorem advance_other {it : Item} {n : Nat} {x : Char × Origin} (hx : it.traced[n]? ≠ some x) :
    Seek.advance isNewline it.traced n x = if x.1 = '\n' then .reading 0 else .elsewhere := by
  rw [Seek.advance, if_neg hx, isNewline]
  simp only [beq_iff_eq]

theorem itemStep_return (it : Item) (s : Seek.State) (o : Origin) :
    ((itemReader it).step s ('\r', o)).newLine = s.newLine := by
  have hadvance (n : Nat) : Seek.advance isNewline it.traced n ('\r', o) = .elsewhere := by
    rw [advance_other (getElem?_traced_ne (.inr rfl) n), if_neg (by decide : ('\r' : Char) ≠ '\n')]
  cases s with
  | opening => rfl
  | reading n =>
      show (Seek.advance isNewline it.traced n ('\r', o)).newLine = _
      rw [hadvance n]
      rfl
  | elsewhere => rfl
  | complete => rfl
  | found => rfl

theorem newLine_newLine (s : Seek.State) : s.newLine.newLine = s.newLine := by cases s <;> rfl
theorem afterMark_newLine (s : Seek.State) : afterMark (afterMark s).newLine = afterMark s := by cases s <;> rfl

theorem itemRead_mark (it : Item) (first : Bool) (s : Seek.State) :
    (itemReader it).read (quoteMark first) s = afterMark s := by
  have hadvance (n : Nat) : Seek.advance isNewline it.traced n ('>', .quote first) = .elsewhere := by
    rw [advance_other (getElem?_traced_ne (.inl Origin.noConfusion) n), if_neg (by decide : ('>' : Char) ≠ '\n')]
  cases s with
  | opening =>
      show (itemReader it).step (Seek.advance isNewline it.traced 0 ('>', .quote first)) _ = _
      rw [hadvance 0]
      rfl
  | reading n =>
      show (itemReader it).step (Seek.advance isNewline it.traced n ('>', .quote first)) _ = _
      rw [hadvance n]
      rfl
  | elsewhere => rfl
  | complete => rfl
  | found => rfl

theorem itemStep_afterMark (it : Item) (s : Seek.State) (x : Char × Origin) :
    (itemReader it).step (afterMark s) x = if x.1 == '\n' then (afterMark s).newLine else afterMark s := by
  cases s with
  | complete => exact (ite_self _).symm
  | found => exact (ite_self _).symm
  | opening => rfl
  | reading n => rfl
  | elsewhere => rfl

/-- No line of a quotation begins with the marker. -/
theorem itemReader_lawful (it : Item) : (itemReader it).Lawful := by
  apply Lawful.of_related (R := fun s start outer _ => outer = if start then (afterMark s).newLine else afterMark s)
  · intro s o o'
    rw [itemStep_newline, itemStep_newline, newLine_newLine]
  · intro s o o'
    rw [itemStep_newline, itemStep_newline, itemStep_return]
  · intro s x
    rw [itemRead_mark, itemStep_afterMark]
  · rintro s start outer inner x rfl
    cases start with
    | false => exact itemStep_afterMark it s x
    | true =>
        rw [if_pos rfl, if_pos rfl, itemRead_mark, afterMark_newLine]
        exact itemStep_afterMark it s x
  · rintro s start outer inner rfl
    rw [newline, itemStep_newline]
    cases start with
    | false => rfl
    | true => exact newLine_newLine _

/-! ## The reader over the operations -/

/-- The state of the reader between two operations. -/
def Progress.state : Progress → Seek.State
  | .opening => .opening
  | .fresh => .reading 0
  | .within => .elsewhere
  | .marked => .complete
  | .followed => .found

theorem state_newLine (s : Progress) : s.state.newLine = (s.next '\n').state := by cases s <;> rfl

theorem state_quote (s : Progress) : (afterMark s.state).newLine = s.quote.state := by cases s <;> rfl

/-- A character that is not the first of the marker. -/
theorem itemStep_state {it : Item} {s : Progress} {x : Char × Origin}
    (hx : s = .opening ∨ s = .fresh → it.traced[0]? ≠ some x) :
    (itemReader it).step s.state x = (s.next x.1).state := by
  cases s with
  | opening =>
      show (if isWhitespace x.1 = true then Seek.State.opening else Seek.advance isNewline it.traced 0 x) = _
      rw [advance_other (hx (.inl rfl)), Progress.next]
      by_cases hblank : isWhitespace x.1 = true
      · rw [if_pos hblank, if_pos hblank]
        rfl
      · have hnl : x.1 ≠ '\n' := by
          intro hnl
          rw [hnl] at hblank
          exact hblank (by decide)
        rw [if_neg hblank, if_neg hblank, if_neg hnl]
        rfl
  | fresh =>
      show Seek.advance isNewline it.traced 0 x = _
      rw [advance_other (hx (.inr rfl)), Progress.next]
      split <;> rfl
  | within =>
      show (if isNewline x = true then Seek.State.reading 0 else .elsewhere) = _
      rw [isNewline, Progress.next]
      simp only [beq_iff_eq]
      split <;> rfl
  | marked =>
      show (if blank x = true then Seek.State.complete else .found) = _
      rw [Progress.next, blank]
      split <;> rfl
  | followed => rfl

/-- What is not written for the item. -/
theorem read_other {it : Item} {b : Buffer} (hb : ∀ x ∈ b, x.2 ≠ .item it) (s : Progress) :
    (itemReader it).read b s.state = (s.write (erase b)).state := by
  induction b generalizing s with
  | nil => rfl
  | cons x b ih =>
      rw [read_cons, itemStep_state fun _ => getElem?_traced_ne (.inl (hb x List.mem_cons_self)) 0]
      exact ih (fun y hy => hb y (List.mem_cons_of_mem x hy)) (s.next x.1)

/-- A text within one line, when the line has begun. -/
theorem read_within {it : Item} {b : Buffer} (hb : ∀ x ∈ b, isNewline x = false) {s : Progress}
    (hs : s ≠ .opening ∧ s ≠ .fresh) : (itemReader it).read b s.state = (s.write (erase b)).state := by
  induction b generalizing s with
  | nil => rfl
  | cons x b ih =>
      have hnl : x.1 ≠ '\n' := beq_eq_false_iff_ne.mp (hb x List.mem_cons_self)
      have hnext : s.next x.1 ≠ .opening ∧ s.next x.1 ≠ .fresh := by
        cases s with
        | opening => exact absurd rfl hs.1
        | fresh => exact absurd rfl hs.2
        | within =>
            rw [Progress.next, if_neg hnl]
            exact ⟨Progress.noConfusion, Progress.noConfusion⟩
        | marked =>
            rw [Progress.next]
            split <;> exact ⟨Progress.noConfusion, Progress.noConfusion⟩
        | followed => exact ⟨Progress.noConfusion, Progress.noConfusion⟩
      rw [read_cons, itemStep_state fun h => absurd h (not_or.mpr hs)]
      exact ih (fun y hy => hb y (List.mem_cons_of_mem x hy)) hnext

theorem read_indentation (it : Item) (o : Origin) (n : Nat) :
    (itemReader it).read (ofText o (List.replicate n ' ')) .opening = .opening ∧
      Progress.opening.write (List.replicate n ' ') = .opening := by
  induction n with
  | zero => exact ⟨rfl, rfl⟩
  | succ n ih => exact ih

theorem read_pattern (it : Item) : (itemReader it).read it.traced (.reading 0) = .complete :=
  Seek.foldl_pattern (traced_ne_nil it) isNewline_traced

/-- A marker without indentation is read at the opening, since its first character is no white space. -/
theorem read_unindented {it : Item} (hdepth : it.depth ≤ 1) : (itemReader it).read it.traced .opening = .complete := by
  obtain ⟨c, rest, hmarker, hc, -⟩ := exists_marker it
  have htraced : it.traced = (c, .item it) :: ofText (.item it) rest := by
    rw [Item.traced, hmarker, Nat.sub_eq_zero_of_le hdepth]
    rfl
  have hfirst : (itemReader it).step .opening (c, .item it) = (itemReader it).step (.reading 0) (c, .item it) := by
    show (if isWhitespace c = true then _ else _) = _
    rw [hc]
    rfl
  have hpattern := read_pattern it
  rw [htraced, read_cons] at hpattern ⊢
  rwa [← hfirst] at hpattern

/-- At the opening an indentation is passed over, and the rest is not the marker. -/
theorem read_indented {it : Item} (hdepth : 1 < it.depth) :
    (itemReader it).read it.traced .opening = (Progress.opening.write it.marker).state := by
  obtain ⟨c, rest, hmarker, hc, -⟩ := exists_marker it
  obtain ⟨hread, hwrite⟩ := read_indentation it (.item it) (2 * (it.depth - 1))
  have htraced : it.traced =
      ofText (.item it) (List.replicate (2 * (it.depth - 1)) ' ') ++ (c, .item it) :: ofText (.item it) rest := by
    rw [Item.traced, hmarker, ofText_append]
    rfl
  have hhead : it.traced[0]? ≠ some (c, .item it) := by
    obtain ⟨n, hn⟩ : ∃ n, 2 * (it.depth - 1) = n + 1 := ⟨2 * (it.depth - 1) - 1, by omega⟩
    rw [htraced, hn]
    intro h
    obtain rfl : ' ' = c := congrArg Prod.fst (Option.some.inj h)
    cases hc
  have hnext : Progress.opening.next c = .within := by
    rw [Progress.next, hc]
    rfl
  have hstep : (itemReader it).step .opening (c, .item it) = Progress.within.state := by
    rw [← hnext]
    exact itemStep_state (s := .opening) fun _ => hhead
  have hrest : ∀ x ∈ ofText (Origin.item it) rest, isNewline x = false := by
    intro x hx
    apply isNewline_traced x
    rw [htraced]
    exact List.mem_append_right _ (List.mem_cons_of_mem _ hx)
  have hwithin : Progress.opening.write it.marker = Progress.within.write rest := by
    rw [hmarker, Progress.write, List.foldl_append]
    show (Progress.opening.write (List.replicate (2 * (it.depth - 1)) ' ')).write (c :: rest) = _
    rw [hwrite, ← hnext]
    rfl
  rw [htraced, read_append, hread, read_cons, hstep, hwithin,
    read_within hrest ⟨Progress.noConfusion, Progress.noConfusion⟩, erase_ofText]

/-- The marker of the item. -/
theorem read_marker (it : Item) (s : Progress) : (itemReader it).read it.traced s.state = (s.mark it).state := by
  have hbegun (hs : s ≠ .opening ∧ s ≠ .fresh) : (itemReader it).read it.traced s.state = (s.write it.marker).state := by
    have herase : erase it.traced = it.marker := erase_ofText _ _
    rw [← herase]
    exact read_within isNewline_traced hs
  rw [Progress.mark]
  split
  · rename_i hs
    rcases hs with rfl | ⟨rfl, hdepth⟩
    · exact read_pattern it
    · exact read_unindented hdepth
  · rename_i hs
    cases s with
    | fresh => exact absurd (.inl rfl) hs
    | opening =>
        apply read_indented
        by_contra hdepth
        exact hs (.inr ⟨rfl, Nat.not_lt.mp hdepth⟩)
    | within => exact hbegun ⟨Progress.noConfusion, Progress.noConfusion⟩
    | marked => exact hbegun ⟨Progress.noConfusion, Progress.noConfusion⟩
    | followed => exact hbegun ⟨Progress.noConfusion, Progress.noConfusion⟩

/-- Only the marker of an item is written for it. -/
theorem origin_traced {it : Item} {w : Writing} (hw : w.isItem it = false) : ∀ x ∈ w.traced, x.2 ≠ .item it := by
  intro x hx
  cases w with
  | plain t =>
      rw [origin_of_mem_ofText hx]
      exact Origin.noConfusion
  | marker t =>
      cases t with
      | nil => cases hx
      | cons c t =>
          rcases List.mem_cons.mp hx with rfl | hx
          · exact Origin.noConfusion
          · rw [origin_of_mem_ofText hx]
            exact Origin.noConfusion
  | item it' =>
      rw [origin_of_mem_ofText hx]
      rintro h
      exact of_decide_eq_false hw (Origin.item.inj h)
  | text node t =>
      rw [origin_of_mem_ofText hx]
      exact Origin.noConfusion
  | pre p =>
      rcases List.mem_cons.mp hx with rfl | hx
      · exact Origin.noConfusion
      · rcases origin_fenced hx with horigin | ⟨node, horigin⟩
        · rw [horigin]
          exact Origin.noConfusion
        · rw [horigin]
          exact Origin.noConfusion

/-- **The reader goes over the operations as `place` does.** -/
theorem scan_place (it : Item) (op : Op) (s : Progress) : (itemReader it).scan op s.state = (place it s op).state := by
  cases op with
  | put w =>
      rw [scan, place]
      cases hw : w.isItem it with
      | true =>
          cases w with
          | item it' =>
              obtain rfl : it' = it := of_decide_eq_true hw
              exact read_marker it' s
          | plain t => cases hw
          | marker t => cases hw
          | text node t => cases hw
          | pre p => cases hw
      | false => exact read_other (origin_traced hw) s
  | endLine =>
      rw [scan, place, newline, itemStep_newline]
      exact state_newLine s
  | quote body =>
      rw [scan, place]
      split
      · exact state_quote s
      · rw [newline, itemStep_newline]
        exact state_newLine s

theorem scanAll_place (it : Item) (ops : List Op) (s : Progress) :
    (itemReader it).scanAll ops s.state = (ops.foldl (place it) s).state := by
  induction ops generalizing s with
  | nil => rfl
  | cons op ops ih =>
      rw [scanAll, scan_place, List.foldl_cons]
      exact ih (place it s op)

theorem state_eq_found_iff (s : Progress) : s.state = .found ↔ s = .followed := by
  cases s <;> simp [Progress.state]

/-! ## The lines of the output -/

/-- The marker of an item is followed by something: a trimmed text does not end with a space. -/
theorem beginsLine_iff_found (doc : List Node) (it : Item) :
    BeginsLine (output doc) it ↔ Seek.Found isNewline blank it.traced (output doc) := by
  have hline (a : Buffer) : Seek.line isNewline a = [] ↔ ∀ x, a.getLast? = some x → x.1 = '\n' := by
    rw [Seek.line_eq_nil_iff]
    simp only [isNewline, beq_iff_eq]
  constructor
  · rintro ⟨before, after, hout, hbefore⟩
    refine ⟨before, after, hout, (hline before).mpr hbefore, ?_⟩
    have hlast : it.traced.getLast? = some (' ', .item it) := by
      rw [Item.traced, ofText, List.getLast?_map, getLast?_marker]
      rfl
    rcases List.eq_nil_or_concat after with rfl | ⟨init, z, rfl⟩
    · have hend : (output doc).getLast? = some (' ', .item it) := by
        rw [hout, List.append_nil, List.getLast?_append, ← Item.traced, hlast]
        rfl
      have hspace : isWhitespace ' ' = false := getLast?_trim hend
      exact absurd hspace (by decide)
    · rw [List.concat_eq_append] at hout ⊢
      refine ⟨z, by simp, getLast?_trim (b := squeezeBuffer 0 (runAll (pageLayout doc) [])) ?_⟩
      rw [← output, hout, ← List.append_assoc, List.getLast?_concat]
  · rintro ⟨before, after, hout, hbefore, -⟩
    exact ⟨before, after, hout, (hline before).mp hbefore⟩

theorem placed_iff_beginsLine (doc : List Node) (it : Item) : BeginsLine (output doc) it ↔ Placed doc it := by
  have hhead (x : Char × Origin) (hx : (output doc).head? = some x) : blank x = false := head_trim hx
  have hfound := Seek.foldl_eq_found_iff (traced_ne_nil it) isNewline_traced hhead
  have haccept : (itemReader it).scanAll (pageLayout doc) Seek.State.opening = .found ↔
      (itemReader it).read (output doc) Seek.State.opening = .found := by
    apply accept_output (itemReader_lawful it) (fun s => s = Seek.State.found)
    · intro x hx
      exact if_pos hx
    · intro s x hx
      exact Seek.step_eq_found_iff hx s
  rw [beginsLine_iff_found, ← hfound]
  show (itemReader it).read (output doc) Seek.State.opening = .found ↔ _
  rw [← haccept, Placed, ← state_eq_found_iff, ← scanAll_place]
  rfl

/-! ## Where the walk is, by the parts before -/

namespace Progress

/-- After a text of a shape. -/
def pass (s : Progress) (r : Shape) : Progress :=
  match s with
  | .opening => if r.shows then (if r.ends then .fresh else .within) else .opening
  | .fresh => if r.ends then .fresh else if r.inks then .within else .fresh
  | .within => if r.ends then .fresh else .within
  | .marked => if r.shows then .followed else .marked
  | .followed => .followed

theorem next_pass (s : Progress) (r : Shape) (c : Char) :
    (s.pass r).next c = s.pass ⟨c == '\n', c != '\n', r.shows || !isWhitespace c, r.spaces || isWhitespace c⟩ := by
  by_cases hnl : c = '\n'
  · subst hnl
    have hblank : isWhitespace '\n' = true := by decide
    cases s with
    | opening => cases hshows : r.shows <;> cases hends : r.ends <;> simp [pass, next, hshows, hends, hblank]
    | fresh => cases hends : r.ends <;> cases hinks : r.inks <;> simp [pass, next, hends, hinks]
    | within => cases hends : r.ends <;> simp [pass, next, hends]
    | marked => cases hshows : r.shows <;> simp [pass, next, hshows, hblank]
    | followed => rfl
  · cases s with
    | opening =>
        cases hshows : r.shows <;> cases hends : r.ends <;> cases hblank : isWhitespace c <;>
          simp [pass, next, hshows, hends, hblank, hnl]
    | fresh => cases hends : r.ends <;> cases hinks : r.inks <;> simp [pass, next, hends, hinks, hnl]
    | within => cases hends : r.ends <;> simp [pass, next, hends, hnl]
    | marked => cases hshows : r.shows <;> cases hblank : isWhitespace c <;> simp [pass, next, hshows, hblank]
    | followed => rfl

/-- Of a text the walk's position needs no more than the shape. -/
theorem write_eq_pass (s : Progress) (t : Text) : s.write t = s.pass (shape t) := by
  induction t using List.reverseRecOn with
  | nil => cases s <;> rfl
  | append_singleton t c ih =>
      have hconcat : s.write (t ++ [c]) = (s.write t).next c := List.foldl_append
      rw [hconcat, ih, shape_concat]
      exact next_pass s (shape t) c

end Progress

def Op.isItem (it : Item) : Op → Bool
  | .put w => w.isItem it
  | .endLine | .quote _ => false

theorem any_isItem_ops {it : Item} {x : Part} (hx : x ≠ .item it) : x.ops.any (Op.isItem it) = false := by
  cases x with
  | item it' =>
      have hne : it' ≠ it := fun h => hx (congrArg Part.item h)
      show (decide (it' = it) || false) = false
      rw [decide_eq_false hne, Bool.false_or]
  | start name attrs =>
      rw [Part.ops]
      split <;> rfl
  | stop name attrs =>
      rw [Part.ops]
      split <;> rfl
  | void name attrs =>
      rw [Part.ops]
      split
      · split <;> rfl
      · rfl
  | _ => rfl

/-- The marker of the item itself is looked for. -/
theorem place_item (it : Item) (s : Progress) : (Part.item it).ops.foldl (place it) s = s.mark it :=
  if_pos (decide_eq_true rfl)

/-- **Of a part the walk's position needs no more than the shape**, but for the item itself. -/
theorem place_ops {it : Item} {x : Part} (hx : x ≠ .item it) (s : Progress) : x.ops.foldl (place it) s = s.pass x.shape := by
  have hplain {ops : List Op} (hquote : ops.any Op.isQuote = false) (hitem : ops.any (Op.isItem it) = false)
      (s : Progress) : ops.foldl (place it) s = s.write (erase (ops.flatMap Op.traced)) := by
    induction ops generalizing s with
    | nil => rfl
    | cons op ops ih =>
        rw [List.any_cons, Bool.or_eq_false_iff] at hquote hitem
        have hop : place it s op = s.write (erase op.traced) := by
          cases op with
          | put w =>
              have hw : w.isItem it = false := hitem.1
              rw [place, hw]
              rfl
          | endLine => rfl
          | quote body => cases hquote.1
        rw [List.foldl_cons, ih hquote.2 hitem.2, hop, List.flatMap_cons, erase_append]
        exact List.foldl_append.symm
  cases hquote : x.isQuote with
  | false =>
      rw [hplain ((any_isQuote_ops x).trans hquote) (any_isItem_ops hx), Progress.write_eq_pass]
      exact congrArg s.pass (shape_traced hquote)
  | true =>
      cases x with
      | quote body =>
          show place it s (.quote (opsAll body)) = s.pass ⟨true, false, body.any Part.writes, true⟩
          rw [place, any_writes_opsAll]
          cases body.any Part.writes <;> cases s <;> rfl
      | _ => cases hquote

/-- Where the walk is on the line, if it has not come to the item. -/
def lineProgress (ts : List Part) : Progress :=
  if started ts = [] then .opening else if (onLine (started ts)).all (!·.inks) then .fresh else .within

theorem lineProgress_concat (ts : List Part) (x : Part) : (lineProgress ts).pass x.shape = lineProgress (ts ++ [x]) := by
  unfold lineProgress
  by_cases hts : started ts = []
  · rw [if_pos hts, started_first hts]
    show (if x.shows then (if x.ends then Progress.fresh else .within) else .opening) = _
    cases hshows : x.shows with
    | false => rfl
    | true =>
        have hwrites := writes_of_shows hshows
        have hline : onLine [x] = if x.ends then [] else [x] := onLine_concat [] x
        rw [if_pos rfl, if_pos rfl, if_neg (List.cons_ne_nil x []), hline]
        cases hends : x.ends with
        | true => rfl
        | false =>
            rw [Part.writes, hends, Bool.false_or] at hwrites
            simp [hwrites]
  · rw [if_neg hts, started_concat hts, if_neg (List.append_ne_nil_of_left_ne_nil hts [x]), onLine_concat]
    cases hends : x.ends with
    | true => cases (onLine (started ts)).all (!·.inks) <;> simp [Progress.pass, Part.shape, hends]
    | false =>
        have hall : (onLine (started ts) ++ [x]).all (!·.inks) = ((onLine (started ts)).all (!·.inks) && !x.inks) := by
          rw [List.all_append, List.all_cons, List.all_nil, Bool.and_true]
        rw [if_neg Bool.false_ne_true, hall]
        cases (onLine (started ts)).all (!·.inks) <;> cases hinks : x.inks <;>
          simp [Progress.pass, Part.shape, hends, hinks]

/-- Nothing is on the line. -/
theorem newLine_iff (ts : List Part) :
    lineProgress ts = .opening ∨ lineProgress ts = .fresh ↔ ∀ t ∈ onLine (started ts), t.inks = false := by
  have hall : (onLine (started ts)).all (!·.inks) = true ↔ ∀ t ∈ onLine (started ts), t.inks = false := by
    simp
  rw [← hall, lineProgress]
  by_cases hts : started ts = []
  · rw [if_pos hts, hts]
    exact iff_of_true (.inl rfl) rfl
  · rw [if_neg hts]
    cases (onLine (started ts)).all (!·.inks) <;> simp

theorem opening_iff (ts : List Part) : lineProgress ts = .opening ↔ started ts = [] := by
  unfold lineProgress
  by_cases hts : started ts = []
  · rw [if_pos hts]
    exact iff_of_true rfl hts
  · rw [if_neg hts]
    refine iff_of_false ?_ hts
    split <;> exact Progress.noConfusion

theorem beginsAt_iff (it : Item) (ts : List Part) :
    BeginsAt it ts ↔ lineProgress ts = .fresh ∨ (lineProgress ts = .opening ∧ it.depth ≤ 1) := by
  rw [BeginsAt, ← newLine_iff, ← opening_iff]
  cases lineProgress ts <;> simp

/-- The item came when a line began. -/
def Marked (it : Item) (ts : List Part) : Prop := ∃ before after, ts = before ++ .item it :: after ∧ BeginsAt it before

/-- And something is seen after it. -/
def Followed (it : Item) (ts : List Part) : Prop :=
  ∃ before after, ts = before ++ .item it :: after ∧ BeginsAt it before ∧ after.any Part.shows = true

theorem marked_concat (it : Item) (ts : List Part) (x : Part) :
    Marked it (ts ++ [x]) ↔ Marked it ts ∨ (x = .item it ∧ BeginsAt it ts) := by
  have hmarked (us : List Part) :
      Marked it us ↔ ∃ before d after, us = before ++ d :: after ∧ d = .item it ∧ BeginsAt it before := by
    constructor
    · rintro ⟨before, after, hus, hbegins⟩
      exact ⟨before, _, after, hus, rfl, hbegins⟩
    · rintro ⟨before, d, after, hus, rfl, hbegins⟩
      exact ⟨before, after, hus, hbegins⟩
  rw [hmarked, hmarked, History.exists_snoc]

theorem followed_concat (it : Item) (ts : List Part) (x : Part) :
    Followed it (ts ++ [x]) ↔ Followed it ts ∨ (Marked it ts ∧ x.shows = true) := by
  constructor
  · rintro ⟨before, after, hts, hbegins, hshows⟩
    rcases List.eq_nil_or_concat after with rfl | ⟨after, y, rfl⟩
    · cases hshows
    · rw [List.concat_eq_append] at hts hshows
      rw [← List.cons_append, ← List.append_assoc] at hts
      obtain ⟨rfl, hx⟩ := List.append_inj' hts rfl
      rw [List.any_append, Bool.or_eq_true, ← List.singleton_inj.mp hx] at hshows
      rcases hshows with hshows | hshows
      · exact .inl ⟨before, after, rfl, hbegins, hshows⟩
      · exact .inr ⟨⟨before, after, rfl, hbegins⟩, by simpa using hshows⟩
  · rintro (⟨before, after, rfl, hbegins, hshows⟩ | ⟨⟨before, after, rfl, hbegins⟩, hshows⟩)
    · refine ⟨before, after ++ [x], by rw [List.append_assoc, List.cons_append], hbegins, ?_⟩
      rw [List.any_append, hshows, Bool.true_or]
    · refine ⟨before, after ++ [x], by rw [List.append_assoc, List.cons_append], hbegins, ?_⟩
      rw [List.any_append, List.any_cons, hshows, Bool.true_or, Bool.or_true]

/-- How far the walk is after some parts. -/
structure Reached (it : Item) (ts : List Part) (s : Progress) : Prop where
  before : ¬ Marked it ts → s = lineProgress ts
  marked : Marked it ts → s = .marked ∨ s = .followed
  followed : s = .followed ↔ Followed it ts

/-- What a part does to the position. -/
theorem Reached.concat {it : Item} {ts : List Part} {s : Progress} (h : Reached it ts s) (x : Part) :
    Reached it (ts ++ [x]) (x.ops.foldl (place it) s) := by
  by_cases hmarked : Marked it ts
  · -- the marker stands, and what is seen follows it
    have hstate : x.ops.foldl (place it) s = if s = .followed ∨ x.shows = true then .followed else .marked := by
      by_cases hx : x = .item it
      · have hfollowed : s.mark it = .followed := by
          have hwrite : s.write it.marker = .followed := by
            rw [Progress.write_eq_pass, shape_marker]
            rcases h.marked hmarked with rfl | rfl <;> rfl
          rw [← hwrite, Progress.mark, if_neg]
          rcases h.marked hmarked with rfl | rfl <;> simp
        rw [if_pos (.inr (by rw [hx]; rfl)), hx, place_item, hfollowed]
      · rw [place_ops hx]
        rcases h.marked hmarked with rfl | rfl <;> cases hshows : x.shows <;> simp [Progress.pass, Part.shape, hshows]
    have hconcat : Marked it (ts ++ [x]) := (marked_concat it ts x).mpr (.inl hmarked)
    refine ⟨fun hnot => absurd hconcat hnot, fun _ => ?_, ?_⟩
    · rw [hstate]
      split
      · exact .inr rfl
      · exact .inl rfl
    · have hor : s = .followed ∨ (Marked it ts ∧ x.shows = true) ↔ s = .followed ∨ x.shows = true := by simp [hmarked]
      rw [hstate, followed_concat, ← h.followed, hor]
      split <;> simp [*]
  · have hnot : ¬ Followed it ts := fun ⟨before, after, hts, hbegins, _⟩ => hmarked ⟨before, after, hts, hbegins⟩
    have hs := h.before hmarked
    have hfollowed : ¬ Followed it (ts ++ [x]) := by
      rw [followed_concat]
      simp [hnot, hmarked]
    by_cases hx : x = .item it ∧ BeginsAt it ts
    · have hop : x.ops.foldl (place it) s = .marked := by
        rw [hx.1, place_item, Progress.mark, if_pos]
        rw [hs]
        exact (beginsAt_iff it ts).mp hx.2
      rw [hop]
      have hconcat : Marked it (ts ++ [x]) := (marked_concat it ts x).mpr (.inr hx)
      exact ⟨fun hne => absurd hconcat hne, fun _ => .inl rfl, iff_of_false Progress.noConfusion hfollowed⟩
    · have hop : x.ops.foldl (place it) s = lineProgress (ts ++ [x]) := by
        rw [← lineProgress_concat, ← hs]
        by_cases hitem : x = .item it
        · have hnew : ¬ BeginsAt it ts := fun hbegins => hx ⟨hitem, hbegins⟩
          rw [beginsAt_iff, ← hs] at hnew
          rw [hitem, place_item, Progress.mark, if_neg hnew, Progress.write_eq_pass, shape_marker]
          rfl
        · exact place_ops hitem s
      have hconcat : ¬ Marked it (ts ++ [x]) := by
        rw [marked_concat]
        exact not_or.mpr ⟨hmarked, hx⟩
      have hline : lineProgress (ts ++ [x]) ≠ .followed := by
        unfold lineProgress
        split
        · exact Progress.noConfusion
        · split <;> exact Progress.noConfusion
      rw [hop]
      exact ⟨fun _ => rfl, fun hmark => absurd hmark hconcat, iff_of_false hline hfollowed⟩

theorem reached_opsAll (it : Item) (ts : List Part) : Reached it ts ((opsAll ts).foldl (place it) .opening) := by
  induction ts using List.reverseRecOn with
  | nil =>
      refine ⟨fun _ => rfl, ?_, iff_of_false Progress.noConfusion ?_⟩
      · rintro ⟨before, after, hts, -⟩
        exact absurd hts.symm (List.append_ne_nil_of_right_ne_nil _ (List.cons_ne_nil _ _))
      · rintro ⟨before, after, hts, -⟩
        exact absurd hts.symm (List.append_ne_nil_of_right_ne_nil _ (List.cons_ne_nil _ _))
  | append_singleton ts x ih =>
      rw [opsAll_append, opsAll_singleton, List.foldl_append]
      exact ih.concat x

theorem placed_iff_onOwnLine (doc : List Node) (it : Item) : Placed doc it ↔ OnOwnLine doc it := by
  rw [Placed, pageLayout_eq_opsAll]
  exact (reached_opsAll it (pageParts doc)).followed

/-- **Every list item begins a line with its indentation and its marker, exactly if it comes where a line is new**: after
    a part that ends the line, with nothing since that leaves something on it, and before something that is seen. -/
theorem list_items_iff (doc : List Node) :
    domToMarkdownDoc reference doc = .ok (erase (output doc)) ∧
      ((∀ it ∈ pageItems doc, BeginsLine (output doc) it) ↔ ∀ it ∈ pageItems doc, OnOwnLine doc it) := by
  refine ⟨domToMarkdownDoc_eq_output doc, forall₂_congr fun it _ => ?_⟩
  rw [placed_iff_beginsLine, placed_iff_onOwnLine]

/-- A list in an item with text. -/
def nestedList : List Node :=
  [.elem "ul" [] [.elem "li" [] [.text "A", .elem "ul" [] [.elem "li" [] [.text "B"]]]]]

theorem nested_item_glued :
    domToMarkdownDoc reference nestedList = .ok "- A  - B" ∧
      ¬ ∀ it ∈ pageItems nestedList, BeginsLine (output nestedList) it := by
  constructor
  · decide
  · simp only [placed_iff_beginsLine]
    decide

end Scrape
end McpWebSearch
