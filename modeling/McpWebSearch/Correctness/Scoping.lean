import McpWebSearch.Correctness.Cleanup

/-!
# `Correctness.Scoping` — what the markdown walk does to its buffer and its list depth

A walk appends to the buffer, and what it appends is a function of the list depth and of whether the buffer ends in a newline
(`Frames`); the list depth is what it was. So the parts of a walk compose, a quotation with a buffer of its own included. The
one thing that can go wrong besides the collapser is a counter at its end (`Fails`): the list depth by as many lists as are
nested, or the number of an item by as many items as a list has. Below that the `u32` walk and the one with unbounded
counters, whose `leave` fails below zero, are the same.
-/

namespace McpWebSearch
namespace Scrape

open Utf8 Dom

/-! ## Counters -/

theorem toNat_add_one_u32 {n : UInt32} (hroom : n.toNat + 1 < UInt32.size) : (n + 1).toNat = n.toNat + 1 := by
  have hone : (1 : UInt32).toNat = 1 := rfl
  rw [UInt32.toNat_add, hone]
  exact Nat.mod_eq_of_lt hroom

theorem toNat_add_one_le_u32 (n : UInt32) : (n + 1).toNat ≤ n.toNat + 1 := by
  have hone : (1 : UInt32).toNat = 1 := rfl
  rw [UInt32.toNat_add, hone]
  exact Nat.mod_le _ _

/-- Back from where counting on led. -/
theorem decU32_add_one {profile : Profile} {n : UInt32} (hroom : profile = .debug → n.toNat + 1 < UInt32.size) :
    decU32 profile (n + 1) = .ok n := by
  have hback : n + 1 - 1 = n := UInt32.add_sub_cancel n 1
  cases profile with
  | debug =>
      have hne : n + 1 ≠ 0 := by
        intro hzero
        have hsucc := toNat_add_one_u32 (hroom rfl)
        rw [hzero] at hsucc
        exact absurd hsucc.symm (Nat.succ_ne_zero _)
      unfold decU32
      dsimp only
      rw [if_neg hne, hback]
  | release =>
      unfold decU32
      dsimp only
      rw [hback]

/-! ## The end of the buffer -/

/-- `md.ends_with('\n')`. -/
def endsInNewline (md : Text) : Bool := md.getLast? == some '\n'

/-- The same after `t` more, from what it was before. -/
def endsAfter (nl : Bool) (t : Text) : Bool := if t.isEmpty then nl else endsInNewline t

theorem endsInNewline_append (s t : Text) : endsInNewline (s ++ t) = endsAfter (endsInNewline s) t := by
  unfold endsAfter
  cases t with
  | nil => rw [List.append_nil]; rfl
  | cons c t =>
      unfold endsInNewline
      rw [List.getLast?_append_of_ne_nil s (List.cons_ne_nil c t)]
      rfl

theorem endsInNewline_iff (md : Text) : endsInNewline md = true ↔ md.getLast? = some '\n' := beq_iff_eq

/-! ## Frames -/

namespace Md32

/-- The state without the width of the counter. -/
def view (st : Md32) : Md := ⟨st.md, st.listDepth.toNat⟩

@[simp] theorem md_push (st : Md32) (t : Text) : (st.push t).md = st.md ++ t := rfl
@[simp] theorem listDepth_push (st : Md32) (t : Text) : (st.push t).listDepth = st.listDepth := rfl
@[simp] theorem view_push (st : Md32) (t : Text) : (st.push t).view = st.view.push t := rfl

theorem push_nil (st : Md32) : st.push [] = st := by
  unfold push
  rw [List.append_nil]

theorem push_push (st : Md32) (s t : Text) : (st.push s).push t = st.push (s ++ t) := by
  unfold push
  rw [List.append_assoc]

theorem view_closeLine (st : Md32) : st.closeLine.view = st.view.closeLine := by
  unfold closeLine Md.closeLine
  show (if st.md.getLast? = some '\n' then st else st.push "\n").view = if st.md.getLast? = some '\n' then _ else _
  split <;> rfl

theorem closeLine_eq (st : Md32) : st.closeLine = st.push (if endsInNewline st.md then [] else "\n") := by
  unfold closeLine
  by_cases hnl : st.md.getLast? = some '\n'
  · rw [if_pos hnl, if_pos ((endsInNewline_iff _).mpr hnl), push_nil]
  · rw [if_neg hnl, if_neg fun h => hnl ((endsInNewline_iff _).mp h)]

end Md32

theorem pushText32_eq (st : Md32) (s : Text) : pushText32 st s = st.push (if s ≠ [] ∧ s ≠ " " then s else []) := by
  unfold pushText32
  split
  · rfl
  · exact (Md32.push_nil st).symm

/-- What is appended, from whether the buffer ends in a newline and from the list depth. -/
abbrev Appended := Bool → UInt32 → Except Panic Text

/-- The action appends `out` to the buffer, and does nothing else. -/
def Frames (act : Md32 → Except Panic Md32) (out : Appended) : Prop :=
  ∀ st, act st = (out (endsInNewline st.md) st.listDepth).map st.push

namespace Frames

variable {act act' : Md32 → Except Panic Md32} {out out' : Appended}

/-- One after the other. -/
theorem bind (h : Frames act out) (h' : Frames act' out') :
    Frames (fun st => act st >>= act')
      (fun nl d => out nl d >>= fun t => out' (endsAfter nl t) d >>= fun u => pure (t ++ u)) := by
  intro st
  show act st >>= act' = (out (endsInNewline st.md) st.listDepth >>= fun t =>
    out' (endsAfter (endsInNewline st.md) t) st.listDepth >>= fun u => pure (t ++ u)).map st.push
  rw [h st]
  cases out (endsInNewline st.md) st.listDepth with
  | error e => rfl
  | ok t =>
      show act' (st.push t) = (out' (endsAfter (endsInNewline st.md) t) st.listDepth >>= fun u => pure (t ++ u)).map st.push
      rw [h' (st.push t), Md32.md_push, Md32.listDepth_push, endsInNewline_append]
      cases out' (endsAfter (endsInNewline st.md) t) st.listDepth with
      | error e => rfl
      | ok u => exact congrArg Except.ok (Md32.push_push st t u)

/-- A quotation: the children write to a buffer of their own, which is empty. -/
theorem quoted (h : Frames act out) :
    Frames (fun st => do
      let inner ← act { st with md := [] }
      pure { inner with md := st.md ++ (quoteLines inner.md ++ "\n") })
      (fun _ d => (out false d).map fun t => quoteLines t ++ "\n") := by
  intro st
  show (act { st with md := [] } >>= fun inner => pure _) = _
  rw [h { st with md := [] }]
  have hempty : endsInNewline [] = false := rfl
  dsimp only
  rw [hempty]
  cases out false st.listDepth with
  | error e => rfl
  | ok t => rfl

/-- A list, one level deeper: where the counter could go up it comes down again. -/
theorem nested (profile : Profile) (h : Frames act out) :
    Frames (fun st => do
      let st ← st.enter profile
      let st ← act st
      st.leave profile)
      (fun nl d => incU32 profile d >>= out nl) := by
  intro st
  show (st.enter profile >>= fun st => act st >>= fun st => st.leave profile) =
    (incU32 profile st.listDepth >>= out (endsInNewline st.md)).map st.push
  by_cases hroom : profile = .debug → st.listDepth.toNat + 1 < UInt32.size
  · have henter : st.enter profile = .ok { st with listDepth := st.listDepth + 1 } := by
      unfold Md32.enter
      rw [incU32_of_room hroom]
      rfl
    rw [henter, incU32_of_room hroom]
    show (act { st with listDepth := st.listDepth + 1 } >>= fun st => st.leave profile) =
      (out (endsInNewline st.md) (st.listDepth + 1)).map st.push
    rw [h { st with listDepth := st.listDepth + 1 }]
    cases out (endsInNewline st.md) (st.listDepth + 1) with
    | error e => rfl
    | ok t =>
        show Md32.leave profile _ = Except.ok (st.push t)
        unfold Md32.leave
        show (decU32 profile (st.listDepth + 1) >>= fun d => pure _) = Except.ok (st.push t)
        rw [decU32_add_one hroom]
        rfl
  · -- the increment is checked, and fails
    obtain ⟨rfl, hfull⟩ : profile = .debug ∧ ¬ st.listDepth.toNat + 1 < UInt32.size := by tauto
    have henter : st.enter .debug = .error .addOverflow := by
      unfold Md32.enter
      rw [incU32_of_full hfull]
      rfl
    rw [henter, incU32_of_full hfull]
    rfl

end Frames

/-! ## Scopes -/

theorem error_of_map {α β : Type} {x : Except Panic α} {f : α → β} {e : Panic} (h : x.map f = .error e) : x = .error e := by
  cases x with
  | error e' => exact congrArg Except.error (Except.error.inj h)
  | ok a => cases h

theorem error_of_bind {α β : Type} {x : Except Panic α} {f : α → Except Panic β} {e : Panic} (h : x >>= f = .error e) :
    x = .error e ∨ ∃ a, x = .ok a ∧ f a = .error e := by
  cases x with
  | error e' => exact .inl (congrArg Except.error (Except.error.inj h))
  | ok a => exact .inr ⟨a, rfl, h⟩

/-- The list elements. -/
def isList (name : Text) : Bool := oneOf name ["ul", "ol"]

/-- The ones whose items are numbered. -/
def isNumbered (name : Text) : Bool := oneOf name ["ol"]

section Walk

variable (profile : Profile) (collapse : Text → Except Panic Text)

/-- How a walk that collapses `ts`, nests lists `deep` and numbers items up to `wide` can fail at list depth `d`: the
    collapser does, or a counter that is checked comes to its end. -/
def Fails (ts : List Text) (deep wide : Nat) (d : UInt32) (e : Panic) : Prop :=
  (∃ t ∈ ts, collapse t = .error e) ∨
    (profile = .debug ∧ e = .addOverflow ∧ (UInt32.size ≤ d.toNat + deep ∨ UInt32.size ≤ wide + 1))

/-- A part of the walk, in the `u32` form and in the unbounded one: it has a frame, fails in no other way, and where no
    counter can come to its end the two do the same. -/
structure Scoped (ts : List Text) (deep wide : Nat) (act : Md32 → Except Panic Md32) (actNat : Md → Except Panic Md) :
    Prop where
  frames : ∃ out, Frames act out ∧ ∀ nl d e, out nl d = .error e → Fails profile collapse ts deep wide d e
  agrees : ∀ st, st.listDepth.toNat + deep < UInt32.size → wide + 1 < UInt32.size →
    (act st).map Md32.view = actNat st.view

variable {profile collapse}

theorem Fails.mono {ts ts' : List Text} {deep deep' wide wide' : Nat} {d : UInt32} {e : Panic} (hts : ts ⊆ ts')
    (hdeep : deep ≤ deep') (hwide : wide ≤ wide') (h : Fails profile collapse ts deep wide d e) :
    Fails profile collapse ts' deep' wide' d e := by
  rcases h with ⟨t, ht, hfails⟩ | ⟨hdebug, he, hend⟩
  · exact .inl ⟨t, hts ht, hfails⟩
  · refine .inr ⟨hdebug, he, ?_⟩
    rcases hend with hend | hend
    · exact .inl (by omega)
    · exact .inr (by omega)

namespace Scoped

variable {ts : List Text} {deep wide : Nat} {act act' : Md32 → Except Panic Md32} {actNat actNat' : Md → Except Panic Md}

theorem mono {ts' : List Text} {deep' wide' : Nat} (hts : ts ⊆ ts') (hdeep : deep ≤ deep') (hwide : wide ≤ wide')
    (h : Scoped profile collapse ts deep wide act actNat) : Scoped profile collapse ts' deep' wide' act actNat where
  frames := by
    obtain ⟨out, hframes, hfails⟩ := h.frames
    exact ⟨out, hframes, fun nl d e he => (hfails nl d e he).mono hts hdeep hwide⟩
  agrees st hroom hroom' := h.agrees st (by omega) (by omega)

/-- Some text, which may show the list depth and a number; in the two forms they agree as long as the counters do. -/
theorem write (t t' : Nat → Text) (ht : wide + 1 < UInt32.size → t = t') :
    Scoped profile collapse ts deep wide (fun st => pure (st.push (t st.listDepth.toNat)))
      (fun st => pure (st.push (t' st.listDepth))) where
  frames := ⟨fun _ d => .ok (t d.toNat), fun _ => rfl, fun _ _ _ he => by cases he⟩
  agrees st _ hroom := by
    rw [← ht hroom]
    rfl

theorem push (t : Text) :
    Scoped profile collapse ts deep wide (fun st => pure (st.push t)) (fun st => pure (st.push t)) :=
  write (fun _ => t) (fun _ => t) fun _ => rfl

theorem nothing : Scoped profile collapse ts deep wide pure pure where
  frames := ⟨fun _ _ => .ok [], fun st => congrArg Except.ok (Md32.push_nil st).symm, fun _ _ _ he => by cases he⟩
  agrees _ _ _ := rfl

theorem closeLine :
    Scoped profile collapse ts deep wide (fun st => pure st.closeLine) (fun st => pure st.closeLine) where
  frames := ⟨fun nl _ => .ok (if nl then [] else "\n"), fun st => congrArg Except.ok (Md32.closeLine_eq st),
    fun _ _ _ he => by cases he⟩
  agrees st _ _ := congrArg Except.ok (Md32.view_closeLine st)

theorem bind (h : Scoped profile collapse ts deep wide act actNat) (h' : Scoped profile collapse ts deep wide act' actNat') :
    Scoped profile collapse ts deep wide (fun st => act st >>= act') (fun st => actNat st >>= actNat') := by
  obtain ⟨out, hframes, hfails⟩ := h.frames
  obtain ⟨out', hframes', hfails'⟩ := h'.frames
  refine ⟨⟨_, hframes.bind hframes', ?_⟩, ?_⟩
  · intro nl d e he
    rcases error_of_bind he with hfirst | ⟨t, -, hrest⟩
    · exact hfails nl d e hfirst
    · rcases error_of_bind hrest with hsecond | ⟨u, -, hpure⟩
      · exact hfails' _ d e hsecond
      · cases hpure
  · intro st hdeep hwide
    show (act st >>= act').map Md32.view = actNat st.view >>= actNat'
    rw [← h.agrees st hdeep hwide, hframes st]
    cases out (endsInNewline st.md) st.listDepth with
    | error e => rfl
    | ok t => exact h'.agrees (st.push t) hdeep hwide

/-- Layout text around. -/
theorem around {t u : Text} (h : Scoped profile collapse ts deep wide act actNat) :
    Scoped profile collapse ts deep wide (fun st => do let st ← act (st.push t); pure (st.push u))
      (fun st => do let st ← actNat (st.push t); pure (st.push u)) :=
  (push t).bind (h.bind (push u))

/-- A text node. -/
theorem text {t : Text} (ht : t ∈ ts) :
    Scoped profile collapse ts deep wide (fun st => do let s ← collapse t; pure (pushText32 st s))
      (fun st => do let s ← collapse t; pure (pushText st s)) where
  frames := by
    refine ⟨fun _ _ => (collapse t).map fun s => if s ≠ [] ∧ s ≠ " " then s else [], ?_, ?_⟩
    · intro st
      cases collapse t with
      | error e => rfl
      | ok s => exact congrArg Except.ok (pushText32_eq st s)
    · exact fun nl d e he => .inl ⟨t, ht, error_of_map he⟩
  agrees st _ _ := by
    cases collapse t with
    | error e => rfl
    | ok s =>
        apply congrArg Except.ok
        unfold pushText32 pushText
        split <;> rfl

theorem quoted (h : Scoped profile collapse ts deep wide act actNat) :
    Scoped profile collapse ts deep wide
      (fun st => do
        let inner ← act { st with md := [] }
        pure { inner with md := st.md ++ (quoteLines inner.md ++ "\n") })
      (fun st => do
        let inner ← actNat { st with md := [] }
        pure { inner with md := st.md ++ (quoteLines inner.md ++ "\n") }) := by
  obtain ⟨out, hframes, hfails⟩ := h.frames
  refine ⟨⟨_, hframes.quoted, ?_⟩, ?_⟩
  · exact fun nl d e he => hfails false d e (error_of_map he)
  · intro st hdeep hwide
    have hinner := h.agrees { st with md := [] } hdeep hwide
    show (act { st with md := [] } >>= fun inner => pure _).map Md32.view =
      actNat { st.view with md := [] } >>= fun inner => pure _
    rw [show ({ st.view with md := [] } : Md) = ({ st with md := [] } : Md32).view from rfl, ← hinner]
    cases act { st with md := [] } with
    | error e => rfl
    | ok inner => rfl

/-- The inside of a list. -/
theorem nested (h : Scoped profile collapse ts deep wide act actNat) :
    Scoped profile collapse ts (deep + 1) wide
      (fun st => do
        let st ← st.enter profile
        let st ← act st
        st.leave profile)
      (fun st => do
        let st ← actNat st.enter
        st.leave) := by
  obtain ⟨out, hframes, hfails⟩ := h.frames
  refine ⟨⟨_, hframes.nested profile, ?_⟩, ?_⟩
  · intro nl d e he
    by_cases hroom : profile = .debug → d.toNat + 1 < UInt32.size
    · rw [incU32_of_room hroom] at he
      rcases hfails nl (d + 1) e he with hcollapse | ⟨hdebug, he', hend⟩
      · exact .inl hcollapse
      · refine .inr ⟨hdebug, he', ?_⟩
        rw [toNat_add_one_u32 (hroom hdebug)] at hend
        rcases hend with hend | hend
        · exact .inl (by omega)
        · exact .inr hend
    · obtain ⟨rfl, hfull⟩ : profile = .debug ∧ ¬ d.toNat + 1 < UInt32.size := by tauto
      rw [incU32_of_full hfull] at he
      obtain rfl : Panic.addOverflow = e := Except.error.inj he
      exact .inr ⟨rfl, rfl, .inl (by omega)⟩
  · intro st hdeep hwide
    have hroom : st.listDepth.toNat + 1 < UInt32.size := by omega
    have hsucc := toNat_add_one_u32 hroom
    have henter : st.enter profile = .ok { st with listDepth := st.listDepth + 1 } := by
      unfold Md32.enter
      rw [incU32_of_room fun _ => hroom]
      rfl
    have hview : ({ st with listDepth := st.listDepth + 1 } : Md32).view = st.view.enter := by
      unfold Md32.view Md.enter
      rw [hsucc]
    have hinner := h.agrees { st with listDepth := st.listDepth + 1 }
      (by show (st.listDepth + 1).toNat + deep < UInt32.size; omega) hwide
    rw [hview, hframes] at hinner
    show (st.enter profile >>= fun st => act st >>= fun st => st.leave profile).map Md32.view =
      actNat st.view.enter >>= fun st => st.leave
    rw [henter, ← hinner]
    show (act { st with listDepth := st.listDepth + 1 } >>= fun st => st.leave profile).map Md32.view = _
    rw [hframes]
    cases out (endsInNewline st.md) (st.listDepth + 1) with
    | error e => rfl
    | ok t =>
        show (Md32.leave profile ⟨st.md ++ t, st.listDepth + 1⟩).map Md32.view =
          Md.leave ⟨st.md ++ t, (st.listDepth + 1).toNat⟩
        unfold Md32.leave Md.leave
        have hdepth : ¬ (st.listDepth + 1).toNat = 0 := by omega
        rw [decU32_add_one fun _ => hroom, if_neg hdepth, hsucc]
        rfl

/-- A list, and what is written after it. -/
theorem list {after : Md32 → Except Panic Md32} {afterNat : Md → Except Panic Md}
    (h : Scoped profile collapse ts deep wide act actNat)
    (hafter : Scoped profile collapse ts (deep + 1) wide after afterNat) :
    Scoped profile collapse ts (deep + 1) wide
      (fun st => do
        let st ← st.enter profile
        let st ← act st
        let st ← st.leave profile
        after st)
      (fun st => do
        let st ← actNat st.enter
        let st ← st.leave
        afterNat st) := by
  have hboth := h.nested.bind hafter
  simp only [bind_assoc] at hboth
  exact hboth

/-- A number that cannot be counted on. -/
theorem overflow {e : Panic} (hdebug : profile = .debug) (he : e = .addOverflow) (hwide : UInt32.size ≤ wide + 1) :
    Scoped profile collapse ts deep wide (fun _ => .error e) actNat where
  frames := by
    refine ⟨fun _ _ => .error e, fun _ => rfl, ?_⟩
    intro nl d e' he'
    obtain rfl : e = e' := Except.error.inj he'
    exact .inr ⟨hdebug, he, .inr hwide⟩
  agrees st _ hroom := by omega

end Scoped

/-! ## The walk -/

theorem scoped_elements {ts : List Text} {deep wide : Nat} {cs : List Node}
    (h : ∀ c ∈ cs, Scoped profile collapse ts deep wide (walkElement32 profile collapse c) (walkElement collapse c)) :
    Scoped profile collapse ts deep wide (walkElements32 profile collapse cs) (walkElements collapse cs) := by
  induction cs with
  | nil => exact .nothing
  | cons c cs ih =>
      have hc := h c List.mem_cons_self
      have hcs := ih fun d hd => h d (List.mem_cons_of_mem c hd)
      exact hc.bind hcs

theorem scoped_children {ts : List Text} {deep wide : Nat} {cs : List Node} (hts : textsAll cs ⊆ ts)
    (h : ∀ c ∈ cs, Scoped profile collapse ts deep wide (walkElement32 profile collapse c) (walkElement collapse c)) :
    Scoped profile collapse ts deep wide (walkChildren32 profile collapse cs) (walkChildren collapse cs) := by
  induction cs with
  | nil => exact .nothing
  | cons c cs ih =>
      have hc := h c List.mem_cons_self
      rw [textsAll, List.append_subset] at hts
      have hcs := ih hts.2 fun d hd => h d (List.mem_cons_of_mem c hd)
      cases c with
      | text t =>
          have ht : t ∈ ts := hts.1 (List.mem_singleton.mpr rfl)
          have hrun32 : walkChildren32 profile collapse (.text t :: cs) = fun st =>
              (do let s ← collapse t; pure (pushText32 st s)) >>= walkChildren32 profile collapse cs := by
            funext st
            rw [walkChildren32, bind_assoc]
            rfl
          have hrun : walkChildren collapse (.text t :: cs) = fun st =>
              (do let s ← collapse t; pure (pushText st s)) >>= walkChildren collapse cs := by
            funext st
            rw [walkChildren, bind_assoc]
            rfl
          rw [hrun32, hrun]
          exact (Scoped.text ht).bind hcs
      | elem name attrs gs => exact hc.bind hcs
      | other gs => exact hcs

/-- The items of a numbered list: of the numbers up to `wide + 1` none is too large. -/
theorem scoped_items {ts : List Text} {deep wide : Nat} {cs : List Node}
    (h : ∀ c ∈ cs, Scoped profile collapse ts deep wide (walkChildren32 profile collapse c.children)
      (walkChildren collapse c.children))
    (idx : UInt32) (k : Nat) (hidx : idx.toNat + elementCount cs ≤ wide + 1)
    (hk : wide + 1 < UInt32.size → idx.toNat = k) :
    Scoped profile collapse ts deep wide (walkItems32 profile collapse cs idx) (walkItems collapse cs k) := by
  induction cs generalizing idx k with
  | nil => exact .nothing
  | cons c cs ih =>
      have hc := h c List.mem_cons_self
      have ih := ih fun d hd => h d (List.mem_cons_of_mem c hd)
      cases c with
      | text t => exact ih idx k hidx hk
      | other gs => exact ih idx k hidx hk
      | elem name attrs gs =>
          have hcount : elementCount (.elem name attrs gs :: cs) = elementCount cs + 1 := rfl
          rw [hcount] at hidx
          have hnumber : Scoped profile collapse ts deep wide
              (fun st => pure (st.push (indent st.listDepth.toNat ++ (decimal idx.toNat ++ ". "))))
              (fun st => pure (st.push (indent st.listDepth ++ (decimal k ++ ". ")))) :=
            .write (fun d => indent d ++ (decimal idx.toNat ++ ". ")) (fun d => indent d ++ (decimal k ++ ". "))
              fun hwide => by rw [hk hwide]
          have hitem := hnumber.bind hc
          by_cases hroom : profile = .debug → idx.toNat + 1 < UInt32.size
          · have hle := toNat_add_one_le_u32 idx
            have hnext := ih (idx + 1) (k + 1) (by omega) fun hwide => by
              rw [toNat_add_one_u32 (by omega), hk hwide]
            have hrun32 : walkItems32 profile collapse (.elem name attrs gs :: cs) idx = fun st =>
                walkChildren32 profile collapse gs (st.push (indent st.listDepth.toNat ++ (decimal idx.toNat ++ ". "))) >>=
                  fun st => walkItems32 profile collapse cs (idx + 1) (st.push "\n") := by
              funext st
              rw [walkItems32, incU32_of_room hroom]
              rfl
            rw [hrun32]
            exact hitem.bind ((Scoped.push "\n").bind hnext)
          · obtain ⟨hdebug, hfull⟩ : profile = .debug ∧ ¬ idx.toNat + 1 < UInt32.size := by tauto
            have hrun32 : walkItems32 profile collapse (.elem name attrs gs :: cs) idx = fun st =>
                walkChildren32 profile collapse gs (st.push (indent st.listDepth.toNat ++ (decimal idx.toNat ++ ". "))) >>=
                  fun _ => .error .addOverflow := by
              funext st
              rw [walkItems32, hdebug, incU32_of_full hfull]
              rfl
            rw [hrun32]
            exact hitem.bind (Scoped.overflow hdebug rfl (by omega))

theorem isList_of_ul {name : Text} {attrs : List (Text × Text)} (h : armOf name attrs = .ul) : isList name = true := by
  have hname : (armOf name attrs).name = some "ul" := by rw [h]; rfl
  rw [name_of_armOf hname]
  rfl

theorem isList_of_ol {name : Text} {attrs : List (Text × Text)} (h : armOf name attrs = .ol) :
    isList name = true ∧ isNumbered name = true := by
  have hname : (armOf name attrs).name = some "ol" := by rw [h]; rfl
  rw [name_of_armOf hname]
  exact ⟨rfl, rfl⟩

/-- **The walk is scoped**, at a node and in its children. -/
theorem scoped_walk (n : Node) :
    Scoped profile collapse (texts n) (nesting isList n) (widest isNumbered n) (walkElement32 profile collapse n)
      (walkElement collapse n) ∧
    Scoped profile collapse (textsAll n.children) (nestingAll isList n.children) (widestAll isNumbered n.children)
      (walkChildren32 profile collapse n.children) (walkChildren collapse n.children) := by
  -- the children are in the statement because an `ol` item is entered without a `walkElement`
  induction n using Node.induct with
  | step n ih =>
      have helement : ∀ c ∈ n.children, Scoped profile collapse (textsAll n.children) (nestingAll isList n.children)
          (widestAll isNumbered n.children) (walkElement32 profile collapse c) (walkElement collapse c) :=
        fun c hc => (ih c hc).1.mono (texts_subset hc) (nesting_le hc) (widest_le hc)
      have hitem : ∀ c ∈ n.children, Scoped profile collapse (textsAll n.children) (nestingAll isList n.children)
          (widestAll isNumbered n.children) (walkChildren32 profile collapse c.children) (walkChildren collapse c.children) :=
        fun c hc => (ih c hc).2.mono (fun t ht => texts_subset hc (textsAll_children_subset c ht))
          (Nat.le_trans (nestingAll_children_le c) (nesting_le hc))
          (Nat.le_trans (widestAll_children_le c) (widest_le hc))
      have hchildren := scoped_children (List.Subset.refl _) helement
      refine ⟨?_, hchildren⟩
      cases n with
      | text t => exact .nothing
      | other cs => exact .nothing
      | elem name attrs cs =>
          rw [Node.children_elem] at helement hitem hchildren
          -- an element that opens no list measures what its children do, or more
          have hwalk : Scoped profile collapse (texts (.elem name attrs cs)) (nesting isList (.elem name attrs cs))
              (widest isNumbered (.elem name attrs cs)) (walkChildren32 profile collapse cs) (walkChildren collapse cs) :=
            hchildren.mono (List.Subset.refl _) (Nat.le_add_right _ _) (Nat.le_max_left _ _)
          have hrun32 : walkElement32 profile collapse (.elem name attrs cs) = fun st =>
              walkElement32 profile collapse (.elem name attrs cs) st := rfl
          have hrun : walkElement collapse (.elem name attrs cs) = fun st => walkElement collapse (.elem name attrs cs) st := rfl
          rw [hrun32, hrun]
          simp only [walkElement32, walkElement]
          cases harm : armOf name attrs with
          | block lead => exact (Scoped.push lead).bind (hwalk.bind (Scoped.closeLine.bind (Scoped.push "\n")))
          | inline before after => exact hwalk.around
          | leaf text => exact .push text
          | blockquote => exact hwalk.quoted
          | pre =>
              exact (Scoped.push "```\n").bind ((Scoped.push (textContents cs)).bind
                (Scoped.closeLine.bind (Scoped.push "```\n\n")))
          | code => exact .push _
          | ul =>
              have hdeep : nestingAll isList cs + 1 = nesting isList (.elem name attrs cs) := by
                rw [nesting, if_pos (isList_of_ul harm)]
              have hlist := (scoped_elements helement).list (Scoped.closeLine.bind (Scoped.push "\n"))
              exact hlist.mono (List.Subset.refl _) (Nat.le_of_eq hdeep) (Nat.le_max_left _ _)
          | ol =>
              obtain ⟨hisList, hnumbered⟩ := isList_of_ol harm
              have hdeep : nestingAll isList cs + 1 = nesting isList (.elem name attrs cs) := by
                rw [nesting, if_pos hisList]
              have hcount : elementCount cs ≤ widest isNumbered (.elem name attrs cs) := by
                rw [widest, if_pos hnumbered]
                exact Nat.le_max_right _ _
              have hwide : ∀ c ∈ cs, Scoped profile collapse (textsAll cs) (nestingAll isList cs)
                  (widest isNumbered (.elem name attrs cs)) (walkChildren32 profile collapse c.children)
                  (walkChildren collapse c.children) :=
                fun c hc => (hitem c hc).mono (List.Subset.refl _) (Nat.le_refl _) (Nat.le_max_left _ _)
              have hone : (1 : UInt32).toNat = 1 := rfl
              have hlist := (scoped_items hwide 1 1 (by omega) fun _ => hone).list (Scoped.push "\n")
              exact hlist.mono (List.Subset.refl _) (Nat.le_of_eq hdeep) (Nat.le_refl _)
          | li =>
              exact (Scoped.write (fun d => indent d ++ "- ") (fun d => indent d ++ "- ") fun _ => rfl).bind
                (hwalk.bind (Scoped.push "\n"))

end Walk

/-! ## Whole walks -/

/-- **The walk is well scoped.** Whatever the buffer and the list depth, what `walk_element` and `walk_children` do is to
    append to the buffer, and what they append is a function of the list depth and of whether the buffer ends in a newline.
    They fail only as the collapser does on a text of the node, or, if the build checks it, by a counter that comes to its
    end; where none can, they do what the walk with unbounded counters does, which fails if the list depth is to go below
    zero. -/
theorem walk_scoped (profile : Profile) (collapse : Text → Except Panic Text) (n : Node) :
    (∃ out : Appended, (∀ st, walkElement32 profile collapse n st =
        (out (endsInNewline st.md) st.listDepth).map fun t => ⟨st.md ++ t, st.listDepth⟩) ∧
      ∀ nl d e, out nl d = .error e → Fails profile collapse (texts n) (nesting isList n) (widest isNumbered n) d e) ∧
    (∃ out : Appended, (∀ st, walkChildren32 profile collapse n.children st =
        (out (endsInNewline st.md) st.listDepth).map fun t => ⟨st.md ++ t, st.listDepth⟩) ∧
      ∀ nl d e, out nl d = .error e → Fails profile collapse (texts n) (nesting isList n) (widest isNumbered n) d e) ∧
    ∀ st, st.listDepth.toNat + nesting isList n < UInt32.size → widest isNumbered n + 1 < UInt32.size →
      (walkElement32 profile collapse n st).map Md32.view = walkElement collapse n st.view ∧
        (walkChildren32 profile collapse n.children st).map Md32.view = walkChildren collapse n.children st.view := by
  obtain ⟨helement, hbelow⟩ := @scoped_walk profile collapse n
  have hchildren := hbelow.mono (textsAll_children_subset n) (nestingAll_children_le n) (widestAll_children_le n)
  exact ⟨helement.frames, hchildren.frames, fun st hdeep hwide =>
    ⟨helement.agrees st hdeep hwide, hchildren.agrees st hdeep hwide⟩⟩

/-- **At the largest list depth** a list is one too many. -/
theorem list_depth_overflows :
    walkElement32 .debug reference (.elem "ul" [] []) ⟨[], 0xffffffff⟩ = .error .addOverflow := rfl

end Scrape
end McpWebSearch
