import Mathlib.Data.List.Induction
import Mathlib.Algebra.GroupWithZero.Nat

/-!
# `Lib.Machine` — labelled machines, their runs, and the invariant rules

A machine moves by labelled steps; `next s l = none` means that the label is not enabled in `s`. A run is
the list of its labels, so one machine has as many runs as there are label lists: the scheduler, the
environment and every failure are in the labels.

## Contents
- `exec` and its composition laws (`exec_append`, `exec_snoc`).
- `exec_invariant`: what every step keeps, every run keeps.
- `exec_trace_invariant`: the same for a property of the state *and the labels so far*.
- `Along ok`: every step of the run meets a condition on its source state and its label.
- `exec_length_le` / `exec_completes`: the measure rule, and with progress the completion rule.
- `sum_map_set_lt`: the measure of many parties, of whom one moves.
- `trace` / `exec_erase`, `trace_erase`: what the steps of a run put out, and the erasure rule.
-/

/-- A labelled machine. -/
structure Machine (S L : Type) where
  next : S → L → Option S

namespace Machine

variable {S L : Type} (M : Machine S L)

/-- The state a run ends in, if all its labels are enabled. -/
def exec (s : S) : List L → Option S
  | []      => some s
  | l :: ls => (M.next s l).bind (fun s' => exec s' ls)

@[simp] theorem exec_nil (s : S) : M.exec s [] = some s := rfl
@[simp] theorem exec_cons (s : S) (l : L) (ls : List L) :
    M.exec s (l :: ls) = (M.next s l).bind (fun s' => M.exec s' ls) := rfl

theorem exec_append (s : S) (ls ms : List L) :
    M.exec s (ls ++ ms) = (M.exec s ls).bind (fun s' => M.exec s' ms) := by
  induction ls generalizing s with
  | nil => rfl
  | cons l ls ih =>
      simp only [List.cons_append, exec_cons, Option.bind_assoc]
      exact congrArg _ (funext ih)

/-- The last step of a run that ends in `s'`. -/
theorem exec_snoc {s s' : S} {ls : List L} {l : L} (h : M.exec s (ls ++ [l]) = some s') :
    ∃ m, M.exec s ls = some m ∧ M.next m l = some s' := by
  rw [exec_append] at h
  obtain ⟨m, hm, hl⟩ := Option.bind_eq_some_iff.mp h
  exact ⟨m, hm, by simpa using hl⟩

variable {M}

/-- **Invariant rule.** What holds at the start and is kept by every step holds along every run. -/
theorem exec_invariant {I : S → Prop} (hstep : ∀ s l s', I s → M.next s l = some s' → I s')
    {s s' : S} {ls : List L} (h0 : I s) (h : M.exec s ls = some s') : I s' := by
  induction ls generalizing s with
  | nil => exact Option.some.inj h ▸ h0
  | cons l ls ih =>
      obtain ⟨m, hm, hl⟩ := Option.bind_eq_some_iff.mp h
      exact ih (hstep s l m h0 hm) hl

/-- **Invariant rule with history.** The same for a property of the labels so far and the state. -/
theorem exec_trace_invariant {I : List L → S → Prop} {s₀ : S} (h0 : I [] s₀)
    (hstep : ∀ ls s l s', I ls s → M.next s l = some s' → I (ls ++ [l]) s')
    {s : S} {ls : List L} (h : M.exec s₀ ls = some s) : I ls s := by
  -- induction from the back, where the history grows
  induction ls using List.reverseRecOn generalizing s with
  | nil => exact Option.some.inj h ▸ h0
  | append_singleton ls l ih =>
      obtain ⟨m, hm, hl⟩ := M.exec_snoc h
      exact hstep ls m l s (ih hm) hl

variable (M)

/-- Every step of the run meets `ok` at its source state. -/
def Along (ok : S → L → Prop) (s : S) : List L → Prop
  | []      => True
  | l :: ls => ok s l ∧ ∀ s', M.next s l = some s' → Along ok s' ls

instance decidableAlong {ok : S → L → Prop} [∀ s l, Decidable (ok s l)] :
    ∀ (ls : List L) (s : S), Decidable (M.Along ok s ls)
  | [], _ => isTrue trivial
  | l :: ls, s =>
      have (s' : S) : Decidable (M.Along ok s' ls) := decidableAlong ls s'
      decidable_of_iff (ok s l ∧ ∀ s' ∈ M.next s l, M.Along ok s' ls) Iff.rfl

variable {M}

/-- **Conditional invariant rule.** What is kept by every step that meets `ok` holds along every run all of
    whose steps do. -/
theorem exec_invariant_along {I : S → Prop} {ok : S → L → Prop}
    (hstep : ∀ s l s', I s → ok s l → M.next s l = some s' → I s')
    {s s' : S} {ls : List L} (h0 : I s) (hok : M.Along ok s ls) (h : M.exec s ls = some s') :
    I s' := by
  induction ls generalizing s with
  | nil => exact Option.some.inj h ▸ h0
  | cons l ls ih =>
      obtain ⟨m, hm, hl⟩ := Option.bind_eq_some_iff.mp h
      exact ih (hstep s l m h0 hok.1 hm) (hok.2 m hm) hl

/-! ## Progress -/

section Progress

variable {I : S → Prop} {μ : S → Nat}

/-- **Measure rule.** If every step makes the measure smaller, no run has more steps than the measure at its start. -/
theorem exec_length_le (hstep : ∀ s l s', I s → M.next s l = some s' → I s' ∧ μ s' < μ s) {s s' : S} {ls : List L} (h0 : I s)
    (h : M.exec s ls = some s') : ls.length + μ s' ≤ μ s := by
  induction ls generalizing s with
  | nil =>
      obtain rfl := Option.some.inj h
      exact Nat.le_of_eq (Nat.zero_add _)
  | cons l ls ih =>
      obtain ⟨m, hm, hl⟩ := Option.bind_eq_some_iff.mp h
      obtain ⟨hI, hlt⟩ := hstep s l m h0 hm
      have hrest := ih hI hl
      rw [List.length_cons]
      omega

/-- **Completion rule.** If the steps of a kind make the measure smaller, and one of them is enabled wherever a goal is not
    reached, then steps of the kind reach it. -/
theorem exec_completes {K : L → Prop} {D : S → Prop}
    (hstep : ∀ s l s', I s → K l → M.next s l = some s' → I s' ∧ μ s' < μ s)
    (hprogress : ∀ s, I s → ¬ D s → ∃ l s', K l ∧ M.next s l = some s') {s : S} (h0 : I s) :
    ∃ ls s', M.exec s ls = some s' ∧ (∀ l ∈ ls, K l) ∧ I s' ∧ D s' := by
  -- strong induction on the measure
  induction hμ : μ s using Nat.strongRecOn generalizing s with
  | _ n ih =>
      by_cases hdone : D s
      · exact ⟨[], s, rfl, fun l hl => absurd hl List.not_mem_nil, h0, hdone⟩
      · obtain ⟨l, m, hok, hnext⟩ := hprogress s h0 hdone
        obtain ⟨hI, hlt⟩ := hstep s l m h0 hok hnext
        obtain ⟨ls, s', hrun, hall, hgoal⟩ := ih (μ m) (hμ ▸ hlt) hI rfl
        refine ⟨l :: ls, s', ?_, List.forall_mem_cons.mpr ⟨hok, hall⟩, hgoal⟩
        rw [exec_cons, hnext]
        exact hrun

end Progress

/-- One of many parties moves, and what is left to it becomes less: so does what is left to all. -/
theorem sum_map_set_lt {α : Type} {f : α → Nat} {xs : List α} {i : Nat} {x y : α} (hx : xs[i]? = some x)
    (hlt : f y < f x) : ((xs.set i y).map f).sum < (xs.map f).sum := by
  induction xs generalizing i with
  | nil => cases hx
  | cons z zs ih =>
      cases i with
      | zero =>
          obtain rfl : z = x := Option.some.inj hx
          exact Nat.add_lt_add_right hlt _
      | succ i => exact Nat.add_lt_add_left (ih hx) _

/-! ## Outputs and erasure -/

variable {O : Type} (M)

/-- The labels of a run with what each step puts out. -/
def trace (out : S → L → O) (s : S) : List L → List (L × O)
  | []      => []
  | l :: ls => (l, out s l) :: (M.next s l).elim [] (fun s' => trace out s' ls)

variable {M}

theorem trace_cons {out : S → L → O} {s s' : S} {l : L} (h : M.next s l = some s') (ls : List L) :
    M.trace out s (l :: ls) = (l, out s l) :: M.trace out s' ls := by
  show (l, out s l) :: (M.next s l).elim [] (fun s' => M.trace out s' ls) = _
  rw [h]
  rfl

/-- The outputs of a run, and then those of what follows. -/
theorem trace_append {out : S → L → O} {s s' : S} {ls : List L} (h : M.exec s ls = some s') (ms : List L) :
    M.trace out s (ls ++ ms) = M.trace out s ls ++ M.trace out s' ms := by
  induction ls generalizing s with
  | nil =>
      obtain rfl := Option.some.inj h
      rfl
  | cons l ls ih =>
      obtain ⟨m, hm, hl⟩ := Option.bind_eq_some_iff.mp h
      rw [List.cons_append, trace_cons hm, trace_cons hm, ih hl]
      rfl

variable {visible : L → Bool} (hstutter : ∀ s l, visible l = false → M.next s l = some s)
include hstutter

/-- **Erasure rule.** Steps that leave the state alone can be deleted from a run. -/
theorem exec_erase (s : S) (ls : List L) : M.exec s (ls.filter visible) = M.exec s ls := by
  induction ls generalizing s with
  | nil => rfl
  | cons l ls ih =>
      cases hl : visible l with
      | true =>
          rw [List.filter_cons_of_pos hl, exec_cons, exec_cons]
          exact congrArg _ (funext ih)
      | false =>
          rw [List.filter_cons_of_neg (by simp [hl]), exec_cons, hstutter s l hl]
          exact ih s

/-- The same for outputs: the other steps put out what they did. -/
theorem trace_erase (htotal : ∀ s l, ∃ s', M.next s l = some s') (out : S → L → O) (s : S) (ls : List L) :
    M.trace out s (ls.filter visible) = (M.trace out s ls).filter (fun p => visible p.1) := by
  induction ls generalizing s with
  | nil => rfl
  | cons l ls ih =>
      cases hl : visible l with
      | true =>
          obtain ⟨s', hnext⟩ := htotal s l
          rw [List.filter_cons_of_pos hl, trace_cons hnext, trace_cons hnext, ih]
          simp [hl]
      | false =>
          rw [List.filter_cons_of_neg (by simp [hl]), trace_cons (hstutter s l hl), ih]
          simp [hl]

end Machine
