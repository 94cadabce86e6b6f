import Mathlib.Algebra.Order.Ring.Defs
import Mathlib.Data.List.Chain
import Mathlib.Tactic.Linarith
import McpWebSearch.Lib.Machine

/-!
# `Lib.Meter` — admission meters and the potential that bounds them

A meter is a machine whose labels are timed calls, some of which it admits. How many calls a run admits in a
window of time is bounded by one argument for every meter: find a potential, a level that an admitted call
lowers by one, that time raises at rate `ρ`, and that never exceeds the burst `σ`.

## Contents
- `Meter` / `admitted`: the calls a run admits; `countIn`, how many of them fall into a window.
- `Potential`: the laws of a level for burst `σ` and rate `ρ`.
- `countIn_le` (**window bound**): at most `σ + ρ * (b - a)` calls are admitted in `[a, b]`.
- `Generous`: the converse law, a call is admitted when the level allows it; `admitted_of_spaced` says that
  calls far enough apart are all admitted.
-/

/-- A machine whose labels have an instant and are admitted or not. -/
structure Meter (S L K : Type) extends Machine S L where
  time : L → K
  admits : S → L → Bool

namespace Meter

variable {S L K : Type}

/-- The calls of a run from `s` that are admitted. -/
def admitted (M : Meter S L K) (s : S) : List L → List L
  | []      => []
  | l :: ls =>
      (if M.admits s l then [l] else []) ++ (M.next s l).elim [] (fun s' => M.admitted s' ls)

@[simp] theorem admitted_nil (M : Meter S L K) (s : S) : M.admitted s [] = [] := rfl

/-- The admitted calls of a run, from its first step. -/
theorem admitted_cons {M : Meter S L K} {s s' : S} {l : L} (h : M.next s l = some s') (ls : List L) :
    M.admitted s (l :: ls) = (if M.admits s l then [l] else []) ++ M.admitted s' ls := by
  show _ ++ (M.next s l).elim [] (fun s' => M.admitted s' ls) = _
  rw [h]
  rfl

variable [CommRing K] [LinearOrder K] [IsStrictOrderedRing K]

/-- How many calls admitted in the run have their instant in `[a, b]`. -/
def countIn (M : Meter S L K) (s : S) (ls : List L) (a b : K) : Nat :=
  (M.admitted s ls).countP (fun l => decide (a ≤ M.time l ∧ M.time l ≤ b))

/-- What one call adds to the count of a window. -/
def cost (M : Meter S L K) (s : S) (l : L) : K := if M.admits s l then 1 else 0

theorem cost_nonneg (M : Meter S L K) (s : S) (l : L) : 0 ≤ M.cost s l := by
  unfold cost
  split
  · exact zero_le_one
  · exact le_refl _

omit [IsStrictOrderedRing K] in
/-- The count from the first step: the call counts if it is admitted and in the window. -/
theorem countIn_cons {M : Meter S L K} {s s' : S} {l : L} (h : M.next s l = some s') (ls : List L)
    (a b : K) :
    (M.countIn s (l :: ls) a b : K) =
      (if a ≤ M.time l ∧ M.time l ≤ b then M.cost s l else 0) + M.countIn s' ls a b := by
  unfold countIn cost
  rw [admitted_cons h]
  by_cases hadm : M.admits s l = true
  · by_cases hwin : a ≤ M.time l ∧ M.time l ≤ b
    · simp [hadm, hwin, add_comm]
    · simp [hadm, hwin]
  · simp [hadm]

/-- A level for burst `σ` and rate `ρ`: between `0` and `σ`, lowered by one at an admitted call, raised at
    rate at most `ρ` while time passes. The laws are those of the states where `inv` holds. -/
structure Potential (M : Meter S L K) (σ ρ : K) where
  inv : S → Prop
  clock : S → K
  level : S → K
  rate_nonneg : 0 ≤ ρ
  inv_next : ∀ {s l s'}, inv s → M.next s l = some s' → inv s'
  clock_le : ∀ {s l s'}, M.next s l = some s' → clock s ≤ M.time l
  clock_next : ∀ {s l s'}, inv s → M.next s l = some s' → clock s' = M.time l
  level_nonneg : ∀ {s}, inv s → 0 ≤ level s
  level_le : ∀ {s}, inv s → level s ≤ σ
  burst : ∀ {s l s'}, inv s → M.next s l = some s' → level s' + M.cost s l ≤ σ
  refill : ∀ {s l s'}, inv s → M.next s l = some s' →
    level s' + M.cost s l ≤ level s + ρ * (M.time l - clock s)

namespace Potential

variable {M : Meter S L K} {σ ρ : K} (P : M.Potential σ ρ)
include P

omit [IsStrictOrderedRing K] in
/-- The level keeps its bounds along every run. -/
theorem inv_exec {s s' : S} {ls : List L} (h0 : P.inv s) (h : M.exec s ls = some s') : P.inv s' :=
  Machine.exec_invariant (fun _ _ _ hs hstep => P.inv_next hs hstep) h0 h

omit [IsStrictOrderedRing K] in
/-- A run that starts past the window admits nothing in it. -/
theorem countIn_eq_zero {s s' : S} {ls : List L} {a b : K} (hs : P.inv s) (hb : b < P.clock s)
    (h : M.exec s ls = some s') : (M.countIn s ls a b : K) = 0 := by
  induction ls generalizing s with
  | nil => simp [countIn]
  | cons l ls ih =>
      obtain ⟨m, hm, hrun⟩ := Option.bind_eq_some_iff.mp h
      have hlate : b < M.time l := lt_of_lt_of_le hb (P.clock_le hm)
      rw [countIn_cons hm, if_neg (fun hw => absurd hw.2 (not_le.mpr hlate)), zero_add]
      exact ih (P.inv_next hs hm) (by rw [P.clock_next hs hm]; exact hlate) hrun

/-- Up to an instant `b` a run admits no more than its level and the refill until then allow. -/
theorem countIn_le_level {s s' : S} {ls : List L} (a b : K) (hs : P.inv s) (hb : P.clock s ≤ b)
    (h : M.exec s ls = some s') :
    (M.countIn s ls a b : K) ≤ P.level s + ρ * (b - P.clock s) := by
  have hrefill : ∀ t, P.inv t → P.clock t ≤ b → 0 ≤ P.level t + ρ * (b - P.clock t) := by
    intro t ht htb
    have hpos := mul_nonneg P.rate_nonneg (sub_nonneg.mpr htb)
    linarith [P.level_nonneg ht]
  induction ls generalizing s with
  | nil =>
      simpa [countIn] using hrefill s hs hb
  | cons l ls ih =>
      obtain ⟨m, hm, hrun⟩ := Option.bind_eq_some_iff.mp h
      rw [countIn_cons hm]
      by_cases hlb : M.time l ≤ b
      · -- the call may count: pay for it with the level
        have hrest := ih (P.inv_next hs hm) (by rw [P.clock_next hs hm]; exact hlb) hrun
        rw [P.clock_next hs hm] at hrest
        have hstep := P.refill hs hm
        have hcall : (if a ≤ M.time l ∧ M.time l ≤ b then M.cost s l else 0) ≤ M.cost s l := by
          split
          · exact le_refl _
          · exact M.cost_nonneg s l
        linarith
      · -- it is past the window, and so is every later call
        have hlate : b < P.clock m := by
          rw [P.clock_next hs hm]
          exact not_le.mp hlb
        rw [P.countIn_eq_zero (P.inv_next hs hm) hlate hrun, if_neg (fun hw => hlb hw.2), zero_add]
        exact hrefill s hs hb

/-- **Window bound.** In a window `[a, b]` a run admits at most `σ + ρ * (b - a)` calls. -/
theorem countIn_le {s s' : S} {ls : List L} {a b : K} (hs : P.inv s) (hab : a ≤ b)
    (h : M.exec s ls = some s') : (M.countIn s ls a b : K) ≤ σ + ρ * (b - a) := by
  have hwin := mul_nonneg P.rate_nonneg (sub_nonneg.mpr hab)
  have hzero : 0 ≤ σ + ρ * (b - a) := by
    linarith [P.level_nonneg hs, P.level_le hs]
  induction ls generalizing s with
  | nil => simpa [countIn] using hzero
  | cons l ls ih =>
      obtain ⟨m, hm, hrun⟩ := Option.bind_eq_some_iff.mp h
      by_cases ha : a ≤ M.time l
      · by_cases hb : M.time l ≤ b
        · -- the first call in the window: from here on the level pays
          have hrest := P.countIn_le_level a b (P.inv_next hs hm)
            (by rw [P.clock_next hs hm]; exact hb) hrun
          rw [P.clock_next hs hm] at hrest
          have hstep := P.burst hs hm
          have hlater : ρ * (b - M.time l) ≤ ρ * (b - a) :=
            mul_le_mul_of_nonneg_left (by linarith) P.rate_nonneg
          rw [countIn_cons hm, if_pos ⟨ha, hb⟩]
          linarith
        · rw [countIn_cons hm, if_neg (fun hw => hb hw.2), zero_add]
          exact ih (P.inv_next hs hm) hrun
      · rw [countIn_cons hm, if_neg (fun hw => ha hw.1), zero_add]
        exact ih (P.inv_next hs hm) hrun

/-- The meter admits a call whenever the level and the refill since the last call come to one. -/
def Generous : Prop :=
  ∀ s l s', P.inv s → M.next s l = some s' → 1 ≤ P.level s + ρ * (M.time l - P.clock s) →
    M.admits s l = true

/-- **Spaced calls are admitted.** Calls at least `γ` apart, with `1 ≤ ρ * γ`, are all admitted. -/
theorem admitted_of_spaced (hgen : P.Generous) {γ : K} (hγ : 1 ≤ ρ * γ) {s s' : S} {ls : List L}
    (hs : P.inv s) (hhead : ∀ l ∈ ls.head?, 1 ≤ P.level s + ρ * (M.time l - P.clock s))
    (hspaced : ls.IsChain (fun l k => γ ≤ M.time k - M.time l)) (h : M.exec s ls = some s') :
    M.admitted s ls = ls := by
  induction ls generalizing s with
  | nil => rfl
  | cons l ls ih =>
      obtain ⟨m, hm, hrun⟩ := Option.bind_eq_some_iff.mp h
      have hadm := hgen s l m hs hm (hhead l rfl)
      rw [admitted_cons hm, hadm, if_pos rfl, List.singleton_append]
      apply congrArg (l :: ·)
      apply ih (P.inv_next hs hm) _ hspaced.of_cons hrun
      intro k hk
      rw [P.clock_next hs hm]
      have hgap : γ ≤ M.time k - M.time l := (List.isChain_cons.mp hspaced).1 k hk
      have hscaled := mul_le_mul_of_nonneg_left hgap P.rate_nonneg
      linarith [P.level_nonneg (P.inv_next hs hm)]

end Potential
end Meter
