import Mathlib.Data.List.Perm.Basic
import Mathlib.Data.List.Nodup
import Mathlib.Data.List.Range
import McpWebSearch.Lib.Machine

/-!
# `Lib.Drain` — concurrent jobs behind a semaphore, drained as they complete

A number of jobs run concurrently; each takes one of the permits, may give it back before it is done, and on
completion pushes its result on a common list. The schedule (who takes a permit, who completes, when) is the list
of events. Job `i` yields `content i` whatever the schedule.

## Contents
- `drain content`: the machine, and `completions`: the jobs that complete along a run, in that order.
- `drained_order`: the list a run leaves is the completed jobs' contents in completion order, each job once.
- `completions_perm`, `out_perm`: in a run that has finished, the completion order is a permutation of the jobs, and the
  list one of their contents.
- `exists_finished`: with a permit there is such a run.
- `holding_le`, `busy_le`, `length_le`, `completes`: never more jobs hold a permit than there are permits, nor are more under way
  than there are jobs; a run has at most three events a job, and every run can be continued to one that has finished.
- `drained_eq_iff`: when such a run leaves the contents in job order.
-/

namespace Drain

/-- Where a job is. -/
inductive Phase
  | waiting   -- for a permit
  | holding   -- a permit
  | released  -- permit given back, not yet complete
  | done
  deriving DecidableEq, Repr

/-- What can happen to job `i`. -/
inductive Event
  | acquire (i : Nat)
  | release (i : Nat)
  | finish (i : Nat)
  deriving DecidableEq, Repr

/-- The permits left, the phase of each job and the results pushed so far. -/
structure State (α : Type) where
  permits : Nat
  phases : List Phase
  out : List α
  deriving DecidableEq

variable {α : Type}

/-- `n` jobs, none of them started. -/
def start (permits n : Nat) : State α :=
  { permits := permits, phases := List.replicate n .waiting, out := [] }

/-- One step of the jobs. -/
def step (content : Nat → α) (s : State α) : Event → Option (State α)
  | .acquire i =>
      if s.phases[i]? = some .waiting ∧ 0 < s.permits then
        some { s with permits := s.permits - 1, phases := s.phases.set i .holding }
      else none
  | .release i =>
      if s.phases[i]? = some .holding then
        some { s with permits := s.permits + 1, phases := s.phases.set i .released }
      else none
  | .finish i =>
      if s.phases[i]? = some .holding then
        some { permits := s.permits + 1, phases := s.phases.set i .done, out := s.out ++ [content i] }
      else if s.phases[i]? = some .released then
        some { s with phases := s.phases.set i .done, out := s.out ++ [content i] }
      else none

/-- The jobs as a machine. -/
def drain (content : Nat → α) : Machine (State α) Event := ⟨step content⟩

/-- Every job is done. -/
def State.finished (s : State α) : Bool := s.phases.all (· = .done)

/-- The jobs that complete, in order. -/
def completions (es : List Event) : List Nat :=
  es.filterMap (fun e => match e with
    | .finish i => some i
    | _ => none)

variable {content : Nat → α} {s s' : State α} {es : List Event}

/-! ## One step -/

/-- **Inversion of `step`.** One job changes phase; it is not done before, and if it is done after, its
    content has been pushed. -/
theorem step_cases {e : Event} (h : step content s e = some s') :
    ∃ i p, i < s.phases.length ∧ s.phases[i]? ≠ some .done ∧ s'.phases = s.phases.set i p ∧
      ((p ≠ .done ∧ completions [e] = [] ∧ s'.out = s.out) ∨
        (p = .done ∧ completions [e] = [i] ∧ s'.out = s.out ++ [content i])) := by
  have hlt {i : Nat} {p : Phase} (hp : s.phases[i]? = some p) : i < s.phases.length :=
    (List.getElem?_eq_some_iff.mp hp).1
  cases e with
  | acquire i =>
      obtain ⟨⟨hp, -⟩, rfl⟩ := by simpa [step] using h
      exact ⟨i, .holding, hlt hp, by simp [hp], rfl, .inl ⟨by simp, rfl, rfl⟩⟩
  | release i =>
      obtain ⟨hp, rfl⟩ := by simpa [step] using h
      exact ⟨i, .released, hlt hp, by simp [hp], rfl, .inl ⟨by simp, rfl, rfl⟩⟩
  | finish i =>
      rw [step] at h
      by_cases hp : s.phases[i]? = some .holding
      · rw [if_pos hp] at h
        obtain rfl := Option.some.inj h
        exact ⟨i, .done, hlt hp, by simp [hp], rfl, .inr ⟨rfl, rfl, rfl⟩⟩
      · rw [if_neg hp] at h
        by_cases hr : s.phases[i]? = some .released
        · rw [if_pos hr] at h
          obtain rfl := Option.some.inj h
          exact ⟨i, .done, hlt hr, by simp [hr], rfl, .inr ⟨rfl, rfl, rfl⟩⟩
        · rw [if_neg hr] at h
          cases h

/-! ## Runs -/

/-- The results pushed are those of the done jobs, each once, in the order of their completion. -/
structure Ordered (content : Nat → α) (n : Nat) (order : List Nat) (s : State α) : Prop where
  length : s.phases.length = n
  nodup : order.Nodup
  done : ∀ i, i ∈ order ↔ s.phases[i]? = some .done
  out : s.out = order.map content

theorem ordered_start (permits n : Nat) : Ordered content n [] (start permits n) where
  length := by simp [start]
  nodup := List.nodup_nil
  done := by
    intro i
    by_cases hi : i < n
    · simp [start, hi]
    · simp [start, hi]
  out := rfl

/-- **Step lemma.** -/
theorem ordered_step {n : Nat} {order : List Nat} {e : Event} (hs : Ordered content n order s)
    (h : step content s e = some s') : Ordered content n (order ++ completions [e]) s' := by
  obtain ⟨i, p, hlt, hnot, hphases, hcase⟩ := step_cases h
  have hget (j : Nat) : s'.phases[j]? = if i = j then some p else s.phases[j]? := by
    rw [hphases, List.getElem?_set]
    by_cases hij : i = j
    · rw [if_pos hij, if_pos hij, if_pos hlt]
    · rw [if_neg hij, if_neg hij]
  have hlen : s'.phases.length = n := by rw [hphases, List.length_set, hs.length]
  have hnotin : i ∉ order := fun hmem => hnot ((hs.done i).mp hmem)
  rcases hcase with ⟨hp, hcomp, hout⟩ | ⟨rfl, hcomp, hout⟩
  · rw [hcomp, List.append_nil]
    refine ⟨hlen, hs.nodup, fun j => ?_, by rw [hout, hs.out]⟩
    rw [hget]
    by_cases hij : i = j
    · subst hij
      simpa [hp] using hnotin
    · rw [if_neg hij]
      exact hs.done j
  · rw [hcomp]
    refine ⟨hlen, ?_, fun j => ?_, by rw [hout, hs.out, List.map_append, List.map_singleton]⟩
    · refine List.nodup_append.mpr ⟨hs.nodup, List.nodup_singleton i, ?_⟩
      rintro a ha b hb rfl
      exact hnotin (List.mem_singleton.mp hb ▸ ha)
    · rw [hget, List.mem_append, List.mem_singleton, hs.done]
      by_cases hij : i = j
      · simp [hij]
      · rw [if_neg hij]
        simp [Ne.symm hij]

/-- **Run lemma.** -/
theorem drained_order {permits n : Nat} (h : (drain content).exec (start permits n) es = some s) :
    Ordered content n (completions es) s := by
  refine Machine.exec_trace_invariant (I := fun es s => Ordered content n (completions es) s)
    (ordered_start permits n) ?_ h
  intro es s e s' hs hstep
  have := ordered_step hs hstep
  rwa [completions, List.filterMap_append]

/-- In a finished run every job has completed, and once. -/
theorem completions_perm {permits n : Nat} (h : (drain content).exec (start permits n) es = some s)
    (hfin : s.finished = true) : (completions es).Perm (List.range n) := by
  have hord := drained_order h
  refine (List.perm_ext_iff_of_nodup hord.nodup List.nodup_range).mpr (fun i => ?_)
  rw [hord.done, List.mem_range, ← hord.length]
  constructor
  · intro hi
    exact (List.getElem?_eq_some_iff.mp hi).1
  · intro hi
    rw [List.getElem?_eq_getElem hi, Option.some_inj]
    have hall := List.all_eq_true.mp hfin _ (List.getElem_mem hi)
    simpa using hall

/-- **Nothing is lost or duplicated**: a finished run has pushed the contents of the jobs, in some order. -/
theorem out_perm {permits n : Nat} (h : (drain content).exec (start permits n) es = some s)
    (hfin : s.finished = true) : s.out.Perm ((List.range n).map content) := by
  rw [(drained_order h).out]
  exact (completions_perm h hfin).map content

/-- The first `k` jobs done one after the other. -/
theorem exists_run {permits n : Nat} (hpermits : 0 < permits) {k : Nat} (hk : k ≤ n) :
    ∃ es s, (drain content).exec (start permits n) es = some s ∧ s.permits = permits ∧
      s.phases = List.replicate k .done ++ List.replicate (n - k) .waiting := by
  induction k with
  | zero => exact ⟨[], start permits n, rfl, rfl, rfl⟩
  | succ k ih =>
      obtain ⟨es, s, hrun, hpermits', hphases⟩ := ih (Nat.le_of_succ_le hk)
      obtain ⟨free, phases, out⟩ := s
      obtain rfl : free = permits := hpermits'
      obtain rfl : phases = _ := hphases
      have hrest : n - k = (n - (k + 1)) + 1 := by omega
      have hset (p q : Phase) (ps : List Phase) :
          (List.replicate k Phase.done ++ p :: ps).set k q = List.replicate k .done ++ q :: ps := by
        rw [List.set_append_right _ _ (by simp), List.length_replicate, Nat.sub_self, List.set_cons_zero]
      refine ⟨es ++ [.acquire k, .finish k],
        ⟨free, List.replicate k .done ++ .done :: List.replicate (n - (k + 1)) .waiting, out ++ [content k]⟩, ?_, rfl, ?_⟩
      · rw [Machine.exec_append, hrun, hrest, List.replicate_succ]
        simp [drain, step, hset, hpermits, Nat.sub_add_cancel hpermits]
      · rw [List.replicate_succ', List.append_assoc]
        rfl

/-- Some run finishes. -/
theorem exists_finished {permits n : Nat} (hpermits : 0 < permits) :
    ∃ es s, (drain content).exec (start permits n) es = some s ∧ s.finished = true := by
  obtain ⟨es, s, hrun, -, hphases⟩ := @exists_run _ content permits n hpermits n (Nat.le_refl n)
  refine ⟨es, s, hrun, ?_⟩
  rw [State.finished, hphases, Nat.sub_self]
  simp

/-- **Job order.** A finished run leaves the contents in job order exactly if every job completes at a
    position whose content is its own. -/
theorem drained_eq_iff {permits n : Nat} (h : (drain content).exec (start permits n) es = some s)
    (hfin : s.finished = true) :
    s.out = (List.range n).map content ↔
      ∀ k i, (completions es)[k]? = some i → content i = content k := by
  have hlen : (completions es).length = n := by
    rw [(completions_perm h hfin).length_eq, List.length_range]
  rw [(drained_order h).out]
  constructor
  · intro heq k i hk
    have hlt := (List.getElem?_eq_some_iff.mp hk).1
    have hget := congrArg (·[k]?) heq
    simp only [List.getElem?_map, hk, Option.map_some] at hget
    rw [List.getElem?_range (by omega)] at hget
    exact Option.some.inj hget
  · intro hcond
    apply List.ext_getElem?
    intro k
    by_cases hk : k < n
    · have hk' : k < (completions es).length := by omega
      rw [List.getElem?_map, List.getElem?_map, List.getElem?_range hk, List.getElem?_eq_getElem hk']
      exact congrArg some (hcond k _ (List.getElem?_eq_getElem hk'))
    · rw [List.getElem?_eq_none (by simp; omega), List.getElem?_eq_none (by simp; omega)]

/-! ## Permits and progress -/

/-- The number of jobs that hold a permit. -/
def State.holding (s : State α) : Nat := s.phases.countP (· = .holding)

/-- The number of jobs that are under way, with a permit or after it. -/
def State.busy (s : State α) : Nat := s.phases.countP fun p => p = .holding ∨ p = .released

/-- The events left to a job. -/
def Phase.left : Phase → Nat
  | .waiting => 3
  | .holding => 2
  | .released => 1
  | .done => 0

/-- The events left to all jobs. -/
def State.left (s : State α) : Nat := (s.phases.map Phase.left).sum

/-- The jobs that hold a permit, after one job has changed its phase. -/
theorem holding_set {p q : Phase} {i : Nat} (hp : s.phases[i]? = some p) :
    (s.phases.set i q).countP (· = .holding) + (if p = .holding then 1 else 0) =
      s.holding + if q = .holding then 1 else 0 := by
  obtain ⟨hlt, rfl⟩ := List.getElem?_eq_some_iff.mp hp
  have hle : (if s.phases[i] = .holding then 1 else 0) ≤ s.phases.countP (· = .holding) := by
    by_cases hholding : s.phases[i] = .holding
    · rw [if_pos hholding]
      exact List.countP_pos_iff.mpr ⟨_, List.getElem_mem hlt, decide_eq_true hholding⟩
    · rw [if_neg hholding]
      exact Nat.zero_le _
  have hset := List.countP_set (p := (decide <| · = Phase.holding)) (a := q) hlt
  simp only [decide_eq_true_eq] at hset
  rw [hset, State.holding]
  omega

/-- **Step lemma.** A step takes a permit or gives one back with the job that holds it, and leaves less to do. -/
theorem account_step {e : Event} (h : step content s e = some s') :
    s'.permits + s'.holding = s.permits + s.holding ∧ s'.left < s.left := by
  cases e with
  | acquire i =>
      obtain ⟨⟨hp, hpos⟩, rfl⟩ := by simpa [step] using h
      have hset := holding_set (q := .holding) hp
      refine ⟨?_, Machine.sum_map_set_lt hp (by decide)⟩
      simp only [State.holding, reduceCtorEq, if_false, if_true] at hset ⊢
      omega
  | release i =>
      obtain ⟨hp, rfl⟩ := by simpa [step] using h
      have hset := holding_set (q := .released) hp
      refine ⟨?_, Machine.sum_map_set_lt hp (by decide)⟩
      simp only [State.holding, reduceCtorEq, if_false, if_true] at hset ⊢
      omega
  | finish i =>
      rw [step] at h
      by_cases hp : s.phases[i]? = some .holding
      · rw [if_pos hp] at h
        obtain rfl := Option.some.inj h
        have hset := holding_set (q := .done) hp
        refine ⟨?_, Machine.sum_map_set_lt hp (by decide)⟩
        simp only [State.holding, reduceCtorEq, if_false, if_true] at hset ⊢
        omega
      · rw [if_neg hp] at h
        by_cases hr : s.phases[i]? = some .released
        · rw [if_pos hr] at h
          obtain rfl := Option.some.inj h
          have hset := holding_set (q := .done) hr
          refine ⟨?_, Machine.sum_map_set_lt hr (by decide)⟩
          simp only [State.holding, reduceCtorEq, if_false] at hset ⊢
          omega
        · rw [if_neg hr] at h
          cases h

theorem account_start (permits n : Nat) :
    (start permits n : State α).permits + (start permits n : State α).holding = permits ∧
      (start permits n : State α).left = n * 3 := by
  constructor
  · simp [start, State.holding]
  · simp [start, State.left, Phase.left]

/-- **Permits.** In every run, at every moment, they are available or held by a job. -/
theorem permits_exec {permits n : Nat} (h : (drain content).exec (start permits n) es = some s) :
    s.permits + s.holding = permits :=
  Machine.exec_invariant (I := fun s => s.permits + s.holding = permits)
    (fun _ _ _ hs hstep => (account_step hstep).1.trans hs) (account_start permits n).1 h

theorem holding_le {permits n : Nat} (h : (drain content).exec (start permits n) es = some s) : s.holding ≤ permits :=
  permits_exec h ▸ Nat.le_add_left _ _

theorem busy_le {permits n : Nat} (h : (drain content).exec (start permits n) es = some s) : s.busy ≤ n :=
  Nat.le_trans List.countP_le_length (Nat.le_of_eq (drained_order h).length)

/-- A run has at most three events for each job. -/
theorem length_le {permits n : Nat} (h : (drain content).exec (start permits n) es = some s) : es.length ≤ n * 3 := by
  have hle := Machine.exec_length_le (I := fun _ => True) (μ := State.left)
    (fun _ _ _ _ hstep => ⟨True.intro, (account_step hstep).2⟩) True.intro h
  rw [(account_start permits n).2] at hle
  exact Nat.le_trans (Nat.le_add_right _ _) hle

/-- **Progress.** While a job is not done, a job can move: it can complete, or it gets a permit, or another one that has a
    permit completes. -/
theorem progress (hpermits : 0 < s.permits + s.holding) (hfin : s.finished = false) : ∃ e s', step content s e = some s' := by
  obtain ⟨p, hmem, hnot⟩ := List.all_eq_false.mp hfin
  obtain ⟨i, hi, rfl⟩ := List.getElem_of_mem hmem
  have hget : s.phases[i]? = some s.phases[i] := List.getElem?_eq_getElem hi
  have hholding {j : Nat} (hj : s.phases[j]? = some .holding) : ∃ e s', step content s e = some s' := ⟨.finish j, _, if_pos hj⟩
  cases hphase : s.phases[i] with
  | done => exact absurd (decide_eq_true hphase) hnot
  | holding => exact hholding (hphase ▸ hget)
  | released =>
      rw [hphase] at hget
      refine ⟨.finish i, ⟨s.permits, s.phases.set i .done, s.out ++ [content i]⟩, ?_⟩
      simp [step, hget]
  | waiting =>
      rw [hphase] at hget
      by_cases hfree : 0 < s.permits
      · exact ⟨.acquire i, _, if_pos ⟨hget, hfree⟩⟩
      · have hheld : 0 < s.phases.countP (· = .holding) := by
          rw [Nat.eq_zero_of_not_pos hfree, Nat.zero_add] at hpermits
          exact hpermits
        obtain ⟨q, hq, heq⟩ := List.countP_pos_iff.mp hheld
        obtain ⟨j, hj, rfl⟩ := List.getElem_of_mem hq
        exact hholding (of_decide_eq_true heq ▸ List.getElem?_eq_getElem hj)

/-- **No run gets stuck**: with a permit, every run can be continued to one that has finished. -/
theorem completes {permits n : Nat} (hpermits : 0 < permits) (h : (drain content).exec (start permits n) es = some s) :
    ∃ rest s', (drain content).exec (start permits n) (es ++ rest) = some s' ∧ s'.finished = true := by
  obtain ⟨rest, s', hrun, -, -, hfin⟩ := Machine.exec_completes (M := drain content) (K := fun _ => True)
    (I := fun s => s.permits + s.holding = permits) (μ := State.left) (D := fun s => s.finished = true)
    (fun _ _ _ hs _ hstep => ⟨(account_step hstep).1.trans hs, (account_step hstep).2⟩)
    (fun s hs hnot => by
      have hmove : ∃ e s', step content s e = some s' := progress (hs ▸ hpermits) (Bool.not_eq_true _ ▸ hnot)
      obtain ⟨e, s', hstep⟩ := hmove
      exact ⟨e, s', True.intro, hstep⟩)
    (permits_exec h)
  refine ⟨rest, s', ?_, hfin⟩
  rw [Machine.exec_append, h]
  exact hrun

end Drain
