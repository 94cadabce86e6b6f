import Mathlib.Data.List.Perm.Subperm
import Mathlib.Data.List.Nodup
import Mathlib.Data.List.Range
import Mathlib.Data.Option.Basic
import McpWebSearch.Lib.Machine

/-!
# `Lib.Buffered` — a stream of futures, a bounded number at a time

`buffered(n)` of a stream polls up to `n` futures at once and yields their results in the order of the stream:
a result that is ready early waits for those before it. `buffer_unordered(n)` yields each result when it is ready. The
futures finish in any order, chosen by the labels of a run.

## Contents
- `buffered`: the machine, on the items and what the future of each comes to.
- `out_of_finished`: a finished run has put out the results of all items, in order.
- `bufferUnordered`, `Pool.out_perm`: the same without the order; the results are those of all items, each once.
- `exists_finished`, `Pool.exists_finished`: there is a finished run, so neither stream gets stuck.
- `counted`, `Pool.counted`: never more than `n` futures run, and the length of a run is bounded by the number of items.
- `completes`, `Pool.completes`: every run can be continued to a finished one.
-/

namespace Buffered

/-- How many futures have been started, which of them are ready, and what has been put out. -/
structure State (β : Type) where
  started : Nat
  ready : List Nat
  out : List β

/-- Start the next future, one that runs becomes ready, put out the first result. -/
inductive Move
  | start
  | finish (i : Nat)
  | emit
  deriving DecidableEq

variable {α β : Type}

def State.initial : State β := ⟨0, [], []⟩

/-- The stream over `items`; the future of item `i` comes to `f i item`. -/
def buffered (n : Nat) (f : Nat → α → β) (items : List α) : Machine (State β) Move where
  next s
    | .start =>
        if s.started < items.length ∧ s.started - s.out.length < n then
          some { s with started := s.started + 1 }
        else none
    | .finish i =>
        if s.out.length ≤ i ∧ i < s.started ∧ i ∉ s.ready then some { s with ready := i :: s.ready }
        else none
    | .emit =>
        if s.out.length ∈ s.ready then
          (items[s.out.length]?).map (fun a => { s with out := s.out ++ [f s.out.length a] })
        else none

variable {n : Nat} {f : Nat → α → β} {items : List α}

/-- The results are put out in order. -/
theorem out_prefix {s : State β} {ls : List Move} (h : (buffered n f items).exec State.initial ls = some s) :
    s.out = (items.mapIdx f).take s.out.length := by
  refine Machine.exec_invariant (I := fun s : State β => s.out = (items.mapIdx f).take s.out.length) ?_ rfl h
  intro s l s' hs hnext
  cases l with
  | start =>
      obtain ⟨-, heq⟩ := Option.ite_none_right_eq_some.mp hnext
      obtain rfl := Option.some.inj heq
      exact hs
  | finish i =>
      obtain ⟨-, heq⟩ := Option.ite_none_right_eq_some.mp hnext
      obtain rfl := Option.some.inj heq
      exact hs
  | emit =>
      obtain ⟨-, hmap⟩ := Option.ite_none_right_eq_some.mp hnext
      obtain ⟨a, ha, rfl⟩ := Option.map_eq_some_iff.mp hmap
      have hget : (items.mapIdx f)[s.out.length]? = some (f s.out.length a) := by
        rw [List.getElem?_mapIdx, ha]
        rfl
      show s.out ++ [f s.out.length a] = (items.mapIdx f).take (s.out ++ [f s.out.length a]).length
      rw [List.length_append, List.length_singleton, List.take_add_one, hget, ← hs]
      rfl

/-- **Order is kept**: a finished run has put out the result of each item, in the order of the items. -/
theorem out_of_finished {s : State β} {ls : List Move}
    (h : (buffered n f items).exec State.initial ls = some s) (hfinished : s.out.length = items.length) :
    s.out = items.mapIdx f := by
  have hprefix := out_prefix h
  rw [hfinished, List.take_of_length_le (by simp)] at hprefix
  exact hprefix

/-- One item after the other is a run. -/
theorem exists_run (hn : 0 < n) {k : Nat} (hk : k ≤ items.length) :
    ∃ ls s, (buffered n f items).exec State.initial ls = some s ∧
      s.started = k ∧ s.out.length = k ∧ ∀ i ∈ s.ready, i < k := by
  induction k with
  | zero => exact ⟨[], State.initial, rfl, rfl, rfl, fun i hi => absurd hi List.not_mem_nil⟩
  | succ k ih =>
      obtain ⟨ls, s, hrun, hstarted, hout, hready⟩ := ih (Nat.le_of_succ_le hk)
      obtain ⟨started, ready, out⟩ := s
      obtain rfl : started = k := hstarted
      have hlength : out.length = started := hout
      have hfresh : started ∉ ready := fun hmem => Nat.lt_irrefl _ (hready started hmem)
      have hitem : items[started]? = some items[started] := List.getElem?_eq_getElem hk
      refine ⟨ls ++ [.start, .finish started, .emit],
        ⟨started + 1, started :: ready, out ++ [f started items[started]]⟩, ?_, rfl, by simp [hlength], ?_⟩
      · rw [Machine.exec_append, hrun]
        simp [buffered, hlength, hfresh, hn, Nat.lt_of_succ_le hk]
      · intro i hi
        rcases List.mem_cons.mp hi with rfl | hi
        · exact Nat.lt_succ_self _
        · exact Nat.lt_succ_of_lt (hready i hi)

/-- Some run finishes. -/
theorem exists_finished (hn : 0 < n) :
    ∃ ls s, (buffered n f items).exec State.initial ls = some s ∧ s.out.length = items.length := by
  obtain ⟨ls, s, hrun, -, hout, -⟩ := @exists_run α β n f items hn items.length (Nat.le_refl items.length)
  exact ⟨ls, s, hrun, hout⟩

/-! ## The futures that run -/

/-- What has been started, is ready and has been put out, after so many moves. -/
structure Counted (n : Nat) (items : List α) (moves : Nat) (s : State β) : Prop where
  started_le : s.started ≤ items.length
  inFlight_le : s.started ≤ s.out.length + n
  ready_lt : ∀ i ∈ s.ready, i < s.started
  ready_nodup : s.ready.Nodup
  ready_of_out : ∀ i < s.out.length, i ∈ s.ready
  moves_eq : moves = s.started + s.ready.length + s.out.length

theorem Counted.initial : Counted n items 0 (State.initial : State β) where
  started_le := Nat.zero_le _
  inFlight_le := Nat.zero_le _
  ready_lt _ hi := absurd hi List.not_mem_nil
  ready_nodup := List.nodup_nil
  ready_of_out i hi := absurd hi (Nat.not_lt_zero i)
  moves_eq := rfl

/-- **Step lemma.** -/
theorem Counted.step {moves : Nat} {s s' : State β} {m : Move} (h : Counted n items moves s)
    (hnext : (buffered n f items).next s m = some s') : Counted n items (moves + 1) s' := by
  obtain ⟨hstarted, hinFlight, hlt, hnodup, hout, hmoves⟩ := h
  cases m with
  | start =>
      obtain ⟨⟨hroom, hfree⟩, heq⟩ := Option.ite_none_right_eq_some.mp hnext
      obtain rfl := Option.some.inj heq
      refine ⟨hroom, ?_, fun i hi => Nat.lt_succ_of_lt (hlt i hi), hnodup, hout, ?_⟩
      · show s.started + 1 ≤ s.out.length + n
        omega
      · show moves + 1 = s.started + 1 + s.ready.length + s.out.length
        omega
  | finish i =>
      obtain ⟨⟨-, hi, hfresh⟩, heq⟩ := Option.ite_none_right_eq_some.mp hnext
      obtain rfl := Option.some.inj heq
      refine ⟨hstarted, hinFlight, List.forall_mem_cons.mpr ⟨hi, hlt⟩, List.nodup_cons.mpr ⟨hfresh, hnodup⟩,
        fun j hj => List.mem_cons_of_mem _ (hout j hj), ?_⟩
      show moves + 1 = s.started + (s.ready.length + 1) + s.out.length
      omega
  | emit =>
      obtain ⟨hready, hmap⟩ := Option.ite_none_right_eq_some.mp hnext
      obtain ⟨a, ha, rfl⟩ := Option.map_eq_some_iff.mp hmap
      refine ⟨hstarted, ?_, hlt, hnodup, fun j hj => ?_, ?_⟩
      · show s.started ≤ (s.out ++ [f s.out.length a]).length + n
        rw [List.length_append, List.length_singleton]
        omega
      · rw [List.length_append, List.length_singleton] at hj
        by_cases heq : j = s.out.length
        · exact heq ▸ hready
        · exact hout j (by omega)
      · show moves + 1 = s.started + s.ready.length + (s.out ++ [f s.out.length a]).length
        rw [List.length_append, List.length_singleton]
        omega

/-- **Run lemma.** -/
theorem counted {s : State β} {ls : List Move} (h : (buffered n f items).exec State.initial ls = some s) :
    Counted n items ls.length s := by
  refine Machine.exec_trace_invariant (I := fun ls s => Counted n items ls.length s) Counted.initial ?_ h
  intro ls s l s' hs hnext
  rw [List.length_append]
  exact hs.step hnext

/-- At most three moves for each item: it is started, becomes ready and is put out. -/
theorem Counted.moves_le {moves : Nat} {s : State β} (h : Counted n items moves s) : moves ≤ items.length * 3 := by
  have hready : s.ready.length ≤ s.started := by
    have hsub : s.ready ⊆ List.range s.started := fun i hi => List.mem_range.mpr (h.ready_lt i hi)
    simpa using (List.subperm_of_subset h.ready_nodup hsub).length_le
  have hout : s.out.length ≤ s.ready.length := by
    have hsub : List.range s.out.length ⊆ s.ready := fun i hi => h.ready_of_out i (List.mem_range.mp hi)
    simpa using (List.subperm_of_subset List.nodup_range hsub).length_le
  have := h.moves_eq
  have := h.started_le
  omega

/-- **Progress.** Until all results are put out, the next one is put out, or its future becomes ready, or starts. -/
theorem Counted.progress {moves : Nat} {s : State β} (h : Counted n items moves s) (hn : 0 < n)
    (hout : ¬ s.out.length = items.length) : ∃ m s', (buffered n f items).next s m = some s' := by
  have houtle : s.out.length ≤ s.started := by
    by_contra hgt
    exact Nat.lt_irrefl _ (h.ready_lt _ (h.ready_of_out s.started (Nat.lt_of_not_le hgt)))
  have hstarted := h.started_le
  by_cases hready : s.out.length ∈ s.ready
  · have hlt := h.ready_lt _ hready
    have hget : items[s.out.length]? = some items[s.out.length] := List.getElem?_eq_getElem (Nat.lt_of_lt_of_le hlt hstarted)
    refine ⟨.emit, ?_⟩
    show ∃ s', (if s.out.length ∈ s.ready then (items[s.out.length]?).map _ else none) = some s'
    rw [if_pos hready, hget]
    exact ⟨_, rfl⟩
  · by_cases hruns : s.out.length < s.started
    · exact ⟨.finish s.out.length, _, if_pos ⟨Nat.le_refl _, hruns, hready⟩⟩
    · exact ⟨.start, _, if_pos ⟨by omega, by omega⟩⟩

/-- **No run gets stuck**: with room for a future, every run can be continued to one that has put out all results. -/
theorem completes (hn : 0 < n) {s : State β} {ls : List Move} (h : (buffered n f items).exec State.initial ls = some s) :
    ∃ rest s', (buffered n f items).exec State.initial (ls ++ rest) = some s' ∧ s'.out.length = items.length := by
  obtain ⟨rest, s', hrun, -, -, hdone⟩ := Machine.exec_completes (M := buffered n f items) (K := fun _ => True)
    (I := fun s => ∃ moves, Counted n items moves s)
    (μ := fun s => items.length * 3 - (s.started + s.ready.length + s.out.length))
    (D := fun s => s.out.length = items.length)
    (fun s m s' ⟨moves, hs⟩ _ hnext => by
      have hs' := hs.step hnext
      refine ⟨⟨_, hs'⟩, ?_⟩
      have hbefore := hs.moves_eq
      have hafter := hs'.moves_eq
      have hle := hs'.moves_le
      omega)
    (fun s ⟨moves, hs⟩ hnot => by
      obtain ⟨m, s', hnext⟩ := hs.progress hn hnot
      exact ⟨m, s', True.intro, hnext⟩)
    ⟨_, counted h⟩
  refine ⟨rest, s', ?_, hdone⟩
  rw [Machine.exec_append, h]
  exact hrun

/-! ## Without the order -/

/-- How many futures have been started, which of them still run, and what has been put out. -/
structure Pool (β : Type) where
  started : Nat
  running : List Nat
  out : List β

/-- Start the next future, or put out the result of one that runs. -/
inductive PoolMove
  | start
  | finish (i : Nat)
  deriving DecidableEq

def Pool.initial : Pool β := ⟨0, [], []⟩

/-- Every future has been started, and none runs. -/
def Pool.finished (s : Pool β) (items : List α) : Bool := s.started == items.length && s.running.isEmpty

/-- The stream over `items` that yields results as they are ready. -/
def bufferUnordered (n : Nat) (f : Nat → α → β) (items : List α) : Machine (Pool β) PoolMove where
  next s
    | .start =>
        if s.started < items.length ∧ s.running.length < n then
          some { s with started := s.started + 1, running := s.started :: s.running }
        else none
    | .finish i =>
        if i ∈ s.running then
          (items[i]?).map (fun a => { s with running := s.running.erase i, out := s.out ++ [f i a] })
        else none

namespace Pool

/-- What has been put out and what still runs make up what has been started, each future once. -/
structure Accounted (f : Nat → α → β) (items : List α) (s : Pool β) : Prop where
  started_le : s.started ≤ items.length
  perm : (s.out.map some ++ s.running.map fun i => (items.mapIdx f)[i]?).Perm
    ((List.range s.started).map fun i => (items.mapIdx f)[i]?)

theorem Accounted.initial : Accounted f items Pool.initial := ⟨Nat.zero_le _, List.Perm.refl _⟩

/-- **Step lemma.** -/
theorem Accounted.step {s s' : Pool β} {m : PoolMove} (h : Accounted f items s)
    (hnext : (bufferUnordered n f items).next s m = some s') : Accounted f items s' := by
  cases m with
  | start =>
      obtain ⟨⟨hroom, -⟩, heq⟩ := Option.ite_none_right_eq_some.mp hnext
      obtain rfl := Option.some.inj heq
      refine ⟨hroom, ?_⟩
      dsimp only
      rw [List.range_succ, List.map_append, List.map_cons, List.map_singleton]
      -- the new future is last in the one list and in the middle of the other
      exact List.perm_middle.trans ((List.perm_append_singleton _ _).symm.trans (h.perm.append_right _))
  | finish i =>
      obtain ⟨hmem, hmap⟩ := Option.ite_none_right_eq_some.mp hnext
      obtain ⟨a, ha, rfl⟩ := Option.map_eq_some_iff.mp hmap
      refine ⟨h.started_le, ?_⟩
      have hget : (items.mapIdx f)[i]? = some (f i a) := by
        rw [List.getElem?_mapIdx, ha]
        rfl
      have hrunning := (List.perm_cons_erase hmem).map fun j => (items.mapIdx f)[j]?
      rw [List.map_cons, hget] at hrunning
      dsimp only
      rw [List.map_append, List.append_assoc]
      exact (hrunning.symm.append_left _).trans h.perm

/-- **Run lemma.** -/
theorem accounted {s : Pool β} {ms : List PoolMove}
    (h : (bufferUnordered n f items).exec Pool.initial ms = some s) : Accounted f items s :=
  Machine.exec_invariant (fun _ _ _ hs hnext => hs.step hnext) Accounted.initial h

/-- What has been put out is the result of an item. -/
theorem mem_of_mem_out {s : Pool β} {ms : List PoolMove} {b : β}
    (h : (bufferUnordered n f items).exec Pool.initial ms = some s) (hb : b ∈ s.out) : b ∈ items.mapIdx f := by
  have hmem : some b ∈ (List.range s.started).map fun i => (items.mapIdx f)[i]? :=
    (accounted h).perm.mem_iff.mp (List.mem_append_left _ (List.mem_map_of_mem hb))
  obtain ⟨i, -, hi⟩ := List.mem_map.mp hmem
  exact List.mem_of_getElem? hi

/-- **Nothing is lost or duplicated**: a finished run has put out the results of the items, in some order. -/
theorem out_perm {s : Pool β} {ms : List PoolMove}
    (h : (bufferUnordered n f items).exec Pool.initial ms = some s) (hfinished : s.finished items = true) :
    s.out.Perm (items.mapIdx f) := by
  have hperm := (accounted h).perm
  obtain ⟨hstarted, hrunning⟩ := (Bool.and_eq_true _ _).mp hfinished
  rw [List.isEmpty_iff.mp hrunning, List.map_nil, List.append_nil, eq_of_beq hstarted] at hperm
  have hall : (List.range items.length).map (fun i => (items.mapIdx f)[i]?) = (items.mapIdx f).map some := by
    apply List.ext_getElem
    · simp
    · intro i hi hi'
      simp only [List.length_map, List.length_range] at hi
      simp [hi]
  rw [hall] at hperm
  exact (List.map_perm_map_iff (Option.some_injective β)).mp hperm

/-- One item after the other is a run. -/
theorem exists_run (hn : 0 < n) {k : Nat} (hk : k ≤ items.length) :
    ∃ ms s, (bufferUnordered n f items).exec Pool.initial ms = some s ∧ s.started = k ∧ s.running = [] := by
  induction k with
  | zero => exact ⟨[], Pool.initial, rfl, rfl, rfl⟩
  | succ k ih =>
      obtain ⟨ms, s, hrun, hstarted, hrunning⟩ := ih (Nat.le_of_succ_le hk)
      obtain ⟨started, running, out⟩ := s
      obtain rfl : started = k := hstarted
      obtain rfl : running = [] := hrunning
      have hitem : items[started]? = some items[started] := List.getElem?_eq_getElem hk
      refine ⟨ms ++ [.start, .finish started], ⟨started + 1, [], out ++ [f started items[started]]⟩, ?_, rfl, rfl⟩
      rw [Machine.exec_append, hrun]
      simp [bufferUnordered, hn, Nat.lt_of_succ_le hk]

/-- Some run finishes. -/
theorem exists_finished (hn : 0 < n) :
    ∃ ms s, (bufferUnordered n f items).exec Pool.initial ms = some s ∧ s.finished items = true := by
  obtain ⟨ms, s, hrun, hstarted, hrunning⟩ := @exists_run α β n f items hn items.length (Nat.le_refl items.length)
  refine ⟨ms, s, hrun, ?_⟩
  rw [Pool.finished, hstarted, hrunning]
  simp

/-- What has been started, runs and has been put out, after so many moves. -/
structure Counted (n : Nat) (items : List α) (moves : Nat) (s : Pool β) : Prop where
  started_le : s.started ≤ items.length
  running_le : s.running.length ≤ n
  running_lt : ∀ i ∈ s.running, i < s.started
  split : s.started = s.running.length + s.out.length
  moves_eq : moves = s.started + s.out.length

theorem Counted.initial : Counted n items 0 (Pool.initial : Pool β) where
  started_le := Nat.zero_le _
  running_le := Nat.zero_le _
  running_lt _ hi := absurd hi List.not_mem_nil
  split := rfl
  moves_eq := rfl

/-- **Step lemma.** -/
theorem Counted.step {moves : Nat} {s s' : Pool β} {m : PoolMove} (h : Counted n items moves s)
    (hnext : (bufferUnordered n f items).next s m = some s') : Counted n items (moves + 1) s' := by
  obtain ⟨hstarted, hrunning, hlt, hsplit, hmoves⟩ := h
  cases m with
  | start =>
      obtain ⟨⟨hroom, hfree⟩, heq⟩ := Option.ite_none_right_eq_some.mp hnext
      obtain rfl := Option.some.inj heq
      refine ⟨hroom, hfree, ?_, ?_, ?_⟩
      · exact List.forall_mem_cons.mpr ⟨Nat.lt_succ_self _, fun i hi => Nat.lt_succ_of_lt (hlt i hi)⟩
      · show s.started + 1 = s.running.length + 1 + s.out.length
        omega
      · show moves + 1 = s.started + 1 + s.out.length
        omega
  | finish i =>
      obtain ⟨hmem, hmap⟩ := Option.ite_none_right_eq_some.mp hnext
      obtain ⟨a, -, rfl⟩ := Option.map_eq_some_iff.mp hmap
      have hpos : 0 < s.running.length := List.length_pos_of_mem hmem
      have herase : (s.running.erase i).length = s.running.length - 1 := List.length_erase_of_mem hmem
      refine ⟨hstarted, ?_, fun j hj => hlt j (List.mem_of_mem_erase hj), ?_, ?_⟩
      · show (s.running.erase i).length ≤ n
        omega
      · show s.started = (s.running.erase i).length + (s.out ++ [f i a]).length
        rw [List.length_append, List.length_singleton]
        omega
      · show moves + 1 = s.started + (s.out ++ [f i a]).length
        rw [List.length_append, List.length_singleton]
        omega

/-- **Run lemma.** -/
theorem counted {s : Pool β} {ms : List PoolMove} (h : (bufferUnordered n f items).exec Pool.initial ms = some s) :
    Counted n items ms.length s := by
  refine Machine.exec_trace_invariant (I := fun ms s => Counted n items ms.length s) Counted.initial ?_ h
  intro ms s m s' hs hnext
  rw [List.length_append]
  exact hs.step hnext

/-- At most two moves for each item: it is started and put out. -/
theorem Counted.moves_le {moves : Nat} {s : Pool β} (h : Counted n items moves s) : moves ≤ items.length * 2 := by
  have := h.moves_eq
  have := h.started_le
  have := h.split
  omega

/-- **Progress.** Until the stream has finished, a future that runs is put out, or the next one starts. -/
theorem Counted.progress {moves : Nat} {s : Pool β} (h : Counted n items moves s) (hn : 0 < n)
    (hfinished : s.finished items = false) : ∃ m s', (bufferUnordered n f items).next s m = some s' := by
  cases hrunning : s.running with
  | nil =>
      have hlt : s.started < items.length := by
        refine Nat.lt_of_le_of_ne h.started_le fun heq => ?_
        unfold finished at hfinished
        rw [hrunning, heq, beq_self_eq_true] at hfinished
        cases hfinished
      refine ⟨.start, _, if_pos ⟨hlt, ?_⟩⟩
      rw [hrunning]
      exact hn
  | cons i rest =>
      have hmem : i ∈ s.running := hrunning ▸ List.mem_cons_self
      have hlt : i < items.length := Nat.lt_of_lt_of_le (h.running_lt i hmem) h.started_le
      refine ⟨.finish i, ?_⟩
      show ∃ s', (if i ∈ s.running then (items[i]?).map _ else none) = some s'
      rw [if_pos hmem, List.getElem?_eq_getElem hlt]
      exact ⟨_, rfl⟩

/-- **No run gets stuck**: with room for a future, every run can be continued to a finished one. -/
theorem completes (hn : 0 < n) {s : Pool β} {ms : List PoolMove}
    (h : (bufferUnordered n f items).exec Pool.initial ms = some s) :
    ∃ rest s', (bufferUnordered n f items).exec Pool.initial (ms ++ rest) = some s' ∧ s'.finished items = true := by
  obtain ⟨rest, s', hrun, -, -, hdone⟩ := Machine.exec_completes (M := bufferUnordered n f items) (K := fun _ => True)
    (I := fun s => ∃ moves, Counted n items moves s) (μ := fun s => items.length * 2 - (s.started + s.out.length))
    (D := fun s => s.finished items = true)
    (fun s m s' ⟨moves, hs⟩ _ hnext => by
      have hs' := hs.step hnext
      refine ⟨⟨_, hs'⟩, ?_⟩
      have hbefore := hs.moves_eq
      have hafter := hs'.moves_eq
      have hle := hs'.moves_le
      omega)
    (fun s ⟨moves, hs⟩ hnot => by
      obtain ⟨m, s', hnext⟩ := hs.progress hn (Bool.not_eq_true _ ▸ hnot)
      exact ⟨m, s', True.intro, hnext⟩)
    ⟨_, counted h⟩
  refine ⟨rest, s', ?_, hdone⟩
  rw [Machine.exec_append, h]
  exact hrun

end Pool

end Buffered
