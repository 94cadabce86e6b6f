import Mathlib.Data.List.Nodup
import Mathlib.Data.List.Induction
import Mathlib.Data.List.TakeWhile

/-!
# `Lib.Firsts` — the first so many different elements that pass a test

A loop that goes through a list with a test, a set of what it has seen and a limit picks the first `n` different elements that
pass (`firsts`; `firsts_snoc_of_room` and `firsts_snoc_of_full` are one round of it). Whether one is picked is a matter of what stands before it (`mem_firsts_iff`). Two tests, one stricter than the
other, pick the same of what is wanted exactly if the stricter one overlooks nothing that is in time, and nothing is in time for it
only because of what it overlooks (`filter_firsts_eq_iff`).
-/

namespace Firsts

variable {α : Type} [BEq α] [LawfulBEq α]

/-- The first `n` different elements that pass. -/
def firsts (p : α → Bool) (n : Nat) (us : List α) : List α := ((us.filter p).eraseDups).take n

/-- The different elements that pass and stand before `u`. -/
def before (p : α → Bool) (us : List α) (u : α) : List α := ((us.takeWhile (fun v => !v == u)).filter p).eraseDups

/-! ## First occurrences -/

/-- First occurrences, one element more. -/
theorem eraseDups_snoc (us : List α) (u : α) :
    (us ++ [u]).eraseDups = us.eraseDups ++ if us.eraseDups.contains u then [] else [u] := by
  rw [List.eraseDups_append]
  by_cases hmem : u ∈ us
  · simp [hmem, List.removeAll]
  · simp [hmem, List.removeAll, List.eraseDups_cons]

theorem nodup_eraseDups (us : List α) : us.eraseDups.Nodup := by
  induction us using List.reverseRecOn with
  | nil => exact List.nodup_nil
  | append_singleton us u ih =>
      rw [eraseDups_snoc]
      by_cases hmem : u ∈ us.eraseDups
      · rw [if_pos (List.contains_iff_mem.mpr hmem), List.append_nil]
        exact ih
      · rw [if_neg (fun h => hmem (List.contains_iff_mem.mp h))]
        apply List.nodup_append.mpr
        refine ⟨ih, List.nodup_singleton u, ?_⟩
        rintro v hv w hw rfl
        exact hmem (List.mem_singleton.mp hw ▸ hv)

/-- The first occurrences that pass are the first occurrences of what passes. -/
theorem eraseDups_filter (p : α → Bool) (us : List α) : (us.filter p).eraseDups = us.eraseDups.filter p := by
  induction us using List.reverseRecOn with
  | nil => rfl
  | append_singleton us u ih =>
      rw [List.filter_append, eraseDups_snoc us u, List.filter_append, ← ih]
      cases hu : p u with
      | false =>
          rw [List.filter_cons_of_neg (by simp [hu]), List.filter_nil, List.append_nil]
          split
          · rw [List.filter_nil, List.append_nil]
          · rw [List.filter_cons_of_neg (by simp [hu]), List.filter_nil, List.append_nil]
      | true =>
          rw [List.filter_cons_of_pos hu, List.filter_nil, eraseDups_snoc]
          have hcontains : (us.filter p).eraseDups.contains u = us.eraseDups.contains u := by
            rw [Bool.eq_iff_iff, List.contains_iff_mem, List.contains_iff_mem, List.mem_eraseDups, List.mem_eraseDups,
              List.mem_filter]
            exact and_iff_left hu
          rw [hcontains]
          split
          · rfl
          · rw [List.filter_cons_of_pos hu, List.filter_nil]

/-- The first occurrences in a list, around that of one of its elements. -/
theorem eraseDups_split {us : List α} {u : α} (hu : u ∈ us) :
    ∃ rest, us.eraseDups = (us.takeWhile (fun v => !v == u)).eraseDups ++ u :: rest := by
  have hdrop : ∃ ys, us.dropWhile (fun v => !v == u) = u :: ys := by
    induction us with
    | nil => cases hu
    | cons v us ih =>
        by_cases hvu : v = u
        · exact ⟨us, by simp [hvu]⟩
        · obtain ⟨ys, hys⟩ := ih ((List.mem_cons.mp hu).resolve_left (Ne.symm hvu))
          refine ⟨ys, ?_⟩
          rw [List.dropWhile_cons, if_pos (by simpa using hvu)]
          exact hys
  obtain ⟨ys, hys⟩ := hdrop
  have hnot : u ∉ us.takeWhile (fun v => !v == u) := by
    intro hmem
    have := List.mem_takeWhile_imp hmem
    simp at this
  have hsplit : us = us.takeWhile (fun v => !v == u) ++ u :: ys := by
    rw [← hys, List.takeWhile_append_dropWhile]
  have hremove : (u :: ys).removeAll (us.takeWhile (fun v => !v == u)) =
      u :: ys.removeAll (us.takeWhile (fun v => !v == u)) := by
    unfold List.removeAll
    rw [List.filter_cons_of_pos]
    simpa using hnot
  refine ⟨((ys.removeAll (us.takeWhile (fun v => !v == u))).filter fun y => !y == u).eraseDups, ?_⟩
  conv_lhs => rw [hsplit]
  rw [List.eraseDups_append, hremove, List.eraseDups_cons]

/-- Where an element stands among the first occurrences. -/
theorem idxOf_eraseDups {us : List α} {u : α} (hu : u ∈ us) :
    us.eraseDups.idxOf u = (us.takeWhile (fun v => !v == u)).eraseDups.length := by
  obtain ⟨rest, hrest⟩ := eraseDups_split hu
  have hnot : u ∉ (us.takeWhile (fun v => !v == u)).eraseDups := by
    intro hmem
    have := List.mem_takeWhile_imp (List.mem_eraseDups.mp hmem)
    simp at this
  rw [hrest, List.idxOf_append_of_notMem hnot, List.idxOf_cons_self, Nat.add_zero]

/-- In a list without repetition, the position of an element is no more than a name for it. -/
theorem mapIdx_eq_map_idxOf {β : Type} {us : List α} (hnodup : us.Nodup) (f : Nat → α → β) :
    us.mapIdx f = us.map (fun u => f (us.idxOf u) u) := by
  apply List.ext_getElem
  · rw [List.length_mapIdx, List.length_map]
  · intro i hi hi'
    rw [List.getElem_mapIdx, List.getElem_map, hnodup.idxOf_getElem]

/-! ## What is picked -/

variable {p q : α → Bool} {n : Nat} {us : List α} {u : α}

theorem nodup_firsts : (firsts p n us).Nodup := (nodup_eraseDups _).sublist (List.take_sublist _ _)

/-- What passes before an element that passes. -/
theorem before_eq (hu : p u = true) : before p us u = ((us.filter p).takeWhile (fun v => !v == u)).eraseDups := by
  unfold before
  rw [List.takeWhile_filter]
  congr 2
  refine congrArg (fun p => List.takeWhile p us) (funext fun v => ?_)
  by_cases hvu : v = u
  · simp [hvu, hu]
  · simp [hvu]

/-- **An element is picked** exactly if it is there, passes, and comes in time. -/
theorem mem_firsts_iff : u ∈ firsts p n us ↔ u ∈ us ∧ p u = true ∧ (before p us u).length < n := by
  unfold firsts
  by_cases hmem : u ∈ us.filter p
  · obtain ⟨hus, hu⟩ := List.mem_filter.mp hmem
    rw [List.mem_take_iff_idxOf_lt (List.mem_eraseDups.mpr hmem), idxOf_eraseDups hmem, before_eq hu]
    exact ⟨fun h => ⟨hus, hu, h⟩, fun h => h.2.2⟩
  · constructor
    · intro h
      exact absurd (List.mem_eraseDups.mp (List.mem_of_mem_take h)) hmem
    · rintro ⟨hus, hu, -⟩
      exact absurd (List.mem_filter.mpr ⟨hus, hu⟩) hmem

/-- Its place among the picked is the number of those before it. -/
theorem idxOf_firsts (h : u ∈ firsts p n us) : (firsts p n us).idxOf u = (before p us u).length := by
  obtain ⟨hus, hu, -⟩ := mem_firsts_iff.mp h
  rw [before_eq hu, ← idxOf_eraseDups (List.mem_filter.mpr ⟨hus, hu⟩)]
  exact (List.take_prefix _ _).idxOf_eq_of_mem h

/-! ## The loop -/

/-- What passes, each element once, with one element more. -/
theorem filter_eraseDups_snoc (p : α → Bool) (us : List α) (u : α) :
    ((us ++ [u]).filter p).eraseDups =
      (us.filter p).eraseDups ++ if p u && !(us.filter p).eraseDups.contains u then [u] else [] := by
  rw [List.filter_append]
  cases hu : p u with
  | false =>
      rw [List.filter_cons_of_neg (by simp [hu]), List.filter_nil, List.append_nil, Bool.false_and,
        if_neg Bool.false_ne_true, List.append_nil]
  | true =>
      rw [List.filter_cons_of_pos hu, List.filter_nil, eraseDups_snoc, Bool.true_and]
      cases (us.filter p).eraseDups.contains u with
      | false => rfl
      | true => rfl

/-- Below the limit a new element that passes is picked. -/
theorem firsts_snoc_of_room (hroom : (firsts p n us).length < n) (u : α) :
    firsts p n (us ++ [u]) = firsts p n us ++ if p u && !(firsts p n us).contains u then [u] else [] := by
  -- nothing has been cut off yet
  have hall : firsts p n us = (us.filter p).eraseDups := by
    apply List.take_of_length_le
    unfold firsts at hroom
    rw [List.length_take] at hroom
    omega
  rw [hall, ← filter_eraseDups_snoc]
  apply List.take_of_length_le
  rw [filter_eraseDups_snoc, ← hall, List.length_append]
  split
  · exact hroom
  · exact Nat.le_of_lt hroom

/-- At the limit whatever comes after is cut off. -/
theorem firsts_snoc_of_full (hfull : ¬ (firsts p n us).length < n) (u : α) : firsts p n (us ++ [u]) = firsts p n us := by
  unfold firsts at hfull ⊢
  rw [List.length_take] at hfull
  rw [filter_eraseDups_snoc, List.take_append_of_le_length (by omega)]

/-! ## Two tests -/

theorem filter_of_imp {β : Type} {p q : β → Bool} {us : List β} (h : ∀ v, p v = true → q v = true) :
    us.filter p = (us.filter q).filter p := by
  rw [List.filter_filter]
  apply List.filter_congr
  intro v _
  cases hp : p v with
  | false => rfl
  | true => rw [h v hp]; rfl

/-- A stricter test lets no more pass before an element. -/
theorem length_before_le (h : ∀ v, p v = true → q v = true) : (before p us u).length ≤ (before q us u).length := by
  unfold before
  rw [filter_of_imp h, eraseDups_filter p]
  exact List.length_filter_le _ _

/-- What a stricter test picks, as a part of all that passes the other one. -/
theorem firsts_eq_filter (h : ∀ v, p v = true → q v = true) :
    firsts p n us = ((us.filter q).eraseDups).filter (firsts p n us).elem := by
  have htake : firsts p n us = ((us.filter p).eraseDups).filter (firsts p n us).elem :=
    (nodup_eraseDups _).take_eq_filter_mem
  conv_lhs => rw [htake, filter_of_imp h, eraseDups_filter p, List.filter_filter]
  apply List.filter_congr
  intro v _
  cases helem : (firsts p n us).elem v with
  | false => rfl
  | true => exact (mem_firsts_iff.mp (List.elem_iff.mp helem)).2.1

/-- **Two tests, one stricter than the other**, pick the same of what is wanted exactly if the stricter one overlooks nothing wanted
    that is in time, and nothing wanted is in time for it only because of what it overlooks. -/
theorem filter_firsts_eq_iff (h : ∀ v, p v = true → q v = true) (wanted : α → Bool) :
    (firsts p n us).filter wanted = (firsts q n us).filter wanted ↔
      (∀ u ∈ us, q u = true → p u = false → wanted u = true → n ≤ (before q us u).length) ∧
        ∀ u ∈ us, p u = true → wanted u = true → n ≤ (before q us u).length → n ≤ (before p us u).length := by
  constructor
  · intro heq
    have hmem (u : α) (hwanted : wanted u = true) : u ∈ firsts p n us ↔ u ∈ firsts q n us := by
      have hiff : u ∈ (firsts p n us).filter wanted ↔ u ∈ (firsts q n us).filter wanted := by rw [heq]
      rwa [List.mem_filter, List.mem_filter, and_iff_left hwanted, and_iff_left hwanted] at hiff
    refine ⟨fun u hus hq hp hwanted => ?_, fun u hus hp hwanted hlate => ?_⟩
    · by_contra hlt
      have hpicked := (hmem u hwanted).mpr (mem_firsts_iff.mpr ⟨hus, hq, Nat.not_le.mp hlt⟩)
      rw [(mem_firsts_iff.mp hpicked).2.1] at hp
      cases hp
    · by_contra hlt
      have hpicked := (hmem u hwanted).mp (mem_firsts_iff.mpr ⟨hus, hp, Nat.not_le.mp hlt⟩)
      exact Nat.not_lt.mpr hlate (mem_firsts_iff.mp hpicked).2.2
  · rintro ⟨hoverlooked, hlate⟩
    rw [firsts_eq_filter h, firsts_eq_filter (p := q) fun _ hq => hq, List.filter_filter, List.filter_filter]
    apply List.filter_congr
    intro v _
    cases hwanted : wanted v with
    | false => rfl
    | true =>
        rw [Bool.true_and, Bool.true_and, Bool.eq_iff_iff, List.elem_iff, List.elem_iff, mem_firsts_iff, mem_firsts_iff]
        constructor
        · rintro ⟨hus, hp, hlt⟩
          refine ⟨hus, h v hp, ?_⟩
          by_contra hq
          exact Nat.not_lt.mpr (hlate v hus hp hwanted (Nat.not_lt.mp hq)) hlt
        · rintro ⟨hus, hq, hlt⟩
          have hp : p v = true := by
            by_contra hp
            exact Nat.not_lt.mpr (hoverlooked v hus hq (Bool.not_eq_true _ ▸ hp) hwanted) hlt
          exact ⟨hus, hp, Nat.lt_of_le_of_lt (length_before_le h) hlt⟩

end Firsts
