import Mathlib.Data.List.Infix
import Mathlib.Data.List.Induction

/-!
# `Lib.Runs` — shortening the runs of one element

A scanner counts the elements `a` it reads one after the other, and keeps the `k`-th of a run if `keep k`. Two of them that
agree below a bound agree on the sequences whose runs do not come to it (`keepRuns_eq_iff`). Keeping the first `k` of each
run is shortening the maximal runs (`keepRuns_eq_capRuns`).
-/

namespace Runs

variable {α : Type}

/-! ## Runs next to another element -/

/-- A run does not go past another element. -/
theorem not_replicate_prefix {a c : α} {k n : Nat} (hc : c ≠ a) (hn : n < k) (t : List α) :
    ¬ List.replicate k a <+: List.replicate n a ++ c :: t := by
  induction n generalizing k with
  | zero =>
      obtain ⟨k, rfl⟩ : ∃ j, k = j + 1 := ⟨k - 1, by omega⟩
      rw [List.replicate_succ]
      exact fun h => hc (List.cons_prefix_cons.mp h).1.symm
  | succ n ih =>
      obtain ⟨k, rfl⟩ : ∃ j, k = j + 1 := ⟨k - 1, by omega⟩
      rw [List.replicate_succ, List.replicate_succ, List.cons_append]
      exact fun h => ih (by omega) (List.cons_prefix_cons.mp h).2

theorem replicate_infix_iff {a c : α} {k n : Nat} (hc : c ≠ a) (hn : n < k) (t : List α) :
    List.replicate k a <:+: List.replicate n a ++ c :: t ↔ List.replicate k a <:+: t := by
  induction n with
  | zero =>
      have hprefix : ¬ List.replicate k a <+: c :: t := not_replicate_prefix hc hn t
      rw [List.replicate_zero, List.nil_append, List.infix_cons_iff, or_iff_right hprefix]
  | succ n ih =>
      have hprefix : ¬ List.replicate k a <+: a :: (List.replicate n a ++ c :: t) := not_replicate_prefix hc hn t
      rw [List.replicate_succ, List.cons_append, List.infix_cons_iff, or_iff_right hprefix]
      exact ih (by omega)

/-! ## The scanner -/

variable [DecidableEq α] (a : α)

/-- The sequence with the `k`-th `a` of a run kept if `keep k`; `n` of the run have been read before. -/
def keepRuns (keep : Nat → Bool) : Nat → List α → List α
  | _, [] => []
  | n, c :: t =>
      if c = a then (if keep (n + 1) then a :: keepRuns keep (n + 1) t else keepRuns keep (n + 1) t)
      else c :: keepRuns keep 0 t

/-- Some run comes to `k`, if `n` of the first have been read before. -/
def Reaches (k : Nat) : Nat → List α → Prop
  | _, [] => False
  | n, c :: t => if c = a then n + 1 = k ∨ Reaches k (n + 1) t else Reaches k 0 t

variable {a} {keep keep' : Nat → Bool} {k n : Nat}

theorem keepRuns_cons_self (t : List α) :
    keepRuns a keep n (a :: t) = (if keep (n + 1) then [a] else []) ++ keepRuns a keep (n + 1) t := by
  rw [keepRuns, if_pos rfl]
  split <;> rfl

theorem keepRuns_cons_of_ne {c : α} (hc : c ≠ a) (t : List α) : keepRuns a keep n (c :: t) = c :: keepRuns a keep 0 t := by
  rw [keepRuns, if_neg hc]

theorem reaches_cons_self (t : List α) : Reaches a k n (a :: t) ↔ n + 1 = k ∨ Reaches a k (n + 1) t := by
  rw [Reaches, if_pos rfl]

theorem reaches_cons_of_ne {c : α} (hc : c ≠ a) (t : List α) : Reaches a k n (c :: t) ↔ Reaches a k 0 t := by
  rw [Reaches, if_neg hc]

/-! ## Runs as parts of the sequence -/

/-- **A run comes to `k`** if `k` times the element is part of the sequence. -/
theorem reaches_iff_infix (hn : n < k) (t : List α) :
    Reaches a k n t ↔ List.replicate k a <:+: List.replicate n a ++ t := by
  induction t generalizing n with
  | nil =>
      apply iff_of_false id
      intro h
      have hlength := h.length_le
      rw [List.append_nil, List.length_replicate, List.length_replicate] at hlength
      omega
  | cons c t ih =>
      by_cases hc : c = a
      · subst hc
        have hsnoc : List.replicate n c ++ c :: t = List.replicate (n + 1) c ++ t := by
          rw [List.replicate_succ', List.append_assoc, List.singleton_append]
        rw [reaches_cons_self, hsnoc]
        by_cases hlast : n + 1 = k
        · apply iff_of_true (.inl hlast)
          rw [hlast]
          exact (List.prefix_append _ t).isInfix
        · rw [or_iff_right hlast]
          exact ih (by omega)
      · rw [reaches_cons_of_ne hc, replicate_infix_iff hc hn]
        exact ih (by omega)

theorem reaches_zero_iff (hk : 0 < k) (t : List α) : Reaches a k 0 t ↔ List.replicate k a <:+: t := reaches_iff_infix hk t

/-! ## What is kept -/

theorem keepRuns_sublist (t : List α) : (keepRuns a keep n t).Sublist t := by
  induction t generalizing n with
  | nil => exact List.Sublist.refl []
  | cons c t ih =>
      by_cases hc : c = a
      · subst hc
        rw [keepRuns_cons_self]
        split
        · exact ih.cons_cons c
        · exact ih.cons c
      · rw [keepRuns_cons_of_ne hc]
        exact ih.cons_cons c

/-- Who keeps more leaves a longer sequence. -/
theorem length_keepRuns_le (hmore : ∀ j, keep j = true → keep' j = true) (t : List α) :
    (keepRuns a keep n t).length ≤ (keepRuns a keep' n t).length := by
  induction t generalizing n with
  | nil => exact Nat.le_refl 0
  | cons c t ih =>
      by_cases hc : c = a
      · subst hc
        rw [keepRuns_cons_self, keepRuns_cons_self, List.length_append, List.length_append]
        apply Nat.add_le_add _ ih
        cases hkeep : keep (n + 1) with
        | true => rw [hmore _ hkeep]
        | false => exact Nat.zero_le _
      · rw [keepRuns_cons_of_ne hc, keepRuns_cons_of_ne hc]
        exact Nat.succ_le_succ ih

/-- **Two ways to shorten** that agree below `k`, where the one keeps what the other does not, agree on the sequences whose
    runs do not come to `k`, and on no others. -/
theorem keepRuns_eq_iff (hbelow : ∀ j < k, keep j = keep' j) (hmore : ∀ j, keep j = true → keep' j = true)
    (hdrop : keep k = false) (hkeep : keep' k = true) (hn : n < k) (t : List α) :
    keepRuns a keep n t = keepRuns a keep' n t ↔ ¬ Reaches a k n t := by
  induction t generalizing n with
  | nil => exact iff_of_true rfl id
  | cons c t ih =>
      by_cases hc : c = a
      · subst hc
        rw [keepRuns_cons_self, keepRuns_cons_self, reaches_cons_self]
        by_cases hlast : n + 1 = k
        · apply iff_of_false _ (not_not_intro (.inl hlast))
          -- from here on the lengths differ
          intro heq
          have hlength := congrArg List.length heq
          have hle := length_keepRuns_le (a := c) (n := n + 1) hmore t
          rw [hlast, hdrop, hkeep, List.length_append, List.length_append, if_pos rfl, if_neg Bool.false_ne_true] at hlength
          rw [hlast] at hle
          simp only [List.length_nil, List.length_singleton] at hlength
          omega
        · rw [hbelow (n + 1) (by omega), List.append_cancel_left_eq, ih (by omega), or_iff_right hlast]
      · rw [keepRuns_cons_of_ne hc, keepRuns_cons_of_ne hc, List.cons_inj_right, reaches_cons_of_ne hc]
        exact ih (by omega)

theorem keepRuns_all (t : List α) : keepRuns a (fun _ => true) n t = t := by
  induction t generalizing n with
  | nil => rfl
  | cons c t ih =>
      by_cases hc : c = a
      · subst hc
        rw [keepRuns_cons_self, ih]
        rfl
      · rw [keepRuns_cons_of_ne hc, ih]

/-- **Runs that are cut at `k`** do not go on. -/
theorem not_reaches_keepRuns (k n : Nat) (t : List α) :
    ¬ Reaches a (k + 1) (min n k) (keepRuns a (fun j => decide (j ≤ k)) n t) := by
  induction t generalizing n with
  | nil => exact id
  | cons c t ih =>
      by_cases hc : c = a
      · subst hc
        rw [keepRuns_cons_self]
        by_cases hroom : n + 1 ≤ k
        · have hmin : min n k + 1 = min (n + 1) k := by omega
          rw [if_pos (decide_eq_true hroom), List.singleton_append, reaches_cons_self, hmin]
          rintro (hlast | hrest)
          · omega
          · exact ih (n + 1) hrest
        · have hmin : min n k = min (n + 1) k := by omega
          rw [if_neg (by simpa using hroom), List.nil_append, hmin]
          exact ih (n + 1)
      · have hmin : 0 = min 0 k := (Nat.zero_min _).symm
        rw [keepRuns_cons_of_ne hc, reaches_cons_of_ne hc, hmin]
        exact ih 0

/-! ## Maximal runs -/

variable (a) in
/-- The plain reading: every maximal run of more than `k` is `k` long, everything else is as it was. -/
def capRuns (k : Nat) : List α → List α
  | [] => []
  | c :: t =>
      if c = a then ((c :: t).takeWhile fun x => x = a).take k ++ capRuns k (t.dropWhile fun x => x = a)
      else c :: capRuns k t
termination_by s => s.length
decreasing_by
  · have hle := (t.dropWhile_sublist fun x => decide (x = a)).length_le
    simp only [List.length_cons]
    omega
  · simp

/-- Of the run that is being read, what is missing to `k` is kept. -/
theorem keepRuns_eq_take (k n : Nat) (t : List α) :
    keepRuns a (fun j => decide (j ≤ k)) n t = (t.takeWhile fun x => x = a).take (k - n) ++
      keepRuns a (fun j => decide (j ≤ k)) 0 (t.dropWhile fun x => x = a) := by
  induction t generalizing n with
  | nil => rw [List.takeWhile_nil, List.take_nil]; rfl
  | cons c t ih =>
      by_cases hc : c = a
      · subst hc
        have htake : ((c :: t).takeWhile fun x => x = c) = c :: t.takeWhile fun x => x = c := by simp
        have hdrop : ((c :: t).dropWhile fun x => x = c) = t.dropWhile fun x => x = c := by simp
        rw [keepRuns_cons_self, htake, hdrop, ih (n + 1)]
        by_cases hroom : n + 1 ≤ k
        · rw [if_pos (decide_eq_true hroom), show k - n = k - (n + 1) + 1 by omega, List.take_succ_cons]
          rfl
        · rw [if_neg (by simpa using hroom), show k - n = 0 by omega, show k - (n + 1) = 0 by omega, List.take_zero,
            List.take_zero]
          rfl
      · rw [List.takeWhile_cons_of_neg (by simpa using hc), List.dropWhile_cons_of_neg (by simpa using hc), List.take_nil,
          keepRuns_cons_of_ne hc, keepRuns_cons_of_ne hc]
        rfl

/-- **Counting shortens exactly the maximal runs.** -/
theorem keepRuns_eq_capRuns (k : Nat) (t : List α) : keepRuns a (fun j => decide (j ≤ k)) 0 t = capRuns a k t := by
  fun_induction capRuns a k t with
  | case1 => rfl
  | case2 t ih =>
      have hdrop : ((a :: t).dropWhile fun x => x = a) = t.dropWhile fun x => x = a := by simp
      rw [keepRuns_eq_take, ← ih, hdrop, Nat.sub_zero]
  | case3 c t hc ih => rw [keepRuns_cons_of_ne hc, ih]

/-! ## Parts -/

/-- After another element the count begins anew. -/
theorem keepRuns_append_cons {c : α} (hc : c ≠ a) (s t : List α) :
    keepRuns a keep n (s ++ c :: t) = keepRuns a keep n s ++ c :: keepRuns a keep 0 t := by
  induction s generalizing n with
  | nil => exact keepRuns_cons_of_ne hc t
  | cons d s ih =>
      rw [List.cons_append]
      by_cases hd : d = a
      · subst hd
        rw [keepRuns_cons_self, keepRuns_cons_self, ih, List.append_assoc]
      · rw [keepRuns_cons_of_ne hd, keepRuns_cons_of_ne hd, ih, List.cons_append]

/-- **A part that neither begins nor ends in a run** is shortened by itself. -/
theorem keepRuns_middle {pre s post : List α} (hne : s ≠ []) (hhead : ∀ c ∈ s.head?, c ≠ a)
    (hlast : ∀ c ∈ s.getLast?, c ≠ a) :
    keepRuns a keep n (pre ++ s ++ post) = keepRuns a keep n pre ++ keepRuns a keep 0 s ++ keepRuns a keep 0 post := by
  have hleft : keepRuns a keep n (pre ++ s) = keepRuns a keep n pre ++ keepRuns a keep 0 s := by
    cases s with
    | nil => exact absurd rfl hne
    | cons c s => rw [keepRuns_append_cons (hhead c rfl), keepRuns_cons_of_ne (hhead c rfl)]
  rw [← hleft]
  rcases List.eq_nil_or_concat s with rfl | ⟨init, d, rfl⟩
  · exact absurd rfl hne
  · rw [List.concat_eq_append] at hlast ⊢
    have hd : d ≠ a := hlast d (by rw [List.getLast?_concat]; rfl)
    rw [← List.append_assoc, List.append_assoc, List.singleton_append, keepRuns_append_cons hd, keepRuns_append_cons hd]
    rw [List.append_assoc]
    rfl

theorem head?_keepRuns {s : List α} (hhead : ∀ c ∈ s.head?, c ≠ a) : (keepRuns a keep n s).head? = s.head? := by
  cases s with
  | nil => rfl
  | cons c s => rw [keepRuns_cons_of_ne (hhead c rfl), List.head?_cons, List.head?_cons]

theorem getLast?_keepRuns {s : List α} (hlast : ∀ c ∈ s.getLast?, c ≠ a) :
    (keepRuns a keep n s).getLast? = s.getLast? := by
  rcases List.eq_nil_or_concat s with rfl | ⟨init, d, rfl⟩
  · rfl
  · rw [List.concat_eq_append] at hlast ⊢
    have hd : d ≠ a := hlast d (by rw [List.getLast?_concat]; rfl)
    rw [keepRuns_append_cons hd, keepRuns, List.getLast?_concat, List.getLast?_concat]

end Runs
