import Mathlib.Algebra.Order.Ring.Rat
import Mathlib.Tactic.FieldSimp
import Mathlib.Tactic.NormNum
import McpWebSearch.Ratelimit

/-!
# `Correctness.Ratelimit` — the token bucket admits no more than its rate

The tokens in the bucket are a potential (`Lib.Meter`) for burst `max rate 1` and rate `rate`: a call refills
for the time that passed, capped, and an admitted call takes one. Refused calls move `lastRefill` too, and lose
nothing by it, since their refill is stored.
-/

namespace McpWebSearch
namespace TokenBucket

/-- What `new` establishes and every call keeps. -/
structure Inv (rate : Rat) (b : TokenBucket) : Prop where
  rate_eq : b.rate = rate
  rate_pos : 0 < rate
  capacity_eq : b.capacity = max rate 1
  tokens_nonneg : 0 ≤ b.tokens
  tokens_le : b.tokens ≤ b.capacity

/-- A new bucket is full. -/
theorem inv_new {rate : Rat} (hrate : 0 < rate) (t₀ : Rat) : Inv rate (new t₀ rate) where
  rate_eq := rfl
  rate_pos := hrate
  capacity_eq := rfl
  tokens_nonneg := le_trans zero_le_one (le_max_right rate 1)
  tokens_le := le_refl _

/-- The tokens at hand at an instant: what is stored and the refill since then, capped. -/
def available (b : TokenBucket) (now : Rat) : Rat :=
  min (b.tokens + (now - b.lastRefill) * b.rate) b.capacity

theorem available_nonneg {rate : Rat} {b : TokenBucket} {now : Rat} (hb : Inv rate b)
    (hnow : b.lastRefill ≤ now) : 0 ≤ b.available now := by
  have hrefill := mul_nonneg (sub_nonneg.mpr hnow) (le_of_lt hb.rate_pos)
  rw [← hb.rate_eq] at hrefill
  apply le_min
  · linarith [hb.tokens_nonneg]
  · exact le_trans hb.tokens_nonneg hb.tokens_le

/-- **What a call does.** It is admitted when a token is at hand, and stores what is left. -/
theorem tryAcquire_eq {rate : Rat} {b : TokenBucket} {now : Rat} (hb : Inv rate b)
    (hnow : b.lastRefill ≤ now) :
    b.tryAcquire now =
      (decide (1 ≤ b.available now),
        { b with tokens := b.available now - (if 1 ≤ b.available now then 1 else 0), lastRefill := now }) := by
  have hne : b.rate ≠ 0 := by
    rw [hb.rate_eq]
    exact ne_of_gt hb.rate_pos
  have helapsed : max (now - b.lastRefill) 0 = now - b.lastRefill :=
    max_eq_left (sub_nonneg.mpr hnow)
  unfold tryAcquire
  rw [if_neg hne, helapsed]
  show (if 1 ≤ b.available now then _ else _) = _
  by_cases hone : 1 ≤ b.available now
  · rw [if_pos hone, if_pos hone, decide_eq_true hone]
    rfl
  · rw [if_neg hone, if_neg hone, decide_eq_false hone, sub_zero]
    rfl

variable {rate : Rat} {b b' : TokenBucket} {c : Call}

/-- A step of the meter is a call at an instant not before the last one. -/
theorem next_eq_some_iff : calls.next b c = some b' ↔ b.lastRefill ≤ c.now ∧ (b.tryAcquire c.now).2 = b' := by
  show (if b.lastRefill ≤ c.now then some (b.tryAcquire c.now).2 else none) = some b' ↔ _
  by_cases hnow : b.lastRefill ≤ c.now
  · rw [if_pos hnow]
    simp [hnow]
  · rw [if_neg hnow]
    simp [hnow]

/-- The cost of a call is the token it takes. -/
theorem cost_eq (hb : Inv rate b) (hnow : b.lastRefill ≤ c.now) :
    calls.cost b c = if 1 ≤ b.available c.now then 1 else 0 := by
  show (if (b.tryAcquire c.now).1 = true then (1 : Rat) else 0) = _
  rw [tryAcquire_eq hb hnow]
  simp

/-- One call: nothing but the tokens and the instant changes, and the tokens it leaves with the one it takes
    are those at hand. -/
theorem next_spec (hb : Inv rate b) (h : calls.next b c = some b') :
    b'.tokens + calls.cost b c = b.available c.now ∧ 0 ≤ b'.tokens ∧ b'.lastRefill = c.now ∧
      b'.rate = b.rate ∧ b'.capacity = b.capacity := by
  obtain ⟨hnow, rfl⟩ := next_eq_some_iff.mp h
  rw [cost_eq hb hnow, tryAcquire_eq hb hnow]
  refine ⟨by simp, ?_, rfl, rfl, rfl⟩
  show 0 ≤ b.available c.now - (if 1 ≤ b.available c.now then 1 else 0)
  split
  next hone => exact sub_nonneg.mpr hone
  next => simpa using available_nonneg hb hnow

/-- Every call keeps the invariant. -/
theorem inv_next (hb : Inv rate b) (h : calls.next b c = some b') : Inv rate b' := by
  obtain ⟨htokens, hnonneg, -, hrate, hcap⟩ := next_spec hb h
  have hle : b.available c.now ≤ b.capacity := min_le_right _ _
  exact {
    rate_eq := hrate.trans hb.rate_eq
    rate_pos := hb.rate_pos
    capacity_eq := hcap.trans hb.capacity_eq
    tokens_nonneg := hnonneg
    tokens_le := by
      rw [hcap]
      linarith [calls.cost_nonneg b c] }

/-- **The tokens are a potential** for the capacity as burst and the bucket's rate. -/
def potential (hrate : 0 < rate) : calls.Potential (max rate 1) rate where
  inv := Inv rate
  clock := TokenBucket.lastRefill
  level := TokenBucket.tokens
  rate_nonneg := le_of_lt hrate
  inv_next := inv_next
  clock_le := fun h => (next_eq_some_iff.mp h).1
  clock_next := fun hb h => (next_spec hb h).2.2.1
  level_nonneg := fun hb => hb.tokens_nonneg
  level_le := fun hb => hb.capacity_eq ▸ hb.tokens_le
  burst := by
    intro s l s' hb h
    rw [(next_spec hb h).1, ← hb.capacity_eq]
    exact min_le_right _ _
  refill := by
    intro s l s' hb h
    rw [(next_spec hb h).1, mul_comm, ← hb.rate_eq]
    exact min_le_left _ _

/-- The bucket admits a call as soon as its tokens and the refill come to one. -/
theorem potential_generous (hrate : 0 < rate) : (potential hrate).Generous := by
  intro b c b' hb h havail
  have hnow := (next_eq_some_iff.mp h).1
  show (b.tryAcquire c.now).1 = true
  rw [tryAcquire_eq hb hnow]
  apply decide_eq_true
  apply le_min
  · rw [hb.rate_eq, mul_comm]
    exact havail
  · rw [hb.capacity_eq]
    exact le_max_right _ _

/-- Calls at non-decreasing instants are a run of the meter. -/
theorem exec_of_serial {cs : List Call} (hb : Inv rate b)
    (hserial : (b.lastRefill :: cs.map Call.now).IsChain (· ≤ ·)) : ∃ b', calls.exec b cs = some b' := by
  induction cs generalizing b with
  | nil => exact ⟨b, rfl⟩
  | cons c cs ih =>
      obtain ⟨hnow, hrest⟩ := List.isChain_cons_cons.mp hserial
      have hnext : calls.next b c = some (b.tryAcquire c.now).2 := next_eq_some_iff.mpr ⟨hnow, rfl⟩
      have hclock := (next_spec hb hnext).2.2.1
      obtain ⟨b', hrun⟩ := ih (inv_next hb hnext) (by rw [hclock]; exact hrest)
      exact ⟨b', Option.bind_eq_some_iff.mpr ⟨_, hnext, hrun⟩⟩

/-- The last call of a run is where the clock stands. -/
theorem lastRefill_exec {cs : List Call} (hb : Inv rate b) (h : calls.exec b (cs ++ [c]) = some b') :
    b'.lastRefill = c.now := by
  obtain ⟨m, hm, hlast⟩ := Machine.exec_snoc calls.toMachine h
  exact (next_spec ((potential hb.rate_pos).inv_exec hb hm) hlast).2.2.1

/-- After any run, calls at least `1 / rate` apart, the first one from the last call before, are all
    admitted. A run from a new bucket may start with such calls at once. -/
theorem spaced_calls_admitted {t₀ : Rat} {before after : List Call} (hrate : 0 < rate)
    (hrun : calls.exec (new t₀ rate) (before ++ after) = some b')
    (hspaced : (before.getLast?.toList ++ after).IsChain (fun c d => 1 / rate ≤ d.now - c.now)) :
    ∃ m, calls.exec (new t₀ rate) before = some m ∧ calls.admitted m after = after := by
  have hone : 1 ≤ rate * (1 / rate) := le_of_eq (by field_simp)
  have hnew := inv_new hrate t₀
  rw [Machine.exec_append] at hrun
  obtain ⟨m, hbefore, hafter⟩ := Option.bind_eq_some_iff.mp hrun
  have hm := (potential hrate).inv_exec hnew hbefore
  refine ⟨m, hbefore, (potential hrate).admitted_of_spaced (potential_generous hrate) hone hm ?_
    (List.isChain_append.mp hspaced).2.1 hafter⟩
  intro d hd
  show 1 ≤ m.tokens + rate * (d.now - m.lastRefill)
  rcases List.eq_nil_or_concat' before with hnil | ⟨front, c, hlast⟩
  · -- the first call of all: the bucket is full
    subst hnil
    cases hbefore
    obtain ⟨first, rest, hcons⟩ : ∃ first rest, after = first :: rest := by
      cases after with
      | nil => cases hd
      | cons first rest => exact ⟨first, rest, rfl⟩
    subst hcons
    cases hd
    have hstart := (next_eq_some_iff.mp (Option.bind_eq_some_iff.mp hafter).choose_spec.1).1
    have hrefill := mul_nonneg (le_of_lt hrate) (sub_nonneg.mpr hstart)
    have hfull : 1 ≤ (new t₀ rate).tokens := le_max_right rate 1
    linarith
  · -- the gap to the call before refills one token
    subst hlast
    have hgap : 1 / rate ≤ d.now - c.now := by
      apply (List.isChain_append.mp hspaced).2.2 c _ d hd
      simp
    rw [lastRefill_exec hnew hbefore]
    have hscaled := mul_le_mul_of_nonneg_left hgap (le_of_lt hrate)
    linarith [hm.tokens_nonneg]

/-- **The token bucket bound.** From a new bucket, calls of any tasks at non-decreasing instants: in every
    window `[s, t]` at most `capacity + rate * (t - s)` of them are admitted, the tokens stay between zero and
    the capacity, and calls spaced `1 / rate` apart are never refused. -/
theorem token_bucket_bound (t₀ rate : Rat) (hrate : 0 < rate) (cs : List Call)
    (hserial : (t₀ :: cs.map Call.now).IsChain (· ≤ ·)) :
    ∃ b, calls.exec (new t₀ rate) cs = some b ∧
      (∀ s t, s ≤ t → (calls.countIn (new t₀ rate) cs s t : Rat) ≤ max rate 1 + rate * (t - s)) ∧
      (0 ≤ b.tokens ∧ b.tokens ≤ b.capacity ∧ b.capacity = max rate 1) ∧
      ∀ before after, cs = before ++ after →
        (before.getLast?.toList ++ after).IsChain (fun c d => 1 / rate ≤ d.now - c.now) →
        ∃ m, calls.exec (new t₀ rate) before = some m ∧ calls.admitted m after = after := by
  have hnew := inv_new hrate t₀
  obtain ⟨b, hrun⟩ := exec_of_serial hnew hserial
  have hb := (potential hrate).inv_exec hnew hrun
  refine ⟨b, hrun, ?_, ⟨hb.tokens_nonneg, hb.tokens_le, hb.capacity_eq⟩, ?_⟩
  · intro s t hst
    exact (potential hrate).countIn_le hnew hst hrun
  · intro before after hsplit hspaced
    rw [hsplit] at hrun
    exact spaced_calls_admitted hrate hrun hspaced

/-- Two tasks at rate one half: the second call, two seconds later, is admitted. -/
theorem token_bucket_bound_half :
    ∃ b, calls.exec (new 0 (1 / 2)) [⟨0, 0⟩, ⟨1, 2⟩] = some b ∧
      (∀ s t, s ≤ t → (calls.countIn (new 0 (1 / 2)) [⟨0, 0⟩, ⟨1, 2⟩] s t : Rat) ≤
        max (1 / 2) 1 + 1 / 2 * (t - s)) ∧
      (0 ≤ b.tokens ∧ b.tokens ≤ b.capacity ∧ b.capacity = max (1 / 2) 1) ∧
      ∀ before after, [⟨0, 0⟩, ⟨1, 2⟩] = before ++ after →
        (before.getLast?.toList ++ after).IsChain (fun c d => 1 / (1 / 2) ≤ d.now - c.now) →
        ∃ m, calls.exec (new 0 (1 / 2)) before = some m ∧ calls.admitted m after = after :=
  token_bucket_bound 0 (1 / 2) (by norm_num) [⟨0, 0⟩, ⟨1, 2⟩] (by simp)

end TokenBucket
end McpWebSearch
