import McpWebSearch.Actions.Scrape.Counters
import McpWebSearch.Correctness.Markdown

/-!
# `Correctness.Cleanup` — when `cleanup_md` squeezes newlines and trims

The byte loop reads the text one character after the other, so it never cuts one. It drops the third newline of a run and
the ones after it by a `u32` counter: a debug build fails at the `2^32`-th, a release build starts again and keeps it. A run
of that length is all that is in the way (`cleanup_squeezes_iff`); where the text has none, the counter without a bound does
the same (`cleanupMd32_eq`).
-/

namespace McpWebSearch
namespace Scrape

open Utf8 Runs

/-! ## The counter -/

theorem toNat_ofNat_u32 (n : Nat) : (UInt32.ofNat n).toNat = n % UInt32.size := UInt32.toNat_ofNat'

theorem ofNat_add_one_u32 (n : Nat) : UInt32.ofNat n + 1 = UInt32.ofNat (n + 1) := (UInt32.ofNat_add n 1).symm

/-- Counting on, where the build allows it. -/
theorem incU32_of_room {profile : Profile} {n : UInt32} (hroom : profile = .debug → n.toNat + 1 < UInt32.size) :
    incU32 profile n = .ok (n + 1) := by
  cases profile with
  | debug => exact if_pos (hroom rfl)
  | release => rfl

theorem incU32_of_full {n : UInt32} (hfull : ¬ n.toNat + 1 < UInt32.size) : incU32 .debug n = .error .addOverflow :=
  if_neg hfull

theorem incU32_ok {profile : Profile} {n : Nat} (hn : profile = .debug → n + 1 < UInt32.size) :
    incU32 profile (UInt32.ofNat n) = .ok (UInt32.ofNat (n + 1)) := by
  rw [← ofNat_add_one_u32]
  apply incU32_of_room
  intro hdebug
  have hlt := hn hdebug
  rw [toNat_ofNat_u32, Nat.mod_eq_of_lt (Nat.lt_of_succ_lt hlt)]
  exact hlt

theorem incU32_overflow {n : Nat} (hn : n + 1 = UInt32.size) :
    incU32 .debug (UInt32.ofNat n) = .error .addOverflow := by
  have hlt : n < UInt32.size := by omega
  apply incU32_of_full
  rw [toNat_ofNat_u32, Nat.mod_eq_of_lt hlt]
  omega

/-- Which newlines of a run the `u32` counter keeps. -/
def keepWrapped (j : Nat) : Bool := j % UInt32.size ≤ 2

theorem ofNat_le_two_iff (n : Nat) : UInt32.ofNat n ≤ 2 ↔ keepWrapped n = true := by
  have htwo : (2 : UInt32).toNat = 2 := rfl
  rw [UInt32.le_iff_toNat_le, toNat_ofNat_u32, htwo]
  unfold keepWrapped
  exact decide_eq_true_iff.symm

/-! ## The byte loop -/

theorem cleanupLoop32_stop {profile : Profile} {bytes : List UInt8} {md : Text} {i : Nat} (h : ¬ i < bytes.length)
    (fuel : Nat) (n : UInt32) (out : Text) : cleanupLoop32 profile bytes md fuel i n out = .ok out := by
  cases fuel with
  | zero => rw [cleanupLoop32, if_neg h]
  | succ fuel => rw [cleanupLoop32, List.getElem?_eq_none (Nat.le_of_not_lt h)]

/-- One round of the clean-up is one character. -/
theorem cleanupLoop32_step {md pre t : Text} {c : Char} (hmd : md = pre ++ c :: t) (profile : Profile) (fuel : Nat)
    (n : UInt32) (out : Text) :
    cleanupLoop32 profile (bytes md) md (fuel + 1) (byteLen pre) n out =
      if c = '\n' then
        incU32 profile n >>= fun n =>
          cleanupLoop32 profile (bytes md) md fuel (byteLen (pre ++ [c])) n (if n ≤ 2 then out ++ ['\n'] else out)
      else cleanupLoop32 profile (bytes md) md fuel (byteLen (pre ++ [c])) 0 (out ++ [c]) := by
  rw [cleanupLoop32]
  exact readByte_cursor hmd _ _
    (fun i => incU32 profile n >>= fun n =>
      cleanupLoop32 profile (bytes md) md fuel i n (if n ≤ 2 then out ++ ['\n'] else out))
    (fun i t => cleanupLoop32 profile (bytes md) md fuel i 0 (out ++ t))

/-- **The byte loop** on what is after the cursor, with `n` newlines right before it: where it does not fail, it keeps the
    newlines the counter lets through, and it fails where the counter overflows. -/
theorem cleanupLoop32_spec {profile : Profile} {md pre t : Text} (hmd : md = pre ++ t) {fuel : Nat}
    (hfuel : byteLen t ≤ fuel) {n : Nat} (hn : profile = .debug → n < UInt32.size) (out : Text) :
    ((profile = .debug → ¬ Reaches '\n' UInt32.size n t) →
      cleanupLoop32 profile (bytes md) md fuel (byteLen pre) (UInt32.ofNat n) out =
        .ok (out ++ keepRuns '\n' keepWrapped n t)) ∧
    (profile = .debug → Reaches '\n' UInt32.size n t →
      cleanupLoop32 profile (bytes md) md fuel (byteLen pre) (UInt32.ofNat n) out = .error .addOverflow) := by
  induction t generalizing pre fuel n out with
  | nil =>
      have hend : ¬ byteLen pre < (bytes md).length := by rw [length_bytes, hmd, List.append_nil]; omega
      rw [cleanupLoop32_stop hend]
      exact ⟨fun _ => by rw [keepRuns, List.append_nil], fun _ h => h.elim⟩
  | cons c t ih =>
      have hpos := c.utf8Size_pos
      rw [byteLen_cons] at hfuel
      obtain ⟨fuel, rfl⟩ : ∃ k, fuel = k + 1 := ⟨fuel - 1, by omega⟩
      have hmd' : md = (pre ++ [c]) ++ t := by rw [hmd, List.append_assoc, List.singleton_append]
      have hfuel' : byteLen t ≤ fuel := by omega
      rw [cleanupLoop32_step hmd]
      by_cases hc : c = '\n'
      · subst hc
        rw [if_pos rfl, reaches_cons_self, keepRuns_cons_self]
        by_cases hlast : profile = .debug ∧ n + 1 = UInt32.size
        · -- the counter is full
          obtain ⟨rfl, hfull⟩ := hlast
          rw [incU32_overflow hfull]
          exact ⟨fun h => absurd (Or.inl hfull) (h rfl), fun _ _ => rfl⟩
        · have hroom : profile = .debug → n + 1 < UInt32.size := by
            intro hdebug
            have hlt := hn hdebug
            have hne : n + 1 ≠ UInt32.size := fun h => hlast ⟨hdebug, h⟩
            omega
          rw [incU32_ok hroom]
          obtain ⟨hok, hfail⟩ := ih hmd' hfuel' hroom (if UInt32.ofNat (n + 1) ≤ 2 then out ++ ['\n'] else out)
          constructor
          · intro h
            refine (hok fun hdebug hrest => h hdebug (.inr hrest)).trans ?_
            rw [← List.append_assoc]
            by_cases hkeep : keepWrapped (n + 1) = true
            · rw [if_pos ((ofNat_le_two_iff _).mpr hkeep), if_pos hkeep]
            · rw [if_neg fun h => hkeep ((ofNat_le_two_iff _).mp h), if_neg hkeep, List.append_nil]
          · intro hdebug hreach
            exact hfail hdebug (hreach.resolve_left (Nat.ne_of_lt (hroom hdebug)))
      · have hzero : (0 : UInt32) = UInt32.ofNat 0 := rfl
        have hstart : profile = .debug → 0 < UInt32.size := fun _ => by decide
        obtain ⟨hok, hfail⟩ := ih hmd' hfuel' hstart (out ++ [c])
        rw [if_neg hc, reaches_cons_of_ne hc, keepRuns_cons_of_ne hc, hzero]
        constructor
        · intro h
          rw [hok h, List.append_assoc, List.singleton_append]
        · exact hfail

/-- The whole text. -/
theorem cleanupMd32_spec (profile : Profile) (md : Text) :
    ((profile = .debug → ¬ Reaches '\n' UInt32.size 0 md) →
      cleanupMd32 profile md = .ok (trim (keepRuns '\n' keepWrapped 0 md))) ∧
    (profile = .debug → Reaches '\n' UInt32.size 0 md → cleanupMd32 profile md = .error .addOverflow) := by
  unfold cleanupMd32
  by_cases hnil : md = []
  · subst hnil
    exact ⟨fun _ => rfl, fun _ h => h.elim⟩
  · have hpos : ¬ (bytes md).length = 0 := fun h => hnil (bytes_eq_nil_iff.mp (List.eq_nil_of_length_eq_zero h))
    have hmd : md = [] ++ md := rfl
    have hstart : profile = .debug → 0 < UInt32.size := fun _ => by decide
    have hzero : UInt32.ofNat 0 = (0 : UInt32) := rfl
    obtain ⟨hok, hfail⟩ := cleanupLoop32_spec hmd (Nat.le_refl (byteLen md)) hstart []
    rw [byteLen_nil, ← length_bytes, hzero] at hok hfail
    rw [if_neg hpos]
    constructor
    · intro h
      rw [hok h]
      rfl
    · intro hdebug hreach
      rw [hfail hdebug hreach]
      rfl

/-! ## Squeezing and trimming -/

/-- Newlines at the ends are trimmed, whether they were kept or not. -/
theorem trim_keepRuns (keep : Nat → Bool) (md : Text) :
    trim (keepRuns '\n' keep 0 md) = keepRuns '\n' keep 0 (trim md) := by
  have hnewline {c : Char} (hc : isWhitespace c = false) : c ≠ '\n' := by
    rintro rfl
    exact absurd hc (by decide)
  have hhead : ∀ c ∈ (trim md).head?, c ≠ '\n' := fun c hc => hnewline (head_trim hc)
  have hlast : ∀ c ∈ (trim md).getLast?, c ≠ '\n' := fun c hc => hnewline (last_trim hc)
  have hkept {s : Text} (hs : trim s = []) : trim (keepRuns '\n' keep 0 s) = [] := by
    apply trim_eq_nil_iff.mpr
    intro c hc
    exact trim_eq_nil_iff.mp hs c ((keepRuns_sublist s).mem hc)
  by_cases hblank : trim md = []
  · rw [hkept hblank, hblank]
    rfl
  · obtain ⟨pre, post, hmd, hpre, hpost⟩ := exists_trim md
    have hparts : keepRuns '\n' keep 0 md =
        keepRuns '\n' keep 0 pre ++ keepRuns '\n' keep 0 (trim md) ++ keepRuns '\n' keep 0 post := by
      calc keepRuns '\n' keep 0 md = keepRuns '\n' keep 0 (pre ++ trim md ++ post) := by rw [← hmd]
        _ = _ := keepRuns_middle hblank hhead hlast
    have hself : trim (keepRuns '\n' keep 0 (trim md)) = keepRuns '\n' keep 0 (trim md) := by
      apply trim_eq_self
      · intro c hc
        rw [head?_keepRuns hhead] at hc
        exact head_trim hc
      · intro c hc
        rw [getLast?_keepRuns hlast] at hc
        exact last_trim hc
    rw [hparts, trim_append_of_blank_right (hkept hpost), trim_append_of_blank_left (hkept hpre), hself]

/-! ## Whole texts -/

/-- The purpose of `cleanup_md`: every maximal run of three or more newlines is two long, and the ends are trimmed. -/
def squeezed (md : Text) : Text := trim (capRuns '\n' 2 md)

theorem squeezed_eq (md : Text) : squeezed md = keepRuns '\n' (fun j => decide (j ≤ 2)) 0 (trim md) := by
  rw [squeezed, ← keepRuns_eq_capRuns, trim_keepRuns]

/-- The clean-up with an unbounded counter. -/
theorem cleanupMd_eq_squeezed (md : Text) : cleanupMd md = .ok (squeezed md) := by
  rw [cleanupMd_eq, squeeze_eq_keepRuns, keepRuns_eq_capRuns]
  rfl

/-- The two ways of counting part at the `2^32`-th newline of a run. -/
theorem keepRuns_wrapped_iff (t : Text) :
    keepRuns '\n' (fun j => decide (j ≤ 2)) 0 t = keepRuns '\n' keepWrapped 0 t ↔ ¬ Reaches '\n' UInt32.size 0 t := by
  have hbelow : ∀ j < UInt32.size, (fun j => decide (j ≤ 2)) j = keepWrapped j := by
    intro j hj
    unfold keepWrapped
    rw [Nat.mod_eq_of_lt hj]
  have hmore : ∀ j, (fun j => decide (j ≤ 2)) j = true → keepWrapped j = true := by
    intro j hj
    exact decide_eq_true (Nat.le_trans (Nat.mod_le j UInt32.size) (of_decide_eq_true hj))
  exact keepRuns_eq_iff hbelow hmore (by decide) (by decide) (by decide) t

/-- No run of the squeezed text has three newlines. -/
theorem not_reaches_squeezed (md : Text) : ¬ Reaches '\n' 3 0 (squeezed md) := by
  rw [squeezed_eq]
  exact not_reaches_keepRuns 2 0 (trim md)

theorem trim_squeezed (md : Text) : trim (squeezed md) = squeezed md := trim_trim _

/-- Neither counter has anything to drop from a text without three newlines in a row. -/
theorem keepRuns_wrapped_eq_self {t : Text} (h : ¬ Reaches '\n' 3 0 t) : keepRuns '\n' keepWrapped 0 t = t := by
  have hbelow : ∀ j < 3, keepWrapped j = (fun _ => true) j := by decide
  have hall := (keepRuns_eq_iff hbelow (fun _ _ => rfl) (by decide) rfl (by decide) t).mpr h
  rw [hall, keepRuns_all]

/-- Longer runs have the shorter ones in them. -/
theorem not_reaches_size {t : Text} (h : ¬ Reaches '\n' 3 0 t) : ¬ Reaches '\n' UInt32.size 0 t := by
  intro hlong
  apply h
  rw [reaches_zero_iff (by decide)] at hlong ⊢
  have hshort : List.replicate 3 '\n' <+: List.replicate UInt32.size '\n' := by
    apply List.prefix_replicate_iff.mpr
    rw [List.length_replicate]
    exact ⟨by decide, rfl⟩
  exact hshort.isInfix.trans hlong

/-- The clean-up of what is clean. -/
theorem cleanupMd32_squeezed (profile : Profile) (md : Text) : cleanupMd32 profile (squeezed md) = .ok (squeezed md) := by
  have hshort := not_reaches_squeezed md
  rw [(cleanupMd32_spec profile (squeezed md)).1 fun _ => not_reaches_size hshort, keepRuns_wrapped_eq_self hshort,
    trim_squeezed]

/-- **Without a run of `2^32` newlines** the width of the counter does not matter. -/
theorem cleanupMd32_eq {md : Text} (h : ¬ List.replicate UInt32.size '\n' <:+: md) (profile : Profile) :
    cleanupMd32 profile md = cleanupMd md := by
  rw [← reaches_zero_iff (by decide)] at h
  rw [(cleanupMd32_spec profile md).1 fun _ => h, cleanupMd_eq_squeezed, ← (keepRuns_wrapped_iff md).mpr h,
    keepRuns_eq_capRuns]
  rfl

/-- What `cleanup_md` is said to do: it leaves the squeezed text, which has no three newlines in a row and no white space at
    its ends, and which it leaves as it is. -/
def Cleans (profile : Profile) (md : Text) : Prop :=
  cleanupMd32 profile md = .ok (squeezed md) ∧ ¬ "\n\n\n".toList <:+: squeezed md ∧ trim (squeezed md) = squeezed md ∧
    cleanupMd32 profile (squeezed md) = .ok (squeezed md)

/-- Where the counter goes on counting: everywhere if it is checked; what is trimmed does not matter if it is not. -/
def counted (profile : Profile) (md : Text) : Text :=
  match profile with
  | .debug => md
  | .release => trim md

theorem cleanupMd32_eq_squeezed_iff (profile : Profile) (md : Text) :
    cleanupMd32 profile md = .ok (squeezed md) ↔ ¬ Reaches '\n' UInt32.size 0 (counted profile md) := by
  obtain ⟨hok, hfail⟩ := cleanupMd32_spec profile md
  cases profile with
  | debug =>
      by_cases hreach : Reaches '\n' UInt32.size 0 md
      · rw [hfail rfl hreach]
        exact iff_of_false (fun h => by cases h) (not_not_intro hreach)
      · rw [hok fun _ => hreach, trim_keepRuns, squeezed_eq, ← trim_keepRuns, ← trim_keepRuns,
          (keepRuns_wrapped_iff md).mpr hreach]
        exact iff_of_true rfl hreach
  | release =>
      rw [hok Profile.noConfusion, trim_keepRuns, squeezed_eq, ← keepRuns_wrapped_iff]
      exact ⟨fun h => (Except.ok.inj h).symm, fun h => congrArg Except.ok h.symm⟩

/-- **When `cleanup_md` squeezes newlines and trims.** It never slices off a character boundary; and it does what it is said
    to exactly if no `2^32` newlines follow one another: in the text if the build checks the counter, and in the trimmed text
    if it does not. -/
theorem cleanup_squeezes_iff (profile : Profile) (md : Text) :
    cleanupMd32 profile md ≠ .error .slice ∧
      (Cleans profile md ↔ ¬ List.replicate UInt32.size '\n' <:+: counted profile md) := by
  constructor
  · obtain ⟨hok, hfail⟩ := cleanupMd32_spec profile md
    by_cases hreach : profile = .debug ∧ Reaches '\n' UInt32.size 0 md
    · rw [hfail hreach.1 hreach.2]
      exact fun h => Panic.noConfusion (Except.error.inj h)
    · rw [hok fun hdebug h => hreach ⟨hdebug, h⟩]
      exact fun h => by cases h
  · rw [← reaches_zero_iff (by decide), ← cleanupMd32_eq_squeezed_iff]
    have hthree : ¬ "\n\n\n".toList <:+: squeezed md := by
      have hnot := not_reaches_squeezed md
      rw [reaches_zero_iff (by decide)] at hnot
      exact hnot
    exact ⟨fun h => h.1, fun h => ⟨h, hthree, trim_squeezed md, cleanupMd32_squeezed profile md⟩⟩

/-- **`2^32` newlines** and nothing else: a build that checks the counter fails, though nothing would be left of the text. -/
theorem newlines_overflow :
    cleanupMd32 .debug (List.replicate UInt32.size '\n') = .error .addOverflow ∧
      ¬ Cleans .debug (List.replicate UInt32.size '\n') := by
  have hreach : Reaches '\n' UInt32.size 0 (List.replicate UInt32.size '\n') :=
    (reaches_zero_iff (by decide) _).mpr List.infix_rfl
  have hfails := (cleanupMd32_spec .debug (List.replicate UInt32.size '\n')).2 rfl hreach
  refine ⟨hfails, ?_⟩
  rintro ⟨hok, -⟩
  rw [hfails] at hok
  cases hok

end Scrape
end McpWebSearch
