import McpWebSearch.Actions.Scrape.Collapse

/-!
# `Correctness.Collapse` — the chunked collapser refines the reference

`collapse_whitespace` is followed along *cursors*: a split `s = pre ++ t` read at offset `byteLen pre`, with the
output that the reference has produced on `pre`. The byte loop moves the cursor over the window it is given
(`scalarWs_spec`), the walk over a white-space mask moves it to the last white space of the chunk (`walkMask_spec`).
Exactly one mask defeats the walk, the one whose only bit is the highest (`walkMask_lone`): the shift that should
clear it is by the whole width. `collapseWhitespace_eq_reference_iff` is the account of a whole run.
-/

namespace McpWebSearch
namespace Scrape

open Utf8 Simd

/-! ## Bytes and lanes -/

/-- On the lead byte of a character the byte test is the test on characters. -/
theorem isAsciiWhitespaceByte_lead (c : Char) : isAsciiWhitespaceByte (lead c) = isAsciiWhitespace c := by
  have h20 : lead c = 0x20 ↔ c = ' ' := lead_eq_ofNat_iff (by decide)
  have h09 : lead c = 0x09 ↔ c = '\t' := lead_eq_ofNat_iff (by decide)
  have h0A : lead c = 0x0A ↔ c = '\n' := lead_eq_ofNat_iff (by decide)
  have h0C : lead c = 0x0C ↔ c = '\x0c' := lead_eq_ofNat_iff (by decide)
  have h0D : lead c = 0x0D ↔ c = '\r' := lead_eq_ofNat_iff (by decide)
  unfold isAsciiWhitespaceByte isAsciiWhitespace
  simp only [beq_eq_decide, h20, h09, h0A, h0C, h0D]

theorem toNat_lt_of_isAsciiWhitespace {c : Char} (h : isAsciiWhitespace c = true) : c.toNat < 0x80 := by
  simp only [isAsciiWhitespace, Bool.or_eq_true, beq_iff_eq] at h
  rcases h with (((rfl | rfl) | rfl) | rfl) | rfl <;> decide

/-- `utf8_seq_len` of the lead byte of a character that is not ASCII. -/
theorem utf8SeqLen_lead {c : Char} (h : ¬ c.toNat < 0x80) : utf8SeqLen (lead c) = c.utf8Size := by
  have hmax := toNat_lt_max c
  have hle (n : UInt8) : lead c ≤ n ↔ (lead c).toNat ≤ n.toNat := UInt8.le_iff_toNat_le
  have hge (n : UInt8) : n ≤ lead c ↔ n.toNat ≤ (lead c).toNat := UInt8.le_iff_toNat_le
  unfold utf8SeqLen
  rw [utf8Size_eq_ite, if_neg h]
  simp only [hle, hge, lead_toNat, if_neg h, UInt8.reduceToNat]
  repeat' split
  all_goals omega

/-- At a cursor before a character that is not ASCII, the clamped end of the sequence is the end of the character: a
    string does not stop inside it. -/
theorem seqEnd_cursor {s pre t : Text} {c : Char} (hs : s = pre ++ c :: t) (h : ¬ c.toNat < 0x80) :
    min (byteLen pre + utf8SeqLen (lead c)) (bytes s).length = byteLen pre + c.utf8Size := by
  have hle : byteLen pre + c.utf8Size ≤ byteLen s := by rw [hs]; simp
  rw [utf8SeqLen_lead h, length_bytes]
  omega

/-- The range check looks at each lane by itself. -/
theorem wsLanes_lane (a : M128) (j : Fin 16) : wsLanes a j = wsLanes (fun _ => a j) 0 := by
  simp only [wsLanes, andnotSi128, orSi128, xorSi128, cmpgtEpi8, addEpi8, cmpeqEpi8, set1Epi8]
  rfl

/-- The range check on one byte: the vertical tab is taken out again. -/
theorem wsLane (b : UInt8) : decide (0x80 ≤ wsLanes (fun _ => b) 0) = isAsciiWhitespaceByte b := by
  have hall : ∀ n < 256, decide (0x80 ≤ wsLanes (fun _ => UInt8.ofNat n) 0) = isAsciiWhitespaceByte (UInt8.ofNat n) := by
    decide +kernel
  have hb := hall b.toNat b.toNat_lt
  rwa [UInt8.ofNat_toNat] at hb

/-- The lanes of a chunk over ASCII characters are these. -/
theorem loaduSi128_ascii {w : Text} (hascii : ∀ c ∈ w, c.toNat < 0x80) (pre post : Text) (j : Fin 16)
    (hj : j.val < w.length) :
    loaduSi128 (bytes (pre ++ (w ++ post))) (byteLen pre) j = lead w[j.val] := by
  show (bytes (pre ++ (w ++ post))).getD (byteLen pre + j.val) 0 = lead w[j.val]
  have hge : (bytes pre).length ≤ byteLen pre + j.val := by rw [length_bytes]; omega
  rw [List.getD_eq_getElem?_getD, bytes_append, List.getElem?_append_right hge, length_bytes,
    Nat.add_sub_cancel_left, bytes_getElem?_ascii hascii post hj]
  rfl

/-- Bit `j` of the white-space mask of a chunk that lies over the ASCII characters `w`. -/
theorem getLsbD_wsMask {pre w t : Text} (hw : ∀ c ∈ w, c.toNat < 0x80) (hlen : w.length = 16) (j : Nat) :
    ((movemaskEpi8 (wsLanes (loaduSi128 (bytes (pre ++ (w ++ t))) (byteLen pre)))).setWidth 16).getLsbD j =
      (w[j]?).any isAsciiWhitespace := by
  rw [BitVec.getLsbD_setWidth, getLsbD_movemaskEpi8]
  by_cases hj : j < 16
  · have hjw : j < w.length := by omega
    have hbyte := loaduSi128_ascii hw pre t ⟨j, hj⟩ hjw
    rw [dif_pos hj, wsLanes_lane, hbyte, wsLane, isAsciiWhitespaceByte_lead, List.getElem?_eq_getElem hjw,
      Option.any_some]
    simp only [hj, decide_true, Bool.true_and]
  · have hjw : w.length ≤ j := by omega
    simp [hj, hjw]

/-! ## The reference on runs -/

/-- Characters that are not white space are copied. -/
theorem foldl_referenceStep_push {a : Text} (ha : ∀ c ∈ a, isAsciiWhitespace c = false) (hne : a ≠ [])
    (o : Collapsed) : a.foldl referenceStep o = o.push a := by
  induction a generalizing o with
  | nil => exact absurd rfl hne
  | cons c a ih =>
      have hc : referenceStep o c = o.push [c] := by
        rw [referenceStep, ha c List.mem_cons_self]
        rfl
      rw [List.foldl_cons, hc]
      by_cases hnil : a = []
      · rw [hnil, List.foldl_nil]
      · rw [ih (fun d hd => ha d (List.mem_cons_of_mem c hd)) hnil]
        simp [Collapsed.push]

theorem referenceStep_ws {c : Char} (hc : isAsciiWhitespace c = true) (o : Collapsed) :
    referenceStep o c = o.space := by
  rw [referenceStep, if_pos hc]

/-! ## The byte loop -/

theorem pushSlice_append (pre m post : Text) (o : Collapsed) :
    pushSlice (pre ++ (m ++ post)) (byteLen pre) (byteLen pre + byteLen m) o = .ok (o.push m) := by
  rw [pushSlice, slice_append]

theorem scalarWs_stop {bytes : List UInt8} {s : Text} {fin fuel i : Nat} (h : ¬ i < fin) (o : Collapsed) :
    scalarWs bytes s fin fuel i o = .ok (i, o) := by
  cases fuel with
  | zero => rw [scalarWs, if_neg h]
  | succ fuel => rw [scalarWs, if_neg h]

/-- One round of `scalar_ws` is one character of the reference. -/
theorem scalarWs_step {s pre t : Text} {c : Char} (hs : s = pre ++ c :: t) {fin : Nat} (hlt : byteLen pre < fin)
    (fuel : Nat) (o : Collapsed) :
    scalarWs (bytes s) s fin (fuel + 1) (byteLen pre) o =
      scalarWs (bytes s) s fin fuel (byteLen (pre ++ [c])) (referenceStep o c) := by
  have hnext : byteLen (pre ++ [c]) = byteLen pre + c.utf8Size := by simp
  have hbyte : (bytes s)[byteLen pre]? = some (lead c) := by rw [hs, bytes_getElem?_cursor]
  have hascii : lead c < 0x80 ↔ c.toNat < 0x80 := lead_lt_iff c
  rw [scalarWs, if_pos hlt, hnext]
  simp only [hbyte, isAsciiWhitespaceByte_lead]
  by_cases hws : isAsciiWhitespace c = true
  · have hone := (utf8Size_eq_one_iff_toNat c).mpr (toNat_lt_of_isAsciiWhitespace hws)
    rw [if_pos hws, hone, referenceStep_ws hws]
  · have hstep : referenceStep o c = o.push [c] := by rw [referenceStep, if_neg hws]
    rw [if_neg hws, hstep]
    by_cases hlow : c.toNat < 0x80
    · have hone := (utf8Size_eq_one_iff_toNat c).mpr hlow
      rw [if_pos (hascii.mpr hlow), ofNat_lead hlow, hone]
    · have hend := seqEnd_cursor hs hlow
      have hpush : pushSlice s (byteLen pre) (byteLen pre + c.utf8Size) o = .ok (o.push [c]) := by
        have happ := pushSlice_append pre [c] t o
        rw [List.singleton_append, ← hs] at happ
        simpa using happ
      rw [if_neg (fun h => hlow (hascii.mp h))]
      simp only [hend, hpush]

/-- **`scalar_ws` is the reference on its window**, and stops at the end of that window. -/
theorem scalarWs_spec {s : Text} {fin : Nat} (hfin : fin ≤ byteLen s) {pre t : Text} (hs : s = pre ++ t)
    {fuel : Nat} (hfuel : fin - byteLen pre ≤ fuel) (o : Collapsed) :
    scalarWs (bytes s) s fin fuel (byteLen pre) o =
      .ok (byteLen (pre ++ window (fin - byteLen pre) t), (window (fin - byteLen pre) t).foldl referenceStep o) := by
  -- on the text after the cursor: each round moves one character from `t` to `pre`
  induction t generalizing pre fuel o with
  | nil =>
      have hstop : ¬ byteLen pre < fin := by rw [hs, List.append_nil] at hfin; omega
      rw [scalarWs_stop hstop]
      simp
  | cons c t ih =>
      by_cases hlt : byteLen pre < fin
      · obtain ⟨n, hn⟩ : ∃ n, fin - byteLen pre = n + 1 := ⟨fin - byteLen pre - 1, by omega⟩
        obtain ⟨fuel, rfl⟩ : ∃ k, fuel = k + 1 := ⟨fuel - 1, by omega⟩
        have hpos := c.utf8Size_pos
        have hrest : fin - byteLen (pre ++ [c]) = n + 1 - c.utf8Size := by simp; omega
        have hs' : s = (pre ++ [c]) ++ t := by rw [hs, List.append_assoc, List.singleton_append]
        rw [scalarWs_step hs hlt, ih hs' (by omega), hrest, hn, window, List.foldl_cons, List.append_assoc,
          List.singleton_append]
      · have hzero : fin - byteLen pre = 0 := by omega
        rw [scalarWs_stop hlt, hzero]
        simp

/-- The byte loop up to the end of the string: the reference on what is left. -/
theorem scalarWs_tail {s pre t : Text} (hs : s = pre ++ t) (o : Collapsed) :
    scalarWs (bytes s) s (bytes s).length (bytes s).length (byteLen pre) o =
      .ok (byteLen s, t.foldl referenceStep o) := by
  have hlen : byteLen s = byteLen pre + byteLen t := by rw [hs, byteLen_append]
  have hall : window (byteLen s - byteLen pre) t = t := window_eq_self (by omega)
  have hscalar := scalarWs_spec (Nat.le_refl _) hs (Nat.sub_le _ _) o
  rw [hall, ← hs] at hscalar
  rw [length_bytes]
  exact hscalar

/-- The byte loop over the whole string is the reference. -/
theorem scalarWs_all (s : Text) :
    scalarWs (bytes s) s (bytes s).length (bytes s).length 0 Collapsed.empty =
      .ok (byteLen s, s.foldl referenceStep Collapsed.empty) := by
  have hstart : s = [] ++ s := rfl
  have hrun := scalarWs_tail hstart Collapsed.empty
  rwa [byteLen_nil] at hrun

/-- The byte loop on the window at a cursor. -/
theorem scalarWs_window {s pre t : Text} (hs : s = pre ++ t) {n : Nat} (hn : n ≤ byteLen t) (o : Collapsed) :
    scalarWs (bytes s) s (byteLen pre + n) n (byteLen pre) o =
      .ok (byteLen (pre ++ window n t), (window n t).foldl referenceStep o) := by
  have hfin : byteLen pre + n ≤ byteLen s := by rw [hs, byteLen_append]; omega
  have hfuel : byteLen pre + n - byteLen pre ≤ n := by omega
  have hscalar := scalarWs_spec hfin hs hfuel o
  rwa [Nat.add_sub_cancel_left] at hscalar

/-! ## The bit walk -/

/-- A mask that stands for the white space of `r`. -/
def MaskOf (bits : BitVec 16) (r : Text) : Prop := ∀ j, bits.getLsbD j = (r[j]?).any isAsciiWhitespace

/-- The mask is zero exactly if no white space is left. -/
theorem MaskOf.eq_zero_iff {bits : BitVec 16} {r : Text} (h : MaskOf bits r) :
    bits = 0 ↔ ∀ c ∈ r, isAsciiWhitespace c = false := by
  rw [Simd.eq_zero_iff h]
  constructor
  · intro hall c hc
    obtain ⟨j, hj, rfl⟩ := List.mem_iff_getElem.mp hc
    have hbit := hall j
    rwa [List.getElem?_eq_getElem hj, Option.any_some] at hbit
  · intro hall j
    cases hget : r[j]? with
    | none => rfl
    | some c => exact hall c (List.mem_of_getElem? hget)

/-- The lowest set bit cuts `r` at its first white space. -/
theorem MaskOf.split {bits : BitVec 16} {r : Text} (h : MaskOf bits r) (hne : bits ≠ 0) :
    ∃ a c r', r = a ++ c :: r' ∧ a.length = bits.ctz.toNat ∧ isAsciiWhitespace c = true ∧
      (∀ d ∈ a, isAsciiWhitespace d = false) ∧ MaskOf (bits >>> (bits.ctz.toNat + 1)) r' := by
  obtain ⟨hset, hlow⟩ := bitWalk_low h hne
  have hk : bits.ctz.toNat < r.length := by
    by_contra hge
    rw [List.getElem?_eq_none (Nat.le_of_not_lt hge)] at hset
    exact Bool.noConfusion hset
  refine ⟨r.take bits.ctz.toNat, r[bits.ctz.toNat], r.drop (bits.ctz.toNat + 1), ?_, ?_, ?_, ?_, ?_⟩
  · rw [← List.drop_eq_getElem_cons hk, List.take_append_drop]
  · rw [List.length_take]
    omega
  · rwa [List.getElem?_eq_getElem hk, Option.any_some] at hset
  · intro d hd
    obtain ⟨j, hj, rfl⟩ := List.mem_iff_getElem.mp hd
    rw [List.length_take] at hj
    have hbit := hlow j (by omega)
    rw [List.getElem?_eq_getElem (by omega), Option.any_some] at hbit
    rwa [List.getElem_take]
  · intro j
    rw [bitWalk_shift h, List.getElem?_drop]

theorem shrAssign_ok {k : Nat} (hk : k < 16) (profile : Profile) (bits : BitVec 16) :
    shrAssign profile bits k = .ok (bits >>> k) := by
  cases profile with
  | debug => rw [shrAssign, if_pos hk]
  | release => rw [shrAssign, Nat.mod_eq_of_lt hk]

theorem copyRun_spec {a : Text} (hascii : ∀ d ∈ a, d.toNat < 0x80) (ha : ∀ d ∈ a, isAsciiWhitespace d = false)
    (pre post : Text) (o : Collapsed) :
    copyRun (pre ++ (a ++ post)) (byteLen pre) a.length o = .ok (a.foldl referenceStep o) := by
  by_cases hnil : a = []
  · rw [hnil]
    rfl
  · have hpos : 0 < a.length := List.length_pos_iff.mpr hnil
    rw [copyRun, if_pos hpos, ← byteLen_ascii hascii, pushSlice_append, foldl_referenceStep_push ha hnil]

/-- One round of the walk, up to the test for the end. -/
theorem walkMask_step {s pre a post : Text} {c : Char} {bits : BitVec 16} (hs : s = pre ++ (a ++ c :: post))
    (hlen : a.length = bits.ctz.toNat) (hascii : ∀ d ∈ a, d.toNat < 0x80) (hc : isAsciiWhitespace c = true)
    (ha : ∀ d ∈ a, isAsciiWhitespace d = false) (hshift : bits.ctz.toNat + 1 < 16)
    (profile : Profile) (fuel : Nat) (o : Collapsed) :
    walkMask profile s (fuel + 1) (byteLen pre) bits o =
      if bits >>> (bits.ctz.toNat + 1) = 0 then
        .ok (byteLen (pre ++ (a ++ [c])), (a ++ [c]).foldl referenceStep o)
      else walkMask profile s fuel (byteLen (pre ++ (a ++ [c]))) (bits >>> (bits.ctz.toNat + 1))
        ((a ++ [c]).foldl referenceStep o) := by
  have hone := (utf8Size_eq_one_iff_toNat c).mpr (toNat_lt_of_isAsciiWhitespace hc)
  have hcur : byteLen pre + bits.ctz.toNat + 1 = byteLen (pre ++ (a ++ [c])) := by
    simp [byteLen_ascii hascii, hlen, hone]
    omega
  have hcopy : copyRun s (byteLen pre) bits.ctz.toNat o = .ok (a.foldl referenceStep o) := by
    rw [hs, ← hlen, copyRun_spec hascii ha]
  have hspace : (a.foldl referenceStep o).space = (a ++ [c]).foldl referenceStep o := by
    rw [List.foldl_append, List.foldl_cons, List.foldl_nil, referenceStep_ws hc]
  rw [walkMask, hcopy, shrAssign_ok hshift, hcur, ← hspace]
  rfl

/-- **The walk is the reference up to the last white space** of the characters `r` its mask stands for. -/
theorem walkMask_spec {bits : BitVec 16} {r : Text} (hmask : MaskOf bits r) (hne : bits ≠ 0)
    (hascii : ∀ c ∈ r, c.toNat < 0x80) (hr : r.length ≤ 16) (hlone : bits.ctz.toNat ≠ 15)
    {fuel : Nat} (hfuel : r.length ≤ fuel) (profile : Profile) (pre post : Text) (o : Collapsed) :
    ∃ r₁ r₂, r = r₁ ++ r₂ ∧ (∀ c ∈ r₂, isAsciiWhitespace c = false) ∧
      walkMask profile (pre ++ (r ++ post)) fuel (byteLen pre) bits o =
        .ok (byteLen (pre ++ r₁), r₁.foldl referenceStep o) := by
  induction fuel generalizing bits r pre o with
  | zero =>
      have hnil : r = [] := List.eq_nil_of_length_eq_zero (by omega)
      refine absurd (hmask.eq_zero_iff.mpr ?_) hne
      rw [hnil]
      simp
  | succ fuel ih =>
      obtain ⟨a, c, r', rfl, hlen, hc, ha, hmask'⟩ := hmask.split hne
      simp only [List.length_append, List.length_cons] at hr hfuel
      have hascii_a : ∀ d ∈ a, d.toNat < 0x80 := fun d hd => hascii d (by simp [hd])
      have hascii_r' : ∀ d ∈ r', d.toNat < 0x80 := fun d hd => hascii d (by simp [hd])
      have hs : pre ++ (a ++ c :: r' ++ post) = pre ++ (a ++ c :: (r' ++ post)) := by simp
      rw [walkMask_step hs hlen hascii_a hc ha (by omega)]
      by_cases hend : bits >>> (bits.ctz.toNat + 1) = 0
      · refine ⟨a ++ [c], r', by simp, hmask'.eq_zero_iff.mp hend, ?_⟩
        rw [if_pos hend]
      · -- what is left of the chunk is shorter than sixteen, so its mask is not the lone one
        have hsmall : (bits >>> (bits.ctz.toNat + 1)).ctz.toNat < r'.length := by
          obtain ⟨a', c', r'', hr', hlen', -⟩ := hmask'.split hend
          rw [← hlen', hr']
          simp
        obtain ⟨r₁, r₂, hr', hr₂, hwalk⟩ := ih hmask' hend hascii_r' (by omega) (by omega) (by omega)
          (pre ++ (a ++ [c])) ((a ++ [c]).foldl referenceStep o)
        refine ⟨a ++ [c] ++ r₁, r₂, by simp [hr'], hr₂, ?_⟩
        rw [if_neg hend]
        simpa using hwalk

/-! ## The lone trailing white space -/

/-- How the walk over a mask with only the highest bit ends: in a debug build the shift by sixteen is an overflow, in a
    release build it shifts by zero, and the walk runs on, sixteen bytes a round, until it slices past the end. -/
def lonePanic : Profile → Panic
  | .debug => .shiftOverflow
  | .release => .slice

/-- A shift by the whole width is no shift in a release build: the walk goes on with the same mask. -/
theorem walkMask_spin {bits : BitVec 16} (hctz : bits.ctz.toNat = 15) {s : Text} {n i : Nat}
    (hn : byteLen s < i + 15 + 16 * n) (o : Collapsed) :
    walkMask .release s (n + 1) i bits o = .error .slice := by
  induction n generalizing i o with
  | zero =>
      have hslice : slice s i (i + 15) = none := by
        by_contra hsome
        obtain ⟨t, ht⟩ := Option.ne_none_iff_exists'.mp hsome
        have hle := slice_le ht
        omega
      rw [walkMask, hctz, copyRun, if_pos (by decide), pushSlice, hslice]
      rfl
  | succ n ih =>
      have hne : bits ≠ 0 := by
        rintro rfl
        exact absurd hctz (by decide)
      -- the amount is taken modulo 16, so the mask never changes
      have hshift : shrAssign .release bits (15 + 1) = .ok bits := by simp [shrAssign]
      rw [walkMask, hctz, copyRun, if_pos (by decide), pushSlice, hshift]
      cases hslice : slice s i (i + 15) with
      | none => rfl
      | some t =>
          show (if bits = 0 then _ else walkMask .release s (n + 1) (i + 15 + 1) bits (o.push t).space) = _
          rw [if_neg hne]
          exact ih (by omega) _

theorem walkMask_lone {bits : BitVec 16} (hctz : bits.ctz.toNat = 15) {s pre a post : Text}
    (hs : s = pre ++ (a ++ post)) (hlen : a.length = 15) (hascii : ∀ d ∈ a, d.toNat < 0x80)
    (ha : ∀ d ∈ a, isAsciiWhitespace d = false) (profile : Profile) (o : Collapsed) :
    walkMask profile s (byteLen s + 1) (byteLen pre) bits o = .error (lonePanic profile) := by
  cases profile with
  | debug =>
      have hcopy : copyRun s (byteLen pre) 15 o = .ok (a.foldl referenceStep o) := by
        rw [hs, ← hlen, copyRun_spec hascii ha]
      rw [walkMask, hctz, hcopy]
      rfl
  | release => exact walkMask_spin hctz (by omega) o

/-- Sixteen ASCII characters of which the last one is the only white space. -/
def LoneTrailing (t : Text) : Prop :=
  (t[15]?).any isAsciiWhitespace = true ∧ ∀ c ∈ t.take 15, c.toNat < 0x80 ∧ isAsciiWhitespace c = false

instance (t : Text) : Decidable (LoneTrailing t) :=
  decidable_of_iff (((t[15]?).any isAsciiWhitespace &&
    (t.take 15).all fun c => c.toNat < 0x80 && !isAsciiWhitespace c) = true) (by simp [LoneTrailing])

theorem LoneTrailing.lt_length {t : Text} (h : LoneTrailing t) : 15 < t.length := by
  by_contra hge
  have hset := h.1
  rw [List.getElem?_eq_none (Nat.le_of_not_lt hge)] at hset
  exact Bool.noConfusion hset

theorem LoneTrailing.le_byteLen {t : Text} (h : LoneTrailing t) : 16 ≤ byteLen t :=
  Nat.le_trans h.lt_length (length_le_byteLen t)

theorem LoneTrailing.ascii {t : Text} (h : LoneTrailing t) : ∀ c ∈ t.take 16, c.toNat < 0x80 := by
  intro c hc
  obtain ⟨j, hj, rfl⟩ := List.mem_iff_getElem.mp hc
  rw [List.length_take] at hj
  rw [List.getElem_take]
  by_cases hlast : j = 15
  · have hset := h.1
    subst hlast
    rw [List.getElem?_eq_getElem (by omega), Option.any_some] at hset
    exact toNat_lt_of_isAsciiWhitespace hset
  · exact (h.2 t[j] (List.mem_take_iff_getElem.mpr ⟨j, by omega, rfl⟩)).1

/-- The mask of a chunk has only its highest bit exactly if the last of the sixteen characters is the only white
    space. -/
theorem MaskOf.ctz_eq_iff {bits : BitVec 16} {w : Text} (hmask : MaskOf bits w)
    (hascii : ∀ c ∈ w, c.toNat < 0x80) (hlen : w.length = 16) (t : Text) :
    bits.ctz.toNat = 15 ↔ LoneTrailing (w ++ t) := by
  have htake : (w ++ t).take 15 = w.take 15 := List.take_append_of_le_length (by omega)
  have hlast : (w ++ t)[15]? = w[15]? := List.getElem?_append_left (by omega)
  constructor
  · intro hctz
    have hne : bits ≠ 0 := by
      rintro rfl
      exact absurd hctz (by decide)
    obtain ⟨hset, hlow⟩ := bitWalk_low hmask hne
    rw [hctz] at hset hlow
    refine ⟨by rw [hlast]; exact hset, ?_⟩
    intro c hc
    rw [htake] at hc
    obtain ⟨j, hj, rfl⟩ := List.mem_take_iff_getElem.mp hc
    have hbit := hlow j (by omega)
    rw [List.getElem?_eq_getElem (by omega), Option.any_some] at hbit
    exact ⟨hascii _ (List.getElem_mem _), hbit⟩
  · intro hlone
    have hset : bits.getLsbD 15 = true := by rw [hmask, ← hlast]; exact hlone.1
    have hne : bits ≠ 0 := by
      rintro rfl
      simp at hset
    have hlt : bits.ctz.toNat < 16 := by
      by_contra hge
      have hclear := BitVec.getLsbD_false_of_lt_ctz (x := bits) (i := 15) (by omega)
      rw [hset] at hclear
      exact Bool.noConfusion hclear
    by_contra hctz
    -- a lower bit would be white space among the first fifteen
    have hbit := (bitWalk_low hmask hne).1
    rw [List.getElem?_eq_getElem (by omega), Option.any_some] at hbit
    have hmem : w[bits.ctz.toNat] ∈ w.take 15 := List.mem_take_iff_getElem.mpr ⟨_, by omega, rfl⟩
    have hclear := (hlone.2 _ (by rw [htake]; exact hmem)).2
    rw [hbit] at hclear
    exact Bool.noConfusion hclear

/-! ## Chunks -/

/-- An all-ASCII chunk: the reference on its sixteen characters, unless its mask is the lone one. -/
theorem asciiChunk_spec {bits : BitVec 16} {w : Text} (hmask : MaskOf bits w) (hascii : ∀ c ∈ w, c.toNat < 0x80)
    (hlen : w.length = 16) (profile : Profile) (pre post : Text) (o : Collapsed) :
    asciiChunk profile (pre ++ (w ++ post)) (byteLen pre) bits o =
      if bits.ctz.toNat = 15 then .error (lonePanic profile)
      else .ok (byteLen (pre ++ w), w.foldl referenceStep o) := by
  have hend : byteLen pre + 16 = byteLen (pre ++ w) := by rw [byteLen_append, byteLen_ascii hascii, hlen]
  unfold asciiChunk
  by_cases hzero : bits = 0
  · have hctz : ¬ bits.ctz.toNat = 15 := by rw [hzero]; decide
    have hne : w ≠ [] := by rintro rfl; simp at hlen
    have hpush : pushSlice (pre ++ (w ++ post)) (byteLen pre) (byteLen pre + 16) o = .ok (w.foldl referenceStep o) := by
      rw [hend, byteLen_append, pushSlice_append, foldl_referenceStep_push (hmask.eq_zero_iff.mp hzero) hne]
    rw [if_pos hzero, if_neg hctz, hpush, hend]
    rfl
  rw [if_neg hzero]
  by_cases hctz : bits.ctz.toNat = 15
  · obtain ⟨a, c, r', rfl, ha_len, -, ha, -⟩ := hmask.split hzero
    have hs : pre ++ (a ++ c :: r' ++ post) = pre ++ (a ++ (c :: r' ++ post)) := by simp
    rw [if_pos hctz, walkMask_lone hctz hs (by omega) (fun d hd => hascii d (by simp [hd])) ha]
    rfl
  · have hfuel : w.length ≤ byteLen (pre ++ (w ++ post)) + 1 := by
      rw [byteLen_append, byteLen_append, byteLen_ascii hascii]
      omega
    obtain ⟨r₁, r₂, hw, hr₂, hwalk⟩ :=
      walkMask_spec hmask hzero hascii (by omega) hctz hfuel profile pre post o
    have hascii₂ : ∀ d ∈ r₂, d.toNat < 0x80 := fun d hd => hascii d (by simp [hw, hd])
    have hcur : byteLen (pre ++ r₁) + byteLen r₂ = byteLen pre + 16 := by
      rw [← byteLen_append, List.append_assoc, ← hw, hend]
    rw [if_neg hctz, hwalk]
    show (if 0 < byteLen pre + 16 - byteLen (pre ++ r₁) then _ else _) = _
    by_cases hnil : r₂ = []
    · -- the walk has consumed the chunk
      rw [hnil, byteLen_nil] at hcur
      rw [hnil, List.append_nil] at hw
      rw [if_neg (by omega), hw]
      rfl
    · have hpos : 0 < byteLen r₂ := by rw [byteLen_ascii hascii₂]; exact List.length_pos_iff.mpr hnil
      have hpush : pushSlice (pre ++ (w ++ post)) (byteLen (pre ++ r₁)) (byteLen pre + 16) (r₁.foldl referenceStep o) =
          .ok (w.foldl referenceStep o) := by
        have happ := pushSlice_append (pre ++ r₁) r₂ post (r₁.foldl referenceStep o)
        have hs : pre ++ r₁ ++ (r₂ ++ post) = pre ++ (w ++ post) := by simp [hw]
        rw [hs, hcur] at happ
        rw [happ, hw, List.foldl_append, foldl_referenceStep_push hr₂ hnil]
      rw [if_pos (by omega), hpush, hend]
      rfl

/-- A chunk whose sixteen bytes are ASCII lies over sixteen characters. -/
theorem exists_ascii_chunk {pre t : Text} (hlen : 16 ≤ byteLen t)
    (hlow : ∀ j, loaduSi128 (bytes (pre ++ t)) (byteLen pre) j < 0x80) :
    ∃ w post, t = w ++ post ∧ w.length = 16 ∧ ∀ c ∈ w, c.toNat < 0x80 := by
  apply exists_ascii_prefix
  intro j hj
  have hjt : j < (bytes t).length := by rw [length_bytes]; omega
  have hge : (bytes pre).length ≤ byteLen pre + j := by rw [length_bytes]; omega
  have hlane : loaduSi128 (bytes (pre ++ t)) (byteLen pre) ⟨j, hj⟩ = (bytes t)[j] := by
    show (bytes (pre ++ t)).getD (byteLen pre + j) 0 = (bytes t)[j]
    rw [List.getD_eq_getElem?_getD, bytes_append, List.getElem?_append_right hge, length_bytes,
      Nat.add_sub_cancel_left, List.getElem?_eq_getElem hjt]
    rfl
  exact ⟨(bytes t)[j], List.getElem?_eq_getElem hjt, by rw [← hlane]; exact hlow ⟨j, hj⟩⟩

/-- The window of a chunk that lies over sixteen ASCII characters. -/
theorem window_ascii {w : Text} (hw : ∀ c ∈ w, c.toNat < 0x80) (post : Text) : window w.length (w ++ post) = w := by
  have happ := window_append_dropWindow w.length (w ++ post)
  rw [dropWindow_ascii hw post] at happ
  exact List.append_cancel_right happ

/-- **One chunk**: the reference on the characters that begin in it, or the panic. -/
theorem chunkStep_spec {s pre t : Text} (hs : s = pre ++ t) (hlen : 16 ≤ byteLen t) (profile : Profile)
    (o : Collapsed) :
    chunkStep profile (bytes s) s (byteLen pre) o =
      if LoneTrailing t then .error (lonePanic profile)
      else .ok (byteLen (pre ++ window 16 t), (window 16 t).foldl referenceStep o) := by
  unfold chunkStep
  by_cases hascii : movemaskEpi8 (loaduSi128 (bytes s) (byteLen pre)) = 0
  · have hlow := (movemaskEpi8_eq_zero_iff _).mp hascii
    rw [hs] at hlow
    obtain ⟨w, post, rfl, hw, hwlow⟩ := exists_ascii_chunk hlen hlow
    have hwin : window 16 (w ++ post) = w := by rw [← hw, window_ascii hwlow post]
    have hmask : MaskOf ((movemaskEpi8 (wsLanes (loaduSi128 (bytes s) (byteLen pre)))).setWidth 16) w := by
      intro j
      rw [hs, getLsbD_wsMask hwlow hw]
    simp only [hascii, ne_eq, not_true_eq_false, if_false]
    rw [hwin]
    simp only [← hmask.ctz_eq_iff hwlow hw post]
    rw [hs] at hmask ⊢
    exact asciiChunk_spec hmask hwlow hw profile pre post o
  · have hnot : ¬ LoneTrailing t := by
      -- a chunk with a lone trailing white space is all ASCII
      intro hlone
      apply hascii
      rw [movemaskEpi8_eq_zero_iff]
      intro j
      have htake : t = t.take 16 ++ t.drop 16 := (List.take_append_drop 16 t).symm
      have hlt : j.val < (t.take 16).length := by
        have hall := hlone.lt_length
        rw [List.length_take]
        omega
      rw [hs, htake, loaduSi128_ascii hlone.ascii pre (t.drop 16) j hlt]
      exact (lead_lt_iff _).mpr (hlone.ascii _ (List.getElem_mem _))
    simp only [ne_eq, hascii, not_false_eq_true, if_true, hnot, if_false]
    exact scalarWs_window hs hlen o

/-! ## Whole runs -/

/-- What is left of a string after `k` chunks: each chunk ends after the character in which its sixteenth byte lies. -/
def chunkAt (s : Text) (k : Nat) : Text := (dropWindow 16)^[k] s

theorem byteLen_chunkAt_le (s : Text) (k : Nat) : byteLen (chunkAt s k) ≤ byteLen s := by
  induction k generalizing s with
  | zero => exact Nat.le_refl _
  | succ k ih =>
      have hdrop := byteLen_window_add 16 s
      have hrest := ih (dropWindow 16 s)
      show byteLen (chunkAt (dropWindow 16 s) k) ≤ byteLen s
      omega

/-- **The chunk loop** up to the tail: the reference on all chunks, or the panic of the first lone one. -/
theorem chunkLoop_spec {s pre t : Text} (hs : s = pre ++ t) {fuel : Nat} (hfuel : byteLen t ≤ fuel)
    (profile : Profile) (o : Collapsed) :
    ((∃ k, LoneTrailing (chunkAt t k)) →
      chunkLoop profile (bytes s) s fuel (byteLen pre) o = .error (lonePanic profile)) ∧
    ((∀ k, ¬ LoneTrailing (chunkAt t k)) → ∃ pre' t', s = pre' ++ t' ∧
      ∃ o', chunkLoop profile (bytes s) s fuel (byteLen pre) o = .ok (byteLen pre', o') ∧
        t'.foldl referenceStep o' = t.foldl referenceStep o) := by
  have hbytes : (bytes s).length = byteLen pre + byteLen t := by rw [length_bytes, hs, byteLen_append]
  -- a round consumes a window, so the chunks of what is left are the later chunks of `t`
  induction fuel generalizing pre t o with
  | zero =>
      have hstop : ¬ byteLen pre + 16 ≤ (bytes s).length := by omega
      constructor
      · rintro ⟨k, hk⟩
        have hle := byteLen_chunkAt_le t k
        have hlone := hk.le_byteLen
        omega
      · intro _
        exact ⟨pre, t, hs, o, by rw [chunkLoop, if_neg hstop], rfl⟩
  | succ fuel ih =>
      by_cases hround : byteLen pre + 16 ≤ (bytes s).length
      · have hlen : 16 ≤ byteLen t := by omega
        have hstep := chunkStep_spec hs hlen profile o
        have hwin := le_byteLen_window hlen
        have hsum := byteLen_window_add 16 t
        have hs' : s = (pre ++ window 16 t) ++ dropWindow 16 t := by
          rw [hs, List.append_assoc, window_append_dropWindow]
        have hrec := ih hs' (by omega) ((window 16 t).foldl referenceStep o) (by rw [byteLen_append]; omega)
        have hfold : (dropWindow 16 t).foldl referenceStep ((window 16 t).foldl referenceStep o) =
            t.foldl referenceStep o := by
          rw [← List.foldl_append, window_append_dropWindow]
        rw [chunkLoop, if_pos hround, hstep]
        rw [hfold] at hrec
        by_cases hlone : LoneTrailing t
        · rw [if_pos hlone]
          exact ⟨fun _ => rfl, fun hall => absurd hlone (hall 0)⟩
        · rw [if_neg hlone]
          constructor
          · rintro ⟨k, hk⟩
            cases k with
            | zero => exact absurd hk hlone
            | succ k => exact hrec.1 ⟨k, hk⟩
          · intro hall
            exact hrec.2 fun k => hall (k + 1)
      · constructor
        · rintro ⟨k, hk⟩
          have hle := byteLen_chunkAt_le t k
          have hlone := hk.le_byteLen
          omega
        · intro _
          exact ⟨pre, t, hs, o, by rw [chunkLoop, if_neg hround], rfl⟩

/-- A run without a lone trailing white space computes the reference. -/
theorem collapseWhitespace_ok {s : Text} (h : ∀ k, ¬ LoneTrailing (chunkAt s k)) (profile : Profile) :
    collapseWhitespace profile s = .ok (referenceCollapse s) := by
  have hstart : s = [] ++ s := rfl
  have hfuel : byteLen s ≤ (bytes s).length + 1 := by rw [length_bytes]; omega
  unfold collapseWhitespace
  by_cases hshort : (bytes s).length < 16
  · simp only [hshort, if_true, scalarWs_all]
    rfl
  · obtain ⟨pre, t, hs, o, hloop, hfold⟩ := (chunkLoop_spec hstart hfuel profile Collapsed.empty).2 h
    rw [byteLen_nil] at hloop
    simp only [hshort, if_false, hloop]
    show (scalarWs (bytes s) s (bytes s).length (bytes s).length (byteLen pre) o >>= fun r => pure r.2.out) = _
    rw [scalarWs_tail hs, hfold]
    rfl

/-- A run that meets a lone trailing white space panics. -/
theorem collapseWhitespace_lone {s : Text} (h : ∃ k, LoneTrailing (chunkAt s k)) (profile : Profile) :
    collapseWhitespace profile s = .error (lonePanic profile) := by
  have hlong : ¬ (bytes s).length < 16 := by
    obtain ⟨k, hk⟩ := h
    have hle := byteLen_chunkAt_le s k
    have hlone := hk.le_byteLen
    rw [length_bytes]
    omega
  have hstart : s = [] ++ s := rfl
  have hfuel : byteLen s ≤ (bytes s).length + 1 := by rw [length_bytes]; omega
  have hloop := (chunkLoop_spec hstart hfuel profile Collapsed.empty).1 h
  rw [byteLen_nil] at hloop
  unfold collapseWhitespace
  simp only [hlong, if_false, hloop]
  rfl

/-- **The `x86_64` collapser returns the reference result exactly if no chunk has a lone trailing white space**, in
    either build profile. -/
theorem collapseWhitespace_eq_reference_iff (profile : Profile) (s : Text) :
    collapseWhitespace profile s = .ok (referenceCollapse s) ↔ ∀ k, ¬ LoneTrailing (chunkAt s k) := by
  constructor
  · intro hok k hk
    rw [collapseWhitespace_lone ⟨k, hk⟩ profile] at hok
    cases hok
  · intro h
    exact collapseWhitespace_ok h profile

/-- Fifteen letters and a space: sixteen bytes that neither build survives. -/
theorem collapseWhitespace_panics :
    collapseWhitespace .debug "aaaaaaaaaaaaaaa " = .error .shiftOverflow ∧
      collapseWhitespace .release "aaaaaaaaaaaaaaa " = .error .slice := by
  have hlone : ∃ k, LoneTrailing (chunkAt "aaaaaaaaaaaaaaa " k) := ⟨0, by decide⟩
  exact ⟨collapseWhitespace_lone hlone .debug, collapseWhitespace_lone hlone .release⟩

/-! ## The reference, as runs -/

/-- The collapser by its reference definition, which never panics. -/
def reference (t : Text) : Except Panic Text := .ok (referenceCollapse t)

/-- The plain reading: every maximal run of ASCII white space is one space, everything else is copied. -/
def collapseRuns : Text → Text
  | [] => []
  | c :: s =>
      if isAsciiWhitespace c then ' ' :: collapseRuns (s.dropWhile isAsciiWhitespace)
      else c :: collapseRuns s
termination_by s => s.length
decreasing_by
  · have hle := (s.dropWhile_sublist isAsciiWhitespace).length_le
    simp only [List.length_cons]
    omega
  · simp

/-- After a space, further white space changes nothing. -/
theorem foldl_referenceStep_dropWhile (s out : Text) :
    s.foldl referenceStep ⟨out, true⟩ = (s.dropWhile isAsciiWhitespace).foldl referenceStep ⟨out, true⟩ := by
  induction s with
  | nil => rfl
  | cons c s ih =>
      by_cases hc : isAsciiWhitespace c = true
      · rw [List.foldl_cons, referenceStep_ws hc, List.dropWhile_cons_of_pos hc]
        exact ih
      · rw [List.dropWhile_cons_of_neg hc]

theorem foldl_referenceStep_eq (s out : Text) (b : Bool) (hb : b = true → (s.head?.any isAsciiWhitespace) = false) :
    (s.foldl referenceStep ⟨out, b⟩).out = out ++ collapseRuns s := by
  fun_induction collapseRuns s generalizing out b with
  | case1 => simp
  | case2 c s hc ih =>
      have hfalse : b = false := by
        cases b with
        | false => rfl
        | true => exact absurd (hb rfl) (by simp [hc])
      subst hfalse
      rw [List.foldl_cons, referenceStep_ws hc]
      show (s.foldl referenceStep ⟨out ++ [' '], true⟩).out = _
      rw [foldl_referenceStep_dropWhile, ih]
      · simp
      · -- what is left does not begin with white space
        intro _
        cases hd : (s.dropWhile isAsciiWhitespace).head? with
        | none => rfl
        | some d =>
            have hnot : isAsciiWhitespace d = false := head_dropWhile hd
            exact hnot
  | case3 c s hc ih =>
      rw [List.foldl_cons, referenceStep, if_neg hc]
      show (s.foldl referenceStep ⟨out ++ [c], false⟩).out = _
      rw [ih _ _ (by simp)]
      simp

/-- **The reference collapses exactly the maximal runs.** -/
theorem referenceCollapse_eq (s : Text) : referenceCollapse s = collapseRuns s := by
  rw [referenceCollapse, Collapsed.empty, foldl_referenceStep_eq s [] false (by simp), List.nil_append]

end Scrape
end McpWebSearch
