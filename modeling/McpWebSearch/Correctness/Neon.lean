import McpWebSearch.Correctness.Collapse

/-!
# `Correctness.Neon` — the collapsers of the other targets

On `aarch64` a chunk is either copied whole, when all its lanes are ASCII and none is white space, or handed to the byte
loop; there is no bit walk, so nothing of the panic of the `x86_64` form is left. Both branches are the reference on
the window at the cursor (`neonStep_spec`), and so is the loop over the windows (`neonLoop_spec`); the portable form is
one run of the byte loop. `collapseWhitespace_targets` puts the two side by side.
-/

namespace McpWebSearch
namespace Scrape

open Utf8 Simd

/-! ## Lanes -/

/-- The range check looks at each lane by itself. -/
theorem wsLanesNeon_lane (a : Uint8x16) (j : Fin 16) : wsLanesNeon a j = wsLanesNeon (fun _ => a j) 0 := rfl

/-- The range check on one byte is zero exactly off the white space. -/
theorem wsLaneNeon (b : UInt8) : wsLanesNeon (fun _ => b) 0 ≤ 0 ↔ isAsciiWhitespaceByte b = false := by
  have hall : ∀ n < 256,
      (wsLanesNeon (fun _ => UInt8.ofNat n) 0 ≤ 0 ↔ isAsciiWhitespaceByte (UInt8.ofNat n) = false) := by
    decide +kernel
  have hb := hall b.toNat b.toNat_lt
  rwa [UInt8.ofNat_toNat] at hb

/-- All lanes are ASCII exactly if the largest one is. -/
theorem vmaxvqU8_ascii_iff (a : Uint8x16) : ¬ 0x80 ≤ vmaxvqU8 a ↔ ∀ j, a j < 0x80 := by
  have hlt (b : UInt8) : b < 0x80 ↔ b ≤ 0x7F := by
    rw [UInt8.lt_iff_toNat_lt, UInt8.le_iff_toNat_le]
    exact Nat.lt_succ_iff
  rw [UInt8.not_le, hlt, vmaxvqU8_le_iff]
  simp only [hlt]

/-- No lane of a chunk over ASCII characters is marked exactly if none of the characters is white space. -/
theorem wsLanesNeon_eq_zero_iff {pre w : Text} (hw : ∀ c ∈ w, c.toNat < 0x80) (hlen : w.length = 16) (post : Text) :
    vmaxvqU8 (wsLanesNeon (loaduSi128 (bytes (pre ++ (w ++ post))) (byteLen pre))) = 0 ↔
      ∀ c ∈ w, isAsciiWhitespace c = false := by
  have hzero (b : UInt8) : b = 0 ↔ b ≤ 0 := by
    rw [UInt8.le_iff_toNat_le, ← UInt8.toNat_inj]
    exact Nat.le_zero.symm
  have hlane (j : Fin 16) (hj : j.val < w.length) :
      wsLanesNeon (loaduSi128 (bytes (pre ++ (w ++ post))) (byteLen pre)) j ≤ 0 ↔
        isAsciiWhitespace w[j.val] = false := by
    rw [wsLanesNeon_lane, loaduSi128_ascii hw pre post j hj, wsLaneNeon, isAsciiWhitespaceByte_lead]
  rw [hzero, vmaxvqU8_le_iff]
  constructor
  · intro h c hc
    obtain ⟨j, hj, rfl⟩ := List.mem_iff_getElem.mp hc
    exact (hlane ⟨j, hlen ▸ hj⟩ hj).mp (h _)
  · intro h j
    have hj : j.val < w.length := by rw [hlen]; exact j.isLt
    exact (hlane j hj).mpr (h _ (List.getElem_mem hj))

/-! ## Chunks and runs -/

/-- **One round**: whichever branch is taken, the reference on the characters that begin in the chunk. -/
theorem neonStep_spec {s pre t : Text} (hs : s = pre ++ t) (hlen : 16 ≤ byteLen t) (o : Collapsed) :
    neonStep (bytes s) s (byteLen pre) o =
      .ok (byteLen (pre ++ window 16 t), (window 16 t).foldl referenceStep o) := by
  have hload : vld1qU8 (bytes s) (byteLen pre) = some (loaduSi128 (bytes s) (byteLen pre)) := by
    have hfits : byteLen pre + 16 ≤ (bytes s).length := by rw [length_bytes, hs, byteLen_append]; omega
    rw [vld1qU8, if_pos hfits]
  have hwindow := scalarWs_window hs hlen o
  rw [neonStep, hload]
  by_cases hascii : 0x80 ≤ vmaxvqU8 (loaduSi128 (bytes s) (byteLen pre))
  · simp only [hascii, if_true, hwindow]
  by_cases hnone : vmaxvqU8 (wsLanesNeon (loaduSi128 (bytes s) (byteLen pre))) = 0
  · -- the bulk copy: the window is sixteen ASCII characters, none of them white space
    simp only [hascii, hnone, if_true, if_false]
    rw [vmaxvqU8_ascii_iff, hs] at hascii
    obtain ⟨w, post, rfl, hw, hwlow⟩ := exists_ascii_chunk hlen hascii
    have hwin : window 16 (w ++ post) = w := by rw [← hw, window_ascii hwlow post]
    have hplain : ∀ c ∈ w, isAsciiWhitespace c = false := by
      rwa [hs, wsLanesNeon_eq_zero_iff hwlow hw post] at hnone
    have hne : w ≠ [] := by rintro rfl; cases hw
    have hend : byteLen pre + 16 = byteLen pre + byteLen w := by rw [byteLen_ascii hwlow, hw]
    have hpush := pushSlice_append pre w post o
    rw [hs, hwin, hend, hpush, foldl_referenceStep_push hplain hne, byteLen_append]
    rfl
  · simp only [hascii, hnone, if_false, hwindow]

/-- **The NEON loop** runs up to a cursor with the reference's output on everything before it. -/
theorem neonLoop_spec {s pre t : Text} (hs : s = pre ++ t) {fuel : Nat} (hfuel : byteLen t ≤ fuel) (o : Collapsed) :
    ∃ pre' t' o', s = pre' ++ t' ∧ neonLoop (bytes s) s fuel (byteLen pre) o = .ok (byteLen pre', o') ∧
      t'.foldl referenceStep o' = t.foldl referenceStep o := by
  have hbytes : (bytes s).length = byteLen pre + byteLen t := by rw [length_bytes, hs, byteLen_append]
  induction fuel generalizing pre t o with
  | zero =>
      have hstop : ¬ byteLen pre + 16 ≤ (bytes s).length := by omega
      exact ⟨pre, t, o, hs, by rw [neonLoop, if_neg hstop], rfl⟩
  | succ fuel ih =>
      by_cases hround : byteLen pre + 16 ≤ (bytes s).length
      · have hlen : 16 ≤ byteLen t := by omega
        have hwin := le_byteLen_window hlen
        have hsum := byteLen_window_add 16 t
        have hs' : s = (pre ++ window 16 t) ++ dropWindow 16 t := by
          rw [hs, List.append_assoc, window_append_dropWindow]
        obtain ⟨pre', t', o', hsplit, hloop, hfold⟩ :=
          ih hs' (by omega) ((window 16 t).foldl referenceStep o) (by rw [byteLen_append]; omega)
        rw [← List.foldl_append, window_append_dropWindow] at hfold
        refine ⟨pre', t', o', hsplit, ?_, hfold⟩
        rw [neonLoop, if_pos hround, neonStep_spec hs hlen]
        exact hloop
      · exact ⟨pre, t, o, hs, by rw [neonLoop, if_neg hround], rfl⟩

theorem collapseWhitespaceNeon_eq (s : Text) : collapseWhitespaceNeon s = .ok (referenceCollapse s) := by
  unfold collapseWhitespaceNeon
  by_cases hshort : (bytes s).length < 16
  · simp only [hshort, if_true, scalarWs_all]
    rfl
  · have hstart : s = [] ++ s := rfl
    have hfuel : byteLen s ≤ (bytes s).length + 1 := by rw [length_bytes]; omega
    obtain ⟨pre, t, o, hs, hloop, hfold⟩ := neonLoop_spec hstart hfuel Collapsed.empty
    rw [byteLen_nil] at hloop
    simp only [hshort, if_false, hloop]
    show (scalarWs (bytes s) s (bytes s).length (bytes s).length (byteLen pre) o >>= fun r => pure r.2.out) = _
    rw [scalarWs_tail hs, hfold]
    rfl

theorem collapseWhitespaceGeneric_eq (s : Text) : collapseWhitespaceGeneric s = .ok (referenceCollapse s) := by
  unfold collapseWhitespaceGeneric
  simp only [scalarWs_all]
  rfl

/-- **The NEON and the portable collapser are the reference**: on every string both return, without a panic, the string
    with each maximal run of ASCII white space as one space; so the two targets agree. -/
theorem collapseWhitespace_targets (s : Text) :
    collapseWhitespaceNeon s = .ok (collapseRuns s) ∧ collapseWhitespaceGeneric s = .ok (collapseRuns s) ∧
      collapseWhitespaceNeon s = collapseWhitespaceGeneric s := by
  rw [collapseWhitespaceNeon_eq, collapseWhitespaceGeneric_eq, referenceCollapse_eq]
  exact ⟨rfl, rfl, rfl⟩

end Scrape
end McpWebSearch
