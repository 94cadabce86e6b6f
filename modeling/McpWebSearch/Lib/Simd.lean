import Mathlib.Data.List.GetD
import Mathlib.Data.List.OfFn

/-!
# `Lib.Simd` — byte lanes, move masks and bit walks

A 128-bit register is its sixteen byte lanes. The operations are the SSE2 ones, lane by lane; `movemaskEpi8` gathers
the top bits of the lanes into an integer, and `BitVec.ctz` with a right shift walks such a mask from its lowest
set bit (`bitWalk_low`, `bitWalk_shift`). NEON has no such mask: `vmaxvqU8` asks all lanes at once (`vmaxvqU8_le_iff`).
-/

namespace Simd

/-- `__m128i`, seen as sixteen bytes; lane 0 is the one at the lowest address. -/
abbrev M128 := Fin 16 → UInt8

def loaduSi128 (bytes : List UInt8) (i : Nat) : M128 := fun j => bytes.getD (i + j.val) 0
def set1Epi8 (b : UInt8) : M128 := fun _ => b
def cmpeqEpi8 (a b : M128) : M128 := fun j => if a j = b j then 0xff else 0
def addEpi8 (a b : M128) : M128 := fun j => a j + b j
def xorSi128 (a b : M128) : M128 := fun j => a j ^^^ b j
def orSi128 (a b : M128) : M128 := fun j => a j ||| b j

/-- The complement of the first operand, and the second one. -/
def andnotSi128 (a b : M128) : M128 := fun j => ~~~ a j &&& b j

/-- The signed comparison. -/
def cmpgtEpi8 (a b : M128) : M128 := fun j => if (b j).toInt8 < (a j).toInt8 then 0xff else 0

/-- The sign bits of the lanes, lane 0 lowest; the upper half of the result is zero. -/
def movemaskEpi8 (a : M128) : BitVec 32 :=
  (BitVec.ofBoolListLE (List.ofFn fun j => decide (0x80 ≤ a j))).setWidth 32

theorem getLsbD_movemaskEpi8 (a : M128) (j : Nat) :
    (movemaskEpi8 a).getLsbD j = if h : j < 16 then decide (0x80 ≤ a ⟨j, h⟩) else false := by
  rw [movemaskEpi8, BitVec.getLsbD_setWidth, BitVec.getLsbD_ofBoolListLE]
  by_cases h : j < 16
  · have hj : j < 32 := by omega
    have hlen : j < (List.ofFn fun j => decide (0x80 ≤ a j)).length := by rw [List.length_ofFn]; exact h
    rw [List.getD_eq_getElem _ _ hlen, List.getElem_ofFn, dif_pos h]
    simp only [hj, decide_true, Bool.true_and]
  · have hlen : (List.ofFn fun j => decide (0x80 ≤ a j)).length ≤ j := by rw [List.length_ofFn]; omega
    rw [List.getD_eq_default _ _ hlen, dif_neg h, Bool.and_false]

/-- No lane has its sign bit set exactly if the mask is zero. -/
theorem movemaskEpi8_eq_zero_iff (a : M128) : movemaskEpi8 a = 0 ↔ ∀ j, a j < 0x80 := by
  constructor
  · intro h j
    have hj := getLsbD_movemaskEpi8 a j.val
    rw [h, dif_pos j.isLt] at hj
    have hlt : ¬ 0x80 ≤ a j := by simpa using hj.symm
    exact UInt8.not_le.mp hlt
  · intro h
    apply BitVec.eq_of_getLsbD_eq
    intro j _
    rw [getLsbD_movemaskEpi8]
    split
    · have hj := UInt8.not_le.mpr (h ⟨j, ‹_›⟩)
      simp [hj]
    · simp

/-! ## Walking a mask from its lowest set bit -/

variable {w : Nat} {bits : BitVec w} {p : Nat → Bool}

/-- The lowest set bit of a non-zero mask, and the clear bits below it. -/
theorem bitWalk_low (hp : ∀ j, bits.getLsbD j = p j) (hne : bits ≠ 0) :
    p bits.ctz.toNat = true ∧ ∀ j, j < bits.ctz.toNat → p j = false := by
  constructor
  · rw [← hp]
    exact BitVec.getLsbD_true_ctz_of_ne_zero hne
  · intro j hj
    rw [← hp]
    exact BitVec.getLsbD_false_of_lt_ctz hj

/-- What a right shift leaves of a mask. -/
theorem bitWalk_shift (hp : ∀ j, bits.getLsbD j = p j) (k : Nat) :
    ∀ j, (bits >>> k).getLsbD j = p (k + j) := by
  intro j
  rw [BitVec.getLsbD_ushiftRight, hp]

/-- A mask is zero exactly if the predicate it stands for fails everywhere. -/
theorem eq_zero_iff (hp : ∀ j, bits.getLsbD j = p j) : bits = 0 ↔ ∀ j, p j = false := by
  constructor
  · intro h j
    rw [← hp, h]
    simp
  · intro h
    apply BitVec.eq_of_getLsbD_eq
    intro j _
    rw [hp, h]
    simp

/-! ## NEON -/

/-- `uint8x16_t`: again sixteen bytes, lane 0 at the lowest address. -/
abbrev Uint8x16 := Fin 16 → UInt8

/-- The load of sixteen bytes, which must all be there. -/
def vld1qU8 (bytes : List UInt8) (i : Nat) : Option Uint8x16 :=
  if i + 16 ≤ bytes.length then some (loaduSi128 bytes i) else none

def vdupqNU8 (b : UInt8) : Uint8x16 := fun _ => b
def vceqqU8 (a b : Uint8x16) : Uint8x16 := fun j => if a j = b j then 0xff else 0
def vsubqU8 (a b : Uint8x16) : Uint8x16 := fun j => a j - b j
def vorrqU8 (a b : Uint8x16) : Uint8x16 := fun j => a j ||| b j

/-- The unsigned comparison. -/
def vcleqU8 (a b : Uint8x16) : Uint8x16 := fun j => if a j ≤ b j then 0xff else 0

/-- The first operand, and the complement of the second one. -/
def vbicqU8 (a b : Uint8x16) : Uint8x16 := fun j => a j &&& ~~~ b j

/-- The largest lane. -/
def vmaxvqU8 (a : Uint8x16) : UInt8 := (List.ofFn a).foldl max 0

theorem foldl_max_le_iff {xs : List UInt8} {m n : UInt8} : xs.foldl max m ≤ n ↔ m ≤ n ∧ ∀ b ∈ xs, b ≤ n := by
  induction xs generalizing m with
  | nil => simp
  | cons b xs ih =>
      have hmax : max m b ≤ n ↔ m ≤ n ∧ b ≤ n := by
        rw [show max m b = if m ≤ b then b else m from rfl]
        split <;> grind
      rw [List.foldl_cons, ih, hmax, List.forall_mem_cons, and_assoc]

/-- The largest lane is within a bound exactly if all lanes are. -/
theorem vmaxvqU8_le_iff (a : Uint8x16) (n : UInt8) : vmaxvqU8 a ≤ n ↔ ∀ j, a j ≤ n := by
  have hzero : (0 : UInt8) ≤ n := UInt8.le_iff_toNat_le.mpr (Nat.zero_le _)
  rw [vmaxvqU8, foldl_max_le_iff]
  simp only [hzero, true_and, List.mem_ofFn, forall_exists_index, forall_apply_eq_imp_iff]

end Simd
