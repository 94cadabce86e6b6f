import Mathlib.Data.Nat.Bitwise

/-!
# `Lib.Cidr` — blocks of addresses

A block is the addresses of a fixed width that begin with the same bits, in the notation `base/len`. A test of an address
against a mask of leading ones is a test of its quotient by the size of the block (`land_leading`).
-/

namespace Cidr

/-- The block `base/len` of addresses of `width` bits; the bits of `base` after the first `len` are zero. -/
structure Block (width : Nat) where
  base : Nat
  len : Nat
  aligned : base % 2 ^ (width - len) = 0 := by decide

variable {width : Nat}

namespace Block

/-- The address begins with the first `len` bits of `base`. -/
def Contains (b : Block width) (addr : Nat) : Prop := addr / 2 ^ (width - b.len) = b.base / 2 ^ (width - b.len)

instance (b : Block width) (addr : Nat) : Decidable (b.Contains addr) := inferInstanceAs (Decidable (_ = _))

end Block

/-- The address is in one of the blocks. -/
def Within (bs : List (Block width)) (addr : Nat) : Prop := ∃ b ∈ bs, b.Contains addr

instance (bs : List (Block width)) (addr : Nat) : Decidable (Within bs addr) := inferInstanceAs (Decidable (∃ b ∈ bs, _))

@[simp] theorem within_nil (addr : Nat) : ¬ Within ([] : List (Block width)) addr := by
  rintro ⟨b, hb, -⟩
  exact absurd hb List.not_mem_nil

@[simp] theorem within_cons (b : Block width) (bs : List (Block width)) (addr : Nat) :
    Within (b :: bs) addr ↔ b.Contains addr ∨ Within bs addr := by
  unfold Within
  simp only [List.mem_cons, or_and_right, exists_or, exists_eq_left]

theorem within_append (bs cs : List (Block width)) (addr : Nat) :
    Within (bs ++ cs) addr ↔ Within bs addr ∨ Within cs addr := by
  unfold Within
  simp only [List.mem_append, or_and_right, exists_or]

/-- Masking all but the low `k` bits of a number of `w` bits. -/
theorem land_leading {x w k : Nat} (hx : x < 2 ^ w) (hk : k ≤ w) :
    x &&& (2 ^ k * (2 ^ (w - k) - 1)) = 2 ^ k * (x / 2 ^ k) := by
  apply Nat.eq_of_testBit_eq
  intro i
  rw [Nat.testBit_and, Nat.testBit_two_pow_mul, Nat.testBit_two_pow_mul, Nat.testBit_two_pow_sub_one, Nat.testBit_div_two_pow]
  by_cases hi : k ≤ i
  · have hback : i - k + k = i := by omega
    rw [hback]
    by_cases hw : i - k < w - k
    · simp [hi, hw]
    · -- above the width every bit is zero
      have hzero : x.testBit i = false := Nat.testBit_lt_two_pow (hx.trans_le (Nat.pow_le_pow_right (by decide) (by omega)))
      simp [hzero]
  · simp [hi]

end Cidr
