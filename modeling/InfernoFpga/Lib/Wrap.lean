import Mathlib.Data.Int.ModEq
import Mathlib.Tactic.Linarith

/-!
# Wrap — fixed-width images of unbounded counters

A `w`-bit hardware counter is the image of an unbounded integer counter.  Subtracting two
such images in a *wider* signed word recovers the difference of the counters exactly as long
as both counters lie in the same block of `2 ^ w`; this file proves that, and nothing else.
-/

namespace InfernoFpga
namespace Lib

variable {w : Nat}

/-- The `w`-bit register that holds the unbounded count `x`. -/
def wrapped (w : Nat) (x : Int) : BitVec w := BitVec.ofInt w x

@[simp] theorem toNat_wrapped (x : Int) :
    ((wrapped w x).toNat : Int) = x % (2 ^ w : Nat) := by
  have hpos : (0 : Int) < ((2 ^ w : Nat) : Int) := by positivity
  simp only [wrapped, BitVec.toNat_ofInt]
  exact Int.toNat_of_nonneg (Int.emod_nonneg x hpos.ne')

theorem wrapped_add (x y : Int) : wrapped w (x + y) = wrapped w x + wrapped w y := by
  simp [wrapped, BitVec.ofInt_add]

theorem wrapped_sub (x y : Int) : wrapped w (x - y) = wrapped w x - wrapped w y := by
  rw [sub_eq_add_neg, wrapped_add, wrapped, wrapped, wrapped, BitVec.ofInt_neg,
    BitVec.sub_eq_add_neg]

/-- Two counts lie in the same block of `2 ^ w`: neither register has wrapped past the other. -/
def SameBlock (w : Nat) (x y : Int) : Prop :=
  x / (2 ^ w : Nat) = y / (2 ^ w : Nat)

instance (x y : Int) : Decidable (SameBlock w x y) :=
  inferInstanceAs (Decidable (_ = _))

/-- The difference of the two registers, against the difference of the counts. -/
theorem wrapped_sub_wrapped (x y : Int) :
    ((wrapped w x).toNat : Int) - ((wrapped w y).toNat : Int) =
      (x - y) - (2 ^ w : Nat) * (x / (2 ^ w : Nat) - y / (2 ^ w : Nat)) := by
  have hx := Int.emod_add_mul_ediv x (2 ^ w : Nat)
  have hy := Int.emod_add_mul_ediv y (2 ^ w : Nat)
  rw [toNat_wrapped, toNat_wrapped, mul_sub]
  linarith

/-- A wide difference of two wrapping registers is exact iff the counts share a block. -/
theorem wrapped_sub_eq_iff (x y : Int) :
    ((wrapped w x).toNat : Int) - ((wrapped w y).toNat : Int) = x - y ↔
      SameBlock w x y := by
  have hpos : ((2 ^ w : Nat) : Int) ≠ 0 := by positivity
  rw [wrapped_sub_wrapped]
  constructor
  · intro h
    have hzero : ((2 ^ w : Nat) : Int) * (x / (2 ^ w : Nat) - y / (2 ^ w : Nat)) = 0 := by
      linarith
    have := (mul_eq_zero.1 hzero).resolve_left hpos
    exact sub_eq_zero.1 this
  · intro h
    have h' : x / ((2 ^ w : Nat) : Int) = y / ((2 ^ w : Nat) : Int) := h
    rw [h', sub_self, mul_zero, sub_zero]

/-! ## Deadlines -/

/-- Less than half a period from a deadline, the sign of the difference of the two registers tells
on which side of it the count is. -/
theorem reached_iff {t d : Int} (hbefore : d - t ≤ 2 ^ w) (hafter : t - d < 2 ^ w) :
    0 ≤ (wrapped (w + 1) t - wrapped (w + 1) d).toInt ↔ d ≤ t := by
  have hexact : (wrapped (w + 1) (t - d)).toInt = t - d := by
    refine BitVec.toInt_ofInt_eq_self (Nat.succ_pos w) ?_ ?_
    · show -2 ^ w ≤ t - d
      linarith
    · show t - d < 2 ^ w
      exact hafter
  rw [← wrapped_sub, hexact, sub_nonneg]

end Lib
end InfernoFpga
