import Mathlib.Algebra.Order.Ring.Int
import Mathlib.Algebra.Order.Ring.Abs
import Mathlib.Tactic.Linarith

/-!
# Signed — arithmetic that traps

A signed machine integer is an `Int`; an operation gives no result where the machine's would
overflow, and none for a division by zero.  A program written with these operations returns a
value exactly if none of its operations goes wrong, so "no overflow" is an equation about it.
-/

namespace InfernoFpga
namespace Lib
namespace Signed

variable {w : Nat} {x y : Int}

/-- `x` is a value of the signed type of `w` bits. -/
def Fits (w : Nat) (x : Int) : Prop := -2 ^ (w - 1) ≤ x ∧ x < 2 ^ (w - 1)

instance : Decidable (Fits w x) := inferInstanceAs (Decidable (_ ∧ _))

/-- The value of an operation, if it has one. -/
def trap (w : Nat) (x : Int) : Option Int := if Fits w x then some x else none

def add (w : Nat) (x y : Int) : Option Int := trap w (x + y)
def sub (w : Nat) (x y : Int) : Option Int := trap w (x - y)
def mul (w : Nat) (x y : Int) : Option Int := trap w (x * y)
def neg (w : Nat) (x : Int) : Option Int := trap w (-x)
def div (w : Nat) (x y : Int) : Option Int := if y = 0 then none else trap w (x.tdiv y)

/-- `x < 0 ? -x : x`. -/
def abs (w : Nat) (x : Int) : Option Int := if x < 0 then neg w x else some x

/-! ## When an operation has its value -/

theorem trap_of_fits (h : Fits w x) : trap w x = some x := if_pos h

theorem add_of_fits (h : Fits w (x + y)) : add w x y = some (x + y) := trap_of_fits h
theorem sub_of_fits (h : Fits w (x - y)) : sub w x y = some (x - y) := trap_of_fits h
theorem mul_of_fits (h : Fits w (x * y)) : mul w x y = some (x * y) := trap_of_fits h
theorem neg_of_fits (h : Fits w (-x)) : neg w x = some (-x) := trap_of_fits h

theorem abs_of_fits (h : Fits w (-x)) : abs w x = some (x.natAbs : Int) := by
  rw [abs]
  split
  · rw [neg_of_fits h]
    exact congrArg some (by omega)
  · exact congrArg some (by omega)

/-- A quotient by a positive number is no larger than what is divided. -/
theorem div_of_pos (hy : 0 < y) (hx : Fits w x) : div w x y = some (x.tdiv y) := by
  rw [div, if_neg hy.ne']
  refine trap_of_fits ?_
  have hmin : (0 : Int) < 2 ^ (w - 1) := Int.pow_pos (by decide)
  rcases Int.le_total 0 x with hpos | hneg
  · have hlow : 0 ≤ x.tdiv y := Int.tdiv_nonneg hpos hy.le
    have hhigh : x.tdiv y ≤ x := Int.tdiv_le_self y hpos
    exact ⟨by omega, lt_of_le_of_lt hhigh hx.2⟩
  · have hminus : x.tdiv y = -((-x).tdiv y) := by rw [Int.neg_tdiv, Int.neg_neg]
    have hlow : 0 ≤ (-x).tdiv y := Int.tdiv_nonneg (by omega) hy.le
    have hhigh : (-x).tdiv y ≤ -x := Int.tdiv_le_self y (by omega)
    exact ⟨le_trans hx.1 (by omega), by omega⟩

/-! ## Bounds -/

/-- A magnitude. -/
def Within (m x : Int) : Prop := -m ≤ x ∧ x ≤ m

theorem within_iff_abs {m : Int} : Within m x ↔ |x| ≤ m := abs_le.symm

theorem Within.mono {m n : Int} (hx : Within m x) (hmn : m ≤ n) : Within n x :=
  ⟨le_trans (neg_le_neg hmn) hx.1, le_trans hx.2 hmn⟩

theorem Within.mul {m n : Int} (hx : Within m x) (hy : Within n y) : Within (m * n) (x * y) := by
  rw [within_iff_abs] at hx hy ⊢
  rw [abs_mul]
  exact mul_le_mul hx hy (abs_nonneg y) (le_trans (abs_nonneg x) hx)

/-- A magnitude of `m * k`, divided by `k`. -/
theorem Within.tdiv {m k : Int} (hk : 0 < k) (hx : Within (m * k) x) : Within m (x.tdiv k) := by
  have hup := Int.tdiv_le_tdiv hk hx.2
  have hdown := Int.tdiv_le_tdiv hk hx.1
  rw [Int.mul_tdiv_cancel _ hk.ne'] at hup
  rw [← Int.neg_mul, Int.mul_tdiv_cancel _ hk.ne'] at hdown
  exact ⟨hdown, hup⟩

/-- A division by a positive number makes nothing larger. -/
theorem Within.tdiv_of_pos {m k : Int} (hk : 0 < k) (hx : Within m x) : Within m (x.tdiv k) := by
  have hm : 0 ≤ m := by
    have := hx.1.trans hx.2
    omega
  have hmk : m ≤ m * k := le_mul_of_one_le_right hm hk
  exact Within.tdiv hk ⟨le_trans (neg_le_neg hmk) hx.1, le_trans hx.2 hmk⟩

end Signed
end Lib
end InfernoFpga
