import Mathlib.Data.Int.ModEq
import Mathlib.Tactic.Linarith

/-!
# Carry — a count in two digits

A count kept as whole periods of `b` and what is left over.  Adding one carries into the periods,
taking some off borrows from them; both are read off the count itself.
-/

namespace InfernoFpga
namespace Lib

variable {b : Int}

/-- The count `t` as whole periods of `b` and the rest. -/
def digits (b t : Int) : Int × Int := (t / b, t % b)

theorem digits_eq (hb : 0 < b) {q r t : Int} (h : b * q + r = t) (hr : 0 ≤ r) (hlt : r < b) :
    digits b t = (q, r) := by
  have hunique := (Int.ediv_emod_unique (a := t) (q := q) hb).2 ⟨by linarith, hr, hlt⟩
  exact Prod.ext hunique.1 hunique.2

section Steps

variable (hb : 0 < b) (t : Int)

include hb

theorem rest_nonneg : 0 ≤ t % b := Int.emod_nonneg t hb.ne'

theorem rest_lt : t % b < b := Int.emod_lt_of_pos t hb

/-- One more: the rest runs over into the periods. -/
theorem digits_succ :
    digits b (t + 1) = if t % b = b - 1 then (t / b + 1, 0) else (t / b, t % b + 1) := by
  have hsplit := Int.mul_ediv_add_emod t b
  have hlow := rest_nonneg hb t
  have hhigh := rest_lt hb t
  by_cases hlast : t % b = b - 1
  · rw [if_pos hlast]
    refine digits_eq hb ?_ le_rfl hb
    rw [mul_add]
    linarith
  · rw [if_neg hlast]
    exact digits_eq hb (by linarith) (by linarith) (by omega)

/-- Some less: the rest borrows from the periods. -/
theorem digits_sub {d : Int} (hd : 0 ≤ d) (hdb : d ≤ b) :
    digits b (t - d) =
      if t % b < d then (t / b - 1, t % b + b - d) else (t / b, t % b - d) := by
  have hsplit := Int.mul_ediv_add_emod t b
  have hlow := rest_nonneg hb t
  have hhigh := rest_lt hb t
  by_cases hborrow : t % b < d
  · rw [if_pos hborrow]
    refine digits_eq hb ?_ (by linarith) (by linarith)
    rw [mul_sub]
    linarith
  · rw [if_neg hborrow]
    exact digits_eq hb (by linarith) (by omega) (by linarith)

end Steps

/-- What divides the period divides the rest when it divides the count. -/
theorem rest_emod {c : Int} (hc : c ∣ b) (t : Int) : t % b % c = t % c :=
  Int.emod_emod_of_dvd t hc

end Lib
end InfernoFpga
