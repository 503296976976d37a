import Mathlib.Order.Basic
import Mathlib.Data.Nat.Init

/-!
# Loop — loops that leave from their middle

One turn of a loop goes round again, or leaves with a result.  `Leaves` is the loop as a relation,
with no bound on the turns; `loop` is the function that takes at most so many of them.  A variant
makes the two agree.
-/

namespace InfernoFpga
namespace Lib

variable {σ ρ : Type*}

/-- What one turn of a loop comes to. -/
inductive Turn (σ ρ : Type*)
  | again (s : σ)
  | leave (r : ρ)

/-- `P` holds of the state a turn goes round with, `Q` of the result it leaves with. -/
def Turn.All (P : σ → Prop) (Q : ρ → Prop) : Turn σ ρ → Prop
  | .again s => P s
  | .leave r => Q r

/-- The loop, for at most so many turns. -/
def loop (turn : σ → Turn σ ρ) : Nat → σ → Option ρ
  | 0, _ => none
  | fuel + 1, s =>
      match turn s with
      | .again s' => loop turn fuel s'
      | .leave r => some r

/-- From `s` the loop leaves with `r`, after however many turns. -/
inductive Leaves (turn : σ → Turn σ ρ) : σ → ρ → Prop
  | now {s : σ} {r : ρ} : turn s = .leave r → Leaves turn s r
  | later {s s' : σ} {r : ρ} : turn s = .again s' → Leaves turn s' r → Leaves turn s r

variable {turn : σ → Turn σ ρ} {s s' : σ} {r r' : ρ} {fuel : Nat}

theorem loop_again (h : turn s = .again s') : loop turn (fuel + 1) s = loop turn fuel s' := by
  rw [loop, h]

theorem loop_leave (h : turn s = .leave r) : loop turn (fuel + 1) s = some r := by
  rw [loop, h]

/-- What the bounded loop returns is what the loop leaves with. -/
theorem leaves_of_loop (h : loop turn fuel s = some r) : Leaves turn s r := by
  induction fuel generalizing s with
  | zero => exact absurd h (by simp [loop])
  | succ fuel ih =>
      cases hturn : turn s with
      | again s' =>
          rw [loop_again hturn] at h
          exact .later hturn (ih h)
      | leave r' =>
          rw [loop_leave hturn] at h
          cases h
          exact .now hturn

namespace Leaves

theorem unique (h : Leaves turn s r) (h' : Leaves turn s r') : r = r' := by
  induction h with
  | now hturn =>
      cases h' with
      | now hturn' =>
          rw [hturn] at hturn'
          exact Turn.leave.inj hturn'
      | later hturn' _ =>
          rw [hturn] at hturn'
          cases hturn'
  | later hturn _ ih =>
      cases h' with
      | now hturn' =>
          rw [hturn] at hturn'
          cases hturn'
      | later hturn' hrest =>
          rw [hturn] at hturn'
          cases hturn'
          exact ih hrest

/-- The invariant of a loop gives what holds of its result. -/
theorem post {I : σ → Prop} {Q : ρ → Prop} (hturn : ∀ s, I s → (turn s).All I Q)
    (h : Leaves turn s r) (hs : I s) : Q r := by
  induction h with
  | @now s r heq =>
      have hall := hturn s hs
      rwa [heq] at hall
  | @later s s' r heq _ ih =>
      have hall := hturn s hs
      rw [heq] at hall
      exact ih hall

end Leaves

/-- `m` goes down with every turn that goes round again. -/
def Variant (turn : σ → Turn σ ρ) (m : σ → Nat) : Prop :=
  ∀ s, (turn s).All (fun s' => m s' < m s) fun _ => True

namespace Variant

variable {m : σ → Nat}

/-- A loop with a variant leaves, before the variant is used up. -/
theorem exists_loop_eq (h : Variant turn m) (hfuel : m s < fuel) :
    ∃ r, loop turn fuel s = some r := by
  induction fuel generalizing s with
  | zero => exact absurd hfuel (Nat.not_lt_zero _)
  | succ fuel ih =>
      have hless := h s
      cases hturn : turn s with
      | again s' =>
          rw [hturn] at hless
          rw [loop_again hturn]
          exact ih (Nat.lt_of_lt_of_le hless (Nat.le_of_lt_succ hfuel))
      | leave r => exact ⟨r, loop_leave hturn⟩

/-- With so many turns the bounded loop is the loop. -/
theorem loop_eq_of_leaves (h : Variant turn m) (hfuel : m s < fuel) (hr : Leaves turn s r) :
    loop turn fuel s = some r := by
  obtain ⟨r', hloop⟩ := h.exists_loop_eq hfuel
  rw [hloop, (leaves_of_loop hloop).unique hr]

end Variant

end Lib
end InfernoFpga
