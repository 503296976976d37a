import Mathlib.Data.Set.Function

/-!
# Keyed — slots with keys of their own

Some slots of a table are live, and two live ones may be the same in what they are looked up by.
`Alone` says that they never are.  Rewriting one slot keeps this if it ends up dead, or is not the
same as any live slot.
-/

namespace InfernoFpga
namespace Lib

/-- Live slots that are the same are one slot. -/
def Alone {ι : Type*} (live : ι → Bool) (same : ι → ι → Prop) : Prop :=
  ∀ a b, live a = true → live b = true → same a b → a = b

section Rewrite

variable {ι : Type*} {live live' : ι → Bool} {same same' : ι → ι → Prop} {f : ι}

theorem Alone.rewrite (h : Alone live same) (hlive : ∀ g, g ≠ f → live' g = live g)
    (hsame : ∀ g k, g ≠ f → k ≠ f → same' g k → same g k)
    (hnew : live' f = true → ∀ g, g ≠ f → live' g = true → ¬ same' g f ∧ ¬ same' f g) :
    Alone live' same' := by
  intro a b ha hb hab
  rcases eq_or_ne a f with rfl | haf
  · rcases eq_or_ne b a with rfl | hba
    · rfl
    · exact absurd hab (hnew ha b hba hb).2
  · rcases eq_or_ne b f with rfl | hbf
    · exact absurd hab (hnew hb a haf ha).1
    · -- neither slot has been touched
      rw [hlive a haf] at ha
      rw [hlive b hbf] at hb
      exact h a b ha hb (hsame a b haf hbf hab)

end Rewrite

end Lib
end InfernoFpga
