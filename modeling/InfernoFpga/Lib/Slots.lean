import Mathlib.Data.List.Basic
import Mathlib.Data.List.Induction
import Mathlib.Logic.Function.Basic

/-!
# Slots — writes of which some are dropped

Values are written into slots, each at a slot of its own choosing, and any of the writes may be
dropped.  What a slot holds in the end is the value of the last write at it that was taken; it is
what it would hold without any loss, unless the last write at that very slot was dropped.
-/

namespace InfernoFpga
namespace Lib

/-- A write at `slot`, which is taken or dropped. -/
structure Attempt (κ α : Type*) where
  slot : κ
  value : α
  taken : Bool

variable {κ α : Type*}

/-- The same write, not dropped. -/
def Attempt.take (w : Attempt κ α) : Attempt κ α := { w with taken := true }

/-- The last write at the slot was dropped. -/
def Stale (ws : List (Attempt κ α)) (k : κ) : Prop :=
  ∃ before w after, ws = before ++ w :: after ∧ w.slot = k ∧ w.taken = false ∧
    ∀ x ∈ after, x.slot ≠ k

namespace Stale

variable {ws : List (Attempt κ α)} {k : κ}

theorem concat (h : Stale ws k) {w : Attempt κ α} (hne : w.slot ≠ k) : Stale (ws ++ [w]) k := by
  obtain ⟨before, x, after, rfl, hslot, hdropped, hafter⟩ := h
  refine ⟨before, x, after ++ [w], by simp, hslot, hdropped, fun y hy => ?_⟩
  rcases List.mem_append.1 hy with hy | hy
  · exact hafter y hy
  · rwa [List.mem_singleton.1 hy]

/-- A stale slot is a slot of a write that was dropped. -/
theorem dropped (h : Stale ws k) : ∃ w ∈ ws, w.slot = k ∧ w.taken = false := by
  obtain ⟨before, w, after, rfl, hslot, hdropped, -⟩ := h
  exact ⟨w, by simp, hslot, hdropped⟩

end Stale

variable [DecidableEq κ]

def deposit (f : κ → α) (w : Attempt κ α) : κ → α :=
  if w.taken then Function.update f w.slot w.value else f

/-- The slots after the writes `ws`. -/
def deposited (f : κ → α) (ws : List (Attempt κ α)) : κ → α := ws.foldl deposit f

variable {f : κ → α} {ws : List (Attempt κ α)} {w : Attempt κ α} {k : κ}

theorem deposited_concat (f : κ → α) (ws : List (Attempt κ α)) (w : Attempt κ α) :
    deposited f (ws ++ [w]) = deposit (deposited f ws) w := by
  simp [deposited]

theorem deposit_of_ne (f : κ → α) (h : w.slot ≠ k) : deposit f w k = f k := by
  rw [deposit]
  split
  · exact Function.update_of_ne (Ne.symm h) _ _
  · rfl

theorem deposit_of_taken (f : κ → α) (h : w.taken = true) : deposit f w w.slot = w.value := by
  rw [deposit, if_pos h, Function.update_self]

theorem deposit_of_dropped (f : κ → α) (h : w.taken = false) : deposit f w = f := by
  rw [deposit, h]
  rfl

/-- A slot is what it would be without any loss, unless it is stale. -/
theorem deposited_eq_full (h : ¬ Stale ws k) :
    deposited f ws k = deposited f (ws.map Attempt.take) k := by
  induction ws using List.reverseRecOn with
  | nil => rfl
  | append_singleton ws w ih =>
      rw [List.map_append, List.map_singleton, deposited_concat, deposited_concat]
      by_cases hslot : w.slot = k
      · subst hslot
        cases htaken : w.taken with
        | true =>
            calc deposit (deposited f ws) w w.slot
              _ = w.value := deposit_of_taken _ htaken
              _ = deposit (deposited f (ws.map Attempt.take)) w.take w.slot :=
                  (deposit_of_taken (w := w.take) _ rfl).symm
        | false => exact absurd ⟨ws, w, [], rfl, rfl, htaken, by simp⟩ h
      · have hbefore : ¬ Stale ws k := fun hs => h (hs.concat hslot)
        rw [deposit_of_ne _ hslot, deposit_of_ne (w := w.take) _ hslot, ih hbefore]

/-- Whatever has come into a slot was written at it, and taken. -/
theorem deposited_origin (f : κ → α) (ws : List (Attempt κ α)) (k : κ) :
    deposited f ws k = f k ∨
      ∃ w ∈ ws, w.slot = k ∧ w.taken = true ∧ deposited f ws k = w.value := by
  induction ws using List.reverseRecOn with
  | nil => exact .inl rfl
  | append_singleton ws w ih =>
      rw [deposited_concat]
      by_cases hnew : w.slot = k ∧ w.taken = true
      · obtain ⟨rfl, htaken⟩ := hnew
        exact .inr ⟨w, by simp, rfl, htaken, deposit_of_taken _ htaken⟩
      · have hkeep : deposit (deposited f ws) w k = deposited f ws k := by
          by_cases hslot : w.slot = k
          · rw [deposit_of_dropped _ (Bool.eq_false_iff.2 fun ht => hnew ⟨hslot, ht⟩)]
          · exact deposit_of_ne _ hslot
        rw [hkeep]
        rcases ih with hold | ⟨x, hx, hslot, htaken, hval⟩
        · exact .inl hold
        · exact .inr ⟨x, List.mem_append_left _ hx, hslot, htaken, hval⟩

end Lib
end InfernoFpga
