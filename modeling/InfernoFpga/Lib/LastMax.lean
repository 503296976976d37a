import Mathlib.Data.List.Basic
import Mathlib.Order.Lattice

/-!
# LastMax — scans that keep the last of the largest

A scan that replaces its candidate by every element that is *not smaller* ends at the last of the
largest elements it has seen.  `LastMax` says so without the scan, for any linear order of keys,
and determines that element.
-/

namespace InfernoFpga
namespace Lib

variable {α κ : Type*} [LinearOrder α] [LinearOrder κ]

/-- `w` is the last of those elements of `S` whose key is the largest. -/
structure LastMax (key : α → κ) (S : α → Prop) (w : α) : Prop where
  mem : S w
  beats : ∀ v, S v → key v < key w ∨ key v = key w ∧ v ≤ w

namespace LastMax

variable {key : α → κ} {S : α → Prop} {v w : α}

theorem le (h : LastMax key S w) (hv : S v) : key v ≤ key w := by
  rcases h.beats v hv with hlt | ⟨heq, -⟩
  · exact le_of_lt hlt
  · exact le_of_eq heq

theorem unique (h : LastMax key S w) (h' : LastMax key S v) : w = v := by
  have hkey : key w = key v := le_antisymm (h'.le h.mem) (h.le h'.mem)
  rcases h.beats v h'.mem with hlt | ⟨-, hvw⟩
  · exact absurd hkey.symm (ne_of_lt hlt)
  rcases h'.beats w h.mem with hlt | ⟨-, hwv⟩
  · exact absurd hkey (ne_of_lt hlt)
  · exact le_antisymm hwv hvw

theorem congr {S' : α → Prop} (h : LastMax key S w) (hS : ∀ v, S v ↔ S' v) :
    LastMax key S' w :=
  ⟨(hS w).1 h.mem, fun v hv => h.beats v ((hS v).2 hv)⟩

/-- An element the winner's rival beats is beaten by the winner. -/
theorem insert (h : LastMax key S w) {u : α} (hu : S u)
    (hv : key v < key u ∨ key v = key u ∧ v ≤ u) :
    LastMax key (fun x => S x ∨ x = v) w where
  mem := Or.inl h.mem
  beats := by
    rintro x (hx | rfl)
    · exact h.beats x hx
    · rcases h.beats u hu with hlt | ⟨heq, huw⟩
      · rcases hv with hlt' | ⟨heq', -⟩
        · exact Or.inl (hlt'.trans hlt)
        · exact Or.inl (heq' ▸ hlt)
      · rcases hv with hlt' | ⟨heq', hvu⟩
        · exact Or.inl (heq ▸ hlt')
        · exact Or.inr ⟨heq'.trans heq, hvu.trans huw⟩

end LastMax

/-- One step of the scan: the candidate and its key. -/
def scanStep (key : α → κ) (acc : κ × α) (i : α) : κ × α :=
  if acc.1 ≤ key i then (key i, i) else acc

/-- A scan in increasing order ends at the last of the largest. -/
theorem scan_lastMax (key : α → κ) (xs : List α) :
    ∀ {best : α}, (best :: xs).Pairwise (· < ·) →
      LastMax key (· ∈ best :: xs) (xs.foldl (scanStep key) (key best, best)).2 := by
  induction xs with
  | nil =>
      intro best _
      refine ⟨List.mem_singleton_self best, fun v hv => ?_⟩
      rw [List.mem_singleton.1 hv]
      exact Or.inr ⟨rfl, le_rfl⟩
  | cons i xs ih =>
      intro best hsorted
      obtain ⟨hbest, hrest⟩ := List.pairwise_cons.1 hsorted
      rw [List.foldl_cons, scanStep]
      by_cases hle : key best ≤ key i
      · -- the candidate moves on to `i`
        rw [if_pos hle]
        have hwin := (ih hrest).insert List.mem_cons_self
          ((lt_or_eq_of_le hle).imp_right fun heq => ⟨heq, le_of_lt (hbest i List.mem_cons_self)⟩)
        exact hwin.congr fun v => by rw [List.mem_cons (b := best), or_comm]
      · -- `i` is beaten by the candidate
        rw [if_neg hle]
        have hskip : (best :: xs).Pairwise (· < ·) :=
          List.pairwise_cons.2 ⟨fun v hv => hbest v (List.mem_cons_of_mem i hv),
            (List.pairwise_cons.1 hrest).2⟩
        have hwin := (ih hskip).insert List.mem_cons_self (Or.inl (lt_of_not_ge hle))
        exact hwin.congr fun v => by
          rw [List.mem_cons, List.mem_cons, List.mem_cons, or_assoc, or_comm (a := v ∈ xs)]

end Lib
end InfernoFpga
