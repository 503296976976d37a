import Mathlib.Data.List.Basic
import Mathlib.Data.List.GetD
import Mathlib.Data.List.Perm.Subperm
import Mathlib.Data.List.Nodup
import Mathlib.Logic.Function.Basic

/-!
# Ring — a ring of slots that keeps the newest entries

A ring of `N` slots is written round and round, one slot an entry.  What it holds is read off the
history of what was written: from the next slot on, the last `N` entries of it, with the initial
contents where fewer were written.
-/

namespace InfernoFpga
namespace Lib
namespace Ring

variable {α : Type*} {N first : Nat} {init : α} {slots : Nat → α} {hist : List α}

/-- The slots of a ring that was filled with `init` and written with `hist` from slot `first` on. -/
def Holds (N first : Nat) (init : α) (slots : Nat → α) (hist : List α) : Prop :=
  ∀ j < N, slots ((first + hist.length + j) % N) =
    (List.replicate N init ++ hist).getD (hist.length + j) init

theorem Holds.start (N first : Nat) (init : α) : Holds N first init (fun _ => init) [] := by
  intro j hj
  rw [List.append_nil, List.length_nil, Nat.zero_add,
    List.getD_eq_getElem _ _ (by rw [List.length_replicate]; exact hj), List.getElem_replicate]

/-- Slots less than a round apart are different. -/
theorem slot_ne {x i j : Nat} (hij : i < j) (hj : j < i + N) : (x + i) % N ≠ (x + j) % N := by
  intro h
  have hdvd : N ∣ (x + j) - (x + i) := Nat.dvd_of_mod_eq_zero (Nat.sub_mod_eq_zero_of_mod_eq h.symm)
  have hle := Nat.le_of_dvd (by omega) hdvd
  omega

/-- Writing the next slot appends to the history. -/
theorem Holds.push (h : Holds N first init slots hist) (a : α) :
    Holds N first init (Function.update slots ((first + hist.length) % N) a) (hist ++ [a]) := by
  intro j hj
  have hlen : (hist ++ [a]).length = hist.length + 1 := by simp
  rw [hlen, ← List.append_assoc]
  by_cases hlast : j + 1 = N
  · -- the entry just written is the newest
    have hslot : (first + (hist.length + 1) + j) % N = (first + hist.length) % N := by
      rw [show first + (hist.length + 1) + j = first + hist.length + N by omega, Nat.add_mod_right]
    rw [hslot, Function.update_self, List.getD_append_right _ _ _ _ (by simp; omega)]
    simp only [List.length_append, List.length_replicate]
    rw [show hist.length + 1 + j - (N + hist.length) = 0 by omega]
    rfl
  · have hslot : first + (hist.length + 1) + j = first + hist.length + (j + 1) := by omega
    have hne : (first + hist.length + (j + 1)) % N ≠ (first + hist.length) % N :=
      (slot_ne (i := 0) (by omega) (by omega)).symm
    have hold : hist.length + (j + 1) < (List.replicate N init ++ hist).length := by
      rw [List.length_append, List.length_replicate]
      omega
    rw [hslot, Function.update_of_ne hne, h (j + 1) (by omega), Nat.add_right_comm,
      Nat.add_assoc, List.getD_append _ [a] _ _ hold]

/-- An entry that is less than a round old is in its slot. -/
theorem Holds.entry (h : Holds N first init slots hist) {k : Nat} (hk : k < hist.length)
    (hnew : hist.length ≤ k + N) : slots ((first + k) % N) = hist.get ⟨k, hk⟩ := by
  have hslot := h (k + N - hist.length) (by omega)
  rw [show first + hist.length + (k + N - hist.length) = first + k + N by omega,
    show hist.length + (k + N - hist.length) = k + N by omega, Nat.add_mod_right] at hslot
  rw [hslot, List.getD_append_right _ _ _ _ (by simp), List.length_replicate, Nat.add_sub_cancel,
    List.getD_eq_getElem _ _ hk]
  rfl

/-- A slot was never written, or holds an entry that is less than a round old. -/
theorem Holds.slot (h : Holds N first init slots hist) {s : Nat} (hs : s < N) :
    slots s = init ∨ ∃ k, ∃ hk : k < hist.length, hist.length ≤ k + N ∧ s = (first + k) % N ∧
      slots s = hist.get ⟨k, hk⟩ := by
  -- how far behind the next slot it lies
  obtain ⟨j, hj, hslot⟩ : ∃ j < N, (first + hist.length + j) % N = s := by
    refine ⟨(s + (N - (first + hist.length) % N)) % N, Nat.mod_lt _ (by omega), ?_⟩
    have hle : (first + hist.length) % N < N := Nat.mod_lt _ (by omega)
    calc (first + hist.length + (s + (N - (first + hist.length) % N)) % N) % N
        = ((first + hist.length) % N + (s + (N - (first + hist.length) % N))) % N := by
          rw [Nat.add_mod, Nat.mod_mod, ← Nat.add_mod, Nat.mod_add_mod]
      _ = (s + N) % N := by congr 1; omega
      _ = s := by rw [Nat.add_mod_right, Nat.mod_eq_of_lt hs]
  have hval := h j hj
  rw [hslot] at hval
  by_cases hnew : N ≤ hist.length + j
  · have hk : hist.length + j - N < hist.length := by omega
    refine .inr ⟨hist.length + j - N, hk, by omega, ?_, ?_⟩
    · rw [← hslot, ← Nat.add_mod_right (first + (hist.length + j - N))]
      congr 1
      omega
    · rw [hval, List.getD_append_right _ _ _ _ (by rw [List.length_replicate]; exact hnew),
        List.length_replicate, List.getD_eq_getElem _ _ hk]
      rfl
  · left
    rw [hval, List.getD_append _ _ _ _ (by rw [List.length_replicate]; omega),
      List.getD_eq_getElem _ _ (by rw [List.length_replicate]; omega), List.getElem_replicate]

/-- The slot that is written next holds the entry a round before, if there was one. -/
theorem Holds.next (hN : 0 < N) (h : Holds N first init slots hist) :
    slots ((first + hist.length) % N) =
      if N ≤ hist.length then hist.getD (hist.length - N) init else init := by
  have hslot := h 0 hN
  rw [Nat.add_zero, Nat.add_zero] at hslot
  rw [hslot]
  split
  · rw [List.getD_append_right _ _ _ _ (by rw [List.length_replicate]; assumption),
      List.length_replicate]
  · rename_i hfew
    rw [List.getD_append _ _ _ _ (by rw [List.length_replicate]; omega),
      List.getD_eq_getElem _ _ (by rw [List.length_replicate]; omega), List.getElem_replicate]

/-- Read from the oldest slot on, the ring is the end of the history. -/
theorem Holds.newest (h : Holds N first init slots hist) {n start : Nat} (hn : n ≤ N)
    (hlen : n ≤ hist.length) (hstart : start % N = (first + (hist.length - n)) % N) :
    (List.range n).map (fun i => slots ((start + i) % N)) = hist.drop (hist.length - n) := by
  refine List.ext_getElem (by simp; omega) fun i h₁ h₂ => ?_
  have hi : i < n := by simpa using h₁
  have hslot : (start + i) % N = (first + (hist.length - n + i)) % N := by
    rw [← Nat.add_assoc, Nat.add_mod, hstart, ← Nat.add_mod]
  rw [List.getElem_map, List.getElem_range, List.getElem_drop, hslot, h.entry (by omega) (by omega)]
  rfl

/-- A round of slots, from any slot on, is all of them. -/
theorem round_perm (x : Nat) (hN : 0 < N) :
    ((List.range N).map fun i => (x + i) % N).Perm (List.range N) := by
  have hnodup : ((List.range N).map fun i => (x + i) % N).Nodup := by
    refine List.Nodup.map_on ?_ List.nodup_range
    intro i hi j hj heq
    rw [List.mem_range] at hi hj
    rcases Nat.lt_trichotomy i j with hlt | hsame | hlt
    · exact absurd heq (slot_ne hlt (by omega))
    · exact hsame
    · exact absurd heq.symm (slot_ne hlt (by omega))
  have hsub : ((List.range N).map fun i => (x + i) % N) ⊆ List.range N := by
    intro y hy
    rcases List.mem_map.1 hy with ⟨i, -, rfl⟩
    exact List.mem_range.2 (Nat.mod_lt _ hN)
  refine (List.subperm_of_subset hnodup hsub).perm_of_length_le ?_
  exact Nat.le_of_eq (List.length_map _).symm

/-- The slots in use are, in some order, the end of the history. -/
theorem Holds.perm_newest (hN : 0 < N) (h : Holds N 0 init slots hist) :
    ((List.range (min hist.length N)).map slots).Perm
      (hist.drop (hist.length - min hist.length N)) := by
  rcases Nat.le_total hist.length N with hfew | hmany
  · have hall : (List.range hist.length).map (fun i => slots ((0 + i) % N)) =
        hist.drop (hist.length - hist.length) :=
      h.newest hfew (Nat.le_refl _) (by rw [Nat.sub_self])
    rw [Nat.min_eq_left hfew, ← hall]
    refine List.Perm.of_eq (List.map_congr_left fun i hi => ?_)
    rw [Nat.zero_add, Nat.mod_eq_of_lt (Nat.lt_of_lt_of_le (List.mem_range.1 hi) hfew)]
  · have hall : (List.range N).map (fun i => slots ((0 + (hist.length - N) + i) % N)) =
        hist.drop (hist.length - N) :=
      h.newest (Nat.le_refl _) hmany rfl
    rw [Nat.min_eq_right hmany, ← hall]
    have hmap := (round_perm (0 + (hist.length - N)) hN).map slots
    rw [List.map_map] at hmap
    exact hmap.symm

end Ring
end Lib
end InfernoFpga
