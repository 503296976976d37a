import Mathlib.Data.List.Sort
import Mathlib.Data.List.Count
import Mathlib.Data.List.GetD
import Mathlib.Data.List.Induction

/-!
# InsertSort — insertion sort in place, and the element of a rank

The sort works on one block of cells: the next cell is lifted out, the larger ones before it move
up by one, and it is put into the gap.  Every access is checked, and the sort is total: none of
them is out of bounds.
-/

namespace InfernoFpga
namespace Lib
namespace InsertSort

open scoped List

/-- A checked write. -/
def put {α : Type*} (a : List α) (i : Nat) (v : α) : Option (List α) :=
  if i < a.length then some (a.set i v) else none

variable {α : Type*} [LinearOrder α]

/-- `k` finds its place at or below cell `n`, which is free; what is larger moves up. -/
def settle (k : α) : Nat → List α → Option (List α)
  | 0, a => put a 0 k
  | j + 1, a => do
      let x ← a[j]?
      if k < x then
        let a ← put a (j + 1) x
        settle k j a
      else put a (j + 1) k

/-- One round of the sort: cell `i` settles among those before it. -/
def round (a : List α) (i : Nat) : Option (List α) := do
  let k ← a[i]?
  settle k i a

def insertSort (a : List α) : Option (List α) :=
  (List.range' 1 (a.length - 1)).foldlM round a

/-! ## The sort sorts -/

theorem put_length {α : Type*} (l : List α) (x v : α) (r : List α) :
    put (l ++ x :: r) l.length v = some (l ++ v :: r) := by
  have hlt : l.length < (l ++ x :: r).length := by simp
  rw [put, if_pos hlt, List.set_append_right _ _ le_rfl, Nat.sub_self, List.set_cons_zero]

/-- The gap moves down through the sorted cells until `k` fits. -/
theorem settle_sorted (k : α) (l : List α) : ∀ (x : α) (r : List α), l.Pairwise (· ≤ ·) →
    ∃ m, settle k l.length (l ++ x :: r) = some (m ++ r) ∧ m.Perm (k :: l) ∧
      m.Pairwise (· ≤ ·) := by
  induction l using List.reverseRecOn with
  | nil =>
      intro x r _
      exact ⟨[k], put_length [] x k r, List.Perm.refl _, List.pairwise_singleton _ k⟩
  | append_singleton l y ih =>
      intro x r hsorted
      rcases List.pairwise_append.1 hsorted with ⟨hl, -, hy⟩
      have hy' : ∀ z ∈ l, z ≤ y := fun z hz => hy z hz y (List.mem_singleton_self y)
      have hlen : (l ++ [y]).length = l.length + 1 := by simp
      have hget : (l ++ [y] ++ x :: r)[l.length]? = some y := by simp
      rw [hlen, settle, hget, Option.bind_eq_bind, Option.bind_some, ← hlen]
      by_cases hlt : k < y
      · -- `y` moves into the gap, which is now where `y` was
        rw [if_pos hlt, put_length, Option.bind_eq_bind, Option.bind_some, List.append_assoc,
          List.singleton_append]
        rcases ih y (y :: r) hl with ⟨m, heq, hperm, hm⟩
        refine ⟨m ++ [y], by rw [heq, List.append_assoc, List.singleton_append], ?_, ?_⟩
        · calc m ++ [y]
            _ ~ k :: l ++ [y] := hperm.append_right _
            _ = k :: (l ++ [y]) := List.cons_append
        · refine List.pairwise_append.2 ⟨hm, List.pairwise_singleton _ y, fun z hz w hw => ?_⟩
          rw [List.mem_singleton.1 hw]
          rcases List.mem_cons.1 (hperm.mem_iff.1 hz) with hz | hz
          · rw [hz]
            exact hlt.le
          · exact hy' z hz
      · rw [if_neg hlt, put_length]
        refine ⟨l ++ [y] ++ [k], by rw [List.append_assoc _ [k], List.singleton_append], ?_, ?_⟩
        · exact List.perm_append_singleton k _
        · refine List.pairwise_append.2 ⟨hsorted, List.pairwise_singleton _ k, fun z hz w hw => ?_⟩
          rw [List.mem_singleton.1 hw]
          rcases List.mem_append.1 hz with hz | hz
          · exact (hy' z hz).trans (not_lt.1 hlt)
          · rw [List.mem_singleton.1 hz]
            exact not_lt.1 hlt

/-- The rounds sort what is left into what is sorted. -/
theorem rounds_sorted (r : List α) : ∀ l : List α, l.Pairwise (· ≤ ·) →
    ∃ m, (List.range' l.length r.length).foldlM round (l ++ r) = some m ∧ m.Perm (l ++ r) ∧
      m.Pairwise (· ≤ ·) := by
  induction r with
  | nil =>
      intro l hl
      rw [List.append_nil]
      exact ⟨l, rfl, List.Perm.refl l, hl⟩
  | cons k r ih =>
      intro l hl
      rcases settle_sorted k l k r hl with ⟨m, heq, hperm, hm⟩
      have hlen : m.length = l.length + 1 := by
        rw [hperm.length_eq, List.length_cons]
      have hround : round (l ++ k :: r) l.length = some (m ++ r) := by
        rw [round, List.getElem?_append_right le_rfl, Nat.sub_self, List.getElem?_cons_zero,
          Option.bind_eq_bind, Option.bind_some, heq]
      rcases ih m hm with ⟨sorted, hrest, hall, hsorted⟩
      refine ⟨sorted, ?_, ?_, hsorted⟩
      · rw [List.length_cons, List.range'_succ, List.foldlM_cons, hround, Option.bind_eq_bind,
          Option.bind_some, ← hlen, hrest]
      · calc sorted
          _ ~ m ++ r := hall
          _ ~ k :: l ++ r := hperm.append_right r
          _ ~ l ++ k :: r := List.perm_middle.symm

theorem insertSort_sorted (a : List α) :
    ∃ m, insertSort a = some m ∧ m.Perm a ∧ m.Pairwise (· ≤ ·) := by
  cases a with
  | nil => exact ⟨[], rfl, List.Perm.refl _, List.Pairwise.nil⟩
  | cons x r => exact rounds_sorted r [x] (List.pairwise_singleton _ x)

/-- The sort in place is the sort. -/
theorem insertSort_eq (a : List α) : insertSort a = some (a.insertionSort (· ≤ ·)) := by
  rcases insertSort_sorted a with ⟨m, heq, hperm, hm⟩
  have hsame : m = a.insertionSort (· ≤ ·) :=
    (hperm.trans (List.perm_insertionSort (· ≤ ·) a).symm).eq_of_pairwise' hm
      (List.pairwise_insertionSort (· ≤ ·) a)
  rw [heq, hsame]

/-! ## Ranks -/

/-- `x` is the element of rank `r` of `l`, counted from 0: at most `r` elements are smaller, and
more than `r` are not larger. -/
def HasRank (l : List α) (r : Nat) (x : α) : Prop :=
  x ∈ l ∧ l.countP (fun y => decide (y < x)) ≤ r ∧ r < l.countP (fun y => decide (y ≤ x))

theorem HasRank.perm {l l' : List α} {r : Nat} {x : α} (h : HasRank l r x) (hperm : l.Perm l') :
    HasRank l' r x := by
  rcases h with ⟨hmem, hless, hmore⟩
  refine ⟨hperm.mem_iff.1 hmem, ?_, ?_⟩
  · rwa [← hperm.countP_eq]
  · rwa [← hperm.countP_eq]

/-- In a sorted list the element at position `r` has rank `r`. -/
theorem hasRank_of_sorted {l : List α} (hl : l.Pairwise (· ≤ ·)) {r : Nat} (hr : r < l.length) :
    HasRank l r l[r] := by
  have hsplit : l.take r ++ l[r] :: l.drop (r + 1) = l := by
    rw [List.getElem_cons_drop, List.take_append_drop]
  have hlen : (l.take r).length = r := List.length_take_of_le hr.le
  rcases List.pairwise_append.1 (hsplit.symm ▸ hl) with ⟨-, hafter, hcross⟩
  have hbefore : ∀ y ∈ l.take r, y ≤ l[r] := fun y hy => hcross y hy _ List.mem_cons_self
  refine ⟨List.getElem_mem hr, ?_, ?_⟩
  · calc l.countP (fun y => decide (y < l[r]))
        = (l.take r ++ l[r] :: l.drop (r + 1)).countP (fun y => decide (y < l[r])) := by
          rw [hsplit]
      _ = (l.take r).countP (fun y => decide (y < l[r])) := by
          rw [List.countP_append, Nat.add_eq_left, List.countP_eq_zero]
          intro y hy
          rw [decide_eq_true_eq, not_lt]
          rcases List.mem_cons.1 hy with hy | hy
          · exact hy.ge
          · exact List.rel_of_pairwise_cons hafter hy
      _ ≤ r := List.countP_le_length.trans_eq hlen
  · calc r
        < (l.take r).countP (fun y => decide (y ≤ l[r])) + 1 := by
          rw [List.countP_eq_length.2 fun y hy => decide_eq_true (hbefore y hy), hlen]
          exact Nat.lt_succ_self r
      _ ≤ (l.take r ++ l[r] :: l.drop (r + 1)).countP (fun y => decide (y ≤ l[r])) := by
          rw [List.countP_append, List.countP_cons_of_pos (by simp)]
          omega
      _ = l.countP (fun y => decide (y ≤ l[r])) := by rw [hsplit]

/-- What a sort leaves at position `r` has rank `r`. -/
theorem hasRank_insertionSort (l : List α) {r : Nat} (hr : r < l.length) (d : α) :
    HasRank l r ((l.insertionSort (· ≤ ·)).getD r d) := by
  have hlen : r < (l.insertionSort (· ≤ ·)).length := by
    rw [List.length_insertionSort]
    exact hr
  rw [List.getD_eq_getElem _ _ hlen]
  exact (hasRank_of_sorted (List.pairwise_insertionSort (· ≤ ·) l) hlen).perm
    (List.perm_insertionSort (· ≤ ·) l)

end InsertSort
end Lib
end InfernoFpga
