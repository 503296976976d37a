import InfernoFpga.Lib.Ring
import Mathlib.Data.Finset.Card
import Mathlib.Data.List.TakeWhile

/-!
# Fifo — what a table holds that replaces its oldest key

A table has room for `N` keys.  A key that it has keeps its place; one that it does not have enters
in place of the key that entered first.  So what it has is read off the order in which the keys
entered: the last `N` of them.  `Holds` puts the keys into the slots of a ring.
-/

namespace InfernoFpga
namespace Lib
namespace Fifo

variable {κ : Type*} {N first : Nat} {slots : Nat → Option κ} {ks es : List κ} {k : κ}

/-- The keys of the table, with `es` the keys in the order in which they entered. -/
def resident (N : Nat) (es : List κ) : List κ := es.drop (es.length - N)

theorem mem_of_mem_resident (h : k ∈ resident N es) : k ∈ es := List.mem_of_mem_drop h

/-- The last `N` of a list are the last `N` of any end of it that is long enough. -/
theorem resident_of_suffix {older post : List κ} (h : es = older ++ post) (hN : N ≤ post.length) :
    resident N es = post.drop (post.length - N) := by
  rw [resident, h, List.length_append, List.drop_append, List.drop_eq_nil_of_le (by omega),
    List.nil_append]
  congr 1
  omega

section Order

variable [DecidableEq κ]

/-- A key comes. -/
def enter (N : Nat) (es : List κ) (k : κ) : List κ :=
  if k ∈ resident N es then es else es ++ [k]

/-- The order in which the keys enter that come as `ks`. -/
def entered (N : Nat) (ks : List κ) : List κ := ks.foldl (enter N) []

/-- The keys that entered after `k` did, the newest first. -/
def newer (es : List κ) (k : κ) : List κ := es.reverse.takeWhile (· ≠ k)

theorem entered_concat (ks : List κ) (k : κ) :
    entered N (ks ++ [k]) = enter N (entered N ks) k := by
  rw [entered, List.foldl_append]
  rfl

theorem mem_entered : k ∈ entered N ks ↔ k ∈ ks := by
  induction ks using List.reverseRecOn with
  | nil => exact Iff.rfl
  | append_singleton ks x ih =>
    rw [entered_concat, enter, List.mem_append, List.mem_singleton]
    split
    · rename_i hx
      constructor
      · exact fun hk => .inl (ih.1 hk)
      · rintro (hk | rfl)
        · exact ih.2 hk
        · exact mem_of_mem_resident hx
    · rw [List.mem_append, List.mem_singleton, ih]

/-- No key is in the table twice. -/
theorem nodup_resident (ks : List κ) : (resident N (entered N ks)).Nodup := by
  induction ks using List.reverseRecOn with
  | nil => exact List.nodup_nil.sublist (List.drop_sublist _ _)
  | append_singleton ks x ih =>
    rw [entered_concat, enter]
    split
    · exact ih
    · rename_i hx
      generalize entered N ks = es at ih hx ⊢
      rcases Nat.eq_zero_or_pos N with rfl | hN
      · simp [resident]
      · have hdrop : resident N (es ++ [x]) = es.drop (es.length + 1 - N) ++ [x] := by
          rw [resident, List.length_append, List.length_singleton,
            List.drop_append_of_le_length (by omega)]
        -- what stays are keys that were there, without the oldest
        have hsub : (es.drop (es.length + 1 - N)).Sublist (resident N es) := by
          have hmore : es.drop (es.length + 1 - N) =
              (resident N es).drop (es.length + 1 - N - (es.length - N)) := by
            rw [resident, List.drop_drop]
            congr 1
            omega
          rw [hmore]
          exact List.drop_sublist _ _
        rw [hdrop, List.nodup_append]
        refine ⟨ih.sublist hsub, List.nodup_singleton x, ?_⟩
        rintro a ha b hb rfl
        rw [List.mem_singleton.1 hb] at ha
        exact hx (hsub.subset ha)

theorem newer_concat (es : List κ) (x k : κ) :
    newer (es ++ [x]) k = if x = k then [] else x :: newer es k := by
  rw [newer, List.reverse_append, List.reverse_singleton, List.singleton_append,
    List.takeWhile_cons]
  by_cases hx : x = k
  · rw [if_pos hx, if_neg (by simpa using hx)]
  · rw [if_neg hx, if_pos (by simpa using hx)]
    rfl

/-- Where a key entered last. -/
theorem split_newer : k ∈ es → ∃ older, es = older ++ k :: (newer es k).reverse := by
  induction es using List.reverseRecOn with
  | nil => exact fun h => absurd h List.not_mem_nil
  | append_singleton es x ih =>
    intro h
    rw [newer_concat]
    by_cases hx : x = k
    · exact ⟨es, by rw [if_pos hx, hx]; rfl⟩
    · rcases List.mem_append.1 h with h | h
      · obtain ⟨older, hes⟩ := ih h
        refine ⟨older, ?_⟩
        rw [if_neg hx, List.reverse_cons, ← List.cons_append, ← List.append_assoc, ← hes]
      · exact absurd (List.mem_singleton.1 h).symm hx

theorem not_mem_newer : k ∉ newer es k := by
  intro h
  have hne := List.mem_takeWhile_imp h
  simp at hne

/-- A key stays until as many have entered after it as there is room for. -/
theorem mem_resident_iff (h : k ∈ es) : k ∈ resident N es ↔ (newer es k).length < N := by
  obtain ⟨older, hes⟩ := split_newer h
  by_cases hroom : (newer es k).length < N
  · refine iff_of_true ?_ hroom
    have hlen : es.length = older.length + 1 + (newer es k).length := by
      have hsum := congrArg List.length hes
      rw [List.length_append, List.length_cons, List.length_reverse] at hsum
      omega
    rw [resident, hes, List.drop_append_of_le_length (by rw [← hes]; omega)]
    exact List.mem_append_right _ List.mem_cons_self
  · refine iff_of_false (fun hk => ?_) hroom
    -- only keys that are newer are left
    have hes' : es = (older ++ [k]) ++ (newer es k).reverse := by
      rw [List.append_assoc]
      exact hes
    rw [resident_of_suffix hes' (by rw [List.length_reverse]; omega)] at hk
    exact not_mem_newer (List.mem_reverse.1 (List.mem_of_mem_drop hk))

/-- As long as there is room, the keys that have entered after it are distinct. -/
theorem card_newer_lt_iff (ks : List κ) (k : κ) :
    (newer (entered N ks) k).toFinset.card < N ↔ (newer (entered N ks) k).length < N := by
  refine ⟨fun hcard => ?_, fun hlen => Nat.lt_of_le_of_lt (List.toFinset_card_le _) hlen⟩
  by_contra hfull
  have hnodup := nodup_resident (N := N) ks
  generalize entered N ks = es at hcard hfull hnodup
  obtain ⟨rest, hrest⟩ : newer es k <+: es.reverse := List.takeWhile_prefix _
  have hes : es = rest.reverse ++ (newer es k).reverse := by
    rw [← List.reverse_append, hrest, List.reverse_reverse]
  have hlast := resident_of_suffix hes (N := N) (by rw [List.length_reverse]; omega)
  have hsub : (resident N es).toFinset ⊆ (newer es k).toFinset := by
    intro x hx
    rw [List.mem_toFinset, hlast] at hx
    exact List.mem_toFinset.2 (List.mem_reverse.1 (List.mem_of_mem_drop hx))
  have hlen : (resident N es).length = N := by
    rw [hlast, List.length_drop, List.length_reverse]
    omega
  have hle := Finset.card_le_card hsub
  rw [List.toFinset_card_of_nodup hnodup, hlen] at hle
  omega

/-- A key that came is in the table until as many distinct keys have entered after it as there is
room for. -/
theorem mem_resident_entered (h : k ∈ ks) :
    k ∈ resident N (entered N ks) ↔ (newer (entered N ks) k).toFinset.card < N := by
  rw [card_newer_lt_iff]
  exact mem_resident_iff (mem_entered.2 h)

end Order

/-! ## In the slots of a ring -/

/-- The slots of a ring hold the keys that entered, from slot `first` on. -/
def Holds (N first : Nat) (slots : Nat → Option κ) (es : List κ) : Prop :=
  Ring.Holds N first none slots (es.map some)

namespace Holds

theorem slot_of_resident (h : Holds N first slots es) (hk : k ∈ resident N es) :
    ∃ s < N, slots s = some k := by
  have hdrop : k ∈ es.drop (es.length - N) := hk
  obtain ⟨j, hj, hget⟩ := List.getElem_of_mem hdrop
  rw [List.getElem_drop] at hget
  rw [List.length_drop] at hj
  have hj' : es.length - N + j < es.length := by omega
  have hentry := Ring.Holds.entry h (k := es.length - N + j) (by rw [List.length_map]; exact hj')
    (by rw [List.length_map]; omega)
  have hN : 0 < N := by omega
  refine ⟨(first + (es.length - N + j)) % N, Nat.mod_lt _ hN, ?_⟩
  rw [hentry, List.get_eq_getElem, List.getElem_map, hget]

/-- A slot that holds a key holds one that is in the table, at the place where it entered. -/
theorem place_of_slot (h : Holds N first slots es) {s : Nat} (hs : s < N)
    (hk : slots s = some k) :
    ∃ j, ∃ hj : j < (resident N es).length, (resident N es).get ⟨j, hj⟩ = k ∧
      s = (first + (es.length - N + j)) % N := by
  rcases Ring.Holds.slot h hs with hnone | ⟨i, hi, hnew, hslot, hget⟩
  · rw [hnone] at hk
    cases hk
  · rw [List.length_map] at hi hnew
    have hj : i - (es.length - N) < (resident N es).length := by
      rw [resident, List.length_drop]
      omega
    refine ⟨i - (es.length - N), hj, ?_, ?_⟩
    · rw [hk, List.get_eq_getElem, List.getElem_map] at hget
      simp only [resident, List.get_eq_getElem, List.getElem_drop]
      rw [Option.some.inj hget]
      congr 1
      show es.length - N + (i - (es.length - N)) = i
      omega
    · rw [hslot]
      congr 1
      omega

theorem resident_of_slot (h : Holds N first slots es) {s : Nat} (hs : s < N)
    (hk : slots s = some k) : k ∈ resident N es := by
  obtain ⟨j, hj, hget, -⟩ := h.place_of_slot hs hk
  rw [← hget]
  exact List.get_mem _ _

theorem slot_unique (h : Holds N first slots es) (hnodup : (resident N es).Nodup) {s s' : Nat}
    (hs : s < N) (hs' : s' < N) (hk : slots s = some k) (hk' : slots s' = some k) : s = s' := by
  obtain ⟨j, hj, hget, hslot⟩ := h.place_of_slot hs hk
  obtain ⟨j', hj', hget', hslot'⟩ := h.place_of_slot hs' hk'
  have hjj : (⟨j, hj⟩ : Fin _) = ⟨j', hj'⟩ := hnodup.injective_get (hget.trans hget'.symm)
  rw [hslot, hslot', Fin.mk.inj hjj]

end Holds

end Fifo
end Lib
end InfernoFpga
