import InfernoFpga.Lib.Mem

/-!
# Segment — what lies at a place of a message

A message is written front to back and read at offsets.  `At m p s` says that the bytes `s` lie at
offset `p` of `m`; a writer establishes it once, and it stays true of every message that agrees from
some offset on.
-/

namespace InfernoFpga
namespace Lib

variable {α : Type*}

/-- `s` lies at offset `p` of `m`. -/
def At (m : List α) (p : Nat) (s : List α) : Prop :=
  ∀ k < s.length, m[p + k]? = s[k]?

/-- `m'` has what `m` has from offset `lo` on, and maybe more behind it. -/
def Keeps (lo : Nat) (m m' : List α) : Prop :=
  ∀ k, lo ≤ k → k < m.length → m'[k]? = m[k]?

/-- `s` written over what lies at offset `p` of `m`. -/
def overwrite (m : List α) (p : Nat) (s : List α) : List α :=
  m.take p ++ s ++ m.drop (p + s.length)

namespace Keeps

variable {lo : Nat} {m m' m'' : List α}

theorem refl (lo : Nat) (m : List α) : Keeps lo m m := fun _ _ _ => rfl

theorem trans (h : Keeps lo m m') (h' : Keeps lo m' m'') (hlen : m.length ≤ m'.length) :
    Keeps lo m m'' := fun k hk hlt =>
  (h' k hk (Nat.lt_of_lt_of_le hlt hlen)).trans (h k hk hlt)

theorem append (lo : Nat) (m s : List α) : Keeps lo m (m ++ s) := fun _ _ hlt =>
  List.getElem?_append_left hlt

theorem of_prefix (lo : Nat) (h : m <+: m') : Keeps lo m m' := by
  obtain ⟨s, rfl⟩ := h
  exact append lo m s

/-- Putting another entry in front of `lo` changes nothing behind it. -/
theorem set {k : Nat} (hk : k < lo) (x : α) : Keeps lo m (m.set k x) := fun j hj _ => by
  rw [List.getElem?_set_ne (by omega)]

/-- What stands behind two beginnings of one length. -/
theorem of_append_right {xs ys : List α} (h : xs.length = ys.length) (zs : List α) :
    Keeps xs.length (xs ++ zs) (ys ++ zs) := fun k hk _ => by
  rw [List.getElem?_append_right hk, List.getElem?_append_right (by omega), h]

end Keeps

namespace At

variable {lo p : Nat} {m m' s t : List α}

theorem nil (m : List α) (p : Nat) : At m p [] := fun _ hk => absurd hk (Nat.not_lt_zero _)

theorem append_iff : At m p (s ++ t) ↔ At m p s ∧ At m (p + s.length) t := by
  constructor
  · intro h
    refine ⟨fun k hk => ?_, fun k hk => ?_⟩
    · have hat := h k (by rw [List.length_append]; omega)
      rwa [List.getElem?_append_left hk] at hat
    · have hat := h (s.length + k) (by rw [List.length_append]; omega)
      rwa [List.getElem?_append_right (by omega), Nat.add_sub_cancel_left, ← Nat.add_assoc] at hat
  · rintro ⟨hs, ht⟩ k hk
    rw [List.length_append] at hk
    by_cases hleft : k < s.length
    · rw [List.getElem?_append_left hleft]
      exact hs k hleft
    · have hat := ht (k - s.length) (by omega)
      rw [List.getElem?_append_right (by omega), ← hat]
      congr 1
      omega

/-- What was written last lies where the message ended before. -/
theorem of_append (m s : List α) : At (m ++ s) m.length s := fun k _ => by
  rw [List.getElem?_append_right (by omega), Nat.add_sub_cancel_left]

theorem of_prefix (h : s <+: m) : At m 0 s := by
  obtain ⟨t, rfl⟩ := h
  intro k hk
  rw [Nat.zero_add, List.getElem?_append_left hk]

theorem lt (h : At m p s) (hne : s ≠ []) : p + s.length ≤ m.length := by
  have hpos : 0 < s.length := List.length_pos_iff.2 hne
  have hat := h (s.length - 1) (by omega)
  rw [List.getElem?_eq_getElem (by omega : s.length - 1 < s.length)] at hat
  obtain ⟨hlt, -⟩ := List.getElem?_eq_some_iff.1 hat
  omega

/-- A segment of a segment. -/
theorem sub (h : At m p s) {j : Nat} (hs : At s j t) : At m (p + j) t := by
  intro k hk
  have hend := hs.lt (List.length_pos_iff.1 (by omega))
  rw [Nat.add_assoc, h (j + k) (by omega), hs k hk]

theorem keeps (h : At m p s) (hk : Keeps lo m m') (hp : lo ≤ p) : At m' p s := by
  intro k hlt
  have hend := h.lt (List.length_pos_iff.1 (by omega))
  rw [hk (p + k) (by omega) (by omega)]
  exact h k hlt

theorem getD (h : At m p s) {k : Nat} (hk : k < s.length) (d : α) :
    m.getD (p + k) d = s.getD k d := by
  rw [List.getD_eq_getElem?_getD, List.getD_eq_getElem?_getD, h k hk]

/-- A slice is the segment that lies there. -/
theorem slice (h : At m p s) : (m.drop p).take s.length = s := by
  refine List.ext_getElem? fun k => ?_
  by_cases hk : k < s.length
  · rw [List.getElem?_take_of_lt hk, List.getElem?_drop]
    exact h k hk
  · rw [List.getElem?_eq_none (by rw [List.length_take]; omega),
      List.getElem?_eq_none (by omega)]

/-- A message of bytes, read as a memory. -/
theorem slice_getD {m s : List UInt8} (h : At m p s) :
    Mem.slice (fun k => m.getD k 0) p s.length = s := by
  refine List.ext_getElem (Mem.length_slice ..) fun k hk hk' => ?_
  rw [Mem.getElem_slice, h.getD hk', List.getD_eq_getElem _ _ hk']

theorem rd16 {m : List UInt8} {v : Nat} (h : At m p (Mem.be16 v)) (hv : v < 2 ^ 16) :
    Mem.rd16 (fun k => m.getD k 0) p = v := by
  rw [Mem.rd16_of_be16 h.slice_getD, Nat.mod_eq_of_lt hv]

theorem rd32 {m : List UInt8} {v : Nat} (h : At m p (Mem.be32 v)) (hv : v < 2 ^ 32) :
    Mem.rd32 (fun k => m.getD k 0) p = v := by
  rw [Mem.rd32_of_be32 h.slice_getD, Nat.mod_eq_of_lt hv]

end At

/-! ## Overwriting -/

section Overwrite

variable {lo p : Nat} {m s : List α}

theorem overwrite_append (xs ys zs : List α) (h : s.length = ys.length) :
    overwrite (xs ++ ys ++ zs) xs.length s = xs ++ s ++ zs := by
  have hsplit : xs ++ ys ++ zs = xs ++ (ys ++ zs) := List.append_assoc ..
  have hdrop : (xs ++ ys ++ zs).drop (xs.length + s.length) = zs := by
    rw [h, ← List.length_append, List.drop_left]
  rw [overwrite, hdrop, hsplit, List.take_left]

theorem overwrite_split (h : p + s.length ≤ m.length) :
    ∃ xs ys zs, m = xs ++ ys ++ zs ∧ xs.length = p ∧ ys.length = s.length ∧
      overwrite m p s = xs ++ s ++ zs := by
  refine ⟨m.take p, (m.drop p).take s.length, m.drop (p + s.length), ?_, ?_, ?_, rfl⟩
  · rw [List.append_assoc, ← List.drop_drop, List.take_append_drop, List.take_append_drop]
  · rw [List.length_take]
    omega
  · rw [List.length_take, List.length_drop]
    omega

theorem length_overwrite (h : p + s.length ≤ m.length) : (overwrite m p s).length = m.length := by
  rw [overwrite, List.length_append, List.length_append, List.length_take, List.length_drop]
  omega

theorem At.overwrite (h : p + s.length ≤ m.length) : At (overwrite m p s) p s := by
  obtain ⟨xs, ys, zs, rfl, rfl, -, hover⟩ := overwrite_split h
  have hall : At (xs ++ s ++ zs) 0 (xs ++ s) := At.of_prefix (List.prefix_append _ _)
  have hlast := (At.append_iff.1 hall).2
  rw [Nat.zero_add] at hlast
  rw [hover]
  exact hlast

/-- What lies behind is not touched. -/
theorem Keeps.overwrite (h : p + s.length ≤ m.length) (hlo : p + s.length ≤ lo) :
    Keeps lo m (Lib.overwrite m p s) := by
  obtain ⟨xs, ys, zs, rfl, rfl, hys, hover⟩ := overwrite_split h
  intro k hk _
  rw [hover, List.getElem?_append_right (by rw [List.length_append]; omega),
    List.getElem?_append_right (by rw [List.length_append]; omega), List.length_append,
    List.length_append, hys]

end Overwrite

end Lib
end InfernoFpga
