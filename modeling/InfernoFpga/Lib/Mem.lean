import Mathlib.Data.List.Basic
import Mathlib.Data.List.GetD
import Mathlib.Algebra.Group.Nat.Defs

/-!
# Mem — byte memories addressed by natural numbers

Buffers of a C program are byte memories that are written in runs (`memcpy`, `memset`, big-endian
stores) and read back in runs.  A memory here is a total function, so a read outside a buffer is
simply a read of whatever lies there.
-/

namespace InfernoFpga
namespace Lib

/-- A byte memory. -/
abbrev Mem := Nat → UInt8

namespace Mem

/-- `memcpy(m + a, bs, |bs|)`. -/
def store (m : Mem) (a : Nat) (bs : List UInt8) : Mem := fun x =>
  if a ≤ x ∧ x < a + bs.length then bs.getD (x - a) 0 else m x

/-- The bytes `m[a], …, m[a + n - 1]`. -/
def slice (m : Mem) (a n : Nat) : List UInt8 :=
  (List.range n).map fun k => m (a + k)

/-- Big-endian 16-bit load. -/
def rd16 (m : Mem) (a : Nat) : Nat := (m a).toNat * 256 + (m (a + 1)).toNat

/-- Big-endian 32-bit load. -/
def rd32 (m : Mem) (a : Nat) : Nat := rd16 m a * 65536 + rd16 m (a + 2)

/-- The two bytes of a big-endian 16-bit store. -/
def be16 (v : Nat) : List UInt8 := [UInt8.ofNat (v / 256), UInt8.ofNat v]

/-- The four bytes of a big-endian 32-bit store. -/
def be32 (v : Nat) : List UInt8 := be16 (v / 65536) ++ be16 v

/-! ## Loads -/

theorem rd16_lt (m : Mem) (a : Nat) : rd16 m a < 2 ^ 16 := by
  have h₀ := (m a).toNat_lt
  have h₁ := (m (a + 1)).toNat_lt
  simp only [rd16]
  omega

theorem rd32_lt (m : Mem) (a : Nat) : rd32 m a < 2 ^ 32 := by
  have hhigh := rd16_lt m a
  have hlow := rd16_lt m (a + 2)
  rw [rd32]
  omega

@[simp] theorem length_slice (m : Mem) (a n : Nat) : (slice m a n).length = n := by
  simp [slice]

theorem getElem_slice (m : Mem) (a n k : Nat) (h : k < (slice m a n).length) :
    (slice m a n)[k] = m (a + k) := by
  simp [slice]

theorem getD_slice {m : Mem} {a n k : Nat} (h : k < n) (d : UInt8) :
    (slice m a n).getD k d = m (a + k) := by
  rw [List.getD_eq_getElem _ _ (by simpa using h), getElem_slice]

/-- A 16-bit load is of two bytes. -/
theorem rd16_of_slice {m m' : Mem} {a a' : Nat} (h : slice m a 2 = slice m' a' 2) :
    rd16 m a = rd16 m' a' := by
  have hbytes : m a = m' a' ∧ m (a + 1) = m' (a' + 1) := by
    simpa [slice, List.range_succ] using h
  rw [rd16, rd16, hbytes.1, hbytes.2]

/-! ## Stores -/

theorem store_of_mem {m : Mem} {a x : Nat} {bs : List UInt8} (ha : a ≤ x)
    (hx : x < a + bs.length) : store m a bs x = bs.getD (x - a) 0 := by
  simp [store, ha, hx]

theorem store_of_lt {m : Mem} {a x : Nat} {bs : List UInt8} (h : x < a) :
    store m a bs x = m x := by
  have : ¬ (a ≤ x ∧ x < a + bs.length) := by omega
  simp only [store, this, if_false]

theorem store_of_ge {m : Mem} {a x : Nat} {bs : List UInt8} (h : a + bs.length ≤ x) :
    store m a bs x = m x := by
  have : ¬ (a ≤ x ∧ x < a + bs.length) := by omega
  simp only [store, this, if_false]

/-- What was stored is read back. -/
theorem slice_store_same (m : Mem) (a : Nat) (bs : List UInt8) :
    slice (store m a bs) a bs.length = bs := by
  apply List.ext_getElem
  · simp
  · intro k hk hk'
    rw [getElem_slice, store_of_mem (Nat.le_add_right a k) (by omega),
      Nat.add_sub_cancel_left, List.getD_eq_getElem _ _ hk']

/-- A store elsewhere does not change what is read. -/
theorem slice_store_disjoint {m : Mem} {a b n : Nat} {bs : List UInt8}
    (h : a + n ≤ b ∨ b + bs.length ≤ a) : slice (store m b bs) a n = slice m a n := by
  apply List.ext_getElem
  · simp
  · intro k hk hk'
    have hkn : k < n := by simpa using hk
    rw [getElem_slice, getElem_slice]
    rcases h with h | h
    · exact store_of_lt (by omega)
    · exact store_of_ge (by omega)

/-- Two stores in a row are one store. -/
theorem store_append (m : Mem) (a : Nat) (bs cs : List UInt8) :
    store (store m a bs) (a + bs.length) cs = store m a (bs ++ cs) := by
  funext x
  by_cases hlt : x < a
  · rw [store_of_lt (by omega), store_of_lt hlt, store_of_lt hlt]
  by_cases hmid : x < a + bs.length
  · rw [store_of_lt hmid, store_of_mem (by omega) hmid,
      store_of_mem (by omega) (by rw [List.length_append]; omega),
      List.getD_append _ _ _ _ (by omega)]
  by_cases hend : x < a + bs.length + cs.length
  · rw [store_of_mem (by omega) hend,
      store_of_mem (by omega) (by rw [List.length_append]; omega),
      List.getD_append_right _ _ _ _ (by omega), Nat.sub_sub]
  · rw [store_of_ge (by omega), store_of_ge (by omega),
      store_of_ge (by rw [List.length_append]; omega)]

/-- A store inside an earlier one replaces that part of it. -/
theorem store_patch (m : Mem) (a : Nat) (xs zs : List UInt8) {ys ys' : List UInt8}
    (h : ys'.length = ys.length) :
    store (store m a (xs ++ ys ++ zs)) (a + xs.length) ys' = store m a (xs ++ ys' ++ zs) := by
  funext x
  by_cases hin : a + xs.length ≤ x ∧ x < a + xs.length + ys'.length
  · rw [store_of_mem hin.1 hin.2,
      store_of_mem (by omega) (by simp only [List.length_append]; omega),
      List.getD_append _ _ _ _ (by rw [List.length_append]; omega),
      List.getD_append_right _ _ _ _ (by omega), Nat.sub_sub]
  · have hout : store (store m a (xs ++ ys ++ zs)) (a + xs.length) ys' x =
        store m a (xs ++ ys ++ zs) x := by
      simp only [store, hin, if_false]
    rw [hout]
    by_cases hlt : x < a
    · rw [store_of_lt hlt, store_of_lt hlt]
    by_cases hge : a + (xs ++ ys ++ zs).length ≤ x
    · rw [store_of_ge hge, store_of_ge (by simp only [List.length_append] at *; omega)]
    simp only [List.length_append] at hge
    rw [store_of_mem (by omega) (by simp only [List.length_append]; omega),
      store_of_mem (by omega) (by simp only [List.length_append]; omega)]
    by_cases hpre : x < a + xs.length
    · rw [List.append_assoc, List.append_assoc, List.getD_append _ _ _ _ (by omega),
        List.getD_append _ _ _ _ (by omega)]
    · rw [List.getD_append_right _ _ _ _ (by rw [List.length_append]; omega),
        List.getD_append_right _ _ _ _ (by rw [List.length_append]; omega)]
      simp only [List.length_append, h]

theorem slice_append (m : Mem) (a n k : Nat) :
    slice m a (n + k) = slice m a n ++ slice m (a + n) k := by
  simp [slice, List.range_add, List.map_append, Nat.add_assoc, Function.comp_def]

/-- What was stored at the front of a run is read back in front of what lay behind it. -/
theorem slice_store_front (m : Mem) (a : Nat) {bs : List UInt8} {n : Nat} (h : bs.length ≤ n) :
    slice (store m a bs) a n = bs ++ slice m (a + bs.length) (n - bs.length) := by
  obtain ⟨k, rfl⟩ := Nat.exists_eq_add_of_le h
  rw [slice_append, slice_store_same, slice_store_disjoint (Or.inr (Nat.le_refl _)),
    Nat.add_sub_cancel_left]

/-- The middle part of a run, read on its own. -/
theorem slice_infix {m : Mem} {a n : Nat} {xs ys zs : List UInt8}
    (h : slice m a n = xs ++ ys ++ zs) : slice m (a + xs.length) ys.length = ys := by
  have hn : n = xs.length + ys.length + zs.length := by
    simpa only [length_slice, List.length_append] using congrArg List.length h
  rw [hn, slice_append, slice_append] at h
  have hfront := (List.append_inj h (by simp only [List.length_append, length_slice])).1
  exact (List.append_inj hfront (length_slice _ _ _)).2

/-- A big-endian 16-bit store is loaded back modulo `2 ^ 16`. -/
theorem rd16_of_be16 {m : Mem} {a v : Nat} (h : slice m a 2 = be16 v) :
    rd16 m a = v % 2 ^ 16 := by
  have hbytes : m a = UInt8.ofNat (v / 256) ∧ m (a + 1) = UInt8.ofNat v := by
    simpa [slice, List.range_succ, be16] using h
  rw [rd16, hbytes.1, hbytes.2, UInt8.toNat_ofNat', UInt8.toNat_ofNat']
  omega

/-- A big-endian 32-bit store is loaded back modulo `2 ^ 32`. -/
theorem rd32_of_be32 {m : Mem} {a v : Nat} (h : slice m a 4 = be32 v) :
    rd32 m a = v % 2 ^ 32 := by
  have hbytes : m a = UInt8.ofNat (v / 65536 / 256) ∧ m (a + 1) = UInt8.ofNat (v / 65536) ∧
      m (a + 2) = UInt8.ofNat (v / 256) ∧ m (a + 3) = UInt8.ofNat v := by
    simpa [slice, List.range_succ, be32, be16] using h
  obtain ⟨h₀, h₁, h₂, h₃⟩ := hbytes
  simp only [rd32, rd16, h₀, h₁, h₂, h₃, UInt8.toNat_ofNat']
  omega

end Mem

end Lib
end InfernoFpga
