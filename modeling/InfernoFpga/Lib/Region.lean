import InfernoFpga.Lib.Mem

/-!
# Region — a memory that is divided up

A table of fields in one byte image is a family of regions that do not meet.  Writing one of them
is then an update of the family of their contents, and everything about the image follows from that.
-/

namespace InfernoFpga
namespace Lib

/-- `len` bytes from `base` on. -/
structure Region where
  base : Nat
  len : Nat
  deriving DecidableEq

namespace Region

/-- Two regions that have no byte in common. -/
def Disjoint (r s : Region) : Prop := r.base + r.len ≤ s.base ∨ s.base + s.len ≤ r.base

instance (r s : Region) : Decidable (Disjoint r s) := inferInstanceAs (Decidable (_ ∨ _))

theorem Disjoint.symm {r s : Region} (h : Disjoint r s) : Disjoint s r := Or.symm h

/-- The bytes a memory has in a region. -/
def contents (m : Mem) (r : Region) : List UInt8 := Mem.slice m r.base r.len

/-- A memory with the bytes of a region replaced. -/
def write (m : Mem) (r : Region) (bs : List UInt8) : Mem := Mem.store m r.base bs

variable {m : Mem} {r s : Region} {bs : List UInt8}

theorem contents_write_self (h : bs.length = r.len) : contents (write m r bs) r = bs := by
  rw [contents, write, ← h]
  exact Mem.slice_store_same m r.base bs

theorem contents_write_of_disjoint (h : bs.length = s.len) (hdis : Disjoint r s) :
    contents (write m s bs) r = contents m r := by
  refine Mem.slice_store_disjoint ?_
  rw [h]
  exact hdis

/-! ## Families -/

section Family

variable {ι : Type*} {f : ι → Region}

/-- No two regions of the family meet. -/
def Apart (f : ι → Region) : Prop := ∀ i j, i ≠ j → Disjoint (f i) (f j)

/-- Writing one region updates the contents of the family there, and nowhere else. -/
theorem contents_write [DecidableEq ι] (hf : Apart f) (m : Mem) (i : ι)
    (h : bs.length = (f i).len) :
    (fun j => contents (write m (f i) bs) (f j)) =
      Function.update (fun j => contents m (f j)) i bs := by
  funext j
  by_cases hj : j = i
  · rw [hj, Function.update_self]
    exact contents_write_self h
  · rw [Function.update_of_ne hj]
    exact contents_write_of_disjoint h (hf j i hj)

end Family

end Region

end Lib
end InfernoFpga
