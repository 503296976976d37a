import InfernoFpga.Lib.Mem

/-!
# Records — messages of records that carry their own length

A message is a sequence of records, and every record says how long it is; a reader walks from one
to the next.  A message that was put together from such records is taken apart into the same ones,
whatever they contain.
-/

namespace InfernoFpga
namespace Lib
namespace Records

variable {α : Type*}

/-- The records of a message, each as long as `size` reads at its front; nothing if a record has
no length or runs over the end. -/
def walk (size : List α → Nat) : Nat → List α → Option (List (List α))
  | _, [] => some []
  | 0, _ :: _ => none
  | fuel + 1, a :: l =>
      if size (a :: l) = 0 ∨ (a :: l).length < size (a :: l) then none
      else
        (walk size fuel ((a :: l).drop (size (a :: l)))).map ((a :: l).take (size (a :: l)) :: ·)

/-- A record that says its own length, whatever follows it. -/
structure SelfDelimiting (size : List α → Nat) (r : List α) : Prop where
  ne_nil : r ≠ []
  size : ∀ rest, size (r ++ rest) = r.length

variable {size : List α → Nat} {r : List α} {rs : List (List α)}

theorem walk_append (h : SelfDelimiting size r) (fuel : Nat) (rest : List α) :
    walk size (fuel + 1) (r ++ rest) = (walk size fuel rest).map (r :: ·) := by
  have hsize := h.size rest
  cases r with
  | nil => exact absurd rfl h.ne_nil
  | cons a l =>
    have hfits : ¬ ((a :: l).length = 0 ∨ (a :: l ++ rest).length < (a :: l).length) := by
      simp only [List.length_append, List.length_cons]
      omega
    rw [List.cons_append] at hsize hfits ⊢
    rw [walk, hsize, if_neg hfits, ← List.cons_append, List.drop_left, List.take_left]

/-- A message is taken apart into the records it was put together from. -/
theorem walk_flatten (h : ∀ r ∈ rs, SelfDelimiting size r) :
    ∀ fuel, rs.length ≤ fuel → walk size fuel rs.flatten = some rs := by
  induction rs with
  | nil =>
    intro fuel _
    cases fuel <;> rfl
  | cons r rs ih =>
    intro fuel hfuel
    cases fuel with
    | zero => exact absurd hfuel (Nat.not_succ_le_zero _)
    | succ fuel =>
      have hrest := ih (fun r' hr' => h r' (List.mem_cons_of_mem r hr')) fuel
        (Nat.le_of_succ_le_succ hfuel)
      rw [List.flatten_cons, walk_append (h r List.mem_cons_self), hrest]
      rfl

/-! ## Messages that are known in part -/

/-- The message has a byte for each place of the shape, and the known ones at their places. -/
def HasShape (shape : List (Option α)) (m : List α) : Prop :=
  List.Forall₂ (fun o a => ∀ v, o = some v → a = v) shape m

namespace HasShape

variable {shape shape' : List (Option α)} {m m' : List α}

theorem append (h : HasShape shape m) (h' : HasShape shape' m') :
    HasShape (shape ++ shape') (m ++ m') := by
  induction h with
  | nil => exact h'
  | cons hhead _ ih => exact List.Forall₂.cons hhead ih

theorem known (bs : List α) : HasShape (bs.map some) bs := by
  induction bs with
  | nil => exact List.Forall₂.nil
  | cons b bs ih =>
    refine List.Forall₂.cons (fun v hv => ?_) ih
    exact Option.some.inj hv

theorem unknown {n : Nat} {bs : List α} (h : bs.length = n) :
    HasShape (List.replicate n none) bs := by
  subst h
  induction bs with
  | nil => exact List.Forall₂.nil
  | cons b bs ih => exact List.Forall₂.cons (fun v hv => nomatch hv) ih

theorem getElem? (h : HasShape shape m) {k : Nat} {v : α} (hk : shape[k]? = some (some v)) :
    m[k]? = some v := by
  induction h generalizing k with
  | nil => cases hk
  | cons hhead _ ih =>
    cases k with
    | zero => exact congrArg some (hhead v (Option.some.inj hk))
    | succ k => exact ih hk

end HasShape

/-- A big-endian 16-bit word, where both of its bytes are known. -/
def knownWord (shape : List (Option UInt8)) (k : Nat) : Option Nat :=
  match shape[k]?, shape[k + 1]? with
  | some (some hi), some (some lo) => some (hi.toNat * 256 + lo.toNat)
  | _, _ => none

theorem HasShape.rd16 {shape : List (Option UInt8)} {m : List UInt8} (h : HasShape shape m)
    {k v : Nat} (hk : knownWord shape k = some v) : Mem.rd16 (fun a => m.getD a 0) k = v := by
  unfold knownWord at hk
  split at hk
  · rename_i hi lo hhi hlo
    rw [Mem.rd16, List.getD_eq_getElem?_getD, List.getD_eq_getElem?_getD, h.getElem? hhi,
      h.getElem? hlo]
    exact Option.some.inj hk
  · cases hk

end Records
end Lib
end InfernoFpga
