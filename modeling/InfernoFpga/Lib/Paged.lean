import InfernoFpga.Lib.Segment

/-!
# Paged — an area of slots, and behind it what the slots point at

A page is written in two places at once: a slot is filled in an area that was reserved in advance,
and what the slot points at is appended at the end.  A slot that can be read while the end is still
growing can be read in the finished page.
-/

namespace InfernoFpga
namespace Lib

variable {α γ : Type*}

/-- `buf` is `front`, an area for `room` slots of `size` entries each, filled as far as `slots` go,
and `tail`. -/
structure Laid (front : List α) (size room : Nat) (buf : List α) (slots : List (List α))
    (tail : List α) : Prop where
  eq : ∃ gap, buf = front ++ slots.flatten ++ gap ++ tail ∧
    gap.length = size * (room - slots.length)
  width : ∀ s ∈ slots, s.length = size
  fits : slots.length ≤ room

theorem length_flatten_of_width {slots : List (List α)} {size : Nat}
    (h : ∀ s ∈ slots, s.length = size) : slots.flatten.length = size * slots.length := by
  induction slots with
  | nil => rfl
  | cons s slots ih =>
    have hrest := ih fun x hx => h x (List.mem_cons_of_mem s hx)
    rw [List.flatten_cons, List.length_append, hrest, h s List.mem_cons_self, List.length_cons,
      Nat.mul_succ, Nat.add_comm]

namespace Laid

variable {front buf tail : List α} {size room : Nat} {slots : List (List α)}

/-- An area with nothing in it yet. -/
theorem empty (front : List α) {size room : Nat} {gap : List α} (h : gap.length = size * room) :
    Laid front size room (front ++ gap) [] [] where
  eq := ⟨gap, by simp, by rw [h, List.length_nil, Nat.sub_zero]⟩
  width := fun s hs => absurd hs List.not_mem_nil
  fits := Nat.zero_le room

/-- The slots and the gap behind them take the whole area. -/
theorem area (h : Laid front size room buf slots tail) :
    ∃ gap, buf = front ++ slots.flatten ++ gap ++ tail ∧
      slots.flatten.length = size * slots.length ∧
      (front ++ slots.flatten ++ gap).length = front.length + size * room := by
  obtain ⟨gap, hbuf, hgap⟩ := h.eq
  have hflat := length_flatten_of_width h.width
  have hsum : size * slots.length + size * (room - slots.length) = size * room := by
    rw [← Nat.mul_add, Nat.add_sub_cancel' h.fits]
  refine ⟨gap, hbuf, hflat, ?_⟩
  rw [List.length_append, List.length_append, hflat, hgap]
  omega

theorem length (h : Laid front size room buf slots tail) :
    buf.length = front.length + size * room + tail.length := by
  obtain ⟨gap, rfl, -, harea⟩ := h.area
  rw [List.length_append, harea]

/-- The tail grows. -/
theorem append (h : Laid front size room buf slots tail) (bs : List α) :
    Laid front size room (buf ++ bs) slots (tail ++ bs) where
  eq := by
    obtain ⟨gap, rfl, hgap⟩ := h.eq
    exact ⟨gap, List.append_assoc .., hgap⟩
  width := h.width
  fits := h.fits

/-- The next slot is filled. -/
theorem put (h : Laid front size room buf slots tail) (hroom : slots.length < room) {s : List α}
    (hs : s.length = size) :
    Laid front size room (overwrite buf (front.length + slots.length * size) s) (slots ++ [s])
      tail where
  eq := by
    obtain ⟨gap, rfl, hgap⟩ := h.eq
    have hflat := length_flatten_of_width h.width
    have hmore : size + size * (room - (slots.length + 1)) = size * (room - slots.length) := by
      have hone : room - slots.length = room - (slots.length + 1) + 1 := by omega
      rw [hone, Nat.mul_succ, Nat.add_comm]
    refine ⟨gap.drop size, ?_, ?_⟩
    · have hsplit : front ++ slots.flatten ++ gap ++ tail =
          (front ++ slots.flatten) ++ gap.take size ++ (gap.drop size ++ tail) := by
        rw [List.append_assoc _ (gap.take size), ← List.append_assoc (gap.take size),
          List.take_append_drop, List.append_assoc _ gap]
      have hpos : front.length + slots.length * size = (front ++ slots.flatten).length := by
        rw [List.length_append, hflat, Nat.mul_comm]
      rw [hsplit, hpos, overwrite_append _ _ _ (by rw [List.length_take]; omega),
        List.flatten_concat]
      simp only [List.append_assoc]
    · rw [List.length_drop, List.length_append, List.length_singleton]
      omega
  width := by
    intro x hx
    rcases List.mem_append.1 hx with hx | hx
    · exact h.width x hx
    · rw [List.mem_singleton.1 hx, hs]
  fits := by
    rw [List.length_append, List.length_singleton]
    exact hroom

theorem at_slots (h : Laid front size room buf slots tail) :
    At buf front.length slots.flatten := by
  obtain ⟨gap, rfl, -⟩ := h.eq
  rw [List.append_assoc (front ++ slots.flatten)]
  have hall : At (front ++ slots.flatten ++ (gap ++ tail)) 0 (front ++ slots.flatten) :=
    At.of_prefix (List.prefix_append _ _)
  have hslots := (At.append_iff.1 hall).2
  rwa [Nat.zero_add] at hslots

theorem at_tail (h : Laid front size room buf slots tail) :
    At buf (front.length + size * room) tail := by
  obtain ⟨gap, rfl, -, harea⟩ := h.area
  rw [← harea]
  exact At.of_append _ tail

theorem prefix_front (h : Laid front size room buf slots tail) : front <+: buf := by
  obtain ⟨gap, rfl, -⟩ := h.eq
  rw [List.append_assoc, List.append_assoc]
  exact List.prefix_append _ _

end Laid

/-! ## Reading the slots -/

/-- `n` slots, read one after the other. -/
def readSlots (read : List α → Nat → Option γ) (size : Nat) (m : List α) :
    Nat → Nat → Option (List γ)
  | 0, _ => some []
  | n + 1, p =>
      match read m p with
      | none => none
      | some x => (readSlots read size m n (p + size)).map (x :: ·)

/-- The slot reads `x` wherever it lies, as long as `tail` lies at `off`. -/
def Means (read : List α → Nat → Option γ) (off : Nat) (tail slot : List α) (x : γ) : Prop :=
  ∀ m p, At m p slot → At m off tail → read m p = some x

section Reading

variable {read : List α → Nat → Option γ} {off size : Nat} {tail slot : List α} {x : γ}

/-- What a slot means does not change while the tail grows. -/
theorem Means.append (h : Means read off tail slot x) (bs : List α) :
    Means read off (tail ++ bs) slot x := fun m p hslot htail =>
  h m p hslot (At.append_iff.1 htail).1

/-- Slots that mean `xs` read `xs`. -/
theorem readSlots_of_means {m : List α} {slots : List (List α)} {xs : List γ} {p : Nat}
    (h : List.Forall₂ (Means read off tail) slots xs) (hwidth : ∀ s ∈ slots, s.length = size)
    (hslots : At m p slots.flatten) (htail : At m off tail) :
    readSlots read size m xs.length p = some xs := by
  induction h generalizing p with
  | nil => rfl
  | @cons s x slots xs hs _ ih =>
    rw [List.flatten_cons] at hslots
    obtain ⟨hfirst, hrest⟩ := At.append_iff.1 hslots
    rw [hwidth s List.mem_cons_self] at hrest
    have hread := ih (fun y hy => hwidth y (List.mem_cons_of_mem s hy)) hrest
    rw [List.length_cons, readSlots, hs m p hfirst htail]
    simp only [hread, Option.map_some]

/-- The slots of a page can be read when its front has been written over. -/
theorem Laid.readSlots_eq {front buf m : List α} {room : Nat} {slots : List (List α)}
    {xs : List γ} (h : Laid front size room buf slots tail)
    (hxs : List.Forall₂ (Means read (front.length + size * room) tail) slots xs)
    (hk : Keeps front.length buf m) : readSlots read size m xs.length front.length = some xs :=
  readSlots_of_means hxs h.width (h.at_slots.keeps hk (Nat.le_refl _))
    (h.at_tail.keeps hk (Nat.le_add_right _ _))

end Reading

end Lib
end InfernoFpga
