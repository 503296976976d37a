import Mathlib.Data.List.Chain
import Mathlib.Data.List.GetD

/-!
# Framing — cutting a stream into frames

A stream of beats is cut behind every beat that ends a frame.  When several sources share one
stream and none of them gives way inside a frame, the frames of the shared stream that a source
owns are the frames of what it sent.
-/

namespace InfernoFpga
namespace Lib

variable {α β ι : Type*}

/-- The frames of a stream; the last one may still be in progress. -/
def cut (ends : α → Bool) : List α → List (List α)
  | [] => []
  | a :: l =>
      if ends a then [a] :: cut ends l
      else
        match cut ends l with
        | [] => [[a]]
        | f :: fs => (a :: f) :: fs

section Cut

variable (ends : α → Bool)

@[simp] theorem cut_nil : cut ends [] = [] := rfl

/-- Cutting loses nothing and changes no order. -/
theorem flatten_cut (l : List α) : (cut ends l).flatten = l := by
  induction l with
  | nil => rfl
  | cons a l ih =>
    rw [cut]
    split
    · rw [List.flatten_cons, ih]
      rfl
    · split
      · rename_i hcut
        rw [hcut] at ih
        rw [← ih]
        rfl
      · rename_i f fs hcut
        rw [hcut] at ih
        rw [← ih]
        rfl

/-- The first frame begins with the first beat. -/
theorem cut_cons (a : α) (l : List α) : ∃ f fs, cut ends (a :: l) = (a :: f) :: fs := by
  rw [cut]
  split
  · exact ⟨[], _, rfl⟩
  · split
    · exact ⟨[], [], rfl⟩
    · exact ⟨_, _, rfl⟩

theorem ne_nil_of_mem_cut {l : List α} {f : List α} (h : f ∈ cut ends l) : f ≠ [] := by
  induction l generalizing f with
  | nil => exact absurd h (List.not_mem_nil)
  | cons a l ih =>
    rw [cut] at h
    split at h
    · rcases List.mem_cons.1 h with rfl | h
      · exact List.cons_ne_nil _ _
      · exact ih h
    · split at h
      · rw [List.mem_singleton.1 h]
        exact List.cons_ne_nil _ _
      · rename_i g gs hcut
        rcases List.mem_cons.1 h with rfl | h
        · exact List.cons_ne_nil _ _
        · exact ih (hcut ▸ List.mem_cons_of_mem g h)

/-- Frames are cut beat by beat, so a map that keeps the frame ends keeps the frames. -/
theorem cut_map {ends : β → Bool} (g : α → β) (l : List α) :
    cut ends (l.map g) = (cut (fun a => ends (g a)) l).map (List.map g) := by
  induction l with
  | nil => rfl
  | cons a l ih =>
    rw [List.map_cons, cut, cut, ih]
    split
    · rfl
    · cases cut (fun a => ends (g a)) l <;> rfl

/-- A stream that ends a frame with its last beat only is one frame. -/
theorem cut_one {l : List α} {a : α} (hl : ∀ x ∈ l, ends x = false) (ha : ends a = true) :
    cut ends (l ++ [a]) = [l ++ [a]] := by
  induction l with
  | nil => rw [List.nil_append, cut, if_pos ha, cut_nil]
  | cons x l ih =>
    have hx : ends x = false := hl x (List.mem_cons_self)
    have hrest := ih fun y hy => hl y (List.mem_cons_of_mem x hy)
    rw [List.cons_append, cut, hx, if_neg Bool.false_ne_true, hrest]

end Cut

/-! ## Chunks of one width -/

/-- Chunks of `w` entries each, put behind one another. -/
theorem flatMap_chunks (g : Nat → Nat → α) {w : Nat} (hw : 0 < w) (n : Nat) :
    ((List.range n).flatMap fun m => (List.range w).map (g m)) =
      (List.range (w * n)).map fun j => g (j / w) (j % w) := by
  induction n with
  | zero => rfl
  | succ n ih =>
    have hchunk : (List.range w).map (g n) =
        ((List.range w).map (w * n + ·)).map fun j => g (j / w) (j % w) := by
      rw [List.map_map]
      refine List.map_congr_left fun r hr => ?_
      have hlt : r < w := List.mem_range.1 hr
      show g n r = g ((w * n + r) / w) ((w * n + r) % w)
      rw [Nat.mul_add_div hw, Nat.div_eq_of_lt hlt, Nat.mul_add_mod, Nat.mod_eq_of_lt hlt]
      rfl
    rw [List.range_succ, List.flatMap_append, ih, List.flatMap_singleton, hchunk, Nat.mul_succ,
      List.range_add, List.map_append]

/-- A list is what it reads back entry by entry. -/
theorem map_getD_range (l : List α) (d : α) : ((List.range l.length).map fun j => l.getD j d) = l := by
  refine List.ext_getElem (by simp) fun j h₁ h₂ => ?_
  rw [List.getElem_map, List.getElem_range, List.getD_eq_getElem _ _ h₂]

/-! ## Frames with one owner -/

/-- Inside a frame the owner does not change. -/
def Unbroken (ends : α → Bool) (owner : α → ι) (l : List α) : Prop :=
  l.IsChain fun a b => ends a = false → owner a = owner b

section Owner

variable {ends : α → Bool} {owner : α → ι}

/-- Every frame of an unbroken stream has one owner. -/
theorem Unbroken.owned {l : List α} (h : Unbroken ends owner l) :
    ∀ f ∈ cut ends l, ∀ a ∈ f, ∀ b ∈ f, owner a = owner b := by
  induction l with
  | nil => exact fun f hf => absurd hf (List.not_mem_nil)
  | cons a l ih =>
    have htail := ih h.tail
    intro f hf
    cases hend : ends a with
    | true =>
      rw [cut, hend, if_pos rfl, List.mem_cons] at hf
      rcases hf with rfl | hf
      · intro x hx y hy
        rw [List.mem_singleton.1 hx, List.mem_singleton.1 hy]
      · exact htail f hf
    | false =>
      cases l with
      | nil =>
        rw [cut, hend] at hf
        rw [List.mem_singleton.1 hf]
        intro x hx y hy
        rw [List.mem_singleton.1 hx, List.mem_singleton.1 hy]
      | cons b l =>
        -- the frame of `b` goes on with `a` in front, and `a` has its owner
        obtain ⟨g, gs, hcut⟩ := cut_cons ends b l
        have hab : owner a = owner b := (List.isChain_cons_cons.1 h).1 hend
        rw [hcut] at htail
        rw [cut, hend, if_neg (by decide), hcut, List.mem_cons] at hf
        rcases hf with rfl | hf
        · have hhead : ∀ x ∈ a :: b :: g, owner x = owner b := by
            intro x hx
            rcases List.mem_cons.1 hx with rfl | hx
            · exact hab
            · exact htail _ List.mem_cons_self x hx b List.mem_cons_self
          intro x hx y hy
          rw [hhead x hx, hhead y hy]
        · exact htail f (List.mem_cons_of_mem _ hf)

variable [DecidableEq ι]

/-- The frame belongs to `i`. -/
def ownedBy (owner : α → ι) (i : ι) (f : List α) : Bool := f.any fun a => decide (owner a = i)

theorem ownedBy_cons_iff {l : List α} (h : Unbroken ends owner l) {a : α} {f : List α}
    (hf : a :: f ∈ cut ends l) (i : ι) : ownedBy owner i (a :: f) = true ↔ owner a = i := by
  rw [ownedBy, List.any_eq_true]
  constructor
  · rintro ⟨x, hx, hxi⟩
    rw [decide_eq_true_iff] at hxi
    rw [← hxi]
    exact h.owned _ hf _ List.mem_cons_self _ hx
  · exact fun ha => ⟨a, List.mem_cons_self, decide_eq_true ha⟩

/-- What a source sent, cut into frames, are the frames it owns. -/
theorem Unbroken.cut_filter {l : List α} (h : Unbroken ends owner l) (i : ι) :
    cut ends (l.filter fun a => decide (owner a = i)) = (cut ends l).filter (ownedBy owner i) := by
  induction l with
  | nil => rfl
  | cons a l ih =>
    have htail := ih h.tail
    obtain ⟨f, fs, hcut⟩ := cut_cons ends a l
    have hmine := ownedBy_cons_iff h (hcut ▸ List.mem_cons_self) i
    cases hend : ends a with
    | true =>
      have hsplit : (a :: f) :: fs = [a] :: cut ends l := by rw [← hcut, cut, hend, if_pos rfl]
      obtain ⟨hhead, rfl⟩ := List.cons.inj hsplit
      rw [hcut, List.filter_cons, List.filter_cons, ← htail]
      by_cases ha : owner a = i
      · rw [if_pos (decide_eq_true ha), if_pos (hmine.2 ha), cut, hend, if_pos rfl, hhead]
      · rw [if_neg (by simpa using ha), if_neg fun h => ha (hmine.1 h)]
    | false =>
      cases l with
      | nil =>
        have hsingle : cut ends [a] = [[a]] := by rw [cut, hend]; rfl
        have hown : ownedBy owner i [a] = decide (owner a = i) := by simp [ownedBy]
        rw [hsingle, List.filter_singleton, List.filter_singleton, hown]
        cases decide (owner a = i) with
        | true => exact hsingle
        | false => rfl
      | cons b l =>
        obtain ⟨g, gs, hnext⟩ := cut_cons ends b l
        have hab : owner a = owner b := (List.isChain_cons_cons.1 h).1 hend
        have hmine' := ownedBy_cons_iff h.tail (hnext ▸ List.mem_cons_self) i
        have hgrow : cut ends (a :: b :: l) = (a :: b :: g) :: gs := by
          rw [cut, hend, if_neg (by decide), hnext]
        rw [hgrow] at hcut
        obtain ⟨hf, hfs⟩ := List.cons.inj hcut
        rw [← (List.cons.inj hf).2] at hmine
        rw [hnext] at htail
        by_cases ha : owner a = i
        · have hb : owner b = i := hab ▸ ha
          rw [List.filter_cons_of_pos (hmine'.2 hb)] at htail
          have hfilter : (a :: b :: l).filter (fun a => decide (owner a = i)) =
              a :: (b :: l).filter fun a => decide (owner a = i) :=
            List.filter_cons_of_pos (decide_eq_true ha)
          rw [hgrow, hfilter, List.filter_cons_of_pos (hmine.2 ha), cut, hend, if_neg (by decide),
            htail]
        · have hb : ¬ owner b = i := fun hb => ha (hab.trans hb)
          rw [List.filter_cons_of_neg fun h => hb (hmine'.1 h)] at htail
          rw [hgrow, List.filter_cons_of_neg (by simpa using ha),
            List.filter_cons_of_neg fun h => ha (hmine.1 h), htail]

end Owner

end Lib
end InfernoFpga
