import InfernoFpga.Lib.Wrap

/-!
# Timer — periodic timers whose deadline is one wrapping register

A timer is polled now and then.  Its register holds the time of the next firing, reduced to the
width of the register, and zero stands for "at once".  The sign of a difference tells whether the
deadline has been reached, and a deadline whose image happens to be zero fires at every poll until
another one is set.  Against the unbounded time, a firing is therefore never early but after such
a deadline, and never later than the poll that finds it due.
-/

namespace InfernoFpga
namespace Lib
namespace Timer

variable {w : Nat}

/-- The test of the register. -/
def due (now next : BitVec (w + 1)) : Bool := decide (next = 0) || decide (0 ≤ (now - next).toInt)

/-- The register cannot name this time. -/
def Unnamed (w : Nat) (t : Int) : Prop := wrapped (w + 1) t = 0

instance (t : Int) : Decidable (Unnamed w t) := inferInstanceAs (Decidable (_ = _))

theorem unnamed_iff {t : Int} : Unnamed w t ↔ (2 : Int) ^ (w + 1) ∣ t := by
  have hnat : ((wrapped (w + 1) t).toNat : Int) = t % (2 ^ (w + 1) : Nat) := toNat_wrapped t
  have hcast : ((2 ^ (w + 1) : Nat) : Int) = 2 ^ (w + 1) := by push_cast; rfl
  rw [hcast] at hnat
  rw [Unnamed, ← BitVec.toNat_inj, ← Int.ofNat_inj, hnat, Int.dvd_iff_emod_eq_zero]
  rfl

/-- Two such times are a whole range of the register apart. -/
theorem Unnamed.apart {t t' : Int} (h : Unnamed w t) (h' : Unnamed w t') (hlt : t < t') :
    (2 : Int) ^ (w + 1) ≤ t' - t :=
  Int.le_of_dvd (sub_pos.2 hlt) (Int.dvd_sub (unnamed_iff.1 h') (unnamed_iff.1 h))

/-- Time has come to fire again, a period after `f`. -/
def Ripe (w : Nat) (p f t : Int) : Prop := f + p ≤ t ∨ Unnamed w (f + p)

/-- What the register stands for after a poll at `a`: the last firing, less than a period ago. -/
def Ticking (p : Int) (next : BitVec (w + 1)) (last : Option Int) (a : Int) : Prop :=
  match last with
  | none => next = 0
  | some f => next = wrapped (w + 1) (f + p) ∧ f ≤ a ∧ a < f + p

namespace Ticking

variable {p a t f : Int} {next : BitVec (w + 1)} {last : Option Int}

theorem start : Ticking p (0 : BitVec (w + 1)) none a := rfl

theorem fired (hp : 0 < p) : Ticking p (wrapped (w + 1) (t + p)) (some t) t :=
  ⟨rfl, le_refl t, lt_add_of_pos_right t hp⟩

/-- A poll fires exactly when the time has come, unless half a range of the register has passed
since the last one. -/
theorem due_iff (h : Ticking p next last a) (hp : p ≤ 2 ^ w) (hat : a ≤ t) (hgap : t - a < 2 ^ w) :
    due (wrapped (w + 1) t) next = true ↔ ∀ f, last = some f → Ripe w p f t := by
  cases last with
  | none =>
    rw [show next = 0 from h, due]
    simp
  | some f =>
    obtain ⟨hnext, hfa, haf⟩ := h
    have hreach : 0 ≤ (wrapped (w + 1) t - wrapped (w + 1) (f + p)).toInt ↔ f + p ≤ t :=
      reached_iff (by linarith) (by linarith)
    rw [hnext, due, Bool.or_eq_true, decide_eq_true_iff, decide_eq_true_iff, hreach]
    constructor
    · rintro h f' hf'
      rw [← Option.some.inj hf']
      exact h.symm
    · exact fun h => (h f rfl).symm

/-- A poll that does not fire leaves the register as it was, and it still is less than a period
since the last firing. -/
theorem waited (h : Ticking p next last a) (hp : p ≤ 2 ^ w) (hat : a ≤ t) (hgap : t - a < 2 ^ w)
    (hnot : due (wrapped (w + 1) t) next = false) :
    Ticking p next last t ∧ ∃ f, last = some f ∧ f ≤ t ∧ t < f + p := by
  have hdue := (h.due_iff hp hat hgap).not.1 (Bool.not_eq_true _ ▸ hnot)
  cases last with
  | none => exact absurd (fun f hf => nomatch hf) hdue
  | some f =>
    have hlt : t < f + p := by
      by_contra hle
      refine hdue fun f' hf' => Or.inl ?_
      rw [← Option.some.inj hf']
      exact not_lt.1 hle
    exact ⟨⟨h.1, h.2.1.trans hat, hlt⟩, f, rfl, h.2.1.trans hat, hlt⟩

end Ticking

/-! ## The firings of a run -/

/-- Of any two firings the later one had come when it was made. -/
def Spaced (w : Nat) (p : Int) (fires : List Int) : Prop := fires.Pairwise (Ripe w p)

/-- One more firing: it is enough that it had come after the last one. -/
theorem Spaced.concat {p t : Int} {fires : List Int} (h : Spaced w p fires)
    (hle : ∀ f ∈ fires, f ≤ t) (hripe : ∀ f, fires.getLast? = some f → Ripe w p f t) :
    Spaced w p (fires ++ [t]) := by
  refine List.pairwise_append.2 ⟨h, List.pairwise_singleton _ _, ?_⟩
  intro f hf g hg
  rw [List.mem_singleton.1 hg]
  rcases List.eq_nil_or_concat fires with hnil | ⟨front, l, hsplit⟩
  · rw [hnil] at hf
    exact absurd hf List.not_mem_nil
  · rw [List.concat_eq_append] at hsplit
    subst hsplit
    have hlast := hripe l (by simp)
    rcases List.mem_append.1 hf with hfront | hl
    · -- an earlier firing came a period before the last one, and that one was made before `t`
      rcases (List.pairwise_append.1 h).2.2 f hfront l (by simp) with hfl | hun
      · exact Or.inl (hfl.trans (hle l (by simp)))
      · exact Or.inr hun
    · rw [List.mem_singleton.1 hl]
      exact hlast

end Timer
end Lib
end InfernoFpga
