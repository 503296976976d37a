import InfernoFpga.Lib.Run

/-!
# Thread — a program beside a clocked device

A thread makes accesses to a device, one after the other: it writes, or reads and goes on with
the answer.  The device runs on its own clock.  On each cycle the schedule decides whether the
next access happens, so a run is one interleaving of the program with the device.

`Outline` is a proof outline: an assertion at every point of the program, each of them stable
while the thread waits and inside an invariant.  `outline_run` is its soundness for every schedule.
-/

namespace InfernoFpga
namespace Lib

universe u

variable {ω ρ δ η : Type u}

/-! ## Programs -/

/-- What happens on the bus on one cycle. -/
inductive Access (ω : Type u)
  | idle
  | write (w : ω)
  | read

inductive Thread (ω ρ : Type u)
  | done
  | write (w : ω) (rest : Thread ω ρ)
  | read (rest : ρ → Thread ω ρ)

namespace Thread

/-- Nothing is left to do. -/
def isDone : Thread ω ρ → Bool
  | .done => true
  | _ => false

/-- The access of a cycle on which the thread may go on. -/
def access : Thread ω ρ → Bool → Access ω
  | .write w _, true => .write w
  | .read _, true => .read
  | _, _ => .idle

/-- The thread after a cycle, on the answer of the device. -/
def after : Thread ω ρ → Bool → ρ → Thread ω ρ
  | .write _ rest, true, _ => rest
  | .read rest, true, r => rest r
  | t, _, _ => t

@[simp] theorem access_false (t : Thread ω ρ) : t.access false = .idle := by
  cases t <;> rfl

@[simp] theorem after_false (t : Thread ω ρ) (r : ρ) : t.after false r = t := by
  cases t <;> rfl

/-- All writes of the thread, whatever it reads, meet `W`. -/
def Only (W : ω → Prop) : Thread ω ρ → Prop
  | .done => True
  | .write w rest => W w ∧ Only W rest
  | .read rest => ∀ r, Only W (rest r)

theorem Only.after {W : ω → Prop} {t : Thread ω ρ} (h : Only W t) (go : Bool) (r : ρ) :
    Only W (t.after go r) := by
  cases go with
  | false => simpa using h
  | true =>
      cases t with
      | done => trivial
      | write w rest => exact h.2
      | read rest => exact h r

theorem Only.access {W : ω → Prop} {t : Thread ω ρ} (h : Only W t) {go : Bool} {w : ω}
    (hw : t.access go = .write w) : W w := by
  cases go with
  | false => simp at hw
  | true =>
      cases t with
      | done => cases hw
      | write w' rest =>
          cases hw
          exact h.1
      | read rest => cases hw

/-- Writes one after the other. -/
def writes : List ω → Thread ω ρ → Thread ω ρ
  | [], t => t
  | w :: ws, t => .write w (writes ws t)

theorem only_writes {W : ω → Prop} {t : Thread ω ρ} (ht : Only W t) :
    ∀ {ws : List ω}, (∀ w ∈ ws, W w) → Only W (writes ws t)
  | [], _ => ht
  | w :: _, h =>
      ⟨h w (List.mem_cons_self ..), only_writes ht fun w' hw' => h w' (List.mem_cons_of_mem _ hw')⟩

end Thread

/-! ## Interleaved runs -/

section Device

variable (tick : δ → η → Access ω → δ) (sense : δ → ρ)

/-- One clock cycle: the environment, and whether the thread goes on. -/
def cycle (x : Thread ω ρ × δ) (c : η × Bool) : Thread ω ρ × δ :=
  (x.1.after c.2 (sense x.2), tick x.2 c.1 (x.1.access c.2))

variable (Rely : δ → η → Access ω → Prop) (Inv : δ → Prop)

/-- An assertion inside the invariant that the device keeps while the thread waits. -/
structure Stable (P : δ → Prop) : Prop where
  inv : ∀ d, P d → Inv d
  wait : ∀ d e, Rely d e .idle → P d → P (tick d e .idle)

/-- From `P`, along stable assertions, to `Q`: every cycle is assumed to meet `Rely`. -/
def Outline (Q : δ → Prop) : Thread ω ρ → (δ → Prop) → Prop
  | .done, P => Stable tick Rely Inv P ∧ ∀ d, P d → Q d
  | .write w rest, P => Stable tick Rely Inv P ∧ ∃ R : δ → Prop,
      (∀ d e, Rely d e (.write w) → P d → R (tick d e (.write w))) ∧ Outline Q rest R
  | .read rest, P => Stable tick Rely Inv P ∧ ∃ R : ρ → δ → Prop,
      (∀ d e, Rely d e .read → P d → R (sense d) (tick d e .read)) ∧ ∀ r, Outline Q (rest r) (R r)

variable {tick sense Rely Inv} {Q : δ → Prop}

theorem Outline.stable {t : Thread ω ρ} {P : δ → Prop} (h : Outline tick sense Rely Inv Q t P) :
    Stable tick Rely Inv P := by
  cases t with
  | done => exact h.1
  | write w rest => exact h.1
  | read rest => exact h.1

/-- One cycle moves along the outline. -/
theorem outline_cycle {x : Thread ω ρ × δ} {c : η × Bool}
    (hrely : Rely x.2 c.1 (x.1.access c.2))
    (h : ∃ P, Outline tick sense Rely Inv Q x.1 P ∧ P x.2) :
    ∃ P, Outline tick sense Rely Inv Q (cycle tick sense x c).1 P ∧ P (cycle tick sense x c).2 := by
  rcases x with ⟨t, d⟩
  rcases c with ⟨e, go⟩
  obtain ⟨P, houtline, hP⟩ := h
  cases go with
  | false =>
      refine ⟨P, ?_, ?_⟩
      · simpa [cycle] using houtline
      · simp only [Thread.access_false] at hrely
        simpa [cycle] using houtline.stable.wait d e hrely hP
  | true =>
      cases t with
      | done => exact ⟨P, houtline, houtline.1.wait d e hrely hP⟩
      | write w rest =>
          obtain ⟨-, R, hwrite, hrest⟩ := houtline
          exact ⟨R, hrest, hwrite d e hrely hP⟩
      | read rest =>
          obtain ⟨-, R, hread, hrest⟩ := houtline
          exact ⟨R (sense d), hrest (sense d), hread d e hrely hP⟩

/-- On every schedule, the thread is at a point of its outline. -/
theorem outline_point {t : Thread ω ρ} {P : δ → Prop} {d : δ}
    (h : Outline tick sense Rely Inv Q t P) (hP : P d) (cs : List (η × Bool))
    (hrely : Along (cycle tick sense) (fun x c => Rely x.2 c.1 (x.1.access c.2)) (t, d) cs) :
    ∃ P', Outline tick sense Rely Inv Q (run (cycle tick sense) (t, d) cs).1 P' ∧
      P' (run (cycle tick sense) (t, d) cs).2 :=
  hrely.invariant (P := fun x => ∃ P, Outline tick sense Rely Inv Q x.1 P ∧ P x.2)
    (fun _ _ hc hx => outline_cycle hc hx) ⟨P, h, hP⟩

/-- So the invariant holds however far the thread is. -/
theorem outline_inv {t : Thread ω ρ} {P : δ → Prop} {d : δ} (h : Outline tick sense Rely Inv Q t P)
    (hP : P d) (cs : List (η × Bool))
    (hrely : Along (cycle tick sense) (fun x c => Rely x.2 c.1 (x.1.access c.2)) (t, d) cs) :
    Inv (run (cycle tick sense) (t, d) cs).2 := by
  obtain ⟨P', houtline, hP'⟩ := outline_point h hP cs hrely
  exact houtline.stable.inv _ hP'

/-- Soundness: once the thread is done the device meets the postcondition. -/
theorem outline_run {t : Thread ω ρ} {P : δ → Prop} {d : δ} (h : Outline tick sense Rely Inv Q t P)
    (hP : P d) (cs : List (η × Bool))
    (hrely : Along (cycle tick sense) (fun x c => Rely x.2 c.1 (x.1.access c.2)) (t, d) cs)
    (hdone : (run (cycle tick sense) (t, d) cs).1.isDone = true) :
    Q (run (cycle tick sense) (t, d) cs).2 := by
  obtain ⟨P', houtline, hP'⟩ := outline_point h hP cs hrely
  generalize run (cycle tick sense) (t, d) cs = x at *
  rcases x with ⟨t', d'⟩
  cases t' with
  | done => exact houtline.2 d' hP'
  | write w rest => cases hdone
  | read rest => cases hdone

/-! ## Programs one after the other -/

section Session

variable {σ o : Type*} (code : σ → o → Thread ω ρ) (next : σ → o → σ)

/-- A program on a schedule, from a memory and a device. -/
def perform (tick : δ → η → Access ω → δ) (sense : δ → ρ) (x : σ × δ)
    (p : o × List (η × Bool)) : σ × δ :=
  (next x.1 p.1, (run (cycle tick sense) (code x.1 p.1, x.2) p.2).2)

/-- The program has returned by the end of its schedule. -/
def Completes (tick : δ → η → Access ω → δ) (sense : δ → ρ) (x : σ × δ)
    (p : o × List (η × Bool)) : Prop :=
  (run (cycle tick sense) (code x.1 p.1, x.2) p.2).1.isDone = true

instance Completes.decidable (x : σ × δ) (p : o × List (η × Bool)) :
    Decidable (Completes code tick sense x p) :=
  inferInstanceAs (Decidable (_ = true))

end Session

/-! ## Rules -/

/-- Writes that all keep one assertion. -/
theorem outline_writes {P : δ → Prop} (hstable : Stable tick Rely Inv P) {t : Thread ω ρ} :
    ∀ {ws : List ω}, (∀ w ∈ ws, ∀ d e, Rely d e (.write w) → P d → P (tick d e (.write w))) →
      Outline tick sense Rely Inv Q t P → Outline tick sense Rely Inv Q (Thread.writes ws t) P
  | [], _, h => h
  | w :: _, hws, h =>
      ⟨hstable, P, hws w (List.mem_cons_self ..),
        outline_writes hstable (fun w' hw' => hws w' (List.mem_cons_of_mem _ hw')) h⟩

/-- The precondition may be strengthened to any stable assertion. -/
theorem Outline.pre {P P' : δ → Prop} {t : Thread ω ρ} (hstable : Stable tick Rely Inv P')
    (hP : ∀ d, P' d → P d) (h : Outline tick sense Rely Inv Q t P) :
    Outline tick sense Rely Inv Q t P' := by
  cases t with
  | done => exact ⟨hstable, fun d hd => h.2 d (hP d hd)⟩
  | write w rest =>
      obtain ⟨-, R, hwrite, hrest⟩ := h
      exact ⟨hstable, R, fun d e hr hd => hwrite d e hr (hP d hd), hrest⟩
  | read rest =>
      obtain ⟨-, R, hread, hrest⟩ := h
      exact ⟨hstable, R, fun d e hr hd => hread d e hr (hP d hd), hrest⟩

end Device

end Lib
end InfernoFpga
