import Mathlib.Data.List.Basic
import Mathlib.Data.List.Count
import Mathlib.Order.Basic
import Mathlib.Data.Nat.Init

/-!
# Run — runs of a deterministic machine, guards and observers

A machine is a next-state function `step : σ → ι → σ`.  This file collects what every
module about a concrete machine needs to speak about *whole runs*:

* `run step s is`, the state after a list of inputs;
* `Along step G s is`, "every step of the run meets the guard `G`";
* the induction rules that turn a step lemma into a run lemma;
* `moment step s is t`, the state after the first `t` inputs, and the rule that carries a
  property which names the time;
* `emitted step emit s is`, what the steps emit, and the rule that replays it;
* `Spared step key Loses s earlier is`, "no step loses a key that an earlier one set", and the
  rule that makes it exact;
* `watch step observe`, the machine together with an observer that records its history
  without influencing it.
-/

namespace InfernoFpga
namespace Lib

variable {σ ι γ : Type*}

/-! ## Runs -/

/-- The state reached from `s` on the inputs `is`. -/
def run (step : σ → ι → σ) (s : σ) (is : List ι) : σ :=
  is.foldl step s

section Run

variable (step : σ → ι → σ)

@[simp] theorem run_nil (s : σ) : run step s [] = s := rfl

@[simp] theorem run_cons (s : σ) (i : ι) (is : List ι) :
    run step s (i :: is) = run step (step s i) is := rfl

theorem run_append (s : σ) (is js : List ι) :
    run step s (is ++ js) = run step (run step s is) js := by
  simp [run, List.foldl_append]

theorem run_concat (s : σ) (is : List ι) (i : ι) :
    run step s (is ++ [i]) = step (run step s is) i := by
  simp [run_append]

/-- An invariant of every step is an invariant of every run. -/
theorem run_invariant {P : σ → Prop} (hstep : ∀ s i, P s → P (step s i)) :
    ∀ (is : List ι) {s : σ}, P s → P (run step s is)
  | [], _, h => h
  | i :: is, s, h => by
      have hnext : P (step s i) := hstep s i h
      simpa using run_invariant hstep is hnext

/-- Inputs of which `p` holds often enough, cut at the one that finds `n` of them before it. -/
theorem exists_cut_countP (p : ι → Bool) :
    ∀ (is : List ι) (n : Nat), n < is.countP p →
      ∃ before i after, is = before ++ i :: after ∧ p i = true ∧ before.countP p = n
  | [], n, h => absurd h (Nat.not_lt_zero n)
  | x :: l, n, h => by
      rw [List.countP_cons] at h
      cases hx : p x with
      | false =>
          rw [hx, if_neg (by simp), Nat.add_zero] at h
          obtain ⟨before, y, after, hsplit, hy, hcount⟩ := exists_cut_countP p l n h
          refine ⟨x :: before, y, after, by rw [hsplit, List.cons_append], hy, ?_⟩
          rw [List.countP_cons, hx, if_neg (by simp), Nat.add_zero, hcount]
      | true =>
          rw [hx, if_pos rfl] at h
          cases n with
          | zero => exact ⟨[], x, l, rfl, hx, rfl⟩
          | succ n =>
              obtain ⟨before, y, after, hsplit, hy, hcount⟩ :=
                exists_cut_countP p l n (Nat.lt_of_succ_lt_succ h)
              refine ⟨x :: before, y, after, by rw [hsplit, List.cons_append], hy, ?_⟩
              rw [List.countP_cons, hx, if_pos rfl, hcount]

/-- Two machines related step by step stay related along every run. -/
theorem run_simulation {σ' : Type*} {step' : σ' → ι → σ'} {R : σ → σ' → Prop}
    (hstep : ∀ s t i, R s t → R (step s i) (step' t i)) :
    ∀ (is : List ι) {s : σ} {t : σ'}, R s t → R (run step s is) (run step' t is)
  | [], _, _, h => h
  | i :: is, s, t, h => by
      have hnext := hstep s t i h
      simpa using run_simulation hstep is hnext

end Run

/-! ## Guarded runs -/

/-- Every step of the run from `s` on `is` meets the guard `G`. -/
def Along (step : σ → ι → σ) (G : σ → ι → Prop) : σ → List ι → Prop
  | _, [] => True
  | s, i :: is => G s i ∧ Along step G (step s i) is

instance Along.decidable (step : σ → ι → σ) (G : σ → ι → Prop) [∀ s i, Decidable (G s i)] :
    ∀ (is : List ι) (s : σ), Decidable (Along step G s is)
  | [], _ => inferInstanceAs (Decidable True)
  | i :: is, s =>
      have := Along.decidable step G is (step s i)
      inferInstanceAs (Decidable (G s i ∧ Along step G (step s i) is))

namespace Along

variable {step : σ → ι → σ} {G H : σ → ι → Prop} {s : σ} {i : ι} {is js : List ι}

@[simp] theorem nil : Along step G s [] := trivial

@[simp] theorem cons_iff :
    Along step G s (i :: is) ↔ G s i ∧ Along step G (step s i) is := Iff.rfl

theorem append_iff :
    Along step G s (is ++ js) ↔
      Along step G s is ∧ Along step G (run step s is) js := by
  induction is generalizing s with
  | nil => simp
  | cons i is ih => simp [ih, and_assoc]

theorem mono (h : Along step G s is) (hGH : ∀ s i, G s i → H s i) :
    Along step H s is := by
  induction is generalizing s with
  | nil => trivial
  | cons i is ih => exact ⟨hGH _ _ h.1, ih h.2⟩

theorem and (h : Along step G s is) (h' : Along step H s is) :
    Along step (fun s i => G s i ∧ H s i) s is := by
  induction is generalizing s with
  | nil => trivial
  | cons i is ih => exact ⟨⟨h.1, h'.1⟩, ih h.2 h'.2⟩

/-- A property kept by every guarded step holds at the end of every guarded run. -/
theorem invariant {P : σ → Prop} (hstep : ∀ s i, G s i → P s → P (step s i))
    (h : Along step G s is) (hs : P s) : P (run step s is) := by
  induction is generalizing s with
  | nil => exact hs
  | cons i is ih => exact ih h.2 (hstep s i h.1 hs)

/-- Guards that agree wherever a third one holds agree along a run that meets the third. -/
theorem congr {K : σ → ι → Prop} (h : Along step K s is) (hGH : ∀ s i, K s i → (G s i ↔ H s i)) :
    Along step G s is ↔ Along step H s is :=
  ⟨fun hG => (hG.and h).mono fun s i hi => (hGH s i hi.2).1 hi.1,
    fun hH => (hH.and h).mono fun s i hi => (hGH s i hi.2).2 hi.1⟩

/-- Along a guarded run an invariant of the guarded steps may be added to the guard. -/
theorem strengthen {P : σ → Prop} (hstep : ∀ s i, G s i → P s → P (step s i))
    (h : Along step G s is) (hs : P s) :
    Along step (fun s i => G s i ∧ P s) s is := by
  induction is generalizing s with
  | nil => trivial
  | cons i is ih => exact ⟨⟨h.1, hs⟩, ih h.2 (hstep s i h.1 hs)⟩

theorem of_forall (h : ∀ s i, G s i) : ∀ (is : List ι) (s : σ), Along step G s is
  | [], _ => trivial
  | i :: is, s => ⟨h s i, of_forall h is (step s i)⟩

/-- A guard that only reads the input holds along a run of inputs that all meet it. -/
theorem of_inputs {K : ι → Prop} :
    ∀ {is : List ι} {s : σ}, (∀ i ∈ is, K i) → Along step (fun _ i => K i) s is
  | [], _, _ => trivial
  | i :: is, s, h =>
      ⟨h i (by simp), of_inputs fun j hj => h j (by simp [hj])⟩

/-- The guard holds along the run iff it holds at the end of every proper prefix. -/
theorem iff_prefix :
    Along step G s is ↔ ∀ js i, js ++ [i] <+: is → G (run step s js) i := by
  constructor
  · rintro h js i ⟨ks, rfl⟩
    rw [append_iff, append_iff] at h
    exact h.1.2.1
  · intro h
    induction is generalizing s with
    | nil => trivial
    | cons i is ih =>
        refine ⟨h [] i ⟨is, rfl⟩, ih fun js j hjs => ?_⟩
        obtain ⟨ks, rfl⟩ := hjs
        exact h (i :: js) j ⟨ks, by simp⟩

end Along

/-! ## Moments of a run -/

/-- The state after the first `t` inputs. -/
def moment (step : σ → ι → σ) (s : σ) (is : List ι) (t : Nat) : σ :=
  run step s (is.take t)

section Moment

variable {step : σ → ι → σ} {s : σ} {is : List ι} {t : Nat} {i : ι}

@[simp] theorem moment_zero : moment step s is 0 = s := rfl

theorem moment_length : moment step s is is.length = run step s is := by
  rw [moment, List.take_length]

theorem moment_succ (h : is[t]? = some i) :
    moment step s is (t + 1) = step (moment step s is t) i := by
  have htake : is.take (t + 1) = is.take t ++ [i] := by
    rw [List.take_add_one, h]
    rfl
  rw [moment, htake, run_concat]
  rfl

theorem Along.at_moment {G : σ → ι → Prop} (h : Along step G s is) (hi : is[t]? = some i) :
    G (moment step s is t) i := by
  refine Along.iff_prefix.1 h (is.take t) i ⟨is.drop (t + 1), ?_⟩
  have htake : is.take (t + 1) = is.take t ++ [i] := by
    rw [List.take_add_one, hi]
    rfl
  rw [← htake, List.take_append_drop]

/-- A property that may name the time is carried from one moment to the next. -/
theorem Along.timed {G : σ → ι → Prop} {P : Nat → σ → Prop} {b : Nat} (h : Along step G s is)
    (hb : b ≤ is.length) (hstart : P 0 s)
    (hstep : ∀ t i, t < b → G (moment step s is t) i → P t (moment step s is t) →
      P (t + 1) (step (moment step s is t) i)) : ∀ t ≤ b, P t (moment step s is t) := by
  intro t ht
  induction t with
  | zero => exact hstart
  | succ t ih =>
    have hi : is[t]? = some (is.get ⟨t, by omega⟩) := List.getElem?_eq_getElem (by omega)
    rw [moment_succ hi]
    exact hstep t _ (by omega) (h.at_moment hi) (ih (by omega))

/-- A property that a step keeps exactly when it meets a guard holds at every moment of a run
exactly when every step of the run meets the guard. -/
theorem kept_iff_along {P Inv : σ → Prop} {G : σ → ι → Prop}
    (hinv : ∀ s i, Inv s → P s → P (step s i) → Inv (step s i))
    (hkept : ∀ s i, Inv s → P s → (P (step s i) ↔ G s i)) :
    ∀ (is : List ι) {s : σ}, Inv s → P s →
      ((∀ t ≤ is.length, P (moment step s is t)) ↔ Along step G s is)
  | [], s, _, hP => by simp [hP]
  | i :: is, s, hs, hP => by
      have hrest := fun hnext : P (step s i) =>
        kept_iff_along hinv hkept is (hinv s i hs hP hnext) hnext
      constructor
      · intro h
        have hnext : P (step s i) := h 1 (by simp)
        refine ⟨(hkept s i hs hP).1 hnext, (hrest hnext).1 fun t ht => ?_⟩
        exact h (t + 1) (by simpa using ht)
      · intro h t ht
        have hnext : P (step s i) := (hkept s i hs hP).2 h.1
        cases t with
        | zero => exact hP
        | succ t => exact (hrest hnext).2 h.2 t (by simpa using ht)

/-- A measure that no step of a run lowers is ordered between any two moments of it. -/
theorem monotone_iff_along {β : Type*} [Preorder β] (f : σ → β) :
    (∀ t t', t ≤ t' → t' ≤ is.length → f (moment step s is t) ≤ f (moment step s is t')) ↔
      Along step (fun s i => f s ≤ f (step s i)) s is := by
  constructor
  · intro h
    rw [Along.iff_prefix]
    rintro js i ⟨ks, rfl⟩
    have hstep := h js.length (js.length + 1) (Nat.le_succ _) (by simp)
    rw [moment_succ (i := i) (by simp), moment] at hstep
    simpa using hstep
  · intro h t t' htt' ht'
    induction t', htt' using Nat.le_induction with
    | base => exact le_rfl
    | succ t' _ ih =>
        have hi : is[t']? = some (is.get ⟨t', ht'⟩) := List.getElem?_eq_getElem ht'
        rw [moment_succ hi]
        exact (ih (Nat.le_of_succ_le ht')).trans (h.at_moment hi)

end Moment

/-! ## Logs -/

/-- A machine that appends to a log at every step: under an invariant, all entries of the log
are good after a run iff those before it are and every step of the run met the guard that makes
its own entries good. -/
theorem log_iff_along {α : Type*} {step : σ → ι → σ} (log : σ → List α) (Good : α → Prop)
    {new : σ → ι → List α} {Inv : σ → Prop} {G : σ → ι → Prop}
    (happ : ∀ s i, Inv s → log (step s i) = log s ++ new s i)
    (hinv : ∀ s i, Inv s → Inv (step s i))
    (hgood : ∀ s i, Inv s → ((∀ x ∈ new s i, Good x) ↔ G s i)) :
    ∀ (is : List ι) {s : σ}, Inv s →
      ((∀ x ∈ log (run step s is), Good x) ↔ (∀ x ∈ log s, Good x) ∧ Along step G s is)
  | [], s, _ => by simp
  | i :: is, s, hs => by
      have hrest := log_iff_along log Good happ hinv hgood is (hinv s i hs)
      rw [run_cons, hrest, happ s i hs, List.forall_mem_append, hgood s i hs, Along.cons_iff, and_assoc]

/-! ## Replays -/

/-- What the steps of a run emit, one after the other. -/
def emitted {α : Type*} (step : σ → ι → σ) (emit : σ → ι → List α) : σ → List ι → List α
  | _, [] => []
  | s, i :: is => emit s i ++ emitted step emit (step s i) is

theorem emitted_concat {α : Type*} (step : σ → ι → σ) (emit : σ → ι → List α) (s : σ)
    (is : List ι) (i : ι) :
    emitted step emit s (is ++ [i]) = emitted step emit s is ++ emit (run step s is) i := by
  induction is generalizing s with
  | nil => exact List.append_nil _
  | cons j is ih => rw [List.cons_append, emitted, ih, emitted, run_cons, List.append_assoc]

/-- A view of the state that every step changes by what it emits is, after a run, what all that was
emitted makes of it. -/
theorem Along.replay {α ρ : Type*} {step : σ → ι → σ} {G : σ → ι → Prop} {s : σ} {is : List ι}
    {emit : σ → ι → List α} {view : σ → ρ} {upd : ρ → α → ρ} {Inv : σ → Prop}
    (hinv : ∀ s i, G s i → Inv s → Inv (step s i))
    (hview : ∀ s i, G s i → Inv s → view (step s i) = (emit s i).foldl upd (view s))
    (h : Along step G s is) (hs : Inv s) :
    view (run step s is) = (emitted step emit s is).foldl upd (view s) := by
  induction is generalizing s with
  | nil => rfl
  | cons i is ih =>
      have hrest := ih h.2 (hinv s i h.1 hs)
      rw [run_cons, hrest, hview s i h.1 hs, emitted, List.foldl_append]

/-! ## What later steps leave standing -/

section Spared

variable {κ : Type*}

/-- No step of the run loses a key that is already set and that no later step sets again.
`earlier` are the keys set before. -/
def Spared (step : σ → ι → σ) (key : ι → κ) (Loses : σ → ι → κ → Prop) :
    σ → List κ → List ι → Prop
  | _, _, [] => True
  | s, earlier, i :: is =>
      (∀ k ∈ earlier, k ∉ is.map key → ¬ Loses s i k) ∧
        Spared step key Loses (step s i) (earlier ++ [key i]) is

/-- Steps that each set a key, and may lose others. -/
structure Setting (step : σ → ι → σ) (key : ι → κ) (Loses : σ → ι → κ → Prop)
    (Inv : σ → Prop) (Holds : σ → κ → Prop) : Prop where
  inv : ∀ s i, Inv s → Inv (step s i)
  sets : ∀ s i, Inv s → Holds (step s i) (key i)
  keeps : ∀ s i k, Inv s → Holds s k → ¬ Loses s i k → Holds (step s i) k
  loses : ∀ s i k, Inv s → Loses s i k → ¬ Holds (step s i) k
  others : ∀ s i k, Inv s → k ≠ key i → ¬ Holds s k → ¬ Holds (step s i) k

namespace Setting

variable {step : σ → ι → σ} {key : ι → κ} {Loses : σ → ι → κ → Prop} {Inv : σ → Prop}
  {Holds : σ → κ → Prop}

/-- A key that no step sets is not set by the run. -/
theorem absent (h : Setting step key Loses Inv Holds) {k : κ} :
    ∀ (is : List ι) {s : σ}, Inv s → k ∉ is.map key → ¬ Holds s k → ¬ Holds (run step s is) k
  | [], _, _, _, hk => hk
  | i :: is, s, hs, hnot, hk => by
      rw [List.map_cons, List.mem_cons, not_or] at hnot
      exact h.absent is (h.inv s i hs) hnot.2 (h.others s i k hs hnot.1 hk)

/-- Every key that was set is there at the end exactly if the run spares it. -/
theorem holds_iff_spared (h : Setting step key Loses Inv Holds) :
    ∀ (is : List ι) {s : σ} {earlier : List κ}, Inv s →
      (∀ k ∈ earlier, k ∉ is.map key → Holds s k) →
      ((∀ k ∈ earlier ++ is.map key, Holds (run step s is) k) ↔
        Spared step key Loses s earlier is)
  | [], s, earlier, _, hset => by
      rw [List.map_nil, List.append_nil]
      exact ⟨fun _ => trivial, fun _ k hk => hset k hk List.not_mem_nil⟩
  | i :: is, s, earlier, hs, hset => by
      have hassoc : earlier ++ (i :: is).map key = (earlier ++ [key i]) ++ is.map key := by
        rw [List.map_cons, List.append_assoc, List.singleton_append]
      -- what the step does not lose is there for the rest of the run
      have hstep : (∀ k ∈ earlier, k ∉ is.map key → ¬ Loses s i k) →
          ∀ k ∈ earlier ++ [key i], k ∉ is.map key → Holds (step s i) k := by
        intro hspared k hk hnot
        by_cases heq : k = key i
        · rw [heq]
          exact h.sets s i hs
        have hold : k ∈ earlier := by
          rcases List.mem_append.1 hk with hk | hk
          · exact hk
          · exact absurd (List.mem_singleton.1 hk) heq
        refine h.keeps s i k hs (hset k hold ?_) (hspared k hold hnot)
        rw [List.map_cons, List.mem_cons, not_or]
        exact ⟨heq, hnot⟩
      rw [hassoc, run_cons, Spared]
      constructor
      · intro hend
        have hspared : ∀ k ∈ earlier, k ∉ is.map key → ¬ Loses s i k := by
          intro k hk hnot hlost
          refine h.absent is (h.inv s i hs) hnot (h.loses s i k hs hlost) (hend k ?_)
          exact List.mem_append_left _ (List.mem_append_left _ hk)
        exact ⟨hspared, (h.holds_iff_spared is (h.inv s i hs) (hstep hspared)).1 hend⟩
      · rintro ⟨hspared, hrest⟩
        exact (h.holds_iff_spared is (h.inv s i hs) (hstep hspared)).2 hrest

end Setting

end Spared

/-! ## Observers -/

/-- The machine and an observer of it: the observer sees every step and never acts. -/
def watch (step : σ → ι → σ) (observe : σ → ι → γ → γ) (p : σ × γ) (i : ι) : σ × γ :=
  (step p.1 i, observe p.1 i p.2)

section Watch

variable (step : σ → ι → σ) (observe : σ → ι → γ → γ)

@[simp] theorem watch_fst (p : σ × γ) (i : ι) :
    (watch step observe p i).1 = step p.1 i := rfl

@[simp] theorem watch_snd (p : σ × γ) (i : ι) :
    (watch step observe p i).2 = observe p.1 i p.2 := rfl

/-- Watching a run does not change it. -/
theorem run_watch_fst (is : List ι) (p : σ × γ) :
    (run (watch step observe) p is).1 = run step p.1 is :=
  run_simulation (R := fun p s => p.1 = s) (watch step observe) 
    (by rintro p s i rfl; rfl) is rfl

theorem moment_watch_fst (is : List ι) (p : σ × γ) (t : Nat) :
    (moment (watch step observe) p is t).1 = moment step p.1 is t :=
  run_watch_fst step observe (is.take t) p

variable {step observe}

/-- A guard on the machine alone does not care who watches. -/
theorem along_watch {G : σ → ι → Prop} :
    ∀ {is : List ι} {p : σ × γ}, Along step G p.1 is →
      Along (watch step observe) (fun p i => G p.1 i) p is
  | [], _, _ => trivial
  | _ :: _, p, h => ⟨h.1, along_watch (p := watch step observe p _) h.2⟩

end Watch

section Both

variable {γ' : Type*} (step : σ → ι → σ) (observe : σ → ι → γ → γ) (observe' : σ → ι → γ' → γ')

/-- Two observers of one machine, side by side. -/
def both (s : σ) (i : ι) (o : γ × γ') : γ × γ' := (observe s i o.1, observe' s i o.2)

/-- Neither sees that the other one watches. -/
theorem run_both (is : List ι) (s : σ) (o : γ) (o' : γ') :
    run (watch step (both observe observe')) (s, o, o') is =
      (run step s is, (run (watch step observe) (s, o) is).2,
        (run (watch step observe') (s, o') is).2) := by
  induction is generalizing s o o' with
  | nil => rfl
  | cons i is ih => exact ih (step s i) (observe s i o) (observe' s i o')

variable {step observe observe'}

theorem along_both_fst {G : σ × γ → ι → Prop} {is : List ι} {s : σ} {o : γ} (o' : γ')
    (h : Along (watch step observe) G (s, o) is) :
    Along (watch step (both observe observe')) (fun p i => G (p.1, p.2.1) i) (s, o, o') is := by
  induction is generalizing s o o' with
  | nil => trivial
  | cons i is ih => exact ⟨h.1, ih (observe' s i o') h.2⟩

end Both

end Lib
end InfernoFpga
