import InfernoFpga.Firmware.PtpLock

/-!
# Outliers — what a wild sample has touched before the gate stops it

`servo_update` integrates before it looks whether the sample is wild.  The only thing that keeps a
wild sample out of the integral is the anti-windup band, which is fifty times as wide as the gate;
so what the gate lets through depends on the tuning.  `Unsteered` says exactly when it is nothing.
-/

namespace InfernoFpga
namespace Firmware
namespace Ptpv1

open Lib

/-! ## The rate -/

/-- The rate state: both forms of the integral, the addend and the published rate. -/
structure Rate where
  freqIntegral : Int
  freqIntegralNum : Int
  currentAddend : Int
  ratePpb : Int
  deriving DecidableEq

def rateOf (s : Servo) : Rate :=
  ⟨s.freqIntegral, s.freqIntegralNum, s.currentAddend, s.ratePpb⟩

/-- What one filtered offset makes of the rate, with the tuning and the nominal addend of `s`. -/
def rateStep (s : Servo) (r : Rate) (filtered : Int) : Rate :=
  rateOf (steer (integrate
    { s with
      freqIntegral := r.freqIntegral
      freqIntegralNum := r.freqIntegralNum
      currentAddend := r.currentAddend
      ratePpb := r.ratePpb } filtered) filtered)

/-- An update made while locked, past the step, acquisition and phase-correction branches. -/
def Tracked (s : Servo) : Event → Prop
  | .measure _ _ offset _ => s.locked = true ∧ filters s offset = true
  | .delay _ => True
  | .tune _ _ _ => False
  | .sync _ => True

instance (s : Servo) : ∀ e, Decidable (Tracked s e)
  | .measure _ _ _ _ => inferInstanceAs (Decidable (_ ∧ _))
  | .delay _ => inferInstanceAs (Decidable True)
  | .tune _ _ _ => inferInstanceAs (Decidable False)
  | .sync _ => inferInstanceAs (Decidable True)

/-- The filtered offset of an update that is not stopped at the gate. -/
def passed (s : Servo) : Event → List Int
  | .measure _ _ offset _ =>
      if isSpike s (filteredOf s offset) then [] else [filteredOf s offset]
  | _ => []

/-! ## The condition -/

/-- The integral takes nothing of a filtered offset: it is outside the anti-windup band, or the
exact form adds nothing or is at its rail, or the truncating form adds what its accumulator is
ahead of the integral. -/
def Unsteered (s : Servo) (filtered : Int) : Prop :=
  (1000000 ≤ filtered ∨ filtered ≤ -1000000) ∨
    if s.rtExactInteg then
      -filtered * s.rtKiNum = 0 ∨
        (s.freqIntegralNum = servoIntegralMax * servoKiDen ∧ 0 ≤ -filtered * s.rtKiNum) ∨
        (s.freqIntegralNum = -(servoIntegralMax * servoKiDen) ∧ -filtered * s.rtKiNum ≤ 0)
    else
      (s.freqIntegral + (-filtered * s.rtKiNum).tdiv servoKiDen) * servoKiDen = s.freqIntegralNum

instance (s : Servo) (filtered : Int) : Decidable (Unsteered s filtered) :=
  inferInstanceAs (Decidable ((_ ∨ _) ∨ _))

/-- A wild sample takes nothing with it. -/
def Isolates (s : Servo) : Event → Prop
  | .measure _ _ offset _ =>
      isSpike s (filteredOf s offset) = true → Unsteered s (filteredOf s offset)
  | _ => True

instance (s : Servo) : ∀ e, Decidable (Isolates s e)
  | .measure _ _ _ _ => inferInstanceAs (Decidable (_ → _))
  | .delay _ => inferInstanceAs (Decidable True)
  | .tune _ _ _ => inferInstanceAs (Decidable True)
  | .sync _ => inferInstanceAs (Decidable True)

/-! ## The two forms of the integral agree -/

/-- The integral is the accumulator divided down; the truncating form may have overshot the rail. -/
structure Coherent (s : Servo) : Prop where
  bounded : -servoIntegralMax ≤ s.freqIntegral ∧ s.freqIntegral ≤ servoIntegralMax
  exact : s.rtExactInteg = true →
    (-(servoIntegralMax * servoKiDen) ≤ s.freqIntegralNum ∧
      s.freqIntegralNum ≤ servoIntegralMax * servoKiDen) ∧
    s.freqIntegral = s.freqIntegralNum.tdiv servoKiDen
  truncating : s.rtExactInteg = false →
    ∃ u, s.freqIntegralNum = u * servoKiDen ∧ s.freqIntegral = clamp servoIntegralMax u

theorem clamp_bounded {m : Int} (hm : 0 ≤ m) (x : Int) : -m ≤ clamp m x ∧ clamp m x ≤ m := by
  rw [clamp]
  split
  · omega
  · split <;> omega

theorem clamp_of_bounded {m x : Int} (hlow : -m ≤ x) (hhigh : x ≤ m) : clamp m x = x := by
  rw [clamp, if_neg (by omega), if_neg (by omega)]

/-- Adding to an accumulator within its rails leaves it as it is when nothing is added, or when it
is pushed against the rail it is at. -/
theorem clamp_add_eq_self {m x d : Int} (hlow : -m ≤ x) (hhigh : x ≤ m) :
    clamp m (x + d) = x ↔ d = 0 ∨ (x = m ∧ 0 ≤ d) ∨ (x = -m ∧ d ≤ 0) := by
  rw [clamp]
  split
  · omega
  · split <;> omega

/-- An accumulator within its rails divides down to an integral within its own. -/
theorem tdiv_bounded {num : Int} (hlow : -(servoIntegralMax * servoKiDen) ≤ num)
    (hhigh : num ≤ servoIntegralMax * servoKiDen) :
    -servoIntegralMax ≤ num.tdiv servoKiDen ∧ num.tdiv servoKiDen ≤ servoIntegralMax := by
  have hden : (0 : Int) < servoKiDen := by decide
  have hup := Int.tdiv_le_tdiv hden hhigh
  have hdown := Int.tdiv_le_tdiv hden hlow
  rw [Int.mul_tdiv_cancel _ hden.ne'] at hup
  rw [← Int.neg_mul, Int.mul_tdiv_cancel _ hden.ne'] at hdown
  exact ⟨hdown, hup⟩

section Coherence

variable {s : Servo}

/-- An integral that was just set, and its accumulator with it. -/
theorem coherent_seed (fi : Int) (hlow : -servoIntegralMax ≤ fi) (hhigh : fi ≤ servoIntegralMax)
    (hfi : s.freqIntegral = fi) (hnum : s.freqIntegralNum = fi * servoKiDen) : Coherent s := by
  have hden : (0 : Int) < servoKiDen := by decide
  refine ⟨by rw [hfi]; exact ⟨hlow, hhigh⟩, fun _ => ⟨?_, ?_⟩, fun _ => ⟨fi, hnum, ?_⟩⟩
  · rw [hnum, ← Int.neg_mul]
    exact ⟨Int.mul_le_mul_of_nonneg_right hlow hden.le, Int.mul_le_mul_of_nonneg_right hhigh hden.le⟩
  · rw [hfi, hnum, Int.mul_tdiv_cancel _ hden.ne']
  · rw [hfi, clamp_of_bounded hlow hhigh]

/-- What leaves integral, accumulator and form alone keeps them coherent. -/
theorem Coherent.of_fields {s' : Servo} (h : Coherent s) (hfi : s'.freqIntegral = s.freqIntegral)
    (hnum : s'.freqIntegralNum = s.freqIntegralNum) (hform : s'.rtExactInteg = s.rtExactInteg) :
    Coherent s' := by
  refine ⟨?_, ?_, ?_⟩
  · rw [hfi]
    exact h.bounded
  · rw [hfi, hnum, hform]
    exact h.exact
  · rw [hfi, hnum, hform]
    exact h.truncating

theorem coherent_integrate (h : Coherent s) (filtered : Int) : Coherent (integrate s filtered) := by
  have hrail : (0 : Int) ≤ servoIntegralMax * servoKiDen := by decide
  have hmax : (0 : Int) ≤ servoIntegralMax := by decide
  rw [integrate]
  split
  · split
    · rename_i hform
      have hnum := clamp_bounded hrail (s.freqIntegralNum + -filtered * s.rtKiNum)
      have hfi := tdiv_bounded hnum.1 hnum.2
      refine ⟨clamp_bounded hmax _, fun _ => ⟨hnum, clamp_of_bounded hfi.1 hfi.2⟩, fun hoff => ?_⟩
      rw [hform] at hoff
      cases hoff
    · rename_i hform
      refine ⟨clamp_bounded hmax _, fun hon => absurd hon hform, fun _ => ⟨_, rfl, rfl⟩⟩
  · exact h

theorem streaks_rate (s : Servo) (filtered : Int) (now : UInt32) :
    rateOf (streaks s filtered now) = rateOf s ∧
      (streaks s filtered now).rtExactInteg = s.rtExactInteg ∧
      (streaks s filtered now).rtKiNum = s.rtKiNum ∧
      (streaks s filtered now).baseAddend = s.baseAddend := by
  rcases streaks_eq s filtered now with ⟨unlock, lock, locked, cfg, h⟩
  rw [h]
  exact ⟨rfl, rfl, rfl, rfl⟩

/-- Whatever has the same rate and the same form of the integral. -/
theorem Coherent.of_rate {s' : Servo} (h : Coherent s) (hrate : rateOf s' = rateOf s)
    (hform : s'.rtExactInteg = s.rtExactInteg) : Coherent s' :=
  h.of_fields (congrArg Rate.freqIntegral hrate) (congrArg Rate.freqIntegralNum hrate) hform

theorem coherent_acquire (h : Coherent s) (t1 t2 : Timestamp) (offset : Int) :
    Coherent (acquire s t1 t2 offset).1 := by
  have hmax : (0 : Int) ≤ servoIntegralMax := by decide
  rw [acquire]
  split
  · exact h.of_fields rfl rfl rfl
  · dsimp only
    split
    · exact h
    · have hfi := clamp_bounded hmax
      exact coherent_seed _ (hfi _).1 (hfi _).2 rfl rfl

theorem coherent_servoUpdate (h : Coherent s) (t1 t2 : Timestamp) (offset : Int) (now : UInt32) :
    Coherent (servoUpdate s t1 t2 offset now).1 := by
  have hrecord : Coherent (recordOffset s offset) := h.of_fields rfl rfl rfl
  rw [servoUpdate]
  split
  · exact hrecord.of_fields rfl rfl rfl
  · split
    · exact coherent_acquire hrecord t1 t2 offset
    · split
      · exact hrecord.of_fields rfl rfl rfl
      · have hpush : Coherent (pushMedian (recordOffset s offset) offset) :=
          hrecord.of_fields rfl rfl rfl
        have hint := coherent_integrate hpush (filteredOf (recordOffset s offset) offset)
        rw [track]
        generalize integrate (pushMedian (recordOffset s offset) offset)
          (filteredOf (recordOffset s offset) offset) = s' at hint ⊢
        generalize filteredOf (recordOffset s offset) offset = filtered
        dsimp only
        split
        · exact hint
        · have hsteer : Coherent (steer s' filtered) := hint.of_fields rfl rfl rfl
          obtain ⟨hrate, hform, -, -⟩ := streaks_rate (steer s' filtered) filtered now
          have hstreaks : Coherent (streaks (steer s' filtered) filtered now) :=
            hsteer.of_rate hrate hform
          simpa only using hstreaks

theorem acceptDelay_rate (s : Servo) (d : Int) :
    rateOf (acceptDelay s d) = rateOf s ∧ (acceptDelay s d).rtExactInteg = s.rtExactInteg ∧
      (acceptDelay s d).rtKiNum = s.rtKiNum ∧ (acceptDelay s d).baseAddend = s.baseAddend := by
  rw [acceptDelay]
  split
  · rw [delaySample]
    split <;> exact ⟨rfl, rfl, rfl, rfl⟩
  · exact ⟨rfl, rfl, rfl, rfl⟩

/-- A path-delay measurement leaves the rate and the tuning alone. -/
theorem delayResp_rate (s : Servo) (d : Int) :
    rateOf (delayResp s d) = rateOf s ∧ (delayResp s d).rtExactInteg = s.rtExactInteg ∧
      (delayResp s d).rtKiNum = s.rtKiNum ∧ (delayResp s d).baseAddend = s.baseAddend := by
  rw [delayResp]
  split
  · exact ⟨rfl, rfl, rfl, rfl⟩
  · exact acceptDelay_rate s _

theorem firstSync_rate (s : Servo) (now : UInt32) :
    rateOf (firstSync s now) = rateOf s ∧ (firstSync s now).rtExactInteg = s.rtExactInteg ∧
      (firstSync s now).rtKiNum = s.rtKiNum ∧ (firstSync s now).baseAddend = s.baseAddend := by
  rw [firstSync]
  split <;> exact ⟨rfl, rfl, rfl, rfl⟩

theorem coherent_step (h : Coherent s) : ∀ e, Coherent (step s e)
  | .measure t1 t2 offset now => coherent_servoUpdate h t1 t2 offset now
  | .delay d => h.of_rate (delayResp_rate s d).1 (delayResp_rate s d).2.1
  | .tune _ _ _ => coherent_seed _ h.bounded.1 h.bounded.2 rfl rfl
  | .sync now => h.of_rate (firstSync_rate s now).1 (firstSync_rate s now).2.1

/-- A stored addend that is taken is within 200 ppm of nominal. -/
theorem coherent_init (cfgAddend : Option Int) : Coherent (init cfgAddend) := by
  have hbase : baseAddendFull = 90071993 := by decide
  have hlim : baseAddendFull.tdiv 5000 = 18014 := by decide
  have hcold : (0 : Int) = 0 * servoKiDen := by decide
  have hmax : (0 : Int) < servoIntegralMax := by decide
  unfold init
  cases cfgAddend with
  | none => exact coherent_seed 0 (by decide) (by decide) rfl hcold
  | some warm =>
    dsimp only
    split
    · rename_i hwarm
      rw [hlim] at hwarm
      have hpos : (0 : Int) < baseAddendFull := by decide
      have hup : (warm - baseAddendFull) * 1000000000 ≤ servoIntegralMax * baseAddendFull := by
        simp only [hbase, servoIntegralMax] at *
        omega
      have hdown : -servoIntegralMax * baseAddendFull ≤ (warm - baseAddendFull) * 1000000000 := by
        simp only [hbase, servoIntegralMax] at *
        omega
      have hhigh := Int.tdiv_le_tdiv hpos hup
      have hlow := Int.tdiv_le_tdiv hpos hdown
      rw [Int.mul_tdiv_cancel _ hpos.ne'] at hhigh hlow
      exact coherent_seed _ hlow hhigh rfl rfl
    · exact coherent_seed 0 (by decide) (by decide) rfl hcold

theorem coherent_servoAfter (cfgAddend : Option Int) (es : List Event) :
    Coherent (servoAfter cfgAddend es).1 := by
  rw [servoAfter, watched, run_watch_fst]
  exact run_invariant (P := Coherent) step (fun s e h => coherent_step h e) es
    (coherent_init cfgAddend)

end Coherence

/-! ## One update -/

section Update

variable {s : Servo} {t1 t2 : Timestamp} {offset filtered : Int} {now : UInt32}

/-- The integral is left as it is exactly when it takes nothing. -/
theorem integrate_rate_iff (h : Coherent s) :
    rateOf (integrate s filtered) = rateOf s ↔ Unsteered s filtered := by
  have hden : (0 : Int) < servoKiDen := by decide
  rw [integrate, Unsteered]
  by_cases hband : filtered < 1000000 ∧ filtered > -1000000
  · rw [if_pos hband]
    have hinside : ¬ (1000000 ≤ filtered ∨ filtered ≤ -1000000) := by omega
    cases hform : s.rtExactInteg with
    | true =>
      obtain ⟨⟨hlow, hhigh⟩, hfi⟩ := h.exact hform
      simp only [if_true, hinside, false_or]
      rw [← clamp_add_eq_self hlow hhigh]
      constructor
      · exact fun hrate => congrArg Rate.freqIntegralNum hrate
      · intro hnum
        have hrails := tdiv_bounded hlow hhigh
        rw [hnum, clamp_of_bounded hrails.1 hrails.2, ← hfi]
        rfl
    | false =>
      obtain ⟨u, hu, hfi⟩ := h.truncating hform
      simp only [Bool.false_eq_true, if_false, hinside, false_or]
      constructor
      · exact fun hrate => congrArg Rate.freqIntegralNum hrate
      · intro hnum
        have hsame : s.freqIntegral + (-filtered * s.rtKiNum).tdiv servoKiDen = u :=
          Int.eq_of_mul_eq_mul_right hden.ne' (hnum.trans hu)
        rw [hsame, ← hfi, ← hu]
        rfl
  · have houtside : 1000000 ≤ filtered ∨ filtered ≤ -1000000 := by omega
    rw [if_neg hband]
    exact ⟨fun _ => Or.inl houtside, fun _ => rfl⟩

/-- A sample that is stopped at the gate issues no command. -/
theorem commands_of_spike (h : filters s offset = true)
    (hspike : isSpike s (filteredOf s offset) = true) :
    commands s (.measure t1 t2 offset now) = [] := by
  rw [commands, servoUpdate_eq_track h, track]
  simp only [filteredOf_recordOffset, isSpike_filtered, hspike, if_true]

/-- An update that the gate stops leaves the rate as it is exactly when the integral takes
nothing. -/
theorem spike_rate_iff (h : Coherent s) (hfilters : filters s offset = true)
    (hspike : isSpike s (filteredOf s offset) = true) :
    rateOf (step s (.measure t1 t2 offset now)) = rateOf s ↔
      Unsteered s (filteredOf s offset) := by
  have hpush : Coherent (pushMedian (recordOffset s offset) offset) := h.of_fields rfl rfl rfl
  have hupdate : step s (.measure t1 t2 offset now) = _ := servoUpdate_of_spike hfilters hspike
  rw [hupdate]
  exact integrate_rate_iff hpush

/-- With the same tuning and nominal addend. -/
structure SameLoop (s s' : Servo) : Prop where
  form : s'.rtExactInteg = s.rtExactInteg
  gain : s'.rtKiNum = s.rtKiNum
  base : s'.baseAddend = s.baseAddend

/-- Integrating and steering is a step of the rate. -/
theorem rateOf_steer {s' : Servo} (h : SameLoop s s') (filtered : Int) :
    rateOf (steer (integrate s' filtered) filtered) = rateStep s (rateOf s') filtered := by
  obtain ⟨hform, hgain, hbase⟩ := h
  simp only [rateStep, rateOf, steer, integrate, addendFor, hform, hgain]
  split
  · split <;> simp only [hbase]
  · simp only [hbase]

end Update

/-! ## Runs -/

section Runs

variable {s₀ s : Servo} {e : Event}

/-- No event but a change of tuning touches tuning and nominal addend. -/
theorem sameLoop_step (he : Tracked s e) (h : SameLoop s₀ s) : SameLoop s₀ (step s e) := by
  cases e with
  | tune n kiNum exact => exact he.elim
  | delay d =>
    obtain ⟨-, hform, hgain, hbase⟩ := delayResp_rate s d
    exact ⟨hform.trans h.form, hgain.trans h.gain, hbase.trans h.base⟩
  | sync now =>
    obtain ⟨-, hform, hgain, hbase⟩ := firstSync_rate s now
    exact ⟨hform.trans h.form, hgain.trans h.gain, hbase.trans h.base⟩
  | measure t1 t2 offset now =>
    obtain ⟨-, hfilters⟩ := he
    cases hspike : isSpike s (filteredOf s offset) with
    | true =>
      have hupdate : step s (.measure t1 t2 offset now) = _ := servoUpdate_of_spike hfilters hspike
      obtain ⟨fi, num, hint⟩ :=
        integrate_eq (pushMedian (recordOffset s offset) offset) (filteredOf s offset)
      rw [hupdate, hint]
      exact ⟨h.form, h.gain, h.base⟩
    | false =>
      have hupdate : step s (.measure t1 t2 offset now) = _ :=
        servoUpdate_of_filters hfilters hspike
      obtain ⟨-, hform, hgain, hbase⟩ := streaks_rate (steered s offset) (filteredOf s offset) now
      obtain ⟨fi, num, hint⟩ :=
        integrate_eq (pushMedian (recordOffset s offset) offset) (filteredOf s offset)
      rw [hupdate]
      rw [steered, hint] at hform hgain hbase ⊢
      exact ⟨hform.trans h.form, hgain.trans h.gain, hbase.trans h.base⟩

/-- One event changes the rate by the filtered offset that passes the gate, if one does. -/
theorem rate_step (hs : Coherent s) (hloop : SameLoop s₀ s) (he : Tracked s e)
    (hiso : Isolates s e) :
    rateOf (step s e) = (passed s e).foldl (rateStep s₀) (rateOf s) := by
  cases e with
  | tune n kiNum exact => exact he.elim
  | delay d => exact (delayResp_rate s d).1
  | sync now => exact (firstSync_rate s now).1
  | measure t1 t2 offset now =>
    obtain ⟨-, hfilters⟩ := he
    rw [passed]
    cases hspike : isSpike s (filteredOf s offset) with
    | true => exact (spike_rate_iff hs hfilters hspike).2 (hiso hspike)
    | false =>
      have hpush : SameLoop s₀ (pushMedian (recordOffset s offset) offset) :=
        ⟨hloop.form, hloop.gain, hloop.base⟩
      have hupdate : step s (.measure t1 t2 offset now) = _ :=
        servoUpdate_of_filters hfilters hspike
      rw [hupdate, (streaks_rate _ _ _).1, steered, rateOf_steer hpush]
      rfl

end Runs

/-- From every state that is reached, with every tuning: an update stopped at the gate leaves the
rate and the timestamp unit as they are exactly when the integral takes nothing of its sample; and
where that is so all along a run of locked updates, the rate is what the filtered offsets that
passed the gate make of it. -/
theorem outliers_isolated (cfgAddend : Option Int) (history es : List Event) :
    let s := (servoAfter cfgAddend history).1
    (∀ t1 t2 offset now, filters s offset = true → isSpike s (filteredOf s offset) = true →
      ((rateOf (step s (.measure t1 t2 offset now)) = rateOf s ∧
          commands s (.measure t1 t2 offset now) = []) ↔ Unsteered s (filteredOf s offset))) ∧
    (Along step Tracked s es → Along step Isolates s es →
      rateOf (run step s es) = (emitted step passed s es).foldl (rateStep s) (rateOf s)) := by
  intro s
  have hs : Coherent s := coherent_servoAfter cfgAddend history
  constructor
  · intro t1 t2 offset now hfilters hspike
    rw [← spike_rate_iff hs hfilters hspike]
    exact ⟨And.left, fun h => ⟨h, commands_of_spike hfilters hspike⟩⟩
  · intro htracked hiso
    have hkept : ∀ s' e, Tracked s' e ∧ Isolates s' e → Coherent s' ∧ SameLoop s s' →
        Coherent (step s' e) ∧ SameLoop s (step s' e) :=
      fun s' e he h => ⟨coherent_step h.1 e, sameLoop_step he.1 h.2⟩
    exact (htracked.and hiso).replay hkept (fun s' e he h => rate_step h.1 h.2 he.1 he.2)
      ⟨hs, ⟨rfl, rfl, rfl⟩⟩

/-- Locked, then the filter down to one sample and the truncating integral at a low gain. -/
def tunedLock : List Event := lockUp ++ [.tune 1 10 false]

/-- A wild sample between two good ones. -/
def burst : List Event := [measured 300, measured 50000, measured (-200)]

theorem outliers_isolated_burst :
    let s := (servoAfter none tunedLock).1
    emitted step passed s burst = [300, -200] ∧
      rateOf (run step s burst) = [300, -200].foldl (rateStep s) (rateOf s) := by
  intro s
  have htracked : Along step Tracked s burst := by decide
  have hiso : Along step Isolates s burst := by decide
  have hpassed : emitted step passed s burst = [300, -200] := by decide
  have hrun := (outliers_isolated none tunedLock burst).2 htracked hiso
  rw [← hpassed]
  exact ⟨rfl, hrun⟩

/-- With the tuning the servo boots with, seven offsets of 50 microseconds fill the filter; the next
one is stopped at the gate, and the integral has taken it. -/
theorem outlier_leaks :
    let s := (servoAfter none (lockUp ++ List.replicate 7 (measured 50000))).1
    s.locked = true ∧ filters s 50000 = true ∧ isSpike s (filteredOf s 50000) = true ∧
      (step s (measured 50000)).freqIntegralNum = s.freqIntegralNum - 45000000 ∧
      (step s (measured 50000)).freqIntegral ≠ s.freqIntegral := by
  decide

end Ptpv1
end Firmware
end InfernoFpga
