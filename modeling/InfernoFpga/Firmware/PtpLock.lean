import InfernoFpga.Lib.Run
import InfernoFpga.Firmware.Ptpv1
import Mathlib.Algebra.Order.Group.Unbundled.Int

/-!
# PtpLock — does `locked` tell the truth about the filtered offset?

The servo clears `locked` after `UNLOCK_STREAK` out-of-band filtered offsets, but the gate
against wild samples returns before the streak is counted.  Over whole runs: the streak counter
never exceeds the true number of consecutive out-of-band offsets, and equals it as long as no
sample is stopped at that gate.
-/

namespace InfernoFpga
namespace Firmware
namespace Ptpv1

open Lib

/-! ## Runs of the servo -/

inductive Event
  /-- `servo_update` with a measured offset. -/
  | measure (t1 t2 : Timestamp) (offset : Int) (now : UInt32)
  | delay (d : Int)
  | tune (medianN : Nat) (kiNum : Int) (exact : Bool)
  | sync (now : UInt32)

def step (s : Servo) : Event → Servo
  | .measure t1 t2 offset now => (servoUpdate s t1 t2 offset now).1
  | .delay d => delayResp s d
  | .tune n kiNum exact => setTuning s n kiNum exact
  | .sync now => firstSync s now

/-- What the event makes the servo do to the clock. -/
def commands (s : Servo) : Event → List Tsu
  | .measure t1 t2 offset now => (servoUpdate s t1 t2 offset now).2
  | _ => []

def stepsClock (s : Servo) (e : Event) : Bool := (commands s e).any Tsu.stepsClock

/-- The update gets past the step, acquisition and phase-correction branches to the filter. -/
def filters (s : Servo) (offset : Int) : Bool :=
  !isStep offset && !s.acqActive && !(!s.pdStepDone && decide (pdMinSamples ≤ s.pdSamples))

def outOfBand (filtered : Int) : Bool := decide ((filtered.natAbs : Int) > unlockThresholdNs)

/-- The number of consecutive filtered offsets, up to now, that were out of band. -/
def nextBad (s : Servo) (e : Event) (bad : Nat) : Nat :=
  match e with
  | .measure _ _ offset _ =>
      if filters s offset then if outOfBand (filteredOf s offset) then bad + 1 else 0 else bad
  | _ => bad

/-- The servo with its count of consecutive out-of-band offsets. -/
def watched : Servo × Nat → Event → Servo × Nat := watch step nextBad

/-- Servo and count after the events `es`, from `ptpv1_init`. -/
def servoAfter (cfgAddend : Option Int) (es : List Event) : Servo × Nat :=
  run watched (init cfgAddend, 0) es

/-- No update made while locked filters to more than four times the unlock threshold. -/
def Unspiked (p : Servo × Nat) : Event → Prop
  | .measure _ _ offset _ =>
      filters p.1 offset = true → isSpike p.1 (filteredOf p.1 offset) = false
  | _ => True

instance (p : Servo × Nat) : ∀ e, Decidable (Unspiked p e)
  | .measure _ _ offset _ =>
      inferInstanceAs (Decidable (filters p.1 offset = true →
        isSpike p.1 (filteredOf p.1 offset) = false))
  | .delay _ => inferInstanceAs (Decidable True)
  | .tune _ _ _ => inferInstanceAs (Decidable True)
  | .sync _ => inferInstanceAs (Decidable True)

/-! ## What an update does to lock and streak -/

section Fields

variable (s : Servo) (filtered : Int) (now : UInt32)

/-- `integrate` changes the integral and nothing else. -/
theorem integrate_eq : ∃ fi num,
    integrate s filtered = { s with freqIntegral := fi, freqIntegralNum := num } := by
  unfold integrate
  split
  · split <;> exact ⟨_, _, rfl⟩
  · exact ⟨_, _, rfl⟩

/-- What `streaks` may change. -/
theorem streaks_eq : ∃ unlock lock locked cfg,
    streaks s filtered now = { s with
      unlockStreak := unlock, lockStreak := lock, locked := locked, cfgAddend := cfg } := by
  unfold streaks
  simp only []
  split
  · split <;> exact ⟨_, _, _, _, rfl⟩
  · split
    · split <;> exact ⟨_, _, _, _, rfl⟩
    · exact ⟨_, _, _, _, rfl⟩

@[simp] theorem integrate_locked : (integrate s filtered).locked = s.locked := by
  obtain ⟨fi, num, h⟩ := integrate_eq s filtered
  rw [h]

@[simp] theorem integrate_unlockStreak :
    (integrate s filtered).unlockStreak = s.unlockStreak := by
  obtain ⟨fi, num, h⟩ := integrate_eq s filtered
  rw [h]

@[simp] theorem integrate_acqActive : (integrate s filtered).acqActive = s.acqActive := by
  obtain ⟨fi, num, h⟩ := integrate_eq s filtered
  rw [h]

@[simp] theorem streaks_acqActive : (streaks s filtered now).acqActive = s.acqActive := by
  rcases streaks_eq s filtered now with ⟨unlock, lock, locked, cfg, h⟩
  rw [h]

@[simp] theorem integrate_meanPathDelayNs :
    (integrate s filtered).meanPathDelayNs = s.meanPathDelayNs := by
  obtain ⟨fi, num, h⟩ := integrate_eq s filtered
  rw [h]

@[simp] theorem streaks_meanPathDelayNs :
    (streaks s filtered now).meanPathDelayNs = s.meanPathDelayNs := by
  rcases streaks_eq s filtered now with ⟨unlock, lock, locked, cfg, h⟩
  rw [h]

@[simp] theorem integrate_stepCount : (integrate s filtered).stepCount = s.stepCount := by
  obtain ⟨fi, num, h⟩ := integrate_eq s filtered
  rw [h]

@[simp] theorem streaks_stepCount : (streaks s filtered now).stepCount = s.stepCount := by
  rcases streaks_eq s filtered now with ⟨unlock, lock, locked, cfg, h⟩
  rw [h]

theorem streaks_of_outOfBand (h : outOfBand filtered = true) :
    streaks s filtered now =
      { s with
        lockStreak := 0
        unlockStreak := s.unlockStreak + 1
        locked := s.locked && decide (s.unlockStreak + 1 < unlockStreakN) } := by
  have hband : (filtered.natAbs : Int) > unlockThresholdNs := by simpa [outOfBand] using h
  have hlock : ¬ ((filtered.natAbs : Int) < lockThresholdNs ∧ delayKnown s now = true) := by
    rintro ⟨hlt, -⟩
    simp only [unlockThresholdNs, lockThresholdNs] at hband hlt
    omega
  unfold streaks
  simp only [hlock, hband, if_true, if_false]
  by_cases hfour : unlockStreakN ≤ s.unlockStreak + 1
  · simp [hfour, Nat.not_lt.2 hfour]
  · simp [hfour, Nat.not_le.1 hfour]

theorem streaks_of_inBand (h : outOfBand filtered = false) :
    (streaks s filtered now).unlockStreak = 0 ∧
      (s.locked = true → (streaks s filtered now).locked = true) := by
  have hband : ¬ (filtered.natAbs : Int) > unlockThresholdNs := by simpa [outOfBand] using h
  unfold streaks
  simp only [hband, if_false]
  split
  · split
    · exact ⟨rfl, fun _ => rfl⟩
    · exact ⟨rfl, id⟩
  · exact ⟨rfl, id⟩

end Fields

section Update

variable {s : Servo} {t1 t2 : Timestamp} {offset : Int} {now : UInt32}

/-- The state `track` hands to the streak counters. -/
def steered (s : Servo) (offset : Int) : Servo :=
  steer (integrate (pushMedian (recordOffset s offset) offset) (filteredOf s offset))
    (filteredOf s offset)

theorem filteredOf_recordOffset (s : Servo) (offset v : Int) :
    filteredOf (recordOffset s offset) v = filteredOf s v := rfl

theorem isSpike_filtered (s : Servo) (offset filtered : Int) :
    isSpike (integrate (pushMedian (recordOffset s offset) offset) filtered) filtered =
      isSpike s filtered := by
  simp only [isSpike, integrate_locked]
  rfl

/-- On the tracking path `servo_update` is `track`. -/
theorem servoUpdate_eq_track (h : filters s offset = true) :
    servoUpdate s t1 t2 offset now = track (recordOffset s offset) offset now := by
  simp only [filters, Bool.and_eq_true, Bool.not_eq_true'] at h
  obtain ⟨⟨hstep, hacq⟩, hphase⟩ := h
  have hacq' : ¬ (recordOffset s offset).acqActive = true := by simpa [recordOffset] using hacq
  have hphase' : ¬ (!(recordOffset s offset).pdStepDone &&
      decide (pdMinSamples ≤ (recordOffset s offset).pdSamples)) = true := by
    rw [Bool.not_eq_true]
    exact hphase
  unfold servoUpdate
  simp only [hstep, Bool.false_eq_true, if_false]
  rw [if_neg hacq', if_neg hphase']

theorem servoUpdate_of_spike (h : filters s offset = true)
    (hspike : isSpike s (filteredOf s offset) = true) :
    (servoUpdate s t1 t2 offset now).1 =
      integrate (pushMedian (recordOffset s offset) offset) (filteredOf s offset) := by
  rw [servoUpdate_eq_track h]
  unfold track
  simp only [filteredOf_recordOffset, isSpike_filtered, hspike, if_true]

theorem servoUpdate_of_filters (h : filters s offset = true)
    (hspike : isSpike s (filteredOf s offset) = false) :
    (servoUpdate s t1 t2 offset now).1 =
      streaks (steered s offset) (filteredOf s offset) now := by
  rw [servoUpdate_eq_track h]
  unfold track
  simp only [filteredOf_recordOffset, isSpike_filtered, hspike, Bool.false_eq_true, if_false]
  rfl

theorem steered_fields (s : Servo) (offset : Int) : (steered s offset).locked = s.locked ∧
    (steered s offset).unlockStreak = s.unlockStreak ∧
    (steered s offset).acqActive = s.acqActive := by
  simp [steered, steer, pushMedian, recordOffset]

/-- Acquisition waits, or ends with a new rate and a phase correction. -/
theorem acquire_cases (s : Servo) (t1 t2 : Timestamp) (offset : Int) :
    (∃ base1 base2 have', acquire s t1 t2 offset =
      ({ s with acqT1 := base1, acqT2 := base2, acqHaveBase := have' }, [])) ∨
    (∃ fi addend, acquire s t1 t2 offset =
      ({ s with
          freqIntegral := fi
          freqIntegralNum := fi * servoKiDen
          currentAddend := addend
          acqActive := false
          meanPathDelayNs := 0
          pdSamples := 0
          pdStepDone := false
          medianCount := 0
          medianPos := 0
          lockStreak := 0 },
        [.setAddend addend, .adjustOffset (-offset)])) := by
  unfold acquire
  split
  · exact .inl ⟨_, _, _, rfl⟩
  · dsimp only
    split
    · exact .inl ⟨s.acqT1, s.acqT2, s.acqHaveBase, rfl⟩
    · exact .inr ⟨_, _, rfl⟩

/-- Off the tracking path an update steps the clock, acquires or corrects the phase. -/
theorem servoUpdate_off_eq (t1 t2 : Timestamp) (now : UInt32) (h : filters s offset = false) :
    (isStep offset = true ∧
      servoUpdate s t1 t2 offset now = stepClock (recordOffset s offset) t1) ∨
    (isStep offset = false ∧ s.acqActive = true ∧
      servoUpdate s t1 t2 offset now = acquire (recordOffset s offset) t1 t2 offset) ∨
    (isStep offset = false ∧ s.acqActive = false ∧
      servoUpdate s t1 t2 offset now = correctPhase (recordOffset s offset) offset) := by
  unfold servoUpdate
  dsimp only
  split
  · rename_i hstep
    exact .inl ⟨hstep, rfl⟩
  rename_i hstep
  rw [Bool.not_eq_true] at hstep
  split
  · rename_i hacq
    exact .inr (.inl ⟨hstep, hacq, rfl⟩)
  rename_i hacq
  have hacq' : ¬ s.acqActive = true := hacq
  rw [Bool.not_eq_true] at hacq'
  split
  · exact .inr (.inr ⟨hstep, hacq', rfl⟩)
  · rename_i hphase
    -- nothing else keeps an update from the filter
    have hphase' : ¬ (!s.pdStepDone && decide (pdMinSamples ≤ s.pdSamples)) = true := hphase
    rw [Bool.not_eq_true] at hphase'
    rw [filters, hstep, hacq', hphase'] at h
    cases h

/-- Off the tracking path nothing touches the streak, and `locked` is never set. -/
theorem servoUpdate_off (t1 t2 : Timestamp) (now : UInt32) (h : filters s offset = false) :
    (servoUpdate s t1 t2 offset now).1.unlockStreak = s.unlockStreak ∧
      ((servoUpdate s t1 t2 offset now).1.locked = true →
        s.locked = true ∧ (s.acqActive = false →
          (servoUpdate s t1 t2 offset now).1.acqActive = false)) := by
  rcases servoUpdate_off_eq t1 t2 now h with ⟨-, heq⟩ | ⟨-, hacq, heq⟩ | ⟨-, -, heq⟩
  · rw [heq]
    exact ⟨rfl, fun hlock => absurd hlock Bool.false_ne_true⟩
  · have hsame : (servoUpdate s t1 t2 offset now).1.unlockStreak = s.unlockStreak ∧
        (servoUpdate s t1 t2 offset now).1.locked = s.locked := by
      rw [heq]
      rcases acquire_cases (recordOffset s offset) t1 t2 offset with
        ⟨base1, base2, have', hacquire⟩ | ⟨fi, addend, hacquire⟩
      · rw [hacquire]
        exact ⟨rfl, rfl⟩
      · rw [hacquire]
        exact ⟨rfl, rfl⟩
    exact ⟨hsame.1, fun hlock => ⟨hsame.2 ▸ hlock, fun hoff => absurd hacq (by simp [hoff])⟩⟩
  · rw [heq]
    exact ⟨rfl, fun hlock => ⟨hlock, id⟩⟩

theorem servoUpdate_locked_off (h : filters s offset = false) (hstep : isStep offset = false) :
    (servoUpdate s t1 t2 offset now).1.locked = s.locked := by
  rcases servoUpdate_off_eq t1 t2 now h with ⟨hon, -⟩ | ⟨-, -, heq⟩ | ⟨-, -, heq⟩
  · rw [hstep] at hon
    cases hon
  · rcases acquire_cases (recordOffset s offset) t1 t2 offset with
      ⟨base1, base2, have', hacquire⟩ | ⟨fi, addend, hacquire⟩
    · rw [heq, hacquire]
      rfl
    · rw [heq, hacquire]
      rfl
  · rw [heq]
    rfl

end Update

/-! ## The streak counter against the true count -/

/-- The counter never runs ahead of the offsets, and while locked it is below the limit. -/
structure Counted (p : Servo × Nat) : Prop where
  streak : p.1.unlockStreak ≤ p.2
  acquired : p.1.locked = true → p.1.acqActive = false
  below : p.1.locked = true → p.1.unlockStreak < unlockStreakN

theorem counted_init (cfgAddend : Option Int) : Counted (init cfgAddend, 0) := by
  have hcold : (init cfgAddend).locked = false ∧ (init cfgAddend).unlockStreak = 0 := by
    unfold init
    cases cfgAddend with
    | none => exact ⟨rfl, rfl⟩
    | some warm =>
        simp only []
        split <;> exact ⟨rfl, rfl⟩
  exact ⟨by rw [hcold.2], by simp [hcold.1], by simp [hcold.1]⟩

theorem delaySample_fields (s : Servo) (d : Int) :
    (delaySample s d).locked = s.locked ∧ (delaySample s d).unlockStreak = s.unlockStreak ∧
      (delaySample s d).acqActive = s.acqActive := by
  unfold delaySample
  split <;> exact ⟨rfl, rfl, rfl⟩

theorem acceptDelay_fields (s : Servo) (d : Int) :
    (acceptDelay s d).locked = s.locked ∧ (acceptDelay s d).unlockStreak = s.unlockStreak ∧
      (acceptDelay s d).acqActive = s.acqActive := by
  unfold acceptDelay
  split
  · exact delaySample_fields s d
  · exact ⟨rfl, rfl, rfl⟩

theorem delayResp_fields (s : Servo) (d : Int) :
    (delayResp s d).locked = s.locked ∧ (delayResp s d).unlockStreak = s.unlockStreak ∧
      (delayResp s d).acqActive = s.acqActive := by
  unfold delayResp
  split
  · exact ⟨rfl, rfl, rfl⟩
  · exact acceptDelay_fields s _

theorem firstSync_fields (s : Servo) (now : UInt32) :
    (firstSync s now).locked = s.locked ∧ (firstSync s now).unlockStreak = s.unlockStreak ∧
      (firstSync s now).acqActive = s.acqActive := by
  unfold firstSync
  split <;> exact ⟨rfl, rfl, rfl⟩

theorem Counted.of_fields {p q : Servo × Nat} (h : Counted p)
    (hlocked : q.1.locked = p.1.locked) (hstreak : q.1.unlockStreak = p.1.unlockStreak)
    (hacq : q.1.acqActive = p.1.acqActive) (hbad : p.2 ≤ q.2) : Counted q where
  streak := by
    rw [hstreak]
    exact h.streak.trans hbad
  acquired := by
    rw [hlocked, hacq]
    exact h.acquired
  below := by
    rw [hlocked, hstreak]
    exact h.below

theorem counted_measure {p : Servo × Nat} (h : Counted p) (t1 t2 : Timestamp) (offset : Int)
    (now : UInt32) : Counted (watched p (.measure t1 t2 offset now)) := by
  obtain ⟨s, bad⟩ := p
  show Counted ((servoUpdate s t1 t2 offset now).1,
    nextBad s (.measure t1 t2 offset now) bad)
  cases hf : filters s offset with
  | false =>
      obtain ⟨hstreak, hlock⟩ := servoUpdate_off t1 t2 now hf
      simp only [nextBad, hf, Bool.false_eq_true, if_false]
      refine ⟨?_, fun hl => ?_, fun hl => ?_⟩
      · rw [hstreak]
        exact h.streak
      · exact (hlock hl).2 (h.acquired (hlock hl).1)
      · rw [hstreak]
        exact h.below (hlock hl).1
  | true =>
      cases hs : isSpike s (filteredOf s offset) with
      | true =>
          have hband : outOfBand (filteredOf s offset) = true := by
            simp only [isSpike, Bool.and_eq_true, decide_eq_true_eq] at hs
            simp only [outOfBand, decide_eq_true_eq]
            have := hs.2
            simp only [unlockThresholdNs] at this ⊢
            omega
          rw [servoUpdate_of_spike hf hs]
          simp only [nextBad, hf, hband, if_true]
          exact h.of_fields (by simp [pushMedian, recordOffset])
            (by simp [pushMedian, recordOffset]) (by simp [pushMedian, recordOffset])
            (Nat.le_succ bad)
      | false =>
          obtain ⟨hlocked, hstreak, hacq⟩ := steered_fields s offset
          rw [servoUpdate_of_filters hf hs]
          simp only [nextBad, hf, if_true]
          have hoff : s.acqActive = false := by
            simp only [filters, Bool.and_eq_true, Bool.not_eq_true'] at hf
            exact hf.1.2
          have hacq' : (streaks (steered s offset) (filteredOf s offset) now).acqActive =
              false := by rw [streaks_acqActive, hacq, hoff]
          have hle : s.unlockStreak ≤ bad := h.streak
          cases hb : outOfBand (filteredOf s offset) with
          | true =>
              refine ⟨?_, fun _ => hacq', fun hl => ?_⟩
              · simp only [streaks_of_outOfBand _ _ _ hb, hstreak, if_true]
                omega
              · simp only [streaks_of_outOfBand _ _ _ hb, Bool.and_eq_true,
                  decide_eq_true_eq] at hl ⊢
                exact hl.2
          | false =>
              have hzero := (streaks_of_inBand (steered s offset) _ now hb).1
              refine ⟨?_, fun _ => hacq', fun _ => ?_⟩
              · simp only [hzero, Bool.false_eq_true, if_false, le_refl]
              · simp only [hzero]
                decide

theorem counted_step {p : Servo × Nat} (h : Counted p) (e : Event) :
    Counted (watched p e) := by
  cases e with
  | measure t1 t2 offset now => exact counted_measure h t1 t2 offset now
  | delay d =>
      obtain ⟨hlocked, hstreak, hacq⟩ := delayResp_fields p.1 d
      exact h.of_fields hlocked hstreak hacq le_rfl
  | tune n kiNum exact => exact h.of_fields rfl rfl rfl le_rfl
  | sync now =>
      obtain ⟨hlocked, hstreak, hacq⟩ := firstSync_fields p.1 now
      exact h.of_fields hlocked hstreak hacq le_rfl

theorem counted_servoAfter (cfgAddend : Option Int) (es : List Event) :
    Counted (servoAfter cfgAddend es) :=
  run_invariant watched (P := Counted) (fun _ e h => counted_step h e) es
    (counted_init cfgAddend)

/-- Without a clock step, lock is lost only to a full streak. -/
theorem streak_of_unlock {p : Servo × Nat} (h : Counted p) {e : Event}
    (hlocked : p.1.locked = true) (hunlock : (step p.1 e).locked = false)
    (hstep : stepsClock p.1 e = false) : unlockStreakN ≤ nextBad p.1 e p.2 := by
  obtain ⟨s, bad⟩ := p
  have hkeep : (step s e).locked ≠ s.locked := by
    rw [hunlock, hlocked]
    decide
  cases e with
  | delay d => exact absurd (delayResp_fields s d).1 hkeep
  | tune n kiNum exact => exact absurd rfl hkeep
  | sync now => exact absurd (firstSync_fields s now).1 hkeep
  | measure t1 t2 offset now =>
      have hkeep' : (servoUpdate s t1 t2 offset now).1.locked ≠ s.locked := hkeep
      cases hf : filters s offset with
      | false =>
          cases hbig : isStep offset with
          | false => exact absurd (servoUpdate_locked_off hf hbig) hkeep'
          | true =>
              have hcmd : stepsClock s (.measure t1 t2 offset now) = true := by
                simp [stepsClock, commands, servoUpdate, hbig, stepClock, Tsu.stepsClock]
              rw [hcmd] at hstep
              cases hstep
      | true =>
          cases hs : isSpike s (filteredOf s offset) with
          | true =>
              rw [servoUpdate_of_spike hf hs] at hkeep'
              exact absurd (by simp [pushMedian, recordOffset]) hkeep'
          | false =>
              obtain ⟨hsteered, hstreak, -⟩ := steered_fields s offset
              have hlocked' : s.locked = true := hlocked
              have hle : s.unlockStreak ≤ bad := h.streak
              rw [servoUpdate_of_filters hf hs] at hkeep'
              cases hb : outOfBand (filteredOf s offset) with
              | false =>
                  have hstay := (streaks_of_inBand (steered s offset) _ now hb).2
                    (hsteered.trans hlocked')
                  exact absurd (hstay.trans hlocked'.symm) hkeep'
              | true =>
                  simp only [streaks_of_outOfBand _ _ _ hb, hsteered, hstreak, hlocked',
                    Bool.true_and, ne_eq, decide_eq_true_eq] at hkeep'
                  simp only [nextBad, hf, hb, if_true]
                  omega

/-- While no sample is stopped at the gate, the counter is the true count. -/
theorem streak_exact_step {p : Servo × Nat} {e : Event} (hguard : Unspiked p e)
    (h : p.1.unlockStreak = p.2) :
    (watched p e).1.unlockStreak = (watched p e).2 := by
  obtain ⟨s, bad⟩ := p
  have hs : s.unlockStreak = bad := h
  cases e with
  | delay d => exact (delayResp_fields s d).2.1.trans hs
  | tune n kiNum exact => exact hs
  | sync now => exact (firstSync_fields s now).2.1.trans hs
  | measure t1 t2 offset now =>
      show (servoUpdate s t1 t2 offset now).1.unlockStreak =
        nextBad s (.measure t1 t2 offset now) bad
      cases hf : filters s offset with
      | false =>
          rw [(servoUpdate_off _ _ _ hf).1]
          simpa only [nextBad, hf, Bool.false_eq_true, if_false] using hs
      | true =>
          obtain ⟨-, hstreak, -⟩ := steered_fields s offset
          rw [servoUpdate_of_filters hf (hguard hf)]
          simp only [nextBad, hf, if_true]
          cases hb : outOfBand (filteredOf s offset) with
          | true => simp only [streaks_of_outOfBand _ _ _ hb, hstreak, hs, if_true]
          | false => simpa using (streaks_of_inBand (steered s offset) _ now hb).1

/-- In every run of the servo: lock is lost without a clock step only after `UNLOCK_STREAK`
consecutive out-of-band filtered offsets; and if no update made while locked filters to more
than four times the unlock threshold, then that many are never survived. -/
theorem servo_lock_honest (cfgAddend : Option Int) (es : List Event) :
    (∀ e, (servoAfter cfgAddend es).1.locked = true →
      (step (servoAfter cfgAddend es).1 e).locked = false →
      stepsClock (servoAfter cfgAddend es).1 e = false →
      unlockStreakN ≤ nextBad (servoAfter cfgAddend es).1 e (servoAfter cfgAddend es).2) ∧
    (Along watched Unspiked (init cfgAddend, 0) es →
      (servoAfter cfgAddend es).1.locked = true →
      (servoAfter cfgAddend es).2 < unlockStreakN) := by
  have hcounted := counted_servoAfter cfgAddend es
  refine ⟨fun e hlocked hunlock hstep => streak_of_unlock hcounted hlocked hunlock hstep, ?_⟩
  intro hguard hlocked
  have hzero : (init cfgAddend).unlockStreak = 0 :=
    Nat.le_zero.1 (counted_init cfgAddend).streak
  have hexact : (servoAfter cfgAddend es).1.unlockStreak = (servoAfter cfgAddend es).2 :=
    Along.invariant (P := fun p : Servo × Nat => p.1.unlockStreak = p.2)
      (fun _ _ hg h => streak_exact_step hg h) hguard hzero
  rw [← hexact]
  exact hcounted.below hlocked

/-! ## A constant 50 microseconds -/

def measured (offset : Int) : Event := .measure ⟨8, 0⟩ ⟨8, 0⟩ offset 1

/-- Acquisition over an exact 8 s window, four path-delay samples, the phase correction, and
eight offsets in band. -/
def lockUp : List Event :=
  [.measure ⟨0, 0⟩ ⟨0, 0⟩ 0 1, measured 0] ++ List.replicate 4 (.delay 0) ++
    List.replicate 9 (measured 0)

/-- A lock-up with a few offsets of 15 microseconds among the good ones. -/
theorem servo_lock_honest_disturbed :
    (servoAfter none (lockUp ++ List.replicate 6 (measured 15000))).2 < unlockStreakN :=
  (servo_lock_honest none (lockUp ++ List.replicate 6 (measured 15000))).2 (by decide) (by decide)

/-- Locked on a filter full of 50 microseconds. -/
structure Stuck (s : Servo) : Prop where
  locked : s.locked = true
  acquired : s.acqActive = false
  corrected : s.pdStepDone = true
  width : s.rtMedianN = 7
  full : s.medianCount = 7
  pos : s.medianPos < 7
  buf : ∀ i < 7, s.medianBuf i = 50000

theorem stuck_start : Stuck (servoAfter none (lockUp ++ List.replicate 7 (measured 50000))).1 where
  locked := by decide
  acquired := by decide
  corrected := by decide
  width := by decide
  full := by decide
  pos := by decide
  buf := by decide

theorem Stuck.push {s : Servo} (h : Stuck s) : Stuck (pushMedian s 50000) := by
  have hpos := h.pos
  refine { h with width := h.width, full := ?_, pos := ?_, buf := fun i hi => ?_ }
  · simp [pushMedian, h.full, h.width]
  · simp only [pushMedian, h.width]
    omega
  · simp only [pushMedian, Function.update_apply]
    split
    · rfl
    · exact h.buf i hi

theorem Stuck.filtered {s : Servo} (h : Stuck s) : filteredOf s 50000 = 50000 := by
  have hfull := h.push
  have hbuf : (List.range 7).map (pushMedian s 50000).medianBuf = List.replicate 7 50000 := by
    refine List.eq_replicate_iff.2 ⟨by simp, fun b hb => ?_⟩
    obtain ⟨k, hk, rfl⟩ := List.mem_map.1 hb
    exact hfull.buf k (List.mem_range.1 hk)
  rw [filteredOf, medianValue, hfull.full, hbuf]
  decide

theorem Stuck.filters {s : Servo} (h : Stuck s) : filters s 50000 = true := by
  have hstep : isStep 50000 = false := by decide
  simp [Ptpv1.filters, hstep, h.acquired, h.corrected]

theorem Stuck.spike {s : Servo} (h : Stuck s) : isSpike s (filteredOf s 50000) = true := by
  rw [isSpike, h.filtered, h.locked]
  decide

/-- The update is dropped at the gate: still locked, the addend untouched. -/
theorem Stuck.next {s : Servo} (h : Stuck s) : Stuck (step s (measured 50000)) ∧
    (step s (measured 50000)).currentAddend = s.currentAddend := by
  have hrecord : Stuck (recordOffset s 50000) :=
    ⟨h.locked, h.acquired, h.corrected, h.width, h.full, h.pos, h.buf⟩
  have hpush := hrecord.push
  obtain ⟨fi, num, heq⟩ :=
    integrate_eq (pushMedian (recordOffset s 50000) 50000) (filteredOf s 50000)
  have hnext : step s (measured 50000) = _ := servoUpdate_of_spike h.filters h.spike
  rw [hnext, heq]
  exact ⟨⟨hpush.locked, hpush.acquired, hpush.corrected, hpush.width, hpush.full, hpush.pos,
    hpush.buf⟩, rfl⟩

theorem Stuck.quiet {s : Servo} (h : Stuck s) : stepsClock s (measured 50000) = false := by
  have htrack : servoUpdate s ⟨8, 0⟩ ⟨8, 0⟩ 50000 1 = _ := servoUpdate_eq_track h.filters
  simp only [stepsClock, commands, measured, htrack, track, filteredOf_recordOffset,
    isSpike_filtered, h.spike, if_true, List.any_nil]

theorem Stuck.run {p : Servo × Nat} (h : Stuck p.1) (n : Nat) :
    Stuck (run watched p (List.replicate n (measured 50000))).1 ∧
      (Lib.run watched p (List.replicate n (measured 50000))).1.currentAddend =
        p.1.currentAddend ∧
      (Lib.run watched p (List.replicate n (measured 50000))).2 = p.2 + n := by
  induction n with
  | zero => exact ⟨h, rfl, rfl⟩
  | succ n ih =>
      obtain ⟨hstuck, hadd, hbad⟩ := ih
      rw [List.replicate_succ', run_concat]
      generalize Lib.run watched p (List.replicate n (measured 50000)) = q at hstuck hadd hbad
      obtain ⟨hnext, hsame⟩ := hstuck.next
      refine ⟨hnext, hsame.trans hadd, ?_⟩
      have hfilters : Ptpv1.filters q.1 50000 = true := hstuck.filters
      have hband : outOfBand (filteredOf q.1 50000) = true := by
        rw [hstuck.filtered]
        decide
      show nextBad q.1 (measured 50000) q.2 = p.2 + (n + 1)
      simp only [measured, nextBad, hfilters, hband, if_true, hbad]
      omega

/-- The servo locks; then the leader has moved by 50 microseconds for good, and after `7 + n`
measurements of that. -/
def jumped (n : Nat) : Servo × Nat :=
  servoAfter none
    (lockUp ++ List.replicate 7 (measured 50000) ++ List.replicate n (measured 50000))

/-- The jump is never noticed: after four out-of-band filtered offsets the servo is locked, and
it stays locked with its rate frozen however many follow. -/
theorem servo_lock_dishonest :
    (jumped 0).1.locked = true ∧ (jumped 0).2 = unlockStreakN ∧
      ∀ n, (jumped n).1.locked = true ∧ (jumped n).2 = unlockStreakN + n ∧
        stepsClock (jumped n).1 (measured 50000) = false ∧
        (jumped n).1.currentAddend = (jumped 0).1.currentAddend := by
  have hzero : jumped 0 = servoAfter none (lockUp ++ List.replicate 7 (measured 50000)) := by
    simp only [jumped, List.replicate_zero, List.append_nil]
  have hstart : Stuck (jumped 0).1 := by
    rw [hzero]
    exact stuck_start
  have hfour : (jumped 0).2 = unlockStreakN := by
    rw [hzero]
    decide
  refine ⟨hstart.locked, hfour, fun n => ?_⟩
  have happ : jumped n = run watched (jumped 0) (List.replicate n (measured 50000)) := by
    rw [hzero]
    exact run_append _ _ _ _
  obtain ⟨hstuck, hadd, hbad⟩ := hstart.run n
  rw [happ]
  exact ⟨hstuck.locked, by rw [hbad, hfour], hstuck.quiet, hadd⟩

end Ptpv1
end Firmware
end InfernoFpga
