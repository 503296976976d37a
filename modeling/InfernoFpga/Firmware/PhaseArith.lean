import InfernoFpga.Firmware.NcoOwner
import InfernoFpga.Lib.Signed

/-!
# PhaseArith — the media phase in 32 bits

`mcr_dante_poll` and `dante_tx_poll` take the difference of two 64-bit sample counts into an
`int32_t` and compute on.  Here both computations trap on overflow and on a conversion that loses
the value.
-/

namespace InfernoFpga
namespace Firmware

open Lib
open Lib.Signed (Within)
open Ptpv1 (Timestamp)

/-! ## The measurements -/

/-- The sample number of a PTP time, as both polls compute it. -/
def samplesOf (t : Timestamp) : Int := (t.seconds : Int) * 48000 + subOfNs t.nanoseconds

/-- How far the emitted timestamp is ahead of PTP. -/
def aheadOf (sec sub : Nat) (t : Timestamp) : Int := (sec : Int) * 48000 + sub - samplesOf t

def ClockPoll.ahead (i : ClockPoll) : Int := aheadOf i.emittedSec i.emittedSub i.ptpTime

/-! ## `mcr_dante_poll` -/

/-- The state in which a poll that does not trip computes its phase term. -/
def phaseState (k : MediaClock) (i : ClockPoll) : MediaClock :=
  followAnchors (countStreak (measure k i)) i

/-- The poll gets to its phase term. -/
def phaseRuns (k : MediaClock) (i : ClockPoll) : Bool :=
  updateDue k i && decide ((countStreak (measure k i)).tripStreak < tripStreakS)

/-- The phase term is computed, not just cleared. -/
def phaseActive (k : MediaClock) (i : ClockPoll) : Bool :=
  k.phaseEnabled && (phaseState k i).setpointValid && i.locked

namespace Checked

/-- `phaseTerm`, with traps.  The integral itself is 64 bits wide and clamped at once. -/
def phaseTerm (k : MediaClock) (i : ClockPoll) : Option MediaClock :=
  if !k.phaseEnabled || !k.setpointValid || !i.locked then some { k with phasePpb := 0 }
  else do
    let err ← Signed.sub 32 k.driftSamples k.phaseSetpoint
    if err > phaseOutlierSamples ∨ err < -phaseOutlierSamples then some { k with phasePpb := 0 }
    else do
      let integ := clampTo (phaseMaxPpb * phaseIScale) (k.phaseInteg + -err * phaseKi)
      let scaled ← Signed.mul 32 err phaseKpNum
      let minus ← Signed.neg 32 scaled
      let p ← Signed.div 32 minus phaseKpDen
      let part ← Signed.trap 32 (integ.tdiv phaseIScale)
      let ppb ← Signed.add 32 p part
      some { k with phaseInteg := integ, phasePpb := clampTo phaseMaxPpb ppb }

end Checked

/-- What is asked of a poll of the media clock. -/
structure PhaseSound (k : MediaClock) (i : ClockPoll) : Prop where
  drift : updateDue k i = true → (measure k i).driftSamples = i.ahead
  terms : phaseRuns k i = true →
    Checked.phaseTerm (phaseState k i) i = some (phaseTerm (phaseState k i) i)
  /-- A measurement outside the band leaves the integral to the anchors. -/
  outlier : phaseRuns k i = true →
    ¬ Within phaseOutlierSamples (i.ahead - (phaseState k i).phaseSetpoint) →
    (mcrDantePoll k i).phaseInteg = (followAnchors k i).phaseInteg

/-- The difference fits, and so does its distance to the setpoint where that is computed. -/
def PhaseFits (k : MediaClock) (i : ClockPoll) : Prop :=
  (updateDue k i = true → Signed.Fits 32 i.ahead) ∧
    (phaseRuns k i = true → phaseActive k i = true →
      Signed.Fits 32 (i.ahead - (phaseState k i).phaseSetpoint))

section Poll

variable {k : MediaClock} {i : ClockPoll}

theorem measure_driftSamples : (measure k i).driftSamples = i.ahead.bmod (2 ^ 32) := by
  rw [measure]
  split <;> rfl

theorem drift_exact_iff : (measure k i).driftSamples = i.ahead ↔ Signed.Fits 32 i.ahead := by
  rw [measure_driftSamples, Signed.Fits]
  constructor
  · intro h
    have hlow := Int.le_bmod (x := i.ahead) (m := 2 ^ 32) (by decide)
    have hhigh := Int.bmod_lt (x := i.ahead) (m := 2 ^ 32) (by decide)
    omega
  · rintro ⟨hlow, hhigh⟩
    exact Int.bmod_eq_of_le (by omega) (by omega)

/-- Inside the band nothing overflows, so the term traps exactly if its subtraction does. -/
theorem checked_phaseTerm_iff (k : MediaClock) (i : ClockPoll) :
    Checked.phaseTerm k i = some (phaseTerm k i) ↔
      ((k.phaseEnabled && k.setpointValid && i.locked) = true →
        Signed.Fits 32 (k.driftSamples - k.phaseSetpoint)) := by
  rw [Checked.phaseTerm, phaseTerm]
  by_cases hactive : (k.phaseEnabled && k.setpointValid && i.locked) = true
  · have hoff : ¬ (!k.phaseEnabled || !k.setpointValid || !i.locked) = true := by
      simp only [Bool.and_eq_true] at hactive
      simp [hactive.1.1, hactive.1.2, hactive.2]
    rw [if_neg hoff, if_neg hoff, hactive]
    by_cases hfits : Signed.Fits 32 (k.driftSamples - k.phaseSetpoint)
    · refine iff_of_true ?_ fun _ => hfits
      rw [Signed.sub_of_fits hfits]
      dsimp only [Option.bind_eq_bind, Option.bind_some]
      generalize k.driftSamples - k.phaseSetpoint = err
      have hband : phaseOutlierSamples = 2400 := rfl
      by_cases hout : err > phaseOutlierSamples ∨ err < -phaseOutlierSamples
      · rw [if_pos hout, if_pos hout]
      · rw [if_neg hout, if_neg hout]
        have hmax : phaseMaxPpb = 2000 := rfl
        have hkp : phaseKpNum = 30 := rfl
        have hrails := clampTo_mem (b := phaseMaxPpb * phaseIScale)
          (x := k.phaseInteg + -err * phaseKi) (by decide)
        generalize clampTo (phaseMaxPpb * phaseIScale) (k.phaseInteg + -err * phaseKi) = integ
          at hrails ⊢
        obtain ⟨hplow, hphigh⟩ : Within phaseMaxPpb (integ.tdiv phaseIScale) :=
          Within.tdiv (by decide) hrails
        have hscaled : Signed.Fits 32 (err * phaseKpNum) := by
          rw [hkp, Signed.Fits]
          constructor <;> omega
        have hminus : Signed.Fits 32 (-(err * phaseKpNum)) := by
          rw [hkp, Signed.Fits]
          constructor <;> omega
        have hpart : Signed.Fits 32 (integ.tdiv phaseIScale) := by
          rw [Signed.Fits]
          constructor <;> omega
        have hsum : Signed.Fits 32
            ((-(err * phaseKpNum)).tdiv phaseKpDen + integ.tdiv phaseIScale) := by
          have hden : (-(err * phaseKpNum)).tdiv phaseKpDen = -(err * phaseKpNum) := Int.tdiv_one _
          rw [hden, hkp, Signed.Fits]
          constructor <;> omega
        simp only [Signed.mul_of_fits hscaled, Signed.neg_of_fits hminus,
          Signed.div_of_pos (y := phaseKpDen) (by decide) hminus, Signed.trap_of_fits hpart,
          Signed.add_of_fits hsum, Option.bind_some]
    · refine iff_of_false ?_ fun h => hfits (h rfl)
      rw [Signed.sub, Signed.trap, if_neg hfits]
      exact fun h => by cases h
  · have hoff : (!k.phaseEnabled || !k.setpointValid || !i.locked) = true := by
      revert hactive
      cases k.phaseEnabled <;> cases k.setpointValid <;> cases i.locked <;> simp
    rw [if_pos hoff, if_pos hoff]
    exact iff_of_true rfl fun h => absurd h hactive

/-- Closing a window touches nothing that the phase term keeps. -/
theorem phaseState_fields (k : MediaClock) (i : ClockPoll) :
    (phaseState k i).phaseInteg = (followAnchors k i).phaseInteg ∧
      (phaseState k i).driftSamples = (measure k i).driftSamples ∧
      (phaseState k i).phaseEnabled = k.phaseEnabled := by
  have hmeasured : (countStreak (measure k i)).seenAnchors = k.seenAnchors ∧
      (countStreak (measure k i)).phaseInteg = k.phaseInteg ∧
      (countStreak (measure k i)).phaseEnabled = k.phaseEnabled := by
    simp only [countStreak, measure]
    split <;> exact ⟨rfl, rfl, rfl⟩
  have hfollow : ∀ m : MediaClock,
      (followAnchors m i).phaseInteg = (if i.anchors ≠ m.seenAnchors then 0 else m.phaseInteg) ∧
        (followAnchors m i).driftSamples = m.driftSamples ∧
        (followAnchors m i).phaseEnabled = m.phaseEnabled := by
    intro m
    simp only [followAnchors]
    split <;> split <;> exact ⟨rfl, rfl, rfl⟩
  obtain ⟨hseen, hinteg, hon⟩ := hmeasured
  obtain ⟨hi, hd, he⟩ := hfollow (countStreak (measure k i))
  refine ⟨?_, hd, he.trans hon⟩
  rw [(hfollow k).1, phaseState, hi, hseen, hinteg]

/-- After the phase term nothing touches the integral. -/
theorem mcrDantePoll_phaseInteg (h : phaseRuns k i = true) :
    (mcrDantePoll k i).phaseInteg = (phaseTerm (phaseState k i) i).phaseInteg := by
  have hrest : ∀ m : MediaClock, (slew m).phaseInteg = m.phaseInteg ∧
      (persistRate m i).phaseInteg = m.phaseInteg := by
    intro m
    constructor
    · simp only [slew]
      split <;> rfl
    · simp only [persistRate]
      split
      · split <;> rfl
      · rfl
  rw [phaseRuns, Bool.and_eq_true, decide_eq_true_eq] at h
  rw [mcrDantePoll, h.1, Bool.not_true, if_neg Bool.false_ne_true]
  dsimp only
  rw [if_neg (Nat.not_le.2 h.2), discipline]
  have haim : (aim (countStreak (measure k i)) i).phaseInteg =
      (phaseTerm (phaseState k i) i).phaseInteg := rfl
  generalize aim (countStreak (measure k i)) i = m at haim ⊢
  split
  · exact haim
  · split
    · exact haim
    · rw [(hrest _).2, (hrest _).1, haim]

theorem phaseSound_iff (k : MediaClock) (i : ClockPoll) : PhaseSound k i ↔ PhaseFits k i := by
  obtain ⟨hinteg, hdrift, hon⟩ := phaseState_fields k i
  have hdue : phaseRuns k i = true → updateDue k i = true := fun h => by
    rw [phaseRuns, Bool.and_eq_true] at h
    exact h.1
  have hterms := checked_phaseTerm_iff (phaseState k i) i
  rw [hon, hdrift] at hterms
  constructor
  · intro h
    refine ⟨fun hd => drift_exact_iff.1 (h.drift hd), fun hruns hactive => ?_⟩
    have hsub := hterms.1 (h.terms hruns) hactive
    rwa [h.drift (hdue hruns)] at hsub
  · rintro ⟨hfits, hsub⟩
    have hexact : updateDue k i = true → (measure k i).driftSamples = i.ahead := fun hd =>
      drift_exact_iff.2 (hfits hd)
    refine ⟨hexact, fun hruns => hterms.2 fun hactive => ?_, fun hruns hout => ?_⟩
    · rw [hexact (hdue hruns)]
      exact hsub hruns hactive
    · -- the error that is compared with the band is the true one
      rw [mcrDantePoll_phaseInteg hruns, ← hinteg, phaseTerm]
      split
      · rfl
      · dsimp only
        rw [if_pos]
        rw [hdrift, hexact (hdue hruns)]
        by_contra hin
        refine hout ⟨?_, ?_⟩ <;> omega

end Poll

/-! ## `dante_tx_poll` -/

/-- The static variables of the trim, with the measurement it publishes. -/
structure PhaseTrim where
  lastServoMs : UInt32
  trimPpb : Int
  drift : Int

/-- What the trim reads: the talker's and the servo's state, PTP and the timestamp last sent. -/
structure TrimPoll where
  talkerOn : Bool
  locked : Bool
  now : UInt32
  ptpTime : Timestamp
  lastSec : Nat
  lastTs : Nat

def TrimPoll.ahead (i : TrimPoll) : Int := aheadOf i.lastSec i.lastTs i.ptpTime

/-- The trim runs: once a second, and not after a jump of the clock. -/
def trimRuns (s : PhaseTrim) (i : TrimPoll) : Bool :=
  i.talkerOn && i.locked && decide (1000 ≤ (i.now - s.lastServoMs).toNat) &&
    decide ((i.now - s.lastServoMs).toNat < 60000)

/-- The phase trim of `dante_tx_poll`. -/
def phaseTrim (s : PhaseTrim) (i : TrimPoll) : PhaseTrim :=
  if trimRuns s i then
    let err := i.ahead.bmod (2 ^ 32)
    { lastServoMs := i.now, trimPpb := clampTo 50000 (s.trimPpb - err * 20), drift := err }
  else if i.talkerOn && i.locked && decide (60000 ≤ (i.now - s.lastServoMs).toNat) then
    { s with lastServoMs := i.now }
  else s

/-- `phaseTrim`, with traps. -/
def Checked.phaseTrim (s : PhaseTrim) (i : TrimPoll) : Option PhaseTrim :=
  if trimRuns s i then do
    let err ← Signed.trap 32 i.ahead
    let term ← Signed.mul 32 err 20
    let trim ← Signed.sub 32 s.trimPpb term
    some { lastServoMs := i.now, trimPpb := clampTo 50000 trim, drift := err }
  else if i.talkerOn && i.locked && decide (60000 ≤ (i.now - s.lastServoMs).toNat) then
    some { s with lastServoMs := i.now }
  else some s

/-- Twenty times the difference fits, and the trim has room for it. -/
def TrimFits (s : PhaseTrim) (i : TrimPoll) : Prop :=
  trimRuns s i = true → Signed.Fits 32 (i.ahead * 20) ∧ Signed.Fits 32 (s.trimPpb - i.ahead * 20)

theorem checked_phaseTrim_iff (s : PhaseTrim) (i : TrimPoll) :
    Checked.phaseTrim s i = some (phaseTrim s i) ↔ TrimFits s i := by
  rw [Checked.phaseTrim, phaseTrim, TrimFits]
  by_cases hruns : trimRuns s i = true
  · rw [if_pos hruns, if_pos hruns]
    by_cases hahead : Signed.Fits 32 i.ahead
    · have hexact : i.ahead.bmod (2 ^ 32) = i.ahead := by
        obtain ⟨hlow, hhigh⟩ := hahead
        exact Int.bmod_eq_of_le (by omega) (by omega)
      rw [hexact, Signed.trap_of_fits hahead]
      dsimp only [Option.bind_eq_bind, Option.bind_some]
      by_cases hterm : Signed.Fits 32 (i.ahead * 20)
      · rw [Signed.mul_of_fits hterm]
        dsimp only [Option.bind_some]
        by_cases htrim : Signed.Fits 32 (s.trimPpb - i.ahead * 20)
        · rw [Signed.sub_of_fits htrim]
          exact iff_of_true rfl fun _ => ⟨hterm, htrim⟩
        · rw [Signed.sub, Signed.trap, if_neg htrim]
          exact iff_of_false (fun h => by cases h) fun h => htrim (h hruns).2
      · rw [Signed.mul, Signed.trap, if_neg hterm]
        exact iff_of_false (fun h => by cases h) fun h => hterm (h hruns).1
    · rw [Signed.trap, if_neg hahead]
      refine iff_of_false (fun h => by cases h) fun h => hahead ?_
      obtain ⟨⟨hlow, hhigh⟩, -⟩ := h hruns
      exact ⟨by omega, by omega⟩
  · rw [if_neg hruns, if_neg hruns]
    refine iff_of_true ?_ fun h => absurd h hruns
    split <;> rfl

/-! ## The claim -/

/-- For every state, setpoint and pair of timestamps: no 32-bit term of either loop overflows or
loses its value and no measurement outside the band reaches the integral, exactly if the
differences fit. -/
theorem phase_arithmetic_iff (k : MediaClock) (i : ClockPoll) (s : PhaseTrim) (j : TrimPoll) :
    (PhaseSound k i ∧ Checked.phaseTrim s j = some (phaseTrim s j)) ↔
      (PhaseFits k i ∧ TrimFits s j) :=
  and_congr (phaseSound_iff k i) (checked_phaseTrim_iff s j)

/-- An armed phase loop at its setpoint, and a poll a day's worth of samples ahead of PTP. -/
def steadyClock : MediaClock :=
  { MediaClock.zero ⟨cfgDefaults, ⟨fun _ => 0xFF, false⟩⟩ with
    phaseEnabled := true, setpointValid := true, phaseSetpoint := phaseTargetSamples }

def dayAhead : ClockPoll :=
  { now := 1000, underrun := 0, ptpTime := ⟨100000, 0⟩, emittedSec := 189478, emittedSub := 23372
    anchors := 0, talkerEnabled := true, locked := true, ratePpb := 0 }

/-- `2 ^ 32 + 76` samples ahead of PTP look like 76: the reading is taken for an error of 100
samples and moves the integral. -/
theorem phase_wraps :
    dayAhead.ahead = 2 ^ 32 + 76 ∧ (measure steadyClock dayAhead).driftSamples = 76 ∧
      (mcrDantePoll steadyClock dayAhead).phaseInteg = -1000 ∧
      ¬ PhaseSound steadyClock dayAhead := by
  refine ⟨by decide, by decide, by decide, fun h => ?_⟩
  exact absurd (h.drift (by decide)) (by decide)

end Firmware
end InfernoFpga
