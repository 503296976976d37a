import Mathlib.Data.List.Sort
import Mathlib.Logic.Function.Basic
import Mathlib.Algebra.Group.Int.Defs
import Mathlib.Algebra.Group.Nat.Defs

/-!
# Ptpv1 — the PTPv1 slave's servo

`servo_update` with the state it keeps: the median filter, the integral, the frequency
acquisition window, the path-delay gate and the lock streaks.  Signed 64-bit quantities are
`Int`; C's division is `Int.tdiv`.  What the servo does to the timestamp unit is returned as a
list of commands.  Telemetry and console output are left out.
-/

namespace InfernoFpga
namespace Firmware
namespace Ptpv1

/-! ## Constants -/

abbrev servoKpNum : Int := 72
abbrev servoKpDen : Int := 1000
abbrev servoKpFastNum : Int := 200
abbrev servoKiNum : Int := 900
abbrev servoKiDen : Int := 1000000
abbrev servoIntegralMax : Int := 100000000
abbrev servoStepNs : Int := 1000000
abbrev acqWindowNs : Int := 8000000000
abbrev pathDelayGraceMs : Nat := 20000
abbrev pdMinSamples : Nat := 4
abbrev lockThresholdNs : Int := 2000
abbrev unlockThresholdNs : Int := 5000
abbrev lockStreakN : Nat := 8
abbrev unlockStreakN : Nat := 4
abbrev medianN : Nat := 7
abbrev clockFrequency : Nat := 50000000

/-- The nominal 52-bit addend of the timestamp unit. -/
def baseAddendFull : Int := (2 ^ 52 + clockFrequency / 2) / clockFrequency

/-! ## State -/

/-- `ptp_timestamp_t`. -/
structure Timestamp where
  seconds : Nat
  nanoseconds : Nat
  deriving DecidableEq, Repr

/-- `gptp_ts_diff_ns`. -/
def tsDiffNs (a b : Timestamp) : Int :=
  ((a.seconds : Int) - b.seconds) * 1000000000 + ((a.nanoseconds : Int) - b.nanoseconds)

structure Servo where
  -- g_ptpv1
  locked : Bool
  offsetNs : Int
  meanPathDelayNs : Int
  servoUpdates : UInt32
  baseAddend : Int
  currentAddend : Int
  ratePpb : Int
  stepCount : UInt32
  phaseSettled : Bool
  -- the median filter and its tuning
  medianBuf : Nat → Int
  medianCount : Nat
  medianPos : Nat
  rtMedianN : Nat
  rtKiNum : Int
  rtExactInteg : Bool
  -- the integral
  freqIntegral : Int
  freqIntegralNum : Int
  -- the streaks
  unlockStreak : Nat
  lockStreak : UInt32
  -- frequency acquisition
  acqActive : Bool
  acqHaveBase : Bool
  acqT1 : Timestamp
  acqT2 : Timestamp
  -- the path delay
  firstSyncMs : UInt32
  pdSamples : Nat
  pdStepDone : Bool
  /-- `g_cfg.ptp_addend_full`, when it is valid. -/
  cfgAddend : Option Int

/-- A command to the timestamp unit. -/
inductive Tsu
  | stepTime (target : Timestamp)
  | adjustOffset (ns : Int)
  | setAddend (addend : Int)
  deriving DecidableEq, Repr

/-- A command that moves the clock. -/
def Tsu.stepsClock : Tsu → Bool
  | .stepTime _ => true
  | .adjustOffset _ => true
  | .setAddend _ => false

/-! ## Filter and integral -/

/-- The tuning of `ptpv1_set_tuning`, clamped to the filter's capacity. -/
def clampMedianN (n : Nat) : Nat := if n < 1 then 1 else if medianN < n then medianN else n

def setTuning (s : Servo) (n : Nat) (kiNum : Int) (exact : Bool) : Servo :=
  { s with
    rtMedianN := clampMedianN n
    rtKiNum := kiNum
    rtExactInteg := exact
    medianCount := 0
    medianPos := 0
    freqIntegralNum := s.freqIntegral * servoKiDen }

/-- The buffer after `v` is pushed. -/
def pushMedian (s : Servo) (v : Int) : Servo :=
  { s with
    medianBuf := Function.update s.medianBuf s.medianPos v
    medianPos := (s.medianPos + 1) % s.rtMedianN
    medianCount := if s.medianCount < s.rtMedianN then s.medianCount + 1 else s.medianCount }

/-- The middle element of the buffer. -/
def medianValue (s : Servo) : Int :=
  (((List.range s.medianCount).map s.medianBuf).insertionSort (· ≤ ·)).getD
    (s.medianCount / 2) 0

/-- The result of `median_of`: what the filter makes of `offset` in state `s`. -/
def filteredOf (s : Servo) (offset : Int) : Int := medianValue (pushMedian s offset)

/-- Saturation at `±m`. -/
def clamp (m x : Int) : Int := if x > m then m else if x < -m then -m else x

/-- The integral part of the update, inside the anti-windup band only. -/
def integrate (s : Servo) (filtered : Int) : Servo :=
  if filtered < 1000000 ∧ filtered > -1000000 then
    if s.rtExactInteg then
      let num := clamp (servoIntegralMax * servoKiDen)
        (s.freqIntegralNum + -filtered * s.rtKiNum)
      { s with
        freqIntegralNum := num
        freqIntegral := clamp servoIntegralMax (num.tdiv servoKiDen) }
    else
      let fi := s.freqIntegral + (-filtered * s.rtKiNum).tdiv servoKiDen
      { s with
        freqIntegralNum := fi * servoKiDen
        freqIntegral := clamp servoIntegralMax fi }
  else s

/-- The proportional term. -/
def proportional (filtered : Int) : Int :=
  (-filtered * (if filtered > 1000 ∨ filtered < -1000 then servoKpFastNum
    else servoKpNum)).tdiv servoKpDen

/-- An addend `adj` ppb off nominal, at least 1. -/
def addendFor (s : Servo) (adj : Int) : Int :=
  let addend := s.baseAddend + (adj * s.baseAddend).tdiv 1000000000
  if addend < 1 then 1 else addend

/-! ## Branches of `servo_update` -/

/-- An offset that is a time jump. -/
def isStep (offset : Int) : Bool := decide (offset > servoStepNs ∨ offset < -servoStepNs)

/-- The absolute time a step sets: the master's, plus the path delay. -/
def stepTarget (s : Servo) (t1 : Timestamp) : Timestamp :=
  let ns := (t1.nanoseconds : Int) + s.meanPathDelayNs
  if ns < 1000000000 then ⟨t1.seconds, (ns % 2 ^ 32).toNat⟩
  else ⟨t1.seconds + (ns / 1000000000).toNat, (ns % 1000000000).toNat⟩

def stepClock (s : Servo) (t1 : Timestamp) : Servo × List Tsu :=
  ({ s with
      stepCount := s.stepCount + 1
      phaseSettled := false
      acqActive := true
      acqHaveBase := false
      lockStreak := 0
      locked := false
      medianCount := 0
      medianPos := 0 },
    [.stepTime (stepTarget s t1)])

/-- Frequency acquisition: wait for the window, then measure and correct in one go. -/
def acquire (s : Servo) (t1 t2 : Timestamp) (offset : Int) : Servo × List Tsu :=
  if !s.acqHaveBase then
    ({ s with acqT1 := t1, acqT2 := t2, acqHaveBase := true }, [])
  else
    let dm := tsDiffNs t1 s.acqT1
    let dl := tsDiffNs t2 s.acqT2
    if dm < acqWindowNs then (s, [])
    else
      let errPpb := ((dl - dm) * 1000000000).tdiv dm
      let applied :=
        if s.baseAddend ≠ 0 then
          ((s.currentAddend - s.baseAddend) * 1000000000).tdiv s.baseAddend
        else 0
      let fi := clamp servoIntegralMax (applied - errPpb)
      let addend := addendFor s fi
      ({ s with
          freqIntegral := fi
          freqIntegralNum := fi * servoKiDen
          currentAddend := addend
          acqActive := false
          meanPathDelayNs := 0
          pdSamples := 0
          pdStepDone := false
          medianCount := 0
          medianPos := 0
          lockStreak := 0 },
        [.setAddend addend, .adjustOffset (-offset)])

/-- The one residual phase step, once the path delay is known. -/
def correctPhase (s : Servo) (offset : Int) : Servo × List Tsu :=
  ({ s with
      pdStepDone := true
      stepCount := s.stepCount + 1
      phaseSettled := true
      medianCount := 0
      medianPos := 0
      lockStreak := 0 },
    [.adjustOffset (-offset)])

/-- Lock is held off until the path delay is known, but not for ever. -/
def delayKnown (s : Servo) (now : UInt32) : Bool :=
  decide (pdMinSamples ≤ s.pdSamples) ||
    (s.firstSyncMs != 0 && decide (pathDelayGraceMs < (now - s.firstSyncMs).toNat))

/-- The lock and unlock streaks. -/
def streaks (s : Servo) (filtered : Int) (now : UInt32) : Servo :=
  let a : Int := filtered.natAbs
  if a < lockThresholdNs ∧ delayKnown s now = true then
    let s := { s with unlockStreak := 0, lockStreak := s.lockStreak + 1 }
    if lockStreakN ≤ s.lockStreak.toNat ∧ s.locked = false then
      { s with locked := true, cfgAddend := some s.currentAddend }
    else s
  else if a > unlockThresholdNs then
    let s := { s with lockStreak := 0, unlockStreak := s.unlockStreak + 1 }
    if unlockStreakN ≤ s.unlockStreak then { s with locked := false } else s
  else { s with unlockStreak := 0 }

/-- A sample that must not steer the rate: locked, and far beyond the unlock threshold. -/
def isSpike (s : Servo) (filtered : Int) : Bool :=
  s.locked && decide ((filtered.natAbs : Int) > unlockThresholdNs * 4)

/-- Steer the rate by the filtered offset. -/
def steer (s : Servo) (filtered : Int) : Servo :=
  { s with
    currentAddend := addendFor s (proportional filtered + s.freqIntegral)
    ratePpb := s.freqIntegral }

/-- The tracking path: filter, integrate, steer, count. -/
def track (s : Servo) (offset : Int) (now : UInt32) : Servo × List Tsu :=
  let filtered := filteredOf s offset
  let s := integrate (pushMedian s offset) filtered
  if isSpike s filtered then (s, [])
  else
    let s := steer s filtered
    (streaks s filtered now, [.setAddend s.currentAddend])

/-- What every update records first. -/
def recordOffset (s : Servo) (offset : Int) : Servo :=
  { s with offsetNs := offset, servoUpdates := s.servoUpdates + 1 }

/-- `servo_update`, with the timestamps `t1` and `t2` of the pair and the uptime. -/
def servoUpdate (s : Servo) (t1 t2 : Timestamp) (offset : Int) (now : UInt32) :
    Servo × List Tsu :=
  let s := recordOffset s offset
  if isStep offset then stepClock s t1
  else if s.acqActive then acquire s t1 t2 offset
  else if !s.pdStepDone && decide (pdMinSamples ≤ s.pdSamples) then correctPhase s offset
  else track s offset now

/-! ## What else touches the servo's state -/

/-- An accepted path-delay measurement: a running mean, then a slow filter. -/
def delaySample (s : Servo) (d : Int) : Servo :=
  if s.pdSamples < pdMinSamples then
    { s with
      pdSamples := s.pdSamples + 1
      meanPathDelayNs :=
        s.meanPathDelayNs + (d - s.meanPathDelayNs).tdiv (s.pdSamples + 1) }
  else { s with meanPathDelayNs := s.meanPathDelayNs + (d - s.meanPathDelayNs).tdiv 8 }

/-- Delays of 10 ms and more are absurd. -/
def acceptDelay (s : Servo) (d : Int) : Servo :=
  if d < 10000000 then delaySample s d else s

/-- The end of the `DelayResp` case: nothing during acquisition, and no negative delay. -/
def delayResp (s : Servo) (d : Int) : Servo :=
  if s.acqActive then s else acceptDelay s (if d < 0 then 0 else d)

/-- The first Sync of a master starts the grace period. -/
def firstSync (s : Servo) (now : UInt32) : Servo :=
  if s.firstSyncMs = 0 then { s with firstSyncMs := now } else s

/-- `ptpv1_init`: a stored addend within 200 ppm of nominal skips acquisition. -/
def init (cfgAddend : Option Int) : Servo :=
  let base := baseAddendFull
  let cold : Servo :=
    { locked := false, offsetNs := 0, meanPathDelayNs := 0, servoUpdates := 0
      baseAddend := base, currentAddend := base, ratePpb := 0, stepCount := 0
      phaseSettled := false, medianBuf := fun _ => 0, medianCount := 0, medianPos := 0
      rtMedianN := medianN, rtKiNum := servoKiNum, rtExactInteg := true
      freqIntegral := 0, freqIntegralNum := 0, unlockStreak := 0, lockStreak := 0
      acqActive := true, acqHaveBase := false, acqT1 := ⟨0, 0⟩, acqT2 := ⟨0, 0⟩
      firstSyncMs := 0, pdSamples := 0, pdStepDone := false, cfgAddend := cfgAddend }
  match cfgAddend with
  | none => cold
  | some warm =>
      let lim := base.tdiv 5000
      if warm ≠ 0 ∧ warm > base - lim ∧ warm < base + lim then
        let fi := ((warm - base) * 1000000000).tdiv base
        { cold with
          freqIntegral := fi
          freqIntegralNum := fi * servoKiDen
          ratePpb := fi
          currentAddend := warm
          acqActive := false }
      else cold

end Ptpv1
end Firmware
end InfernoFpga
