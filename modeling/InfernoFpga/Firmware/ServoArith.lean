import InfernoFpga.Firmware.PtpSlave
import InfernoFpga.Lib.Signed

/-!
# ServoArith — the slave's arithmetic on 64-bit signed integers

`Ptpv1` computes with unbounded integers.  Here are the same functions in the order of the source,
with every signed operation one that traps on overflow and on a division by zero; nothing is
returned where one of them would.  The commands to the timestamp unit are returned with the state.
-/

namespace InfernoFpga
namespace Firmware
namespace Ptpv1
namespace Checked

open Lib

/-! ## The servo -/

/-- `gptp_ts_diff_ns`. -/
def tsDiffNs (a b : Timestamp) : Option Int := do
  let secDiff ← Signed.sub 64 a.seconds b.seconds
  let nsDiff ← Signed.sub 64 a.nanoseconds b.nanoseconds
  let secNs ← Signed.mul 64 secDiff 1000000000
  Signed.add 64 secNs nsDiff

/-- The integral part of the update. -/
def integrate (s : Servo) (filtered : Int) : Option Servo :=
  if filtered < 1000000 ∧ filtered > -1000000 then
    if s.rtExactInteg then do
      let minus ← Signed.neg 64 filtered
      let term ← Signed.mul 64 minus s.rtKiNum
      let sum ← Signed.add 64 s.freqIntegralNum term
      let rail ← Signed.mul 64 servoIntegralMax servoKiDen
      let num := clamp rail sum
      let fi ← Signed.div 64 num servoKiDen
      some { s with
        freqIntegralNum := num
        freqIntegral := clamp servoIntegralMax fi }
    else do
      let minus ← Signed.neg 64 filtered
      let term ← Signed.mul 64 minus s.rtKiNum
      let step ← Signed.div 64 term servoKiDen
      let fi ← Signed.add 64 s.freqIntegral step
      let num ← Signed.mul 64 fi servoKiDen
      some { s with
        freqIntegralNum := num
        freqIntegral := clamp servoIntegralMax fi }
  else some s

/-- The proportional term. -/
def proportional (filtered : Int) : Option Int := do
  let minus ← Signed.neg 64 filtered
  let gained ← Signed.mul 64 minus
    (if filtered > 1000 ∨ filtered < -1000 then servoKpFastNum else servoKpNum)
  Signed.div 64 gained servoKpDen

/-- An addend `adj` ppb off nominal, at least 1. -/
def addendFor (s : Servo) (adj : Int) : Option Int := do
  let scaled ← Signed.mul 64 adj s.baseAddend
  let change ← Signed.div 64 scaled 1000000000
  let addend ← Signed.add 64 s.baseAddend change
  some (if addend < 1 then 1 else addend)

/-- The step branch: the loop that carries the nanoseconds only subtracts from this sum. -/
def stepClock (s : Servo) (t1 : Timestamp) : Option (Servo × List Tsu) := do
  let _ ← Signed.add 64 t1.nanoseconds s.meanPathDelayNs
  some (Ptpv1.stepClock s t1)

/-- What the addend in force is worth, in ppb. -/
def appliedPpb (s : Servo) : Option Int :=
  if s.baseAddend ≠ 0 then do
    let change ← Signed.sub 64 s.currentAddend s.baseAddend
    let scaled ← Signed.mul 64 change 1000000000
    Signed.div 64 scaled s.baseAddend
  else some 0

/-- The acquisition branch. -/
def acquire (s : Servo) (t1 t2 : Timestamp) (offset : Int) : Option (Servo × List Tsu) :=
  if !s.acqHaveBase then
    some ({ s with acqT1 := t1, acqT2 := t2, acqHaveBase := true }, [])
  else do
    let dm ← tsDiffNs t1 s.acqT1
    let dl ← tsDiffNs t2 s.acqT2
    if dm < acqWindowNs then some (s, [])
    else do
      let gain ← Signed.sub 64 dl dm
      let scaled ← Signed.mul 64 gain 1000000000
      let errPpb ← Signed.div 64 scaled dm
      let applied ← appliedPpb s
      let rate ← Signed.sub 64 applied errPpb
      let fi := clamp servoIntegralMax rate
      let num ← Signed.mul 64 fi servoKiDen
      let addend ← addendFor s fi
      let back ← Signed.neg 64 offset
      some ({ s with
          freqIntegral := fi
          freqIntegralNum := num
          currentAddend := addend
          acqActive := false
          meanPathDelayNs := 0
          pdSamples := 0
          pdStepDone := false
          medianCount := 0
          medianPos := 0
          lockStreak := 0 },
        [.setAddend addend, .adjustOffset back])

def correctPhase (s : Servo) (offset : Int) : Option (Servo × List Tsu) := do
  let back ← Signed.neg 64 offset
  some ((Ptpv1.correctPhase s offset).1, [.adjustOffset back])

/-- A sample that must not steer the rate. -/
def isSpike (s : Servo) (filtered : Int) : Option Bool :=
  if s.locked then do
    let mag ← Signed.abs 64 filtered
    some (decide (mag > unlockThresholdNs * 4))
  else some false

/-- The tracking path. -/
def track (s : Servo) (offset : Int) (now : UInt32) : Option (Servo × List Tsu) := do
  let filtered := filteredOf s offset
  let p ← proportional filtered
  let s ← integrate (pushMedian s offset) filtered
  let spike ← isSpike s filtered
  if spike then some (s, [])
  else do
    let adj ← Signed.add 64 p s.freqIntegral
    let addend ← addendFor s adj
    let _ ← Signed.abs 64 filtered
    some (streaks { s with currentAddend := addend, ratePpb := s.freqIntegral } filtered now,
      [.setAddend addend])

/-- `servo_update`. -/
def servoUpdate (s : Servo) (t1 t2 : Timestamp) (offset : Int) (now : UInt32) :
    Option (Servo × List Tsu) :=
  let s := recordOffset s offset
  if isStep offset then stepClock s t1
  else if s.acqActive then acquire s t1 t2 offset
  else if !s.pdStepDone && decide (pdMinSamples ≤ s.pdSamples) then correctPhase s offset
  else track s offset now

/-- An accepted path-delay measurement. -/
def delaySample (s : Servo) (d : Int) : Option Servo :=
  if s.pdSamples < pdMinSamples then do
    let diff ← Signed.sub 64 d s.meanPathDelayNs
    let step ← Signed.div 64 diff (s.pdSamples + 1)
    let mean ← Signed.add 64 s.meanPathDelayNs step
    some { s with pdSamples := s.pdSamples + 1, meanPathDelayNs := mean }
  else do
    let diff ← Signed.sub 64 d s.meanPathDelayNs
    let step ← Signed.div 64 diff 8
    let mean ← Signed.add 64 s.meanPathDelayNs step
    some { s with meanPathDelayNs := mean }

def acceptDelay (s : Servo) (d : Int) : Option Servo :=
  if d < 10000000 then delaySample s d else some s

def setTuning (s : Servo) (n : Nat) (kiNum : Int) (exact : Bool) : Option Servo := do
  let num ← Signed.mul 64 s.freqIntegral servoKiDen
  some { Ptpv1.setTuning s n kiNum exact with freqIntegralNum := num }

/-- `ptpv1_init`, with the addend it writes. -/
def init (cfgAddend : Option Int) : Option (Servo × List Tsu) :=
  let base := baseAddendFull
  let cold := Ptpv1.init none
  match cfgAddend with
  | none => some (cold, [])
  | some warm => do
      let lim ← Signed.div 64 base 5000
      let low ← Signed.sub 64 base lim
      let high ← Signed.add 64 base lim
      if warm ≠ 0 ∧ warm > low ∧ warm < high then do
        let change ← Signed.sub 64 warm base
        let scaled ← Signed.mul 64 change 1000000000
        let fi ← Signed.div 64 scaled base
        let num ← Signed.mul 64 fi servoKiDen
        some ({ cold with
            freqIntegral := fi
            freqIntegralNum := num
            ratePpb := fi
            currentAddend := warm
            acqActive := false
            cfgAddend := some warm },
          [.setAddend warm])
      else some ({ cold with cfgAddend := some warm }, [])

/-! ## The messages -/

/-- `try_compute_offset`. -/
def tryComputeOffset (s : Slave) (now : UInt32) : Option (Slave × List Tsu) :=
  if s.haveT1 && s.haveT2 then do
    let t2T1 ← tsDiffNs s.t2.time s.t1.time
    let offset ← Signed.sub 64 t2T1 s.servo.meanPathDelayNs
    let (servo, cmds) ← servoUpdate s.servo s.t1.time s.t2.time offset now
    some ({ s with
        servo := servo
        moves := s.moves + clockMoves cmds
        lastT2T1 := t2T1
        lastT2Moves := s.t2.moves
        haveT2T1 := true
        haveT1 := false
        haveT2 := false
        handed := s.handed ++ [(s.t2, s.t1)] }, cmds)
  else some (s, [])

/-- `CTRL_SYNC`. -/
def syncRx (s : Slave) (d : Datagram) (rxTime : Timestamp) (late : Nat) (now : UInt32) :
    Option (Slave × List Tsu) :=
  if d.blen < 8 then some (s, [])
  else
    let s := holdSync s d rxTime late now
    if d.isTwoStep then
      some ({ s with pendingSyncSeq := d.seq, awaitingFollowup := true, haveT1 := false }, [])
    else
      tryComputeOffset { s with
        t1 := ⟨d.timestamp hdrLen, false, d.uuid, d.seq⟩
        haveT1 := true
        awaitingFollowup := false } now

/-- `CTRL_FOLLOWUP`. -/
def followupRx (s : Slave) (d : Datagram) (now : UInt32) : Option (Slave × List Tsu) :=
  if d.blen < followupBodyLen then some (s, [])
  else
    let s := { s with rxFollowup := s.rxFollowup + 1 }
    if !s.awaitingFollowup then some (s, [])
    else if d.associatedSeq ≠ s.pendingSyncSeq then some (s, [])
    else
      tryComputeOffset { s with
        t1 := ⟨d.timestamp (hdrLen + 4), true, d.uuid, d.associatedSeq⟩
        haveT1 := true
        awaitingFollowup := false } now

/-- The checks on a DelayResp before `t4 - t3` is computed. -/
def respAddressed (s : Slave) (d : Datagram) : Bool :=
  !s.servo.acqActive && Mac.read d.p (hdrLen + 10) == s.ourUuid &&
    Mem.rd16 d.p (hdrLen + 16) == s.ourPortId && s.haveT3 &&
    Mem.rd16 d.p (hdrLen + 18) == (s.delayReqSeq - 1).toNat

/-- The rest of the `CTRL_DELAY_RESP` case. -/
def useResp (s : Slave) (d : Datagram) : Option Slave := do
  let t4T3 ← tsDiffNs (d.timestamp hdrLen) s.t3.time
  if !s.haveT2T1 then some s
  else do
    let sum ← Signed.add 64 s.lastT2T1 t4T3
    let half ← Signed.div 64 sum 2
    let delay := if half < 0 then 0 else half
    let servo ← acceptDelay s.servo delay
    some { Ptpv1.useResp s d with servo := servo }

/-- `CTRL_DELAY_RESP`. -/
def delayRespRx (s : Slave) (d : Datagram) : Option (Slave × List Tsu) :=
  if d.blen < delayRespBodyLen then some (s, [])
  else
    let s := { s with rxDelayResp := s.rxDelayResp + 1 }
    if respAddressed s d then do
      let s ← useResp s d
      some (s, [])
    else some (s, [])

/-- `ptpv1_rx`. -/
def ptpv1Rx (s : Slave) (d : Datagram) (rxTime : Timestamp) (late : Nat) (now : UInt32) :
    Option (Slave × List Tsu) :=
  if !d.headerOk || d.uuid == s.ourUuid then some (s, [])
  else if d.ctrl = ctrlSync then syncRx s d rxTime late now
  else if d.ctrl = ctrlFollowup then followupRx s d now
  else if d.ctrl = ctrlDelayResp then delayRespRx s d
  else some ({ s with rxOther := s.rxOther + 1 }, [])

/-- A step: sending has no signed arithmetic. -/
def slaveStep (s : Slave) : PtpEvent → Option (Slave × List Tsu)
  | .rx d rxTime late now => ptpv1Rx s d rxTime late now
  | .poll n now txTime => some ((ptpv1Poll s n now txTime).1, [])
  | .tuning n ki exact => do
      let servo ← setTuning s.servo n ki exact
      some ({ s with servo := servo }, [])

end Checked
end Ptpv1
end Firmware
end InfernoFpga
