import InfernoFpga.Firmware.Config
import InfernoFpga.Firmware.Talker

/-!
# MediaClock — the discipline of the NCO

`mcr_dante.c` steers the increment of the NCO that paces all audio: once a second it moves the
applied rate a bounded step towards the rate PTP measures, and it backs off to nominal when the
ring starves for long.  The state below is all of that module's, the part of the inherited
`mcr.c` that still reaches the NCO, and the increment register itself.
-/

namespace InfernoFpga
namespace Firmware

open Lib
open Ptpv1 (Timestamp)

/-! ## Constants -/

abbrev updateMs : Nat := 1000
abbrev slewPpb : Int := 100
abbrev maxPpb : Int := 100000
abbrev underrunTripPerS : Nat := 4800
abbrev underrunNoSourcePerS : Nat := 24000
abbrev ringActiveLevel : UInt16 := 32
abbrev tripStreakS : Nat := 45
abbrev nvSaveMs : Nat := 600000
abbrev nvSaveDeltaPpb : Int := 200
abbrev phaseTargetSamples : Int := -24
abbrev phaseMaxPpb : Int := 2000
abbrev phaseKi : Int := 10
abbrev phaseIScale : Int := 1024
abbrev phaseKpNum : Int := 30
abbrev phaseKpDen : Int := 1
abbrev phaseSetpointSettleMs : UInt32 := 15000
abbrev phaseOutlierSamples : Int := 2400

/-! ## State -/

/-- The part of `mcr_state_t` that decides what `mcr.c` writes to the NCO. -/
structure Mcr where
  bound : Bool
  cs : UInt8
  baseIncrement : Nat
  currentIncrement : Nat
  gptpLockedBase : Nat

/-- The static variables of `mcr_dante.c`, the inherited `mcr`, the configuration and the
increment register. -/
structure MediaClock where
  baseInc : Nat
  appliedInc : Nat
  lastWrittenInc : Nat
  appliedPpb : Int
  targetPpb : Int
  enabled : Bool
  lastUpdateMs : UInt32
  ncoWrites : UInt32
  trips : UInt32
  lastUnderrun : UInt32
  underrunPerS : Nat
  driftSamples : Int
  tripStreak : Nat
  phasePpb : Int
  phaseSetpoint : Int
  setpointValid : Bool
  setpointArmMs : UInt32
  seenAnchors : UInt32
  phaseInteg : Int
  lastNvMs : UInt32
  phaseEnabled : Bool
  lvlSum : UInt32
  lvlN : UInt32
  lvlMinCur : UInt16
  lvlMaxCur : UInt16
  lvlMin : UInt16
  lvlMax : UInt16
  lvlAvg : UInt16
  mcr : Mcr
  nv : Nv
  increment : Nat

/-- `mcr_increment_write`. -/
def mcrIncrementWrite (k : MediaClock) (v : Nat) : MediaClock := { k with increment := v }

/-- What one poll reads from the other modules. -/
structure ClockPoll where
  now : UInt32
  underrun : UInt32
  ptpTime : Timestamp
  emittedSec : Nat
  emittedSub : Nat
  anchors : UInt32
  talkerEnabled : Bool
  locked : Bool
  ratePpb : Int

def clampTo (bound x : Int) : Int := max (-bound) (min bound x)

/-! ## Boot -/

/-- The increment that makes `fs` out of the system clock, rounded, as both `mcr_init` and
`mcr_dante_init` compute it. -/
def nominalInc (sysClkFreq fs : Nat) : Nat :=
  let inc := fs * 2 ^ 32 / sysClkFreq
  (if fs * 2 ^ 32 % sysClkFreq > sysClkFreq / 2 then inc + 1 else inc) % 2 ^ 32

/-- `inc_for_ppb`. -/
def incForPpb (baseInc : Nat) (ppb : Int) : Nat :=
  let inc : Int := baseInc + (baseInc * ppb).tdiv 1000000000
  if inc < 1 then 1 else if inc > 0xFFFFFFFF then 0xFFFFFFFF else inc.toNat

/-- `mcr_init`. -/
def mcrInit (k : MediaClock) (sysClkFreq fs : Nat) : MediaClock :=
  let inc := nominalInc sysClkFreq fs
  mcrIncrementWrite { k with mcr := ⟨false, 0, inc, inc, inc⟩ } inc

/-- `mcr_set_gptp`. -/
def mcrSetGptp (k : MediaClock) : MediaClock :=
  { k with mcr := { k.mcr with gptpLockedBase := k.mcr.baseIncrement } }

/-- `mcr_set_clock_source`. -/
def mcrSetClockSource (k : MediaClock) (cs : UInt8) : MediaClock :=
  let cs := if cs = 1 then 1 else 0
  if cs = k.mcr.cs then k
  else
    mcrIncrementWrite
      { k with mcr := { k.mcr with cs := cs, currentIncrement := k.mcr.gptpLockedBase } }
      k.mcr.gptpLockedBase

/-- `mcr_unbind`. -/
def mcrUnbind (k : MediaClock) : MediaClock :=
  mcrIncrementWrite
    { k with mcr := { k.mcr with bound := false, currentIncrement := k.mcr.gptpLockedBase } }
    k.mcr.gptpLockedBase

/-- `mcr_dante_init`: with a rate in the configuration it starts there and armed. -/
def mcrDanteInit (k : MediaClock) (sysClkFreq fs : Nat) (now underrun : UInt32) : MediaClock :=
  let inc := nominalInc sysClkFreq fs
  let k := { k with
    baseInc := inc, appliedPpb := 0, appliedInc := inc, lastWrittenInc := inc, enabled := false
    ncoWrites := 0, trips := 0, lastUnderrun := underrun, lastUpdateMs := now }
  let saved := k.nv.gCfg.mclkPpb.toInt
  if k.nv.gCfg.mclkPpbValid ≠ 0 ∧ saved < maxPpb ∧ saved > -maxPpb then
    let inc := incForPpb k.baseInc saved
    mcrIncrementWrite
      { k with appliedPpb := saved, appliedInc := inc, lastWrittenInc := inc, enabled := true } inc
  else mcrIncrementWrite k k.baseInc

/-- The static variables before `main` runs. -/
def MediaClock.zero (nv : Nv) : MediaClock :=
  { baseInc := 0, appliedInc := 0, lastWrittenInc := 0, appliedPpb := 0, targetPpb := 0
    enabled := false, lastUpdateMs := 0, ncoWrites := 0, trips := 0, lastUnderrun := 0
    underrunPerS := 0, driftSamples := 0, tripStreak := 0, phasePpb := 0, phaseSetpoint := 0
    setpointValid := false, setpointArmMs := 0, seenAnchors := 0, phaseInteg := 0, lastNvMs := 0
    phaseEnabled := false, lvlSum := 0, lvlN := 0, lvlMinCur := 0xFFFF, lvlMaxCur := 0
    lvlMin := 0, lvlMax := 0, lvlAvg := 0, mcr := ⟨false, 0, 0, 0, 0⟩, nv := nv, increment := 0 }

/-- What `main` does to the media clock before its loop. -/
def MediaClock.boot (sysClkFreq : UInt32) (nv : Nv) (now underrun : UInt32) : MediaClock :=
  let k := mcrSetGptp (mcrInit (MediaClock.zero nv) sysClkFreq.toNat 48000)
  mcrSetClockSource (mcrDanteInit k sysClkFreq.toNat 48000 now underrun) 0

/-! ## Commands -/

/-- `mcr_dante_level_sample`. -/
def mcrDanteLevelSample (k : MediaClock) (level : UInt32) : MediaClock :=
  { k with
    lvlMinCur := if level.toNat < k.lvlMinCur.toNat then level.toUInt16 else k.lvlMinCur
    lvlMaxCur := if level.toNat > k.lvlMaxCur.toNat then level.toUInt16 else k.lvlMaxCur
    lvlSum := k.lvlSum + level
    lvlN := k.lvlN + 1 }

/-- `mcr_dante_set_enabled`. -/
def mcrDanteSetEnabled (k : MediaClock) (on : Bool) : MediaClock :=
  if on then
    let inc := incForPpb k.baseInc k.appliedPpb
    mcrIncrementWrite { k with enabled := true, appliedInc := inc, lastWrittenInc := inc } inc
  else
    mcrIncrementWrite
      { k with
        enabled := false, appliedPpb := 0, appliedInc := k.baseInc, lastWrittenInc := k.baseInc
        ncoWrites := k.ncoWrites + 1 }
      k.baseInc

/-- `mcr_dante_set_phase_enabled`. -/
def mcrDanteSetPhaseEnabled (k : MediaClock) (on : Bool) : MediaClock :=
  { k with phaseEnabled := on, phasePpb := if on then k.phasePpb else 0 }

/-! ## The poll -/

/-- An update is due: a second has passed since the last one. -/
def updateDue (k : MediaClock) (i : ClockPoll) : Bool :=
  decide (updateMs ≤ (i.now - k.lastUpdateMs).toNat)

/-- Close the level window, take the underrun rate and the drift of the last second. -/
def measure (k : MediaClock) (i : ClockPoll) : MediaClock :=
  let elapsed := (i.now - k.lastUpdateMs).toNat
  let k := if k.lvlN ≠ 0 then
      { k with
        lvlMin := k.lvlMinCur, lvlMax := k.lvlMaxCur, lvlAvg := (k.lvlSum / k.lvlN).toUInt16 }
    else k
  let du := (i.underrun - k.lastUnderrun).toNat
  let ptpSmp := (i.ptpTime.seconds : Int) * 48000 + subOfNs i.ptpTime.nanoseconds
  let emit := (i.emittedSec : Int) * 48000 + i.emittedSub
  { k with
    lastUpdateMs := i.now, lvlMinCur := 0xFFFF, lvlMaxCur := 0, lvlSum := 0, lvlN := 0
    lastUnderrun := i.underrun
    underrunPerS := if elapsed ≠ 0 then du * 1000 / elapsed % 2 ^ 32 else 0
    driftSamples := (emit - ptpSmp).bmod (2 ^ 32) }

/-- The second counts towards a trip: armed, part of it starved, and the ring not just empty. -/
def qualifies (k : MediaClock) : Bool :=
  k.enabled && decide (underrunTripPerS < k.underrunPerS) &&
    decide (k.underrunPerS < underrunNoSourcePerS) && decide (ringActiveLevel ≤ k.lvlMax)

def countStreak (k : MediaClock) : MediaClock :=
  { k with tripStreak := if qualifies k then k.tripStreak + 1 else 0 }

/-- The setpoint of the phase term: given up at every anchor, taken again once it has settled. -/
def followAnchors (k : MediaClock) (i : ClockPoll) : MediaClock :=
  let k := if i.anchors ≠ k.seenAnchors then
      { k with
        seenAnchors := i.anchors, setpointValid := false
        setpointArmMs := i.now + phaseSetpointSettleMs, phaseInteg := 0 }
    else k
  if !k.setpointValid && i.talkerEnabled && i.locked &&
      decide ((i.now - k.setpointArmMs).toNat < 2 ^ 31) then
    { k with phaseSetpoint := phaseTargetSamples, setpointValid := true }
  else k

/-- The phase term.  An error no anchor would leave standing is a reading across a second's
boundary and is skipped; the subtraction of `int32_t` that could overflow gives one as well. -/
def phaseTerm (k : MediaClock) (i : ClockPoll) : MediaClock :=
  if !k.phaseEnabled || !k.setpointValid || !i.locked then { k with phasePpb := 0 }
  else
    let err := k.driftSamples - k.phaseSetpoint
    if err > phaseOutlierSamples ∨ err < -phaseOutlierSamples then { k with phasePpb := 0 }
    else
      let integ := clampTo (phaseMaxPpb * phaseIScale) (k.phaseInteg + -err * phaseKi)
      let p := (-(err * phaseKpNum)).tdiv phaseKpDen
      { k with phaseInteg := integ, phasePpb := clampTo phaseMaxPpb (p + integ.tdiv phaseIScale) }

/-- Move the applied rate one step towards the target and write the increment if it changed. -/
def slew (k : MediaClock) : MediaClock :=
  let applied := k.appliedPpb + clampTo slewPpb (k.targetPpb - k.appliedPpb)
  let inc := incForPpb k.baseInc applied
  let k := { k with appliedPpb := applied, appliedInc := inc }
  if k.enabled ∧ inc ≠ k.lastWrittenInc then
    { mcrIncrementWrite { k with lastWrittenInc := inc } inc with ncoWrites := k.ncoWrites + 1 }
  else k

/-- Save a converged rate for the next boot, the first one at once and later ones rarely. -/
def persistRate (k : MediaClock) (i : ClockPoll) : MediaClock :=
  let valid := k.nv.gCfg.mclkPpbValid ≠ 0
  if k.enabled ∧ k.appliedPpb = k.targetPpb ∧
      (¬ valid ∨ nvSaveMs ≤ (i.now - k.lastNvMs).toNat) then
    let k := { k with lastNvMs := i.now }
    let d := k.nv.gCfg.mclkPpb.toInt - k.appliedPpb
    if ¬ valid ∨ d > nvSaveDeltaPpb ∨ d < -nvSaveDeltaPpb then
      { k with nv := cfgSet k.nv (.mclkPpb (Int32.ofInt k.appliedPpb)) }
    else k
  else k

/-- The target: the rate PTP measures and the phase term. -/
def aim (k : MediaClock) (i : ClockPoll) : MediaClock :=
  let k := phaseTerm (followAnchors k i) i
  { k with targetPpb := clampTo maxPpb (i.ratePpb + k.phasePpb) }

/-- The rest of a poll that did not trip. -/
def discipline (k : MediaClock) (i : ClockPoll) : MediaClock :=
  let k := aim k i
  -- without a lock the applied rate is held
  if !i.locked then k
  else if !k.enabled then { k with appliedPpb := 0, appliedInc := k.baseInc }
  else persistRate (slew k) i

/-- `mcr_dante_poll`. -/
def mcrDantePoll (k : MediaClock) (i : ClockPoll) : MediaClock :=
  if !updateDue k i then k
  else
    let k := countStreak (measure k i)
    if tripStreakS ≤ k.tripStreak then
      mcrDanteSetEnabled { k with tripStreak := 0, trips := k.trips + 1 } false
    else discipline k i

/-! ## The main loop -/

/-- What the main loop does to the media clock: its poll, the level samples, the commands of the
statistics port and of the console, and the saves of the PTP slave. -/
inductive ClockEvent
  | poll (i : ClockPoll)
  | levelSample (level : UInt32)
  /-- `'m1'` and `'m0'`. -/
  | setEnabled (on : Bool)
  /-- Console `'d'`. -/
  | toggle
  /-- `'mP'` and `'mp'`. -/
  | setPhase (on : Bool)
  /-- Console `'N'`. -/
  | unbind
  | ptpSave (addend : UInt64)

def clockStep (k : MediaClock) : ClockEvent → MediaClock
  | .poll i => mcrDantePoll k i
  | .levelSample level => mcrDanteLevelSample k level
  | .setEnabled on => mcrDanteSetEnabled k on
  | .toggle => mcrDanteSetEnabled k (!k.enabled)
  | .setPhase on => mcrDanteSetPhaseEnabled k on
  | .unbind => mcrUnbind { k with nv := cfgSet k.nv .clearCrf }
  | .ptpSave addend => { k with nv := cfgSet k.nv (.ptpAddend addend) }

end Firmware
end InfernoFpga
