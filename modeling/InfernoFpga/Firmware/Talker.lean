import InfernoFpga.Firmware.FlowTable
import InfernoFpga.Firmware.PtpSlave

/-!
# Talker — the gate of the talker and the anchor of its media clock

`dante_tx_poll` enables the packetizer once PTP has settled, and anchors the media clock's
timestamp to PTP: when it enables, when the PTP step counter has moved, and when the emitted
timestamps have drifted off.  Every `ts_load` is recorded.  The announcement of a changed latency
and the rate measurement, which only feeds statistics, are left out.
-/

namespace InfernoFpga
namespace Firmware

open Lib
open Packetizer (CtxId Word)
open Ptpv1 (Timestamp Servo Slave)

/-! ## Constants -/

abbrev phaseSettleMaxMs : Nat := 20000
abbrev ptpSettleMs : Nat := 4000
abbrev danteTxTsOffset : Int := 0
abbrev danteTxReanchorSamples : Int := 8
abbrev subsecMax : Int := 48000

/-! ## State -/

/-- The static variables of `dante_tx_poll`, with the flow table and the gateware.  `loads` is
every timestamp that was loaded, seconds and samples. -/
structure Talker where
  tx : Tx
  lockSince : UInt32
  wasLocked : Bool
  seenSteps : UInt32
  seenInit : Bool
  badStreak : UInt8
  tsOffsetSamples : Int
  anchors : UInt32
  enables : UInt32
  disables : UInt32
  loads : List (Word × Word)

def Talker.boot (tx : Tx) : Talker :=
  { tx := { tx with talkerOn := false }, lockSince := 0, wasLocked := false, seenSteps := 0
    seenInit := false, badStreak := 0, tsOffsetSamples := danteTxTsOffset, anchors := 0
    enables := 0, disables := 0, loads := [] }

/-! ## Anchoring -/

/-- The sample of the second that a PTP time falls on, in 32-bit arithmetic. -/
def subOfNs (ns : Nat) : Nat := ns * 3 % 2 ^ 32 / 62500

/-- The anchor of a PTP time: samples shifted by the offset, with the carry into the seconds. -/
def anchorOf (t : Timestamp) (offset : Int) : Int × Int :=
  let sub := (subOfNs t.nanoseconds : Int) + offset
  let sec : Int := t.seconds
  if sub < 0 then (sec - 1, sub + subsecMax)
  else if subsecMax ≤ sub then (sec + 1, sub - subsecMax)
  else (sec, sub)

/-- `ts_anchor`, on the PTP time it reads: load the timestamp, reseed every context's phase. -/
def tsAnchor (k : Talker) (t : Timestamp) : Talker :=
  let (sec, sub) := anchorOf t k.tsOffsetSamples
  let csr := { k.tx.gw.csr with tsLoadSec := BitVec.ofInt 32 sec, tsLoadSub := BitVec.ofInt 32 sub }
  { k with
    tx := reseedPhases { k.tx with gw := { k.tx.gw with csr := csr } } (sub % 2 ^ 32).toNat
    anchors := k.anchors + 1
    loads := k.loads ++ [(BitVec.ofInt 32 sec, BitVec.ofInt 32 sub)] }

/-! ## The poll -/

/-- What one poll reads: uptimes, PTP times at the points where it reads them, the timestamp last
emitted, and whether the media clock's rate is ready. -/
structure TxPoll where
  lockMs : UInt32
  phaseMs : UInt32
  settleMs : UInt32
  stepTime : Timestamp
  guardTime : Timestamp
  guardAnchorTime : Timestamp
  enableTime : Timestamp
  emittedSec : Nat
  emittedSub : Nat
  rateReady : Bool

/-- `dante_tx_fpp_range`. -/
def danteTxFppRange (t : Tx) : Nat × Nat :=
  let fpps := ((List.finRange nFlows).filter fun f => (t.flows f).inUse).map
    fun f => (t.flows f).fpp.val
  match fpps with
  | [] => (16, 16)
  | fpp :: rest => (rest.foldl min fpp, rest.foldl max fpp)

/-- The lock edge starts the settling time. -/
def noteLock (k : Talker) (s : Servo) (i : TxPoll) : Talker :=
  { k with
    lockSince := if s.locked && !k.wasLocked then i.lockMs else k.lockSince
    wasLocked := s.locked }

/-- PTP has settled: locked for a while, with its phase final and the path delay known. -/
def settled (k : Talker) (s : Servo) (i : TxPoll) : Bool :=
  s.locked &&
    (s.phaseSettled || decide (phaseSettleMaxMs ≤ (i.phaseMs - k.lockSince).toNat)) &&
    s.meanPathDelayNs != 0 && decide (ptpSettleMs ≤ (i.settleMs - k.lockSince).toNat)

/-- Any PTP step invalidates the anchor: follow the step counter. -/
def followSteps (k : Talker) (s : Servo) (i : TxPoll) : Talker :=
  let k := if k.seenInit then k else { k with seenSteps := s.stepCount, seenInit := true }
  if s.stepCount ≠ k.seenSteps then
    let k := { k with seenSteps := s.stepCount }
    if k.tx.talkerOn then tsAnchor k i.stepTime else k
  else k

/-- The phase error of the emitted timestamp against PTP, in samples. -/
def phaseError (k : Talker) (i : TxPoll) : Int :=
  let ptpSmp := (i.guardTime.seconds : Int) * 48000 + subOfNs i.guardTime.nanoseconds
  let emit := (i.emittedSec : Int) * 48000 + i.emittedSub
  emit - ptpSmp - danteTxTsOffset + ((danteTxFppRange k.tx).1 - 1 : Int)

/-- The coarse guard: two polls in a row outside the band re-anchor. -/
def guardPhase (k : Talker) (i : TxPoll) : Talker :=
  let (fmin, fmax) := danteTxFppRange k.tx
  let band := danteTxReanchorSamples + ((fmax : Int) - fmin)
  let err := phaseError k i
  let k := { k with badStreak := if err > band ∨ err < -band then k.badStreak + 1 else 0 }
  if 2 ≤ k.badStreak then tsAnchor { k with badStreak := 0 } i.guardAnchorTime else k

/-- Enabling anchors first; disabling only closes the gate. -/
def switchTalker (k : Talker) (want : Bool) (i : TxPoll) : Talker :=
  if want = k.tx.talkerOn then k
  else if want then
    let k := tsAnchor k i.enableTime
    { k with
      tx := { k.tx with gw := k.tx.gw.writeEnable true, talkerOn := true }
      enables := k.enables + 1 }
  else
    { k with
      tx := { k.tx with gw := k.tx.gw.writeEnable false, talkerOn := false }
      disables := k.disables + 1 }

/-- `dante_tx_poll`. -/
def danteTxPoll (k : Talker) (s : Servo) (i : TxPoll) : Talker :=
  let k := noteLock k s i
  let settled := settled k s i
  let k := followSteps k s i
  let want := settled && decide (0 < danteTxActive k.tx) && i.rateReady
  let k := if k.tx.talkerOn && want then guardPhase k i else k
  switchTalker k want i

/-- `dante_tx_set_ts_offset`. -/
def danteTxSetTsOffset (k : Talker) (v : Int) (t : Timestamp) : Talker :=
  tsAnchor { k with tsOffsetSamples := v } t

/-! ## The firmware -/

/-- The PTP slave and the talker that watches its step counter. -/
structure Device where
  slave : Slave
  talker : Talker

inductive DeviceEvent
  | ptp (e : Ptpv1.PtpEvent)
  | poll (i : TxPoll)
  | flows (op : TxOp)
  | tsOffset (v : Int) (t : Timestamp)

def deviceStep (x : Device) : DeviceEvent → Device
  | .ptp e => { x with slave := Ptpv1.slaveStep x.slave e }
  | .poll i => { x with talker := danteTxPoll x.talker x.slave.servo i }
  | .flows op => { x with talker := { x.talker with tx := txStep x.talker.tx op } }
  | .tsOffset v t => { x with talker := danteTxSetTsOffset x.talker v t }

def Device.boot (uuid : Mac) (cfgAddend : Option Int) (tx : Tx) : Device :=
  ⟨Ptpv1.boot uuid cfgAddend, Talker.boot tx⟩

end Firmware
end InfernoFpga
