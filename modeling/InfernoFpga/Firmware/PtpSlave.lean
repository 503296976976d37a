import InfernoFpga.Lib.Run
import InfernoFpga.Firmware.Ptpv1
import InfernoFpga.Firmware.NetTx

/-!
# PtpSlave — the message handlers of the PTPv1 slave

The slave follows whoever sends Sync: it keeps the receive time of one outstanding Sync, pairs it
with an origin time, and hands the offset to the servo.  Its own DelayReq and the answer to it
measure the path.  Every timestamp kept here carries where it came from, and every pair and every
delay sample that was used is recorded; nothing reads these records.
-/

namespace InfernoFpga
namespace Firmware
namespace Ptpv1

open Lib

/-! ## Constants -/

abbrev ptpEventPort : Nat := 319
abbrev ctrlSync : UInt8 := 0
abbrev ctrlDelayReq : UInt8 := 1
abbrev ctrlFollowup : UInt8 := 2
abbrev ctrlDelayResp : UInt8 := 3
abbrev portTypeEvent : UInt8 := 1
abbrev hdrLen : Nat := 40
abbrev syncBodyLen : Nat := 84
abbrev followupBodyLen : Nat := 12
abbrev delayRespBodyLen : Nat := 20
abbrev flagPtpAssist : UInt8 := 8
abbrev delayReqMs : UInt32 := 4000
abbrev delayReqFastMs : UInt32 := 1000
abbrev netTosPtp : UInt8 := 0xE0

def ptpGroup : Ip := ⟨224, 0, 1, 129⟩

/-! ## Messages -/

/-- A UDP payload as the handler gets it. -/
structure Datagram where
  p : Mem
  len : Nat

namespace Datagram

variable (d : Datagram)

def uuid : Mac := Mac.read d.p 22
def seq : Nat := Mem.rd16 d.p 30
def ctrl : UInt8 := d.p 32
def flags : UInt8 := d.p 35
def blen : Nat := d.len - hdrLen

/-- `header_ok`: PTPv1, subdomain `_DFLT`. -/
def headerOk : Bool :=
  decide (hdrLen ≤ d.len) && Mem.rd16 d.p 0 == 1 &&
    Mem.slice d.p 4 5 == [0x5F, 0x44, 0x46, 0x4C, 0x54]

/-- A timestamp of two big-endian words. -/
def timestamp (x : Nat) : Timestamp := ⟨Mem.rd32 d.p x, Mem.rd32 d.p (x + 4)⟩

/-- A Sync whose origin time follows in a Follow_Up. -/
def isTwoStep : Bool := d.flags &&& flagPtpAssist != 0

/-- `associated_sequence_id` of a Follow_Up. -/
def associatedSeq : Nat := Mem.rd16 d.p (hdrLen + 2)

end Datagram

/-! ## State -/

/-- The receive time of a Sync, with the Sync's source and number, and how often the clock had
been moved when the time was taken. -/
structure Arrival where
  time : Timestamp
  uuid : Mac
  seq : Nat
  moves : Nat
  deriving DecidableEq

/-- An origin time, with the message that carried it. -/
structure Origin where
  time : Timestamp
  followUp : Bool
  uuid : Mac
  seq : Nat
  deriving DecidableEq

/-- The transmit time of a DelayReq, with the request's number. -/
structure Request where
  time : Timestamp
  seq : Nat
  moves : Nat
  deriving DecidableEq

/-- A delay sample that went into the filter: the clock moves before `t2`, before `t3` and before
the sample itself, and the sequence numbers of the answer and of the request behind `t3`. -/
structure DelaySample where
  t2Moves : Nat
  t3Moves : Nat
  moves : Nat
  respSeq : Nat
  reqSeq : Nat
  deriving DecidableEq

/-- The file-scope state of `ptpv1.c`.  `moves` counts the clock moves applied so far, `handed` is
every pair whose offset was handed to `servo_update`, `samples` every accepted delay sample. -/
structure Slave where
  servo : Servo
  ourUuid : Mac
  ourPortId : Nat
  haveMaster : Bool
  masterUuid : Mac
  masterPortId : Nat
  rxSync : UInt32
  rxFollowup : UInt32
  rxDelayResp : UInt32
  rxOther : UInt32
  txDelayReq : UInt32
  pendingSyncSeq : Nat
  awaitingFollowup : Bool
  t1 : Origin
  t2 : Arrival
  t3 : Request
  haveT1 : Bool
  haveT2 : Bool
  haveT3 : Bool
  lastT2T1 : Int
  lastT2Moves : Nat
  haveT2T1 : Bool
  delayReqSeq : UInt16
  nextDelayReqMs : UInt32
  moves : Nat
  handed : List (Arrival × Origin)
  samples : List DelaySample

/-- `ptpv1_init`, on zeroed static state. -/
def boot (uuid : Mac) (cfgAddend : Option Int) : Slave :=
  let none : Mac := ⟨0, 0, 0, 0, 0, 0⟩
  { servo := init cfgAddend, ourUuid := uuid, ourPortId := 1
    haveMaster := false, masterUuid := none, masterPortId := 0
    rxSync := 0, rxFollowup := 0, rxDelayResp := 0, rxOther := 0, txDelayReq := 0
    pendingSyncSeq := 0, awaitingFollowup := false
    t1 := ⟨⟨0, 0⟩, false, none, 0⟩, t2 := ⟨⟨0, 0⟩, none, 0, 0⟩, t3 := ⟨⟨0, 0⟩, 0, 0⟩
    haveT1 := false, haveT2 := false, haveT3 := false
    lastT2T1 := 0, lastT2Moves := 0, haveT2T1 := false
    delayReqSeq := 0, nextDelayReqMs := 0
    moves := 0, handed := [], samples := [] }

/-! ## Offsets -/

/-- The commands of a list that move the clock. -/
def clockMoves (cmds : List Tsu) : Nat := (cmds.filter Tsu.stepsClock).length

/-- What `servo_update` makes of the pair held. -/
def servoOnPair (s : Slave) (now : UInt32) : Servo × List Tsu :=
  servoUpdate s.servo s.t1.time s.t2.time
    (tsDiffNs s.t2.time s.t1.time - s.servo.meanPathDelayNs) now

/-- `try_compute_offset`. -/
def tryComputeOffset (s : Slave) (now : UInt32) : Slave :=
  if s.haveT1 && s.haveT2 then
    { s with
      servo := (servoOnPair s now).1
      moves := s.moves + clockMoves (servoOnPair s now).2
      lastT2T1 := tsDiffNs s.t2.time s.t1.time
      lastT2Moves := s.t2.moves
      haveT2T1 := true
      haveT1 := false
      haveT2 := false
      handed := s.handed ++ [(s.t2, s.t1)] }
  else s

/-! ## Receiving -/

/-- What any Sync sets: the master, and the receive time.  `late` clock moves lie between the
frame's arrival and its handling. -/
def holdSync (s : Slave) (d : Datagram) (rxTime : Timestamp) (late : Nat) (now : UInt32) : Slave :=
  { s with
    rxSync := s.rxSync + 1
    masterUuid := d.uuid
    masterPortId := Mem.rd16 d.p 28
    haveMaster := true
    servo := firstSync s.servo now
    t2 := ⟨rxTime, d.uuid, d.seq, s.moves - late⟩
    haveT2 := true }

/-- `CTRL_SYNC`. -/
def syncRx (s : Slave) (d : Datagram) (rxTime : Timestamp) (late : Nat) (now : UInt32) : Slave :=
  if d.blen < 8 then s
  else
    let s := holdSync s d rxTime late now
    if d.isTwoStep then
      { s with pendingSyncSeq := d.seq, awaitingFollowup := true, haveT1 := false }
    else
      tryComputeOffset { s with
        t1 := ⟨d.timestamp hdrLen, false, d.uuid, d.seq⟩
        haveT1 := true
        awaitingFollowup := false } now

/-- `CTRL_FOLLOWUP`. -/
def followupRx (s : Slave) (d : Datagram) (now : UInt32) : Slave :=
  if d.blen < followupBodyLen then s
  else
    let s := { s with rxFollowup := s.rxFollowup + 1 }
    if !s.awaitingFollowup then s
    else if d.associatedSeq ≠ s.pendingSyncSeq then s
    else
      tryComputeOffset { s with
        t1 := ⟨d.timestamp (hdrLen + 4), true, d.uuid, d.associatedSeq⟩
        haveT1 := true
        awaitingFollowup := false } now

/-- The checks on a DelayResp before its timestamps are used. -/
def respMatches (s : Slave) (d : Datagram) : Bool :=
  !s.servo.acqActive && Mac.read d.p (hdrLen + 10) == s.ourUuid &&
    Mem.rd16 d.p (hdrLen + 16) == s.ourPortId && s.haveT3 &&
    Mem.rd16 d.p (hdrLen + 18) == (s.delayReqSeq - 1).toNat && s.haveT2T1

/-- The path delay of a DelayResp, negative ones clamped. -/
def pathDelay (s : Slave) (d : Datagram) : Int :=
  max 0 ((s.lastT2T1 + tsDiffNs (d.timestamp hdrLen) s.t3.time).tdiv 2)

/-- A DelayResp whose delay goes into the filter. -/
def acceptsResp (s : Slave) (d : Datagram) : Bool :=
  respMatches s d && decide (pathDelay s d < 10000000)

/-- The end of the `CTRL_DELAY_RESP` case. -/
def useResp (s : Slave) (d : Datagram) : Slave :=
  let s' := { s with servo := acceptDelay s.servo (pathDelay s d), haveT3 := false }
  if pathDelay s d < 10000000 then
    { s' with samples := s.samples ++
        [⟨s.lastT2Moves, s.t3.moves, s.moves, Mem.rd16 d.p (hdrLen + 18), s.t3.seq⟩] }
  else s'

/-- `CTRL_DELAY_RESP`. -/
def delayRespRx (s : Slave) (d : Datagram) : Slave :=
  if d.blen < delayRespBodyLen then s
  else
    let s := { s with rxDelayResp := s.rxDelayResp + 1 }
    if respMatches s d then useResp s d else s

/-- `ptpv1_rx`.  Our own multicast echo is ignored. -/
def ptpv1Rx (s : Slave) (d : Datagram) (rxTime : Timestamp) (late : Nat) (now : UInt32) : Slave :=
  if !d.headerOk || d.uuid == s.ourUuid then s
  else if d.ctrl = ctrlSync then syncRx s d rxTime late now
  else if d.ctrl = ctrlFollowup then followupRx s d now
  else if d.ctrl = ctrlDelayResp then delayRespRx s d
  else { s with rxOther := s.rxOther + 1 }

/-! ## Sending -/

/-- `put_header` and the zeroed body of a DelayReq. -/
def delayReqBytes (s : Slave) : List UInt8 :=
  Mem.be16 1 ++ Mem.be16 1 ++ [0x5F, 0x44, 0x46, 0x4C, 0x54] ++ List.replicate 11 0 ++
    [portTypeEvent, 1] ++ s.ourUuid.bytes ++ Mem.be16 s.ourPortId ++ Mem.be16 s.delayReqSeq.toNat ++
    [ctrlDelayReq] ++ List.replicate 7 0 ++ List.replicate syncBodyLen 0

/-- `send_delay_req`, with the transmit time read back from the timestamp unit. -/
def sendDelayReq (s : Slave) (n : Net) (txTime : Timestamp) : Slave × Net :=
  let (n, sent) := netUdpCommit (txStore n udpPayloadOff (delayReqBytes s)) ptpGroup ptpEventPort
    ptpEventPort (hdrLen + syncBodyLen) netTosPtp
  let s' := { s with delayReqSeq := s.delayReqSeq + 1 }
  if sent then
    ({ s' with
        t3 := ⟨txTime, s.delayReqSeq.toNat, s.moves⟩
        haveT3 := true
        txDelayReq := s.txDelayReq + 1 }, n)
  else (s', n)

/-- A DelayReq is due: a signed difference of uptimes decides. -/
def reqDue (s : Slave) (now : UInt32) : Bool :=
  s.nextDelayReqMs == 0 || decide ((now - s.nextDelayReqMs).toNat < 2 ^ 31)

/-- `ptpv1_poll`.  The periodic dump of the diagnostic rings is left out. -/
def ptpv1Poll (s : Slave) (n : Net) (now : UInt32) (txTime : Timestamp) : Slave × Net :=
  if reqDue s now then
    let (s, n) := if s.haveMaster then sendDelayReq s n txTime else (s, n)
    ({ s with nextDelayReqMs :=
        now + (if pdMinSamples ≤ s.servo.pdSamples then delayReqMs else delayReqFastMs) }, n)
  else (s, n)

/-! ## Runs -/

inductive PtpEvent
  /-- A datagram on one of the PTP ports: its receive time, the clock moves since it arrived, and
  the uptime. -/
  | rx (d : Datagram) (rxTime : Timestamp) (late : Nat) (now : UInt32)
  /-- A turn of the poll loop, with the state of the network stack at that moment. -/
  | poll (n : Net) (now : UInt32) (txTime : Timestamp)
  | tuning (medianN : Nat) (kiNum : Int) (exact : Bool)

def slaveStep (s : Slave) : PtpEvent → Slave
  | .rx d rxTime late now => ptpv1Rx s d rxTime late now
  | .poll n now txTime => (ptpv1Poll s n now txTime).1
  | .tuning n ki exact => { s with servo := setTuning s.servo n ki exact }

end Ptpv1
end Firmware
end InfernoFpga
