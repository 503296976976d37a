import InfernoFpga.Lib.Segment
import InfernoFpga.Firmware.DanteMsg
import InfernoFpga.Firmware.PtpSlave
import InfernoFpga.Firmware.UdpRoundTrip
import InfernoFpga.Firmware.Arc
import InfernoFpga.Mdns.Record

/-!
# Info — the heartbeat and the device announcements

`dante_info.c` speaks unasked: a heartbeat once a second, and every three seconds all that a
controller shows of the device.  Requests to its port are answered with the same messages.  The
state below is all of that module's, with what it reads of the others; it keeps, beside the
source's variables, the datagrams it has built.
-/

namespace InfernoFpga
namespace Firmware

open Lib
open Mdns (Str ascii DanteDev danteDevInit)

/-! ## Constants -/

abbrev dantePortInfoReq : Nat := 8700
abbrev dantePortInfo : Nat := 8702
abbrev dantePortHeartbeat : Nat := 8708
abbrev mcastHdrLen : Nat := 32
abbrev heartbeatMs : UInt32 := 1000
abbrev infoAnnounceMs : UInt32 := 3000

def grpHeartbeat : Ip := ⟨224, 0, 0, 233⟩
def grpDevinfo : Ip := ⟨224, 0, 0, 231⟩

def vendorStr : List UInt8 := ascii "Audinate"

abbrev InfoOpcode := Vector UInt8 8

/-- The opcodes of the announcements differ in two bytes. -/
def infoOpcode (hi lo : UInt8) : InfoOpcode := #v[0x07, 0x2a, hi, lo, 0, 0, 0, 0]

/-! ## State -/

/-- `dante_info_stats_t`. -/
structure InfoStats where
  rx : UInt32
  rxUnknown : UInt32
  txHeartbeat : UInt32
  txInfo : UInt32
  deriving DecidableEq

/-- A datagram that was built: where it was sent, its payload, and the request it echoes the
number of. -/
structure Built where
  dst : Ip
  dport : Nat
  payload : List UInt8
  echoes : Option UInt16
  deriving DecidableEq

/-- `dante_info.c`, with the parts of `g_dante`, `g_ptpv1` and the stack it reads. -/
structure Info where
  net : Net
  mac : Mac
  dev : DanteDev
  processId : UInt16
  ptp : Ptpv1.Slave
  stats : InfoStats
  seqnum : UInt16
  nextHeartbeatMs : UInt32
  infoAnnounceNextMs : UInt32
  built : List Built

/-! ## The header -/

section Header

variable (s : Info)

/-- `put_hdr_seq`; `put_hdr` is this with the device's own counter.  The length is still zero. -/
def putHdrSeq (startCode : Nat) (opcode : InfoOpcode) (seq : UInt16) : List UInt8 :=
  Mem.be16 startCode ++ Mem.be16 0 ++ Mem.be16 seq.toNat ++ Mem.be16 s.processId.toNat ++
    s.dev.deviceId.toList ++ vendorStr ++ opcode.toList

/-- `put_u16(p, 2, n)`, once the message is complete. -/
def putTotalLength (m : List UInt8) : List UInt8 := overwrite m 2 (Mem.be16 m.length)

/-- A message with the device's own number. -/
def infoMessage (startCode : Nat) (opcode : InfoOpcode) (content : List UInt8) : List UInt8 :=
  putTotalLength (putHdrSeq s startCode opcode s.seqnum ++ content)

/-- A complete message is committed, and the counter moves on, whether it left or not. -/
def commitInfo (dst : Ip) (dport : Nat) (payload : List UInt8) (echoes : Option UInt16) :
    Info × Bool :=
  let (net, ok) := netUdpCommit (txStore s.net udpPayloadOff payload) dst dport dantePortInfoReq
    payload.length netTosBestEffort
  ({ s with
      net := net, seqnum := s.seqnum + 1
      built := s.built ++ [⟨dst, dport, payload, echoes⟩] }, ok)

/-- The same, counted in `tx_info` when it has left. -/
def commitCounted (dst : Ip) (dport : Nat) (payload : List UInt8) (echoes : Option UInt16) :
    Info :=
  let (s, ok) := commitInfo s dst dport payload echoes
  if ok then { s with stats := { s.stats with txInfo := s.stats.txInfo + 1 } } else s

end Header

/-! ## The heartbeat -/

/-- The servo's pull in ppb; the quotient of two 64-bit numbers, cut to 32 bits. -/
def servoPpb (ptp : Ptpv1.Slave) : Int :=
  if ptp.servo.baseAddend = 0 then 0
  else ((ptp.servo.currentAddend - ptp.servo.baseAddend) * 1000000000).tdiv ptp.servo.baseAddend

/-- `put_u32` of a signed number. -/
def putS32 (v : Int) : List UInt8 := Mem.be32 (v % 2 ^ 32).toNat

/-- A sub-record: six fields, and what follows them. -/
def subRecord (length type contentLen seq : Nat) (body : List UInt8) : List UInt8 :=
  fieldBytes [length, type, 4, contentLen, seq, 0] ++ body

section Heartbeat

variable (s : Info)

def heartbeatOpcode : InfoOpcode := #v[0x00, 0x08, 0x00, 0x01, 0x10, 0x00, 0x00, 0x00]

/-- `0x8001`: the frequency offset. -/
def frequencyRecord : List UInt8 :=
  subRecord 16 0x8001 4 s.seqnum.toNat (putS32 (servoPpb s.ptp))

/-- The magnitude of the offset from the master, as far as 32 bits go. -/
def reportedOffset (ptp : Ptpv1.Slave) : Nat := min ptp.servo.offsetNs.natAbs 0xFFFFFFFF

/-- The mean path delay between zero and what 32 bits hold. -/
def reportedDelay (ptp : Ptpv1.Slave) : Nat := min ptp.servo.meanPathDelayNs.toNat 0xFFFFFFFF

/-- `0x8000`: the quality of the clock.  The content length is 4 though 24 bytes follow. -/
def syncRecord : List UInt8 :=
  subRecord 36 0x8000 4 s.seqnum.toNat
    (fieldBytes [0x0010, 0, 1, 0x0010] ++ Mem.be32 (reportedOffset s.ptp) ++
      Mem.be32 (reportedDelay s.ptp) ++ Mem.be32 0 ++ Mem.be32 0)

/-- `0x8002`: a peak for each channel, none of which is measured. -/
def peakRecord (ntx nrx : Nat) : List UInt8 :=
  let npk := ntx + nrx
  let pad := (4 - npk % 4) % 4
  subRecord (24 + npk + pad) 0x8002 (12 + npk) s.seqnum.toNat
    (fieldBytes [ntx, 0, nrx, 0, 24, 0] ++ List.replicate (npk + pad) 0)

/-- `0x8003`: the sample rate, and a latency for each received flow. -/
def latencyRecord (nflows : Nat) : List UInt8 :=
  subRecord (12 + 8 + 4 + 4 * nflows) 0x8003 (8 + 4 + 4 * nflows) s.seqnum.toNat
    (fieldBytes [nflows, 0, 0x0018, 0] ++ Mem.be32 48000 ++
      (List.replicate nflows (Mem.be32 0)).flatten)

/-- `0x8004`: a word for each received flow. -/
def flowRecord (nflows : Nat) : List UInt8 :=
  subRecord (12 + 8 + 4 * nflows) 0x8004 (8 + 4 * nflows) s.seqnum.toNat
    (fieldBytes [nflows, 0, 0x0014, 0] ++ (List.replicate nflows (Mem.be32 0)).flatten)

def heartbeatRecords : List (List UInt8) :=
  [frequencyRecord s, syncRecord s, peakRecord s danteTxChannels danteRxChannels,
    latencyRecord s danteRxChannels, flowRecord s danteRxChannels]

/-- What `send_heartbeat` builds. -/
def heartbeat : List UInt8 := infoMessage s 0xFFFE heartbeatOpcode (heartbeatRecords s).flatten

/-- `send_heartbeat`. -/
def sendHeartbeat : Info :=
  let (s, ok) := commitInfo s grpHeartbeat dantePortHeartbeat (heartbeat s) none
  if ok then { s with stats := { s.stats with txHeartbeat := s.stats.txHeartbeat + 1 } } else s

end Heartbeat

/-! ## What a controller shows of the device -/

/-- `put_fixed`: a field of `width` bytes, without room for a terminator. -/
def putFixed (c : List UInt8) (off width : Nat) (str : Str) : List UInt8 :=
  overwrite c off (str.take width ++ List.replicate (width - str.length) 0)

/-- Firmware, hardware and boot versions, capability flags, board name. -/
def deviceInfoContent : List UInt8 :=
  let c := List.replicate 200 (0 : UInt8)
  let c := overwrite (overwrite c 0 [4, 1, 0, 6]) 0x23 [2]
  let c := overwrite (overwrite (overwrite c 4 [4, 1, 0, 3]) 0x27 [1]) 0x28 [1]
  let c := overwrite (overwrite c 0x14 [0, 0, 0x10, 0]) 0xbb [0x1f]
  putFixed (putFixed c 12 8 (ascii "NSerAoI")) 0x38 16 (ascii "N-Series AoIP")

/-- Manufacturer, model and product version. -/
def productInfoContent : List UInt8 :=
  let c := List.replicate 336 (0 : UInt8)
  let c := putFixed (putFixed c 0x00 8 (ascii "NSeries")) 0x08 8 (ascii "USBSwtc")
  let c := overwrite c 0x1c [0, 0, 1, 0]
  putFixed (putFixed c 0x2c 16 (ascii "N-Series")) 0xac 16 (ascii "USB Switchover")

/-- The netmask of the prefix: `/16` unless it is 24. -/
def netmask (prefixLen : UInt8) : Ip := ⟨255, 255, if prefixLen = 24 then 255 else 0, 0⟩

section Announcements

variable (s : Info)

/-- Link speed, MAC, address, netmask, no gateway and no name server. -/
def networkInfoContent : List UInt8 :=
  [0x00, 0x01, 0x00, 0x00, 0x00, 0x00] ++ Mem.be16 1000 ++ Mem.be16 1 ++ s.mac.bytes ++
    s.net.ip.bytes ++ (netmask s.net.prefixLen).bytes ++ List.replicate 4 0 ++
    List.replicate 4 0 ++ ([0x00, 0x18, 0x00, 0x30] ++ List.replicate 28 0)

def sendDeviceInfo (dst : Ip) (dport : Nat) : Info :=
  commitCounted s dst dport (infoMessage s 0xFFFF (infoOpcode 0x00 0x60) deviceInfoContent) none

def sendProductInfo (dst : Ip) (dport : Nat) : Info :=
  commitCounted s dst dport (infoMessage s 0xFFFF (infoOpcode 0x00 0xc0) productInfoContent) none

def sendNetworkInfo (dst : Ip) (dport : Nat) : Info :=
  commitCounted s dst dport
    (infoMessage s 0xFFFF (infoOpcode 0x00 0x11) (networkInfoContent s)) none

/-! ### The clock -/

/-- `clock_stats_tmpl`. -/
def clockStatsTmpl : List UInt8 :=
  [0x00, 0x03, 0x00, 0x03, 0x00, 0x00, 0x00, 0xff, 0xff, 0xff, 0xf1, 0x6a,
   0xc8, 0xa3, 0x62, 0xeb, 0xf8, 0xc8, 0x00, 0x00, 0x00, 0x1d, 0xc1, 0x2d,
   0x4a, 0x18, 0x00, 0x00, 0x00, 0x1d, 0xc1, 0x2d, 0x4a, 0x18, 0x00, 0x00,
   0x00, 0x01, 0x00, 0x34, 0x00, 0x09, 0x00, 0x00, 0x02, 0x34, 0x00, 0x00,
   0x00, 0x00, 0x00, 0x00, 0x00, 0x00, 0x00, 0x06, 0x00, 0x00, 0x00, 0x00,
   0x00, 0x00, 0x00, 0x00, 0x00, 0x00, 0x00, 0x00, 0x00, 0x00, 0x00, 0x00,
   0x00, 0x00, 0x00, 0x00, 0x00, 0x60, 0x0c, 0x00, 0x00, 0x00, 0x00, 0x0c,
   0x00, 0x78, 0x00, 0x20, 0x00, 0x01, 0x00, 0x00, 0x00, 0x68, 0x10, 0x00,
   0x00, 0x00, 0x00, 0x01, 0x01, 0x02, 0x01, 0x00, 0x00, 0x00, 0x00, 0x04,
   0x00, 0x09, 0x00, 0x07, 0x00, 0x01, 0x00, 0x07, 0x00, 0x98, 0x00, 0x04,
   0xc8, 0xa3, 0x62, 0xff, 0xfe, 0xeb, 0xf8, 0xc8, 0x00, 0x1d, 0xc1, 0xff,
   0xfe, 0x2d, 0x4a, 0x18, 0x00, 0x1d, 0xc1, 0xff, 0xfe, 0x2d, 0x4a, 0x18,
   0x00, 0x01, 0x00, 0x00]

/-- The EUI-64 form of a MAC. -/
def eui64 (m : Mac) : List UInt8 := [m.a, m.b, m.c, 0xFF, 0xFE, m.d, m.e, m.f]

/-- The template with the status, the rate and the clock ids in both of their forms. -/
def clockStatsContent : List UInt8 :=
  let c := overwrite clockStatsTmpl 2 [0x00, if s.ptp.servo.locked then 0x03 else 0x01]
  let c := overwrite c 8 (putS32 (servoPpb s.ptp))
  let c := overwrite c 12 (s.mac.bytes ++ [0, 0])
  let c := overwrite c 20 (s.ptp.masterUuid.bytes ++ [0, 0])
  let c := overwrite c 28 (s.ptp.masterUuid.bytes ++ [0, 0])
  let c := overwrite c 120 s.dev.deviceId.toList
  overwrite (overwrite c 128 (eui64 s.ptp.masterUuid)) 136 (eui64 s.ptp.masterUuid)

/-- The opcode of a request, with the byte that makes it a reply. -/
def replyOpcode (q : Datagram) : InfoOpcode :=
  (Vector.ofFn fun i : Fin 8 => q.req (24 + i)).set 3 0x20

/-- `(uint16_t)((req[4] << 8) | req[5])`. -/
def requestSeq (q : Datagram) : UInt16 := UInt16.ofNat (Mem.rd16 q.req 4)

/-- `send_clock_stats`: silent without a master.  A reply carries the number and the opcode of its
request; an announcement has its own. -/
def sendClockStats (dst : Ip) (dport : Nat) (request : Option Datagram) : Info :=
  if s.ptp.haveMaster then
    match request with
    | some q =>
        commitCounted s dst dport (putTotalLength
          (putHdrSeq s 0xFFFF (replyOpcode q) (requestSeq q) ++ clockStatsContent s))
          (some (requestSeq q))
    | none =>
        commitCounted s dst dport
          (infoMessage s 0xFFFF (infoOpcode 0x00 0x20) (clockStatsContent s)) none
  else s

/-! ### Capabilities -/

/-- A table of one supported value, `16` bytes and `8` more. -/
def capsTable (value tag : Nat) : List UInt8 :=
  Mem.be16 0x0018 ++ Mem.be16 1 ++ Mem.be32 value ++ Mem.be32 0 ++ Mem.be16 tag ++ Mem.be16 0 ++
    Mem.be32 value

/-- The body of `0x0084`. -/
def caps84Body : List UInt8 :=
  [0x00,0x30,0x00,0x05,0x00,0x00,0x00,0x00,0x00,0x00,0x00,0x00,
   0x00,0x02,0x00,0x00,0x00,0x00,0x00,0x01,0x00,0x00,0x00,0x00,
   0x00,0x00,0x00,0x00,0x00,0x00,0x00,0x00,0x00,0x00,0x00,0x00,
   0x00,0x00,0x00,0x00,0x00,0x00,0x00,0x00,0x00,0x00,0x00,0x01,
   0x00,0x00,0x00,0x02,0x00,0x00,0x00,0x03,0x00,0x00,0x00,0x04]

/-- The opcode bytes and the content of the four messages of `send_caps`. -/
def capsMessages : List (UInt8 × UInt8 × List UInt8) :=
  [(0x00, 0x80, capsTable 48000 0), (0x00, 0x82, capsTable 24 2),
   (0x10, 0x09, List.replicate 16 0), (0x00, 0x84, caps84Body)]

def sendCap (dst : Ip) (dport : Nat) (s : Info) (m : UInt8 × UInt8 × List UInt8) : Info :=
  (commitInfo s dst dport (infoMessage s 0xFFFF (infoOpcode m.1 m.2.1) m.2.2) none).1

/-- `send_caps`; these messages are not counted. -/
def sendCaps (dst : Ip) (dport : Nat) : Info := capsMessages.foldl (sendCap dst dport) s

end Announcements

/-! ## Requests and the schedule -/

section Handlers

variable (s : Info)

/-- `info_rx`, on the port that heartbeats are sent from. -/
def infoRx (q : Datagram) : Info :=
  if q.len < mcastHdrLen then s
  else
    let s := { s with stats := { s.stats with rx := s.stats.rx + 1 } }
    let query := q.req (24 + 3)
    if query = 0x60 ∨ query = 0x61 then sendDeviceInfo s q.srcIp q.srcPort
    else if query = 0xc0 ∨ query = 0xc1 then sendProductInfo s q.srcIp q.srcPort
    else if query = 0x13 then sendNetworkInfo s q.srcIp q.srcPort
    else if query = 0x21 then sendClockStats s grpDevinfo dantePortInfo (some q)
    else { s with stats := { s.stats with rxUnknown := s.stats.rxUnknown + 1 } }

/-- The five announcements of one pass. -/
def announceInfo : Info :=
  let s := sendDeviceInfo s grpDevinfo dantePortInfo
  let s := sendProductInfo s grpDevinfo dantePortInfo
  let s := sendNetworkInfo s grpDevinfo dantePortInfo
  let s := sendClockStats s grpDevinfo dantePortInfo none
  sendCaps s grpDevinfo dantePortInfo

/-- `(int32_t)(now - t) >= 0`. -/
def reached (now t : UInt32) : Bool := decide (0 ≤ (now - t).toBitVec.toInt)

/-- `dante_info_poll`: a pass that announces sends no heartbeat. -/
def danteInfoPoll (now : UInt32) : Info :=
  if s.infoAnnounceNextMs = 0 ∨ reached now s.infoAnnounceNextMs = true then
    { announceInfo s with infoAnnounceNextMs := now + infoAnnounceMs }
  else if s.nextHeartbeatMs ≠ 0 ∧ reached now s.nextHeartbeatMs = false then s
  else sendHeartbeat { s with nextHeartbeatMs := now + heartbeatMs }

/-- `dante_info_init`. -/
def danteInfoInit : Info :=
  let net := (netUdpBind s.net dantePortInfoReq .info).1
  let net := (netIgmpJoin (netIgmpJoin net grpHeartbeat).1 grpDevinfo).1
  { s with net := net, nextHeartbeatMs := 0, infoAnnounceNextMs := 0 }

end Handlers

end Firmware
end InfernoFpga
