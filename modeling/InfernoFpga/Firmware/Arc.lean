import InfernoFpga.Firmware.DanteMsg
import InfernoFpga.Lib.Segment
import InfernoFpga.Mdns.Record

/-!
# Arc — the enumerations of the routing protocol

Four requests list what the device has: its transmit channels, their friendly names, its receive
channels with their subscriptions, its transmit flows.  Their replies are pages: an area of slots
reserved in advance, and behind it the strings and descriptors the slots point at.  The message is
held here as the bytes used so far, header included, so that offsets are absolute as they are on
the wire.
-/

namespace InfernoFpga
namespace Firmware

open Lib
open Mdns (Str ascii digit danteTxChannelName dantePortArc)

/-! ## Constants and state -/

abbrev danteCodeMore : Nat := 0x8112
abbrev danteRxChannels : Nat := 2
abbrev danteMaxSubname : Nat := 32
abbrev subStatusPending : Nat := 1
abbrev packetSizeSoftLimit : Nat := 800

/-- The contents of `sub_tx_name[i]` or `sub_tx_host[i]`. -/
abbrev SubName := { s : Str // s.length < danteMaxSubname ∧ 0 ∉ s }

/-- What the enumerations read: the device's format, its flows and latency settings, its
subscriptions. -/
structure ArcState where
  sampleRate : UInt32
  bitsPerSample : UInt8
  processId : UInt16
  tx : Tx
  latencyNs : UInt32
  latencyAutoraise : Bool
  subTxName : Fin danteRxChannels → SubName
  subTxHost : Fin danteRxChannels → SubName

/-! ## The message -/

/-- `dante_msg_t`, with the bytes of its buffer that are in use. -/
structure ArcMsg where
  buf : List UInt8

namespace ArcMsg

variable (m : ArcMsg)

/-- `m.len`. -/
def len : Nat := m.buf.length

/-- Bytes appended. -/
def put (bs : List UInt8) : ArcMsg := ⟨m.buf ++ bs⟩

/-- Bytes written over others. -/
def store (off : Nat) (bs : List UInt8) : ArcMsg := ⟨overwrite m.buf off bs⟩

/-- The offset what is appended next will have, in the 16 bits of a descriptor field. -/
def here : Nat := m.len % 2 ^ 16

/-- `dante_msg_str`. -/
def str (s : Str) : ArcMsg × Nat := (m.put (s ++ [0]), m.here)

/-- `while (m.len & 3) dante_msg_u8(&m, 0)`. -/
def align4 : ArcMsg := m.put (List.replicate ((4 - m.len % 4) % 4) 0)

/-- `dante_msg_finish`. -/
def finish (code : Nat) : ArcMsg := (m.store 2 (Mem.be16 m.len)).store 8 (Mem.be16 code)

end ArcMsg

/-- `dante_msg_begin`. -/
def arcMsgBegin (req : Mem) : ArcMsg := ⟨danteHeader req⟩

/-- Consecutive 16-bit fields. -/
def fieldBytes (fields : List Nat) : List UInt8 := fields.flatMap Mem.be16

/-! ## Pages -/

/-- `page_t`. -/
structure Page where
  itemsAt : Nat
  itemSize : Nat
  space : Nat
  actual : Nat

/-- `page_begin`. -/
def pageBegin (m : ArcMsg) (itemSize space : Nat) : ArcMsg × Page :=
  let space := if 255 < space then 255 else space
  let m := m.put [UInt8.ofNat space, 0]
  (m.put (List.replicate (itemSize * space) 0), ⟨m.len, itemSize, space, 0⟩)

/-- `page_slot`. -/
def pageSlot (pg : Page) : Nat := pg.itemsAt + pg.actual * pg.itemSize

/-- `page_end`. -/
def pageEnd (m : ArcMsg) (pg : Page) : ArcMsg := m.store (pg.itemsAt - 1) [UInt8.ofNat pg.actual]

/-- The loop over the items, `k` indices being left.  `item` appends what an entry points at and
gives the fields of its slot, or nothing for an index it skips; `c` is what it carries from one
entry to the next. -/
def pageLoop {σ : Type} (item : Nat → σ → ArcMsg → Option (σ × ArcMsg × List Nat)) :
    Nat → Nat → σ → ArcMsg → Page → Nat × ArcMsg × Page
  | 0, idx, _, m, pg => (idx, m, pg)
  | k + 1, idx, c, m, pg =>
      if pg.actual < pg.space then
        match item idx c m with
        | none => pageLoop item k (idx + 1) c m pg
        | some (c, m, fields) =>
            let m := m.store (pageSlot pg) (fieldBytes fields)
            let pg := { pg with actual := pg.actual + 1 }
            if packetSizeSoftLimit ≤ m.len then (idx + 1, m, pg)
            else pageLoop item k (idx + 1) c m pg
      else (idx, m, pg)

/-- A page of the items `start` to `limit`: the message, and the result code. -/
def arcPage {σ : Type} (item : Nat → σ → ArcMsg → Option (σ × ArcMsg × List Nat)) (c : σ)
    (itemSize space limit start : Nat) (m : ArcMsg) : ArcMsg × Nat :=
  let (m, pg) := pageBegin m itemSize space
  let (idx, m, pg) := pageLoop item (limit + 1 - start) start c m pg
  (pageEnd m pg, if idx ≤ limit then danteCodeMore else danteCodeOk)

/-! ## Channels -/

section Items

variable (s : ArcState)

/-- The 16 bytes `put_common_descriptor` appends. -/
def commonDescriptor : List UInt8 :=
  Mem.be32 s.sampleRate.toNat ++ [1, 1] ++ Mem.be16 s.bitsPerSample.toNat ++ Mem.be16 0x400 ++
    Mem.be16 s.bitsPerSample.toNat ++ Mem.be16 s.bitsPerSample.toNat ++ Mem.be16 0xE

/-- `if (!common) common = put_common_descriptor(&m)`. -/
def withCommon (common : Nat) (m : ArcMsg) : Nat × ArcMsg :=
  if common = 0 then (m.here, m.put (commonDescriptor s)) else (common, m)

def txChannelItem (idx common : Nat) (m : ArcMsg) : Option (Nat × ArcMsg × List Nat) :=
  let (common, m) := withCommon s common m
  let (m, nameOff) := m.str (danteTxChannelName idx)
  some (common, m, [idx, 7, common, nameOff])

/-- `OP_GET_TX_CHANNELS`. -/
def getTxChannels (start : Nat) (m : ArcMsg) : ArcMsg × Nat :=
  arcPage (txChannelItem s) 0 8 32 danteTxChannels start m

def txFriendlyItem (idx : Nat) (wrotePad : Bool) (m : ArcMsg) : Option (Bool × ArcMsg × List Nat) :=
  let m := if wrotePad then m else m.put (Mem.be32 0)
  let (m, nameOff) := m.str (danteTxChannelName idx)
  some (true, m, [idx, idx, nameOff])

/-- `OP_GET_TX_FRIENDLY_NAMES`. -/
def getTxFriendlyNames (start : Nat) (m : ArcMsg) : ArcMsg × Nat :=
  arcPage txFriendlyItem false 6 32 danteTxChannels start m

/-- The label of a receive slot. -/
def rxChannelName (idx : Nat) : Str := ascii "Rx" ++ [digit idx]

/-- The subscription of a receive channel: the offsets of the names, and the status. -/
def putSubscription (txName txHost : Str) (m : ArcMsg) : ArcMsg × Nat × Nat × Nat :=
  if txName = [] then (m, 0, 0, 0)
  else
    let (m, txOff) := m.str txName
    if txHost = [] then (m, txOff, 0, subStatusPending)
    else
      let (m, hostOff) := m.str txHost
      (m, txOff, hostOff, subStatusPending)

/-- `sub_tx_name[idx - 1]`, or `sub_tx_host[idx - 1]`. -/
def subName (names : Fin danteRxChannels → SubName) (idx : Nat) : Str :=
  if h : idx - 1 < danteRxChannels then (names ⟨idx - 1, h⟩).1 else []

def rxChannelItem (idx common : Nat) (m : ArcMsg) : Option (Nat × ArcMsg × List Nat) :=
  let (common, m) := withCommon s common m
  let (m, nameOff) := m.str (rxChannelName idx)
  let (m, txOff, hostOff, status) :=
    putSubscription (subName s.subTxName idx) (subName s.subTxHost idx) m
  some (common, m,
    [idx, 6, common, txOff, hostOff, nameOff, status / 65536, status % 65536, 0, 0])

/-- `OP_GET_RX_CHANNELS`. -/
def getRxChannels (start : Nat) (m : ArcMsg) : ArcMsg × Nat :=
  arcPage (rxChannelItem s) 0 20 danteRxChannels danteRxChannels start m

/-! ## Flows -/

/-- The digits of a process id, leading zeros left out. -/
def processDigits : List Nat → Nat → Bool → Str
  | [], _, _ => []
  | div :: divs, pid, lead =>
      let d := pid / div % 10
      if d ≠ 0 ∨ lead = true ∨ div = 1 then digit d :: processDigits divs pid true
      else processDigits divs pid lead

/-- `<flow_id>_<process_id>`. -/
def flowName (f : Nat) : Str :=
  (if 10 ≤ f then [digit (f / 10)] else []) ++ [digit (f % 10)] ++ ascii "_" ++
    processDigits [10000, 1000, 100, 10, 1] s.processId.toNat false

/-- `dante_tx_flow_desc`: the slot of a bound flow. -/
def danteTxFlowDesc (t : Tx) (f : Nat) : Option FlowSlot :=
  if h : f < nFlows then
    if (t.flows ⟨f, h⟩).inUse then some (t.flows ⟨f, h⟩) else none
  else none

/-- The id a flow is reported by. -/
def flowExtId (slot : FlowSlot) (f : Nat) : Nat :=
  if slot.extId = 0 then (f + 1) % 2 ^ 16 else slot.extId.toNat

/-- The channels of a flow's slots. -/
def flowChans (slot : FlowSlot) : List Nat :=
  ((List.finRange 8).take slot.nslots.val).map fun c => (slot.chans c).toNat

def flowLatency : Nat := danteTxLatencyEffective s.tx s.latencyNs.toNat s.latencyAutoraise

/-- The socket block: transport, port, address. -/
def flowSocket (slot : FlowSlot) : List UInt8 :=
  Mem.be16 0x8002 ++ Mem.be16 slot.dport.toNat ++ slot.dst.bytes

/-- The names block; a flow has no remote host and no remote flow. -/
def flowNames (nameOff : Nat) : List UInt8 :=
  Mem.be16 0x0a00 ++ Mem.be16 1 ++ Mem.be16 0 ++ Mem.be16 0 ++ Mem.be16 0x0010 ++
    Mem.be16 nameOff ++ Mem.be32 (flowLatency s) ++ Mem.be32 0

/-- The descriptor of a flow, which points at the other two blocks. -/
def flowDescriptor (slot : FlowSlot) (f sockOff namesOff : Nat) : List UInt8 :=
  Mem.be16 (flowExtId slot f) ++ Mem.be16 (if slot.mcast then 2 else 0x11) ++
    Mem.be32 s.sampleRate.toNat ++ Mem.be16 0 ++ Mem.be16 s.bitsPerSample.toNat ++ Mem.be16 1 ++
    Mem.be16 slot.nslots.val ++ Mem.be16 sockOff ++ fieldBytes (flowChans slot) ++
    Mem.be16 namesOff

def txFlowItem (f : Nat) (_ : Unit) (m : ArcMsg) : Option (Unit × ArcMsg × List Nat) :=
  match danteTxFlowDesc s.tx (f - 1) with
  | none => none
  | some slot =>
      let (m, nameOff) := m.str (flowName s f)
      let m := m.align4
      let sockOff := m.here
      let m := m.put (flowSocket slot)
      let namesOff := m.here
      let m := m.put (flowNames s nameOff)
      let descrOff := m.here
      let m := m.put (flowDescriptor s slot (f - 1) sockOff namesOff)
      some ((), m, [descrOff])

/-- `OP_QUERY_TX_FLOWS`. -/
def queryTxFlows (start : Nat) (m : ArcMsg) : ArcMsg × Nat :=
  arcPage (txFlowItem s) () 2 nFlows nFlows start m

end Items

/-! ## Requests and replies -/

/-- The requests that enumerate. -/
inductive ArcList
  | txChannels
  | txFriendlyNames
  | rxChannels
  | txFlows
  deriving DecidableEq, Repr

def ArcList.opcode : ArcList → Nat
  | .txChannels => 0x2000
  | .txFriendlyNames => 0x2010
  | .rxChannels => 0x3000
  | .txFlows => 0x2200

/-- The start index of a request: 1 when absent or zero. -/
def arcStart (q : Datagram) : Nat :=
  let start := if 4 ≤ q.len - danteHdrLen then Mem.rd16 q.req (danteHdrLen + 2) else 1
  if start = 0 then 1 else start

/-- The cases of the opcode that enumerate. -/
def ArcList.build (s : ArcState) : ArcList → Nat → ArcMsg → ArcMsg × Nat
  | .txChannels => getTxChannels s
  | .txFriendlyNames => getTxFriendlyNames
  | .rxChannels => getRxChannels s
  | .txFlows => queryTxFlows s

/-- The message `arc_rx` builds, finished. -/
def arcReply (s : ArcState) (op : ArcList) (q : Datagram) : ArcMsg :=
  let (m, code) := op.build s (arcStart q) (arcMsgBegin q.req)
  m.finish code

/-- A request for an enumeration. -/
structure Datagram.Asks (q : Datagram) (op : ArcList) : Prop where
  len : danteHdrLen ≤ q.len
  opcode2 : q.opcode2 = 0
  opcode1 : q.opcode1 = op.opcode

def ArcList.all : List ArcList := [.txChannels, .txFriendlyNames, .rxChannels, .txFlows]

/-- `arc_rx`: the reply is built in the current transmit slot and committed.  Requests that
enumerate nothing are not modelled. -/
def arcRx (s : ArcState) (n : Net) (q : Datagram) : Option Net :=
  if q.len < danteHdrLen then some n
  else if q.opcode2 ≠ 0 then some n
  else
    (ArcList.all.find? fun op => op.opcode == q.opcode1).map fun op =>
      let m := arcReply s op q
      (netUdpCommit (txStore n udpPayloadOff m.buf) q.srcIp q.srcPort dantePortArc m.len
        netTosBestEffort).1

end Firmware
end InfernoFpga
