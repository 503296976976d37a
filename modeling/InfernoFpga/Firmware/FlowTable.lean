import InfernoFpga.Firmware.Gateware
import InfernoFpga.Firmware.Net

/-!
# FlowTable — the firmware's flow table and what it writes to the gateware

`dante_tx.c` keeps six flow slots and mirrors each into a packetizer context through the CSR
bus.  Binding, unbinding, re-initialising and re-anchoring are modelled with every CSR write
they make, in the source's order.  Times are the 32-bit uptime the source reads; the live sample
counter read by the seqlock loop is an input.
-/

namespace InfernoFpga
namespace Firmware

open Packetizer (CtxId Word Byte)

/-! ## Constants and table entries -/

abbrev nFlows : Nat := 6
abbrev danteTxChannels : Nat := 48
abbrev dantePortMedia : BitVec 16 := 4321
abbrev danteTxIpTos : Nat := 0xB8
abbrev danteTxIpTtl : Nat := 1
abbrev bytesPerSamp : Nat := 3

/-- `k_fpp_table`. -/
def kFppTable : List Nat := [8, 16, 24, 32, 60, 4, 2, 48]

/-- `dante_tx_fpp_index`. -/
def fppIndex (fpp : Nat) : Nat :=
  if fpp ∈ kFppTable then kFppTable.idxOf fpp else 0

/-- A packet size of the table. -/
abbrev Fpp := { n : Nat // n ∈ kFppTable }

/-- A slot count a flow can have. -/
abbrev SlotCount := { n : Nat // 1 ≤ n ∧ n ≤ 8 }

theorem one_slot : 1 ≤ 1 ∧ 1 ≤ 8 := by decide
theorem two_slots : 1 ≤ 2 ∧ 2 ≤ 8 := by decide
theorem sixteen_mem : 16 ∈ kFppTable := by decide

/-- `flow_slot_t`. -/
structure FlowSlot where
  inUse : Bool
  peer : Ip
  lastMs : UInt32
  rebinds : UInt32
  dst : Ip
  dport : BitVec 16
  nslots : SlotCount
  fpp : Fpp
  mcast : Bool
  extId : BitVec 16
  chans : Fin 8 → BitVec 16
  dmac : Mac

/-- An entry of the zeroed table.  Shape fields are read only while a slot is in use. -/
def FlowSlot.free : FlowSlot :=
  { inUse := false, peer := ⟨0, 0, 0, 0⟩, lastMs := 0, rebinds := 0, dst := ⟨0, 0, 0, 0⟩
    dport := 0, nslots := ⟨1, one_slot⟩, fpp := ⟨16, sixteen_mem⟩, mcast := false, extId := 0
    chans := fun _ => 0, dmac := ⟨0, 0, 0, 0, 0, 0⟩ }

/-- The state of `dante_tx.c` and the packetizer's contexts. -/
structure Tx where
  netIp : Ip
  mac : Mac
  flowIp : CtxId → Ip
  mcastFpp : Fpp
  phaseAdj : Nat
  talkerOn : Bool
  flows : CtxId → FlowSlot
  gw : Gateware

/-- Firmware and gateware before the first initialisation. -/
def Tx.boot (netIp : Ip) (mac : Mac) : Tx :=
  { netIp := netIp, mac := mac, flowIp := fun _ => ⟨0, 0, 0, 0⟩, mcastFpp := ⟨16, sixteen_mem⟩
    phaseAdj := 2, talkerOn := false, flows := fun _ => FlowSlot.free, gw := Gateware.reset }

/-! ## What a flow's context should hold -/

def Ip.word (ip : Ip) : Word :=
  ip.a.toBitVec ++ ip.b.toBitVec ++ ip.c.toBitVec ++ ip.d.toBitVec

def Mac.hi (m : Mac) : BitVec 16 := m.a.toBitVec ++ m.b.toBitVec

def Mac.lo (m : Mac) : Word := m.c.toBitVec ++ m.d.toBitVec ++ m.e.toBitVec ++ m.f.toBitVec

/-- `ip_header_checksum`. -/
def ipHeaderChecksum (src dst : Ip) (totalLen tos ttl : Nat) : BitVec 16 :=
  let half := fun (hi lo : UInt8) => hi.toNat * 256 + lo.toNat
  let sum := (0x4500 ||| tos) + totalLen + (ttl * 256 + 17) + half src.a src.b +
    half src.c src.d + half dst.a dst.b + half dst.c dst.d
  ~~~ BitVec.ofNat 16 (carry (carry sum))

/-- Length of the IP packet of a flow. -/
def ipTotal (nslots fpp : Nat) : Nat := (20 + 8 + 9 + nslots * fpp * bytesPerSamp) % 2 ^ 16

/-- Entry `i` of the channel map: valid bit and channel number. -/
def chmapEntry (chans : Fin 8 → BitVec 16) (nslots : Nat) (i : Fin 8) : Byte :=
  if i.val < nslots ∧ chans i ≠ 0 ∧ (chans i).toNat ≤ danteTxChannels then
    ((chans i - 1).setWidth 8 &&& 0x3F) ||| 0x80
  else 0

def chmapLo (chans : Fin 8 → BitVec 16) (nslots : Nat) : Word :=
  let e := chmapEntry chans nslots
  e 3 ++ e 2 ++ e 1 ++ e 0

def chmapHi (chans : Fin 8 → BitVec 16) (nslots : Nat) : Word :=
  let e := chmapEntry chans nslots
  e 7 ++ e 6 ++ e 5 ++ e 4

/-- The `flow_cfg` byte. -/
def flowCfg (nslots fpp : Nat) : Byte := BitVec.ofNat 8 (nslots % 16 + fppIndex fpp % 8 * 16)

/-- The binding of a destination and a shape. -/
def binding (netIp dst : Ip) (dmac : Mac) (dport : BitVec 16) (chans : Fin 8 → BitVec 16)
    (nslots fpp : Nat) : Latched :=
  { dip := dst.word
    csum := ipHeaderChecksum netIp dst (ipTotal nslots fpp) danteTxIpTos danteTxIpTtl
    sport := dantePortMedia
    dport := dport
    dmac := dmac.hi ++ dmac.lo
    cmlo := chmapLo chans nslots
    cmhi := chmapHi chans nslots
    cfg := flowCfg nslots fpp }

/-- The MAC a slot's flow goes to: a group's own, else the one that was resolved. -/
def FlowSlot.mac (s : FlowSlot) : Mac := if s.mcast then netMcastMac s.dst else s.dmac

/-- The binding that follows from a flow slot. -/
def FlowSlot.binding (netIp : Ip) (s : FlowSlot) : Latched :=
  Firmware.binding netIp s.dst s.mac s.dport s.chans s.nslots s.fpp

/-! ## Writing a context -/

/-- The seqlock loop: phase and configuration, again while the sample counter moved between. -/
def seedLoop (fpp adj : Nat) (cfg : Byte) (reads : Nat → Nat × Nat) :
    Nat → Nat → Gateware → Gateware
  | 0, _, g => g
  | tries + 1, k, g =>
      let phase := BitVec.ofNat 8 (((reads k).1 + adj) % 2 ^ 32 % fpp)
      let g := (g.writeFlowPhase phase).writeFlowCfg cfg
      if (reads k).2 = (reads k).1 then g else seedLoop fpp adj cfg reads tries (k + 1) g

/-- The header registers that latch nothing by themselves. -/
def writeHeaderRegs (g : Gateware) (dst : Ip) (dmac : Mac) (csum : BitVec 16) : Gateware :=
  let g := g.writeDstIp dst.word
  let g := g.writeIpCsum csum
  let g := g.writeUdpSport dantePortMedia
  g.writeDstMacHi dmac.hi

/-- The header writes: destination, checksum, ports, MAC.  `udp_dport` comes last. -/
def writeHeader (g : Gateware) (dst : Ip) (dmac : Mac) (csum dport : BitVec 16) : Gateware :=
  ((writeHeaderRegs g dst dmac csum).writeDstMacLo dmac.lo).writeUdpDport dport

/-- `write_ctx`. -/
def writeCtx (t : Tx) (f : CtxId) (dst : Ip) (dmac : Mac) (dport : BitVec 16)
    (chans : Fin 8 → BitVec 16) (nslots fpp : Nat) (reads : Nat → Nat × Nat) : Gateware :=
  let csum := ipHeaderChecksum t.netIp dst (ipTotal nslots fpp) danteTxIpTos danteTxIpTtl
  let g := t.gw.writeCtxSelect f
  let g := g.writeChmap (chmapLo chans nslots) (chmapHi chans nslots)
  let g := writeHeader g dst dmac csum dport
  seedLoop fpp t.phaseAdj (flowCfg nslots fpp) reads 8 0 g

/-- `bind_flow`: the header of a bundle's group, with `nslots = 0`. -/
def bindFlow (t : Tx) (f : CtxId) : Tx :=
  let dip := t.flowIp f
  let csum := ipHeaderChecksum t.netIp dip 421 danteTxIpTos danteTxIpTtl
  let g := writeHeader (t.gw.writeCtxSelect f) dip (netMcastMac dip) csum dantePortMedia
  { t with gw := g.writeFlowCfg 0 }

/-- The groups of the six bundles, and the registers all flows share. -/
def initShared (t : Tx) : Tx :=
  let csr := { t.gw.csr with
    srcIp := t.netIp.word, srcMacHi := t.mac.hi, srcMacLo := t.mac.lo
    ipTos := BitVec.ofNat 8 danteTxIpTos, ipTtl := BitVec.ofNat 8 danteTxIpTtl, tsOffset := 0 }
  { t with
    flowIp := fun f => ⟨239, 255, t.mac.e, t.mac.f + UInt8.ofNat f.val⟩
    gw := { t.gw with csr := csr }
    talkerOn := false }

/-- `dante_tx_init`: the shared registers, then every context bound with `nslots = 0`.  The
flow table is not touched. -/
def danteTxInit (t : Tx) : Tx := (List.finRange nFlows).foldl bindFlow (initShared t)

/-! ## Choosing a slot -/

/-- A parsed unicast request, as `flows_rx` hands it on. -/
structure UnicastReq where
  peer : Ip
  dst : Ip
  dport : BitVec 16
  chans : Fin 8 → BitVec 16
  nslots : SlotCount
  fpp : Fpp

def findFlow (t : Tx) (p : FlowSlot → Bool) : Option CtxId :=
  (List.finRange nFlows).find? fun i => p (t.flows i)

/-- The slot that already serves this peer and destination socket. -/
def sameSocket (r : UnicastReq) (s : FlowSlot) : Bool :=
  s.inUse && s.dport == r.dport && s.peer == r.peer && s.dst == r.dst

def sameId (extId : BitVec 16) (s : FlowSlot) : Bool := s.inUse && s.mcast && s.extId == extId

/-- One step of the scan for the oldest unicast slot. -/
def olderUnicast (t : Tx) (now : UInt32) (acc : UInt32 × Option CtxId) (i : CtxId) :
    UInt32 × Option CtxId :=
  if (t.flows i).mcast then acc
  else
    let age := now - (t.flows i).lastMs
    if acc.2.isNone || decide (acc.1 ≤ age) then (age, some i) else acc

/-- One step of the scan for the oldest slot of all. -/
def older (age : CtxId → UInt32) (acc : UInt32 × CtxId) (i : CtxId) : UInt32 × CtxId :=
  if acc.1 ≤ age i then (age i, i) else acc

/-- The victim of a unicast bind: the oldest unicast slot, else the oldest multicast one. -/
def unicastVictim (t : Tx) (now : UInt32) : CtxId :=
  match ((List.finRange nFlows).foldl (olderUnicast t now) (0, none)).2 with
  | some f => f
  | none => ((List.finRange nFlows).foldl (older fun i => now - (t.flows i).lastMs) (0, 0)).2

/-- The victim of a multicast bind: the oldest slot, with ages clamped to one hour. -/
def multicastVictim (t : Tx) (now : UInt32) : CtxId :=
  let age := fun i => if 3600000 < now - (t.flows i).lastMs then 3600000
    else now - (t.flows i).lastMs
  ((List.finRange nFlows).foldl (older age) (0, 0)).2

/-! ## The operations -/

def setFlow (t : Tx) (f : CtxId) (s : FlowSlot) : Tx :=
  { t with flows := Function.update t.flows f s }

/-- Evicting a unicast victim only clears `in_use`; its context is rewritten at once. -/
def evict (t : Tx) (f : CtxId) : Tx := setFlow t f { t.flows f with inUse := false }

/-- The slot `dante_tx_bind_unicast` leaves behind.  `ext_id` is not among the fields it sets. -/
def unicastSlot (s : FlowSlot) (r : UnicastReq) (dmac : Mac) (now : UInt32) : FlowSlot :=
  { s with
    inUse := true
    peer := if s.inUse then s.peer else r.peer
    rebinds := if s.inUse then s.rebinds else s.rebinds + 1
    dst := r.dst
    dmac := dmac
    dport := r.dport
    nslots := r.nslots
    fpp := r.fpp
    mcast := false
    chans := fun i => if i.val < r.nslots.val then r.chans i else 0
    lastMs := now }

def bindUnicastInto (t : Tx) (f : CtxId) (r : UnicastReq) (dmac : Mac) (now : UInt32)
    (reads : Nat → Nat × Nat) : Tx :=
  let t := { t with gw := writeCtx t f r.dst dmac r.dport r.chans r.nslots r.fpp reads }
  setFlow t f (unicastSlot (t.flows f) r dmac now)

/-- `dante_tx_bind_unicast` once the destination's MAC is resolved. -/
def bindUnicast (t : Tx) (r : UnicastReq) (dmac : Mac) (now : UInt32)
    (reads : Nat → Nat × Nat) : Tx × CtxId :=
  match findFlow t (sameSocket r) with
  | some f => (bindUnicastInto t f r dmac now reads, f)
  | none =>
      match findFlow t fun s => !s.inUse with
      | some f => (bindUnicastInto t f r dmac now reads, f)
      | none =>
          let f := unicastVictim t now
          (bindUnicastInto (evict t f) f r dmac now reads, f)

/-- `dante_tx_unbind`; an idle context is refused. -/
def unbind (t : Tx) (f : CtxId) : Tx :=
  if (t.flows f).inUse then
    { setFlow t f { t.flows f with inUse := false } with
      gw := (t.gw.writeCtxSelect f).writeFlowCfg 0 }
  else t

/-- The slot `dante_tx_bind_multicast` leaves behind. -/
def multicastSlot (t : Tx) (f : CtxId) (extId : BitVec 16) (chans : Fin 8 → BitVec 16)
    (n : SlotCount) (now : UInt32) : FlowSlot :=
  { t.flows f with
    inUse := true
    dst := t.flowIp f
    dport := dantePortMedia
    nslots := n
    fpp := t.mcastFpp
    mcast := true
    extId := extId
    chans := fun i => if i.val < n.val then chans i else 0
    lastMs := now }

def bindMulticastInto (t : Tx) (f : CtxId) (extId : BitVec 16) (chans : Fin 8 → BitVec 16)
    (n : SlotCount) (now : UInt32) (reads : Nat → Nat × Nat) : Tx :=
  let dip := t.flowIp f
  let t := { t with
    gw := writeCtx t f dip (netMcastMac dip) dantePortMedia chans n t.mcastFpp reads }
  setFlow t f (multicastSlot t f extId chans n now)

/-- `dante_tx_bind_multicast`; a slot count outside 1..8 is refused by the type. -/
def bindMulticast (t : Tx) (extId : BitVec 16) (chans : Fin 8 → BitVec 16) (n : SlotCount)
    (now : UInt32) (reads : Nat → Nat × Nat) : Tx × CtxId :=
  match findFlow t (sameId extId) with
  | some f => (bindMulticastInto t f extId chans n now reads, f)
  | none =>
      match findFlow t fun s => !s.inUse with
      | some f => (bindMulticastInto t f extId chans n now reads, f)
      | none =>
          let f := multicastVictim t now
          (bindMulticastInto (unbind t f) f extId chans n now reads, f)

/-- `dante_tx_drop_all`. -/
def dropAll (t : Tx) : Tx := (List.finRange nFlows).foldl unbind t

/-- One context of `dante_tx_reseed_phases`. -/
def reseedFlow (sub : Nat) (t : Tx) (f : CtxId) : Tx :=
  let s := t.flows f
  if s.inUse then
    let g := t.gw.writeCtxSelect f
    let phase := BitVec.ofNat 8 ((sub + t.phaseAdj + s.fpp.val - 1) % 2 ^ 32 % s.fpp.val)
    { t with gw := (g.writeFlowPhase phase).writeFlowCfg (flowCfg s.nslots s.fpp) }
  else t

/-- `dante_tx_reseed_phases`. -/
def reseedPhases (t : Tx) (sub : Nat) : Tx := (List.finRange nFlows).foldl (reseedFlow sub) t

/-- `aaf_gw_set`, behind the console's talker on and off. -/
def aafGwSet (t : Tx) (on : Bool) : Tx :=
  if on then danteTxInit t else { t with gw := t.gw.writeEnable false }

/-! ## Asking the table -/

/-- `flows[i].in_use && flows[i].mcast`. -/
def FlowSlot.isGroup (s : FlowSlot) : Bool := s.inUse && s.mcast

/-- The position of a channel in a slot's map, 1-based. -/
def slotPosition (s : FlowSlot) (ch1 : Nat) : Option Nat :=
  ((List.finRange 8).find? fun c => decide (c.val < s.nslots.val) && (s.chans c).toNat == ch1).map
    fun c => c.val + 1

/-- `dante_tx_chan_bundle`: the first multicast flow that carries the channel, and where. -/
def danteTxChanBundle (t : Tx) (ch1 : Nat) : Option (BitVec 16 × Nat) :=
  (List.finRange nFlows).findSome? fun f =>
    if (t.flows f).isGroup then
      (slotPosition (t.flows f) ch1).map fun pos => ((t.flows f).extId, pos)
    else none

/-- `dante_tx_mcast_by_id`: the group and slot count of an active multicast flow. -/
def danteTxMcastById (t : Tx) (id : BitVec 16) : Option (Ip × Nat) :=
  (findFlow t (sameId id)).map fun f => ((t.flows f).dst, (t.flows f).nslots.val)

/-- The ids that `dante_tx_mcast_enum` counts through. -/
def danteTxMcastIds (t : Tx) : List (BitVec 16) :=
  ((List.finRange nFlows).filter fun f => (t.flows f).isGroup).map fun f => (t.flows f).extId

/-- `dante_tx_active`. -/
def danteTxActive (t : Tx) : Nat :=
  ((List.finRange nFlows).filter fun f => (t.flows f).inUse).length

/-- A packet's window in nanoseconds. -/
def windowNs (fpp : Nat) : Nat := fpp * 1000000000 / 48000

def stdLat : List Nat := [250000, 500000, 1000000, 2000000, 5000000]

/-- `dante_tx_latency_effective`. -/
def danteTxLatencyEffective (t : Tx) (latencyNs : Nat) (autoraise : Bool) : Nat :=
  if autoraise then
    let worst := (List.finRange nFlows).foldl (fun worst f =>
      if (t.flows f).inUse then max worst (windowNs (t.flows f).fpp) else worst) 0
    max ((stdLat.find? fun lat => decide (worst < lat)).getD 5000000) latencyNs
  else latencyNs

/-! ## Runs -/

inductive TxOp
  | init
  /-- `dante_tx_bind_unicast`, with what the ARP lookup of the destination returned. -/
  | unicast (r : UnicastReq) (dmac : Option Mac) (now : UInt32) (reads : Nat → Nat × Nat)
  | multicast (extId : BitVec 16) (chans : Fin 8 → BitVec 16) (n : SlotCount) (now : UInt32)
      (reads : Nat → Nat × Nat)
  | unbind (f : CtxId)
  | dropAll
  | reseed (sub : Nat)
  | talker (on : Bool)
  /-- The diagnostic port's packet size for multicast flows bound from now on. -/
  | setMcastFpp (fpp : Fpp)

def txStep (t : Tx) : TxOp → Tx
  | .init => danteTxInit t
  | .unicast r (some dmac) now reads => (bindUnicast t r dmac now reads).1
  | .unicast _ none _ _ => t
  | .multicast extId chans n now reads => (bindMulticast t extId chans n now reads).1
  | .unbind f => unbind t f
  | .dropAll => dropAll t
  | .reseed sub => reseedPhases t sub
  | .talker on => aafGwSet t on
  | .setMcastFpp fpp => { t with mcastFpp := fpp }

end Firmware
end InfernoFpga
