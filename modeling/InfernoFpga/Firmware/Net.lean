import InfernoFpga.Lib.Mem
import Mathlib.Data.Fin.Basic
import Mathlib.Data.List.FinRange

/-!
# Net — the IPv4 stack of the control plane: transmit slots, ARP, IGMP, ICMP, UDP

The stack borrows the MAC's two transmit slots: a frame is built in place in slot `txslot`, and
sending it moves on to the other slot.  `sent` is the history of frames handed to the MAC; the
firmware waits for the MAC to drain, so the bytes sent are the slot's bytes at that moment.
-/

namespace InfernoFpga
namespace Firmware

open Lib

/-! ## Addresses -/

structure Ip where
  a : UInt8
  b : UInt8
  c : UInt8
  d : UInt8
  deriving DecidableEq, Repr

structure Mac where
  a : UInt8
  b : UInt8
  c : UInt8
  d : UInt8
  e : UInt8
  f : UInt8
  deriving DecidableEq, Repr

namespace Ip

def bytes (ip : Ip) : List UInt8 := [ip.a, ip.b, ip.c, ip.d]

def read (m : Mem) (x : Nat) : Ip := ⟨m x, m (x + 1), m (x + 2), m (x + 3)⟩

def isMcast (ip : Ip) : Bool := decide (224 ≤ ip.a ∧ ip.a ≤ 239)

def isBcast (ip : Ip) : Bool := ip == ⟨255, 255, 255, 255⟩

def isZero (ip : Ip) : Bool := ip == ⟨0, 0, 0, 0⟩

end Ip

namespace Mac

def bytes (m : Mac) : List UInt8 := [m.a, m.b, m.c, m.d, m.e, m.f]

def read (m : Mem) (x : Nat) : Mac :=
  ⟨m x, m (x + 1), m (x + 2), m (x + 3), m (x + 4), m (x + 5)⟩

def broadcast : Mac := ⟨255, 255, 255, 255, 255, 255⟩

end Mac

/-- `net_mcast_mac`: `01:00:5e` and the low 23 bits of the group. -/
def netMcastMac (ip : Ip) : Mac := ⟨0x01, 0x00, 0x5e, ip.b &&& 0x7f, ip.c, ip.d⟩

/-! ## Constants -/

abbrev ethHdrLen : Nat := 14
abbrev ipHdrLen : Nat := 20
abbrev udpHdrLen : Nat := 8
abbrev arpEthertype : Nat := 0x0806
abbrev ipv4Ethertype : Nat := 0x0800
abbrev ipprotoIcmp : Nat := 1
abbrev ipprotoIgmp : Nat := 2
abbrev ipprotoUdp : Nat := 17
abbrev netMaxPayload : Nat := 1400
abbrev netTosBestEffort : UInt8 := 0x00
abbrev netTosAudio : UInt8 := 0xB8
abbrev arpCacheN : Nat := 6
abbrev igmpN : Nat := 6
abbrev igmpQuery : UInt8 := 0x11
abbrev igmpReportV2 : UInt8 := 0x16
abbrev udpBindingsN : Nat := 16

/-- The functions the firmware binds to UDP ports. -/
inductive Handler
  | arc
  | cmc
  | flows
  | info
  | mdns
  | stats
  | cap
  | ptp
  | probe
  deriving DecidableEq, Repr

structure ArpEntry where
  ip : Ip
  mac : Mac
  valid : Bool
  deriving DecidableEq

structure UdpBinding where
  port : Nat
  fn : Option Handler
  deriving DecidableEq

/-- `net_stats_t`. -/
structure NetStats where
  rxArp : UInt32
  rxIp : UInt32
  rxUdp : UInt32
  rxIcmp : UInt32
  rxIgmp : UInt32
  rxDropped : UInt32
  txUdp : UInt32
  txArp : UInt32
  txIcmp : UInt32
  txIgmp : UInt32
  txDropped : UInt32
  arpMisses : UInt32
  deriving DecidableEq

/-- A frame handed to the MAC: the slot it was taken from and its bytes. -/
structure Sent where
  slot : Fin 2
  bytes : List UInt8
  deriving DecidableEq

/-- The file-scope state of `net.c`, with the transmit slots of the MAC. -/
structure Net where
  ip : Ip
  prefixLen : UInt8
  mac : Mac
  stats : NetStats
  ipIdent : UInt16
  txslot : Fin 2
  slots : Fin 2 → Mem
  sent : List Sent
  arpCache : Fin arpCacheN → ArpEntry
  arpNext : Fin arpCacheN
  igmpGroups : List Ip
  udpBindings : Fin udpBindingsN → UdpBinding

/-- `net.c` as the firmware starts: zeroed tables, the link-local default address. -/
def Net.boot (slots : Fin 2 → Mem) : Net :=
  { ip := ⟨169, 254, 9, 200⟩, prefixLen := 16, mac := ⟨0, 0, 0, 0, 0, 0⟩
    stats := ⟨0, 0, 0, 0, 0, 0, 0, 0, 0, 0, 0, 0⟩, ipIdent := 0, txslot := 0, slots := slots
    sent := [], arpCache := fun _ => ⟨⟨0, 0, 0, 0⟩, ⟨0, 0, 0, 0, 0, 0⟩, false⟩, arpNext := 0
    igmpGroups := [], udpBindings := fun _ => ⟨0, none⟩ }

/-- `net_init`; an address or prefix that is not given stays. -/
def netInit (n : Net) (mac : Mac) (ip : Option Ip) (prefixLen : UInt8) : Net :=
  { n with
    mac := mac, ip := ip.getD n.ip, prefixLen := if prefixLen = 0 then n.prefixLen else prefixLen
    arpCache := fun _ => ⟨⟨0, 0, 0, 0⟩, ⟨0, 0, 0, 0, 0, 0⟩, false⟩
    stats := ⟨0, 0, 0, 0, 0, 0, 0, 0, 0, 0, 0, 0⟩, igmpGroups := [], txslot := 0 }

/-- `net_set_ip`. -/
def netSetIp (n : Net) (ip : Ip) (prefixLen : UInt8) : Net :=
  { n with ip := ip, prefixLen := if prefixLen = 0 then n.prefixLen else prefixLen }

/-! ## Checksum -/

/-- One round of the end-around carry. -/
def carry (sum : Nat) : Nat :=
  if sum / 65536 = 0 then sum else sum % 65536 + sum / 65536

/-- The summing loop, on 32-bit words. -/
def sum16 : List UInt8 → Nat → Nat
  | hi :: lo :: rest, sum => sum16 rest ((sum + (hi.toNat * 256 + lo.toNat)) % 2 ^ 32)
  | [hi], sum => (sum + hi.toNat * 256) % 2 ^ 32
  | [], sum => sum

/-- `net_checksum`.  Two rounds of the carry loop exhaust any 32-bit sum. -/
def netChecksum (data : List UInt8) (init : Nat) : Nat :=
  65535 - carry (carry (sum16 data init))

theorem sum16_lt : ∀ (data : List UInt8) {sum : Nat}, sum < 2 ^ 32 → sum16 data sum < 2 ^ 32
  | [], _, h => h
  | [_], _, _ => Nat.mod_lt _ (by decide)
  | _ :: _ :: rest, _, _ => sum16_lt rest (Nat.mod_lt _ (by decide))

/-- The carry loop has ended after two rounds. -/
theorem carry_carry_lt {sum : Nat} (h : sum < 2 ^ 32) : carry (carry sum) < 2 ^ 16 := by
  have hround : ∀ s : Nat, carry s = if s / 65536 = 0 then s else s % 65536 + s / 65536 :=
    fun _ => rfl
  rw [hround (carry sum), hround sum]
  split
  · omega
  · split <;> omega

/-! ## Transmit slots -/

section Transmit

variable (n : Net)

/-- `tx_buf`: the slot a frame is being built in. -/
def txBuf : Mem := n.slots n.txslot

/-- A write of `bs` at offset `a` of slot `s`. -/
def slotStore (s : Fin 2) (a : Nat) (bs : List UInt8) : Net :=
  { n with slots := Function.update n.slots s (Mem.store (n.slots s) a bs) }

/-- A write to the current slot. -/
def txStore (a : Nat) (bs : List UInt8) : Net := slotStore n n.txslot a bs

/-- `eth_send`. -/
def ethSend (len : Nat) : Net :=
  { n with
    sent := n.sent ++ [⟨n.txslot, Mem.slice (txBuf n) 0 (if len < 60 then 60 else len)⟩]
    txslot := n.txslot + 1 }

end Transmit

/-! ## ARP -/

def arpFind (n : Net) (ip : Ip) : Option (Fin arpCacheN) :=
  (List.finRange arpCacheN).find? fun i =>
    (n.arpCache i).valid && (n.arpCache i).ip == ip

/-- `arp_learn`. -/
def arpLearn (n : Net) (ip : Ip) (mac : Mac) : Net :=
  if ip.isMcast || ip.isBcast || ip.isZero then n
  else match arpFind n ip with
    | some i =>
        { n with arpCache := Function.update n.arpCache i { n.arpCache i with mac := mac } }
    | none =>
        { n with
          arpCache := Function.update n.arpCache n.arpNext ⟨ip, mac, true⟩
          arpNext := n.arpNext + 1 }

/-- The 60 bytes `arp_send` builds. -/
def arpFrame (n : Net) (op : Nat) (targetIp : Ip) (targetMac : Mac) : List UInt8 :=
  (if op = 1 then Mac.broadcast.bytes else targetMac.bytes) ++ n.mac.bytes ++
    Mem.be16 arpEthertype ++ Mem.be16 1 ++ Mem.be16 ipv4Ethertype ++ [6, 4] ++ Mem.be16 op ++
    n.mac.bytes ++ n.ip.bytes ++
    (if op = 2 then targetMac.bytes else List.replicate 6 0) ++ targetIp.bytes ++
    List.replicate 18 0

/-- `arp_send`. -/
def arpSend (n : Net) (op : Nat) (targetIp : Ip) (targetMac : Mac) : Net :=
  let n := ethSend (txStore n 0 (arpFrame n op targetIp targetMac)) 60
  { n with stats := { n.stats with txArp := n.stats.txArp + 1 } }

/-- The hit half of `net_arp_lookup`. -/
def arpResolve (n : Net) (ip : Ip) : Option Mac :=
  if ip.isMcast then some (netMcastMac ip)
  else if ip.isBcast then some Mac.broadcast
  else (arpFind n ip).map fun i => (n.arpCache i).mac

/-- `net_arp_lookup`: a miss counts and sends a request from the current slot. -/
def netArpLookup (n : Net) (ip : Ip) : Net × Option Mac :=
  match arpResolve n ip with
  | some mac => (n, some mac)
  | none =>
      let n := { n with stats := { n.stats with arpMisses := n.stats.arpMisses + 1 } }
      (arpSend n 1 ip ⟨0, 0, 0, 0, 0, 0⟩, none)

/-- `arp_rx`. -/
def arpRx (n : Net) (f : Mem) (len : Nat) : Net :=
  let a := ethHdrLen
  if len < ethHdrLen + 28 then n
  else if Mem.rd16 f a ≠ 1 ∨ Mem.rd16 f (a + 2) ≠ ipv4Ethertype ∨ f (a + 4) ≠ 6 ∨
      f (a + 5) ≠ 4 then n
  else
    let op := Mem.rd16 f (a + 6)
    let senderIp := Ip.read f (a + 14)
    let senderMac := Mac.read f (a + 8)
    let n := arpLearn n senderIp senderMac
    let n := { n with stats := { n.stats with rxArp := n.stats.rxArp + 1 } }
    if op = 1 ∧ Ip.read f (a + 24) = n.ip then arpSend n 2 senderIp senderMac else n

/-! ## IGMP -/

/-- The first 46 bytes of a membership report; `igmp_report` clears 60 bytes first. -/
def igmpFrame (n : Net) (group : Ip) : List UInt8 :=
  let ip := fun ck => [0x46, 0xC0] ++ Mem.be16 32 ++ Mem.be16 n.ipIdent.toNat ++ Mem.be16 0 ++
    [1, 2] ++ Mem.be16 ck ++ n.ip.bytes ++ group.bytes ++ Mem.be32 0x94040000
  let igmp := fun ck => [igmpReportV2, 0] ++ Mem.be16 ck ++ group.bytes
  (netMcastMac group).bytes ++ n.mac.bytes ++ Mem.be16 ipv4Ethertype ++
    ip (netChecksum (ip 0) 0) ++ igmp (netChecksum (igmp 0) 0) ++ List.replicate 14 0

/-- `igmp_report`. -/
def igmpReport (n : Net) (group : Ip) : Net :=
  let n := { txStore n 0 (igmpFrame n group) with ipIdent := n.ipIdent + 1 }
  let n := ethSend n (ethHdrLen + 24 + 8)
  { n with stats := { n.stats with txIgmp := n.stats.txIgmp + 1 } }

/-- `net_igmp_join`; `false` is the `-1` of a full table. -/
def netIgmpJoin (n : Net) (group : Ip) : Net × Bool :=
  if group ∈ n.igmpGroups then (n, true)
  else if igmpN ≤ n.igmpGroups.length then (n, false)
  else (igmpReport { n with igmpGroups := n.igmpGroups ++ [group] } group, true)

/-- `igmp_rx`, on a payload of `len` bytes at `p`. -/
def igmpRx (n : Net) (p : Mem) (len : Nat) : Net :=
  if len < 8 then n
  else
    let n := { n with stats := { n.stats with rxIgmp := n.stats.rxIgmp + 1 } }
    if p 0 ≠ igmpQuery then n
    else
      n.igmpGroups.foldl
        (fun n g => if (Ip.read p 4).isZero || g == Ip.read p 4 then igmpReport n g else n) n

/-! ## UDP and ICMP -/

/-- `net_udp_bind`: replace the handler of the port, else take a free entry. -/
def netUdpBind (n : Net) (port : Nat) (fn : Handler) : Net × Bool :=
  match (List.finRange udpBindingsN).find? fun i => (n.udpBindings i).port == port with
  | some i => ({ n with udpBindings := Function.update n.udpBindings i ⟨port, some fn⟩ }, true)
  | none =>
      match (List.finRange udpBindingsN).find? fun i => (n.udpBindings i).port == 0 with
      | some i =>
          ({ n with udpBindings := Function.update n.udpBindings i ⟨port, some fn⟩ }, true)
      | none => (n, false)

/-- Where `net_udp_payload_buf` points in the current slot. -/
abbrev udpPayloadOff : Nat := ethHdrLen + ipHdrLen + udpHdrLen

/-- An IPv4 header without options. -/
def ipHeader (tos : UInt8) (totalLen ident : Nat) (ttl proto : UInt8) (src dst : Ip) :
    List UInt8 :=
  let hdr := fun ck => [0x45, tos] ++ Mem.be16 totalLen ++ Mem.be16 ident ++ Mem.be16 0 ++
    [ttl, proto] ++ Mem.be16 ck ++ src.bytes ++ dst.bytes
  hdr (netChecksum (hdr 0) 0)

/-- The 42 bytes `net_udp_commit` writes in front of the payload. -/
def udpHeaders (n : Net) (dmac : Mac) (dstIp : Ip) (dstPort srcPort len : Nat) (tos : UInt8) :
    List UInt8 :=
  let ident := if tos = netTosAudio then 0 else n.ipIdent.toNat
  dmac.bytes ++ n.mac.bytes ++ Mem.be16 ipv4Ethertype ++
    ipHeader tos (ipHdrLen + udpHdrLen + len) ident (if dstIp.isMcast then 32 else 64) 17
      n.ip dstIp ++
    Mem.be16 srcPort ++ Mem.be16 dstPort ++ Mem.be16 (udpHdrLen + len) ++ Mem.be16 0

/-- `net_udp_commit`: headers around a payload that already lies in the slot; `false` is
the `-1` of the source. -/
def netUdpCommit (n : Net) (dstIp : Ip) (dstPort srcPort len : Nat) (tos : UInt8) :
    Net × Bool :=
  if netMaxPayload < len then
    ({ n with stats := { n.stats with txDropped := n.stats.txDropped + 1 } }, false)
  else match netArpLookup n dstIp with
    | (n, none) =>
        ({ n with stats := { n.stats with txDropped := n.stats.txDropped + 1 } }, false)
    | (n, some dmac) =>
        let n := { txStore n 0 (udpHeaders n dmac dstIp dstPort srcPort len tos) with
          ipIdent := if tos = netTosAudio then n.ipIdent else n.ipIdent + 1 }
        let n := ethSend n (ethHdrLen + ipHdrLen + udpHdrLen + len)
        ({ n with stats := { n.stats with txUdp := n.stats.txUdp + 1 } }, true)

/-- `net_udp_send`: resolve, copy the payload into the slot, commit. -/
def netUdpSend (n : Net) (dstIp : Ip) (dstPort srcPort : Nat) (payload : List UInt8)
    (tos : UInt8) : Net × Bool :=
  if netMaxPayload < payload.length then
    ({ n with stats := { n.stats with txDropped := n.stats.txDropped + 1 } }, false)
  else match netArpLookup n dstIp with
    | (n, none) =>
        ({ n with stats := { n.stats with txDropped := n.stats.txDropped + 1 } }, false)
    | (n, some _) =>
        netUdpCommit (txStore n udpPayloadOff payload) dstIp dstPort srcPort payload.length tos

/-- `icmp_rx`: the echo reply is built at the UDP payload offset and moved down. -/
def icmpRx (n : Net) (srcIp : Ip) (p : Mem) (len : Nat) : Net :=
  if len < 8 ∨ p 0 ≠ 8 then n
  else if netMaxPayload < len then n
  else
    let n := { n with stats := { n.stats with rxIcmp := n.stats.rxIcmp + 1 } }
    let n := txStore n udpPayloadOff (Mem.slice p 0 len)
    let n := txStore n udpPayloadOff [0]
    let n := txStore n (udpPayloadOff + 2) [0, 0]
    let ck := netChecksum (Mem.slice (txBuf n) udpPayloadOff len) 0
    let n := txStore n (udpPayloadOff + 2) (Mem.be16 ck)
    -- `out` keeps pointing into the slot it was built in, also after a lookup
    let out := txBuf n
    match netArpLookup n srcIp with
    | (n, none) => n
    | (n, some dmac) =>
        let n := txStore n (ethHdrLen + ipHdrLen) (Mem.slice out udpPayloadOff len)
        let header := dmac.bytes ++ n.mac.bytes ++ Mem.be16 ipv4Ethertype ++
          ipHeader 0 (ipHdrLen + len) n.ipIdent.toNat 64 1 n.ip srcIp
        let n := { txStore n 0 header with ipIdent := n.ipIdent + 1 }
        let n := ethSend n (ethHdrLen + ipHdrLen + len)
        { n with stats := { n.stats with txIcmp := n.stats.txIcmp + 1 } }

end Firmware
end InfernoFpga
