import InfernoFpga.Firmware.Net

/-!
# NetRx — what a received frame reaches, and with which slice of it

`net_rx_frame` ends in at most one call of an upper-layer handler, always as its last action.
It is modelled as the state it leaves and the call it makes; the payload of a call is a slice
of the frame, given by offset and length.
-/

namespace InfernoFpga
namespace Firmware

open Lib

/-- A received frame: the memory it lies in and its length. -/
structure RxFrame where
  bytes : Mem
  len : Nat

namespace RxFrame

variable (f : RxFrame)

def etherType : Nat := Mem.rd16 f.bytes 12
def version : Nat := (f.bytes ethHdrLen).toNat / 16
def ihl : Nat := (f.bytes ethHdrLen).toNat % 16 * 4
def total : Nat := Mem.rd16 f.bytes (ethHdrLen + 2)
def proto : Nat := (f.bytes (ethHdrLen + 9)).toNat
def srcIp : Ip := Ip.read f.bytes (ethHdrLen + 12)
def dstIp : Ip := Ip.read f.bytes (ethHdrLen + 16)
def srcMac : Mac := Mac.read f.bytes 6

/-- `pl`, as an offset. -/
def pl : Nat := ethHdrLen + f.ihl

/-- `plen = total - ihl`, in 32 bits. -/
def plen : Nat := (f.total + 2 ^ 32 - f.ihl) % 2 ^ 32

def sport : Nat := Mem.rd16 f.bytes f.pl
def dport : Nat := Mem.rd16 f.bytes (f.pl + 2)
def ulen : Nat := Mem.rd16 f.bytes (f.pl + 4)

end RxFrame

/-- The call of an upper-layer handler, with the slice of the frame it gets. -/
inductive Upcall
  | icmp (src : Ip) (off len : Nat)
  | igmp (off len : Nat)
  | udp (fn : Handler) (src dst : Ip) (sport off len : Nat)
  deriving DecidableEq, Repr

namespace Upcall

def off : Upcall → Nat
  | icmp _ off _ => off
  | igmp off _ => off
  | udp _ _ _ _ off _ => off

def len : Upcall → Nat
  | icmp _ _ len => len
  | igmp _ len => len
  | udp _ _ _ _ _ len => len

@[simp] theorem off_icmp (src : Ip) (x k : Nat) : (icmp src x k).off = x := rfl
@[simp] theorem len_icmp (src : Ip) (x k : Nat) : (icmp src x k).len = k := rfl
@[simp] theorem off_igmp (x k : Nat) : (igmp x k).off = x := rfl
@[simp] theorem len_igmp (x k : Nat) : (igmp x k).len = k := rfl

@[simp] theorem off_udp (fn : Handler) (src dst : Ip) (sport x k : Nat) :
    (udp fn src dst sport x k).off = x := rfl

@[simp] theorem len_udp (fn : Handler) (src dst : Ip) (sport x k : Nat) :
    (udp fn src dst sport x k).len = k := rfl

end Upcall

/-- What `net_rx_frame` does: the state it leaves, its return value and its call. -/
structure RxResult where
  net : Net
  consumed : Bool
  call : Option Upcall

/-- `ip_for_us`. -/
def ipForUs (n : Net) (d : Ip) : Bool :=
  d == n.ip || d.isBcast || d.isMcast ||
    (if n.prefixLen == 24 then d.a == n.ip.a && d.b == n.ip.b && d.c == n.ip.c && d.d == 255
     else d.a == n.ip.a && d.b == n.ip.b && d.c == 255 && d.d == 255)

/-- The first binding of the port that has a function. -/
def udpHandler (n : Net) (dport : Nat) : Option Handler :=
  (List.finRange udpBindingsN).findSome? fun i =>
    if (n.udpBindings i).port = dport then (n.udpBindings i).fn else none

/-- The switch on the IP protocol. -/
def rxProto (n : Net) (f : RxFrame) : RxResult :=
  if f.proto = ipprotoIcmp then ⟨n, true, some (.icmp f.srcIp f.pl f.plen)⟩
  else if f.proto = ipprotoIgmp then ⟨n, true, some (.igmp f.pl f.plen)⟩
  else if f.proto = ipprotoUdp then
    if f.plen < udpHdrLen then ⟨n, true, none⟩
    else if f.ulen < udpHdrLen ∨ f.plen < f.ulen then
      ⟨{ n with stats := { n.stats with rxDropped := n.stats.rxDropped + 1 } }, true, none⟩
    else
      let n := { n with stats := { n.stats with rxUdp := n.stats.rxUdp + 1 } }
      ⟨n, true, (udpHandler n f.dport).map fun fn =>
        .udp fn f.srcIp f.dstIp f.sport (f.pl + udpHdrLen) (f.ulen - udpHdrLen)⟩
  else ⟨n, true, none⟩

/-- `net_rx_frame`. -/
def netRxFrame (n : Net) (f : RxFrame) : RxResult :=
  if f.len < ethHdrLen then ⟨n, false, none⟩
  else if f.etherType = arpEthertype then ⟨arpRx n f.bytes f.len, true, none⟩
  else if f.etherType ≠ ipv4Ethertype then ⟨n, false, none⟩
  else if f.len < ethHdrLen + ipHdrLen then ⟨n, false, none⟩
  else if f.version ≠ 4 then ⟨n, false, none⟩
  else if f.ihl < ipHdrLen ∨ f.len < ethHdrLen + f.ihl then ⟨n, false, none⟩
  -- the source tests `total < ihl` as well, and drops only the overrun
  else if (f.total < f.ihl ∨ f.len < ethHdrLen + f.total) ∧ f.len < ethHdrLen + f.total then
    ⟨{ n with stats := { n.stats with rxDropped := n.stats.rxDropped + 1 } }, true, none⟩
  else if !ipForUs n f.dstIp then ⟨n, true, none⟩
  else
    let n := { n with stats := { n.stats with rxIp := n.stats.rxIp + 1 } }
    rxProto (arpLearn n f.srcIp f.srcMac) f

/-- The calls of handlers that live in `net.c` itself. -/
def deliver (f : RxFrame) (n : Net) : Upcall → Net
  | .icmp src off len => icmpRx n src (fun k => f.bytes (off + k)) len
  | .igmp off len => igmpRx n (fun k => f.bytes (off + k)) len
  | .udp .. => n

/-! ## The calls, read off the header -/

/-- The checks a frame passes before its protocol is looked at. -/
structure Admitted (n : Net) (f : RxFrame) : Prop where
  etherType : f.etherType = ipv4Ethertype
  hdr : ethHdrLen + ipHdrLen ≤ f.len
  version : f.version = 4
  ihl : ipHdrLen ≤ f.ihl
  options : ethHdrLen + f.ihl ≤ f.len
  total : ethHdrLen + f.total ≤ f.len
  forUs : ipForUs n f.dstIp = true

/-- The call made for an admitted frame. -/
def upcall (n : Net) (f : RxFrame) : Option Upcall :=
  if f.proto = ipprotoIcmp then some (.icmp f.srcIp f.pl f.plen)
  else if f.proto = ipprotoIgmp then some (.igmp f.pl f.plen)
  else if f.proto = ipprotoUdp ∧ udpHdrLen ≤ f.plen ∧ udpHdrLen ≤ f.ulen ∧ f.ulen ≤ f.plen then
    (udpHandler n f.dport).map fun fn =>
      .udp fn f.srcIp f.dstIp f.sport (f.pl + udpHdrLen) (f.ulen - udpHdrLen)
  else none

theorem arpLearn_udpBindings (n : Net) (ip : Ip) (mac : Mac) :
    (arpLearn n ip mac).udpBindings = n.udpBindings := by
  unfold arpLearn
  split
  · rfl
  · split <;> rfl

theorem rxProto_call (n : Net) (f : RxFrame) : (rxProto n f).call = upcall n f := by
  unfold rxProto upcall
  split
  · rfl
  split
  · rfl
  split <;> rename_i hproto
  · split <;> rename_i hplen
    · rw [if_neg (by omega)]
    split <;> rename_i hulen
    · rw [if_neg (by omega)]
    · rw [if_pos (by omega)]
      rfl
  · rw [if_neg (fun hc => hproto hc.1)]

theorem upcall_congr {n n' : Net} (h : n'.udpBindings = n.udpBindings) (f : RxFrame) :
    upcall n' f = upcall n f := by
  simp only [upcall, udpHandler, h]

theorem netRxFrame_of_admitted {n : Net} {f : RxFrame} (h : Admitted n f) :
    netRxFrame n f =
      rxProto (arpLearn { n with stats := { n.stats with rxIp := n.stats.rxIp + 1 } } f.srcIp
        f.srcMac) f := by
  have hhdr := h.hdr
  have hihl := h.ihl
  have hoptions := h.options
  have htotal := h.total
  have harp : ¬ f.etherType = arpEthertype := by
    rw [h.etherType]
    decide
  unfold netRxFrame
  rw [if_neg (by omega), if_neg harp, if_neg (not_not.2 h.etherType), if_neg (by omega),
    if_neg (not_not.2 h.version), if_neg (by omega), if_neg (by omega),
    if_neg (by simp [h.forUs])]

/-- A frame that is neither ARP nor admitted is counted at most. -/
theorem netRxFrame_of_refused {n : Net} {f : RxFrame} (harp : f.etherType ≠ arpEthertype)
    (h : ¬ Admitted n f) :
    ∃ stats consumed, netRxFrame n f = ⟨{ n with stats := stats }, consumed, none⟩ := by
  unfold netRxFrame
  split
  · exact ⟨n.stats, false, rfl⟩
  split
  · exact ⟨n.stats, false, rfl⟩
  split
  · exact ⟨n.stats, false, rfl⟩
  split
  · exact ⟨n.stats, false, rfl⟩
  split
  · exact ⟨n.stats, false, rfl⟩
  split
  · exact ⟨_, true, rfl⟩
  split
  · exact ⟨n.stats, true, rfl⟩
  · -- every check has been passed
    rename_i htype hhdr hversion hihl htotal hus
    refine absurd ?_ h
    exact
      { etherType := not_not.1 htype
        hdr := Nat.not_lt.1 hhdr
        version := not_not.1 hversion
        ihl := by omega
        options := by omega
        total := by omega
        forUs := by simpa using hus }

theorem netRxFrame_call_of_admitted {n : Net} {f : RxFrame} (h : Admitted n f) :
    (netRxFrame n f).call = upcall n f := by
  rw [netRxFrame_of_admitted h, rxProto_call]
  exact upcall_congr (arpLearn_udpBindings _ _ _) f

/-- A call is made behind a check only if the check is passed. -/
theorem RxResult.call_else {p : Prop} [Decidable p] {a r : RxResult} {c : Upcall}
    (ha : a.call = none) (h : (if p then a else r).call = some c) : ¬ p ∧ r.call = some c := by
  by_cases hp : p
  · rw [if_pos hp, ha] at h
    cases h
  · rw [if_neg hp] at h
    exact ⟨hp, h⟩

theorem admitted_of_call {n : Net} {f : RxFrame} {c : Upcall}
    (h : (netRxFrame n f).call = some c) : Admitted n f := by
  unfold netRxFrame at h
  obtain ⟨hlen, h⟩ := RxResult.call_else rfl h
  obtain ⟨harp, h⟩ := RxResult.call_else rfl h
  obtain ⟨het, h⟩ := RxResult.call_else rfl h
  obtain ⟨hhdr, h⟩ := RxResult.call_else rfl h
  obtain ⟨hver, h⟩ := RxResult.call_else rfl h
  obtain ⟨hihl, h⟩ := RxResult.call_else rfl h
  obtain ⟨htotal, h⟩ := RxResult.call_else rfl h
  obtain ⟨hus, -⟩ := RxResult.call_else rfl h
  exact
    { etherType := not_not.1 het
      hdr := Nat.not_lt.1 hhdr
      version := not_not.1 hver
      ihl := by omega
      options := by omega
      total := by omega
      forUs := by simpa using hus }

/-! ## The slice of a call -/

/-- The slice of the call lies in the frame, behind the IP header and inside the packet that
`total` delimits; for UDP also behind the UDP header and inside the datagram. -/
structure Upcall.Inside (f : RxFrame) (c : Upcall) : Prop where
  frame : c.off + c.len ≤ f.len
  header : ethHdrLen + f.ihl ≤ c.off
  packet : c.off + c.len ≤ ethHdrLen + f.total
  datagram : f.proto = ipprotoUdp →
    f.pl + udpHdrLen ≤ c.off ∧ c.off + c.len ≤ f.pl + f.ulen

/-- The header claims a packet shorter than itself, and a handler is bound for it. -/
structure Underrun (n : Net) (f : RxFrame) : Prop where
  admitted : Admitted n f
  short : f.total < f.ihl
  handled : f.proto = ipprotoIcmp ∨ f.proto = ipprotoIgmp ∨
    f.proto = ipprotoUdp ∧ udpHdrLen ≤ f.ulen ∧ (udpHandler n f.dport).isSome

theorem RxFrame.ihl_le (f : RxFrame) : f.ihl ≤ 60 := by
  simp only [RxFrame.ihl]
  omega

theorem RxFrame.plen_of_le {f : RxFrame} (h : f.ihl ≤ f.total) : f.plen = f.total - f.ihl := by
  have htotal : f.total < 2 ^ 16 := Mem.rd16_lt _ _
  simp only [RxFrame.plen]
  omega

/-- An underrun reads as a payload of almost `2 ^ 32` bytes. -/
theorem RxFrame.plen_of_lt {f : RxFrame} (h : f.total < f.ihl) : 2 ^ 32 - 60 ≤ f.plen := by
  have hihl := f.ihl_le
  simp only [RxFrame.plen]
  omega

theorem inside_of_le {n : Net} {f : RxFrame} {c : Upcall} (hadm : Admitted n f)
    (hle : f.ihl ≤ f.total) (hc : upcall n f = some c) : c.Inside f := by
  have hplen := RxFrame.plen_of_le hle
  have htotal := hadm.total
  -- ICMP and IGMP get the whole IP payload
  have hwhole : f.proto ≠ ipprotoUdp → c.off = f.pl → c.len = f.plen → c.Inside f := by
    intro hproto hoff hlen
    refine ⟨?_, ?_, ?_, fun hudp => absurd hudp hproto⟩ <;>
      rw [hoff] <;> simp only [RxFrame.pl] <;> omega
  unfold upcall at hc
  split at hc <;> rename_i hicmp
  · cases hc
    exact hwhole (by rw [hicmp]; decide) (Upcall.off_icmp ..) (Upcall.len_icmp ..)
  split at hc <;> rename_i higmp
  · cases hc
    exact hwhole (by rw [higmp]; decide) (Upcall.off_igmp ..) (Upcall.len_igmp ..)
  split at hc <;> rename_i hudp
  · obtain ⟨fn, -, rfl⟩ := Option.map_eq_some_iff.1 hc
    refine ⟨?_, ?_, ?_, fun _ => ⟨?_, ?_⟩⟩ <;>
      simp only [Upcall.off_udp, Upcall.len_udp, RxFrame.pl] <;> omega
  · cases hc

/-- With an underrun the slice starts behind the end of its packet. -/
theorem not_inside_of_lt {f : RxFrame} {c : Upcall} (hlt : f.total < f.ihl)
    (hc : c.Inside f) : False := by
  have hheader := hc.header
  have hpacket := hc.packet
  omega

theorem upcall_of_underrun {n : Net} {f : RxFrame} (h : Underrun n f) :
    ∃ c, upcall n f = some c := by
  have hplen := RxFrame.plen_of_lt h.short
  have hulen : f.ulen < 2 ^ 16 := Mem.rd16_lt _ _
  unfold upcall
  split
  · exact ⟨_, rfl⟩
  split
  · exact ⟨_, rfl⟩
  rename_i hicmp higmp
  obtain ⟨hproto, hmin, hbound⟩ := (h.handled.resolve_left hicmp).resolve_left higmp
  obtain ⟨fn, hfn⟩ := Option.isSome_iff_exists.1 hbound
  rw [if_pos ⟨hproto, by omega, hmin, by omega⟩, hfn]
  exact ⟨_, rfl⟩

theorem underrun_of_upcall {n : Net} {f : RxFrame} {c : Upcall} (hadm : Admitted n f)
    (hlt : f.total < f.ihl) (hc : upcall n f = some c) : Underrun n f := by
  refine ⟨hadm, hlt, ?_⟩
  unfold upcall at hc
  split at hc <;> rename_i hicmp
  · exact .inl hicmp
  split at hc <;> rename_i higmp
  · exact .inr (.inl higmp)
  split at hc <;> rename_i hudp
  · obtain ⟨fn, hfn, -⟩ := Option.map_eq_some_iff.1 hc
    exact .inr (.inr ⟨hudp.1, hudp.2.2.1, by simp [hfn]⟩)
  · cases hc

/-- Whatever `net_rx_frame` calls gets a slice inside the frame and inside the packet and
datagram the headers delimit, exactly unless an admitted frame with `total < ihl` finds its
handler: that comparison is made, but drops nothing. -/
theorem netRxFrame_inside_iff (n : Net) (f : RxFrame) :
    (∀ c, (netRxFrame n f).call = some c → c.Inside f) ↔ ¬ Underrun n f := by
  constructor
  · intro h hunder
    obtain ⟨c, hc⟩ := upcall_of_underrun hunder
    have hcall : (netRxFrame n f).call = some c := by
      rw [netRxFrame_call_of_admitted hunder.admitted, hc]
    exact not_inside_of_lt hunder.short (h c hcall)
  · intro h c hcall
    have hadm := admitted_of_call hcall
    rw [netRxFrame_call_of_admitted hadm] at hcall
    rcases Nat.lt_or_ge f.total f.ihl with hlt | hle
    · exact absurd (underrun_of_upcall hadm hlt hcall) h
    · exact inside_of_le hadm hle hcall

/-- The stack with the flow server bound. -/
def flowsBound : Net := (netUdpBind (Net.boot fun _ _ => 0) 4455 .flows).1

/-- A minimum-size UDP frame to port 4455 that claims `total_length = 0` and a UDP length of
1008. -/
def runt : RxFrame :=
  { bytes := fun k =>
      ([2, 0, 0, 0, 0, 1, 2, 0, 0, 0, 0, 2, 0x08, 0x00,
        0x45, 0, 0, 0, 0, 0, 0, 0, 64, 17, 0, 0, 169, 254, 1, 1, 169, 254, 9, 200,
        0x12, 0x34, 0x11, 0x67, 0x03, 0xF0, 0, 0] : List UInt8).getD k 0
    len := 60 }

/-- The flow server is called with 1000 bytes of a 60-byte frame. -/
theorem netRxFrame_escapes :
    (netRxFrame flowsBound runt).call =
        some (.udp .flows ⟨169, 254, 1, 1⟩ ⟨169, 254, 9, 200⟩ 0x1234 42 1000) ∧
      ¬ ∀ c, (netRxFrame flowsBound runt).call = some c → c.Inside runt := by
  have hcall : (netRxFrame flowsBound runt).call =
      some (.udp .flows ⟨169, 254, 1, 1⟩ ⟨169, 254, 9, 200⟩ 0x1234 42 1000) := by decide
  refine ⟨hcall, fun h => ?_⟩
  have hframe := (h _ hcall).frame
  exact absurd hframe (by decide)

end Firmware
end InfernoFpga
