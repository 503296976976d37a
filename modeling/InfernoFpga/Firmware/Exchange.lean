import InfernoFpga.Firmware.ArpCache
import InfernoFpga.Firmware.Capture
import InfernoFpga.Firmware.DanteMsg

/-!
# Exchange — a question and its answer between two nodes

A port handler is handed a datagram and answers it at once, out of the call: it fills the current
transmit slot and commits it to the address and the port the question came from.  That the address
is known is due to the call itself, for the stack learns the sender of every datagram it delivers.
The node that asked hands the answer to whatever it has bound to the port it asked from.
-/

namespace InfernoFpga
namespace Firmware

open Lib

/-! ## A datagram arrives -/

/-- The handler of a call, and the datagram it is handed. -/
def Upcall.datagram (f : RxFrame) : Upcall → Option (Handler × Datagram)
  | .udp fn src _ sport off len => some (fn, ⟨src, sport, fun k => f.bytes (off + k), len⟩)
  | _ => none

/-- The datagram a received frame brings to `fn`, if it does. -/
def brings (n : Net) (f : RxFrame) (fn : Handler) : Option Datagram :=
  match (netRxFrame n f).call.bind (Upcall.datagram f) with
  | some (fn', q) => if fn' = fn then some q else none
  | none => none

/-- A frame hands its payload to the function that any node it is for has bound to its port. -/
def Arrives (bytes : List UInt8) (src dst : Ip) (sport dport : UInt16) (payload : List UInt8) :
    Prop :=
  ∀ (r : Net) (fn : Handler) (f : RxFrame), Takes r dst → udpHandler r dport.toNat = some fn →
    Delivered bytes f → ∃ q, brings r f fn = some q ∧ q.srcIp = src ∧ q.srcPort = sport.toNat ∧
      Mem.slice q.req 0 q.len = payload

section Arrival

/-! Neither learning nor the switch on the protocol moves on to the other slot. -/

theorem txslot_arpLearn (n : Net) (ip : Ip) (mac : Mac) :
    (arpLearn n ip mac).txslot = n.txslot := by
  unfold arpLearn
  split
  · rfl
  · split <;> rfl

theorem ip_arpLearn (n : Net) (ip : Ip) (mac : Mac) : (arpLearn n ip mac).ip = n.ip := by
  unfold arpLearn
  split
  · rfl
  · split <;> rfl

theorem rxProto_net (n : Net) (f : RxFrame) :
    ∃ stats, (rxProto n f).net = { n with stats := stats } := by
  unfold rxProto
  split
  · exact ⟨_, rfl⟩
  split
  · exact ⟨_, rfl⟩
  split
  · split
    · exact ⟨_, rfl⟩
    split
    · exact ⟨_, rfl⟩
    · exact ⟨_, rfl⟩
  · exact ⟨_, rfl⟩

variable {n : Net} {f : RxFrame} {fn : Handler} {q : Datagram}

/-- What a handler is handed is the payload of the frame. -/
theorem brings_iff : brings n f fn = some q ↔
    ∃ src dst sport off len, (netRxFrame n f).call = some (.udp fn src dst sport off len) ∧
      q = ⟨src, sport, fun k => f.bytes (off + k), len⟩ := by
  rw [brings]
  cases (netRxFrame n f).call with
  | none => simp
  | some c =>
    cases c with
    | icmp src off len => simp [Upcall.datagram]
    | igmp off len => simp [Upcall.datagram]
    | udp fn' src dst sport off len =>
      simp only [Option.bind_some, Upcall.datagram]
      constructor
      · intro h
        split at h
        · rename_i hfn
          cases h
          exact ⟨src, dst, sport, off, len, by rw [hfn], rfl⟩
        · cases h
      · rintro ⟨src', dst', sport', off', len', hcall, rfl⟩
        cases hcall
        exact if_pos rfl

/-- Whoever asks is known by the time its question is answered. -/
theorem arpResolve_of_brings (h : brings n f fn = some q) (hsrc : q.srcIp.isZero = false) :
    ∃ mac, arpResolve (netRxFrame n f).net q.srcIp = some mac := by
  obtain ⟨src, dst, sport, off, len, hcall, rfl⟩ := brings_iff.1 h
  have hsame := Capture.src_of_call hcall
  rw [show (Datagram.srcIp ⟨src, sport, fun k => f.bytes (off + k), len⟩) = f.srcIp from hsame]
  exact Capture.arpResolve_of_call hcall (hsame ▸ hsrc)

/-- The port of a question is one that can be answered. -/
theorem srcPort_of_brings (h : brings n f fn = some q) : ∃ port : UInt16, q.srcPort = port.toNat := by
  obtain ⟨src, dst, sport, off, len, hcall, rfl⟩ := brings_iff.1 h
  rw [netRxFrame_call_of_admitted (admitted_of_call hcall), upcall] at hcall
  split at hcall
  · cases hcall
  split at hcall
  · cases hcall
  split at hcall
  · obtain ⟨g, -, heq⟩ := Option.map_eq_some_iff.1 hcall
    cases heq
    refine ⟨UInt16.ofNat f.sport, ?_⟩
    have hlt : f.sport < 2 ^ 16 := Mem.rd16_lt ..
    exact (UInt16.toNat_ofNat_of_lt' hlt).symm
  · cases hcall

/-- A frame that brings a datagram is not answered by the stack itself; only its sender is
learnt. -/
theorem netReceive_of_brings (h : brings n f fn = some q) :
    netReceive n f = (netRxFrame n f).net ∧ (netReceive n f).sent = n.sent ∧
      (netReceive n f).txslot = n.txslot ∧ (netReceive n f).ip = n.ip := by
  obtain ⟨src, dst, sport, off, len, hcall, -⟩ := brings_iff.1 h
  have hreceive : netReceive n f = (netRxFrame n f).net := by
    rw [netReceive, hcall]
    rfl
  have hframe := netRxFrame_of_admitted (admitted_of_call hcall)
  obtain ⟨stats, hproto⟩ := rxProto_net (arpLearn
    { n with stats := { n.stats with rxIp := n.stats.rxIp + 1 } } f.srcIp f.srcMac) f
  have hnet := hreceive.trans ((congrArg RxResult.net hframe).trans hproto)
  refine ⟨hreceive, ?_, ?_, ?_⟩
  · rw [hnet]
    exact sent_arpLearn _ _ _
  · rw [hnet]
    exact txslot_arpLearn _ _ _
  · rw [hnet]
    exact ip_arpLearn _ _ _

end Arrival

/-! ## An answer leaves -/

section Answer

variable {n : Net} {dst : Ip} {mac : Mac} {payload : List UInt8}

/-- A payload for a known address leaves from the current slot and arrives. -/
theorem netUdpCommit_arrives (dport sport : UInt16) (tos : UInt8)
    (hlen : payload.length ≤ netMaxPayload) (hres : arpResolve n dst = some mac) :
    ∃ bytes, (netUdpCommit (txStore n udpPayloadOff payload) dst dport.toNat sport.toNat
          payload.length tos).2 = true ∧
      (netUdpCommit (txStore n udpPayloadOff payload) dst dport.toNat sport.toNat payload.length
          tos).1.sent = n.sent ++ [⟨n.txslot, bytes⟩] ∧
      Arrives bytes n.ip dst sport dport payload := by
  have hhit : arpResolve (txStore n udpPayloadOff payload) dst = some mac := hres
  obtain ⟨hok, hsent⟩ := netUdpCommit_hit dport.toNat sport.toNat tos hlen hhit
  obtain ⟨pad, -, hframe⟩ :=
    commitFrame_txStore n mac dst dport.toNat sport.toNat tos payload
  have hhead := length_udpHeaders n mac dst dport.toNat sport.toNat payload.length tos
  rw [hframe] at hsent
  refine ⟨_, hok, hsent, ?_⟩
  intro r fn f htakes hbound hdelivered
  obtain ⟨hread, hlong⟩ := hdelivered
  rw [List.length_append, List.length_append, hhead] at hread hlong
  obtain ⟨-, -, -, hbody⟩ := reads_udpHeaders hlen hread
  have hcall := call_of_udpHeaders hlen hread (by omega) htakes hbound
  refine ⟨_, brings_iff.2 ⟨_, _, _, _, _, hcall, rfl⟩, rfl, rfl, ?_⟩
  have hshift : Mem.slice (fun k => f.bytes (udpPayloadOff + k)) 0 payload.length =
      Mem.slice f.bytes udpPayloadOff payload.length := by
    simp only [Mem.slice, Nat.zero_add]
  rw [hshift, hbody]

/-- The address of a node, its bound ports and what its cache resolves are the same. -/
structure SameNode (n n' : Net) : Prop where
  ip : n'.ip = n.ip
  bindings : n'.udpBindings = n.udpBindings
  arp : ∀ ip, arpResolve n' ip = arpResolve n ip

theorem SameNode.refl (n : Net) : SameNode n n := ⟨rfl, rfl, fun _ => rfl⟩

theorem SameNode.trans {n n' n'' : Net} (h : SameNode n n') (h' : SameNode n' n'') :
    SameNode n n'' :=
  ⟨h'.ip.trans h.ip, h'.bindings.trans h.bindings, fun ip => (h'.arp ip).trans (h.arp ip)⟩

/-- Filling the slot changes nothing else. -/
theorem SameNode.of_txStore (n : Net) (a : Nat) (bs : List UInt8) : SameNode n (txStore n a bs) :=
  ⟨rfl, rfl, fun _ => rfl⟩

/-- A commit leaves the address of the board alone. -/
theorem ip_netUdpCommit (n : Net) (dst : Ip) (dport sport len : Nat) (tos : UInt8) :
    (netUdpCommit n dst dport sport len tos).1.ip = n.ip := by
  unfold netUdpCommit
  split
  · rfl
  · cases hres : arpResolve n dst with
    | some mac =>
      rw [netArpLookup_hit hres]
      rfl
    | none =>
      simp only [netArpLookup, hres]
      rfl

/-- What a commit leaves as it was. -/
theorem sameNode_netUdpCommit (n : Net) (dst : Ip) (dport sport len : Nat) (tos : UInt8) :
    SameNode n (netUdpCommit n dst dport sport len tos).1 where
  ip := ip_netUdpCommit ..
  bindings := udpBindings_netUdpCommit ..
  arp := by
    intro ip
    have hcache := (sameCache_netUdpCommit n dst dport sport len tos).cache
    simp only [arpResolve, arpFind, hcache]

end Answer

/-! ## Who listens -/

/-- A function is bound to a port, and what is bound is found. -/
structure Listening (n : Net) (port : Nat) (fn : Handler) : Prop where
  pos : port ≠ 0
  ordered : PortsOrdered n
  bound : ∃ i, n.udpBindings i = ⟨port, some fn⟩

/-- The port stays with the function. -/
def StackOp.KeepsPort (port : Nat) (fn : Handler) : StackOp → Prop
  | .bind port' fn' => port'.toNat = port → fn' = fn
  | _ => True

section Listening

variable {n n' : Net} {port : Nat} {fn : Handler}

theorem Listening.of_bindings (h : Listening n port fn) (heq : n'.udpBindings = n.udpBindings) :
    Listening n' port fn :=
  ⟨h.pos, h.ordered.of_eq heq, heq ▸ h.bound⟩

theorem Listening.handler (h : Listening n port fn) : udpHandler n port = some fn := by
  obtain ⟨i, hi⟩ := h.bound
  exact udpHandler_of_bound h.ordered hi

/-- A bind that found room. -/
theorem listening_netUdpBind (hordered : PortsOrdered n) (hpos : port ≠ 0) (fn : Handler)
    (hbound : ∃ i, (netUdpBind n port fn).1.udpBindings i = ⟨port, some fn⟩) :
    Listening (netUdpBind n port fn).1 port fn :=
  ⟨hpos, portsOrdered_netUdpBind hordered port fn, hbound⟩

/-- Binding another port, or this one again to the same function, leaves it its port. -/
theorem Listening.netUdpBind (h : Listening n port fn) {port' : Nat} {fn' : Handler}
    (hport : port' = port → fn' = fn) : Listening (netUdpBind n port' fn').1 port fn := by
  refine ⟨h.pos, portsOrdered_netUdpBind h.ordered port' fn', ?_⟩
  obtain ⟨i, hi⟩ := h.bound
  have hupdate : ∀ j, ((n.udpBindings j).port = port → port' = port) →
      ∃ k, Function.update n.udpBindings j ⟨port', some fn'⟩ k = ⟨port, some fn⟩ := by
    intro j hj
    by_cases hji : i = j
    · subst hji
      have hsame := hj (congrArg UdpBinding.port hi)
      exact ⟨i, by rw [Function.update_self, hsame, hport hsame]⟩
    · exact ⟨i, by rw [Function.update_of_ne hji, hi]⟩
  rw [Firmware.netUdpBind]
  split
  · rename_i j hfind
    exact hupdate j fun hj => (find_port_first hfind).1.symm.trans hj
  · split
    · rename_i j hfree
      have hzero : (n.udpBindings j).port = 0 := by simpa using List.find?_some hfree
      exact hupdate j fun hj => absurd (hj.symm.trans hzero) h.pos
    · exact ⟨i, hi⟩

/-- Whatever the users of the stack do. -/
theorem Listening.stackStep (h : Listening n port fn) {op : StackOp} (hop : op.KeepsPort port fn) :
    Listening (stackStep n op) port fn := by
  cases op with
  | bind port' fn' => exact h.netUdpBind hop
  | init mac ip prefixLen => exact h.of_bindings rfl
  | setIp ip prefixLen => exact h.of_bindings rfl
  | join group => exact h.of_bindings (udpBindings_netIgmpJoin n group)
  | lookup ip => exact h.of_bindings (udpBindings_netArpLookup n ip)
  | fill a bs => exact h.of_bindings rfl
  | commit dst dport sport len tos =>
    exact h.of_bindings (udpBindings_netUdpCommit n dst dport.toNat sport.toNat len tos)
  | send dst dport sport payload tos =>
    exact h.of_bindings (udpBindings_netUdpSend n dst dport.toNat sport.toNat payload tos)
  | receive f => exact h.of_bindings (udpBindings_netReceive n f)

end Listening

end Firmware
end InfernoFpga
