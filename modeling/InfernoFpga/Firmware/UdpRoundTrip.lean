import InfernoFpga.Firmware.NetSent

/-!
# UdpRoundTrip — what is sent is what is received

The two halves of `net.c` are written apart: `net_udp_commit` builds headers around a payload,
`net_rx_frame` walks them and clamps by three length fields.  A datagram of one node reaches the
handler another node has bound to its port, with the payload that lay in the slot, whatever else
the slot held.
-/

namespace InfernoFpga
namespace Firmware

open Lib Lib.Checksum

/-! ## The stack over a run -/

/-- `net_rx_frame`, with the handlers that live in `net.c`. -/
def netReceive (n : Net) (f : RxFrame) : Net :=
  match (netRxFrame n f).call with
  | some c => deliver f (netRxFrame n f).net c
  | none => (netRxFrame n f).net

/-- The entry points of `net.c`, and what their callers do to the transmit slot. -/
inductive StackOp
  | init (mac : Mac) (ip : Option Ip) (prefixLen : UInt8)
  | setIp (ip : Ip) (prefixLen : UInt8)
  | bind (port : UInt16) (fn : Handler)
  | join (group : Ip)
  | lookup (ip : Ip)
  /-- A caller writes into the current slot. -/
  | fill (a : Nat) (bs : List UInt8)
  | commit (dst : Ip) (dport sport : UInt16) (len : Nat) (tos : UInt8)
  | send (dst : Ip) (dport sport : UInt16) (payload : List UInt8) (tos : UInt8)
  | receive (f : RxFrame)

def stackStep (n : Net) : StackOp → Net
  | .init mac ip prefixLen => netInit n mac ip prefixLen
  | .setIp ip prefixLen => netSetIp n ip prefixLen
  | .bind port fn => (netUdpBind n port.toNat fn).1
  | .join group => (netIgmpJoin n group).1
  | .lookup ip => (netArpLookup n ip).1
  | .fill a bs => txStore n a bs
  | .commit dst dport sport len tos =>
      (netUdpCommit n dst dport.toNat sport.toNat len tos).1
  | .send dst dport sport payload tos =>
      (netUdpSend n dst dport.toNat sport.toNat payload tos).1
  | .receive f => netReceive n f

/-- The stack after `ops`, from boot. -/
def stackAfter (slots : Fin 2 → Mem) (ops : List StackOp) : Net :=
  run stackStep (Net.boot slots) ops

/-! ## Every frame of a run -/

section Frames

variable (n : Net)

theorem sent_arpLearn (ip : Ip) (mac : Mac) : (arpLearn n ip mac).sent = n.sent := by
  unfold arpLearn
  split
  · rfl
  · split <;> rfl

theorem sends_arpRx (f : Mem) (len : Nat) : Sends IsArp n (arpRx n f len) := by
  unfold arpRx
  dsimp only
  split
  · exact Sends.refl n
  split
  · exact Sends.refl n
  have hlearn : Sends IsArp n (arpLearn n (Ip.read f (ethHdrLen + 14))
      (Mac.read f (ethHdrLen + 8))) := Sends.of_sent_eq (sent_arpLearn n _ _)
  split
  · exact hlearn.trans ((Sends.of_sent_eq rfl).trans (sends_arpSend _ _ _ _))
  · exact hlearn.trans (Sends.of_sent_eq rfl)

theorem sent_rxProto (f : RxFrame) : (rxProto n f).net.sent = n.sent := by
  unfold rxProto
  split
  · rfl
  split
  · rfl
  split
  · split
    · rfl
    split <;> rfl
  · rfl

/-- Before the call of a handler only ARP is answered. -/
theorem sends_netRxFrame (f : RxFrame) : Sends IsArp n (netRxFrame n f).net := by
  unfold netRxFrame
  split
  · exact Sends.refl n
  split
  · exact sends_arpRx n f.bytes f.len
  iterate 4 split; · exact Sends.refl n
  split
  · exact Sends.of_sent_eq rfl
  split
  · exact Sends.refl n
  · exact Sends.of_sent_eq ((sent_rxProto _ f).trans (sent_arpLearn _ _ _))

theorem EchoReply.emittable {src dst : Ip} {req bytes : List UInt8}
    (h : EchoReply src dst req (asReceived bytes)) : Emittable bytes := by
  refine Or.inr ⟨h.sound, ?_⟩
  rw [h.proto]
  decide

theorem sends_deliver (f : RxFrame) (c : Upcall) : Sends Emittable n (deliver f n c) := by
  cases c with
  | icmp src off len =>
      refine (sends_icmpRx n src _ len).mono fun bytes hbytes => ?_
      rcases hbytes with harp | hreply
      · exact Or.inl harp
      · exact hreply.emittable
  | igmp off len => exact sends_igmpRx n _ len
  | udp fn src dst sport off len => exact Sends.refl n

theorem sends_netReceive (f : RxFrame) : Sends Emittable n (netReceive n f) := by
  have hframe : Sends Emittable n (netRxFrame n f).net :=
    (sends_netRxFrame n f).mono fun _ => Or.inl
  unfold netReceive
  split
  · exact hframe.trans (sends_deliver _ f _)
  · exact hframe

theorem sends_netIgmpJoin (group : Ip) : Sends Emittable n (netIgmpJoin n group).1 := by
  rw [netIgmpJoin]
  split
  · exact Sends.refl n
  split
  · exact Sends.refl n
  · exact (Sends.of_sent_eq rfl).trans (sends_igmpReport _ group)

theorem sent_netUdpBind (port : Nat) (fn : Handler) : (netUdpBind n port fn).1.sent = n.sent := by
  rw [netUdpBind]
  split
  · rfl
  · split <;> rfl

theorem sends_stackStep (op : StackOp) : Sends Emittable n (stackStep n op) := by
  cases op with
  | init mac ip prefixLen => exact Sends.of_sent_eq rfl
  | setIp ip prefixLen => exact Sends.of_sent_eq rfl
  | bind port fn => exact Sends.of_sent_eq (sent_netUdpBind n port.toNat fn)
  | join group => exact sends_netIgmpJoin n group
  | lookup ip => exact (sends_netArpLookup n ip).mono fun _ => Or.inl
  | fill a bs => exact Sends.of_sent_eq rfl
  | commit dst dport sport len tos => exact sends_netUdpCommit n dst _ _ len tos
  | send dst dport sport payload tos => exact sends_netUdpSend n dst _ _ payload tos
  | receive f => exact sends_netReceive n f

end Frames

/-- Every frame a run emits is ARP, or IPv4 with a header that verifies. -/
theorem emittable_stackAfter (slots : Fin 2 → Mem) (ops : List StackOp) :
    ∀ s ∈ (stackAfter slots ops).sent, Emittable s.bytes := by
  apply run_invariant (P := fun n : Net => ∀ s ∈ n.sent, Emittable s.bytes)
  · exact fun n op hn => (sends_stackStep n op).all hn
  · exact fun s hs => absurd hs List.not_mem_nil

/-! ## Bound ports -/

/-- A binding with a function is the first of its port.  A second one would never be called. -/
def PortsOrdered (n : Net) : Prop :=
  ∀ i j, (n.udpBindings i).port = (n.udpBindings j).port → (n.udpBindings j).fn.isSome → j ≤ i

section Bindings

variable {n : Net} {port : Nat} {fn : Handler}

/-- The first binding with a port, as `net_udp_bind` looks for it. -/
theorem find_port_first {i : Fin udpBindingsN} (h : (List.finRange udpBindingsN).find?
      (fun i => (n.udpBindings i).port == port) = some i) :
    (n.udpBindings i).port = port ∧ ∀ j, (n.udpBindings j).port = port → i ≤ j := by
  obtain ⟨hport, before, after, hsplit, hbefore⟩ := List.find?_eq_some_iff_append.1 h
  refine ⟨beq_iff_eq.1 hport, fun j hj => ?_⟩
  by_contra hlt
  have hmem : j ∈ before ++ i :: after := hsplit ▸ List.mem_finRange j
  rcases List.mem_append.1 hmem with hbef | haft
  · have hne := hbefore j hbef
    rw [hj] at hne
    simp at hne
  · have hsorted : (before ++ i :: after).Pairwise (· < ·) :=
      hsplit ▸ List.pairwise_lt_finRange udpBindingsN
    rcases List.mem_cons.1 haft with heq | haft
    · exact hlt (Nat.le_of_eq (congrArg Fin.val heq.symm))
    · have hcons := (List.pairwise_append.1 hsorted).2.1
      exact hlt (Nat.le_of_lt ((List.pairwise_cons.1 hcons).1 j haft))

/-- Setting the first entry of its port, or an entry to a port not bound yet, keeps the order. -/
theorem portsOrdered_update {i : Fin udpBindingsN} (h : PortsOrdered n)
    (hfirst : ∀ j, j ≠ i → (n.udpBindings j).port = port → i ≤ j)
    (hlast : ∀ j, j ≠ i → (n.udpBindings j).port = port → (n.udpBindings j).fn.isSome → j ≤ i) :
    PortsOrdered { n with udpBindings := Function.update n.udpBindings i ⟨port, some fn⟩ } := by
  intro a b hport hfn
  dsimp only at hport hfn
  rw [Function.update_apply, Function.update_apply] at hport
  rw [Function.update_apply] at hfn
  by_cases hb : b = i
  · rw [if_pos hb] at hport
    by_cases ha : a = i
    · exact hb.trans ha.symm ▸ Nat.le_refl _
    · rw [if_neg ha] at hport
      exact hb ▸ hfirst a ha hport
  · rw [if_neg hb] at hport hfn
    by_cases ha : a = i
    · rw [if_pos ha] at hport
      exact ha ▸ hlast b hb hport.symm hfn
    · rw [if_neg ha] at hport
      exact h a b hport hfn

theorem portsOrdered_netUdpBind (h : PortsOrdered n) (port : Nat) (fn : Handler) :
    PortsOrdered (netUdpBind n port fn).1 := by
  rw [netUdpBind]
  split
  · rename_i i heq
    obtain ⟨hi, hmin⟩ := find_port_first heq
    exact portsOrdered_update h (fun j _ hj => hmin j hj)
      fun j _ hj hfn => h i j (hi.trans hj.symm) hfn
  · rename_i hnone
    have hfree : ∀ j, ¬ (n.udpBindings j).port = port := by
      intro j hj
      exact List.find?_eq_none.1 hnone j (List.mem_finRange j) (beq_iff_eq.2 hj)
    split
    · exact portsOrdered_update h (fun j _ hj => absurd hj (hfree j))
        fun j _ hj => absurd hj (hfree j)
    · exact h

/-- In such a table a bound function is found. -/
theorem udpHandler_of_bound {i : Fin udpBindingsN} (h : PortsOrdered n)
    (hi : n.udpBindings i = ⟨port, some fn⟩) : udpHandler n port = some fn := by
  obtain ⟨before, after, hsplit⟩ := List.append_of_mem (List.mem_finRange i)
  refine List.findSome?_eq_some_iff.2 ⟨before, i, after, hsplit, ?_, ?_⟩
  · simp only [hi, if_true]
  · intro j hj
    have hlt : j < i := by
      have hsorted : (before ++ i :: after).Pairwise (· < ·) :=
        hsplit ▸ List.pairwise_lt_finRange udpBindingsN
      exact (List.pairwise_append.1 hsorted).2.2 j hj i List.mem_cons_self
    have hport : ¬ (n.udpBindings j).port = port := by
      intro hj
      have hle := h j i (by rw [hj, hi]) (by rw [hi]; rfl)
      exact absurd hlt (Nat.not_lt.2 hle)
    rw [if_neg hport]

theorem PortsOrdered.of_eq {n' : Net} (h : PortsOrdered n)
    (heq : n'.udpBindings = n.udpBindings) : PortsOrdered n' := by
  unfold PortsOrdered
  rw [heq]
  exact h

end Bindings

/-! Nothing but `net_udp_bind` touches the table. -/

section Table

variable (n : Net)

theorem udpBindings_netArpLookup (ip : Ip) :
    (netArpLookup n ip).1.udpBindings = n.udpBindings := by
  unfold netArpLookup
  split <;> rfl

theorem udpBindings_netUdpCommit (dst : Ip) (dport sport len : Nat) (tos : UInt8) :
    (netUdpCommit n dst dport sport len tos).1.udpBindings = n.udpBindings := by
  have hlookup := udpBindings_netArpLookup n dst
  rw [netUdpCommit]
  split
  · rfl
  · split <;> rename_i heq <;> rw [heq] at hlookup <;> exact hlookup

theorem udpBindings_netUdpSend (dst : Ip) (dport sport : Nat) (payload : List UInt8)
    (tos : UInt8) :
    (netUdpSend n dst dport sport payload tos).1.udpBindings = n.udpBindings := by
  have hlookup := udpBindings_netArpLookup n dst
  rw [netUdpSend]
  split
  · rfl
  · split <;> rename_i heq <;> rw [heq] at hlookup
    · exact hlookup
    · exact (udpBindings_netUdpCommit _ _ _ _ _ _).trans hlookup

theorem udpBindings_igmpRx (p : Mem) (len : Nat) :
    (igmpRx n p len).udpBindings = n.udpBindings := by
  have hfold : ∀ (groups : List Ip) (n : Net), (groups.foldl
      (fun n g => if (Ip.read p 4).isZero || g == Ip.read p 4 then igmpReport n g else n)
        n).udpBindings = n.udpBindings := by
    intro groups
    induction groups with
    | nil => exact fun n => rfl
    | cons g groups ih =>
        intro n
        rw [List.foldl_cons, ih]
        split <;> rfl
  rw [igmpRx]
  split
  · rfl
  dsimp only
  split
  · rfl
  · exact hfold _ _

theorem udpBindings_icmpRx (src : Ip) (p : Mem) (len : Nat) :
    (icmpRx n src p len).udpBindings = n.udpBindings := by
  by_cases h : Request p len
  · have hlookup := udpBindings_netArpLookup (echoBuilt n p len) src
    rw [icmpRx_of_request h]
    split <;> rename_i heq <;> rw [heq] at hlookup <;> exact hlookup
  · rw [icmpRx_of_not_request h]

theorem udpBindings_arpRx (f : Mem) (len : Nat) :
    (arpRx n f len).udpBindings = n.udpBindings := by
  unfold arpRx
  dsimp only
  split
  · rfl
  split
  · rfl
  split <;> exact arpLearn_udpBindings n _ _

theorem udpBindings_netRxFrame (f : RxFrame) :
    (netRxFrame n f).net.udpBindings = n.udpBindings := by
  have hproto : ∀ n : Net, (rxProto n f).net.udpBindings = n.udpBindings := by
    intro n
    unfold rxProto
    split
    · rfl
    split
    · rfl
    split
    · split
      · rfl
      split <;> rfl
    · rfl
  unfold netRxFrame
  split
  · rfl
  split
  · exact udpBindings_arpRx n f.bytes f.len
  iterate 6 split; · rfl
  exact (hproto _).trans (arpLearn_udpBindings _ _ _)

theorem udpBindings_netReceive (f : RxFrame) :
    (netReceive n f).udpBindings = n.udpBindings := by
  have hframe := udpBindings_netRxFrame n f
  unfold netReceive
  split
  · rename_i c heq
    cases c with
    | icmp src off len => exact (udpBindings_icmpRx _ _ _ _).trans hframe
    | igmp off len => exact (udpBindings_igmpRx _ _ _).trans hframe
    | udp fn src dst sport off len => exact hframe
  · exact hframe

theorem udpBindings_netIgmpJoin (group : Ip) :
    (netIgmpJoin n group).1.udpBindings = n.udpBindings := by
  rw [netIgmpJoin]
  split
  · rfl
  · split <;> rfl

end Table

theorem portsOrdered_stackStep {n : Net} (h : PortsOrdered n) (op : StackOp) :
    PortsOrdered (stackStep n op) := by
  cases op with
  | init mac ip prefixLen => exact h
  | setIp ip prefixLen => exact h
  | bind port fn => exact portsOrdered_netUdpBind h port.toNat fn
  | join group => exact h.of_eq (udpBindings_netIgmpJoin n group)
  | lookup ip => exact h.of_eq (udpBindings_netArpLookup n ip)
  | fill a bs => exact h
  | commit dst dport sport len tos => exact h.of_eq (udpBindings_netUdpCommit n _ _ _ _ _)
  | send dst dport sport payload tos => exact h.of_eq (udpBindings_netUdpSend n _ _ _ _ _)
  | receive f => exact h.of_eq (udpBindings_netReceive n f)

theorem portsOrdered_stackAfter (slots : Fin 2 → Mem) (ops : List StackOp) :
    PortsOrdered (stackAfter slots ops) := by
  apply run_invariant (P := PortsOrdered)
  · exact fun n op hn => portsOrdered_stackStep hn op
  · exact fun i j _ hfn => absurd hfn (by simp [Net.boot])

/-! ## One datagram -/

/-- The frame in a receive buffer: its bytes in front, and no more of them claimed than lie
there. -/
structure Delivered (bytes : List UInt8) (f : RxFrame) : Prop where
  read : Mem.slice f.bytes 0 bytes.length = bytes
  len : bytes.length ≤ f.len

/-- The node takes frames to that address. -/
def Takes (r : Net) (dst : Ip) : Prop := dst = r.ip ∨ dst.isMcast ∨ dst.isBcast

theorem ipForUs_of_takes {r : Net} {dst : Ip} (h : Takes r dst) : ipForUs r dst = true := by
  unfold ipForUs
  rcases h with hown | hmcast | hbcast
  · simp [hown]
  · simp [hmcast]
  · simp [hbcast]

section Datagram

variable {n : Net} {dmac : Mac} {dst : Ip} {dport sport : UInt16} {tos : UInt8}
  {payload pad : List UInt8} {f : RxFrame}

/-- The fields a receiver reads from a frame with the headers of a commit. -/
theorem reads_udpHeaders (hlen : payload.length ≤ netMaxPayload)
    (h : Mem.slice f.bytes 0 (udpPayloadOff + (payload.length + pad.length)) =
      udpHeaders n dmac dst dport.toNat sport.toNat payload.length tos ++ (payload ++ pad)) :
    f.sport = sport.toNat ∧ f.dport = dport.toNat ∧ f.ulen = udpHdrLen + payload.length ∧
      Mem.slice f.bytes udpPayloadOff payload.length = payload := by
  have hmax : netMaxPayload = 1400 := rfl
  have hhdr : ipHdrLen + udpHdrLen = 28 := rfl
  rw [udpHeaders_append] at h
  obtain ⟨hihl, -⟩ := reads_ipHeader (by omega) h
  have hpl : f.pl = ethHdrLen + ipHdrLen := by rw [RxFrame.pl, hihl]
  -- the UDP fields and the payload, each cut out of the frame in turn
  rw [← List.append_assoc, ← List.append_assoc] at h
  have hsport := Mem.slice_infix h
  rw [← List.append_assoc] at h
  have hdport := Mem.slice_infix h
  rw [← List.append_assoc] at h
  have hulen := Mem.slice_infix h
  rw [← List.append_assoc, ← List.append_assoc] at h
  have hbody := Mem.slice_infix h
  refine ⟨?_, ?_, ?_, ?_⟩
  · rw [RxFrame.sport, hpl]
    exact (Mem.rd16_of_be16 hsport).trans (Nat.mod_eq_of_lt sport.toNat_lt)
  · rw [RxFrame.dport, hpl]
    exact (Mem.rd16_of_be16 hdport).trans (Nat.mod_eq_of_lt dport.toNat_lt)
  · rw [RxFrame.ulen, hpl]
    exact (Mem.rd16_of_be16 hulen).trans (Nat.mod_eq_of_lt (by omega))
  · exact hbody

/-- Such a frame calls the function bound to its port, with the payload. -/
theorem call_of_udpHeaders {r : Net} {fn : Handler} (hlen : payload.length ≤ netMaxPayload)
    (hread : Mem.slice f.bytes 0 (udpPayloadOff + (payload.length + pad.length)) =
      udpHeaders n dmac dst dport.toNat sport.toNat payload.length tos ++ (payload ++ pad))
    (hsize : udpPayloadOff + payload.length ≤ f.len) (htakes : Takes r dst)
    (hbound : udpHandler r dport.toNat = some fn) :
    (netRxFrame r f).call =
      some (.udp fn n.ip dst sport.toNat udpPayloadOff payload.length) := by
  have hmax : netMaxPayload = 1400 := rfl
  have hip : ipHdrLen = 20 := rfl
  have hudp : udpHdrLen = 8 := rfl
  have heth : ethHdrLen = 14 := rfl
  have hoff : udpPayloadOff = 42 := rfl
  obtain ⟨hsport, hdport, hulen, -⟩ := reads_udpHeaders hlen hread
  rw [udpHeaders_append] at hread
  have hsound := ipv4Sound_of_slice 0x45 hread rfl (by decide) (length_ipHeader ..) (by decide)
    (verifies_ipHeader ..)
  obtain ⟨hihl, htotal, hproto, hsrc, hdst⟩ := reads_ipHeader (by omega) hread
  have hadmitted : Admitted r f :=
    { etherType := hsound.etherType
      hdr := by omega
      version := hsound.version
      ihl := hsound.ihl
      options := by omega
      total := by omega
      forUs := by
        rw [hdst]
        exact ipForUs_of_takes htakes }
  have hplen : f.plen = udpHdrLen + payload.length := by
    rw [RxFrame.plen_of_le (by omega)]
    omega
  have hpl : f.pl + udpHdrLen = udpPayloadOff := by rw [RxFrame.pl, hihl]
  have hicmp : ¬ f.proto = ipprotoIcmp := by
    rw [hproto]
    decide
  have higmp : ¬ f.proto = ipprotoIgmp := by
    rw [hproto]
    decide
  rw [netRxFrame_call_of_admitted hadmitted, upcall, if_neg hicmp, if_neg higmp,
    if_pos ⟨hproto, by omega, by omega, by omega⟩, hdport, hbound, hsrc, hdst, hsport, hpl, hulen,
    Nat.add_sub_cancel_left]
  rfl

end Datagram

/-- The frame of a payload that was put into the slot and committed. -/
theorem commitFrame_txStore (n : Net) (dmac : Mac) (dst : Ip) (dport sport : Nat) (tos : UInt8)
    (payload : List UInt8) :
    ∃ pad, udpPayloadOff + (payload.length + pad.length) =
        max 60 (udpPayloadOff + payload.length) ∧
      commitFrame (txStore n udpPayloadOff payload) dmac dst dport sport payload.length tos =
        udpHeaders n dmac dst dport sport payload.length tos ++ (payload ++ pad) := by
  obtain ⟨pad, hsize, hframe⟩ := commitFrame_eq (txStore n udpPayloadOff payload) dmac dst dport
    sport payload.length tos
  have hbuf : txBuf (txStore n udpPayloadOff payload) =
      Mem.store (txBuf n) udpPayloadOff payload := by
    simp only [txStore, slotStore, txBuf, Function.update_self]
  rw [hbuf, Mem.slice_store_same] at hframe
  exact ⟨pad, hsize, hframe⟩

/-- What `net_udp_commit` hands to the MAC reaches exactly the function bound to its port, with
the payload, the sender's address and its port, at every node the address means; every header a
run emits verifies; and an echo reply carries the request behind a checksum that verifies. -/
theorem stack_round_trip :
    (∀ (n : Net) (payload : List UInt8) (dst : Ip) (dmac : Mac) (dport sport : UInt16)
        (tos : UInt8), payload.length ≤ netMaxPayload → (netArpLookup n dst).2 = some dmac →
      ∃ bytes : List UInt8,
        (netUdpCommit (txStore n udpPayloadOff payload) dst dport.toNat sport.toNat
            payload.length tos).2 = true ∧
          (netUdpCommit (txStore n udpPayloadOff payload) dst dport.toNat sport.toNat
            payload.length tos).1.sent = n.sent ++ [⟨n.txslot, bytes⟩] ∧
          bytes.length = max 60 (udpPayloadOff + payload.length) ∧
          ∀ (slots : Fin 2 → Mem) (ops : List StackOp) (fn : Handler) (i : Fin udpBindingsN)
            (f : RxFrame), Takes (stackAfter slots ops) dst →
            (stackAfter slots ops).udpBindings i = ⟨dport.toNat, some fn⟩ → Delivered bytes f →
            ∃ off : Nat, (netRxFrame (stackAfter slots ops) f).call =
                some (.udp fn n.ip dst sport.toNat off payload.length) ∧
              Mem.slice f.bytes off payload.length = payload) ∧
      (∀ (slots : Fin 2 → Mem) (ops : List StackOp),
        ∀ s ∈ (stackAfter slots ops).sent, Emittable s.bytes) ∧
      ∀ (n : Net) (src : Ip) (p : Mem) (len : Nat),
        Sends (fun bytes => IsArp bytes ∨
          EchoReply n.ip src (Mem.slice p 0 len) (asReceived bytes)) n (icmpRx n src p len) := by
  refine ⟨?_, emittable_stackAfter, sends_icmpRx⟩
  intro n payload dst dmac dport sport tos hlen hlookup
  have hres : arpResolve (txStore n udpPayloadOff payload) dst = some dmac := by
    cases hmiss : arpResolve n dst with
    | none =>
        rw [netArpLookup_miss_result hmiss] at hlookup
        cases hlookup
    | some mac =>
        rw [netArpLookup_hit hmiss] at hlookup
        exact hmiss.trans hlookup
  obtain ⟨hok, hsent⟩ := netUdpCommit_hit dport.toNat sport.toNat tos hlen hres
  obtain ⟨pad, hsize, hframe⟩ :=
    commitFrame_txStore n dmac dst dport.toNat sport.toNat tos payload
  have hhead := length_udpHeaders n dmac dst dport.toNat sport.toNat payload.length tos
  rw [hframe] at hsent
  refine ⟨_, hok, hsent, ?_, ?_⟩
  · rw [← hsize, List.length_append, List.length_append, hhead]
  · intro slots ops fn i f htakes hbound hdelivered
    obtain ⟨hread, hlong⟩ := hdelivered
    rw [List.length_append, List.length_append, hhead] at hread hlong
    have hfn := udpHandler_of_bound (portsOrdered_stackAfter slots ops) hbound
    obtain ⟨-, -, -, hbody⟩ := reads_udpHeaders hlen hread
    exact ⟨udpPayloadOff, call_of_udpHeaders hlen hread (by omega) htakes hfn, hbody⟩

end Firmware
end InfernoFpga
