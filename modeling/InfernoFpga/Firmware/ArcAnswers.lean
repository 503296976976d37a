import InfernoFpga.Firmware.ArcServer

/-!
# ArcAnswers — every request is answered

A request that reaches the board is answered in the same call, and its reply is built in a slot
that the switch may not leave: nothing in it transmits, so the frame that leaves is the reply that
was begun.  It is sent to an address the stack has just learnt.  This is so in every state of the
board's stack, and whatever the other modules do to what the server reads.
-/

namespace InfernoFpga
namespace Firmware

open Lib
open Mdns (dantePortArc)

/-! ## Runs -/

/-- What happens at the board: a frame is received, which may ask the server something; another
user of the stack does something; other modules change what the server reads. -/
inductive ArcEvent
  | frame (f : RxFrame) (env : Moments)
  | stack (op : StackOp)
  | others (s : ArcServer)

/-- The server's port stays the server's. -/
def ArcEvent.KeepsPort : ArcEvent → Prop
  | .stack op => op.KeepsPort dantePortArc .arc
  | _ => True

/-- The received frame has been through the stack. -/
def ArcServer.received (s : ArcServer) (f : RxFrame) : ArcServer :=
  { s with net := netReceive s.net f }

def arcStep (s : ArcServer) : ArcEvent → ArcServer
  | .frame f env =>
      match brings s.net f .arc with
      | some q => (s.received f).arcRx env q
      | none => s.received f
  | .stack op => { s with net := stackStep s.net op }
  | .others s' => { s' with net := s.net }

/-- A datagram that is a request. -/
def Datagram.IsRequest (q : Datagram) : Prop := danteHdrLen ≤ q.len ∧ q.opcode2 = 0

instance (q : Datagram) : Decidable q.IsRequest := inferInstanceAs (Decidable (_ ∧ _))

namespace ArcServer

/-- The switch, entered with an empty reply. -/
def handled (s : ArcServer) (env : Moments) (q : Datagram) : ArcServer × ArcMsg × Nat :=
  s.countRx.dispatch env q (arcMsgBegin q.req)

/-- The reply to a request. -/
def answer (s : ArcServer) (env : Moments) (q : Datagram) : Reply :=
  (s.handled env q).2.1.reply (s.handled env q).2.2

/-- The reply goes to whoever asked, from the slot that was current. -/
def AnswerSent (s : ArcServer) (env : Moments) (q : Datagram) (frames : List Sent) : Prop :=
  ∃ bytes port, frames = [⟨s.net.txslot, bytes⟩] ∧ q.srcPort = UInt16.toNat port ∧
    Arrives bytes s.net.ip q.srcIp 4440 port ((s.answer env q).bytes q.req)

/-- The mirror's copy goes to the collector, if one is set and known. -/
def MirrorSent (s : ArcServer) (env : Moments) (q : Datagram) (frames : List Sent) : Prop :=
  (s.mirrorIp.isZero = true → frames = []) ∧
    ∀ mac, s.mirrorIp.isZero = false → arpResolve s.net s.mirrorIp = some mac →
      ∃ slot bytes, frames = [⟨slot, bytes⟩] ∧
        Arrives bytes s.net.ip s.mirrorIp 4440 7780 (mirrorCopy q (s.answer env q).code)

/-- What the server does with a datagram: nothing, unless it is a request; a request gets one
reply, unless that would be longer than a datagram can be. -/
def Serves (s : ArcServer) (env : Moments) (q : Datagram) : Prop :=
  (¬ q.IsRequest → s.arcRx env q = s) ∧
    (q.IsRequest → ∃ frames mirrored, (s.arcRx env q).net.sent = s.net.sent ++ frames ++ mirrored ∧
      (¬ q.Overlong → s.AnswerSent env q frames) ∧ (q.Overlong → frames = []) ∧
        s.MirrorSent env q mirrored)

end ArcServer

/-! ## One request -/

section Request

variable {s : ArcServer} {q : Datagram}

/-- A finished reply to a known address leaves, if it fits. -/
theorem commitReply_spec {m : ArcMsg} (code : Nat) {mac : Mac} {port : UInt16}
    (hm : Begun q.req m) (hport : q.srcPort = port.toNat)
    (hsrc : arpResolve s.net q.srcIp = some mac) :
    ∃ frames, (s.commitReply q (m.finish code)).net.sent = s.net.sent ++ frames ∧
      (m.len ≤ netMaxPayload → ∃ bytes, frames = [⟨s.net.txslot, bytes⟩] ∧
        Arrives bytes s.net.ip q.srcIp 4440 port ((m.reply code).bytes q.req)) ∧
      (netMaxPayload < m.len → frames = []) := by
  obtain ⟨hbytes, hlen⟩ := hm.finish code
  have hcommit : (s.commitReply q (m.finish code)).net =
      (netUdpCommit (txStore s.net udpPayloadOff (m.finish code).buf) q.srcIp port.toNat
        (4440 : UInt16).toNat (m.finish code).buf.length netTosBestEffort).1 := by
    rw [← hport]
    rfl
  rw [hcommit]
  by_cases hfits : m.len ≤ netMaxPayload
  · obtain ⟨bytes, -, hsent, harrives⟩ := netUdpCommit_arrives port 4440 netTosBestEffort
      (hlen.trans_le hfits) hsrc
    refine ⟨_, hsent, fun _ => ⟨bytes, rfl, ?_⟩, fun h => absurd hfits (Nat.not_le.2 h)⟩
    rw [← hbytes]
    exact harrives
  · have hlong : netMaxPayload < (m.finish code).buf.length :=
      (Nat.lt_of_not_le hfits).trans_eq hlen.symm
    refine ⟨[], ?_, fun h => absurd h hfits, fun _ => rfl⟩
    rw [netUdpCommit, if_pos hlong, List.append_nil]
    rfl

theorem sameNode_commitReply (s : ArcServer) (q : Datagram) (m : ArcMsg) :
    SameNode s.net (s.commitReply q m).net :=
  (SameNode.of_txStore s.net udpPayloadOff m.buf).trans (sameNode_netUdpCommit ..)

/-- The mirror sends its copy, if it has a collector whose address is known. -/
theorem mirror_spec (s : ArcServer) (q : Datagram) (code : Nat) :
    ∃ frames, (s.mirror q code).net.sent = s.net.sent ++ frames ∧
      (s.mirrorIp.isZero = true → frames = []) ∧
      ∀ mac, s.mirrorIp.isZero = false → arpResolve s.net s.mirrorIp = some mac →
        ∃ slot bytes, frames = [⟨slot, bytes⟩] ∧
          Arrives bytes s.net.ip s.mirrorIp 4440 7780 (ArcServer.mirrorCopy q code) := by
  have hcopy : (ArcServer.mirrorCopy q code).length ≤ netMaxPayload := by
    have hcut : (if arcMirrorMax < q.len then arcMirrorMax else q.len) ≤ arcMirrorMax := by
      split <;> omega
    have hsize : (ArcServer.mirrorCopy q code).length =
        10 + (if arcMirrorMax < q.len then arcMirrorMax else q.len) := by
      rw [ArcServer.mirrorCopy, List.length_append, Mem.length_slice]
      rfl
    have hmax : netMaxPayload = 1400 := rfl
    have hmirror : arcMirrorMax = 96 := rfl
    omega
  rw [ArcServer.mirror]
  cases hzero : s.mirrorIp.isZero with
  | true => exact ⟨[], by simp, fun _ => rfl, fun _ h => nomatch h⟩
  | false =>
    rw [if_neg Bool.false_ne_true]
    cases hres : arpResolve s.net s.mirrorIp with
    | some mac =>
      obtain ⟨bytes, -, hsent, harrives⟩ :=
        netUdpCommit_arrives 7780 4440 netTosBestEffort hcopy hres
      exact ⟨_, hsent, (fun h => nomatch h), fun _ _ _ => ⟨_, bytes, rfl, harrives⟩⟩
    | none =>
      -- the stack asks for the collector's address instead
      obtain ⟨frames, hsent⟩ := sent_netUdpCommit
        (txStore s.net udpPayloadOff (ArcServer.mirrorCopy q code)) s.mirrorIp dantePortMirror
        dantePortArc (ArcServer.mirrorCopy q code).length netTosBestEffort
      exact ⟨frames, hsent, (fun h => nomatch h), fun _ _ h => nomatch h⟩

theorem sameNode_mirror (s : ArcServer) (q : Datagram) (code : Nat) :
    SameNode s.net (s.mirror q code).net := by
  rw [ArcServer.mirror]
  split
  · exact SameNode.refl _
  · exact (SameNode.of_txStore ..).trans (sameNode_netUdpCommit ..)

theorem arcRx_of_not (env : Moments) (h : ¬ q.IsRequest) : s.arcRx env q = s := by
  rw [ArcServer.arcRx]
  by_cases hlen : q.len < danteHdrLen
  · rw [if_pos hlen]
  · have hcode : q.opcode2 ≠ 0 := fun hcode => h ⟨Nat.not_lt.1 hlen, hcode⟩
    rw [if_neg hlen, if_pos hcode]

theorem arcRx_of_request (env : Moments) (h : q.IsRequest) :
    s.arcRx env q = ((s.handled env q).1.commitReply q
      ((s.handled env q).2.1.finish (s.handled env q).2.2)).mirror q (s.handled env q).2.2 := by
  rw [ArcServer.arcRx, if_neg (Nat.not_lt.2 h.1), if_neg (not_not.2 h.2)]
  rfl

/-- A server whose client is known serves it. -/
theorem serves (env : Moments) {mac : Mac} {port : UInt16} (hport : q.srcPort = port.toNat)
    (hsrc : arpResolve s.net q.srcIp = some mac) : s.Serves env q := by
  refine ⟨arcRx_of_not env, fun hrequest => ?_⟩
  have hhandled : Handled s.countRx q (s.handled env q) :=
    handled_dispatch s.countRx env hrequest.1
  have hrx := arcRx_of_request (s := s) env hrequest
  have hcodeOf : (s.answer env q).code = (s.handled env q).2.2 := rfl
  have hreply : s.answer env q = (s.handled env q).2.1.reply (s.handled env q).2.2 := rfl
  unfold ArcServer.AnswerSent ArcServer.MirrorSent
  rw [hrx, hcodeOf, hreply]
  -- the switch has sent nothing: both frames are those of the handler's end
  generalize s.handled env q = r at hhandled
  have hnet : r.1.net = s.net := hhandled.net
  have hmirror : r.1.mirrorIp = s.mirrorIp := hhandled.mirrorIp
  obtain ⟨frames, hsent, hfits, hlong⟩ := commitReply_spec (s := r.1) r.2.2
    hhandled.begun hport (hnet ▸ hsrc)
  obtain ⟨mirrored, hsent', hnone, hcopied⟩ := mirror_spec (r.1.commitReply q
    (r.2.1.finish r.2.2)) q r.2.2
  have hsame := sameNode_commitReply r.1 q (r.2.1.finish r.2.2)
  have hkept : (r.1.commitReply q (r.2.1.finish r.2.2)).mirrorIp = s.mirrorIp := hmirror
  rw [hkept, hsame.ip, hsame.arp, hnet] at hcopied
  rw [hkept] at hnone
  rw [hnet] at hsent hfits
  refine ⟨frames, mirrored, ?_, fun h => ?_, fun h => hlong (hhandled.overlong.1 h), hnone,
    hcopied⟩
  · rw [hsent', hsent]
  · obtain ⟨bytes, hframes, harrives⟩ :=
      hfits (Nat.le_of_not_lt fun hlt => h (hhandled.overlong.2 hlt))
    exact ⟨bytes, port, hframes, hport, harrives⟩

end Request

/-! ## Whole runs -/

theorem sameNode_arcRx (s : ArcServer) (env : Moments) (q : Datagram) :
    SameNode s.net (s.arcRx env q).net := by
  by_cases hrequest : q.IsRequest
  · have hnet : (s.handled env q).1.net = s.net :=
      (handled_dispatch s.countRx env hrequest.1).net
    have hcommit := sameNode_commitReply (s.handled env q).1 q
      ((s.handled env q).2.1.finish (s.handled env q).2.2)
    rw [hnet] at hcommit
    rw [arcRx_of_request env hrequest]
    exact hcommit.trans (sameNode_mirror ..)
  · rw [arcRx_of_not env hrequest]
    exact SameNode.refl _

/-- The server keeps its port whatever happens. -/
theorem listening_arcStep {s : ArcServer} {e : ArcEvent} (h : Listening s.net dantePortArc .arc)
    (he : e.KeepsPort) : Listening (arcStep s e).net dantePortArc .arc := by
  cases e with
  | frame f env =>
    have hreceived : Listening (s.received f).net dantePortArc .arc :=
      h.of_bindings (udpBindings_netReceive s.net f)
    rw [arcStep]
    split
    · exact hreceived.of_bindings (sameNode_arcRx (s.received f) env _).bindings
    · exact hreceived
  | others s' => exact h
  | stack op => exact h.stackStep he

/-- A frame that brings the server a datagram from a host is served, and the stack itself sends
nothing for it. -/
def Answers (s : ArcServer) : ArcEvent → Prop
  | .frame f env => ∀ q, brings s.net f .arc = some q → q.srcIp.isZero = false →
      arcStep s (.frame f env) = (s.received f).arcRx env q ∧
        (s.received f).net.sent = s.net.sent ∧ (s.received f).Serves env q
  | _ => True

theorem answers (s : ArcServer) (e : ArcEvent) : Answers s e := by
  cases e with
  | stack op => trivial
  | others s' => trivial
  | frame f env =>
    intro q hq hsrc
    obtain ⟨hnet, hsent, -⟩ := netReceive_of_brings hq
    obtain ⟨mac, hmac⟩ := arpResolve_of_brings hq hsrc
    obtain ⟨port, hport⟩ := srcPort_of_brings hq
    rw [← hnet] at hmac
    exact ⟨by rw [arcStep, hq], hsent, serves env hport hmac⟩

/-- In every run of the board, whatever its other modules do meanwhile, the server keeps its port;
a datagram to it that is no request does nothing; and every request is answered by one frame, which
hands the reply to whoever asked: the request's protocol, number and opcode, the true length, the
result of the switch.  The one exception is a latency set that is longer than a datagram may be. -/
theorem arc_answered (s : ArcServer) (hs : Listening s.net dantePortArc .arc)
    (es : List ArcEvent) (hes : ∀ e ∈ es, e.KeepsPort) :
    Along arcStep (fun s e => udpHandler s.net dantePortArc = some .arc ∧ Answers s e) s es := by
  have hkeeps : Along arcStep (fun _ e => e.KeepsPort) s es := Along.of_inputs hes
  have hall := hkeeps.strengthen (P := fun s => Listening s.net dantePortArc .arc)
    (fun s e he h => listening_arcStep h he) hs
  exact hall.mono fun s e h => ⟨h.2.handler, answers s e⟩

/-- The server as it starts, on a stack that has bound nothing else. -/
def ArcServer.boot : ArcServer where
  arc := arcBoot
  dev := Mdns.danteDevInit ⟨0x02, 0, 0, 0, 0, 0x42⟩
  body := arc1100Boot
  devFlags0 := 0x00
  devFlags2 := 0x30
  routerVers := 0x0404
  arcpVers := 0x280c
  mirrorIp := ⟨0, 0, 0, 0⟩
  stats := ⟨0, 0, 0⟩
  mdns := Mdns.mdnsInit
  net := (netUdpBind (Net.boot fun _ _ => 0) dantePortArc .arc).1

theorem listening_boot : Listening ArcServer.boot.net dantePortArc .arc :=
  listening_netUdpBind (fun _ _ _ hfn => absurd hfn (by simp [Net.boot])) (by decide) .arc
    ⟨0, rfl⟩

/-- A request for the counts, from 169.254.1.1. -/
def countsRequest : List UInt8 :=
  [2, 0, 0, 0, 0, 1, 2, 0, 0, 0, 0, 2, 0x08, 0x00,
    0x45, 0, 0, 38, 0, 0, 0, 0, 64, 17, 0, 0, 169, 254, 1, 1, 169, 254, 9, 200,
    0x30, 0x39, 0x11, 0x58, 0, 18, 0, 0, 0x28, 0x09, 0, 10, 0, 7, 0x10, 0, 0, 0]

theorem arc_answered_counts :
    (brings ArcServer.boot.net (asReceived countsRequest) .arc).isSome = true ∧
      Along arcStep (fun s e => udpHandler s.net dantePortArc = some .arc ∧ Answers s e)
        ArcServer.boot [.frame (asReceived countsRequest) fun _ => (0, fun _ => (0, 0))] :=
  ⟨by decide, arc_answered ArcServer.boot listening_boot _ fun e he => by
    rw [List.mem_singleton.1 he]
    trivial⟩

end Firmware
end InfernoFpga
