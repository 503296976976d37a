import InfernoFpga.Firmware.ArcAnswers
import InfernoFpga.Firmware.Cmc
import InfernoFpga.Firmware.InfoPoll
import InfernoFpga.Mdns.Device

/-!
# Identity — one device, whoever is asked

A controller learns of the board from mDNS, confirms what it learnt with the CMC server, and hears
the announcements of `dante_info.c`.  If these name different devices, the board appears and then
disappears.  They read one `g_dante`, and nothing in the firmware writes to it after boot: in every
run they name the same device, at the address it has, with ports at which its servers listen.
-/

namespace InfernoFpga
namespace Firmware

open Lib
open Mdns (Board Svc Tells TellsOf danteDevInit dantePortCmc mdnsRx mdnsPoll)

/-! ## The board -/

/-- The modules that say who the board is, around one stack and one `g_dante`: those of the ARC
server are the board's own. -/
structure Node where
  server : ArcServer
  info : Info
  cmc : CmcStats
  fppAdvMax : Nat

/-- What happens at the board: a frame is received, the main loop passes `dante_info_poll` or
`mdns_poll`, another user of the stack does something, and the other modules do anything to what
they own. -/
inductive NodeEvent
  | frame (f : RxFrame) (env : Moments)
  | infoPass (ms : Int)
  | mdnsPass (now : UInt32)
  | stack (op : StackOp)
  | others (s : Node)

namespace Node

variable (s : Node)

/-- What the responder reads. -/
def board : Board where
  dev := s.server.dev
  ip := s.server.net.ip
  tx := s.server.synced
  latencyNs := s.server.arc.latencyNs.toNat
  latencyAutoraise := s.server.arc.latencyAutoraise
  fppAdvMax := s.fppAdvMax

/-- `dante_info.c`, with what it reads of the others. -/
def infoNow : Info :=
  { s.info with
    net := s.server.net, dev := s.server.dev, processId := s.server.arc.processId }

/-- `dante_cmc.c`, with what it reads of the others. -/
def cmcNow : Cmc := ⟨s.server.net, s.server.dev, s.server.arc.processId, s.cmc⟩

def withNet (net : Net) : Node := { s with server := { s.server with net := net } }

def withInfo (i : Info) : Node := { s.withNet i.net with info := i }

def withCmc (c : Cmc) : Node := { s.withNet c.net with cmc := c.stats }

def withMdns (p : Mdns.Responder × Net) : Node :=
  { s with server := { s.server with mdns := p.1, net := p.2 } }

/-- The handler of the port is called.  What the handlers of other modules do is left to the other
events. -/
def handle (env : Moments) (q : Datagram) : Handler → Node
  | .arc => { s with server := s.server.arcRx env q }
  | .cmc => s.withCmc (s.cmcNow.cmcRx q)
  | .info => s.withInfo (infoRx s.infoNow q)
  | .mdns => s.withMdns (mdnsRx s.board s.server.mdns s.server.net (Mem.slice q.req 0 q.len))
  | _ => s

def received (f : RxFrame) : Node := s.withNet (netReceive s.server.net f)

end Node

def nodeStep (s : Node) : NodeEvent → Node
  | .frame f env =>
      match (netRxFrame s.server.net f).call.bind (Upcall.datagram f) with
      | some (fn, q) => (s.received f).handle env q fn
      | none => s.received f
  | .infoPass ms => s.withInfo (danteInfoPoll s.infoNow (clockMs ms))
  | .mdnsPass now => s.withMdns (mdnsPoll s.board s.server.mdns s.server.net now)
  | .stack op => s.withNet (stackStep s.server.net op)
  | .others s' =>
      -- the stack has an event of its own, and nothing but the boot writes to `g_dante`
      { s' with
        server := { s'.server with
          net := s.server.net
          dev := s.server.dev
          arc := { s'.server.arc with processId := s.server.arc.processId } } }

/-! ## What one step says -/

/-- What the info module says from `s` to `s'` bears the device's identity. -/
structure Signs (s s' : Info) : Prop where
  built : ∃ new, s'.built = s.built ++ new ∧ ∀ b ∈ new, Signed s b
  node : SameNode s.net s'.net

theorem Speaks.signs {s s' : Info} {new : List Built} (h : Speaks s s' new) : Signs s s' :=
  ⟨⟨new, h.built, h.signed⟩, h.node⟩

theorem signs_danteInfoPoll (s : Info) (now : UInt32) : Signs s (danteInfoPoll s now) := by
  rw [danteInfoPoll]
  split
  · obtain ⟨new, hspeaks, -⟩ := announces_announceInfo s
    generalize announceInfo s = s' at hspeaks ⊢
    exact ⟨⟨new, hspeaks.built, hspeaks.signed⟩, hspeaks.node⟩
  split
  · exact (Speaks.refl s).signs
  · obtain ⟨new, hspeaks, -⟩ :=
      announces_sendHeartbeat { s with nextHeartbeatMs := now + heartbeatMs }
    generalize sendHeartbeat { s with nextHeartbeatMs := now + heartbeatMs } = s' at hspeaks ⊢
    have hsigned : ∀ b ∈ new, Signed s b := fun b hb => (hspeaks.signed b hb).of_same rfl rfl
    exact ⟨⟨new, hspeaks.built, hsigned⟩, hspeaks.node⟩

/-- The identity of the board and its ports. -/
structure SameDevice (s s' : Node) : Prop where
  dev : s'.server.dev = s.server.dev
  processId : s'.server.arc.processId = s.server.arc.processId
  bindings : s'.server.net.udpBindings = s.server.net.udpBindings

/-- From `s` to `s'`, every info datagram and every mDNS response is about this device. -/
structure SpeaksOf (s s' : Node) : Prop where
  info : ∃ new, s'.info.built = s.info.built ++ new ∧ ∀ b ∈ new, Signed s.infoNow b
  mdns : TellsOf s.board s.server.mdns s'.server.mdns

section Calls

variable {s : Node}

/-- A step that says nothing. -/
theorem SpeaksOf.silent {s' : Node} (hbuilt : s'.info.built = s.info.built)
    (hresponses : s'.server.mdns.responses = s.server.mdns.responses) : SpeaksOf s s' where
  info := ⟨[], by rw [hbuilt, List.append_nil], fun _ h => absurd h List.not_mem_nil⟩
  mdns := ⟨[], by rw [hresponses, List.append_nil], fun _ h => absurd h List.not_mem_nil⟩

theorem speaksOf_refl : SpeaksOf s s := .silent rfl rfl

theorem speaksOf_withInfo {i : Info} (h : Signs s.infoNow i) :
    SpeaksOf s (s.withInfo i) ∧ SameDevice s (s.withInfo i) :=
  ⟨⟨h.built, TellsOf.refl s.board s.server.mdns⟩, ⟨rfl, rfl, h.node.bindings⟩⟩

theorem speaksOf_withMdns {p : Mdns.Responder × Net}
    (h : Tells s.board (s.server.mdns, s.server.net) p) :
    SpeaksOf s (s.withMdns p) ∧ SameDevice s (s.withMdns p) :=
  ⟨⟨speaksOf_refl.info, h.1⟩, ⟨rfl, rfl, h.2.bindings⟩⟩

theorem processId_arcSubscribe (s : ArcState) (q : Datagram) :
    (arcSubscribe s q).processId = s.processId := by
  unfold arcSubscribe
  split
  · split
    · rfl
    · rfl
  · rfl

/-- No request of the switch changes who the board is, and its answer is the reply alone. -/
theorem identity_dispatch (s : ArcServer) (env : Moments) (q : Datagram) (m : ArcMsg) :
    (s.dispatch env q m).1.dev = s.dev ∧
      (s.dispatch env q m).1.arc.processId = s.arc.processId ∧
      (s.dispatch env q m).1.mdns.responses = s.mdns.responses := by
  unfold ArcServer.dispatch
  split
  -- a latency that is taken is announced again, which only sets the responder's timer
  case h_20 hop =>
    rw [ArcServer.latencyCase]
    cases q.latencySet with
    | none => exact ⟨rfl, rfl, rfl⟩
    | some v => exact ⟨rfl, rfl, rfl⟩
  case h_14 hop => exact ⟨rfl, processId_arcSubscribe s.arc q, rfl⟩
  all_goals exact ⟨rfl, rfl, rfl⟩

theorem identity_arcRx (s : ArcServer) (env : Moments) (q : Datagram) :
    (s.arcRx env q).dev = s.dev ∧ (s.arcRx env q).arc.processId = s.arc.processId ∧
      (s.arcRx env q).mdns.responses = s.mdns.responses := by
  by_cases hrequest : q.IsRequest
  · have hcase := identity_dispatch s.countRx env q (arcMsgBegin q.req)
    rw [arcRx_of_request env hrequest, ArcServer.handled, ArcServer.mirror]
    split
    · exact hcase
    · exact hcase
  · rw [arcRx_of_not env hrequest]
    exact ⟨rfl, rfl, rfl⟩

/-- Whichever handler is called. -/
theorem speaksOf_handle (hnamed : Mdns.Named s.board) (env : Moments) (q : Datagram)
    (fn : Handler) :
    SpeaksOf s (s.handle env q fn) ∧ SameDevice s (s.handle env q fn) := by
  have hnothing : SpeaksOf s s ∧ SameDevice s s := ⟨speaksOf_refl, ⟨rfl, rfl, rfl⟩⟩
  cases fn with
  | arc =>
    obtain ⟨hdev, hprocess, hresponses⟩ := identity_arcRx s.server env q
    exact ⟨.silent rfl hresponses, ⟨hdev, hprocess, (sameNode_arcRx s.server env q).bindings⟩⟩
  | cmc => exact ⟨.silent rfl rfl, ⟨rfl, rfl, (sameNode_cmcRx s.cmcNow q).bindings⟩⟩
  | info =>
    obtain ⟨new, hspeaks, -⟩ := speaks_infoRx s.infoNow q
    exact speaksOf_withInfo hspeaks.signs
  | mdns => exact speaksOf_withMdns (Mdns.tells_mdnsRx hnamed ..)
  | flows => exact hnothing
  | stats => exact hnothing
  | cap => exact hnothing
  | ptp => exact hnothing
  | probe => exact hnothing

end Calls

/-! ## Runs -/

/-- The ports that the records and the advertisement name, and what is to listen there. -/
def servers : List (Nat × Handler) :=
  [(Svc.arc.port, .arc), (Svc.cmc.port, .cmc), (dantePortInfoReq, .info)]

def Serving (n : Net) : Prop := ∀ p ∈ servers, Listening n p.1 p.2

/-- The servers' ports stay theirs. -/
def NodeEvent.KeepsPorts : NodeEvent → Prop
  | .stack op => ∀ p ∈ servers, op.KeepsPort p.1 p.2
  | _ => True

/-- What a step says is about this device. -/
def Says (s : Node) : NodeEvent → Prop
  | .others _ => True
  | e => SpeaksOf s (nodeStep s e)

/-- A host that asks the CMC server who the board is, is told in one frame: the device, its
address, and the port of the info server. -/
def Confirms (s : Node) : NodeEvent → Prop
  | .frame f env => ∀ q, brings s.server.net f .cmc = some q → q.AsksWho → q.srcIp.isZero = false →
      ∃ bytes port payload,
        (nodeStep s (.frame f env)).server.net.sent =
          s.server.net.sent ++ [⟨s.server.net.txslot, bytes⟩] ∧
        q.srcPort = UInt16.toNat port ∧ Arrives bytes s.server.net.ip q.srcIp 8800 port payload ∧
        readAdvertisement payload = some ⟨s.server.arc.processId.toNat,
          s.server.dev.deviceId.toList, s.server.net.ip.bytes, dantePortInfoReq⟩
  | _ => True

section Steps

variable {s : Node}

/-- The stack learns from a frame, but not who the board is. -/
theorem board_withNet {net : Net} (h : net.ip = s.server.net.ip) :
    (s.withNet net).board = s.board := by
  unfold Node.board Node.withNet ArcServer.synced
  dsimp only
  rw [h]

/-- A frame that brings a handler a datagram, and one that does not. -/
theorem nodeStep_frame (s : Node) (f : RxFrame) (env : Moments) :
    (∃ fn q, brings s.server.net f fn = some q ∧
      nodeStep s (.frame f env) = (s.received f).handle env q fn) ∨
    nodeStep s (.frame f env) = s.received f := by
  rw [nodeStep]
  cases hcall : (netRxFrame s.server.net f).call.bind (Upcall.datagram f) with
  | none => exact .inr rfl
  | some p => exact .inl ⟨p.1, p.2, by rw [brings, hcall]; exact if_pos rfl, rfl⟩

theorem nodeStep_of_brings {f : RxFrame} {fn : Handler} {q : Datagram} (env : Moments)
    (h : brings s.server.net f fn = some q) :
    nodeStep s (.frame f env) = (s.received f).handle env q fn := by
  rw [brings] at h
  rw [nodeStep]
  cases hcall : (netRxFrame s.server.net f).call.bind (Upcall.datagram f) with
  | none =>
    rw [hcall] at h
    cases h
  | some p =>
    obtain ⟨fn', q'⟩ := p
    rw [hcall] at h
    dsimp only at h ⊢
    by_cases hfn : fn' = fn
    · rw [if_pos hfn] at h
      rw [hfn, Option.some.inj h]
    · rw [if_neg hfn] at h
      cases h

/-- A received frame in which nobody is called says nothing. -/
theorem quiet_received (s : Node) (f : RxFrame) :
    SpeaksOf s (s.received f) ∧ SameDevice s (s.received f) :=
  ⟨.silent rfl rfl, ⟨rfl, rfl, udpBindings_netReceive s.server.net f⟩⟩

theorem speaksOf_frame (hnamed : Mdns.Named s.board) (f : RxFrame) (env : Moments) :
    SpeaksOf s (nodeStep s (.frame f env)) ∧ SameDevice s (nodeStep s (.frame f env)) := by
  have hbindings := udpBindings_netReceive s.server.net f
  rcases nodeStep_frame s f env with ⟨fn, q, hq, hstep⟩ | hstep
  · obtain ⟨-, -, -, hip⟩ := netReceive_of_brings hq
    have hboard : (s.received f).board = s.board := board_withNet hip
    obtain ⟨⟨⟨new, hbuilt, hsigned⟩, hmdns⟩, hsame⟩ :=
      speaksOf_handle (hboard ▸ hnamed) env q fn
    rw [hboard] at hmdns
    rw [hstep]
    exact ⟨⟨⟨new, hbuilt, hsigned⟩, hmdns⟩,
      ⟨hsame.dev, hsame.processId, hsame.bindings.trans hbindings⟩⟩
  · rw [hstep]
    exact quiet_received s f

/-- Whatever happens, the board is the same device. -/
theorem identity_nodeStep (hnamed : Mdns.Named s.board) (e : NodeEvent) :
    (nodeStep s e).server.dev = s.server.dev ∧
      (nodeStep s e).server.arc.processId = s.server.arc.processId := by
  cases e with
  | frame f env =>
    obtain ⟨-, hsame⟩ := speaksOf_frame hnamed f env
    exact ⟨hsame.dev, hsame.processId⟩
  | infoPass ms => exact ⟨rfl, rfl⟩
  | mdnsPass now => exact ⟨rfl, rfl⟩
  | stack op => exact ⟨rfl, rfl⟩
  | others s' => exact ⟨rfl, rfl⟩

theorem speaksOf_nodeStep (hnamed : Mdns.Named s.board) (e : NodeEvent) : Says s e := by
  cases e with
  | frame f env => exact (speaksOf_frame hnamed f env).1
  | infoPass ms => exact (speaksOf_withInfo (signs_danteInfoPoll s.infoNow (clockMs ms))).1
  | mdnsPass now => exact (speaksOf_withMdns (Mdns.tells_mdnsPoll hnamed ..)).1
  | stack op => exact .silent rfl rfl
  | others s' => trivial

/-- The servers keep their ports whatever happens. -/
theorem serving_nodeStep (hnamed : Mdns.Named s.board) {e : NodeEvent} (he : e.KeepsPorts)
    (h : Serving s.server.net) : Serving (nodeStep s e).server.net := by
  intro p hp
  cases e with
  | frame f env => exact (h p hp).of_bindings (speaksOf_frame hnamed f env).2.bindings
  | infoPass ms =>
    exact (h p hp).of_bindings
      (speaksOf_withInfo (signs_danteInfoPoll s.infoNow (clockMs ms))).2.bindings
  | mdnsPass now =>
    exact (h p hp).of_bindings (speaksOf_withMdns (Mdns.tells_mdnsPoll hnamed ..)).2.bindings
  | stack op => exact (h p hp).stackStep (he p hp)
  | others s' => exact h p hp

theorem confirms (s : Node) (e : NodeEvent) : Confirms s e := by
  cases e with
  | frame f env =>
    intro q hq hasks hsrc
    obtain ⟨hnet, hsent, hslot, hip⟩ := netReceive_of_brings hq
    obtain ⟨mac, hmac⟩ := arpResolve_of_brings hq hsrc
    obtain ⟨port, hport⟩ := srcPort_of_brings hq
    rw [← hnet] at hmac
    obtain ⟨bytes, payload, hanswer, harrives, hread⟩ :=
      cmcRx_answers (s := (s.received f).cmcNow) hasks hport hmac
    refine ⟨bytes, port, payload, ?_, hport, ?_, ?_⟩
    · rw [nodeStep_of_brings env hq, ← hsent, ← hslot]
      exact hanswer
    · rw [← hip]
      exact harrives
    · rw [← hip]
      exact hread
  | infoPass ms => trivial
  | mdnsPass now => trivial
  | stack op => trivial
  | others s' => trivial

end Steps

/-- The names of the board have no empty label. -/
theorem named_danteDevInit {b : Board} {mac : Mac} (h : b.dev = danteDevInit mac) :
    Mdns.Named b := by
  constructor
  · rw [h]
    exact (by decide : ¬ Mdns.HasGap (Mdns.ascii "N-Series-Switchover"))
  · rw [h]
    exact (by decide : ¬ Mdns.HasGap (Mdns.ascii "N-Series-Switchover"))

/-- In every run of a board whose servers found their ports, whatever else happens on it: the
device is the one of the board's MAC; the ports that it names are those its servers listen at; and
whether a controller reads the records of any response, the header of any datagram of the info
module or the answer of the CMC server, it finds this device at its present address. -/
theorem one_identity (s : Node) (mac : Mac) (hdev : s.server.dev = danteDevInit mac)
    (hserving : Serving s.server.net) (es : List NodeEvent) (hes : ∀ e ∈ es, e.KeepsPorts) :
    Along nodeStep (fun s' e => (s'.server.dev = danteDevInit mac ∧
        s'.server.arc.processId = s.server.arc.processId) ∧
      (∀ p ∈ servers, udpHandler s'.server.net p.1 = some p.2) ∧ Says s' e ∧ Confirms s' e)
      s es := by
  have hkeeps : Along nodeStep (fun _ e => e.KeepsPorts) s es := Along.of_inputs hes
  have hall := hkeeps.strengthen (P := fun s' => (s'.server.dev = danteDevInit mac ∧
      s'.server.arc.processId = s.server.arc.processId) ∧ Serving s'.server.net) ?_
    ⟨⟨hdev, rfl⟩, hserving⟩
  · exact hall.mono fun s' e h => ⟨h.2.1, fun p hp => (h.2.2 p hp).handler,
      speaksOf_nodeStep (named_danteDevInit h.2.1.1) e, confirms s' e⟩
  · rintro s' e he ⟨⟨hsame, hprocess⟩, hports⟩
    have hnamed : Mdns.Named s'.board := named_danteDevInit hsame
    obtain ⟨hdev', hprocess'⟩ := identity_nodeStep hnamed e
    exact ⟨⟨hdev'.trans hsame, hprocess'.trans hprocess⟩, serving_nodeStep hnamed he hports⟩

/-- The board as it starts, its servers bound. -/
def Node.boot : Node where
  server := { ArcServer.boot with
    net := (netUdpBind (netUdpBind ArcServer.boot.net dantePortCmc .cmc).1 dantePortInfoReq
      .info).1 }
  info := atBoot
  cmc := ⟨0, 0⟩
  fppAdvMax := 4

theorem serving_boot : Serving Node.boot.server.net := by
  have hcmc := listening_netUdpBind listening_boot.ordered (by decide : dantePortCmc ≠ 0) .cmc
    ⟨1, rfl⟩
  have hinfo := listening_netUdpBind hcmc.ordered (by decide : dantePortInfoReq ≠ 0) .info ⟨2, rfl⟩
  intro p hp
  simp only [servers, List.mem_cons, List.not_mem_nil, or_false] at hp
  rcases hp with rfl | rfl | rfl
  · exact (listening_boot.netUdpBind (by decide)).netUdpBind (by decide)
  · exact hcmc.netUdpBind (by decide)
  · exact hinfo

/-- Who are you, from 169.254.1.1. -/
def whoRequest : List UInt8 :=
  [2, 0, 0, 0, 0, 1, 2, 0, 0, 0, 0, 2, 0x08, 0x00,
    0x45, 0, 0, 38, 0, 0, 0, 0, 64, 17, 0, 0, 169, 254, 1, 1, 169, 254, 9, 200,
    0x30, 0x39, 0x22, 0x60, 0, 18, 0, 0, 0x12, 0x00, 0, 10, 0, 7, 0x10, 1, 0, 0]

theorem one_identity_boot :
    (brings Node.boot.server.net (asReceived whoRequest) .cmc).isSome = true ∧
      Along nodeStep (fun s' e => (s'.server.dev = danteDevInit ⟨0x02, 0, 0, 0, 0, 0x42⟩ ∧
          s'.server.arc.processId = Node.boot.server.arc.processId) ∧
        (∀ p ∈ servers, udpHandler s'.server.net p.1 = some p.2) ∧ Says s' e ∧ Confirms s' e)
        Node.boot [.frame (asReceived whoRequest) fun _ => (0, fun _ => (0, 0)), .infoPass 0,
          .mdnsPass 0] := by
  refine ⟨by decide, one_identity Node.boot _ rfl serving_boot _ fun e he => ?_⟩
  simp only [List.mem_cons, List.not_mem_nil, or_false] at he
  rcases he with rfl | rfl | rfl
  · trivial
  · trivial
  · trivial

end Firmware
end InfernoFpga
