import InfernoFpga.Firmware.DanteMsg
import InfernoFpga.Firmware.FlowTable

/-!
# FlowControl — the flow-control port answers each request with its own reply

`flows_rx` begins its reply in the current transmit slot and only then decides the request.
Accepting a flow resolves the receiver's address, and a lookup that misses transmits a request
of its own: the slot the reply was begun in is then no longer the slot that is committed.
-/

namespace InfernoFpga
namespace Firmware

open Lib
open Packetizer (CtxId)

/-! ## State -/

abbrev dantePortFlows : Nat := 4455
abbrev dantePortMirror : Nat := 7780
abbrev opRequestFlow : Nat := 0x0100
abbrev codeRateMismatch : Nat := 0x0301
abbrev codeTooManyFlows : Nat := 0x0315
abbrev codeNotFound : Nat := 0x0103
abbrev mirrorMax : Nat := 160

/-- `dante_flows_stats_t`. -/
structure FlowsStats where
  rx : UInt32
  tx : UInt32
  requests : UInt32
  accepted : UInt32
  rejected : UInt32
  unknown : UInt32

/-- The settings requests are checked against: `g_dante` and the `g_fpp_` knobs. -/
structure FlowPolicy where
  sampleRate : UInt32
  bitsPerSample : UInt8
  fppMaxAccept : UInt8
  fppClamp : Bool

/-- What the flow-control handler reads and writes. -/
structure FlowControl where
  net : Net
  tx : Tx
  stats : FlowsStats
  cookie : UInt16
  policy : FlowPolicy
  mirrorIp : Ip

/-! ## The request -/

namespace Datagram

variable (q : Datagram)

/-- `c`. -/
def content : Mem := fun k => q.req (danteHdrLen + k)
def clen : Nat := q.len - danteHdrLen
def rate : Nat := Mem.rd32 q.content 2
def bits : Nat := Mem.rd32 q.content 6
def nch : Nat := Mem.rd16 q.content 12
def rdo : Nat := Mem.rd16 q.content 14

/-- `fpp`, behind the channel list and six unidentified bytes. -/
def fpp : Nat :=
  let fo := 16 + q.nch * 2 + 6
  if fo + 2 ≤ q.clen then Mem.rd16 q.content fo else 0

/-- The remote socket descriptor lies inside the datagram. -/
def hasDescriptor : Bool := decide (danteHdrLen ≤ q.rdo ∧ q.rdo + 8 ≤ q.len)

def dst : Ip := if q.hasDescriptor then Ip.read q.req (q.rdo + 4) else ⟨0, 0, 0, 0⟩

def dport : BitVec 16 :=
  if q.hasDescriptor then BitVec.ofNat 16 (Mem.rd16 q.req (q.rdo + 2)) else 0

def chans (i : Fin 8) : BitVec 16 :=
  if 16 + i.val * 2 + 2 ≤ q.clen then BitVec.ofNat 16 (Mem.rd16 q.content (16 + i.val * 2)) else 0

/-- The datagram is a request with enough content to ask for a flow. -/
def asksForFlow : Bool := decide (q.opcode1 = opRequestFlow ∧ 16 < q.clen)

end Datagram

/-! ## Checking a request -/

inductive Verdict
  | refuse (code : Nat)
  | bind (r : UnicastReq)

/-- `fpp` after the clamp. -/
def clampFpp (p : FlowPolicy) (fpp : Nat) : Nat :=
  if p.fppClamp ∧ p.fppMaxAccept.toNat < fpp then p.fppMaxAccept.toNat else fpp

/-- `dante_tx_fpp_supported`. -/
def danteTxFppSupported (p : FlowPolicy) (fpp : Nat) : Prop :=
  fpp ≤ p.fppMaxAccept.toNat ∧ fpp ∈ kFppTable

instance (p : FlowPolicy) (fpp : Nat) : Decidable (danteTxFppSupported p fpp) :=
  inferInstanceAs (Decidable (_ ∧ _))

/-- The chain of checks in front of a bind. -/
def check (p : FlowPolicy) (q : Datagram) : Verdict :=
  let fpp := clampFpp p q.fpp
  if q.rate ≠ p.sampleRate.toNat ∨ q.bits ≠ p.bitsPerSample.toNat then .refuse codeRateMismatch
  else if hfpp : danteTxFppSupported p fpp ∧ ¬ (fpp = 2 ∧ q.nch % 2 = 1) then
    if hnch : 1 ≤ q.nch ∧ q.nch ≤ 8 then
      .bind { peer := q.srcIp, dst := q.dst, dport := q.dport, chans := q.chans
              nslots := ⟨q.nch, hnch⟩, fpp := ⟨fpp, hfpp.1.2⟩ }
    else .refuse codeTooManyFlows
  else .refuse codeRateMismatch

/-! ## The handler -/

section Handler

variable (d : FlowControl) (now : UInt32) (reads : Nat → Nat × Nat)

/-- `dante_tx_bind_unicast`; `none` is the `-1` of the source. -/
def danteTxBindUnicast (r : UnicastReq) : FlowControl × Option CtxId :=
  match netArpLookup d.net r.dst with
  | (n, none) => ({ d with net := n }, none)
  | (n, some dmac) =>
      let bound := bindUnicast { d.tx with netIp := n.ip } r dmac now reads
      ({ d with net := n, tx := bound.1 }, some bound.2)

def countRequest : FlowControl :=
  { d with stats := { d.stats with requests := d.stats.requests + 1 } }

def countRejected : FlowControl :=
  { d with stats := { d.stats with rejected := d.stats.rejected + 1 } }

/-- The handle of an accepted flow: its index and a fresh cookie. -/
def acceptFlow (m : DanteMsg) (f : CtxId) : FlowControl × DanteMsg × Nat :=
  let d := { d with
    stats := { d.stats with accepted := d.stats.accepted + 1 }, cookie := d.cookie + 1 }
  let nm := danteMsgU32 d.net m f.val
  let nm := danteMsgU16 nm.1 nm.2 d.cookie.toNat
  ({ d with net := nm.1 }, nm.2, danteCodeOk)

/-- The `OP_REQUEST_FLOW` branch: the state, the message and the result code. -/
def requestFlow (m : DanteMsg) (q : Datagram) : FlowControl × DanteMsg × Nat :=
  match check d.policy q with
  | .refuse code => (countRejected (countRequest d), m, code)
  | .bind r =>
      match danteTxBindUnicast (countRequest d) now reads r with
      | (d, none) => (countRejected d, m, codeTooManyFlows)
      | (d, some f) => acceptFlow d m f

/-- Between `dante_msg_begin` and `dante_msg_finish`. -/
def flowsDispatch (m : DanteMsg) (q : Datagram) : FlowControl × DanteMsg × Nat :=
  if q.asksForFlow then requestFlow d now reads m q
  else ({ d with stats := { d.stats with unknown := d.stats.unknown + 1 } }, m, codeNotFound)

/-- `dante_msg_begin` and what follows, up to `dante_msg_finish`. -/
def flowsHandled (q : Datagram) : FlowControl × DanteMsg × Nat :=
  let begun := danteMsgBegin d.net q.req
  flowsDispatch { d with net := begun.1 } now reads begun.2 q

/-- From `dante_msg_begin` to the commit of the reply: the state, the result code, and whether
the reply was sent. -/
def flowsReply (q : Datagram) : FlowControl × Nat × Bool :=
  let handled := flowsHandled d now reads q
  let d := handled.1
  let finished := danteMsgFinish d.net handled.2.1 handled.2.2
  let commit := netUdpCommit finished.1 q.srcIp q.srcPort dantePortFlows finished.2
    netTosBestEffort
  let tx := if commit.2 then d.stats.tx + 1 else d.stats.tx
  ({ d with net := commit.1, stats := { d.stats with tx := tx } }, handled.2.2, commit.2)

/-- The diagnostic copy of the request, after the reply. -/
def flowsMirror (q : Datagram) (code : Nat) : FlowControl :=
  if d.mirrorIp.isZero then d
  else
    let copy := [0x46, 0x4C, 0x43, 0x31] ++ Mem.be16 code ++ q.srcIp.bytes ++
      Mem.slice q.req 0 (if mirrorMax < q.len then mirrorMax else q.len)
    let n := txStore d.net udpPayloadOff copy
    let commit := netUdpCommit n d.mirrorIp dantePortMirror dantePortFlows copy.length
      netTosBestEffort
    { d with net := commit.1 }

def countRx : FlowControl := { d with stats := { d.stats with rx := d.stats.rx + 1 } }

/-- `flows_rx`. -/
def flowsRx (q : Datagram) : FlowControl :=
  if q.len < danteHdrLen then d
  else if q.opcode2 ≠ 0 then countRx d
  else
    let reply := flowsReply (countRx d) now reads q
    flowsMirror reply.1 q reply.2.1

/-! ## What a reply should be -/

/-- The reply to a checked request, from what the ARP cache says about its receiver. -/
def boundReply (r : UnicastReq) : Option Mac → Reply
  | none => ⟨codeTooManyFlows, []⟩
  | some dmac =>
      let f := (bindUnicast { d.tx with netIp := d.net.ip } r dmac now reads).2
      ⟨danteCodeOk, Mem.be32 f.val ++ Mem.be16 (d.cookie + 1).toNat⟩

def verdictReply : Verdict → Reply
  | .refuse code => ⟨code, []⟩
  | .bind r => boundReply d now reads r (arpResolve d.net r.dst)

/-- The reply the handler decides on, as a value: result code and content. -/
def decidedReply (q : Datagram) : Reply :=
  if q.asksForFlow then verdictReply d now reads (check d.policy q) else ⟨codeNotFound, []⟩

/-- The frame `flows_rx` commits in answer to a datagram. -/
def committedReply (q : Datagram) : Option Sent :=
  if q.len < danteHdrLen ∨ q.opcode2 ≠ 0 then none
  else
    let reply := flowsReply (countRx d) now reads q
    if reply.2.2 then reply.1.net.sent.getLast? else none

/-- An answer goes on the wire from the slot it was begun in, and it is the reply decided. -/
def OwnReply (q : Datagram) : Prop :=
  ∀ frame, committedReply d now reads q = some frame →
    frame ∈ (flowsRx d now reads q).net.sent ∧ frame.slot = d.net.txslot ∧
      udpPayload frame.bytes = (decidedReply d now reads q).bytes q.req

/-- A request that passes every check names a receiver the ARP cache does not know. -/
def ReceiverUnresolved (q : Datagram) : Prop :=
  q.opcode2 = 0 ∧ q.asksForFlow ∧ ∃ r, check d.policy q = .bind r ∧ arpResolve d.net r.dst = none

end Handler

/-- The decision reads the settings, the flow table and what the ARP cache resolves. -/
theorem decidedReply_congr {d d' : FlowControl} {now : UInt32} {reads : Nat → Nat × Nat}
    {q : Datagram} (hpolicy : d'.policy = d.policy) (htx : d'.tx = d.tx)
    (hcookie : d'.cookie = d.cookie) (hip : d'.net.ip = d.net.ip)
    (harp : ∀ ip, arpResolve d'.net ip = arpResolve d.net ip) :
    decidedReply d' now reads q = decidedReply d now reads q := by
  rw [decidedReply, decidedReply, hpolicy]
  cases check d.policy q with
  | refuse code => rfl
  | bind r =>
    rw [verdictReply, verdictReply, harp]
    cases arpResolve d.net r.dst with
    | none => rfl
    | some dmac => rw [boundReply, boundReply, htx, hcookie, hip]

/-! ## The branches of a bind -/

section Bind

variable {d : FlowControl} {now : UInt32} {reads : Nat → Nat × Nat} {r : UnicastReq}

theorem danteTxBindUnicast_hit {dmac : Mac} (h : arpResolve d.net r.dst = some dmac) :
    danteTxBindUnicast d now reads r =
      ({ d with tx := (bindUnicast { d.tx with netIp := d.net.ip } r dmac now reads).1 },
        some (bindUnicast { d.tx with netIp := d.net.ip } r dmac now reads).2) := by
  simp only [danteTxBindUnicast, netArpLookup_hit h]

theorem danteTxBindUnicast_miss (h : arpResolve d.net r.dst = none) :
    danteTxBindUnicast d now reads r = ({ d with net := (netArpLookup d.net r.dst).1 }, none) := by
  have hnone := netArpLookup_miss_result h
  rw [danteTxBindUnicast]
  split
  · rename_i heq
    rw [heq]
  · rename_i heq
    rw [heq] at hnone
    cases hnone

end Bind

/-! ## What the dispatch does to the message -/

/-- A dispatch that leaves the stack alone: the message holds the reply decided on. -/
structure Kept (d : FlowControl) (m : DanteMsg) (q : Datagram) (reply : Reply)
    (res : FlowControl × DanteMsg × Nat) : Prop where
  code : res.2.2 = reply.code
  building : Building res.1.net res.2.1 q.req reply.content
  slot : res.2.1.slot = m.slot
  txslot : res.1.net.txslot = d.net.txslot
  sent : res.1.net.sent = d.net.sent
  arp : ∀ ip, arpResolve res.1.net ip = arpResolve d.net ip

section Dispatch

variable {d : FlowControl} {now : UInt32} {reads : Nat → Nat × Nat} {m : DanteMsg}
  {q : Datagram}

theorem acceptFlow_kept (hb : Building d.net m q.req []) (f : CtxId) :
    Kept d m q ⟨danteCodeOk, Mem.be32 f.val ++ Mem.be16 (d.cookie + 1).toNat⟩
      (acceptFlow d m f) :=
  ⟨rfl, (hb.append (Mem.be32 f.val)).append (Mem.be16 (d.cookie + 1).toNat), rfl, rfl, rfl,
    fun _ => rfl⟩

/-- Outside the lookup that misses, the dispatch only appends to the message. -/
theorem flowsDispatch_kept (now : UInt32) (reads : Nat → Nat × Nat) (hb : Building d.net m q.req [])
    (h : ∀ r, q.asksForFlow → check d.policy q = .bind r → arpResolve d.net r.dst ≠ none) :
    Kept d m q (decidedReply d now reads q) (flowsDispatch d now reads m q) := by
  by_cases hask : q.asksForFlow
  case neg =>
    rw [flowsDispatch, if_neg hask, decidedReply, if_neg hask]
    exact ⟨rfl, hb, rfl, rfl, rfl, fun _ => rfl⟩
  rw [flowsDispatch, if_pos hask, decidedReply, if_pos hask, requestFlow]
  cases hv : check d.policy q with
  | refuse code => exact ⟨rfl, hb, rfl, rfl, rfl, fun _ => rfl⟩
  | bind r =>
    rw [verdictReply]
    dsimp only
    cases hres : arpResolve d.net r.dst with
    | none => exact absurd hres (h r hask hv)
    | some dmac =>
      rw [danteTxBindUnicast_hit (d := countRequest d) hres]
      have hkept := acceptFlow_kept (d := { countRequest d with
        tx := (bindUnicast { d.tx with netIp := d.net.ip } r dmac now reads).1 }) hb
        (bindUnicast { d.tx with netIp := d.net.ip } r dmac now reads).2
      exact ⟨hkept.code, hkept.building, hkept.slot, hkept.txslot, hkept.sent, hkept.arp⟩

/-- A lookup that misses in the middle of a request moves on to the other slot. -/
theorem flowsDispatch_lost (now : UInt32) (reads : Nat → Nat × Nat) {r : UnicastReq} (hask : q.asksForFlow) (hv : check d.policy q = .bind r)
    (hres : arpResolve d.net r.dst = none) :
    (flowsDispatch d now reads m q).1.net = (netArpLookup d.net r.dst).1 ∧
      (flowsDispatch d now reads m q).2.1 = m := by
  rw [flowsDispatch, if_pos hask, requestFlow, hv]
  dsimp only
  rw [danteTxBindUnicast_miss (d := countRequest d) hres]
  exact ⟨rfl, rfl⟩

end Dispatch

/-! ## From begin to commit -/

/-- A mirror only adds frames to the wire. -/
theorem sent_flowsMirror (d : FlowControl) (q : Datagram) (code : Nat) :
    ∃ frames, (flowsMirror d q code).net.sent = d.net.sent ++ frames := by
  rw [flowsMirror]
  split
  · exact ⟨[], (List.append_nil _).symm⟩
  · exact sent_netUdpCommit (txStore d.net udpPayloadOff _) ..

section Reply

variable {d : FlowControl} {now : UInt32} {reads : Nat → Nat × Nat} {q : Datagram}

theorem totalLength_decidedReply (d : FlowControl) (now : UInt32) (reads : Nat → Nat × Nat)
    (q : Datagram) : (decidedReply d now reads q).totalLength ≤ netMaxPayload := by
  have hempty : ∀ code, (Reply.mk code []).totalLength ≤ netMaxPayload := fun code => by
    show 10 ≤ 1400
    decide
  rw [decidedReply]
  split
  · cases check d.policy q with
    | refuse code => exact hempty code
    | bind r =>
      rw [verdictReply]
      cases arpResolve d.net r.dst with
      | none => exact hempty _
      | some dmac =>
        show 16 ≤ 1400
        decide
  · exact hempty _

/-- The reply of a dispatch that left the stack alone, before its commit. -/
theorem flowsHandled_kept (now : UInt32) (reads : Nat → Nat × Nat)
    (h : ∀ r, q.asksForFlow → check d.policy q = .bind r → arpResolve d.net r.dst ≠ none) :
    Kept d ⟨d.net.txslot, danteHdrLen⟩ q (decidedReply d now reads q)
      (flowsHandled d now reads q) := by
  have hkept := flowsDispatch_kept (d := { d with net := (danteMsgBegin d.net q.req).1 })
    now reads (Building.begin d.net q.req) h
  have hdecided : decidedReply { d with net := (danteMsgBegin d.net q.req).1 } now reads q =
      decidedReply d now reads q := decidedReply_congr rfl rfl rfl rfl fun _ => rfl
  rw [hdecided] at hkept
  exact ⟨hkept.code, hkept.building, hkept.slot, hkept.txslot, hkept.sent, hkept.arp⟩

/-- A lookup that missed has moved the stack to the other slot, which it left as it was. -/
structure Lost (d : FlowControl) (res : FlowControl × DanteMsg × Nat) : Prop where
  msg : res.2.1 = ⟨d.net.txslot, danteHdrLen⟩
  txslot : res.1.net.txslot = d.net.txslot + 1
  slot : res.1.net.slots (d.net.txslot + 1) = d.net.slots (d.net.txslot + 1)
  arp : ∀ ip, arpResolve res.1.net ip = arpResolve d.net ip

theorem flowsHandled_lost (now : UInt32) (reads : Nat → Nat × Nat) {r : UnicastReq} (hask : q.asksForFlow)
    (hv : check d.policy q = .bind r) (hres : arpResolve d.net r.dst = none) :
    Lost d (flowsHandled d now reads q) := by
  have hlost := flowsDispatch_lost (d := { d with net := (danteMsgBegin d.net q.req).1 })
    (m := (danteMsgBegin d.net q.req).2) now reads hask hv hres
  have hmiss : arpResolve (danteMsgBegin d.net q.req).1 r.dst = none := hres
  have hother : d.net.txslot + 1 ≠ (danteMsgBegin d.net q.req).1.txslot :=
    slot_succ_ne d.net.txslot
  refine ⟨hlost.2, ?_, ?_, fun ip => ?_⟩
  · rw [flowsHandled, hlost.1]
    exact netArpLookup_miss_txslot hmiss
  · rw [flowsHandled, hlost.1, slots_netArpLookup hother]
    exact slots_slotStore_of_ne (slot_succ_ne d.net.txslot)
  · rw [flowsHandled, hlost.1, arpResolve_netArpLookup]
    rfl

/-- Handling a request teaches the ARP cache nothing. -/
theorem arpResolve_flowsHandled (d : FlowControl) (now : UInt32) (reads : Nat → Nat × Nat)
    (q : Datagram) (ip : Ip) :
    arpResolve (flowsHandled d now reads q).1.net ip = arpResolve d.net ip := by
  by_cases h : ∀ r, q.asksForFlow → check d.policy q = .bind r → arpResolve d.net r.dst ≠ none
  · exact (flowsHandled_kept now reads h).arp ip
  · push Not at h
    obtain ⟨r, hask, hv, hres⟩ := h
    exact (flowsHandled_lost now reads hask hv hres).arp ip

/-- The commit to a sender whose address is known sends the slot that is then current. -/
theorem flowsReply_sent {mac : Mac}
    (hsrc : arpResolve (flowsHandled d now reads q).1.net q.srcIp = some mac)
    (hlen : (flowsHandled d now reads q).2.1.len ≤ netMaxPayload) :
    (flowsReply d now reads q).2.2 = true ∧
      (flowsReply d now reads q).1.net.sent.getLast? =
        some ⟨(flowsHandled d now reads q).1.net.txslot,
          commitFrame (danteMsgFinish (flowsHandled d now reads q).1.net
            (flowsHandled d now reads q).2.1 (flowsHandled d now reads q).2.2).1 mac q.srcIp
            q.srcPort dantePortFlows (flowsHandled d now reads q).2.1.len netTosBestEffort⟩ := by
  rw [flowsReply]
  generalize flowsHandled d now reads q = handled at hsrc hlen
  have hhit := netUdpCommit_hit (n := (danteMsgFinish handled.1.net handled.2.1 handled.2.2).1)
    q.srcPort dantePortFlows netTosBestEffort hlen hsrc
  refine ⟨hhit.1, ?_⟩
  have hsent := congrArg List.getLast? hhit.2
  rw [List.getLast?_append, List.getLast?_singleton] at hsent
  exact hsent

/-- A sender whose address is not known gets no reply. -/
theorem flowsReply_unsent
    (hsrc : arpResolve (flowsHandled d now reads q).1.net q.srcIp = none) :
    (flowsReply d now reads q).2.2 = false := by
  rw [flowsReply]
  generalize flowsHandled d now reads q = handled at hsrc
  exact netUdpCommit_miss (n := (danteMsgFinish handled.1.net handled.2.1 handled.2.2).1) hsrc

/-- A reply begun in the slot that is committed is the reply decided on. -/
theorem flowsReply_kept
    (h : ∀ r, q.asksForFlow → check d.policy q = .bind r → arpResolve d.net r.dst ≠ none)
    (hok : (flowsReply d now reads q).2.2 = true) :
    ∃ bytes, (flowsReply d now reads q).1.net.sent.getLast? = some ⟨d.net.txslot, bytes⟩ ∧
      udpPayload bytes = (decidedReply d now reads q).bytes q.req := by
  have hkept := flowsHandled_kept now reads h
  cases hsrc : arpResolve (flowsHandled d now reads q).1.net q.srcIp with
  | none =>
    rw [flowsReply_unsent hsrc] at hok
    cases hok
  | some mac =>
    have hlen : (flowsHandled d now reads q).2.1.len ≤ netMaxPayload := by
      rw [hkept.building.len]
      exact totalLength_decidedReply d now reads q
    have hfinish := (hkept.building.finish (decidedReply d now reads q).code).2
    refine ⟨_, (flowsReply_sent hsrc hlen).2.trans (by rw [hkept.txslot]), ?_⟩
    rw [udpPayload_commitFrame _ _ _ _ _ _ hlen, hkept.code]
    rw [hkept.slot] at hfinish
    show Mem.slice ((danteMsgFinish (flowsHandled d now reads q).1.net _ _).1.slots
      (flowsHandled d now reads q).1.net.txslot) _ _ = _
    rw [hkept.txslot]
    exact hfinish

/-- After a lookup that missed, what leaves is the old payload of the other slot. -/
theorem flowsReply_lost (now : UInt32) (reads : Nat → Nat × Nat) {r : UnicastReq} {mac : Mac} (hask : q.asksForFlow)
    (hv : check d.policy q = .bind r) (hres : arpResolve d.net r.dst = none)
    (hsrc : arpResolve d.net q.srcIp = some mac) :
    ∃ bytes, (flowsReply d now reads q).2.2 = true ∧
      (flowsReply d now reads q).1.net.sent.getLast? = some ⟨d.net.txslot + 1, bytes⟩ ∧
      udpPayload bytes = Mem.slice (d.net.slots (d.net.txslot + 1)) udpPayloadOff danteHdrLen := by
  have hlost := flowsHandled_lost now reads hask hv hres
  have hlen : (flowsHandled d now reads q).2.1.len = danteHdrLen := by rw [hlost.msg]
  have hfit : (flowsHandled d now reads q).2.1.len ≤ netMaxPayload := by rw [hlen]; decide
  have hsent := flowsReply_sent ((hlost.arp q.srcIp).trans hsrc) hfit
  refine ⟨_, hsent.1, hsent.2.trans (by rw [hlost.txslot]), ?_⟩
  rw [udpPayload_commitFrame _ _ _ _ _ _ hfit, hlen, hlost.msg, ← hlost.slot, ← hlost.txslot]
  -- finishing patches the message in the slot it was begun in, not this one
  have hne : (flowsHandled d now reads q).1.net.txslot ≠ d.net.txslot := by
    rw [hlost.txslot]
    exact slot_succ_ne d.net.txslot
  exact congrArg (fun mem => Mem.slice mem udpPayloadOff danteHdrLen)
    (slots_danteMsgFinish_of_ne _ _ hne)

/-- The frame a request with an unresolved receiver is answered with. -/
theorem committedReply_lost (now : UInt32) (reads : Nat → Nat × Nat) {r : UnicastReq} {mac : Mac} (hop : q.opcode2 = 0)
    (hask : q.asksForFlow) (hv : check d.policy q = .bind r) (hres : arpResolve d.net r.dst = none)
    (hsrc : arpResolve d.net q.srcIp = some mac) :
    ∃ bytes, committedReply d now reads q = some ⟨d.net.txslot + 1, bytes⟩ ∧
      udpPayload bytes = Mem.slice (d.net.slots (d.net.txslot + 1)) udpPayloadOff danteHdrLen := by
  obtain ⟨bytes, hok, hlast, hbytes⟩ := flowsReply_lost (d := countRx d) now reads hask hv
    hres hsrc
  have hlen : ¬ q.len < danteHdrLen := by
    have := (of_decide_eq_true hask).2
    simp only [Datagram.clen] at this
    omega
  refine ⟨bytes, ?_, hbytes⟩
  rw [committedReply, if_neg (not_or.mpr ⟨hlen, not_not.mpr hop⟩)]
  simp only [hok, if_true, hlast]
  rfl

end Reply

/-! ## Every answered request gets its own reply -/

section Answer

variable (d : FlowControl) (now : UInt32) (reads : Nat → Nat × Nat) (q : Datagram)

/-- The frame of a reply is on the wire when the handler returns. -/
theorem committedReply_mem {frame : Sent} (h : committedReply d now reads q = some frame) :
    frame ∈ (flowsRx d now reads q).net.sent := by
  rw [committedReply] at h
  split at h
  · cases h
  · rename_i hreq
    obtain ⟨hlen, hop⟩ := not_or.mp hreq
    simp only at h
    split at h
    · obtain ⟨frames, hframes⟩ := sent_flowsMirror (flowsReply (countRx d) now reads q).1 q
        (flowsReply (countRx d) now reads q).2.1
      rw [flowsRx, if_neg hlen, if_neg hop]
      simp only [hframes]
      exact List.mem_append_left _ (List.mem_of_getLast? h)
    · cases h

/-- The answer to a request whose receiver is known is the reply decided on. -/
theorem committedReply_own {frame : Sent}
    (hres : ¬ (ReceiverUnresolved d q ∧ arpResolve d.net q.srcIp ≠ none))
    (hframe : committedReply d now reads q = some frame) :
    frame.slot = d.net.txslot ∧
      udpPayload frame.bytes = (decidedReply d now reads q).bytes q.req := by
  rw [committedReply] at hframe
  split at hframe
  · cases hframe
  rename_i hreq
  simp only at hframe
  split at hframe
  · rename_i hok
    by_cases hsrc : arpResolve d.net q.srcIp = none
    · rw [flowsReply_unsent (d := countRx d) ((arpResolve_flowsHandled ..).trans hsrc)] at hok
      cases hok
    have hkept : ∀ r, q.asksForFlow → check d.policy q = .bind r →
        arpResolve (countRx d).net r.dst ≠ none := fun r hask hv hnone =>
      hres ⟨⟨not_not.mp (not_or.mp hreq).2, hask, r, hv, hnone⟩, hsrc⟩
    obtain ⟨bytes, hlast, hbytes⟩ := flowsReply_kept (d := countRx d) hkept hok
    rw [hlast, Option.some_inj] at hframe
    subst hframe
    have hdecided : decidedReply (countRx d) now reads q = decidedReply d now reads q :=
      decidedReply_congr rfl rfl rfl rfl fun _ => rfl
    rw [hdecided] at hbytes
    exact ⟨rfl, hbytes⟩
  · cases hframe

/-- An answer is the reply decided on, from the slot it was begun in, unless a checked request
names a receiver that is not in the ARP cache. -/
theorem flows_reply_own :
    OwnReply d now reads q ↔
      ¬ (ReceiverUnresolved d q ∧ arpResolve d.net q.srcIp ≠ none) := by
  constructor
  · rintro hown ⟨⟨hop, hask, r, hv, hres⟩, hsrc⟩
    obtain ⟨mac, hmac⟩ := Option.ne_none_iff_exists'.mp hsrc
    obtain ⟨bytes, hframe, -⟩ := committedReply_lost now reads hop hask hv hres hmac
    exact slot_succ_ne _ (hown _ hframe).2.1
  · intro hres frame hframe
    exact ⟨committedReply_mem d now reads q hframe,
      committedReply_own d now reads q hres hframe⟩

end Answer

/-- A receiver at .2 asks for a mono flow of 16 samples to its own second address .3. -/
def crossRequest : Datagram where
  srcIp := ⟨169, 254, 1, 2⟩
  srcPort := 40000
  req := fun k => ([0x11, 0x02, 0, 44, 0, 7, 0x01, 0x00, 0, 0,
    0, 0, 0, 0, 0xBB, 0x80, 0, 0, 0, 24, 0, 1, 0, 1, 0, 36,
    0, 1, 0, 0, 0, 0, 0, 0, 0, 16,
    0x08, 0x02, 0x38, 0x45, 169, 254, 1, 3] : List UInt8).getD k 0
  len := 44

/-- A device that has heard from .2 only, with zeroed transmit slots. -/
def heardOnce : FlowControl where
  net := arpLearn (Net.boot fun _ _ => 0) ⟨169, 254, 1, 2⟩ ⟨2, 0, 0, 0, 0, 2⟩
  tx := Tx.boot ⟨169, 254, 9, 200⟩ ⟨2, 0, 0, 0, 9, 200⟩
  stats := ⟨0, 0, 0, 0, 0, 0⟩
  cookie := 0
  policy := { sampleRate := 48000, bitsPerSample := 24, fppMaxAccept := 60, fppClamp := false }
  mirrorIp := ⟨0, 0, 0, 0⟩

/-- The request the handler accepts, and then cannot resolve. -/
def crossFlow : UnicastReq where
  peer := crossRequest.srcIp
  dst := crossRequest.dst
  dport := crossRequest.dport
  chans := crossRequest.chans
  nslots := ⟨crossRequest.nch, by decide⟩
  fpp := ⟨clampFpp heardOnce.policy crossRequest.fpp, by decide⟩

theorem check_crossRequest : check heardOnce.policy crossRequest = .bind crossFlow := by
  rw [check, if_neg (by decide), dif_pos (by decide), dif_pos (by decide)]
  rfl

/-- The reply was begun in slot 0 and slot 1 is committed: ten zero bytes leave the device. -/
theorem flows_reply_lost :
    (∃ bytes, committedReply heardOnce 0 (fun _ => (0, 0)) crossRequest = some ⟨1, bytes⟩ ∧
      udpPayload bytes = [0, 0, 0, 0, 0, 0, 0, 0, 0, 0]) ∧
    heardOnce.net.txslot = 0 ∧
    (decidedReply heardOnce 0 (fun _ => (0, 0)) crossRequest).bytes crossRequest.req =
      [0x11, 0x02, 0, 10, 0, 7, 0x01, 0x00, 0x03, 0x15] ∧
    ¬ OwnReply heardOnce 0 (fun _ => (0, 0)) crossRequest := by
  have hres : arpResolve heardOnce.net crossFlow.dst = none := by decide
  obtain ⟨bytes, hframe, hbytes⟩ := committedReply_lost (d := heardOnce) 0 (fun _ => (0, 0))
    (show crossRequest.opcode2 = 0 by decide) (by decide) check_crossRequest hres
    (show arpResolve heardOnce.net crossRequest.srcIp = some ⟨2, 0, 0, 0, 0, 2⟩ by decide)
  refine ⟨⟨bytes, hframe, hbytes.trans (by decide)⟩, rfl, ?_, fun hown => ?_⟩
  · rw [decidedReply, if_pos (by decide)]
    rw [check_crossRequest, verdictReply, hres]
    decide
  · exact slot_succ_ne _ (hown _ hframe).2.1

end Firmware
end InfernoFpga
