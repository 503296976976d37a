import InfernoFpga.Firmware.Binds
import InfernoFpga.Firmware.FlowControl
import Mathlib.Data.List.TakeWhile

/-!
# FlowRequest — what a datagram on the flow-control port can do

A request carries offsets and counts its sender chose, and is refused for one of several reasons
that are tested in turn.  The offsets the handler reads are listed in its order, and the handler
is shown to depend on nothing else; a request that fits the device, names one to eight channels
and a receiver whose address is known rewrites one context, any other leaves the table and the
gateware as they were.
-/

namespace InfernoFpga
namespace Firmware

open Lib
open Packetizer (CtxId byteAt)

/-! ## The bytes that are read -/

namespace Datagram

variable (q : Datagram)

/-- Offsets of `n` bytes of `c`. -/
def contentReads (a n : Nat) : List Nat := List.range' (danteHdrLen + a) n

/-- Entry `i` of the channel list lies inside the datagram. -/
def listed (i : Nat) : Bool := decide (16 + i * 2 + 2 ≤ q.clen)

/-- The fields in front of the channel list, the packet size behind it, the descriptor. -/
def fieldReads : List Nat :=
  let fo := 16 + q.nch * 2 + 6
  contentReads 2 4 ++ contentReads 6 4 ++ contentReads 12 2 ++ contentReads 14 2 ++
    (if fo + 2 ≤ q.clen then contentReads fo 2 else []) ++
    (if q.hasDescriptor then List.range' q.rdo 8 else [])

/-- The loop that logs the channel list stops at the first entry outside the datagram. -/
def loggedReads : List Nat :=
  ((List.range q.nch).takeWhile q.listed).flatMap fun i => contentReads (16 + i * 2) 2

/-- The loop that fills `chans` skips such an entry. -/
def chansReads : List Nat :=
  ((List.range q.nch).filter q.listed).flatMap fun i => contentReads (16 + i * 2) 2

end Datagram

/-- The offsets of the datagram that `flows_rx` reads, in its order. -/
def flowsReads (d : FlowControl) (q : Datagram) : List Nat :=
  if q.len < danteHdrLen then []
  else if q.opcode2 ≠ 0 then List.range' 6 4
  else
    -- the copy for the mirror is taken before the reply is begun
    List.range' 6 4 ++
      (if d.mirrorIp.isZero then []
        else List.range' 0 (if mirrorMax < q.len then mirrorMax else q.len)) ++
      [0, 1, 4, 5, 6, 7] ++
      if q.asksForFlow then
        q.fieldReads ++ q.loggedReads ++
          match check d.policy q with
          | .bind _ => q.chansReads
          | .refuse _ => []
      else []

/-! ## What a request has to meet -/

/-- The format asked for is one the device can send. -/
structure FormatFits (p : FlowPolicy) (q : Datagram) : Prop where
  rate : q.rate = p.sampleRate.toNat
  bits : q.bits = p.bitsPerSample.toNat
  fpp : danteTxFppSupported p (clampFpp p q.fpp)
  /-- Two samples of an odd number of channels do not fill whole words. -/
  words : ¬ (clampFpp p q.fpp = 2 ∧ q.nch % 2 = 1)

/-- A request for a flow that the device can send to a receiver it knows. -/
structure Acceptable (d : FlowControl) (q : Datagram) : Prop where
  isRequest : q.opcode2 = 0
  asks : q.asksForFlow = true
  format : FormatFits d.policy q
  count : 1 ≤ q.nch ∧ q.nch ≤ 8
  receiver : arpResolve d.net q.dst ≠ none

/-! ## What a bound context carries -/

/-- The transmit channel a context plays in a slot, 1-based; an entry without its valid bit is
silent. -/
def Latched.channel (c : Latched) (slot : Nat) : Option Nat :=
  let e := byteAt (c.cmhi ++ c.cmlo) slot
  if e.getLsbD 7 then some (e.toNat % 64 + 1) else none

/-- The channel the datagram lists for a slot; an entry that is absent or names no channel is
silent. -/
def Datagram.requested (q : Datagram) (slot : Nat) : Option Nat :=
  let ch := Mem.rd16 q.content (16 + slot * 2)
  if slot < q.nch ∧ q.listed slot ∧ 1 ≤ ch ∧ ch ≤ danteTxChannels then some ch else none

/-- Slot and context `f` carry the flow of the datagram. -/
structure Carries (d : FlowControl) (t : Tx) (q : Datagram) (now : UInt32) (f : CtxId) : Prop where
  inUse : (t.flows f).inUse = true
  unicast : (t.flows f).mcast = false
  peer : (t.flows f).peer = q.srcIp
  dst : (t.flows f).dst = q.dst
  dport : (t.flows f).dport = q.dport
  nslots : (t.flows f).nslots.val = q.nch
  fpp : (t.flows f).fpp.val = clampFpp d.policy q.fpp
  chans : ∀ i, (t.flows f).chans i = if i.val < q.nch then q.chans i else 0
  dmac : arpResolve d.net q.dst = some (t.flows f).dmac
  lastMs : (t.flows f).lastMs = now
  context : t.gw.ctx f = (t.flows f).binding d.net.ip
  map : ∀ slot, slot < 8 → (t.gw.ctx f).channel slot = q.requested slot

/-- The datagram is bound to context `f`, and to that alone. -/
structure BoundTo (d d' : FlowControl) (q : Datagram) (now : UInt32) (f : CtxId) : Prop where
  counted : d'.stats.accepted = d.stats.accepted + 1
  carries : Carries d d'.tx q now f
  rewrites : Rewrites d.tx d'.tx f

/-- The result code names what became of the datagram.  A receiver that is not known has no code
of its own. -/
structure CodeNames (d : FlowControl) (q : Datagram) (code : Nat) : Prop where
  accepted : code = danteCodeOk ↔ Acceptable d q
  foreign : code = codeNotFound ↔ ¬ q.asksForFlow
  unfit : code = codeRateMismatch ↔ q.asksForFlow ∧ ¬ FormatFits d.policy q
  miscounted : q.asksForFlow → FormatFits d.policy q → ¬ (1 ≤ q.nch ∧ q.nch ≤ 8) →
    code = codeTooManyFlows

/-! ## The verdict on a request -/

section Verdicts

variable {p : FlowPolicy} {q : Datagram}

/-- What a request that passes every check asks `dante_tx_bind_unicast` for. -/
def Datagram.unicastReq (q : Datagram) (p : FlowPolicy) (hformat : FormatFits p q)
    (hcount : 1 ≤ q.nch ∧ q.nch ≤ 8) : UnicastReq where
  peer := q.srcIp
  dst := q.dst
  dport := q.dport
  chans := q.chans
  nslots := ⟨q.nch, hcount⟩
  fpp := ⟨clampFpp p q.fpp, hformat.fpp.2⟩

theorem check_unfit (h : ¬ FormatFits p q) : check p q = .refuse codeRateMismatch := by
  rw [check]
  split
  · rfl
  · rename_i hmatch
    obtain ⟨hrate, hbits⟩ := not_or.mp hmatch
    rw [dif_neg]
    rintro ⟨hfpp, hwords⟩
    exact h ⟨not_not.mp hrate, not_not.mp hbits, hfpp, hwords⟩

theorem FormatFits.check (h : FormatFits p q) : Firmware.check p q =
    if hcount : 1 ≤ q.nch ∧ q.nch ≤ 8 then .bind (q.unicastReq p h hcount)
    else .refuse codeTooManyFlows := by
  rw [Firmware.check, if_neg (not_or.mpr ⟨not_not.mpr h.rate, not_not.mpr h.bits⟩),
    dif_pos ⟨h.fpp, h.words⟩]
  rfl

theorem check_fits (h : FormatFits p q) (hcount : 1 ≤ q.nch ∧ q.nch ≤ 8) :
    check p q = .bind (q.unicastReq p h hcount) := by
  rw [h.check, dif_pos hcount]

theorem check_miscounted (h : FormatFits p q) (hcount : ¬ (1 ≤ q.nch ∧ q.nch ≤ 8)) :
    check p q = .refuse codeTooManyFlows := by
  rw [h.check, dif_neg hcount]

end Verdicts

/-! ## What handling a datagram leaves behind -/

section Leaves

variable {d : FlowControl} {q : Datagram}

/-- Table and gateware, the count of accepted flows and the result code after the dispatch. -/
structure Leaves (d : FlowControl) (t : Tx) (accepted : UInt32) (code : Nat)
    (res : FlowControl × DanteMsg × Nat) : Prop where
  tx : res.1.tx = t
  accepted : res.1.stats.accepted = accepted
  code : res.2.2 = code
  mirrorIp : res.1.mirrorIp = d.mirrorIp

theorem requestFlow_refused (now : UInt32) (reads : Nat → Nat × Nat) (m : DanteMsg) {code : Nat}
    (hv : check d.policy q = .refuse code) :
    Leaves d d.tx d.stats.accepted code (requestFlow d now reads m q) := by
  rw [requestFlow, hv]
  exact ⟨rfl, rfl, rfl, rfl⟩

theorem requestFlow_unresolved (now : UInt32) (reads : Nat → Nat × Nat) (m : DanteMsg)
    {r : UnicastReq} (hv : check d.policy q = .bind r) (hres : arpResolve d.net r.dst = none) :
    Leaves d d.tx d.stats.accepted codeTooManyFlows (requestFlow d now reads m q) := by
  rw [requestFlow, hv]
  dsimp only
  rw [danteTxBindUnicast_miss (d := countRequest d) hres]
  exact ⟨rfl, rfl, rfl, rfl⟩

theorem requestFlow_bound (now : UInt32) (reads : Nat → Nat × Nat) (m : DanteMsg)
    {r : UnicastReq} {dmac : Mac} (hv : check d.policy q = .bind r)
    (hres : arpResolve d.net r.dst = some dmac) :
    Leaves d (bindUnicast { d.tx with netIp := d.net.ip } r dmac now reads).1
      (d.stats.accepted + 1) danteCodeOk (requestFlow d now reads m q) := by
  rw [requestFlow, hv]
  dsimp only
  rw [danteTxBindUnicast_hit (d := countRequest d) hres]
  exact ⟨rfl, rfl, rfl, rfl⟩

/-- Beginning the reply changes nothing a request is decided on. -/
theorem flowsHandled_request (now : UInt32) (reads : Nat → Nat × Nat) (hask : q.asksForFlow) :
    flowsHandled d now reads q = requestFlow { d with net := (danteMsgBegin d.net q.req).1 } now
      reads (danteMsgBegin d.net q.req).2 q := by
  rw [flowsHandled, flowsDispatch, if_pos hask]

theorem flowsHandled_foreign (now : UInt32) (reads : Nat → Nat × Nat) (hask : ¬ q.asksForFlow) :
    Leaves d d.tx d.stats.accepted codeNotFound (flowsHandled d now reads q) := by
  rw [flowsHandled, flowsDispatch, if_neg hask]
  exact ⟨rfl, rfl, rfl, rfl⟩

theorem flowsHandled_refused (now : UInt32) (reads : Nat → Nat × Nat) {code : Nat}
    (hask : q.asksForFlow) (hv : check d.policy q = .refuse code) :
    Leaves d d.tx d.stats.accepted code (flowsHandled d now reads q) := by
  rw [flowsHandled_request now reads hask]
  have h := requestFlow_refused (d := { d with net := (danteMsgBegin d.net q.req).1 }) now reads
    (danteMsgBegin d.net q.req).2 hv
  exact ⟨h.tx, h.accepted, h.code, h.mirrorIp⟩

theorem flowsHandled_unresolved (now : UInt32) (reads : Nat → Nat × Nat) {r : UnicastReq}
    (hask : q.asksForFlow) (hv : check d.policy q = .bind r)
    (hres : arpResolve d.net r.dst = none) :
    Leaves d d.tx d.stats.accepted codeTooManyFlows (flowsHandled d now reads q) := by
  rw [flowsHandled_request now reads hask]
  have h := requestFlow_unresolved (d := { d with net := (danteMsgBegin d.net q.req).1 }) now
    reads (danteMsgBegin d.net q.req).2 hv hres
  exact ⟨h.tx, h.accepted, h.code, h.mirrorIp⟩

theorem flowsHandled_bound (now : UInt32) (reads : Nat → Nat × Nat) {r : UnicastReq} {dmac : Mac}
    (hask : q.asksForFlow) (hv : check d.policy q = .bind r)
    (hres : arpResolve d.net r.dst = some dmac) :
    Leaves d (bindUnicast { d.tx with netIp := d.net.ip } r dmac now reads).1
      (d.stats.accepted + 1) danteCodeOk (flowsHandled d now reads q) := by
  rw [flowsHandled_request now reads hask]
  have h := requestFlow_bound (d := { d with net := (danteMsgBegin d.net q.req).1 }) now reads
    (danteMsgBegin d.net q.req).2 hv hres
  exact ⟨h.tx, h.accepted, h.code, h.mirrorIp⟩

theorem mirrorIp_flowsHandled (d : FlowControl) (now : UInt32) (reads : Nat → Nat × Nat)
    (q : Datagram) : (flowsHandled d now reads q).1.mirrorIp = d.mirrorIp := by
  by_cases hask : q.asksForFlow
  case neg => exact (flowsHandled_foreign now reads hask).mirrorIp
  cases hv : check d.policy q with
  | refuse code => exact (flowsHandled_refused now reads hask hv).mirrorIp
  | bind r =>
    cases hres : arpResolve d.net r.dst with
    | none => exact (flowsHandled_unresolved now reads hask hv hres).mirrorIp
    | some dmac => exact (flowsHandled_bound now reads hask hv hres).mirrorIp

theorem mirrorIp_flowsReply (d : FlowControl) (now : UInt32) (reads : Nat → Nat × Nat)
    (q : Datagram) : (flowsReply d now reads q).1.mirrorIp = d.mirrorIp := by
  rw [flowsReply, mirrorIp_flowsHandled]

/-- The mirror has no part in the flows. -/
theorem flowsMirror_leaves (d : FlowControl) (q : Datagram) (code : Nat) :
    (flowsMirror d q code).tx = d.tx ∧ (flowsMirror d q code).stats = d.stats := by
  rw [flowsMirror]
  split
  · exact ⟨rfl, rfl⟩
  · exact ⟨rfl, rfl⟩

/-- An answered datagram leaves what its dispatch left. -/
theorem flowsRx_leaves (now : UInt32) (reads : Nat → Nat × Nat) (hlen : ¬ q.len < danteHdrLen)
    (hop : q.opcode2 = 0) :
    (flowsRx d now reads q).tx = (flowsHandled (countRx d) now reads q).1.tx ∧
      (flowsRx d now reads q).stats.accepted =
        (flowsHandled (countRx d) now reads q).1.stats.accepted := by
  rw [flowsRx, if_neg hlen, if_neg (not_not.mpr hop)]
  have hmirror := flowsMirror_leaves (flowsReply (countRx d) now reads q).1 q
    (flowsReply (countRx d) now reads q).2.1
  refine ⟨hmirror.1, ?_⟩
  simp only [hmirror.2]
  rfl

end Leaves

/-! ## All reads stay inside -/

section Inside

variable {q : Datagram} {k : Nat}

theorem contentReads_inside {a n : Nat} (h : a + n ≤ q.clen) (hk : k ∈ Datagram.contentReads a n) :
    k < q.len := by
  rw [Datagram.contentReads, List.mem_range'_1] at hk
  rw [Datagram.clen] at h
  omega

/-- Sixteen bytes of content hold every fixed field; what lies behind them is tested first. -/
theorem fieldReads_inside (hask : q.asksForFlow = true) (hk : k ∈ q.fieldReads) : k < q.len := by
  have hclen : 16 < q.clen := (of_decide_eq_true hask).2
  simp only [Datagram.fieldReads, List.mem_append] at hk
  rcases hk with ((((hk | hk) | hk) | hk) | hk) | hk
  · exact contentReads_inside (by omega) hk
  · exact contentReads_inside (by omega) hk
  · exact contentReads_inside (by omega) hk
  · exact contentReads_inside (by omega) hk
  · split at hk
    · exact contentReads_inside ‹_› hk
    · cases hk
  · split at hk
    · have hdesc := of_decide_eq_true ‹q.hasDescriptor = true›
      rw [List.mem_range'_1] at hk
      omega
    · cases hk

theorem entryReads_inside {i : Nat} (hi : q.listed i = true)
    (hk : k ∈ Datagram.contentReads (16 + i * 2) 2) : k < q.len :=
  contentReads_inside (of_decide_eq_true hi) hk

theorem loggedReads_inside (hk : k ∈ q.loggedReads) : k < q.len := by
  rw [Datagram.loggedReads, List.mem_flatMap] at hk
  obtain ⟨i, hi, hk⟩ := hk
  exact entryReads_inside (List.mem_takeWhile_imp hi) hk

theorem chansReads_inside (hk : k ∈ q.chansReads) : k < q.len := by
  rw [Datagram.chansReads, List.mem_flatMap] at hk
  obtain ⟨i, hi, hk⟩ := hk
  exact entryReads_inside (List.mem_filter.1 hi).2 hk

/-- Whatever the datagram claims, no byte behind its end is read. -/
theorem flowsReads_inside (d : FlowControl) (q : Datagram) : ∀ k ∈ flowsReads d q, k < q.len := by
  intro k hk
  rw [flowsReads] at hk
  split at hk
  · cases hk
  have hlen : 10 ≤ q.len := Nat.le_of_not_lt ‹_›
  split at hk
  · rw [List.mem_range'_1] at hk
    omega
  simp only [List.mem_append] at hk
  rcases hk with ((hk | hk) | hk) | hk
  · rw [List.mem_range'_1] at hk
    omega
  · split at hk
    · cases hk
    · rw [List.mem_range'_1] at hk
      split at hk <;> omega
  · simp only [List.mem_cons, List.not_mem_nil, or_false] at hk
    omega
  · split at hk
    · rename_i hask
      simp only [List.mem_append] at hk
      rcases hk with (hk | hk) | hk
      · exact fieldReads_inside hask hk
      · exact loggedReads_inside hk
      · split at hk
        · exact chansReads_inside hk
        · cases hk
    · cases hk

end Inside

/-! ## Nothing else is read -/

/-- Slots behind the slot count do not matter to a bind. -/
theorem bindUnicast_chans (t : Tx) (r : UnicastReq) (dmac : Mac) (now : UInt32)
    (reads : Nat → Nat × Nat) {chans : Fin 8 → BitVec 16}
    (h : ∀ i : Fin 8, i.val < r.nslots.val → chans i = r.chans i) :
    bindUnicast t { r with chans := chans } dmac now reads = bindUnicast t r dmac now reads := by
  have hentry : ∀ i, chmapEntry chans r.nslots i = chmapEntry r.chans r.nslots i := by
    intro i
    rw [chmapEntry, chmapEntry]
    by_cases hi : i.val < r.nslots.val
    · rw [h i hi]
    · rw [if_neg fun hc => hi hc.1, if_neg fun hc => hi hc.1]
  have hmask : (fun i : Fin 8 => if i.val < r.nslots.val then chans i else 0) =
      fun i => if i.val < r.nslots.val then r.chans i else 0 := by
    funext i
    split
    · exact h i ‹_›
    · rfl
  have hinto : ∀ t f, bindUnicastInto t f { r with chans := chans } dmac now reads =
      bindUnicastInto t f r dmac now reads := by
    intro t f
    simp only [bindUnicastInto, writeCtx, chmapLo, chmapHi, hentry, unicastSlot, hmask]
  have hsocket : sameSocket { r with chans := chans } = sameSocket r := rfl
  simp only [bindUnicast, hinto, hsocket]

section SameReads

/-- A second datagram that has the bytes the handler reads of the first. -/
structure SameReads (d : FlowControl) (q q' : Datagram) : Prop where
  srcIp : q'.srcIp = q.srcIp
  srcPort : q'.srcPort = q.srcPort
  len : q'.len = q.len
  bytes : ∀ k ∈ flowsReads d q, q'.req k = q.req k

/-- The bytes `a, …, a + n - 1` are the same in both datagrams. -/
def SameRun (q q' : Datagram) (a n : Nat) : Prop := ∀ k ∈ List.range' a n, q'.req k = q.req k

variable {d : FlowControl} {q q' : Datagram} {a n : Nat}

theorem SameRun.byte (h : SameRun q q' a n) {k : Nat} (hk : k < n) :
    q'.req (a + k) = q.req (a + k) :=
  h (a + k) (List.mem_range'_1.2 ⟨by omega, by omega⟩)

theorem SameRun.rd16 (h : SameRun q q' a n) {k : Nat} (hk : k + 2 ≤ n) :
    Mem.rd16 q'.req (a + k) = Mem.rd16 q.req (a + k) := by
  rw [Mem.rd16, Mem.rd16, h.byte (by omega), Nat.add_assoc, h.byte (by omega)]

theorem SameRun.slice (h : SameRun q q' a n) : Mem.slice q'.req a n = Mem.slice q.req a n :=
  List.map_congr_left fun _ hk => h.byte (List.mem_range.1 hk)

/-- The fields of a request, the channel list apart. -/
structure SameFields (q q' : Datagram) : Prop where
  srcIp : q'.srcIp = q.srcIp
  rate : q'.rate = q.rate
  bits : q'.bits = q.bits
  nch : q'.nch = q.nch
  fpp : q'.fpp = q.fpp
  dst : q'.dst = q.dst
  dport : q'.dport = q.dport

theorem SameFields.fits {p : FlowPolicy} (h : SameFields q q') :
    FormatFits p q' ↔ FormatFits p q := by
  constructor
  · rintro ⟨hrate, hbits, hfpp, hwords⟩
    rw [h.rate] at hrate
    rw [h.bits] at hbits
    rw [h.fpp] at hfpp
    rw [h.fpp, h.nch] at hwords
    exact ⟨hrate, hbits, hfpp, hwords⟩
  · rintro ⟨hrate, hbits, hfpp, hwords⟩
    rw [← h.rate] at hrate
    rw [← h.bits] at hbits
    rw [← h.fpp] at hfpp
    rw [← h.fpp, ← h.nch] at hwords
    exact ⟨hrate, hbits, hfpp, hwords⟩

/-- Of the channel list, a request is handled by what its slot count covers. -/
theorem requestFlow_congr (now : UInt32) (reads : Nat → Nat × Nat) (m : DanteMsg)
    (h : SameFields q q')
    (hchans : ∀ r, check d.policy q = .bind r → ∀ i : Fin 8, i.val < q.nch →
      q'.chans i = q.chans i) :
    requestFlow d now reads m q' = requestFlow d now reads m q := by
  rw [requestFlow, requestFlow]
  by_cases hfit : FormatFits d.policy q
  case neg => rw [check_unfit hfit, check_unfit (h.fits.not.2 hfit)]
  by_cases hcount : 1 ≤ q.nch ∧ q.nch ≤ 8
  case neg => rw [check_miscounted hfit hcount, check_miscounted (h.fits.2 hfit) (by rwa [h.nch])]
  have hverdict := check_fits hfit hcount
  have hreq : q'.unicastReq d.policy (h.fits.2 hfit) (by rwa [h.nch]) =
      { q.unicastReq d.policy hfit hcount with chans := q'.chans } := by
    simp only [Datagram.unicastReq, h.srcIp, h.dst, h.dport, h.nch, h.fpp]
  rw [check_fits (h.fits.2 hfit) (by rwa [h.nch]), hverdict, hreq]
  have hbind : danteTxBindUnicast (countRequest d) now reads
      { q.unicastReq d.policy hfit hcount with chans := q'.chans } =
      danteTxBindUnicast (countRequest d) now reads (q.unicastReq d.policy hfit hcount) := by
    rw [danteTxBindUnicast, danteTxBindUnicast]
    simp only [bindUnicast_chans _ (q.unicastReq d.policy hfit hcount) _ _ _ (hchans _ hverdict)]
  dsimp only at hbind ⊢
  rw [hbind]

theorem SameRun.rd16_content {k : Nat} (h : SameRun q q' (danteHdrLen + a) n) (hk : k + 2 ≤ n) :
    Mem.rd16 q'.content (a + k) = Mem.rd16 q.content (a + k) := by
  have hrun := h.rd16 hk
  rw [Nat.add_assoc] at hrun
  exact hrun

theorem SameRun.rd32_content (h : SameRun q q' (danteHdrLen + a) 4) :
    Mem.rd32 q'.content a = Mem.rd32 q.content a := by
  have hhi := h.rd16_content (k := 0) (by decide)
  have hlo := h.rd16_content (k := 2) (by decide)
  rw [Nat.add_zero] at hhi
  rw [Mem.rd32, Mem.rd32, hhi, hlo]

/-- The length, the header, what the branch taken reads of the rest. -/
structure AnsweredAlike (d : FlowControl) (q q' : Datagram) : Prop where
  opcode1 : q'.opcode1 = q.opcode1
  opcode2 : q'.opcode2 = q.opcode2
  mirrored : d.mirrorIp.isZero = false →
    SameRun q q' 0 (if mirrorMax < q.len then mirrorMax else q.len)
  header : danteHeader q'.req = danteHeader q.req
  fields : q.asksForFlow = true → ∀ k ∈ q.fieldReads, q'.req k = q.req k
  chans : q.asksForFlow = true → ∀ r, check d.policy q = .bind r →
    ∀ k ∈ q.chansReads, q'.req k = q.req k

theorem SameReads.answered (h : SameReads d q q') (hlen : ¬ q.len < danteHdrLen)
    (hop : ¬ q.opcode2 ≠ 0) : AnsweredAlike d q q' := by
  have hbytes := h.bytes
  rw [flowsReads, if_neg hlen, if_neg hop] at hbytes
  simp only [List.forall_mem_append] at hbytes
  obtain ⟨⟨⟨hops, hmirror⟩, hheader⟩, hbody⟩ := hbytes
  have hops : SameRun q q' 6 4 := hops
  refine ⟨hops.rd16 (k := 0) (by decide), hops.rd16 (k := 2) (by decide), fun hzero => ?_, ?_,
    fun hask => ?_, fun hask r hr => ?_⟩
  · rwa [hzero] at hmirror
  · simp only [List.forall_mem_cons] at hheader
    obtain ⟨h₀, h₁, h₄, h₅, h₆, h₇, -⟩ := hheader
    simp only [danteHeader, h₀, h₁, h₄, h₅, h₆, h₇]
  · rw [if_pos hask] at hbody
    simp only [List.forall_mem_append] at hbody
    exact hbody.1.1
  · rw [if_pos hask, hr] at hbody
    simp only [List.forall_mem_append] at hbody
    exact hbody.2

theorem SameReads.fields (h : SameReads d q q')
    (hfields : ∀ k ∈ q.fieldReads, q'.req k = q.req k) : SameFields q q' := by
  simp only [Datagram.fieldReads, List.forall_mem_append] at hfields
  obtain ⟨⟨⟨⟨⟨hrate, hbits⟩, hnch⟩, hrdo⟩, hfo⟩, hdesc⟩ := hfields
  have hclen : q'.clen = q.clen := by rw [Datagram.clen, Datagram.clen, h.len]
  have hnch' : q'.nch = q.nch := SameRun.rd16_content (a := 12) (k := 0) hnch le_rfl
  have hrdo' : q'.rdo = q.rdo := SameRun.rd16_content (a := 14) (k := 0) hrdo le_rfl
  have hdesc' : q'.hasDescriptor = q.hasDescriptor := by
    rw [Datagram.hasDescriptor, Datagram.hasDescriptor, hrdo', h.len]
  -- the packet size and the descriptor are read only where they lie inside the datagram
  have hfpp : q'.fpp = q.fpp := by
    rw [Datagram.fpp, Datagram.fpp, hnch', hclen]
    split
    · rw [if_pos ‹_›] at hfo
      exact SameRun.rd16_content (k := 0) hfo le_rfl
    · rfl
  have hrun : q.hasDescriptor = true → SameRun q q' q.rdo 8 := fun hd => by
    rwa [if_pos hd] at hdesc
  refine ⟨h.srcIp, SameRun.rd32_content hrate, SameRun.rd32_content hbits, hnch', hfpp, ?_, ?_⟩
  · rw [Datagram.dst, Datagram.dst, hdesc', hrdo']
    split
    · have hd := hrun ‹_›
      have h₄ := hd.byte (k := 4) (by decide)
      have h₅ := hd.byte (k := 5) (by decide)
      have h₆ := hd.byte (k := 6) (by decide)
      have h₇ := hd.byte (k := 7) (by decide)
      simp only [Ip.read, Nat.add_assoc, Nat.reduceAdd, h₄, h₅, h₆, h₇]
    · rfl
  · rw [Datagram.dport, Datagram.dport, hdesc', hrdo']
    split
    · rw [(hrun ‹_›).rd16 (by decide)]
    · rfl

theorem SameReads.chans (h : SameReads d q q')
    (hchans : ∀ k ∈ q.chansReads, q'.req k = q.req k) (i : Fin 8) (hi : i.val < q.nch) :
    q'.chans i = q.chans i := by
  have hclen : q'.clen = q.clen := by rw [Datagram.clen, Datagram.clen, h.len]
  rw [Datagram.chans, Datagram.chans, hclen]
  split
  · have hentry : SameRun q q' (danteHdrLen + (16 + i.val * 2)) 2 := fun k hk =>
      hchans k (List.mem_flatMap.2 ⟨i.val,
        List.mem_filter.2 ⟨List.mem_range.2 hi, decide_eq_true ‹_›⟩, hk⟩)
    exact congrArg (BitVec.ofNat 16) (hentry.rd16_content (k := 0) le_rfl)
  · rfl

theorem flowsHandled_congr (now : UInt32) (reads : Nat → Nat × Nat) (h : SameReads d q q')
    (ha : AnsweredAlike d q q') : flowsHandled d now reads q' = flowsHandled d now reads q := by
  have hclen : q'.clen = q.clen := by rw [Datagram.clen, Datagram.clen, h.len]
  have hask : q'.asksForFlow = q.asksForFlow := by
    rw [Datagram.asksForFlow, Datagram.asksForFlow, ha.opcode1, hclen]
  have hbegin : danteMsgBegin d.net q'.req = danteMsgBegin d.net q.req := by
    rw [danteMsgBegin, danteMsgBegin, ha.header]
  rw [flowsHandled, flowsHandled, hbegin, flowsDispatch, flowsDispatch, hask]
  split
  · rename_i hasks
    exact requestFlow_congr now reads _ (h.fields (ha.fields hasks))
      fun r hr => h.chans (ha.chans hasks r hr)
  · rfl

/-- What is read depends on the settings and on the mirror alone. -/
theorem SameReads.congr {d₁ : FlowControl} (h : SameReads d q q') (hpolicy : d₁.policy = d.policy)
    (hmirror : d₁.mirrorIp = d.mirrorIp) : SameReads d₁ q q' where
  srcIp := h.srcIp
  srcPort := h.srcPort
  len := h.len
  bytes := by
    have hsame : flowsReads d₁ q = flowsReads d q := by
      rw [flowsReads, flowsReads, hpolicy, hmirror]
    rw [hsame]
    exact h.bytes

/-- The handler does with a datagram what the bytes it lists tell it to. -/
theorem flowsRx_congr (now : UInt32) (reads : Nat → Nat × Nat) (h : SameReads d q q') :
    flowsRx d now reads q' = flowsRx d now reads q := by
  rw [flowsRx, flowsRx, h.len]
  by_cases hlen : q.len < danteHdrLen
  · rw [if_pos hlen, if_pos hlen]
  rw [if_neg hlen, if_neg hlen]
  by_cases hop : q.opcode2 ≠ 0
  · have hbytes := h.bytes
    rw [flowsReads, if_neg hlen, if_pos hop] at hbytes
    have hop' : q'.opcode2 = q.opcode2 := SameRun.rd16 (k := 2) hbytes (by decide)
    rw [if_pos hop, if_pos (by rwa [hop'])]
  have ha := h.answered hlen hop
  rw [if_neg hop, if_neg (by rwa [ha.opcode2])]
  have hcounted : SameReads (countRx d) q q' := h.congr rfl rfl
  have hrx : flowsHandled (countRx d) now reads q' = flowsHandled (countRx d) now reads q :=
    flowsHandled_congr now reads hcounted (hcounted.answered hlen hop)
  have hreply : flowsReply (countRx d) now reads q' = flowsReply (countRx d) now reads q := by
    rw [flowsReply, flowsReply, hrx, h.srcIp, h.srcPort]
  simp only [hreply]
  generalize hd' : (flowsReply (countRx d) now reads q).1 = d'
  have hmirror : d'.mirrorIp = d.mirrorIp := by
    rw [← hd', mirrorIp_flowsReply]
    rfl
  rw [flowsMirror, flowsMirror, hmirror, h.len, h.srcIp]
  cases hzero : d.mirrorIp.isZero with
  | true => rw [if_pos rfl, if_pos rfl]
  | false => rw [(ha.mirrored hzero).slice]

end SameReads

/-! ## The channel map -/

/-- Slots 0..3 are in the low word of the map, slots 4..7 in the high one. -/
theorem byteAt_map (b : Fin 8 → BitVec 8) (slot : Fin 8) :
    byteAt ((b 7 ++ b 6 ++ b 5 ++ b 4) ++ (b 3 ++ b 2 ++ b 1 ++ b 0)) slot.val = b slot := by
  obtain ⟨_ | _ | _ | _ | _ | _ | _ | _ | slot, hslot⟩ := slot
  case succ => omega
  all_goals
    ext k hk
    simp [byteAt]
    grind

/-- An entry with its valid bit set names the channel it was made from. -/
theorem chmapEntry_channel (chans : Fin 8 → BitVec 16) (n : Nat) (i : Fin 8) :
    (if (chmapEntry chans n i).getLsbD 7 then some ((chmapEntry chans n i).toNat % 64 + 1)
      else none) =
      if i.val < n ∧ 1 ≤ (chans i).toNat ∧ (chans i).toNat ≤ danteTxChannels then
        some (chans i).toNat
      else none := by
  have hnamed : ∀ ch : Fin 49, 1 ≤ ch.val →
      (((BitVec.ofNat 16 ch.val - 1).setWidth 8 &&& 0x3F) ||| 0x80 : BitVec 8).getLsbD 7 = true ∧
      (((BitVec.ofNat 16 ch.val - 1).setWidth 8 &&& 0x3F) ||| 0x80 : BitVec 8).toNat % 64 + 1 =
        ch.val := by decide
  have hzero : chans i ≠ 0 ↔ 1 ≤ (chans i).toNat := by
    rw [Nat.one_le_iff_ne_zero, ne_eq, ne_eq, ← BitVec.toNat_inj]
    rfl
  rw [chmapEntry]
  by_cases h : i.val < n ∧ chans i ≠ 0 ∧ (chans i).toNat ≤ danteTxChannels
  · have hname := hnamed ⟨(chans i).toNat, Nat.lt_succ_of_le h.2.2⟩ (hzero.1 h.2.1)
    simp only [BitVec.ofNat_toNat, BitVec.setWidth_eq] at hname
    rw [if_pos h, if_pos hname.1, if_pos ⟨h.1, hzero.1 h.2.1, h.2.2⟩, hname.2]
  · rw [if_neg h, if_neg (by decide), if_neg fun hc => h ⟨hc.1, hzero.2 hc.2.1, hc.2.2⟩]

/-- The channel a flow slot's context plays. -/
theorem channel_binding (netIp : Ip) (s : FlowSlot) (i : Fin 8) :
    (s.binding netIp).channel i.val =
      if i.val < s.nslots.val ∧ 1 ≤ (s.chans i).toNat ∧ (s.chans i).toNat ≤ danteTxChannels then
        some (s.chans i).toNat
      else none := by
  have hentry : byteAt ((s.binding netIp).cmhi ++ (s.binding netIp).cmlo) i.val =
      chmapEntry s.chans s.nslots i := byteAt_map (chmapEntry s.chans s.nslots) i
  rw [Latched.channel, hentry]
  exact chmapEntry_channel s.chans s.nslots i

/-- The list the firmware took from the datagram holds what the datagram lists. -/
theorem requested_eq (q : Datagram) (i : Fin 8) :
    q.requested i.val =
      if i.val < q.nch ∧ 1 ≤ (q.chans i).toNat ∧ (q.chans i).toNat ≤ danteTxChannels then
        some (q.chans i).toNat
      else none := by
  rw [Datagram.requested, Datagram.chans]
  by_cases hin : 16 + i.val * 2 + 2 ≤ q.clen
  · have hlisted : q.listed i.val = true := decide_eq_true hin
    rw [if_pos hin, BitVec.toNat_ofNat, Nat.mod_eq_of_lt (Mem.rd16_lt _ _)]
    simp only [hlisted, true_and]
  · have hlisted : q.listed i.val = false := decide_eq_false hin
    rw [if_neg hin, if_neg fun h => by simp [hlisted] at h, if_neg fun h => absurd h.2.1 (by decide)]

/-! ## An accepted request -/

section Accepted

variable {t : Tx} {f : CtxId} {d : FlowControl} {q : Datagram}

/-- The context a unicast bind ends in holds its slot's binding, with the slot count's share of
the channel list. -/
structure Latches (t t' : Tx) (r : UnicastReq) (f : CtxId) : Prop where
  context : t'.gw.ctx f = (t'.flows f).binding t.netIp
  chans : (t'.flows f).chans = fun i => if i.val < r.nslots.val then r.chans i else 0

theorem latches_bindUnicastInto (t : Tx) (f : CtxId) (r : UnicastReq) (dmac : Mac) (now : UInt32)
    (reads : Nat → Nat × Nat) : Latches t (bindUnicastInto t f r dmac now reads) r f := by
  have hslot : (bindUnicastInto t f r dmac now reads).flows f =
      unicastSlot (t.flows f) r dmac now := setFlow_self _ _ _
  exact ⟨context_bindUnicastInto t f r dmac now reads, by rw [hslot]; rfl⟩

theorem latches_bindUnicast (t : Tx) (r : UnicastReq) (dmac : Mac) (now : UInt32)
    (reads : Nat → Nat × Nat) :
    Latches t (bindUnicast t r dmac now reads).1 r (bindUnicast t r dmac now reads).2 := by
  unfold bindUnicast
  split
  · exact latches_bindUnicastInto t _ r dmac now reads
  split
  · exact latches_bindUnicastInto t _ r dmac now reads
  · have h := latches_bindUnicastInto (evict t (unicastVictim t now)) (unicastVictim t now) r dmac
      now reads
    exact ⟨h.context, h.chans⟩

theorem carries_bindUnicast (hformat : FormatFits d.policy q) (hcount : 1 ≤ q.nch ∧ q.nch ≤ 8)
    {dmac : Mac} (hmac : arpResolve d.net q.dst = some dmac) (now : UInt32)
    (reads : Nat → Nat × Nat) :
    Carries d (bindUnicast { d.tx with netIp := d.net.ip } (q.unicastReq d.policy hformat hcount)
        dmac now reads).1 q now
      (bindUnicast { d.tx with netIp := d.net.ip } (q.unicastReq d.policy hformat hcount) dmac now
        reads).2 := by
  have hserves := (bindUnicast_bound { d.tx with netIp := d.net.ip }
    (q.unicastReq d.policy hformat hcount) dmac now reads).serves
  have hlatches := latches_bindUnicast { d.tx with netIp := d.net.ip }
    (q.unicastReq d.policy hformat hcount) dmac now reads
  generalize bindUnicast { d.tx with netIp := d.net.ip } (q.unicastReq d.policy hformat hcount)
    dmac now reads = res at hserves hlatches
  have hchans : ∀ i, (res.1.flows res.2).chans i = if i.val < q.nch then q.chans i else 0 :=
    fun i => congrFun hlatches.chans i
  have hnslots : (res.1.flows res.2).nslots.val = q.nch := congrArg Subtype.val hserves.nslots
  refine ⟨hserves.inUse, hserves.mcast, hserves.peer, hserves.dst, hserves.dport, hnslots,
    congrArg Subtype.val hserves.fpp, hchans, by rw [hmac, hserves.dmac], hserves.lastMs,
    hlatches.context, fun slot hslot => ?_⟩
  rw [hlatches.context]
  refine (channel_binding _ _ ⟨slot, hslot⟩).trans (Eq.trans ?_ (requested_eq q ⟨slot, hslot⟩).symm)
  rw [hnslots, hchans]
  by_cases hin : slot < q.nch
  · rw [if_pos hin]
  · rw [if_neg fun h => hin h.1, if_neg fun h => hin h.1]

theorem Acceptable.answered (h : Acceptable d q) : ¬ q.len < danteHdrLen := by
  have hclen : 16 < q.clen := (of_decide_eq_true h.asks).2
  rw [Datagram.clen] at hclen
  omega

/-- An acceptable request is handled by binding one context. -/
theorem Acceptable.leaves (h : Acceptable d q) (now : UInt32) (reads : Nat → Nat × Nat) :
    ∃ dmac, arpResolve d.net q.dst = some dmac ∧
      Leaves d (bindUnicast { d.tx with netIp := d.net.ip }
        (q.unicastReq d.policy h.format h.count) dmac now reads).1
        (d.stats.accepted + 1) danteCodeOk (flowsHandled (countRx d) now reads q) := by
  obtain ⟨dmac, hmac⟩ := Option.ne_none_iff_exists'.1 h.receiver
  have hdst : arpResolve (countRx d).net (q.unicastReq d.policy h.format h.count).dst =
      some dmac := hmac
  have hleaves := flowsHandled_bound (d := countRx d) now reads h.asks
    (check_fits h.format h.count) hdst
  exact ⟨dmac, hmac, hleaves.tx, hleaves.accepted, hleaves.code, hleaves.mirrorIp⟩

theorem Acceptable.bound (h : Acceptable d q) (now : UInt32) (reads : Nat → Nat × Nat) :
    ∃ f, BoundTo d (flowsRx d now reads q) q now f := by
  obtain ⟨dmac, hmac, hleaves⟩ := h.leaves now reads
  obtain ⟨htx, hcount⟩ := flowsRx_leaves (d := d) now reads h.answered h.isRequest
  have hrewrites := (bindUnicast_bound { d.tx with netIp := d.net.ip }
    (q.unicastReq d.policy h.format h.count) dmac now reads).rewrites
  refine ⟨(bindUnicast { d.tx with netIp := d.net.ip } (q.unicastReq d.policy h.format h.count)
    dmac now reads).2, hcount.trans hleaves.accepted, ?_, ?_⟩
  · rw [htx, hleaves.tx]
    exact carries_bindUnicast h.format h.count hmac now reads
  · rw [htx, hleaves.tx]
    exact ⟨hrewrites.flows, hrewrites.contexts, hrewrites.flowIp, hrewrites.mcastFpp⟩

end Accepted

/-! ## A refused datagram -/

section Refused

variable {d : FlowControl} {q : Datagram}

/-- A request is not acceptable for a format or a count that does not fit, or for its receiver. -/
theorem refused_leaves (now : UInt32) (reads : Nat → Nat × Nat) (hop : q.opcode2 = 0)
    (h : ¬ Acceptable d q) :
    ∃ code, code ≠ danteCodeOk ∧
      Leaves d d.tx d.stats.accepted code (flowsHandled (countRx d) now reads q) ∧
      CodeNames d q code := by
  by_cases hask : q.asksForFlow
  case neg =>
    have hleaves := flowsHandled_foreign (d := countRx d) now reads hask
    refine ⟨codeNotFound, by decide, ⟨hleaves.tx, hleaves.accepted, hleaves.code,
      hleaves.mirrorIp⟩, ?_⟩
    exact ⟨iff_of_false (by decide) h, iff_of_true rfl hask,
      iff_of_false (by decide) fun hc => hask hc.1, fun hc => absurd hc hask⟩
  by_cases hformat : FormatFits d.policy q
  case neg =>
    have hleaves := flowsHandled_refused (d := countRx d) now reads hask (check_unfit hformat)
    refine ⟨codeRateMismatch, by decide, ⟨hleaves.tx, hleaves.accepted, hleaves.code,
      hleaves.mirrorIp⟩, ?_⟩
    exact ⟨iff_of_false (by decide) h, iff_of_false (by decide) fun hc => hc hask,
      iff_of_true rfl ⟨hask, hformat⟩, fun _ hc => absurd hc hformat⟩
  -- both remaining reasons are answered alike
  have hnames : CodeNames d q codeTooManyFlows :=
    ⟨iff_of_false (by decide) h, iff_of_false (by decide) fun hc => hc hask,
      iff_of_false (by decide) fun hc => hc.2 hformat, fun _ _ _ => rfl⟩
  by_cases hcount : 1 ≤ q.nch ∧ q.nch ≤ 8
  case neg =>
    have hleaves := flowsHandled_refused (d := countRx d) now reads hask
      (check_miscounted hformat hcount)
    exact ⟨codeTooManyFlows, by decide, ⟨hleaves.tx, hleaves.accepted, hleaves.code,
      hleaves.mirrorIp⟩, hnames⟩
  have hmiss : arpResolve d.net q.dst = none := by
    by_contra hres
    exact h ⟨hop, hask, hformat, hcount, hres⟩
  have hleaves := flowsHandled_unresolved (d := countRx d) now reads hask
    (check_fits hformat hcount) hmiss
  exact ⟨codeTooManyFlows, by decide, ⟨hleaves.tx, hleaves.accepted, hleaves.code,
    hleaves.mirrorIp⟩, hnames⟩

/-- A datagram that is not an acceptable request leaves table and gateware alone. -/
theorem refused_unchanged (now : UInt32) (reads : Nat → Nat × Nat) (h : ¬ Acceptable d q) :
    (flowsRx d now reads q).tx = d.tx ∧
      (flowsRx d now reads q).stats.accepted = d.stats.accepted := by
  by_cases hlen : q.len < danteHdrLen
  · rw [flowsRx, if_pos hlen]
    exact ⟨rfl, rfl⟩
  by_cases hop : q.opcode2 = 0
  · obtain ⟨code, -, hleaves, -⟩ := refused_leaves now reads hop h
    obtain ⟨htx, hcount⟩ := flowsRx_leaves (d := d) now reads hlen hop
    exact ⟨htx.trans hleaves.tx, hcount.trans hleaves.accepted⟩
  · rw [flowsRx, if_neg hlen, if_pos hop]
    exact ⟨rfl, rfl⟩

theorem codeNames_flowsReply (d : FlowControl) (now : UInt32) (reads : Nat → Nat × Nat)
    (hop : q.opcode2 = 0) : CodeNames d q (flowsReply (countRx d) now reads q).2.1 := by
  show CodeNames d q (flowsHandled (countRx d) now reads q).2.2
  by_cases h : Acceptable d q
  · obtain ⟨dmac, -, hleaves⟩ := h.leaves now reads
    rw [hleaves.code]
    exact ⟨iff_of_true rfl h, iff_of_false (by decide) fun hc => hc h.asks,
      iff_of_false (by decide) fun hc => hc.2 h.format, fun _ _ hc => absurd h.count hc⟩
  · obtain ⟨code, -, hleaves, hnames⟩ := refused_leaves now reads hop h
    rw [hleaves.code]
    exact hnames

/-- The code in a reply that is not lost is the one decided on. -/
theorem code_flowsReply (now : UInt32) (reads : Nat → Nat × Nat) (hop : q.opcode2 = 0)
    (hres : ¬ ReceiverUnresolved d q) :
    (flowsReply (countRx d) now reads q).2.1 = (decidedReply d now reads q).code := by
  have hkept := flowsHandled_kept (d := countRx d) (q := q) now reads fun r hask hv hnone =>
    hres ⟨hop, hask, r, hv, hnone⟩
  have hdecided : decidedReply (countRx d) now reads q = decidedReply d now reads q :=
    decidedReply_congr rfl rfl rfl rfl fun _ => rfl
  rw [← hdecided]
  exact hkept.code

theorem opcode2_of_committedReply {now : UInt32} {reads : Nat → Nat × Nat} {frame : Sent}
    (h : committedReply d now reads q = some frame) : q.opcode2 = 0 := by
  by_contra hop
  rw [committedReply, if_pos (Or.inr hop)] at h
  cases h

end Refused

/-! ## Every datagram -/

/-- Reads stay inside the datagram and decide what is done with it; a context is bound for an
acceptable request and for nothing else, and the reply's code says which it was. -/
theorem flow_request_handled (d : FlowControl) (now : UInt32) (reads : Nat → Nat × Nat)
    (q : Datagram) :
    (∀ k ∈ flowsReads d q, k < q.len) ∧
    (∀ q', SameReads d q q' → flowsRx d now reads q' = flowsRx d now reads q) ∧
    ((∃ f, BoundTo d (flowsRx d now reads q) q now f) ↔ Acceptable d q) ∧
    (¬ Acceptable d q → (flowsRx d now reads q).tx = d.tx) ∧
    (q.opcode2 = 0 → CodeNames d q (flowsReply (countRx d) now reads q).2.1) ∧
    (∀ frame, committedReply d now reads q = some frame → ¬ ReceiverUnresolved d q →
      ∃ content, udpPayload frame.bytes =
        (Reply.mk (flowsReply (countRx d) now reads q).2.1 content).bytes q.req) := by
  refine ⟨flowsReads_inside d q, fun q' h => flowsRx_congr now reads h, ?_,
    fun h => (refused_unchanged now reads h).1, codeNames_flowsReply d now reads,
    fun frame hframe hres => ?_⟩
  · constructor
    · rintro ⟨f, hbound⟩
      by_contra h
      have hsame := hbound.counted.symm.trans (refused_unchanged now reads h).2
      exact absurd hsame (by simp)
    · exact fun h => h.bound now reads
  · refine ⟨(decidedReply d now reads q).content, ?_⟩
    rw [code_flowsReply now reads (opcode2_of_committedReply hframe) hres]
    exact (committedReply_own d now reads q (fun h => hres h.1) hframe).2

/-- A receiver at .2 asks for a mono flow of two samples a packet. -/
def monoPair : Datagram where
  srcIp := ⟨169, 254, 1, 2⟩
  srcPort := 40000
  req := fun k => ([0x11, 0x02, 0, 44, 0, 7, 0x01, 0x00, 0, 0,
    0, 0, 0, 0, 0xBB, 0x80, 0, 0, 0, 24, 0, 1, 0, 1, 0, 36,
    0, 1, 0, 0, 0, 0, 0, 0, 0, 2,
    0x08, 0x02, 0x38, 0x45, 169, 254, 1, 2] : List UInt8).getD k 0
  len := 44

/-- Rate and width match, two samples is a supported packet, the receiver is known: the request
is refused, for a mismatch of the rate. -/
theorem odd_pair_refused :
    (monoPair.rate = heardOnce.policy.sampleRate.toNat ∧
      monoPair.bits = heardOnce.policy.bitsPerSample.toNat ∧
      danteTxFppSupported heardOnce.policy (clampFpp heardOnce.policy monoPair.fpp) ∧
      monoPair.nch = 1 ∧
      arpResolve heardOnce.net monoPair.dst = some ⟨2, 0, 0, 0, 0, 2⟩) ∧
    (flowsRx heardOnce 0 (fun _ => (0, 0)) monoPair).tx = heardOnce.tx ∧
    (flowsRx heardOnce 0 (fun _ => (0, 0)) monoPair).stats.accepted =
      heardOnce.stats.accepted ∧
    (flowsReply (countRx heardOnce) 0 (fun _ => (0, 0)) monoPair).2.1 = codeRateMismatch := by
  have hodd : ¬ Acceptable heardOnce monoPair := fun h => h.format.words (by decide)
  refine ⟨by decide, (refused_unchanged 0 (fun _ => (0, 0)) hodd).1,
    (refused_unchanged 0 (fun _ => (0, 0)) hodd).2, ?_⟩
  exact (codeNames_flowsReply heardOnce 0 (fun _ => (0, 0)) (by decide)).unfit.2
    ⟨by decide, fun hfits => hfits.words (by decide)⟩

end Firmware
end InfernoFpga
