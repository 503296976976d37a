import InfernoFpga.Firmware.FlowRequest

/-!
# Paths — every way into the flow table

Three ports lead to the table: the flow-control port binds unicast flows, the routing port
creates and deletes multicast flows and drops them all on a new latency, and the diagnostic port
changes the settings the other two check against.  Each is modelled from the bytes it receives.
`TablePath` is what a property of the table needs in order to survive all of them.
-/

namespace InfernoFpga
namespace Firmware

open Lib
open Packetizer (CtxId)

/-! ## Multicast flows by request 0x2201 -/

/-- A descriptor of a 0x2201 request that is not refused. -/
structure GroupReq where
  fid : BitVec 16
  n : SlotCount
  chans : Fin 8 → BitVec 16

/-- The number of descriptor offsets the request announces. -/
def groupItems (content : Mem) (clen : Nat) : Nat :=
  if 2 ≤ clen then (content 1).toNat else 0

/-- Descriptor `i`; `none` where the loop goes on without binding anything. -/
def groupReq (content : Mem) (clen i : Nat) : Option GroupReq :=
  let off := Mem.rd16 content (2 + i * 2)
  let d := off - danteHdrLen
  let fid := BitVec.ofNat 16 (Mem.rd16 content d)
  let ftyp := Mem.rd16 content (d + 2)
  let nch := Mem.rd16 content (d + 14)
  if off < danteHdrLen ∨ clen < d + 16 then none
  else if ftyp ≠ 2 ∨ fid = 0 then none
  else if h : 1 ≤ nch ∧ nch ≤ 8 then
    if clen < d + 16 + 2 * nch then none
    else some { fid := fid, n := ⟨nch, h⟩
                chans := fun c => BitVec.ofNat 16 (Mem.rd16 content (d + 16 + 2 * c.val)) }
  else none

/-- The time and the counter reads an item of a request meets. -/
abbrev Moments := Nat → UInt32 × (Nat → Nat × Nat)

/-- The state of the 0x2201 loop: the table, and `accepted[0 .. nacc)`. -/
abbrev Created := Tx × List (BitVec 16)

/-- An item of the request.  A group of 1 to 8 slots always gets a context, so the source's
answer 0x0315 has no case here. -/
def createGroup (content : Mem) (clen : Nat) (env : Moments) (i : Nat) (s : Created) : Created :=
  match groupReq content clen i with
  | none => s
  | some g => ((bindMulticast s.1 g.fid g.chans g.n (env i).1 (env i).2).1, s.2 ++ [g.fid])

/-- The 0x2201 loop over the items left, from item `i` on. -/
def createGroups (content : Mem) (clen : Nat) (env : Moments) : Nat → Nat → Created → Created
  | 0, _, s => s
  | left + 1, i, s =>
      if 8 ≤ s.2.length then s
      else if clen < 2 + i * 2 + 2 then s
      else createGroups content clen env left (i + 1) (createGroup content clen env i s)

/-- The answer to a 0x2201 request: the ids that were accepted. -/
def createdReply (accepted : List (BitVec 16)) : Reply :=
  if accepted = [] then ⟨0x22, []⟩
  else ⟨danteCodeOk, Mem.be16 accepted.length ++ Mem.be16 0 ++
    accepted.flatMap fun fid => Mem.be16 fid.toNat⟩

/-- The ids of a 0x2202 request, from byte `i` on. -/
def deleteGroups (content : Mem) (clen : Nat) : Nat → Nat → Tx → Tx
  | 0, _, t => t
  | fuel + 1, i, t =>
      if i + 2 ≤ clen then
        deleteGroups content clen fuel (i + 2)
          (deleteId t (BitVec.ofNat 16 (Mem.rd16 content i)))
      else t

/-! ## The diagnostic port -/

abbrev statsPort : Nat := 7779

/-- The decimal number at `i`, in a type of `modulus` values. -/
def decimal (req : Mem) (modulus : Nat) : Nat → Nat → Nat → Nat
  | 0, _, v => v
  | left + 1, i, v =>
      let c := (req i).toNat
      if 48 ≤ c ∧ c ≤ 57 then decimal req modulus left (i + 1) ((v * 10 + (c - 48)) % modulus)
      else v

def startsNumber (q : Datagram) : Prop := 2 ≤ q.len ∧ 48 ≤ (q.req 1).toNat ∧ (q.req 1).toNat ≤ 57

instance (q : Datagram) : Decidable (startsNumber q) := inferInstanceAs (Decidable (_ ∧ _ ∧ _))

/-- A reply of the diagnostic port. -/
def statsReply (d : FlowControl) (q : Datagram) (body : List UInt8) : FlowControl :=
  let n := txStore d.net udpPayloadOff body
  let commit := netUdpCommit n q.srcIp q.srcPort statsPort body.length netTosBestEffort
  { d with net := commit.1 }

/-- The table as a bind sees it, with the address the stack has now. -/
def FlowControl.synced (d : FlowControl) : Tx := { d.tx with netIp := d.net.ip }

/-- `'P'`: the phase adjustment. -/
def phaseKnob (d : FlowControl) (q : Datagram) : FlowControl :=
  let adj := if startsNumber q then decimal q.req (2 ^ 32) (q.len - 1) 1 0 else d.tx.phaseAdj
  statsReply { d with tx := { d.tx with phaseAdj := adj } } q
    ([0x50, 0x48, 0x56, 0x31] ++ Mem.be32 adj)

/-- `'M'` with a number: the packet size of groups bound from now on, if it is supported. -/
def mcastSize (d : FlowControl) (v : Nat) : FlowControl :=
  if h : danteTxFppSupported d.policy v then { d with tx := { d.tx with mcastFpp := ⟨v, h.2⟩ } }
  else d

/-- `'M'` alone: a group of four channels. -/
def mcastProbe (d : FlowControl) (now : UInt32) (reads : Nat → Nat × Nat) : FlowControl :=
  let chans : Fin 8 → BitVec 16 := fun i => BitVec.ofNat 16 (i.val + 1)
  { d with tx := (bindMulticast d.synced 0x40 chans ⟨4, by decide⟩ now reads).1 }

def mcastKnob (d : FlowControl) (q : Datagram) (now : UInt32) (reads : Nat → Nat × Nat) :
    FlowControl :=
  let d := if startsNumber q then mcastSize d (decimal q.req (2 ^ 16) (q.len - 1) 1 0)
    else mcastProbe d now reads
  statsReply d q ([0x4D, 0x43, 0x41, 0x31] ++ Mem.be32 d.tx.mcastFpp.val)

/-- `'C'`: clamp an oversized packet size instead of refusing it. -/
def clampKnob (d : FlowControl) (q : Datagram) : FlowControl :=
  let on := q.req 1 != 0
  statsReply { d with policy := { d.policy with fppClamp := on }, tx := dropAll d.tx } q
    [0x43, 0x4C, 0x4D, 0x31, if on then 1 else 0]

/-- `'X'`: the largest packet size accepted. -/
def acceptKnob (d : FlowControl) (q : Datagram) : FlowControl :=
  let most := if q.req 1 ≠ 0 then q.req 1 else 60
  statsReply { d with policy := { d.policy with fppMaxAccept := most }, tx := dropAll d.tx } q
    [0x46, 0x50, 0x58, 0x31, most]

/-- The opcodes of the diagnostic port that reach the flow table or its settings. -/
def statsRx (d : FlowControl) (q : Datagram) (now : UInt32) (reads : Nat → Nat × Nat) :
    FlowControl :=
  if 1 ≤ q.len ∧ q.req 0 = 0x50 then phaseKnob d q
  else if 1 ≤ q.len ∧ q.req 0 = 0x4D then mcastKnob d q now reads
  else if 2 ≤ q.len ∧ q.req 0 = 0x43 then clampKnob d q
  else if 2 ≤ q.len ∧ q.req 0 = 0x58 then acceptKnob d q
  else d

/-! ## Runs -/

/-- Everything that can create or change a context, as the device receives it. -/
inductive PortOp
  | init
  /-- A datagram on port 4455. -/
  | flows (q : Datagram) (now : UInt32) (reads : Nat → Nat × Nat)
  /-- The content of a 0x2201 request. -/
  | create (content : Mem) (clen : Nat) (env : Moments)
  /-- The content of a 0x2202 request. -/
  | delete (content : Mem) (clen : Nat)
  /-- A 0x1101 request that changes the latency. -/
  | latency
  /-- A datagram on the diagnostic port. -/
  | stats (q : Datagram) (now : UInt32) (reads : Nat → Nat × Nat)
  | reseed (sub : Nat)
  | talker (on : Bool)
  /-- Whatever else the network stack does. -/
  | stack (net : Net)

def portStep (d : FlowControl) : PortOp → FlowControl
  | .init => { d with tx := danteTxInit d.synced }
  | .flows q now reads => flowsRx d now reads q
  | .create content clen env =>
      { d with tx := (createGroups content clen env (groupItems content clen) 0 (d.synced, [])).1 }
  | .delete content clen => { d with tx := deleteGroups content clen clen 0 d.tx }
  | .latency => { d with tx := dropAll d.tx }
  | .stats q now reads => statsRx d q now reads
  | .reseed sub => { d with tx := reseedPhases d.tx sub }
  | .talker on => { d with tx := aafGwSet d.synced on }
  | .stack net => { d with net := net }

/-- The device after `dante_tx_init`, with the settings it boots with. -/
def FlowControl.boot (net : Net) (mac : Mac) : FlowControl where
  net := net
  tx := danteTxInit (Tx.boot net.ip mac)
  stats := ⟨0, 0, 0, 0, 0, 0⟩
  cookie := 0
  policy := { sampleRate := 48000, bitsPerSample := 24, fppMaxAccept := 60, fppClamp := false }
  mirrorIp := ⟨0, 0, 0, 0⟩

/-- The device after `ops`. -/
def portsAfter (net : Net) (mac : Mac) (ops : List PortOp) : FlowControl :=
  run portStep (FlowControl.boot net mac) ops

/-! ## The table after a datagram on port 4455 -/

section Flows

variable {d : FlowControl} (now : UInt32) (reads : Nat → Nat × Nat) {q : Datagram}

/-- The handler looks at the datagram's content. -/
def Datagram.handled (q : Datagram) : Prop :=
  danteHdrLen ≤ q.len ∧ q.opcode2 = 0 ∧ q.asksForFlow = true

instance (q : Datagram) : Decidable q.handled := inferInstanceAs (Decidable (_ ∧ _ ∧ _))

/-- The table after a request was checked. -/
def verdictTx (d : FlowControl) (now : UInt32) (reads : Nat → Nat × Nat) : Verdict → Tx
  | .refuse _ => d.tx
  | .bind r =>
      match arpResolve d.net r.dst with
      | none => d.tx
      | some dmac => (bindUnicast d.synced r dmac now reads).1

theorem tx_requestFlow (d : FlowControl) (m : DanteMsg) (q : Datagram) :
    (requestFlow d now reads m q).1.tx = verdictTx d now reads (check d.policy q) := by
  cases hv : check d.policy q with
  | refuse code => exact (requestFlow_refused now reads m hv).tx
  | bind r =>
      simp only [verdictTx]
      cases hres : arpResolve d.net r.dst with
      | none => exact (requestFlow_unresolved now reads m hv hres).tx
      | some dmac => exact (requestFlow_bound now reads m hv hres).tx

theorem tx_flowsDispatch (d : FlowControl) (m : DanteMsg) (q : Datagram) :
    (flowsDispatch d now reads m q).1.tx =
      if q.asksForFlow then verdictTx d now reads (check d.policy q) else d.tx := by
  unfold flowsDispatch
  split
  · exact tx_requestFlow now reads d m q
  · rfl

/-- Nothing in the handler but the bind touches the table. -/
theorem tx_flowsRx (d : FlowControl) (q : Datagram) :
    (flowsRx d now reads q).tx =
      if q.handled then verdictTx d now reads (check d.policy q) else d.tx := by
  unfold flowsRx
  by_cases hlen : q.len < danteHdrLen
  · rw [if_pos hlen, if_neg fun h : q.handled => absurd h.1 (Nat.not_le.2 hlen)]
  by_cases hop : q.opcode2 = 0
  · rw [if_neg hlen, if_neg (not_not.2 hop), (flowsMirror_leaves _ q _).1]
    have hdispatch := tx_flowsDispatch now reads
      { countRx d with net := (danteMsgBegin d.net q.req).1 } (danteMsgBegin d.net q.req).2 q
    refine hdispatch.trans ?_
    -- the reply is begun in a transmit slot, which no lookup reads
    have hverdict : ∀ v, verdictTx { countRx d with net := (danteMsgBegin d.net q.req).1 } now
        reads v = verdictTx d now reads v := by
      rintro (_ | _) <;> rfl
    rw [hverdict]
    exact if_congr ⟨fun h => ⟨Nat.not_lt.1 hlen, hop, h⟩, fun h => h.2.2⟩ rfl rfl
  · rw [if_neg hlen, if_pos hop, if_neg fun h : q.handled => hop h.2.1]
    rfl

end Flows

/-! ## Properties of the table -/

/-- A property of the table that releasing a context keeps, that a unicast bind keeps for a
request with `U`, and a multicast bind for a packet size and slot count with `M`. -/
structure TablePath (P : (CtxId → FlowSlot) → Prop)
    (U : (CtxId → FlowSlot) → UnicastReq → Prop) (M : Fpp → SlotCount → Prop) : Prop where
  unbind : ∀ {t : Tx} (f : CtxId), P t.flows → P (unbind t f).flows
  unicast : ∀ {t : Tx} {r : UnicastReq} (dmac : Mac) (now : UInt32) (reads : Nat → Nat × Nat),
    P t.flows → U t.flows r → P (bindUnicast t r dmac now reads).1.flows
  multicast : ∀ {t : Tx} (fid : BitVec 16) (chans : Fin 8 → BitVec 16) {n : SlotCount}
    (now : UInt32) (reads : Nat → Nat × Nat),
    P t.flows → M t.mcastFpp n → P (bindMulticast t fid chans n now reads).1.flows

/-- The binds a step makes are ones the property survives. -/
def PathSafe (U : (CtxId → FlowSlot) → UnicastReq → Prop) (M : Fpp → SlotCount → Prop)
    (d : FlowControl) : PortOp → Prop
  | .flows q _ _ => q.handled → ∀ r, check d.policy q = .bind r →
      arpResolve d.net r.dst ≠ none → U d.tx.flows r
  | .create content clen _ =>
      ∀ i < groupItems content clen, ∀ g, groupReq content clen i = some g → M d.tx.mcastFpp g.n
  | .stats .. => M d.tx.mcastFpp ⟨4, by decide⟩
  | _ => True

namespace TablePath

variable {P : (CtxId → FlowSlot) → Prop} {U : (CtxId → FlowSlot) → UnicastReq → Prop}
  {M : Fpp → SlotCount → Prop}

theorem dropAll (hp : TablePath P U M) {t : Tx} (h : P t.flows) : P (dropAll t).flows :=
  run_invariant Firmware.unbind (P := fun t => P t.flows) (fun _ f ht => hp.unbind f ht)
    (List.finRange nFlows) h

theorem deleteId (hp : TablePath P U M) {t : Tx} (h : P t.flows) (id : BitVec 16) :
    P (deleteId t id).flows := by
  unfold Firmware.deleteId
  split
  · exact h
  · split
    · exact hp.unbind _ h
    · exact h

theorem deleteGroups (hp : TablePath P U M) {content : Mem} {clen : Nat} :
    ∀ (fuel i : Nat) {t : Tx}, P t.flows → P (deleteGroups content clen fuel i t).flows
  | 0, _, _, h => h
  | fuel + 1, i, t, h => by
      unfold Firmware.deleteGroups
      split
      · exact deleteGroups hp fuel (i + 2) (hp.deleteId h _)
      · exact h

/-- One item of a 0x2201 request; it leaves the packet size for groups alone. -/
theorem createGroup (hp : TablePath P U M) {content : Mem} {clen i : Nat} (env : Moments)
    {s : Created} (h : P s.1.flows)
    (hsafe : ∀ g, groupReq content clen i = some g → M s.1.mcastFpp g.n) :
    P (createGroup content clen env i s).1.flows ∧
      (Firmware.createGroup content clen env i s).1.mcastFpp = s.1.mcastFpp := by
  unfold Firmware.createGroup
  cases hg : groupReq content clen i with
  | none => exact ⟨h, rfl⟩
  | some g =>
      exact ⟨hp.multicast g.fid g.chans (env i).1 (env i).2 h (hsafe g hg),
        (bindMulticast_bound s.1 g.fid g.chans g.n (env i).1 (env i).2).rewrites.mcastFpp⟩

theorem createGroups (hp : TablePath P U M) {content : Mem} {clen : Nat} (env : Moments)
    {size : Fpp}
    (hsafe : ∀ i < groupItems content clen, ∀ g, groupReq content clen i = some g → M size g.n) :
    ∀ (left i : Nat) {s : Created}, P s.1.flows → s.1.mcastFpp = size →
      i + left = groupItems content clen →
      P (createGroups content clen env left i s).1.flows
  | 0, _, _, h, _, _ => h
  | left + 1, i, s, h, hsize, hi => by
      unfold Firmware.createGroups
      split
      · exact h
      split
      · exact h
      obtain ⟨hnext, hkeep⟩ := hp.createGroup env h (i := i)
        (by rw [hsize]; exact hsafe i (by omega))
      exact createGroups hp env hsafe left (i + 1) hnext (hkeep.trans hsize) (by omega)

theorem statsRx (hp : TablePath P U M) {d : FlowControl} (h : P d.tx.flows)
    (hprobe : M d.tx.mcastFpp ⟨4, by decide⟩) (q : Datagram) (now : UInt32)
    (reads : Nat → Nat × Nat) : P (statsRx d q now reads).tx.flows := by
  unfold Firmware.statsRx
  split
  · exact h
  split
  · show P (if startsNumber q then mcastSize d (decimal q.req (2 ^ 16) (q.len - 1) 1 0)
      else mcastProbe d now reads).tx.flows
    split
    · unfold mcastSize
      split
      · exact h
      · exact h
    · exact hp.multicast (t := d.synced) _ _ now reads h hprobe
  split
  · exact hp.dropAll h
  split
  · exact hp.dropAll h
  · exact h

theorem flowsRx (hp : TablePath P U M) {d : FlowControl} (h : P d.tx.flows) {q : Datagram}
    (now : UInt32) (reads : Nat → Nat × Nat)
    (hsafe : q.handled → ∀ r, check d.policy q = .bind r → arpResolve d.net r.dst ≠ none →
      U d.tx.flows r) :
    P (flowsRx d now reads q).tx.flows := by
  rw [tx_flowsRx]
  split
  · rename_i hq
    cases hv : check d.policy q with
    | refuse code => exact h
    | bind r =>
        simp only [verdictTx]
        cases hres : arpResolve d.net r.dst with
        | none => exact h
        | some dmac =>
            have hr := hsafe hq r hv (by rw [hres]; exact Option.some_ne_none dmac)
            exact hp.unicast (t := d.synced) dmac now reads h hr
  · exact h

/-- A safe step keeps the property, whatever port it comes from. -/
theorem step (hp : TablePath P U M) {d : FlowControl} {op : PortOp}
    (hsafe : PathSafe U M d op) (h : P d.tx.flows) : P (portStep d op).tx.flows := by
  cases op with
  | init =>
      show P (danteTxInit d.synced).flows
      rw [flows_danteTxInit]
      exact h
  | flows q now reads => exact hp.flowsRx h now reads hsafe
  | create content clen env =>
      exact hp.createGroups env hsafe _ 0 (s := (d.synced, [])) h rfl (Nat.zero_add _)
  | delete content clen => exact hp.deleteGroups clen 0 h
  | latency => exact hp.dropAll h
  | stats q now reads => exact hp.statsRx h hsafe q now reads
  | reseed sub =>
      show P (reseedPhases d.tx sub).flows
      rw [flows_reseedPhases]
      exact h
  | talker on =>
      show P (aafGwSet d.synced on).flows
      rw [flows_aafGwSet]
      exact h
  | stack net => exact h

/-- A property of the zeroed table holds after every run of safe steps. -/
theorem run (hp : TablePath P U M) (h₀ : P fun _ => FlowSlot.free) {net : Net} {mac : Mac}
    {ops : List PortOp}
    (h : Along portStep (PathSafe U M) (FlowControl.boot net mac) ops) :
    P (portsAfter net mac ops).tx.flows := by
  refine Along.invariant (P := fun d => P d.tx.flows) (fun _ _ hsafe hd => hp.step hsafe hd) h ?_
  show P (danteTxInit (Tx.boot net.ip mac)).flows
  rw [flows_danteTxInit]
  exact h₀

end TablePath

end Firmware
end InfernoFpga
