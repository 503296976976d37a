import InfernoFpga.Lib.Framing
import InfernoFpga.Packetizer.Payload

/-!
# Emission — what the MAC is handed, byte by byte

A frame begins in `CHECK` and ends when its last word is accepted.  `refFrame` says which bytes it
should be made of: the header of the context's registers, then the samples of the window, sample by
sample and slot by slot.  The words the MAC takes under any pattern of its ready signal carry these
bytes, except in the last word.
-/

namespace InfernoFpga
namespace Packetizer

open Lib

/-! ## The stream to the MAC -/

/-- A word handed to the MAC with its end-of-frame marks. -/
structure Beat where
  data : Word
  last : Bool
  lastBe : BitVec 4
  deriving DecidableEq

def beat (s : State) : Beat :=
  { data := sourceData s, last := sourceLast s, lastBe := sourceLastBe s }

/-- A word inside a frame. -/
def Beat.inner (data : Word) : Beat := { data := data, last := false, lastBe := 0xF }

/-- The lanes up to the one that `last_be` marks. -/
def lanes (be : BitVec 4) : Nat :=
  if be.getLsbD 0 then 1 else if be.getLsbD 1 then 2 else if be.getLsbD 2 then 3 else 4

/-- The bytes a word carries, lane 0 first. -/
def Beat.bytes (b : Beat) : List Byte :=
  (List.range (if b.last then lanes b.lastBe else 4)).map (byteAt b.data)

/-- The bytes of a frame. -/
def frameBytes (beats : List Beat) : List Byte := beats.flatMap Beat.bytes

/-- The log of the frame in progress and the words the MAC has taken. -/
structure Tap where
  frame : Frame
  wire : List Beat

namespace Tap

def empty : Tap := { frame := Frame.empty, wire := [] }

def next (s : State) (i : Input) (t : Tap) : Tap :=
  { frame := Frame.next s i t.frame
    wire := if sourceValid s && i.sourceReady then t.wire ++ [beat s] else t.wire }

end Tap

/-- The builder and the tap on its output. -/
def tapStep : State × Tap → Input → State × Tap := watch step Tap.next

/-! ## The bytes a frame should have -/

/-- The header in front of the timestamp, from a context's binding and the shared registers. -/
def headerFront (c : Ctx) (csr : Csr) : List Byte :=
  (header { State.reset with ctx := fun _ => c } { Input.quiet with csr := csr }).take 43

/-- The cycle of a frame on which sample `m` is addressed; its data is taken on the next one. -/
def adrCycle (m : Nat) : Nat := if m = 0 then 1 else 50 + 3 * m

section Reference

-- `s` is the state in which the frame begins, `σ t` the state `t` cycles later
variable (s : State) (σ : Nat → State)

/-- The channel-map entry of a slot. -/
def mapEntry (c : Ctx) (slot : Nat) : Byte := byteAt (c.cmhi ++ c.cmlo) slot

/-- The ring address of a channel in frame `k` of the window behind `snap`. -/
def windowAdr (snap : Word) (size k ch : Nat) : Nat :=
  (snap - BitVec.ofNat 32 (8 * size) + BitVec.ofNat 32 (8 * k) + BitVec.ofNat 32 (ch % 8)).toNat %
    sringDepth

/-- Where sample `m` of the frame is to be read: samples in turn, slots fastest. -/
def refAddress : Addressing := fun m ring adr valid =>
  let e := mapEntry (cur s) (m % nslots (cfgNow s))
  ring = min (e.toNat % 64 / 8) 5 ∧
    adr = windowAdr (σ (adrCycle m)).rdSnap (curFpp s) (m / nslots (cfgNow s)) (e.toNat % 64) ∧
      valid = e.getLsbD 7

/-- Sample `m` of the frame: silence without a map entry, and all silence while not primed. -/
def refSample (m : Nat) : Word :=
  let e := mapEntry (cur s) (m % nslots (cfgNow s))
  let adr := windowAdr (σ (adrCycle m)).rdSnap (curFpp s) (m / nslots (cfgNow s)) (e.toNat % 64)
  if s.pktPrimed && e.getLsbD 7 then
    unpacked ((σ (adrCycle m + 1)).ring (min (e.toNat % 64 / 8) 5) adr)
  else 0

/-- The 51 header bytes.  Those of the timestamp are read off the emit latches one a cycle. -/
def refHeader (csr : Csr) : List Byte :=
  headerFront (cur s) csr ++
    (List.range 8).map fun j => (headerStamp (σ (44 + j))).bytes.getD j 0

/-- The top three bytes of every sample, most significant first. -/
def refPayload : List Byte :=
  (List.range (packetSamples (cfgNow s))).flatMap fun m =>
    let x := refSample s σ m
    [byteAt x 3, byteAt x 2, byteAt x 1]

def refFrame (csr : Csr) : List Byte := refHeader s σ csr ++ refPayload s σ

theorem length_refHeader (csr : Csr) : (refHeader s σ csr).length = 51 := rfl

/-- Three bytes a sample. -/
theorem refPayload_eq :
    refPayload s σ = (List.range (3 * packetSamples (cfgNow s))).map fun j =>
      byteAt (refSample s σ (j / 3)) (3 - j % 3) :=
  flatMap_chunks (w := 3) (fun m k => byteAt (refSample s σ m) (3 - k)) (by decide) _

theorem length_refFrame (csr : Csr) :
    (refFrame s σ csr).length = 51 + 3 * packetSamples (cfgNow s) := by
  rw [refFrame, List.length_append, length_refHeader, refPayload_eq, List.length_map,
    List.length_range]

/-- A payload byte of the reference. -/
theorem getD_refFrame (csr : Csr) {j : Nat} (hj : j < 3 * packetSamples (cfgNow s)) :
    (refFrame s σ csr).getD (51 + j) 0 = byteAt (refSample s σ (j / 3)) (3 - j % 3) := by
  have hlen := length_refHeader s σ csr
  rw [refFrame, List.getD_append_right _ _ _ _ (by omega), hlen, Nat.add_sub_cancel_left,
    refPayload_eq, List.getD_eq_getElem _ _ (by simpa using hj), List.getElem_map,
    List.getElem_range]

/-- The header and what follows its first 43 bytes. -/
theorem refFrame_front (csr : Csr) :
    ∃ rest, refFrame s σ csr = headerFront (cur s) csr ++ rest :=
  ⟨_, List.append_assoc _ _ _⟩

end Reference

/-! ## A frame whose header stands still -/

/-- A context's binding, without its running phase and pending bit. -/
def bound (c : Ctx) : Ctx := { c with phase := 0, pend := false }

/-- The shared registers that go into every header. -/
def SameHeader (csr c : Csr) : Prop :=
  csr.srcMacHi = c.srcMacHi ∧ csr.srcMacLo = c.srcMacLo ∧ csr.ipTos = c.ipTos ∧
    csr.ipTtl = c.ipTtl ∧ csr.srcIp = c.srcIp

/-- The firmware leaves the frame of context `k` alone: no latch of that context fires, the shared
header registers read `c`, and no context gets more than 8 slots. -/
def Still (c : Csr) (k : CtxId) (i : Input) : Prop :=
  (i.flowCfgRe = true → nslots i.csr.flowCfg ≤ 8) ∧
    (i.udpDportRe || i.dstMacLoRe || i.flowCfgRe → ctxIndex i.csr.ctxSelect ≠ k) ∧
      SameHeader i.csr c

instance (c : Csr) (k : CtxId) (i : Input) : Decidable (Still c k i) :=
  inferInstanceAs (Decidable (_ ∧ _ ∧ _ ∧ _ ∧ _ ∧ _ ∧ _))

/-- What a frame keeps from the state it began in. -/
structure Kept (s x : State) : Prop where
  stream : x.streamIdx = s.streamIdx
  binding : bound (cur x) = bound (cur s)
  primed : x.pktPrimed = s.pktPrimed

namespace Kept

variable {s x : State} {c : Csr} {i : Input}

theorem refl (s : State) : Kept s s := ⟨rfl, rfl, rfl⟩

theorem cfg (h : Kept s x) : cfgNow x = cfgNow s := by
  show (bound (cur x)).cfg = (bound (cur s)).cfg
  rw [h.binding]

theorem fppNow (h : Kept s x) : curFpp x = curFpp s := congrArg fpp h.cfg

/-- The channel map of the frame. -/
theorem entry (h : Kept s x) (slot : Nat) : mapEntry (cur x) slot = mapEntry (cur s) slot := by
  show mapEntry (bound (cur x)) slot = mapEntry (bound (cur s)) slot
  rw [h.binding]

/-- A cycle in which the builder stays with its context. -/
theorem next (h : Kept s x) (hstill : Still c s.streamIdx i) (hidle : x.fsm ≠ .idle)
    (hadvance : advance x i = false) : Kept s (step x i) := by
  have hidx : (step x i).streamIdx = x.streamIdx := nextStreamIdx_of_ne hidle hadvance
  have hkeep : bound (nextCtx x i x.streamIdx) = bound (cur x) := by
    by_cases hsel : ctxIndex i.csr.ctxSelect = x.streamIdx
    · have hno : ¬ (i.udpDportRe || i.dstMacLoRe || i.flowCfgRe) = true := fun hre =>
        hstill.2.1 hre (hsel.trans h.stream)
      simp only [Bool.or_eq_true, not_or, Bool.not_eq_true] at hno
      simp [bound, nextCtx, cur, hno.1.1, hno.1.2, hno.2]
    · simp [bound, nextCtx, cur, hsel]
  refine ⟨hidx.trans h.stream, ?_, (pktPrimed_step hidle).trans h.primed⟩
  show bound (nextCtx x i (nextStreamIdx x i)) = _
  rw [nextStreamIdx_of_ne hidle hadvance, hkeep, h.binding]

end Kept

theorem frameSafe_of_still {s x : State} {c : Csr} {i : Input} (h : Kept s x)
    (hstill : Still c s.streamIdx i) : FrameSafe x i := fun hre =>
  ⟨hstill.1 hre, fun _ => h.stream ▸ hstill.2.1 (by simp [hre])⟩

/-! ## Bytes and reads against the reference -/

section Against

variable (s : State) (σ : Nat → State) (c : Csr)

/-- A header byte is the reference's. -/
def HeaderMeets (j : Nat) (b : Byte) : Prop := j < 51 → b = (refHeader s σ c).getD j 0

/-- The data of every read is what the ring held on the cycle it was due. -/
def ReadsMeet (f : Frame) : Prop :=
  ∀ m < f.fetches.length, let x := f.fetches.getD m Fetch.none
    x.data = unpacked ((σ (adrCycle m + 1)).ring x.ring x.adr)

/-- A frame under way, beside the tap. -/
structure Flying (p : State × Tap) : Prop where
  kept : Kept s p.1
  adm : Admissible p.1
  assembled : Assembled p.1 p.2.frame
  swept : Swept (refAddress s σ) p.1 p.2.frame
  header : BytesMeet (HeaderMeets s σ c) p.2.frame
  reads : ReadsMeet σ p.2.frame
  wire : p.2.wire = p.2.frame.beats.map Beat.inner

end Against

section Against

variable {s x : State} {σ : Nat → State} {c : Csr} {i : Input} {f : Frame}

theorem headerFront_eq (x : State) (i : Input) :
    (header x i).take 43 = headerFront (bound (cur x)) i.csr := rfl

theorem headerFront_congr (a : Ctx) {csr : Csr} (h : SameHeader csr c) :
    headerFront a csr = headerFront a c := by
  obtain ⟨hhi, hlo, htos, httl, hip⟩ := h
  simp only [headerFront, header, hhi, hlo, htos, httl, hip]

/-- The header byte of a cycle. -/
theorem curByte_header (hkept : Kept s x) (hsame : SameHeader i.csr c)
    (hnow : σ (x.byteIdx + 1) = x) : HeaderMeets s σ c x.byteIdx (curByte x i) := by
  intro hj
  have hfront : ((header x i).take 43).length = 43 := rfl
  have hlen : (headerFront (cur s) c).length = 43 := rfl
  by_cases hstamp : x.byteIdx < 43
  · have hbyte : curByte x i = ((header x i).take 43).getD x.byteIdx (byteAt (fTsSub x) 0) := by
      rw [curByte, if_pos hj, Nat.mod_eq_of_lt (by omega)]
      nth_rewrite 1 [header_split]
      exact List.getD_append _ _ _ _ (by omega)
    have hsame' : (header x i).take 43 = headerFront (cur s) c := by
      rw [headerFront_eq, hkept.binding]
      exact headerFront_congr (cur s) hsame
    rw [hbyte, hsame', refHeader, List.getD_append _ _ _ _ (by omega),
      List.getD_eq_getElem _ _ (by omega), List.getD_eq_getElem _ _ (by omega)]
  · have hback : x.byteIdx = 43 + (x.byteIdx - 43) := by omega
    rw [curByte_stamp i (by omega) hj, refHeader, List.getD_append_right _ _ _ _ (by omega), hlen,
      List.getD_eq_getElem ((List.range 8).map _) _ (by simp; omega), List.getElem_map,
      List.getElem_range]
    have hcycle : 44 + (x.byteIdx - 43) = x.byteIdx + 1 := by omega
    rw [hcycle, hnow]

/-- The address on the ring is that of the position, whenever the position addresses. -/
theorem refAddress_now (hkept : Kept s x) (hadm : Admissible x) (hbound : nslots (cfgNow s) ≠ 0)
    (hsweep : Sweeping (refAddress s σ) x f) (hprimed : x.pktPrimed = true)
    (hwhen : x.byteIdx = 0 ∨ x.bph = 1) (hnow : σ (x.byteIdx + 1) = x) :
    (refAddress s σ).now x := by
  have hslot := hsweep.slot hprimed
  have hsamp := hsweep.samp hprimed
  have hle : nslots (cfgNow x) ≤ 8 := hadm x.streamIdx
  rw [hkept.cfg] at hslot hsamp hle
  have hcycle : adrCycle (sweepPos x) = x.byteIdx + 1 := by
    have hbph := hsweep.bph
    rw [adrCycle, sweepPos]
    rcases hwhen with hzero | hone
    · rw [if_pos hzero, if_pos rfl, hzero]
    · rw [hone] at hbph
      split at hbph
      · cases hbph
      · rw [if_neg (by omega : x.byteIdx ≠ 0), if_neg (by omega)]
        omega
  have hlt : x.csSlot < nslots (cfgNow s) := hslot ▸ Nat.mod_lt _ (Nat.pos_of_ne_zero hbound)
  have hent : csEnt x = mapEntry (cur s) (sweepPos x % nslots (cfgNow s)) := by
    rw [← hslot, ← hkept.entry, mapEntry, csEnt, Nat.min_eq_left (by omega)]
  have hcur := hkept.fppNow
  refine ⟨?_, ?_, ?_⟩
  · rw [csCh, hent]
  · rw [rdf, fBase, hcur, csCh, hent, hsamp, hcycle, hnow]
    rfl
  · rw [csVld, hent]

theorem sweeping_of_swept {A : Addressing} (hfsm : x.fsm = .build) (h : Swept A x f) :
    Sweeping A x f := by
  rw [Swept, hfsm] at h
  exact h

/-- A read is taken one cycle after its address, so its data is of that cycle's ring. -/
theorem readsMeet_build (hfsm : x.fsm = .build) (hsweep : Sweeping (refAddress s σ) x f)
    (h : ReadsMeet σ f) (hnow : σ (x.byteIdx + 1) = x) : ReadsMeet σ (Frame.next x i f) := by
  intro m hm
  rw [fetches_build hfsm] at hm ⊢
  by_cases hf : fetch x = true
  · rw [if_pos hf] at hm ⊢
    rw [getD_append_fetch]
    by_cases hlast : m = f.fetches.length
    · obtain ⟨hprimed, hwhen⟩ := (fetch_iff hfsm hsweep).1 hf
      have hcount := hsweep.count
      rw [hprimed] at hcount
      simp only [Bool.true_and, decide_eq_true_iff] at hcount
      have hcycle : adrCycle m = x.byteIdx := by
        rw [adrCycle, hlast, hcount]
        rcases hwhen with hone | hend
        · rw [hone]
          rfl
        · have hpos : sweepPos x = 1 + (x.byteIdx - 51) / 3 := by
            rw [sweepPos, if_neg (by omega)]
          rw [if_pos (by omega : 2 ≤ x.byteIdx), if_neg (by omega), hpos]
          omega
      rw [if_pos hlast, hcycle, hnow]
      rfl
    · rw [if_neg hlast]
      rw [List.length_append, List.length_singleton] at hm
      exact h m (by omega)
  · rw [if_neg hf] at hm ⊢
    exact h m hm

/-- Outside `BUILD` a frame keeps its reads. -/
theorem readsMeet_keep (hbuild : x.fsm ≠ .build) (hrestart : restart x i = false)
    (h : ReadsMeet σ f) : ReadsMeet σ (Frame.next x i f) := by
  have hfetches : (Frame.next x i f).fetches = f.fetches := by
    simp [Frame.next, hrestart, fetch, hbuild]
  rw [ReadsMeet, hfetches]
  exact h

/-- The words taken are those of the log, none of them marked as the last. -/
theorem wire_next {t : Tap} (hserve : serveNow x i = false) (hcheck : x.fsm ≠ .stream → t.wire = [])
    (h : t.wire = t.frame.beats.map Beat.inner) :
    (Tap.next x i t).wire = (Tap.next x i t).frame.beats.map Beat.inner := by
  by_cases hfsm : x.fsm = .stream
  · cases hready : i.sourceReady with
    | false => simp [Tap.next, Frame.next, sourceValid, hfsm, hready, h]
    | true =>
      have hlast : sourceLast x = false := by
        simpa [serveNow, hfsm, hready] using hserve
      have hbeat : beat x = Beat.inner (sourceData x) := by
        simp [beat, Beat.inner, sourceLastBe, hlast]
      simp [Tap.next, Frame.next, sourceValid, hfsm, hready, h, hbeat]
  · simp [Tap.next, Frame.next, sourceValid, hfsm, hcheck hfsm]

/-- One cycle of a frame under way. -/
theorem flying_step {t : Tap} (h : Flying s σ c (x, t)) (hbound : nslots (cfgNow s) ≠ 0)
    (hstill : Still c s.streamIdx i) (hflight : x.fsm = .check ∨ inFlight x = true)
    (hserve : serveNow x i = false) (hcheck : x.fsm ≠ .stream → t.wire = [])
    (hnow : x.fsm = .build → σ (x.byteIdx + 1) = x) : Flying s σ c (tapStep (x, t) i) := by
  obtain ⟨hkept, hadm, hasm, hswept, hheader, hreads, hwire⟩ := h
  have hidle : x.fsm ≠ .idle := fun hfsm => by simp [inFlight, hfsm] at hflight
  have hskip : x.fsm ≠ .skip := fun hfsm => by simp [inFlight, hfsm] at hflight
  have hadvance : advance x i = false := by simp [advance, hserve, hskip]
  have hrestart : restart x i = false := by simp [restart, walkStart_of_ne hidle, hadvance]
  have hsafe : FrameSafe x i := frameSafe_of_still hkept hstill
  have hcfg : nslots (cfgNow x) ≠ 0 := hkept.cfg.symm ▸ hbound
  refine ⟨hkept.next hstill hidle hadvance, admissible_step hadm hsafe,
    assembled_step hasm hadm hsafe, ?_, ?_, ?_, wire_next hserve hcheck hwire⟩
  · refine swept_step hswept hasm hadm hsafe (fun _ => hcfg) fun hfsm hprimed _ _ hwhen => ?_
    have hsweep : Sweeping (refAddress s σ) x t.frame := sweeping_of_swept hfsm hswept
    exact refAddress_now hkept hadm hbound hsweep hprimed hwhen (hnow hfsm)
  · refine bytesMeet_next hheader fun hfsm => ?_
    rw [length_of_building hasm hfsm]
    exact curByte_header hkept hstill.2.2 (hnow hfsm)
  · by_cases hfsm : x.fsm = .build
    · exact readsMeet_build hfsm (sweeping_of_swept hfsm hswept) hreads (hnow hfsm)
    · exact readsMeet_keep hfsm hrestart hreads

end Against

/-! ## The cycles of a frame -/

/-- The builder's state `t` cycles after a frame of `n` bytes began. -/
def phaseAt (n t : Nat) : Fsm :=
  if t = 0 then .check else if t ≤ n then .build else if t = n + 1 then .prefetch else .stream

theorem phaseAt_build {n t : Nat} (h : 0 < t) (ht : t ≤ n) : phaseAt n t = .build := by
  rw [phaseAt, if_neg (by omega), if_pos ht]

theorem phaseAt_prefetch (n : Nat) : phaseAt n (n + 1) = .prefetch := by
  rw [phaseAt, if_neg (by omega), if_neg (by omega), if_pos rfl]

theorem phaseAt_stream {n t : Nat} (h : n + 1 < t) : phaseAt n t = .stream := by
  rw [phaseAt, if_neg (by omega), if_neg (by omega), if_neg (by omega)]

/-- A frame under way at cycle `t`, up to its first word. -/
structure OnTime (s : State) (σ : Nat → State) (c : Csr) (t : Nat) (p : State × Tap) : Prop where
  flying : Flying s σ c p
  fsm : p.1.fsm = phaseAt (fTotal (cfgNow s)) t
  byteIdx : p.1.fsm = .build → p.1.byteIdx + 1 = t
  first : p.1.fsm = .prefetch ∨ p.1.fsm = .stream → p.1.rdIdx = 0
  due : p.1.fsm = .check → (cur p.1).pend = true
  wire : p.2.wire = []

/-- A frame begins: the builder looks at a context that is bound and has a packet due. -/
structure Begins (s : State) : Prop where
  fsm : s.fsm = .check
  pend : (cur s).pend = true
  slots : nslots (cfgNow s) ≠ 0
  adm : Admissible s

/-- The walk comes to every context with its counters at zero. -/
def Rewound (s : State) : Prop :=
  s.fsm = .check → s.byteIdx = 0 ∧ s.bph = 0 ∧ s.csSlot = 0 ∧ s.csSamp = 0

theorem rewound_step (s : State) (i : Input) : Rewound (step s i) := by
  intro hcheck
  -- no other state leads to `CHECK`
  have hleave : s.fsm = .idle ∨ s.fsm = .skip ∨ serveNow s i = true := by
    rw [step_fsm] at hcheck
    cases hfsm : s.fsm with
    | idle => exact .inl rfl
    | skip => exact .inr (.inl rfl)
    | check => rw [nextFsm_check hfsm] at hcheck; split at hcheck <;> cases hcheck
    | build => rw [nextFsm_build hfsm] at hcheck; split at hcheck <;> cases hcheck
    | prefetch => simp [nextFsm, hfsm] at hcheck
    | stream =>
      cases hserve : serveNow s i with
      | false => simp [nextFsm_stream hfsm, hserve] at hcheck
      | true => exact .inr (.inr rfl)
  rcases leaves_frame hleave with hidle | ⟨-, hrestart⟩
  · rw [hidle] at hcheck
    cases hcheck
  · simp [nextByteIdx, nextBph, nextCsSlot, nextCsSamp, hrestart]

/-- In every run from reset. -/
theorem rewound_run (is : List Input) : Rewound (run step State.reset is) :=
  run_invariant step (P := Rewound) (fun s i _ => rewound_step s i) is
    (fun h => by cases h)

section OnTime

variable {s : State} {σ : Nat → State} {c : Csr} {i : Input} {t : Nat} {p : State × Tap}

theorem onTime_zero (h : Begins s) (hrewound : Rewound s) : OnTime s σ c 0 (s, Tap.empty) := by
  obtain ⟨hbyte, hbph, hslot, hsamp⟩ := hrewound h.fsm
  refine ⟨⟨Kept.refl s, h.adm, ?_, ?_, bytesMeet_nil rfl, fun m hm => absurd hm (Nat.not_lt_zero m),
    rfl⟩, h.fsm, fun hb => ?_, fun hb => ?_, fun _ => h.pend, rfl⟩
  · simp only [Assembled, h.fsm]
    exact ⟨hbyte, rfl⟩
  · simp only [Swept, h.fsm]
    exact ⟨hbph, hslot, hsamp, rfl⟩
  · rw [h.fsm] at hb
    cases hb
  · rw [h.fsm] at hb
    rcases hb with hb | hb <;> cases hb

/-- Which part of the frame cycle `t` belongs to. -/
theorem phase_cases (h : OnTime s σ c t p) (ht : t < fTotal (cfgNow s) + 2) :
    t = 0 ∧ p.1.fsm = .check ∨
      (0 < t ∧ t ≤ fTotal (cfgNow s)) ∧ p.1.fsm = .build ∧ p.1.byteIdx + 1 = t ∨
        t = fTotal (cfgNow s) + 1 ∧ p.1.fsm = .prefetch := by
  have hfsm := h.fsm
  rcases (by omega : t = 0 ∨ 0 < t ∧ t ≤ fTotal (cfgNow s) ∨ t = fTotal (cfgNow s) + 1)
    with hzero | ⟨hpos, hle⟩ | hend
  · rw [hzero] at hfsm
    exact .inl ⟨hzero, hfsm⟩
  · rw [phaseAt_build hpos hle] at hfsm
    exact .inr (.inl ⟨⟨hpos, hle⟩, hfsm, h.byteIdx hfsm⟩)
  · rw [hend, phaseAt_prefetch] at hfsm
    exact .inr (.inr ⟨hend, hfsm⟩)

/-- `BUILD` ends with the last byte of the frame. -/
theorem isLast_onTime (h : OnTime s σ c t p) (hfsm : p.1.fsm = .build) :
    isLast p.1 = decide (t = fTotal (cfgNow s)) := by
  rw [isLast_eq (h.flying.adm p.1.streamIdx), h.flying.kept.cfg, h.byteIdx hfsm]

/-- Where the builder goes from cycle `t` of a frame. -/
theorem phase_step (h : OnTime s σ c t p) (hbound : nslots (cfgNow s) ≠ 0)
    (ht : t < fTotal (cfgNow s) + 2) : (step p.1 i).fsm = phaseAt (fTotal (cfgNow s)) (t + 1) := by
  have hcfg := h.flying.kept.cfg
  have htotal := fTotal_samples h.flying.adm
  rw [hcfg] at htotal
  rw [step_fsm]
  rcases phase_cases h ht with ⟨hzero, hfsm⟩ | ⟨⟨hpos, hle⟩, hfsm, -⟩ | ⟨hend, hfsm⟩
  · have hoff : flowOff p.1 = false := by
      rw [flowOff, hcfg]
      exact beq_false_of_ne hbound
    rw [phaseAt_build (by omega) (by omega)]
    simp [nextFsm, hfsm, hoff, h.due hfsm]
  · rw [nextFsm_build hfsm, isLast_onTime h hfsm]
    by_cases hend : t = fTotal (cfgNow s)
    · rw [decide_eq_true hend, hend, phaseAt_prefetch]
      rfl
    · rw [decide_eq_false hend, phaseAt_build (by omega) (by omega)]
      rfl
  · rw [phaseAt_stream (by omega)]
    simp [nextFsm, hfsm]

/-- One cycle of the frame, up to its first word. -/
theorem onTime_step (h : OnTime s σ c t p) (hbound : nslots (cfgNow s) ≠ 0)
    (hstill : Still c s.streamIdx i) (ht : t < fTotal (cfgNow s) + 2) (hnow : σ t = p.1) :
    OnTime s σ c (t + 1) (tapStep p i) := by
  have hphase := phase_cases h ht
  have hno : p.1.fsm ≠ .stream := by
    rcases hphase with ⟨-, hfsm⟩ | ⟨-, hfsm, -⟩ | ⟨-, hfsm⟩ <;> simp [hfsm]
  have hflight : p.1.fsm = .check ∨ inFlight p.1 = true := by
    rcases hphase with ⟨-, hfsm⟩ | ⟨-, hfsm, -⟩ | ⟨-, hfsm⟩ <;> simp [inFlight, hfsm]
  have hserve : serveNow p.1 i = false := serveNow_of_ne hno
  have hflying : Flying s σ c (tapStep p i) :=
    flying_step h.flying hbound hstill hflight hserve (fun _ => h.wire)
      fun hfsm => (h.byteIdx hfsm).symm ▸ hnow
  have hnext : (step p.1 i).fsm = phaseAt (fTotal (cfgNow s)) (t + 1) := phase_step h hbound ht
  have hsmall := fTotal_le (h.flying.adm p.1.streamIdx)
  have hcfg : fTotal (p.1.ctx p.1.streamIdx).cfg = fTotal (cfgNow s) := by
    rw [← h.flying.kept.cfg]
    rfl
  have hasm := h.flying.assembled
  have hwire : (Tap.next p.1 i p.2).wire = [] := by
    simp [Tap.next, sourceValid, hno, h.wire]
  refine ⟨hflying, hnext, fun hbuild => ?_, fun hfirst => ?_, fun hcheck => ?_, hwire⟩
  · rcases hphase with ⟨hzero, hfsm⟩ | ⟨⟨hpos, hle⟩, hfsm, hbyte⟩ | ⟨hend, hfsm⟩
    · -- the first byte is byte 0
      rw [Assembled, hfsm] at hasm
      have hrestart : restart p.1 i = false :=
        restart_of_ne (by simp [hfsm]) (by simp [hfsm]) (by simp [hfsm])
      have hbyte : (step p.1 i).byteIdx = 0 := by simp [nextByteIdx, hrestart, hfsm, hasm.1]
      show (step p.1 i).byteIdx + 1 = t + 1
      rw [hbyte, hzero]
    · have hlast : isLast p.1 = false := by
        cases hlast : isLast p.1 with
        | false => rfl
        | true =>
          have hgo : (step p.1 i).fsm = .prefetch := by simp [nextFsm_build hfsm, hlast]
          exact absurd (hgo.symm.trans hbuild) (by decide)
      show (step p.1 i).byteIdx + 1 = t + 1
      rw [byteIdx_build hfsm hlast (by omega), hbyte]
    · have hgo : (step p.1 i).fsm = .stream := by simp [nextFsm, hfsm]
      exact absurd (hgo.symm.trans hbuild) (by decide)
  · show nextRdIdx p.1 i = 0
    rcases hphase with ⟨hzero, hfsm⟩ | ⟨-, hfsm, hbyte⟩ | ⟨hend, hfsm⟩
    · have htotal := fTotal_samples h.flying.adm
      rw [h.flying.kept.cfg] at htotal
      have hgo : (step p.1 i).fsm = .build := hnext.trans (phaseAt_build (by omega) (by omega))
      rcases hfirst with hf | hf <;> exact absurd (hgo.symm.trans hf) (by decide)
    · have hlast : isLast p.1 = true := by
        cases hlast : isLast p.1 with
        | true => rfl
        | false =>
          have hgo : (step p.1 i).fsm = .build := by simp [nextFsm_build hfsm, hlast]
          rcases hfirst with hf | hf <;> exact absurd (hgo.symm.trans hf) (by decide)
      simp [nextRdIdx, hfsm, hlast]
    · simp [nextRdIdx, hfsm, h.first (.inl hfsm)]
  · have hgo : (step p.1 i).fsm = phaseAt (fTotal (cfgNow s)) (t + 1) := hnext
    rw [phaseAt, if_neg (Nat.succ_ne_zero t)] at hgo
    have hcheck' : (step p.1 i).fsm = .check := hcheck
    rw [hcheck'] at hgo
    split at hgo
    · cases hgo
    · split at hgo <;> cases hgo

/-- Up to its first word a frame is on time, whatever the MAC's ready signal does. -/
theorem onTime_moment {is : List Input} (h : Begins s) (hrewound : Rewound s)
    (hstill : ∀ i ∈ is, Still c s.streamIdx i) (hlen : is.length = fTotal (cfgNow s) + 2) :
    ∀ t ≤ is.length,
      OnTime s (moment step s is) c t (moment tapStep (s, Tap.empty) is t) := by
  have hguard : Along tapStep (fun _ i => Still c s.streamIdx i) (s, Tap.empty) is :=
    Along.of_inputs hstill
  exact hguard.timed (P := OnTime s (moment step s is) c) le_rfl (onTime_zero h hrewound)
    fun t i ht hstill hon => onTime_step hon h.slots hstill (hlen ▸ ht)
      (moment_watch_fst step Tap.next is (s, Tap.empty) t).symm

theorem onTime_run {is : List Input} (h : Begins s) (hrewound : Rewound s)
    (hstill : ∀ i ∈ is, Still c s.streamIdx i) (hlen : is.length = fTotal (cfgNow s) + 2) :
    OnTime s (moment step s is) c is.length (run tapStep (s, Tap.empty) is) := by
  have hend := onTime_moment h hrewound hstill hlen is.length le_rfl
  rw [moment_length] at hend
  exact hend

/-- Over all of it the frame keeps its shape. -/
theorem cfg_moment {is : List Input} (h : Begins s) (hrewound : Rewound s)
    (hstill : ∀ i ∈ is, Still c s.streamIdx i) (hlen : is.length = fTotal (cfgNow s) + 2) {t : Nat}
    (ht : t ≤ is.length) : cfgNow (moment step s is t) = cfgNow s := by
  have hkept := (onTime_moment h hrewound hstill hlen t ht).flying.kept
  have hfst : (moment tapStep (s, Tap.empty) is t).1 = moment step s is t :=
    moment_watch_fst step Tap.next is (s, Tap.empty) t
  rw [hfst] at hkept
  exact hkept.cfg

/-! ### The words of the frame -/

/-- A cycle on which the MAC takes a word that is not the last, or none. -/
theorem streaming_step (h : Flying s σ c p) (hfsm : p.1.fsm = .stream)
    (hbound : nslots (cfgNow s) ≠ 0) (hstill : Still c s.streamIdx i)
    (hroom : i.sourceReady = true → p.1.rdIdx < fLastIdx (cfgNow s)) :
    Flying s σ c (tapStep p i) ∧ (step p.1 i).fsm = .stream ∧
      (step p.1 i).rdIdx = if i.sourceReady then p.1.rdIdx + 1 else p.1.rdIdx := by
  have hsmall : fLastIdx (cfgNow s) < 512 := Nat.mod_lt _ (by decide)
  have hlast : i.sourceReady = true → sourceLast p.1 = false := fun hready => by
    have hne := (hroom hready).ne
    rw [← h.kept.cfg] at hne
    exact beq_false_of_ne hne
  have hserve : serveNow p.1 i = false := by
    cases hready : i.sourceReady with
    | false => simp [serveNow, hready]
    | true => simp [serveNow, hlast hready]
  refine ⟨flying_step h hbound hstill (.inr (by simp [inFlight, hfsm])) hserve
    (fun hno => absurd hfsm hno) (fun hbuild => ?_), ?_, ?_⟩
  · rw [hfsm] at hbuild
    cases hbuild
  · rw [step_fsm, nextFsm_stream hfsm, hserve]
    rfl
  · rw [step_rdIdx, nextRdIdx, hfsm]
    cases hready : i.sourceReady with
    | false => rfl
    | true =>
      have hwrap : (p.1.rdIdx + 1) % 512 = p.1.rdIdx + 1 := by
        have hlt := hroom hready
        exact Nat.mod_eq_of_lt (by omega)
      simp [hlast hready, hwrap]

/-- The words go out one for every cycle on which the MAC is ready. -/
theorem streaming_run (hbound : nslots (cfgNow s) ≠ 0) :
    ∀ {is : List Input} {p : State × Tap}, Flying s σ c p → p.1.fsm = .stream →
      (∀ i ∈ is, Still c s.streamIdx i) →
      p.1.rdIdx + is.countP (·.sourceReady) ≤ fLastIdx (cfgNow s) →
      Flying s σ c (run tapStep p is) ∧ (run tapStep p is).1.fsm = .stream ∧
        (run tapStep p is).1.rdIdx = p.1.rdIdx + is.countP (·.sourceReady)
  | [], _, h, hfsm, _, _ => ⟨h, hfsm, rfl⟩
  | i :: is, p, h, hfsm, hstill, hroom => by
      have hcount : (i :: is).countP (·.sourceReady) =
          is.countP (·.sourceReady) + if i.sourceReady then 1 else 0 := List.countP_cons
      rw [hcount] at hroom ⊢
      have hready : i.sourceReady = true → p.1.rdIdx < fLastIdx (cfgNow s) := fun hr => by
        rw [if_pos hr] at hroom
        omega
      obtain ⟨hnext, hstream, hrd⟩ :=
        streaming_step h hfsm hbound (hstill i (List.mem_cons_self)) hready
      have hrd' : (tapStep p i).1.rdIdx = if i.sourceReady then p.1.rdIdx + 1 else p.1.rdIdx := hrd
      have hsplit : (tapStep p i).1.rdIdx =
          p.1.rdIdx + if i.sourceReady then 1 else 0 := by
        rw [hrd']
        split <;> rfl
      obtain ⟨hend, hfsm', hrd''⟩ := streaming_run hbound hnext hstream
        (fun j hj => hstill j (List.mem_cons_of_mem i hj)) (by omega)
      refine ⟨hend, hfsm', ?_⟩
      rw [run_cons, hrd'', hsplit]
      omega

/-- The samples taken are those of the reference. -/
theorem sampleAt_ref (h : Flying s σ c p) (hfsm : p.1.fsm = .stream) {m : Nat}
    (hm : m < packetSamples (cfgNow s)) : p.2.frame.sampleAt m = refSample s σ m := by
  have hsweep : Sweep (refAddress s σ) p.1 p.2.frame := by
    have hswept := h.swept
    rw [Swept, hfsm] at hswept
    exact hswept
  have hcount := hsweep.count
  rw [h.kept.primed, h.kept.cfg] at hcount
  rw [Frame.sampleAt, refSample]
  cases hprimed : s.pktPrimed with
  | false =>
    rw [hprimed] at hcount
    rw [List.length_eq_zero_iff.1 hcount]
    rfl
  | true =>
    rw [hprimed, if_pos rfl] at hcount
    obtain ⟨hring, hadr, hvalid⟩ := hsweep.fetched m (by omega)
    have hdata := h.reads m (by omega)
    rw [Fetch.sample, hdata, hring, hadr, hvalid]
    rfl

/-- What was built is the reference, byte by byte. -/
theorem bytes_ref (h : Flying s σ c p) (hfsm : p.1.fsm = .stream) :
    p.2.frame.bytes = refFrame s σ c := by
  have hsweep : Sweep (refAddress s σ) p.1 p.2.frame := by
    have hswept := h.swept
    rw [Swept, hfsm] at hswept
    exact hswept
  have hbuilt : Built p.1 p.2.frame := by
    have hasm := h.assembled
    rw [Assembled, hfsm] at hasm
    exact hasm.1
  have htotal := fTotal_samples h.adm
  have hlen := hbuilt.length
  rw [htotal, h.kept.cfg] at hlen
  have hfront : (List.range 51).map (fun j => p.2.frame.bytes.getD j 0) = refHeader s σ c := by
    rw [← map_getD_range (refHeader s σ c) 0, length_refHeader]
    refine List.map_congr_left fun j hj => ?_
    have hlt : j < 51 := List.mem_range.1 hj
    exact h.header j (by omega) hlt
  rw [← map_getD_range p.2.frame.bytes 0, hlen, List.range_add, List.map_append, hfront, refFrame,
    refPayload_eq, List.map_map]
  refine congrArg _ (List.map_congr_left fun j hj => ?_)
  have hlt : j < 3 * packetSamples (cfgNow s) := List.mem_range.1 hj
  rw [← sampleAt_ref h hfsm (by omega)]
  refine hsweep.filled j ?_
  rw [htotal, h.kept.cfg]
  omega

/-- The words that carry `bytes`: whole words, then one with the first and the last byte left. -/
def sentWords (bytes : List Byte) (last : Nat) : List Beat :=
  (List.range last).map (fun k => Beat.inner (Frame.word bytes k)) ++
    [{ data := 0#16 ++ bytes.getD (bytes.length - 1) 0 ++ bytes.getD (4 * last) 0
       last := true, lastBe := 0b0100 }]

/-- The last word is accepted. -/
theorem wire_served (h : Flying s σ c p) (hfsm : p.1.fsm = .stream)
    (hend : p.1.rdIdx = fLastIdx (cfgNow s)) (hready : i.sourceReady = true) :
    (tapStep p i).2.wire = sentWords (refFrame s σ c) (fLastIdx (cfgNow s)) := by
  have hasm := h.assembled
  rw [Assembled, hfsm] at hasm
  obtain ⟨hbuilt, hsending⟩ := hasm
  have hlast : sourceLast p.1 = true := by
    rw [← h.kept.cfg] at hend
    exact beq_iff_eq.2 hend
  have hbeat : beat p.1 = { data := p.1.frameMem (fLastIdx (cfgNow s)), last := true
                            lastBe := 0b0100 } := by
    rw [beat, sourceData, sourceLastBe, hlast, hsending.adr, hend]
    rfl
  have hwire : (tapStep p i).2.wire = p.2.wire ++ [beat p.1] := by
    show (Tap.next p.1 i p.2).wire = _
    simp [Tap.next, sourceValid, hfsm, hready]
  have hwords := hbuilt.words
  have hfinal := hbuilt.last
  rw [← hbuilt.length] at hfinal
  rw [h.kept.cfg, bytes_ref h hfsm] at hwords hfinal
  rw [hwire, hbeat, hfinal, h.wire, hsending.beats, hend, sentWords, List.map_map]
  refine congrArg (· ++ _) (List.map_congr_left fun k hk => ?_)
  rw [← hwords k (List.mem_range.1 hk)]
  rfl

end OnTime

/-! ## Steady emit latches -/

/-- On a cycle without a due strobe the emit latches hold. -/
theorem latches_step {s : State} {i : Input} (hdue : dueStrobe s i = false)
    (hcfg : cfgNow (step s i) = cfgNow s) :
    headerStamp (step s i) = headerStamp s ∧ (step s i).rdSnap = s.rdSnap := by
  have hsec : (step s i).tsSecEmit = s.tsSecEmit := if_neg (by simp [hdue])
  have hsub : (step s i).tsSubEmit = s.tsSubEmit := if_neg (by simp [hdue])
  have hsnap : (step s i).rdSnap = s.rdSnap := if_neg (by simp [hdue])
  have hfpp : curFpp (step s i) = curFpp s := congrArg fpp hcfg
  have hborrow : borrow (step s i) = borrow s := by
    rw [borrow, borrow, hsub, hfpp]
  refine ⟨?_, hsnap⟩
  rw [headerStamp, headerStamp, fTsSec, fTsSub, fTsSec, fTsSub, hborrow, hsec, hsub, hfpp]

/-- A header whose timestamp stands still is the header of the state the frame began in. -/
theorem refHeader_steady {s : State} {σ : Nat → State} {c : Csr}
    (h : ∀ j < 8, headerStamp (σ (44 + j)) = headerStamp s) :
    refHeader s σ c = header s { Input.quiet with csr := c } := by
  have hstamp : (List.range 8).map (fun j => (headerStamp (σ (44 + j))).bytes.getD j 0) =
      (headerStamp s).bytes := by
    calc (List.range 8).map (fun j => (headerStamp (σ (44 + j))).bytes.getD j 0)
        = (List.range 8).map fun j => (headerStamp s).bytes.getD j 0 :=
          List.map_congr_left fun j hj => by rw [h j (List.mem_range.1 hj)]
      _ = (headerStamp s).bytes := map_getD_range (headerStamp s).bytes 0
  rw [refHeader, hstamp, header_split]
  rfl

/-! ## A whole frame -/

/-- The inputs of a frame: `build` up to its first word, then cycles of which as many as it has
words find the MAC ready, the last of them at the end. -/
structure Stretch (s : State) (c : Csr) (build stall : List Input) (i : Input) : Prop where
  still : ∀ j ∈ build ++ stall, Still c s.streamIdx j
  built : build.length = fTotal (cfgNow s) + 2
  ready : stall.countP (·.sourceReady) = fLastIdx (cfgNow s)
  done : i.sourceReady = true

section Whole

variable {s : State} {c : Csr} {build stall : List Input} {i : Input}

/-- Without a due strobe while it is built, a frame has one timestamp and one window. -/
theorem steady_frame (h : Begins s) (hrewound : Rewound s) (hs : Stretch s c build stall i)
    (hdue : ∀ t < fTotal (cfgNow s), ∀ j, build[t]? = some j →
      dueStrobe (moment step s build t) j = false) :
    refHeader s (moment step s build) c = header s { Input.quiet with csr := c } ∧
      ∀ t ≤ fTotal (cfgNow s), (moment step s build t).rdSnap = s.rdSnap := by
  have hstill := hs.still
  rw [List.forall_mem_append] at hstill
  have hhold : ∀ t ≤ fTotal (cfgNow s),
      headerStamp (moment step s build t) = headerStamp s ∧
        (moment step s build t).rdSnap = s.rdSnap := by
    intro t ht
    induction t with
    | zero => exact ⟨rfl, rfl⟩
    | succ t ih =>
      have hlen := hs.built
      have hj : build[t]? = some (build.get ⟨t, by omega⟩) := List.getElem?_eq_getElem (by omega)
      have hcfg : ∀ k ≤ fTotal (cfgNow s), cfgNow (moment step s build k) = cfgNow s :=
        fun k hk => cfg_moment h hrewound hstill.1 hs.built (by omega)
      have hgo : moment step s build (t + 1) = step (moment step s build t) _ := moment_succ hj
      have hnow := ih (by omega)
      have hnext := latches_step (hdue t ht _ hj) (by rw [← hgo, hcfg _ ht, hcfg _ (by omega)])
      rw [hgo]
      exact ⟨hnext.1.trans hnow.1, hnext.2.trans hnow.2⟩
  have htotal := fTotal_samples h.adm
  exact ⟨refHeader_steady fun j hj => (hhold _ (by omega)).1, fun t ht => (hhold t ht).2⟩

/-- The words the MAC takes over a frame, whatever the pattern of its ready signal. -/
theorem wire_frame (h : Begins s) (hrewound : Rewound s) (hs : Stretch s c build stall i) :
    (run tapStep (s, Tap.empty) (build ++ stall ++ [i])).2.wire =
      sentWords (refFrame s (moment step s build) c) (fLastIdx (cfgNow s)) := by
  have hstill := hs.still
  rw [List.forall_mem_append] at hstill
  have hon := onTime_run h hrewound hstill.1 hs.built
  have hstream : (run tapStep (s, Tap.empty) build).1.fsm = .stream := by
    rw [hon.fsm, hs.built, phaseAt_stream (by omega)]
  have hfirst := hon.first (.inr hstream)
  obtain ⟨hflying, hfsm, hrd⟩ := streaming_run h.slots hon.flying hstream hstill.2
    (by rw [hfirst, hs.ready, Nat.zero_add])
  rw [hfirst, hs.ready, Nat.zero_add] at hrd
  rw [run_append, run_append, run_cons, run_nil]
  exact wire_served hflying hfsm hrd hs.done

/-- The frame is one frame of the stream to the MAC. -/
theorem cut_sentWords (bytes : List Byte) (last : Nat) :
    cut Beat.last (sentWords bytes last) = [sentWords bytes last] := by
  refine cut_one _ (fun b hb => ?_) rfl
  obtain ⟨k, -, rfl⟩ := List.mem_map.1 hb
  rfl

/-- The two lanes of the last word that carry something. -/
theorem byteAt_final (b₁ b₀ : Byte) :
    byteAt (0#16 ++ b₁ ++ b₀) 0 = b₀ ∧ byteAt (0#16 ++ b₁ ++ b₀) 1 = b₁ := by
  constructor <;> ext k hk <;> simp [byteAt] <;> grind

theorem bytes_inner (bytes : List Byte) (k : Nat) :
    (Beat.inner (Frame.word bytes k)).bytes = (List.range 4).map fun j => bytes.getD (4 * k + j) 0 := by
  refine List.map_congr_left fun j hj => ?_
  exact byteAt_word bytes k (List.mem_range.1 hj)

/-- The bytes of the words sent: all but the last two as they should be. -/
theorem frameBytes_sentWords (bytes : List Byte) (last : Nat) :
    frameBytes (sentWords bytes last) =
      (List.range (4 * last)).map (fun j => bytes.getD j 0) ++
        [bytes.getD (4 * last) 0, bytes.getD (bytes.length - 1) 0, 0] := by
  have hwords : ((List.range last).map fun k => Beat.inner (Frame.word bytes k)).flatMap Beat.bytes =
      (List.range (4 * last)).map fun j => bytes.getD j 0 := by
    rw [List.flatMap_map]
    simp only [bytes_inner]
    rw [flatMap_chunks (w := 4) (fun m j => bytes.getD (4 * m + j) 0) (by decide)]
    refine List.map_congr_left fun j _ => ?_
    rw [Nat.div_add_mod]
  have hfinal : ∀ b₁ b₀ : Byte,
      (Beat.mk (0#16 ++ b₁ ++ b₀) true 0b0100).bytes = [b₀, b₁, 0] := by
    intro b₁ b₀
    have h₀ : byteAt (0#16 ++ b₁ ++ b₀ : Word) 0 = b₀ := (byteAt_final b₁ b₀).1
    have h₁ : byteAt (0#16 ++ b₁ ++ b₀ : Word) 1 = b₁ := (byteAt_final b₁ b₀).2
    have h₂ : byteAt (0#16 ++ b₁ ++ b₀ : Word) 2 = 0 := byteAt_last b₁ b₀ le_rfl
    have hlanes : lanes 0b0100 = 3 := by decide
    rw [Beat.bytes, if_pos rfl, hlanes]
    exact congr (congrArg List.cons h₀) (congr (congrArg List.cons h₁)
      (congrArg (fun b => [b]) h₂))
  rw [frameBytes, sentWords, List.flatMap_append, hwords, List.flatMap_singleton, hfinal]

/-- A frame of three bytes in its last word arrives whole iff its last two bytes are zero: the
last word is written with the last byte in the place of the one before it, and zero behind. -/
theorem frameBytes_eq_iff {bytes : List Byte} {last : Nat} (hlen : bytes.length = 4 * last + 3) :
    frameBytes (sentWords bytes last) = bytes ↔
      bytes.getD (4 * last + 1) 0 = 0 ∧ bytes.getD (4 * last + 2) 0 = 0 := by
  have hsplit : bytes = (List.range (4 * last)).map (fun j => bytes.getD j 0) ++
      [bytes.getD (4 * last) 0, bytes.getD (4 * last + 1) 0, bytes.getD (4 * last + 2) 0] := by
    calc bytes
        = (List.range (4 * last + 3)).map fun j => bytes.getD j 0 := by
          rw [← hlen, map_getD_range]
      _ = _ := by
          rw [List.range_add, List.map_append]
          rfl
  have hback : bytes.length - 1 = 4 * last + 2 := by omega
  rw [frameBytes_sentWords, hback]
  constructor
  · intro h
    have htail := List.append_cancel_left (h.trans hsplit)
    simp only [List.cons.injEq, and_true, true_and] at htail
    exact ⟨htail.1.symm.trans htail.2.symm, htail.2.symm⟩
  · rintro ⟨hmid, hlow⟩
    rw [hlow]
    rw [hmid, hlow] at hsplit
    exact hsplit.symm

end Whole

end Packetizer
end InfernoFpga
