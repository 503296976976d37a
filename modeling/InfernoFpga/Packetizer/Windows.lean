import InfernoFpga.Packetizer.Emission
import InfernoFpga.Packetizer.Pacing

/-!
# Windows — what the packets of many flows carry

Every context that completes a group does so in the one set of emit latches: timestamp and read
pointer of the strobe.  The builder comes to the context later, behind the packets of others.  A
`Dispatch` follows each context from the strobe that makes it due to the last word of its packet;
the packet covers the window of that strobe as long as no other strobe takes the latches before
the packet has drawn its header and its addresses from them.
-/

namespace InfernoFpga
namespace Packetizer

open Lib

/-! ## Windows and packets -/

/-- The samples a packet is to carry: the number of the first one, and the read pointer at the
strobe of the last. -/
structure Window where
  first : Int
  snap : Word
  deriving DecidableEq

/-- A packet as its last word is accepted, with the window it was made due for. -/
structure Packet where
  binding : Ctx
  window : Option Window
  words : List Word
  frame : Frame
  /-- The walk began with the ring primed. -/
  audio : Bool

/-- Where sample `m` of a packet lies in the ring: samples in turn, slots fastest. -/
def slotAddress (c : Ctx) (w : Window) : Addressing := fun m ring adr valid =>
  let e := mapEntry c (m % nslots c.cfg)
  ring = min (e.toNat % 64 / 8) 5 ∧
    adr = windowAdr w.snap (fpp c.cfg) (m / nslots c.cfg) (e.toNat % 64) ∧ valid = e.getLsbD 7

/-- The packet has the timestamp of the window's first sample, all its reads are of the window,
and its payload is what was read, up to the last word. -/
structure Packet.Covers (x : Packet) (w : Window) : Prop where
  stamp : wireStamp x.words = stamp w.first
  reads : x.audio = true → ∀ m < packetSamples x.binding.cfg,
    let r := x.frame.fetches.getD m Fetch.none
    m < x.frame.fetches.length ∧ slotAddress x.binding w m r.ring r.adr r.valid
  payload : ∀ j, 51 + j < 4 * fLastIdx x.binding.cfg →
    Frame.wireByte x.words (51 + j) = byteAt (x.frame.sampleAt (j / 3)) (3 - j % 3)

/-! ## The observer -/

/-- This strobe makes the context due: nothing of it is pending, or its packet ends here. -/
def makesDue (s : State) (i : Input) (k : CtxId) : Bool :=
  dueEvent s i k && (!(s.ctx k).pend || served s i k)

/-- The frame in progress, the number of the next sample, the window that every context was last
made due for, and the packets sent. -/
structure Dispatch where
  frame : Frame
  sample : Int
  made : CtxId → Option Window
  sent : List Packet

namespace Dispatch

def start (f : Frame) (t : Int) : Dispatch :=
  { frame := f, sample := t, made := fun _ => none, sent := [] }

/-- The window of the group that context `k` completes with sample `t`. -/
def window (s : State) (t : Int) (k : CtxId) : Window :=
  { first := t - (fpp (s.ctx k).cfg - 1), snap := s.rd }

def packet (s : State) (d : Dispatch) : Packet :=
  { binding := cur s, window := d.made s.streamIdx, words := Frame.packet s d.frame
    frame := d.frame, audio := s.pktPrimed }

def next (s : State) (i : Input) (d : Dispatch) : Dispatch :=
  { frame := Frame.next s i d.frame
    sample := if strobe i then d.sample + 1 else d.sample
    made := fun k => if makesDue s i k then some (window s d.sample k) else d.made k
    sent := if serveNow s i then d.sent ++ [packet s d] else d.sent }

end Dispatch

/-- The packetizer with the log of its packets. -/
def dispatchStep : State × Dispatch → Input → State × Dispatch := watch step Dispatch.next

/-! ## When the latches may move -/

/-- The packet of context `k` is under way, at most `left` bytes from its end. -/
def Drawn (left : Nat) (s : State) (k : CtxId) : Prop :=
  s.streamIdx = k ∧
    (s.fsm = .build ∧ fTotal (cfgNow s) ≤ s.byteIdx + left ∨ s.fsm = .prefetch ∨ s.fsm = .stream)

instance (left : Nat) (s : State) (k : CtxId) : Decidable (Drawn left s k) :=
  inferInstanceAs (Decidable (_ ∧ _))

/-- A strobe that takes the emit latches finds every pending packet with its header built and its
last address on the ring. -/
def LatchSafe (s : State) (i : Input) : Prop :=
  dueStrobe s i = true → ∀ k, (s.ctx k).pend = true → Drawn 5 s k

instance (s : State) (i : Input) : Decidable (LatchSafe s i) :=
  inferInstanceAs (Decidable (_ → _))

section Drawn

variable {s : State} {i : Input} {f : Frame} {k : CtxId} {left : Nat}

theorem Drawn.mono {left' : Nat} (h : Drawn left s k) (hle : left ≤ left') : Drawn left' s k := by
  refine ⟨h.1, ?_⟩
  rcases h.2 with ⟨hfsm, htotal⟩ | hfsm
  · exact .inl ⟨hfsm, by omega⟩
  · exact .inr hfsm

/-- Every cycle but the last brings a packet under way one byte closer to its end. -/
theorem drawn_step (hadm : Admissible s) (hasm : Assembled s f) (hsafe : FrameSafe s i)
    (hserve : serveNow s i = false) (h : Drawn (left + 1) s k) : Drawn left (step s i) k := by
  obtain ⟨hidx, hwhen⟩ := h
  rcases hwhen with ⟨hfsm, htotal⟩ | hfsm | hfsm
  · have hstay : (step s i).streamIdx = s.streamIdx := nextStreamIdx_build hfsm
    refine ⟨hstay.trans hidx, ?_⟩
    cases hlast : isLast s with
    | true => exact .inr (.inl (by simp [nextFsm_build hfsm, hlast]))
    | false =>
      have hbuild : Building s f := by simpa only [Assembled, hfsm] using hasm
      have hlt := hbuild.lt
      have hsmall := fTotal_le (hadm s.streamIdx)
      have hsmall' : fTotal (cfgNow s) ≤ 1491 := hsmall
      have hcfg : cfgNow (step s i) = cfgNow s :=
        cfgNow_step hsafe (by simp [inFlight, hfsm]) (nextStreamIdx_build hfsm)
      refine .inl ⟨by simp [nextFsm_build hfsm, hlast], ?_⟩
      rw [hcfg, byteIdx_build hfsm hlast (by omega)]
      omega
  · have hstay : (step s i).streamIdx = s.streamIdx := nextStreamIdx_of_ne (by simp [hfsm])
      (advance_of_ne (by simp [hfsm]) (by simp [hfsm]))
    exact ⟨hstay.trans hidx, .inr (.inr (by simp [nextFsm, hfsm]))⟩
  · have hstay : (step s i).streamIdx = s.streamIdx :=
      nextStreamIdx_of_ne (by simp [hfsm]) (by simp [advance, hserve, hfsm])
    exact ⟨hstay.trans hidx, .inr (.inr (by simp [nextFsm_stream hfsm, hserve]))⟩

end Drawn

/-! ## Between two frames -/

/-- Outside a frame the reads have nothing left of the one before. -/
def Rest (s : State) (f : Frame) : Prop := inFlight s = false → ∀ A, Swept A s f

section Between

variable {s : State} {i : Input} {f : Frame}

/-- A frame in flight ends with its last word. -/
theorem serveNow_of_leave (hflight : inFlight s = true) (hno : inFlight (step s i) = false) :
    serveNow s i = true := by
  cases hserve : serveNow s i with
  | true => rfl
  | false =>
    have hstay : inFlight (step s i) = true := by
      cases hfsm : s.fsm with
      | build => cases hlast : isLast s <;> simp [inFlight, nextFsm_build hfsm, hlast]
      | prefetch => simp [inFlight, nextFsm, hfsm]
      | stream => simp [inFlight, nextFsm_stream hfsm, hserve]
      | _ => simp [inFlight, hfsm] at hflight
    rw [hstay] at hno
    cases hno

theorem rest_step (hadm : Admissible s) (hasm : Assembled s f) (hsafe : FrameSafe s i)
    (h : Rest s f) : Rest (step s i) (Frame.next s i f) := by
  intro hno A
  by_cases hflight : inFlight s = true
  · exact swept_served (serveNow_of_leave hflight hno)
  · have hflight' : inFlight s = false := by simpa using hflight
    refine swept_step (h hflight' A) hasm hadm hsafe (fun hf => absurd hf hflight) fun hfsm => ?_
    simp [inFlight, hfsm] at hflight'

theorem Reached.rest {s : State} {f : Frame} (h : Reached s f) : Rest s f := by
  obtain ⟨is, hsafe, hrun⟩ := h
  have hsafe' : Along (watch step Frame.next) (fun p i => FrameSafe p.1 i)
      (State.reset, Frame.empty) is := along_watch hsafe
  have hinv := hsafe'.invariant
    (P := fun p : State × Frame => Admissible p.1 ∧ Assembled p.1 p.2 ∧ Rest p.1 p.2)
    (fun p i hi hp => ⟨admissible_step hp.1 hi, assembled_step hp.2.1 hp.1 hi,
      rest_step hp.1 hp.2.1 hi hp.2.2⟩)
    ⟨by decide, trivial, fun _ _ => trivial⟩
  rw [hrun] at hinv
  exact hinv.2.2

end Between

/-! ## A packet and the latches -/

/-- The emit latches are those of the strobe that completed the window. -/
def LatchedFor (s : State) (k : CtxId) (w : Window) : Prop :=
  (s.tsSecEmit, s.tsSubEmit) = stamp (w.first + (fpp (s.ctx k).cfg - 1)) ∧ s.rdSnap = w.snap

/-- The addresses of a packet, as far as they lie in its window; the sweep goes one further. -/
def windowAddress (c : Ctx) (w : Window) : Addressing := fun m ring adr valid =>
  m < packetSamples c.cfg → slotAddress c w m ring adr valid

/-- Every pending packet has the latches still, or what it needs of them already; what it has of
its header and its addresses is of its window. -/
structure Followed (s : State) (d : Dispatch) : Prop where
  admissible : Admissible s
  assembled : Assembled s d.frame
  flight : inFlight s = true → (cur s).pend = true
  rest : Rest s d.frame
  loaded : s.tsLoadPending = false
  time : (s.tsSec, s.tsSub) = stamp d.sample
  slots : ∀ k w, d.made k = some w → nslots (s.ctx k).cfg ≠ 0
  waiting : ∀ k w, (s.ctx k).pend = true → d.made k = some w → Drawn 4 s k ∨ LatchedFor s k w
  header : inFlight s = true → ∀ w, d.made s.streamIdx = some w →
    BytesMeet (StampByte (stamp w.first)) d.frame
  swept : inFlight s = true → ∀ w, d.made s.streamIdx = some w →
    Swept (windowAddress (cur s) w) s d.frame
  sent : ∀ x ∈ d.sent, ∀ w, x.window = some w → x.Covers w

section Following

variable {s : State} {d : Dispatch} {i : Input} {k : CtxId} {w : Window}

theorem headerStamp_latched (hidx : s.streamIdx = k) (h : LatchedFor s k w) :
    headerStamp s = stamp w.first := by
  have hpos := fpp_pos (s.ctx k).cfg
  have hle := fpp_le (s.ctx k).cfg
  have hcur : curFpp s = fpp (s.ctx k).cfg := by rw [curFpp, cur, hidx]
  rw [headerStamp_eq, h.1, hcur, windowStart_stamp (by omega) (by omega), add_sub_cancel_right]

/-- A header byte that is built while the latches are the window's. -/
theorem curByte_latched (hlatch : LatchedFor s s.streamIdx w) :
    StampByte (stamp w.first) s.byteIdx (curByte s i) := by
  intro hlow hhigh
  rw [curByte_stamp i hlow hhigh, headerStamp_latched rfl hlatch]

/-- An address that is put on the ring while the latches are the window's. -/
theorem address_latched (hlatch : LatchedFor s s.streamIdx w) (hadm : Admissible s)
    (hbound : nslots (cfgNow s) ≠ 0) (hslot : s.csSlot = sweepPos s % nslots (cfgNow s))
    (hsamp : s.csSamp = sweepPos s / nslots (cfgNow s)) :
    slotAddress (cur s) w (sweepPos s) (min (csCh s / 8) 5) ((rdf s).toNat % sringDepth)
      (csVld s) := by
  have hle : nslots (cfgNow s) ≤ 8 := hadm s.streamIdx
  have hlt : s.csSlot < nslots (cfgNow s) := hslot ▸ Nat.mod_lt _ (Nat.pos_of_ne_zero hbound)
  have hent : csEnt s = mapEntry (cur s) (sweepPos s % nslots (cur s).cfg) := by
    show csEnt s = mapEntry (cur s) (sweepPos s % nslots (cfgNow s))
    rw [← hslot, mapEntry, csEnt, Nat.min_eq_left (by omega)]
  refine ⟨?_, ?_, ?_⟩
  · rw [csCh, hent]
  · rw [rdf, fBase, hlatch.2, csCh, hent, hsamp]
    rfl
  · rw [csVld, hent]

theorem two_le_packetSamples {cfg : Byte} (h : nslots cfg ≠ 0) : 2 ≤ packetSamples cfg := by
  calc 2 ≤ fpp cfg := fpp_pos cfg
    _ ≤ packetSamples cfg := Nat.le_mul_of_pos_left _ (Nat.pos_of_ne_zero h)

/-- While the header is built the packet still needs the latches. -/
theorem not_drawn_header (hadm : Admissible s) (hbound : nslots (cfgNow s) ≠ 0)
    (hfsm : s.fsm = .build) (hbyte : s.byteIdx < 51) : ¬ Drawn 4 s k := by
  rintro ⟨-, hwhen⟩
  have htotal := fTotal_samples hadm
  have htwo := two_le_packetSamples hbound
  rcases hwhen with ⟨-, hend⟩ | hno | hno
  · omega
  · simp [hfsm] at hno
  · simp [hfsm] at hno

/-- And while one of its addresses is put on the ring. -/
theorem not_drawn_address {A : Addressing} {f : Frame} (hadm : Admissible s)
    (hbound : nslots (cfgNow s) ≠ 0) (hfsm : s.fsm = .build) (hsweep : Sweeping A s f)
    (hwhen : s.byteIdx = 0 ∨ s.bph = 1) (hpos : sweepPos s < packetSamples (cfgNow s)) :
    ¬ Drawn 4 s k := by
  rcases hwhen with hzero | hone
  · exact not_drawn_header hadm hbound hfsm (by omega)
  · rintro ⟨-, hend⟩
    have htotal := fTotal_samples hadm
    have hbph := hsweep.bph
    rw [hone] at hbph
    split at hbph
    · cases hbph
    · rw [sweepPos, if_neg (by omega)] at hpos
      rcases hend with ⟨-, hend⟩ | hno | hno
      · omega
      · simp [hfsm] at hno
      · simp [hfsm] at hno

theorem nextCtx_map (hcfg : i.flowCfgRe = false) (k : CtxId) :
    (nextCtx s i k).cfg = (s.ctx k).cfg ∧ (nextCtx s i k).cmlo = (s.ctx k).cmlo ∧
      (nextCtx s i k).cmhi = (s.ctx k).cmhi := by
  simp [nextCtx, hcfg]

theorem windowAddress_congr {c c' : Ctx} (h : c'.cfg = c.cfg ∧ c'.cmlo = c.cmlo ∧ c'.cmhi = c.cmhi)
    (w : Window) : windowAddress c' w = windowAddress c w := by
  obtain ⟨hcfg, hlo, hhi⟩ := h
  funext m ring adr valid
  simp only [windowAddress, slotAddress, mapEntry, hcfg, hlo, hhi]

/-- A context keeps the window it was made due for while its packet is pending. -/
theorem made_next :
    (Dispatch.next s i d).made k =
      if makesDue s i k then some (Dispatch.window s d.sample k) else d.made k := rfl

theorem made_inFlight (hpend : (cur s).pend = true) (hserve : serveNow s i = false) :
    (Dispatch.next s i d).made s.streamIdx = d.made s.streamIdx := by
  have hpend' : (s.ctx s.streamIdx).pend = true := hpend
  have hno : makesDue s i s.streamIdx = false := by simp [makesDue, hpend', served, hserve]
  rw [made_next, hno]
  rfl

theorem Calm.latches (hdue : dueStrobe s i = false) (h : LatchedFor s k w)
    (hcfg : i.flowCfgRe = false) : LatchedFor (step s i) k w := by
  have hsec : (step s i).tsSecEmit = s.tsSecEmit := if_neg (by simp [hdue])
  have hsub : (step s i).tsSubEmit = s.tsSubEmit := if_neg (by simp [hdue])
  have hsnap : (step s i).rdSnap = s.rdSnap := if_neg (by simp [hdue])
  have hsame : ((step s i).ctx k).cfg = (s.ctx k).cfg := (nextCtx_map hcfg k).1
  rw [LatchedFor, hsec, hsub, hsnap, hsame]
  exact h

/-- A group that is complete takes the latches for its window. -/
theorem latchedFor_due (hi : Calm i) (htime : (s.tsSec, s.tsSub) = stamp d.sample)
    (hdue : dueEvent s i k = true) :
    LatchedFor (step s i) k (Dispatch.window s d.sample k) := by
  simp only [dueEvent, Bool.and_eq_true] at hdue
  have hstrobe : dueStrobe s i = true := by
    rw [dueStrobe, hdue.1, Bool.true_and]
    exact decide_eq_true ⟨k, hdue.2⟩
  have hsec : (step s i).tsSecEmit = s.tsSec := if_pos hstrobe
  have hsub : (step s i).tsSubEmit = s.tsSub := by
    show (if dueStrobe s i then s.tsSub + i.csr.tsOffset else s.tsSubEmit) = s.tsSub
    rw [hstrobe, if_pos rfl, hi.2.2]
    exact BitVec.add_zero _
  have hsame : ((step s i).ctx k).cfg = (s.ctx k).cfg := (nextCtx_map hi.2.1 k).1
  refine ⟨?_, if_pos hstrobe⟩
  rw [hsec, hsub, hsame, htime, Dispatch.window, sub_add_cancel]

/-! ### One cycle -/

theorem waiting_step (hi : Calm i) (hsafe : LatchSafe s i) (h : Followed s d)
    (hpend : ((step s i).ctx k).pend = true) (hmade : (Dispatch.next s i d).made k = some w) :
    Drawn 4 (step s i) k ∨ LatchedFor (step s i) k w := by
  rw [step_ctx, nextCtx_pend] at hpend
  rw [made_next] at hmade
  by_cases hmakes : makesDue s i k = true
  · rw [if_pos hmakes] at hmade
    cases hmade
    rw [makesDue, Bool.and_eq_true] at hmakes
    exact .inr (latchedFor_due hi h.time hmakes.1)
  · -- the packet was pending before, and goes on
    rw [if_neg hmakes] at hmade
    have hserved : served s i k = false := by
      by_contra hserved
      have hserved' : served s i k = true := by simpa using hserved
      cases hdue : dueEvent s i k <;> simp [makesDue, hdue, hserved'] at hmakes hpend
    have hold : (s.ctx k).pend = true := by
      cases hdue : dueEvent s i k with
      | true => simpa [makesDue, hdue, hserved] using hmakes
      | false => simpa [hdue, hserved] using hpend
    have hgo : ∀ left, Drawn (left + 1) s k → Drawn left (step s i) k := by
      intro left hdrawn
      have hserve : serveNow s i = false := by
        rw [served, hdrawn.1, beq_self_eq_true, Bool.and_true] at hserved
        exact hserved
      exact drawn_step h.admissible h.assembled hi.frameSafe hserve hdrawn
    rcases h.waiting k w hold hmade with hdrawn | hlatch
    · exact .inl (hgo 4 (hdrawn.mono (by decide)))
    · cases hstrobe : dueStrobe s i with
      | true => exact .inl (hgo 4 (hsafe hstrobe k hold))
      | false => exact .inr (Calm.latches hstrobe hlatch hi.2.1)

/-- While a packet needs the latches they are those of its window. -/
theorem latched_of_not_drawn (h : Followed s d) (hflight : inFlight s = true)
    (hmade : d.made s.streamIdx = some w) (hnot : ¬ Drawn 4 s s.streamIdx) :
    LatchedFor s s.streamIdx w :=
  (h.waiting s.streamIdx w (h.flight hflight) hmade).resolve_left hnot

/-- What was built of a frame in flight before this cycle. -/
theorem before_inFlight (h : Followed s d) (hflight : inFlight (step s i) = true) :
    serveNow s i = false ∧ (step s i).streamIdx = s.streamIdx ∧ (cur s).pend = true ∧
      (inFlight s = true ∨ s.fsm = .check ∧ d.frame.bytes = []) := by
  obtain ⟨hserve, hidx, hbefore⟩ := inFlight_step hflight
  refine ⟨hserve, hidx, ?_, ?_⟩
  · rcases hbefore with hbefore | ⟨-, hpend⟩
    · exact h.flight hbefore
    · exact hpend
  · rcases hbefore with hbefore | ⟨hfsm, -⟩
    · exact .inl hbefore
    · have hasm := h.assembled
      rw [Assembled, hfsm] at hasm
      exact .inr ⟨hfsm, hasm.2⟩

theorem header_step (h : Followed s d) (hflight : inFlight (step s i) = true)
    (hmade : (Dispatch.next s i d).made (step s i).streamIdx = some w) :
    BytesMeet (StampByte (stamp w.first)) (Dispatch.next s i d).frame := by
  obtain ⟨hserve, hidx, hpend, hbefore⟩ := before_inFlight h hflight
  rw [hidx, made_inFlight hpend hserve] at hmade
  have hold : BytesMeet (StampByte (stamp w.first)) d.frame := by
    rcases hbefore with hbefore | ⟨-, hnone⟩
    · exact h.header hbefore w hmade
    · exact bytesMeet_nil hnone
  refine bytesMeet_next hold fun hfsm => ?_
  have hbuild : inFlight s = true := by simp [inFlight, hfsm]
  rw [length_of_building h.assembled hfsm]
  intro hlow hhigh
  have hnot := not_drawn_header (k := s.streamIdx) h.admissible (h.slots _ w hmade) hfsm hhigh
  exact curByte_latched (latched_of_not_drawn h hbuild hmade hnot) hlow hhigh

theorem windowSwept_step (hi : Calm i) (h : Followed s d) (hflight : inFlight (step s i) = true)
    (hmade : (Dispatch.next s i d).made (step s i).streamIdx = some w) :
    Swept (windowAddress (cur (step s i)) w) (step s i) (Dispatch.next s i d).frame := by
  obtain ⟨hserve, hidx, hpend, hbefore⟩ := before_inFlight h hflight
  rw [hidx, made_inFlight hpend hserve] at hmade
  have hcur : windowAddress (cur (step s i)) w = windowAddress (cur s) w := by
    show windowAddress (nextCtx s i (step s i).streamIdx) w = _
    rw [hidx]
    exact windowAddress_congr (nextCtx_map hi.2.1 _) w
  have hbound : nslots (cfgNow s) ≠ 0 := h.slots _ w hmade
  have hold : Swept (windowAddress (cur s) w) s d.frame := by
    rcases hbefore with hbefore | ⟨hfsm, -⟩
    · exact h.swept hbefore w hmade
    · exact h.rest (by simp [inFlight, hfsm]) _
  rw [hcur]
  refine swept_step hold h.assembled h.admissible hi.frameSafe (fun _ => hbound)
    fun hfsm hprimed hslot hsamp hwhen hpos => ?_
  have hbuild : inFlight s = true := by simp [inFlight, hfsm]
  have hnot := not_drawn_address (k := s.streamIdx) h.admissible hbound hfsm
    (sweeping_of_swept hfsm hold) hwhen hpos
  exact address_latched (latched_of_not_drawn h hbuild hmade hnot) h.admissible hbound hslot hsamp

/-- A packet that was made due for a window covers it. -/
theorem covers_served (h : Followed s d) (hserve : serveNow s i = true)
    (hmade : d.made s.streamIdx = some w) : (Dispatch.packet s d).Covers w := by
  have hserved : served s i s.streamIdx = true := served_iff.2 ⟨hserve, rfl⟩
  have hflight := (served_inFlight hserved).1
  have hbound := h.slots _ w hmade
  have hswept := h.swept hflight w hmade
  have hfsm : s.fsm = .stream := stream_of_serveNow hserve
  have hsweep : Sweep (windowAddress (cur s) w) s d.frame := by
    simpa only [Swept, hfsm] using hswept
  refine ⟨?_, fun haudio m hm => ?_, fun j hj => ?_⟩
  · exact wireStamp_served (p := Pace.start d.frame) hbound rfl h.admissible h.assembled hserved
      (h.header hflight w hmade)
  · have hprimed : s.pktPrimed = true := haudio
    have hcount := hsweep.count
    rw [hprimed, if_pos rfl] at hcount
    have hm' : m < packetSamples (cfgNow s) := hm
    have hlen : m < d.frame.fetches.length := by omega
    exact ⟨hlen, hsweep.fetched m hlen hm⟩
  · exact wireByte_payload hserve hswept h.assembled h.admissible hj

theorem followed_step (hi : Calm i) (hsafe : LatchSafe s i) (h : Followed s d) :
    Followed (step s i) (Dispatch.next s i d) where
  admissible := admissible_step h.admissible hi.frameSafe
  assembled := assembled_step h.assembled h.admissible hi.frameSafe
  flight := flight_step h.flight
  rest := rest_step h.admissible h.assembled hi.frameSafe h.rest
  loaded := by
    rw [step_tsLoadPending, nextTsLoadPending, h.loaded, hi.1]
    simp
  time := by
    cases hstrobe : strobe i with
    | true =>
      simp only [Dispatch.next, hstrobe, if_true]
      exact time_strobe h.loaded h.time hstrobe
    | false =>
      simp only [Dispatch.next, hstrobe, Bool.false_eq_true, if_false]
      exact (time_still hstrobe).trans h.time
  slots := fun k w hmade => by
    have hsame : ((step s i).ctx k).cfg = (s.ctx k).cfg := (nextCtx_map hi.2.1 k).1
    rw [made_next] at hmade
    rw [hsame]
    by_cases hmakes : makesDue s i k = true
    · simp only [makesDue, dueEvent, due, Bool.and_eq_true, bne_iff_ne] at hmakes
      exact hmakes.1.2.1
    · rw [if_neg hmakes] at hmade
      exact h.slots k w hmade
  waiting := fun _ _ hpend hmade => waiting_step hi hsafe h hpend hmade
  header := fun hflight _ hmade => header_step h hflight hmade
  swept := fun hflight _ hmade => windowSwept_step hi h hflight hmade
  sent := fun x hx w hw => by
    simp only [Dispatch.next] at hx
    cases hserve : serveNow s i with
    | false =>
      rw [hserve] at hx
      exact h.sent x hx w hw
    | true =>
      rw [hserve, if_pos rfl, List.mem_append, List.mem_singleton] at hx
      rcases hx with hx | rfl
      · exact h.sent x hx w hw
      · exact covers_served h hserve hw

end Following

/-- Nothing is pending without a window, so every packet has one. -/
structure Accounted (s : State) (d : Dispatch) : Prop where
  flight : inFlight s = true → (cur s).pend = true
  made : ∀ k, (s.ctx k).pend = true → d.made k ≠ none
  sent : ∀ x ∈ d.sent, x.window ≠ none

theorem accounted_step {s : State} {d : Dispatch} {i : Input} (h : Accounted s d) :
    Accounted (step s i) (Dispatch.next s i d) := by
  refine ⟨flight_step h.flight, fun k hpend => ?_, fun x hx => ?_⟩
  · rw [made_next]
    by_cases hmakes : makesDue s i k = true
    · rw [if_pos hmakes]
      simp
    · rw [if_neg hmakes]
      refine h.made k ?_
      rw [step_ctx, nextCtx_pend] at hpend
      by_contra hfree
      cases hdue : dueEvent s i k <;> simp [makesDue, hdue, hfree] at hmakes hpend
  · simp only [Dispatch.next] at hx
    cases hserve : serveNow s i with
    | false =>
      rw [hserve] at hx
      exact h.sent x hx
    | true =>
      rw [hserve, if_pos rfl, List.mem_append, List.mem_singleton] at hx
      rcases hx with hx | rfl
      · exact h.sent x hx
      · have hserved : served s i s.streamIdx = true := served_iff.2 ⟨hserve, rfl⟩
        exact h.made _ (h.flight (served_inFlight hserved).1)

/-! ## The frames of the ring -/

/-- The ring frame that sample `t` takes, with the reader at `r₀` before sample `t₀`: the last one
behind the reader. -/
def ringFrame (r₀ : Word) (t₀ t : Int) : Word := r₀ + wrapped 32 (8 * (t - t₀ - 1))

/-- The reader goes on a frame at every strobe: the ring is primed, and anchored already. -/
def Reading (s : State) (i : Input) : Prop :=
  (strobe i = true → s.primed = true) ∧ (walkStart s = true → s.alignedOnce = true)

instance (s : State) (i : Input) : Decidable (Reading s i) :=
  inferInstanceAs (Decidable (_ ∧ _))

/-- The read pointer that a window of `n` samples goes back to. -/
def snapAt (r₀ : Word) (t₀ : Int) (n : Nat) (w : Window) : Prop :=
  w.snap = r₀ + wrapped 32 (8 * (w.first + (n - 1) - t₀))

/-- The reader against the number of the next sample. -/
structure Consumed (r₀ : Word) (t₀ : Int) (s : State) (d : Dispatch) : Prop where
  rd : s.rd = r₀ + wrapped 32 (8 * (d.sample - t₀))
  made : ∀ k w, d.made k = some w → snapAt r₀ t₀ (fpp (s.ctx k).cfg) w
  sent : ∀ x ∈ d.sent, ∀ w, x.window = some w → snapAt r₀ t₀ (fpp x.binding.cfg) w

section Consuming

variable {r₀ : Word} {t₀ : Int} {s : State} {d : Dispatch} {i : Input}

theorem consumed_step (hi : Calm i) (hread : Reading s i) (h : Consumed r₀ t₀ s d) :
    Consumed r₀ t₀ (step s i) (Dispatch.next s i d) := by
  have hrd : (step s i).rd = if strobe i then s.rd + 8 else s.rd := by
    have hanchor : (walkStart s && !s.alignedOnce) = false := by
      cases hwalk : walkStart s with
      | false => rfl
      | true => simp [hread.2 hwalk]
    rw [step_rd, nextRd, hanchor]
    cases hstrobe : strobe i with
    | false => simp
    | true => simp [hread.1 hstrobe]
  have hsame : ∀ k, ((step s i).ctx k).cfg = (s.ctx k).cfg := fun k => (nextCtx_map hi.2.1 k).1
  refine ⟨?_, fun k w hmade => ?_, fun x hx w hw => ?_⟩
  · rw [hrd, h.rd]
    cases hstrobe : strobe i with
    | false => simp [Dispatch.next, hstrobe]
    | true =>
      have hnext : (8 : Int) * (d.sample + 1 - t₀) = 8 * (d.sample - t₀) + 8 := by
        rw [add_sub_right_comm, mul_add, mul_one]
      have height : (8 : Word) = wrapped 32 8 := by decide
      simp only [Dispatch.next, hstrobe, if_true]
      rw [hnext, wrapped_add, height, BitVec.add_assoc]
  · rw [made_next] at hmade
    rw [hsame]
    by_cases hmakes : makesDue s i k = true
    · rw [if_pos hmakes] at hmade
      cases hmade
      rw [snapAt, Dispatch.window, sub_add_cancel]
      exact h.rd
    · rw [if_neg hmakes] at hmade
      exact h.made k w hmade
  · simp only [Dispatch.next] at hx
    cases hserve : serveNow s i with
    | false =>
      rw [hserve] at hx
      exact h.sent x hx w hw
    | true =>
      rw [hserve, if_pos rfl, List.mem_append, List.mem_singleton] at hx
      rcases hx with hx | rfl
      · exact h.sent x hx w hw
      · exact h.made _ w hw

/-- The frames behind a window's read pointer are those that its samples take. -/
theorem frame_of_snapAt {n : Nat} {w : Window} (h : snapAt r₀ t₀ n w) (m : Nat) :
    w.snap - BitVec.ofNat 32 (8 * n) + BitVec.ofNat 32 (8 * m) =
      ringFrame r₀ t₀ (w.first + m) := by
  have hofNat : ∀ x : Nat, BitVec.ofNat 32 x = wrapped 32 (x : Int) :=
    fun x => (BitVec.ofInt_natCast 32 x).symm
  have hsplit : (8 : Int) * (w.first + m - t₀ - 1) =
      8 * (w.first + (n - 1) - t₀) - (8 * n : Nat) + (8 * m : Nat) := by
    omega
  rw [ringFrame, hsplit, wrapped_add, wrapped_sub, h, hofNat, hofNat]
  rw [BitVec.sub_eq_add_neg, BitVec.sub_eq_add_neg, BitVec.add_assoc, BitVec.add_assoc,
    BitVec.add_assoc]

end Consuming

/-! ## Contexts that never take each other's latches -/

/-- The phases of the bound contexts are in step with the timestamp counter. -/
structure Aligned (s : State) : Prop where
  range : s.tsSub.toNat < 48000
  loaded : s.tsLoadPending = false
  phase : ∀ k, nslots (s.ctx k).cfg ≠ 0 → (s.ctx k).phase = s.tsSub.toNat % fpp (s.ctx k).cfg

/-- One more sample, in a second of a multiple of `n` samples. -/
theorem succ_mod_second {n : Nat} (hn : n ∣ 48000) (hpos : 2 ≤ n) (x : Nat) :
    (if x = 47999 then 0 else x + 1) % n = if x % n = n - 1 then 0 else x % n + 1 := by
  have hsucc := position_succ (by omega : 0 < n) x
  have hzero : 48000 % n = 0 := Nat.mod_eq_zero_of_dvd hn
  by_cases hend : x % n = n - 1
  · rw [if_pos hend]
    split
    · exact Nat.zero_mod n
    · exact (hsucc.1 hend).1
  · have hmid := (hsucc.2 hend).1
    rw [if_neg hend]
    split
    · -- the last sample of a second ends a group
      rename_i hlast
      have hover : 48000 % n = x % n + 1 := by rw [← hmid, hlast]
      rw [hzero] at hover
      exact absurd hover.symm (Nat.succ_ne_zero _)
    · exact hmid

section Sharing

variable {s : State} {i : Input} {h : History} {since g : Nat}

theorem aligned_step (ha : Aligned s) (hi : Calm i) : Aligned (step s i) := by
  have hsub : (step s i).tsSub.toNat =
      if strobe i then if s.tsSub.toNat = 47999 then 0 else s.tsSub.toNat + 1
      else s.tsSub.toNat := by
    have hrange := ha.range
    have hlast : s.tsSub = BitVec.ofNat 32 (subsecMax - 1) ↔ s.tsSub.toNat = 47999 := by
      rw [← BitVec.toNat_inj]
      exact Iff.rfl
    rw [step_tsSub, nextTsSub, ha.loaded]
    cases strobe i with
    | false => rfl
    | true =>
      simp only [if_true, Bool.false_eq_true, if_false, beq_iff_eq, hlast]
      split
      · rfl
      · have hone : (1 : Word).toNat = 1 := rfl
        rw [BitVec.toNat_add, hone]
        exact Nat.mod_eq_of_lt (by omega)
  refine ⟨?_, ?_, fun k hbound => ?_⟩
  · have hrange := ha.range
    rw [hsub]
    split
    · split <;> omega
    · exact hrange
  · rw [step_tsLoadPending, nextTsLoadPending, ha.loaded, hi.1]
    simp
  · have hsame : ((step s i).ctx k).cfg = (s.ctx k).cfg := (nextCtx_map hi.2.1 k).1
    have hpos := fpp_pos (s.ctx k).cfg
    have hle := fpp_le (s.ctx k).cfg
    rw [hsame] at hbound ⊢
    have hphase := ha.phase k hbound
    have hlt := Nat.mod_lt s.tsSub.toNat (by omega : 0 < fpp (s.ctx k).cfg)
    rw [step_ctx, nextCtx_phase hi.2.1, hsub]
    split
    · rw [succ_mod_second (fpp_dvd_subsecMax _) hpos, ← hphase]
      split
      · rfl
      · exact Nat.mod_eq_of_lt (by omega)
    · exact hphase

/-- A due strobe ends a group of every divisor of the sizes in use. -/
theorem phase_of_dueStrobe (ha : Aligned s)
    (hg : ∀ k, nslots (s.ctx k).cfg ≠ 0 → g ∣ fpp (s.ctx k).cfg) (hdue : dueStrobe s i = true)
    (k : CtxId) (hbound : nslots (s.ctx k).cfg ≠ 0) : g ≤ (s.ctx k).phase + 1 := by
  simp only [dueStrobe, anyDue, Bool.and_eq_true, decide_eq_true_iff] at hdue
  obtain ⟨-, j, hj⟩ := hdue
  simp only [due, Bool.and_eq_true, bne_iff_ne, beq_iff_eq] at hj
  have hpos := fpp_pos (s.ctx j).cfg
  have hdiv : ∀ k, nslots (s.ctx k).cfg ≠ 0 →
      (g ∣ (s.ctx k).phase + 1 ↔ g ∣ s.tsSub.toNat + 1) := by
    intro k hk
    have hsplit := Nat.div_add_mod s.tsSub.toNat (fpp (s.ctx k).cfg)
    rw [← ha.phase k hk] at hsplit
    rw [← hsplit, Nat.add_assoc]
    exact (Nat.dvd_add_right ((hg k hk).mul_right _)).symm
  have hend : (s.ctx j).phase + 1 = fpp (s.ctx j).cfg := by omega
  have hlast : g ∣ s.tsSub.toNat + 1 := (hdiv j hj.1).1 (hend ▸ hg j hj.1)
  exact Nat.le_of_dvd (Nat.succ_pos _) ((hdiv k hbound).2 hlast)

/-- When a walk fits between two strobes at which groups of any context can end, a strobe that
takes the latches finds the packets before it out, or at their last word. -/
theorem latchSafe_of_timed (hp : Placed s) (hb : Balanced s h) (ht : Timed s since)
    (ha : Aligned s) (hi : Steadfast i) (hgap : i.sampleStrobe = true → strobeGap ≤ since)
    (hg : ∀ k, nslots (s.ctx k).cfg ≠ 0 → g ∣ fpp (s.ctx k).cfg)
    (hwalk : walkTime (cfgs s) ≤ strobeGap * g) : LatchSafe s i := by
  intro hdue k hpend
  by_contra hnot
  have hbound := hb.bound k hpend
  have hserved : served s i k = false := by
    by_contra hserved
    have hserved' : served s i k = true := by simpa using hserved
    obtain ⟨hserve, hidx⟩ := served_iff.1 hserved'
    exact hnot ⟨hidx, .inr (.inr (stream_of_serveNow hserve))⟩
  have hgroup := phase_of_dueStrobe ha hg hdue k hbound
  have hmeets := ht.meets k hpend
  have hsince : strobeGap ≤ since := by
    simp only [dueStrobe, strobe, Bool.and_eq_true] at hdue
    exact hgap hdue.1.1
  -- the strobes since the context was due leave it one cycle
  have hlong : strobeGap * g ≤ strobeGap * (s.ctx k).phase + strobeGap := by
    rw [← Nat.mul_succ]
    exact Nat.mul_le_mul_left _ hgroup
  have hnext := distance_step hp hi.2 hi.1 hpend hbound hserved
  have hpos := one_le_distance (k := k) (placed_step (i := i) hp fun hw =>
    absurd hi.2 (by rw [hw]; decide))
  omega

theorem latchSafe_run (is : List Input) :
    ∀ {s : State} {h : History} {since : Nat}, Placed s → Balanced s h → Timed s since → Aligned s →
      (∀ k, nslots (s.ctx k).cfg ≠ 0 → g ∣ fpp (s.ctx k).cfg) →
      walkTime (cfgs s) ≤ strobeGap * g → (∀ i ∈ is, Calm i ∧ i.sourceReady = true) →
      Spaced since is → Along step LatchSafe s is := by
  induction is with
  | nil => exact fun _ _ _ _ _ _ _ _ => trivial
  | cons i is ih =>
    intro s h since hp hb ht ha hg hwalk hinputs hspaced
    obtain ⟨hcalm, hready⟩ := hinputs i (by simp)
    have hi : Steadfast i := ⟨hready, hcalm.2.1⟩
    have hsched : Schedulable (cfgs s) := fun k hbound =>
      hwalk.trans (Nat.mul_le_mul_left _ (Nat.le_of_dvd (by have := fpp_pos (cfgs s k); omega)
        (hg k hbound)))
    have hsafe := dueSafe_of_timed hp hb ht hsched hi hspaced.1
    have hcfgs : cfgs (step s i) = cfgs s := cfgs_step hi.2
    refine ⟨latchSafe_of_timed hp hb ht ha hi hspaced.1 hg hwalk,
      ih (placed_step hp hcalm.frameSafe) (balanced_step hb hsafe)
        (timed_step hp hb ht hsched hi hspaced.1) (aligned_step ha hcalm) (fun k => ?_) ?_
        (fun j hj => hinputs j (by simp [hj])) hspaced.2⟩
    · have hsame : ((step s i).ctx k).cfg = (s.ctx k).cfg := congrFun hcfgs k
      rw [hsame]
      exact hg k
    · rw [hcfgs]
      exact hwalk

end Sharing

/-! ## The law of the windows -/

/-- From any state that is reached, with any contexts bound and no load or rebind: (1) as long as
no strobe takes the emit latches from a packet that still needs them, every packet has the
timestamp, the reads and the payload of the window of the strobe that made its context due; with
nothing pending at the start every packet has such a window.  (2) While the reader goes on at every
strobe, the frames of each window are those that its samples take.  (3) From rest, with aligned
phases, strobes a sample period apart and a MAC that is always ready, no strobe takes the latches
too early as long as one walk fits into `g` samples, for a `g` that divides the group of every
bound context. -/
theorem window_kept (s : State) (f : Frame) (is : List Input) (hreach : Reached s f)
    (hrange : s.tsSub.toNat < 48000) (hload : s.tsLoadPending = false)
    (hcalm : ∀ i ∈ is, Calm i) :
    let t₀ : Int := Stamp.count (s.tsSec, s.tsSub)
    let x := run dispatchStep (s, Dispatch.start f t₀) is
    (Along step LatchSafe s is → ∀ p ∈ x.2.sent, ∀ w, p.window = some w → p.Covers w) ∧
    ((∀ k, (s.ctx k).pend = false) → ∀ p ∈ x.2.sent, ∃ w, p.window = some w) ∧
    (Along step Reading s is → ∀ p ∈ x.2.sent, ∀ w, p.window = some w → ∀ n : Nat,
      w.snap - BitVec.ofNat 32 (8 * fpp p.binding.cfg) + BitVec.ofNat 32 (8 * n) =
        ringFrame s.rd t₀ (w.first + n)) ∧
    ∀ g, Settled s → Aligned s → (∀ k, nslots (s.ctx k).cfg ≠ 0 → g ∣ fpp (s.ctx k).cfg) →
      walkTime (cfgs s) ≤ strobeGap * g → Spaced strobeGap is →
      (∀ i ∈ is, i.sourceReady = true) → Along step LatchSafe s is := by
  intro t₀ x
  have hinputs : Along dispatchStep (fun _ i => Calm i) (s, Dispatch.start f t₀) is :=
    Along.of_inputs hcalm
  refine ⟨fun hsafe => ?_, fun hfree => ?_, fun hread => ?_, fun g hs ha hg hwalk hspaced hready => ?_⟩
  · have hwatch : Along dispatchStep (fun p i => LatchSafe p.1 i) (s, Dispatch.start f t₀) is :=
      along_watch hsafe
    have hguard := hinputs.and hwatch
    have hfollowed := hguard.invariant (P := fun p => Followed p.1 p.2)
      (fun p i hi hp => followed_step hi.1 hi.2 hp)
      { admissible := hreach.assembled.1
        assembled := hreach.assembled.2.1
        flight := hreach.assembled.2.2
        rest := hreach.rest
        loaded := hload
        time := (stamp_count hrange).symm
        slots := fun _ _ hmade => by cases hmade
        waiting := fun _ _ _ hmade => by cases hmade
        header := fun _ _ hmade => by cases hmade
        swept := fun _ _ hmade => by cases hmade
        sent := fun _ hx => by cases hx }
    exact hfollowed.sent
  · have haccounted := hinputs.invariant (P := fun p => Accounted p.1 p.2)
      (fun p i _ hp => accounted_step hp)
      ⟨hreach.assembled.2.2, fun k hpend => by simp [hfree k] at hpend, fun _ hx => by cases hx⟩
    exact fun p hp => Option.ne_none_iff_exists'.1 (haccounted.sent p hp)
  · have hwatch : Along dispatchStep (fun p i => Reading p.1 i) (s, Dispatch.start f t₀) is :=
      along_watch hread
    have hguard := hinputs.and hwatch
    have hconsumed := hguard.invariant (P := fun p => Consumed s.rd t₀ p.1 p.2)
      (fun p i hi hp => consumed_step hi.1 hi.2 hp)
      { rd := by simp [Dispatch.start, wrapped]
        made := fun _ _ hmade => by cases hmade
        sent := fun _ hx => by cases hx }
    exact fun p hp w hw n => frame_of_snapAt (hconsumed.sent p hp w hw) n
  · exact latchSafe_run is hs.placed hs.balanced (hs.timed strobeGap) ha hg hwalk
      (fun i hi => ⟨hcalm i hi, hready i hi⟩) hspaced

/-- Two contexts of four samples a packet, at sample 0. -/
def pairBound : State := run step State.reset
  [Input.bind 0 0x51 0 0x80 0, Input.bind 1 0x51 0 0x81 0]

/-- Two groups of both contexts, each with time for its packets. -/
def twoPairs : List Input :=
  List.replicate 4 Input.tick ++ List.replicate 180 Input.quiet ++
    List.replicate 4 Input.tick ++ List.replicate 180 Input.quiet

theorem window_kept_two_pairs :
    ((run dispatchStep (pairBound, Dispatch.start Frame.empty 0) twoPairs).2.sent.map
        fun p => p.window.map Window.first) = [some 0, some 0, some 4, some 4] ∧
      ∀ p ∈ (run dispatchStep (pairBound, Dispatch.start Frame.empty 0) twoPairs).2.sent,
        ∀ w, p.window = some w → p.Covers w := by
  have hreach : Reached pairBound Frame.empty :=
    ⟨[Input.bind 0 0x51 0 0x80 0, Input.bind 1 0x51 0 0x81 0], by decide +kernel, rfl⟩
  have hcalm : ∀ i ∈ twoPairs, Calm i := by decide +kernel
  have hsafe : Along step LatchSafe pairBound twoPairs := by decide +kernel
  have hstart : ((Stamp.count (pairBound.tsSec, pairBound.tsSub) : Nat) : Int) = 0 := by decide
  have hkept := (window_kept pairBound Frame.empty twoPairs hreach (by decide) (by decide) hcalm).1
  rw [hstart] at hkept
  exact ⟨by decide +kernel, hkept hsafe⟩

end Packetizer
end InfernoFpga
