import InfernoFpga.Packetizer.Windows

/-!
# Overtaken — a strobe takes the latches from a packet that waits

With a MAC that is always ready the builder is through with a context after exactly `cost` cycles.
So it can be computed when a packet behind two others is built, and which strobe has the emit
latches by then: two contexts of long packets are enough to keep a third one waiting for more than
two samples, and a context of two samples a packet takes the latches in the meantime.
-/

namespace InfernoFpga
namespace Packetizer

open Lib

/-! ## Frames to a MAC that is always ready -/

/-- The builder is at a context with a packet to send. -/
structure Busy (s : State) : Prop where
  placed : Placed s
  slots : nslots (cfgNow s) ≠ 0
  on : s.fsm = .check ∧ (cur s).pend = true ∨ inFlight s = true

section Busy

variable {s : State} {i : Input}

theorem Steadfast.frameSafe (hi : Steadfast i) : FrameSafe s i := by
  intro hwrite
  rw [hi.2] at hwrite
  cases hwrite

/-- Nothing but the last word of its packet clears a context's pending bit. -/
theorem pend_step {k : CtxId} (hpend : (s.ctx k).pend = true) (hserved : served s i k = false) :
    ((step s i).ctx k).pend = true := by
  rw [step_ctx, nextCtx_pend, hserved]
  split
  · rfl
  · exact hpend

/-- Up to its last word a frame gets on by one cycle in each cycle. -/
theorem busy_step (h : Busy s) (hi : Steadfast i) (hmore : 2 ≤ remaining s) :
    Busy (step s i) ∧ serveNow s i = false ∧ (step s i).streamIdx = s.streamIdx ∧
      remaining (step s i) + 1 = remaining s := by
  obtain ⟨hplaced, hslots, hon⟩ := h
  have honPacket : OnPacket s := by
    rcases hon with ⟨hfsm, hpend⟩ | hflight
    · exact .inl ⟨hfsm, beq_false_of_ne hslots, hpend⟩
    · exact .inr hflight
  -- the last word is accepted with one cycle remaining
  have hserve : serveNow s i = false := by
    by_contra hserve
    rw [Bool.not_eq_false] at hserve
    have hfsm : s.fsm = .stream := stream_of_serveNow hserve
    rw [serveNow, Bool.and_eq_true] at hserve
    have hlast : s.rdIdx = fLastIdx (cfgNow s) := beq_iff_eq.1 hserve.2
    simp only [remaining, hfsm] at hmore
    omega
  obtain ⟨hidx, hflight, hrem⟩ := packet_step hplaced hi.2 hi.1 honPacket hserve
  refine ⟨⟨placed_step hplaced hi.frameSafe, ?_, .inr hflight⟩, hserve, hidx, hrem⟩
  show nslots (cfgs (step s i) (step s i).streamIdx) ≠ 0
  rw [cfgs_step hi.2, hidx]
  exact hslots

/-- The last cycle of a frame. -/
theorem busy_last (h : Busy s) (hi : Steadfast i) (hone : remaining s = 1) :
    serveNow s i = true := by
  obtain ⟨⟨hadm, f, hf⟩, hslots, hon⟩ := h
  have hcost : cost (cfgNow s) = 3 + fTotal (cfgNow s) + fLastIdx (cfgNow s) := if_neg hslots
  cases hfsm : s.fsm with
  | idle => simp [inFlight, hfsm] at hon
  | skip => simp [inFlight, hfsm] at hon
  | check =>
    simp only [remaining, hfsm] at hone
    omega
  | build =>
    simp only [remaining, hfsm] at hone
    omega
  | prefetch =>
    simp only [remaining, hfsm] at hone
    obtain ⟨half, hhalf, htotal, hshape⟩ := shape_of_le (hadm s.streamIdx)
    have hshape' : fLastIdx (cfgNow s) = 12 + half / 2 := hshape
    omega
  | stream =>
    have hle : s.rdIdx ≤ fLastIdx (cfgNow s) := by
      simp only [Assembled, hfsm] at hf
      exact hf.2.le
    simp only [remaining, hfsm] at hone
    have hlast : sourceLast s = true := by
      have heq : s.rdIdx = fLastIdx (cfgNow s) := by omega
      exact beq_iff_eq.2 heq
    simp [serveNow, hfsm, hi.1, hlast]

/-- As long as the frame is not over the builder stays with it and no last word is accepted. -/
theorem busy_run (is : List Input) :
    ∀ {s : State}, Busy s → (∀ i ∈ is, Steadfast i) → is.length < remaining s →
      Busy (run step s is) ∧ (run step s is).streamIdx = s.streamIdx ∧
        remaining (run step s is) + is.length = remaining s ∧
          Along step (fun s i => serveNow s i = false) s is := by
  induction is with
  | nil => exact fun h _ _ => ⟨h, rfl, rfl, trivial⟩
  | cons i is ih =>
    intro s h hsteady hlen
    rw [List.length_cons] at hlen
    obtain ⟨hnext, hserve, hidx, hrem⟩ := busy_step h (hsteady i (by simp)) (by omega)
    obtain ⟨hend, hidx', hrem', hquiet⟩ :=
      ih hnext (fun j hj => hsteady j (by simp [hj])) (by omega)
    refine ⟨hend, hidx'.trans hidx, ?_, hserve, hquiet⟩
    rw [run_cons, List.length_cons]
    omega

/-- From the last word of a frame the builder goes on to the next context. -/
theorem busy_next (h : Busy s) (hi : Steadfast i) (hone : remaining s = 1) {k : CtxId}
    (hk : k.val = s.streamIdx.val + 1) (hpend : (s.ctx k).pend = true)
    (hslots : nslots (s.ctx k).cfg ≠ 0) :
    Busy (step s i) ∧ (step s i).streamIdx = k ∧ remaining (step s i) = cost (s.ctx k).cfg := by
  have hserve := busy_last h hi hone
  have hfsm : s.fsm = .stream := stream_of_serveNow hserve
  have hlt := k.isLt
  have hne : s.streamIdx ≠ 5 := fun hlast => by
    rw [hlast] at hk
    have hfive : (5 : CtxId).val = 5 := rfl
    omega
  have hidx : (step s i).streamIdx = k := by
    have hgo := nextStreamIdx_advance (s := s) (i := i) (by simp [hfsm])
      (by simp [advance, hserve, hne])
    exact Fin.ext (hgo.2.trans hk.symm)
  have hnext : (step s i).fsm = .check := by simp [nextFsm_stream hfsm, hserve, hne]
  have hother : s.streamIdx ≠ k := fun heq => by
    rw [heq] at hk
    omega
  have hserved : served s i k = false := by
    rw [served, beq_false_of_ne hother, Bool.and_false]
  have hcfg : cfgNow (step s i) = (s.ctx k).cfg := by
    show cfgs (step s i) (step s i).streamIdx = _
    rw [cfgs_step hi.2, hidx]
    rfl
  refine ⟨⟨placed_step h.placed hi.frameSafe, ?_, .inl ⟨hnext, ?_⟩⟩, hidx, ?_⟩
  · rw [hcfg]
    exact hslots
  · rw [cur, hidx]
    exact pend_step hpend hserved
  · simp only [remaining, hnext, hcfg]

end Busy

/-! ## A packet built on other latches -/

/-- Context `k` was made due for the window `w`; the latches hold `a`, and so does what there is of
its header. -/
structure OnLatches (k : CtxId) (a : Stamp) (w : Window) (s : State) (d : Dispatch) : Prop where
  admissible : Admissible s
  assembled : Assembled s d.frame
  flight : inFlight s = true → (cur s).pend = true
  slots : nslots (s.ctx k).cfg ≠ 0
  pend : (s.ctx k).pend = true
  made : d.made k = some w
  latches : (s.tsSecEmit, s.tsSubEmit) = a
  header : inFlight s = true → s.streamIdx = k →
    BytesMeet (StampByte (windowStart (fpp (s.ctx k).cfg) a)) d.frame

section Latches

variable {k : CtxId} {a : Stamp} {w : Window} {s : State} {d : Dispatch} {i : Input}

theorem onLatches_step (h : OnLatches k a w s d) (hi : Calm i) (hdue : dueStrobe s i = false)
    (hserved : served s i k = false) : OnLatches k a w (step s i) (Dispatch.next s i d) := by
  have hsame : ((step s i).ctx k).cfg = (s.ctx k).cfg := (nextCtx_map hi.2.1 k).1
  have hmakes : makesDue s i k = false := by
    rw [makesDue, h.pend, hserved]
    simp
  refine ⟨admissible_step h.admissible hi.frameSafe,
    assembled_step h.assembled h.admissible hi.frameSafe, flight_step h.flight, ?_,
    pend_step h.pend hserved, ?_, ?_, fun hflight hidx => ?_⟩
  · rw [hsame]
    exact h.slots
  · rw [made_next, hmakes]
    exact h.made
  · have hsec : (step s i).tsSecEmit = s.tsSecEmit := if_neg (by simp [hdue])
    have hsub : (step s i).tsSubEmit = s.tsSubEmit := if_neg (by simp [hdue])
    rw [hsec, hsub]
    exact h.latches
  · obtain ⟨-, hstay, hbefore⟩ := inFlight_step hflight
    have hidx' : s.streamIdx = k := hstay ▸ hidx
    rw [hsame]
    have hold : BytesMeet (StampByte (windowStart (fpp (s.ctx k).cfg) a)) d.frame := by
      rcases hbefore with hbefore | ⟨hcheck, -⟩
      · exact h.header hbefore hidx'
      · have hasm := h.assembled
        rw [Assembled, hcheck] at hasm
        exact bytesMeet_nil hasm.2
    refine bytesMeet_next hold fun hfsm => ?_
    intro hlow hhigh
    have hlen := length_of_building h.assembled hfsm
    have hfpp : curFpp s = fpp (s.ctx k).cfg := by rw [curFpp, cur, hidx']
    rw [hlen] at hlow hhigh ⊢
    rw [curByte_stamp i hlow hhigh, headerStamp_eq, hfpp, h.latches]

/-- The packet goes out with their timestamp. -/
theorem onLatches_served (h : OnLatches k a w s d) (hserved : served s i k = true) :
    ∃ p ∈ (Dispatch.next s i d).sent, p.window = some w ∧
      wireStamp p.words = windowStart (fpp (s.ctx k).cfg) a := by
  obtain ⟨hserve, hidx⟩ := served_iff.1 hserved
  have hflight := (served_inFlight hserved).1
  refine ⟨Dispatch.packet s d, ?_, ?_, ?_⟩
  · simp [Dispatch.next, hserve]
  · rw [Dispatch.packet, hidx]
    exact h.made
  · exact wireStamp_served (p := Pace.start d.frame) h.slots rfl h.admissible h.assembled hserved
      (h.header hflight hidx)

/-- A strobe that takes the latches while the builder is at another context. -/
theorem onLatches_taken {t : Int} (hadm : Admissible s) (hasm : Assembled s d.frame)
    (hflight : inFlight s = true → (cur s).pend = true) (hi : Calm i) (hserve : serveNow s i = false)
    (hstay : (step s i).streamIdx ≠ k) (hslots : nslots (s.ctx k).cfg ≠ 0)
    (hpend : (s.ctx k).pend = true) (hmade : d.made k = some w)
    (htime : (s.tsSec, s.tsSub) = stamp t) (hdue : dueStrobe s i = true) :
    OnLatches k (stamp t) w (step s i) (Dispatch.next s i d) := by
  have hserved : served s i k = false := by rw [served, hserve, Bool.false_and]
  have hmakes : makesDue s i k = false := by
    rw [makesDue, hpend, hserved]
    exact Bool.and_false _
  have hsame : ((step s i).ctx k).cfg = (s.ctx k).cfg := (nextCtx_map hi.2.1 k).1
  refine ⟨admissible_step hadm hi.frameSafe, assembled_step hasm hadm hi.frameSafe,
    flight_step hflight, ?_, pend_step hpend hserved, ?_, ?_, fun _ hat => absurd hat hstay⟩
  · rw [hsame]
    exact hslots
  · rw [made_next, hmakes]
    exact hmade
  · have hsec : (step s i).tsSecEmit = s.tsSec := if_pos hdue
    have hsub : (step s i).tsSubEmit = s.tsSub := by
      show (if dueStrobe s i then s.tsSub + i.csr.tsOffset else s.tsSubEmit) = s.tsSub
      rw [hdue, if_pos rfl, hi.2.2]
      exact BitVec.add_zero _
    rw [hsec, hsub]
    exact htime

/-- Until its packet is out a context keeps its due event, and the window of it. -/
theorem waits_run (is : List Input) :
    ∀ {x : State × Dispatch}, Along step (fun s i => served s i k = false) x.1 is →
      (x.1.ctx k).pend = true → ((run dispatchStep x is).1.ctx k).pend = true ∧
        (run dispatchStep x is).2.made k = x.2.made k := by
  induction is with
  | nil => exact fun _ hpend => ⟨hpend, rfl⟩
  | cons i is ih =>
    intro x hwait hpend
    obtain ⟨hend, hmade⟩ := ih (x := dispatchStep x i) hwait.2 (pend_step hpend hwait.1)
    have hmakes : makesDue x.1 i k = false := by
      rw [makesDue, hpend, hwait.1]
      simp
    have hkeep : (dispatchStep x i).2.made k = x.2.made k := by
      show (Dispatch.next x.1 i x.2).made k = _
      rw [made_next, hmakes]
      rfl
    exact ⟨hend, hmade.trans hkeep⟩

theorem pend_run {is : List Input} (hwait : Along step (fun s i => served s i k = false) s is)
    (hpend : (s.ctx k).pend = true) : ((run step s is).ctx k).pend = true := by
  have hend := (waits_run is (x := (s, Dispatch.start Frame.empty 0)) hwait hpend).1
  rwa [dispatchStep, run_watch_fst] at hend

/-- What has been sent stays in the log. -/
theorem sent_run {p : Packet} (is : List Input) :
    ∀ {x : State × Dispatch}, p ∈ x.2.sent → p ∈ (run dispatchStep x is).2.sent := by
  induction is with
  | nil => exact fun hp => hp
  | cons i is ih =>
    intro x hp
    refine ih (x := dispatchStep x i) ?_
    show p ∈ (Dispatch.next x.1 i x.2).sent
    simp only [Dispatch.next]
    split
    · exact List.mem_append_left _ hp
    · exact hp

/-- Without another strobe that takes the latches, it does so within its wait. -/
theorem onLatches_run (is : List Input) :
    ∀ {s : State} {d : Dispatch}, OnLatches k a w s d → (∀ i ∈ is, Calm i ∧ i.sourceReady = true ∧
      i.sampleStrobe = false) → distance s k ≤ is.length →
      ∃ p ∈ (run dispatchStep (s, d) is).2.sent, p.window = some w ∧
        wireStamp p.words = windowStart (fpp (s.ctx k).cfg) a := by
  induction is with
  | nil =>
    intro s d h _ hlen
    have hpos := one_le_distance (k := k) ⟨h.admissible, d.frame, h.assembled⟩
    rw [List.length_nil] at hlen
    omega
  | cons i is ih =>
    intro s d h hinputs hlen
    obtain ⟨hcalm, hready, hstrobe⟩ := hinputs i (by simp)
    by_cases hserved : served s i k = true
    · obtain ⟨p, hp, hwindow, hstamp⟩ := onLatches_served h hserved
      exact ⟨p, sent_run is (x := dispatchStep (s, d) i) hp, hwindow, hstamp⟩
    · have hserved' : served s i k = false := by simpa using hserved
      have hdue : dueStrobe s i = false := by simp [dueStrobe, strobe, hstrobe]
      have hless := distance_step ⟨h.admissible, d.frame, h.assembled⟩ hcalm.2.1 hready h.pend
        h.slots hserved'
      have hsame : ((step s i).ctx k).cfg = (s.ctx k).cfg := (nextCtx_map hcalm.2.1 k).1
      rw [List.length_cons] at hlen
      have hlen' : distance (step s i) k ≤ is.length := by omega
      rw [← hsame]
      exact ih (onLatches_step h hcalm hdue hserved') (fun j hj => hinputs j (by simp [hj])) hlen'

end Latches

/-! ## The registers over a run -/

section Registers

variable {s : State} {i : Input}

theorem aligned_run {is : List Input} (ha : Aligned s) (hcalm : ∀ i ∈ is, Calm i) :
    Aligned (run step s is) :=
  (Along.of_inputs hcalm : Along step (fun _ i => Calm i) s is).invariant (P := Aligned)
    (fun _ _ hi ha => aligned_step ha hi) ha

/-- The timestamp counter counts the strobes. -/
theorem time_run (is : List Input) :
    ∀ {s : State} {t : Int}, s.tsLoadPending = false → (s.tsSec, s.tsSub) = stamp t →
      (∀ i ∈ is, Calm i) →
      ((run step s is).tsSec, (run step s is).tsSub) = stamp (t + is.countP strobe) := by
  induction is with
  | nil => exact fun _ ht _ => by simpa using ht
  | cons i is ih =>
    intro s t hload ht hcalm
    have hload' : (step s i).tsLoadPending = false := by
      rw [step_tsLoadPending, nextTsLoadPending, hload, (hcalm i (by simp)).1]
      simp
    rw [run_cons, List.countP_cons]
    cases hstrobe : strobe i with
    | false =>
      have hnext := (time_still (s := s) hstrobe).trans ht
      rw [if_neg (by simp), Nat.add_zero]
      exact ih hload' hnext fun j hj => hcalm j (by simp [hj])
    | true =>
      have hnext := time_strobe hload ht hstrobe
      rw [if_pos rfl, Nat.cast_add, Nat.cast_one, add_comm (is.countP strobe : Int), ← add_assoc]
      exact ih hload' hnext fun j hj => hcalm j (by simp [hj])

/-- The ring is primed and anchored, and holds enough for `n` more strobes without a USB word. -/
structure Stocked (n : Nat) (s : State) : Prop where
  drained : s.sampVld = false
  primed : s.primed = true
  anchored : s.alignedOnce = true
  level : s.rd.toNat + frameSamples + 8 * n ≤ s.frameBase.toNat

/-- The USB side is silent and the talker on. -/
def Silenced (i : Input) : Prop := i.usbReadable = false ∧ i.csr.enable = true

instance (i : Input) : Decidable (Silenced i) := inferInstanceAs (Decidable (_ ∧ _))

theorem stocked_step {n : Nat} (hi : Silenced i) (h : Stocked (n + if strobe i then 1 else 0) s) :
    Reading s i ∧ Stocked n (step s i) := by
  have hsize : frameSamples = 128 := rfl
  have hlevel := h.level
  have hbase : (step s i).frameBase = s.frameBase := by
    rw [step_frameBase, nextFrameBase, frameBegin, h.drained]
    rfl
  have hrd : (step s i).rd = if strobe i then s.rd + 8 else s.rd := by
    rw [step_rd, nextRd, h.anchored, h.primed]
    simp
  refine ⟨⟨fun _ => h.primed, fun _ => h.anchored⟩, ⟨hi.1, ?_, ?_, ?_⟩⟩
  · have hen : en i = true := hi.2
    have hfull : (128 : Int) ≤ level s := by
      rw [level]
      omega
    rw [step_primed, nextPrimed, hen, h.primed]
    simp [hfull]
  · have hen : en i = true := hi.2
    rw [step_alignedOnce, nextAlignedOnce, hen, h.anchored]
    simp
  · rw [hbase, hrd]
    cases hstrobe : strobe i with
    | false =>
      rw [hstrobe] at hlevel
      exact hlevel
    | true =>
      rw [hstrobe, if_pos rfl] at hlevel
      have hlt := s.frameBase.isLt
      have height : (8 : Word).toNat = 8 := rfl
      rw [if_pos rfl, BitVec.toNat_add, height, Nat.mod_eq_of_lt (by omega)]
      omega

theorem stocked_run (is : List Input) :
    ∀ {s : State}, Stocked (is.countP strobe) s → (∀ i ∈ is, Silenced i) →
      Along step Reading s is := by
  induction is with
  | nil => exact fun _ _ => trivial
  | cons i is ih =>
    intro s h hinputs
    rw [List.countP_cons] at h
    obtain ⟨hread, hnext⟩ := stocked_step (hinputs i (by simp)) h
    exact ⟨hread, ih hnext fun j hj => hinputs j (by simp [hj])⟩

theorem spaced_quiet (is : List Input) (n since : Nat) (h : Spaced (since + n) is) :
    Spaced since (List.replicate n Input.quiet ++ is) := by
  induction n generalizing since with
  | zero => exact h
  | succ n ih =>
    refine ⟨fun hstrobe => absurd hstrobe (by decide), ih (since + 1) ?_⟩
    rw [Nat.add_right_comm]
    exact h

end Registers

/-! ## Four contexts -/

/-- A primed ring, and the reader anchored by a first packet of context 3. -/
def anchoredRing : List Input :=
  [Input.bind 3 0x61 1 0x80 0, Input.tick] ++ List.replicate 100 Input.quiet ++
    List.replicate 130 (Input.usb 0x40 0x12345678)

/-- Eight slots of 60 samples, one slot of 60 twice, and one of two samples, at sample 59 of a
second: all of them are due at the next strobe. -/
def crowding : List Input :=
  anchoredRing ++
    [Input.bind 0 0x48 58 0x80808080 0x80808080, Input.bind 1 0x41 58 0x80 0,
      Input.bind 2 0x41 58 0x80 0, Input.bind 3 0x61 0 0x80 0,
      { Input.quiet with tsLoadRe := true },
      { Input.tick with csr := { Input.quiet.csr with tsLoadSub := 59 } }]

def crowded : State × Frame := run (watch step Frame.next) (State.reset, Frame.empty) crowding

/-- The strobe of sample 59 and the cycle in which the walk begins. -/
def dueTogether : List Input := [Input.tick, Input.quiet]

/-- The frame of context 0 up to its last word, with the strobe of sample 60 in it. -/
@[irreducible] def longFrame : List Input :=
  List.replicate 1040 Input.quiet ++ [Input.tick] ++ List.replicate 824 Input.quiet

/-- The last word, and the frame of context 1 up to the strobe of sample 61. -/
@[irreducible] def untilStrobe : List Input := [Input.quiet] ++ List.replicate 216 Input.quiet

/-- Strobes a sample period apart, and time for all the packets. -/
@[irreducible] def overtaking : List Input :=
  dueTogether ++ longFrame ++ untilStrobe ++ [Input.tick] ++ List.replicate 3000 Input.quiet

/-- What the registers hold at the start. -/
theorem crowded_settled :
    (Along step FrameSafe State.reset crowding ∧ Admissible crowded.1 ∧ crowded.1.fsm = .idle ∧
      (∀ k, (crowded.1.ctx k).pend = false) ∧
      (∀ k, (crowded.1.ctx k).phase < fpp (crowded.1.ctx k).cfg) ∧
      (∀ k, nslots (crowded.1.ctx k).cfg ≠ 0 →
        (crowded.1.ctx k).phase = 59 % fpp (crowded.1.ctx k).cfg)) ∧
    crowded.1.tsSec = 0 ∧ crowded.1.tsSub = 59 ∧ crowded.1.tsLoadPending = false := by
  decide +kernel

theorem crowded_stocked :
    crowded.1.sampVld = false ∧ crowded.1.primed = true ∧ crowded.1.alignedOnce = true ∧
      crowded.1.rd.toNat + 152 ≤ crowded.1.frameBase.toNat := by
  decide +kernel

/-- The four contexts. -/
theorem crowded_cfgs : cfgs crowded.1 = fun k => if k = 0 then 0x48 else if k = 1 then 0x41 else
    if k = 2 then 0x41 else if k = 3 then 0x61 else 0 := by
  funext k
  revert k
  decide +kernel

/-- The walk is at context 0, with the others waiting behind it. -/
theorem crowded_walk :
    (run step crowded.1 dueTogether).fsm = .check ∧ (run step crowded.1 dueTogether).streamIdx = 0 ∧
      (∀ k : CtxId, k.val ≤ 3 → ((run step crowded.1 dueTogether).ctx k).pend = true) ∧
      ((run dispatchStep (crowded.1, Dispatch.start crowded.2 59) dueTogether).2.made 2).map
        Window.first = some 0 := by
  decide +kernel

/-- A cycle with nothing on it but, maybe, a strobe. -/
def Plain (i : Input) : Prop := i = Input.quiet ∨ i = Input.tick

theorem Plain.calm {i : Input} (h : Plain i) :
    Calm i ∧ Steadfast i ∧ Silenced i := by
  rcases h with rfl | rfl <;> decide

theorem plain_replicate (n : Nat) : ∀ i ∈ List.replicate n Input.quiet, Plain i :=
  fun _ hi => .inl (List.eq_of_mem_replicate hi)

theorem plain_overtaking : ∀ i ∈ overtaking, Plain i := by
  have hone : ∀ i ∈ [Input.tick], Plain i := by simp [Plain]
  have hquiet : ∀ i ∈ [Input.quiet], Plain i := by simp [Plain]
  have hboth : ∀ i ∈ dueTogether, Plain i := by simp [dueTogether, Plain]
  simp only [overtaking, longFrame, untilStrobe, List.forall_mem_append]
  exact ⟨⟨⟨⟨hboth, ⟨plain_replicate _, hone⟩, plain_replicate _⟩, hquiet, plain_replicate _⟩, hone⟩,
    plain_replicate _⟩

theorem cfgs_run {is : List Input} {s : State} (hcalm : ∀ i ∈ is, Calm i) :
    cfgs (run step s is) = cfgs s :=
  (Along.of_inputs hcalm : Along step (fun _ i => Calm i) s is).invariant
    (P := fun x => cfgs x = cfgs s) (fun _ _ hi h => (cfgs_step hi.2.1).trans h) rfl

theorem crowded_rest : Settled crowded.1 ∧ Aligned crowded.1 := by
  obtain ⟨⟨-, hadm, hidle, hfree, hlt, hphase⟩, -, hsub, hload⟩ := crowded_settled
  have hval : crowded.1.tsSub.toNat = 59 := by rw [hsub]; rfl
  refine ⟨⟨hadm, hidle, hfree, hlt⟩, ⟨by rw [hval]; decide, hload, fun k hbound => ?_⟩⟩
  rw [hval]
  exact hphase k hbound

/-- The strobe of sample 61 finds the builder at context 1, and context 2 waiting. -/
theorem overtaking_waits :
    let pre := longFrame ++ untilStrobe
    let x := run step crowded.1 dueTogether
    Busy (run step x pre) ∧ (run step x pre).streamIdx = 1 ∧ 2 ≤ remaining (run step x pre) ∧
      Along step (fun s i => served s i 2 = false) x pre := by
  intro pre x
  have hplain := plain_overtaking
  simp only [overtaking, List.forall_mem_append] at hplain
  obtain ⟨⟨⟨⟨hdue, hlong⟩, huntil⟩, -⟩, -⟩ := hplain
  have hcalm : ∀ {is : List Input}, (∀ i ∈ is, Plain i) → ∀ i ∈ is, Calm i :=
    fun h i hi => (h i hi).calm.1
  have hsteady : ∀ {is : List Input}, (∀ i ∈ is, Plain i) → ∀ i ∈ is, Steadfast i :=
    fun h i hi => (h i hi).calm.2.1
  obtain ⟨hfsm, hidx, hpend⟩ : x.fsm = .check ∧ x.streamIdx = 0 ∧
      ∀ k : CtxId, k.val ≤ 3 → (x.ctx k).pend = true :=
    ⟨crowded_walk.1, crowded_walk.2.1, crowded_walk.2.2.1⟩
  have hcfgs : cfgs x = cfgs crowded.1 := cfgs_run (hcalm hdue)
  have hcfg : cfgNow x = 0x48 := by
    show cfgs x x.streamIdx = _
    rw [hcfgs, crowded_cfgs, hidx]
    rfl
  have hplaced : Placed x :=
    (Along.of_inputs (hcalm hdue) : Along step (fun _ i => Calm i) crowded.1 dueTogether).invariant
      (P := Placed) (fun _ _ hi hp => placed_step hp hi.frameSafe) crowded_rest.1.placed
  have hslots : nslots (cfgNow x) ≠ 0 := by rw [hcfg]; decide
  have hcur : (cur x).pend = true := by
    rw [cur, hidx]
    exact hpend 0 (by decide)
  have hbusy : Busy x := ⟨hplaced, hslots, .inl ⟨hfsm, hcur⟩⟩
  have hrem : remaining x = 1866 := by
    simp only [remaining, hfsm, hcfg]
    decide +kernel
  have hlen : longFrame.length = 1865 := by
    rw [longFrame, List.length_append, List.length_append, List.length_replicate,
      List.length_replicate]
    rfl
  obtain ⟨hbusy₁, hidx₁, hrem₁, hserve₁⟩ := busy_run longFrame hbusy (hsteady hlong) (by omega)
  -- the last word of context 0, and the builder goes on to context 1
  have hwait₁ : Along step (fun s i => served s i 2 = false) x longFrame :=
    hserve₁.mono fun s i hserve => by rw [served, hserve, Bool.false_and]
  have hwait₁' : Along step (fun s i => served s i 1 = false) x longFrame :=
    hserve₁.mono fun s i hserve => by rw [served, hserve, Bool.false_and]
  have hpend₁ : ((run step x longFrame).ctx 1).pend = true := pend_run hwait₁' (hpend 1 (by decide))
  have hcfgs₁ : cfgs (run step x longFrame) = cfgs crowded.1 :=
    (cfgs_run (hcalm hlong)).trans hcfgs
  have hcfg₁ : ((run step x longFrame).ctx 1).cfg = 0x41 := by
    show cfgs (run step x longFrame) 1 = _
    rw [hcfgs₁, crowded_cfgs]
    rfl
  have hquiet : Steadfast Input.quiet := by decide
  obtain ⟨hbusy₂, hidx₂, hrem₂⟩ := busy_next hbusy₁ hquiet (by omega) (k := 1)
    (by rw [hidx₁, hidx]; rfl) hpend₁ (by rw [hcfg₁]; decide)
  have hcost : cost 0x41 = 291 := by decide +kernel
  rw [hcfg₁, hcost] at hrem₂
  have hlast : (List.replicate 216 Input.quiet).length = 216 := List.length_replicate
  obtain ⟨hbusy₃, hidx₃, hrem₃, hserve₃⟩ := busy_run (List.replicate 216 Input.quiet) hbusy₂
    (hsteady (plain_replicate 216)) (by omega)
  have hsplit : run step x pre =
      run step (step (run step x longFrame) Input.quiet) (List.replicate 216 Input.quiet) := by
    rw [run_append, untilStrobe, run_append, run_cons, run_nil]
  rw [hsplit]
  refine ⟨hbusy₃, hidx₃.trans hidx₂, by omega, ?_⟩
  rw [Along.append_iff, untilStrobe, Along.append_iff, run_cons, run_nil]
  refine ⟨hwait₁, ⟨?_, trivial⟩, ?_⟩
  · show served _ _ 2 = false
    rw [served, hidx₁, hidx]
    exact Bool.and_false _
  · exact hserve₃.mono fun s i hserve => by rw [served, hserve, Bool.false_and]

theorem overtaking_strobes :
    overtaking.countP strobe = 3 ∧ (dueTogether ++ longFrame ++ untilStrobe).countP strobe = 2 := by
  have hquiet : ∀ n, (List.replicate n Input.quiet).countP strobe = 0 := by
    intro n
    rw [List.countP_replicate, if_neg (by decide)]
  have hone : [Input.tick].countP strobe = 1 := rfl
  have hlast : [Input.quiet].countP strobe = 0 := rfl
  have hdue : dueTogether.countP strobe = 1 := rfl
  constructor <;>
    simp only [overtaking, longFrame, untilStrobe, List.countP_append, hquiet, hone, hlast, hdue]

theorem overtaking_spaced : Spaced strobeGap overtaking := by
  have hgap : strobeGap = 1042 := rfl
  have htick : Input.tick.sampleStrobe = true := rfl
  have hstill : ¬ Input.quiet.sampleStrobe = true := by decide
  have hend : ∀ since, Spaced since (List.replicate 3000 Input.quiet) := by
    intro since
    have hnone := spaced_quiet [] 3000 since trivial
    rwa [List.append_nil] at hnone
  simp only [overtaking, dueTogether, longFrame, untilStrobe, List.append_assoc, List.cons_append,
    List.nil_append]
  refine ⟨fun _ => le_rfl, fun h => absurd h hstill, spaced_quiet _ _ _ ⟨fun _ => ?_, ?_⟩⟩
  · rw [if_neg hstill, if_pos htick]
    omega
  · rw [if_pos htick]
    refine spaced_quiet _ _ _ ⟨fun h => absurd h hstill, spaced_quiet _ _ _ ⟨fun _ => ?_, hend _⟩⟩
    rw [if_neg hstill]
    omega

theorem crowded_count : Stamp.count (crowded.1.tsSec, crowded.1.tsSub) = 59 := by
  obtain ⟨-, hsec, hsub, -⟩ := crowded_settled
  rw [hsec, hsub]
  rfl

theorem crowded_reached : Reached crowded.1 crowded.2 :=
  ⟨crowding, crowded_settled.1.1, rfl⟩

/-- The builder and its log fit over every run without a rebind. -/
theorem assembled_run {s : State} {d : Dispatch} {is : List Input} (hcalm : ∀ i ∈ is, Calm i)
    (h : Admissible s ∧ Assembled s d.frame ∧ (inFlight s = true → (cur s).pend = true)) :
    let x := run dispatchStep (s, d) is
    Admissible x.1 ∧ Assembled x.1 x.2.frame ∧ (inFlight x.1 = true → (cur x.1).pend = true) :=
  (Along.of_inputs hcalm : Along dispatchStep (fun _ i => Calm i) (s, d) is).invariant
    (P := fun p : State × Dispatch => Admissible p.1 ∧ Assembled p.1 p.2.frame ∧
      (inFlight p.1 = true → (cur p.1).pend = true))
    (fun _ _ hi hp => ⟨admissible_step hp.1 hi.frameSafe,
      assembled_step hp.2.1 hp.1 hi.frameSafe, flight_step hp.2.2⟩) h

/-- All that comes before the strobe of sample 61. -/
@[irreducible] def beforeStrobe : List Input := dueTogether ++ (longFrame ++ untilStrobe)

theorem overtaking_eq :
    overtaking = beforeStrobe ++ ([Input.tick] ++ List.replicate 3000 Input.quiet) := by
  rw [overtaking, beforeStrobe]
  simp only [List.append_assoc]

theorem plain_before : ∀ i ∈ beforeStrobe, Plain i := by
  have hplain := plain_overtaking
  rw [overtaking_eq, List.forall_mem_append] at hplain
  exact hplain.1

/-- Context 2 waits with the window of samples 0 to 59. -/
theorem before_waits :
    let x := run dispatchStep (crowded.1, Dispatch.start crowded.2 59) beforeStrobe
    (x.1.ctx 2).pend = true ∧ ∃ w, w.first = 0 ∧ x.2.made 2 = some w := by
  obtain ⟨-, -, -, hwait⟩ := overtaking_waits
  have hwaits := waits_run (k := 2) (longFrame ++ untilStrobe)
    (x := run dispatchStep (crowded.1, Dispatch.start crowded.2 59) dueTogether)
    (by rw [dispatchStep, run_watch_fst]; exact hwait)
    (by rw [dispatchStep, run_watch_fst]; exact crowded_walk.2.2.1 2 (by decide))
  rw [← run_append] at hwaits
  obtain ⟨w, hw, hfirst⟩ := Option.map_eq_some_iff.1 crowded_walk.2.2.2
  rw [hw] at hwaits
  rw [beforeStrobe]
  exact ⟨hwaits.1, w, hfirst, hwaits.2⟩

/-- The builder is at context 1, and the counter at sample 61. -/
theorem before_busy :
    let x := run step crowded.1 beforeStrobe
    Busy x ∧ x.streamIdx = 1 ∧ 2 ≤ remaining x ∧ (x.tsSec, x.tsSub) = stamp 61 ∧
      cfgs x = cfgs crowded.1 ∧ Aligned x := by
  have hcalm : ∀ i ∈ beforeStrobe, Calm i := fun i hi => (plain_before i hi).calm.1
  obtain ⟨hbusy, hidx, hrem, -⟩ := overtaking_waits
  rw [← run_append, ← beforeStrobe] at hbusy hidx hrem
  have hcount : beforeStrobe.countP strobe = 2 := by
    rw [beforeStrobe, ← List.append_assoc]
    exact overtaking_strobes.2
  have htime : ((run step crowded.1 beforeStrobe).tsSec, (run step crowded.1 beforeStrobe).tsSub) =
      stamp (59 + 2) := by
    obtain ⟨-, hsec, hsub, hload⟩ := crowded_settled
    have hstart : (crowded.1.tsSec, crowded.1.tsSub) = stamp 59 := by
      rw [hsec, hsub]
      rfl
    rw [time_run beforeStrobe hload hstart hcalm, hcount]
    rfl
  exact ⟨hbusy, hidx, hrem, htime, cfgs_run hcalm, aligned_run crowded_rest.2 hcalm⟩

/-- At sample 61 context 3 is due. -/
theorem dueStrobe_three {s : State} (htime : (s.tsSec, s.tsSub) = stamp 61) (ha : Aligned s)
    (hthree : (s.ctx 3).cfg = 0x61) : dueStrobe s Input.tick = true := by
  have hphase := ha.phase 3 (by rw [hthree]; decide)
  have hsub : s.tsSub.toNat = 61 := by
    have hsnd : s.tsSub = (stamp 61).2 := congrArg Prod.snd htime
    rw [hsnd]
    rfl
  rw [hsub, hthree] at hphase
  have hdue : due s 3 = true := by
    rw [due, hphase, hthree]
    decide
  have hany : anyDue s = true := decide_eq_true ⟨3, hdue⟩
  rw [dueStrobe, hany]
  rfl

/-- The strobe of sample 61 takes the latches from context 2. -/
theorem overtaking_latched :
    let x := run dispatchStep (crowded.1, Dispatch.start crowded.2 59) beforeStrobe
    ∃ w, w.first = 0 ∧ OnLatches 2 (stamp 61) w (step x.1 Input.tick)
      (Dispatch.next x.1 Input.tick x.2) ∧ cfgs (step x.1 Input.tick) = cfgs crowded.1 ∧
      Busy (step x.1 Input.tick) := by
  have hcalm : ∀ i ∈ beforeStrobe, Calm i := fun i hi => (plain_before i hi).calm.1
  have hinv := assembled_run (s := crowded.1) (d := Dispatch.start crowded.2 59) hcalm
    crowded_reached.assembled
  have hfst : (run dispatchStep (crowded.1, Dispatch.start crowded.2 59) beforeStrobe).1 =
      run step crowded.1 beforeStrobe := run_watch_fst step Dispatch.next beforeStrobe _
  have hbefore := before_busy
  have hwaits := before_waits
  rw [← hfst] at hbefore
  simp only at hinv hbefore hwaits ⊢
  generalize run dispatchStep (crowded.1, Dispatch.start crowded.2 59) beforeStrobe = x at *
  obtain ⟨hbusy, hidx, hrem, htime, hcfgs, haligned⟩ := hbefore
  obtain ⟨hpend, w, hfirst, hmade⟩ := hwaits
  have hcfg : ∀ k, (x.1.ctx k).cfg = cfgs crowded.1 k := fun k => congrFun hcfgs k
  have htick : Calm Input.tick := by decide
  obtain ⟨hbusy', hserve, hstay, -⟩ := busy_step hbusy (by decide : Steadfast Input.tick) hrem
  refine ⟨w, hfirst, onLatches_taken hinv.1 hinv.2.1 hinv.2.2 htick hserve ?_ ?_ hpend hmade htime
    (dueStrobe_three htime haligned ?_), (cfgs_step htick.2.1).trans hcfgs, hbusy'⟩
  · rw [hstay, hidx]
    decide
  · rw [hcfg, crowded_cfgs]
    decide
  · rw [hcfg, crowded_cfgs]
    rfl

/-- From rest, with aligned phases, strobes a sample period apart, a MAC that is always ready and a
ring that is primed throughout, context 2 is made due for the window of samples 0 to 59.  The
strobe of sample 61, which makes context 3 due, takes the latches while context 2 waits behind two
others, and the packet goes out with the timestamp of sample 2. -/
theorem window_lost :
    (Reached crowded.1 crowded.2 ∧ Settled crowded.1 ∧ Aligned crowded.1 ∧
      (∀ i ∈ overtaking, Calm i ∧ i.sourceReady = true) ∧ Spaced strobeGap overtaking ∧
      Along step Reading crowded.1 overtaking) ∧
    ∃ p ∈ (run dispatchStep (crowded.1, Dispatch.start crowded.2
        (Stamp.count (crowded.1.tsSec, crowded.1.tsSub))) overtaking).2.sent,
      ∃ w, p.window = some w ∧ w.first = 0 ∧ wireStamp p.words = stamp 2 ∧ ¬ p.Covers w := by
  have hplain := plain_overtaking
  have hinputs : ∀ i ∈ overtaking, Calm i ∧ i.sourceReady = true := fun i hi =>
    ⟨(hplain i hi).calm.1, (hplain i hi).calm.2.1.1⟩
  have hstocked : Stocked (overtaking.countP strobe) crowded.1 := by
    obtain ⟨hdrained, hprimed, hanchored, hlevel⟩ := crowded_stocked
    have hsize : frameSamples = 128 := rfl
    rw [overtaking_strobes.1]
    exact ⟨hdrained, hprimed, hanchored, by omega⟩
  refine ⟨⟨crowded_reached, crowded_rest.1, crowded_rest.2, hinputs, overtaking_spaced,
    stocked_run overtaking hstocked fun i hi => (hplain i hi).calm.2.2⟩, ?_⟩
  rw [crowded_count]
  obtain ⟨w, hfirst, hlatches, hcfgs, hbusy⟩ := overtaking_latched
  have hquiet : ∀ i ∈ List.replicate 3000 Input.quiet, Calm i ∧ i.sourceReady = true ∧
      i.sampleStrobe = false := by
    intro i hi
    rw [List.eq_of_mem_replicate hi]
    decide
  have hwalk : walkTime (cfgs crowded.1) ≤ 3000 := by
    rw [crowded_cfgs]
    decide +kernel
  have hother : stamp 2 ≠ stamp 0 := by decide
  rw [overtaking_eq, run_append, run_append, run_cons, run_nil]
  generalize run dispatchStep (crowded.1, Dispatch.start crowded.2 59) beforeStrobe = x at *
  have hstep : dispatchStep x Input.tick =
      (step x.1 Input.tick, Dispatch.next x.1 Input.tick x.2) := rfl
  rw [hstep]
  have hshort : distance (step x.1 Input.tick) 2 ≤ (List.replicate 3000 Input.quiet).length := by
    have hle := distance_le (k := 2) ⟨hlatches.admissible, _, hlatches.assembled⟩
      fun _ => hbusy.slots
    rw [hcfgs] at hle
    rw [List.length_replicate]
    omega
  obtain ⟨p, hp, hwindow, hstamp⟩ := onLatches_run _ hlatches hquiet hshort
  have hcfg : ((step x.1 Input.tick).ctx 2).cfg = 0x41 := by
    show cfgs (step x.1 Input.tick) 2 = 0x41
    rw [hcfgs, crowded_cfgs]
    rfl
  have hlate : windowStart (fpp 0x41) (stamp 61) = stamp 2 := by decide
  rw [hcfg, hlate] at hstamp
  refine ⟨p, hp, w, hwindow, hfirst, hstamp, fun hcovers => ?_⟩
  have hsame := hcovers.stamp
  rw [hstamp, hfirst] at hsame
  exact hother hsame

end Packetizer
end InfernoFpga
