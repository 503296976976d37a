import InfernoFpga.Packetizer.Integrity
import InfernoFpga.Packetizer.Stream

/-!
# Audio — what a receiver hears

The windows of a stream lie in the rings one behind the other, and what is read for a window is what
the host had written for its frames.  So the samples that a receiver decodes, packet after packet,
are those of consecutive USB frames.
-/

namespace InfernoFpga
namespace Packetizer

open Lib

/-! ## Reads and frames -/

/-- What was read for channel `c` of the window was heard in its frames; sample `t` of the media
clock goes with frame `A + t - 1`. -/
def ReadHeard (A : Int) (c : Nat) (b : Ctx) (w : Window) (heard : List Heard) (f : Frame) : Prop :=
  ∀ m < f.fetches.length, m < packetSamples b.cfg →
    let x := f.fetches.getD m Fetch.none
    x.valid = true → (mapEntry b (m % nslots b.cfg)).toNat % 64 = c →
      ∃ h ∈ heard, h.For (A + w.first - 1 + (m / nslots b.cfg : Nat)) c ∧ x.data = h.sample.audio

/-- The address on the rings is that of read `m` of the window. -/
structure Aimed (A : Int) (b : Ctx) (w : Window) (o : Sight) (m : Nat) : Prop where
  start : o.position.start = A + w.first - 1
  sample : o.position.sample = m / nslots b.cfg
  channel : o.position.channel = (mapEntry b (m % nslots b.cfg)).toNat % 64
  inside : o.position.inside = true

/-- The rings' reader against the windows. -/
structure Hearing (A : Int) (c : Nat) (s : State) (o : Sight) (a : Air) : Prop where
  offset : o.ledger.base + o.ledger.consumed = A + a.dispatch.sample
  latched : ∀ k w, (s.ctx k).pend = true → a.dispatch.made k = some w →
    Drawn 4 s k ∨ o.snapshot.frame = A + w.first + (fpp (s.ctx k).cfg - 1)
  aimed : fetch s = true → ∀ w, a.dispatch.made s.streamIdx = some w →
    a.dispatch.frame.fetches.length < packetSamples (cfgNow s) →
      Aimed A (cur s) w o a.dispatch.frame.fetches.length
  read : inFlight s = true → ∀ w, a.dispatch.made s.streamIdx = some w →
    ReadHeard A c (cur s) w o.heard a.dispatch.frame
  sent : ∀ x ∈ a.sent, ∀ w, x.packet.window = some w →
    ReadHeard A c x.packet.binding w o.heard x.packet.frame

section Cycle

variable {A : Int} {c : Nat} {s : State} {o : Sight} {a : Air} {i : Input} {k : CtxId} {w : Window}

theorem ReadHeard.mono {b : Ctx} {heard heard' : List Heard} {f : Frame}
    (h : ReadHeard A c b w heard f) (hsub : ∀ x ∈ heard, x ∈ heard') :
    ReadHeard A c b w heard' f := by
  intro m hm hsamples x hvalid hchan
  obtain ⟨y, hy, hfor, hdata⟩ := h m hm hsamples hvalid hchan
  exact ⟨y, hsub y hy, hfor, hdata⟩

theorem ReadHeard.congr {b b' : Ctx} {heard : List Heard} {f : Frame}
    (h : ReadHeard A c b w heard f)
    (hb : b'.cfg = b.cfg ∧ b'.cmlo = b.cmlo ∧ b'.cmhi = b.cmhi) :
    ReadHeard A c b' w heard f := by
  obtain ⟨hcfg, hlo, hhi⟩ := hb
  intro m hm
  simp only [mapEntry, hcfg, hlo, hhi]
  exact h m hm

theorem heard_next (x : Heard) (hx : x ∈ o.heard) : x ∈ (Sight.next s i o).heard :=
  List.mem_append_left _ hx

/-- The reader goes on with the media clock. -/
theorem offset_step (hread : Reading s i) (h : Hearing A c s o a) :
    (Sight.next s i o).ledger.base + (Sight.next s i o).ledger.consumed =
      A + (Air.next s i a).dispatch.sample := by
  have hoffset := h.offset
  have hanchor : (walkStart s && !s.alignedOnce) = false := by
    cases hwalk : walkStart s with
    | false => rfl
    | true => rw [hread.2 hwalk]; rfl
  have hledger : (Sight.next s i o).ledger = Ledger.next s i o.ledger := rfl
  have hsample : (Air.next s i a).dispatch.sample =
      if strobe i then a.dispatch.sample + 1 else a.dispatch.sample := rfl
  rw [hledger, hsample]
  simp only [Ledger.next, hanchor, Bool.false_eq_true, if_false]
  cases hstrobe : strobe i with
  | false => simpa [hstrobe] using hoffset
  | true =>
    rw [hread.1 hstrobe]
    simp only [Bool.and_true, if_true]
    omega

/-- A packet that is pending and not just made due was pending before. -/
theorem pending_before (hmakes : makesDue s i k = false) (hpend : ((step s i).ctx k).pend = true) :
    (s.ctx k).pend = true ∧ served s i k = false := by
  rw [step_ctx, nextCtx_pend] at hpend
  rw [makesDue] at hmakes
  cases hdue : dueEvent s i k <;> cases hserved : served s i k <;>
    simp [hdue, hserved] at hmakes hpend ⊢ <;> assumption

theorem latched_step (hi : Calm i) (hsafe : LatchSafe s i) (hf : Followed s a.dispatch)
    (h : Hearing A c s o a) (hpend : ((step s i).ctx k).pend = true)
    (hmade : (Air.next s i a).dispatch.made k = some w) :
    Drawn 4 (step s i) k ∨
      (Sight.next s i o).snapshot.frame = A + w.first + (fpp ((step s i).ctx k).cfg - 1) := by
  have hcfg : ((step s i).ctx k).cfg = (s.ctx k).cfg := (nextCtx_map hi.2.1 k).1
  have hsnapshot : (Sight.next s i o).snapshot.frame =
      if dueStrobe s i then o.ledger.base + o.ledger.consumed else o.snapshot.frame := by
    show (if dueStrobe s i then (_ : Snapshot) else o.snapshot).frame = _
    split <;> rfl
  have hmade' : (if makesDue s i k then some (Dispatch.window s a.dispatch.sample k)
      else a.dispatch.made k) = some w := hmade
  rw [hcfg, hsnapshot]
  cases hmakes : makesDue s i k with
  | true =>
    -- made due by this strobe, which takes the snapshot too
    rw [hmakes, if_pos rfl, Option.some.injEq] at hmade'
    have hstrobe : dueStrobe s i = true := by
      simp only [makesDue, dueEvent, Bool.and_eq_true] at hmakes
      rw [dueStrobe, hmakes.1.1, Bool.true_and]
      exact decide_eq_true ⟨k, hmakes.1.2⟩
    have hfirst : w.first = a.dispatch.sample - ((fpp (s.ctx k).cfg : Int) - 1) := by
      rw [← hmade']
      rfl
    refine Or.inr ?_
    rw [if_pos hstrobe, h.offset, hfirst]
    omega
  | false =>
    -- pending from before: a later strobe finds all that matters of it drawn
    rw [hmakes, if_neg (by decide)] at hmade'
    obtain ⟨hold, hserved⟩ := pending_before hmakes hpend
    have hgo : Drawn 5 s k → Drawn 4 (step s i) k := by
      intro hdrawn
      have hserve : serveNow s i = false := by
        rwa [served, hdrawn.1, beq_self_eq_true, Bool.and_true] at hserved
      exact drawn_step hf.admissible hf.assembled hi.frameSafe hserve hdrawn
    rcases h.latched k w hold hmade' with hdrawn | hlatch
    · exact Or.inl (hgo (hdrawn.mono (by decide)))
    · cases hstrobe : dueStrobe s i with
      | true => exact Or.inl (hgo (hsafe hstrobe k hold))
      | false => exact Or.inr hlatch

/-- The slot that is addressed, as the channel map has it. -/
theorem csCh_eq (hadm : Admissible s) (hbound : nslots (cfgNow s) ≠ 0)
    (hslot : s.csSlot = sweepPos s % nslots (cfgNow s)) :
    csCh s = (mapEntry (cur s) (sweepPos s % nslots (cfgNow s))).toNat % 64 := by
  have hle : nslots (cfgNow s) ≤ 8 := hadm s.streamIdx
  have hlt : s.csSlot < nslots (cfgNow s) := hslot ▸ Nat.mod_lt _ (Nat.pos_of_ne_zero hbound)
  rw [csCh, csEnt, ← hslot, mapEntry, Nat.min_eq_left (by omega)]

/-- The builder stays with a context that is left alone. -/
theorem cur_next (hi : Calm i) (hidx : (step s i).streamIdx = s.streamIdx) :
    (cur (step s i)).cfg = (cur s).cfg ∧ (cur (step s i)).cmlo = (cur s).cmlo ∧
      (cur (step s i)).cmhi = (cur s).cmhi := by
  have hcur : cur (step s i) = nextCtx s i s.streamIdx := by
    show nextCtx s i (step s i).streamIdx = _
    rw [hidx]
  rw [hcur]
  exact nextCtx_map hi.2.1 s.streamIdx

/-- The cycle before any but the first byte of a build is of the same build. -/
theorem before_build (hf : Followed s a.dispatch) (hfsm' : (step s i).fsm = .build)
    (hpos : (step s i).byteIdx ≠ 0) : s.fsm = .build ∧ (step s i).byteIdx = s.byteIdx + 1 := by
  have hflight' : inFlight (step s i) = true := by
    rw [inFlight, hfsm']
    rfl
  obtain ⟨hserve, -, -, hbefore⟩ := before_inFlight hf hflight'
  have hfsm : s.fsm = .build := by
    rcases hbefore with hflight | ⟨hcheck, -⟩
    · cases hfsm : s.fsm with
      | build => rfl
      | prefetch =>
        rw [step_fsm, nextFsm, hfsm] at hfsm'
        cases hfsm'
      | stream =>
        rw [step_fsm, nextFsm_stream hfsm, hserve] at hfsm'
        cases hfsm'
      | _ =>
        rw [inFlight, hfsm] at hflight
        cases hflight
    · -- the check is followed by the first byte
      have hasm := hf.assembled
      rw [Assembled, hcheck] at hasm
      have hzero : (step s i).byteIdx = 0 := by
        have hrestart : restart s i = false :=
          restart_of_ne (by simp [hcheck]) (by simp [hcheck]) (by simp [hcheck])
        simp [nextByteIdx, hrestart, hcheck, hasm.1]
      exact absurd hzero hpos
  have hlast : isLast s = false := by
    cases hlast : isLast s with
    | false => rfl
    | true =>
      rw [step_fsm, nextFsm_build hfsm, if_pos hlast] at hfsm'
      cases hfsm'
  have hbuild : Building s a.dispatch.frame := by
    have hasm := hf.assembled
    rwa [Assembled, hfsm] at hasm
  have hlong := hbuild.lt
  have hsmall : fTotal (cfgNow s) ≤ 1491 := fTotal_le (hf.admissible s.streamIdx)
  exact ⟨hfsm, byteIdx_build hfsm hlast (by omega)⟩

/-- The cycle before a read addresses it. -/
theorem aimed_step (hi : Calm i) (hf : Followed s a.dispatch)
    (hf' : Followed (step s i) (Air.next s i a).dispatch) (h : Hearing A c s o a)
    (hfetch : fetch (step s i) = true)
    (hmade : (Air.next s i a).dispatch.made (step s i).streamIdx = some w)
    (hlt : (Air.next s i a).dispatch.frame.fetches.length < packetSamples (cfgNow (step s i))) :
    Aimed A (cur (step s i)) w (Sight.next s i o)
      (Air.next s i a).dispatch.frame.fetches.length := by
  have hfsm' : (step s i).fsm = .build := by
    simp only [fetch, Bool.and_eq_true, beq_iff_eq] at hfetch
    exact hfetch.1.1
  have hflight' : inFlight (step s i) = true := by
    rw [inFlight, hfsm']
    rfl
  have hsweep' := sweeping_of_swept hfsm' (hf'.swept hflight' w hmade)
  obtain ⟨hserve, hidx, hpend, -⟩ := before_inFlight hf hflight'
  have hmade' : (Dispatch.next s i a.dispatch).made (step s i).streamIdx = some w := hmade
  rw [hidx, made_inFlight hpend hserve] at hmade'
  obtain ⟨hprimed', hwhen'⟩ := (fetch_iff hfsm' hsweep').1 hfetch
  obtain ⟨hfsm, hbyte⟩ := before_build hf hfsm' (by omega)
  have hflight : inFlight s = true := by simp [inFlight, hfsm]
  have hsweep := sweeping_of_swept hfsm (hf.swept hflight w hmade')
  have hbound : nslots (cfgNow s) ≠ 0 := hf.slots _ w hmade'
  have hprimed : s.pktPrimed = true := by rwa [← pktPrimed_step (i := i) (by simp [hfsm])]
  have hbph := hsweep.bph
  have hcur : (cur (step s i)).cfg = (cur s).cfg ∧ (cur (step s i)).cmlo = (cur s).cmlo ∧
      (cur (step s i)).cmhi = (cur s).cmhi := cur_next hi hidx
  have hcfg : cfgNow (step s i) = cfgNow s := hcur.1
  -- the read to come is at the position that the sweep is at
  have hlen : (Air.next s i a).dispatch.frame.fetches.length = sweepPos s := by
    have hcount : (Frame.next s i a.dispatch.frame).fetches.length = _ := count_fetch hfsm hsweep
    show (Frame.next s i a.dispatch.frame).fetches.length = sweepPos s
    rw [hcount, hprimed, Bool.true_and]
    rcases hwhen' with hfirst | ⟨hpay, hend⟩
    · rw [if_neg (by rw [decide_eq_true_iff]; omega), sweepPos, if_pos (by omega)]
    · rw [if_pos (by rw [decide_eq_true_iff]; omega), if_neg (by omega)]
  have hwhen : s.byteIdx = 0 ∨ s.bph = 1 := by
    rcases hwhen' with hfirst | ⟨hpay, hend⟩
    · exact Or.inl (by omega)
    · refine Or.inr ?_
      rw [hbph, if_neg (by omega)]
      omega
  rw [hlen, hcfg] at hlt
  rw [hlen]
  have hnot := not_drawn_address (k := s.streamIdx) hf.admissible hbound hfsm hsweep hwhen hlt
  have hsnapshot := (h.latched s.streamIdx w hpend hmade').resolve_left hnot
  have hslot := hsweep.slot hprimed
  have hsamp := hsweep.samp hprimed
  have hfpp : (curFpp s : Int) = fpp (s.ctx s.streamIdx).cfg := rfl
  have hentry : ∀ n, mapEntry (cur (step s i)) n = mapEntry (cur s) n := fun n => by
    rw [mapEntry, mapEntry, hcur.2.1, hcur.2.2]
  refine ⟨?_, ?_, ?_, decide_eq_true ?_⟩
  · show o.snapshot.frame - curFpp s = _
    rw [hsnapshot, hfpp]
    omega
  · rw [hcur.1]
    exact hsamp
  · rw [hcur.1, hentry]
    exact csCh_eq hf.admissible hbound hslot
  · rw [hsamp]
    exact Nat.div_lt_of_lt_mul hlt

/-- What was heard at the snapshot of a window that is read has been heard. -/
theorem snapshot_heard (hw : Watched c s o) (hs : Sound c (s, o) i)
    (hread : Sight.reading s o = true) (hchan : o.position.channel = c) :
    ∀ y ∈ o.position.snapshot.heard, y ∈ o.heard := by
  have hanchored : o.position.snapshot.anchor ≤ o.position.start := hs.anchored hread hchan
  obtain ⟨hwhole, -, hwindow⟩ := hw.position
  rw [Sight.reading, Bool.and_eq_true] at hread
  obtain ⟨hstart, -⟩ := hwindow hread.2
  exact (hwhole (by omega)).2.2.1

/-- Every read of a frame under way is of what was heard. -/
theorem read_step (hc : c < channels * streams) (hi : Calm i) (hf : Followed s a.dispatch)
    (hw : Watched c s o) (hs : Sound c (s, o) i) (h : Hearing A c s o a)
    (hflight : inFlight (step s i) = true)
    (hmade : (Air.next s i a).dispatch.made (step s i).streamIdx = some w) :
    ReadHeard A c (cur (step s i)) w (Sight.next s i o).heard
      (Air.next s i a).dispatch.frame := by
  obtain ⟨hserve, hidx, hpend, hbefore⟩ := before_inFlight hf hflight
  have hmade' : (Dispatch.next s i a.dispatch).made (step s i).streamIdx = some w := hmade
  rw [hidx, made_inFlight hpend hserve] at hmade'
  have hold : ReadHeard A c (cur s) w o.heard a.dispatch.frame := by
    rcases hbefore with hflight' | ⟨hcheck, -⟩
    · exact h.read hflight' w hmade'
    · have hrest := hf.rest (by simp [inFlight, hcheck]) fun _ _ _ _ => True
      rw [Swept, hcheck] at hrest
      intro m hm
      rw [hrest.2.2.2] at hm
      cases hm
  have hrestart : restart s i = false := by
    rcases hbefore with hflight' | ⟨hcheck, -⟩
    · have hidle : s.fsm ≠ .idle := fun hfsm => by simp [inFlight, hfsm] at hflight'
      have hskip : s.fsm ≠ .skip := fun hfsm => by simp [inFlight, hfsm] at hflight'
      simp [restart, walkStart_of_ne hidle, advance, hserve, hskip]
    · exact restart_of_ne (by simp [hcheck]) (by simp [hcheck]) (by simp [hcheck])
  refine ReadHeard.congr (b := cur s) ?_ (cur_next hi hidx)
  show ReadHeard A c (cur s) w _ (Frame.next s i a.dispatch.frame)
  have hfetches : (Frame.next s i a.dispatch.frame).fetches =
      if fetch s then a.dispatch.frame.fetches ++ [taken s] else a.dispatch.frame.fetches := by
    rw [Frame.next, hrestart]
    rfl
  intro m hm hsamples
  rw [hfetches] at hm ⊢
  cases hfetch : fetch s with
  | false =>
    rw [hfetch] at hm
    exact hold.mono heard_next m hm hsamples
  | true =>
    rw [hfetch, if_pos rfl, List.length_append, List.length_singleton] at hm
    rw [if_pos rfl, getD_append_fetch]
    by_cases hlast : m = a.dispatch.frame.fetches.length
    · -- the read that is taken now
      rw [if_pos hlast]
      intro x hvalid hchan
      have haim := h.aimed hfetch w hmade' (hlast ▸ hsamples)
      rw [← hlast] at haim
      have hread : Sight.reading s o = true := by
        have hvld : s.csVldD = true := hvalid
        rw [Sight.reading, hfetch, hvld, haim.inside]
        rfl
      have hchan' : o.position.channel = c := haim.channel.trans hchan
      obtain ⟨y, hy, hfor, hdata⟩ := faithful_read hc hw hs hread hchan'
      refine ⟨y, heard_next y (snapshot_heard hw hs hread hchan' y hy), ?_, hdata⟩
      have hframe : o.position.frame = A + w.first - 1 + (m / nslots (cur s).cfg : Nat) := by
        rw [Position.frame, haim.start, haim.sample]
      rwa [← hframe, ← hchan']
    · rw [if_neg hlast]
      exact hold.mono heard_next m (by omega) hsamples

theorem hearing_step (hc : c < channels * streams) (hi : Calm i) (hsafe : LatchSafe s i)
    (hread : Reading s i) (hf : Followed s a.dispatch) (hw : Watched c s o)
    (hs : Sound c (s, o) i) (h : Hearing A c s o a) :
    Hearing A c (step s i) (Sight.next s i o) (Air.next s i a) where
  offset := offset_step hread h
  latched := fun _ _ hpend hmade => latched_step hi hsafe hf h hpend hmade
  aimed := fun hfetch _ hmade hlt =>
    aimed_step hi hf (followed_step hi hsafe hf) h hfetch hmade hlt
  read := fun hflight _ hmade => read_step hc hi hf hw hs h hflight hmade
  sent := fun x hx w hw' => by
    simp only [Air.next] at hx
    cases hserve : serveNow s i with
    | false =>
      rw [hserve] at hx
      exact (h.sent x hx w hw').mono heard_next
    | true =>
      rw [hserve, if_pos rfl, List.mem_append, List.mem_singleton] at hx
      rcases hx with hx | rfl
      · exact (h.sent x hx w hw').mono heard_next
      · have hflight := (served_inFlight (served_iff.2 ⟨hserve, rfl⟩)).1
        exact (h.read hflight w hw').mono heard_next

end Cycle

/-! ## From the host to the receiver -/

/-- The payload samples of a frame on the wire but the last one: zero for a slot without a channel,
and what was read for the others. -/
theorem sample_decoded {c : Csr} {b : Ctx} {w : Window} {x : OnAir} (hle : nslots b.cfg ≤ 8)
    (hshape : 4 ∣ nslots b.cfg * fpp b.cfg) (hform : x.Formed c b w.first)
    (hcovers : x.packet.Covers w) (haudio : x.packet.audio = true) {m : Nat}
    (hm : m + 1 < packetSamples b.cfg) :
    let v := (DanteDecode.samples ((DanteDecode.payloadOf x.bytes).drop 9)).getD m 0
    let r := x.packet.frame.fetches.getD m Fetch.none
    m < x.packet.frame.fetches.length ∧
      r.valid = (mapEntry b (m % nslots b.cfg)).getLsbD 7 ∧
        v = (if r.valid then r.data else 0).toInt / 256 := by
  have hcfg : x.packet.binding.cfg = b.cfg := by
    show (bound x.packet.binding).cfg = (bound b).cfg
    rw [hform.binding]
  have hentry : ∀ n, mapEntry x.packet.binding n = mapEntry b n := fun n => by
    show mapEntry (bound x.packet.binding) n = mapEntry (bound b) n
    rw [hform.binding]
  have hlast : 54 + 3 * m ≤ 4 * fLastIdx b.cfg := by
    have hsamples : packetSamples b.cfg = nslots b.cfg * fpp b.cfg := rfl
    rw [fLastIdx_eq hle]
    omega
  have hreads := hcovers.reads haudio m (by rw [hcfg]; omega)
  obtain ⟨hlen, -, -, hvalid⟩ := hreads
  refine ⟨hlen, ?_, ?_⟩
  · rw [hvalid, hcfg, hentry]
  · rw [hform.payload hle, List.drop_drop]
    exact hform.sample hlast

theorem hearing_start {A : Int} {c : Nat} {s : State} {o : Sight} {f : Frame} (h : Settled s)
    (hA : A = o.ledger.base + o.ledger.consumed - sampleNow s) :
    Hearing A c s o (Air.start f (sampleNow s)) where
  offset := by rw [hA]; exact (sub_add_cancel _ _).symm
  latched := fun k _ hpend => by rw [h.free k] at hpend; cases hpend
  aimed := fun hfetch => by simp [fetch, h.idle] at hfetch
  read := fun hflight => by simp [inFlight, h.idle] at hflight
  sent := fun _ hx => by cases hx

/-- The talker in operation, with both observers. -/
theorem hearing_run {A : Int} {c : Nat} {csr : Csr} {s : State} {o : Sight} {f : Frame}
    {is : List Input} (hc : c < channels * streams) (h : Timely csr s is)
    (hread : Along step Reading s is) (hreach : Reached s f) (hwatched : Watched c s o)
    (hsound : Along sighted (Sound c) (s, o) is)
    (hA : A = o.ledger.base + o.ledger.consumed - sampleNow s) :
    Hearing A c (run step s is) (run sighted (s, o) is).2
      (run airStep (s, Air.start f (sampleNow s)) is).2 := by
  have hinputs : Along (watch step (both Sight.next Air.next)) (fun _ i => Undisturbed csr i)
      (s, o, Air.start f (sampleNow s)) is := Along.of_inputs h.undisturbed
  have hguard := (((hinputs.and (along_watch h.latch)).and (along_watch h.due)).and
    (along_watch hread)).and (along_both_fst (Air.start f (sampleNow s)) hsound)
  have hinv := hguard.invariant
    (P := fun p : State × (Sight × Air) => Streaming csr s (p.1, p.2.2) ∧
      Watched c p.1 p.2.1 ∧ Hearing A c p.1 p.2.1 p.2.2)
    (fun p i hi hp => by
      obtain ⟨⟨⟨⟨hundisturbed, hlatch⟩, hdue⟩, hread⟩, hs⟩ := hi
      obtain ⟨hstream, hwatched, hhear⟩ := hp
      exact ⟨Streaming.next (p := (p.1, p.2.2)) hundisturbed hlatch hdue hstream,
        watched_step hwatched hs,
        hearing_step hc hundisturbed.calm hlatch hread hstream.followed hwatched hs hhear⟩)
    ⟨h.start hreach, hwatched, hearing_start h.settled hA⟩
  rw [run_both] at hinv
  exact hinv.2.2

/-- The rings are anchored by a silent packet and primed, and a context of two slots is bound. -/
def audioPrimed : List Input :=
  [Input.bind 0 0x62 1 0x8180 0, Input.tick, Input.quiet] ++ monoFrames 90 0x12345678 ++
    [Input.bind 0 0 0 0 0] ++ monoFrames 50 0x12345678 ++ List.replicate 3 Input.tick ++
      [Input.bind 0 0x62 0 0x8180 0]

/-- Two strobes, and time for the packet. -/
def audioGroup : List Input := [Input.tick, Input.tick] ++ List.replicate 90 Input.quiet

end Packetizer
end InfernoFpga
