import InfernoFpga.Packetizer.Pacing

/-!
# Readback — the timestamp the CPU reads back

The debug registers latch the emit latches when a walk starts, and the emit latches hold the counter
of the strobe that started it.  So they never hold what the header of a packet says: the header goes
back to the start of the window.  Against the running counter they are less than one group behind,
or one sample more on the cycle before they are latched again.
-/

namespace InfernoFpga
namespace Packetizer

open Lib

/-- `dbg_last_sec` and `dbg_last_ts`. -/
def readBack (s : State) : Stamp := (s.dbgSec, s.dbgTs)

/-- What an observer records: the frame in progress, and whether the debug registers were latched
since it started. -/
structure Report where
  frame : Frame
  fresh : Bool

def Report.next (s : State) (i : Input) (r : Report) : Report :=
  { frame := Frame.next s i r.frame, fresh := r.fresh || doEmit s }

/-- The talker is on, neither load nor rebind is made, and a walk that is asked for finds the
builder idle. -/
structure Served (s : State) (i : Input) : Prop where
  calm : Calm i
  enabled : en i = true
  idle : s.sendReq = true → s.fsm = .idle

instance (s : State) (i : Input) : Decidable (Served s i) :=
  decidable_of_iff (Calm i ∧ en i = true ∧ (s.sendReq = true → s.fsm = .idle))
    ⟨fun h => ⟨h.1, h.2.1, h.2.2⟩, fun h => ⟨h.calm, h.enabled, h.idle⟩⟩

/-- How far the debug registers can be behind the counter, in the eyes of context `k`. -/
def behind (k : CtxId) (s : State) : Nat :=
  if s.sendReq then fpp (s.ctx k).cfg else (s.ctx k).phase

/-- The latches against the counter, which is at sample `n`. -/
structure Echoed (k : CtxId) (n : Int) (s : State) (r : Report) : Prop where
  admissible : Admissible s
  assembled : Assembled s r.frame
  bound : nslots (s.ctx k).cfg ≠ 0
  loaded : s.tsLoadPending = false
  time : (s.tsSec, s.tsSub) = stamp n
  phase : (s.ctx k).phase < fpp (s.ctx k).cfg
  emit : r.fresh = true ∨ s.sendReq = true →
    ∃ m, (s.tsSecEmit, s.tsSubEmit) = stamp m ∧ n - 1 - (s.ctx k).phase ≤ m ∧ m ≤ n - 1
  read : r.fresh = true → ∃ m, readBack s = stamp m ∧ n - 1 - behind k s ≤ m ∧ m ≤ n - 1
  same : r.fresh = true → s.sendReq = false → readBack s = (s.tsSecEmit, s.tsSubEmit)
  flight : r.fresh = true → s.sendReq = false → inFlight s = true →
    nslots (cfgNow s) ≠ 0 ∧ BytesMeet (StampByte (headerStamp s)) r.frame

section Echo

variable {k : CtxId} {n : Int} {s : State} {r : Report} {i : Input}

/-- The counter moves on by the strobes. -/
theorem time_step (hload : s.tsLoadPending = false) (ht : (s.tsSec, s.tsSub) = stamp n) :
    ((step s i).tsSec, (step s i).tsSub) = stamp (n + if strobe i then 1 else 0) := by
  cases hstrobe : strobe i with
  | true => exact time_strobe hload ht hstrobe
  | false =>
    rw [time_still hstrobe, ht]
    exact congrArg stamp (add_zero n).symm

/-- The debug registers take the emit latches when a walk starts. -/
theorem readBack_step (hi : Served s i) :
    readBack (step s i) =
      if s.sendReq then (s.tsSecEmit, s.tsSubEmit) else readBack s := by
  have hemit : doEmit s = s.sendReq := by
    cases hreq : s.sendReq with
    | false => simp [doEmit, hreq]
    | true => simp [doEmit, hreq, hi.idle hreq]
  show ((if en i && doEmit s then s.tsSecEmit else s.dbgSec),
    (if en i && doEmit s then s.tsSubEmit else s.dbgTs)) = _
  rw [hi.enabled, hemit, Bool.true_and]
  cases s.sendReq <;> rfl

theorem emit_step (hi : Served s i) :
    ((step s i).tsSecEmit, (step s i).tsSubEmit) =
      if dueStrobe s i then (s.tsSec, s.tsSub) else (s.tsSecEmit, s.tsSubEmit) := by
  show ((if dueStrobe s i then s.tsSec else s.tsSecEmit),
    (if dueStrobe s i then s.tsSub + i.csr.tsOffset else s.tsSubEmit)) = _
  rw [hi.calm.2.2]
  cases dueStrobe s i with
  | true => exact Prod.ext rfl (BitVec.add_zero _)
  | false => rfl

/-- A context that is not due counts the strobe; one that is makes it a due strobe. -/
theorem phase_served (hi : Served s i) (hbound : nslots (s.ctx k).cfg ≠ 0)
    (hphase : (s.ctx k).phase < fpp (s.ctx k).cfg) :
    ((step s i).ctx k).phase < fpp (s.ctx k).cfg ∧
      (((step s i).ctx k).phase = (s.ctx k).phase + (if strobe i then 1 else 0) ∨
        strobe i = true ∧ dueStrobe s i = true) := by
  have hle := fpp_le (s.ctx k).cfg
  rw [step_ctx, nextCtx_phase hi.calm.2.1]
  cases hstrobe : strobe i with
  | false => exact ⟨hphase, Or.inl rfl⟩
  | true =>
    by_cases hlast : (s.ctx k).phase = fpp (s.ctx k).cfg - 1
    · have hdue : due s k = true := (due_iff hbound rfl).2 (by omega)
      have hany : dueStrobe s i = true := by
        rw [dueStrobe, hstrobe, anyDue, Bool.true_and, decide_eq_true_iff]
        exact ⟨k, hdue⟩
      rw [if_pos rfl, if_pos hlast]
      exact ⟨by omega, Or.inr ⟨rfl, hany⟩⟩
    · rw [if_pos rfl, if_neg hlast, Nat.mod_eq_of_lt (by omega)]
      exact ⟨by omega, Or.inl rfl⟩

/-- What the debug registers hold after a cycle, counted from before it. -/
theorem Echoed.read_step (h : Echoed k n s r) (hi : Served s i)
    (hfresh : (Report.next s i r).fresh = true) :
    ∃ m, readBack (step s i) = stamp m ∧ n - 1 - (s.ctx k).phase ≤ m ∧ m ≤ n - 1 := by
  rw [readBack_step hi]
  cases hreq : s.sendReq with
  | true => exact h.emit (Or.inr hreq)
  | false =>
    have hold : r.fresh = true := by simpa [Report.next, doEmit, hreq] using hfresh
    have hread := h.read hold
    rwa [behind, hreq] at hread

/-- No frame that is under way is overtaken. -/
theorem Echoed.flight_step (h : Echoed k n s r) (hi : Served s i)
    (hfresh : (Report.next s i r).fresh = true) (hreq : dueStrobe s i = false)
    (hflight : inFlight (step s i) = true) :
    nslots (cfgNow (step s i)) ≠ 0 ∧
      BytesMeet (StampByte (headerStamp (step s i))) (Report.next s i r).frame := by
  obtain ⟨hserve, hstay, hbefore⟩ := inFlight_step hflight
  have hcfg : cfgNow (step s i) = cfgNow s := by
    show (nextCtx s i (nextStreamIdx s i)).cfg = _
    rw [hstay, nextCtx_cfg, hi.calm.2.1]
    rfl
  have hemit := emit_step hi
  rw [hreq] at hemit
  have hstamp : headerStamp (step s i) = headerStamp s := by
    rw [headerStamp_eq, headerStamp_eq, hemit, curFpp, curFpp]
    exact congrArg (fun c => windowStart (fpp c) _) hcfg
  have hbusy : s.fsm ≠ .idle := by
    intro hidle
    rcases hbefore with hbefore | ⟨hcheck, -⟩
    · simp [inFlight, hidle] at hbefore
    · rw [hidle] at hcheck
      cases hcheck
  have hquiet : s.sendReq = false := by
    by_contra hsend
    exact hbusy (hi.idle (by simpa using hsend))
  have hold : nslots (cfgNow s) ≠ 0 ∧ BytesMeet (StampByte (headerStamp s)) r.frame := by
    rcases hbefore with hbefore | ⟨hcheck, -⟩
    · exact h.flight (by simpa [Report.next, doEmit, hquiet] using hfresh) hquiet hbefore
    · constructor
      · intro hoff
        have hskip : (step s i).fsm = .skip := by
          rw [step_fsm, nextFsm, hcheck]
          exact if_pos (by simp [flowOff, hoff])
        rw [inFlight, hskip] at hflight
        exact absurd hflight (by decide)
      · refine bytesMeet_nil ?_
        have hasm := h.assembled
        rw [Assembled, hcheck] at hasm
        exact hasm.2
  rw [hcfg, hstamp]
  refine ⟨hold.1, bytesMeet_next hold.2 fun hfsm => ?_⟩
  intro hlow hhigh
  have hlen := length_of_building h.assembled hfsm
  rw [hlen] at hlow hhigh ⊢
  exact curByte_stamp i hlow hhigh

/-- One cycle. -/
theorem echoed_step (hi : Served s i) (h : Echoed k n s r) :
    Echoed k (n + if strobe i then 1 else 0) (step s i) (Report.next s i r) := by
  have hcfg : ((step s i).ctx k).cfg = (s.ctx k).cfg := congrFun (cfgs_step hi.calm.2.1) k
  have hphase := phase_served hi h.bound h.phase
  have hlow := h.phase
  have hstrobe : dueStrobe s i = true → strobe i = true := by
    rw [dueStrobe, Bool.and_eq_true]
    exact And.left
  refine ⟨admissible_step h.admissible hi.calm.frameSafe,
    assembled_step h.assembled h.admissible hi.calm.frameSafe, ?_, ?_, time_step h.loaded h.time, ?_,
    fun hlatched => ?_, fun hfresh => ?_, fun hfresh hreq => ?_, fun hfresh hreq hflight => ?_⟩
  · rw [hcfg]
    exact h.bound
  · rw [step_tsLoadPending, nextTsLoadPending, h.loaded, hi.calm.1]
    simp
  · rw [hcfg]
    exact hphase.1
  · rw [emit_step hi]
    cases hdue : dueStrobe s i with
    | true =>
      rw [hstrobe hdue, if_pos rfl, if_pos rfl]
      exact ⟨n, h.time, by omega, by omega⟩
    | false =>
      have hsend : (step s i).sendReq = false := hdue
      have hold : r.fresh = true ∨ s.sendReq = true := by
        rcases hlatched with hfresh | hreq
        · rcases (Bool.or_eq_true _ _).mp hfresh with hfresh | hemit
          · exact Or.inl hfresh
          · exact Or.inr ((Bool.and_eq_true _ _).mp hemit).1
        · rw [hsend] at hreq
          cases hreq
      obtain ⟨m, hm, hfrom, hto⟩ := h.emit hold
      have hcount := hphase.2.resolve_right fun hboth => by simp [hdue] at hboth
      rw [hcount]
      refine ⟨m, hm, ?_, ?_⟩ <;> split <;> push_cast <;> omega
  · obtain ⟨m, hm, hfrom, hto⟩ := h.read_step hi hfresh
    refine ⟨m, hm, ?_, by split <;> omega⟩
    rw [behind, hcfg]
    have hsend : (step s i).sendReq = dueStrobe s i := rfl
    rw [hsend]
    cases hdue : dueStrobe s i with
    | true =>
      rw [hstrobe hdue, if_pos rfl, if_pos rfl]
      omega
    | false =>
      have hcount := hphase.2.resolve_right fun hboth => by simp [hdue] at hboth
      rw [hcount]
      split <;> simp <;> omega
  · have hdue : dueStrobe s i = false := hreq
    rw [emit_step hi, hdue, readBack_step hi]
    cases hsend : s.sendReq with
    | true => rfl
    | false =>
      have hold : r.fresh = true := by simpa [Report.next, doEmit, hsend] using hfresh
      exact h.same hold hsend
  · exact h.flight_step hi hfresh hreq hflight

/-- A packet that is completed says something else in its header than what is read back. -/
theorem Echoed.packet_ne (h : Echoed k n s r) (hi : Served s i) (hfresh : r.fresh = true)
    (hserve : serveNow s i = true) :
    wireStamp (Frame.packet s r.frame) = windowStart (curFpp s) (readBack (step s i)) ∧
      readBack (step s i) ≠ wireStamp (Frame.packet s r.frame) := by
  have hfsm : s.fsm = .stream := stream_of_serveNow hserve
  have hquiet : s.sendReq = false := by
    by_contra hsend
    have hidle := hi.idle (by simpa using hsend)
    rw [hfsm] at hidle
    cases hidle
  obtain ⟨hslots, hmeet⟩ := h.flight hfresh hquiet (by simp [inFlight, hfsm])
  have hserved : served s i s.streamIdx = true := served_iff.2 ⟨hserve, rfl⟩
  have hread : readBack (step s i) = (s.tsSecEmit, s.tsSubEmit) := by
    rw [readBack_step hi, hquiet]
    exact h.same hfresh hquiet
  have hwire : wireStamp (Frame.packet s r.frame) =
      windowStart (curFpp s) (readBack (step s i)) := by
    rw [hread, ← headerStamp_eq]
    exact wireStamp_served (p := { Pace.start r.frame with frame := r.frame }) hslots rfl
      h.admissible h.assembled hserved hmeet
  refine ⟨hwire, fun heq => ?_⟩
  obtain ⟨m, hm, -, -⟩ := h.emit (Or.inl hfresh)
  have hpos : 2 ≤ curFpp s := fpp_pos _
  have hle : curFpp s ≤ 60 := fpp_le _
  rw [hwire, hread, hm, windowStart_stamp (by omega) (by omega)] at heq
  have hone := stamp_snd m
  have hback := stamp_snd (m - (curFpp s - 1))
  rw [← heq, hone] at hback
  omega

end Echo

end Packetizer
end InfernoFpga
