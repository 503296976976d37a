import InfernoFpga.Firmware.FlowRefine
import InfernoFpga.Firmware.Seeding
import InfernoFpga.Packetizer.Readback

/-!
# GuardPhase — the phase guard beside a media clock that runs at the PTP rate

The guard of `dante_tx_poll` compares the timestamp it reads back with PTP.  It takes what it reads
for the start of a packet's window and adds `fpp - 1` samples to come back to the counter; but the
debug registers hold the counter itself, which `ts_anchor` has moved by the runtime offset.  So with
an ideal clock the error is not around zero: it is the offset, plus up to one packet.
-/

namespace InfernoFpga
namespace Firmware

open Lib
open Packetizer (CtxId Stamp Report Served Echoed stamp strobe readBack windowStart wireStamp
  countWrap fpp nslots)
open Ptpv1 (Timestamp Servo)

/-! ## Clocks -/

/-- PTP time, `ns` nanoseconds since the epoch. -/
def ptpTime (ns : Nat) : Timestamp := ⟨ns / 10 ^ 9, ns % 10 ^ 9⟩

/-- The sample PTP time falls on. -/
def ptpSample (ns : Nat) : Nat := ns * 3 / 62500

/-- The strobes of a media clock that runs at the PTP rate, `phase` parts in 62500 of a sample
ahead of it. -/
def mediaSample (phase ns : Nat) : Nat := (ns * 3 + phase) / 62500

/-- Media clock and PTP never differ by more than one sample. -/
theorem mediaSample_near {phase : Nat} (hphase : phase < 62500) (ns : Nat) :
    ptpSample ns ≤ mediaSample phase ns ∧ mediaSample phase ns ≤ ptpSample ns + 1 := by
  simp only [mediaSample, ptpSample]
  omega

theorem subOfNs_lt {ns : Nat} (h : ns < 1000000000) : subOfNs ns < 48000 := by
  rw [subOfNs, Nat.mod_eq_of_lt (by omega)]
  omega

/-- The samples that `dante_tx_poll` computes from a PTP time. -/
theorem ptpSample_eq (ns : Nat) :
    ptpSample ns = (ptpTime ns).seconds * 48000 + subOfNs (ptpTime ns).nanoseconds := by
  simp only [ptpSample, ptpTime, subOfNs]
  omega

/-- The timestamp that `ts_anchor` loads. -/
def anchorStamp (t : Timestamp) (offset : Int) : Stamp :=
  (BitVec.ofInt 32 (anchorOf t offset).1, BitVec.ofInt 32 (anchorOf t offset).2)

theorem anchorStamp_loaded (k : Talker) (t : Timestamp) :
    (tsAnchor k t).loads = k.loads ++ [anchorStamp t k.tsOffsetSamples] := rfl

/-- An anchor is PTP's sample moved by the offset, as long as the offset is at most a second. -/
theorem anchorStamp_eq {offset : Int} (hlow : -48000 ≤ offset) (hhigh : offset ≤ 48000) (ns : Nat) :
    anchorStamp (ptpTime ns) offset = stamp (ptpSample ns + offset) := by
  have hsub : subOfNs (ptpTime ns).nanoseconds < 48000 := subOfNs_lt (Nat.mod_lt _ (by decide))
  have hmax : subsecMax = 48000 := rfl
  have hsplit : digits 48000 (ptpSample ns + offset) = anchorOf (ptpTime ns) offset := by
    rw [ptpSample_eq]
    simp only [anchorOf, hmax]
    push_cast
    split
    · exact digits_eq (by decide) (by ring) (by omega) (by omega)
    · split <;> exact digits_eq (by decide) (by ring) (by omega) (by omega)
  exact (Packetizer.stamp_of_digits hsplit).symm

/-- Counting on from a timestamp is counting on from its sample. -/
theorem stamp_count_add (n m : Int) : stamp ((stamp n).count + m) = stamp (n + m) := by
  have hcount := Packetizer.count_stamp n
  refine Prod.ext ?_ ?_ <;> apply BitVec.eq_of_toNat_eq <;> apply Int.ofNat_inj.1
  · rw [Packetizer.stamp_fst, Packetizer.stamp_fst, hcount]
    simp only [countWrap]
    omega
  · rw [Packetizer.stamp_snd, Packetizer.stamp_snd, hcount]
    simp only [countWrap]
    omega

/-! ## The talker beside the packetizer -/

/-- Packetizer, talker and PTP time in nanoseconds. -/
structure Live where
  bus : Bus
  report : Report
  talker : Talker
  time : Nat

/-- A cycle of the packetizer, after which `ns` nanoseconds have passed, or a poll of the talker.
The reads of a poll leave no trace in the packetizer. -/
inductive LiveEvent
  | cycle (e : Ambient) (ns : Nat)
  | poll (s : Servo) (i : TxPoll)

/-- What a poll's guard reads: the present PTP time and the debug registers. -/
def Live.reads (x : Live) (i : TxPoll) : TxPoll :=
  { i with
    guardTime := ptpTime x.time
    emittedSec := x.bus.gw.dbgSec.toNat
    emittedSub := x.bus.gw.dbgTs.toNat }

/-- One event.  The run is followed up to the next anchor, which starts another one. -/
def liveStep (x : Live) : LiveEvent → Live
  | .cycle e ns =>
      { x with
        bus := busTick x.bus e .idle
        report := Report.next x.bus.gw (busInput x.bus e .idle) x.report
        time := x.time + ns }
  | .poll s i => { x with talker := danteTxPoll x.talker s (x.reads i) }

/-- The talker is to stay on, and PTP has not stepped since the last poll. -/
structure StaysOn (k : Talker) (s : Servo) (i : TxPoll) : Prop where
  seen : k.seenInit = true ∧ s.stepCount = k.seenSteps
  settled : settled (noteLock k s i) s i = true
  active : 0 < danteTxActive k.tx
  ready : i.rateReady = true

instance (k : Talker) (s : Servo) (i : TxPoll) : Decidable (StaysOn k s i) :=
  decidable_of_iff ((k.seenInit = true ∧ s.stepCount = k.seenSteps) ∧
      settled (noteLock k s i) s i = true ∧ 0 < danteTxActive k.tx ∧ i.rateReady = true)
    ⟨fun h => ⟨h.1, h.2.1, h.2.2.1, h.2.2.2⟩, fun h => ⟨h.seen, h.settled, h.active, h.ready⟩⟩

/-- A media clock that runs at the PTP rate, a builder that keeps up, and no PTP step. -/
def Ideal (phase : Nat) (x : Live) : LiveEvent → Prop
  | .cycle e ns =>
      Served x.bus.gw (busInput x.bus e .idle) ∧
        mediaSample phase (x.time + ns) =
          mediaSample phase x.time + if e.sampleStrobe then 1 else 0
  | .poll s i => StaysOn x.talker s (x.reads i)

instance (phase : Nat) (x : Live) : ∀ e, Decidable (Ideal phase x e)
  | .cycle _ _ => inferInstanceAs (Decidable (_ ∧ _))
  | .poll _ _ => inferInstanceAs (Decidable (StaysOn _ _ _))

/-- The state after an anchor at PTP time `t₀`: the load was adopted `lag + 1` strobes after the
time was read, and no context has been due since. -/
structure JustAnchored (phase t₀ lag : Nat) (x : Live) : Prop where
  on : x.talker.tx.talkerOn = true
  active : 0 < danteTxActive x.talker.tx
  tabled : Tabled x.talker.tx.flows x.bus
  loads : x.talker.loads.getLast? = some (anchorStamp (ptpTime t₀) x.talker.tsOffsetSamples)
  adopted : x.bus.gw.tsLoadPending = false
  apart : x.bus.gw.sendReq = false
  assembled : Packetizer.Assembled x.bus.gw x.report.frame
  stale : x.report.fresh = false
  counter : ∃ since : Nat,
    (x.bus.gw.tsSec, x.bus.gw.tsSub) =
      stamp (Stamp.count (anchorStamp (ptpTime t₀) x.talker.tsOffsetSamples) + since) ∧
    mediaSample phase x.time = mediaSample phase t₀ + lag + 1 + since

/-! ## The condition -/

/-- The band of the guard. -/
def guardBand (t : Tx) : Int :=
  danteTxReanchorSamples + ((danteTxFppRange t).2 - (danteTxFppRange t).1 : Int)

/-- The error of an ideal clock, for every moment of a packet, is within the band. -/
structure GuardFits (k : Talker) (lag : Nat) : Prop where
  second : -48000 ≤ k.tsOffsetSamples ∧ k.tsOffsetSamples ≤ 48000
  low : -guardBand k.tx ≤ k.tsOffsetSamples - lag - 4
  high : k.tsOffsetSamples - lag + (danteTxFppRange k.tx).1 - 2 ≤ guardBand k.tx

/-- With packets of one size the error alone takes more room than the band has from 15 samples on,
whatever the offset. -/
theorem not_guardFits {k : Talker} {lag : Nat}
    (hone : (danteTxFppRange k.tx).2 = (danteTxFppRange k.tx).1)
    (hlarge : 15 ≤ (danteTxFppRange k.tx).1) : ¬ GuardFits k lag := by
  intro h
  have hlow := h.low
  have hhigh := h.high
  have hcoarse : danteTxReanchorSamples = 8 := rfl
  rw [guardBand, hone, sub_self, hcoarse] at hlow hhigh
  omega

/-- A poll reads back a timestamp of the present counter, and PTP is clear of the ends of the
seconds field. -/
def PolledFresh (x : Live) : LiveEvent → Prop
  | .cycle _ _ => True
  | .poll _ _ => x.report.fresh = true ∧ 10 ^ 9 ≤ x.time ∧ x.time < (2 ^ 32 - 1) * 10 ^ 9

instance (x : Live) : ∀ e, Decidable (PolledFresh x e)
  | .cycle _ _ => inferInstanceAs (Decidable True)
  | .poll _ _ => inferInstanceAs (Decidable (_ ∧ _))

/-- The guard finds its error within the band, and the poll does not anchor. -/
def GuardQuiet (x : Live) : LiveEvent → Prop
  | .cycle _ _ => True
  | .poll s i =>
      (-guardBand x.talker.tx ≤ phaseError x.talker (x.reads i) ∧
          phaseError x.talker (x.reads i) ≤ guardBand x.talker.tx) ∧
        (danteTxPoll x.talker s (x.reads i)).loads = x.talker.loads

/-- A packet that completes is read back as something else than its header says. -/
def Misread (x : Live) : LiveEvent → Prop
  | .cycle e _ =>
      x.report.fresh = true → Packetizer.serveNow x.bus.gw (busInput x.bus e .idle) = true →
        readBack (busTick x.bus e .idle).gw ≠
          wireStamp (Packetizer.Frame.packet x.bus.gw x.report.frame)
  | .poll _ _ => True

/-! ## The range of the packet sizes -/

/-- Folding with a choice of one of the two gives one of the list. -/
theorem foldl_choice_mem {α : Type*} {op : α → α → α} (hop : ∀ a b, op a b = a ∨ op a b = b) :
    ∀ (l : List α) (a : α), l.foldl op a ∈ a :: l
  | [], a => List.mem_singleton.2 rfl
  | b :: l, a => by
      have hrest := foldl_choice_mem hop l (op a b)
      rw [List.foldl_cons]
      rcases List.mem_cons.1 hrest with hhead | htail
      · rw [hhead]
        rcases hop a b with h | h <;> simp [h]
      · exact List.mem_cons_of_mem _ (List.mem_cons_of_mem _ htail)

/-- Smallest and largest packet size are those of flows in use. -/
theorem fppRange_attained {t : Tx} (h : 0 < danteTxActive t) :
    (∃ f, (t.flows f).inUse = true ∧ (danteTxFppRange t).1 = (t.flows f).fpp.val) ∧
      ∃ f, (t.flows f).inUse = true ∧ (danteTxFppRange t).2 = (t.flows f).fpp.val := by
  have hmem : ∀ n ∈ ((List.finRange nFlows).filter fun f => (t.flows f).inUse).map
      (fun f => (t.flows f).fpp.val), ∃ f, (t.flows f).inUse = true ∧ n = (t.flows f).fpp.val := by
    intro n hn
    obtain ⟨f, hf, rfl⟩ := List.mem_map.1 hn
    exact ⟨f, (List.mem_filter.1 hf).2, rfl⟩
  have hlen : 0 < (((List.finRange nFlows).filter fun f => (t.flows f).inUse).map
      (fun f => (t.flows f).fpp.val)).length := by
    rw [List.length_map]
    exact h
  simp only [danteTxFppRange]
  split
  · rename_i hnil
    rw [hnil] at hlen
    exact absurd hlen (Nat.lt_irrefl 0)
  · rename_i n rest hcons
    rw [hcons] at hmem
    exact ⟨hmem _ (foldl_choice_mem (fun a b => min_choice a b) rest n),
      hmem _ (foldl_choice_mem (fun a b => max_choice a b) rest n)⟩

theorem fpp_val_le (n : Fpp) : n.val ≤ 60 := by
  have h : ∀ m ∈ kFppTable, m ≤ 60 := by decide
  exact h n.val n.2

/-! ## The error of an ideal clock -/

section Guard

variable {phase t₀ lag : Nat} {x₀ x : Live} {k : CtxId}

/-- The talker is as the anchor left it, and the latches are those of a counter that has run with
the media clock since. -/
structure Following (phase t₀ lag : Nat) (x₀ : Live) (k : CtxId) (x : Live) : Prop where
  tx : x.talker.tx = x₀.talker.tx
  offset : x.talker.tsOffsetSamples = x₀.talker.tsOffsetSamples
  smallest : fpp (x.bus.gw.ctx k).cfg = (danteTxFppRange x₀.talker.tx).1
  echoed : Echoed k
    (ptpSample t₀ + x₀.talker.tsOffsetSamples - (mediaSample phase t₀ + lag + 1) +
      mediaSample phase x.time) x.bus.gw x.report

/-- In the eyes of a context with the smallest packets, whatever sample the counter is at. -/
theorem JustAnchored.echoed (h : JustAnchored phase t₀ lag x) :
    ∃ k, fpp (x.bus.gw.ctx k).cfg = (danteTxFppRange x.talker.tx).1 ∧
      ∀ n, (x.bus.gw.tsSec, x.bus.gw.tsSub) = stamp n → Echoed k n x.bus.gw x.report := by
  obtain ⟨⟨k, hin, hmin⟩, -⟩ := fppRange_attained h.active
  have hcfg := h.tabled.cfg k
  have hfpp : fpp (x.bus.gw.ctx k).cfg = (x.talker.tx.flows k).fpp := by
    rw [hcfg, fpp_slotCfg hin]
  have hslots : ∀ j, nslots (x.bus.gw.ctx j).cfg ≤ 8 ∧
      ((x.talker.tx.flows j).inUse = true → nslots (x.bus.gw.ctx j).cfg ≠ 0) := by
    intro j
    rw [h.tabled.cfg j, slotCfg]
    split
    · have hrange := (x.talker.tx.flows j).nslots.2
      rw [nslots_flowCfg]
      exact ⟨hrange.2, fun _ => by omega⟩
    · rename_i hfree
      exact ⟨by decide, fun hin => absurd hin hfree⟩
  refine ⟨k, hfpp.trans hmin.symm, fun n htime => ⟨fun j => (hslots j).1, h.assembled,
    (hslots k).2 hin, h.adopted, htime, ?_, ?_, ?_, ?_, ?_⟩⟩
  · rw [hcfg]
    exact h.tabled.phase k hin
  · rw [h.stale, h.apart]
    rintro (hfresh | hreq)
    · cases hfresh
    · cases hreq
  all_goals
    rw [h.stale]
    intro hfresh
    cases hfresh

/-- The state after an anchor follows. -/
theorem JustAnchored.following (h : JustAnchored phase t₀ lag x)
    (hsecond : -48000 ≤ x.talker.tsOffsetSamples ∧ x.talker.tsOffsetSamples ≤ 48000) :
    ∃ k, Following phase t₀ lag x k x := by
  obtain ⟨k, hsmallest, hecho⟩ := h.echoed
  obtain ⟨since, hcount, hmedia⟩ := h.counter
  refine ⟨k, rfl, rfl, hsmallest, hecho _ ?_⟩
  rw [hcount, anchorStamp_eq hsecond.1 hsecond.2, stamp_count_add, hmedia]
  congr 1
  push_cast
  ring

/-- Without a step the poll comes to the guard, and the talker stays on. -/
theorem danteTxPoll_staysOn {t : Talker} {s : Servo} {i : TxPoll}
    (hon : t.tx.talkerOn = true) (h : StaysOn t s i) :
    danteTxPoll t s i = switchTalker (guardPhase (noteLock t s i) i) true i := by
  have hsteps : followSteps (noteLock t s i) s i = noteLock t s i := by
    have hinit : (noteLock t s i).seenInit = true := h.seen.1
    have hseen : (noteLock t s i).seenSteps = s.stepCount := h.seen.2.symm
    simp [followSteps, hinit, hseen]
  have hwant : (settled (noteLock t s i) s i &&
      decide (0 < danteTxActive (noteLock t s i).tx) && i.rateReady) = true := by
    rw [h.settled, h.ready]
    have hactive : 0 < danteTxActive (noteLock t s i).tx := h.active
    simp [hactive]
  have hon' : (noteLock t s i).tx.talkerOn = true := hon
  simp only [danteTxPoll, hsteps, hwant, hon', Bool.and_self, if_true]

/-- A guard that finds its error within the band changes only its streak. -/
theorem guardPhase_inBand {t : Talker} {i : TxPoll} (hlow : -guardBand t.tx ≤ phaseError t i)
    (hhigh : phaseError t i ≤ guardBand t.tx) : guardPhase t i = { t with badStreak := 0 } := by
  have hband : danteTxReanchorSamples +
      ((danteTxFppRange t.tx).2 - (danteTxFppRange t.tx).1 : Int) = guardBand t.tx := rfl
  have hnot : ¬ (phaseError t i > guardBand t.tx ∨ phaseError t i < -guardBand t.tx) := by omega
  simp only [guardPhase, hband, if_neg hnot]
  rfl

/-- A poll whose error is within the band leaves everything else as it is. -/
theorem danteTxPoll_inBand {t : Talker} {s : Servo} {i : TxPoll} (hon : t.tx.talkerOn = true)
    (h : StaysOn t s i) (hlow : -guardBand t.tx ≤ phaseError t i)
    (hhigh : phaseError t i ≤ guardBand t.tx) :
    danteTxPoll t s i = { noteLock t s i with badStreak := 0 } := by
  have hguard : guardPhase (noteLock t s i) i = { noteLock t s i with badStreak := 0 } :=
    guardPhase_inBand hlow hhigh
  have hon' : ({ noteLock t s i with badStreak := 0 } : Talker).tx.talkerOn = true := hon
  rw [danteTxPoll_staysOn hon h, hguard, switchTalker, hon', if_pos rfl]

/-- The error that the guard finds: the offset without the lag, plus what is left of the packet. -/
theorem Following.phaseError_eq (hphase : phase < 62500) (h : Following phase t₀ lag x₀ k x)
    (hfits : GuardFits x₀.talker lag) (hfresh : x.report.fresh = true) (hlow : 10 ^ 9 ≤ x.time)
    (hhigh : x.time < (2 ^ 32 - 1) * 10 ^ 9) (i : TxPoll) :
    ∃ back : Nat, ∃ jitter : Int, back ≤ (danteTxFppRange x₀.talker.tx).1 ∧
      -1 ≤ jitter ∧ jitter ≤ 1 ∧
      phaseError x.talker (x.reads i) =
        x₀.talker.tsOffsetSamples - lag + (danteTxFppRange x₀.talker.tx).1 - 3 - back + jitter := by
  have hnear := mediaSample_near hphase x.time
  have hnear₀ := mediaSample_near hphase t₀
  obtain ⟨m, hm, hfrom, hto⟩ := h.echoed.read hfresh
  have hbehind : Packetizer.behind k x.bus.gw ≤ (danteTxFppRange x₀.talker.tx).1 := by
    have hlt := h.echoed.phase
    rw [Packetizer.behind, ← h.smallest]
    split <;> omega
  -- the timestamp read back is in range of its fields
  have hfmin : (danteTxFppRange x₀.talker.tx).1 ≤ 60 := by
    rw [← h.smallest]
    exact Packetizer.fpp_le _
  have hband : guardBand x₀.talker.tx ≤ 68 := by
    have hmax : (danteTxFppRange x₀.talker.tx).2 ≤ 60 := by
      simp only [danteTxFppRange]
      split
      · decide
      · rename_i n rest hcons
        have hmem : rest.foldl max n ∈ n :: rest :=
          foldl_choice_mem (fun a b => max_choice a b) rest n
        rw [← hcons] at hmem
        obtain ⟨f, -, hf⟩ := List.mem_map.1 hmem
        rw [← hf]
        exact fpp_val_le _
    have hcoarse : danteTxReanchorSamples = 8 := rfl
    simp only [guardBand, hcoarse]
    omega
  have hlag := hfits.low
  have hroom := hfits.high
  have hrange : 0 ≤ m ∧ m < countWrap := by
    simp only [ptpSample, countWrap] at *
    omega
  have hcount : ((x.bus.gw.dbgSec.toNat : Int) * 48000 + x.bus.gw.dbgTs.toNat) = m := by
    have hstamp := Packetizer.count_stamp m
    rw [← hm, Int.emod_eq_of_lt hrange.1 hrange.2, Stamp.count, readBack] at hstamp
    push_cast at hstamp
    exact hstamp
  have hptp := ptpSample_eq x.time
  have herror : phaseError x.talker (x.reads i) =
      m - ptpSample x.time + ((danteTxFppRange x₀.talker.tx).1 - 1 : Int) := by
    have hzero : danteTxTsOffset = 0 := rfl
    rw [phaseError, h.tx, hzero, hptp]
    simp only [Live.reads]
    push_cast
    omega
  refine ⟨(ptpSample t₀ + x₀.talker.tsOffsetSamples - (mediaSample phase t₀ + lag + 1) +
      mediaSample phase x.time - 1 - m).toNat,
    (mediaSample phase x.time - ptpSample x.time : Int) - (mediaSample phase t₀ - ptpSample t₀),
    ?_, ?_, ?_, ?_⟩ <;> omega

/-- With the condition the error is within the band, at every moment of a packet. -/
theorem Following.quiet (hphase : phase < 62500) (h : Following phase t₀ lag x₀ k x)
    (hon : x₀.talker.tx.talkerOn = true) (hfits : GuardFits x₀.talker lag) {e : LiveEvent}
    (hideal : Ideal phase x e) (hpoll : PolledFresh x e) : GuardQuiet x e := by
  cases e with
  | cycle e ns => trivial
  | poll s i =>
    obtain ⟨hfresh, hlow, hhigh⟩ := hpoll
    obtain ⟨back, jitter, hback, hleft, hright, herror⟩ :=
      h.phaseError_eq hphase hfits hfresh hlow hhigh i
    have hlag := hfits.low
    have hroom := hfits.high
    have hband : -guardBand x.talker.tx ≤ phaseError x.talker (x.reads i) ∧
        phaseError x.talker (x.reads i) ≤ guardBand x.talker.tx := by
      rw [h.tx, herror]
      omega
    refine ⟨hband, ?_⟩
    rw [danteTxPoll_inBand (by rw [h.tx]; exact hon) hideal hband.1 hband.2]
    rfl

theorem strobe_idle {b : Bus} {e : Ambient} (h : Served b.gw (busInput b e .idle)) :
    strobe (busInput b e .idle) = e.sampleStrobe := by
  rw [strobe, h.enabled, Bool.and_true]
  rfl

/-- A quiet event keeps to the clock. -/
theorem following_step (hon : x₀.talker.tx.talkerOn = true) {e : LiveEvent}
    (hideal : Ideal phase x e) (hquiet : GuardQuiet x e) (h : Following phase t₀ lag x₀ k x) :
    Following phase t₀ lag x₀ k (liveStep x e) := by
  cases e with
  | cycle e ns =>
    have hstep := Packetizer.echoed_step hideal.1 h.echoed
    rw [strobe_idle hideal.1] at hstep
    have hcfg : ((busTick x.bus e .idle).gw.ctx k).cfg = (x.bus.gw.ctx k).cfg :=
      congrFun (Packetizer.cfgs_step (i := busInput x.bus e .idle) rfl) k
    have hmedia : (mediaSample phase (x.time + ns) : Int) =
        mediaSample phase x.time + if e.sampleStrobe then 1 else 0 := by
      rw [hideal.2]
      push_cast
      rfl
    refine ⟨h.tx, h.offset, (congrArg fpp hcfg).trans h.smallest, ?_⟩
    show Echoed k (_ + (mediaSample phase (x.time + ns) : Int)) _ _
    rw [hmedia, ← add_assoc]
    exact hstep
  | poll s i =>
    have hon' : x.talker.tx.talkerOn = true := by
      rw [h.tx]
      exact hon
    have hpoll := danteTxPoll_inBand hon' hideal hquiet.1.1 hquiet.1.2
    refine ⟨?_, ?_, h.smallest, h.echoed⟩
    · show (danteTxPoll x.talker s (x.reads i)).tx = _
      rw [hpoll]
      exact h.tx
    · show (danteTxPoll x.talker s (x.reads i)).tsOffsetSamples = _
      rw [hpoll]
      exact h.offset

/-- The latches follow the counter, whatever the polls do. -/
theorem echoed_liveStep {e : LiveEvent} (hideal : Ideal phase x e)
    (h : ∃ n, Echoed k n x.bus.gw x.report) :
    ∃ n, Echoed k n (liveStep x e).bus.gw (liveStep x e).report := by
  cases e with
  | cycle e ns =>
    obtain ⟨n, hecho⟩ := h
    exact ⟨_, Packetizer.echoed_step hideal.1 hecho⟩
  | poll s i => exact h

end Guard

/-! ## One flow, anchored at the first second -/

/-- A talker with one flow of one channel, anchored without an offset. -/
def anchoredTalker (size : Fpp) : Talker :=
  let tx := Tx.boot ⟨10, 0, 0, 2⟩ ⟨2, 0, 0, 0, 0, 2⟩
  let bound := { FlowSlot.free with inUse := true, fpp := size }
  { Talker.boot tx with
    tx := { tx with talkerOn := true, flows := Function.update tx.flows 0 bound }
    wasLocked := true
    seenInit := true
    loads := [anchorStamp (ptpTime (10 ^ 9)) 0] }

/-- The load has just been adopted. -/
def anchoredLive (size : Fpp) : Live :=
  let bound := { Packetizer.Ctx.reset with cfg := flowCfg 1 size }
  { bus :=
      { Bus.reset with
        gw := { Packetizer.State.reset with
          tsSec := 1, ctx := Function.update (fun _ => Packetizer.Ctx.reset) 0 bound } }
    report := ⟨Packetizer.Frame.empty, false⟩
    talker := anchoredTalker size
    time := 10 ^ 9 + 20834 }

theorem justAnchored_live (size : Fpp) : JustAnchored 0 (10 ^ 9) 0 (anchoredLive size) := by
  have hflows : ∀ k, ((anchoredLive size).bus.gw.ctx k).cfg =
      slotCfg ((anchoredTalker size).tx.flows k) := by
    intro k
    simp only [anchoredLive, anchoredTalker, Function.update_apply]
    split <;> rfl
  have hphase : ∀ k, ((anchoredLive size).bus.gw.ctx k).phase = 0 := by
    intro k
    simp only [anchoredLive, Function.update_apply]
    split <;> rfl
  have hrange : InRange (anchoredLive size).bus :=
    ⟨by show (0 : Packetizer.Word).toNat < 48000; decide, fun h => Bool.noConfusion h⟩
  refine ⟨rfl, ?_, ⟨hrange, hflows, fun k _ => ?_⟩, rfl, rfl, rfl, trivial, rfl, 0, ?_, ?_⟩
  · exact List.length_pos_of_mem (List.mem_filter.2 ⟨List.mem_finRange (0 : CtxId), rfl⟩)
  · have hpos := Packetizer.fpp_pos (slotCfg ((anchoredLive size).talker.tx.flows k))
    rw [hphase]
    omega
  · show ((1 : Packetizer.Word), (0 : Packetizer.Word)) =
      stamp ((Stamp.count (anchorStamp (ptpTime (10 ^ 9)) 0) : Int) + (0 : Nat))
    decide
  · show mediaSample 0 (10 ^ 9 + 20834) = mediaSample 0 (10 ^ 9) + 0 + 1 + 0
    decide

/-- A servo that has settled, and a poll long after it did. -/
def settledServo : Servo :=
  { Ptpv1.init none with locked := true, phaseSettled := true, meanPathDelayNs := 20000 }

def latePoll : LiveEvent :=
  .poll settledServo
    { lockMs := 60000, phaseMs := 60000, settleMs := 60000, stepTime := ptpTime 0
      guardTime := ptpTime 0, guardAnchorTime := ptpTime (10 ^ 9), enableTime := ptpTime 0
      emittedSec := 0, emittedSub := 0, rateReady := true }

/-- One packet's samples, the cycle that starts its walk, and two polls. -/
def onePacket (size : Nat) : List LiveEvent :=
  List.replicate size (.cycle .tick 20834) ++ [.cycle .quiet 0, latePoll, latePoll]

end Firmware
end InfernoFpga
