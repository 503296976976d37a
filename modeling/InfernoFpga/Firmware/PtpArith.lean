import InfernoFpga.Firmware.ServoBounds

/-!
# PtpArith — the slave never traps, and what its integral is

Over every run of messages, polls and tunings the checked slave does what the slave does, as long
as the local clock is in its era.  Its integral is the accumulator divided down, unless the
truncating form is driven past its rail: it stores the accumulator before it clamps the integral.
-/

namespace InfernoFpga
namespace Firmware
namespace Ptpv1

open Lib
open Lib.Signed (Within)

/-! ## The slave in range -/

structure InBounds (s : Slave) : Prop where
  coherent : Coherent s.servo
  delay : DelayInRange s.servo
  servo : Bounded s.servo
  t1 : InEra s.t1.time
  t2 : InEra s.t2.time
  t3 : InEra s.t3.time
  /-- Out of acquisition, the pair last resolved was no step. -/
  paired : s.servo.acqActive = false → s.haveT2T1 = true → Within 11000000 s.lastT2T1

/-- Local times are in their era, and the gain is an `int32_t`. -/
def InputInRange : PtpEvent → Prop
  | .rx _ rxTime _ _ => InEra rxTime
  | .poll _ _ txTime => InEra txTime
  | .tuning _ kiNum _ => -2 ^ 31 ≤ kiNum ∧ kiNum < 2 ^ 31

/-- The checked function returns, with the state `s'` and sound commands. -/
def Safe (r : Option (Slave × List Tsu)) (s' : Slave) : Prop :=
  ∃ cmds, r = some (s', cmds) ∧ (∀ cmd ∈ cmds, Sound cmd) ∧ InBounds s'

theorem Safe.silent {s : Slave} (h : InBounds s) : Safe (some (s, [])) s :=
  ⟨[], rfl, List.forall_mem_nil _, h⟩

theorem inEra_timestamp (d : Datagram) (x : Nat) : InEra (d.timestamp x) :=
  ⟨lt_of_lt_of_le (Mem.rd32_lt _ _) (by decide), Mem.rd32_lt _ _⟩

section Messages

variable {s : Slave} {d : Datagram} {rxTime : Timestamp} {late : Nat} {now : UInt32}

/-- An update leaves acquisition off only if its offset is no step. -/
theorem not_isStep_of_acqActive {s : Servo} {t1 t2 : Timestamp} {offset : Int}
    (h : (servoUpdate s t1 t2 offset now).1.acqActive = false) : isStep offset = false := by
  cases hstep : isStep offset with
  | false => rfl
  | true =>
      rw [servoUpdate, if_pos hstep] at h
      cases h

theorem safe_tryComputeOffset (h : InBounds s) :
    Safe (Checked.tryComputeOffset s now) (tryComputeOffset s now) := by
  rw [Checked.tryComputeOffset, tryComputeOffset]
  split
  · have hdiff := tsDiffNs_within h.t2 h.t1
    have hsub : Signed.Fits 64 (tsDiffNs s.t2.time s.t1.time - s.servo.meanPathDelayNs) := by
      obtain ⟨hlow, hhigh⟩ := hdiff
      obtain ⟨hdlow, hdhigh⟩ := h.delay
      exact fits_of_within ⟨by omega, by omega⟩
    have hchecked := checked_servoUpdate now h.coherent h.servo h.delay h.t1 h.t2 rfl
    obtain ⟨hbounded, hsound⟩ :=
      bounded_servoUpdate now h.coherent h.servo h.delay h.t1 h.t2 rfl
    refine ⟨(servoOnPair s now).2, ?_, hsound, ?_⟩
    · simp only [checked_tsDiffNs h.t2 h.t1, Signed.sub_of_fits hsub, hchecked,
        Option.bind_eq_bind, Option.bind_some]
      rfl
    · refine ⟨coherent_servoUpdate h.coherent _ _ _ _, delayInRange_servoUpdate h.delay _ _ _ _,
        hbounded, h.t1, h.t2, h.t3, fun hacq _ => ?_⟩
      exact diff_within h.delay (within_of_not_isStep (not_isStep_of_acqActive hacq)) rfl
  · exact Safe.silent h

variable (now) in
theorem inBounds_firstSync {s : Servo} (hc : Coherent s) (hd : DelayInRange s) (h : Bounded s) :
    Coherent (firstSync s now) ∧ DelayInRange (firstSync s now) ∧ Bounded (firstSync s now) ∧
      (firstSync s now).acqActive = s.acqActive := by
  rw [firstSync]
  split
  · exact ⟨hc.of_fields rfl rfl rfl, hd,
      ⟨h.base, h.addend, h.num, h.gain, h.samples, h.window⟩, rfl⟩
  · exact ⟨hc, hd, h, rfl⟩

variable (d late now) in
theorem inBounds_holdSync (h : InBounds s) (hrx : InEra rxTime) :
    InBounds (holdSync s d rxTime late now) := by
  obtain ⟨hc, hd, hb, hacq⟩ := inBounds_firstSync now h.coherent h.delay h.servo
  refine ⟨hc, hd, hb, h.t1, hrx, h.t3, fun hoff => ?_⟩
  exact h.paired (hacq.symm.trans hoff)

theorem safe_syncRx (h : InBounds s) (hrx : InEra rxTime) :
    Safe (Checked.syncRx s d rxTime late now) (syncRx s d rxTime late now) := by
  rw [Checked.syncRx, syncRx]
  split
  · exact Safe.silent h
  · obtain ⟨hc, hd, hb, ht1, ht2, ht3, hpair⟩ :=
      inBounds_holdSync d late now h hrx
    dsimp only
    split
    · exact Safe.silent ⟨hc, hd, hb, ht1, ht2, ht3, hpair⟩
    · exact safe_tryComputeOffset ⟨hc, hd, hb, inEra_timestamp _ _, ht2, ht3, hpair⟩

theorem safe_followupRx (h : InBounds s) :
    Safe (Checked.followupRx s d now) (followupRx s d now) := by
  obtain ⟨hc, hd, hb, ht1, ht2, ht3, hpair⟩ := h
  rw [Checked.followupRx, followupRx]
  split
  · exact Safe.silent ⟨hc, hd, hb, ht1, ht2, ht3, hpair⟩
  · dsimp only
    split
    · exact Safe.silent ⟨hc, hd, hb, ht1, ht2, ht3, hpair⟩
    · split
      · exact Safe.silent ⟨hc, hd, hb, ht1, ht2, ht3, hpair⟩
      · exact safe_tryComputeOffset ⟨hc, hd, hb, inEra_timestamp _ _, ht2, ht3, hpair⟩

/-! ## The path delay -/

theorem checked_acceptDelay {s : Servo} (hd : DelayInRange s) {delay : Int} (hpos : 0 ≤ delay) :
    Checked.acceptDelay s delay = some (acceptDelay s delay) := by
  rw [Checked.acceptDelay, acceptDelay]
  split
  · rename_i hlt
    obtain ⟨hlow, hhigh⟩ := hd
    have hdiff : Within 10000000 (delay - s.meanPathDelayNs) := ⟨by omega, by omega⟩
    have hfits := fits_of_within (hdiff.mono (by decide))
    have hmean : ∀ k : Int, 0 < k →
        Signed.Fits 64 (s.meanPathDelayNs + (delay - s.meanPathDelayNs).tdiv k) := fun k hk => by
      obtain ⟨hqlow, hqhigh⟩ := hdiff.tdiv_of_pos hk
      exact fits_of_within ⟨by omega, by omega⟩
    have hcount : (0 : Int) < s.pdSamples + 1 := by omega
    rw [Checked.delaySample, delaySample]
    split
    · simp only [Signed.sub_of_fits hfits, Signed.div_of_pos hcount hfits,
        Signed.add_of_fits (hmean _ hcount), Option.bind_eq_bind, Option.bind_some]
    · simp only [Signed.sub_of_fits hfits, Signed.div_of_pos (y := 8) (by decide) hfits,
        Signed.add_of_fits (hmean 8 (by decide)), Option.bind_eq_bind, Option.bind_some]
  · rfl

theorem inBounds_acceptDelay {s : Servo} (hc : Coherent s) (hd : DelayInRange s) (h : Bounded s)
    {delay : Int} (hpos : 0 ≤ delay) :
    Coherent (acceptDelay s delay) ∧ DelayInRange (acceptDelay s delay) ∧
      Bounded (acceptDelay s delay) ∧ (acceptDelay s delay).acqActive = s.acqActive := by
  obtain ⟨hrate, hform, -, -⟩ := acceptDelay_rate s delay
  refine ⟨hc.of_rate hrate hform, delayInRange_acceptDelay hd hpos, ?_, ?_⟩
  · rw [acceptDelay]
    split
    · rw [delaySample]
      split <;> exact ⟨h.base, h.addend, h.num, h.gain, h.samples, h.window⟩
    · exact h
  · rw [acceptDelay]
    split
    · rw [delaySample]
      split <;> rfl
    · rfl

theorem respMatches_eq (s : Slave) (d : Datagram) :
    respMatches s d = (Checked.respAddressed s d && s.haveT2T1) := rfl

theorem useResp_servo (s : Slave) (d : Datagram) :
    (useResp s d).servo = acceptDelay s.servo (pathDelay s d) := by
  rw [useResp]
  split <;> rfl

/-- Using an answer leaves the times and the resolved pair alone. -/
theorem inBounds_useResp (h : InBounds s) (d : Datagram) : InBounds (useResp s d) := by
  have hpos : 0 ≤ pathDelay s d := Int.le_max_left _ _
  obtain ⟨hc, hd, hb, hacq⟩ := inBounds_acceptDelay h.coherent h.delay h.servo hpos
  have hpaired : (acceptDelay s.servo (pathDelay s d)).acqActive = false →
      s.haveT2T1 = true → Within 11000000 s.lastT2T1 := fun hoff => h.paired (hacq.symm.trans hoff)
  rw [useResp]
  split <;> exact ⟨hc, hd, hb, h.t1, h.t2, h.t3, hpaired⟩

theorem checked_useResp (h : InBounds s) (hacq : s.servo.acqActive = false) :
    Checked.useResp s d = some (if s.haveT2T1 then useResp s d else s) := by
  have hdiff := tsDiffNs_within (inEra_timestamp d hdrLen) h.t3
  rw [Checked.useResp, checked_tsDiffNs (inEra_timestamp d hdrLen) h.t3]
  cases hpair : s.haveT2T1 with
  | false => rfl
  | true =>
      have hsum : Signed.Fits 64 (s.lastT2T1 + tsDiffNs (d.timestamp hdrLen) s.t3.time) := by
        obtain ⟨hlow, hhigh⟩ := hdiff
        obtain ⟨hplow, hphigh⟩ := h.paired hacq hpair
        exact fits_of_within ⟨by omega, by omega⟩
      have hhalf : (if (s.lastT2T1 + tsDiffNs (d.timestamp hdrLen) s.t3.time).tdiv 2 < 0 then 0
          else (s.lastT2T1 + tsDiffNs (d.timestamp hdrLen) s.t3.time).tdiv 2) = pathDelay s d := by
        rw [pathDelay]
        split <;> omega
      have hpos : 0 ≤ pathDelay s d := Int.le_max_left _ _
      simp only [Option.bind_eq_bind, Option.bind_some, Bool.not_true, Bool.false_eq_true, if_false,
        Signed.add_of_fits hsum, Signed.div_of_pos (y := 2) (by decide) hsum, hhalf,
        checked_acceptDelay h.delay hpos, if_true, ← useResp_servo]

theorem safe_delayRespRx (h : InBounds s) :
    Safe (Checked.delayRespRx s d) (delayRespRx s d) := by
  rw [Checked.delayRespRx, delayRespRx]
  split
  · exact Safe.silent h
  · have hcounted : InBounds { s with rxDelayResp := s.rxDelayResp + 1 } :=
      ⟨h.coherent, h.delay, h.servo, h.t1, h.t2, h.t3, h.paired⟩
    dsimp only
    generalize ({ s with rxDelayResp := s.rxDelayResp + 1 } : Slave) = s' at hcounted ⊢
    rw [respMatches_eq]
    cases haddr : Checked.respAddressed s' d with
    | false => exact Safe.silent hcounted
    | true =>
        have hacq : s'.servo.acqActive = false := by
          simp only [Checked.respAddressed, Bool.and_eq_true, Bool.not_eq_true'] at haddr
          exact haddr.1.1.1.1
        rw [if_pos rfl, checked_useResp hcounted hacq]
        cases s'.haveT2T1 with
        | false => exact Safe.silent hcounted
        | true => exact Safe.silent (inBounds_useResp hcounted d)

theorem safe_ptpv1Rx (h : InBounds s) (hrx : InEra rxTime) :
    Safe (Checked.ptpv1Rx s d rxTime late now) (ptpv1Rx s d rxTime late now) := by
  rw [Checked.ptpv1Rx, ptpv1Rx]
  split
  · exact Safe.silent h
  · split
    · exact safe_syncRx h hrx
    · split
      · exact safe_followupRx h
      · split
        · exact safe_delayRespRx h
        · exact Safe.silent ⟨h.coherent, h.delay, h.servo, h.t1, h.t2, h.t3, h.paired⟩

end Messages

/-! ## Steps -/

theorem safe_tuning {s : Slave} (h : InBounds s) (n : Nat) {kiNum : Int}
    (hki : -2 ^ 31 ≤ kiNum ∧ kiNum < 2 ^ 31) (exact : Bool) :
    Safe (Checked.slaveStep s (.tuning n kiNum exact)) (slaveStep s (.tuning n kiNum exact)) := by
  obtain ⟨hilow, hihigh⟩ := h.coherent.bounded
  have hmax : servoIntegralMax = 100000000 := rfl
  have hnum : Within 3000000000000000 (s.servo.freqIntegral * 1000000) := ⟨by omega, by omega⟩
  refine ⟨[], ?_, List.forall_mem_nil _, ?_⟩
  · rw [Checked.slaveStep, Checked.setTuning,
      Signed.mul_of_fits (fits_of_within (hnum.mono (by decide)))]
    rfl
  · refine ⟨coherent_seed _ h.coherent.bounded.1 h.coherent.bounded.2 rfl rfl, h.delay,
      ⟨h.servo.base, h.servo.addend, hnum, ⟨?_, ?_⟩, h.servo.samples, h.servo.window⟩, h.t1, h.t2,
      h.t3, h.paired⟩
    · show (-2147483648 : Int) ≤ kiNum
      omega
    · show kiNum ≤ (2147483648 : Int)
      omega

theorem inBounds_poll {s : Slave} (h : InBounds s) (n : Net) (now : UInt32) {txTime : Timestamp}
    (htx : InEra txTime) : InBounds (ptpv1Poll s n now txTime).1 := by
  have hsend : InBounds (sendDelayReq s n txTime).1 := by
    rw [sendDelayReq]
    dsimp only
    split
    · exact ⟨h.coherent, h.delay, h.servo, h.t1, h.t2, htx, h.paired⟩
    · exact ⟨h.coherent, h.delay, h.servo, h.t1, h.t2, h.t3, h.paired⟩
  rw [ptpv1Poll]
  split
  · cases s.haveMaster with
    | true =>
        exact ⟨hsend.coherent, hsend.delay, hsend.servo, hsend.t1, hsend.t2, hsend.t3, hsend.paired⟩
    | false => exact ⟨h.coherent, h.delay, h.servo, h.t1, h.t2, h.t3, h.paired⟩
  · exact h

/-- One step of the checked slave: no operation traps, and the bounds are kept. -/
theorem safe_slaveStep {s : Slave} (h : InBounds s) {e : PtpEvent} (he : InputInRange e) :
    Safe (Checked.slaveStep s e) (slaveStep s e) := by
  cases e with
  | rx d rxTime late now => exact safe_ptpv1Rx h he
  | poll n now txTime => exact Safe.silent (inBounds_poll h n now he)
  | tuning n kiNum exact => exact safe_tuning h n he exact

/-! ## The slave drives the servo -/

/-- The pair of a Sync that carries its own origin time. -/
def oneStepPair (s : Slave) (d : Datagram) (rxTime : Timestamp) (late : Nat) : Arrival × Origin :=
  (⟨rxTime, d.uuid, d.seq, s.moves - late⟩, ⟨d.timestamp hdrLen, false, d.uuid, d.seq⟩)

/-- The pair of a Follow_Up and the Sync being held. -/
def followUpPair (s : Slave) (d : Datagram) : Arrival × Origin :=
  (s.t2, ⟨d.timestamp (hdrLen + 4), true, d.uuid, d.associatedSeq⟩)

/-- An offset as the servo gets it. -/
def measureOf (s : Servo) (p : Arrival × Origin) (now : UInt32) : Event :=
  .measure p.2.time p.1.time (pairOffset s p) now

/-- What a step of the slave makes the servo do. -/
def servoEvents (s : Slave) : PtpEvent → List Event
  | .rx d rxTime late now =>
      if OneStepSync s d then [.sync now, measureOf s.servo (oneStepPair s d rxTime late) now]
      else if HeldSync s d then [.sync now]
      else if AwaitedFollowUp s d then [measureOf s.servo (followUpPair s d) now]
      else if UsedResp s d then [.delay (pathDelay s d)]
      else []
  | .poll _ _ _ => []
  | .tuning n kiNum exact => [.tune n kiNum exact]

section Drive

variable {s : Slave} {d : Datagram} (rxTime : Timestamp) (late : Nat) (now : UInt32)

theorem tryComputeOffset_servo (h1 : s.haveT1 = true) (h2 : s.haveT2 = true) :
    (tryComputeOffset s now).servo = step s.servo (measureOf s.servo (s.t2, s.t1) now) := by
  rw [tryComputeOffset, h1, h2]
  rfl

theorem measureOf_firstSync (s : Servo) (p : Arrival × Origin) (now : UInt32) :
    measureOf (firstSync s now) p now = measureOf s p now := by
  rw [firstSync]
  split <;> rfl

theorem syncRx_servo (hacc : Accepted s d) (hctrl : d.ctrl = ctrlSync) :
    (syncRx s d rxTime late now).servo =
      run step s.servo (servoEvents s (.rx d rxTime late now)) := by
  have hnofu : ¬ AwaitedFollowUp s d := fun h => absurd (hctrl.symm.trans h.2.1) (by decide)
  have hnoresp : ¬ UsedResp s d := fun h => absurd (hctrl.symm.trans h.2.1) (by decide)
  rw [syncRx, servoEvents]
  by_cases hlen : d.blen < 8
  · have hnoone : ¬ OneStepSync s d := fun h => absurd h.2.2.1 (by omega)
    have hnoheld : ¬ HeldSync s d := fun h => absurd h.2.2 (by omega)
    rw [if_pos hlen, if_neg hnoone, if_neg hnoheld, if_neg hnofu, if_neg hnoresp]
    rfl
  · rw [if_neg hlen]
    by_cases htwo : d.isTwoStep = true
    · have hnoone : ¬ OneStepSync s d := fun h => by
        rw [h.2.2.2] at htwo
        cases htwo
      have hheld : HeldSync s d := ⟨hacc, hctrl, by omega⟩
      rw [if_neg hnoone, if_pos hheld]
      simp only [if_pos htwo]
      rfl
    · have hone : OneStepSync s d := ⟨hacc, hctrl, by omega, Bool.eq_false_iff.2 htwo⟩
      have hmeasure := measureOf_firstSync s.servo (oneStepPair s d rxTime late) now
      rw [if_pos hone, run_cons, run_cons, run_nil, ← hmeasure]
      simp only [if_neg htwo]
      exact tryComputeOffset_servo now rfl rfl

theorem followupRx_servo (hs : Holding s) (hacc : Accepted s d) (hctrl : d.ctrl = ctrlFollowup) :
    (followupRx s d now).servo = run step s.servo (servoEvents s (.rx d rxTime late now)) := by
  have hnoone : ¬ OneStepSync s d := fun h => absurd (hctrl.symm.trans h.2.1) (by decide)
  have hnoheld : ¬ HeldSync s d := fun h => absurd (hctrl.symm.trans h.2.1) (by decide)
  have hnoresp : ¬ UsedResp s d := fun h => absurd (hctrl.symm.trans h.2.1) (by decide)
  rw [followupRx, servoEvents, if_neg hnoone, if_neg hnoheld]
  by_cases hfu : AwaitedFollowUp s d
  · rw [if_pos hfu]
    obtain ⟨-, -, hlen, haw, hseq⟩ := hfu
    rw [if_neg (Nat.not_lt.2 hlen), if_neg (by simp [haw]), if_neg (by simp [hseq])]
    rw [run_cons, run_nil]
    refine tryComputeOffset_servo now rfl ?_
    exact hs.haveT2 haw
  · rw [if_neg hfu, if_neg hnoresp]
    split
    · rfl
    · rename_i hlen
      dsimp only
      split
      · rfl
      · rename_i haw
        split
        · rfl
        · rename_i hseq
          -- nothing else keeps a Follow_Up from being the one awaited
          refine absurd ⟨hacc, hctrl, by omega, ?_, ?_⟩ hfu
          · simpa using haw
          · exact not_not.1 hseq

theorem delayRespRx_servo (hacc : Accepted s d) (hctrl : d.ctrl = ctrlDelayResp) :
    (delayRespRx s d).servo = run step s.servo (servoEvents s (.rx d rxTime late now)) := by
  have hnoone : ¬ OneStepSync s d := fun h => absurd (hctrl.symm.trans h.2.1) (by decide)
  have hnoheld : ¬ HeldSync s d := fun h => absurd (hctrl.symm.trans h.2.1) (by decide)
  have hnofu : ¬ AwaitedFollowUp s d := fun h => absurd (hctrl.symm.trans h.2.1) (by decide)
  rw [delayRespRx, servoEvents, if_neg hnoone, if_neg hnoheld, if_neg hnofu]
  split
  · rename_i hlen
    rw [if_neg fun h => absurd h.2.2.1 (by omega)]
    rfl
  · rename_i hlen
    dsimp only
    have hsame : respMatches { s with rxDelayResp := s.rxDelayResp + 1 } d = respMatches s d := rfl
    rw [hsame]
    cases hmatch : respMatches s d with
    | false =>
        rw [if_neg Bool.false_ne_true, if_neg]
        · rfl
        · intro h
          have haccepts := h.2.2.2
          rw [acceptsResp, hmatch] at haccepts
          cases haccepts
    | true =>
        rw [if_pos rfl, useResp_servo]
        show acceptDelay s.servo (pathDelay s d) = _
        by_cases hbig : pathDelay s d < 10000000
        · have hused : UsedResp s d := ⟨hacc, hctrl, by omega, by simp [acceptsResp, hmatch, hbig]⟩
          have hacq : s.servo.acqActive = false := by
            rw [respMatches_eq, Checked.respAddressed] at hmatch
            simp only [Bool.and_eq_true, Bool.not_eq_true'] at hmatch
            exact hmatch.1.1.1.1.1
          have hpos : ¬ pathDelay s d < 0 := Int.not_lt.2 (Int.le_max_left _ _)
          rw [if_pos hused]
          show _ = delayResp s.servo (pathDelay s d)
          rw [delayResp, hacq, if_neg Bool.false_ne_true, if_neg hpos]
        · have hnot : ¬ UsedResp s d := fun h => by
            have haccepts := h.2.2.2
            rw [acceptsResp, decide_eq_false hbig, Bool.and_false] at haccepts
            cases haccepts
          rw [if_neg hnot, acceptDelay, if_neg hbig]
          rfl

/-- The slave's servo is the servo, driven by what the messages and the tuning amount to. -/
theorem slaveStep_servo (hs : Holding s) (e : PtpEvent) :
    (slaveStep s e).servo = run step s.servo (servoEvents s e) := by
  cases e with
  | poll n now txTime =>
      show (ptpv1Poll s n now txTime).1.servo = s.servo
      rw [ptpv1Poll]
      split
      · cases s.haveMaster with
        | true =>
            show (sendDelayReq s n txTime).1.servo = s.servo
            rw [sendDelayReq]
            dsimp only
            split <;> rfl
        | false => rfl
      · rfl
  | tuning n kiNum exact => rfl
  | rx d rxTime late now =>
      show (ptpv1Rx s d rxTime late now).servo = _
      by_cases hacc : Accepted s d
      · rw [ptpv1Rx_accepted hacc]
        split
        · rename_i hctrl
          exact syncRx_servo rxTime late now hacc hctrl
        · rename_i hnosync
          split
          · rename_i hctrl
            exact followupRx_servo rxTime late now hs hacc hctrl
          · rename_i hnofu
            split
            · rename_i hctrl
              exact delayRespRx_servo rxTime late now hacc hctrl
            · rename_i hnoresp
              rw [servoEvents, if_neg fun h => hnosync h.2.1, if_neg fun h => hnosync h.2.1,
                if_neg fun h => hnofu h.2.1, if_neg fun h => hnoresp h.2.1]
              rfl
      · rw [ptpv1Rx_ignored hacc, servoEvents, if_neg fun h => hacc h.1, if_neg fun h => hacc h.1,
          if_neg fun h => hacc h.1, if_neg fun h => hacc h.1]
        rfl

end Drive

/-! ## The integral and its accumulator -/

/-- The integral is the accumulator divided down. -/
def Quotient (s : Servo) : Prop := s.freqIntegral = s.freqIntegralNum.tdiv servoKiDen

instance (s : Servo) : Decidable (Quotient s) := inferInstanceAs (Decidable (_ = _))

/-- Nothing is integrated, or the exact form integrates, or the truncating form stays within its
rails. -/
def InRails (s : Servo) (filtered : Int) : Prop :=
  ¬ (filtered < 1000000 ∧ filtered > -1000000) ∨ s.rtExactInteg = true ∨
    Within servoIntegralMax (s.freqIntegral + (-filtered * s.rtKiNum).tdiv servoKiDen)

section Integral

variable {s : Servo} {offset filtered : Int}

theorem quotient_seed {fi : Int} (hfi : s.freqIntegral = fi)
    (hnum : s.freqIntegralNum = fi * servoKiDen) : Quotient s := by
  rw [Quotient, hfi, hnum, Int.mul_tdiv_cancel _ (by decide)]

theorem quotient_integrate_iff (hc : Coherent s) (hq : Quotient s) :
    Quotient (integrate s filtered) ↔ InRails s filtered := by
  rw [InRails]
  by_cases hband : filtered < 1000000 ∧ filtered > -1000000
  · cases hform : s.rtExactInteg with
    | true =>
        refine iff_of_true ?_ (Or.inr (Or.inl rfl))
        have hint := (coherent_integrate hc filtered).exact
        obtain ⟨fi, num, heq⟩ := integrate_eq s filtered
        rw [heq] at hint ⊢
        exact (hint hform).2
    | false =>
        have hclosed : (integrate s filtered).freqIntegral = clamp servoIntegralMax
              (s.freqIntegral + (-filtered * s.rtKiNum).tdiv servoKiDen) ∧
            (integrate s filtered).freqIntegralNum =
              (s.freqIntegral + (-filtered * s.rtKiNum).tdiv servoKiDen) * servoKiDen := by
          rw [integrate, if_pos hband, hform]
          exact ⟨rfl, rfl⟩
        rw [Quotient, hclosed.1, hclosed.2, Int.mul_tdiv_cancel _ (by decide : servoKiDen ≠ 0)]
        generalize s.freqIntegral + (-filtered * s.rtKiNum).tdiv servoKiDen = u
        constructor
        · intro h
          have hrail := rail_of_clamp u
          rw [h] at hrail
          exact Or.inr (Or.inr hrail)
        · rintro (hout | hexact | hrail)
          · exact absurd hband hout
          · cases hexact
          · exact clamp_of_bounded hrail.1 hrail.2
  · refine iff_of_true ?_ (Or.inl hband)
    rw [integrate, if_neg hband]
    exact hq

/-- An update keeps the quotient exactly if what it integrates stays within the rails. -/
theorem quotient_servoUpdate_iff (hc : Coherent s) (hq : Quotient s) (t1 t2 : Timestamp)
    (now : UInt32) : Quotient (servoUpdate s t1 t2 offset now).1 ↔
      (filters s offset = true → InRails s (filteredOf s offset)) := by
  cases hfilters : filters s offset with
  | false =>
      refine iff_of_true ?_ (fun h => Bool.noConfusion h)
      rw [servoUpdate]
      split
      · exact hq
      · rename_i hstep
        split
        · rw [acquire]
          split
          · exact hq
          · dsimp only
            split
            · exact hq
            · exact quotient_seed rfl rfl
        · rename_i hacq
          rw [if_pos]
          · exact hq
          · have hacq' : s.acqActive = false := Bool.eq_false_iff.2 hacq
            show (!s.pdStepDone && decide (pdMinSamples ≤ s.pdSamples)) = true
            simpa [filters, Bool.eq_false_iff.2 hstep, hacq'] using hfilters
  | true =>
      have hpush : Coherent (pushMedian (recordOffset s offset) offset) := hc.of_fields rfl rfl rfl
      have hsame : Quotient (servoUpdate s t1 t2 offset now).1 ↔
          Quotient (integrate (pushMedian (recordOffset s offset) offset)
            (filteredOf s offset)) := by
        cases hspike : isSpike s (filteredOf s offset) with
        | true => rw [servoUpdate_of_spike hfilters hspike]
        | false =>
            rw [servoUpdate_of_filters hfilters hspike]
            obtain ⟨unlock, lock, locked, cfg, heq⟩ :=
              streaks_eq (steered s offset) (filteredOf s offset) now
            rw [heq]
            rfl
      rw [hsame, quotient_integrate_iff hpush hq]
      exact ⟨fun h _ => h, fun h => h rfl⟩

end Integral

/-! ## The claim -/

/-- No offset that reaches the truncating form drives it past its rails. -/
def NoOvershoot (s : Slave) (e : PtpEvent) : Prop :=
  ∀ p ∈ newPairs s e, filters s.servo (pairOffset s.servo p) = true →
    InRails s.servo (filteredOf s.servo (pairOffset s.servo p))

instance (s : Servo) (filtered : Int) : Decidable (InRails s filtered) :=
  inferInstanceAs (Decidable (_ ∨ _ ∨ (_ ∧ _)))

instance (s : Slave) (e : PtpEvent) : Decidable (NoOvershoot s e) :=
  inferInstanceAs (Decidable (∀ p ∈ newPairs s e, _))

/-- The start of the grace period is not read. -/
theorem inRails_firstSync (s : Servo) (offset : Int) (now : UInt32) :
    (filters (firstSync s now) offset = true →
        InRails (firstSync s now) (filteredOf (firstSync s now) offset)) ↔
      (filters s offset = true → InRails s (filteredOf s offset)) := by
  rw [firstSync]
  split <;> exact Iff.rfl

theorem quotient_measure_iff {s : Servo} (hc : Coherent s) (hq : Quotient s) (s₀ : Servo)
    (p : Arrival × Origin) (now : UInt32) : Quotient (step s (measureOf s₀ p now)) ↔
      (filters s (pairOffset s₀ p) = true → InRails s (filteredOf s (pairOffset s₀ p))) :=
  quotient_servoUpdate_iff hc hq _ _ _

theorem quotient_slaveStep_iff {s : Slave} (hs : Holding s) (hb : InBounds s)
    (hq : Quotient s.servo) (e : PtpEvent) :
    Quotient (slaveStep s e).servo ↔ NoOvershoot s e := by
  have hnone : ∀ {e}, newPairs s e = [] → NoOvershoot s e := fun h p hp => by
    rw [h] at hp
    cases hp
  rw [slaveStep_servo hs]
  cases e with
  | poll n now txTime => exact iff_of_true hq (hnone rfl)
  | tuning n kiNum exact => exact iff_of_true (quotient_seed rfl rfl) (hnone rfl)
  | rx d rxTime late now =>
      obtain ⟨hfc, -, -, -⟩ := inBounds_firstSync now hb.coherent hb.delay hb.servo
      have hfq : Quotient (firstSync s.servo now) := by
        rw [firstSync]
        split <;> exact hq
      rw [servoEvents, NoOvershoot, newPairs]
      by_cases hone : OneStepSync s d
      · rw [if_pos hone, if_pos hone, List.forall_mem_singleton, run_cons, run_cons, run_nil]
        exact (quotient_measure_iff hfc hfq _ _ _).trans (inRails_firstSync _ _ _)
      · rw [if_neg hone, if_neg hone]
        by_cases hheld : HeldSync s d
        · have hnofu : ¬ AwaitedFollowUp s d := fun h =>
            absurd (hheld.2.1.symm.trans h.2.1) (by decide)
          rw [if_pos hheld, if_neg hnofu]
          exact iff_of_true hfq (List.forall_mem_nil _)
        · rw [if_neg hheld]
          by_cases hfu : AwaitedFollowUp s d
          · rw [if_pos hfu, if_pos hfu, List.forall_mem_singleton, run_cons, run_nil]
            exact quotient_measure_iff hb.coherent hq _ _ _
          · rw [if_neg hfu, if_neg hfu]
            refine iff_of_true ?_ (List.forall_mem_nil _)
            split
            · obtain ⟨hrate, -, -, -⟩ := delayResp_rate s.servo (pathDelay s d)
              show Quotient (delayResp s.servo (pathDelay s d))
              have hfi : (delayResp s.servo (pathDelay s d)).freqIntegral = s.servo.freqIntegral :=
                congrArg Rate.freqIntegral hrate
              have hnum : (delayResp s.servo (pathDelay s d)).freqIntegralNum =
                  s.servo.freqIntegralNum := congrArg Rate.freqIntegralNum hrate
              rw [Quotient, hfi, hnum]
              exact hq
            · exact hq

theorem checked_init (cfgAddend : Option Int) : ∃ cmds,
    Checked.init cfgAddend = some (init cfgAddend, cmds) ∧ (∀ cmd ∈ cmds, Sound cmd) ∧
      Bounded (init cfgAddend) ∧ Quotient (init cfgAddend) := by
  have hzero : Within 1000000 0 := ⟨by decide, by decide⟩
  have hcold : Bounded (init none) :=
    ⟨rfl, by decide, ⟨by decide, by decide⟩, ⟨by decide, by decide⟩, fun _ => hzero,
      fun h => Bool.noConfusion h⟩
  cases cfgAddend with
  | none => exact ⟨[], rfl, List.forall_mem_nil _, hcold, by decide⟩
  | some warm =>
      have hlim : baseAddendFull.tdiv 5000 = 18014 := by decide
      have hdiv : Signed.div 64 baseAddendFull 5000 = some 18014 := by decide
      have hlow : Signed.sub 64 baseAddendFull 18014 = some (baseAddendFull - 18014) := by decide
      have hhigh : Signed.add 64 baseAddendFull 18014 = some (baseAddendFull + 18014) := by decide
      have hrails := (coherent_init (some warm)).bounded
      simp only [Checked.init, hdiv, hlow, hhigh, Option.bind_eq_bind, Option.bind_some]
      rw [init] at hrails ⊢
      simp only [hlim] at hrails ⊢
      by_cases hwarm : warm ≠ 0 ∧ warm > baseAddendFull - 18014 ∧ warm < baseAddendFull + 18014
      · rw [if_pos hwarm] at hrails
        simp only [if_pos hwarm]
        obtain ⟨-, hwlow, hwhigh⟩ := hwarm
        rw [base_val] at *
        have hchange : Within 18014 (warm - 90071993) := ⟨by omega, by omega⟩
        have hscaled : Within 18014000000000 ((warm - 90071993) * 1000000000) := by
          obtain ⟨hclow, hchigh⟩ := hchange
          constructor <;> omega
        have hfits := fits_of_within (hscaled.mono (by decide))
        have hquot := Signed.div_of_pos (w := 64) (y := 90071993) (by decide) hfits
        have hnum : Within 3000000000000000
            (((warm - 90071993) * 1000000000).tdiv 90071993 * servoKiDen) := by
          have hmax : servoIntegralMax = 100000000 := rfl
          have hden : servoKiDen = 1000000 := rfl
          rw [hden]
          dsimp only at hrails
          constructor <;> omega
        have hcfits := fits_of_within (hchange.mono (by decide))
        have hnfits := fits_of_within (hnum.mono (by decide))
        refine ⟨[.setAddend warm], ?_, List.forall_mem_singleton.2 ⟨?_, ?_⟩, ?_,
          quotient_seed rfl rfl⟩
        · simp only [Signed.sub_of_fits hcfits, Signed.mul_of_fits hfits, hquot,
            Signed.mul_of_fits hnfits, Option.bind_some]
          rfl
        · omega
        · omega
        · exact ⟨hcold.base, ⟨by dsimp only; omega, by dsimp only; omega⟩, hnum, hcold.gain,
            hcold.samples, hcold.window⟩
      · simp only [if_neg hwarm]
        exact ⟨[], rfl, List.forall_mem_nil _,
          ⟨hcold.base, hcold.addend, hcold.num, hcold.gain, hcold.samples, hcold.window⟩,
          quotient_seed rfl rfl⟩

/-- What is asked of a step: no signed operation overflows or divides by zero, what is written to
the timestamp unit is in range, and the integral is within its rails and the truncated quotient of
its accumulator. -/
structure StepSound (s : Slave) (e : PtpEvent) : Prop where
  returns : ∃ cmds, Checked.slaveStep s e = some (slaveStep s e, cmds) ∧ ∀ cmd ∈ cmds, Sound cmd
  integral : Within servoIntegralMax (slaveStep s e).servo.freqIntegral
  quotient : Quotient (slaveStep s e).servo

theorem stepSound_iff {s : Slave} (hs : Holding s) (hb : InBounds s) (hq : Quotient s.servo)
    {e : PtpEvent} (he : InputInRange e) : StepSound s e ↔ NoOvershoot s e := by
  obtain ⟨cmds, hreturns, hsound, hnext⟩ := safe_slaveStep hb he
  rw [← quotient_slaveStep_iff hs hb hq e]
  exact ⟨StepSound.quotient, fun h => ⟨⟨cmds, hreturns, hsound⟩, hnext.coherent.bounded, h⟩⟩

theorem along_stepSound_iff :
    ∀ (es : List PtpEvent) {s : Slave}, Holding s → InBounds s → Quotient s.servo →
      (∀ e ∈ es, InputInRange e) →
      (Along slaveStep StepSound s es ↔ Along slaveStep NoOvershoot s es)
  | [], _, _, _, _, _ => Iff.rfl
  | e :: es, s, hs, hb, hq, hes => by
      have he : InputInRange e := hes e (by simp)
      obtain ⟨cmds, hreturns, hsound, hnext⟩ := safe_slaveStep hb he
      have hhead := stepSound_iff hs hb hq he
      have htail : NoOvershoot s e → (Along slaveStep StepSound (slaveStep s e) es ↔
          Along slaveStep NoOvershoot (slaveStep s e) es) := fun h =>
        along_stepSound_iff es (step_pairs hs e).2 hnext ((quotient_slaveStep_iff hs hb hq e).2 h)
          fun e' he' => hes e' (by simp [he'])
      exact ⟨fun h => ⟨hhead.1 h.1, (htail (hhead.1 h.1)).1 h.2⟩,
        fun h => ⟨hhead.2 h.1, (htail h.1).2 h.2⟩⟩

theorem inBounds_boot (uuid : Mac) (cfgAddend : Option Int) : InBounds (boot uuid cfgAddend) := by
  obtain ⟨cmds, -, -, hbounded, -⟩ := checked_init cfgAddend
  have hzero : InEra ⟨0, 0⟩ := ⟨by decide, by decide⟩
  exact ⟨coherent_init cfgAddend, (fresh_boot uuid cfgAddend).range, hbounded, hzero, hzero, hzero,
    fun _ h => Bool.noConfusion h⟩

/-- From any stored addend and over any run of messages, polls and tunings: everything is computed
without overflow and division by zero, every command is in range and the integral is the quotient
of its accumulator, exactly if the truncating form is never driven past its rails. -/
theorem servo_arithmetic_iff (uuid : Mac) (cfgAddend : Option Int) (es : List PtpEvent)
    (hes : ∀ e ∈ es, InputInRange e) :
    ((∃ cmds, Checked.init cfgAddend = some ((boot uuid cfgAddend).servo, cmds) ∧
        ∀ cmd ∈ cmds, Sound cmd) ∧ Along slaveStep StepSound (boot uuid cfgAddend) es) ↔
      Along slaveStep NoOvershoot (boot uuid cfgAddend) es := by
  obtain ⟨cmds, hreturns, hsound, -, hq⟩ := checked_init cfgAddend
  rw [← along_stepSound_iff es (holding_boot uuid cfgAddend) (inBounds_boot uuid cfgAddend) hq hes]
  exact and_iff_right ⟨cmds, hreturns, hsound⟩

theorem servo_arithmetic_iff_crossedRun :
    Along slaveStep StepSound (boot ourMac none) crossedRun := by
  refine ((servo_arithmetic_iff ourMac none crossedRun ?_).2 ?_).2
  · exact List.forall_mem_cons.2 ⟨by unfold InputInRange InEra; decide,
      List.forall_mem_singleton.2 (by unfold InputInRange InEra; decide)⟩
  · decide +kernel

/-- A Sync of leader A with its own origin time. -/
def lateSync : PtpEvent :=
  .rx (ptpMessage leaderA 5 ctrlSync 0 (Mem.be32 100 ++ Mem.be32 0 ++ List.replicate 76 0))
    ⟨100, 500000⟩ 0 1000

def overshootRun : List PtpEvent := [.tuning 1 2147483647 false, lateSync]

/-- With the largest gain and the truncating form, one offset of half a millisecond leaves an
accumulator of ten times the integral. -/
theorem integral_overshoots :
    (run slaveStep (boot ourMac (some baseAddendFull)) overshootRun).servo.freqIntegral =
        -100000000 ∧
      (run slaveStep (boot ourMac (some baseAddendFull)) overshootRun).servo.freqIntegralNum =
        -1073741823000000 ∧
      ¬ Along slaveStep StepSound (boot ourMac (some baseAddendFull)) overshootRun := by
  refine ⟨by decide +kernel, by decide +kernel, fun h => ?_⟩
  exact absurd h.2.1.quotient (by decide +kernel)

end Ptpv1
end Firmware
end InfernoFpga
