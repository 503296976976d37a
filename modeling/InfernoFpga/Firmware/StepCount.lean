import InfernoFpga.Firmware.PtpDelay
import InfernoFpga.Firmware.Talker

/-!
# StepCount — whether every clock move is seen by the talker

The talker re-anchors when the PTP step counter has changed since its last poll.  Every branch of
the servo that moves the clock counts, but one: the adjustment at the end of frequency
acquisition.
-/

namespace InfernoFpga
namespace Firmware
namespace Ptpv1

open Lib

/-! ## What the servo counts -/

/-- An update that ends frequency acquisition: no jump, and a full window since its base. -/
def completes (s : Servo) (t1 : Timestamp) (offset : Int) : Bool :=
  !isStep offset && s.acqActive && s.acqHaveBase &&
    decide (acqWindowNs ≤ tsDiffNs t1 s.acqT1)

/-- The tracking path neither moves the clock nor counts. -/
theorem track_counts (s : Servo) (offset : Int) (now : UInt32) :
    (track s offset now).1.stepCount = s.stepCount ∧ clockMoves (track s offset now).2 = 0 := by
  unfold track
  simp only []
  split
  · exact ⟨integrate_stepCount _ _, rfl⟩
  · refine ⟨?_, rfl⟩
    rw [streaks_stepCount]
    exact integrate_stepCount _ _

/-- Every clock move is counted, except the one that ends acquisition. -/
theorem servoUpdate_counts (s : Servo) (t1 t2 : Timestamp) (offset : Int) (now : UInt32) :
    (completes s t1 offset = false →
      (servoUpdate s t1 t2 offset now).1.stepCount =
        s.stepCount + UInt32.ofNat (clockMoves (servoUpdate s t1 t2 offset now).2)) ∧
    (completes s t1 offset = true →
      (servoUpdate s t1 t2 offset now).1.stepCount = s.stepCount ∧
        clockMoves (servoUpdate s t1 t2 offset now).2 = 1) := by
  have hzero : ∀ c : UInt32, c = c + UInt32.ofNat 0 := fun c => (UInt32.add_zero c).symm
  rw [servoUpdate]
  by_cases hstep : isStep offset = true
  · have hno : completes s t1 offset = false := by simp [completes, hstep]
    rw [if_pos hstep, hno]
    exact ⟨fun _ => rfl, fun h => Bool.noConfusion h⟩
  · rw [if_neg hstep]
    by_cases hacq : s.acqActive = true
    · have hacq' : (recordOffset s offset).acqActive = true := hacq
      rw [if_pos hacq', acquire]
      by_cases hbase : s.acqHaveBase = true
      · have hbase' : ¬ (!(recordOffset s offset).acqHaveBase) = true := by
          show ¬ (!s.acqHaveBase) = true
          rw [hbase]
          decide
        rw [if_neg hbase']
        by_cases hwin : tsDiffNs t1 s.acqT1 < acqWindowNs
        · have hno : completes s t1 offset = false := by
            simp only [completes, decide_eq_false (Int.not_le.2 hwin), Bool.and_false]
          have hwin' : tsDiffNs t1 (recordOffset s offset).acqT1 < acqWindowNs := hwin
          simp only [if_pos hwin', hno]
          exact ⟨fun _ => hzero _, fun h => Bool.noConfusion h⟩
        · have hyes : completes s t1 offset = true := by
            simp only [completes, Bool.eq_false_iff.2 hstep, hacq, hbase,
              decide_eq_true (Int.not_lt.1 hwin)]
            decide
          have hwin' : ¬ tsDiffNs t1 (recordOffset s offset).acqT1 < acqWindowNs := hwin
          simp only [if_neg hwin', hyes]
          exact ⟨fun h => Bool.noConfusion h, fun _ => ⟨rfl, rfl⟩⟩
      · have hno : completes s t1 offset = false := by
          simp only [completes, Bool.eq_false_iff.2 hbase, Bool.and_false, Bool.false_and]
        have hbase' : (!(recordOffset s offset).acqHaveBase) = true := by
          show (!s.acqHaveBase) = true
          rw [Bool.eq_false_iff.2 hbase]
          rfl
        rw [if_pos hbase', hno]
        exact ⟨fun _ => hzero _, fun h => Bool.noConfusion h⟩
    · have hno : completes s t1 offset = false := by
        simp only [completes, Bool.eq_false_iff.2 hacq, Bool.and_false, Bool.false_and]
      have hacq' : ¬ (recordOffset s offset).acqActive = true := hacq
      rw [if_neg hacq', hno]
      refine ⟨fun _ => ?_, fun h => Bool.noConfusion h⟩
      split
      · rfl
      · have htrack := track_counts (recordOffset s offset) offset now
        rw [htrack.2, htrack.1]
        exact hzero _

theorem firstSync_counts (s : Servo) (now : UInt32) :
    (firstSync s now).stepCount = s.stepCount ∧
      ∀ t1 offset, completes (firstSync s now) t1 offset = completes s t1 offset := by
  rw [firstSync]
  split <;> exact ⟨rfl, fun _ _ => rfl⟩

theorem acceptDelay_stepCount (s : Servo) (d : Int) : (acceptDelay s d).stepCount = s.stepCount := by
  rw [acceptDelay]
  split
  · rw [delaySample]
    split <;> rfl
  · rfl

/-! ## What the slave counts -/

/-- The offset of a pair, as the servo gets it. -/
def pairOffset (s : Servo) (p : Arrival × Origin) : Int :=
  tsDiffNs p.1.time p.2.time - s.meanPathDelayNs

/-- A pair handed to the servo that ends frequency acquisition. -/
def EndsAcquisition (s : Slave) (e : PtpEvent) : Prop :=
  ∃ p ∈ newPairs s e, completes s.servo p.2.time (pairOffset s.servo p) = true

/-- A step that counts the clock moves it makes. -/
def CountsMoves (s s' : Slave) : Prop :=
  s'.servo.stepCount = s.servo.stepCount + UInt32.ofNat (s'.moves - s.moves)

/-- Neither the clock nor its count has moved. -/
def SameCount (s s' : Slave) : Prop :=
  s'.moves = s.moves ∧ s'.servo.stepCount = s.servo.stepCount

theorem SameCount.countsMoves {s s' : Slave} (h : SameCount s s') : CountsMoves s s' := by
  rw [CountsMoves, h.1, h.2, Nat.sub_self]
  exact (UInt32.add_zero _).symm

/-- A step either counts its clock moves, or ends acquisition with a move it does not count. -/
def Accounted (s s' : Slave) (e : PtpEvent) : Prop :=
  (¬ EndsAcquisition s e ∧ s.moves ≤ s'.moves ∧ CountsMoves s s') ∨
    (EndsAcquisition s e ∧ s'.moves = s.moves + 1 ∧ s'.servo.stepCount = s.servo.stepCount)

theorem accounted_of_same {s s' : Slave} {e : PtpEvent} (h : SameCount s s')
    (hpairs : newPairs s e = []) : Accounted s s' e := by
  refine Or.inl ⟨?_, Nat.le_of_eq h.1.symm, h.countsMoves⟩
  rintro ⟨p, hp, -⟩
  rw [hpairs] at hp
  cases hp

/-- A pair that is resolved: the servo's own accounting. -/
theorem accounted_tryComputeOffset {s s₁ : Slave} {e : PtpEvent} (now : UInt32)
    (h1 : s₁.haveT1 = true) (h2 : s₁.haveT2 = true) (hmoves : s₁.moves = s.moves)
    (hcount : s₁.servo.stepCount = s.servo.stepCount)
    (hmean : s₁.servo.meanPathDelayNs = s.servo.meanPathDelayNs)
    (hcomp : ∀ t1 offset, completes s₁.servo t1 offset = completes s.servo t1 offset)
    (hpairs : newPairs s e = [(s₁.t2, s₁.t1)]) : Accounted s (tryComputeOffset s₁ now) e := by
  have hservo : (tryComputeOffset s₁ now).servo = (servoOnPair s₁ now).1 ∧
      (tryComputeOffset s₁ now).moves = s₁.moves + clockMoves (servoOnPair s₁ now).2 := by
    rw [tryComputeOffset, h1, h2]
    exact ⟨rfl, rfl⟩
  have hcounts := servoUpdate_counts s₁.servo s₁.t1.time s₁.t2.time
    (tsDiffNs s₁.t2.time s₁.t1.time - s₁.servo.meanPathDelayNs) now
  have hends : EndsAcquisition s e ↔ completes s₁.servo s₁.t1.time
      (tsDiffNs s₁.t2.time s₁.t1.time - s₁.servo.meanPathDelayNs) = true := by
    rw [EndsAcquisition, hpairs, hcomp, hmean]
    constructor
    · rintro ⟨p, hp, h⟩
      rwa [List.mem_singleton.1 hp] at h
    · intro h
      exact ⟨_, List.mem_singleton_self _, h⟩
  rcases hc : completes s₁.servo s₁.t1.time
      (tsDiffNs s₁.t2.time s₁.t1.time - s₁.servo.meanPathDelayNs) with _ | _
  · refine Or.inl ⟨fun h => ?_, ?_, ?_⟩
    · rw [hends, hc] at h
      cases h
    · rw [hservo.2, hmoves]
      exact Nat.le_add_right _ _
    · rw [CountsMoves, hservo.1, hservo.2, hmoves, Nat.add_sub_cancel_left, ← hcount]
      exact hcounts.1 hc
  · have hmoved := hcounts.2 hc
    refine Or.inr ⟨hends.2 hc, ?_, ?_⟩
    · rw [hservo.2, hmoves]
      exact congrArg (s.moves + ·) hmoved.2
    · rw [hservo.1, ← hcount]
      exact hmoved.1

section Messages

variable {s : Slave} {d : Datagram} (rxTime : Timestamp) (late : Nat) (now : UInt32)

theorem accounted_syncRx (hacc : Accepted s d) (hctrl : d.ctrl = ctrlSync) :
    Accounted s (syncRx s d rxTime late now) (.rx d rxTime late now) := by
  have hnofu : ¬ AwaitedFollowUp s d := fun h => absurd (hctrl.symm.trans h.2.1) (by decide)
  have hfirst := firstSync_counts s.servo now
  have hmean : (firstSync s.servo now).meanPathDelayNs = s.servo.meanPathDelayNs := by
    rw [firstSync]
    split <;> rfl
  rw [syncRx]
  by_cases hlen : d.blen < 8
  · rw [if_pos hlen]
    refine accounted_of_same ⟨rfl, rfl⟩ ?_
    rw [newPairs, if_neg fun h => absurd h.2.2.1 (by omega), if_neg hnofu]
  · rw [if_neg hlen]
    by_cases htwo : d.isTwoStep = true
    · simp only [if_pos htwo]
      refine accounted_of_same ⟨rfl, hfirst.1⟩ ?_
      rw [newPairs, if_neg, if_neg hnofu]
      intro h
      rw [h.2.2.2] at htwo
      cases htwo
    · have hone : OneStepSync s d := ⟨hacc, hctrl, by omega, Bool.eq_false_iff.2 htwo⟩
      simp only [if_neg htwo]
      exact accounted_tryComputeOffset now rfl rfl rfl hfirst.1 hmean hfirst.2
        (by rw [newPairs, if_pos hone]; rfl)

theorem accounted_followupRx (hs : Holding s) (hacc : Accepted s d)
    (hctrl : d.ctrl = ctrlFollowup) :
    Accounted s (followupRx s d now) (.rx d rxTime late now) := by
  have hnoone : ¬ OneStepSync s d := fun h => absurd (hctrl.symm.trans h.2.1) (by decide)
  -- a Follow_Up that is not awaited only counts itself
  have hidle : ¬ AwaitedFollowUp s d → newPairs s (.rx d rxTime late now) = [] := by
    intro hnofu
    rw [newPairs, if_neg hnoone, if_neg hnofu]
  rw [followupRx]
  by_cases hlen : d.blen < followupBodyLen
  · rw [if_pos hlen]
    exact accounted_of_same ⟨rfl, rfl⟩ (hidle fun h => absurd h.2.2.1 (by omega))
  · rw [if_neg hlen]
    by_cases haw : s.awaitingFollowup = true
    · by_cases hseq : d.associatedSeq = s.pendingSyncSeq
      · have hfu : AwaitedFollowUp s d := ⟨hacc, hctrl, by omega, haw, hseq⟩
        rw [if_neg (by simp [haw]), if_neg (by simp [hseq])]
        exact accounted_tryComputeOffset now rfl (hs.haveT2 haw) rfl rfl rfl (fun _ _ => rfl)
          (by rw [newPairs, if_neg hnoone, if_pos hfu])
      · rw [if_neg (by simp [haw]), if_pos hseq]
        exact accounted_of_same ⟨rfl, rfl⟩ (hidle fun h => hseq h.2.2.2.2)
    · rw [if_pos (by simp [haw])]
      exact accounted_of_same ⟨rfl, rfl⟩ (hidle fun h => haw h.2.2.2.1)

theorem sameCount_delayRespRx (s : Slave) (d : Datagram) : SameCount s (delayRespRx s d) := by
  rw [delayRespRx]
  split
  · exact ⟨rfl, rfl⟩
  · dsimp only
    split
    · rw [useResp]
      split <;> exact ⟨rfl, acceptDelay_stepCount _ _⟩
    · exact ⟨rfl, rfl⟩

theorem sameCount_ptpv1Poll (s : Slave) (n : Net) (now : UInt32) (txTime : Timestamp) :
    SameCount s (ptpv1Poll s n now txTime).1 := by
  rw [ptpv1Poll]
  by_cases hdue : reqDue s now = true
  · rw [if_pos hdue]
    cases hmaster : s.haveMaster with
    | true =>
        rcases hsend : sendDelayReq s n txTime with ⟨s', n'⟩
        have hs' := sendDelayReq_fst s n txTime
        rw [hsend] at hs'
        subst hs'
        exact ⟨rfl, rfl⟩
    | false => exact ⟨rfl, rfl⟩
  · rw [if_neg hdue]
    exact ⟨rfl, rfl⟩

/-- One step of the slave. -/
theorem accounted_step (hs : Holding s) (e : PtpEvent) : Accounted s (slaveStep s e) e := by
  cases e with
  | poll n now txTime => exact accounted_of_same (sameCount_ptpv1Poll s n now txTime) rfl
  | tuning n ki exact => exact accounted_of_same ⟨rfl, rfl⟩ rfl
  | rx d rxTime late now =>
      show Accounted s (ptpv1Rx s d rxTime late now) (.rx d rxTime late now)
      by_cases hacc : Accepted s d
      · rw [ptpv1Rx_accepted hacc]
        by_cases hsync : d.ctrl = ctrlSync
        · rw [if_pos hsync]
          exact accounted_syncRx rxTime late now hacc hsync
        · rw [if_neg hsync]
          by_cases hfu : d.ctrl = ctrlFollowup
          · rw [if_pos hfu]
            exact accounted_followupRx rxTime late now hs hacc hfu
          · have hnone : newPairs s (.rx d rxTime late now) = [] := by
              rw [newPairs, if_neg fun h => hsync h.2.1, if_neg fun h => hfu h.2.1]
            rw [if_neg hfu]
            split
            · exact accounted_of_same (sameCount_delayRespRx s d) hnone
            · exact accounted_of_same ⟨rfl, rfl⟩ hnone
      · rw [ptpv1Rx_ignored hacc]
        refine accounted_of_same ⟨rfl, rfl⟩ ?_
        rw [newPairs, if_neg fun h => hacc h.1, if_neg fun h => hacc h.1]

theorem moves_le_slaveStep (hs : Holding s) (e : PtpEvent) : s.moves ≤ (slaveStep s e).moves := by
  rcases accounted_step hs e with ⟨-, hle, -⟩ | ⟨-, hmoves, -⟩
  · exact hle
  · exact hmoves ▸ Nat.le_add_right _ _

/-- A step counts its clock moves exactly when it does not end acquisition. -/
theorem countsMoves_iff (hs : Holding s) (e : PtpEvent) :
    CountsMoves s (slaveStep s e) ↔ ¬ EndsAcquisition s e := by
  rcases accounted_step hs e with ⟨hno, -, hcounts⟩ | ⟨hends, hmoves, hcount⟩
  · exact iff_of_true hcounts hno
  · refine iff_of_false (fun h => ?_) (not_not_intro hends)
    have hone : s.servo.stepCount = s.servo.stepCount + 1 := by
      rw [CountsMoves, hcount, hmoves, Nat.add_sub_cancel_left] at h
      exact h
    exact absurd (UInt32.left_eq_add.1 hone) (by decide)

end Messages

end Ptpv1

/-! ## What a poll follows -/

open Lib
open Packetizer (CtxId Word)
open Ptpv1 (Timestamp Servo Slave)

/-- The words an anchor loads. -/
def anchorLoad (offset : Int) (t : Timestamp) : Word × Word :=
  (BitVec.ofInt 32 (anchorOf t offset).1, BitVec.ofInt 32 (anchorOf t offset).2)

/-- Neither the step counter last seen nor the gate has changed, and loads are only added. -/
structure KeepsSeen (k k' : Talker) : Prop where
  seenSteps : k'.seenSteps = k.seenSteps
  seenInit : k'.seenInit = k.seenInit
  loads : k.loads <+: k'.loads

theorem KeepsSeen.refl (k : Talker) : KeepsSeen k k := ⟨rfl, rfl, List.prefix_refl _⟩

theorem KeepsSeen.trans {k₁ k₂ k₃ : Talker} (h : KeepsSeen k₁ k₂) (h' : KeepsSeen k₂ k₃) :
    KeepsSeen k₁ k₃ :=
  ⟨h'.seenSteps.trans h.seenSteps, h'.seenInit.trans h.seenInit, h.loads.trans h'.loads⟩

theorem tsAnchor_loads (k : Talker) (t : Timestamp) :
    (tsAnchor k t).loads = k.loads ++ [anchorLoad k.tsOffsetSamples t] := rfl

theorem keepsSeen_guardPhase (k : Talker) (i : TxPoll) : KeepsSeen k (guardPhase k i) := by
  have hstreak : ∀ streak : UInt8, KeepsSeen k
      (if 2 ≤ streak then tsAnchor { k with badStreak := 0 } i.guardAnchorTime
        else { k with badStreak := streak }) := by
    intro streak
    split
    · exact ⟨rfl, rfl, ⟨_, (tsAnchor_loads _ _).symm⟩⟩
    · exact ⟨rfl, rfl, List.prefix_refl _⟩
  exact hstreak _

theorem keepsSeen_switchTalker (k : Talker) (want : Bool) (i : TxPoll) :
    KeepsSeen k (switchTalker k want i) := by
  rw [switchTalker]
  split
  · exact KeepsSeen.refl k
  · split
    · exact ⟨rfl, rfl, ⟨_, (tsAnchor_loads _ _).symm⟩⟩
    · exact ⟨rfl, rfl, List.prefix_refl _⟩

/-- After `followSteps` the counter has been seen, and a change of it was answered by an anchor. -/
theorem followSteps_spec (k : Talker) (s : Servo) (i : TxPoll) :
    (followSteps k s i).seenSteps = s.stepCount ∧ (followSteps k s i).seenInit = true ∧
      (k.seenInit = true → k.tx.talkerOn = true → s.stepCount ≠ k.seenSteps →
        (followSteps k s i).loads = k.loads ++ [anchorLoad k.tsOffsetSamples i.stepTime]) := by
  unfold followSteps
  simp only []
  by_cases hinit : k.seenInit = true
  · rw [if_pos hinit]
    by_cases hsteps : s.stepCount = k.seenSteps
    · rw [if_neg (not_not_intro hsteps)]
      exact ⟨hsteps.symm, hinit, fun _ _ hne => absurd hsteps hne⟩
    · rw [if_pos hsteps]
      split
      · exact ⟨rfl, hinit, fun _ _ _ => rfl⟩
      · rename_i hoff
        exact ⟨rfl, hinit, fun _ hon => absurd hon hoff⟩
  · rw [if_neg hinit, if_neg (not_not_intro rfl)]
    exact ⟨rfl, rfl, fun h => absurd h hinit⟩

/-- After a poll the counter has been seen; a change of it before was answered by an anchor. -/
theorem danteTxPoll_spec (k : Talker) (s : Servo) (i : TxPoll) :
    (danteTxPoll k s i).seenSteps = s.stepCount ∧ (danteTxPoll k s i).seenInit = true ∧
      (k.seenInit = true → k.tx.talkerOn = true → s.stepCount ≠ k.seenSteps →
        k.loads ++ [anchorLoad k.tsOffsetSamples i.stepTime] <+: (danteTxPoll k s i).loads) := by
  have hfollow := followSteps_spec (noteLock k s i) s i
  have hrest : KeepsSeen (followSteps (noteLock k s i) s i) (danteTxPoll k s i) := by
    unfold danteTxPoll
    simp only []
    refine KeepsSeen.trans ?_ (keepsSeen_switchTalker _ _ i)
    split
    · exact keepsSeen_guardPhase _ i
    · exact KeepsSeen.refl _
  refine ⟨hrest.seenSteps.trans hfollow.1, hrest.seenInit.trans hfollow.2.1, ?_⟩
  intro hinit hon hne
  have hload := hfollow.2.2 hinit hon hne
  have hprefix := hrest.loads
  rw [hload] at hprefix
  exact hprefix

/-! ## What leaves the gate closed -/

theorem foldl_talkerOn {f : Tx → CtxId → Tx} (hf : ∀ t c, (f t c).talkerOn = t.talkerOn)
    (t : Tx) : ((List.finRange nFlows).foldl f t).talkerOn = t.talkerOn :=
  run_invariant (P := fun t' => t'.talkerOn = t.talkerOn) f
    (fun t' c ht' => (hf t' c).trans ht') (List.finRange nFlows) rfl

theorem reseedPhases_talkerOn (t : Tx) (sub : Nat) :
    (reseedPhases t sub).talkerOn = t.talkerOn := by
  refine foldl_talkerOn (fun t c => ?_) t
  unfold reseedFlow
  simp only []
  split <;> rfl

theorem tsAnchor_talkerOn (k : Talker) (t : Timestamp) :
    (tsAnchor k t).tx.talkerOn = k.tx.talkerOn := reseedPhases_talkerOn _ _

/-- An operation of the flow table never opens the gate. -/
theorem talkerOn_of_txStep (t : Tx) (op : TxOp) (h : (txStep t op).talkerOn = true) :
    t.talkerOn = true := by
  have hunbind : ∀ t c, (unbind t c).talkerOn = t.talkerOn := by
    intro t c
    rw [unbind]
    split <;> rfl
  have hinit : ∀ t, (danteTxInit t).talkerOn = false := fun t =>
    (foldl_talkerOn (fun _ _ => rfl) (initShared t)).trans rfl
  cases op with
  | init => rw [txStep, hinit] at h; cases h
  | unicast r dmac now reads =>
      cases dmac with
      | none => exact h
      | some dmac =>
          rw [txStep, bindUnicast] at h
          split at h
          · exact h
          · split at h <;> exact h
  | multicast extId chans n now reads =>
      rw [txStep, bindMulticast] at h
      split at h
      · exact h
      · split at h
        · exact h
        · exact (hunbind _ _).symm.trans h
  | unbind f => exact (hunbind t f).symm.trans h
  | dropAll => exact (foldl_talkerOn hunbind t).symm.trans h
  | reseed sub => exact (reseedPhases_talkerOn t sub).symm.trans h
  | talker on =>
      cases on with
      | true =>
          have hoff : (txStep t (.talker true)).talkerOn = false := hinit t
          rw [hoff] at h
          cases h
      | false => exact h
  | setMcastFpp fpp => exact h

/-! ## Runs of the firmware -/

/-- What an observer remembers since the last poll of the talker: the clock moves before it, and
whether the clock was moved while the talker was on. -/
structure SincePoll where
  moves : Nat
  movedOn : Bool

/-- Nothing yet. -/
def SincePoll.start : SincePoll := ⟨0, false⟩

def notePoll (x : Device) (e : DeviceEvent) (g : SincePoll) : SincePoll :=
  match e with
  | .ptp e =>
      { g with movedOn := g.movedOn ||
          (x.talker.tx.talkerOn && decide ((Ptpv1.slaveStep x.slave e).moves ≠ x.slave.moves)) }
  | .poll _ => ⟨x.slave.moves, false⟩
  | _ => g

/-- Every clock move increments the step counter. -/
def Counts (p : Device × SincePoll) : DeviceEvent → Prop
  | .ptp e => Ptpv1.CountsMoves p.1.slave (Ptpv1.slaveStep p.1.slave e)
  | _ => True

/-- A talker that was on when the clock was moved anchors at this poll. -/
def Reanchors (p : Device × SincePoll) : DeviceEvent → Prop
  | .poll i => p.2.movedOn = true →
      p.1.talker.loads ++ [anchorLoad p.1.talker.tsOffsetSamples i.stepTime] <+:
        (danteTxPoll p.1.talker p.1.slave.servo i).loads
  | _ => True

/-- No offset that is handed to the servo ends frequency acquisition. -/
def NoCompletion (p : Device × SincePoll) : DeviceEvent → Prop
  | .ptp e => ¬ Ptpv1.EndsAcquisition p.1.slave e
  | _ => True

/-- The same, as long as the talker is on. -/
def NoCompletionOn (p : Device × SincePoll) : DeviceEvent → Prop
  | .ptp e => p.1.talker.tx.talkerOn = true → ¬ Ptpv1.EndsAcquisition p.1.slave e
  | _ => True

/-- At a poll after a move, the talker has not been re-initialised, and the counter has not gone
all the way round since the last poll. -/
def PolledInTime (p : Device × SincePoll) : DeviceEvent → Prop
  | .poll _ => p.2.movedOn = true →
      p.1.talker.tx.talkerOn = true ∧ p.1.slave.moves - p.2.moves < 2 ^ 32
  | _ => True

/-- The step counter last seen, and what has been counted since: while the talker is on, every
move. -/
structure Followed (p : Device × SincePoll) : Prop where
  hold : Ptpv1.Holding p.1.slave
  on : p.1.talker.tx.talkerOn = true → p.1.talker.seenInit = true
  past : p.2.moves ≤ p.1.slave.moves
  moved : p.2.movedOn = true → p.2.moves < p.1.slave.moves
  steps : p.1.talker.tx.talkerOn = true → p.1.slave.servo.stepCount =
    p.1.talker.seenSteps + UInt32.ofNat (p.1.slave.moves - p.2.moves)

theorem followed_boot (uuid : Mac) (cfgAddend : Option Int) (tx : Tx) :
    Followed (Device.boot uuid cfgAddend tx, SincePoll.start) :=
  ⟨Ptpv1.holding_boot uuid cfgAddend, fun h => Bool.noConfusion h, Nat.le_refl _,
    fun h => Bool.noConfusion h, fun h => Bool.noConfusion h⟩

/-- The observer sees a move only where there is one. -/
theorem moved_ptp {p : Device × SincePoll} (hp : Followed p) (e : Ptpv1.PtpEvent)
    (hle : p.1.slave.moves ≤ (Ptpv1.slaveStep p.1.slave e).moves)
    (hmoved : (notePoll p.1 (.ptp e) p.2).movedOn = true) :
    p.2.moves < (Ptpv1.slaveStep p.1.slave e).moves := by
  rcases Nat.lt_or_eq_of_le hle with hlt | heq
  · exact Nat.lt_of_le_of_lt hp.past hlt
  · have hno : decide ((Ptpv1.slaveStep p.1.slave e).moves ≠ p.1.slave.moves) = false :=
      decide_eq_false (not_not_intro heq.symm)
    have hbefore : p.2.movedOn = true := by
      have hor : (p.2.movedOn || (p.1.talker.tx.talkerOn &&
        decide ((Ptpv1.slaveStep p.1.slave e).moves ≠ p.1.slave.moves))) = true := hmoved
      rw [hno, Bool.and_false, Bool.or_false] at hor
      exact hor
    exact Nat.lt_of_lt_of_le (hp.moved hbefore) hle

theorem followed_ptp {p : Device × SincePoll} (hp : Followed p) (e : Ptpv1.PtpEvent)
    (hno : NoCompletionOn p (.ptp e)) : Followed (watch deviceStep notePoll p (.ptp e)) := by
  have hle := Ptpv1.moves_le_slaveStep hp.hold e
  refine ⟨(Ptpv1.step_pairs hp.hold e).2, hp.on, hp.past.trans hle, moved_ptp hp e hle, ?_⟩
  intro hon
  have hcounts := (Ptpv1.countsMoves_iff hp.hold e).2 (hno hon)
  have hsum : (Ptpv1.slaveStep p.1.slave e).moves - p.2.moves =
      (p.1.slave.moves - p.2.moves) +
        ((Ptpv1.slaveStep p.1.slave e).moves - p.1.slave.moves) := by
    have hpast := hp.past
    omega
  calc (Ptpv1.slaveStep p.1.slave e).servo.stepCount
      = p.1.slave.servo.stepCount +
          UInt32.ofNat ((Ptpv1.slaveStep p.1.slave e).moves - p.1.slave.moves) := hcounts
    _ = p.1.talker.seenSteps + UInt32.ofNat (p.1.slave.moves - p.2.moves) +
          UInt32.ofNat ((Ptpv1.slaveStep p.1.slave e).moves - p.1.slave.moves) := by
        rw [hp.steps hon]
    _ = p.1.talker.seenSteps +
          UInt32.ofNat ((Ptpv1.slaveStep p.1.slave e).moves - p.2.moves) := by
        rw [hsum, UInt32.ofNat_add, UInt32.add_assoc]

/-- While the talker is on, a step that does not end acquisition keeps the counters together. -/
theorem followed_step {p : Device × SincePoll} (hp : Followed p) (e : DeviceEvent)
    (hno : NoCompletionOn p e) : Followed (watch deviceStep notePoll p e) := by
  cases e with
  | ptp e => exact followed_ptp hp e hno
  | poll i =>
      have hpoll := danteTxPoll_spec p.1.talker p.1.slave.servo i
      refine ⟨hp.hold, fun _ => hpoll.2.1, Nat.le_refl _, fun h => Bool.noConfusion h, fun _ => ?_⟩
      show p.1.slave.servo.stepCount = (danteTxPoll p.1.talker p.1.slave.servo i).seenSteps +
        UInt32.ofNat (p.1.slave.moves - p.1.slave.moves)
      rw [hpoll.1, Nat.sub_self]
      exact (UInt32.add_zero _).symm
  | flows op =>
      have hon := talkerOn_of_txStep p.1.talker.tx op
      exact ⟨hp.hold, fun h => hp.on (hon h), hp.past, hp.moved, fun h => hp.steps (hon h)⟩
  | tsOffset v t =>
      have hon : (danteTxSetTsOffset p.1.talker v t).tx.talkerOn = p.1.talker.tx.talkerOn :=
        tsAnchor_talkerOn _ _
      exact ⟨hp.hold, fun h => hp.on (hon.symm.trans h), hp.past, hp.moved,
        fun h => hp.steps (hon.symm.trans h)⟩

/-- A poll after a counted move anchors. -/
theorem reanchors_of_polledInTime {p : Device × SincePoll} (hp : Followed p) (e : DeviceEvent)
    (htime : PolledInTime p e) : Reanchors p e := by
  cases e with
  | ptp e => trivial
  | flows op => trivial
  | tsOffset v t => trivial
  | poll i =>
      intro hmoved
      obtain ⟨hon, hfew⟩ := htime hmoved
      have hinit := hp.on hon
      have hlt := hp.moved hmoved
      refine (danteTxPoll_spec p.1.talker p.1.slave.servo i).2.2 hinit hon ?_
      intro hsame
      have hsteps := hp.steps hon
      rw [hsame] at hsteps
      have hzero := congrArg UInt32.toNat (UInt32.left_eq_add.1 hsteps)
      rw [UInt32.toNat_ofNat_of_lt' hfew] at hzero
      exact absurd hzero (Nat.sub_ne_zero_of_lt hlt)

/-- Over any run from boot: every clock move is counted iff no offset ended frequency acquisition.
If none did while the talker was on, a talker that was on when the clock was moved anchors at its
next poll, unless it was re-initialised or the counter had gone all the way round. -/
theorem moves_counted_iff (uuid : Mac) (cfgAddend : Option Int) (tx : Tx)
    (es : List DeviceEvent) :
    (Along (watch deviceStep notePoll) Counts (Device.boot uuid cfgAddend tx, SincePoll.start) es ↔
      Along (watch deviceStep notePoll) NoCompletion
        (Device.boot uuid cfgAddend tx, SincePoll.start) es) ∧
    (Along (watch deviceStep notePoll) (fun p e => NoCompletionOn p e ∧ PolledInTime p e)
        (Device.boot uuid cfgAddend tx, SincePoll.start) es →
      Along (watch deviceStep notePoll) Reanchors
        (Device.boot uuid cfgAddend tx, SincePoll.start) es) := by
  have hboot := followed_boot uuid cfgAddend tx
  have hhold : ∀ p e, Ptpv1.Holding p.1.slave →
      Ptpv1.Holding (watch deviceStep notePoll p e).1.slave := by
    intro p e hp
    cases e with
    | ptp e => exact (Ptpv1.step_pairs hp e).2
    | poll i => exact hp
    | flows op => exact hp
    | tsOffset v t => exact hp
  have hiff : ∀ p e, Ptpv1.Holding p.1.slave → (Counts p e ↔ NoCompletion p e) := by
    intro p e hp
    cases e with
    | ptp e => exact Ptpv1.countsMoves_iff hp e
    | poll i => exact Iff.rfl
    | flows op => exact Iff.rfl
    | tsOffset v t => exact Iff.rfl
  refine ⟨⟨fun h => ?_, fun h => ?_⟩, fun h => ?_⟩
  · have hkept := h.strengthen (P := fun p => Ptpv1.Holding p.1.slave)
      (fun p e _ hp => hhold p e hp) hboot.hold
    exact hkept.mono fun p e hpe => (hiff p e hpe.2).1 hpe.1
  · have hkept := h.strengthen (P := fun p => Ptpv1.Holding p.1.slave)
      (fun p e _ hp => hhold p e hp) hboot.hold
    exact hkept.mono fun p e hpe => (hiff p e hpe.2).2 hpe.1
  · have hkept := h.strengthen (P := Followed)
      (fun p e hn hp => followed_step hp e hn.1) hboot
    exact hkept.mono fun p e hpe => reanchors_of_polledInTime hpe.2 e hpe.1.2

/-! ## The end of acquisition -/

/-- Cold boot, then two Syncs eight seconds apart: the second offset ends acquisition. -/
def acquisitionRun : List DeviceEvent :=
  (Ptpv1.syncPair 1 ⟨100, 0⟩ ⟨100, 20000⟩ 1000 ++
    Ptpv1.syncPair 9 ⟨108, 0⟩ ⟨108, 20000⟩ 9000).map .ptp

instance (p : Device × SincePoll) : ∀ e, Decidable (Counts p e)
  | .ptp _ => inferInstanceAs (Decidable (_ = _))
  | .poll _ => inferInstanceAs (Decidable True)
  | .flows _ => inferInstanceAs (Decidable True)
  | .tsOffset _ _ => inferInstanceAs (Decidable True)

/-- The clock has been moved, and the step counter stays at zero. -/
theorem move_not_counted :
    ((run deviceStep (Device.boot Ptpv1.ourMac none (Tx.boot ⟨10, 0, 0, 2⟩ Ptpv1.ourMac))
        acquisitionRun).slave.moves,
      (run deviceStep (Device.boot Ptpv1.ourMac none (Tx.boot ⟨10, 0, 0, 2⟩ Ptpv1.ourMac))
        acquisitionRun).slave.servo.stepCount) = (1, 0) ∧
    ¬ Along (watch deviceStep notePoll) Counts
      (Device.boot Ptpv1.ourMac none (Tx.boot ⟨10, 0, 0, 2⟩ Ptpv1.ourMac), SincePoll.start)
      acquisitionRun := by
  decide +kernel

end Firmware
end InfernoFpga
