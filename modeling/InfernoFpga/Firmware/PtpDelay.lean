import InfernoFpga.Firmware.PtpLock
import InfernoFpga.Firmware.PtpPairing

/-!
# PtpDelay — on which timeline a path delay was measured

A path delay combines the receive time of a Sync with the transmit time of a DelayReq.  When the
servo moves the clock neither of them is forgotten, so a DelayResp that comes before both have
been taken again mixes two timelines.
-/

namespace InfernoFpga
namespace Firmware
namespace Ptpv1

open Lib

/-! ## The range of the path delay -/

/-- The accepted range of the mean path delay. -/
def DelayInRange (s : Servo) : Prop := 0 ≤ s.meanPathDelayNs ∧ s.meanPathDelayNs < 10000000

/-- A step of the running mean ends between the mean and the sample. -/
theorem mean_in_range {m d : Int} {k : Int} (hk : 0 < k) (hm : 0 ≤ m ∧ m < 10000000)
    (hd : 0 ≤ d ∧ d < 10000000) :
    0 ≤ m + (d - m).tdiv k ∧ m + (d - m).tdiv k < 10000000 := by
  rcases Int.le_total 0 (d - m) with hup | hdown
  · have hlow : 0 ≤ (d - m).tdiv k := Int.tdiv_nonneg hup (Int.le_of_lt hk)
    have hhigh : (d - m).tdiv k ≤ d - m := Int.tdiv_le_self k hup
    omega
  · have hneg : (d - m).tdiv k = -((m - d).tdiv k) := by
      rw [← Int.neg_tdiv, Int.neg_sub]
    have hlow : 0 ≤ (m - d).tdiv k := Int.tdiv_nonneg (by omega) (Int.le_of_lt hk)
    have hhigh : (m - d).tdiv k ≤ m - d := Int.tdiv_le_self k (by omega)
    omega

theorem delayInRange_delaySample {s : Servo} (h : DelayInRange s) {d : Int}
    (hd : 0 ≤ d ∧ d < 10000000) : DelayInRange (delaySample s d) := by
  have hk : 0 < (s.pdSamples : Int) + 1 := Int.lt_add_one_of_le (Int.natCast_nonneg _)
  have hmean := mean_in_range hk h hd
  have hslow := mean_in_range (k := 8) (by decide) h hd
  rw [delaySample]
  split
  · exact hmean
  · exact hslow

theorem delayInRange_acceptDelay {s : Servo} (h : DelayInRange s) {d : Int} (hd : 0 ≤ d) :
    DelayInRange (acceptDelay s d) := by
  rw [acceptDelay]
  split
  · rename_i hlt
    exact delayInRange_delaySample h ⟨hd, hlt⟩
  · exact h

/-- The tracking path leaves the path delay alone. -/
theorem meanPathDelay_track (s : Servo) (offset : Int) (now : UInt32) :
    (track s offset now).1.meanPathDelayNs = s.meanPathDelayNs := by
  unfold track
  simp only []
  split
  · exact integrate_meanPathDelayNs _ _
  · rw [streaks_meanPathDelayNs]
    exact integrate_meanPathDelayNs _ _

/-- The servo leaves the path delay alone, or forgets it. -/
theorem meanPathDelay_servoUpdate (s : Servo) (t1 t2 : Timestamp) (offset : Int) (now : UInt32) :
    (servoUpdate s t1 t2 offset now).1.meanPathDelayNs = s.meanPathDelayNs ∨
      (servoUpdate s t1 t2 offset now).1.meanPathDelayNs = 0 := by
  rw [servoUpdate]
  split
  · exact Or.inl rfl
  · split
    · rw [acquire]
      split
      · exact Or.inl rfl
      · dsimp only
        split
        · exact Or.inl rfl
        · exact Or.inr rfl
    · split
      · exact Or.inl rfl
      · exact Or.inl (meanPathDelay_track _ _ _)

theorem delayInRange_servoUpdate {s : Servo} (h : DelayInRange s) (t1 t2 : Timestamp)
    (offset : Int) (now : UInt32) : DelayInRange (servoUpdate s t1 t2 offset now).1 := by
  rcases meanPathDelay_servoUpdate s t1 t2 offset now with hsame | hzero
  · rw [DelayInRange, hsame]
    exact h
  · rw [DelayInRange, hzero]
    decide

/-! ## What has been taken since the last clock move -/

/-- What has happened since the clock was last moved: the Sync being held arrived since, the last
resolved pair is of such a Sync, a DelayReq was sent. -/
structure Since where
  sync : Bool
  pair : Bool
  req : Bool
  deriving DecidableEq

/-- Nothing yet. -/
def Since.none : Since := ⟨false, false, false⟩

/-- A Sync that is held, whatever follows. -/
def HeldSync (s : Slave) (d : Datagram) : Prop :=
  Accepted s d ∧ d.ctrl = ctrlSync ∧ 8 ≤ d.blen

instance (s : Slave) (d : Datagram) : Decidable (HeldSync s d) :=
  inferInstanceAs (Decidable (_ ∧ _))

/-- The Sync held after a message arrived since the last clock move. -/
def syncSince (s : Slave) (g : Since) : PtpEvent → Bool
  | .rx d _ late _ => if HeldSync s d then decide (s.moves - late = s.moves) else g.sync
  | _ => g.sync

/-- A DelayReq is sent. -/
def sends (s : Slave) : PtpEvent → Bool
  | .poll _ now _ => reqDue s now && s.haveMaster
  | _ => false

/-- The observer of a run: a clock move forgets everything. -/
def observe (s : Slave) (e : PtpEvent) (g : Since) : Since :=
  if (slaveStep s e).moves = s.moves then
    { sync := syncSince s g e
      pair := if newPairs s e = [] then g.pair else syncSince s g e
      req := g.req || sends s e }
  else Since.none

/-- A DelayResp that goes into the filter. -/
def UsedResp (s : Slave) (d : Datagram) : Prop :=
  Accepted s d ∧ d.ctrl = ctrlDelayResp ∧ delayRespBodyLen ≤ d.blen ∧ acceptsResp s d = true

instance (s : Slave) (d : Datagram) : Decidable (UsedResp s d) :=
  inferInstanceAs (Decidable (_ ∧ _))

/-- A DelayResp that goes into the filter comes when, since the last clock move, a Sync has
arrived and been resolved and a DelayReq has been sent. -/
def Refreshed (p : Slave × Since) : PtpEvent → Prop
  | .rx d _ _ _ => UsedResp p.1 d → p.2.pair = true ∧ p.2.req = true
  | _ => True

/-- A sample whose `t2` and `t3` were taken since the last clock move. -/
def OneTimeline (x : DelaySample) : Prop := x.t2Moves = x.moves ∧ x.t3Moves = x.moves

/-- The sample a step takes. -/
def newSamples (s : Slave) : PtpEvent → List DelaySample
  | .rx d _ _ _ =>
      if UsedResp s d then
        [⟨s.lastT2Moves, s.t3.moves, s.moves, Mem.rd16 d.p (hdrLen + 18), s.t3.seq⟩]
      else []
  | _ => []

/-! ## The invariant -/

/-- The observer is right about everything that is still in use, the request in flight is the
last one sent, and the path delay is in range. -/
structure Fresh (s : Slave) (g : Since) : Prop where
  t2Past : s.t2.moves ≤ s.moves
  pairPast : s.lastT2Moves ≤ s.moves
  t3Past : s.t3.moves ≤ s.moves
  sync : s.haveT2 = true → (g.sync = true ↔ s.t2.moves = s.moves)
  pair : s.haveT2T1 = true → (g.pair = true ↔ s.lastT2Moves = s.moves)
  req : s.haveT3 = true → (g.req = true ↔ s.t3.moves = s.moves)
  seq : s.haveT3 = true → s.t3.seq = (s.delayReqSeq - 1).toNat
  range : DelayInRange s.servo

theorem fresh_boot (uuid : Mac) (cfgAddend : Option Int) :
    Fresh (boot uuid cfgAddend) Since.none := by
  have hzero : (init cfgAddend).meanPathDelayNs = 0 := by
    unfold init
    cases cfgAddend with
    | none => rfl
    | some warm =>
        simp only []
        split <;> rfl
  have hrange : DelayInRange (init cfgAddend) := by
    rw [DelayInRange, hzero]
    decide
  exact ⟨Nat.le_refl 0, Nat.le_refl 0, Nat.le_refl 0, fun h => Bool.noConfusion h,
    fun h => Bool.noConfusion h, fun h => Bool.noConfusion h, fun h => Bool.noConfusion h, hrange⟩

/-- What the invariant reads is as it was, but for timestamps that are no longer in use. -/
structure KeepsTimes (s s' : Slave) : Prop where
  moves : s'.moves = s.moves
  t2 : s'.t2 = s.t2
  haveT2 : s'.haveT2 = s.haveT2
  lastT2Moves : s'.lastT2Moves = s.lastT2Moves
  haveT2T1 : s'.haveT2T1 = s.haveT2T1
  t3 : s'.t3 = s.t3
  haveT3 : s'.haveT3 = true → s.haveT3 = true
  delayReqSeq : s'.delayReqSeq = s.delayReqSeq
  range : DelayInRange s.servo → DelayInRange s'.servo

theorem KeepsTimes.refl (s : Slave) : KeepsTimes s s :=
  ⟨rfl, rfl, rfl, rfl, rfl, rfl, id, rfl, id⟩

theorem KeepsTimes.fresh {s s' : Slave} {g : Since} (h : KeepsTimes s s') (hs : Fresh s g) :
    Fresh s' g := by
  constructor
  · rw [h.t2, h.moves]
    exact hs.t2Past
  · rw [h.lastT2Moves, h.moves]
    exact hs.pairPast
  · rw [h.t3, h.moves]
    exact hs.t3Past
  · rw [h.haveT2, h.t2, h.moves]
    exact hs.sync
  · rw [h.haveT2T1, h.lastT2Moves, h.moves]
    exact hs.pair
  · rw [h.t3, h.moves]
    exact fun h3 => hs.req (h.haveT3 h3)
  · rw [h.t3, h.delayReqSeq]
    exact fun h3 => hs.seq (h.haveT3 h3)
  · exact h.range hs.range

/-- Resolving a pair: the pair is as fresh as its Sync, unless the servo moves the clock. -/
theorem fresh_tryComputeOffset {s : Slave} {g : Since} (h1 : s.haveT1 = true)
    (h2 : s.haveT2 = true) (hs : Fresh s g) (now : UInt32) :
    Fresh (tryComputeOffset s now)
      (if (tryComputeOffset s now).moves = s.moves then ⟨g.sync, g.sync, g.req⟩
        else Since.none) := by
  have hboth : (s.haveT1 && s.haveT2) = true := by rw [h1, h2]; rfl
  have hrange : DelayInRange (servoOnPair s now).1 := delayInRange_servoUpdate hs.range _ _ _ _
  have ht2 := hs.t2Past
  have ht3 := hs.t3Past
  rw [tryComputeOffset, if_pos hboth]
  by_cases hmoves : s.moves + clockMoves (servoOnPair s now).2 = s.moves
  · rw [if_pos hmoves]
    refine ⟨?_, ?_, ?_, fun h => Bool.noConfusion h, fun _ => ?_, fun h => ?_, hs.seq, hrange⟩
    · exact ht2.trans (Nat.le_add_right ..)
    · exact ht2.trans (Nat.le_add_right ..)
    · exact ht3.trans (Nat.le_add_right ..)
    · show g.sync = true ↔ s.t2.moves = s.moves + clockMoves (servoOnPair s now).2
      rw [hmoves]
      exact hs.sync h2
    · show g.req = true ↔ s.t3.moves = s.moves + clockMoves (servoOnPair s now).2
      rw [hmoves]
      exact hs.req h
  · -- the clock has moved: everything taken before is stale
    rw [if_neg hmoves]
    have hstale : ∀ k ≤ s.moves, false = true ↔ k = s.moves + clockMoves (servoOnPair s now).2 :=
      fun k hk => ⟨fun h => Bool.noConfusion h, fun h => absurd h (by omega)⟩
    refine ⟨?_, ?_, ?_, fun h => Bool.noConfusion h, fun _ => hstale _ ht2,
      fun _ => hstale _ ht3, hs.seq, hrange⟩
    · exact ht2.trans (Nat.le_add_right ..)
    · exact ht2.trans (Nat.le_add_right ..)
    · exact ht3.trans (Nat.le_add_right ..)

theorem samples_tryComputeOffset (s : Slave) (now : UInt32) :
    (tryComputeOffset s now).samples = s.samples := by
  rw [tryComputeOffset]
  split <;> rfl

/-! ## Messages and polls -/

section Messages

variable {s : Slave} {g : Since} {d : Datagram} (rxTime : Timestamp) (late : Nat)
  (now : UInt32)

/-- What a step does to the samples and to what the observer knows. -/
def Observed (s s' : Slave) (g g' : Since) (e : PtpEvent) : Prop :=
  s'.samples = s.samples ++ newSamples s e ∧ Fresh s' g'

/-- What the observer makes of a message. -/
theorem observe_rx (d : Datagram) :
    observe s (.rx d rxTime late now) g =
      if (ptpv1Rx s d rxTime late now).moves = s.moves then
        { sync := syncSince s g (.rx d rxTime late now)
          pair := if newPairs s (.rx d rxTime late now) = [] then g.pair
            else syncSince s g (.rx d rxTime late now)
          req := g.req }
      else Since.none := by
  have hsends : sends s (.rx d rxTime late now) = false := rfl
  rw [observe, hsends, Bool.or_false]
  rfl

theorem newSamples_of_ctrl (h : d.ctrl ≠ ctrlDelayResp) :
    newSamples s (.rx d rxTime late now) = [] := by
  rw [newSamples, if_neg fun hused => h hused.2.1]

/-- A message that is neither a Sync nor the end of a pair tells the observer nothing. -/
theorem observe_rx_other (hmoves : (ptpv1Rx s d rxTime late now).moves = s.moves)
    (hsync : ¬ HeldSync s d) (hpairs : newPairs s (.rx d rxTime late now) = []) :
    observe s (.rx d rxTime late now) g = g := by
  rw [observe_rx, if_pos hmoves, hpairs, syncSince, if_neg hsync]
  rfl

theorem fresh_holdSync (hs : Fresh s g) :
    Fresh (holdSync s d rxTime late now) ⟨decide (s.moves - late = s.moves), g.pair, g.req⟩ := by
  have hrange : DelayInRange (firstSync s.servo now) := by
    rw [firstSync]
    split
    · exact hs.range
    · exact hs.range
  exact ⟨Nat.sub_le .., hs.pairPast, hs.t3Past, fun _ => decide_eq_true_iff, hs.pair, hs.req,
    hs.seq, hrange⟩

/-- A Sync: held for its Follow_Up, or resolved at once. -/
theorem observed_sync (hs : Fresh s g) (hacc : Accepted s d) (hctrl : d.ctrl = ctrlSync) :
    Observed s (syncRx s d rxTime late now) g (observe s (.rx d rxTime late now) g)
      (.rx d rxTime late now) := by
  have hrx : ptpv1Rx s d rxTime late now = syncRx s d rxTime late now := by
    rw [ptpv1Rx_accepted hacc, if_pos hctrl]
  have hnew : newSamples s (.rx d rxTime late now) = [] :=
    newSamples_of_ctrl rxTime late now (by rw [hctrl]; decide)
  have hnofu : ¬ AwaitedFollowUp s d := fun h => absurd (hctrl.symm.trans h.2.1) (by decide)
  rw [observe_rx, hrx, Observed, hnew, List.append_nil]
  by_cases hlen : d.blen < 8
  · have hnosync : ¬ HeldSync s d := fun h => absurd h.2.2 (by omega)
    have hnoone : ¬ OneStepSync s d := fun h => absurd h.2.2.1 (by omega)
    rw [syncRx, if_pos hlen, if_pos rfl, newPairs, if_neg hnoone, if_neg hnofu, if_pos rfl,
      syncSince, if_neg hnosync]
    exact ⟨rfl, hs⟩
  · have hheld : HeldSync s d := ⟨hacc, hctrl, by omega⟩
    have hsince : syncSince s g (.rx d rxTime late now) = decide (s.moves - late = s.moves) := by
      rw [syncSince, if_pos hheld]
    rw [syncRx, if_neg hlen, hsince]
    have hhold := fresh_holdSync rxTime late now (d := d) hs
    by_cases htwo : d.isTwoStep = true
    · have hnoone : ¬ OneStepSync s d := fun h => by
        rw [h.2.2.2] at htwo
        cases htwo
      have hmoves : (holdSync s d rxTime late now).moves = s.moves := rfl
      simp only [if_pos htwo]
      rw [if_pos hmoves, newPairs, if_neg hnoone, if_neg hnofu, if_pos rfl]
      exact ⟨rfl, hhold.1, hhold.2, hhold.3, hhold.4, hhold.5, hhold.6, hhold.7, hhold.8⟩
    · have hone : OneStepSync s d := ⟨hacc, hctrl, by omega, Bool.eq_false_iff.2 htwo⟩
      simp only [if_neg htwo]
      rw [newPairs, if_pos hone, if_neg (List.cons_ne_nil _ _)]
      refine ⟨samples_tryComputeOffset _ now, ?_⟩
      exact fresh_tryComputeOffset (s := { holdSync s d rxTime late now with
          t1 := ⟨d.timestamp hdrLen, false, d.uuid, d.seq⟩
          haveT1 := true
          awaitingFollowup := false })
        (g := ⟨decide (s.moves - late = s.moves), g.pair, g.req⟩) rfl rfl
        ⟨hhold.1, hhold.2, hhold.3, hhold.4, hhold.5, hhold.6, hhold.7, hhold.8⟩ now

/-- A Follow_Up: ignored, or the end of the pair being held. -/
theorem observed_followup (hold : Holding s) (hs : Fresh s g) (hacc : Accepted s d)
    (hctrl : d.ctrl = ctrlFollowup) :
    Observed s (followupRx s d now) g (observe s (.rx d rxTime late now) g)
      (.rx d rxTime late now) := by
  have hrx : ptpv1Rx s d rxTime late now = followupRx s d now := by
    rw [ptpv1Rx_accepted hacc, if_neg (by rw [hctrl]; decide), if_pos hctrl]
  have hnew : newSamples s (.rx d rxTime late now) = [] :=
    newSamples_of_ctrl rxTime late now (by rw [hctrl]; decide)
  have hnosync : ¬ HeldSync s d := fun h => absurd (hctrl.symm.trans h.2.1) (by decide)
  have hnoone : ¬ OneStepSync s d := fun h => absurd (hctrl.symm.trans h.2.1) (by decide)
  have hsince : syncSince s g (.rx d rxTime late now) = g.sync := by
    rw [syncSince, if_neg hnosync]
  rw [observe_rx, hrx, Observed, hnew, List.append_nil, hsince]
  -- a Follow_Up that is not awaited only counts
  have hidle : ∀ s', s'.samples = s.samples → KeepsTimes s s' → ¬ AwaitedFollowUp s d →
      s'.samples = s.samples ∧ Fresh s' (if s'.moves = s.moves then
        ⟨g.sync, if newPairs s (.rx d rxTime late now) = [] then g.pair else g.sync, g.req⟩
        else Since.none) := by
    intro s' hsamples hkeeps hnofu
    rw [if_pos hkeeps.moves, newPairs, if_neg hnoone, if_neg hnofu, if_pos rfl]
    exact ⟨hsamples, hkeeps.fresh hs⟩
  rw [followupRx]
  by_cases hlen : d.blen < followupBodyLen
  · rw [if_pos hlen]
    exact hidle s rfl (KeepsTimes.refl s) (fun h => absurd h.2.2.1 (by omega))
  · rw [if_neg hlen]
    by_cases haw : s.awaitingFollowup = true
    · by_cases hseq : d.associatedSeq = s.pendingSyncSeq
      · have hfu : AwaitedFollowUp s d := ⟨hacc, hctrl, by omega, haw, hseq⟩
        rw [if_neg (by simp [haw]), if_neg (by simp [hseq]), newPairs, if_neg hnoone, if_pos hfu,
          if_neg (List.cons_ne_nil _ _)]
        refine ⟨samples_tryComputeOffset _ now, ?_⟩
        exact fresh_tryComputeOffset (s := { s with
            rxFollowup := s.rxFollowup + 1
            t1 := ⟨d.timestamp (hdrLen + 4), true, d.uuid, d.associatedSeq⟩
            haveT1 := true
            awaitingFollowup := false }) (g := g) rfl (hold.haveT2 haw)
          ⟨hs.1, hs.2, hs.3, hs.4, hs.5, hs.6, hs.7, hs.8⟩ now
      · rw [if_neg (by simp [haw]), if_pos hseq]
        exact hidle _ rfl ⟨rfl, rfl, rfl, rfl, rfl, rfl, id, rfl, id⟩ (fun h => hseq h.2.2.2.2)
    · rw [if_pos (by simp [haw])]
      exact hidle _ rfl ⟨rfl, rfl, rfl, rfl, rfl, rfl, id, rfl, id⟩ (fun h => haw h.2.2.2.1)

/-- A DelayResp: rejected, or used up. -/
theorem observed_delayResp (hs : Fresh s g) (hacc : Accepted s d)
    (hctrl : d.ctrl = ctrlDelayResp) :
    Observed s (delayRespRx s d) g (observe s (.rx d rxTime late now) g)
      (.rx d rxTime late now) := by
  have hrx : ptpv1Rx s d rxTime late now = delayRespRx s d := by
    rw [ptpv1Rx_accepted hacc, if_neg (by rw [hctrl]; decide), if_neg (by rw [hctrl]; decide),
      if_pos hctrl]
  have hnosync : ¬ HeldSync s d := fun h => absurd (hctrl.symm.trans h.2.1) (by decide)
  have hpairs : newPairs s (.rx d rxTime late now) = [] := by
    rw [newPairs, if_neg fun h => absurd (hctrl.symm.trans h.2.1) (by decide),
      if_neg fun h => absurd (hctrl.symm.trans h.2.1) (by decide)]
  have hused : UsedResp s d ↔ ¬ d.blen < delayRespBodyLen ∧ respMatches s d = true ∧
      pathDelay s d < 10000000 := by
    rw [UsedResp, acceptsResp, Bool.and_eq_true, decide_eq_true_iff]
    exact ⟨fun h => ⟨by omega, h.2.2.2⟩, fun h => ⟨hacc, hctrl, by omega, h.2⟩⟩
  -- every branch keeps the times, or uses the request up
  have hkeeps : KeepsTimes s (delayRespRx s d) ∧
      (delayRespRx s d).samples = s.samples ++ newSamples s (.rx d rxTime late now) := by
    rw [delayRespRx, newSamples]
    by_cases hlen : d.blen < delayRespBodyLen
    · rw [if_pos hlen, if_neg fun h => (hused.1 h).1 hlen]
      exact ⟨KeepsTimes.refl s, (List.append_nil _).symm⟩
    · rw [if_neg hlen]
      by_cases hmatch : respMatches s d = true
      · have hmatch' : respMatches { s with rxDelayResp := s.rxDelayResp + 1 } d = true := hmatch
        have hrange : DelayInRange s.servo → DelayInRange (acceptDelay s.servo (pathDelay s d)) :=
          fun h => delayInRange_acceptDelay h (Int.le_max_left ..)
        simp only [if_pos hmatch', useResp]
        by_cases hd : pathDelay s d < 10000000
        · have hd' : pathDelay { s with rxDelayResp := s.rxDelayResp + 1 } d < 10000000 := hd
          rw [if_pos hd', if_pos (hused.2 ⟨hlen, hmatch, hd⟩)]
          exact ⟨⟨rfl, rfl, rfl, rfl, rfl, rfl, fun h => Bool.noConfusion h, rfl, hrange⟩, rfl⟩
        · have hd' : ¬ pathDelay { s with rxDelayResp := s.rxDelayResp + 1 } d < 10000000 := hd
          rw [if_neg hd', if_neg fun h => hd (hused.1 h).2.2]
          exact ⟨⟨rfl, rfl, rfl, rfl, rfl, rfl, fun h => Bool.noConfusion h, rfl, hrange⟩,
            (List.append_nil _).symm⟩
      · have hmatch' : ¬ respMatches { s with rxDelayResp := s.rxDelayResp + 1 } d = true := hmatch
        simp only [if_neg hmatch']
        rw [if_neg fun h => hmatch (hused.1 h).2.1]
        exact ⟨⟨rfl, rfl, rfl, rfl, rfl, rfl, id, rfl, id⟩, (List.append_nil _).symm⟩
  rw [observe_rx_other rxTime late now (by rw [hrx]; exact hkeeps.1.moves) hnosync hpairs]
  exact ⟨hkeeps.2, hkeeps.1.fresh hs⟩

theorem observed_rx (hold : Holding s) (hs : Fresh s g) (d : Datagram) :
    Observed s (ptpv1Rx s d rxTime late now) g (observe s (.rx d rxTime late now) g)
      (.rx d rxTime late now) := by
  by_cases hacc : Accepted s d
  · by_cases hsync : d.ctrl = ctrlSync
    · rw [ptpv1Rx_accepted hacc, if_pos hsync]
      exact observed_sync rxTime late now hs hacc hsync
    · by_cases hfu : d.ctrl = ctrlFollowup
      · rw [ptpv1Rx_accepted hacc, if_neg hsync, if_pos hfu]
        exact observed_followup rxTime late now hold hs hacc hfu
      · by_cases hresp : d.ctrl = ctrlDelayResp
        · rw [ptpv1Rx_accepted hacc, if_neg hsync, if_neg hfu, if_pos hresp]
          exact observed_delayResp rxTime late now hs hacc hresp
        · have hrx : ptpv1Rx s d rxTime late now = { s with rxOther := s.rxOther + 1 } := by
            rw [ptpv1Rx_accepted hacc, if_neg hsync, if_neg hfu, if_neg hresp]
          have hpairs : newPairs s (.rx d rxTime late now) = [] := by
            rw [newPairs, if_neg fun h => hsync h.2.1, if_neg fun h => hfu h.2.1]
          rw [observe_rx_other rxTime late now (by rw [hrx]) (fun h => hsync h.2.1) hpairs, hrx,
            Observed, newSamples_of_ctrl rxTime late now hresp, List.append_nil]
          exact ⟨rfl, KeepsTimes.fresh (s := s) ⟨rfl, rfl, rfl, rfl, rfl, rfl, id, rfl, id⟩ hs⟩
  · have hrx := ptpv1Rx_ignored hacc rxTime late now
    have hpairs : newPairs s (.rx d rxTime late now) = [] := by
      rw [newPairs, if_neg fun h => hacc h.1, if_neg fun h => hacc h.1]
    rw [observe_rx_other rxTime late now (by rw [hrx]) (fun h => hacc h.1) hpairs, hrx, Observed,
      newSamples, if_neg fun h => hacc h.1, List.append_nil]
    exact ⟨rfl, hs⟩

end Messages

/-! ## Sending a DelayReq -/

/-- A request to the PTP group always leaves: it is short, and a group needs no lookup. -/
theorem delayReq_sent (s : Slave) (n : Net) :
    (netUdpCommit (txStore n udpPayloadOff (delayReqBytes s)) ptpGroup ptpEventPort ptpEventPort
      (hdrLen + syncBodyLen) netTosPtp).2 = true := by
  have hresolve : arpResolve (txStore n udpPayloadOff (delayReqBytes s)) ptpGroup =
      some (netMcastMac ptpGroup) := by
    have hmcast : ptpGroup.isMcast = true := by decide
    simp [arpResolve, hmcast]
  exact (netUdpCommit_hit _ _ _ (by decide) hresolve).1

theorem sendDelayReq_fst (s : Slave) (n : Net) (txTime : Timestamp) :
    (sendDelayReq s n txTime).1 =
      { s with
        delayReqSeq := s.delayReqSeq + 1
        t3 := ⟨txTime, s.delayReqSeq.toNat, s.moves⟩
        haveT3 := true
        txDelayReq := s.txDelayReq + 1 } := by
  have hsent := delayReq_sent s n
  simp only [sendDelayReq]
  split
  · rfl
  · rename_i hnot
    exact absurd hsent hnot

theorem observed_poll {s : Slave} {g : Since} (hs : Fresh s g) (n : Net) (now : UInt32)
    (txTime : Timestamp) :
    Observed s (ptpv1Poll s n now txTime).1 g (observe s (.poll n now txTime) g)
      (.poll n now txTime) := by
  have hstep : slaveStep s (.poll n now txTime) = (ptpv1Poll s n now txTime).1 := rfl
  have hsync : syncSince s g (.poll n now txTime) = g.sync := rfl
  have hpairs : newPairs s (.poll n now txTime) = [] := rfl
  have hnew : newSamples s (.poll n now txTime) = [] := rfl
  have hsends : sends s (.poll n now txTime) = (reqDue s now && s.haveMaster) := rfl
  rw [observe, hstep, hsync, hpairs, if_pos rfl, hsends, Observed, hnew, List.append_nil, ptpv1Poll]
  by_cases hdue : reqDue s now = true
  · rw [if_pos hdue, hdue, Bool.true_and]
    cases hmaster : s.haveMaster with
    | true =>
        -- the request just sent is on the current timeline
        rcases hsend : sendDelayReq s n txTime with ⟨s', n'⟩
        have hs' := sendDelayReq_fst s n txTime
        rw [hsend] at hs'
        subst hs'
        rw [if_pos rfl, if_pos rfl, Bool.or_true]
        have hseq : s.delayReqSeq.toNat = (s.delayReqSeq + 1 - 1).toNat := by
          rw [UInt16.add_sub_cancel]
        exact ⟨rfl, hs.t2Past, hs.pairPast, Nat.le_refl _, hs.sync, hs.pair,
          fun _ => ⟨fun _ => rfl, fun _ => rfl⟩, fun _ => hseq, hs.range⟩
    | false =>
        rw [if_neg Bool.false_ne_true, if_pos rfl, Bool.or_false]
        exact ⟨rfl, KeepsTimes.fresh (s := s) ⟨rfl, rfl, rfl, rfl, rfl, rfl, id, rfl, id⟩ hs⟩
  · have hno : reqDue s now = false := Bool.eq_false_iff.2 hdue
    rw [if_neg hdue, if_pos rfl, hno, Bool.false_and, Bool.or_false]
    exact ⟨rfl, hs⟩

/-! ## Runs -/

theorem observed_step {s : Slave} {g : Since} (hold : Holding s) (hs : Fresh s g)
    (e : PtpEvent) : Observed s (slaveStep s e) g (observe s e g) e := by
  cases e with
  | rx d rxTime late now => exact observed_rx rxTime late now hold hs d
  | poll n now txTime => exact observed_poll hs n now txTime
  | tuning n ki exact =>
      have hg : observe s (.tuning n ki exact) g = g := by
        show (if s.moves = s.moves then (⟨g.sync, g.pair, g.req || false⟩ : Since)
          else Since.none) = g
        rw [if_pos rfl, Bool.or_false]
      rw [hg]
      exact ⟨(List.append_nil _).symm, hs.1, hs.2, hs.3, hs.4, hs.5, hs.6, hs.7, hs.8⟩

/-- The sample a step takes answers the request in flight. -/
theorem newSamples_seq {s : Slave} {g : Since} (hs : Fresh s g) (e : PtpEvent) :
    ∀ x ∈ newSamples s e, x.respSeq = x.reqSeq := by
  cases e with
  | rx d rxTime late now =>
      rw [newSamples]
      split
      · rename_i hused
        rw [List.forall_mem_singleton]
        have hmatch := hused.2.2.2
        simp only [acceptsResp, respMatches, Bool.and_eq_true, beq_iff_eq] at hmatch
        exact hmatch.1.1.2.trans (hs.seq hmatch.1.1.1.2).symm
      · exact fun x hx => by cases hx
  | poll n now txTime => exact fun x hx => by cases hx
  | tuning n ki exact => exact fun x hx => by cases hx

/-- The sample a step takes is on one timeline exactly when everything has been taken again. -/
theorem newSamples_oneTimeline {s : Slave} {g : Since} (hs : Fresh s g) (e : PtpEvent) :
    (∀ x ∈ newSamples s e, OneTimeline x) ↔ Refreshed (s, g) e := by
  cases e with
  | rx d rxTime late now =>
      rw [newSamples, Refreshed]
      by_cases hused : UsedResp s d
      · have hmatch := hused.2.2.2
        simp only [acceptsResp, respMatches, Bool.and_eq_true] at hmatch
        rw [if_pos hused, List.forall_mem_singleton, OneTimeline, hs.pair hmatch.1.2,
          hs.req hmatch.1.1.1.2]
        exact ⟨fun h _ => h, fun h => h hused⟩
      · rw [if_neg hused]
        exact ⟨fun _ h => absurd h hused, fun _ x hx => by cases hx⟩
  | poll n now txTime => exact ⟨fun _ => trivial, fun _ x hx => by cases hx⟩
  | tuning n ki exact => exact ⟨fun _ => trivial, fun _ x hx => by cases hx⟩

/-- Over any run from boot: every sample used answers the request behind its `t3`, the path delay
stays in range, and all samples are on one timeline iff no DelayResp was used before, since the
last clock move, a Sync had been resolved and a DelayReq sent again. -/
theorem delay_samples_iff (uuid : Mac) (cfgAddend : Option Int) (es : List PtpEvent) :
    (∀ x ∈ (run slaveStep (boot uuid cfgAddend) es).samples, x.respSeq = x.reqSeq) ∧
    DelayInRange (run slaveStep (boot uuid cfgAddend) es).servo ∧
    ((∀ x ∈ (run slaveStep (boot uuid cfgAddend) es).samples, OneTimeline x) ↔
      Along (watch slaveStep observe) Refreshed (boot uuid cfgAddend, Since.none) es) := by
  let Inv := fun p : Slave × Since => Holding p.1 ∧ Fresh p.1 p.2
  have hinv : ∀ p e, Inv p → Inv (watch slaveStep observe p e) := fun p e hp =>
    ⟨(step_pairs hp.1 e).2, (observed_step hp.1 hp.2 e).2⟩
  have happ : ∀ p e, Inv p → (watch slaveStep observe p e).1.samples =
      p.1.samples ++ newSamples p.1 e := fun p e hp => (observed_step hp.1 hp.2 e).1
  have hboot : Inv (boot uuid cfgAddend, Since.none) :=
    ⟨holding_boot uuid cfgAddend, fresh_boot uuid cfgAddend⟩
  have hfst := run_watch_fst slaveStep observe es (boot uuid cfgAddend, Since.none)
  have hseq := log_iff_along (fun p : Slave × Since => p.1.samples)
    (fun x => x.respSeq = x.reqSeq) happ hinv
    (fun p e hp => iff_true_intro (newSamples_seq hp.2 e)) es hboot
  have hlog := log_iff_along (fun p : Slave × Since => p.1.samples) OneTimeline happ hinv
    (fun p e hp => newSamples_oneTimeline hp.2 e) es hboot
  rw [← hfst]
  refine ⟨hseq.2 ⟨fun x hx => (by cases hx), Along.of_forall (fun _ _ => trivial) _ _⟩, ?_, ?_⟩
  · exact (run_invariant _ hinv es hboot).2.range
  · rw [hlog]
    exact and_iff_right fun x hx => by cases hx

/-! ## The end of acquisition -/

instance (x : DelaySample) : Decidable (OneTimeline x) := inferInstanceAs (Decidable (_ ∧ _))

/-- A two-step Sync with its Follow_Up. -/
def syncPair (seq : Nat) (origin received : Timestamp) (now : UInt32) : List PtpEvent :=
  [.rx (ptpMessage leaderA seq ctrlSync flagPtpAssist (List.replicate syncBodyLen 0)) received 0
      now,
    .rx (ptpMessage leaderA (seq + 1) ctrlFollowup 0 (Mem.be16 0 ++ Mem.be16 seq ++
      Mem.be32 origin.seconds ++ Mem.be32 origin.nanoseconds)) received 0 now]

/-- A DelayReq sent during frequency acquisition, and answered only after the adjustment that ends
it. -/
def staleRun : List PtpEvent :=
  syncPair 1 ⟨100, 0⟩ ⟨100, 20000⟩ 1000 ++
    [.poll (Net.boot fun _ _ => 0) 1500 ⟨100, 500000000⟩] ++
    syncPair 9 ⟨108, 0⟩ ⟨108, 20000⟩ 9000 ++
    [.rx (ptpMessage leaderA 3 ctrlDelayResp 0 (Mem.be32 100 ++ Mem.be32 500020000 ++ [0, 0] ++
      ourMac.bytes ++ Mem.be16 1 ++ Mem.be16 0)) ⟨108, 30000⟩ 0 9001]

/-- The sample mixes the timelines before and after the adjustment. -/
theorem delay_sample_stale :
    (run slaveStep (boot ourMac none) staleRun).samples = [⟨0, 0, 1, 0, 0⟩] ∧
      ¬ ∀ x ∈ (run slaveStep (boot ourMac none) staleRun).samples, OneTimeline x := by
  have hsamples : (run slaveStep (boot ourMac none) staleRun).samples = [⟨0, 0, 1, 0, 0⟩] := by
    decide +kernel
  refine ⟨hsamples, ?_⟩
  rw [hsamples]
  decide

end Ptpv1
end Firmware
end InfernoFpga
