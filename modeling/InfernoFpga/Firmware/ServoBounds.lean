import InfernoFpga.Firmware.Outliers
import InfernoFpga.Firmware.StepCount
import InfernoFpga.Firmware.ServoArith

/-!
# ServoBounds — the slave's arithmetic stays in range

Offsets past a millisecond are steps, so everything the filter, the integral and the acquisition
window see is small; the rest is bounded by the 32-bit words of the messages and by the era of the
local clock.  With these bounds no operation of the checked servo traps.
-/

namespace InfernoFpga
namespace Firmware
namespace Ptpv1

open Lib
open Lib.Signed (Within)

/-! ## Ranges -/

/-- A timestamp of 32-bit nanoseconds before second `2 ^ 33`. -/
def InEra (t : Timestamp) : Prop := t.seconds < 2 ^ 33 ∧ t.nanoseconds < 2 ^ 32

/-- What 64 bits surely hold. -/
theorem fits_of_within {x : Int} (h : Within 9000000000000000000 x) : Signed.Fits 64 x := by
  obtain ⟨hlow, hhigh⟩ := h
  rw [Signed.Fits]
  constructor <;> omega

theorem tsDiffNs_within {a b : Timestamp} (ha : InEra a) (hb : InEra b) :
    Within 8600000000000000000 (tsDiffNs a b) := by
  obtain ⟨ha, ha'⟩ := ha
  obtain ⟨hb, hb'⟩ := hb
  rw [tsDiffNs]
  constructor <;> omega

theorem checked_tsDiffNs {a b : Timestamp} (ha : InEra a) (hb : InEra b) :
    Checked.tsDiffNs a b = some (tsDiffNs a b) := by
  have hsum := tsDiffNs_within ha hb
  obtain ⟨ha, ha'⟩ := ha
  obtain ⟨hb, hb'⟩ := hb
  have hsec : Signed.Fits 64 ((a.seconds : Int) - b.seconds) :=
    fits_of_within ⟨by omega, by omega⟩
  have hns : Signed.Fits 64 ((a.nanoseconds : Int) - b.nanoseconds) :=
    fits_of_within ⟨by omega, by omega⟩
  have hmul : Signed.Fits 64 (((a.seconds : Int) - b.seconds) * 1000000000) :=
    fits_of_within ⟨by omega, by omega⟩
  have hadd := fits_of_within (hsum.mono (by decide))
  rw [tsDiffNs] at hadd
  simp only [Checked.tsDiffNs, tsDiffNs, Signed.sub_of_fits hsec, Signed.sub_of_fits hns,
    Signed.mul_of_fits hmul, Signed.add_of_fits hadd, Option.bind_eq_bind, Option.bind_some]

/-! ## The servo in range -/

/-- What the servo keeps between updates is small. -/
structure Bounded (s : Servo) : Prop where
  base : s.baseAddend = baseAddendFull
  addend : 80000000 ≤ s.currentAddend ∧ s.currentAddend ≤ 100000000
  num : Within 3000000000000000 s.freqIntegralNum
  gain : Within 2147483648 s.rtKiNum
  samples : ∀ i, Within 1000000 (s.medianBuf i)
  window : s.acqHaveBase = true →
    InEra s.acqT1 ∧ InEra s.acqT2 ∧ Within 11000000 (tsDiffNs s.acqT2 s.acqT1)

/-- A command in the range of the registers it goes to. -/
def Sound : Tsu → Prop
  | .stepTime t => t.seconds < 2 ^ 48 ∧ t.nanoseconds < 1000000000
  | .adjustOffset ns => Within servoStepNs ns
  | .setAddend a => 1 ≤ a ∧ a < 2 ^ 52

section Servo

variable {s : Servo} {t1 t2 : Timestamp} {offset filtered : Int} {now : UInt32}

theorem within_of_not_isStep (h : isStep offset = false) : Within 1000000 offset := by
  have hband : ¬ (offset > servoStepNs ∨ offset < -servoStepNs) := of_decide_eq_false h
  have hstep : servoStepNs = 1000000 := rfl
  constructor <;> omega

/-- The middle of small samples is small. -/
theorem medianValue_within (h : ∀ i, Within 1000000 (s.medianBuf i)) :
    Within 1000000 (medianValue s) := by
  rw [medianValue]
  generalize hl : ((List.range s.medianCount).map s.medianBuf).insertionSort (· ≤ ·) = l
  have hall : ∀ x ∈ l, Within 1000000 x := by
    intro x hx
    rw [← hl, List.mem_insertionSort, List.mem_map] at hx
    obtain ⟨i, -, rfl⟩ := hx
    exact h i
  rw [List.getD_eq_getElem?_getD]
  cases hget : l[s.medianCount / 2]? with
  | none => exact ⟨by decide, by decide⟩
  | some x => exact hall x (List.mem_of_getElem? hget)

/-- A small sample pushed into a bounded filter. -/
theorem bounded_pushMedian (h : Bounded s) (ho : Within 1000000 offset) :
    Bounded (pushMedian s offset) := by
  refine ⟨h.base, h.addend, h.num, h.gain, fun i => ?_, h.window⟩
  rw [pushMedian]
  dsimp only
  rw [Function.update_apply]
  split
  · exact ho
  · exact h.samples i

theorem filteredOf_within (h : Bounded s) (ho : Within 1000000 offset) :
    Within 1000000 (filteredOf s offset) :=
  medianValue_within (bounded_pushMedian h ho).samples

/-- The term of the integral, before the division. -/
theorem term_within (h : Bounded s) (hf : Within 1000000 filtered) :
    Within (1000000 * 2147483648) (-filtered * s.rtKiNum) :=
  Within.mul ⟨Int.neg_le_neg hf.2, by have := hf.1; omega⟩ h.gain

theorem railFits :
    Signed.mul 64 servoIntegralMax servoKiDen = some (servoIntegralMax * servoKiDen) :=
  Signed.mul_of_fits (by decide)

theorem rail_of_clamp (x : Int) : Within servoIntegralMax (clamp servoIntegralMax x) :=
  clamp_bounded (by decide) x

/-- An accumulator at its rails. -/
theorem rail_within (x : Int) :
    Within 3000000000000000 (clamp (servoIntegralMax * servoKiDen) x) := by
  have hrail : servoIntegralMax * servoKiDen = 100000000000000 := rfl
  obtain ⟨hlow, hhigh⟩ := clamp_bounded (m := servoIntegralMax * servoKiDen) (by decide) x
  constructor <;> omega

/-- The term, divided. -/
theorem quotient_within (h : Bounded s) (hf : Within 1000000 filtered) :
    Within 2147483648 ((-filtered * s.rtKiNum).tdiv servoKiDen) := by
  have hterm := term_within h hf
  rw [Int.mul_comm 1000000] at hterm
  exact Within.tdiv (by decide) hterm

theorem checked_integrate (hc : Coherent s) (h : Bounded s) (hf : Within 1000000 filtered) :
    Checked.integrate s filtered = some (integrate s filtered) := by
  obtain ⟨htlow, hthigh⟩ := term_within h hf
  obtain ⟨hflow, hfhigh⟩ := hf
  obtain ⟨hnlow, hnhigh⟩ := h.num
  obtain ⟨hilow, hihigh⟩ := hc.bounded
  have hmax : servoIntegralMax = 100000000 := rfl
  have hden : servoKiDen = 1000000 := rfl
  have hminus : Signed.Fits 64 (-filtered) := fits_of_within ⟨by omega, by omega⟩
  have hprod : Signed.Fits 64 (-filtered * s.rtKiNum) := fits_of_within ⟨by omega, by omega⟩
  rw [Checked.integrate, integrate]
  split
  · split
    · have hsum : Signed.Fits 64 (s.freqIntegralNum + -filtered * s.rtKiNum) :=
        fits_of_within ⟨by omega, by omega⟩
      have hdiv := Signed.div_of_pos (w := 64) (y := servoKiDen) (by decide)
        (fits_of_within ((rail_within (s.freqIntegralNum + -filtered * s.rtKiNum)).mono (by decide)))
      simp only [Signed.neg_of_fits hminus, Signed.mul_of_fits hprod, Signed.add_of_fits hsum,
        railFits, hdiv, Option.bind_eq_bind, Option.bind_some]
    · have hdiv := Signed.div_of_pos (w := 64) (y := servoKiDen) (by decide) hprod
      obtain ⟨hslow, hshigh⟩ := quotient_within h ⟨hflow, hfhigh⟩
      have hfi : Signed.Fits 64 (s.freqIntegral + (-filtered * s.rtKiNum).tdiv servoKiDen) :=
        fits_of_within ⟨by omega, by omega⟩
      have hnum : Signed.Fits 64
          ((s.freqIntegral + (-filtered * s.rtKiNum).tdiv servoKiDen) * servoKiDen) :=
        fits_of_within ⟨by rw [hden] at *; omega, by rw [hden] at *; omega⟩
      simp only [Signed.neg_of_fits hminus, Signed.mul_of_fits hprod, hdiv,
        Signed.add_of_fits hfi, Signed.mul_of_fits hnum, Option.bind_eq_bind, Option.bind_some]
  · rfl

/-- The accumulator stays small, in either form. -/
theorem num_integrate_within (hc : Coherent s) (h : Bounded s) (hf : Within 1000000 filtered) :
    Within 3000000000000000 (integrate s filtered).freqIntegralNum := by
  obtain ⟨hilow, hihigh⟩ := hc.bounded
  obtain ⟨hslow, hshigh⟩ := quotient_within h hf
  have hmax : servoIntegralMax = 100000000 := rfl
  have hden : servoKiDen = 1000000 := rfl
  rw [integrate]
  split
  · split
    · exact rail_within _
    · show Within _ ((s.freqIntegral + (-filtered * s.rtKiNum).tdiv servoKiDen) * servoKiDen)
      generalize (-filtered * s.rtKiNum).tdiv servoKiDen = step at hslow hshigh ⊢
      rw [hden]
      constructor <;> omega
  · exact h.num

theorem bounded_integrate (hc : Coherent s) (h : Bounded s) (hf : Within 1000000 filtered) :
    Bounded (integrate s filtered) := by
  have hnum := num_integrate_within hc h hf
  obtain ⟨fi, num, heq⟩ := integrate_eq s filtered
  rw [heq] at hnum ⊢
  exact ⟨h.base, h.addend, hnum, h.gain, h.samples, h.window⟩

/-! ## The rate -/

theorem base_val : baseAddendFull = 90071993 := by decide

theorem checked_proportional (hf : Within 1000000 filtered) :
    Checked.proportional filtered = some (proportional filtered) ∧
      Within 200000 (proportional filtered) := by
  obtain ⟨hflow, hfhigh⟩ := hf
  have hminus : Signed.Fits 64 (-filtered) := fits_of_within ⟨by omega, by omega⟩
  rw [Checked.proportional, proportional]
  have hgain : ∀ k : Int, k = servoKpFastNum ∨ k = servoKpNum →
      Within (200000 * servoKpDen) (-filtered * k) := by
    rintro k (rfl | rfl)
    · show Within (200000 * 1000) (-filtered * 200)
      constructor <;> omega
    · show Within (200000 * 1000) (-filtered * 72)
      constructor <;> omega
  have hprod := hgain (if filtered > 1000 ∨ filtered < -1000 then servoKpFastNum else servoKpNum)
    (by split; exacts [Or.inl rfl, Or.inr rfl])
  have hfits := fits_of_within (hprod.mono (by decide))
  have hdiv := Signed.div_of_pos (w := 64) (y := servoKpDen) (by decide) hfits
  refine ⟨?_, Within.tdiv (by decide) hprod⟩
  simp only [Signed.neg_of_fits hminus, Signed.mul_of_fits hfits, hdiv, Option.bind_eq_bind,
    Option.bind_some]

/-- An addend for at most 10 % off nominal. -/
theorem checked_addendFor (h : s.baseAddend = baseAddendFull) {adj : Int}
    (hadj : Within 100200000 adj) :
    Checked.addendFor s adj = some (addendFor s adj) ∧
      80000000 ≤ addendFor s adj ∧ addendFor s adj ≤ 100000000 := by
  obtain ⟨hlow, hhigh⟩ := hadj
  rw [Checked.addendFor, addendFor, h, base_val]
  have hscaled : Within (9100000 * 1000000000) (adj * 90071993) := ⟨by omega, by omega⟩
  have hfits := fits_of_within (hscaled.mono (by decide))
  have hdiv := Signed.div_of_pos (w := 64) (y := 1000000000) (by decide) hfits
  obtain ⟨hclow, hchigh⟩ := Within.tdiv (k := 1000000000) (by decide) hscaled
  have hsum : Signed.Fits 64 (90071993 + (adj * 90071993).tdiv 1000000000) :=
    fits_of_within ⟨by omega, by omega⟩
  refine ⟨?_, ?_⟩
  · simp only [Signed.mul_of_fits hfits, hdiv, Signed.add_of_fits hsum, Option.bind_eq_bind,
      Option.bind_some]
  · rw [if_neg (by omega)]
    constructor <;> omega

theorem checked_appliedPpb (h : Bounded s) : ∃ applied, Checked.appliedPpb s = some applied ∧
    applied = (if s.baseAddend ≠ 0 then
      ((s.currentAddend - s.baseAddend) * 1000000000).tdiv s.baseAddend else 0) ∧
    Within 20000000000000000 applied := by
  obtain ⟨hlow, hhigh⟩ := h.addend
  rw [Checked.appliedPpb, h.base, base_val, if_pos (by decide), if_pos (by decide)]
  have hdiff : Signed.Fits 64 (s.currentAddend - 90071993) := fits_of_within ⟨by omega, by omega⟩
  have hscaled : Within 20000000000000000 ((s.currentAddend - 90071993) * 1000000000) :=
    ⟨by omega, by omega⟩
  have hfits := fits_of_within (hscaled.mono (by decide))
  have hdiv := Signed.div_of_pos (w := 64) (y := 90071993) (by decide) hfits
  refine ⟨_, ?_, rfl, Within.tdiv_of_pos (by decide) hscaled⟩
  simp only [Signed.sub_of_fits hdiff, Signed.mul_of_fits hfits, hdiv, Option.bind_eq_bind,
    Option.bind_some]

/-! ## The branches -/

theorem checked_acquire (h : Bounded s) (ht1 : InEra t1) (ht2 : InEra t2)
    (hdiff : Within 11000000 (tsDiffNs t2 t1)) (ho : Within 1000000 offset) :
    Checked.acquire s t1 t2 offset = some (acquire s t1 t2 offset) := by
  rw [Checked.acquire, acquire]
  by_cases hbase : s.acqHaveBase = true
  · rw [hbase, if_neg (by decide), if_neg (by decide)]
    obtain ⟨h1, h2, hwin⟩ := h.window hbase
    rw [checked_tsDiffNs ht1 h1, checked_tsDiffNs ht2 h2]
    simp only [Option.bind_eq_bind, Option.bind_some]
    by_cases hshort : tsDiffNs t1 s.acqT1 < acqWindowNs
    · rw [if_pos hshort, if_pos hshort]
    · rw [if_neg hshort, if_neg hshort]
      -- the gain over the window is the change of `t2 - t1`
      have hgain : Within 22000000 (tsDiffNs t2 s.acqT2 - tsDiffNs t1 s.acqT1) := by
        obtain ⟨hdlow, hdhigh⟩ := hdiff
        obtain ⟨hwlow, hwhigh⟩ := hwin
        simp only [tsDiffNs] at *
        constructor <;> omega
      have hpos : 0 < tsDiffNs t1 s.acqT1 := by
        have hwindow : acqWindowNs = 8000000000 := rfl
        omega
      have hscaled : Within 22000000000000000
          ((tsDiffNs t2 s.acqT2 - tsDiffNs t1 s.acqT1) * 1000000000) := by
        obtain ⟨hglow, hghigh⟩ := hgain
        constructor <;> omega
      have hfits := fits_of_within (hscaled.mono (by decide))
      have hdiv := Signed.div_of_pos (w := 64) hpos hfits
      have herr := Within.tdiv_of_pos hpos hscaled
      obtain ⟨applied, happlied, hval, hawithin⟩ := checked_appliedPpb h
      rw [Signed.sub_of_fits (fits_of_within (hgain.mono (by decide))), happlied]
      simp only [Option.bind_some, Signed.mul_of_fits hfits, hdiv]
      rw [← hval]
      generalize ((tsDiffNs t2 s.acqT2 - tsDiffNs t1 s.acqT1) * 1000000000).tdiv
        (tsDiffNs t1 s.acqT1) = err at herr ⊢
      have hrate : Signed.Fits 64 (applied - err) := by
        obtain ⟨helow, hehigh⟩ := herr
        obtain ⟨halow, hahigh⟩ := hawithin
        exact fits_of_within ⟨by omega, by omega⟩
      rw [Signed.sub_of_fits hrate]
      simp only [Option.bind_some]
      have hclamp := rail_of_clamp (applied - err)
      generalize clamp servoIntegralMax (applied - err) = fi at hclamp ⊢
      have hnum : Signed.Fits 64 (fi * servoKiDen) := by
        obtain ⟨hclow, hchigh⟩ := hclamp
        have hmax : servoIntegralMax = 100000000 := rfl
        have hden : servoKiDen = 1000000 := rfl
        rw [hden]
        exact fits_of_within ⟨by omega, by omega⟩
      have hback : Signed.Fits 64 (-offset) := by
        obtain ⟨holow, hohigh⟩ := ho
        exact fits_of_within ⟨by omega, by omega⟩
      have haddend := (checked_addendFor h.base (hclamp.mono (by decide))).1
      simp only [Option.bind_some, Signed.mul_of_fits hnum, haddend, Signed.neg_of_fits hback]
  · have hno : s.acqHaveBase = false := Bool.eq_false_iff.2 hbase
    rw [hno]
    rfl

theorem checked_track (hc : Coherent s) (h : Bounded s) (ho : Within 1000000 offset) :
    Checked.track s offset now = some (track s offset now) := by
  have hf := filteredOf_within h ho
  have hpush : Coherent (pushMedian s offset) := hc.of_fields rfl rfl rfl
  have hpushed := bounded_pushMedian h ho
  obtain ⟨hprop, hpwithin⟩ := checked_proportional hf
  have hint := checked_integrate hpush hpushed hf
  have hic := coherent_integrate hpush (filteredOf s offset)
  have hib := bounded_integrate hpush hpushed hf
  rw [Checked.track, track]
  simp only [hprop, hint, Option.bind_eq_bind, Option.bind_some]
  generalize integrate (pushMedian s offset) (filteredOf s offset) = s' at hic hib ⊢
  generalize filteredOf s offset = filtered at hf hpwithin ⊢
  have habs : Signed.abs 64 filtered = some (filtered.natAbs : Int) := by
    obtain ⟨hflow, hfhigh⟩ := hf
    exact Signed.abs_of_fits (fits_of_within ⟨by omega, by omega⟩)
  have hspike : Checked.isSpike s' filtered = some (isSpike s' filtered) := by
    rw [Checked.isSpike, isSpike, habs]
    cases s'.locked <;> rfl
  rw [hspike]
  simp only [Option.bind_some]
  have hadj : Within 100200000 (proportional filtered + s'.freqIntegral) := by
    obtain ⟨hplow, hphigh⟩ := hpwithin
    obtain ⟨hilow, hihigh⟩ := hic.bounded
    have hmax : servoIntegralMax = 100000000 := rfl
    constructor <;> omega
  rw [Signed.add_of_fits (fits_of_within (hadj.mono (by decide))), habs]
  simp only [Option.bind_some, (checked_addendFor hib.base hadj).1]
  cases isSpike s' filtered <;> rfl

/-! ## The whole update -/

theorem bounded_recordOffset (h : Bounded s) (offset : Int) : Bounded (recordOffset s offset) :=
  ⟨h.base, h.addend, h.num, h.gain, h.samples, h.window⟩

/-- A pair that is no step is a small difference of its two times. -/
theorem diff_within (hd : DelayInRange s) (ho : Within 1000000 offset)
    (hpair : offset = tsDiffNs t2 t1 - s.meanPathDelayNs) : Within 11000000 (tsDiffNs t2 t1) := by
  obtain ⟨hlow, hhigh⟩ := hd
  obtain ⟨holow, hohigh⟩ := ho
  constructor <;> omega

variable (now) in
theorem checked_servoUpdate (hc : Coherent s) (h : Bounded s) (hd : DelayInRange s)
    (ht1 : InEra t1) (ht2 : InEra t2) (hpair : offset = tsDiffNs t2 t1 - s.meanPathDelayNs) :
    Checked.servoUpdate s t1 t2 offset now = some (servoUpdate s t1 t2 offset now) := by
  have hb := bounded_recordOffset h offset
  rw [Checked.servoUpdate, servoUpdate]
  cases hstep : isStep offset with
  | true =>
      have hsum : Signed.Fits 64 (t1.nanoseconds + (recordOffset s offset).meanPathDelayNs) := by
        obtain ⟨hlow, hhigh⟩ := hd
        have hns := ht1.2
        show Signed.Fits 64 (t1.nanoseconds + s.meanPathDelayNs)
        exact fits_of_within ⟨by omega, by omega⟩
      rw [if_pos rfl, if_pos rfl, Checked.stepClock, Signed.add_of_fits hsum]
      rfl
  | false =>
      have ho := within_of_not_isStep hstep
      rw [if_neg Bool.false_ne_true, if_neg Bool.false_ne_true]
      split
      · exact checked_acquire hb ht1 ht2 (diff_within hd ho hpair) ho
      · split
        · have hback : Signed.Fits 64 (-offset) := by
            obtain ⟨holow, hohigh⟩ := ho
            exact fits_of_within ⟨by omega, by omega⟩
          rw [Checked.correctPhase, Signed.neg_of_fits hback]
          rfl
        · exact checked_track (hc.of_fields rfl rfl rfl) hb ho

theorem bounded_acquire (h : Bounded s) (ht1 : InEra t1) (ht2 : InEra t2)
    (hdiff : Within 11000000 (tsDiffNs t2 t1)) : Bounded (acquire s t1 t2 offset).1 := by
  rw [acquire]
  split
  · exact ⟨h.base, h.addend, h.num, h.gain, h.samples, fun _ => ⟨ht1, ht2, hdiff⟩⟩
  · dsimp only
    split
    · exact h
    · generalize (if s.baseAddend ≠ 0 then
        ((s.currentAddend - s.baseAddend) * 1000000000).tdiv s.baseAddend else 0) -
          ((tsDiffNs t2 s.acqT2 - tsDiffNs t1 s.acqT1) * 1000000000).tdiv
            (tsDiffNs t1 s.acqT1) = rate
      have hfi := rail_of_clamp rate
      have haddend := (checked_addendFor h.base (hfi.mono (by decide))).2
      refine ⟨h.base, haddend, ?_, h.gain, h.samples, h.window⟩
      show Within _ (clamp servoIntegralMax rate * servoKiDen)
      obtain ⟨hlow, hhigh⟩ := hfi
      have hmax : servoIntegralMax = 100000000 := rfl
      have hden : servoKiDen = 1000000 := rfl
      rw [hden]
      constructor <;> omega

theorem sound_setAddend (h : s.baseAddend = baseAddendFull) {adj : Int}
    (hadj : Within 100200000 adj) : Sound (.setAddend (addendFor s adj)) := by
  obtain ⟨hlow, hhigh⟩ := (checked_addendFor h hadj).2
  exact ⟨le_trans (by decide) hlow, lt_of_le_of_lt hhigh (by decide)⟩

theorem sound_acquire (h : Bounded s) (hback : Sound (.adjustOffset (-offset))) :
    ∀ cmd ∈ (acquire s t1 t2 offset).2, Sound cmd := by
  rw [acquire]
  split
  · exact List.forall_mem_nil _
  · dsimp only
    split
    · exact List.forall_mem_nil _
    · have hfits := rail_of_clamp
      exact List.forall_mem_cons.2 ⟨sound_setAddend h.base ((hfits _).mono (by decide)),
        List.forall_mem_singleton.2 hback⟩

/-- A step's target is a proper time, for any pair of 32-bit words as origin time. -/
theorem sound_stepTarget (hd : DelayInRange s) (ht1 : InEra t1) :
    Sound (.stepTime (stepTarget s t1)) := by
  obtain ⟨hlow, hhigh⟩ := hd
  obtain ⟨hsec, hns⟩ := ht1
  rw [stepTarget]
  split
  · exact ⟨by dsimp only; omega, by dsimp only; omega⟩
  · exact ⟨by dsimp only; omega, by dsimp only; omega⟩

/-- The integral's step leads to an addend near nominal. -/
theorem steer_addend_within (hc : Coherent s) (h : Bounded s) (hf : Within 1000000 filtered) :
    80000000 ≤ (steer s filtered).currentAddend ∧ (steer s filtered).currentAddend ≤ 100000000 := by
  refine (checked_addendFor h.base ?_).2
  obtain ⟨hplow, hphigh⟩ := (checked_proportional hf).2
  obtain ⟨hilow, hihigh⟩ := hc.bounded
  have hmax : servoIntegralMax = 100000000 := rfl
  constructor <;> omega

theorem bounded_track (hc : Coherent s) (h : Bounded s) (ho : Within 1000000 offset) :
    Bounded (track s offset now).1 ∧ ∀ cmd ∈ (track s offset now).2, Sound cmd := by
  have hf := filteredOf_within h ho
  have hpush : Coherent (pushMedian s offset) := hc.of_fields rfl rfl rfl
  have hic := coherent_integrate hpush (filteredOf s offset)
  have hib := bounded_integrate hpush (bounded_pushMedian h ho) hf
  rw [track]
  generalize integrate (pushMedian s offset) (filteredOf s offset) = s' at hic hib ⊢
  generalize filteredOf s offset = filtered at hf ⊢
  have haddend := steer_addend_within hic hib hf
  dsimp only
  split
  · exact ⟨hib, List.forall_mem_nil _⟩
  · obtain ⟨unlock, lock, locked, cfg, heq⟩ := streaks_eq (steer s' filtered) filtered now
    rw [heq]
    refine ⟨⟨hib.base, haddend, hib.num, hib.gain, hib.samples, hib.window⟩, ?_⟩
    refine List.forall_mem_singleton.2 ?_
    show 1 ≤ (steer s' filtered).currentAddend ∧ (steer s' filtered).currentAddend < 2 ^ 52
    omega

variable (now) in
theorem bounded_servoUpdate (hc : Coherent s) (h : Bounded s) (hd : DelayInRange s)
    (ht1 : InEra t1) (ht2 : InEra t2) (hpair : offset = tsDiffNs t2 t1 - s.meanPathDelayNs) :
    Bounded (servoUpdate s t1 t2 offset now).1 ∧
      ∀ cmd ∈ (servoUpdate s t1 t2 offset now).2, Sound cmd := by
  have hb := bounded_recordOffset h offset
  rw [servoUpdate]
  cases hstep : isStep offset with
  | true =>
      rw [if_pos rfl]
      exact ⟨⟨h.base, h.addend, h.num, h.gain, h.samples, fun h => Bool.noConfusion h⟩,
        List.forall_mem_singleton.2 (sound_stepTarget (s := recordOffset s offset) hd ht1)⟩
  | false =>
      have ho := within_of_not_isStep hstep
      have hback : Sound (.adjustOffset (-offset)) := by
        obtain ⟨holow, hohigh⟩ := ho
        show Within 1000000 (-offset)
        constructor <;> omega
      rw [if_neg (by decide)]
      split
      · refine ⟨bounded_acquire hb ht1 ht2 (diff_within hd ho hpair), ?_⟩
        exact sound_acquire hb hback
      · split
        · exact ⟨⟨h.base, h.addend, h.num, h.gain, h.samples, h.window⟩,
            List.forall_mem_singleton.2 hback⟩
        · exact bounded_track (hc.of_fields rfl rfl rfl) hb ho

end Servo

end Ptpv1
end Firmware
end InfernoFpga
