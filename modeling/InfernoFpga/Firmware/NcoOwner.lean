import InfernoFpga.Firmware.MediaClock

/-!
# NcoOwner — who sets the NCO

The discipline skips a write when the increment it wants is the one it last wrote, so its idea of
the register has to be right at all times.  It is, except after the console's `'N'`, which takes
the register back to nominal behind the owner's back.
-/

namespace InfernoFpga
namespace Firmware

open Lib

/-! ## Arithmetic of the increment -/

theorem clampTo_mem {b x : Int} (hb : 0 ≤ b) : -b ≤ clampTo b x ∧ clampTo b x ≤ b := by
  simp only [clampTo]
  omega

/-- A step towards a target stays between the two. -/
theorem slew_mem {a x b : Int} (ha : -b ≤ a ∧ a ≤ b) (hx : -b ≤ x ∧ x ≤ b) :
    -b ≤ a + clampTo slewPpb (x - a) ∧ a + clampTo slewPpb (x - a) ≤ b := by
  simp only [clampTo, slewPpb]
  omega

/-- At no correction the increment is the nominal one. -/
theorem incForPpb_zero {base : Nat} (h : 1 ≤ base ∧ base < 2 ^ 32) : incForPpb base 0 = base := by
  have hlow : ¬ ((base : Int) < 1) := by omega
  have hhigh : ¬ ((base : Int) > 0xFFFFFFFF) := by omega
  simp only [incForPpb, mul_zero, Int.zero_tdiv, add_zero, hlow, hhigh, if_false, Int.toNat_natCast]

/-- A system clock above the sample rate has a nominal increment. -/
theorem nominalInc_mem {f : UInt32} (h : 48000 < f.toNat) :
    1 ≤ nominalInc f.toNat 48000 ∧ nominalInc f.toNat 48000 < 2 ^ 32 := by
  have hf := f.toNat_lt
  have hlow : 48000 ≤ 48000 * 2 ^ 32 / f.toNat := by
    rw [Nat.le_div_iff_mul_le (by omega)]
    omega
  have hhigh : 48000 * 2 ^ 32 / f.toNat < 2 ^ 32 - 1 := by
    rw [Nat.div_lt_iff_lt_mul (by omega)]
    omega
  simp only [nominalInc]
  split <;> omega

/-! ## What a poll can do -/

/-- Everything that decides the increment is as it was. -/
structure Held (k k' : MediaClock) : Prop where
  baseInc : k'.baseInc = k.baseInc
  appliedInc : k'.appliedInc = k.appliedInc
  lastWrittenInc : k'.lastWrittenInc = k.lastWrittenInc
  appliedPpb : k'.appliedPpb = k.appliedPpb
  enabled : k'.enabled = k.enabled
  trips : k'.trips = k.trips
  mcr : k'.mcr = k.mcr
  increment : k'.increment = k.increment

theorem held_measure (k : MediaClock) (i : ClockPoll) :
    Held k (measure k i) ∧ (measure k i).tripStreak = k.tripStreak := by
  simp only [measure]
  split <;> exact ⟨⟨rfl, rfl, rfl, rfl, rfl, rfl, rfl, rfl⟩, rfl⟩

theorem held_countStreak (k : MediaClock) : Held k (countStreak k) :=
  ⟨rfl, rfl, rfl, rfl, rfl, rfl, rfl, rfl⟩

theorem held_followAnchors (k : MediaClock) (i : ClockPoll) :
    Held k (followAnchors k i) ∧ (followAnchors k i).tripStreak = k.tripStreak := by
  simp only [followAnchors]
  split <;> split <;> exact ⟨⟨rfl, rfl, rfl, rfl, rfl, rfl, rfl, rfl⟩, rfl⟩

theorem held_phaseTerm (k : MediaClock) (i : ClockPoll) :
    Held k (phaseTerm k i) ∧ (phaseTerm k i).tripStreak = k.tripStreak := by
  simp only [phaseTerm]
  split
  · exact ⟨⟨rfl, rfl, rfl, rfl, rfl, rfl, rfl, rfl⟩, rfl⟩
  · split <;> exact ⟨⟨rfl, rfl, rfl, rfl, rfl, rfl, rfl, rfl⟩, rfl⟩

theorem held_persistRate (k : MediaClock) (i : ClockPoll) :
    Held k (persistRate k i) ∧ (persistRate k i).tripStreak = k.tripStreak := by
  simp only [persistRate]
  split
  · split <;> exact ⟨⟨rfl, rfl, rfl, rfl, rfl, rfl, rfl, rfl⟩, rfl⟩
  · exact ⟨⟨rfl, rfl, rfl, rfl, rfl, rfl, rfl, rfl⟩, rfl⟩

theorem Held.trans {a b c : MediaClock} (h : Held a b) (h' : Held b c) : Held a c :=
  ⟨h'.1.trans h.1, h'.2.trans h.2, h'.3.trans h.3, h'.4.trans h.4, h'.5.trans h.5, h'.6.trans h.6,
    h'.7.trans h.7, h'.8.trans h.8⟩

/-- The applied rate has moved one step towards some target, and the register follows. -/
structure Slewed (k k' : MediaClock) : Prop where
  baseInc : k'.baseInc = k.baseInc
  enabled : k'.enabled = k.enabled
  trips : k'.trips = k.trips
  mcr : k'.mcr = k.mcr
  applied : ∃ target : Int, (-maxPpb ≤ target ∧ target ≤ maxPpb) ∧
    k'.appliedPpb = k.appliedPpb + clampTo slewPpb (target - k.appliedPpb)
  appliedInc : k'.appliedInc = incForPpb k.baseInc k'.appliedPpb
  lastWrittenInc : k'.lastWrittenInc = k'.appliedInc
  increment : k'.increment =
    if k'.appliedInc ≠ k.lastWrittenInc then k'.appliedInc else k.increment

theorem slewed_slew (k : MediaClock) (he : k.enabled = true)
    (ht : -maxPpb ≤ k.targetPpb ∧ k.targetPpb ≤ maxPpb) : Slewed k (slew k) := by
  by_cases hnew : incForPpb k.baseInc
      (k.appliedPpb + clampTo slewPpb (k.targetPpb - k.appliedPpb)) ≠ k.lastWrittenInc
  · have hslew : slew k = _ := if_pos ⟨he, hnew⟩
    rw [hslew]
    exact ⟨rfl, rfl, rfl, rfl, ⟨_, ht, rfl⟩, rfl, rfl, (if_pos hnew).symm⟩
  · have hslew : slew k = _ := if_neg fun h => hnew h.2
    rw [hslew]
    exact ⟨rfl, rfl, rfl, rfl, ⟨_, ht, rfl⟩, rfl, (not_not.1 hnew).symm, (if_neg hnew).symm⟩

theorem held_aim (k : MediaClock) (i : ClockPoll) :
    Held k (aim k i) ∧ (aim k i).tripStreak = k.tripStreak ∧
      (-maxPpb ≤ (aim k i).targetPpb ∧ (aim k i).targetPpb ≤ maxPpb) := by
  obtain ⟨hanchors, hstreak⟩ := held_followAnchors k i
  obtain ⟨hphase, hstreak'⟩ := held_phaseTerm (followAnchors k i) i
  have hheld := hanchors.trans hphase
  refine ⟨?_, hstreak'.trans hstreak, clampTo_mem (by decide)⟩
  exact ⟨hheld.1, hheld.2, hheld.3, hheld.4, hheld.5, hheld.6, hheld.7, hheld.8⟩

theorem Slewed.of_held {a b c d : MediaClock} (h : Held a b) (hs : Slewed b c) (h' : Held c d) :
    Slewed a d := by
  obtain ⟨target, hbound, happlied⟩ := hs.applied
  exact
    { baseInc := h'.baseInc.trans (hs.baseInc.trans h.baseInc)
      enabled := h'.enabled.trans (hs.enabled.trans h.enabled)
      trips := h'.trips.trans (hs.trips.trans h.trips)
      mcr := h'.mcr.trans (hs.mcr.trans h.mcr)
      applied := ⟨target, hbound, by rw [h'.appliedPpb, happlied, h.appliedPpb]⟩
      appliedInc := by rw [h'.appliedInc, hs.appliedInc, h.baseInc, h'.appliedPpb]
      lastWrittenInc := by rw [h'.lastWrittenInc, hs.lastWrittenInc, h'.appliedInc]
      increment := by
        rw [h'.increment, hs.increment, h'.appliedInc, h.lastWrittenInc, h.increment] }

/-- What the rest of a poll does: hold, settle at nominal while disarmed, or slew. -/
theorem discipline_cases (k : MediaClock) (i : ClockPoll) :
    (discipline k i).tripStreak = k.tripStreak ∧
      ((i.locked = false ∧ Held k (discipline k i)) ∨
        (i.locked = true ∧ k.enabled = false ∧
          Held { k with appliedPpb := 0, appliedInc := k.baseInc } (discipline k i)) ∨
        (i.locked = true ∧ k.enabled = true ∧ Slewed k (discipline k i))) := by
  obtain ⟨hheld, hstreak, htarget⟩ := held_aim k i
  rw [discipline]
  generalize aim k i = m at hheld hstreak htarget
  cases hlocked : i.locked with
  | false => exact ⟨hstreak, Or.inl ⟨rfl, hheld⟩⟩
  | true =>
      rw [Bool.not_true, if_neg Bool.false_ne_true]
      cases henabled : m.enabled with
      | false =>
          rw [Bool.not_false, if_pos rfl]
          refine ⟨hstreak, Or.inr (Or.inl ⟨rfl, by rw [← hheld.enabled, henabled], ?_⟩)⟩
          exact ⟨hheld.1, hheld.1, hheld.3, rfl, henabled.symm.trans hheld.5, hheld.6, hheld.7, hheld.8⟩
      | true =>
          rw [Bool.not_true, if_neg Bool.false_ne_true]
          obtain ⟨hsaved, hkept⟩ := held_persistRate (slew m) i
          have hstill : (slew m).tripStreak = m.tripStreak := by
            simp only [slew]
            split <;> rfl
          refine ⟨hkept.trans (hstill.trans hstreak), Or.inr (Or.inr ⟨rfl, ?_, ?_⟩)⟩
          · rw [← hheld.enabled, henabled]
          · exact Slewed.of_held hheld (slewed_slew m henabled htarget) hsaved

/-- The streak of qualifying seconds after the present one. -/
def streakOf (k : MediaClock) (i : ClockPoll) : Nat := (countStreak (measure k i)).tripStreak

/-- A poll is not due, or it trips, or it disciplines. -/
theorem poll_cases (k : MediaClock) (i : ClockPoll) :
    (updateDue k i = false ∧ mcrDantePoll k i = k) ∨
      (updateDue k i = true ∧ tripStreakS ≤ streakOf k i ∧
        mcrDantePoll k i = mcrDanteSetEnabled
          { countStreak (measure k i) with tripStreak := 0, trips := k.trips + 1 } false) ∨
      (updateDue k i = true ∧ streakOf k i < tripStreakS ∧
        mcrDantePoll k i = discipline (countStreak (measure k i)) i) := by
  have htrips : (countStreak (measure k i)).trips = k.trips := (held_measure k i).1.trips
  rw [mcrDantePoll]
  cases hdue : updateDue k i with
  | false => exact Or.inl ⟨rfl, rfl⟩
  | true =>
      by_cases htrip : tripStreakS ≤ streakOf k i
      · refine Or.inr (Or.inl ⟨rfl, htrip, ?_⟩)
        rw [← htrips]
        exact if_pos htrip
      · exact Or.inr (Or.inr ⟨rfl, by omega, if_neg htrip⟩)

/-- A poll trips exactly when it counts one. -/
def Trips (k : MediaClock) (e : ClockEvent) : Prop :=
  ∃ i, e = .poll i ∧ (mcrDantePoll k i).trips ≠ k.trips

theorem trips_iff (k : MediaClock) (i : ClockPoll) :
    (mcrDantePoll k i).trips ≠ k.trips ↔ updateDue k i = true ∧ tripStreakS ≤ streakOf k i := by
  have hmeasured : Held k (countStreak (measure k i)) :=
    (held_measure k i).1.trans (held_countStreak _)
  obtain ⟨hdue, hpoll⟩ | ⟨hdue, hstreak, hpoll⟩ | ⟨hdue, hstreak, hpoll⟩ := poll_cases k i
  · simp [hpoll, hdue]
  · have hmore : k.trips + 1 ≠ k.trips := by
      intro h
      simp at h
    rw [hpoll]
    exact ⟨fun _ => ⟨hdue, hstreak⟩, fun _ => hmore⟩
  · have hsame : (mcrDantePoll k i).trips = k.trips := by
      obtain ⟨-, ⟨-, h⟩ | ⟨-, -, h⟩ | ⟨-, -, h⟩⟩ := discipline_cases (countStreak (measure k i)) i
      · rw [hpoll, h.trips, hmeasured.trips]
      · rw [hpoll, h.trips]
        exact hmeasured.trips
      · rw [hpoll, h.trips, hmeasured.trips]
    simp only [hsame, ne_eq, not_true_eq_false, false_iff, not_and]
    omega

/-! ## The owner's state -/

/-- The register holds the increment of the applied rate. -/
def Owned (k : MediaClock) : Prop := k.increment = incForPpb k.baseInc k.appliedPpb

/-- What the owner believes, whatever the register holds. -/
structure Sane (k : MediaClock) : Prop where
  base : 1 ≤ k.baseInc ∧ k.baseInc < 2 ^ 32
  nominal : k.mcr.gptpLockedBase = k.baseInc
  applied : k.appliedInc = incForPpb k.baseInc k.appliedPpb
  written : k.lastWrittenInc = k.appliedInc
  idle : k.enabled = false → k.appliedPpb = 0
  bounded : -maxPpb ≤ k.appliedPpb ∧ k.appliedPpb ≤ maxPpb

theorem Sane.of_held {k k' : MediaClock} (hs : Sane k) (h : Held k k') : Sane k' where
  base := by rw [h.baseInc]; exact hs.base
  nominal := by rw [h.mcr, h.baseInc, hs.nominal]
  applied := by rw [h.appliedInc, h.baseInc, h.appliedPpb, hs.applied]
  written := by rw [h.lastWrittenInc, h.appliedInc, hs.written]
  idle := by rw [h.enabled, h.appliedPpb]; exact hs.idle
  bounded := by rw [h.appliedPpb]; exact hs.bounded

theorem Owned.iff_of_held {k k' : MediaClock} (h : Held k k') : Owned k' ↔ Owned k := by
  rw [Owned, Owned, h.increment, h.baseInc, h.appliedPpb]

/-- Arming and disarming write the register, so the two agree afterwards. -/
theorem sane_mcrDanteSetEnabled {k : MediaClock} (hs : Sane k) (on : Bool) :
    Sane (mcrDanteSetEnabled k on) ∧ Owned (mcrDanteSetEnabled k on) := by
  cases on with
  | false =>
      have hzero := incForPpb_zero hs.base
      have hbound : -maxPpb ≤ (0 : Int) ∧ (0 : Int) ≤ maxPpb := by decide
      exact ⟨⟨hs.base, hs.nominal, hzero.symm, rfl, fun _ => rfl, hbound⟩, hzero.symm⟩
  | true => exact ⟨⟨hs.base, hs.nominal, rfl, rfl, fun h => (by cases h), hs.bounded⟩, rfl⟩

theorem sane_discipline {k : MediaClock} (hs : Sane k) (i : ClockPoll) :
    Sane (discipline k i) ∧ (Owned k → Owned (discipline k i)) := by
  obtain ⟨-, ⟨-, h⟩ | ⟨-, hoff, h⟩ | ⟨-, hon, h⟩⟩ := discipline_cases k i
  · exact ⟨hs.of_held h, (Owned.iff_of_held h).2⟩
  · -- while disarmed the applied rate is zero and stays zero
    have hzero : k.appliedPpb = 0 := hs.idle hoff
    have hbase : k.appliedInc = k.baseInc := by rw [hs.applied, hzero, incForPpb_zero hs.base]
    have hsame : ({ k with appliedPpb := 0, appliedInc := k.baseInc } : MediaClock) = k := by
      obtain ⟨_, _, _⟩ := k
      simp only at hzero hbase
      rw [hzero, hbase]
    rw [hsame] at h
    exact ⟨hs.of_held h, (Owned.iff_of_held h).2⟩
  · obtain ⟨target, htarget, happlied⟩ := h.applied
    refine ⟨?_, fun howned => ?_⟩
    · exact
        { base := by rw [h.baseInc]; exact hs.base
          nominal := by rw [h.mcr, h.baseInc, hs.nominal]
          applied := by rw [h.appliedInc, h.baseInc]
          written := h.lastWrittenInc
          idle := fun hoff => by rw [h.enabled, hon] at hoff; cases hoff
          bounded := by rw [happlied]; exact slew_mem hs.bounded htarget }
    · rw [Owned, h.increment, h.baseInc, ← h.appliedInc]
      split
      · rfl
      · next hskip =>
          rw [howned, ← hs.applied, ← hs.written]
          exact (not_not.1 hskip).symm

theorem sane_mcrDantePoll {k : MediaClock} (hs : Sane k) (i : ClockPoll) :
    Sane (mcrDantePoll k i) ∧ (Owned k → Owned (mcrDantePoll k i)) := by
  have hmeasured : Held k (countStreak (measure k i)) :=
    (held_measure k i).1.trans (held_countStreak _)
  have hs' := hs.of_held hmeasured
  obtain ⟨-, hpoll⟩ | ⟨-, -, hpoll⟩ | ⟨-, -, hpoll⟩ := poll_cases k i
  · rw [hpoll]
    exact ⟨hs, id⟩
  · rw [hpoll]
    have hreset : Sane { countStreak (measure k i) with tripStreak := 0, trips := k.trips + 1 } :=
      ⟨hs'.base, hs'.nominal, hs'.applied, hs'.written, hs'.idle, hs'.bounded⟩
    exact ⟨(sane_mcrDanteSetEnabled hreset false).1, fun _ => (sane_mcrDanteSetEnabled hreset false).2⟩
  · rw [hpoll]
    obtain ⟨hsane, howned⟩ := sane_discipline hs' i
    exact ⟨hsane, fun h => howned ((Owned.iff_of_held hmeasured).2 h)⟩

/-- The console's `'N'` while the NCO is at nominal. -/
def UnbindSafe (k : MediaClock) (e : ClockEvent) : Prop :=
  e = .unbind → incForPpb k.baseInc k.appliedPpb = k.baseInc

/-- One step of the main loop: the owner stays sane, and the register stays his exactly when the
step is not an `'N'` away from nominal. -/
theorem sane_clockStep (k : MediaClock) (e : ClockEvent) (hs : Sane k) :
    Sane (clockStep k e) ∧ (Owned k → (Owned (clockStep k e) ↔ UnbindSafe k e)) := by
  have hheld : ∀ {k' : MediaClock}, Held k k' → e ≠ .unbind →
      Sane k' ∧ (Owned k → (Owned k' ↔ UnbindSafe k e)) := fun h he =>
    ⟨hs.of_held h, fun howned => ⟨fun _ h' => absurd h' he, fun _ => (Owned.iff_of_held h).2 howned⟩⟩
  cases e with
  | poll i =>
      obtain ⟨hsane, howned⟩ := sane_mcrDantePoll hs i
      exact ⟨hsane, fun h => ⟨fun _ h' => (by cases h'), fun _ => howned h⟩⟩
  | levelSample level => exact hheld ⟨rfl, rfl, rfl, rfl, rfl, rfl, rfl, rfl⟩ (fun h => by cases h)
  | setEnabled on =>
      obtain ⟨hsane, howned⟩ := sane_mcrDanteSetEnabled hs on
      exact ⟨hsane, fun _ => ⟨fun _ h' => (by cases h'), fun _ => howned⟩⟩
  | toggle =>
      obtain ⟨hsane, howned⟩ := sane_mcrDanteSetEnabled hs (!k.enabled)
      exact ⟨hsane, fun _ => ⟨fun _ h' => (by cases h'), fun _ => howned⟩⟩
  | setPhase on => exact hheld ⟨rfl, rfl, rfl, rfl, rfl, rfl, rfl, rfl⟩ (fun h => by cases h)
  | unbind =>
      refine ⟨⟨hs.base, hs.nominal, hs.applied, hs.written, hs.idle, hs.bounded⟩, fun _ => ?_⟩
      have hregister : (clockStep k .unbind).increment = k.baseInc := hs.nominal
      rw [Owned, hregister]
      exact ⟨fun h _ => h.symm, fun h => (h rfl).symm⟩
  | ptpSave addend => exact hheld ⟨rfl, rfl, rfl, rfl, rfl, rfl, rfl, rfl⟩ (fun h => by cases h)

theorem sane_boot {f : UInt32} (h : 48000 < f.toNat) (nv : Nv) (now underrun : UInt32) :
    Sane (MediaClock.boot f nv now underrun) ∧ Owned (MediaClock.boot f nv now underrun) := by
  have hbase := nominalInc_mem h
  have hzero := incForPpb_zero hbase
  -- the clock source is already 0, so choosing it changes nothing
  have hboot : MediaClock.boot f nv now underrun = mcrDanteInit
      (mcrSetGptp (mcrInit (MediaClock.zero nv) f.toNat 48000)) f.toNat 48000 now underrun := by
    have hcs : (mcrDanteInit (mcrSetGptp (mcrInit (MediaClock.zero nv) f.toNat 48000)) f.toNat 48000
        now underrun).mcr.cs = 0 := by
      simp only [mcrDanteInit]
      split <;> rfl
    rw [MediaClock.boot, mcrSetClockSource]
    exact if_pos (by rw [hcs]; rfl)
  have hbound : -maxPpb ≤ (0 : Int) ∧ (0 : Int) ≤ maxPpb := by decide
  rw [hboot]
  simp only [mcrDanteInit]
  split
  · next hwarm => exact ⟨⟨hbase, rfl, rfl, rfl, fun h => (by cases h), hwarm.2.2.le, hwarm.2.1.le⟩, rfl⟩
  · exact ⟨⟨hbase, rfl, hzero.symm, rfl, fun _ => rfl, hbound⟩, hzero.symm⟩

/-! ## One poll at a time -/

/-- A command that disarms. -/
def Disarms (k : MediaClock) (e : ClockEvent) : Prop :=
  e = .setEnabled false ∨ (e = .toggle ∧ k.enabled = true)

/-- How the applied rate may move in one step of the main loop. -/
structure Disciplined (k : MediaClock) (e : ClockEvent) : Prop where
  slewed : k.enabled = true → ¬ Disarms k e → ¬ Trips k e →
    -slewPpb ≤ (clockStep k e).appliedPpb - k.appliedPpb ∧
      (clockStep k e).appliedPpb - k.appliedPpb ≤ slewPpb
  held : ¬ Disarms k e → ¬ Trips k e → (∀ i, e = .poll i → i.locked = false) →
    (clockStep k e).appliedPpb = k.appliedPpb
  nominal : Disarms k e ∨ Trips k e →
    (clockStep k e).appliedPpb = 0 ∧ (clockStep k e).increment = k.baseInc

theorem disciplined_of_poll {k : MediaClock} (hs : Sane k) (i : ClockPoll) :
    Disciplined k (.poll i) := by
  have hmeasured : Held k (countStreak (measure k i)) :=
    (held_measure k i).1.trans (held_countStreak _)
  have htrips : Trips k (.poll i) ↔ updateDue k i = true ∧ tripStreakS ≤ streakOf k i := by
    rw [← trips_iff]
    exact ⟨fun ⟨j, hj, h⟩ => (by cases hj; exact h), fun h => ⟨i, rfl, h⟩⟩
  have hcalm : ∀ {e : ClockEvent}, e = .poll i → ¬ Disarms k e := by
    rintro e rfl (h | ⟨h, -⟩) <;> cases h
  have hstep : clockStep k (.poll i) = mcrDantePoll k i := rfl
  obtain ⟨hdue, hpoll⟩ | ⟨hdue, hstreak, hpoll⟩ | ⟨hdue, hstreak, hpoll⟩ := poll_cases k i
  · have hcalm' : ¬ Trips k (.poll i) := fun h => by simp [hdue] at htrips; exact htrips h
    rw [← hstep] at hpoll
    refine ⟨fun _ _ _ => by rw [hpoll]; simp, fun _ _ _ => by rw [hpoll], fun h => ?_⟩
    exact absurd h (not_or.2 ⟨hcalm rfl, hcalm'⟩)
  · have htrip : Trips k (.poll i) := htrips.2 ⟨hdue, hstreak⟩
    refine ⟨fun _ _ h => absurd htrip h, fun _ h => absurd htrip h, fun _ => ?_⟩
    rw [hstep, hpoll]
    exact ⟨rfl, hmeasured.baseInc⟩
  · have hcalm' : ¬ Trips k (.poll i) := fun h => by
      have := (htrips.1 h).2
      omega
    have hnominal := not_or.2 ⟨hcalm (e := .poll i) rfl, hcalm'⟩
    rw [← hstep] at hpoll
    obtain ⟨-, ⟨hl, h⟩ | ⟨hl, hoff, h⟩ | ⟨hl, -, h⟩⟩ := discipline_cases (countStreak (measure k i)) i
    · have hsame : (clockStep k (.poll i)).appliedPpb = k.appliedPpb := by
        rw [hpoll, h.appliedPpb, hmeasured.appliedPpb]
      exact ⟨fun _ _ _ => by rw [hsame]; simp, fun _ _ _ => hsame, fun h => absurd h hnominal⟩
    · have hzero : k.appliedPpb = 0 := hs.idle (by rw [← hmeasured.enabled, hoff])
      have hsame : (clockStep k (.poll i)).appliedPpb = k.appliedPpb := by
        rw [hpoll, h.appliedPpb, hzero]
      exact ⟨fun _ _ _ => by rw [hsame]; simp, fun _ _ _ => hsame, fun h => absurd h hnominal⟩
    · obtain ⟨target, -, happlied⟩ := h.applied
      rw [hmeasured.appliedPpb] at happlied
      have hmove := clampTo_mem (b := slewPpb) (x := target - k.appliedPpb) (by decide)
      refine ⟨fun _ _ _ => ?_, fun _ _ hunlocked => ?_, fun h => absurd h hnominal⟩
      · rw [hpoll, happlied, add_sub_cancel_left]
        exact hmove
      · rw [hunlocked i rfl] at hl
        cases hl

theorem disciplined (k : MediaClock) (e : ClockEvent) (hs : Sane k) : Disciplined k e := by
  have hcalm : (∀ i, e ≠ .poll i) → ¬ Trips k e := fun he ⟨i, hi, _⟩ => he i hi
  have hstill : (∀ i, e ≠ .poll i) → ¬ Disarms k e →
      (clockStep k e).appliedPpb = k.appliedPpb → Disciplined k e := fun he hd h =>
    ⟨fun _ _ _ => by rw [h]; simp, fun _ _ _ => h, fun h' => absurd h' (not_or.2 ⟨hd, hcalm he⟩)⟩
  cases e with
  | poll i => exact disciplined_of_poll hs i
  | levelSample level =>
      exact hstill (fun _ h => by cases h) (by rintro (h | ⟨h, -⟩) <;> cases h) rfl
  | setEnabled on =>
      cases on with
      | false =>
          have hd : Disarms k (.setEnabled false) := Or.inl rfl
          exact ⟨fun _ h => absurd hd h, fun h => absurd hd h, fun _ => ⟨rfl, rfl⟩⟩
      | true => exact hstill (fun _ h => by cases h) (by rintro (h | ⟨h, -⟩) <;> cases h) rfl
  | toggle =>
      cases hon : k.enabled with
      | true =>
          have hd : Disarms k .toggle := Or.inr ⟨rfl, hon⟩
          have hstep : clockStep k .toggle = mcrDanteSetEnabled k false := by
            rw [clockStep, hon]
            rfl
          refine ⟨fun _ h => absurd hd h, fun h => absurd hd h, fun _ => ?_⟩
          rw [hstep]
          exact ⟨rfl, rfl⟩
      | false =>
          have hstep : clockStep k .toggle = mcrDanteSetEnabled k true := by
            rw [clockStep, hon]
            rfl
          refine hstill (fun _ h => by cases h) ?_ (by rw [hstep]; rfl)
          rintro (h | ⟨-, h⟩)
          · cases h
          · rw [hon] at h
            cases h
  | setPhase on => exact hstill (fun _ h => by cases h) (by rintro (h | ⟨h, -⟩) <;> cases h) rfl
  | unbind => exact hstill (fun _ h => by cases h) (by rintro (h | ⟨h, -⟩) <;> cases h) rfl
  | ptpSave addend => exact hstill (fun _ h => by cases h) (by rintro (h | ⟨h, -⟩) <;> cases h) rfl

/-! ## The seconds before a trip -/

/-- The seconds that were measured, the newest first: whether each of them qualified. -/
def notedSeconds (k : MediaClock) (e : ClockEvent) (log : List Bool) : List Bool :=
  match e with
  | .poll i => if updateDue k i then qualifies (measure k i) :: log else log
  | _ => log

/-- The streak counts the qualifying seconds at the head of the log, and is below the bound. -/
def Streaked (p : MediaClock × List Bool) : Prop :=
  p.1.tripStreak < tripStreakS ∧ ∃ rest, p.2 = List.replicate p.1.tripStreak true ++ rest

theorem streakOf_log {k : MediaClock} {log : List Bool} (i : ClockPoll) (h : Streaked (k, log)) :
    ∃ rest, qualifies (measure k i) :: log = List.replicate (streakOf k i) true ++ rest := by
  obtain ⟨-, rest, hlog⟩ := h
  simp only at hlog
  simp only [streakOf, countStreak, (held_measure k i).2]
  cases qualifies (measure k i) with
  | true => exact ⟨rest, by rw [hlog, if_pos rfl, List.replicate_succ, List.cons_append]⟩
  | false => exact ⟨false :: log, by rw [if_neg Bool.false_ne_true]; rfl⟩

theorem streaked_clockStep (p : MediaClock × List Bool) (e : ClockEvent) (h : Streaked p) :
    Streaked (watch clockStep notedSeconds p e) := by
  obtain ⟨k, log⟩ := p
  cases e with
  | poll i =>
      obtain ⟨hdue, hpoll⟩ | ⟨hdue, hstreak, hpoll⟩ | ⟨hdue, hstreak, hpoll⟩ := poll_cases k i
      · simpa [watch, clockStep, notedSeconds, hpoll, hdue] using h
      · simp only [watch, clockStep, notedSeconds, hpoll, hdue, if_true]
        have hfresh : 0 < tripStreakS := by decide
        exact ⟨hfresh, _, rfl⟩
      · simp only [watch, clockStep, notedSeconds, hpoll, hdue, if_true]
        have hkept := (discipline_cases (countStreak (measure k i)) i).1
        rw [Streaked, hkept]
        exact ⟨hstreak, streakOf_log i h⟩
  | setEnabled on => cases on <;> exact h
  | toggle =>
      simp only [watch, clockStep, notedSeconds]
      cases !k.enabled <;> exact h
  | levelSample level => exact h
  | setPhase on => exact h
  | unbind => exact h
  | ptpSave addend => exact h

theorem log_of_trips {k : MediaClock} {e : ClockEvent} {log : List Bool} (h : Streaked (k, log))
    (ht : Trips k e) : ∃ rest, notedSeconds k e log = List.replicate tripStreakS true ++ rest := by
  obtain ⟨i, rfl, htrips⟩ := ht
  obtain ⟨hdue, hstreak⟩ := (trips_iff k i).1 htrips
  obtain ⟨rest, hlog⟩ := streakOf_log i h
  refine ⟨List.replicate (streakOf k i - tripStreakS) true ++ rest, ?_⟩
  simp only [notedSeconds, hdue, if_true]
  rw [hlog, ← List.append_assoc, ← List.replicate_add, Nat.add_sub_cancel' hstreak]

/-! ## Runs -/

/-- From any boot and over any run of the main loop: the register is the owner's at every moment
exactly if no `'N'` comes while the applied rate asks for another increment than the nominal one.
The rest of the contract holds in every run. -/
theorem nco_owned (f : UInt32) (hf : 48000 < f.toNat) (nv : Nv) (now underrun : UInt32)
    (es : List ClockEvent) :
    let k := MediaClock.boot f nv now underrun
    ((∀ t ≤ es.length, Owned (moment clockStep k es t)) ↔ Along clockStep UnbindSafe k es) ∧
    (∀ t, -maxPpb ≤ (moment clockStep k es t).appliedPpb ∧
      (moment clockStep k es t).appliedPpb ≤ maxPpb) ∧
    Along clockStep Disciplined k es ∧
    Along (watch clockStep notedSeconds)
      (fun p e => Trips p.1 e →
        ∃ rest, notedSeconds p.1 e p.2 = List.replicate tripStreakS true ++ rest) (k, []) es := by
  intro k
  obtain ⟨hsane, howned⟩ := sane_boot hf nv now underrun
  have hkeeps : ∀ k e, Sane k → Sane (clockStep k e) := fun k e hs => (sane_clockStep k e hs).1
  refine ⟨?_, fun t => ?_, ?_, ?_⟩
  · exact kept_iff_along (fun k e hs _ _ => hkeeps k e hs) (fun k e hs => (sane_clockStep k e hs).2) es
      hsane howned
  · exact (run_invariant (P := Sane) clockStep hkeeps (es.take t) hsane).bounded
  · have hall : Along clockStep (fun _ _ => True) k es := Along.of_forall (fun _ _ => trivial) es k
    exact (hall.strengthen (fun k e _ hs => hkeeps k e hs) hsane).mono fun k e h =>
      disciplined k e h.2
  · have hall : Along (watch clockStep notedSeconds) (fun _ _ => True) (k, []) es :=
      Along.of_forall (fun _ _ => trivial) es (k, [])
    have hfresh : Streaked (k, []) := by
      have hzero : k.tripStreak = 0 := by
        simp only [k, MediaClock.boot, mcrSetClockSource, mcrDanteInit]
        split <;> split <;> rfl
      rw [Streaked, hzero]
      exact ⟨by decide, [], rfl⟩
    exact (hall.strengthen (fun p e _ hp => streaked_clockStep p e hp) hfresh).mono
      fun p e h ht => log_of_trips h.2 ht

/-- A board that learned a rate of -4300 ppb, just booted. -/
def warmStarted : MediaClock :=
  MediaClock.boot 50000000
    ⟨{ cfgDefaults with mclkPpb := -4300, mclkPpbValid := 1 }, ⟨fun _ => 0xFF, false⟩⟩ 0 0

theorem nco_owned_toggled :
    Along clockStep UnbindSafe warmStarted [.toggle, .unbind, .toggle] ∧
      ∀ t ≤ 3, Owned (moment clockStep warmStarted [.toggle, .unbind, .toggle] t) := by
  have hsafe : Along clockStep UnbindSafe warmStarted [.toggle, .unbind, .toggle] :=
    ⟨fun h => (by cases h), fun _ => (by decide), fun h => (by cases h), trivial⟩
  exact ⟨hsafe, (nco_owned 50000000 (by decide) _ 0 0 [.toggle, .unbind, .toggle]).1.2 hsafe⟩

/-- A poll a second after boot, locked to a leader at the learned rate. -/
def secondPoll : ClockPoll :=
  { now := 1000, underrun := 0, ptpTime := ⟨1, 0⟩, emittedSec := 1, emittedSub := 0, anchors := 0
    talkerEnabled := true, locked := true, ratePpb := -4300 }

/-- The console's `'N'` on a board that runs corrected: the register is nominal, the owner thinks
it is not, and as his rate does not change his next poll leaves the register as it is. -/
theorem nco_lost :
    (run clockStep warmStarted [.unbind, .poll secondPoll]).increment ≠
      incForPpb (run clockStep warmStarted [.unbind, .poll secondPoll]).baseInc
        (run clockStep warmStarted [.unbind, .poll secondPoll]).appliedPpb := by
  decide

end Firmware
end InfernoFpga
