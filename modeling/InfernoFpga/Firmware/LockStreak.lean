import InfernoFpga.Firmware.PtpLock

/-!
# LockStreak — is the clock locked after `LOCK_STREAK` good offsets in a row?

A filtered offset below the lock threshold counts towards the lock, and one beyond the unlock
threshold begins the count anew.  What lies between the two does neither.  So the offsets that
were counted need not follow each other: they do exactly if none of the last ones lies between.
-/

namespace InfernoFpga
namespace Firmware
namespace Ptpv1

open Lib

/-! ## What an update comes to -/

/-- A filtered offset, a move of the clock, or neither: acquisition is waiting. -/
inductive Outcome
  | filtered (ns : Int)
  | moved
  | held
  deriving DecidableEq

def outcomes (s : Servo) : Event → List Outcome
  | .measure t1 t2 offset now =>
      if filters s offset then [.filtered (filteredOf s offset)]
      else if stepsClock s (.measure t1 t2 offset now) then [.moved]
      else [.held]
  | _ => []

/-- The servo with what its updates came to. -/
def noted : Servo × List Outcome → Event → Servo × List Outcome :=
  watch step fun s e past => past ++ outcomes s e

def inLockBand (f : Int) : Bool := decide ((f.natAbs : Int) < lockThresholdNs)

/-- The event takes `locked` from 0 to 1. -/
def Locks (s : Servo) (e : Event) : Prop := s.locked = false ∧ (step s e).locked = true

instance (s : Servo) (e : Event) : Decidable (Locks s e) :=
  inferInstanceAs (Decidable (_ ∧ _))

/-- The event is an update at which the path delay is known, or its grace period is over. -/
def DelayKnown (s : Servo) : Event → Prop
  | .measure _ _ _ now => delayKnown s now = true
  | _ => False

/-- The last `LOCK_STREAK` updates were filtered, with an `Ok` result each. -/
def Recently (Ok : Int → Prop) (past : List Outcome) : Prop :=
  ∃ before good, past = before ++ List.map Outcome.filtered good ∧ good.length = lockStreakN ∧
    ∀ f ∈ good, Ok f

/-- The last `LOCK_STREAK` updates were filtered, all to below the lock threshold. -/
def Earned (past : List Outcome) : Prop := Recently (fun f => inLockBand f = true) past

/-- None of the last `LOCK_STREAK` updates was filtered to between the thresholds. -/
def NoneBetween (past : List Outcome) : Prop :=
  ∀ f, Outcome.filtered f ∈ past.drop (past.length - lockStreakN) →
    inLockBand f = true ∨ outOfBand f = true

/-- No filtered offset lies between the thresholds while good ones are being counted. -/
def Decided (p : Servo × List Outcome) : Event → Prop
  | .measure _ _ offset _ =>
      filters p.1 offset = true → p.1.locked = false → p.1.lockStreak ≠ 0 →
        inLockBand (filteredOf p.1 offset) = true ∨ outOfBand (filteredOf p.1 offset) = true
  | _ => True

instance (p : Servo × List Outcome) : ∀ e, Decidable (Decided p e)
  | .measure _ _ offset _ =>
      inferInstanceAs (Decidable (filters p.1 offset = true → p.1.locked = false →
        p.1.lockStreak ≠ 0 → inLockBand (filteredOf p.1 offset) = true ∨
          outOfBand (filteredOf p.1 offset) = true))
  | .delay _ => inferInstanceAs (Decidable True)
  | .tune _ _ _ => inferInstanceAs (Decidable True)
  | .sync _ => inferInstanceAs (Decidable True)

/-! ## What an update does to the count -/

section Update

variable {s : Servo} {t1 t2 : Timestamp} {offset f : Int} {now : UInt32}

theorem not_outOfBand_of_inLockBand (h : inLockBand f = true) : outOfBand f = false := by
  have hlow : (f.natAbs : Int) < 2000 := of_decide_eq_true h
  apply decide_eq_false
  show ¬ (5000 : Int) < f.natAbs
  omega

/-- A good offset, once the path delay is known, counts; with enough of them the clock is locked. -/
theorem streaks_of_inLockBand (h : inLockBand f = true) (hknown : delayKnown s now = true) :
    (streaks s f now).lockStreak = s.lockStreak + 1 ∧
      ((streaks s f now).locked = true ↔
        s.locked = true ∨ lockStreakN ≤ (s.lockStreak + 1).toNat) := by
  have hlow : (f.natAbs : Int) < lockThresholdNs ∧ delayKnown s now = true :=
    ⟨of_decide_eq_true h, hknown⟩
  unfold streaks
  simp only [if_pos hlow]
  split
  · rename_i hlocks
    exact ⟨rfl, iff_of_true rfl (.inr hlocks.1)⟩
  · rename_i hnot
    refine ⟨rfl, ⟨.inl, ?_⟩⟩
    rintro (hlocked | hfull)
    · exact hlocked
    · by_contra hoff
      exact hnot ⟨hfull, Bool.eq_false_iff.2 hoff⟩

/-- Nothing is counted within the unlock threshold, if the offset is not good or the path delay is
not known. -/
theorem streaks_of_idle (h : ¬ (inLockBand f = true ∧ delayKnown s now = true))
    (hband : outOfBand f = false) :
    (streaks s f now).lockStreak = s.lockStreak ∧ (streaks s f now).locked = s.locked := by
  have hlow : ¬ ((f.natAbs : Int) < lockThresholdNs ∧ delayKnown s now = true) :=
    fun hlow => h ⟨decide_eq_true hlow.1, hlow.2⟩
  have hhigh : ¬ (f.natAbs : Int) > unlockThresholdNs := of_decide_eq_false hband
  unfold streaks
  simp only [if_neg hlow, if_neg hhigh, and_self]

/-- What becomes of an update that is not filtered. -/
theorem outcomes_off (t1 t2 : Timestamp) (now : UInt32) (h : filters s offset = false) :
    (outcomes s (.measure t1 t2 offset now) = [.moved] ∧
        (servoUpdate s t1 t2 offset now).1.lockStreak = 0) ∨
      (outcomes s (.measure t1 t2 offset now) = [.held] ∧ s.acqActive = true ∧
        (servoUpdate s t1 t2 offset now).1.lockStreak = s.lockStreak) := by
  have hout : outcomes s (.measure t1 t2 offset now) =
      if (servoUpdate s t1 t2 offset now).2.any Tsu.stepsClock then [.moved] else [.held] := by
    rw [outcomes, h, if_neg Bool.false_ne_true]
    rfl
  rw [hout]
  rcases servoUpdate_off_eq t1 t2 now h with ⟨-, heq⟩ | ⟨-, hacq, heq⟩ | ⟨-, -, heq⟩
  · rw [heq]
    exact .inl ⟨rfl, rfl⟩
  · rcases acquire_cases (recordOffset s offset) t1 t2 offset with
      ⟨base1, base2, have', hacquire⟩ | ⟨fi, addend, hacquire⟩
    · rw [heq, hacquire]
      exact .inr ⟨rfl, hacq, rfl⟩
    · rw [heq, hacquire]
      exact .inl ⟨rfl, rfl⟩
  · rw [heq]
    exact .inl ⟨rfl, rfl⟩

theorem steered_lockStreak (s : Servo) (offset : Int) :
    (steered s offset).lockStreak = s.lockStreak := by
  obtain ⟨fi, num, heq⟩ :=
    integrate_eq (pushMedian (recordOffset s offset) offset) (filteredOf s offset)
  rw [steered, heq]
  rfl

theorem delayKnown_steered (s : Servo) (offset : Int) (now : UInt32) :
    delayKnown (steered s offset) now = delayKnown s now := by
  obtain ⟨fi, num, heq⟩ :=
    integrate_eq (pushMedian (recordOffset s offset) offset) (filteredOf s offset)
  rw [steered, heq]
  rfl

end Update

theorem acceptDelay_lockStreak (s : Servo) (d : Int) :
    (acceptDelay s d).lockStreak = s.lockStreak := by
  unfold acceptDelay delaySample
  split
  · split <;> rfl
  · rfl

theorem delayResp_lockStreak (s : Servo) (d : Int) : (delayResp s d).lockStreak = s.lockStreak := by
  unfold delayResp
  split
  · rfl
  · exact acceptDelay_lockStreak s _

theorem firstSync_lockStreak (s : Servo) (now : UInt32) :
    (firstSync s now).lockStreak = s.lockStreak := by
  unfold firstSync
  split <;> rfl

/-! ## What the count stands for -/

/-- While the clock is not locked, the streak counts good offsets of an unbroken row of filtered
updates, each with an `Ok` result. -/
structure Streaked (Ok : Int → Prop) (p : Servo × List Outcome) : Prop where
  acquiring : p.1.acqActive = true → p.1.lockStreak = 0
  below : p.1.locked = false → p.1.lockStreak.toNat < lockStreakN
  row : p.1.locked = false → ∃ before fs, p.2 = before ++ List.map Outcome.filtered fs ∧
    (∀ f ∈ fs, Ok f) ∧ p.1.lockStreak.toNat ≤ fs.countP inLockBand

/-- What lies between the thresholds, while offsets are being counted, is `Ok`. -/
def MiddleOk (Ok : Int → Prop) (p : Servo × List Outcome) : Event → Prop
  | .measure _ _ offset _ =>
      filters p.1 offset = true → p.1.locked = false → p.1.lockStreak ≠ 0 →
        inLockBand (filteredOf p.1 offset) = false → outOfBand (filteredOf p.1 offset) = false →
          Ok (filteredOf p.1 offset)
  | _ => True

section Row

variable {Ok : Int → Prop} {p q : Servo × List Outcome} {t1 t2 : Timestamp} {offset : Int}
  {now : UInt32}

/-- With nothing counted there is nothing to show. -/
theorem Streaked.of_zero (h : p.1.lockStreak = 0) : Streaked Ok p where
  acquiring := fun _ => h
  below := fun _ => by
    rw [h]
    decide
  row := fun _ => ⟨p.2, [], (List.append_nil _).symm, by simp, by simp [h]⟩

theorem Streaked.of_fields (h : Streaked Ok p) (hlocked : q.1.locked = p.1.locked)
    (hstreak : q.1.lockStreak = p.1.lockStreak) (hacq : q.1.acqActive = p.1.acqActive)
    (hpast : q.2 = p.2) : Streaked Ok q where
  acquiring := by
    rw [hacq, hstreak]
    exact h.acquiring
  below := by
    rw [hlocked, hstreak]
    exact h.below
  row := by
    rw [hlocked, hstreak, hpast]
    exact h.row

/-- While the clock is locked the row does not matter. -/
theorem Streaked.of_locked (hacq : p.1.acqActive = false) (hlocked : p.1.locked = true) :
    Streaked Ok p where
  acquiring := fun hon => absurd hon (by simp [hacq])
  below := fun hoff => absurd hlocked (by simp [hoff])
  row := fun hoff => absurd hlocked (by simp [hoff])

theorem streaked_init (cfgAddend : Option Int) : Streaked Ok (init cfgAddend, []) := by
  apply Streaked.of_zero
  show (init cfgAddend).lockStreak = 0
  unfold init
  cases cfgAddend with
  | none => rfl
  | some warm =>
      dsimp only
      split <;> rfl

/-- One more filtered offset that is `Ok` makes the row longer. -/
theorem Streaked.longer {s : Servo} {f : Int} (h : Streaked Ok p) (hoff : p.1.locked = false)
    (hf : Ok f) (hacq : s.acqActive = false)
    (hbelow : s.locked = false → s.lockStreak.toNat < lockStreakN)
    (hcount : s.lockStreak.toNat ≤ p.1.lockStreak.toNat + [f].countP inLockBand) :
    Streaked Ok (s, p.2 ++ [.filtered f]) where
  acquiring := fun hon => absurd hon (by simp [hacq])
  below := hbelow
  row := fun _ => by
    rcases h.row hoff with ⟨before, fs, heq, hall, hle⟩
    refine ⟨before, fs ++ [f], ?_, ?_, ?_⟩
    · calc p.2 ++ [.filtered f]
          = before ++ List.map Outcome.filtered fs ++ [.filtered f] := by rw [heq]
        _ = before ++ List.map Outcome.filtered (fs ++ [f]) := by
            rw [List.map_append, List.append_assoc]
            rfl
    · intro x hx
      rcases List.mem_append.1 hx with hx | hx
      · exact hall x hx
      · rw [List.mem_singleton.1 hx]
        exact hf
    · rw [List.countP_append]
      exact hcount.trans (Nat.add_le_add_right hle _)

/-- Within the unlock threshold the row of an unlocked clock grows, or nothing was counted. -/
theorem streaked_inBand (hin : ∀ f, inLockBand f = true → Ok f) (h : Streaked Ok p)
    (hoff : p.1.locked = false) (hacq : p.1.acqActive = false)
    (hband : outOfBand (filteredOf p.1 offset) = false)
    (hmid : p.1.lockStreak ≠ 0 → inLockBand (filteredOf p.1 offset) = false →
      Ok (filteredOf p.1 offset)) :
    Streaked Ok (streaks (steered p.1 offset) (filteredOf p.1 offset) now,
      p.2 ++ [.filtered (filteredOf p.1 offset)]) := by
  have hacq' : (streaks (steered p.1 offset) (filteredOf p.1 offset) now).acqActive = false := by
    rw [streaks_acqActive, (steered_fields p.1 offset).2.2, hacq]
  have hbelow : p.1.lockStreak.toNat < 8 := h.below hoff
  by_cases hgood : inLockBand (filteredOf p.1 offset) = true ∧
      delayKnown (steered p.1 offset) now = true
  · rcases streaks_of_inLockBand hgood.1 hgood.2 with ⟨hstreak, hlocks⟩
    rw [steered_lockStreak] at hstreak hlocks
    have hsucc : (p.1.lockStreak + 1).toNat = p.1.lockStreak.toNat + 1 := by
      rw [UInt32.toNat_add]
      exact Nat.mod_eq_of_lt (by simp; omega)
    refine h.longer hoff (hin _ hgood.1) hacq' (fun hstill => ?_) ?_
    · -- a full count would have locked the clock
      rw [hstreak]
      by_contra hfull
      have hnow := hlocks.2 (.inr (Nat.le_of_not_lt hfull))
      rw [hstill] at hnow
      cases hnow
    · rw [hstreak, hsucc, List.countP_singleton, if_pos hgood.1]
  · rcases streaks_of_idle hgood hband with ⟨hstreak, -⟩
    rw [steered_lockStreak] at hstreak
    by_cases hzero : p.1.lockStreak = 0
    · exact Streaked.of_zero (hstreak.trans hzero)
    have hok : Ok (filteredOf p.1 offset) := by
      cases hlow : inLockBand (filteredOf p.1 offset) with
      | true => exact hin _ hlow
      | false => exact hmid hzero hlow
    refine h.longer hoff hok hacq' (fun _ => ?_) ?_
    · rw [hstreak]
      exact hbelow
    · rw [hstreak]
      exact Nat.le_add_right _ _

/-- A filtered update: the row grows, is broken, or is over because the clock is locked. -/
theorem streaked_filtered (hin : ∀ f, inLockBand f = true → Ok f) (h : Streaked Ok p)
    (hf : filters p.1 offset = true) (hmid : MiddleOk Ok p (.measure t1 t2 offset now)) :
    Streaked Ok (noted p (.measure t1 t2 offset now)) := by
  have hout : noted p (.measure t1 t2 offset now) =
      ((servoUpdate p.1 t1 t2 offset now).1, p.2 ++ [.filtered (filteredOf p.1 offset)]) := by
    show (_, p.2 ++ outcomes p.1 _) = _
    rw [outcomes, if_pos hf]
    rfl
  have hacq : p.1.acqActive = false := by
    simp only [filters, Bool.and_eq_true, Bool.not_eq_true'] at hf
    exact hf.1.2
  rcases steered_fields p.1 offset with ⟨hlocked, -, hsame⟩
  rw [hout]
  cases hspike : isSpike p.1 (filteredOf p.1 offset) with
  | true =>
      -- only a locked clock passes a sample over
      have hon : p.1.locked = true := (Bool.and_eq_true_iff.1 hspike).1
      rw [servoUpdate_of_spike hf hspike]
      exact Streaked.of_locked (by simp [pushMedian, recordOffset, hacq])
        (by simp [pushMedian, recordOffset, hon])
  | false =>
      rw [servoUpdate_of_filters hf hspike]
      cases hband : outOfBand (filteredOf p.1 offset) with
      | true =>
          apply Streaked.of_zero
          rw [streaks_of_outOfBand (steered p.1 offset) (filteredOf p.1 offset) now hband]
      | false =>
          cases hon : p.1.locked with
          | true =>
              have hstay := (streaks_of_inBand (steered p.1 offset) (filteredOf p.1 offset)
                now hband).2 (hlocked.trans hon)
              refine Streaked.of_locked ?_ hstay
              rw [streaks_acqActive, hsame, hacq]
          | false =>
              exact streaked_inBand hin h hon hacq hband fun hne hlow => hmid hf hon hne hlow hband

theorem streaked_step (hin : ∀ f, inLockBand f = true → Ok f) (h : Streaked Ok p) (e : Event)
    (hmid : MiddleOk Ok p e) : Streaked Ok (noted p e) := by
  cases e with
  | measure t1 t2 offset now =>
      cases hf : filters p.1 offset with
      | true => exact streaked_filtered hin h hf hmid
      | false =>
          rcases outcomes_off t1 t2 now hf with
            ⟨-, hzero⟩ | ⟨-, hacq, hsame⟩
          · exact Streaked.of_zero hzero
          · exact Streaked.of_zero (hsame.trans (h.acquiring hacq))
  | delay d =>
      rcases delayResp_fields p.1 d with ⟨hlocked, -, hacq⟩
      exact h.of_fields hlocked (delayResp_lockStreak p.1 d) hacq (List.append_nil _)
  | tune n kiNum exact => exact h.of_fields rfl rfl rfl (List.append_nil _)
  | sync now =>
      rcases firstSync_fields p.1 now with ⟨hlocked, -, hacq⟩
      exact h.of_fields hlocked (firstSync_lockStreak p.1 now) hacq (List.append_nil _)

end Row

/-! ## Locking -/

section Locking

variable {Ok : Int → Prop} {s : Servo} {p : Servo × List Outcome} {offset : Int} {now : UInt32}
  {e : Event}

/-- Only the last of enough good offsets locks the clock, and only when the path delay is known. -/
theorem of_locks_measure {t1 t2 : Timestamp} (h : Locks s (.measure t1 t2 offset now)) :
    filters s offset = true ∧ inLockBand (filteredOf s offset) = true ∧
      delayKnown s now = true ∧ lockStreakN ≤ (s.lockStreak + 1).toNat := by
  rcases h with ⟨hoff, hon⟩
  have hon' : (servoUpdate s t1 t2 offset now).1.locked = true := hon
  have hf : filters s offset = true := by
    by_contra hf
    have hwas := ((servoUpdate_off t1 t2 now (Bool.eq_false_iff.2 hf)).2 hon').1
    rw [hoff] at hwas
    cases hwas
  have hspike : isSpike s (filteredOf s offset) = false := by
    rw [isSpike, hoff, Bool.false_and]
  rw [servoUpdate_of_filters hf hspike] at hon'
  have hstill : (steered s offset).locked = false := (steered_fields s offset).1.trans hoff
  have hband : outOfBand (filteredOf s offset) = false := by
    by_contra hband
    rw [streaks_of_outOfBand (steered s offset) (filteredOf s offset) now
      (Bool.not_eq_false _ ▸ hband), hstill] at hon'
    cases hon'
  by_cases hgood : inLockBand (filteredOf s offset) = true ∧
      delayKnown (steered s offset) now = true
  · rcases (streaks_of_inLockBand hgood.1 hgood.2).2.1 hon' with hwas | hfull
    · rw [hstill] at hwas
      cases hwas
    · rw [steered_lockStreak] at hfull
      exact ⟨hf, hgood.1, (delayKnown_steered s offset now) ▸ hgood.2, hfull⟩
  · rw [(streaks_of_idle hgood hband).2, hstill] at hon'
    cases hon'

theorem delayKnown_of_locks (h : Locks s e) : DelayKnown s e := by
  rcases h with ⟨hoff, hon⟩
  cases e with
  | measure t1 t2 offset now => exact (of_locks_measure ⟨hoff, hon⟩).2.2.1
  | delay d =>
      have hsame : (delayResp s d).locked = true := hon
      rw [(delayResp_fields s d).1, hoff] at hsame
      cases hsame
  | tune n kiNum exact =>
      have hsame : s.locked = true := hon
      rw [hoff] at hsame
      cases hsame
  | sync now =>
      have hsame : (firstSync s now).locked = true := hon
      rw [(firstSync_fields s now).1, hoff] at hsame
      cases hsame

/-- When the clock locks, the last updates were all filtered, with `Ok` results. -/
theorem recently_of_locks (hin : ∀ f, inLockBand f = true → Ok f) (h : Streaked Ok p)
    (hlocks : Locks p.1 e) : Recently Ok (p.2 ++ outcomes p.1 e) := by
  have hknown := delayKnown_of_locks hlocks
  cases e with
  | measure t1 t2 offset now =>
      rcases of_locks_measure hlocks with ⟨hf, hgood, -, hfull⟩
      rcases h.row hlocks.1 with ⟨before, fs, heq, hall, hcount⟩
      rw [outcomes, if_pos hf]
      have hfull' : 8 ≤ (p.1.lockStreak + 1).toNat := hfull
      have hsucc : (p.1.lockStreak + 1).toNat ≤ p.1.lockStreak.toNat + 1 := by
        rw [UInt32.toNat_add]
        exact Nat.mod_le _ _
      have hlen : fs.countP inLockBand ≤ fs.length := List.countP_le_length
      -- of the row and the new offset the last eight are taken
      have hcut := List.take_append_drop (fs.length + 1 - 8) (fs ++ [filteredOf p.1 offset])
      refine ⟨before ++ List.map Outcome.filtered
          ((fs ++ [filteredOf p.1 offset]).take (fs.length + 1 - 8)),
        (fs ++ [filteredOf p.1 offset]).drop (fs.length + 1 - 8), ?_, ?_, ?_⟩
      · calc p.2 ++ [.filtered (filteredOf p.1 offset)]
            = before ++ List.map Outcome.filtered (fs ++ [filteredOf p.1 offset]) := by
              rw [heq, List.map_append, List.append_assoc]
              rfl
          _ = _ := by
              rw [List.append_assoc, ← List.map_append, hcut]
      · rw [List.length_drop, List.length_append, List.length_singleton]
        show _ = 8
        omega
      · intro f hmem
        rcases List.mem_append.1 (List.mem_of_mem_drop hmem) with hmem | hmem
        · exact hall f hmem
        · rw [List.mem_singleton.1 hmem]
          exact hin _ hgood
  | delay d => exact hknown.elim
  | tune n kiNum exact => exact hknown.elim
  | sync now => exact hknown.elim

/-- What follows a row of filtered offsets that is `LOCK_STREAK` long. -/
theorem drop_row {before : List Outcome} {good : List Int} (hlen : good.length = lockStreakN) :
    (before ++ List.map Outcome.filtered good).drop
      ((before ++ List.map Outcome.filtered good).length - lockStreakN) =
        List.map Outcome.filtered good := by
  rw [List.length_append, List.length_map, hlen, Nat.add_sub_cancel, List.drop_left]

theorem Earned.noneBetween {past : List Outcome} (h : Earned past) : NoneBetween past := by
  rcases h with ⟨before, good, rfl, hlen, hall⟩
  intro f hf
  rw [drop_row hlen] at hf
  rcases List.mem_map.1 hf with ⟨x, hx, hxf⟩
  cases hxf
  exact .inl (hall f hx)

/-- A row within the unlock threshold was earned exactly if nothing of it lies between. -/
theorem earned_iff_noneBetween {past : List Outcome}
    (h : Recently (fun f => outOfBand f = false) past) : Earned past ↔ NoneBetween past := by
  refine ⟨Earned.noneBetween, fun hnone => ?_⟩
  rcases h with ⟨before, good, rfl, hlen, hall⟩
  refine ⟨before, good, rfl, hlen, fun f hf => ?_⟩
  have hmem : Outcome.filtered f ∈ List.map Outcome.filtered good := List.mem_map.2 ⟨f, hf, rfl⟩
  rw [← drop_row hlen] at hmem
  rcases hnone f hmem with hlow | hhigh
  · exact hlow
  · rw [hall f hf] at hhigh
    cases hhigh

/-- Whenever the clock locks, the path delay is known, and the lock was earned exactly if none of
the last updates was filtered to between the thresholds.  In a run without any such update among
those that are counted, every lock is earned. -/
theorem lock_earned (cfgAddend : Option Int) (es : List Event) :
    Along noted (fun p e => Locks p.1 e → DelayKnown p.1 e ∧
        (Earned (p.2 ++ outcomes p.1 e) ↔ NoneBetween (p.2 ++ outcomes p.1 e)))
      (init cfgAddend, []) es ∧
    (Along noted Decided (init cfgAddend, []) es →
      Along noted (fun p e => Locks p.1 e → DelayKnown p.1 e ∧ Earned (p.2 ++ outcomes p.1 e))
        (init cfgAddend, []) es) := by
  constructor
  · have hin : ∀ f, inLockBand f = true → outOfBand f = false :=
      fun f => not_outOfBand_of_inLockBand
    have hall : Along noted (fun _ _ => True) (init cfgAddend, []) es :=
      Along.of_forall (fun _ _ => trivial) es _
    have hrun := hall.strengthen (P := Streaked fun f => outOfBand f = false)
      (fun p e _ h => streaked_step hin h e (by cases e <;> simp [MiddleOk]))
      (streaked_init cfgAddend)
    exact hrun.mono fun p e h hlocks => ⟨delayKnown_of_locks hlocks,
      earned_iff_noneBetween (recently_of_locks hin h.2 hlocks)⟩
  · intro hdecided
    have hmid : ∀ p e, Decided p e → MiddleOk (fun f => inLockBand f = true) p e := by
      intro p e hd
      cases e with
      | measure t1 t2 offset now =>
          intro hf hoff hne hlow hband
          rcases hd hf hoff hne with hlow' | hhigh
          · exact hlow'
          · rw [hband] at hhigh
            cases hhigh
      | delay d => trivial
      | tune n kiNum exact => trivial
      | sync now => trivial
    have hrun := hdecided.strengthen (P := Streaked fun f => inLockBand f = true)
      (fun p e hd h => streaked_step (fun _ => id) h e (hmid p e hd)) (streaked_init cfgAddend)
    exact hrun.mono fun p e h hlocks =>
      ⟨delayKnown_of_locks hlocks, recently_of_locks (fun _ => id) h.2 hlocks⟩

/-- The last offset of a lock-up without any outlier locks the clock, and has earned it. -/
theorem lock_earned_lockUp :
    Locks (run noted (init none, []) lockUp.dropLast).1 (measured 0) ∧
      Along noted (fun p e => Locks p.1 e → DelayKnown p.1 e ∧ Earned (p.2 ++ outcomes p.1 e))
        (init none, []) lockUp :=
  ⟨by decide, (lock_earned none lockUp).2 (by decide)⟩

end Locking

/-! ## An offset of 3 microseconds among the good ones -/

/-- Acquisition and phase correction, then nine offsets of which the second filters to 3 us. -/
def betweenRun : List Event :=
  [.measure ⟨0, 0⟩ ⟨0, 0⟩ 0 1, measured 0] ++ List.replicate 4 (.delay 0) ++
    [measured 0, measured 0, measured 3000] ++ List.replicate 6 (measured 0)

/-- The clock locks on seven good offsets in a row: the 3 us before them are within the last
`LOCK_STREAK` updates. -/
theorem lock_unearned :
    Locks (run noted (init none, []) betweenRun).1 (measured 0) ∧
      ¬ Earned ((run noted (init none, []) betweenRun).2 ++
        outcomes (run noted (init none, []) betweenRun).1 (measured 0)) := by
  refine ⟨by decide, fun h => ?_⟩
  have hbetween := h.noneBetween 3000 (by decide)
  rcases hbetween with hlow | hhigh
  · exact absurd hlow (by decide)
  · exact absurd hhigh (by decide)

end Ptpv1
end Firmware
end InfernoFpga
