import InfernoFpga.Lib.InsertSort
import InfernoFpga.Lib.Ring
import InfernoFpga.Firmware.PtpLock

/-!
# MedianFilter — is the filtered offset the median of the last ones?

`median_of` keeps the offsets in a round buffer as wide as the tuned window, and sorts a copy of
it.  A clock step and a retuning begin the buffer anew, but what was written before stays in it.
The model of this module reads only what was written since: it returns nothing where the source
would read anything else.
-/

namespace InfernoFpga
namespace Firmware
namespace Ptpv1

open Lib

/-! ## The buffer since the last reset -/

/-- The offsets pushed since the last reset, and what was written to each slot since then. -/
structure Samples where
  pushed : List Int
  slots : Nat → Option Int

def Samples.fresh : Samples := ⟨[], fun _ => none⟩

def Samples.push (past : Samples) (pos : Nat) (v : Int) : Samples :=
  ⟨past.pushed ++ [v], Function.update past.slots pos (some v)⟩

/-- A step of the clock and a retuning reset the filter. -/
def nextSamples (s : Servo) (e : Event) (past : Samples) : Samples :=
  match e with
  | .measure _ _ offset _ =>
      if filters s offset then past.push s.medianPos offset
      else if stepsClock s e then Samples.fresh
      else past
  | .tune _ _ _ => Samples.fresh
  | _ => past

/-- The servo with the samples since the last reset. -/
def sampled : Servo × Samples → Event → Servo × Samples := watch step nextSamples

/-- The last `min(samples since reset, window)` offsets, of which `offset` is the newest. -/
def window (p : Servo × Samples) (offset : Int) : List Int :=
  (p.2.pushed ++ [offset]).drop
    (p.2.pushed.length + 1 - min (p.2.pushed.length + 1) p.1.rtMedianN)

/-! ## `median_of`, access by access -/

/-- A write to `median_buf`, inside it. -/
def writeSample (slots : Nat → Option Int) (i : Nat) (v : Int) : Option (Nat → Option Int) :=
  if i < medianN then some (Function.update slots i (some v)) else none

/-- A read of `median_buf`, inside it and of a slot that was written. -/
def readSample (slots : Nat → Option Int) (i : Nat) : Option Int :=
  if i < medianN then slots i else none

/-- The copy that is sorted: `tmp[i] = median_buf[i]`. -/
def copied (slots : Nat → Option Int) : Nat → Option (List Int)
  | 0 => some []
  | n + 1 => do
      let tmp ← copied slots n
      let v ← readSample slots n
      return tmp ++ [v]

/-- `median_of`: push `v`, sort a copy of the buffer, take the middle. -/
def medianOf (s : Servo) (slots : Nat → Option Int) (v : Int) : Option Int := do
  let slots ← writeSample slots s.medianPos v
  let count := if s.medianCount < s.rtMedianN then s.medianCount + 1 else s.medianCount
  let tmp ← copied slots count
  let tmp ← InsertSort.insertSort tmp
  tmp[count / 2]?

/-! ## What the reads find -/

theorem copied_eq {slots : Nat → Option Int} {buf : Nat → Int} : ∀ {n : Nat}, n ≤ medianN →
    (∀ i < n, slots i = some (buf i)) → copied slots n = some ((List.range n).map buf)
  | 0, _, _ => rfl
  | n + 1, hle, h => by
      have hread : readSample slots n = some (buf n) := by
        have hlt : n < medianN := hle
        rw [readSample, if_pos hlt, h n (Nat.lt_succ_self n)]
      rw [copied, copied_eq (Nat.le_of_succ_le hle) fun i hi => h i (Nat.lt_succ_of_lt hi), hread,
        List.range_succ, List.map_append]
      rfl

/-- Count, position and window go with the samples, and the buffer holds them. -/
structure Filled (p : Servo × Samples) : Prop where
  wide : 0 < p.1.rtMedianN ∧ p.1.rtMedianN ≤ medianN
  count : p.1.medianCount = min p.2.pushed.length p.1.rtMedianN
  pos : p.1.medianPos = p.2.pushed.length % p.1.rtMedianN
  holds : Ring.Holds p.1.rtMedianN 0 none p.2.slots (p.2.pushed.map some)
  same : ∀ i v, p.2.slots i = some v → p.1.medianBuf i = v

/-- What an update does elsewhere in the servo is nothing to the filter. -/
structure KeepsFilter (s s' : Servo) : Prop where
  buf : s'.medianBuf = s.medianBuf
  count : s'.medianCount = s.medianCount
  pos : s'.medianPos = s.medianPos
  wide : s'.rtMedianN = s.rtMedianN

section Push

variable {p : Servo × Samples} {s' : Servo} {offset : Int}

theorem Filled.keep (h : Filled p) (hkeep : KeepsFilter p.1 s') : Filled (s', p.2) where
  wide := by
    show 0 < s'.rtMedianN ∧ s'.rtMedianN ≤ medianN
    rw [hkeep.wide]
    exact h.wide
  count := by
    show s'.medianCount = min p.2.pushed.length s'.rtMedianN
    rw [hkeep.count, hkeep.wide]
    exact h.count
  pos := by
    show s'.medianPos = p.2.pushed.length % s'.rtMedianN
    rw [hkeep.pos, hkeep.wide]
    exact h.pos
  holds := by
    show Ring.Holds s'.rtMedianN 0 none p.2.slots (p.2.pushed.map some)
    rw [hkeep.wide]
    exact h.holds
  same := by
    show ∀ i v, p.2.slots i = some v → s'.medianBuf i = v
    rw [hkeep.buf]
    exact h.same

/-- After a reset nothing is held to have been written. -/
theorem Filled.reset {s : Servo} (hwide : 0 < s.rtMedianN ∧ s.rtMedianN ≤ medianN)
    (hcount : s.medianCount = 0) (hpos : s.medianPos = 0) : Filled (s, Samples.fresh) where
  wide := hwide
  count := by
    rw [hcount]
    exact (Nat.zero_min _).symm
  pos := by
    rw [hpos]
    exact (Nat.zero_mod _).symm
  holds := Ring.Holds.start _ 0 none
  same := by
    intro i v h
    cases h

theorem Filled.push (h : Filled p) (offset : Int) :
    Filled (pushMedian p.1 offset, p.2.push p.1.medianPos offset) where
  wide := h.wide
  count := by
    have hcount := h.count
    show (if p.1.medianCount < p.1.rtMedianN then p.1.medianCount + 1 else p.1.medianCount) =
      min (p.2.pushed ++ [offset]).length p.1.rtMedianN
    rw [List.length_append, List.length_singleton]
    split <;> omega
  pos := by
    show (p.1.medianPos + 1) % p.1.rtMedianN = (p.2.pushed ++ [offset]).length % p.1.rtMedianN
    rw [h.pos, List.length_append, List.length_singleton, Nat.mod_add_mod]
  holds := by
    show Ring.Holds p.1.rtMedianN 0 none (Function.update p.2.slots p.1.medianPos (some offset))
      ((p.2.pushed ++ [offset]).map some)
    have hpush := h.holds.push (some offset)
    rw [List.length_map, Nat.zero_add, ← h.pos] at hpush
    rw [List.map_append]
    exact hpush
  same := by
    intro i v hi
    show Function.update p.1.medianBuf p.1.medianPos offset i = v
    have hi' : Function.update p.2.slots p.1.medianPos (some offset) i = some v := hi
    by_cases heq : i = p.1.medianPos
    · rw [heq, Function.update_self] at hi' ⊢
      exact Option.some.inj hi'
    · rw [Function.update_of_ne heq] at hi' ⊢
      exact h.same i v hi'

/-- The slots in use were all written since the reset, and hold the last samples in some order. -/
theorem Filled.inUse (h : Filled p) :
    (∀ i < p.1.medianCount, p.2.slots i = some (p.1.medianBuf i)) ∧
      ((List.range p.1.medianCount).map p.1.medianBuf).Perm
        (p.2.pushed.drop (p.2.pushed.length - min p.2.pushed.length p.1.rtMedianN)) := by
  have hperm := h.holds.perm_newest h.wide.1
  rw [List.length_map, ← h.count, ← List.map_drop] at hperm
  have hslots : ∀ i < p.1.medianCount, p.2.slots i = some (p.1.medianBuf i) := by
    intro i hi
    have hmem : p.2.slots i ∈ (List.range p.1.medianCount).map p.2.slots :=
      List.mem_map.2 ⟨i, List.mem_range.2 hi, rfl⟩
    rcases List.mem_map.1 (hperm.mem_iff.1 hmem) with ⟨v, -, hv⟩
    rw [← hv, h.same i v hv.symm]
  refine ⟨hslots, ?_⟩
  have hmap : (List.range p.1.medianCount).map p.2.slots =
      ((List.range p.1.medianCount).map p.1.medianBuf).map some := by
    rw [List.map_map]
    exact List.map_congr_left fun i hi => hslots i (List.mem_range.1 hi)
  rw [hmap] at hperm
  rw [← h.count]
  exact (List.map_perm_map_iff (Option.some_injective Int)).1 hperm

/-- Read access by access, `median_of` finds what it reads, and returns the middle. -/
theorem medianOf_eq (h : Filled p) (offset : Int) :
    medianOf p.1 p.2.slots offset = some (filteredOf p.1 offset) := by
  have hpush := h.push offset
  rcases hpush.inUse with ⟨hslots, -⟩
  have hle : (pushMedian p.1 offset).medianCount ≤ medianN := by
    rw [hpush.count]
    exact (Nat.min_le_right _ _).trans hpush.wide.2
  have hpos : 0 < (pushMedian p.1 offset).medianCount := by
    rw [hpush.count]
    refine lt_min ?_ h.wide.1
    show 0 < (p.2.pushed ++ [offset]).length
    rw [List.length_append, List.length_singleton]
    exact Nat.succ_pos _
  have hwrite : p.1.medianPos < medianN := by
    rw [h.pos]
    exact (Nat.mod_lt _ h.wide.1).trans_le h.wide.2
  have hmid : (pushMedian p.1 offset).medianCount / 2 <
      (((List.range (pushMedian p.1 offset).medianCount).map
        (pushMedian p.1 offset).medianBuf).insertionSort (· ≤ ·)).length := by
    rw [List.length_insertionSort, List.length_map, List.length_range]
    exact Nat.div_lt_self hpos Nat.one_lt_two
  have hcount : (if p.1.medianCount < p.1.rtMedianN then p.1.medianCount + 1
      else p.1.medianCount) = (pushMedian p.1 offset).medianCount := rfl
  have hcopy : copied (Function.update p.2.slots p.1.medianPos (some offset))
      (pushMedian p.1 offset).medianCount =
        some ((List.range (pushMedian p.1 offset).medianCount).map
          (pushMedian p.1 offset).medianBuf) := copied_eq hle hslots
  rw [medianOf, writeSample, if_pos hwrite, Option.bind_eq_bind, Option.bind_some]
  dsimp only
  rw [hcount, hcopy, Option.bind_eq_bind, Option.bind_some, InsertSort.insertSort_eq,
    Option.bind_some, List.getElem?_eq_getElem hmid, filteredOf, medianValue,
    List.getD_eq_getElem _ _ hmid]

/-- The filtered offset has the middle rank in the window. -/
theorem filteredOf_rank (h : Filled p) (offset : Int) :
    InsertSort.HasRank (window p offset) (min (p.2.pushed.length + 1) p.1.rtMedianN / 2)
      (filteredOf p.1 offset) := by
  have hpush := h.push offset
  have hlen : (p.2.push p.1.medianPos offset).pushed.length = p.2.pushed.length + 1 := by
    show (p.2.pushed ++ [offset]).length = _
    rw [List.length_append, List.length_singleton]
  have hcount : (pushMedian p.1 offset).medianCount =
      min (p.2.pushed.length + 1) p.1.rtMedianN := by
    rw [← hlen]
    exact hpush.count
  have hpos : 0 < min (p.2.pushed.length + 1) p.1.rtMedianN := lt_min (Nat.succ_pos _) h.wide.1
  have hperm := hpush.inUse.2
  rw [hlen] at hperm
  rw [filteredOf, medianValue, hcount]
  rw [hcount] at hperm
  refine (InsertSort.hasRank_insertionSort _ ?_ 0).perm hperm
  rw [List.length_map, List.length_range]
  exact Nat.div_lt_self hpos Nat.one_lt_two

end Push

/-! ## Runs -/

section Runs

variable {s : Servo} {p : Servo × Samples} {t1 t2 : Timestamp} {offset : Int} {now : UInt32}

/-- On the way through the filter nothing but the push touches the buffer. -/
theorem servoUpdate_pushes (t1 t2 : Timestamp) (now : UInt32) (h : filters s offset = true) :
    KeepsFilter (pushMedian s offset) (servoUpdate s t1 t2 offset now).1 := by
  rcases integrate_eq (pushMedian (recordOffset s offset) offset) (filteredOf s offset) with
    ⟨fi, num, hint⟩
  cases hspike : isSpike s (filteredOf s offset) with
  | true =>
      rw [servoUpdate_of_spike h hspike, hint]
      exact ⟨rfl, rfl, rfl, rfl⟩
  | false =>
      rcases streaks_eq (steered s offset) (filteredOf s offset) now with
        ⟨unlock, lock, locked, cfg, hstreaks⟩
      rw [servoUpdate_of_filters h hspike, hstreaks, steered, hint]
      exact ⟨rfl, rfl, rfl, rfl⟩

/-- Off that way an update resets the filter if it moves the clock, and leaves it alone if not. -/
theorem servoUpdate_resets (t1 t2 : Timestamp) (now : UInt32) (h : filters s offset = false) :
    if stepsClock s (.measure t1 t2 offset now) then
      (servoUpdate s t1 t2 offset now).1.medianCount = 0 ∧
        (servoUpdate s t1 t2 offset now).1.medianPos = 0 ∧
        (servoUpdate s t1 t2 offset now).1.rtMedianN = s.rtMedianN
    else KeepsFilter s (servoUpdate s t1 t2 offset now).1 := by
  show if (servoUpdate s t1 t2 offset now).2.any Tsu.stepsClock then _ else _
  rcases servoUpdate_off_eq t1 t2 now h with ⟨-, heq⟩ | ⟨-, -, heq⟩ | ⟨-, -, heq⟩
  · rw [heq]
    exact ⟨rfl, rfl, rfl⟩
  · rcases acquire_cases (recordOffset s offset) t1 t2 offset with
      ⟨base1, base2, have', hacquire⟩ | ⟨fi, addend, hacquire⟩
    · rw [heq, hacquire]
      exact ⟨rfl, rfl, rfl, rfl⟩
    · rw [heq, hacquire]
      exact ⟨rfl, rfl, rfl⟩
  · rw [heq]
    exact ⟨rfl, rfl, rfl⟩

theorem delayResp_keeps (s : Servo) (d : Int) : KeepsFilter s (delayResp s d) := by
  unfold delayResp acceptDelay delaySample
  split_ifs <;> exact ⟨rfl, rfl, rfl, rfl⟩

theorem firstSync_keeps (s : Servo) (now : UInt32) : KeepsFilter s (firstSync s now) := by
  unfold firstSync
  split_ifs <;> exact ⟨rfl, rfl, rfl, rfl⟩

theorem filled_measure (h : Filled p) (t1 t2 : Timestamp) (offset : Int) (now : UInt32) :
    Filled (sampled p (.measure t1 t2 offset now)) := by
  show Filled ((servoUpdate p.1 t1 t2 offset now).1,
    nextSamples p.1 (.measure t1 t2 offset now) p.2)
  rw [nextSamples]
  cases hf : filters p.1 offset with
  | true =>
      rw [if_pos rfl]
      exact (h.push offset).keep (servoUpdate_pushes t1 t2 now hf)
  | false =>
      have hrest := servoUpdate_resets t1 t2 now hf
      rw [if_neg Bool.false_ne_true]
      split at hrest
      · rename_i hstep
        rcases hrest with ⟨hcount, hpos, hwide⟩
        rw [if_pos hstep]
        exact Filled.reset (hwide ▸ h.wide) hcount hpos
      · rename_i hstep
        rw [if_neg hstep]
        exact h.keep hrest

theorem clampMedianN_range (n : Nat) : 0 < clampMedianN n ∧ clampMedianN n ≤ medianN := by
  unfold clampMedianN
  split
  · decide
  rename_i hlow
  split
  · decide
  · rename_i hhigh
    exact ⟨Nat.not_lt.1 hlow, Nat.not_lt.1 hhigh⟩

theorem filled_step (h : Filled p) (e : Event) : Filled (sampled p e) := by
  cases e with
  | measure t1 t2 offset now => exact filled_measure h t1 t2 offset now
  | delay d => exact h.keep (delayResp_keeps p.1 d)
  | tune n kiNum exact => exact Filled.reset (clampMedianN_range n) rfl rfl
  | sync now => exact h.keep (firstSync_keeps p.1 now)

theorem filled_init (cfgAddend : Option Int) : Filled (init cfgAddend, Samples.fresh) := by
  have hcold : (init cfgAddend).rtMedianN = medianN ∧ (init cfgAddend).medianCount = 0 ∧
      (init cfgAddend).medianPos = 0 := by
    unfold init
    cases cfgAddend with
    | none => exact ⟨rfl, rfl, rfl⟩
    | some warm =>
        dsimp only
        split <;> exact ⟨rfl, rfl, rfl⟩
  refine Filled.reset ?_ hcold.2.1 hcold.2.2
  rw [hcold.1]
  decide

/-- In every run, an update that gets to the filter reads nothing of the buffer but what was
written since the last reset, and steers by the element of middle rank among the last
`min(samples since reset, window)` offsets. -/
theorem median_filter (cfgAddend : Option Int) (es : List Event) :
    Along sampled (fun p e => ∀ t1 t2 offset now, e = .measure t1 t2 offset now →
        filters p.1 offset = true →
          medianOf p.1 p.2.slots offset = some (filteredOf p.1 offset) ∧
            servoUpdate p.1 t1 t2 offset now = track (recordOffset p.1 offset) offset now ∧
            (window p offset).length = min (p.2.pushed.length + 1) p.1.rtMedianN ∧
            InsertSort.HasRank (window p offset)
              (min (p.2.pushed.length + 1) p.1.rtMedianN / 2) (filteredOf p.1 offset))
      (init cfgAddend, Samples.fresh) es := by
  have hall : Along sampled (fun _ _ => True) (init cfgAddend, Samples.fresh) es :=
    Along.of_forall (fun _ _ => trivial) es _
  have hrun := hall.strengthen (P := Filled) (fun p e _ h => filled_step h e)
    (filled_init cfgAddend)
  refine hrun.mono fun p e h t1 t2 offset now _ hf => ?_
  refine ⟨medianOf_eq h.2 offset, servoUpdate_eq_track hf, ?_, filteredOf_rank h.2 offset⟩
  rw [window, List.length_drop, List.length_append, List.length_singleton]
  omega

end Runs

end Ptpv1
end Firmware
end InfernoFpga
