import InfernoFpga.Firmware.PtpSlave

/-!
# PtpPairing — which Sync an offset was measured on

Only the sequence number of a Follow_Up is compared with the Sync being held, not its source.  The
pairs handed to the servo are those of one clock exactly as long as no other clock's Follow_Up
arrives with the number that is awaited, and no Sync carries its own origin time.
-/

namespace InfernoFpga
namespace Firmware
namespace Ptpv1

open Lib

/-- The receive time of a Sync and the origin time of the Follow_Up that belongs to it. -/
def Paired (x : Arrival × Origin) : Prop :=
  x.2.followUp = true ∧ x.2.uuid = x.1.uuid ∧ x.2.seq = x.1.seq

/-- A message that is handled at all. -/
def Accepted (s : Slave) (d : Datagram) : Prop := d.headerOk = true ∧ d.uuid ≠ s.ourUuid

/-- A Sync that carries its own origin time. -/
def OneStepSync (s : Slave) (d : Datagram) : Prop :=
  Accepted s d ∧ d.ctrl = ctrlSync ∧ 8 ≤ d.blen ∧ d.isTwoStep = false

/-- A Follow_Up with the number that is awaited. -/
def AwaitedFollowUp (s : Slave) (d : Datagram) : Prop :=
  Accepted s d ∧ d.ctrl = ctrlFollowup ∧ followupBodyLen ≤ d.blen ∧ s.awaitingFollowup = true ∧
    d.associatedSeq = s.pendingSyncSeq

instance (s : Slave) (d : Datagram) : Decidable (Accepted s d) :=
  inferInstanceAs (Decidable (_ ∧ _))

instance (s : Slave) (d : Datagram) : Decidable (OneStepSync s d) :=
  inferInstanceAs (Decidable (_ ∧ _))

instance (s : Slave) (d : Datagram) : Decidable (AwaitedFollowUp s d) :=
  inferInstanceAs (Decidable (_ ∧ _))

/-- No Sync carries its own origin time, and a Follow_Up with the number that is awaited comes
from the clock that sent the last Sync. -/
def OwnFollowUps (s : Slave) : PtpEvent → Prop
  | .rx d _ _ _ => ¬ OneStepSync s d ∧ (AwaitedFollowUp s d → d.uuid = s.masterUuid)
  | _ => True

/-! ## What a step hands to the servo -/

/-- The Sync being held is the last one, and no origin time is held without being used. -/
structure Holding (s : Slave) : Prop where
  noT1 : s.haveT1 = false
  haveT2 : s.awaitingFollowup = true → s.haveT2 = true
  uuid : s.awaitingFollowup = true → s.t2.uuid = s.masterUuid
  seq : s.awaitingFollowup = true → s.t2.seq = s.pendingSyncSeq

/-- The pair a step hands to the servo. -/
def newPairs (s : Slave) : PtpEvent → List (Arrival × Origin)
  | .rx d rxTime late _ =>
      if OneStepSync s d then
        [(⟨rxTime, d.uuid, d.seq, s.moves - late⟩, ⟨d.timestamp hdrLen, false, d.uuid, d.seq⟩)]
      else if AwaitedFollowUp s d then
        [(s.t2, ⟨d.timestamp (hdrLen + 4), true, d.uuid, d.associatedSeq⟩)]
      else []
  | _ => []

section Steps

variable {s : Slave} {d : Datagram}

/-- A message that is not accepted changes nothing. -/
theorem ptpv1Rx_ignored (h : ¬ Accepted s d) (rxTime : Timestamp) (late : Nat) (now : UInt32) :
    ptpv1Rx s d rxTime late now = s := by
  rw [ptpv1Rx, if_pos]
  by_cases hhdr : d.headerOk = true
  · have huuid : d.uuid = s.ourUuid := by
      by_contra hne
      exact h ⟨hhdr, hne⟩
    simp [huuid]
  · simp [hhdr]

theorem ptpv1Rx_accepted (h : Accepted s d) (rxTime : Timestamp) (late : Nat) (now : UInt32) :
    ptpv1Rx s d rxTime late now =
      if d.ctrl = ctrlSync then syncRx s d rxTime late now
      else if d.ctrl = ctrlFollowup then followupRx s d now
      else if d.ctrl = ctrlDelayResp then delayRespRx s d
      else { s with rxOther := s.rxOther + 1 } := by
  rw [ptpv1Rx, if_neg]
  simp [h.1, h.2]

/-- The one pair of a resolved Sync. -/
theorem tryComputeOffset_both (h1 : s.haveT1 = true) (h2 : s.haveT2 = true) (now : UInt32) :
    (tryComputeOffset s now).handed = s.handed ++ [(s.t2, s.t1)] ∧
      (tryComputeOffset s now).haveT1 = false ∧
      (tryComputeOffset s now).awaitingFollowup = s.awaitingFollowup := by
  rw [tryComputeOffset, h1, h2]
  exact ⟨rfl, rfl, rfl⟩

end Steps

/-! ## Steps that touch no pair -/

/-- What pairing reads is as it was. -/
structure KeepsPair (s s' : Slave) : Prop where
  handed : s'.handed = s.handed
  haveT1 : s'.haveT1 = s.haveT1
  haveT2 : s'.haveT2 = s.haveT2
  awaiting : s'.awaitingFollowup = s.awaitingFollowup
  t2 : s'.t2 = s.t2
  masterUuid : s'.masterUuid = s.masterUuid
  pendingSyncSeq : s'.pendingSyncSeq = s.pendingSyncSeq

theorem KeepsPair.refl (s : Slave) : KeepsPair s s := ⟨rfl, rfl, rfl, rfl, rfl, rfl, rfl⟩

theorem KeepsPair.holding {s s' : Slave} (h : KeepsPair s s') (hs : Holding s) : Holding s' := by
  constructor
  · rw [h.haveT1]
    exact hs.noT1
  · rw [h.awaiting, h.haveT2]
    exact hs.haveT2
  · rw [h.awaiting, h.t2, h.masterUuid]
    exact hs.uuid
  · rw [h.awaiting, h.t2, h.pendingSyncSeq]
    exact hs.seq

theorem keepsPair_useResp (s : Slave) (d : Datagram) : KeepsPair s (useResp s d) := by
  rw [useResp]
  split <;> exact ⟨rfl, rfl, rfl, rfl, rfl, rfl, rfl⟩

theorem keepsPair_delayRespRx (s : Slave) (d : Datagram) : KeepsPair s (delayRespRx s d) := by
  rw [delayRespRx]
  split
  · exact KeepsPair.refl s
  · dsimp only
    split
    · have hcount : KeepsPair s { s with rxDelayResp := s.rxDelayResp + 1 } :=
        ⟨rfl, rfl, rfl, rfl, rfl, rfl, rfl⟩
      rcases keepsPair_useResp { s with rxDelayResp := s.rxDelayResp + 1 } d with
        ⟨hlog, h1, h2, haw, ht2, huuid, hseq⟩
      exact ⟨hlog, h1, h2, haw, ht2, huuid, hseq⟩
    · exact ⟨rfl, rfl, rfl, rfl, rfl, rfl, rfl⟩

theorem keepsPair_sendDelayReq (s : Slave) (n : Net) (txTime : Timestamp) :
    KeepsPair s (sendDelayReq s n txTime).1 := by
  simp only [sendDelayReq]
  split <;> exact ⟨rfl, rfl, rfl, rfl, rfl, rfl, rfl⟩

theorem keepsPair_ptpv1Poll (s : Slave) (n : Net) (now : UInt32) (txTime : Timestamp) :
    KeepsPair s (ptpv1Poll s n now txTime).1 := by
  rw [ptpv1Poll]
  by_cases hdue : reqDue s now = true
  · rw [if_pos hdue]
    cases hmaster : s.haveMaster with
    | true =>
        rcases keepsPair_sendDelayReq s n txTime with ⟨hlog, h1, h2, haw, ht2, huuid, hseq⟩
        exact ⟨hlog, h1, h2, haw, ht2, huuid, hseq⟩
    | false => exact ⟨rfl, rfl, rfl, rfl, rfl, rfl, rfl⟩
  · rw [if_neg hdue]
    exact KeepsPair.refl s

/-! ## Pairs and sources -/

theorem holding_boot (uuid : Mac) (cfgAddend : Option Int) : Holding (boot uuid cfgAddend) :=
  ⟨rfl, fun h => Bool.noConfusion h, fun h => Bool.noConfusion h, fun h => Bool.noConfusion h⟩

/-- What a message hands to the servo, and what is held afterwards. -/
def PairsWith (s s' : Slave) (e : PtpEvent) : Prop :=
  s'.handed = s.handed ++ newPairs s e ∧ Holding s'

section Messages

variable {s : Slave} (hs : Holding s) {d : Datagram} (rxTime : Timestamp) (late : Nat)
  (now : UInt32)

include hs

/-- A message that belongs to no pair. -/
theorem pairsWith_of_keeps {s' : Slave} (h : KeepsPair s s') (hsync : ¬ OneStepSync s d)
    (hfu : ¬ AwaitedFollowUp s d) : PairsWith s s' (.rx d rxTime late now) := by
  refine ⟨?_, h.holding hs⟩
  rw [newPairs, if_neg hsync, if_neg hfu, List.append_nil, h.handed]

theorem pairsWith_syncRx (hacc : Accepted s d) (hctrl : d.ctrl = ctrlSync) :
    PairsWith s (syncRx s d rxTime late now) (.rx d rxTime late now) := by
  have hnofu : ¬ AwaitedFollowUp s d := fun h => absurd (hctrl.symm.trans h.2.1) (by decide)
  rw [syncRx]
  by_cases hlen : d.blen < 8
  · rw [if_pos hlen]
    exact pairsWith_of_keeps hs rxTime late now (KeepsPair.refl s)
      (fun h => absurd h.2.2.1 (by omega)) hnofu
  · rw [if_neg hlen]
    by_cases htwo : d.isTwoStep = true
    · -- the Sync is held until its Follow_Up comes
      have hnoone : ¬ OneStepSync s d := fun h => by
        rw [h.2.2.2] at htwo
        cases htwo
      simp only [if_pos htwo]
      refine ⟨?_, rfl, fun _ => rfl, fun _ => rfl, fun _ => rfl⟩
      rw [newPairs, if_neg hnoone, if_neg hnofu, List.append_nil]
      rfl
    · have hone : OneStepSync s d := ⟨hacc, hctrl, by omega, Bool.eq_false_iff.2 htwo⟩
      simp only [if_neg htwo]
      have hpair := tryComputeOffset_both (s := { holdSync s d rxTime late now with
        t1 := ⟨d.timestamp hdrLen, false, d.uuid, d.seq⟩
        haveT1 := true
        awaitingFollowup := false }) rfl rfl now
      refine ⟨?_, hpair.2.1, ?_, ?_, ?_⟩
      · rw [hpair.1, newPairs, if_pos hone]
        rfl
      all_goals
        intro h
        rw [hpair.2.2] at h
        cases h

theorem pairsWith_followupRx (hacc : Accepted s d) (hctrl : d.ctrl = ctrlFollowup) :
    PairsWith s (followupRx s d now) (.rx d rxTime late now) := by
  have hnoone : ¬ OneStepSync s d := fun h => absurd (hctrl.symm.trans h.2.1) (by decide)
  rw [followupRx]
  by_cases hlen : d.blen < followupBodyLen
  · rw [if_pos hlen]
    exact pairsWith_of_keeps hs rxTime late now (KeepsPair.refl s) hnoone
      (fun h => absurd h.2.2.1 (by omega))
  · rw [if_neg hlen]
    by_cases haw : s.awaitingFollowup = true
    · by_cases hseq : d.associatedSeq = s.pendingSyncSeq
      · have hfu : AwaitedFollowUp s d := ⟨hacc, hctrl, by omega, haw, hseq⟩
        rw [if_neg (by simp [haw]), if_neg (by simp [hseq])]
        have hpair := tryComputeOffset_both (s := { s with
          rxFollowup := s.rxFollowup + 1
          t1 := ⟨d.timestamp (hdrLen + 4), true, d.uuid, d.associatedSeq⟩
          haveT1 := true
          awaitingFollowup := false }) rfl (hs.haveT2 haw) now
        refine ⟨?_, hpair.2.1, ?_, ?_, ?_⟩
        · rw [hpair.1, newPairs, if_neg hnoone, if_pos hfu]
        all_goals
          intro h
          rw [hpair.2.2] at h
          cases h
      · rw [if_neg (by simp [haw]), if_pos hseq]
        exact pairsWith_of_keeps hs rxTime late now ⟨rfl, rfl, rfl, rfl, rfl, rfl, rfl⟩ hnoone
          (fun h => hseq h.2.2.2.2)
    · rw [if_pos (by simp [haw])]
      exact pairsWith_of_keeps hs rxTime late now ⟨rfl, rfl, rfl, rfl, rfl, rfl, rfl⟩ hnoone
        (fun h => haw h.2.2.2.1)

theorem pairsWith_ptpv1Rx (d : Datagram) :
    PairsWith s (ptpv1Rx s d rxTime late now) (.rx d rxTime late now) := by
  by_cases hacc : Accepted s d
  · rw [ptpv1Rx_accepted hacc]
    by_cases hsync : d.ctrl = ctrlSync
    · rw [if_pos hsync]
      exact pairsWith_syncRx hs rxTime late now hacc hsync
    · rw [if_neg hsync]
      by_cases hfu : d.ctrl = ctrlFollowup
      · rw [if_pos hfu]
        exact pairsWith_followupRx hs rxTime late now hacc hfu
      · have hnoone : ¬ OneStepSync s d := fun h => hsync h.2.1
        have hnofu : ¬ AwaitedFollowUp s d := fun h => hfu h.2.1
        rw [if_neg hfu]
        split
        · exact pairsWith_of_keeps hs rxTime late now (keepsPair_delayRespRx s d) hnoone hnofu
        · exact pairsWith_of_keeps hs rxTime late now ⟨rfl, rfl, rfl, rfl, rfl, rfl, rfl⟩ hnoone
            hnofu
  · rw [ptpv1Rx_ignored hacc]
    exact pairsWith_of_keeps hs rxTime late now (KeepsPair.refl s) (fun h => hacc h.1)
      (fun h => hacc h.1)

end Messages

/-- One step: what it hands to the servo, and what is held afterwards. -/
theorem step_pairs {s : Slave} (hs : Holding s) (e : PtpEvent) :
    PairsWith s (slaveStep s e) e := by
  cases e with
  | rx d rxTime late now => exact pairsWith_ptpv1Rx hs rxTime late now d
  | poll n now txTime =>
      have hkeeps := keepsPair_ptpv1Poll s n now txTime
      exact ⟨hkeeps.handed.trans (List.append_nil _).symm, hkeeps.holding hs⟩
  | tuning n ki exact =>
      exact ⟨(List.append_nil _).symm, hs.noT1, hs.haveT2, hs.uuid, hs.seq⟩

/-- A step's pair is a Sync's own pair exactly under the guard. -/
theorem newPairs_paired {s : Slave} (hs : Holding s) (e : PtpEvent) :
    (∀ x ∈ newPairs s e, Paired x) ↔ OwnFollowUps s e := by
  cases e with
  | rx d rxTime late now =>
      by_cases hone : OneStepSync s d
      · rw [newPairs, if_pos hone]
        refine ⟨fun h => ?_, fun h => absurd hone h.1⟩
        cases (h _ (List.mem_cons_self ..)).1
      · rw [newPairs, if_neg hone]
        by_cases hfu : AwaitedFollowUp s d
        · rw [if_pos hfu, List.forall_mem_singleton]
          have haw := hfu.2.2.2.1
          constructor
          · intro h
            exact ⟨hone, fun _ => h.2.1.trans (hs.uuid haw)⟩
          · intro h
            exact ⟨rfl, (h.2 hfu).trans (hs.uuid haw).symm,
              hfu.2.2.2.2.trans (hs.seq haw).symm⟩
        · rw [if_neg hfu]
          exact ⟨fun _ => ⟨hone, fun h => absurd h hfu⟩, fun _ _ hx => by cases hx⟩
  | poll n now txTime => exact ⟨fun _ => trivial, fun _ _ hx => by cases hx⟩
  | tuning n ki exact => exact ⟨fun _ => trivial, fun _ _ hx => by cases hx⟩

/-- Over any run from boot, every pair handed to the servo is a Sync and its own Follow_Up iff
every Follow_Up that was awaited came from the clock that sent the Sync. -/
theorem pairing_iff (uuid : Mac) (cfgAddend : Option Int) (es : List PtpEvent) :
    (∀ x ∈ (run slaveStep (boot uuid cfgAddend) es).handed, Paired x) ↔
      Along slaveStep OwnFollowUps (boot uuid cfgAddend) es := by
  have hlog := log_iff_along Slave.handed Paired
    (fun s e hs => (step_pairs hs e).1) (fun s e hs => (step_pairs hs e).2)
    (fun s e hs => newPairs_paired hs e) es (holding_boot uuid cfgAddend)
  rw [hlog]
  exact and_iff_right fun x hx => by cases hx

/-! ## Two leaders with one number -/

instance (x : Arrival × Origin) : Decidable (Paired x) := inferInstanceAs (Decidable (_ ∧ _ ∧ _))

/-- A message of a clock, with its body. -/
def ptpMessage (uuid : Mac) (seq : Nat) (ctrl flags : UInt8) (body : List UInt8) : Datagram :=
  let bytes := Mem.be16 1 ++ Mem.be16 1 ++ [0x5F, 0x44, 0x46, 0x4C, 0x54] ++
    List.replicate 11 0 ++ [portTypeEvent, 1] ++ uuid.bytes ++ Mem.be16 1 ++ Mem.be16 seq ++
    [ctrl, 0, 0, flags, 0, 0, 0, 0] ++ body
  ⟨fun x => bytes.getD x 0, bytes.length⟩

def leaderA : Mac := ⟨0x00, 0x1d, 0xc1, 0x00, 0x00, 0x0a⟩

def leaderB : Mac := ⟨0x00, 0x1d, 0xc1, 0x00, 0x00, 0x0b⟩

def ourMac : Mac := ⟨0x02, 0, 0, 0, 0, 0x42⟩

/-- A two-step Sync of leader A, then a Follow_Up of leader B for its own Sync of that number. -/
def crossedRun : List PtpEvent :=
  [.rx (ptpMessage leaderA 5 ctrlSync flagPtpAssist (List.replicate syncBodyLen 0)) ⟨100, 0⟩ 0 1000,
    .rx (ptpMessage leaderB 5 ctrlFollowup 0 (Mem.be16 0 ++ Mem.be16 5 ++ Mem.be32 7 ++ Mem.be32 0))
      ⟨100, 500⟩ 0 1000]

/-- The offset combines the receive time of one leader's Sync with the other's origin time. -/
theorem pairing_crosses_leaders :
    (run slaveStep (boot ourMac none) crossedRun).handed.map (fun x => (x.1.uuid, x.2.uuid)) =
        [(leaderA, leaderB)] ∧
      ¬ ∀ x ∈ (run slaveStep (boot ourMac none) crossedRun).handed, Paired x := by
  decide +kernel

end Ptpv1
end Firmware
end InfernoFpga
