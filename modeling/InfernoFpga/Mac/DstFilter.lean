import InfernoFpga.Mac.RxGate

/-!
# DstFilter — the allow-list of the gate against the one of `dispatch_rx`

`dispatch_rx` looks at the first six bytes of a stored frame and drops the groups it does not
need.  The gate drops by its own list before a frame is stored.  Arming it must not take anything
away from the software, and for every group address but one family it does not.
-/

namespace InfernoFpga
namespace Mac

open Lib

/-! ## The software filter -/

/-- The early drop of `dispatch_rx`, on the bytes of the slot: `true` keeps the frame. -/
def dispatchKeeps (d : Nat → Octet) : Bool :=
  if d 0 &&& 0x01 != 0 then
    if d 0 == 0xFF && d 1 == 0xFF && d 2 == 0xFF then true
    else if d 0 == 0x01 && d 1 == 0x00 && d 2 == 0x5E then
      if d 3 == 0x00 && d 4 == 0x00 then true
      else d 3 == 0x00 && d 4 == 0x01 && d 5 == 0x81
    else d 0 == 0x01 && d 1 == 0x80 && d 2 == 0xC2
  else true

namespace Received

/-- Byte `k` of the frame in its slot. -/
def byte (f : Received) (k : Nat) : Octet := (frameBytes f.beats).getD k 0

/-- The lowest bit of the first byte marks a group address. -/
def Group (f : Received) : Prop := f.byte 0 &&& 0x01 ≠ 0

instance (f : Received) : Decidable f.Group := inferInstanceAs (Decidable (_ ≠ _))

/-- An address that begins like broadcast, and that the gate has no entry for. -/
def FalseBroadcast (f : Received) : Prop :=
  (f.byte 0 = 0xFF ∧ f.byte 1 = 0xFF ∧ f.byte 2 = 0xFF) ∧ f.dst ≠ macBroadcast ∧
    f.dst ≠ f.csr.localMac ∧ ∀ p ∈ f.csr.spares, p.1 ++ p.2 ≠ 0 → f.dst ≠ p.1 ++ p.2

instance (f : Received) : Decidable f.FalseBroadcast :=
  inferInstanceAs (Decidable (_ ∧ _ ∧ _ ∧ ∀ _ ∈ _, _))

end Received

/-! ## Masked comparisons byte by byte -/

section Masks

theorem append_eq_append_iff {v w : Nat} {x x' : BitVec v} {y y' : BitVec w} :
    x ++ y = x' ++ y' ↔ x = x' ∧ y = y' := by
  refine ⟨fun h => ⟨?_, ?_⟩, fun h => by rw [h.1, h.2]⟩
  · have hhigh := congrArg (BitVec.extractLsb' w v) h
    simpa only [BitVec.extractLsb'_append_eq_left] using hhigh
  · have hlow := congrArg (BitVec.extractLsb' 0 w) h
    simpa only [BitVec.extractLsb'_append_eq_right] using hlow

/-- An address from its six bytes, the first one on the wire most significant. -/
def macOf (a b c d e f : Octet) : MacAddr := a ++ b ++ c ++ d ++ e ++ f

variable {a b c d e f a' b' c' d' e' f' : Octet}

theorem macOf_inj : macOf a b c d e f = macOf a' b' c' d' e' f' ↔
    a = a' ∧ b = b' ∧ c = c' ∧ d = d' ∧ e = e' ∧ f = f' := by
  show (a ++ b ++ c ++ d ++ e ++ f : BitVec (8 + 8 + 8 + 8 + 8 + 8)) =
    a' ++ b' ++ c' ++ d' ++ e' ++ f' ↔ _
  simp only [append_eq_append_iff, and_assoc]

theorem macOf_and : macOf a b c d e f &&& macOf a' b' c' d' e' f' =
    macOf (a &&& a') (b &&& b') (c &&& c') (d &&& d') (e &&& e') (f &&& f') := by
  show (a ++ b ++ c ++ d ++ e ++ f : BitVec (8 + 8 + 8 + 8 + 8 + 8)) &&&
    (a' ++ b' ++ c' ++ d' ++ e' ++ f') = _
  simp only [BitVec.and_append]
  rfl

theorem and_ff (x : Octet) : x &&& 0xff = x := BitVec.and_allOnes

/-- Which addresses the default rules let through, byte by byte.  The first mask leaves the last
two bytes free: it is `224.0.0.0/16`, of which the comment beside it names a part. -/
theorem defaultAllowRules_iff :
    (∃ r ∈ defaultAllowRules, macOf a b c d e f &&& r.1 = r.2) ↔
      (a = 0x01 ∧ b = 0x00 ∧ c = 0x5e ∧ d = 0x00) ∨
      (a = 0x01 ∧ b = 0x00 ∧ c = 0x5e ∧ d = 0x00 ∧ e = 0x01 ∧ f = 0x81) ∨
      (a = 0x01 ∧ b = 0x80 ∧ c = 0xc2) := by
  have hrules : defaultAllowRules =
      [(macOf 0xff 0xff 0xff 0xff 0 0, macOf 0x01 0x00 0x5e 0x00 0x00 0x00),
        (macOf 0xff 0xff 0xff 0xff 0xff 0xff, macOf 0x01 0x00 0x5e 0x00 0x01 0x81),
        (macOf 0xff 0xff 0xff 0 0 0, macOf 0x01 0x80 0xc2 0x00 0x00 0x00)] := by decide
  have hzero : ∀ x : Octet, x &&& 0 = 0 := fun _ => BitVec.and_zero
  simp only [hrules, List.mem_cons, List.not_mem_nil, or_false, exists_eq_or_imp, exists_eq_left,
    macOf_and, macOf_inj, and_ff, hzero, and_true]

end Masks

/-! ## What the software keeps and the gate drops -/

section Filters

variable {f : Received}

theorem dst_eq (f : Received) :
    f.dst = macOf (f.byte 0) (f.byte 1) (f.byte 2) (f.byte 3) (f.byte 4) (f.byte 5) := rfl

/-- What the software keeps of the groups begins like broadcast or meets a rule of the gate. -/
theorem rule_of_keeps (hgroup : f.Group) (hkeep : dispatchKeeps f.byte = true) :
    (f.byte 0 = 0xFF ∧ f.byte 1 = 0xFF ∧ f.byte 2 = 0xFF) ∨
      ∃ r ∈ defaultAllowRules, f.dst &&& r.1 = r.2 := by
  have hgroup' : (f.byte 0 &&& 0x01 != 0) = true := bne_iff_ne.2 hgroup
  rw [dispatchKeeps, if_pos hgroup'] at hkeep
  rw [dst_eq, defaultAllowRules_iff]
  split at hkeep
  · rename_i hff
    simp only [Bool.and_eq_true, beq_iff_eq, and_assoc] at hff
    exact .inl hff
  · split at hkeep
    · rename_i hip
      simp only [Bool.and_eq_true, beq_iff_eq, and_assoc] at hip
      have hzero : f.byte 3 = 0x00 := by
        split at hkeep
        · rename_i hlocal
          simp only [Bool.and_eq_true, beq_iff_eq] at hlocal
          exact hlocal.1
        · simp only [Bool.and_eq_true, beq_iff_eq, and_assoc] at hkeep
          exact hkeep.1
      exact .inr (.inl ⟨hip.1, hip.2.1, hip.2.2, hzero⟩)
    · simp only [Bool.and_eq_true, beq_iff_eq, and_assoc] at hkeep
      exact .inr (.inr (.inr hkeep))

theorem keeps_of_false_broadcast (hff : f.byte 0 = 0xFF ∧ f.byte 1 = 0xFF ∧ f.byte 2 = 0xFF) :
    dispatchKeeps f.byte = true := by
  simp [dispatchKeeps, hff]

/-- A false broadcast meets no rule of the gate. -/
theorem not_admitted_iff (hff : f.byte 0 = 0xFF ∧ f.byte 1 = 0xFF ∧ f.byte 2 = 0xFF) :
    ¬ f.Admitted defaultAllowRules ↔ f.FalseBroadcast := by
  have hnone : ¬ ∃ r ∈ defaultAllowRules, f.dst &&& r.1 = r.2 := by
    rw [dst_eq, defaultAllowRules_iff, hff.1]
    simp
  constructor
  · intro h
    refine ⟨hff, fun hb => h (.inl hb), fun hl => h (.inr (.inl hl)), fun p hp hne hd => ?_⟩
    exact h (.inr (.inr (.inr ⟨p, hp, hne, hd⟩)))
  · rintro ⟨-, hb, hl, hspare⟩ (h | h | h | ⟨p, hp, hne, hd⟩)
    · exact hb h
    · exact hl h
    · exact hnone h
    · exact hspare p hp hne hd

/-- Among the groups the gate admits all that the software keeps, but for false broadcasts. -/
theorem admits_kept_iff (hgroup : f.Group) :
    (dispatchKeeps f.byte = true → f.Admitted defaultAllowRules) ↔ ¬ f.FalseBroadcast := by
  constructor
  · intro h hfalse
    exact (not_admitted_iff hfalse.1).2 hfalse (h (keeps_of_false_broadcast hfalse.1))
  · intro hfalse hkeep
    rcases rule_of_keeps hgroup hkeep with hff | hrule
    · by_contra hnot
      exact hfalse ((not_admitted_iff hff).1 hnot)
    · exact .inr (.inr (.inl hrule))

end Filters

/-! ## The inclusion and where it fails -/

/-- For any received frame with a group destination, behind any run with stable CSRs, and any
local address and spare slots: the armed gate lets through what `dispatch_rx` keeps, unless the
frame has five beats and its destination begins `ff:ff:ff` without being broadcast, the local
address or a spare slot. -/
theorem gate_keeps_iff (nSpare : Nat) (is : List GateInput) (i : GateInput)
    (h : Along (gateWatched defaultAllowRules) CsrStable (Gate.reset, GateLog.start nSpare)
      (is ++ [i])) :
    let x := run (gateWatched defaultAllowRules) (Gate.reset, GateLog.start nSpare) is
    let f := x.2.ending i
    eof i = true → f.Armed → f.Group →
      ((dispatchKeeps f.byte = true → discard x.1 = false) ↔
        ¬ (f.Classified ∧ f.FalseBroadcast)) := by
  intro x f _ harmed hgroup
  rw [Along.append_iff, Along.cons_iff] at h
  have hx : Gated defaultAllowRules x := gated_run h.1
  have hdiscard : discard x.1 = false ↔ (f.Classified → f.Admitted defaultAllowRules) := by
    have hiff : discard x.1 = true ↔ f.Refused defaultAllowRules ∧ f.Armed :=
      discard_iff hx.latched h.2.1
    rw [← Bool.not_eq_true, hiff]
    constructor
    · intro hpass hlong
      by_contra hnot
      exact hpass ⟨⟨hlong, hnot⟩, harmed⟩
    · rintro hadm ⟨⟨hlong, hnot⟩, -⟩
      exact hnot (hadm hlong)
  have hkeep := admits_kept_iff hgroup
  rw [hdiscard]
  constructor
  · rintro hpass ⟨hlong, hfalse⟩
    exact hkeep.1 (fun hk => hpass hk hlong) hfalse
  · intro hnot hk hlong
    exact hkeep.2 (fun hfalse => hnot ⟨hlong, hfalse⟩) hk

/-- Beat `k` of a five-beat frame to the given address. -/
def beatTo (d : Nat → Octet) (k : Nat) : GateInput :=
  ⟨armedCsr, true, true, k == 4,
    if k == 0 then d 3 ++ d 2 ++ d 1 ++ d 0 else if k == 1 then (0 : BitVec 16) ++ d 5 ++ d 4 else 0⟩

/-- The first four beats of the frame. -/
def beatsTo (d : Nat → Octet) : List GateInput := (List.range 4).map (beatTo d)

/-- ff:ff:ff:00:00:01. -/
def falseBroadcast (k : Nat) : Octet := [0xff, 0xff, 0xff, 0, 0, 1].getD k 0

/-- 224.0.0.1 as a group address. -/
def allHosts (k : Nat) : Octet := [0x01, 0x00, 0x5e, 0, 0, 1].getD k 0

theorem gate_keeps_all_hosts :
    dispatchKeeps allHosts = true ∧
      discard (run (gateWatched defaultAllowRules) (Gate.reset, GateLog.start 2)
        (beatsTo allHosts)).1 = false := by
  have hkeep : dispatchKeeps allHosts = true := by decide
  have hiff := gate_keeps_iff 2 (beatsTo allHosts) (beatTo allHosts 4) (by decide +kernel) rfl
    (by decide +kernel) (by decide +kernel)
  exact ⟨hkeep, hiff.2 (by decide +kernel) (by decide +kernel)⟩

/-- The software takes ff:ff:ff:00:00:01 for broadcast, and the gate drops it. -/
theorem gate_drops_false_broadcast :
    ∃ is i, Along (gateWatched defaultAllowRules) CsrStable (Gate.reset, GateLog.start 2)
        (is ++ [i]) ∧
      let x := run (gateWatched defaultAllowRules) (Gate.reset, GateLog.start 2) is
      eof i = true ∧ (x.2.ending i).Armed ∧ (x.2.ending i).Group ∧
        dispatchKeeps (x.2.ending i).byte = true ∧ discard x.1 = true :=
  ⟨beatsTo falseBroadcast, beatTo falseBroadcast 4, by decide +kernel, rfl, by decide +kernel,
    by decide +kernel, by decide +kernel, by decide +kernel⟩

end Mac
end InfernoFpga
