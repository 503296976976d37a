import InfernoFpga.Firmware.GuardPhase
import InfernoFpga.Firmware.Paths
import InfernoFpga.Packetizer.Overtaken

/-!
# Anchor — when the timestamp that `ts_anchor` loads is exact

`ts_anchor` adds the runtime offset to the sample of the second and carries once into the
seconds.  One carry is worth one second; the offset is any 32-bit number.  Beyond what one carry
covers, `sub` leaves the second, and the counter of the gateware, which compares for equality,
runs past the second boundary.
-/

namespace InfernoFpga
namespace Firmware

open Lib
open Packetizer (Stamp stamp strobe State Input Calm countWrap)

/-! ## Setting the offset -/

/-- `'o'`: the timestamp offset of a request of the diagnostic port, if it has a number. -/
def tsOffsetKnob (q : Datagram) : Option Int :=
  if 2 ≤ q.len ∧ q.req 0 = 0x6F then
    let sign : Int := if q.req 1 = 0x2D then -1 else 1
    let i := if q.req 1 = 0x2D ∨ q.req 1 = 0x2B then 2 else 1
    let digit := (q.req i).toNat
    if i < q.len ∧ 48 ≤ digit ∧ digit ≤ 57 then
      let v := BitVec.ofNat 32 (decimal q.req (2 ^ 32) (q.len - i) i 0)
      some (sign * v.toInt)
    else none
  else none

/-! ## Exactness -/

/-- The pair denotes the sample PTP is at, moved by the offset. -/
structure Exact (a : Stamp) (ns : Nat) (offset : Int) : Prop where
  range : a.2.toNat < 48000
  value : (a.count : Int) = ptpSample ns + offset

/-- From the pair on, a strobe finds the counter at its last value within a second, and there it
wraps. -/
def WrapFires (a : Stamp) : Prop :=
  ∀ (s : State) (is : List Input), s.tsLoadPending = false → (s.tsSec, s.tsSub) = a →
    (∀ i ∈ is, Calm i) → 48000 ≤ is.countP strobe →
    ∃ before i after, is = before ++ i :: after ∧ strobe i = true ∧
      (run Packetizer.step s before).tsSub.toNat = 47999 ∧
      (run Packetizer.step s (before ++ [i])).tsSub.toNat = 0

/-- One carry covers the offset, and the seconds still fit their 32 bits. -/
def OneCarry (ns : Nat) (offset : Int) : Prop :=
  -48000 ≤ (ptpSample ns % 48000 : Nat) + offset ∧ (ptpSample ns % 48000 : Nat) + offset < 96000 ∧
    0 ≤ ptpSample ns + offset ∧ ptpSample ns + offset < countWrap

instance (ns : Nat) (offset : Int) : Decidable (OneCarry ns offset) :=
  inferInstanceAs (Decidable (_ ∧ _ ∧ _ ∧ _))

/-- A proper sample of the second counts up to the last one. -/
theorem wrapFires_of_lt {a : Stamp} (h : a.2.toNat < 48000) : WrapFires a := by
  intro s is hload htime hcalm hcount
  obtain ⟨before, i, after, hsplit, hstrobe, hbefore⟩ :=
    exists_cut_countP strobe is (47999 - a.2.toNat) (by omega)
  have hstamp : (s.tsSec, s.tsSub) = stamp a.count := by
    rw [htime, Packetizer.stamp_count h]
  have hcalm' : ∀ j ∈ before ++ [i], Calm j := fun j hj =>
    hcalm j (by rw [hsplit, List.append_cons]; exact List.mem_append_left _ hj)
  have hsub : ∀ js : List Input, (∀ j ∈ js, Calm j) →
      ((run Packetizer.step s js).tsSub.toNat : Int) =
        (a.count + js.countP strobe : Int) % 48000 := by
    intro js hjs
    have hrun := Packetizer.time_run js hload hstamp hjs
    rw [← Packetizer.stamp_snd]
    exact congrArg (fun t : Stamp => (t.2.toNat : Int)) hrun
  -- the strobe itself is the one that brings the count to a whole second
  have hlast : (before ++ [i]).countP strobe = 48000 - a.2.toNat := by
    rw [List.countP_append, hbefore, List.countP_singleton, if_pos hstrobe]
    omega
  refine ⟨before, i, after, hsplit, hstrobe, ?_, ?_⟩
  · have hval := hsub before fun j hj => hcalm' j (List.mem_append_left _ hj)
    rw [hbefore, Stamp.count] at hval
    omega
  · have hval := hsub (before ++ [i]) hcalm'
    rw [hlast, Stamp.count] at hval
    omega

/-- The anchor in whole numbers: always the sample moved by the offset, in a pair that one carry
has brought nearer to a proper one. -/
theorem anchorOf_value (ns : Nat) (offset : Int) :
    (anchorOf (ptpTime ns) offset).1 * 48000 + (anchorOf (ptpTime ns) offset).2 =
      ptpSample ns + offset := by
  have hmax : subsecMax = 48000 := rfl
  rw [ptpSample_eq]
  simp only [anchorOf, hmax]
  push_cast
  split
  · ring
  · split <;> ring

theorem exact_iff (ns : Nat) (v : BitVec 32) :
    Exact (anchorStamp (ptpTime ns) v.toInt) ns v.toInt ↔ OneCarry ns v.toInt := by
  have hlow := BitVec.le_toInt v
  have hhigh := BitVec.toInt_lt (x := v)
  have hvalue := anchorOf_value ns v.toInt
  have hmax : subsecMax = 48000 := rfl
  have hsub : (subOfNs (ptpTime ns).nanoseconds : Int) = (ptpSample ns % 48000 : Nat) := by
    have hlt : subOfNs (ptpTime ns).nanoseconds < 48000 := subOfNs_lt (Nat.mod_lt _ (by decide))
    rw [ptpSample_eq]
    omega
  have hpair : (anchorOf (ptpTime ns) v.toInt).2 =
      if (ptpSample ns % 48000 : Nat) + v.toInt < 0 then
        (ptpSample ns % 48000 : Nat) + v.toInt + 48000
      else if 48000 ≤ (ptpSample ns % 48000 : Nat) + v.toInt then
        (ptpSample ns % 48000 : Nat) + v.toInt - 48000
      else (ptpSample ns % 48000 : Nat) + v.toInt := by
    simp only [anchorOf, hmax, hsub]
    split
    · rfl
    · split <;> rfl
  have hsec : (((anchorStamp (ptpTime ns) v.toInt).1.toNat : Nat) : Int) =
      (anchorOf (ptpTime ns) v.toInt).1 % (2 ^ 32 : Nat) := toNat_wrapped _
  have hloaded : (((anchorStamp (ptpTime ns) v.toInt).2.toNat : Nat) : Int) =
      (anchorOf (ptpTime ns) v.toInt).2 % (2 ^ 32 : Nat) := toNat_wrapped _
  generalize (anchorOf (ptpTime ns) v.toInt).1 = sec at *
  generalize (anchorOf (ptpTime ns) v.toInt).2 = sub at *
  generalize anchorStamp (ptpTime ns) v.toInt = a at *
  constructor
  · rintro ⟨hrange, hcount⟩
    rw [Stamp.count] at hcount
    unfold OneCarry
    simp only [countWrap]
    split at hpair
    · omega
    · split at hpair <;> omega
  · rintro ⟨hborrow, hcarry, hpos, hfits⟩
    simp only [countWrap] at hfits
    have hproper : 0 ≤ sub ∧ sub < 48000 := by
      split at hpair
      · omega
      · split at hpair <;> omega
    refine ⟨by omega, ?_⟩
    rw [Stamp.count]
    omega

/-- For every PTP time and every offset that can be set, `ts_anchor` loads a proper pair for the
sample PTP is at, moved by the offset, and the wrap test at the second boundary fires from there
on: exactly if one carry covers the offset and the seconds fit. -/
theorem anchor_exact_iff (k : Talker) (v : BitVec 32) (ns : Nat) :
    (∃ a : Stamp, (tsAnchor { k with tsOffsetSamples := v.toInt } (ptpTime ns)).loads =
        k.loads ++ [a] ∧ Exact a ns v.toInt ∧ WrapFires a) ↔ OneCarry ns v.toInt := by
  rw [← exact_iff]
  constructor
  · rintro ⟨a, hloads, hexact, -⟩
    rw [anchorStamp_loaded] at hloads
    rw [List.singleton_inj.1 (List.append_cancel_left hloads)]
    exact hexact
  · intro h
    exact ⟨_, anchorStamp_loaded _ _, h, wrapFires_of_lt h.range⟩

/-- A request `o96000`. -/
def twoSeconds : Datagram :=
  { srcIp := ⟨0, 0, 0, 0⟩, srcPort := 0
    req := fun k => ([0x6F, 0x39, 0x36, 0x30, 0x30, 0x30] : List UInt8).getD k 0, len := 6 }

/-- Two seconds of offset leave a whole second in `sub`, so the counter never comes to the value
that its wrap test compares with. -/
theorem anchor_overshoots :
    tsOffsetKnob twoSeconds = some 96000 ∧
      anchorStamp (ptpTime (10 ^ 9)) 96000 = (2, 48000) ∧
      ¬ ∃ a : Stamp, (tsAnchor { Talker.boot (Tx.boot ⟨0, 0, 0, 0⟩ ⟨0, 0, 0, 0, 0, 0⟩) with
          tsOffsetSamples := (96000#32).toInt } (ptpTime (10 ^ 9))).loads = [] ++ [a] ∧
        Exact a (10 ^ 9) (96000#32).toInt ∧ WrapFires a := by
  have hpair : anchorStamp (ptpTime (10 ^ 9)) (96000#32).toInt = (2, 48000) := by decide
  refine ⟨by decide, hpair, ?_⟩
  rintro ⟨a, hloads, ⟨hrange, -⟩, -⟩
  rw [anchorStamp_loaded] at hloads
  have ha : anchorStamp (ptpTime (10 ^ 9)) (96000#32).toInt = a :=
    List.singleton_inj.1 (List.append_cancel_left hloads)
  rw [← ha, hpair] at hrange
  exact absurd hrange (by decide)

end Firmware
end InfernoFpga
