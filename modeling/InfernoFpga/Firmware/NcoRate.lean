import InfernoFpga.Lib.Run
import InfernoFpga.Firmware.MediaClock
import Mathlib.Algebra.Order.Ring.Int
import Mathlib.Algebra.Order.Group.Abs
import Mathlib.Tactic.Linarith

/-!
# NcoRate — is the rate of the NCO the increment it is given?

Every cycle the NCO adds its increment to a 32-bit phase, and one more where the accumulator of the
fraction has carried; a wrap of the phase is a strobe.  Nothing is lost in between: strobes and
phase add up to the increments and the carries, and the carries and the accumulator to the
fractions, at any number of cycles.
-/

namespace InfernoFpga
namespace Firmware

open Lib

/-! ## The gateware -/

/-- The two CSR storages of the increment. -/
structure NcoCsr where
  increment : BitVec 32
  incrementFrac : BitVec 8

/-- The registers of `MCRNco`. -/
structure MCRNco where
  fracAcc : BitVec 9
  phase : BitVec 32
  sampleStrobe : Bool
  sampleCount : BitVec 32

namespace MCRNco

def reset : MCRNco := ⟨0, 0, false, 0⟩

/-- `frac_acc[8]`. -/
def carry (n : MCRNco) : BitVec 1 := n.fracAcc.extractLsb' 8 1

/-- `next_phase`, 33 bits wide. -/
def nextPhase (n : MCRNco) (c : NcoCsr) : BitVec 33 :=
  n.phase.setWidth 33 + c.increment.setWidth 33 + n.carry.setWidth 33

/-- One cycle of `sys`. -/
def step (n : MCRNco) (c : NcoCsr) : MCRNco where
  fracAcc := (n.fracAcc.extractLsb' 0 8).setWidth 9 + c.incrementFrac.setWidth 9
  phase := (n.nextPhase c).setWidth 32
  sampleStrobe := (n.nextPhase c).getLsbD 32
  sampleCount := if n.sampleStrobe then n.sampleCount + 1 else n.sampleCount

/-- Strobes made and carries taken into the phase. -/
structure Tally where
  strobes : Nat
  carries : Nat

def nextTally (n : MCRNco) (c : NcoCsr) (t : Tally) : Tally where
  strobes := t.strobes + (n.step c).sampleStrobe.toNat
  carries := t.carries + n.carry.toNat

/-- The NCO with its tally. -/
def tallied : MCRNco × Tally → NcoCsr → MCRNco × Tally := watch step nextTally

/-- `cycles` cycles on one setting, from `n`. -/
def held (n : MCRNco) (c : NcoCsr) (cycles : Nat) : MCRNco × Tally :=
  run tallied (n, ⟨0, 0⟩) (List.replicate cycles c)

/-! ## One cycle -/

section Cycle

variable (n : MCRNco) (c : NcoCsr)

theorem carry_toNat : n.carry.toNat = n.fracAcc.toNat / 256 := by
  have hacc := n.fracAcc.isLt
  rw [carry, BitVec.extractLsb'_toNat, Nat.shiftRight_eq_div_pow]
  omega

theorem nextPhase_toNat :
    (n.nextPhase c).toNat = n.phase.toNat + c.increment.toNat + n.carry.toNat := by
  have hphase := n.phase.isLt
  have hinc := c.increment.isLt
  have hcarry := n.carry.isLt
  rw [nextPhase, BitVec.toNat_add, BitVec.toNat_add, BitVec.toNat_setWidth, BitVec.toNat_setWidth,
    BitVec.toNat_setWidth]
  omega

/-- What goes into the phase stays in it, or leaves it as a strobe. -/
theorem step_phase :
    2 ^ 32 * (n.step c).sampleStrobe.toNat + (n.step c).phase.toNat =
      n.phase.toNat + c.increment.toNat + n.carry.toNat := by
  have hlt := (n.nextPhase c).isLt
  have hlow : (n.step c).phase.toNat = (n.nextPhase c).toNat % 2 ^ 32 := BitVec.toNat_setWidth ..
  have hhigh : (n.step c).sampleStrobe.toNat = (n.nextPhase c).toNat / 2 ^ 32 := by
    show ((n.nextPhase c).getLsbD 32).toNat = _
    rw [BitVec.getLsbD, Nat.testBit_eq_decide_div_mod_eq]
    have hbit : (n.nextPhase c).toNat / 2 ^ 32 < 2 := by omega
    rcases Nat.lt_succ_iff_lt_or_eq.1 hbit with hzero | hone
    · rw [Nat.lt_one_iff.1 hzero]
      rfl
    · rw [hone]
      rfl
  rw [hlow, hhigh, ← nextPhase_toNat, Nat.div_add_mod]

/-- What goes into the accumulator stays in it, or leaves it as a carry. -/
theorem step_fracAcc :
    256 * n.carry.toNat + (n.step c).fracAcc.toNat =
      n.fracAcc.toNat + c.incrementFrac.toNat := by
  have hfrac := c.incrementFrac.isLt
  have hacc : (n.step c).fracAcc.toNat = n.fracAcc.toNat % 256 + c.incrementFrac.toNat := by
    show ((n.fracAcc.extractLsb' 0 8).setWidth 9 + c.incrementFrac.setWidth 9).toNat = _
    rw [BitVec.toNat_add, BitVec.toNat_setWidth, BitVec.toNat_setWidth, BitVec.extractLsb'_toNat]
    omega
  rw [hacc, carry_toNat]
  omega

end Cycle

/-! ## Any number of cycles -/

/-- Strobes and phase against increments and carries, accumulator and carries against fractions. -/
structure Conserved (start : MCRNco) (incs fracs : Nat) (p : MCRNco × Tally) : Prop where
  phase : 2 ^ 32 * p.2.strobes + p.1.phase.toNat = start.phase.toNat + incs + p.2.carries
  fracAcc : 256 * p.2.carries + p.1.fracAcc.toNat = start.fracAcc.toNat + fracs

theorem Conserved.step {start : MCRNco} {incs fracs : Nat} {p : MCRNco × Tally}
    (h : Conserved start incs fracs p) (c : NcoCsr) :
    Conserved start (incs + c.increment.toNat) (fracs + c.incrementFrac.toNat) (tallied p c) where
  phase := by
    have hstep := step_phase p.1 c
    have hphase := h.phase
    show 2 ^ 32 * (p.2.strobes + (p.1.step c).sampleStrobe.toNat) + (p.1.step c).phase.toNat =
      start.phase.toNat + (incs + c.increment.toNat) + (p.2.carries + p.1.carry.toNat)
    omega
  fracAcc := by
    have hstep := step_fracAcc p.1 c
    have hacc := h.fracAcc
    show 256 * (p.2.carries + p.1.carry.toNat) + (p.1.step c).fracAcc.toNat =
      start.fracAcc.toNat + (fracs + c.incrementFrac.toNat)
    omega

/-- Whatever the settings are, nothing is lost in a run. -/
theorem conserved_run (start : MCRNco) : ∀ (cs : List NcoCsr) {incs fracs : Nat}
    {p : MCRNco × Tally}, Conserved start incs fracs p →
      Conserved start (incs + (cs.map fun c => c.increment.toNat).sum)
        (fracs + (cs.map fun c => c.incrementFrac.toNat).sum) (run tallied p cs)
  | [], _, _, _, h => h
  | c :: cs, incs, fracs, p, h => by
      have hrest := conserved_run start cs (h.step c)
      rw [Nat.add_assoc, Nat.add_assoc] at hrest
      exact hrest

theorem conserved_held (n : MCRNco) (c : NcoCsr) (cycles : Nat) :
    Conserved n (cycles * c.increment.toNat) (cycles * c.incrementFrac.toNat)
      (n.held c cycles) := by
  have hstart : Conserved n 0 0 (n, ⟨0, 0⟩) := ⟨Nat.zero_add _, Nat.zero_add _⟩
  have hrun := conserved_run n (List.replicate cycles c) hstart
  rw [Nat.zero_add, Nat.zero_add, List.map_replicate, List.map_replicate, List.sum_replicate_nat,
    List.sum_replicate_nat] at hrun
  exact hrun

/-- `sample_count` and the strobe that it has yet to count. -/
def countsTo (n : MCRNco) : BitVec 32 := n.sampleCount + BitVec.ofNat 32 n.sampleStrobe.toNat

/-- `sample_count` counts the strobes, each of them a cycle late. -/
theorem sampleCount_run (n : MCRNco) (cs : List NcoCsr) :
    (run tallied (n, ⟨0, 0⟩) cs).1.countsTo =
      n.countsTo + BitVec.ofNat 32 (run tallied (n, ⟨0, 0⟩) cs).2.strobes := by
  refine run_invariant (P := fun p : MCRNco × Tally =>
    p.1.countsTo = n.countsTo + BitVec.ofNat 32 p.2.strobes) _ ?_ cs (BitVec.add_zero _).symm
  intro p c hp
  have hcount : (p.1.step c).sampleCount = p.1.countsTo := by
    show (if p.1.sampleStrobe then p.1.sampleCount + 1 else p.1.sampleCount) = _
    rw [countsTo]
    cases p.1.sampleStrobe with
    | true => rfl
    | false => exact (BitVec.add_zero _).symm
  show (p.1.step c).sampleCount + BitVec.ofNat 32 (p.1.step c).sampleStrobe.toNat =
    n.countsTo + BitVec.ofNat 32 (p.2.strobes + (p.1.step c).sampleStrobe.toNat)
  rw [hcount, hp, BitVec.ofNat_add, BitVec.add_assoc]

end MCRNco

/-! ## The increment of a rate -/

section Rate

variable {base : Nat} {ppb : Int}

/-- Rounding towards zero loses less than one. -/
theorem tdiv_near (x : Int) {d : Int} (hd : 0 < d) : |x.tdiv d * d - x| < d := by
  have hsplit := Int.mul_tdiv_add_tmod x d
  have hrest : |x.tmod d| < d := by
    rw [Int.abs_eq_natAbs, Int.natAbs_tmod]
    have hlt := Nat.mod_lt x.natAbs (Int.natAbs_pos.2 hd.ne')
    omega
  have hsame : x.tdiv d * d - x = -(x.tmod d) := by linarith
  rw [hsame, abs_neg]
  exact hrest

theorem incForPpb_eq (base : Nat) (ppb : Int) : (incForPpb base ppb : Int) =
    max 1 (min 4294967295 (base + (base * ppb).tdiv 1000000000)) := by
  rw [incForPpb]
  split
  · omega
  · split <;> omega

/-- The increment is within one of the exact one, as far as the register goes. -/
theorem incForPpb_near (hlow : -maxPpb ≤ ppb) :
    |(incForPpb base ppb : Int) * 1000000000 -
      min (base * (1000000000 + ppb)) (4294967295 * 1000000000)| ≤ 1000000000 := by
  have hnear := abs_lt.1 (tdiv_near (base * ppb) (d := 1000000000) (by decide))
  have hnonneg : 0 ≤ (base : Int) * (1000000000 + ppb) := by
    refine mul_nonneg (Int.natCast_nonneg base) ?_
    have hlow' : (-100000 : Int) ≤ ppb := hlow
    omega
  rw [incForPpb_eq, abs_le]
  rw [mul_add] at hnonneg ⊢
  generalize (base * ppb).tdiv 1000000000 = q at hnear ⊢
  generalize (base : Int) * ppb = x at hnear hnonneg ⊢
  omega

theorem incForPpb_mono {ppb' : Int} (h : ppb ≤ ppb') :
    incForPpb base ppb ≤ incForPpb base ppb' := by
  have hmul : (base : Int) * ppb ≤ base * ppb' := mul_le_mul_of_nonneg_left h (by omega)
  have hdiv := Int.tdiv_le_tdiv (c := 1000000000) (by decide) hmul
  have heq := incForPpb_eq base ppb
  have heq' := incForPpb_eq base ppb'
  omega

/-- On a constant setting, from any state and for any number of cycles: strobes and phase account
for every increment and carry, the carries are within two of the fractions, and the strobes hence
close to the exact rate.  The increment of a rate is within one of the exact one, as far as the
register goes, and grows with the rate. -/
theorem nco_rate :
    (∀ (n : MCRNco) (c : NcoCsr) (cycles : Nat),
      2 ^ 32 * ((n.held c cycles).2.strobes : Int) +
          ((n.held c cycles).1.phase.toNat - n.phase.toNat) =
        cycles * c.increment.toNat + (n.held c cycles).2.carries ∧
      256 * ((n.held c cycles).2.carries : Int) - cycles * c.incrementFrac.toNat =
        n.fracAcc.toNat - (n.held c cycles).1.fracAcc.toNat ∧
      |256 * ((n.held c cycles).2.carries : Int) - cycles * c.incrementFrac.toNat| < 2 * 256 ∧
      |256 * 2 ^ 32 * ((n.held c cycles).2.strobes : Int) -
          cycles * (256 * c.increment.toNat + c.incrementFrac.toNat)| < 256 * (2 ^ 32 + 1)) ∧
    (∀ (base : Nat) (ppb : Int), -maxPpb ≤ ppb → ppb ≤ maxPpb →
      |(incForPpb base ppb : Int) * 1000000000 -
        min (base * (1000000000 + ppb)) (4294967295 * 1000000000)| ≤ 1000000000) ∧
    (∀ (base : Nat) (ppb ppb' : Int), ppb ≤ ppb' → incForPpb base ppb ≤ incForPpb base ppb') := by
  refine ⟨fun n c cycles => ?_, fun base ppb hlow _ => incForPpb_near hlow,
    fun base ppb ppb' h => incForPpb_mono h⟩
  rcases n.conserved_held c cycles with ⟨hphase, hacc⟩
  have hp := n.phase.isLt
  have hp' := (n.held c cycles).1.phase.isLt
  have ha := n.fracAcc.isLt
  have ha' := (n.held c cycles).1.fracAcc.isLt
  have hphase' : 2 ^ 32 * ((n.held c cycles).2.strobes : Int) +
      (n.held c cycles).1.phase.toNat =
        n.phase.toNat + cycles * c.increment.toNat + (n.held c cycles).2.carries := by
    exact_mod_cast hphase
  have hacc' : 256 * ((n.held c cycles).2.carries : Int) +
      (n.held c cycles).1.fracAcc.toNat =
        n.fracAcc.toNat + cycles * c.incrementFrac.toNat := by
    exact_mod_cast hacc
  have hsplit : (cycles : Int) * (256 * c.increment.toNat + c.incrementFrac.toNat) =
      256 * (cycles * c.increment.toNat) + cycles * c.incrementFrac.toNat := by
    rw [mul_add, mul_left_comm]
  refine ⟨by linarith, by linarith, abs_lt.2 ⟨by omega, by omega⟩, ?_⟩
  rw [hsplit, abs_lt]
  constructor
  · omega
  · omega

/-- The board's nominal increment, with the largest fraction, at its largest correction. -/
theorem nco_rate_board :
    |256 * ((MCRNco.reset.held ⟨4123169, 255⟩ 3).2.carries : Int) - 3 * 255| < 2 * 256 ∧
      |(incForPpb 4123169 100000 : Int) * 1000000000 -
        min (4123169 * (1000000000 + 100000)) (4294967295 * 1000000000)| ≤ 1000000000 :=
  ⟨(nco_rate.1 MCRNco.reset ⟨4123169, 255⟩ 3).2.2.1,
    nco_rate.2.1 4123169 100000 (by decide) (by decide)⟩

/-- The accumulator is registered: after two cycles from reset nothing has been carried, where the
fractions come to 510 / 256.  And a correction may leave the register. -/
theorem carries_late :
    ¬ |256 * ((MCRNco.reset.held ⟨4123169, 255⟩ 2).2.carries : Int) - 2 * 255| ≤ 256 ∧
      ¬ |(incForPpb 4294967295 100000 : Int) * 1000000000 -
        4294967295 * (1000000000 + 100000)| ≤ 1000000000 := by
  decide

end Rate

end Firmware
end InfernoFpga
