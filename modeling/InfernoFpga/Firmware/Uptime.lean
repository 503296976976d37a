import InfernoFpga.Firmware.PtpArith
import InfernoFpga.Lib.Wrap

/-!
# Uptime — the interval timer on a clock that is steered

`gptp_uptime_ms` counts milliseconds of the PTP clock, less a bias.  `gptp_step_time` adds its
jump to the bias; `gptp_adjust_offset` moves the same clock and leaves the bias alone.  The
timestamp unit itself is not part of the firmware: it is a parameter here, with what its registers
are documented to do.
-/

namespace InfernoFpga
namespace Firmware
namespace Ptpv1

open Lib

/-! ## The timestamp unit -/

/-- The whole nanoseconds of a timestamp. -/
def Timestamp.ns (t : Timestamp) : Nat := t.seconds * 1000000000 + t.nanoseconds

/-- One past the largest count of nanoseconds that 48 bits of seconds hold. -/
abbrev tsuEnd : Nat := 2 ^ 48 * 1000000000

/-- The registers of the timestamp unit: its time, what a cycle does, and what the step, offset
and addend registers do when they are applied. -/
structure TimestampUnit (τ : Type*) where
  read : τ → Timestamp
  tick : τ → τ
  step : τ → BitVec 48 → BitVec 32 → τ
  offset : τ → BitVec 49 → τ
  addend : τ → Int → τ

/-- What the firmware relies on. -/
structure TimestampUnit.Documented {τ : Type*} (u : TimestampUnit τ) : Prop where
  seconds_lt : ∀ x, (u.read x).seconds < 2 ^ 48
  nanoseconds_lt : ∀ x, (u.read x).nanoseconds < 1000000000
  /-- A cycle never takes the time back, unless the seconds run out of their 48 bits. -/
  tick_le : ∀ x, (u.read x).seconds + 1 < 2 ^ 48 → (u.read x).ns ≤ (u.read (u.tick x)).ns
  step_read : ∀ x s n, n.toNat < 1000000000 → u.read (u.step x s n) = ⟨s.toNat, n.toNat⟩
  /-- The offset correction handles one second in either direction. -/
  offset_read : ∀ x (v : BitVec 49), -1000000000 ≤ v.toInt → v.toInt ≤ 1000000000 →
    0 ≤ (u.read x).ns + v.toInt → (u.read x).ns + v.toInt < tsuEnd →
    ((u.read (u.offset x v)).ns : Int) = (u.read x).ns + v.toInt
  addend_read : ∀ x a, u.read (u.addend x a) = u.read x

/-! ## Uptime -/

/-- The unit, and `gptp_uptime_bias_ms`. -/
structure Clock (τ : Type*) where
  unit : τ
  bias : Int

/-- The milliseconds of a timestamp. -/
def rawMs (t : Timestamp) : Int := t.seconds * 1000 + (t.nanoseconds / 1000000 : Nat)

section Functions

variable {τ : Type*} (u : TimestampUnit τ)

/-- What `gptp_uptime_ms` computes, before it is truncated. -/
def uptime (c : Clock τ) : Int := rawMs (u.read c.unit) - c.bias

/-- `gptp_uptime_ms`. -/
def gptpUptimeMs (c : Clock τ) : BitVec 32 := wrapped 32 (uptime u c)

def ticks : Nat → τ → τ
  | 0, x => x
  | n + 1, x => ticks n (u.tick x)

/-- `gptp_step_time`, with `late` cycles between its reading of the clock and the step. -/
def gptpStepTime (c : Clock τ) (t : Timestamp) (late : Nat) : Clock τ :=
  { bias := c.bias + (rawMs t - rawMs (u.read c.unit))
    unit := u.step (ticks u late c.unit) (BitVec.ofNat 48 t.seconds)
      (BitVec.ofNat 32 t.nanoseconds) }

/-- `gptp_adjust_offset`: the low 49 bits go to the registers. -/
def gptpAdjustOffset (c : Clock τ) (offsetNs : Int) : Clock τ :=
  { c with unit := u.offset c.unit (BitVec.ofInt 49 offsetNs) }

def gptpSetAddendFull (c : Clock τ) (addendFull : Int) : Clock τ :=
  { c with unit := u.addend c.unit addendFull }

end Functions

inductive ClockEvent
  | tick
  /-- A command of the servo; `late` cycles pass within a step. -/
  | command (cmd : Tsu) (late : Nat)

/-- The uptime is only read between two of these steps: the firmware has one thread. -/
def clockStep {τ : Type*} (u : TimestampUnit τ) (c : Clock τ) : ClockEvent → Clock τ
  | .tick => { c with unit := u.tick c.unit }
  | .command (.stepTime t) late => gptpStepTime u c t late
  | .command (.adjustOffset ns) _ => gptpAdjustOffset u c ns
  | .command (.setAddend a) _ => gptpSetAddendFull u c a

/-! ## Uptime never goes back -/

theorem rawMs_eq (t : Timestamp) :
    rawMs t = (t.ns / 1000000 : Nat) := by
  rw [rawMs, Timestamp.ns]
  omega

variable {τ : Type*} {u : TimestampUnit τ}

/-- The unit stays within its 48 bits of seconds. -/
def InTsuRange (u : TimestampUnit τ) (c : Clock τ) : ClockEvent → Prop
  | .tick => (u.read c.unit).seconds + 1 < 2 ^ 48
  | .command (.adjustOffset ns) _ =>
      0 ≤ (u.read c.unit).ns + ns ∧ (u.read c.unit).ns + ns < tsuEnd
  | .command (.stepTime _) _ => True
  | .command (.setAddend _) _ => True

/-- The command is one that the servo issues: a proper time, or an offset that is no step. -/
def ClockEvent.Issued : ClockEvent → Prop
  | .tick => True
  | .command cmd _ => Sound cmd

/-- No adjustment takes the clock back across a millisecond. -/
def KeepsMs (u : TimestampUnit τ) (c : Clock τ) : ClockEvent → Prop
  | .command (.adjustOffset ns) _ =>
      ((u.read c.unit).ns : Int) / 1000000 ≤ ((u.read c.unit).ns + ns) / 1000000
  | .command (.stepTime _) _ => True
  | .command (.setAddend _) _ => True
  | .tick => True

/-- A step to any proper time continues the uptime where it was read. -/
theorem uptime_gptpStepTime (hu : u.Documented) (c : Clock τ) {t : Timestamp}
    (ht : Sound (.stepTime t)) (late : Nat) :
    uptime u (gptpStepTime u c t late) = uptime u c := by
  obtain ⟨hsec, hns⟩ := ht
  have hnsWord : (BitVec.ofNat 32 t.nanoseconds).toNat = t.nanoseconds := by
    rw [BitVec.toNat_ofNat]
    exact Nat.mod_eq_of_lt (by omega)
  have hsecWord : (BitVec.ofNat 48 t.seconds).toNat = t.seconds := by
    rw [BitVec.toNat_ofNat]
    exact Nat.mod_eq_of_lt hsec
  have hread := hu.step_read (ticks u late c.unit) (BitVec.ofNat 48 t.seconds)
    (BitVec.ofNat 32 t.nanoseconds) (by rw [hnsWord]; exact hns)
  rw [hnsWord, hsecWord] at hread
  rw [uptime, gptpStepTime]
  dsimp only
  rw [hread, uptime]
  show rawMs t - _ = _
  omega

/-- An adjustment moves the uptime by the milliseconds it moves the clock. -/
theorem uptime_gptpAdjustOffset (hu : u.Documented) (c : Clock τ) {ns : Int}
    (hns : Sound (.adjustOffset ns)) (hlow : 0 ≤ (u.read c.unit).ns + ns)
    (hhigh : (u.read c.unit).ns + ns < tsuEnd) :
    uptime u (gptpAdjustOffset u c ns) - uptime u c =
      ((u.read c.unit).ns + ns) / 1000000 - ((u.read c.unit).ns : Int) / 1000000 := by
  obtain ⟨hband, hband'⟩ := hns
  have hstep : servoStepNs = 1000000 := rfl
  have hint : (BitVec.ofInt 49 ns).toInt = ns := by
    rw [BitVec.toInt_ofInt]
    exact Int.bmod_eq_of_le (by omega) (by omega)
  have hread := hu.offset_read c.unit (BitVec.ofInt 49 ns) (by rw [hint]; omega)
    (by rw [hint]; omega) (by rw [hint]; exact hlow) (by rw [hint]; exact hhigh)
  rw [hint] at hread
  rw [uptime, uptime, rawMs_eq, rawMs_eq,
    gptpAdjustOffset]
  dsimp only
  rw [Int.natCast_ediv, Int.natCast_ediv, hread]
  omega

/-- One step keeps the uptime from going back exactly if it keeps the millisecond. -/
theorem uptime_clockStep (hu : u.Documented) (c : Clock τ) {i : ClockEvent} (hi : i.Issued)
    (hfits : InTsuRange u c i) : uptime u c ≤ uptime u (clockStep u c i) ↔ KeepsMs u c i := by
  match i, hi, hfits with
  | .tick, _, hfits =>
      refine iff_of_true ?_ trivial
      have htick := hu.tick_le c.unit hfits
      have hms : rawMs (u.read c.unit) ≤ rawMs (u.read (u.tick c.unit)) := by
        rw [rawMs_eq, rawMs_eq]
        exact Int.ofNat_le.2 (Nat.div_le_div_right htick)
      exact Int.sub_le_sub_right hms c.bias
  | .command (.stepTime t) late, hi, _ =>
      exact iff_of_true (uptime_gptpStepTime hu c hi late).ge trivial
  | .command (.adjustOffset ns) _, hi, hfits =>
      have hmove := uptime_gptpAdjustOffset hu c hi hfits.1 hfits.2
      show uptime u c ≤ uptime u (gptpAdjustOffset u c ns) ↔ _ / 1000000 ≤ _ / 1000000
      omega
  | .command (.setAddend a) _, _, _ =>
      refine iff_of_true (le_of_eq ?_) trivial
      show _ - c.bias = rawMs (u.read (u.addend c.unit a)) - c.bias
      rw [hu.addend_read]

/-- An uptime, and a later one that is not before it: the unsigned difference of the two 32-bit
values is the time that passed. -/
structure Elapses (u : TimestampUnit τ) (c c' : Clock τ) : Prop where
  le : uptime u c ≤ uptime u c'
  difference : uptime u c' - uptime u c < 2 ^ 32 →
    ((gptpUptimeMs u c' - gptpUptimeMs u c).toNat : Int) = uptime u c' - uptime u c

theorem elapses_iff {c c' : Clock τ} : Elapses u c c' ↔ uptime u c ≤ uptime u c' := by
  refine ⟨Elapses.le, fun h => ⟨h, fun hlt => ?_⟩⟩
  rw [gptpUptimeMs, gptpUptimeMs, ← wrapped_sub, toNat_wrapped]
  exact Int.emod_eq_of_lt (by omega) (by omega)

/-! ## A unit at its nominal rate -/

/-- Twenty nanoseconds a cycle, counted in one number. -/
def nsUnit : TimestampUnit Nat where
  read x := ⟨x / 1000000000 % 2 ^ 48, x % 1000000000⟩
  tick x := x + 20
  step _ s n := s.toNat * 1000000000 + n.toNat
  offset x v := ((x % tsuEnd : Nat) + v.toInt).toNat
  addend x _ := x

theorem nsUnit_documented : nsUnit.Documented where
  seconds_lt x := Nat.mod_lt _ (by decide)
  nanoseconds_lt x := Nat.mod_lt _ (by decide)
  tick_le x h := by
    simp only [nsUnit, Timestamp.ns] at h ⊢
    omega
  step_read x s n h := by
    have hs := s.isLt
    have hsec : (s.toNat * 1000000000 + n.toNat) / 1000000000 % 2 ^ 48 = s.toNat := by omega
    have hns : (s.toNat * 1000000000 + n.toNat) % 1000000000 = n.toNat := by omega
    simp only [nsUnit, hsec, hns]
  offset_read x v _ _ hlow hhigh := by
    have hns : ((nsUnit.read x).ns : Int) = (x % tsuEnd : Nat) := by
      simp only [nsUnit, Timestamp.ns, tsuEnd]
      omega
    rw [hns] at hlow hhigh ⊢
    simp only [nsUnit, Timestamp.ns, tsuEnd] at hlow hhigh ⊢
    omega
  addend_read _ _ := rfl

/-! ## The claim -/

/-- Over every run, the uptime never goes back from any moment to any later one exactly if no
adjustment of the servo takes the clock back across a millisecond. -/
theorem uptime_monotone_iff (hu : u.Documented) (c : Clock τ) (is : List ClockEvent)
    (hissued : ∀ i ∈ is, i.Issued) (hfits : Along (clockStep u) (InTsuRange u) c is) :
    (∀ t t', t ≤ t' → t' ≤ is.length →
      Elapses u (moment (clockStep u) c is t) (moment (clockStep u) c is t')) ↔
      Along (clockStep u) (KeepsMs u) c is := by
  have hguard : Along (clockStep u) (fun c i => uptime u c ≤ uptime u (clockStep u c i)) c is ↔
      Along (clockStep u) (KeepsMs u) c is := by
    refine ((Along.of_inputs hissued).and hfits).congr fun c i h => ?_
    exact uptime_clockStep hu c h.1 h.2
  rw [← hguard, ← monotone_iff_along]
  exact forall₂_congr fun t t' => forall₂_congr fun _ _ => elapses_iff

theorem uptime_monotone_iff_nsUnit :
    Elapses nsUnit ⟨10000500000, 0⟩
      (run (clockStep nsUnit) ⟨10000500000, 0⟩ [.tick, .command (.adjustOffset (-400000)) 0]) := by
  refine (uptime_monotone_iff nsUnit_documented ⟨10000500000, 0⟩
    [.tick, .command (.adjustOffset (-400000)) 0] ?_ ?_).2 ?_ 0 2 (by decide) (by decide)
  · exact List.forall_mem_cons.2 ⟨trivial, List.forall_mem_singleton.2 ⟨by decide, by decide⟩⟩
  · exact ⟨by unfold InTsuRange; decide, by unfold InTsuRange; decide, trivial⟩
  · exact ⟨trivial, by unfold KeepsMs; decide, trivial⟩

/-- The servo of a warm start, with four path delays measured. -/
def settling : Servo := (fun s => delayResp s 5000)^[4] (init (some baseAddendFull))

/-- The one residual phase step of the servo takes the uptime back by a millisecond, and an
unsigned difference across it wraps. -/
theorem uptime_goes_back :
    (servoUpdate settling ⟨10, 0⟩ ⟨10, 905000⟩ 900000 3000).2 = [.adjustOffset (-900000)] ∧
      gptpUptimeMs nsUnit ⟨10001100000, 0⟩ = 10001 ∧
      gptpUptimeMs nsUnit (clockStep nsUnit ⟨10001100000, 0⟩
        (.command (.adjustOffset (-900000)) 0)) = 10000 ∧
      ¬ Elapses nsUnit ⟨10001100000, 0⟩ (clockStep nsUnit ⟨10001100000, 0⟩
        (.command (.adjustOffset (-900000)) 0)) := by
  refine ⟨by decide, by decide, by decide, fun h => ?_⟩
  exact absurd h.le (by decide)

end Ptpv1
end Firmware
end InfernoFpga
