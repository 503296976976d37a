import InfernoFpga.Lib.Run
import InfernoFpga.Lib.Wrap
import InfernoFpga.Packetizer.Machine
import Mathlib.Data.List.Induction
import Mathlib.Tactic.Ring

/-!
# RingLevel — the occupancy of the sample ring over unbounded runs

`level` is the difference of two 32-bit registers taken in a 34-bit signed signal.  The ledger
below counts USB frames and primed strobes without bound; the registers are its 32-bit images.
So `level` is the true occupancy exactly while both counts lie in the same block of `2 ^ 32`:
when `wr` has wrapped and `rd` has not, `level` is off by `2 ^ 32` and the ring un-primes.
-/

namespace InfernoFpga
namespace Packetizer

open Lib

/-! ## The ledger -/

/-- What an observer of the ring counts. -/
@[ext] structure Ledger where
  /-- USB frames begun since reset. -/
  frames : Int
  /-- Number of the frame `rdAnchor` points at. -/
  anchorFrame : Int
  /-- The frame at which `rd` was last anchored. -/
  base : Int
  /-- Primed strobes since then. -/
  consumed : Int
  deriving DecidableEq

namespace Ledger

def zero : Ledger := { frames := 0, anchorFrame := 0, base := 0, consumed := 0 }

def next (s : State) (i : Input) (l : Ledger) : Ledger :=
  { frames := if frameBegin s then l.frames + 1 else l.frames
    anchorFrame :=
      if !en i || (!s.started && frameBegin s) then l.frames + 1 else l.anchorFrame
    base := if walkStart s && !s.alignedOnce then l.anchorFrame else l.base
    consumed :=
      if walkStart s && !s.alignedOnce then 0
      else if strobe i && s.primed then l.consumed + 1
      else l.consumed }

/-- Ring entries written since reset. -/
def written (l : Ledger) : Int := channels * l.frames

/-- The position of the read pointer, in entries written since reset. -/
def read (l : Ledger) : Int := channels * (l.base + l.consumed)

/-- `channels` per frame begun since the anchor, less `channels` per primed strobe since. -/
def occupancy (l : Ledger) : Int := channels * (l.frames - l.base) - channels * l.consumed

theorem occupancy_eq (l : Ledger) : l.occupancy = l.written - l.read := by
  simp only [occupancy, written, read]
  ring

/-- Once anchored, the base stands still … -/
theorem next_base {s : State} (h : s.alignedOnce = true) (i : Input) (l : Ledger) :
    (next s i l).base = l.base := by
  simp [next, h]

/-- … and only primed strobes are counted. -/
theorem next_consumed {s : State} (h : s.alignedOnce = true) (i : Input) (l : Ledger) :
    (next s i l).consumed = if strobe i && s.primed then l.consumed + 1 else l.consumed := by
  simp [next, h]

/-- The registers are the 32-bit images of the counts. -/
structure Tracks (s : State) (l : Ledger) : Prop where
  frameBase : s.frameBase = wrapped 32 l.written
  rdAnchor : s.rdAnchor = wrapped 32 (channels * l.anchorFrame)
  rd : s.rd = wrapped 32 l.read

theorem tracks_reset : Tracks State.reset zero :=
  ⟨by decide, by decide, by decide⟩

theorem wrapped_succ (x : Int) : wrapped 32 (8 * (x + 1)) = wrapped 32 (8 * x) + 8 := by
  have h : (8 : BitVec 32) = wrapped 32 8 := by decide
  rw [h, ← wrapped_add, mul_add, mul_one]

theorem newBase_tracks {s : State} {l : Ledger} (h : Tracks s l) :
    newBase s = wrapped 32 (8 * (l.frames + 1)) := by
  rw [wrapped_succ, newBase, h.frameBase]
  rfl

theorem tracks_step {s : State} {l : Ledger} (h : Tracks s l) (i : Input) :
    Tracks (step s i) (next s i l) := by
  refine ⟨?_, ?_, ?_⟩
  · -- the write grid advances once per frame begun
    show nextFrameBase s = _
    cases hb : frameBegin s with
    | false => simpa [nextFrameBase, next, written, hb] using h.frameBase
    | true =>
        have hfirst : first s = true := by
          simp only [frameBegin, Bool.and_eq_true] at hb
          exact hb.2
        simpa [nextFrameBase, next, written, hb, hfirst] using newBase_tracks h
  · show nextRdAnchor s i = _
    cases he : en i with
    | false => simpa [nextRdAnchor, next, he] using newBase_tracks h
    | true =>
        cases hs : s.started with
        | true => simpa [nextRdAnchor, next, he, hs] using h.rdAnchor
        | false =>
            cases hb : frameBegin s with
            | true =>
                have hb' : s.sampVld = true ∧ first s = true := by
                  simpa [frameBegin] using hb
                simpa [nextRdAnchor, next, he, hs, hb, hb'.1, hb'.2] using newBase_tracks h
            | false =>
                have hb' : ¬ (s.sampVld = true ∧ first s = true) := by
                  simpa [frameBegin] using hb
                simpa [nextRdAnchor, next, he, hs, hb, hb'] using h.rdAnchor
  · show nextRd s i = _
    cases ha : walkStart s && !s.alignedOnce with
    | true => simpa [nextRd, next, read, ha] using h.rdAnchor
    | false =>
        cases hp : strobe i && s.primed with
        | false => simpa [nextRd, next, read, ha, hp] using h.rd
        | true =>
            have hread : (8 : Int) * (l.base + (l.consumed + 1)) =
                8 * ((l.base + l.consumed) + 1) := by ring
            have hrd : s.rd = wrapped 32 (8 * (l.base + l.consumed)) := h.rd
            simp only [nextRd, next, read, ha, hp, Bool.false_eq_true, if_false, if_true]
            show s.rd + 8 = wrapped 32 (8 * (l.base + (l.consumed + 1)))
            rw [hread, wrapped_succ, hrd]

end Ledger

/-! ## Runs of the packetizer with its ledger -/

/-- The packetizer with the ledger of its ring. -/
def ledgered : State × Ledger → Input → State × Ledger := watch step Ledger.next

/-- State and ledger after the inputs `is`, from reset. -/
def ringAfter (is : List Input) : State × Ledger :=
  run ledgered (State.reset, Ledger.zero) is

theorem tracks_run {p : State × Ledger} (h : Ledger.Tracks p.1 p.2) (is : List Input) :
    Ledger.Tracks (run ledgered p is).1 (run ledgered p is).2 :=
  run_invariant ledgered (P := fun p => Ledger.Tracks p.1 p.2)
    (fun _ i hp => Ledger.tracks_step hp i) is h

theorem tracks_ringAfter (is : List Input) :
    Ledger.Tracks (ringAfter is).1 (ringAfter is).2 :=
  tracks_run Ledger.tracks_reset is

/-- Neither pointer has wrapped past the other. -/
def InStep (l : Ledger) : Prop := SameBlock 32 l.written l.read

theorem inStep_of_lt {l : Ledger} (hw : 0 ≤ l.written ∧ l.written < 2 ^ 32)
    (hr : 0 ≤ l.read ∧ l.read < 2 ^ 32) : InStep l := by
  have hblock : ∀ x : Int, 0 ≤ x ∧ x < 2 ^ 32 → x / (2 ^ 32 : Nat) = 0 := by
    intro x hx
    exact Int.ediv_eq_zero_of_lt hx.1 (by simpa using hx.2)
  show _ = _
  rw [hblock _ hw, hblock _ hr]

theorem level_of_tracks {s : State} {l : Ledger} (h : Ledger.Tracks s l) :
    level s = l.occupancy - 2 ^ 32 * (l.written / 2 ^ 32 - l.read / 2 ^ 32) := by
  rw [level, h.frameBase, h.rd, wrapped_sub_wrapped, Ledger.occupancy_eq]
  rfl

theorem level_eq_iff {s : State} {l : Ledger} (h : Ledger.Tracks s l) :
    level s = l.occupancy ↔ InStep l := by
  rw [level, h.frameBase, h.rd, Ledger.occupancy_eq]
  exact wrapped_sub_eq_iff _ _

/-! ## A fed ring stays primed -/

/-- Media strobes among the inputs. -/
def strobes (is : List Input) : Int := is.countP strobe

@[simp] theorem strobes_nil : strobes [] = 0 := rfl

theorem strobes_concat (is : List Input) (i : Input) :
    strobes (is ++ [i]) = strobes is + if strobe i then 1 else 0 := by
  simp only [strobes, List.countP_append, List.countP_singleton]
  split <;> simp

/-- The talker stays on and gets one USB frame per strobe: at no time are the strobes ahead of
the frames by more than `d`. -/
structure Fed (d : Nat) (p : State × Ledger) (is : List Input) : Prop where
  on : ∀ i ∈ is, en i = true
  frames : ∀ js, js <+: is → strobes js ≤ (run ledgered p js).2.frames - p.2.frames + d

theorem Fed.of_concat {d : Nat} {p : State × Ledger} {is : List Input} {i : Input}
    (h : Fed d p (is ++ [i])) : Fed d p is := by
  have hsub : is <+: is ++ [i] := List.prefix_append is [i]
  exact ⟨fun j hj => h.on j (by simp [hj]), fun js hjs => h.frames js (hjs.trans hsub)⟩

/-- What a fed run keeps: anchored, primed, and one frame consumed per strobe. -/
structure Steady (p q : State × Ledger) (is : List Input) : Prop where
  aligned : q.1.alignedOnce = true
  primed : q.1.primed = true
  base : q.2.base = p.2.base
  consumed : q.2.consumed = p.2.consumed + strobes is

theorem Steady.occupancy {p q : State × Ledger} {is : List Input} (h : Steady p q is) :
    q.2.occupancy = p.2.occupancy + 8 * (q.2.frames - p.2.frames) - 8 * strobes is := by
  simp only [Ledger.occupancy, h.base, h.consumed]
  push_cast
  ring

theorem steady_step {p q : State × Ledger} {is : List Input} {i : Input}
    (h : Steady p q is) (hon : en i = true) (hlevel : (frameSamples : Int) ≤ level q.1) :
    Steady p (ledgered q i) (is ++ [i]) := by
  refine ⟨?_, ?_, ?_, ?_⟩
  · show nextAlignedOnce q.1 i = true
    simp [nextAlignedOnce, hon, h.aligned]
  · show nextPrimed q.1 i = true
    have hnot : ¬ level q.1 < (frameSamples : Int) := by omega
    simp only [nextPrimed, hon, Bool.not_true, Bool.false_eq_true, if_false, h.primed, hnot]
    split <;> rfl
  · show (Ledger.next q.1 i q.2).base = p.2.base
    rw [Ledger.next_base h.aligned, h.base]
  · show (Ledger.next q.1 i q.2).consumed = p.2.consumed + strobes (is ++ [i])
    have hconsumed := h.consumed
    rw [Ledger.next_consumed h.aligned, h.primed, strobes_concat, Bool.and_true]
    split <;> omega

theorem steady_run {d : Nat} {p : State × Ledger} (htracks : Ledger.Tracks p.1 p.2)
    (haligned : p.1.alignedOnce = true) (hprimed : p.1.primed = true)
    (hfill : (frameSamples : Int) + channels * d ≤ p.2.occupancy) (is : List Input)
    (hfed : Fed d p is) (hin : Along ledgered (fun q _ => InStep q.2) p is) :
    Steady p (run ledgered p is) is := by
  induction is using List.reverseRecOn with
  | nil => exact ⟨haligned, hprimed, rfl, by simp⟩
  | append_singleton is i ih =>
      rw [Along.append_iff] at hin
      have hsteady := ih hfed.of_concat hin.1
      have hon : en i = true := hfed.on i (by simp)
      have hframes := hfed.frames is (List.prefix_append is [i])
      have hnow : InStep (run ledgered p is).2 := hin.2.1
      have hocc := hsteady.occupancy
      have hlevel : level (run ledgered p is).1 = (run ledgered p is).2.occupancy :=
        (level_eq_iff (tracks_run htracks is)).2 hnow
      rw [run_concat]
      refine steady_step hsteady hon ?_
      rw [hlevel, hocc]
      simp only [frameSamples, channels, samplesPerPacket] at hfill ⊢
      omega

theorem rd_of_steady {p q : State × Ledger} {is : List Input} (h : Steady p q is)
    (hp : Ledger.Tracks p.1 p.2) (hq : Ledger.Tracks q.1 q.2) :
    q.1.rd = p.1.rd + wrapped 32 (channels * strobes is) := by
  rw [hq.rd, hp.rd, ← wrapped_add]
  congr 1
  simp only [Ledger.read, h.base, h.consumed]
  ring

/-! ## Three hours at 48 kHz: the wrap -/

/-- An input that begins a USB frame while the talker is on. -/
def Feeds (i : Input) : Prop :=
  en i = true ∧ i.usbReadable = true ∧ i.usbSampleHi = 64

/-- Every cycle begins a USB frame, and `rd` is anchored. -/
structure Feeding (p : State × Ledger) : Prop where
  aligned : p.1.alignedOnce = true
  frame : frameBegin p.1 = true

theorem feeding_step {p : State × Ledger} {i : Input} (h : Feeding p) (hi : Feeds i) :
    Feeding (ledgered p i) := by
  refine ⟨?_, ?_⟩
  · show nextAlignedOnce p.1 i = true
    simp [nextAlignedOnce, hi.1, h.aligned]
  · show (i.usbReadable && BitVec.getLsbD (if i.usbReadable then i.usbSampleHi else _) 6) = true
    simp [hi.2.1, hi.2.2]

theorem feeding_counts {p : State × Ledger} {is : List Input} (h : Feeding p)
    (his : ∀ i ∈ is, Feeds i) :
    Feeding (run ledgered p is) ∧
      (run ledgered p is).2.frames = p.2.frames + is.length ∧
      (run ledgered p is).2.base = p.2.base ∧
      p.2.consumed ≤ (run ledgered p is).2.consumed ∧
      (run ledgered p is).2.consumed ≤ p.2.consumed + strobes is := by
  induction is using List.reverseRecOn with
  | nil => simp [h]
  | append_singleton is i ih =>
      obtain ⟨hf, hframes, hbase, hlow, hhigh⟩ := ih fun j hj => his j (by simp [hj])
      rw [run_concat]
      refine ⟨feeding_step hf (his i (by simp)), ?_, ?_, ?_, ?_⟩
      · show (Ledger.next _ i _).frames = _
        simp only [Ledger.next, hf.frame, if_true, List.length_append, List.length_singleton]
        push_cast
        omega
      · show (Ledger.next _ i _).base = _
        rw [Ledger.next_base hf.aligned, hbase]
      · show p.2.consumed ≤ (Ledger.next _ i _).consumed
        rw [Ledger.next_consumed hf.aligned]
        split <;> omega
      · show (Ledger.next _ i _).consumed ≤ p.2.consumed + strobes (is ++ [i])
        rw [Ledger.next_consumed hf.aligned, strobes_concat]
        cases strobe i with
        | false => simpa using hhigh
        | true => split <;> simp only [if_true] <;> omega

/-- A stereo flow is bound one sample before its group ends; its first due anchors `rd`. -/
def anchoring : List Input :=
  [Input.bind 0 0x62 1 0 0, Input.tick, Input.quiet, Input.usb 64 0]

/-- USB frames alone. -/
def filling (n : Nat) : List Input := List.replicate n (Input.usb 64 0)

/-- One USB frame and one media strobe per step. -/
def pacing (n : Nat) : List Input :=
  List.replicate n { Input.usb 64 0 with sampleStrobe := true }

def wrapAt : Nat := 2 ^ 29 - 130

theorem pacing_succ (n : Nat) :
    pacing (n + 1) = pacing n ++ [{ Input.usb 64 0 with sampleStrobe := true }] :=
  List.replicate_succ'

theorem feeds_filling (n : Nat) : ∀ i ∈ filling n, Feeds i := by
  intro i hi
  rw [List.eq_of_mem_replicate hi]
  exact ⟨rfl, rfl, rfl⟩

theorem feeds_pacing (n : Nat) : ∀ i ∈ pacing n, Feeds i := by
  intro i hi
  rw [List.eq_of_mem_replicate hi]
  exact ⟨rfl, rfl, rfl⟩

theorem strobes_filling (n : Nat) : strobes (filling n) = 0 := by
  simp [strobes, filling, strobe, Input.usb, Input.quiet]

theorem strobes_pacing (n : Nat) : strobes (pacing n) = n := by
  simp [strobes, pacing, List.countP_replicate, strobe, en, Input.usb, Input.quiet]

theorem ringAfter_append (is js : List Input) :
    ringAfter (is ++ js) = run ledgered (ringAfter is) js := run_append _ _ _ _

theorem feeding_anchored : Feeding (ringAfter anchoring) := by
  constructor
  · decide
  · decide

theorem ledger_anchored : (ringAfter anchoring).2 = Ledger.zero := by
  decide

/-- `n` frames after the anchor, before any strobe. -/
theorem counts_filled (n : Nat) :
    Feeding (ringAfter (anchoring ++ filling n)) ∧
      (ringAfter (anchoring ++ filling n)).2 = { Ledger.zero with
        frames := n
        anchorFrame := (ringAfter (anchoring ++ filling n)).2.anchorFrame } := by
  obtain ⟨hf, hframes, hbase, hlow, hhigh⟩ :=
    feeding_counts feeding_anchored (feeds_filling n)
  rw [← ringAfter_append, ledger_anchored] at hframes hbase hlow hhigh
  rw [← ringAfter_append] at hf
  rw [strobes_filling] at hhigh
  have hlength : (filling n).length = n := by simp [filling]
  rw [hlength] at hframes
  have hconsumed := le_antisymm hhigh hlow
  refine ⟨hf, ?_⟩
  ext
  · simpa [Ledger.zero] using hframes
  · rfl
  · exact hbase
  · exact hconsumed

/-- Half the ring is full; the pointers are anchored and primed. -/
def primedRun : List Input := anchoring ++ filling 130

theorem primed_primedRun : (ringAfter primedRun).1.primed = true := by
  have hsplit : primedRun = (anchoring ++ filling 129) ++ [Input.usb 64 0] := by
    simp only [primedRun, filling, List.append_assoc, List.append_cancel_left_eq]
    rfl
  have hledger := (counts_filled 129).2
  have hin : InStep (ringAfter (anchoring ++ filling 129)).2 := by
    rw [hledger]
    exact inStep_of_lt (by decide) (by decide)
  have hlevel : level (ringAfter (anchoring ++ filling 129)).1 = 1032 := by
    rw [(level_eq_iff (tracks_ringAfter _)).2 hin, hledger]
    rfl
  rw [hsplit, ringAfter_append, run_cons, run_nil, ledgered, watch_fst, step_primed]
  simp [nextPrimed, en, Input.usb, Input.quiet, hlevel]

/-- The pacing run keeps one frame per strobe. -/
theorem counts_pacing (n : Nat) :
    (ringAfter (primedRun ++ pacing n)).2.frames = 130 + n ∧
      (ringAfter (primedRun ++ pacing n)).2.base = 0 ∧
      0 ≤ (ringAfter (primedRun ++ pacing n)).2.consumed ∧
      (ringAfter (primedRun ++ pacing n)).2.consumed ≤ n := by
  obtain ⟨hf, hledger⟩ : Feeding (ringAfter primedRun) ∧ (ringAfter primedRun).2 = _ :=
    counts_filled 130
  obtain ⟨-, hframes, hbase, hlow, hhigh⟩ := feeding_counts hf (feeds_pacing n)
  have hlength : (pacing n).length = n := by simp [pacing]
  rw [← ringAfter_append, hledger] at hframes hbase hlow hhigh
  rw [hlength] at hframes
  rw [strobes_pacing] at hhigh
  simp only [Ledger.zero] at hframes hbase hlow hhigh
  exact ⟨hframes, hbase, hlow, by simpa using hhigh⟩

theorem ledger_primedRun : (ringAfter primedRun).2.frames = 130 ∧
    (ringAfter primedRun).2.occupancy = 1040 := by
  have hledger : (ringAfter primedRun).2 = _ := (counts_filled 130).2
  rw [hledger]
  exact ⟨rfl, rfl⟩

theorem prefix_pacing {js : List Input} {n : Nat} (h : js <+: pacing n) :
    ∃ m ≤ n, js = pacing m := by
  obtain ⟨hle, heq⟩ := List.prefix_replicate_iff.1 h
  exact ⟨js.length, hle, heq⟩

theorem fed_pacing (n : Nat) : Fed 0 (ringAfter primedRun) (pacing n) := by
  refine ⟨fun i hi => (feeds_pacing n i hi).1, fun js hjs => ?_⟩
  obtain ⟨m, -, rfl⟩ := prefix_pacing hjs
  have hframes := (counts_pacing m).1
  rw [ringAfter_append] at hframes
  rw [strobes_pacing, hframes, ledger_primedRun.1]
  simp

theorem inStep_pacing {n : Nat} (h : n ≤ wrapAt) :
    Along ledgered (fun q _ => InStep q.2) (ringAfter primedRun) (pacing n) := by
  rw [Along.iff_prefix]
  intro js i hjs
  obtain ⟨m, hm, heq⟩ := prefix_pacing hjs
  have hlt : js.length < wrapAt := by
    have hlength := congrArg List.length heq
    simp only [List.length_append, List.length_singleton, pacing, List.length_replicate]
      at hlength
    omega
  obtain ⟨k, -, rfl⟩ := prefix_pacing ((List.prefix_append js [i]).trans hjs)
  obtain ⟨hframes, hbase, hlow, hhigh⟩ := counts_pacing k
  rw [ringAfter_append] at hframes hbase hlow hhigh
  simp only [pacing, List.length_replicate, wrapAt] at hlt
  apply inStep_of_lt
  · simp only [Ledger.written, hframes, channels]
    omega
  · simp only [Ledger.read, hbase, channels]
    omega

/-- At the wrap the ring holds what it held at the start. -/
theorem ledger_wrap : (ringAfter (primedRun ++ pacing wrapAt)).2.written = 2 ^ 32 ∧
    (ringAfter (primedRun ++ pacing wrapAt)).2.occupancy = 1040 := by
  obtain ⟨hframes₀, hocc₀⟩ := ledger_primedRun
  have haligned := (counts_filled 130).1.aligned
  have hfill : (frameSamples : Int) + channels * (0 : Nat) ≤ (ringAfter primedRun).2.occupancy := by
    rw [hocc₀]
    decide
  have hsteady := steady_run (tracks_ringAfter primedRun) haligned primed_primedRun hfill
    (pacing wrapAt) (fed_pacing wrapAt) (inStep_pacing le_rfl)
  have hframes := (counts_pacing wrapAt).1
  have hocc := hsteady.occupancy
  rw [← ringAfter_append, strobes_pacing, hframes, hocc₀, hframes₀] at hocc
  refine ⟨?_, by omega⟩
  rw [Ledger.written, hframes]
  decide

theorem level_wrap :
    level (ringAfter (primedRun ++ pacing wrapAt)).1 = 1040 - 2 ^ 32 := by
  obtain ⟨hwritten, hocc⟩ := ledger_wrap
  have hread : (ringAfter (primedRun ++ pacing wrapAt)).2.read = 2 ^ 32 - 1040 := by
    rw [Ledger.occupancy_eq] at hocc
    omega
  rw [level_of_tracks (tracks_ringAfter _), hocc, hwritten, hread]
  decide

/-! ## The law and its limit -/

/-- In every run from reset, `level` is the true occupancy of the ring exactly while `wr` and
`rd` lie in the same block of `2 ^ 32`; and along a run that keeps them there, an anchored
primed ring that is fed one USB frame per strobe stays primed and `rd` advances by `channels`
per strobe. -/
theorem ring_level_tracks_occupancy (d : Nat) (is₀ is : List Input) :
    (level (ringAfter is₀).1 = (ringAfter is₀).2.occupancy ↔ InStep (ringAfter is₀).2) ∧
    ((ringAfter is₀).1.alignedOnce = true →
      (ringAfter is₀).1.primed = true →
      (frameSamples : Int) + channels * d ≤ (ringAfter is₀).2.occupancy →
      Fed d (ringAfter is₀) is →
      Along ledgered (fun q _ => InStep q.2) (ringAfter is₀) is →
      (ringAfter (is₀ ++ is)).1.primed = true ∧
        (ringAfter (is₀ ++ is)).1.rd =
          (ringAfter is₀).1.rd + wrapped 32 (channels * strobes is)) := by
  have htracks := tracks_ringAfter is₀
  refine ⟨level_eq_iff htracks, ?_⟩
  intro haligned hprimed hfill hfed hin
  have hsteady := steady_run htracks haligned hprimed hfill is hfed hin
  have happ : ringAfter (is₀ ++ is) = run ledgered (ringAfter is₀) is := run_append _ _ _ _
  rw [happ]
  exact ⟨hsteady.primed, rd_of_steady hsteady htracks (tracks_run htracks is)⟩

/-- One second of a running talker. -/
theorem ring_level_first_second :
    (ringAfter (primedRun ++ pacing 48000)).1.primed = true ∧
      (ringAfter (primedRun ++ pacing 48000)).1.rd =
        (ringAfter primedRun).1.rd + wrapped 32 (channels * strobes (pacing 48000)) := by
  refine (ring_level_tracks_occupancy 0 primedRun (pacing 48000)).2
    (counts_filled 130).1.aligned primed_primedRun ?_ (fed_pacing 48000) (inStep_pacing ?_)
  · rw [ledger_primedRun.2]
    decide
  · decide

/-- With `wr` just past `2 ^ 32` and `rd` just before it, a ring that has been fed one frame
per strobe all along reads as empty, and un-primes. -/
theorem ring_level_breaks_at_wrap :
    (∀ i ∈ primedRun ++ pacing (wrapAt + 1), en i = true) ∧
      (ringAfter primedRun).1.alignedOnce = true ∧
      (ringAfter primedRun).1.primed = true ∧
      (frameSamples : Int) ≤ (ringAfter primedRun).2.occupancy ∧
      Fed 0 (ringAfter primedRun) (pacing (wrapAt + 1)) ∧
      level (ringAfter (primedRun ++ pacing wrapAt)).1 ≠
        (ringAfter (primedRun ++ pacing wrapAt)).2.occupancy ∧
      (ringAfter (primedRun ++ pacing (wrapAt + 1))).1.primed = false := by
  refine ⟨?_, (counts_filled 130).1.aligned, primed_primedRun, ?_, fed_pacing _, ?_, ?_⟩
  · intro i hi
    simp only [primedRun, List.mem_append] at hi
    rcases hi with (hi | hi) | hi
    · revert i
      decide
    · exact (feeds_filling _ i hi).1
    · exact (feeds_pacing _ i hi).1
  · rw [ledger_primedRun.2]
    decide
  · rw [level_wrap, ledger_wrap.2]
    decide
  · have hlevel := level_wrap
    rw [pacing_succ, ← List.append_assoc, ringAfter_append]
    generalize ringAfter (primedRun ++ pacing wrapAt) = p at hlevel
    rw [run_cons, run_nil, ledgered, watch_fst, step_primed]
    simp [nextPrimed, hlevel]

end Packetizer
end InfernoFpga
