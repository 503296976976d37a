import InfernoFpga.Packetizer.Frame
import InfernoFpga.Packetizer.RingLevel

/-!
# Priming — which packets may carry sound

`primed` is a hysteresis on `level`, the writer's distance from `rd`.  But `rd` is left over from
before a disable until the first walk reloads it, while the writer keeps advancing with the
talker off; and `pkt_primed` is latched once per walk, which may be in flight across a disable
and an enable.  The monitor below tracks the fill of the ring *as anchored at the last enable*.
-/

namespace InfernoFpga
namespace Packetizer

open Lib

/-! ## The monitor -/

/-- What an observer knows of the ring since the talker was last enabled. -/
@[ext] structure Monitor where
  /-- The talker was on in the cycle before. -/
  wasOn : Bool
  /-- `rd` has been loaded from the anchor since the last enable. -/
  loaded : Bool
  /-- Since the last enable the ring has been half full, and not below one packet since. -/
  filled : Bool
  /-- `filled`, at the start of the walk in progress; a walk from before the enable has none. -/
  licensed : Bool
  deriving DecidableEq

/-- Entries in the ring as anchored: ahead of `rd` once that is loaded, else of the anchor. -/
def fill (l : Ledger) (loaded : Bool) : Int :=
  if loaded then l.occupancy else channels * (l.frames - l.anchorFrame)

namespace Monitor

def off : Monitor := { wasOn := false, loaded := false, filled := false, licensed := false }

/-- The talker is enabled on this cycle. -/
def enabled (i : Input) (m : Monitor) : Bool := en i && !m.wasOn

/-- What an enable leaves of the past. -/
def current (i : Input) (m : Monitor) : Monitor :=
  if enabled i m then { m with loaded := false, filled := false, licensed := false } else m

def next (s : State) (i : Input) (l : Ledger) (m : Monitor) : Monitor :=
  let c := current i m
  { wasOn := en i
    loaded := (walkStart s && !s.alignedOnce) || c.loaded
    filled :=
      if fill l c.loaded ≥ (center : Int) then true
      else if fill l c.loaded < (frameSamples : Int) then false
      else c.filled
    licensed := if walkStart s then c.filled else c.licensed }

theorem current_of_off {i : Input} {m : Monitor} (hon : en i = true) (hoff : m.wasOn = false) :
    current i m = { m with loaded := false, filled := false, licensed := false } := by
  simp [current, enabled, hon, hoff]

theorem current_of_not {i : Input} {m : Monitor} (h : enabled i m = false) : current i m = m := by
  simp [current, h]

end Monitor

/-- The ledger of the ring, the frame in progress and the monitor. -/
structure Observed where
  ledger : Ledger
  frame : Frame
  monitor : Monitor

def Observed.init : Observed :=
  { ledger := Ledger.zero, frame := Frame.empty, monitor := Monitor.off }

def Observed.next (s : State) (i : Input) (o : Observed) : Observed :=
  { ledger := Ledger.next s i o.ledger
    frame := Frame.next s i o.frame
    monitor := Monitor.next s i o.ledger o.monitor }

/-- The packetizer with its observers. -/
def observed : State × Observed → Input → State × Observed := watch step Observed.next

/-- State and observers after the inputs `is`, from reset. -/
def observedAfter (is : List Input) : State × Observed :=
  run observed (State.reset, Observed.init) is

/-- A packet that is sent on this cycle carries a non-zero sample byte. -/
def SoundSent (s : State) (i : Input) (f : Frame) : Prop :=
  serveNow s i = true ∧ ∃ k, hdrLen ≤ k ∧ Frame.wireByte (Frame.packet s f) k ≠ 0

/-- Where the priming law can break: the level against a stale `rd`, and a walk in flight across
an enable. -/
def PrimeSafe (p : State × Observed) (i : Input) : Prop :=
  let c := Monitor.current i p.2.monitor
  FrameSafe p.1 i ∧
    (en i = true → (c.loaded = true ∧ p.1.started = true) ∨ level p.1 < (center : Int) ∨
      (center : Int) ≤ fill p.2.ledger c.loaded) ∧
    (Monitor.enabled i p.2.monitor = true → p.1.fsm = .idle ∨ p.1.pktPrimed = false)

instance (p : State × Observed) (i : Input) : Decidable (PrimeSafe p i) :=
  inferInstanceAs (Decidable (_ ∧ (_ → _ ∨ _ ∨ _) ∧ (_ → _)))

/-! ## The anchor and the read pointer -/

/-- Where the anchor lies: at the frame that begins next, or at the first one since the enable. -/
structure Anchored (s : State) (l : Ledger) (m : Monitor) : Prop where
  le : l.anchorFrame ≤ l.frames + 1
  started : s.started = true → l.anchorFrame ≤ l.frames
  unstarted : s.started = false → l.frames ≤ l.anchorFrame
  off : m.wasOn = false → s.primed = false ∧ s.started = false

/-- What holds while the talker is on, of the part of the past since it was enabled. -/
structure Metered (s : State) (l : Ledger) (m : Monitor) : Prop where
  behind : m.loaded = true → l.base + l.consumed ≤ l.frames + 1
  ahead : m.loaded = true → l.anchorFrame ≤ l.base + l.consumed + 1
  started : m.loaded = true → s.started = true → l.base + l.consumed ≤ l.frames
  unstarted : m.loaded = true → s.started = false → l.frames ≤ l.base + l.consumed
  filled : s.primed = true → m.filled = true
  loadedFill : s.primed = true → m.loaded = true → l.base + l.consumed + 15 ≤ l.frames
  unloadedFill : s.primed = true → m.loaded = false → l.anchorFrame + 128 ≤ l.frames

section Meter

variable {s : State} {i : Input} {l : Ledger} {m : Monitor}

theorem anchored_step (h : Anchored s l m) :
    Anchored (step s i) (Ledger.next s i l) (Monitor.next s i l m) := by
  have hle := h.le
  have hstarted := h.started
  have hunstarted := h.unstarted
  refine ⟨?_, ?_, ?_, ?_⟩
  · simp only [Ledger.next]
    cases hon : en i <;> cases hs : s.started <;> cases hb : frameBegin s <;> simp <;> omega
  · simp only [step_started, nextStarted, Ledger.next]
    cases hon : en i <;> cases hs : s.started <;> cases hb : frameBegin s <;> simp_all
  · simp only [step_started, nextStarted, Ledger.next]
    cases hon : en i <;> cases hs : s.started <;> cases hb : frameBegin s <;>
      simp_all
  · intro hoff
    have hon : en i = false := hoff
    simp [nextPrimed, nextStarted, hon]

/-- An enable forgets the past, and what is left is true of a ring that is not primed. -/
theorem metered_current (ha : Anchored s l m) (h : m.wasOn = true → Metered s l m)
    (hon : en i = true) : Metered s l (Monitor.current i m) := by
  cases hwas : m.wasOn with
  | true =>
    rw [Monitor.current_of_not (by simp [Monitor.enabled, hwas])]
    exact h hwas
  | false =>
    have hprimed := (ha.off hwas).1
    rw [Monitor.current_of_off hon hwas]
    constructor <;> simp [hprimed]

/-- The writer is not behind the reader, so `level` is not above the true fill. -/
theorem level_le_fill (ht : Ledger.Tracks s l) (h : l.base + l.consumed ≤ l.frames) :
    level s ≤ fill l true := by
  have hmono : l.read / 2 ^ 32 ≤ l.written / 2 ^ 32 :=
    Int.ediv_le_ediv (by decide) (by
      simp only [Ledger.read, Ledger.written, channels]
      omega)
  rw [level_of_tracks ht, fill, if_pos rfl]
  omega

theorem fill_true (l : Ledger) :
    fill l true = 8 * (l.frames - l.base) - 8 * l.consumed := rfl

theorem fill_false (l : Ledger) : fill l false = 8 * (l.frames - l.anchorFrame) := rfl

/-- A ring that is primed for the next cycle holds at least a packet of the current epoch. -/
structure Filled (l : Ledger) (c : Monitor) : Prop where
  kept : (center : Int) ≤ fill l c.loaded ∨
    ((frameSamples : Int) ≤ fill l c.loaded ∧ c.filled = true)
  loaded : c.loaded = true → l.base + l.consumed + 16 ≤ l.frames
  unloaded : c.loaded = false → l.anchorFrame + 128 ≤ l.frames

theorem filled_of_nextPrimed {c : Monitor} (ht : Ledger.Tracks s l) (hc : Metered s l c)
    (hguard : (c.loaded = true ∧ s.started = true) ∨ level s < (center : Int) ∨
      (center : Int) ≤ fill l c.loaded)
    (hprimed : nextPrimed s i = true) : Filled l c := by
  have hlevel : (center : Int) ≤ level s ∨ ((frameSamples : Int) ≤ level s ∧ s.primed = true) := by
    simp only [nextPrimed] at hprimed
    grind
  have hloaded : ∀ bound : Int, c.loaded = true → l.base + l.consumed ≤ l.frames →
      bound ≤ level s → bound ≤ fill l c.loaded := by
    intro bound hl hbehind hbound
    rw [hl]
    exact hbound.trans (level_le_fill ht hbehind)
  cases hl : c.loaded with
  | false =>
    rw [hl] at hguard
    have hfill : (center : Int) ≤ fill l false := by
      rcases hlevel with hhalf | ⟨-, hp⟩
      · grind
      · have := hc.unloadedFill hp hl
        rw [fill_false]
        simp only [center, sringDepth]
        omega
    refine ⟨Or.inl (hl ▸ hfill), by simp [hl], fun _ => ?_⟩
    rw [fill_false] at hfill
    simp only [center, sringDepth] at hfill
    omega
  | true =>
    have hkept : (center : Int) ≤ fill l true ∨
        ((frameSamples : Int) ≤ fill l true ∧ c.filled = true) := by
      rw [hl] at hloaded hguard
      rcases hlevel with hhalf | ⟨hfloor, hp⟩
      · rcases hguard with ⟨-, hs⟩ | hlt | hge
        · exact Or.inl (hloaded _ rfl (hc.started hl hs) hhalf)
        · omega
        · exact Or.inl hge
      · have := hc.loadedFill hp hl
        exact Or.inr ⟨hloaded _ rfl (by omega) hfloor, hc.filled hp⟩
    refine ⟨hl ▸ hkept, fun _ => ?_, by simp [hl]⟩
    rw [fill_true] at hkept
    simp only [center, sringDepth, frameSamples, channels, samplesPerPacket] at hkept
    omega

/-- One cycle with the talker on. -/
theorem metered_step {c : Monitor} (hcur : c = Monitor.current i m) (hon : en i = true)
    (ht : Ledger.Tracks s l) (ha : Anchored s l m) (hc : Metered s l c)
    (hguard : (c.loaded = true ∧ s.started = true) ∨ level s < (center : Int) ∨
      (center : Int) ≤ fill l c.loaded) :
    Metered (step s i) (Ledger.next s i l) (Monitor.next s i l m) := by
  have hle := ha.le
  have hstarted := ha.started
  have hunstarted := ha.unstarted
  have hbehind := hc.behind
  have hahead := hc.ahead
  have hcstarted := hc.started
  have hcunstarted := hc.unstarted
  have hfill := hc.loadedFill
  have hnext : nextPrimed s i = true → Filled l c := filled_of_nextPrimed ht hc hguard
  have hkept := fun hp => (hnext hp).kept
  have hloaded := fun hp => (hnext hp).loaded
  have hunloaded := fun hp => (hnext hp).unloaded
  constructor <;> simp only [step_started, step_primed, nextStarted, Ledger.next, Monitor.next,
    ← hcur, hon] <;> generalize (walkStart s && !s.alignedOnce) = load
  case behind => grind
  case ahead => grind
  case started => grind
  case unstarted => grind
  case filled => grind
  case loadedFill =>
    intro hp hl
    have hframes : l.frames ≤ (if frameBegin s = true then l.frames + 1 else l.frames) := by
      split <;> omega
    refine le_trans ?_ hframes
    cases load with
    | true =>
      -- the load starts the reader over, at the anchor
      cases hc' : c.loaded with
      | true =>
        have := hloaded hp hc'
        have := hahead hc'
        simp only [if_true]
        omega
      | false =>
        have := hunloaded hp hc'
        simp only [if_true]
        omega
    | false =>
      have := hloaded hp (by simpa using hl)
      simp only [Bool.false_eq_true, if_false]
      split <;> omega
  case unloadedFill => grind

end Meter

/-! ## A walk without a licence builds silence -/

/-- The payload of a frame whose walk was not primed. -/
def Silent (s : State) (f : Frame) : Prop :=
  inFlight s = true → s.pktPrimed = false →
    (∀ k, hdrLen ≤ k → f.bytes.getD k 0 = 0) ∧
      (s.fsm = .build → 1 ≤ s.byteIdx → s.sampHold = 0)

section Silence

variable {s : State} {i : Input} {f : Frame}

theorem step_pktPrimed (s : State) (i : Input) :
    (step s i).pktPrimed = if walkStart s then s.primed else s.pktPrimed := rfl

theorem curByte_silent (hhold : s.sampHold = 0) (hbyte : hdrLen ≤ s.byteIdx) :
    curByte s i = 0 := by
  rw [curByte, if_neg (by omega), hhold]
  split
  · exact byteAt_zero 3
  · exact byteAt_zero 2
  · exact byteAt_zero 1
  · rfl

theorem silent_of_not (h : inFlight s = false) : Silent s f := by
  intro hflight
  rw [h] at hflight
  cases hflight

theorem silent_step (h : Silent s f) (ha : Assembled s f) :
    Silent (step s i) (Frame.next s i f) := by
  cases hfsm : s.fsm with
  | idle => exact silent_of_not (inFlight_of_leave (.inl hfsm))
  | skip => exact silent_of_not (inFlight_of_leave (.inr (.inl hfsm)))
  | check =>
    obtain ⟨hbyte, hbytes⟩ : s.byteIdx = 0 ∧ f.bytes = [] := by simpa only [Assembled, hfsm] using ha
    have hrestart : restart s i = false :=
      restart_of_ne (by simp [hfsm]) (by simp [hfsm]) (by simp [hfsm])
    intro _ _
    have hnext : (Frame.next s i f).bytes = [] := by simp [Frame.next, hrestart, hfsm, hbytes]
    have hbyte' : (step s i).byteIdx = 0 := by simp [nextByteIdx, hrestart, hfsm, hbyte]
    refine ⟨fun k _ => by rw [hnext]; rfl, fun _ hle => ?_⟩
    rw [hbyte'] at hle
    omega
  | build =>
    have hbuilding : Building s f := by simpa only [Assembled, hfsm] using ha
    intro _ hprimed
    rw [step_pktPrimed, walkStart_of_ne (by simp [hfsm])] at hprimed
    have hprimed : s.pktPrimed = false := hprimed
    obtain ⟨hzero, hhold⟩ := h (by simp [inFlight, hfsm]) hprimed
    refine ⟨fun k hk => ?_, fun _ _ => by simp [nextSampHold, hfsm, hprimed]⟩
    rw [bytes_build hfsm, getD_append_singleton, hbuilding.length]
    split
    · rename_i heq
      have hpos : 51 ≤ s.byteIdx := heq ▸ hk
      exact curByte_silent (hhold hfsm (by omega)) hpos
    · exact hzero k hk
  | prefetch =>
    intro _ hprimed
    rw [step_pktPrimed, walkStart_of_ne (by simp [hfsm])] at hprimed
    have hrestart : restart s i = false :=
      restart_of_ne (by simp [hfsm]) (by simp [hfsm]) (by simp [hfsm])
    have hbytes : (Frame.next s i f).bytes = f.bytes := by simp [Frame.next, hrestart, hfsm]
    rw [hbytes]
    refine ⟨(h (by simp [inFlight, hfsm]) hprimed).1, fun hbuild => ?_⟩
    simp [nextFsm, hfsm] at hbuild
  | stream =>
    cases hserve : serveNow s i with
    | true => exact silent_of_not (inFlight_of_leave (.inr (.inr hserve)))
    | false =>
      intro _ hprimed
      rw [step_pktPrimed, walkStart_of_ne (by simp [hfsm])] at hprimed
      have hbytes : (Frame.next s i f).bytes = f.bytes := by
        simp [Frame.next, restart, walkStart_of_ne, advance, hserve, hfsm]
      rw [hbytes]
      refine ⟨(h (by simp [inFlight, hfsm]) hprimed).1, fun hbuild => ?_⟩
      simp [nextFsm_stream hfsm, hserve] at hbuild

end Silence

/-! ## Runs -/

/-- The registers of the packetizer against its observers. -/
structure Observing (p : State × Observed) : Prop where
  tracks : Ledger.Tracks p.1 p.2.ledger
  admissible : Admissible p.1
  assembled : Assembled p.1 p.2.frame
  anchored : Anchored p.1 p.2.ledger p.2.monitor
  metered : p.2.monitor.wasOn = true → Metered p.1 p.2.ledger p.2.monitor
  licensed : p.1.fsm ≠ .idle → p.1.pktPrimed = true → p.2.monitor.licensed = true
  silent : Silent p.1 p.2.frame

theorem observing_init : Observing (State.reset, Observed.init) where
  tracks := Ledger.tracks_reset
  admissible := by decide
  assembled := trivial
  anchored := ⟨by decide, by decide, by decide, by decide⟩
  metered := by simp [Observed.init, Monitor.off]
  licensed := by simp [State.reset]
  silent := silent_of_not rfl

/-- A primed register has seen the current epoch's ring half full. -/
theorem filled_of_primed {p : State × Observed} {i : Input} (h : Observing p)
    (hprimed : p.1.primed = true) : (Monitor.current i p.2.monitor).filled = true := by
  have hwas : p.2.monitor.wasOn = true := by
    by_contra hoff
    have := (h.anchored.off (by simpa using hoff)).1
    rw [this] at hprimed
    cases hprimed
  rw [Monitor.current_of_not (by simp [Monitor.enabled, hwas])]
  exact (h.metered hwas).filled hprimed

theorem licensed_step {p : State × Observed} {i : Input} (h : Observing p) (hsafe : PrimeSafe p i)
    (hfsm : (step p.1 i).fsm ≠ .idle) (hprimed : (step p.1 i).pktPrimed = true) :
    (Monitor.next p.1 i p.2.ledger p.2.monitor).licensed = true := by
  rw [step_pktPrimed] at hprimed
  simp only [Monitor.next]
  cases hwalk : walkStart p.1 with
  | true =>
    rw [hwalk] at hprimed
    exact filled_of_primed h hprimed
  | false =>
    rw [hwalk] at hprimed
    have hprimed : p.1.pktPrimed = true := hprimed
    have hbusy : p.1.fsm ≠ .idle := by
      intro hidle
      rw [step_fsm, nextFsm, hidle] at hfsm
      have hpend : anyPend p.1 = false := by simpa [walkStart, hidle] using hwalk
      simp [hpend] at hfsm
    have hnot : Monitor.enabled i p.2.monitor = false := by
      by_contra henabled
      rcases hsafe.2.2 (by simpa using henabled) with hidle | hsilent
      · exact hbusy hidle
      · rw [hsilent] at hprimed
        cases hprimed
    rw [Monitor.current_of_not hnot]
    exact h.licensed hbusy hprimed

theorem observing_step {p : State × Observed} {i : Input} (h : Observing p)
    (hsafe : PrimeSafe p i) : Observing (observed p i) where
  tracks := Ledger.tracks_step h.tracks i
  admissible := admissible_step h.admissible hsafe.1
  assembled := assembled_step h.assembled h.admissible hsafe.1
  anchored := anchored_step h.anchored
  metered := fun hon => metered_step rfl hon h.tracks h.anchored
    (metered_current h.anchored h.metered hon) (hsafe.2.1 hon)
  licensed := licensed_step h hsafe
  silent := silent_step h.silent h.assembled

/-! ## The priming law -/

/-- In every run from reset in which no level is read off a stale `rd` and no primed walk is in
flight across an enable, a packet carries a non-zero sample only if the ring as anchored at the
last enable had been filled to half, and not fallen below one packet since, when its walk
began. -/
theorem priming_law (is : List Input) (i : Input)
    (h : Along observed PrimeSafe (State.reset, Observed.init) (is ++ [i]))
    (hsound : SoundSent (observedAfter is).1 i (observedAfter is).2.frame) :
    (Monitor.current i (observedAfter is).2.monitor).licensed = true := by
  rw [Along.append_iff, Along.cons_iff] at h
  have hsafe : PrimeSafe (observedAfter is) i := h.2.1
  have hobs : Observing (observedAfter is) :=
    h.1.invariant (P := Observing) (fun _ _ hsafe hp => observing_step hp hsafe) observing_init
  obtain ⟨hserve, k, hk, hbyte⟩ := hsound
  have hfsm : (observedAfter is).1.fsm = .stream := stream_of_serveNow hserve
  have hflight : inFlight (observedAfter is).1 = true := by simp [inFlight, hfsm]
  have hprimed : (observedAfter is).1.pktPrimed = true := by
    by_contra hsilent
    have hzero := (hobs.silent hflight (by simpa using hsilent)).1
    exact hbyte (wireByte_silent hfsm hobs.assembled hserve hobs.admissible hzero hk)
  have hnot : Monitor.enabled i (observedAfter is).2.monitor = false := by
    by_contra henabled
    rcases hsafe.2.2 (by simpa using henabled) with hidle | hsilent
    · exact absurd (hfsm.symm.trans hidle) (by decide)
    · exact absurd (hprimed.symm.trans hsilent) (by decide)
  rw [Monitor.current_of_not hnot]
  exact hobs.licensed (by simp [hfsm]) hprimed

/-- A mono flow of 4 samples is due at once and anchors `rd`; then 131 loud frames arrive. -/
def filledRing : List Input :=
  [Input.bind 0 0x51 3 0x80 0, Input.tick] ++ List.replicate 131 (Input.usb 64 0x11223344)

/-- The next group of 4 is due, and its frame is sent up to the last word. -/
def soundedRun : List Input :=
  filledRing ++ List.replicate 4 Input.tick ++ List.replicate 81 Input.quiet

theorem priming_law_filled :
    SoundSent (observedAfter soundedRun).1 Input.quiet (observedAfter soundedRun).2.frame ∧
      (Monitor.current Input.quiet (observedAfter soundedRun).2.monitor).licensed = true := by
  have hsound : SoundSent (observedAfter soundedRun).1 Input.quiet
      (observedAfter soundedRun).2.frame := by
    obtain ⟨hserve, hbyte⟩ : serveNow (observedAfter soundedRun).1 Input.quiet = true ∧
        Frame.wireByte (Frame.packet (observedAfter soundedRun).1
          (observedAfter soundedRun).2.frame) 57 ≠ 0 := by decide +kernel
    exact ⟨hserve, 57, by decide, hbyte⟩
  exact ⟨hsound, priming_law soundedRun Input.quiet (by decide +kernel) hsound⟩

/-- The same, with the talker off for one cycle before the last tick of the group. -/
def reenabledRun : List Input :=
  filledRing ++ List.replicate 3 Input.tick ++
    [{ Input.quiet with csr := { Input.quiet.csr with enable := false } }, Input.quiet,
      Input.tick] ++ List.replicate 81 Input.quiet

/-- After the enable the old `rd` makes an empty ring read as half full: it primes at once, and
the first packet carries old samples though no frame has arrived since. -/
theorem priming_law_stale :
    SoundSent (observedAfter reenabledRun).1 Input.quiet (observedAfter reenabledRun).2.frame ∧
      (Monitor.current Input.quiet (observedAfter reenabledRun).2.monitor).licensed = false ∧
      fill (observedAfter reenabledRun).2.ledger true ≤ 0 := by
  obtain ⟨hserve, hbyte, hlicence, hfill⟩ :
      serveNow (observedAfter reenabledRun).1 Input.quiet = true ∧
      Frame.wireByte (Frame.packet (observedAfter reenabledRun).1
        (observedAfter reenabledRun).2.frame) 57 ≠ 0 ∧
      (Monitor.current Input.quiet (observedAfter reenabledRun).2.monitor).licensed = false ∧
      fill (observedAfter reenabledRun).2.ledger true ≤ 0 := by decide +kernel
  exact ⟨⟨hserve, 57, by decide, hbyte⟩, hlicence, hfill⟩

end Packetizer
end InfernoFpga
