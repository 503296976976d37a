import InfernoFpga.Packetizer.Ingress
import InfernoFpga.Packetizer.RingLevel
import Mathlib.Tactic.IntervalCases

/-!
# Integrity — what a packet reads is what was written for its window

A packet covers the frames behind the snapshot of `rd`, while the space check of the ring write
looks at the entries ahead of `rd` alone.  An observer follows what the snapshot and the address
registers stand for, in frames counted without bound; from the moment a frame is over to the
moment the writer comes round to its entries again, a read of them is the sample that was written.
-/

namespace InfernoFpga
namespace Packetizer

open Lib

/-! ## The observer -/

/-- A sample that was offered to the rings, the frame it is of, and whether it was taken. -/
structure Heard where
  frame : Nat
  sample : Sample
  taken : Bool

/-- The sample was written for channel `c` in frame `k`. -/
def Heard.For (h : Heard) (k : Int) (c : Nat) : Prop :=
  h.taken = true ∧ (h.frame : Int) = k ∧ h.sample.channel = c

instance (h : Heard) (k : Int) (c : Nat) : Decidable (h.For k c) :=
  inferInstanceAs (Decidable (_ ∧ _))

/-- What `rd_snap` stands for: the frame `rd` points at and the one `rd_anchor` points at, and the
samples offered by then. -/
structure Snapshot where
  frame : Int
  anchor : Int
  heard : List Heard

/-- What the address on the rings stands for: sample `sample` of the window that begins at frame
`start`. -/
structure Position where
  snapshot : Snapshot
  start : Int
  sample : Nat
  channel : Nat
  inside : Bool

def Position.frame (x : Position) : Int := x.start + x.sample

/-- A payload sample as it is read. -/
structure Read where
  frame : Int
  channel : Nat
  before : List Heard
  sample : Word

/-- It is what was written for its channel in its frame, before the window was snapshotted. -/
def Read.Faithful (r : Read) : Prop :=
  ∃ h ∈ r.before, h.For r.frame r.channel ∧ r.sample = h.sample.audio

instance (r : Read) : Decidable r.Faithful :=
  inferInstanceAs (Decidable (∃ h ∈ r.before, _))

structure Sight where
  ledger : Ledger
  heard : List Heard
  snapshot : Snapshot
  position : Position
  reads : List Read

namespace Sight

def start : Sight :=
  { ledger := Ledger.zero, heard := [], snapshot := ⟨0, 0, []⟩
    position := ⟨⟨0, 0, []⟩, 0, 0, 0, false⟩, reads := [] }

/-- A sample of the payload is read in this cycle: the slot is mapped, and the position is one of
the window's. -/
def reading (s : State) (o : Sight) : Bool := fetch s && s.csVldD && o.position.inside

def next (s : State) (i : Input) (o : Sight) : Sight :=
  { ledger := Ledger.next s i o.ledger
    heard := o.heard ++
      (offer s i).map fun x => ⟨(Ledger.next s i o.ledger).frames.toNat, x.1, x.2⟩
    snapshot :=
      if dueStrobe s i then
        ⟨o.ledger.base + o.ledger.consumed, o.ledger.anchorFrame, o.heard⟩
      else o.snapshot
    position :=
      ⟨o.snapshot, o.snapshot.frame - curFpp s, s.csSamp, csCh s, decide (s.csSamp < curFpp s)⟩
    reads := o.reads ++
      if reading s o then
        [⟨o.position.frame, o.position.channel, o.position.snapshot.heard, sampRd s⟩]
      else [] }

end Sight

/-- The packetizer with that observer. -/
def sighted : State × Sight → Input → State × Sight := watch step Sight.next

/-! ## When the windows hold -/

/-- No write to the rings is suppressed. -/
def Unsuppressed (s : State) (i : Input) : Prop :=
  en i = true → s.sampVld = true → s.started = true ∨ first s = true → haveSpace s = true

/-- The cycles along which channel `c` is read as it was written. -/
structure Sound (c : Nat) (p : State × Sight) (i : Input) : Prop where
  space : Unsuppressed p.1 i
  /-- A frame has brought the channel when the next one begins. -/
  whole : p.1.started = true → frameBegin p.1 = true →
    ∃ h ∈ p.2.heard, (h.frame : Int) = p.2.ledger.frames ∧ h.sample.channel = c
  /-- `rd` is not in a later block of `2 ^ 32` than `wr`. -/
  unwrapped : p.2.ledger.read / 2 ^ 32 ≤ p.2.ledger.written / 2 ^ 32
  /-- A window that is read begins at the anchor or behind it, … -/
  anchored : Sight.reading p.1 p.2 = true → p.2.position.channel = c →
    p.2.position.snapshot.anchor ≤ p.2.position.start
  /-- … and the channel has not come round to the frame read. -/
  room : Sight.reading p.1 p.2 = true → p.2.position.channel = c →
    ∀ h ∈ p.2.heard, h.sample.channel = c → (h.frame : Int) < p.2.position.frame + 256

instance (s : State) (i : Input) : Decidable (Unsuppressed s i) :=
  inferInstanceAs (Decidable (_ → _ → _ → _))

instance (c : Nat) (p : State × Sight) (i : Input) : Decidable (Sound c p i) :=
  decidable_of_iff
    (Unsuppressed p.1 i ∧
      (p.1.started = true → frameBegin p.1 = true →
        ∃ h ∈ p.2.heard, (h.frame : Int) = p.2.ledger.frames ∧ h.sample.channel = c) ∧
      p.2.ledger.read / 2 ^ 32 ≤ p.2.ledger.written / 2 ^ 32 ∧
      (Sight.reading p.1 p.2 = true → p.2.position.channel = c →
        p.2.position.snapshot.anchor ≤ p.2.position.start) ∧
      (Sight.reading p.1 p.2 = true → p.2.position.channel = c →
        ∀ h ∈ p.2.heard, h.sample.channel = c → (h.frame : Int) < p.2.position.frame + 256))
    ⟨fun ⟨hspace, hwhole, hblocks, hanchored, hroom⟩ =>
      ⟨hspace, hwhole, hblocks, hanchored, hroom⟩,
      fun h => ⟨h.space, h.whole, h.unwrapped, h.anchored, h.room⟩⟩

/-! ## What a sound run keeps -/

/-- A snapshot of a window from the anchor on: its frames are over, the channel was written in
each of them, and nothing has been added to them since. -/
def Snapshot.Whole (c : Nat) (frames : Int) (heard : List Heard) (w : Snapshot) : Prop :=
  w.anchor + 2 ≤ w.frame → w.frame ≤ frames ∧
    (∀ k, w.anchor ≤ k → k < w.frame → ∃ h ∈ w.heard, h.For k c) ∧
      (∀ h ∈ w.heard, h ∈ heard) ∧ ∀ h ∈ heard, (h.frame : Int) < w.frame → h ∈ w.heard

/-- The rings hold what was written for the channel, until a round of them has passed. -/
def Holding (c : Nat) (s : State) (heard : List Heard) : Prop :=
  ∀ k : Nat, (∀ h ∈ heard, h.sample.channel = c → h.frame < k + 256) →
    (∃ h ∈ heard, h.For k c) →
      ∃ h ∈ heard, h.For k c ∧ rings s (slotOf k c) = packed h.sample.audio

structure Watched (c : Nat) (s : State) (o : Sight) : Prop where
  tracks : Ledger.Tracks s o.ledger
  frames : 0 ≤ o.ledger.frames
  anchor : 0 ≤ o.ledger.anchorFrame ∧ o.ledger.anchorFrame ≤ o.ledger.frames + 1
  idle : s.started = false → o.ledger.frames ≤ o.ledger.anchorFrame
  heard : ∀ h ∈ o.heard, (h.frame : Int) ≤ o.ledger.frames
  taken : s.started = true → ∀ h ∈ o.heard, o.ledger.anchorFrame ≤ h.frame → h.taken = true
  whole : s.started = true → ∀ k, o.ledger.anchorFrame ≤ k → k < o.ledger.frames →
    ∃ h ∈ o.heard, h.For k c
  holding : Holding c s o.heard
  rd : o.ledger.base + o.ledger.consumed ≤ o.ledger.frames ∨
    o.ledger.base + o.ledger.consumed ≤ o.ledger.anchorFrame + 1
  primed : s.primed = true → o.ledger.base + o.ledger.consumed + 1 ≤ o.ledger.frames ∨
    o.ledger.base + o.ledger.consumed ≤ o.ledger.anchorFrame
  snap : s.rdSnap = wrapped 32 (channels * o.snapshot.frame)
  snapshot : o.snapshot.Whole c o.ledger.frames o.heard ∧ 0 ≤ o.snapshot.anchor
  address : (s.ringAdr : Int) =
      (channels * o.position.frame + (o.position.channel % channels : Nat)) % sringDepth ∧
    s.csMemD = o.position.channel / channels
  position : o.position.snapshot.Whole c o.ledger.frames o.heard ∧
    0 ≤ o.position.snapshot.anchor ∧ (o.position.inside = true →
      o.position.start + 2 ≤ o.position.snapshot.frame ∧
        o.position.frame < o.position.snapshot.frame)

/-! ## One cycle -/

section Cycle

variable {c : Nat} {s : State} {o : Sight} {i : Input}

/-- A cycle offers nothing to the rings, or one sample of the frame that is then current. -/
theorem offer_cases (s : State) (i : Input) (l : Ledger) :
    (s.sampVld = false ∧ offer s i = [] ∧ (Ledger.next s i l).frames = l.frames) ∨
      ∃ x, s.sampVld = true ∧ offer s i = [(x, doWrite s i)] ∧ x.marker = first s ∧
        (Ledger.next s i l).frames = l.frames + if x.marker then 1 else 0 := by
  rw [offer, registered]
  cases hvld : s.sampVld with
  | false => exact .inl ⟨rfl, rfl, by simp [Ledger.next, frameBegin, hvld]⟩
  | true =>
      refine .inr ⟨⟨chanNr s, first s, s.sampLoR⟩, rfl, rfl, rfl, ?_⟩
      cases hfirst : first s <;> simp [Ledger.next, frameBegin, hvld, hfirst]

theorem frames_next (s : State) (i : Input) (l : Ledger) :
    l.frames ≤ (Ledger.next s i l).frames ∧ (Ledger.next s i l).frames ≤ l.frames + 1 := by
  simp only [Ledger.next]
  split <;> omega

theorem anchorFrame_next (h : Watched c s o) :
    o.ledger.anchorFrame ≤ (Ledger.next s i o.ledger).anchorFrame ∧
      (Ledger.next s i o.ledger).anchorFrame ≤ o.ledger.frames + 1 := by
  have hanchor := h.anchor
  simp only [Ledger.next]
  split <;> omega

/-- The write of the cycle, on the grid of the frames counted. -/
theorem attempt_sighted (h : Watched c s o) :
    attempt s i = (offer s i).map fun x =>
      ⟨slotOf (Ledger.next s i o.ledger).frames.toNat x.1.channel, packed x.1.audio, x.2⟩ := by
  have hframes := h.frames
  have hbase : s.frameBase = BitVec.ofNat 32 (8 * o.ledger.frames.toNat) := by
    have hcast : (8 * o.ledger.frames.toNat : Nat) = o.ledger.written := by
      show ((8 * o.ledger.frames.toNat : Nat) : Int) = 8 * o.ledger.frames
      omega
    rw [h.tracks.frameBase, ← hcast]
    exact BitVec.ofInt_natCast 32 _
  rw [attempt_eq i hbase]
  rcases offer_cases s i o.ledger with ⟨-, hoffer, -⟩ | ⟨x, -, hoffer, -, hnext⟩
  · rw [hoffer]
    rfl
  · have hframe : (if x.marker then o.ledger.frames.toNat + 1 else o.ledger.frames.toNat) =
        (Ledger.next s i o.ledger).frames.toNat := by
      rw [hnext]
      split <;> omega
    rw [hoffer, grid, grid, hframe]
    rfl

/-- The grid starts with the talker on, at a marker. -/
theorem started_cases (h : nextStarted s i = true) :
    en i = true ∧ (s.started = true ∨ s.started = false ∧ frameBegin s = true) := by
  rw [nextStarted] at h
  cases hen : en i with
  | false =>
      rw [hen] at h
      cases h
  | true =>
      cases hst : s.started with
      | true => exact ⟨rfl, .inl rfl⟩
      | false =>
          cases hb : frameBegin s with
          | true => exact ⟨rfl, .inr ⟨rfl, rfl⟩⟩
          | false =>
              rw [hen, hst, hb] at h
              cases h

theorem anchorFrame_started (hen : en i = true) (hst : s.started = true) (l : Ledger) :
    (Ledger.next s i l).anchorFrame = l.anchorFrame := by
  simp [Ledger.next, hen, hst]

theorem anchorFrame_begin (hst : s.started = false) (hb : frameBegin s = true) (l : Ledger) :
    (Ledger.next s i l).anchorFrame = l.frames + 1 := by
  simp [Ledger.next, hst, hb]

/-- While the grid runs, what is offered is taken. -/
theorem doWrite_started (hs : Sound c (s, o) i) (hvld : s.sampVld = true)
    (hon : nextStarted s i = true) : doWrite s i = true := by
  obtain ⟨hen, hstart⟩ := started_cases hon
  have hgrid : s.started = true ∨ first s = true := by
    rcases hstart with hst | ⟨-, hb⟩
    · exact .inl hst
    · rw [frameBegin, Bool.and_eq_true] at hb
      exact .inr hb.2
  have hspace := hs.space hen hvld hgrid
  simp only [doWrite, hen, hvld, hspace, Bool.true_and, Bool.and_true, Bool.or_eq_true]
  exact hgrid

/-- A sample that is heard from the anchor on has been taken. -/
theorem taken_step (h : Watched c s o) (hs : Sound c (s, o) i) (hon : nextStarted s i = true) :
    ∀ x ∈ (Sight.next s i o).heard, (Ledger.next s i o.ledger).anchorFrame ≤ x.frame →
      x.taken = true := by
  obtain ⟨hen, hstart⟩ := started_cases hon
  intro x hx hfrom
  rcases List.mem_append.1 hx with hold | hnew
  · rcases hstart with hst | ⟨hst, hb⟩
    · rw [anchorFrame_started hen hst] at hfrom
      exact h.taken hst x hold hfrom
    · rw [anchorFrame_begin hst hb] at hfrom
      have hle := h.heard x hold
      omega
  · rcases offer_cases s i o.ledger with ⟨-, hoffer, -⟩ | ⟨y, hvld, hoffer, -, -⟩
    · rw [hoffer] at hnew
      exact absurd hnew List.not_mem_nil
    · rw [hoffer] at hnew
      rw [List.mem_singleton.1 hnew]
      exact doWrite_started hs hvld hon

/-- Every frame from the anchor on has brought the channel by the time it is over. -/
theorem whole_step (h : Watched c s o) (hs : Sound c (s, o) i) (hon : nextStarted s i = true) :
    ∀ k, (Ledger.next s i o.ledger).anchorFrame ≤ k → k < (Ledger.next s i o.ledger).frames →
      ∃ x ∈ (Sight.next s i o).heard, x.For k c := by
  obtain ⟨hen, hstart⟩ := started_cases hon
  intro k hfrom hto
  have hnext := frames_next s i o.ledger
  rcases hstart with hst | ⟨hst, hb⟩
  · rw [anchorFrame_started hen hst] at hfrom
    by_cases hover : k < o.ledger.frames
    · obtain ⟨x, hx, hfor⟩ := h.whole hst k hfrom hover
      exact ⟨x, List.mem_append_left _ hx, hfor⟩
    · -- the frame that has just ended
      have hk : k = o.ledger.frames := by omega
      have hb : frameBegin s = true := by
        by_contra hno
        simp only [Ledger.next, hno, if_false] at hto
        omega
      obtain ⟨x, hx, hframe, hchan⟩ := hs.whole hst hb
      have hframe : (x.frame : Int) = o.ledger.frames := hframe
      have htaken := h.taken hst x hx (by omega)
      exact ⟨x, List.mem_append_left _ hx, htaken, by omega, hchan⟩
  · rw [anchorFrame_begin hst hb] at hfrom
    omega

theorem heard_step (h : Watched c s o) :
    ∀ x ∈ (Sight.next s i o).heard, (x.frame : Int) ≤ (Ledger.next s i o.ledger).frames := by
  have hnext := frames_next s i o.ledger
  have hframes := h.frames
  intro x hx
  rcases List.mem_append.1 hx with hold | hnew
  · have hle := h.heard x hold
    omega
  · obtain ⟨y, -, rfl⟩ := List.mem_map.1 hnew
    show ((Ledger.next s i o.ledger).frames.toNat : Int) ≤ _
    omega

/-- Channels do not share their entries, nor do frames less than a round of the rings apart. -/
theorem slotOf_ne {k k' c' : Nat} (hle : k ≤ k') (hround : c' = c → k' < k + 256)
    (hne : ¬ (k' = k ∧ c' = c)) : slotOf k' c' ≠ slotOf k c := by
  intro heq
  have hb : c' / 8 = c / 8 := congrArg Prod.fst heq
  have ha : (8 * k' + c' % 8) % 2048 = (8 * k + c % 8) % 2048 := congrArg Prod.snd heq
  have hc : c' = c := by omega
  have hless := hround hc
  omega

theorem holding_step (h : Watched c s o) :
    Holding c (step s i) (Sight.next s i o).heard := by
  intro k hrecent hfor
  have hrings := rings_step s i
  rw [attempt_sighted h] at hrings
  rcases offer_cases s i o.ledger with ⟨-, hoffer, -⟩ | ⟨y, -, hoffer, -, -⟩
  · have hheard : (Sight.next s i o).heard = o.heard := by simp [Sight.next, hoffer]
    rw [hoffer] at hrings
    rw [hheard] at hrecent hfor ⊢
    rw [hrings]
    exact h.holding k hrecent hfor
  · have hframes := h.frames
    have hgrow := frames_next s i o.ledger
    have hheard : (Sight.next s i o).heard =
        o.heard ++ [⟨(Ledger.next s i o.ledger).frames.toNat, y, doWrite s i⟩] := by
      simp [Sight.next, hoffer]
    rw [hoffer] at hrings
    rw [hheard] at hrecent hfor ⊢
    rw [hrings]
    generalize hk' : (Ledger.next s i o.ledger).frames.toNat = k' at hrecent hfor ⊢
    show ∃ x ∈ _, _ ∧ deposit (rings s) ⟨slotOf k' y.channel, packed y.audio, doWrite s i⟩ _ = _
    by_cases hnew : doWrite s i = true ∧ k' = k ∧ y.channel = c
    · obtain ⟨hwrite, rfl, rfl⟩ := hnew
      exact ⟨⟨k', y, doWrite s i⟩, by simp, ⟨hwrite, rfl, rfl⟩, deposit_of_taken _ hwrite⟩
    · -- what the channel has of frame `k` is older, and its entry is not written
      have hold : ∃ x ∈ o.heard, x.For k c := by
        obtain ⟨x, hx, htaken, hframe, hchan⟩ := hfor
        rcases List.mem_append.1 hx with hx | hx
        · exact ⟨x, hx, htaken, hframe, hchan⟩
        · rw [List.mem_singleton.1 hx] at htaken hframe hchan
          exact absurd ⟨htaken, Int.ofNat.inj hframe, hchan⟩ hnew
      obtain ⟨x, hx, hx', hentry⟩ :=
        h.holding k (fun x hx => hrecent x (List.mem_append_left _ hx)) hold
      have hle := h.heard x hx
      have hframe := hx'.2.1
      refine ⟨x, List.mem_append_left _ hx, hx', ?_⟩
      rw [← hentry]
      cases hwrite : doWrite s i with
      | false => rw [deposit_of_dropped _ rfl]
      | true =>
          refine deposit_of_ne _ (slotOf_ne (by omega) (fun hc => ?_) fun hsame => hnew ?_)
          · exact hrecent ⟨k', y, doWrite s i⟩ (by simp) hc
          · exact ⟨hwrite, hsame⟩

/-- Where `rd` points, in frames. -/
theorem rd_step (h : Watched c s o) :
    (Ledger.next s i o.ledger).base + (Ledger.next s i o.ledger).consumed ≤
        (Ledger.next s i o.ledger).frames ∨
      (Ledger.next s i o.ledger).base + (Ledger.next s i o.ledger).consumed ≤
        (Ledger.next s i o.ledger).anchorFrame + 1 := by
  have hnext := frames_next s i o.ledger
  have hanchor := (anchorFrame_next (i := i) h).1
  have hrd := h.rd
  cases hload : walkStart s && !s.alignedOnce with
  | true =>
      have hpos : (Ledger.next s i o.ledger).base + (Ledger.next s i o.ledger).consumed =
          o.ledger.anchorFrame := by
        simp [Ledger.next, hload]
      omega
  | false =>
      cases hmove : strobe i && s.primed with
      | true =>
          have hpos : (Ledger.next s i o.ledger).base + (Ledger.next s i o.ledger).consumed =
              o.ledger.base + o.ledger.consumed + 1 := by
            simp only [Ledger.next, hload, hmove, if_true, Bool.false_eq_true, if_false]
            omega
          rw [Bool.and_eq_true] at hmove
          have hprimed := h.primed hmove.2
          omega
      | false =>
          have hpos : (Ledger.next s i o.ledger).base + (Ledger.next s i o.ledger).consumed =
              o.ledger.base + o.ledger.consumed := by
            simp [Ledger.next, hload, hmove]
          omega

/-- A ring that counts as primed is sixteen frames ahead of `rd`, until `rd` is loaded. -/
theorem primed_step (h : Watched c s o) (hs : Sound c (s, o) i) (hprimed : nextPrimed s i = true) :
    (Ledger.next s i o.ledger).base + (Ledger.next s i o.ledger).consumed + 1 ≤
        (Ledger.next s i o.ledger).frames ∨
      (Ledger.next s i o.ledger).base + (Ledger.next s i o.ledger).consumed ≤
        (Ledger.next s i o.ledger).anchorFrame := by
  have hlevel : 128 ≤ level s := by
    rw [nextPrimed] at hprimed
    split at hprimed
    · cases hprimed
    split at hprimed
    · rename_i hcenter
      have hcenter : (1024 : Int) ≤ level s := hcenter
      omega
    split at hprimed
    · cases hprimed
    · rename_i hfloor
      have hfloor : ¬ level s < (128 : Int) := hfloor
      omega
  have hblocks : o.ledger.read / 2 ^ 32 ≤ o.ledger.written / 2 ^ 32 := hs.unwrapped
  have hnext := frames_next s i o.ledger
  have hanchor := (anchorFrame_next (i := i) h).1
  have hahead : o.ledger.base + o.ledger.consumed + 16 ≤ o.ledger.frames := by
    have heq := level_of_tracks h.tracks
    have hocc : o.ledger.occupancy =
        8 * (o.ledger.frames - o.ledger.base) - 8 * o.ledger.consumed := rfl
    omega
  cases hload : walkStart s && !s.alignedOnce with
  | true =>
      have hpos : (Ledger.next s i o.ledger).base + (Ledger.next s i o.ledger).consumed =
          o.ledger.anchorFrame := by
        simp [Ledger.next, hload]
      omega
  | false =>
      have hpos : (Ledger.next s i o.ledger).base + (Ledger.next s i o.ledger).consumed ≤
          o.ledger.base + o.ledger.consumed + 1 := by
        simp only [Ledger.next, hload, Bool.false_eq_true, if_false]
        split <;> omega
      omega

/-- A snapshot stays what it is: whatever is offered later is of a later frame. -/
theorem Snapshot.Whole.next {w : Snapshot} (h : Watched c s o)
    (hw : w.Whole c o.ledger.frames o.heard) :
    w.Whole c (Ledger.next s i o.ledger).frames (Sight.next s i o).heard := by
  intro hwindow
  obtain ⟨hover, hwritten, hkept, hold⟩ := hw hwindow
  have hnext := frames_next s i o.ledger
  have hframes := h.frames
  refine ⟨by omega, hwritten, fun x hx => List.mem_append_left _ (hkept x hx),
    fun x hx hbefore => ?_⟩
  rcases List.mem_append.1 hx with hx | hx
  · exact hold x hx hbefore
  · obtain ⟨y, -, rfl⟩ := List.mem_map.1 hx
    have hbefore : ((Ledger.next s i o.ledger).frames.toNat : Int) < w.frame := hbefore
    omega

/-- The snapshot of a due strobe. -/
theorem whole_snapshot (h : Watched c s o) :
    (Snapshot.mk (o.ledger.base + o.ledger.consumed) o.ledger.anchorFrame o.heard).Whole c
      o.ledger.frames o.heard := by
  intro hwindow
  have hwindow : o.ledger.anchorFrame + 2 ≤ o.ledger.base + o.ledger.consumed := hwindow
  have hrd := h.rd
  have hover : o.ledger.base + o.ledger.consumed ≤ o.ledger.frames := by omega
  have hon : s.started = true := by
    by_contra hoff
    have hidle := h.idle (Bool.eq_false_iff.2 hoff)
    omega
  exact ⟨hover, fun k hfrom hto => h.whole hon k hfrom (Int.lt_of_lt_of_le hto hover),
    fun x hx => hx, fun x hx _ => hx⟩

/-- The address registers take the address of the position. -/
theorem address_step (h : Watched c s o) :
    ((step s i).ringAdr : Int) =
        (channels * (Sight.next s i o).position.frame +
          ((Sight.next s i o).position.channel % channels : Nat)) % sringDepth ∧
      (step s i).csMemD = (Sight.next s i o).position.channel / channels := by
  refine ⟨?_, rfl⟩
  show (((rdf s).toNat % 2048 : Nat) : Int) =
    (8 * (o.snapshot.frame - curFpp s + s.csSamp) + (csCh s % 8 : Nat)) % 2048
  have hrdf : rdf s = wrapped 32
      (8 * (o.snapshot.frame - curFpp s + s.csSamp) + (csCh s % 8 : Nat)) := by
    have hnat : ∀ n : Nat, BitVec.ofNat 32 n = wrapped 32 (n : Int) :=
      fun n => (BitVec.ofInt_natCast 32 n).symm
    rw [rdf, fBase, h.snap, hnat, hnat, hnat, ← wrapped_sub, ← wrapped_add, ← wrapped_add]
    congr 1
    push_cast
    ring
  have hword := toNat_wrapped (w := 32)
    (8 * (o.snapshot.frame - curFpp s + s.csSamp) + (csCh s % 8 : Nat))
  rw [← hrdf] at hword
  omega

theorem position_step (h : Watched c s o) :
    (Sight.next s i o).position.snapshot.Whole c (Ledger.next s i o.ledger).frames
        (Sight.next s i o).heard ∧
      0 ≤ (Sight.next s i o).position.snapshot.anchor ∧
        ((Sight.next s i o).position.inside = true →
          (Sight.next s i o).position.start + 2 ≤ (Sight.next s i o).position.snapshot.frame ∧
            (Sight.next s i o).position.frame < (Sight.next s i o).position.snapshot.frame) := by
  have hfpp : 2 ≤ curFpp s := fpp_pos _
  refine ⟨h.snapshot.1.next h, h.snapshot.2, fun hin => ?_⟩
  have hin : s.csSamp < curFpp s := of_decide_eq_true hin
  constructor
  · show o.snapshot.frame - curFpp s + 2 ≤ o.snapshot.frame
    omega
  · show o.snapshot.frame - curFpp s + s.csSamp < o.snapshot.frame
    omega

theorem snapshot_step (h : Watched c s o) :
    (Sight.next s i o).snapshot.Whole c (Ledger.next s i o.ledger).frames
        (Sight.next s i o).heard ∧ 0 ≤ (Sight.next s i o).snapshot.anchor := by
  show (if dueStrobe s i then _ else _ : Snapshot).Whole c _ _ ∧
    0 ≤ (if dueStrobe s i then _ else _ : Snapshot).anchor
  cases hdue : dueStrobe s i with
  | true => exact ⟨(whole_snapshot h).next h, h.anchor.1⟩
  | false => exact ⟨h.snapshot.1.next h, h.snapshot.2⟩

theorem snap_step (h : Watched c s o) :
    (step s i).rdSnap = wrapped 32 (channels * (Sight.next s i o).snapshot.frame) := by
  show (if dueStrobe s i then s.rd else s.rdSnap) =
    wrapped 32 (channels * (if dueStrobe s i then _ else _ : Snapshot).frame)
  cases hdue : dueStrobe s i with
  | true => exact h.tracks.rd
  | false => exact h.snap

theorem idle_step (h : Watched c s o) (hoff : nextStarted s i = false) :
    (Ledger.next s i o.ledger).frames ≤ (Ledger.next s i o.ledger).anchorFrame := by
  rw [nextStarted] at hoff
  cases hen : en i with
  | false =>
      have hnext := frames_next s i o.ledger
      have hanchor : (Ledger.next s i o.ledger).anchorFrame = o.ledger.frames + 1 := by
        simp [Ledger.next, hen]
      omega
  | true =>
      cases hb : frameBegin s with
      | true =>
          rw [hen, hb] at hoff
          cases hoff
      | false =>
          rw [hen, hb] at hoff
          have hidle := h.idle hoff
          have hanchor := (anchorFrame_next (i := i) h).1
          have hframes : (Ledger.next s i o.ledger).frames = o.ledger.frames := by
            simp [Ledger.next, hb]
          omega

theorem watched_step (h : Watched c s o) (hs : Sound c (s, o) i) :
    Watched c (step s i) (Sight.next s i o) where
  tracks := Ledger.tracks_step h.tracks i
  frames := Int.le_trans h.frames (frames_next s i o.ledger).1
  anchor := by
    have hanchor := anchorFrame_next (i := i) h
    have hnext := (frames_next s i o.ledger).1
    have hpos := h.anchor.1
    exact ⟨Int.le_trans hpos hanchor.1, Int.le_trans hanchor.2 (Int.add_le_add_right hnext 1)⟩
  idle := idle_step h
  heard := heard_step h
  taken := taken_step h hs
  whole := whole_step h hs
  holding := holding_step h
  rd := rd_step h
  primed := primed_step h hs
  snap := snap_step h
  snapshot := snapshot_step h
  address := address_step h
  position := position_step h

/-! ## What is read -/

theorem unpacked_packed (x : Word) : unpacked (packed x) = x := by
  apply BitVec.eq_of_getLsbD_eq
  intro j hj
  simp only [unpacked, packed, byteAt, BitVec.getLsbD_append, BitVec.getLsbD_extractLsb']
  interval_cases j <;> simp

/-- In a sound cycle a sample of the channel is read as it was written. -/
theorem faithful_read (hc : c < channels * streams) (h : Watched c s o) (hs : Sound c (s, o) i)
    (hread : Sight.reading s o = true) (hchan : o.position.channel = c) :
    (Read.mk o.position.frame o.position.channel o.position.snapshot.heard
      (sampRd s)).Faithful := by
  have hanchored : o.position.snapshot.anchor ≤ o.position.start := hs.anchored hread hchan
  have hroom : ∀ x ∈ o.heard, x.sample.channel = c → (x.frame : Int) < o.position.frame + 256 :=
    hs.room hread hchan
  obtain ⟨hwhole, hpos, hwindow⟩ := h.position
  rw [Sight.reading, Bool.and_eq_true] at hread
  obtain ⟨hstart, hlast⟩ := hwindow hread.2
  have hfirst : o.position.start ≤ o.position.frame := by
    show _ ≤ o.position.start + (o.position.sample : Int)
    omega
  obtain ⟨-, hwritten, hkept, hold⟩ := hwhole (by omega)
  obtain ⟨x, hx, hfor⟩ := hwritten o.position.frame (by omega) hlast
  -- the frame's entry still holds what the channel has of it
  obtain ⟨k, hk⟩ := Int.eq_ofNat_of_zero_le (by omega : 0 ≤ o.position.frame)
  obtain ⟨haddr, hmem⟩ := h.address
  rw [hk] at hroom hlast hfor haddr ⊢
  have hrecent : ∀ x ∈ o.heard, x.sample.channel = c → x.frame < k + 256 := fun x hx hxc => by
    have hless := hroom x hx hxc
    omega
  obtain ⟨y, hy, hyfor, hentry⟩ := h.holding k hrecent ⟨x, hkept x hx, hfor⟩
  have hybefore := hold y hy (by rw [hyfor.2.1]; exact hlast)
  have hslot : (min s.csMemD 5, s.ringAdr) = slotOf k c := by
    rw [hchan] at haddr hmem
    have haddr : (s.ringAdr : Int) = (8 * (k : Int) + (c % 8 : Nat)) % 2048 := haddr
    have hc : c < 48 := hc
    have hmem : s.csMemD = c / 8 := hmem
    show _ = (c / 8, (8 * k + c % 8) % 2048)
    rw [Prod.mk.injEq]
    omega
  refine ⟨y, hybefore, hchan ▸ hyfor, ?_⟩
  show unpacked (rings s (min s.csMemD 5, s.ringAdr)) = _
  rw [hslot, hentry, unpacked_packed]

end Cycle

/-! ## The law of the windows read -/

theorem watched_reset (c : Nat) : Watched c State.reset Sight.start where
  tracks := Ledger.tracks_reset
  frames := by decide
  anchor := by decide
  idle := fun _ => by decide
  heard := fun _ hx => absurd hx List.not_mem_nil
  taken := fun hon => by cases hon
  whole := fun hon => by cases hon
  holding := fun _ _ ⟨_, hx, _⟩ => absurd hx List.not_mem_nil
  rd := .inl (by decide)
  primed := fun hprimed => by cases hprimed
  snap := by decide
  snapshot := ⟨fun hwindow => absurd hwindow (by decide), by decide⟩
  address := ⟨by decide, rfl⟩
  position := ⟨fun hwindow => absurd hwindow (by decide), by decide, fun hin => by cases hin⟩

/-- The packetizer and its observer after the inputs `is`, from reset. -/
def sightedRun (is : List Input) : State × Sight := run sighted (State.reset, Sight.start) is

/-- Along sound cycles every sample of the channel is read as it was written. -/
theorem window_integrity (c : Nat) (hc : c < channels * streams) (is : List Input)
    (h : Along sighted (Sound c) (State.reset, Sight.start) is) :
    ∀ r ∈ (sightedRun is).2.reads, r.channel = c → r.Faithful := by
  have hrun := h.invariant (P := fun p => Watched c p.1 p.2 ∧
    ∀ r ∈ p.2.reads, r.channel = c → r.Faithful) (fun p i hs hp => ?_)
    ⟨watched_reset c, fun r hr => absurd hr List.not_mem_nil⟩
  · exact hrun.2
  · refine ⟨watched_step hp.1 hs, fun r hr hchan => ?_⟩
    rcases List.mem_append.1 hr with hr | hr
    · exact hp.2 r hr hchan
    · cases hread : Sight.reading p.1 p.2 with
      | false =>
          rw [hread] at hr
          exact absurd hr List.not_mem_nil
      | true =>
          rw [hread] at hr
          rw [List.mem_singleton.1 hr] at hchan ⊢
          exact faithful_read hc hp.1 hs hread hchan

/-- USB frames of one sample each, of channel 0. -/
def monoFrames (n : Nat) (audio : Word) : List Input := List.replicate n (Input.usb 64 audio)

/-- The rings are anchored and primed, and `rd` is three frames on when a flow of two samples a
packet is bound, one strobe before its group ends. -/
def threeRead : List Input :=
  [Input.bind 0 0x61 1 0x80 0, Input.tick, Input.quiet] ++ monoFrames 90 0 ++
    [Input.bind 0 0 0 0 0] ++ monoFrames 60 0 ++ List.replicate 3 Input.tick ++
      [Input.bind 0 0x61 1 0x80 0]

/-- The flow is due, and its packet is built up to the first read. -/
def firstRead : List Input := Input.tick :: List.replicate 4 Input.quiet

theorem window_integrity_first :
    (sightedRun (threeRead ++ firstRead)).2.reads.map Read.frame = [1] ∧
      ∀ r ∈ (sightedRun (threeRead ++ firstRead)).2.reads, r.channel = 0 → r.Faithful :=
  ⟨by decide +kernel, window_integrity 0 (by decide) (threeRead ++ firstRead) (by decide +kernel)⟩

/-- With the rings almost full, the window's first frame is overwritten while there is still space
ahead of `rd`. -/
theorem window_overrun :
    Along step Unsuppressed State.reset (threeRead ++ monoFrames 106 0 ++ monoFrames 2 1 ++
      firstRead) ∧
    ∃ r ∈ (sightedRun (threeRead ++ monoFrames 106 0 ++ monoFrames 2 1 ++ firstRead)).2.reads,
      r.frame = 1 ∧ r.channel = 0 ∧ ¬ r.Faithful := by
  decide +kernel

end Packetizer
end InfernoFpga
