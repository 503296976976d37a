import InfernoFpga.Lib.Run
import Mathlib.Data.List.GetD

/-!
# RxGate — the destination-MAC allow-list in front of the receive slots

`RXGate` observes the stream that the SRAM writer stores.  It latches the first six bytes of a
frame from its first two beats, classifies them in two registered stages, and drives the
writer's `discard_in`.  The specification speaks of whole frames instead: the destination of a
frame is read off its bytes, and a frame is dropped for what it is, not for what the registers
held before it.
-/

namespace InfernoFpga
namespace Mac

open Lib

abbrev MacAddr := BitVec 48
abbrev Octet := BitVec 8

/-! ## Signals -/

/-- The CSR storages.  A spare slot is its `hi` and `lo` register. -/
structure GateCsr where
  enable : Bool
  localMacHi : BitVec 16
  localMacLo : BitVec 32
  spares : List (BitVec 16 × BitVec 32)
  deriving DecidableEq

/-- Every storage resets to zero. -/
def GateCsr.reset (nSpare : Nat) : GateCsr := ⟨false, 0, 0, List.replicate nSpare (0, 0)⟩

/-- `local_mac`. -/
def GateCsr.localMac (c : GateCsr) : MacAddr := c.localMacHi ++ c.localMacLo

/-- `enable & (local_mac != 0)`, the input of the interlock register. -/
def GateCsr.arms (c : GateCsr) : Bool := c.enable && c.localMac != 0

structure GateInput where
  csr : GateCsr
  valid : Bool
  ready : Bool
  last : Bool
  data : BitVec 32

structure Gate where
  beat : Nat
  w0 : BitVec 32
  w1 : BitVec 16
  dstMac : MacAddr
  allow : Bool
  armed : Bool
  matchCount : BitVec 32
  nomatchCount : BitVec 32
  discardCount : BitVec 32
  lastDropHi : BitVec 16
  lastDropLo : BitVec 32

def Gate.reset : Gate :=
  { beat := 0, w0 := 0, w1 := 0, dstMac := 0, allow := false, armed := false
    matchCount := 0, nomatchCount := 0, discardCount := 0, lastDropHi := 0, lastDropLo := 0 }

/-- Byte `k` of a beat, the first one on the wire in the least significant lane. -/
def lane {w : Nat} (x : BitVec w) (k : Nat) : Octet := x.extractLsb' (8 * k) 8

/-- `MAC_BROADCAST`. -/
abbrev macBroadcast : MacAddr := 0xffffffffffff

section Signals

-- `rules` are the masked rules: `dst_mac & mask == value`
variable (rules : List (MacAddr × MacAddr)) (s : Gate) (i : GateInput)

def beatAccept : Bool := i.valid && i.ready

def eof : Bool := beatAccept i && i.last

/-- `dst_mac_c`. -/
def dstMacC : MacAddr :=
  lane s.w0 0 ++ lane s.w0 1 ++ lane s.w0 2 ++ lane s.w0 3 ++ lane s.w1 0 ++ lane s.w1 1

/-- `allow_c` for an address. -/
def allowC (c : GateCsr) (dst : MacAddr) : Bool :=
  dst == macBroadcast || dst == c.localMac || rules.any (fun r => dst &&& r.1 == r.2) ||
    c.spares.any fun p => p.1 ++ p.2 != 0 && dst == p.1 ++ p.2

def decided : Bool := decide (4 ≤ s.beat)

def discard : Bool := s.armed && decided s && !s.allow

def gateStep : Gate :=
  let counted := eof i && decided s
  { beat :=
      if beatAccept i then
        if i.last then 0 else if s.beat != 7 then s.beat + 1 else s.beat
      else s.beat
    w0 := if beatAccept i && s.beat == 0 then i.data else s.w0
    w1 := if beatAccept i && s.beat == 1 then i.data.extractLsb' 0 16 else s.w1
    dstMac := if beatAccept i && s.beat == 2 then dstMacC s else s.dstMac
    allow := if beatAccept i && s.beat == 3 then allowC rules i.csr s.dstMac else s.allow
    armed := i.csr.arms
    matchCount := if counted && s.allow then s.matchCount + 1 else s.matchCount
    nomatchCount := if counted && !s.allow then s.nomatchCount + 1 else s.nomatchCount
    discardCount :=
      if counted && !s.allow && s.armed then s.discardCount + 1 else s.discardCount
    lastDropHi := if counted && !s.allow then s.dstMac.extractLsb' 32 16 else s.lastDropHi
    lastDropLo := if counted && !s.allow then s.dstMac.extractLsb' 0 32 else s.lastDropLo }

end Signals

/-- `DEFAULT_ALLOW_RULES`: the link-local groups, PTPv1, and the 802.1 reserved range. -/
def defaultAllowRules : List (MacAddr × MacAddr) :=
  [(0xffffffff0000, 0x01005e000000), (0xffffffffffff, 0x01005e000181),
    (0xffffff000000, 0x0180c2000000)]

/-! ## What a frame is worth -/

/-- A frame as it was received: its accepted beats and the CSRs it was received under. -/
structure Received where
  beats : List (BitVec 32)
  csr : GateCsr
  deriving DecidableEq

/-- The bytes of a frame in the order of the wire. -/
def frameBytes (beats : List (BitVec 32)) : List Octet :=
  beats.flatMap fun w => [lane w 0, lane w 1, lane w 2, lane w 3]

/-- The address in the first six bytes. -/
def destination (bytes : List Octet) : MacAddr :=
  bytes.getD 0 0 ++ bytes.getD 1 0 ++ bytes.getD 2 0 ++ bytes.getD 3 0 ++ bytes.getD 4 0 ++
    bytes.getD 5 0

namespace Received

variable (rules : List (MacAddr × MacAddr)) (f : Received)

def dst : MacAddr := destination (frameBytes f.beats)

/-- Five beats or more are classified. -/
def Classified : Prop := 5 ≤ f.beats.length

/-- Broadcast, the local address, an allow rule or a spare slot that is in use. -/
def Admitted : Prop :=
  f.dst = macBroadcast ∨ f.dst = f.csr.localMac ∨ (∃ r ∈ rules, f.dst &&& r.1 = r.2) ∨
    ∃ p ∈ f.csr.spares, p.1 ++ p.2 ≠ 0 ∧ f.dst = p.1 ++ p.2

/-- Enabled, with a local address programmed. -/
def Armed : Prop := f.csr.enable = true ∧ f.csr.localMac ≠ 0

instance : Decidable f.Classified := inferInstanceAs (Decidable (_ ≤ _))

instance : Decidable (f.Admitted rules) := inferInstanceAs (Decidable (_ ∨ _ ∨ _ ∨ _))

instance : Decidable f.Armed := inferInstanceAs (Decidable (_ ∧ _))

/-- Classified and not admitted. -/
def Refused : Prop := f.Classified ∧ ¬ f.Admitted rules

instance : Decidable (f.Refused rules) := inferInstanceAs (Decidable (_ ∧ _))

end Received

/-! ## The observer -/

/-- The frame in progress, the CSRs of the last cycle, and the frames received so far. -/
structure GateLog where
  beats : List (BitVec 32)
  csr : GateCsr
  frames : List Received

namespace GateLog

def start (nSpare : Nat) : GateLog := ⟨[], GateCsr.reset nSpare, []⟩

/-- The frame that ends with this beat. -/
def ending (i : GateInput) (o : GateLog) : Received := ⟨o.beats ++ [i.data], i.csr⟩

def next (_ : Gate) (i : GateInput) (o : GateLog) : GateLog :=
  { beats := if beatAccept i then (if i.last then [] else o.beats ++ [i.data]) else o.beats
    csr := i.csr
    frames := if eof i then o.frames ++ [o.ending i] else o.frames }

end GateLog

/-- Inside a frame no CSR changes. -/
def CsrStable (x : Gate × GateLog) (i : GateInput) : Prop := x.2.beats ≠ [] → i.csr = x.2.csr

instance (x : Gate × GateLog) (i : GateInput) : Decidable (CsrStable x i) :=
  inferInstanceAs (Decidable (_ → _))

/-- The gate with its observer. -/
def gateWatched (rules : List (MacAddr × MacAddr)) : Gate × GateLog → GateInput → Gate × GateLog :=
  watch (gateStep rules) GateLog.next

/-! ## The registers against the frames -/

/-- The registers of the frame in progress. -/
structure Latched (rules : List (MacAddr × MacAddr)) (s : Gate) (o : GateLog) : Prop where
  beat : s.beat = min 7 o.beats.length
  w0 : 1 ≤ o.beats.length → s.w0 = o.beats.getD 0 0
  w1 : 2 ≤ o.beats.length → s.w1 = (o.beats.getD 1 0).extractLsb' 0 16
  dstMac : 3 ≤ o.beats.length → s.dstMac = destination (frameBytes o.beats)
  allow : 4 ≤ o.beats.length →
    s.allow = allowC rules o.csr (destination (frameBytes o.beats))
  armed : s.armed = o.csr.arms

/-- The counters, each against the frames it counts. -/
structure Counters (rules : List (MacAddr × MacAddr)) (s : Gate) (frames : List Received) :
    Prop where
  matched : s.matchCount = BitVec.ofNat 32
    (frames.countP fun f => f.Classified ∧ f.Admitted rules)
  unmatched : s.nomatchCount = BitVec.ofNat 32 (frames.countP fun f => f.Refused rules)
  discarded : s.discardCount = BitVec.ofNat 32
    (frames.countP fun f => f.Refused rules ∧ f.Armed)
  lastDrop : s.lastDropHi ++ s.lastDropLo =
    ((frames.filter fun f => f.Refused rules).map Received.dst).getLastD 0

section Step

variable {rules : List (MacAddr × MacAddr)} {s : Gate} {i : GateInput} {o : GateLog}

theorem allowC_iff (f : Received) :
    allowC rules f.csr f.dst = true ↔ f.Admitted rules := by
  simp [allowC, Received.Admitted, or_assoc]

theorem arms_iff (f : Received) : f.csr.arms = true ↔ f.Armed := by
  simp [GateCsr.arms, Received.Armed]

/-- The first two beats have the whole address. -/
theorem destination_beats (a b : BitVec 32) (l : List (BitVec 32)) :
    destination (frameBytes (a :: b :: l)) =
      lane a 0 ++ lane a 1 ++ lane a 2 ++ lane a 3 ++ lane b 0 ++ lane b 1 := rfl

theorem destination_append {l : List (BitVec 32)} (h : 2 ≤ l.length) (w : BitVec 32) :
    destination (frameBytes (l ++ [w])) = destination (frameBytes l) := by
  obtain ⟨a, b, l, rfl⟩ : ∃ a b m, l = a :: b :: m := by
    match l, h with
    | a :: b :: l, _ => exact ⟨a, b, l, rfl⟩
  rw [List.cons_append, List.cons_append, destination_beats, destination_beats]

theorem lane_low (x : BitVec 32) {k : Nat} (hk : k < 2) :
    lane (x.extractLsb' 0 16) k = lane x k := by
  ext j hj
  simp [lane]
  omega

/-- Stage 1 latches the destination of the frame. -/
theorem dstMacC_latched (h : Latched rules s o) (hlen : 2 ≤ o.beats.length) :
    dstMacC s = destination (frameBytes o.beats) := by
  have hw0 := h.w0 (by omega)
  have hw1 := h.w1 hlen
  obtain ⟨a, b, l, hl⟩ : ∃ a b m, o.beats = a :: b :: m := by
    match o.beats, hlen with
    | a :: b :: l, _ => exact ⟨a, b, l, rfl⟩
  rw [hl] at hw0 hw1
  rw [dstMacC, hw0, hw1, hl, destination_beats]
  show lane a 0 ++ lane a 1 ++ lane a 2 ++ lane a 3 ++ lane (b.extractLsb' 0 16) 0 ++
    lane (b.extractLsb' 0 16) 1 =
      lane a 0 ++ lane a 1 ++ lane a 2 ++ lane a 3 ++ lane b 0 ++ lane b 1
  rw [lane_low b (by decide), lane_low b (by decide)]

theorem getD_concat {l : List (BitVec 32)} {w : BitVec 32} {k : Nat} (h : k < l.length) :
    (l ++ [w]).getD k 0 = l.getD k 0 := List.getD_append _ _ _ _ h

/-- A beat inside a frame. -/
theorem latched_beat (h : Latched rules s o) (hstable : CsrStable (s, o) i)
    (haccept : beatAccept i = true) (hlast : i.last = false) :
    Latched rules (gateStep rules s i) (GateLog.next s i o) := by
  have hbeats : (GateLog.next s i o).beats = o.beats ++ [i.data] := by
    simp [GateLog.next, haccept, hlast]
  have hlen : (GateLog.next s i o).beats.length = o.beats.length + 1 := by
    rw [hbeats, List.length_append, List.length_singleton]
  have hbeat := h.beat
  refine ⟨?_, fun _ => ?_, fun hl => ?_, fun hl => ?_, fun hl => ?_, rfl⟩
  · rw [hlen]
    simp only [gateStep, haccept, hlast, if_true, Bool.false_eq_true, if_false, bne_iff_ne]
    split <;> omega
  · rw [hbeats]
    simp only [gateStep, haccept, Bool.true_and, beq_iff_eq]
    by_cases hzero : o.beats.length = 0
    · have hnil : o.beats = [] := List.length_eq_zero_iff.1 hzero
      rw [if_pos (by omega), hnil]
      rfl
    · rw [if_neg (by omega), h.w0 (by omega), getD_concat (by omega)]
  · rw [hlen] at hl
    rw [hbeats]
    simp only [gateStep, haccept, Bool.true_and, beq_iff_eq]
    by_cases hone : o.beats.length = 1
    · obtain ⟨a, ha⟩ := List.length_eq_one_iff.1 hone
      rw [if_pos (by omega), ha]
      rfl
    · rw [if_neg (by omega), h.w1 (by omega), getD_concat (by omega)]
  · rw [hlen] at hl
    rw [hbeats, destination_append (by omega)]
    simp only [gateStep, haccept, Bool.true_and, beq_iff_eq]
    by_cases htwo : o.beats.length = 2
    · rw [if_pos (by omega)]
      exact dstMacC_latched h (by omega)
    · rw [if_neg (by omega), h.dstMac (by omega)]
  · rw [hlen] at hl
    -- the verdict is taken under the CSRs of this beat and kept under the same ones
    have hcsr : i.csr = o.csr := hstable fun hnil => by
      have hz : o.beats.length = 0 := by rw [hnil]; rfl
      omega
    rw [hbeats, destination_append (by omega)]
    simp only [gateStep, haccept, Bool.true_and, beq_iff_eq]
    show _ = allowC rules i.csr _
    by_cases hthree : o.beats.length = 3
    · rw [if_pos (by omega), h.dstMac (by omega)]
    · rw [if_neg (by omega), h.allow (by omega), hcsr]

theorem latched_step (h : Latched rules s o) (hstable : CsrStable (s, o) i) :
    Latched rules (gateStep rules s i) (GateLog.next s i o) := by
  cases haccept : beatAccept i with
  | false =>
    have hbeats : (GateLog.next s i o).beats = o.beats := by simp [GateLog.next, haccept]
    refine ⟨?_, ?_, ?_, ?_, fun hl => ?_, rfl⟩
    · rw [hbeats]
      simpa [gateStep, haccept] using h.beat
    · rw [hbeats]
      simpa [gateStep, haccept] using h.w0
    · rw [hbeats]
      simpa [gateStep, haccept] using h.w1
    · rw [hbeats]
      simpa [gateStep, haccept] using h.dstMac
    · rw [hbeats] at hl ⊢
      have hcsr : i.csr = o.csr := hstable fun hnil => by
        rw [hnil] at hl
        cases hl
      show _ = allowC rules i.csr _
      simpa [gateStep, haccept, hcsr] using h.allow hl
  | true =>
    cases hlast : i.last with
    | false => exact latched_beat h hstable haccept hlast
    | true =>
      have hbeats : (GateLog.next s i o).beats = [] := by simp [GateLog.next, haccept, hlast]
      refine ⟨?_, fun hl => ?_, fun hl => ?_, fun hl => ?_, fun hl => ?_, rfl⟩
      · rw [hbeats]
        simp [gateStep, haccept, hlast]
      all_goals
        rw [hbeats] at hl
        cases hl

/-- The verdict at the end of a frame is that of its own bytes. -/
theorem verdict_iff (h : Latched rules s o) (hstable : CsrStable (s, o) i) :
    ((decided s = true ↔ (o.ending i).Classified)) ∧
      ((o.ending i).Classified →
        (s.allow = true ↔ (o.ending i).Admitted rules) ∧ (s.armed = true ↔ (o.ending i).Armed)) := by
  have hbeat := h.beat
  have hlen : (o.ending i).beats.length = o.beats.length + 1 := by
    rw [GateLog.ending, List.length_append, List.length_singleton]
  refine ⟨?_, fun hlong => ?_⟩
  · rw [decided, decide_eq_true_iff, Received.Classified, hlen]
    omega
  · rw [Received.Classified, hlen] at hlong
    have hcsr : i.csr = o.csr := hstable fun hnil => by
      have hz : o.beats.length = 0 := by rw [hnil]; rfl
      omega
    have hdst : (o.ending i).dst = destination (frameBytes o.beats) :=
      destination_append (by omega) i.data
    have hcsr' : (o.ending i).csr = o.csr := hcsr
    rw [← allowC_iff, ← arms_iff, hdst, hcsr', h.allow (by omega), h.armed]
    exact ⟨Iff.rfl, Iff.rfl⟩

theorem discard_iff (h : Latched rules s o) (hstable : CsrStable (s, o) i) :
    discard s = true ↔ (o.ending i).Refused rules ∧ (o.ending i).Armed := by
  obtain ⟨hdecided, hverdict⟩ := verdict_iff h hstable
  rw [discard, Bool.and_eq_true, Bool.and_eq_true, hdecided, Received.Refused, Bool.not_eq_true']
  constructor
  · rintro ⟨⟨harmed, hlong⟩, hallow⟩
    obtain ⟨ha, hm⟩ := hverdict hlong
    rw [← Bool.not_eq_true, ha] at hallow
    exact ⟨⟨hlong, hallow⟩, hm.1 harmed⟩
  · rintro ⟨⟨hlong, hnot⟩, harmed⟩
    obtain ⟨ha, hm⟩ := hverdict hlong
    rw [← ha, Bool.not_eq_true] at hnot
    exact ⟨⟨hm.2 harmed, hlong⟩, hnot⟩

/-- A counter that steps at the end of the frames that meet `p`. -/
theorem count_step {p : Received → Bool} {x : BitVec 32} {frames : List Received} {f : Received}
    {b : Bool} (hx : x = BitVec.ofNat 32 (frames.countP p)) (hb : b = p f) :
    (if b then x + 1 else x) = BitVec.ofNat 32 ((frames ++ [f]).countP p) := by
  rw [List.countP_append, List.countP_singleton, hb]
  cases p f with
  | false => exact hx
  | true =>
    rw [hx]
    exact (BitVec.ofNat_add _ _).symm

theorem counters_quiet {frames : List Received} (h : Counters rules s frames)
    (heof : eof i = false) : Counters rules (gateStep rules s i) frames := by
  refine ⟨?_, ?_, ?_, ?_⟩
  · simpa [gateStep, heof] using h.matched
  · simpa [gateStep, heof] using h.unmatched
  · simpa [gateStep, heof] using h.discarded
  · simpa [gateStep, heof] using h.lastDrop

/-- A frame that ends is counted for what it is. -/
theorem counters_eof {frames : List Received} (h : Counters rules s frames)
    (hl : Latched rules s o) (hstable : CsrStable (s, o) i) (heof : eof i = true) :
    Counters rules (gateStep rules s i) (frames ++ [o.ending i]) := by
  obtain ⟨hdecided, hverdict⟩ := verdict_iff hl hstable
  have hrefused : (decided s && !s.allow) = decide ((o.ending i).Refused rules) := by
    rw [Bool.eq_iff_iff, decide_eq_true_iff, Bool.and_eq_true, hdecided, Bool.not_eq_true']
    refine and_congr_right fun hlong => ?_
    rw [← (hverdict hlong).1, Bool.not_eq_true]
  have hdiscarded : (decided s && !s.allow && s.armed) =
      decide ((o.ending i).Refused rules ∧ (o.ending i).Armed) := by
    rw [hrefused, Bool.eq_iff_iff, decide_eq_true_iff, Bool.and_eq_true, decide_eq_true_iff]
    exact and_congr_right fun hrefused => (hverdict hrefused.1).2
  have hmatched : (decided s && s.allow) =
      decide ((o.ending i).Classified ∧ (o.ending i).Admitted rules) := by
    rw [Bool.eq_iff_iff, decide_eq_true_iff, Bool.and_eq_true, hdecided]
    exact and_congr_right fun hlong => (hverdict hlong).1
  refine ⟨?_, ?_, ?_, ?_⟩
  · simp only [gateStep, heof, Bool.true_and]
    exact count_step h.matched hmatched
  · simp only [gateStep, heof, Bool.true_and]
    exact count_step h.unmatched hrefused
  · simp only [gateStep, heof, Bool.true_and]
    exact count_step h.discarded hdiscarded
  · simp only [gateStep, heof, Bool.true_and, hrefused, List.filter_append, List.map_append]
    by_cases hr : (o.ending i).Refused rules
    · have hdst : s.dstMac = (o.ending i).dst := by
        have hlong : 5 ≤ (o.beats ++ [i.data]).length := hr.1
        rw [List.length_append, List.length_singleton] at hlong
        rw [hl.dstMac (by omega)]
        exact (destination_append (by omega) i.data).symm
      have hsplit : s.dstMac.extractLsb' 32 16 ++ s.dstMac.extractLsb' 0 32 = s.dstMac :=
        BitVec.extractLsb'_append_extractLsb' (w := 16)
      rw [hdst] at hsplit
      simp [hr, hdst, hsplit]
    · simpa [hr] using h.lastDrop

end Step

/-- What the gate and its observer keep. -/
structure Gated (rules : List (MacAddr × MacAddr)) (x : Gate × GateLog) : Prop where
  latched : Latched rules x.1 x.2
  counters : Counters rules x.1 x.2.frames

theorem gated_step {rules : List (MacAddr × MacAddr)} {x : Gate × GateLog} {i : GateInput}
    (h : Gated rules x) (hstable : CsrStable x i) : Gated rules (gateWatched rules x i) := by
  refine ⟨latched_step h.latched hstable, ?_⟩
  show Counters rules (gateStep rules x.1 i) (if eof i then x.2.frames ++ [x.2.ending i] else x.2.frames)
  cases heof : eof i with
  | true => exact counters_eof h.counters h.latched hstable heof
  | false => exact counters_quiet h.counters heof

theorem gated_start (rules : List (MacAddr × MacAddr)) (nSpare : Nat) :
    Gated rules (Gate.reset, GateLog.start nSpare) where
  latched := ⟨rfl, fun h => absurd h (Nat.not_succ_le_zero _),
    fun h => absurd h (Nat.not_succ_le_zero _), fun h => absurd h (Nat.not_succ_le_zero _),
    fun h => absurd h (Nat.not_succ_le_zero _), rfl⟩
  counters := ⟨rfl, rfl, rfl, (by decide : (0 : BitVec 16) ++ (0 : BitVec 32) = (0 : MacAddr))⟩

theorem gated_run {rules : List (MacAddr × MacAddr)} {nSpare : Nat} {is : List GateInput}
    (h : Along (gateWatched rules) CsrStable (Gate.reset, GateLog.start nSpare) is) :
    Gated rules (run (gateWatched rules) (Gate.reset, GateLog.start nSpare) is) :=
  h.invariant (P := Gated rules) (fun _ _ hstable hx => gated_step hx hstable)
    (gated_start rules nSpare)

/-! ## The classification law -/

/-- In every run whose CSRs do not change inside a frame, whatever the lengths of the frames and
the stalls between their beats: at the end of a frame the gate asserts `discard` exactly when
that frame is refused and the gate is armed, and the counters and the last-dropped register are
those of the frames received. -/
theorem gate_classifies (rules : List (MacAddr × MacAddr)) (nSpare : Nat) (is : List GateInput)
    (i : GateInput)
    (h : Along (gateWatched rules) CsrStable (Gate.reset, GateLog.start nSpare) (is ++ [i])) :
    let x := run (gateWatched rules) (Gate.reset, GateLog.start nSpare) is
    (eof i = true → (discard x.1 = true ↔
      ((x.2.ending i).csr.enable = true ∧ (x.2.ending i).csr.localMac ≠ 0 ∧
        5 ≤ (x.2.ending i).beats.length ∧ ¬ (x.2.ending i).Admitted rules))) ∧
    Counters rules x.1 x.2.frames ∧
    Counters rules (gateWatched rules x i).1 (gateWatched rules x i).2.frames := by
  intro x
  rw [Along.append_iff, Along.cons_iff] at h
  have hx : Gated rules x := gated_run h.1
  refine ⟨fun _ => ?_, hx.counters, (gated_step hx h.2.1).counters⟩
  rw [discard_iff hx.latched h.2.1, Received.Refused, Received.Classified, Received.Armed]
  tauto

/-- An armed gate whose local address is 02:00:00:00:00:01. -/
def armedCsr : GateCsr := ⟨true, 0x0200, 1, [(0, 0), (0, 0)]⟩

/-- A beat to the audio group 01:00:5e:7f:00:01, by its index in the frame. -/
def audioBeat (k : Nat) (last : Bool) : GateInput :=
  ⟨armedCsr, true, true, last, if k == 0 then 0x7f5e0001 else if k == 1 then 0x0100 else 0⟩

/-- A runt, then a stalled beat, then four beats of a frame. -/
def audioRun : List GateInput :=
  [audioBeat 0 true, { audioBeat 0 false with ready := false }, audioBeat 0 false,
    audioBeat 1 false, audioBeat 2 false, audioBeat 3 false]

/-- The runt passes, and the frame behind it is dropped at its fifth beat. -/
theorem gate_classifies_audio :
    discard (run (gateWatched defaultAllowRules) (Gate.reset, GateLog.start 2) audioRun).1 = true ∧
      (run (gateWatched defaultAllowRules) (Gate.reset, GateLog.start 2)
        (audioRun ++ [audioBeat 4 true])).1.discardCount = 1 := by
  obtain ⟨hverdict, -, hcounters⟩ := gate_classifies defaultAllowRules 2 audioRun (audioBeat 4 true)
    (by decide +kernel)
  refine ⟨(hverdict rfl).2 (by decide +kernel), ?_⟩
  rw [run_concat, hcounters.discarded]
  decide +kernel

end Mac
end InfernoFpga
