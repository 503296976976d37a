import InfernoFpga.Lib.Run
import InfernoFpga.Packetizer.Machine
import Mathlib.Data.List.GetD

/-!
# Frame — one frame from its first byte to its last word on the wire

An observer logs the bytes `BUILD` produces, the ring reads behind them and the words the MAC
accepts.  As long as the shape of the frame's context stands still while the frame is in flight,
the words on the wire are the bytes that were built, up to the last word.
-/

namespace InfernoFpga
namespace Packetizer

open Lib

/-! ## Control flow of the builder -/

/-- The builder holds a frame that is being built or sent. -/
def inFlight (s : State) : Bool :=
  s.fsm == .build || s.fsm == .prefetch || s.fsm == .stream

section Control

variable {s : State} {i : Input}

theorem walkStart_of_ne (h : s.fsm ≠ .idle) : walkStart s = false := by
  simp [walkStart, h]

theorem serveNow_of_ne (h : s.fsm ≠ .stream) : serveNow s i = false := by
  simp [serveNow, h]

/-- A frame is ended in `STREAM` only. -/
theorem stream_of_serveNow (h : serveNow s i = true) : s.fsm = .stream := by
  by_contra hne
  rw [serveNow_of_ne hne] at h
  cases h

theorem advance_of_ne (h : s.fsm ≠ .skip) (h' : s.fsm ≠ .stream) : advance s i = false := by
  simp [advance, serveNow_of_ne h', h]

theorem restart_of_ne (h : s.fsm ≠ .idle) (h' : s.fsm ≠ .skip) (h'' : s.fsm ≠ .stream) :
    restart s i = false := by
  simp [restart, walkStart_of_ne h, advance_of_ne h' h'']

/-- In a state that neither skips nor ends a frame the builder stays with its context. -/
theorem nextStreamIdx_of_ne (h : s.fsm ≠ .idle) (h' : advance s i = false) :
    nextStreamIdx s i = s.streamIdx := by
  simp [nextStreamIdx, walkStart_of_ne h, h']

theorem nextFsm_check (h : s.fsm = .check) :
    nextFsm s i = if flowOff s || !(cur s).pend then .skip else .build := by
  rw [nextFsm, h]

theorem nextFsm_build (h : s.fsm = .build) :
    nextFsm s i = if isLast s then .prefetch else .build := by
  simp [nextFsm, h]

theorem nextFsm_stream (h : s.fsm = .stream) :
    nextFsm s i = if serveNow s i then (if s.streamIdx ≠ 5 then .check else .idle) else .stream := by
  simp [nextFsm, h]

/-- Behind a frame or a context that is skipped the builder rests, or it goes on to the next
context with its counters at zero. -/
theorem leaves_frame (h : s.fsm = .idle ∨ s.fsm = .skip ∨ serveNow s i = true) :
    (step s i).fsm = .idle ∨ (step s i).fsm = .check ∧ restart s i = true := by
  rcases h with hfsm | hfsm | hserve
  · cases hpend : anyPend s with
    | false => exact .inl (by simp [nextFsm, hfsm, hpend])
    | true =>
      exact .inr ⟨by simp [nextFsm, hfsm, hpend], by simp [restart, walkStart, hfsm, hpend]⟩
  · by_cases hend : s.streamIdx = 5
    · exact .inl (by simp [nextFsm, hfsm, hend])
    · exact .inr ⟨by simp [nextFsm, hfsm, hend], by simp [restart, advance, hfsm, hend]⟩
  · have hfsm := stream_of_serveNow hserve
    by_cases hend : s.streamIdx = 5
    · exact .inl (by simp [nextFsm_stream hfsm, hserve, hend])
    · exact .inr ⟨by simp [nextFsm_stream hfsm, hserve, hend],
        by simp [restart, advance, hserve, hend]⟩

theorem inFlight_of_leave (h : s.fsm = .idle ∨ s.fsm = .skip ∨ serveNow s i = true) :
    inFlight (step s i) = false := by
  rcases leaves_frame h with hidle | ⟨hcheck, -⟩
  · rw [inFlight, hidle]
    rfl
  · rw [inFlight, hcheck]
    rfl

end Control

/-! ## The observer -/

/-- A read of the sample ring that was taken into `samp_hold`. -/
structure Fetch where
  ring : Nat
  adr : Nat
  valid : Bool
  data : Word
  deriving DecidableEq

/-- The sample of a slot: silence where the channel map has no entry. -/
def Fetch.sample (f : Fetch) : Word := if f.valid then f.data else 0

/-- The frame in progress: bytes built, ring reads taken, words accepted by the MAC. -/
structure Frame where
  bytes : List Byte
  fetches : List Fetch
  beats : List Word
  deriving DecidableEq

namespace Frame

def empty : Frame := { bytes := [], fetches := [], beats := [] }

def next (s : State) (i : Input) (f : Frame) : Frame :=
  { bytes :=
      if restart s i then []
      else if s.fsm == .build then f.bytes ++ [curByte s i] else f.bytes
    fetches :=
      if restart s i then []
      else if fetch s then f.fetches ++ [⟨min s.csMemD 5, s.ringAdr, s.csVldD, sampRd s⟩]
      else f.fetches
    beats :=
      if s.fsm == .stream then
        if i.sourceReady then f.beats ++ [sourceData s] else f.beats
      else [] }

/-- The packet whose last word is accepted on this cycle. -/
def packet (s : State) (f : Frame) : List Word := f.beats ++ [sourceData s]

/-- Bytes `4 * w` to `4 * w + 3`, first byte least significant. -/
def word (bytes : List Byte) (w : Nat) : Word :=
  bytes.getD (4 * w + 3) 0 ++ bytes.getD (4 * w + 2) 0 ++ bytes.getD (4 * w + 1) 0 ++
    bytes.getD (4 * w) 0

/-- Byte `k` of a packet on the wire. -/
def wireByte (words : List Word) (k : Nat) : Byte := byteAt (words.getD (k / 4) 0) (k % 4)

end Frame

/-! ## The shape of a frame in flight stands still -/

/-- A write of `flow_cfg` has at most 8 slots and is not to the context of the frame in flight. -/
def FrameSafe (s : State) (i : Input) : Prop :=
  i.flowCfgRe = true → nslots i.csr.flowCfg ≤ 8 ∧
    (inFlight s = true → ctxIndex i.csr.ctxSelect ≠ s.streamIdx)

instance (s : State) (i : Input) : Decidable (FrameSafe s i) :=
  inferInstanceAs (Decidable (_ → _))

/-- Every context has at most 8 slots. -/
def Admissible (s : State) : Prop := ∀ k, nslots (s.ctx k).cfg ≤ 8

instance (s : State) : Decidable (Admissible s) :=
  inferInstanceAs (Decidable (∀ _, _))

section Safe

variable {s : State} {i : Input}

theorem nextCtx_cfg (s : State) (i : Input) (k : CtxId) :
    (nextCtx s i k).cfg =
      if i.flowCfgRe && ctxIndex i.csr.ctxSelect == k then i.csr.flowCfg else (s.ctx k).cfg := rfl

theorem admissible_step (h : Admissible s) (hsafe : FrameSafe s i) : Admissible (step s i) := by
  intro k
  rw [step_ctx, nextCtx_cfg]
  split
  · rename_i hwrite
    rw [Bool.and_eq_true] at hwrite
    exact (hsafe hwrite.1).1
  · exact h k

theorem cfg_inFlight (hsafe : FrameSafe s i) (hflight : inFlight s = true) :
    (nextCtx s i s.streamIdx).cfg = cfgNow s := by
  have hnot : ¬ (i.flowCfgRe && ctxIndex i.csr.ctxSelect == s.streamIdx) = true := by
    intro hwrite
    rw [Bool.and_eq_true, beq_iff_eq] at hwrite
    exact (hsafe hwrite.1).2 hflight hwrite.2
  rw [nextCtx_cfg, if_neg hnot]
  rfl

/-- The frame in flight keeps its shape while the builder stays with it. -/
theorem cfgNow_step (hsafe : FrameSafe s i) (hflight : inFlight s = true)
    (hidx : nextStreamIdx s i = s.streamIdx) : cfgNow (step s i) = cfgNow s := by
  show (nextCtx s i (nextStreamIdx s i)).cfg = cfgNow s
  rw [hidx, cfg_inFlight hsafe hflight]

end Safe

/-! ## Assembling the words -/

/-- The shape of an admissible frame: its payload is even and at most 1440 bytes. -/
theorem shape_of_le {cfg : Byte} (h : nslots cfg ≤ 8) :
    ∃ half ≤ 720, fTotal cfg = 51 + 2 * half ∧ fLastIdx cfg = 12 + half / 2 := by
  obtain ⟨m, hm⟩ := fpp_even cfg
  have hfpp := fpp_le cfg
  have hle : nslots cfg * m ≤ 8 * 30 := Nat.mul_le_mul h (by omega)
  refine ⟨3 * (nslots cfg * m), by omega, ?_, ?_⟩
  · rw [fTotal_eq h, hm, Nat.mul_left_comm (nslots cfg) 2 m]
    simp only [hdrLen]
    omega
  · rw [fLastIdx_eq h, hm, Nat.mul_left_comm (nslots cfg) 2 m]
    omega

theorem isLast_eq {s : State} (h : nslots (cfgNow s) ≤ 8) :
    isLast s = decide (s.byteIdx + 1 = fTotal (cfgNow s)) := by
  obtain ⟨half, hhalf, htotal, -⟩ := shape_of_le h
  rw [Bool.eq_iff_iff, isLast, beq_iff_eq, decide_eq_true_iff]
  omega

/-- What `BUILD` has done after `byteIdx` bytes. -/
structure Building (s : State) (f : Frame) : Prop where
  length : f.bytes.length = s.byteIdx
  lt : s.byteIdx < fTotal (cfgNow s)
  words : ∀ w, 4 * w + 3 < s.byteIdx → s.frameMem w = Frame.word f.bytes w
  wacc0 : 1 ≤ s.byteIdx → s.wacc0 = f.bytes.getD (4 * ((s.byteIdx - 1) / 4)) 0
  wacc1 : 2 ≤ s.byteIdx → s.wacc1 = f.bytes.getD (4 * ((s.byteIdx - 2) / 4) + 1) 0
  wacc2 : 3 ≤ s.byteIdx → s.wacc2 = f.bytes.getD (4 * ((s.byteIdx - 3) / 4) + 2) 0

/-- The frame memory once `BUILD` is through.  The last word has the last byte in lane 1. -/
structure Built (s : State) (f : Frame) : Prop where
  length : f.bytes.length = fTotal (cfgNow s)
  words : ∀ w < fLastIdx (cfgNow s), s.frameMem w = Frame.word f.bytes w
  last : s.frameMem (fLastIdx (cfgNow s)) =
    0#16 ++ f.bytes.getD (fTotal (cfgNow s) - 1) 0 ++ f.bytes.getD (4 * fLastIdx (cfgNow s)) 0

/-- What `STREAM` has done after `rdIdx` words. -/
structure Sending (s : State) (f : Frame) : Prop where
  le : s.rdIdx ≤ fLastIdx (cfgNow s)
  adr : s.frameAdr = s.rdIdx
  beats : f.beats = (List.range s.rdIdx).map s.frameMem

/-- The builder's registers against the observer's log, state by state. -/
def Assembled (s : State) (f : Frame) : Prop :=
  match s.fsm with
  | .idle => True
  | .skip => True
  | .check => s.byteIdx = 0 ∧ f.bytes = []
  | .build => Building s f
  | .prefetch => Built s f ∧ s.rdIdx = 0
  | .stream => Built s f ∧ Sending s f

theorem getD_append_singleton (l : List Byte) (b : Byte) (k : Nat) :
    (l ++ [b]).getD k 0 = if k = l.length then b else l.getD k 0 := by
  split
  · rename_i h
    rw [h, List.getD_append_right _ _ _ _ le_rfl, Nat.sub_self]
    rfl
  · rename_i h
    rcases Nat.lt_or_gt_of_ne h with hlt | hgt
    · exact List.getD_append _ _ _ _ hlt
    · rw [List.getD_eq_default _ _ (by simp; omega), List.getD_eq_default _ _ (by omega)]

/-- A lane of the word in progress holds the last byte that went to it. -/
theorem lane_step {bytes : List Byte} {n j : Nat} {b old : Byte} (hj : j ≤ 2) (hn : j ≤ n)
    (hlen : bytes.length = n)
    (hold : j + 1 ≤ n → old = bytes.getD (4 * ((n - (j + 1)) / 4) + j) 0) :
    (if n % 4 = j then b else old) = (bytes ++ [b]).getD (4 * ((n - j) / 4) + j) 0 := by
  rw [getD_append_singleton, hlen]
  by_cases hlane : n % 4 = j
  · have hpos : 4 * ((n - j) / 4) + j = n := by omega
    rw [if_pos hlane, if_pos hpos]
  · have hpos : 4 * ((n - j) / 4) + j ≠ n := by omega
    have hsame : 4 * ((n - (j + 1)) / 4) + j = 4 * ((n - j) / 4) + j := by omega
    rw [if_neg hlane, if_neg hpos, hold (by omega), hsame]

section Step

variable {s : State} {i : Input} {f : Frame}

theorem restart_build (hfsm : s.fsm = .build) : restart s i = false :=
  restart_of_ne (by simp [hfsm]) (by simp [hfsm]) (by simp [hfsm])

theorem nextStreamIdx_build (hfsm : s.fsm = .build) : nextStreamIdx s i = s.streamIdx :=
  nextStreamIdx_of_ne (by simp [hfsm]) (advance_of_ne (by simp [hfsm]) (by simp [hfsm]))

theorem bytes_build (hfsm : s.fsm = .build) :
    (Frame.next s i f).bytes = f.bytes ++ [curByte s i] := by
  simp [Frame.next, restart_build hfsm, hfsm]

theorem wacc_build (hfsm : s.fsm = .build) (lane : Nat) (old : Byte) :
    nextWacc s i lane old = if s.byteIdx % 4 = lane then curByte s i else old := by
  simp [nextWacc, hfsm]

theorem byteIdx_build (hfsm : s.fsm = .build) (hlast : isLast s = false) (h : s.byteIdx < 2047) :
    (step s i).byteIdx = s.byteIdx + 1 := by
  have hwrap : (s.byteIdx + 1) % 2048 = s.byteIdx + 1 := Nat.mod_eq_of_lt (by omega)
  rw [step_byteIdx, nextByteIdx, restart_build hfsm, hfsm, hlast]
  exact hwrap

theorem frameMem_build (hfsm : s.fsm = .build) (hlast : isLast s = false) (w : Nat) :
    (step s i).frameMem w = if 4 * w + 3 = s.byteIdx then fullWord s i else s.frameMem w := by
  have hiff : (s.byteIdx % 4 = 3 ∧ w = s.byteIdx / 4) ↔ 4 * w + 3 = s.byteIdx := by omega
  simp [nextFrameMem, hfsm, hlast, hiff]

/-- A byte that is not the last: a lane of the word in progress, or a full word. -/
theorem building_step (hfsm : s.fsm = .build) (h : Building s f) (hadm : Admissible s)
    (hsafe : FrameSafe s i) (hlast : isLast s = false) :
    Building (step s i) (Frame.next s i f) := by
  have hcfg : cfgNow (step s i) = cfgNow s :=
    cfgNow_step hsafe (by simp [inFlight, hfsm]) (nextStreamIdx_build hfsm)
  obtain ⟨half, hhalf, htotal, -⟩ := shape_of_le (hadm s.streamIdx)
  have hlt : s.byteIdx < 51 + 2 * half := htotal ▸ h.lt
  have hnot : s.byteIdx + 1 ≠ fTotal (cfgNow s) := by
    rw [isLast_eq (hadm s.streamIdx)] at hlast
    exact of_decide_eq_false hlast
  have hbyte : (step s i).byteIdx = s.byteIdx + 1 := byteIdx_build hfsm hlast (by omega)
  have hlt' := h.lt
  refine ⟨?_, ?_, ?_, ?_, ?_, ?_⟩
  · rw [bytes_build hfsm, hbyte, List.length_append, h.length]
    rfl
  · rw [hbyte, hcfg]
    omega
  · intro w hw
    rw [hbyte] at hw
    rw [frameMem_build hfsm hlast, bytes_build hfsm]
    simp only [Frame.word, getD_append_singleton, h.length]
    by_cases hnew : 4 * w + 3 = s.byteIdx
    · have h₀ : 4 * ((s.byteIdx - 1) / 4) = 4 * w := by omega
      have h₁ : 4 * ((s.byteIdx - 2) / 4) + 1 = 4 * w + 1 := by omega
      have h₂ : 4 * ((s.byteIdx - 3) / 4) + 2 = 4 * w + 2 := by omega
      rw [if_pos hnew, if_pos hnew, if_neg (by omega), if_neg (by omega), if_neg (by omega),
        fullWord, h.wacc0 (by omega), h.wacc1 (by omega), h.wacc2 (by omega), h₀, h₁, h₂]
    · rw [if_neg hnew, if_neg hnew, if_neg (by omega), if_neg (by omega), if_neg (by omega),
        h.words w (by omega)]
      rfl
  · intro _
    rw [bytes_build hfsm, hbyte]
    show nextWacc s i 0 s.wacc0 = _
    rw [wacc_build hfsm]
    exact lane_step (by decide) (Nat.zero_le _) h.length h.wacc0
  · intro hle
    rw [hbyte] at hle
    rw [bytes_build hfsm, hbyte]
    show nextWacc s i 1 s.wacc1 = _
    rw [wacc_build hfsm]
    exact lane_step (by decide) (by omega) h.length h.wacc1
  · intro hle
    rw [hbyte] at hle
    rw [bytes_build hfsm, hbyte]
    show nextWacc s i 2 s.wacc2 = _
    rw [wacc_build hfsm]
    exact lane_step (by decide) (by omega) h.length h.wacc2

/-- The last byte: every word of the frame is in place. -/
theorem built_of_last (hfsm : s.fsm = .build) (h : Building s f) (hadm : Admissible s)
    (hsafe : FrameSafe s i) (hlast : isLast s = true) :
    Built (step s i) (Frame.next s i f) ∧ (step s i).rdIdx = 0 := by
  have hcfg : cfgNow (step s i) = cfgNow s :=
    cfgNow_step hsafe (by simp [inFlight, hfsm]) (nextStreamIdx_build hfsm)
  obtain ⟨half, hhalf, htotal, hidx⟩ := shape_of_le (hadm s.streamIdx)
  have htotal' : fTotal (cfgNow s) = 51 + 2 * half := htotal
  have hidx' : fLastIdx (cfgNow s) = 12 + half / 2 := hidx
  have hend : s.byteIdx + 1 = fTotal (cfgNow s) := by
    rw [isLast_eq (hadm s.streamIdx)] at hlast
    exact of_decide_eq_true hlast
  have hmem : ∀ w, (step s i).frameMem w =
      if w = fLastIdx (cfgNow s) then lastWord s i else s.frameMem w := by
    intro w
    simp [nextFrameMem, hfsm, hlast]
  refine ⟨⟨?_, ?_, ?_⟩, ?_⟩
  · rw [bytes_build hfsm, hcfg, List.length_append, h.length, ← hend]
    rfl
  · intro w hw
    rw [hcfg] at hw
    rw [hmem, if_neg (by omega), bytes_build hfsm, h.words w (by omega)]
    simp only [Frame.word, getD_append_singleton, h.length]
    rw [if_neg (by omega), if_neg (by omega), if_neg (by omega), if_neg (by omega)]
  · have hlane : 4 * ((s.byteIdx - 1) / 4) = 4 * fLastIdx (cfgNow s) := by omega
    rw [hcfg, hmem, if_pos rfl, bytes_build hfsm, getD_append_singleton, getD_append_singleton,
      h.length, if_pos (by omega), if_neg (by omega), lastWord, h.wacc0 (by omega), hlane]
  · rw [step_rdIdx, nextRdIdx, hfsm, hlast]
    rfl

/-- A frame that has been built stays as it is until its last word is accepted. -/
theorem built_step (hne : s.fsm = .prefetch ∨ s.fsm = .stream) (h : Built s f)
    (hsafe : FrameSafe s i) (hserve : serveNow s i = false) :
    Built (step s i) (Frame.next s i f) ∧ (step s i).frameMem = s.frameMem ∧
      cfgNow (step s i) = cfgNow s := by
  have hbuild : s.fsm ≠ .build := by rcases hne with hfsm | hfsm <;> simp [hfsm]
  have hskip : s.fsm ≠ .skip := by rcases hne with hfsm | hfsm <;> simp [hfsm]
  have hidle : s.fsm ≠ .idle := by rcases hne with hfsm | hfsm <;> simp [hfsm]
  have hflight : inFlight s = true := by rcases hne with hfsm | hfsm <;> simp [inFlight, hfsm]
  have hadvance : advance s i = false := by simp [advance, hserve, hskip]
  have hcfg : cfgNow (step s i) = cfgNow s :=
    cfgNow_step hsafe hflight (nextStreamIdx_of_ne hidle hadvance)
  have hmem : (step s i).frameMem = s.frameMem := by
    funext w
    simp [nextFrameMem, hbuild]
  have hbytes : (Frame.next s i f).bytes = f.bytes := by
    simp [Frame.next, restart, walkStart_of_ne hidle, hadvance, hbuild]
  refine ⟨⟨?_, ?_, ?_⟩, hmem, hcfg⟩
  · rw [hbytes, hcfg, h.length]
  · rw [hbytes, hcfg, hmem]
    exact h.words
  · rw [hbytes, hcfg, hmem]
    exact h.last

/-- A cycle of `STREAM` that does not end the frame. -/
theorem sending_step (hfsm : s.fsm = .stream) (hbuilt : Built s f) (h : Sending s f)
    (hadm : Admissible s) (hsafe : FrameSafe s i) (hserve : serveNow s i = false) :
    Sending (step s i) (Frame.next s i f) := by
  obtain ⟨-, hmem, hcfg⟩ := built_step (Or.inr hfsm) hbuilt hsafe hserve
  obtain ⟨half, hhalf, -, hidx⟩ := shape_of_le (hadm s.streamIdx)
  have hidx' : fLastIdx (cfgNow s) = 12 + half / 2 := hidx
  have hle := h.le
  cases hready : i.sourceReady with
  | false =>
    have hrd : (step s i).rdIdx = s.rdIdx := by simp [nextRdIdx, hfsm, hready]
    have hadr : (step s i).frameAdr = s.rdIdx := by simp [nextFrameAdr, hfsm, hready]
    have hbeats : (Frame.next s i f).beats = f.beats := by simp [Frame.next, hfsm, hready]
    exact ⟨by rw [hrd, hcfg]; exact hle, by rw [hadr, hrd], by rw [hbeats, hrd, hmem, h.beats]⟩
  | true =>
    have hnot : s.rdIdx ≠ fLastIdx (cfgNow s) := by
      simpa [serveNow, hfsm, hready, sourceLast, cfgNow] using hserve
    have hlast : sourceLast s = false := by simpa [sourceLast, cfgNow] using hnot
    have hwrap : (s.rdIdx + 1) % 512 = s.rdIdx + 1 := Nat.mod_eq_of_lt (by omega)
    have hrd : (step s i).rdIdx = s.rdIdx + 1 := by
      simp [nextRdIdx, hfsm, hready, hlast, hwrap]
    have hadr : (step s i).frameAdr = s.rdIdx + 1 := by simp [nextFrameAdr, hfsm, hready, hwrap]
    have hbeats : (Frame.next s i f).beats = f.beats ++ [s.frameMem s.rdIdx] := by
      simp [Frame.next, hfsm, hready, sourceData, h.adr]
    refine ⟨by rw [hrd, hcfg]; omega, by rw [hadr, hrd], ?_⟩
    rw [hbeats, hrd, hmem, h.beats, List.range_succ, List.map_append]
    rfl

/-- The builder enters a state in which nothing is in flight. -/
theorem assembled_of_ended {s' : State} {f' : Frame} (h : s'.fsm = .idle ∨ s'.fsm = .skip) :
    Assembled s' f' := by
  rcases h with h | h <;> simp [Assembled, h]

/-- Between two frames there is nothing to keep. -/
theorem assembled_of_leave (h : s.fsm = .idle ∨ s.fsm = .skip ∨ serveNow s i = true) :
    Assembled (step s i) (Frame.next s i f) := by
  rcases leaves_frame h with hidle | ⟨hcheck, hrestart⟩
  · exact assembled_of_ended (Or.inl hidle)
  · rw [Assembled, hcheck]
    exact ⟨by simp [nextByteIdx, hrestart], by simp [Frame.next, hrestart]⟩

/-- One cycle keeps the log and the registers together. -/
theorem assembled_step (h : Assembled s f) (hadm : Admissible s) (hsafe : FrameSafe s i) :
    Assembled (step s i) (Frame.next s i f) := by
  cases hfsm : s.fsm with
  | idle => exact assembled_of_leave (.inl hfsm)
  | skip => exact assembled_of_leave (.inr (.inl hfsm))
  | check =>
    -- byte 0 is addressed: nothing is built yet, and the lanes hold nothing
    simp only [Assembled, hfsm] at h
    by_cases hskip : (flowOff s || !(cur s).pend) = true
    · exact assembled_of_ended (Or.inr ((nextFsm_check hfsm).trans (if_pos hskip)))
    · have hnext : (step s i).fsm = .build := (nextFsm_check hfsm).trans (if_neg hskip)
      have hrestart : restart s i = false :=
        restart_of_ne (by simp [hfsm]) (by simp [hfsm]) (by simp [hfsm])
      have hbyte : (step s i).byteIdx = 0 := by simp [nextByteIdx, hrestart, hfsm, h.1]
      have hbytes : (Frame.next s i f).bytes = [] := by simp [Frame.next, hrestart, hfsm, h.2]
      obtain ⟨half, -, htotal, -⟩ := shape_of_le (admissible_step hadm hsafe (step s i).streamIdx)
      have htotal' : fTotal (cfgNow (step s i)) = 51 + 2 * half := htotal
      rw [Assembled, hnext]
      refine ⟨by rw [hbytes, hbyte]; rfl, ?_, ?_, ?_, ?_, ?_⟩ <;> rw [hbyte]
      · omega
      all_goals intros; omega
  | build =>
    have hbuilding : Building s f := by simpa only [Assembled, hfsm] using h
    cases hlast : isLast s with
    | false =>
      have hnext : (step s i).fsm = .build := by simp [nextFsm_build hfsm, hlast]
      rw [Assembled, hnext]
      exact building_step hfsm hbuilding hadm hsafe hlast
    | true =>
      have hnext : (step s i).fsm = .prefetch := by simp [nextFsm_build hfsm, hlast]
      rw [Assembled, hnext]
      exact built_of_last hfsm hbuilding hadm hsafe hlast
  | prefetch =>
    obtain ⟨hbuilt, hrd⟩ : Built s f ∧ s.rdIdx = 0 := by simpa only [Assembled, hfsm] using h
    obtain ⟨hbuilt', -, -⟩ := built_step (Or.inl hfsm) hbuilt hsafe
      (serveNow_of_ne (i := i) (by simp [hfsm]))
    have hnext : (step s i).fsm = .stream := by simp [nextFsm, hfsm]
    have hrd' : (step s i).rdIdx = 0 := by simp [nextRdIdx, hfsm, hrd]
    rw [Assembled, hnext]
    refine ⟨hbuilt', ⟨by rw [hrd']; exact Nat.zero_le _, ?_, ?_⟩⟩
    · simp [nextFrameAdr, nextRdIdx, hfsm, hrd]
    · rw [hrd']
      simp [Frame.next, hfsm]
  | stream =>
    obtain ⟨hbuilt, hsending⟩ : Built s f ∧ Sending s f := by simpa only [Assembled, hfsm] using h
    cases hserve : serveNow s i with
    | false =>
      have hnext : (step s i).fsm = .stream := by simp [nextFsm_stream hfsm, hserve]
      rw [Assembled, hnext]
      exact ⟨(built_step (Or.inr hfsm) hbuilt hsafe hserve).1,
        sending_step hfsm hbuilt hsending hadm hsafe hserve⟩
    | true => exact assembled_of_leave (.inr (.inr hserve))

/-- The words of a packet are the frame memory up to the last index. -/
theorem packet_eq (hfsm : s.fsm = .stream) (h : Assembled s f) (hserve : serveNow s i = true) :
    Built s f ∧ Frame.packet s f = (List.range (fLastIdx (cfgNow s) + 1)).map s.frameMem := by
  obtain ⟨hbuilt, hsending⟩ : Built s f ∧ Sending s f := by simpa only [Assembled, hfsm] using h
  have hrd : s.rdIdx = fLastIdx (cfgNow s) := by
    simp only [serveNow, Bool.and_eq_true, sourceLast, beq_iff_eq] at hserve
    exact hserve.2
  refine ⟨hbuilt, ?_⟩
  rw [Frame.packet, sourceData, hsending.beats, hsending.adr, hrd, List.range_succ,
    List.map_append]
  rfl

end Step

/-! ## Bytes on the wire -/

theorem byteAt_append (b₃ b₂ b₁ b₀ : Byte) :
    byteAt (b₃ ++ b₂ ++ b₁ ++ b₀) 0 = b₀ ∧ byteAt (b₃ ++ b₂ ++ b₁ ++ b₀) 1 = b₁ ∧
      byteAt (b₃ ++ b₂ ++ b₁ ++ b₀) 2 = b₂ ∧ byteAt (b₃ ++ b₂ ++ b₁ ++ b₀) 3 = b₃ := by
  refine ⟨?_, ?_, ?_, ?_⟩ <;> ext k hk <;> simp [byteAt] <;> grind

theorem byteAt_zero (k : Nat) : byteAt (0 : Word) k = 0 := by
  simp [byteAt]

/-- Bytes above the two lanes of the last word are padding. -/
theorem byteAt_last (b₁ b₀ : Byte) {k : Nat} (h : 2 ≤ k) :
    byteAt (0#16 ++ b₁ ++ b₀) k = 0 := by
  ext j hj
  simp [byteAt]
  grind

/-- A full word is four bytes as they were built. -/
theorem byteAt_word (bytes : List Byte) (w : Nat) {j : Nat} (hj : j < 4) :
    byteAt (Frame.word bytes w) j = bytes.getD (4 * w + j) 0 := by
  obtain ⟨h₀, h₁, h₂, h₃⟩ := byteAt_append (bytes.getD (4 * w + 3) 0) (bytes.getD (4 * w + 2) 0)
    (bytes.getD (4 * w + 1) 0) (bytes.getD (4 * w) 0)
  rcases (by omega : j = 0 ∨ j = 1 ∨ j = 2 ∨ j = 3) with rfl | rfl | rfl | rfl
  · exact h₀
  · exact h₁
  · exact h₂
  · exact h₃

section Wire

variable {s : State} {i : Input} {f : Frame}

theorem getD_packet (hfsm : s.fsm = .stream) (h : Assembled s f) (hserve : serveNow s i = true)
    {w : Nat} (hw : w ≤ fLastIdx (cfgNow s)) : (Frame.packet s f).getD w 0 = s.frameMem w := by
  rw [(packet_eq hfsm h hserve).2, List.getD_eq_getElem _ _ (by simpa using Nat.lt_succ_of_le hw)]
  simp

/-- Up to the last word, the bytes on the wire are the bytes that were built. -/
theorem wireByte_packet (hfsm : s.fsm = .stream) (h : Assembled s f)
    (hserve : serveNow s i = true) {k : Nat} (hk : k < 4 * fLastIdx (cfgNow s)) :
    Frame.wireByte (Frame.packet s f) k = f.bytes.getD k 0 := by
  have hbuilt := (packet_eq hfsm h hserve).1
  rw [Frame.wireByte, getD_packet hfsm h hserve (by omega), hbuilt.words _ (by omega),
    byteAt_word _ _ (Nat.mod_lt _ (by decide)), Nat.div_add_mod]

/-- A frame whose payload was built of zeros has a silent payload on the wire. -/
theorem wireByte_silent (hfsm : s.fsm = .stream) (h : Assembled s f)
    (hserve : serveNow s i = true) (hadm : Admissible s)
    (hzero : ∀ k, hdrLen ≤ k → f.bytes.getD k 0 = 0) {k : Nat} (hk : hdrLen ≤ k) :
    Frame.wireByte (Frame.packet s f) k = 0 := by
  have hk' : 51 ≤ k := hk
  obtain ⟨half, hhalf, htotal, hidx⟩ := shape_of_le (hadm s.streamIdx)
  have hidx' : fLastIdx (cfgNow s) = 12 + half / 2 := hidx
  obtain ⟨hbuilt, hpacket⟩ := packet_eq hfsm h hserve
  rcases Nat.lt_trichotomy (k / 4) (fLastIdx (cfgNow s)) with hlt | heq | hgt
  · rw [wireByte_packet hfsm h hserve (by omega)]
    exact hzero k hk
  · rw [Frame.wireByte, getD_packet hfsm h hserve heq.le, heq, hbuilt.last]
    by_cases hlane : 2 ≤ k % 4
    · exact byteAt_last _ _ hlane
    · have hfirst : f.bytes.getD (4 * fLastIdx (cfgNow s)) 0 = 0 := hzero _ (by
        show 51 ≤ _
        omega)
      have hlast : f.bytes.getD (fTotal (cfgNow s) - 1) 0 = 0 := hzero _ (by
        show 51 ≤ _
        have htotal' : fTotal (cfgNow s) = 51 + 2 * half := htotal
        omega)
      rw [hfirst, hlast]
      exact byteAt_zero _
  · rw [Frame.wireByte, List.getD_eq_default _ _ (by
      rw [hpacket, List.length_map, List.length_range]
      exact hgt)]
    exact byteAt_zero _

end Wire

end Packetizer
end InfernoFpga
