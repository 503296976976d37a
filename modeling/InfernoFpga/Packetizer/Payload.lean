import InfernoFpga.Packetizer.Header
import Mathlib.Data.Nat.ModEq

/-!
# Payload — the ring reads behind the payload of a packet

`BUILD` sweeps over the slots and samples of a packet.  Each position of the sweep puts an address
on the ring, and two cycles later or more the word read there is taken into the payload.  `Swept`
carries what holds of the addresses over to the reads that were taken, and the reads over to the
bytes that were built.
-/

namespace InfernoFpga
namespace Packetizer

/-! ## The sweep -/

/-- Samples of a packet, over all its slots. -/
def packetSamples (cfg : Byte) : Nat := nslots cfg * fpp cfg

/-- How many positions the sweep has gone on since the frame began. -/
def sweepPos (s : State) : Nat := if s.byteIdx = 0 then 0 else 1 + (s.byteIdx - 51) / 3

/-- A position's address: which ring, where in it, and whether the channel map has an entry. -/
abbrev Addressing := Nat → Nat → Nat → Bool → Prop

/-- The address that the position of a state has on the ring. -/
def Addressing.now (A : Addressing) (s : State) : Prop :=
  A (sweepPos s) (min (csCh s / 8) 5) ((rdf s).toNat % sringDepth) (csVld s)

/-- The address registers hold that of position `m`. -/
def Addressing.held (A : Addressing) (s : State) (m : Nat) : Prop :=
  A m (min s.csMemD 5) s.ringAdr s.csVldD

def Fetch.none : Fetch := ⟨0, 0, false, 0⟩

/-- The sample of the `k`-th read: silence where nothing was read. -/
def Frame.sampleAt (f : Frame) (k : Nat) : Word := (f.fetches.getD k Fetch.none).sample

/-- The reads taken so far were all addressed as they should. -/
def FetchesMeet (A : Addressing) (f : Frame) : Prop :=
  ∀ m < f.fetches.length, let x := f.fetches.getD m Fetch.none; A m x.ring x.adr x.valid

/-- The payload bytes before `n` are those of the samples read. -/
def PayloadBytes (f : Frame) (n : Nat) : Prop :=
  ∀ j, 51 + j < n → f.bytes.getD (51 + j) 0 = byteAt (f.sampleAt (j / 3)) (3 - j % 3)

/-- The sweep while `BUILD` runs. -/
structure Sweeping (A : Addressing) (s : State) (f : Frame) : Prop where
  bph : s.bph = if s.byteIdx < 51 then 0 else (s.byteIdx - 51) % 3
  slot : s.pktPrimed = true → s.csSlot = sweepPos s % nslots (cfgNow s)
  samp : s.pktPrimed = true → s.csSamp = sweepPos s / nslots (cfgNow s)
  first : s.pktPrimed = true → s.byteIdx = 1 → A.held s 0
  later : s.pktPrimed = true → s.bph = 2 → A.held s (sweepPos s)
  count : f.fetches.length = if s.pktPrimed && decide (2 ≤ s.byteIdx) then sweepPos s else 0
  fetched : FetchesMeet A f
  hold : 2 ≤ s.byteIdx → s.sampHold = f.sampleAt (sweepPos s - 1)
  filled : PayloadBytes f s.byteIdx

/-- The reads and bytes of a frame that has been built. -/
structure Sweep (A : Addressing) (s : State) (f : Frame) : Prop where
  count : f.fetches.length =
    if s.pktPrimed then packetSamples (cfgNow s) + 1 else 0
  fetched : FetchesMeet A f
  filled : PayloadBytes f (fTotal (cfgNow s))

/-- The sweep against the observer's log, state by state. -/
def Swept (A : Addressing) (s : State) (f : Frame) : Prop :=
  match s.fsm with
  | .idle => True
  | .skip => True
  | .check => s.bph = 0 ∧ s.csSlot = 0 ∧ s.csSamp = 0 ∧ f.fetches = []
  | .build => Sweeping A s f
  | .prefetch => Sweep A s f
  | .stream => Sweep A s f

/-! ## One cycle -/

section Step

variable {A : Addressing} {s : State} {i : Input} {f : Frame}

theorem getD_append_fetch (l : List Fetch) (x : Fetch) (k : Nat) :
    (l ++ [x]).getD k Fetch.none = if k = l.length then x else l.getD k Fetch.none := by
  split
  · rename_i h
    rw [h, List.getD_append_right _ _ _ _ le_rfl, Nat.sub_self]
    rfl
  · rename_i h
    rcases Nat.lt_or_gt_of_ne h with hlt | hgt
    · exact List.getD_append _ _ _ _ hlt
    · rw [List.getD_eq_default _ _ (by simp; omega), List.getD_eq_default _ _ (by omega)]

/-- The position after the next one is reached slot by slot. -/
theorem position_succ {n : Nat} (hn : 0 < n) (p : Nat) :
    (p % n = n - 1 → (p + 1) % n = 0 ∧ (p + 1) / n = p / n + 1) ∧
      (p % n ≠ n - 1 → (p + 1) % n = p % n + 1 ∧ (p + 1) / n = p / n) := by
  have hdiv := Nat.div_add_mod p n
  have hlt := Nat.mod_lt p hn
  constructor
  · intro hlast
    have hnext : p + 1 = n * (p / n + 1) := by
      rw [Nat.mul_add]
      omega
    rw [hnext, Nat.mul_mod_right, Nat.mul_div_cancel_left _ hn]
    exact ⟨rfl, rfl⟩
  · intro hmid
    have hnext : p + 1 = (p % n + 1) + n * (p / n) := by omega
    have hsmall : p % n + 1 < n := by omega
    rw [hnext, Nat.add_mul_mod_self_left, Nat.add_mul_div_left _ _ hn, Nat.mod_eq_of_lt hsmall,
      Nat.div_eq_of_lt hsmall, Nat.zero_add]
    exact ⟨rfl, rfl⟩

theorem fTotal_samples (hadm : Admissible s) :
    fTotal (cfgNow s) = 51 + 3 * packetSamples (cfgNow s) :=
  fTotal_eq (hadm s.streamIdx)

theorem packetSamples_le {cfg : Byte} (h : nslots cfg ≤ 8) : packetSamples cfg ≤ 480 := by
  calc packetSamples cfg
      ≤ 8 * 60 := Nat.mul_le_mul h (fpp_le cfg)
    _ = 480 := rfl

theorem packetSamples_pos {cfg : Byte} (h : nslots cfg ≠ 0) : 1 ≤ packetSamples cfg := by
  have hfpp := fpp_pos cfg
  exact Nat.mul_pos (Nat.pos_of_ne_zero h) (by omega)

/-- Positions of a frame stay within its samples. -/
theorem sweepPos_le (hadm : Admissible s) (hbound : nslots (cfgNow s) ≠ 0) (hbuild : Building s f) :
    sweepPos s ≤ packetSamples (cfgNow s) := by
  have htotal := fTotal_samples hadm
  have hpos := packetSamples_pos hbound
  have hlt := hbuild.lt
  rw [sweepPos]
  split <;> omega

/-- The position moves on at the first byte and at the end of each sample. -/
theorem sweepPos_step (hbyte : (step s i).byteIdx = s.byteIdx + 1) :
    sweepPos (step s i) =
      if s.byteIdx = 0 ∨ 51 ≤ s.byteIdx ∧ (s.byteIdx - 51) % 3 = 2 then sweepPos s + 1
      else sweepPos s := by
  rw [sweepPos, sweepPos, hbyte, if_neg (Nat.succ_ne_zero _)]
  by_cases hzero : s.byteIdx = 0
  · rw [if_pos (.inl hzero), if_pos hzero, hzero]
  · rw [if_neg hzero]
    split <;> omega

theorem sampleEnd_iff (hfsm : s.fsm = .build) (h : Sweeping A s f) :
    sampleEnd s = true ↔ 51 ≤ s.byteIdx ∧ (s.byteIdx - 51) % 3 = 2 := by
  have hbph := h.bph
  simp only [sampleEnd, hfsm, beq_self_eq_true, Bool.true_and, Bool.and_eq_true,
    decide_eq_true_iff, beq_iff_eq]
  constructor
  · rintro ⟨hpayload, hend⟩
    have hpayload' : 51 ≤ s.byteIdx := hpayload
    rw [if_neg (by omega)] at hbph
    exact ⟨hpayload', by omega⟩
  · rintro ⟨hpayload, hend⟩
    rw [if_neg (by omega)] at hbph
    exact ⟨hpayload, by omega⟩

theorem bph_step (hfsm : s.fsm = .build) (h : Sweeping A s f)
    (hbyte : (step s i).byteIdx = s.byteIdx + 1) :
    (step s i).bph = if (step s i).byteIdx < 51 then 0 else ((step s i).byteIdx - 51) % 3 := by
  have hbph := h.bph
  have hhdr : hdrLen = 51 := rfl
  simp only [step_bph, nextBph, restart_build hfsm, Bool.false_eq_true, if_false, hfsm,
    beq_self_eq_true, Bool.true_and, decide_eq_true_iff, hhdr, beq_iff_eq, hbyte]
  by_cases hhead : s.byteIdx < 51
  · have hnot : ¬ 51 ≤ s.byteIdx := by omega
    rw [if_pos hhead] at hbph
    rw [if_neg hnot, hbph]
    split <;> omega
  · have hpayload : 51 ≤ s.byteIdx := by omega
    have hnext : ¬ s.byteIdx + 1 < 51 := by omega
    rw [if_neg hhead] at hbph
    rw [if_pos hpayload, if_neg hnext, hbph]
    split <;> omega

/-- The slot and sample counters follow the position. -/
theorem slot_step (hfsm : s.fsm = .build) (hadm : Admissible s) (hbound : nslots (cfgNow s) ≠ 0)
    (hbuild : Building s f) (h : Sweeping A s f) (hprimed : s.pktPrimed = true)
    (hbyte : (step s i).byteIdx = s.byteIdx + 1) :
    (step s i).csSlot = sweepPos (step s i) % nslots (cfgNow s) ∧
      (step s i).csSamp = sweepPos (step s i) / nslots (cfgNow s) := by
  have hle : nslots (cfgNow s) ≤ 8 := hadm s.streamIdx
  have hpos : 0 < nslots (cfgNow s) := Nat.pos_of_ne_zero hbound
  have hrange := sweepPos_le hadm hbound hbuild
  have hsmall : sweepPos s / nslots (cfgNow s) ≤ 60 := by
    have hfpp := fpp_le (cfgNow s)
    calc sweepPos s / nslots (cfgNow s)
        ≤ packetSamples (cfgNow s) / nslots (cfgNow s) := Nat.div_le_div_right hrange
      _ = fpp (cfgNow s) := Nat.mul_div_cancel_left _ hpos
      _ ≤ 60 := hfpp
  have hstep : stepSlot s = true ↔
      s.byteIdx = 0 ∨ 51 ≤ s.byteIdx ∧ (s.byteIdx - 51) % 3 = 2 := by
    simp only [stepSlot, hfsm, hprimed, beq_self_eq_true, Bool.true_and, Bool.or_eq_true,
      beq_iff_eq, sampleEnd_iff hfsm h]
  simp only [step_csSlot, step_csSamp, nextCsSlot, nextCsSamp, restart_build hfsm,
    Bool.false_eq_true, if_false]
  rw [sweepPos_step hbyte]
  by_cases hmove : s.byteIdx = 0 ∨ 51 ≤ s.byteIdx ∧ (s.byteIdx - 51) % 3 = 2
  · rw [if_pos (hstep.2 hmove), if_pos (hstep.2 hmove), if_pos hmove]
    have hwrap : (nslots (cfgNow s) + 15) % 16 = nslots (cfgNow s) - 1 := by omega
    have hsucc := position_succ hpos (sweepPos s)
    have hlt := Nat.mod_lt (sweepPos s) hpos
    rw [nxSlot, nxSamp, hwrap, h.slot hprimed, h.samp hprimed]
    by_cases hlast : sweepPos s % nslots (cfgNow s) = nslots (cfgNow s) - 1
    · have hend := hsucc.1 hlast
      rw [hend.1, hend.2]
      simp only [hlast, beq_self_eq_true, if_true]
      exact ⟨trivial, Nat.mod_eq_of_lt (by omega)⟩
    · have hmid := hsucc.2 hlast
      rw [hmid.1, hmid.2]
      simp only [beq_iff_eq, hlast, if_false]
      exact ⟨Nat.mod_eq_of_lt (by omega), trivial⟩
  · rw [if_neg fun hs => hmove (hstep.1 hs), if_neg fun hs => hmove (hstep.1 hs), if_neg hmove]
    exact ⟨h.slot hprimed, h.samp hprimed⟩

theorem pktPrimed_step (hidle : s.fsm ≠ .idle) : (step s i).pktPrimed = s.pktPrimed := by
  show (if walkStart s then s.primed else s.pktPrimed) = s.pktPrimed
  rw [walkStart_of_ne hidle]
  rfl

/-- The read that is taken on a cycle of `fetch`. -/
def taken (s : State) : Fetch := ⟨min s.csMemD 5, s.ringAdr, s.csVldD, sampRd s⟩

theorem fetches_build (hfsm : s.fsm = .build) :
    (Frame.next s i f).fetches = if fetch s then f.fetches ++ [taken s] else f.fetches := by
  simp only [Frame.next, restart_build hfsm, Bool.false_eq_true, if_false]
  rfl

theorem fetch_iff (hfsm : s.fsm = .build) (h : Sweeping A s f) :
    fetch s = true ↔ s.pktPrimed = true ∧
      (s.byteIdx = 1 ∨ 51 ≤ s.byteIdx ∧ (s.byteIdx - 51) % 3 = 2) := by
  simp only [fetch, hfsm, beq_self_eq_true, Bool.true_and, Bool.and_eq_true, Bool.or_eq_true,
    beq_iff_eq, sampleEnd_iff hfsm h]

theorem fetches_of_not (hprimed : s.pktPrimed = false) (h : Sweeping A s f) : f.fetches = [] := by
  have hcount := h.count
  rw [hprimed] at hcount
  exact List.length_eq_zero_iff.1 hcount

/-- Reads are taken in the order of the positions. -/
theorem count_fetch (hfsm : s.fsm = .build) (h : Sweeping A s f) :
    (Frame.next s i f).fetches.length =
      if s.pktPrimed && decide (2 ≤ s.byteIdx + 1) then
        if s.byteIdx = 0 ∨ 51 ≤ s.byteIdx ∧ (s.byteIdx - 51) % 3 = 2 then sweepPos s + 1
        else sweepPos s
      else 0 := by
  have hcount := h.count
  have hiff := fetch_iff hfsm h
  rw [fetches_build hfsm]
  cases hprimed : s.pktPrimed with
  | false =>
    have hnone : ¬ fetch s = true := fun hf => by
      rw [hprimed] at hiff
      exact Bool.noConfusion (hiff.1 hf).1
    rw [if_neg hnone, fetches_of_not hprimed h]
    rfl
  | true =>
    rw [hprimed] at hcount hiff
    simp only [Bool.true_and, decide_eq_true_iff, true_and] at hcount hiff ⊢
    -- byte 0 addresses only, byte 1 takes the first read, then every sample end takes one
    rcases (by omega : s.byteIdx = 0 ∨ s.byteIdx = 1 ∨ 2 ≤ s.byteIdx) with hb | hb | hb
    · have hnone : ¬ fetch s = true := fun hf => by
        rcases hiff.1 hf with h1 | h1 <;> omega
      rw [if_neg hnone, hcount, if_neg (by omega), if_neg (by omega)]
    · have hone : fetch s = true := hiff.2 (.inl hb)
      rw [if_pos hone, List.length_append, hcount, if_neg (by omega), if_pos (by omega),
        if_neg (by omega), sweepPos, hb]
      rfl
    · rw [if_pos hb] at hcount
      by_cases hend : 51 ≤ s.byteIdx ∧ (s.byteIdx - 51) % 3 = 2
      · rw [if_pos (hiff.2 (.inr hend)), List.length_append, hcount, if_pos (by omega),
          if_pos (.inr hend)]
        rfl
      · have hnone : ¬ fetch s = true := fun hf => by
          rcases hiff.1 hf with h1 | h1
          · omega
          · exact hend h1
        rw [if_neg hnone, hcount, if_pos (by omega), if_neg (by omega)]

/-- What is taken was addressed by the position it is taken for. -/
theorem held_fetch (hfsm : s.fsm = .build) (h : Sweeping A s f) (hf : fetch s = true) :
    A.held s f.fetches.length := by
  obtain ⟨hprimed, hwhen⟩ := (fetch_iff hfsm h).1 hf
  have hcount := h.count
  rw [hprimed] at hcount
  rcases hwhen with hfirst | ⟨hpayload, hend⟩
  · rw [hfirst] at hcount
    rw [hcount]
    exact h.first hprimed hfirst
  · have hbph := h.bph
    rw [if_neg (by omega), hend] at hbph
    simp only [Bool.true_and, decide_eq_true_iff] at hcount
    rw [if_pos (by omega)] at hcount
    rw [hcount]
    exact h.later hprimed hbph

theorem fetchesMeet_build (hfsm : s.fsm = .build) (h : Sweeping A s f) :
    FetchesMeet A (Frame.next s i f) := by
  intro m hm
  rw [fetches_build hfsm] at hm ⊢
  by_cases hf : fetch s = true
  · rw [if_pos hf] at hm ⊢
    rw [getD_append_fetch]
    by_cases hlast : m = f.fetches.length
    · rw [if_pos hlast, hlast]
      exact held_fetch hfsm h hf
    · rw [if_neg hlast]
      rw [List.length_append, List.length_singleton] at hm
      exact h.fetched m (by omega)
  · rw [if_neg hf] at hm ⊢
    exact h.fetched m hm

/-- Taking a read leaves those before it. -/
theorem sampleAt_build (hfsm : s.fsm = .build) (h : Sweeping A s f) {k : Nat}
    (hk : s.pktPrimed = true → k < f.fetches.length) :
    (Frame.next s i f).sampleAt k = f.sampleAt k := by
  rw [Frame.sampleAt, Frame.sampleAt, fetches_build hfsm]
  by_cases hf : fetch s = true
  · have hlt := hk ((fetch_iff hfsm h).1 hf).1
    rw [if_pos hf, getD_append_fetch, if_neg (by omega)]
  · rw [if_neg hf]

theorem curByte_payload (hpayload : 51 ≤ s.byteIdx) (hbph : s.bph < 3) :
    curByte s i = byteAt s.sampHold (3 - s.bph) := by
  have hnot : ¬ s.byteIdx < hdrLen := by
    show ¬ s.byteIdx < 51
    omega
  rw [curByte, if_neg hnot]
  rcases (by omega : s.bph = 0 ∨ s.bph = 1 ∨ s.bph = 2) with h | h | h <;> rw [h] <;> rfl

/-- The byte built on this cycle is one of the sample that is held. -/
theorem payloadBytes_build (hfsm : s.fsm = .build) (hbuild : Building s f) (h : Sweeping A s f) :
    PayloadBytes (Frame.next s i f) (s.byteIdx + 1) := by
  intro j hj
  have hcount := h.count
  have hread : s.pktPrimed = true → 51 + j ≤ s.byteIdx → j / 3 < f.fetches.length := by
    intro hprimed hle
    rw [hprimed] at hcount
    simp only [Bool.true_and, decide_eq_true_iff] at hcount
    rw [hcount, if_pos (by omega), sweepPos, if_neg (by omega)]
    omega
  rw [bytes_build hfsm, getD_append_singleton, hbuild.length,
    sampleAt_build hfsm h fun hprimed => hread hprimed (by omega)]
  by_cases hlast : 51 + j = s.byteIdx
  · have hbph := h.bph
    rw [if_neg (by omega)] at hbph
    have hpos : sweepPos s - 1 = j / 3 := by
      rw [sweepPos, if_neg (by omega)]
      omega
    have hphase : s.bph = j % 3 := by
      rw [hbph]
      omega
    rw [if_pos hlast, curByte_payload (by omega) (by omega), h.hold (by omega), hpos, hphase]
  · rw [if_neg hlast]
    exact h.filled j (by omega)

/-- The held sample is the one read last. -/
theorem hold_step (hfsm : s.fsm = .build) (h : Sweeping A s f)
    (hbyte : (step s i).byteIdx = s.byteIdx + 1) (hlate : 2 ≤ s.byteIdx + 1) :
    (step s i).sampHold = (Frame.next s i f).sampleAt (sweepPos (step s i) - 1) := by
  have hcount := h.count
  have hcount' := count_fetch (i := i) hfsm h
  rw [← sweepPos_step hbyte] at hcount'
  have hhold : (step s i).sampHold =
      if s.pktPrimed then if fetch s then slotSample s else s.sampHold else 0 := by
    show nextSampHold s = _
    rw [nextSampHold, hfsm]
    rfl
  rw [hhold, Frame.sampleAt]
  cases hprimed : s.pktPrimed with
  | false =>
    rw [hprimed] at hcount'
    rw [List.length_eq_zero_iff.1 hcount']
    rfl
  | true =>
    rw [hprimed] at hcount hcount'
    simp only [Bool.true_and, decide_eq_true_iff, if_true] at hcount hcount' ⊢
    rw [if_pos hlate] at hcount'
    by_cases hf : fetch s = true
    · -- the read that was just taken is the last of the list
      rw [fetches_build hfsm, if_pos hf, List.length_append, List.length_singleton] at hcount'
      rw [if_pos hf, fetches_build hfsm, if_pos hf, getD_append_fetch, ← hcount',
        if_pos (Nat.add_sub_cancel _ _)]
      rfl
    · rw [fetches_build hfsm, if_neg hf] at hcount'
      have hnot : s.byteIdx ≠ 1 := fun hb => hf ((fetch_iff hfsm h).2 ⟨hprimed, .inl hb⟩)
      rw [if_pos (by omega)] at hcount
      rw [if_neg hf, fetches_build hfsm, if_neg hf, ← hcount', hcount]
      exact h.hold (by omega)

/-- A byte that is not the last. -/
theorem sweeping_step (hfsm : s.fsm = .build) (hadm : Admissible s) (hsafe : FrameSafe s i)
    (hbound : nslots (cfgNow s) ≠ 0) (hbuild : Building s f) (h : Sweeping A s f)
    (hnow : s.pktPrimed = true → (s.byteIdx = 0 ∨ s.bph = 1) → A.now s)
    (hbyte : (step s i).byteIdx = s.byteIdx + 1) : Sweeping A (step s i) (Frame.next s i f) := by
  have hcfg : cfgNow (step s i) = cfgNow s :=
    cfgNow_step hsafe (by simp [inFlight, hfsm]) (nextStreamIdx_build hfsm)
  have hprimed' : (step s i).pktPrimed = s.pktPrimed := pktPrimed_step (by simp [hfsm])
  have hbph := h.bph
  refine ⟨bph_step hfsm h hbyte, fun hp => ?_, fun hp => ?_, fun hp hfirst => ?_,
    fun hp hlater => ?_, ?_, fetchesMeet_build hfsm h, fun hlate => ?_, ?_⟩
  · rw [hprimed'] at hp
    rw [hcfg]
    exact (slot_step hfsm hadm hbound hbuild h hp hbyte).1
  · rw [hprimed'] at hp
    rw [hcfg]
    exact (slot_step hfsm hadm hbound hbuild h hp hbyte).2
  · -- byte 0 addressed the first read
    rw [hprimed'] at hp
    have hpos : sweepPos s = 0 := by
      rw [sweepPos, if_pos (by omega)]
    have haddr := hnow hp (.inl (by omega))
    rw [Addressing.now, hpos] at haddr
    exact haddr
  · -- the middle byte of a sample addressed the read that its end takes
    rw [hprimed'] at hp
    have hmid : 51 ≤ s.byteIdx ∧ (s.byteIdx - 51) % 3 = 1 := by
      have hnext := bph_step (i := i) hfsm h hbyte
      rw [hlater, hbyte] at hnext
      split at hnext
      · cases hnext
      · split at hbph <;> omega
    have hpos : sweepPos (step s i) = sweepPos s := by
      rw [sweepPos_step hbyte, if_neg (by omega)]
    have haddr := hnow hp (.inr (by rw [hbph, if_neg (by omega), hmid.2]))
    rw [hpos]
    exact haddr
  · rw [count_fetch hfsm h, hprimed', hbyte, sweepPos_step hbyte]
  · rw [hbyte] at hlate
    exact hold_step hfsm h hbyte hlate
  · rw [hbyte]
    exact payloadBytes_build hfsm hbuild h

/-- The last byte. -/
theorem sweep_of_last (hfsm : s.fsm = .build) (hadm : Admissible s) (hsafe : FrameSafe s i)
    (hbound : nslots (cfgNow s) ≠ 0) (hbuild : Building s f) (h : Sweeping A s f)
    (hlast : isLast s = true) : Sweep A (step s i) (Frame.next s i f) := by
  have hcfg : cfgNow (step s i) = cfgNow s :=
    cfgNow_step hsafe (by simp [inFlight, hfsm]) (nextStreamIdx_build hfsm)
  have hprimed' : (step s i).pktPrimed = s.pktPrimed := pktPrimed_step (by simp [hfsm])
  have htotal := fTotal_samples hadm
  have hpos := packetSamples_pos hbound
  have hend : s.byteIdx + 1 = fTotal (cfgNow s) := by
    rw [isLast_eq (hadm s.streamIdx)] at hlast
    exact of_decide_eq_true hlast
  have hsweep : sweepPos s = packetSamples (cfgNow s) := by
    rw [sweepPos, if_neg (by omega)]
    omega
  refine ⟨?_, fetchesMeet_build hfsm h, ?_⟩
  · have hlate : decide (2 ≤ s.byteIdx + 1) = true := decide_eq_true (by omega)
    have hmove : s.byteIdx = 0 ∨ 51 ≤ s.byteIdx ∧ (s.byteIdx - 51) % 3 = 2 :=
      .inr ⟨by omega, by omega⟩
    rw [count_fetch hfsm h, hprimed', hcfg, hlate, Bool.and_true, if_pos hmove, hsweep]
  · rw [hcfg, ← hend]
    exact payloadBytes_build hfsm hbuild h

/-- A frame that has been built keeps its reads and bytes until its last word is accepted. -/
theorem sweep_step (hne : s.fsm = .prefetch ∨ s.fsm = .stream) (hsafe : FrameSafe s i)
    (hserve : serveNow s i = false) (h : Sweep A s f) : Sweep A (step s i) (Frame.next s i f) := by
  have hbuild : s.fsm ≠ .build := by rcases hne with hfsm | hfsm <;> simp [hfsm]
  have hskip : s.fsm ≠ .skip := by rcases hne with hfsm | hfsm <;> simp [hfsm]
  have hidle : s.fsm ≠ .idle := by rcases hne with hfsm | hfsm <;> simp [hfsm]
  have hflight : inFlight s = true := by rcases hne with hfsm | hfsm <;> simp [inFlight, hfsm]
  have hadvance : advance s i = false := by simp [advance, hserve, hskip]
  have hcfg : cfgNow (step s i) = cfgNow s :=
    cfgNow_step hsafe hflight (nextStreamIdx_of_ne hidle hadvance)
  have hrestart : restart s i = false := by simp [restart, walkStart_of_ne hidle, hadvance]
  have hfetches : (Frame.next s i f).fetches = f.fetches := by
    simp [Frame.next, hrestart, fetch, hbuild]
  have hbytes : (Frame.next s i f).bytes = f.bytes := by simp [Frame.next, hrestart, hbuild]
  refine ⟨?_, ?_, ?_⟩
  · rw [hfetches, pktPrimed_step hidle, hcfg]
    exact h.count
  · rw [FetchesMeet, hfetches]
    exact h.fetched
  · rw [PayloadBytes, hcfg, hbytes]
    simp only [Frame.sampleAt, hfetches]
    exact h.filled

/-- While nothing is in flight the addressing does not matter. -/
theorem Swept.of_not_inFlight {A' : Addressing} (h : Swept A s f) (hno : inFlight s = false) :
    Swept A' s f := by
  cases hfsm : s.fsm <;> simp_all [Swept, inFlight]

theorem swept_of_ended {s' : State} {f' : Frame} (h : s'.fsm = .idle ∨ s'.fsm = .skip) :
    Swept A s' f' := by
  rcases h with h | h <;> simp [Swept, h]

theorem swept_of_leave (h : s.fsm = .idle ∨ s.fsm = .skip ∨ serveNow s i = true) :
    Swept A (step s i) (Frame.next s i f) := by
  rcases leaves_frame h with hidle | ⟨hcheck, hrestart⟩
  · exact swept_of_ended (.inl hidle)
  · rw [Swept, hcheck]
    simp [nextBph, nextCsSlot, nextCsSamp, Frame.next, hrestart]

/-- A frame begins: nothing has been addressed, read or built. -/
theorem sweeping_start (hfsm : s.fsm = .check) (hbyte : s.byteIdx = 0)
    (h : s.bph = 0 ∧ s.csSlot = 0 ∧ s.csSamp = 0 ∧ f.fetches = []) :
    Sweeping A (step s i) (Frame.next s i f) := by
  obtain ⟨hbph, hslot, hsamp, hfetches⟩ := h
  have hrestart : restart s i = false :=
    restart_of_ne (by simp [hfsm]) (by simp [hfsm]) (by simp [hfsm])
  have hbyte' : (step s i).byteIdx = 0 := by simp [nextByteIdx, hrestart, hfsm, hbyte]
  have hpos : sweepPos (step s i) = 0 := by
    rw [sweepPos, if_pos hbyte']
  have hbph' : (step s i).bph = 0 := by simp [nextBph, hrestart, hfsm, hbph]
  have hslot' : (step s i).csSlot = 0 := by simp [nextCsSlot, hrestart, stepSlot, hfsm, hslot]
  have hsamp' : (step s i).csSamp = 0 := by simp [nextCsSamp, hrestart, stepSlot, hfsm, hsamp]
  have hfetches' : (Frame.next s i f).fetches = [] := by
    simp [Frame.next, hrestart, fetch, hfsm, hfetches]
  refine ⟨?_, fun _ => ?_, fun _ => ?_, fun _ hb => ?_, fun _ hb => ?_, ?_, fun m hm => ?_,
    fun hb => ?_, fun j hj => ?_⟩
  · rw [hbph', hbyte', if_pos (by decide)]
  · rw [hslot', hpos, Nat.zero_mod]
  · rw [hsamp', hpos, Nat.zero_div]
  · rw [hbyte'] at hb
    cases hb
  · rw [hbph'] at hb
    cases hb
  · rw [hfetches', hbyte']
    simp
  · rw [hfetches'] at hm
    cases hm
  · rw [hbyte'] at hb
    cases hb
  · rw [hbyte'] at hj
    cases hj

/-- One cycle keeps the log and the sweep together. -/
theorem swept_step (h : Swept A s f) (hasm : Assembled s f) (hadm : Admissible s)
    (hsafe : FrameSafe s i) (hbound : inFlight s = true → nslots (cfgNow s) ≠ 0)
    (hnow : s.fsm = .build → s.pktPrimed = true →
      s.csSlot = sweepPos s % nslots (cfgNow s) → s.csSamp = sweepPos s / nslots (cfgNow s) →
        (s.byteIdx = 0 ∨ s.bph = 1) → A.now s) : Swept A (step s i) (Frame.next s i f) := by
  cases hfsm : s.fsm with
  | idle => exact swept_of_leave (.inl hfsm)
  | skip => exact swept_of_leave (.inr (.inl hfsm))
  | check =>
    by_cases hskip : (flowOff s || !(cur s).pend) = true
    · exact swept_of_ended (.inr ((nextFsm_check hfsm).trans (if_pos hskip)))
    · have hnext : (step s i).fsm = .build := (nextFsm_check hfsm).trans (if_neg hskip)
      rw [Assembled, hfsm] at hasm
      rw [Swept, hfsm] at h
      rw [Swept, hnext]
      exact sweeping_start hfsm hasm.1 h
  | build =>
    have hbuild : Building s f := by simpa only [Assembled, hfsm] using hasm
    have hsweep : Sweeping A s f := by simpa only [Swept, hfsm] using h
    have hbound' := hbound (by simp [inFlight, hfsm])
    cases hlast : isLast s with
    | false =>
      have hnext : (step s i).fsm = .build := by simp [nextFsm_build hfsm, hlast]
      have htotal := fTotal_samples hadm
      have hsmall := packetSamples_le (hadm s.streamIdx)
      have hlt := hbuild.lt
      have hsmall' : packetSamples (cfgNow s) ≤ 480 := hsmall
      rw [Swept, hnext]
      exact sweeping_step hfsm hadm hsafe hbound' hbuild hsweep
        (fun hp => hnow hfsm hp (hsweep.slot hp) (hsweep.samp hp))
        (byteIdx_build hfsm hlast (by omega))
    | true =>
      have hnext : (step s i).fsm = .prefetch := by simp [nextFsm_build hfsm, hlast]
      rw [Swept, hnext]
      exact sweep_of_last hfsm hadm hsafe hbound' hbuild hsweep hlast
  | prefetch =>
    have hsweep : Sweep A s f := by simpa only [Swept, hfsm] using h
    have hnext : (step s i).fsm = .stream := by simp [nextFsm, hfsm]
    rw [Swept, hnext]
    exact sweep_step (.inl hfsm) hsafe (serveNow_of_ne (by simp [hfsm])) hsweep
  | stream =>
    have hsweep : Sweep A s f := by simpa only [Swept, hfsm] using h
    cases hserve : serveNow s i with
    | false =>
      have hnext : (step s i).fsm = .stream := by simp [nextFsm_stream hfsm, hserve]
      rw [Swept, hnext]
      exact sweep_step (.inr hfsm) hsafe hserve hsweep
    | true => exact swept_of_leave (.inr (.inr hserve))

/-- On the wire the payload is the samples that were read, up to the last word. -/
theorem wireByte_payload (hserve : serveNow s i = true) (h : Swept A s f) (hasm : Assembled s f)
    (hadm : Admissible s) {j : Nat} (hj : 51 + j < 4 * fLastIdx (cfgNow s)) :
    Frame.wireByte (Frame.packet s f) (51 + j) = byteAt (f.sampleAt (j / 3)) (3 - j % 3) := by
  have hfsm : s.fsm = .stream := stream_of_serveNow hserve
  have hsweep : Sweep A s f := by simpa only [Swept, hfsm] using h
  obtain ⟨half, -, htotal, hlast⟩ := shape_of_le (hadm s.streamIdx)
  have htotal' : fTotal (cfgNow s) = 51 + 2 * half := htotal
  have hlast' : fLastIdx (cfgNow s) = 12 + half / 2 := hlast
  rw [wireByte_packet hfsm hasm hserve hj]
  exact hsweep.filled j (by omega)

/-- Once the last word is accepted nothing is left of the frame. -/
theorem swept_served (hserve : serveNow s i = true) : Swept A (step s i) (Frame.next s i f) :=
  swept_of_leave (.inr (.inr hserve))

theorem assembled_served (hserve : serveNow s i = true) :
    Assembled (step s i) (Frame.next s i f) :=
  assembled_of_leave (.inr (.inr hserve))

end Step

end Packetizer
end InfernoFpga
