import InfernoFpga.Lib.Carry
import InfernoFpga.Lib.Wrap
import InfernoFpga.Packetizer.Due
import InfernoFpga.Packetizer.Header
import Mathlib.Data.List.Range

/-!
# Pacing — the timestamps of a flow's packets

The media counters, a context's phase and the subtraction that dates a packet back to the start
of its window all count the same samples.  `stamp t` is sample `t` as the two timestamp registers
hold it; every counter of this file is read off such a `t`.
-/

namespace InfernoFpga
namespace Packetizer

open Lib

/-! ## Samples and timestamps -/

/-- Sample `t` as the timestamp registers hold it. -/
def stamp (t : Int) : Stamp := (wrapped 32 (digits 48000 t).1, wrapped 32 (digits 48000 t).2)

/-- The count of a timestamp. -/
def Stamp.count (a : Stamp) : Nat := a.1.toNat * 48000 + a.2.toNat

/-- The seconds are a 32-bit field, so counts wrap after so many samples. -/
abbrev countWrap : Nat := 2 ^ 32 * 48000

/-- Start of the window of a packet of `fpp` samples whose last one the counter has. -/
def windowStart (fpp : Nat) (a : Stamp) : Stamp :=
  if a.2.toNat < fpp - 1 then
    (a.1 - 1, a.2 + BitVec.ofNat 32 subsecMax - BitVec.ofNat 32 (fpp - 1))
  else (a.1, a.2 - BitVec.ofNat 32 (fpp - 1))

/-- What the builder puts into a header is the window start of the emit latches. -/
theorem headerStamp_eq (s : State) :
    headerStamp s = windowStart (curFpp s) (s.tsSecEmit, s.tsSubEmit) := by
  rw [headerStamp, windowStart, fTsSec, fTsSub, borrow]
  by_cases h : s.tsSubEmit.toNat < curFpp s - 1 <;> simp [h]

theorem second_pos : (0 : Int) < 48000 := by decide

theorem stamp_of_digits {t q r : Int} (h : digits 48000 t = (q, r)) :
    stamp t = (wrapped 32 q, wrapped 32 r) := by
  rw [stamp, h]

theorem stamp_fst (t : Int) : ((stamp t).1.toNat : Int) = t / 48000 % (2 ^ 32 : Nat) :=
  toNat_wrapped _

theorem stamp_snd (t : Int) : ((stamp t).2.toNat : Int) = t % 48000 := by
  have hlow := rest_nonneg second_pos t
  have hhigh := rest_lt second_pos t
  have hwrap : ((stamp t).2.toNat : Int) = t % 48000 % (2 ^ 32 : Nat) := toNat_wrapped _
  rw [hwrap]
  exact Int.emod_eq_of_lt hlow (by omega)

theorem stamp_snd_lt (t : Int) : (stamp t).2.toNat < 48000 := by
  have hrest := stamp_snd t
  have hhigh := rest_lt second_pos t
  omega

/-- A timestamp with a proper sample of the second is that of its count. -/
theorem stamp_count {a : Stamp} (h : a.2.toNat < 48000) : stamp a.count = a := by
  have hsplit : digits 48000 (a.count : Int) = ((a.1.toNat : Int), (a.2.toNat : Int)) := by
    refine digits_eq second_pos ?_ (Int.natCast_nonneg _) (by omega)
    rw [Stamp.count]
    omega
  have hfst := a.1.isLt
  rw [stamp, hsplit]
  refine Prod.ext ?_ ?_ <;> apply BitVec.eq_of_toNat_eq <;> apply Int.ofNat_inj.1 <;>
    rw [toNat_wrapped] <;> exact Int.emod_eq_of_lt (Int.natCast_nonneg _) (by omega)

/-- Counts are those of the samples, modulo the wrap of the seconds. -/
theorem count_stamp (t : Int) : ((stamp t).count : Int) = t % countWrap := by
  have hsec := stamp_fst t
  have hsub := stamp_snd t
  rw [Stamp.count]
  simp only [countWrap] at *
  omega

/-- The counter after a strobe. -/
theorem tick_stamp (t : Int) :
    (if (stamp t).2 = BitVec.ofNat 32 (subsecMax - 1) then ((stamp t).1 + 1, 0)
      else ((stamp t).1, (stamp t).2 + 1)) = stamp (t + 1) := by
  have hrest := stamp_snd t
  have hone : (1 : Word) = wrapped 32 1 := by decide
  have hlast : (stamp t).2 = BitVec.ofNat 32 (subsecMax - 1) ↔ t % 48000 = 48000 - 1 := by
    have hval : (BitVec.ofNat 32 (subsecMax - 1)).toNat = 47999 := by decide
    rw [← BitVec.toNat_inj, hval]
    omega
  have hdigits := digits_succ second_pos t
  by_cases h : t % 48000 = 48000 - 1
  · rw [if_pos h] at hdigits
    rw [if_pos (hlast.2 h), stamp_of_digits hdigits, hone]
    exact Prod.ext (wrapped_add _ _).symm rfl
  · rw [if_neg h] at hdigits
    rw [if_neg fun h' => h (hlast.1 h'), stamp_of_digits hdigits, hone]
    exact Prod.ext rfl (wrapped_add _ _).symm

theorem wrapped_sub (x y : Int) : wrapped 32 (x - y) = wrapped 32 x - wrapped 32 y := by
  have h : wrapped 32 x = wrapped 32 (x - y) + wrapped 32 y := by
    rw [← wrapped_add, sub_add_cancel]
  rw [h, BitVec.add_sub_cancel]

/-- The window of a packet starts `fpp - 1` samples back. -/
theorem windowStart_stamp {fpp : Nat} (h1 : 1 ≤ fpp) (h2 : fpp ≤ 48000) (t : Int) :
    windowStart fpp (stamp t) = stamp (t - (fpp - 1)) := by
  have hrest := stamp_snd t
  have hback : BitVec.ofNat 32 (fpp - 1) = wrapped 32 ((fpp : Int) - 1) := by
    rw [← Int.natCast_pred_of_pos h1]
    exact (BitVec.ofInt_natCast 32 (fpp - 1)).symm
  have hperiod : BitVec.ofNat 32 subsecMax = wrapped 32 48000 := by decide
  have hone : (1 : Word) = wrapped 32 1 := by decide
  have hborrow : (stamp t).2.toNat < fpp - 1 ↔ t % 48000 < fpp - 1 := by omega
  have hdigits := digits_sub second_pos t (d := (fpp : Int) - 1) (by omega) (by omega)
  rw [windowStart, hback, hperiod, hone]
  by_cases h : t % 48000 < fpp - 1
  · rw [if_pos h] at hdigits
    rw [if_pos (hborrow.2 h), stamp_of_digits hdigits]
    refine Prod.ext (wrapped_sub _ _).symm ?_
    rw [wrapped_sub (t % 48000 + 48000), wrapped_add]
    rfl
  · rw [if_neg h] at hdigits
    rw [if_neg fun h' => h (hborrow.1 h'), stamp_of_digits hdigits]
    exact Prod.ext rfl (wrapped_sub _ _).symm

/-! ## A context that paces -/

/-- One context is bound, its phase is in step with the counter, and no load is pending. -/
structure Paced (s : State) (k : CtxId) : Prop where
  bound : nslots (s.ctx k).cfg ≠ 0
  alone : ∀ j, j ≠ k → nslots (s.ctx j).cfg = 0
  range : s.tsSub.toNat < 48000
  phase : (s.ctx k).phase = s.tsSub.toNat % fpp (s.ctx k).cfg
  loaded : s.tsLoadPending = false

/-- Neither a load nor a rebind, and the offset register at zero. -/
def Calm (i : Input) : Prop := i.tsLoadRe = false ∧ i.flowCfgRe = false ∧ i.csr.tsOffset = 0

instance (i : Input) : Decidable (Calm i) := inferInstanceAs (Decidable (_ ∧ _))

/-- What an observer of a context records: at every strobe whether the context is due, for every
group completed the timestamp of its first sample, and the timestamps of the packets sent since
the first group. -/
structure Pace where
  frame : Frame
  dues : List Bool
  stamps : List Stamp
  sent : List Stamp

namespace Pace

def start (f : Frame) : Pace := { frame := f, dues := [], stamps := [], sent := [] }

def next (k : CtxId) (s : State) (i : Input) (p : Pace) : Pace :=
  { frame := Frame.next s i p.frame
    dues := if strobe i then p.dues ++ [due s k] else p.dues
    stamps :=
      if dueEvent s i k then
        p.stamps ++ [windowStart (fpp (s.ctx k).cfg) (s.tsSec, s.tsSub)]
      else p.stamps
    sent :=
      if served s i k && !p.stamps.isEmpty then
        p.sent ++ [wireStamp (Frame.packet s p.frame)]
      else p.sent }

end Pace

/-- The packetizer with the observer of context `k`. -/
def pacedStep (k : CtxId) : State × Pace → Input → State × Pace := watch step (Pace.next k)

/-- The counters against the number of strobes since sample `t₀`. -/
structure Counted (k : CtxId) (c : Byte) (t₀ : Int) (s : State) (p : Pace) : Prop where
  cfg : (s.ctx k).cfg = c
  alone : ∀ j, j ≠ k → nslots (s.ctx j).cfg = 0
  loaded : s.tsLoadPending = false
  time : (s.tsSec, s.tsSub) = stamp (t₀ + p.dues.length)
  phase : (s.ctx k).phase < fpp c
  count : t₀ + p.dues.length = fpp c * (t₀ / fpp c + p.stamps.length) + (s.ctx k).phase
  dues : p.dues = (List.range p.dues.length).map fun m : Nat => decide ((fpp c : Int) ∣ t₀ + m + 1)
  stamps : p.stamps = (List.range p.stamps.length).map fun m : Nat => stamp (fpp c * (t₀ / fpp c + m))

section Counting

variable {k : CtxId} {c : Byte} {t₀ : Int} {s : State} {p : Pace} {i : Input}

theorem counted_start (hs : Paced s k) (f : Frame) :
    Counted k (s.ctx k).cfg (Stamp.count (s.tsSec, s.tsSub)) s (Pace.start f) := by
  have hpos := fpp_pos (s.ctx k).cfg
  have hcount : Stamp.count (s.tsSec, s.tsSub) = s.tsSec.toNat * 48000 + s.tsSub.toNat := rfl
  have hmod : s.tsSub.toNat % fpp (s.ctx k).cfg =
      Stamp.count (s.tsSec, s.tsSub) % fpp (s.ctx k).cfg := by
    rw [hcount, Nat.add_mod, (Nat.dvd_iff_mod_eq_zero).1
      ((fpp_dvd_subsecMax (s.ctx k).cfg).mul_left s.tsSec.toNat), Nat.zero_add, Nat.mod_mod]
  refine ⟨rfl, hs.alone, hs.loaded, ?_, ?_, ?_, rfl, rfl⟩
  · exact ((congrArg stamp (Int.add_zero _)).trans (stamp_count hs.range)).symm
  · rw [hs.phase]
    exact Nat.mod_lt _ (by omega)
  · rw [hs.phase, hmod]
    simp only [Pace.start, List.length_nil, Nat.cast_zero, add_zero]
    push_cast
    exact (Int.mul_ediv_add_emod _ _).symm

/-- A strobe ticks the media counter. -/
theorem time_strobe {t : Int} (hload : s.tsLoadPending = false) (ht : (s.tsSec, s.tsSub) = stamp t)
    (hstrobe : strobe i = true) :
    ((step s i).tsSec, (step s i).tsSub) = stamp (t + 1) := by
  have hsec : s.tsSec = (stamp t).1 := congrArg Prod.fst ht
  have hsub : s.tsSub = (stamp t).2 := congrArg Prod.snd ht
  rw [← tick_stamp, step_tsSec, step_tsSub, nextTsSec, nextTsSub, hstrobe, hload, hsec, hsub]
  simp only [if_true, Bool.false_eq_true, if_false, beq_iff_eq]
  split <;> rfl

theorem time_still (hstrobe : strobe i = false) :
    ((step s i).tsSec, (step s i).tsSub) = (s.tsSec, s.tsSub) := by
  rw [step_tsSec, step_tsSub, nextTsSec, nextTsSub, hstrobe]
  rfl

/-- A context is due when its phase is at the end of a group. -/
theorem due_iff (hbound : nslots c ≠ 0) (hc : (s.ctx k).cfg = c) :
    due s k = true ↔ (s.ctx k).phase + 1 = fpp c := by
  have hpos := fpp_pos c
  simp only [due, hc, Bool.and_eq_true, bne_iff_ne, beq_iff_eq]
  constructor
  · rintro ⟨-, h⟩
    omega
  · intro h
    exact ⟨hbound, by omega⟩

/-- Whether the context is due follows from the count alone. -/
theorem due_eq (hbound : nslots c ≠ 0) (h : Counted k c t₀ s p) :
    due s k = decide ((fpp c : Int) ∣ t₀ + p.dues.length + 1) := by
  have hpos := fpp_pos c
  have hphase := h.phase
  rw [Bool.eq_iff_iff, due_iff hbound h.cfg, decide_eq_true_iff, h.count, add_assoc,
    Int.dvd_add_right (Dvd.intro _ rfl)]
  constructor
  · intro hlast
    exact ⟨1, by omega⟩
  · intro hdvd
    have hdvd' : fpp c ∣ (s.ctx k).phase + 1 := by exact_mod_cast hdvd
    have hle := Nat.le_of_dvd (Nat.succ_pos _) hdvd'
    omega

/-- A cycle that neither loads nor rebinds keeps the bindings. -/
theorem Counted.bindings (hi : Calm i) (h : Counted k c t₀ s p) :
    ((step s i).ctx k).cfg = c ∧ (∀ j, j ≠ k → nslots ((step s i).ctx j).cfg = 0) ∧
      (step s i).tsLoadPending = false := by
  have hcfg : ∀ j, ((step s i).ctx j).cfg = (s.ctx j).cfg := fun j => congrFun (cfgs_step hi.2.1) j
  refine ⟨(hcfg k).trans h.cfg, ?_, ?_⟩
  · intro j hj
    rw [hcfg]
    exact h.alone j hj
  · rw [step_tsLoadPending, nextTsLoadPending, h.loaded, hi.1]
    simp

/-- The phase of the context goes round with the strobes. -/
theorem Counted.nextPhase (hi : Calm i) (h : Counted k c t₀ s p) :
    ((step s i).ctx k).phase =
      if strobe i then if (s.ctx k).phase = fpp c - 1 then 0 else ((s.ctx k).phase + 1) % 64
      else (s.ctx k).phase := by
  rw [step_ctx, nextCtx_phase hi.2.1, h.cfg]

theorem counted_still (hi : Calm i) (h : Counted k c t₀ s p) (hstrobe : strobe i = false) :
    Counted k c t₀ (step s i) (Pace.next k s i p) := by
  rcases h.bindings hi with ⟨hcfg, halone, hload⟩
  have hdues : (Pace.next k s i p).dues = p.dues := by simp [Pace.next, hstrobe]
  have hstamps : (Pace.next k s i p).stamps = p.stamps := by
    simp [Pace.next, dueEvent, hstrobe]
  have hsame : ((step s i).ctx k).phase = (s.ctx k).phase := by
    rw [h.nextPhase hi, hstrobe]
    rfl
  refine ⟨hcfg, halone, hload, ?_, ?_, ?_, ?_, ?_⟩
  · rw [time_still hstrobe, hdues]
    exact h.time
  · rw [hsame]
    exact h.phase
  · rw [hdues, hstamps, hsame]
    exact h.count
  · rw [hdues]
    exact h.dues
  · rw [hstamps]
    exact h.stamps

/-- At a strobe the time moves on by one sample, and the list of dues by one entry. -/
theorem Counted.strobed (hbound : nslots c ≠ 0) (h : Counted k c t₀ s p)
    (hstrobe : strobe i = true) :
    ((step s i).tsSec, (step s i).tsSub) = stamp (t₀ + (Pace.next k s i p).dues.length) ∧
      (Pace.next k s i p).dues = ((List.range (Pace.next k s i p).dues.length).map
        fun m : Nat => decide ((fpp c : Int) ∣ t₀ + m + 1)) ∧
      ((Pace.next k s i p).dues.length : Int) = p.dues.length + 1 := by
  have hdues : (Pace.next k s i p).dues = p.dues ++ [due s k] := by simp [Pace.next, hstrobe]
  have hlen : ((Pace.next k s i p).dues.length : Int) = p.dues.length + 1 := by
    rw [hdues, List.length_append, List.length_singleton]
    push_cast
    rfl
  refine ⟨?_, ?_, hlen⟩
  · rw [hlen, ← add_assoc]
    exact time_strobe h.loaded h.time hstrobe
  · rw [hdues, List.length_append, List.length_singleton, List.range_succ, List.map_append,
      ← h.dues, due_eq hbound h]
    rfl

/-- A group is complete: the window that ends with the present sample is stamped. -/
theorem counted_group (hbound : nslots c ≠ 0) (hi : Calm i) (h : Counted k c t₀ s p)
    (hstrobe : strobe i = true) (hlast : due s k = true) :
    Counted k c t₀ (step s i) (Pace.next k s i p) := by
  have hpos := fpp_pos c
  have hle := fpp_le c
  have hcount := h.count
  have hphase := (due_iff hbound h.cfg).1 hlast
  rcases h.bindings hi with ⟨hcfg, halone, hload⟩
  rcases h.strobed hbound hstrobe with ⟨htime, hlist, hlen⟩
  have hstart : windowStart (fpp c) (s.tsSec, s.tsSub) =
      stamp (fpp c * (t₀ / fpp c + p.stamps.length)) := by
    rw [h.time, windowStart_stamp (by omega) (by omega)]
    congr 1
    omega
  have hstamps : (Pace.next k s i p).stamps =
      p.stamps ++ [stamp (fpp c * (t₀ / fpp c + p.stamps.length))] := by
    rw [← hstart, ← h.cfg]
    simp [Pace.next, dueEvent, hstrobe, hlast]
  have hzero : ((step s i).ctx k).phase = 0 := by
    rw [h.nextPhase hi, hstrobe, if_pos rfl, if_pos (by omega)]
  refine ⟨hcfg, halone, hload, htime, ?_, ?_, hlist, ?_⟩
  · rw [hzero]
    omega
  · rw [hlen, hstamps, hzero, List.length_append, List.length_singleton]
    push_cast
    rw [← add_assoc (t₀ / (fpp c : Int)), mul_add, mul_one]
    omega
  · rw [hstamps, List.length_append, List.length_singleton, List.range_succ, List.map_append,
      ← h.stamps]
    rfl

theorem counted_within (hbound : nslots c ≠ 0) (hi : Calm i) (h : Counted k c t₀ s p)
    (hstrobe : strobe i = true) (hlast : due s k = false) :
    Counted k c t₀ (step s i) (Pace.next k s i p) := by
  have hle := fpp_le c
  have hphase := h.phase
  have hcount := h.count
  rcases h.bindings hi with ⟨hcfg, halone, hload⟩
  rcases h.strobed hbound hstrobe with ⟨htime, hlist, hlen⟩
  have hstamps : (Pace.next k s i p).stamps = p.stamps := by
    simp [Pace.next, dueEvent, hlast]
  have hne : (s.ctx k).phase + 1 ≠ fpp c := by
    intro heq
    rw [(due_iff hbound h.cfg).2 heq] at hlast
    cases hlast
  have hsucc : ((step s i).ctx k).phase = (s.ctx k).phase + 1 := by
    rw [h.nextPhase hi, hstrobe, if_pos rfl, if_neg (by omega), Nat.mod_eq_of_lt (by omega)]
  refine ⟨hcfg, halone, hload, htime, ?_, ?_, hlist, ?_⟩
  · rw [hsucc]
    omega
  · rw [hlen, hstamps, hsucc]
    push_cast
    omega
  · rw [hstamps]
    exact h.stamps

/-- One cycle of the counters. -/
theorem counted_step (hbound : nslots c ≠ 0) (hi : Calm i) (h : Counted k c t₀ s p) :
    Counted k c t₀ (step s i) (Pace.next k s i p) := by
  cases hstrobe : strobe i with
  | false => exact counted_still hi h hstrobe
  | true =>
    cases hlast : due s k with
    | true => exact counted_group hbound hi h hstrobe hlast
    | false => exact counted_within hbound hi h hstrobe hlast

end Counting

/-! ## The law of the timestamps -/

/-- Each timestamp is a proper one that `n` divides, and `n` samples after the one before. -/
structure PacingLaw (n : Nat) (l : List Stamp) : Prop where
  proper : ∀ a ∈ l, a.2.toNat < 48000 ∧ n ∣ a.2.toNat
  chain : l.IsChain fun a b => b.count = (a.count + n) % countWrap

theorem PacingLaw.of_prefix {n : Nat} {l l' : List Stamp} (h : PacingLaw n l) (hpre : l' <+: l) :
    PacingLaw n l' :=
  ⟨fun a ha => h.proper a (hpre.subset ha), h.chain.prefix hpre⟩

/-- Windows of `n` samples one after the other, from a multiple of `n`. -/
theorem pacingLaw_windows {n : Nat} (hn : n ∣ 48000) (q : Int) (len : Nat) :
    PacingLaw n ((List.range len).map fun m : Nat => stamp (n * (q + m))) := by
  refine ⟨fun a ha => ?_, ?_⟩
  · obtain ⟨m, -, rfl⟩ := List.mem_map.1 ha
    refine ⟨stamp_snd_lt _, ?_⟩
    have hrest := stamp_snd (n * (q + m))
    have hdvd : (n : Int) ∣ n * (q + m) % 48000 := by
      refine Int.dvd_of_emod_eq_zero ?_
      rw [rest_emod (by exact_mod_cast hn), Int.mul_emod_right]
    rw [← hrest] at hdvd
    exact_mod_cast hdvd
  · rw [List.isChain_map, List.isChain_range]
    intro m hm
    have hone := count_stamp (n * (q + m))
    have hnext := count_stamp (n * (q + (m + 1 : Nat)))
    have hstep : (n : Int) * (q + (m + 1 : Nat)) = n * (q + m) + n := by
      push_cast
      rw [← add_assoc, mul_add, mul_one]
    rw [hstep] at hnext
    apply Int.ofNat_inj.1
    rw [hstep, hnext, Int.natCast_emod, Int.natCast_add, hone, Int.emod_add_emod]

/-! ## What the packets carry -/

/-- The packets against the groups completed: all sent, or one under way with its timestamp. -/
structure Carried (k : CtxId) (c : Byte) (s : State) (p : Pace) : Prop where
  admissible : Admissible s
  assembled : Assembled s p.frame
  flight : inFlight s = true → (cur s).pend = true
  before : p.stamps = [] → p.sent = []
  waiting : p.stamps ≠ [] → (s.ctx k).pend = true → ∃ a, p.stamps = p.sent ++ [a] ∧
    windowStart (fpp c) (s.tsSecEmit, s.tsSubEmit) = a ∧
    (inFlight s = true → s.streamIdx = k → BytesMeet (StampByte a) p.frame)
  done : p.stamps ≠ [] → (s.ctx k).pend = false → p.stamps = p.sent

section Carrying

variable {k : CtxId} {c : Byte} {t₀ : Int} {s : State} {p : Pace} {i : Input}

theorem Calm.frameSafe (hi : Calm i) : FrameSafe s i := by
  intro hwrite
  rw [hi.2.1] at hwrite
  cases hwrite

/-- With one context bound, that one alone makes a strobe a due strobe. -/
theorem dueStrobe_eq (h : Counted k c t₀ s p) : dueStrobe s i = dueEvent s i k := by
  have hany : anyDue s = due s k := by
    rw [Bool.eq_iff_iff, anyDue, decide_eq_true_iff]
    refine ⟨fun ⟨j, hj⟩ => ?_, fun hk => ⟨k, hk⟩⟩
    by_contra hk
    have hne : j ≠ k := by
      rintro rfl
      exact hk hj
    simp [due, h.alone j hne] at hj
  rw [dueStrobe, dueEvent, hany]

/-- A packet of the context carries the timestamp whose bytes were built. -/
theorem wireStamp_served (hbound : nslots c ≠ 0) (hcfg : (s.ctx k).cfg = c) (hadm : Admissible s)
    (hasm : Assembled s p.frame) (hserved : served s i k = true) {a : Stamp}
    (hmeet : BytesMeet (StampByte a) p.frame) : wireStamp (Frame.packet s p.frame) = a := by
  obtain ⟨hserve, hidx⟩ := served_iff.1 hserved
  refine wireStamp_eq fun j hj => wireByte_meets hserve hasm hmeet hadm ?_
  have hle : nslots c ≤ 8 := hcfg ▸ hadm k
  have hpos := fpp_pos c
  have hpay : 2 ≤ nslots c * fpp c := by
    calc 2 ≤ fpp c := hpos
      _ ≤ nslots c * fpp c := Nat.le_mul_of_pos_left _ (Nat.pos_of_ne_zero hbound)
  have hnow : cfgNow s = c := by rw [cfgNow, cur, hidx, hcfg]
  rw [hnow, fLastIdx_eq hle]
  omega

/-- A packet of the context is the one that was waited for. -/
theorem Carried.sent_served (hbound : nslots c ≠ 0) (hcount : Counted k c t₀ s p)
    (h : Carried k c s p) (hsome : p.stamps ≠ []) (hserved : served s i k = true) :
    (Pace.next k s i p).sent = p.stamps := by
  have hflight := served_inFlight hserved
  obtain ⟨a, hlist, -, hmeet⟩ := h.waiting hsome (pend_of_served h.flight hserved)
  have hwire := wireStamp_served hbound hcount.cfg h.admissible h.assembled hserved
    (hmeet hflight.1 hflight.2)
  have hne : p.stamps.isEmpty = false := by simpa using hsome
  rw [hlist]
  simp [Pace.next, hserved, hne, hwire]

/-- The latched timestamps follow the counter at a due event, and stay between two of them. -/
theorem Counted.latches (hcount : Counted k c t₀ s p) (hi : Calm i) :
    ((step s i).tsSecEmit, (step s i).tsSubEmit) =
      if dueEvent s i k then (s.tsSec, s.tsSub) else (s.tsSecEmit, s.tsSubEmit) := by
  have hstrobe := dueStrobe_eq (i := i) hcount
  have hsec : (step s i).tsSecEmit = if dueStrobe s i then s.tsSec else s.tsSecEmit := rfl
  have hsub : (step s i).tsSubEmit =
      if dueStrobe s i then s.tsSub + i.csr.tsOffset else s.tsSubEmit := rfl
  rw [hsec, hsub, hstrobe, hi.2.2]
  split
  · exact congrArg (Prod.mk s.tsSec) (BitVec.add_zero _)
  · rfl

/-- A cycle on which the context's group is complete. -/
theorem carried_due (hbound : nslots c ≠ 0) (hi : Calm i) (hcount : Counted k c t₀ s p)
    (h : Carried k c s p) (hsafe : DueSafe s i) (hdue : dueEvent s i k = true) :
    Carried k c (step s i) (Pace.next k s i p) := by
  have hstamps : (Pace.next k s i p).stamps =
      p.stamps ++ [windowStart (fpp c) (s.tsSec, s.tsSub)] := by
    rw [← hcount.cfg]
    simp [Pace.next, hdue]
  have hpend' : ((step s i).ctx k).pend = true := by
    rw [step_ctx, nextCtx_pend, hdue]
    rfl
  -- the packet before has been sent, or goes out on this cycle
  have hsent : (Pace.next k s i p).sent = p.stamps := by
    by_cases hnone : p.stamps = []
    · simp [Pace.next, hnone, h.before hnone]
    · by_cases hserved : served s i k = true
      · exact h.sent_served hbound hcount hnone hserved
      · have hpend : (s.ctx k).pend = false := (hsafe.1 k hdue).resolve_right hserved
        have hkeep : (Pace.next k s i p).sent = p.sent := by simp [Pace.next, hserved]
        rw [hkeep]
        exact (h.done hnone hpend).symm
  refine ⟨admissible_step h.admissible hi.frameSafe,
    assembled_step h.assembled h.admissible hi.frameSafe, flight_step h.flight, ?_, ?_, ?_⟩
  · intro hnone
    rw [hstamps] at hnone
    exact absurd hnone (by simp)
  · intro _ _
    refine ⟨_, by rw [hstamps, hsent], ?_, ?_⟩
    · rw [hcount.latches hi, if_pos hdue]
    · -- the context of this group is not under way yet
      intro hflight hidx
      obtain ⟨hserve, hstay, hbefore⟩ := inFlight_step hflight
      have hidx' : s.streamIdx = k := by
        rw [← hstay]
        exact hidx
      have hpend : (s.ctx k).pend = true := by
        rcases hbefore with hbefore | ⟨-, hpend⟩
        · have hcur := h.flight hbefore
          rwa [cur, hidx'] at hcur
        · rwa [cur, hidx'] at hpend
      rcases hsafe.1 k hdue with hfree | hserved
      · rw [hfree] at hpend
        cases hpend
      · rw [served, hserve] at hserved
        cases hserved
  · intro _ hfree
    rw [hpend'] at hfree
    cases hfree

/-- A timestamp byte that is built between two due events is one of the latched timestamp. -/
theorem Carried.meets_quiet (hcount : Counted k c t₀ s p) (h : Carried k c s p) {a : Stamp}
    (hlatch : windowStart (fpp c) (s.tsSecEmit, s.tsSubEmit) = a)
    (hmeet : inFlight s = true → s.streamIdx = k → BytesMeet (StampByte a) p.frame)
    (hflight : inFlight (step s i) = true) (hidx : (step s i).streamIdx = k) :
    BytesMeet (StampByte a) (Frame.next s i p.frame) := by
  obtain ⟨-, hstay, hbefore⟩ := inFlight_step hflight
  have hidx' : s.streamIdx = k := by
    rw [← hstay]
    exact hidx
  have hold : BytesMeet (StampByte a) p.frame := by
    rcases hbefore with hbefore | ⟨hcheck, -⟩
    · exact hmeet hbefore hidx'
    · refine bytesMeet_nil ?_
      have hasm := h.assembled
      rw [Assembled, hcheck] at hasm
      exact hasm.2
  refine bytesMeet_next hold fun hfsm => ?_
  intro hlow hhigh
  have hlen := length_of_building h.assembled hfsm
  rw [hlen] at hlow hhigh ⊢
  have hfpp : curFpp s = fpp c := by rw [curFpp, cur, hidx', hcount.cfg]
  rw [curByte_stamp i hlow hhigh, headerStamp_eq, hfpp, hlatch]

/-- A cycle on which no group is completed. -/
theorem carried_quiet (hbound : nslots c ≠ 0) (hi : Calm i) (hcount : Counted k c t₀ s p)
    (h : Carried k c s p) (hdue : dueEvent s i k = false) :
    Carried k c (step s i) (Pace.next k s i p) := by
  have hstamps : (Pace.next k s i p).stamps = p.stamps := by simp [Pace.next, hdue]
  have hpend' : ((step s i).ctx k).pend = if served s i k then false else (s.ctx k).pend := by
    rw [step_ctx, nextCtx_pend, hdue]
    rfl
  have hkeep : served s i k = false → (Pace.next k s i p).sent = p.sent := by
    intro hserved
    simp [Pace.next, hserved]
  refine ⟨admissible_step h.admissible hi.frameSafe,
    assembled_step h.assembled h.admissible hi.frameSafe, flight_step h.flight, ?_, ?_, ?_⟩
  · intro hnone
    rw [hstamps] at hnone
    have hsent : (Pace.next k s i p).sent = p.sent := by simp [Pace.next, hnone]
    rw [hsent]
    exact h.before hnone
  · intro hsome hpend
    rw [hstamps] at hsome
    have hserved : served s i k = false := by
      by_contra hserved
      rw [hpend', if_pos (by simpa using hserved)] at hpend
      cases hpend
    rw [hpend', hserved] at hpend
    obtain ⟨a, hlist, hlatch, hmeet⟩ := h.waiting hsome hpend
    refine ⟨a, by rw [hstamps, hkeep hserved, hlist], ?_, h.meets_quiet hcount hlatch hmeet⟩
    rw [hcount.latches hi, if_neg (Bool.eq_false_iff.1 hdue)]
    exact hlatch
  · intro hsome hfree
    rw [hstamps] at hsome
    rw [hstamps]
    cases hserved : served s i k with
    | true => exact (h.sent_served hbound hcount hsome hserved).symm
    | false =>
      rw [hpend', hserved] at hfree
      rw [hkeep hserved]
      exact h.done hsome hfree

end Carrying

/-! ## Runs -/

/-- A state with the frame in progress, after a history that never rewrote the context of a frame
in flight. -/
def Reached (s : State) (f : Frame) : Prop :=
  ∃ is, Along step FrameSafe State.reset is ∧
    run (watch step Frame.next) (State.reset, Frame.empty) is = (s, f)

/-- What holds of a state that is reached. -/
theorem Reached.assembled {s : State} {f : Frame} (h : Reached s f) :
    Admissible s ∧ Assembled s f ∧ (inFlight s = true → (cur s).pend = true) := by
  obtain ⟨is, hsafe, hrun⟩ := h
  have hsafe' : Along (watch step Frame.next) (fun p i => FrameSafe p.1 i)
      (State.reset, Frame.empty) is := along_watch hsafe
  have hinv := hsafe'.invariant
    (P := fun p : State × Frame => Admissible p.1 ∧ Assembled p.1 p.2 ∧
      (inFlight p.1 = true → (cur p.1).pend = true))
    (fun p i hi hp => ⟨admissible_step hp.1 hi, assembled_step hp.2.1 hp.1 hi,
      flight_step hp.2.2⟩)
    ⟨by decide, trivial, by decide⟩
  rw [hrun] at hinv
  exact hinv

theorem carried_start {s : State} {f : Frame} (h : Reached s f) (k : CtxId) (c : Byte) :
    Carried k c s (Pace.start f) :=
  ⟨h.assembled.1, h.assembled.2.1, h.assembled.2.2, fun _ => rfl, fun hne => absurd rfl hne,
    fun hne => absurd rfl hne⟩

/-- A walk with one context to serve skips the others. -/
theorem before_alone {cfg : CtxId → Byte} {k : CtxId} (hother : ∀ j, j ≠ k → cost (cfg j) = 2) :
    ∀ n, before cfg n ≤ 2 * n + if k.val < n then cost (cfg k) else 0
  | 0 => Nat.zero_le _
  | n + 1 => by
      have hbefore := before_alone hother n
      rw [before]
      by_cases hn : n < 6
      · rw [dif_pos hn]
        by_cases hk : (⟨n, hn⟩ : CtxId) = k
        · have hval : k.val = n := by rw [← hk]
          rw [hk, if_pos (by omega)]
          rw [if_neg (by omega)] at hbefore
          omega
        · rw [hother _ hk]
          have hval : k.val ≠ n := fun heq => hk (Fin.ext heq.symm)
          split at hbefore
          · rw [if_pos (by omega)]
            omega
          · omega
      · have hlt := k.isLt
        rw [dif_neg hn, if_pos (by omega)]
        rw [if_pos (by omega)] at hbefore
        omega

/-- With one context bound a walk always has the time it needs. -/
theorem schedulable_alone {s : State} {k : CtxId} (hadm : Admissible s) (hs : Paced s k) :
    Schedulable (cfgs s) := by
  have hwalk : before (cfgs s) 6 ≤ 2 * 6 + if k.val < 6 then cost (cfgs s k) else 0 :=
    before_alone (fun j hj => if_pos (hs.alone j hj)) 6
  have hself : cost (cfgs s k) ≤ 78 + 30 * fpp (s.ctx k).cfg := by
    have hle := hadm k
    have hpay : nslots (s.ctx k).cfg * fpp (s.ctx k).cfg ≤ 8 * fpp (s.ctx k).cfg :=
      Nat.mul_le_mul_right _ hle
    have hcost : cost (cfgs s k) = 3 + fTotal (s.ctx k).cfg + fLastIdx (s.ctx k).cfg :=
      if_neg hs.bound
    rw [hcost, fTotal_eq hle, fLastIdx_eq hle, hdrLen]
    omega
  intro j hbound
  have hj : j = k := by
    by_contra hne
    exact hbound (hs.alone j hne)
  have hpos := fpp_pos (s.ctx k).cfg
  rw [if_pos k.isLt] at hwalk
  rw [hj]
  show 2 + before (cfgs s) 6 ≤ 1042 * fpp (s.ctx k).cfg
  omega

/-- The phase is in step with the counter whenever both count the same samples. -/
theorem phase_of_counted {k : CtxId} {c : Byte} {t₀ : Int} {s : State} {p : Pace}
    (h : Counted k c t₀ s p) : (s.ctx k).phase = s.tsSub.toNat % fpp c := by
  have hsub : (s.tsSub.toNat : Int) = (t₀ + p.dues.length) % 48000 := by
    rw [← stamp_snd, ← h.time]
  have hdvd : (fpp c : Int) ∣ 48000 := by exact_mod_cast fpp_dvd_subsecMax c
  apply Int.ofNat_inj.1
  rw [Int.natCast_emod, hsub, rest_emod hdvd, h.count, Int.mul_add_emod_self_left]
  exact (Int.emod_eq_of_lt (Int.natCast_nonneg _) (by exact_mod_cast h.phase)).symm

/-- Where groups end, counted from the sample of the second at the start. -/
theorem dvd_count_iff {n : Nat} (hn : n ∣ 48000) (a : Stamp) (m : Nat) :
    (n : Int) ∣ (a.count : Int) + m + 1 ↔ n ∣ a.2.toNat + m + 1 := by
  have hsplit : a.count + m + 1 = a.1.toNat * 48000 + (a.2.toNat + m + 1) := by
    rw [Stamp.count]
    omega
  have hcast : ((a.count : Int) + m + 1) = ((a.count + m + 1 : Nat) : Int) := by push_cast; rfl
  rw [hcast, Int.natCast_dvd_natCast, hsplit]
  exact Nat.dvd_add_right (hn.mul_left _)

/-- For one bound context whose phase is in step, and any strobes without a load or a rebind: the
phase stays in step, the context is due at every `fpp`-th strobe, and the timestamps of its groups
are proper, multiples of `fpp` and `fpp` apart, modulo the 32-bit seconds.  Each packet carries
the timestamp of its group as long as it is out before the next group is complete, as it is from
rest, with strobes a sample period apart and a MAC that is always ready. -/
theorem pacing_law (s : State) (f : Frame) (k : CtxId) (is : List Input) (hs : Paced s k)
    (hcalm : ∀ i ∈ is, Calm i) :
    let x := run (pacedStep k) (s, Pace.start f) is
    let n := fpp (s.ctx k).cfg
    (x.1.tsSub.toNat < 48000 ∧ (x.1.ctx k).phase = x.1.tsSub.toNat % n) ∧
    x.2.dues = ((List.range x.2.dues.length).map fun m : Nat =>
      decide (n ∣ s.tsSub.toNat + m + 1)) ∧
    PacingLaw n x.2.stamps ∧
    (Reached s f → Along step DueSafe s is →
      PacingLaw n x.2.sent ∧ x.2.sent <+: x.2.stamps ∧
        x.2.stamps.length ≤ x.2.sent.length + 1) ∧
    (Settled s → Spaced strobeGap is → (∀ i ∈ is, i.sourceReady = true) →
      Along step DueSafe s is) := by
  intro x n
  have halong : Along (pacedStep k) (fun _ i => Calm i) (s, Pace.start f) is := Along.of_inputs hcalm
  have hcounted := halong.invariant
    (P := fun p => Counted k (s.ctx k).cfg (Stamp.count (s.tsSec, s.tsSub)) p.1 p.2)
    (fun p i hi hp => counted_step hs.bound hi hp) (counted_start hs f)
  have hlaw : PacingLaw n x.2.stamps := by
    rw [hcounted.stamps]
    exact pacingLaw_windows (fpp_dvd_subsecMax _) _ _
  refine ⟨⟨?_, phase_of_counted hcounted⟩, ?_, hlaw, ?_, ?_⟩
  · have hlt := stamp_snd_lt ((Stamp.count (s.tsSec, s.tsSub) : Int) + x.2.dues.length)
    rw [← hcounted.time] at hlt
    exact hlt
  · refine hcounted.dues.trans (List.map_congr_left fun m _ => ?_)
    exact decide_eq_decide.2 (dvd_count_iff (fpp_dvd_subsecMax _) _ m)
  · intro hreach hsafe
    have hguard := halong.and (along_watch hsafe)
    have hboth := hguard.invariant
      (P := fun p => Counted k (s.ctx k).cfg (Stamp.count (s.tsSec, s.tsSub)) p.1 p.2 ∧
        Carried k (s.ctx k).cfg p.1 p.2)
      (fun p i hi hp => by
        refine ⟨counted_step hs.bound hi.1 hp.1, ?_⟩
        cases hdue : dueEvent p.1 i k with
        | true => exact carried_due hs.bound hi.1 hp.1 hp.2 hi.2 hdue
        | false => exact carried_quiet hs.bound hi.1 hp.1 hp.2 hdue)
      ⟨counted_start hs f, carried_start hreach k _⟩
    have hcarried := hboth.2
    have hsent : x.2.sent <+: x.2.stamps ∧ x.2.stamps.length ≤ x.2.sent.length + 1 := by
      by_cases hnone : x.2.stamps = []
      · rw [hnone, hcarried.before hnone]
        exact ⟨List.prefix_refl _, Nat.zero_le _⟩
      · cases hpend : (x.1.ctx k).pend with
        | true =>
          obtain ⟨a, hlist, -, -⟩ := hcarried.waiting hnone hpend
          rw [hlist]
          exact ⟨List.prefix_append _ _, Nat.le_of_eq List.length_append⟩
        | false =>
          rw [hcarried.done hnone hpend]
          exact ⟨List.prefix_refl _, Nat.le_succ _⟩
    exact ⟨hlaw.of_prefix hsent.1, hsent⟩
  · intro hsettled hspaced hready
    exact dueSafe_run is hsettled.placed hsettled.balanced (hsettled.timed strobeGap)
      (schedulable_alone hsettled.admissible hs) (fun i hi => ⟨hready i hi, (hcalm i hi).2.1⟩)
      hspaced

/-! ## Two groups of four samples -/

/-- Context 0 bound with one slot and four samples a packet, at sample 0. -/
def fourBound : State := step State.reset (Input.bind 0 0x51 0 0x80 0)

/-- Two groups, each with time for its packet. -/
def twoGroups : List Input :=
  List.replicate 4 Input.tick ++ List.replicate 90 Input.quiet ++
    List.replicate 4 Input.tick ++ List.replicate 90 Input.quiet

theorem fourBound_reached : Reached fourBound Frame.empty :=
  ⟨[Input.bind 0 0x51 0 0x80 0], by decide +kernel, rfl⟩

theorem pacing_law_two_groups :
    (run (pacedStep 0) (fourBound, Pace.start Frame.empty) twoGroups).2.sent =
        [(0, 0), (0, 4)] ∧
      PacingLaw 4 (run (pacedStep 0) (fourBound, Pace.start Frame.empty) twoGroups).2.sent := by
  have hlaw := pacing_law fourBound Frame.empty 0 twoGroups
    ⟨by decide, by decide, by decide, by decide, by decide⟩ (by decide +kernel)
  exact ⟨by decide +kernel, (hlaw.2.2.2.1 fourBound_reached (by decide +kernel)).1⟩

/-- The same context four samples before the 32-bit seconds wrap. -/
def lastSecond : State := { fourBound with tsSec := 0xFFFFFFFF, tsSub := 47996 }

/-- After the last second the count starts again at zero; and with a strobe every cycle the
latches move on while a packet is built. -/
theorem pacing_wraps :
    (Paced lastSecond 0 ∧ (∀ i ∈ twoGroups, Calm i) ∧
      (run (pacedStep 0) (lastSecond, Pace.start Frame.empty) twoGroups).2.sent =
        [(0xFFFFFFFF, 47996), (0, 0)] ∧
      ¬ (run (pacedStep 0) (lastSecond, Pace.start Frame.empty) twoGroups).2.sent.IsChain
        fun a b => b.count = a.count + 4) ∧
    (Paced fourBound 0 ∧ (∀ i ∈ List.replicate 200 Input.tick, Calm i) ∧
      ¬ (run (pacedStep 0) (fourBound, Pace.start Frame.empty)
        (List.replicate 200 Input.tick)).2.sent.IsChain fun a b => b.count = a.count + 4) := by
  refine ⟨⟨⟨by decide, by decide, by decide, by decide, by decide⟩, by decide +kernel, ?_, ?_⟩,
    ⟨by decide, by decide, by decide, by decide, by decide⟩, ?_, ?_⟩
  · decide +kernel
  · decide +kernel
  · exact fun i hi => List.eq_of_mem_replicate hi ▸ by decide
  · decide +kernel

end Packetizer
end InfernoFpga
