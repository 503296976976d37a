import InfernoFpga.Firmware.Bus
import InfernoFpga.Packetizer.Pacing
import Mathlib.Data.Int.ModEq
import Mathlib.Tactic.Ring

/-!
# Seeding — what phase a context is left with

Binding seeds a context's phase from the live sample counter, anchoring seeds every phase from the
sample about to be loaded.  Both add the same two samples.  An observer counts how far the counter
has moved on between the sample a seed is computed from and the latch; the phase is in step with
the counter exactly when that is two.
-/

namespace InfernoFpga
namespace Firmware

open Lib
open Packetizer (CtxId Word Byte ctxIndex fpp nslots fpp_pos fpp_le fpp_dvd_subsecMax)
open Ptpv1 (Timestamp)

/-! ## The counter, with a pending load -/

/-- The sample counter, where a pending load counts as adopted: the load is the sample that comes
next. -/
def virtualSub (b : Bus) : Int :=
  if b.gw.tsLoadPending then (b.csr.tsLoadSub.toNat : Int) - 1 else b.gw.tsSub.toNat

/-- Counter and pending load are samples of a second. -/
structure InRange (b : Bus) : Prop where
  sub : b.gw.tsSub.toNat < 48000
  load : b.gw.tsLoadPending = true → b.csr.tsLoadSub.toNat < 48000

/-- The media strobes of a cycle. -/
def strobed (b : Bus) (e : Ambient) : Int := if e.sampleStrobe && b.csr.enable then 1 else 0

/-- An access that does not touch the load. -/
def keepsLoad : BusAccess → Bool
  | .write (.tsLoadSub _) => false
  | .write .tsLoad => false
  | _ => true

section Ticks

variable {b : Bus} (e : Ambient) {a : BusAccess}

theorem accessed_enable (csr : Packetizer.Csr) (a : BusAccess) :
    (accessed csr a).enable = csr.enable := by
  cases a with
  | idle => rfl
  | read => rfl
  | write w => cases w <;> rfl

theorem strobe_busInput (b : Bus) (a : BusAccess) :
    Packetizer.strobe (busInput b e a) = (e.sampleStrobe && b.csr.enable) := by
  rw [Packetizer.strobe, Packetizer.en]
  exact congrArg (e.sampleStrobe && ·) (accessed_enable b.csr a)

theorem keepsLoad_spec (csr : Packetizer.Csr) (h : keepsLoad a = true) :
    (accessed csr a).tsLoadSub = csr.tsLoadSub ∧ tsLoadRe a = false := by
  cases a with
  | idle => exact ⟨rfl, rfl⟩
  | read => exact ⟨rfl, rfl⟩
  | write w => cases w <;> first | exact ⟨rfl, rfl⟩ | cases h

/-- The counter ticks modulo a second. -/
theorem tick_modEq {x : Word} (hx : x.toNat < 48000) :
    (if x = BitVec.ofNat 32 47999 then (0 : Word) else x + 1).toNat < 48000 ∧
      (((if x = BitVec.ofNat 32 47999 then (0 : Word) else x + 1).toNat : Int) ≡
        x.toNat + 1 [ZMOD 48000]) := by
  have hlast : x = BitVec.ofNat 32 47999 ↔ x.toNat = 47999 := by
    have hval : (BitVec.ofNat 32 47999).toNat = 47999 := by decide
    rw [← BitVec.toNat_inj, hval]
  by_cases h : x = BitVec.ofNat 32 47999
  · rw [if_pos h, hlast.1 h]
    exact ⟨by decide, by decide⟩
  · have hne : x.toNat ≠ 47999 := fun heq => h (hlast.2 heq)
    have hsucc : (x + 1).toNat = x.toNat + 1 := by
      rw [BitVec.toNat_add]
      exact Nat.mod_eq_of_lt (by simp; omega)
    rw [if_neg h, hsucc]
    refine ⟨by omega, ?_⟩
    push_cast
    rfl

theorem tsLoadPending_tick (b : Bus) (a : BusAccess) :
    (busTick b e a).gw.tsLoadPending =
      if e.sampleStrobe && b.csr.enable && b.gw.tsLoadPending then false
      else if tsLoadRe a then true else b.gw.tsLoadPending := by
  show Packetizer.nextTsLoadPending b.gw (busInput b e a) = _
  rw [Packetizer.nextTsLoadPending, strobe_busInput]
  rfl

theorem tsSub_tick (b : Bus) (a : BusAccess) :
    (busTick b e a).gw.tsSub =
      if e.sampleStrobe && b.csr.enable then
        if b.gw.tsLoadPending then (accessed b.csr a).tsLoadSub
        else if b.gw.tsSub = BitVec.ofNat 32 47999 then 0 else b.gw.tsSub + 1
      else b.gw.tsSub := by
  show Packetizer.nextTsSub b.gw (busInput b e a) = _
  rw [Packetizer.nextTsSub, strobe_busInput]
  simp only [beq_iff_eq]
  rfl

/-- Every strobe moves the counter on by one, whether it ticks or adopts a load. -/
theorem virtualSub_tick (hb : InRange b) (ha : keepsLoad a = true) :
    InRange (busTick b e a) ∧
      virtualSub (busTick b e a) ≡ virtualSub b + strobed b e [ZMOD 48000] := by
  obtain ⟨hsub, hre⟩ := keepsLoad_spec b.csr ha
  have hpend := tsLoadPending_tick e b a
  have hcount := tsSub_tick e b a
  have hcsr : (busTick b e a).csr.tsLoadSub = b.csr.tsLoadSub := hsub
  rw [hre] at hpend
  rw [hsub] at hcount
  rw [virtualSub, virtualSub, strobed, hcsr]
  cases hs : (e.sampleStrobe && b.csr.enable) with
  | false =>
    simp only [hs, Bool.false_and, Bool.false_eq_true, if_false] at hcount hpend
    rw [hcount, hpend]
    refine ⟨⟨?_, ?_⟩, by simp⟩
    · rw [hcount]
      exact hb.sub
    · rw [hpend, hcsr]
      exact hb.load
  | true =>
    cases hp : b.gw.tsLoadPending with
    | true =>
      simp only [hs, hp, Bool.and_self, if_true] at hcount hpend
      rw [hcount, hpend]
      refine ⟨⟨?_, fun h => ?_⟩, by simp⟩
      · rw [hcount]
        exact hb.load hp
      · rw [hpend] at h
        cases h
    | false =>
      simp only [hs, hp, Bool.and_false, Bool.false_eq_true, if_false, if_true] at hcount hpend
      have htick := tick_modEq hb.sub
      rw [hcount, hpend]
      refine ⟨⟨?_, fun h => ?_⟩, htick.2⟩
      · rw [hcount]
        exact htick.1
      · rw [hpend] at h
        cases h

/-- Arming a load: its sample is the one that comes next.  With a load pending already, a strobe
of this very cycle adopts the new one. -/
theorem virtualSub_arm (hb : InRange b) (hload : b.csr.tsLoadSub.toNat < 48000) :
    InRange (busTick b e (.write .tsLoad)) ∧
      virtualSub (busTick b e (.write .tsLoad)) = b.csr.tsLoadSub.toNat - 1 +
        if b.gw.tsLoadPending then strobed b e else 0 := by
  have hpend := tsLoadPending_tick e b (.write .tsLoad)
  have hcount := tsSub_tick e b (.write .tsLoad)
  have hre : tsLoadRe (.write .tsLoad) = true := rfl
  have hcsr : (busTick b e (.write .tsLoad)).csr.tsLoadSub = b.csr.tsLoadSub := rfl
  have hacc : (accessed b.csr (.write .tsLoad)).tsLoadSub = b.csr.tsLoadSub := rfl
  rw [hre] at hpend
  rw [hacc] at hcount
  rw [virtualSub, strobed, hcsr]
  cases hs : (e.sampleStrobe && b.csr.enable) with
  | false =>
    simp only [hs, Bool.false_and, Bool.false_eq_true, if_false, if_true] at hcount hpend
    rw [hpend]
    refine ⟨⟨?_, fun _ => hload⟩, by simp⟩
    rw [hcount]
    exact hb.sub
  | true =>
    cases hp : b.gw.tsLoadPending with
    | true =>
      simp only [hs, hp, Bool.and_self, if_true] at hcount hpend
      rw [hcount, hpend]
      refine ⟨⟨?_, fun _ => hload⟩, by simp⟩
      rw [hcount]
      exact hload
    | false =>
      simp only [hs, hp, Bool.and_false, Bool.false_eq_true, if_false, if_true] at hcount hpend
      rw [hpend]
      refine ⟨⟨?_, fun _ => hload⟩, by simp⟩
      rw [hcount]
      exact (tick_modEq hb.sub).1

/-- A context that is not latched counts the strobes, modulo its packet size. -/
theorem phase_tick (b : Bus) {a : BusAccess} {k : CtxId}
    (ha : flowCfgRe a = true → ∃ f, f ≠ k ∧ b.csr.ctxSelect = BitVec.ofNat 3 f.val) :
    ((busTick b e a).gw.ctx k).cfg = (b.gw.ctx k).cfg ∧
      ((b.gw.ctx k).phase < fpp (b.gw.ctx k).cfg →
        ((busTick b e a).gw.ctx k).phase < fpp (b.gw.ctx k).cfg ∧
        (((busTick b e a).gw.ctx k).phase : Int) ≡
          (b.gw.ctx k).phase + strobed b e [ZMOD fpp (b.gw.ctx k).cfg]) := by
  have hnot : ((busInput b e a).flowCfgRe && ctxIndex (busInput b e a).csr.ctxSelect == k) = false ∧
      ((busInput b e a).flowCfgRe && (busInput b e a).csr.ctxSelect.toNat == k.val) = false := by
    cases hre : flowCfgRe a with
    | false =>
      have hre' : (busInput b e a).flowCfgRe = false := hre
      rw [hre']
      exact ⟨rfl, rfl⟩
    | true =>
      obtain ⟨f, hne, hsel⟩ := ha hre
      have hacc : (busInput b e a).csr.ctxSelect = BitVec.ofNat 3 f.val := by
        rw [← hsel]
        cases a with
        | idle => rfl
        | read => rfl
        | write w => cases w <;> first | rfl | cases hre
      have hval : (BitVec.ofNat 3 f.val).toNat = f.val := by
        rw [BitVec.toNat_ofNat]
        exact Nat.mod_eq_of_lt (by omega)
      rw [hacc, Gateware.ctxIndex_ofNat, hval]
      simp [hne, Fin.val_inj]
  have hphase : ((busTick b e a).gw.ctx k).phase =
      if e.sampleStrobe && b.csr.enable then
        if (b.gw.ctx k).phase = fpp (b.gw.ctx k).cfg - 1 then 0
        else ((b.gw.ctx k).phase + 1) % 64
      else (b.gw.ctx k).phase := by
    show Packetizer.nextPhase b.gw (busInput b e a) k = _
    rw [Packetizer.nextPhase, strobe_busInput, hnot.2]
    simp only [Bool.false_eq_true, if_false, beq_iff_eq]
  refine ⟨?_, fun hlt => ?_⟩
  · show (Packetizer.nextCtx b.gw (busInput b e a) k).cfg = _
    rw [Packetizer.nextCtx_cfg, hnot.1]
    rfl
  · have hle := fpp_le (b.gw.ctx k).cfg
    rw [hphase, strobed]
    cases e.sampleStrobe && b.csr.enable with
    | false => exact ⟨hlt, by simp⟩
    | true =>
      by_cases hlast : (b.gw.ctx k).phase = fpp (b.gw.ctx k).cfg - 1
      · simp only [if_true, if_pos hlast]
        refine ⟨by omega, ?_⟩
        have hend : ((b.gw.ctx k).phase : Int) + 1 = fpp (b.gw.ctx k).cfg := by omega
        rw [hend, Int.modEq_iff_dvd]
        exact ⟨1, by simp⟩
      · simp only [if_true, if_neg hlast]
        rw [Nat.mod_eq_of_lt (by omega)]
        exact ⟨by omega, by push_cast; rfl⟩

/-- A latched context takes the configuration and the phase. -/
theorem phase_latch (b : Bus) {k : CtxId} (cfg : Byte)
    (hsel : b.csr.ctxSelect = BitVec.ofNat 3 k.val) :
    ((busTick b e (.write (.flowCfg cfg))).gw.ctx k).cfg = cfg ∧
      ((busTick b e (.write (.flowCfg cfg))).gw.ctx k).phase = b.csr.flowPhase.toNat % 64 := by
  have hre : (busInput b e (.write (.flowCfg cfg))).flowCfgRe = true := rfl
  have hacc : (busInput b e (.write (.flowCfg cfg))).csr.ctxSelect = BitVec.ofNat 3 k.val := hsel
  have hval : (BitVec.ofNat 3 k.val).toNat = k.val := by
    rw [BitVec.toNat_ofNat]
    exact Nat.mod_eq_of_lt (by omega)
  constructor
  · show (Packetizer.nextCtx b.gw (busInput b e (.write (.flowCfg cfg))) k).cfg = cfg
    rw [Packetizer.nextCtx_cfg, hre, hacc, Gateware.ctxIndex_ofNat]
    simp [busInput, accessed, CsrWrite.store]
  · show Packetizer.nextPhase b.gw (busInput b e (.write (.flowCfg cfg))) k = _
    rw [Packetizer.nextPhase, hre, hacc, hval]
    simp [busInput, accessed, CsrWrite.store]

end Ticks

/-! ## The observer -/

/-- How far the counter is ahead of the sample that seeds are computed from, and for each context
how far it was when the context was last latched. -/
structure Seed where
  ahead : Int
  lead : CtxId → Int

namespace Seed

/-- A read takes the live counter, arming a load the sample before the load's. -/
def nextAhead (b : Bus) (e : Ambient) (g : Seed) : BusAccess → Int
  | .read => virtualSub b - tsNowSub b + strobed b e
  | .write .tsLoad => if b.gw.tsLoadPending then strobed b e else 0
  | _ => g.ahead + strobed b e

def next (b : Bus) (e : Ambient) (a : BusAccess) (g : Seed) : Seed :=
  { ahead := nextAhead b e g a
    lead := fun k =>
      if flowCfgRe a && ctxIndex b.csr.ctxSelect == k then nextAhead b e g a else g.lead k }

end Seed

/-- The bus with the observer. -/
def seedTick (d : Bus × Seed) (e : Ambient) (a : BusAccess) : Bus × Seed :=
  (busTick d.1 e a, Seed.next d.1 e a d.2)

def seedSense (d : Bus × Seed) : Nat := tsNowSub d.1

/-- Any cycle may happen. -/
def anyCycle (_ : Bus × Seed) (_ : Ambient) (_ : BusAccess) : Prop := True

/-- Assertions about phases need no invariant beside them. -/
abbrev SeedStable := Stable seedTick anyCycle (fun _ => True)

abbrev SeedOutline (Q : Bus × Seed → Prop) (t : CsrThread) (P : Bus × Seed → Prop) : Prop :=
  Outline seedTick seedSense anyCycle (fun _ => True) Q t P

theorem seedStable {P : Bus × Seed → Prop} (h : ∀ d e, P d → P (seedTick d e .idle)) :
    SeedStable P :=
  ⟨fun _ _ => trivial, fun d e _ => h d e⟩

/-! ## What a context is seeded with -/

/-- A context's phase against the counter, where a pending load counts as adopted. -/
def drift (b : Bus) (k : CtxId) : Int := ((b.gw.ctx k).phase : Int) - virtualSub b

/-- The counter has moved on from sample `v` by as much as was observed. -/
def Follows (v : Int) (d : Bus × Seed) : Prop := virtualSub d.1 ≡ v + d.2.ahead [ZMOD 48000]

/-- A context latched with its drift as observed. -/
structure SeededAt (k : CtxId) (c : Byte) (d : Bus × Seed) : Prop where
  cfg : (d.1.gw.ctx k).cfg = c
  phase : (d.1.gw.ctx k).phase < fpp c
  drift : drift d.1 k ≡ 2 - d.2.lead k [ZMOD fpp c]

/-- An access that leaves the selected context and the load alone. -/
def plain : BusAccess → Bool
  | .write (.ctxSelect _) => false
  | .write (.tsLoadSub _) => false
  | .write .tsLoad => false
  | _ => true

section Seeds

variable {d : Bus × Seed} (e : Ambient) {a : BusAccess} {k f : CtxId} {cfg : Byte} {v : Int}

theorem plain_spec (csr : Packetizer.Csr) (h : plain a = true) :
    keepsLoad a = true ∧ (accessed csr a).ctxSelect = csr.ctxSelect := by
  cases a with
  | idle => exact ⟨rfl, rfl⟩
  | read => exact ⟨rfl, rfl⟩
  | write w => cases w <;> first | exact ⟨rfl, rfl⟩ | cases h

theorem modEq_fpp {x y : Int} (h : x ≡ y [ZMOD 48000]) (cfg : Byte) : x ≡ y [ZMOD fpp cfg] :=
  h.of_dvd (by exact_mod_cast fpp_dvd_subsecMax cfg)

/-- Waiting keeps a drift. -/
theorem drift_tick (hb : InRange d.1) (ha : keepsLoad a = true)
    (hre : flowCfgRe a = true → ∃ f, f ≠ k ∧ d.1.csr.ctxSelect = BitVec.ofNat 3 f.val)
    (hcfg : (d.1.gw.ctx k).cfg = cfg) (hphase : (d.1.gw.ctx k).phase < fpp cfg) :
    drift (busTick d.1 e a) k ≡ drift d.1 k [ZMOD fpp cfg] := by
  have htick := (phase_tick e d.1 hre).2 (by rwa [hcfg])
  rw [hcfg] at htick
  have hsub := modEq_fpp (virtualSub_tick e hb ha).2 cfg
  have hdiff := htick.2.sub hsub
  rw [add_sub_add_right_eq_sub] at hdiff
  exact hdiff

theorem seededAt_tick (hb : InRange d.1) (ha : keepsLoad a = true)
    (hre : flowCfgRe a = true → ∃ f, f ≠ k ∧ d.1.csr.ctxSelect = BitVec.ofNat 3 f.val)
    (h : SeededAt k cfg d) : SeededAt k cfg (seedTick d e a) := by
  have htick := phase_tick e d.1 hre
  have hphase := htick.2 (by rw [h.cfg]; exact h.phase)
  have hlead : (seedTick d e a).2.lead k = d.2.lead k := by
    show (if flowCfgRe a && ctxIndex d.1.csr.ctxSelect == k then _ else d.2.lead k) = _
    rw [if_neg]
    intro hsel
    rw [Bool.and_eq_true, beq_iff_eq] at hsel
    obtain ⟨f, hne, hf⟩ := hre hsel.1
    rw [hf, Gateware.ctxIndex_ofNat] at hsel
    exact hne hsel.2
  refine ⟨htick.1.trans h.cfg, ?_, ?_⟩
  · rw [← h.cfg]
    exact hphase.1
  · rw [hlead]
    exact (drift_tick e hb ha hre h.cfg h.phase).trans h.drift

/-- Latching a context with the phase of sample `v + 2`. -/
theorem seededAt_latch (hb : InRange d.1) (hsel : d.1.csr.ctxSelect = BitVec.ofNat 3 k.val)
    (hv : Follows v d) (hlt : d.1.csr.flowPhase.toNat < fpp cfg)
    (hp : (d.1.csr.flowPhase.toNat : Int) ≡ v + 2 [ZMOD fpp cfg]) :
    SeededAt k cfg (seedTick d e (.write (.flowCfg cfg))) := by
  have hle := fpp_le cfg
  have hlatch := phase_latch e d.1 cfg hsel
  rw [Nat.mod_eq_of_lt (by omega)] at hlatch
  have hsub := modEq_fpp ((virtualSub_tick (a := .write (.flowCfg cfg)) e hb rfl).2.trans
    (hv.add_right (strobed d.1 e))) cfg
  have hlead : (seedTick d e (.write (.flowCfg cfg))).2.lead k = d.2.ahead + strobed d.1 e := by
    show (if true && ctxIndex d.1.csr.ctxSelect == k then d.2.ahead + strobed d.1 e
      else d.2.lead k) = _
    rw [hsel, Gateware.ctxIndex_ofNat]
    simp
  refine ⟨hlatch.1, ?_, ?_⟩
  · show ((busTick d.1 e (.write (.flowCfg cfg))).gw.ctx k).phase < fpp cfg
    rw [hlatch.2]
    exact hlt
  · have hdiff := hp.sub hsub
    have hcollect : v + 2 - (v + d.2.ahead + strobed d.1 e) = 2 - (d.2.ahead + strobed d.1 e) := by
      ring
    rw [hcollect] at hdiff
    rw [hlead]
    show (((busTick d.1 e (.write (.flowCfg cfg))).gw.ctx k).phase : Int) -
      virtualSub (busTick d.1 e (.write (.flowCfg cfg))) ≡ _ [ZMOD _]
    rw [hlatch.2]
    exact hdiff

/-- Until the next read or load the observer keeps up with the counter. -/
theorem follows_tick (hb : InRange d.1) (ha : keepsLoad a = true)
    (hahead : Seed.nextAhead d.1 e d.2 a = d.2.ahead + strobed d.1 e) (h : Follows v d) :
    Follows v (seedTick d e a) := by
  have hsub := (virtualSub_tick e hb ha).2.trans (h.add_right (strobed d.1 e))
  rw [add_assoc] at hsub
  show virtualSub (busTick d.1 e a) ≡ v + Seed.nextAhead d.1 e d.2 a [ZMOD 48000]
  rw [hahead]
  exact hsub

/-- A read starts from the value it returns. -/
theorem follows_read (hb : InRange d.1) : Follows (seedSense d) (seedTick d e .read) := by
  have hsub := (virtualSub_tick (a := .read) e hb rfl).2
  show virtualSub (busTick d.1 e .read) ≡
    (tsNowSub d.1 : Int) + (virtualSub d.1 - tsNowSub d.1 + strobed d.1 e) [ZMOD 48000]
  have hcollect : (tsNowSub d.1 : Int) + (virtualSub d.1 - tsNowSub d.1 + strobed d.1 e) =
      virtualSub d.1 + strobed d.1 e := by
    ring
  rw [hcollect]
  exact hsub

end Seeds

/-! ## The table -/

/-- The `flow_cfg` byte of a slot: a free slot's context is off. -/
def slotCfg (s : FlowSlot) : Byte := if s.inUse then flowCfg s.nslots s.fpp else 0

/-- The contexts are configured as the table says, with every phase within its group, and counter
and load are in range. -/
structure Tabled (flows : CtxId → FlowSlot) (b : Bus) : Prop where
  range : InRange b
  cfg : ∀ k, (b.gw.ctx k).cfg = slotCfg (flows k)
  phase : ∀ k, (flows k).inUse = true → (b.gw.ctx k).phase < fpp (slotCfg (flows k))

theorem fpp_flowCfg (n : Nat) (size : Fpp) : fpp (flowCfg n size) = size := by
  have htable : ∀ m ∈ kFppTable, Packetizer.fppTable (fppIndex m % 8) = m := by decide
  have hidx : Packetizer.fppIdx (flowCfg n size) = fppIndex size % 8 := by
    rw [Packetizer.fppIdx, flowCfg, BitVec.toNat_ofNat]
    omega
  rw [fpp, hidx]
  exact htable size size.2

theorem slotCfg_bound {s : FlowSlot} (h : s.inUse = true) : slotCfg s = flowCfg s.nslots s.fpp :=
  if_pos h

theorem fpp_slotCfg {s : FlowSlot} (h : s.inUse = true) : fpp (slotCfg s) = s.fpp := by
  rw [slotCfg_bound h, fpp_flowCfg]

/-! ## Binding and unbinding -/

section Binding

variable {flows : CtxId → FlowSlot} {b₀ : Bus} {f : CtxId} {d : Bus × Seed} {a : BusAccess}
  {cfg : Byte}

/-- While context `f` is rewritten, the other bound contexts keep their drifts. -/
structure Elsewhere (flows : CtxId → FlowSlot) (b₀ : Bus) (f : CtxId) (b : Bus) : Prop where
  range : InRange b
  cfg : ∀ k, k ≠ f → (b.gw.ctx k).cfg = slotCfg (flows k)
  phase : ∀ k, k ≠ f → (flows k).inUse = true → (b.gw.ctx k).phase < fpp (slotCfg (flows k))
  drift : ∀ k, k ≠ f → (flows k).inUse = true →
    drift b k ≡ drift b₀ k [ZMOD fpp (slotCfg (flows k))]

/-- The same, with context `f` selected. -/
def Selected (flows : CtxId → FlowSlot) (b₀ : Bus) (f : CtxId) (d : Bus × Seed) : Prop :=
  Elsewhere flows b₀ f d.1 ∧ d.1.csr.ctxSelect = BitVec.ofNat 3 f.val

theorem Tabled.elsewhere {b : Bus} (h : Tabled flows b) (f : CtxId) : Elsewhere flows b f b :=
  ⟨h.range, fun k _ => h.cfg k, fun k _ => h.phase k, fun _ _ _ => Int.ModEq.refl _⟩

theorem elsewhere_tick (e : Ambient) (ha : keepsLoad a = true)
    (hre : flowCfgRe a = true → d.1.csr.ctxSelect = BitVec.ofNat 3 f.val)
    (h : Elsewhere flows b₀ f d.1) : Elsewhere flows b₀ f (seedTick d e a).1 := by
  have hre' : ∀ k, k ≠ f → flowCfgRe a = true →
      ∃ j, j ≠ k ∧ d.1.csr.ctxSelect = BitVec.ofNat 3 j.val :=
    fun k hk hw => ⟨f, hk.symm, hre hw⟩
  refine ⟨(virtualSub_tick e h.range ha).1, fun k hk => ?_, fun k hk hbound => ?_,
    fun k hk hbound => ?_⟩
  · exact (phase_tick e d.1 (hre' k hk)).1.trans (h.cfg k hk)
  · have hphase := ((phase_tick e d.1 (hre' k hk)).2
      (by rw [h.cfg k hk]; exact h.phase k hk hbound)).1
    rw [h.cfg k hk] at hphase
    exact hphase
  · exact (drift_tick e h.range ha (hre' k hk) (h.cfg k hk) (h.phase k hk hbound)).trans
      (h.drift k hk hbound)

theorem selected_tick (e : Ambient) (ha : plain a = true) (h : Selected flows b₀ f d) :
    Selected flows b₀ f (seedTick d e a) := by
  obtain ⟨hload, hsel⟩ := plain_spec d.1.csr ha
  exact ⟨elsewhere_tick e hload (fun _ => h.2) h.1, hsel.trans h.2⟩

theorem phaseSeed_toNat {v adj n : Nat} (hn : 0 < n) (hn' : n ≤ 60) (hv : v + adj < 2 ^ 32) :
    (phaseSeed v adj n).toNat = (v + adj) % n := by
  have hlt := Nat.mod_lt (v + adj) hn
  rw [phaseSeed, Nat.mod_eq_of_lt hv, BitVec.toNat_ofNat]
  exact Nat.mod_eq_of_lt (by omega)

/-- What the loop leaves behind. -/
def Bound (flows : CtxId → FlowSlot) (b₀ : Bus) (f : CtxId) (cfg : Byte) (d : Bus × Seed) : Prop :=
  Selected flows b₀ f d ∧ SeededAt f cfg d

theorem stable_selected : SeedStable (Selected flows b₀ f) :=
  seedStable fun _ e h => selected_tick e rfl h

theorem stable_bound : SeedStable (Bound flows b₀ f cfg) := seedStable fun _ e h =>
  ⟨selected_tick e rfl h.1, seededAt_tick e h.1.1.range rfl (fun hw => Bool.noConfusion hw) h.2⟩

/-- One round of the loop: read, write the phase, latch, read again. -/
theorem seedThread_succ {tries : Nat} (hrest : SeedOutline
    (Bound flows b₀ f cfg) (seedThread (fpp cfg) 2 cfg tries) (Bound flows b₀ f cfg)) :
    SeedOutline (Bound flows b₀ f cfg)
      (seedThread (fpp cfg) 2 cfg (tries + 1)) (Selected flows b₀ f) := by
  have hpos := fpp_pos cfg
  have hle := fpp_le cfg
  -- after the first read the observer follows its value
  let Read := fun (v : Nat) (d : Bus × Seed) =>
    Selected flows b₀ f d ∧ v < 48000 ∧ Follows v d
  let Written := fun (v : Nat) (d : Bus × Seed) =>
    Read v d ∧ d.1.csr.flowPhase = phaseSeed v 2 (fpp cfg)
  have hread : ∀ v, SeedStable (Read v) := fun v => seedStable fun d e h =>
    ⟨selected_tick e rfl h.1, h.2.1, follows_tick e h.1.1.range rfl rfl h.2.2⟩
  have hwritten : ∀ v, SeedStable (Written v) := fun v => seedStable fun d e h =>
    ⟨(hread v).wait d e trivial h.1, h.2⟩
  refine ⟨stable_selected, Read, fun d e _ h => ?_, fun v =>
    ⟨hread v, Written v, fun d e _ h => ?_, hwritten v, Bound flows b₀ f cfg, fun d e _ h => ?_,
      stable_bound, fun _ => Bound flows b₀ f cfg, fun d e _ h => ?_, fun r => ?_⟩⟩
  · exact ⟨selected_tick e rfl h, h.1.range.sub, follows_read e h.1.range⟩
  · exact ⟨⟨selected_tick e rfl h.1, h.2.1, follows_tick e h.1.1.range rfl rfl h.2.2⟩, rfl⟩
  · obtain ⟨⟨hsel, hv, hfollow⟩, hphase⟩ := h
    have hvalue : d.1.csr.flowPhase.toNat = (v + 2) % fpp cfg := by
      rw [hphase]
      exact phaseSeed_toNat (by omega) hle (by omega)
    refine ⟨selected_tick e rfl hsel, seededAt_latch e hsel.1.range hsel.2 hfollow ?_ ?_⟩
    · rw [hvalue]
      exact Nat.mod_lt _ (by omega)
    · rw [hvalue]
      push_cast
      exact Int.mod_modEq _ _
  · exact ⟨selected_tick e rfl h.1, seededAt_tick e h.1.1.range rfl
      (fun hw => Bool.noConfusion hw) h.2⟩
  · dsimp only
    split
    · exact ⟨stable_bound, fun _ h => h⟩
    · exact hrest

theorem seedThread_outline : ∀ tries, SeedOutline (Bound flows b₀ f cfg)
    (seedThread (fpp cfg) 2 cfg tries) (Bound flows b₀ f cfg)
  | 0 => ⟨stable_bound, fun _ h => h⟩
  | tries + 1 => (seedThread_succ (seedThread_outline tries)).pre stable_bound fun _ h => h.1

/-- Selecting a context, then writing registers that leave the selection and the load alone. -/
theorem select_outline {Q : Bus × Seed → Prop} {t : CsrThread} {ws : List CsrWrite}
    (hws : ∀ w ∈ ws, plain (.write w) = true)
    (hrest : SeedOutline Q t (Selected flows b₀ f)) :
    SeedOutline Q (Thread.writes (.ctxSelect f :: ws) t)
      (fun d => Elsewhere flows b₀ f d.1) :=
  ⟨seedStable fun d e h => elsewhere_tick (d := d) e rfl (fun hw => Bool.noConfusion hw) h,
    Selected flows b₀ f,
    fun d e _ h => ⟨elsewhere_tick (d := d) e rfl (fun hw => Bool.noConfusion hw) h, rfl⟩,
    outline_writes stable_selected (fun w hw _ e _ h => selected_tick e (hws w hw) h) hrest⟩

/-- `write_ctx`, beside contexts that are as the table says. -/
theorem writeCtx_outline (netIp dst : Ip) (dmac : Mac) (dport : BitVec 16)
    (chans : Fin 8 → BitVec 16) (n : Nat) (size : Fpp) :
    SeedOutline (Bound flows b₀ f (flowCfg n size))
      (writeCtxThread netIp 2 f dst dmac dport chans n size)
      (fun d => Elsewhere flows b₀ f d.1) := by
  have hseed : SeedOutline (Bound flows b₀ f (flowCfg n size))
      (seedThread (fpp (flowCfg n size)) 2 (flowCfg n size) 8) (Selected flows b₀ f) :=
    seedThread_succ (seedThread_outline 7)
  rw [fpp_flowCfg] at hseed
  refine select_outline (fun w hw => ?_) hseed
  simp only [List.mem_cons, List.not_mem_nil, or_false] at hw
  rcases hw with rfl | rfl | rfl | rfl | rfl | rfl | rfl | rfl <;> rfl

/-- `dante_tx_unbind`: the context is off. -/
theorem unbind_outline :
    SeedOutline (fun d => Elsewhere flows b₀ f d.1 ∧ (d.1.gw.ctx f).cfg = 0)
      (unbindThread f) (fun d => Elsewhere flows b₀ f d.1) := by
  have hnone : ∀ w ∈ ([] : List CsrWrite), plain (.write w) = true :=
    fun _ hw => absurd hw List.not_mem_nil
  have hrest : SeedOutline (fun d => Elsewhere flows b₀ f d.1 ∧ (d.1.gw.ctx f).cfg = 0)
      (.write (.flowCfg 0) .done) (Selected flows b₀ f) := by
    refine ⟨stable_selected, fun d => Elsewhere flows b₀ f d.1 ∧ (d.1.gw.ctx f).cfg = 0,
      fun d e _ h => ⟨(selected_tick (a := .write (.flowCfg 0)) e rfl h).1,
        (phase_latch e d.1 0 h.2).1⟩, seedStable fun d e h => ⟨?_, ?_⟩, fun _ h => h⟩
    · exact elsewhere_tick (d := d) e rfl (fun hw => Bool.noConfusion hw) h.1
    · exact (phase_tick e d.1 (fun hw => Bool.noConfusion hw)).1.trans h.2
  have hselect := select_outline hnone hrest
  exact hselect

end Binding

/-! ## Anchoring -/

section Anchoring

variable {flows : CtxId → FlowSlot} {d : Bus × Seed} {a : BusAccess} {v : Int} {sub : Nat}
  {D : CtxId → Prop}

/-- Latched configurations and phases stay as the table says, whatever happens to the load. -/
theorem tabled_tick (e : Ambient) (hre : flowCfgRe a = false)
    (hrange : InRange (busTick d.1 e a)) (h : Tabled flows d.1) :
    Tabled flows (seedTick d e a).1 := by
  refine ⟨hrange, fun k => ?_, fun k hbound => ?_⟩
  · exact (phase_tick e d.1 (fun hw => by rw [hre] at hw; cases hw)).1.trans (h.cfg k)
  · have hphase := ((phase_tick e d.1 (k := k) (fun hw => by rw [hre] at hw; cases hw)).2
      (by rw [h.cfg k]; exact h.phase k hbound)).1
    rw [h.cfg k] at hphase
    exact hphase

theorem tabled_wait (e : Ambient) (h : Tabled flows d.1) : Tabled flows (seedTick d e .idle).1 :=
  tabled_tick e rfl (virtualSub_tick (a := .idle) e h.range rfl).1 h

/-- The samples of a load come into range with its write. -/
theorem inRange_loadSub (e : Ambient) {b : Bus} (hb : InRange b) {w : Word}
    (hw : w.toNat < 48000) : InRange (busTick b e (.write (.tsLoadSub w))) := by
  refine ⟨?_, fun _ => hw⟩
  have hacc : (accessed b.csr (.write (.tsLoadSub w))).tsLoadSub = w := rfl
  rw [tsSub_tick, hacc]
  split
  · split
    · exact hw
    · exact (tick_modEq hb.sub).1
  · exact hb.sub

/-- While an anchor at sample `v + 1` reseeds, the contexts of `D` are done. -/
structure Reseeded (flows : CtxId → FlowSlot) (v : Int) (D : CtxId → Prop) (d : Bus × Seed) :
    Prop where
  tabled : Tabled flows d.1
  follows : Follows v d
  seeded : ∀ k, D k → (flows k).inUse = true → SeededAt k (slotCfg (flows k)) d

theorem reseeded_tick (e : Ambient) (hload : keepsLoad a = true) (hre : flowCfgRe a = false)
    (hahead : Seed.nextAhead d.1 e d.2 a = d.2.ahead + strobed d.1 e) (h : Reseeded flows v D d) :
    Reseeded flows v D (seedTick d e a) :=
  ⟨tabled_tick e hre (virtualSub_tick e h.tabled.range hload).1 h.tabled,
    follows_tick e h.tabled.range hload hahead h.follows,
    fun k hk hbound => seededAt_tick e h.tabled.range hload
      (fun hw => by rw [hre] at hw; cases hw) (h.seeded k hk hbound)⟩

/-- Latching one more context, with the configuration it has. -/
theorem reseeded_latch (e : Ambient) {f : CtxId} (hbound : (flows f).inUse = true)
    (hsel : d.1.csr.ctxSelect = BitVec.ofNat 3 f.val)
    (hlt : d.1.csr.flowPhase.toNat < fpp (slotCfg (flows f)))
    (hp : (d.1.csr.flowPhase.toNat : Int) ≡ v + 2 [ZMOD fpp (slotCfg (flows f))])
    (h : Reseeded flows v D d) :
    Reseeded flows v (fun k => D k ∨ k = f)
      (seedTick d e (.write (.flowCfg (slotCfg (flows f))))) := by
  have hlatch := seededAt_latch e h.tabled.range hsel h.follows hlt hp
  have hother : ∀ k, k ≠ f →
      flowCfgRe (.write (.flowCfg (slotCfg (flows f)))) = true →
        ∃ j, j ≠ k ∧ d.1.csr.ctxSelect = BitVec.ofNat 3 j.val :=
    fun k hk _ => ⟨f, hk.symm, hsel⟩
  refine ⟨⟨(virtualSub_tick (a := .write (.flowCfg _)) e h.tabled.range rfl).1, fun k => ?_,
      fun k hk => ?_⟩,
    follows_tick e h.tabled.range rfl rfl h.follows, fun k hk hin => ?_⟩
  · by_cases hkf : k = f
    · subst hkf
      exact hlatch.cfg
    · exact (phase_tick e d.1 (hother k hkf)).1.trans (h.tabled.cfg k)
  · by_cases hkf : k = f
    · subst hkf
      exact hlatch.phase
    · have hphase := ((phase_tick e d.1 (hother k hkf)).2
        (by rw [h.tabled.cfg k]; exact h.tabled.phase k hk)).1
      rw [h.tabled.cfg k] at hphase
      exact hphase
  · by_cases hkf : k = f
    · subst hkf
      exact hlatch
    · exact seededAt_tick e h.tabled.range rfl (hother k hkf)
        (h.seeded k (hk.resolve_right hkf) hin)

/-- The seed of an anchor at sample `sub` is two past the sample before it. -/
theorem reseed_value (hsub : sub < 48000) {n : Nat} (hn : 0 < n) (hn' : n ≤ 60) :
    (BitVec.ofNat 8 ((sub + 2 + n - 1) % 2 ^ 32 % n)).toNat < n ∧
      (((BitVec.ofNat 8 ((sub + 2 + n - 1) % 2 ^ 32 % n)).toNat : Int) ≡
        (sub : Int) - 1 + 2 [ZMOD n]) := by
  have hlt := Nat.mod_lt (sub + 1) hn
  have hvalue : (sub + 2 + n - 1) % 2 ^ 32 % n = (sub + 1) % n := by
    have hmove : sub + 2 + n - 1 = sub + 1 + n := by omega
    rw [Nat.mod_eq_of_lt (a := sub + 2 + n - 1) (by omega), hmove, Nat.add_mod_right]
  have hbyte : (BitVec.ofNat 8 ((sub + 1) % n)).toNat = (sub + 1) % n := by
    rw [BitVec.toNat_ofNat]
    exact Nat.mod_eq_of_lt (by omega)
  rw [hvalue, hbyte]
  refine ⟨hlt, ?_⟩
  have hcollect : (sub : Int) - 1 + 2 = ((sub + 1 : Nat) : Int) := by
    push_cast
    ring
  rw [hcollect, Int.natCast_mod]
  exact Int.mod_modEq _ _

/-- All contexts of the table are seeded. -/
def AllSeeded (flows : CtxId → FlowSlot) (d : Bus × Seed) : Prop :=
  Tabled flows d.1 ∧ ∀ k, (flows k).inUse = true → SeededAt k (slotCfg (flows k)) d

/-- `dante_tx_reseed_phases`, over the contexts that are left. -/
theorem reseed_outline (hsub : sub < 48000) : ∀ (fs : List CtxId) {D : CtxId → Prop},
    (∀ k, D k ∨ k ∈ fs) →
      SeedOutline (AllSeeded flows) (reseedThread 2 flows sub fs)
        (Reseeded flows (sub - 1) D)
  | [], D, hall =>
      ⟨seedStable fun d e h => reseeded_tick e rfl rfl rfl h, fun d h => ⟨h.tabled, fun k hin =>
        h.seeded k ((hall k).resolve_right List.not_mem_nil) hin⟩⟩
  | f :: fs, D, hall => by
      rw [reseedThread]
      by_cases hbound : (flows f).inUse = true
      · rw [if_pos hbound, ← slotCfg_bound hbound, ← fpp_slotCfg hbound]
        have hpos := fpp_pos (slotCfg (flows f))
        have hle := fpp_le (slotCfg (flows f))
        have hrest := reseed_outline hsub fs (D := fun k => D k ∨ k = f) fun k => by
          rcases hall k with hk | hk
          · exact .inl (.inl hk)
          · rcases List.mem_cons.1 hk with hk | hk
            · exact .inl (.inr hk)
            · exact .inr hk
        let Chosen := fun d : Bus × Seed =>
          Reseeded flows (sub - 1) D d ∧ d.1.csr.ctxSelect = BitVec.ofNat 3 f.val
        let Written := fun d : Bus × Seed => Chosen d ∧ d.1.csr.flowPhase =
          BitVec.ofNat 8 ((sub + 2 + fpp (slotCfg (flows f)) - 1) % 2 ^ 32 % fpp (slotCfg (flows f)))
        refine ⟨seedStable fun d e h => reseeded_tick e rfl rfl rfl h, Chosen,
          fun d e _ h => ?_, seedStable fun d e h => ?_, Written, fun d e _ h => ?_,
          seedStable fun d e h => ?_, _, fun d e _ h => ?_, hrest⟩
        · exact ⟨reseeded_tick e rfl rfl rfl h, rfl⟩
        · exact ⟨reseeded_tick e rfl rfl rfl h.1, h.2⟩
        · exact ⟨⟨reseeded_tick e rfl rfl rfl h.1, h.2⟩, rfl⟩
        · exact ⟨⟨reseeded_tick e rfl rfl rfl h.1.1, h.1.2⟩, h.2⟩
        · obtain ⟨⟨hre, hsel⟩, hphase⟩ := h
          have hvalue := reseed_value hsub (n := fpp (slotCfg (flows f))) (by omega) hle
          rw [← hphase] at hvalue
          exact reseeded_latch e hbound hsel hvalue.1 hvalue.2 hre
      · rw [if_neg hbound]
        refine (reseed_outline hsub fs (D := fun k => D k ∨ k = f) fun k => ?_).pre
          (seedStable fun d e h => reseeded_tick e rfl rfl rfl h) fun d h => ⟨h.tabled, h.follows, ?_⟩
        · rcases hall k with hk | hk
          · exact .inl (.inl hk)
          · rcases List.mem_cons.1 hk with hk | hk
            · exact .inl (.inr hk)
            · exact .inr hk
        · rintro k (hk | rfl) hin
          · exact h.seeded k hk hin
          · exact absurd hin hbound

/-- `ts_anchor`, from any state that is as the table says. -/
theorem anchor_outline (sec : Int) (hsub : sub < 48000) :
    SeedOutline (AllSeeded flows)
      (anchorThread 2 flows sec sub) (fun d => Tabled flows d.1) := by
  have hvalue : (BitVec.ofInt 32 (sub : Int)).toNat = sub := by
    rw [BitVec.ofInt_natCast, BitVec.toNat_ofNat]
    exact Nat.mod_eq_of_lt (by omega)
  have hmod : ((sub : Int) % 2 ^ 32).toNat = sub := by omega
  let Armed := fun d : Bus × Seed => Tabled flows d.1 ∧ d.1.csr.tsLoadSub.toNat = sub
  have hreseed : SeedOutline (AllSeeded flows) (reseedThread 2 flows sub (List.finRange nFlows))
      (Reseeded flows (sub - 1) fun _ => False) :=
    reseed_outline hsub (List.finRange nFlows) fun k => .inr (List.mem_finRange k)
  rw [anchorThread, hmod]
  have hwait : SeedStable fun d => Tabled flows d.1 := seedStable fun _ e h => tabled_wait e h
  refine ⟨hwait, fun d => Tabled flows d.1, fun d e _ h => ?_, hwait, Armed, fun d e _ h => ?_,
    seedStable fun d e h => ⟨tabled_wait e h.1, h.2⟩, _, fun d e _ h => ?_, hreseed⟩
  · exact tabled_tick (d := d) e rfl
      (virtualSub_tick (a := .write (.tsLoadSec _)) e h.range rfl).1 h
  · refine ⟨tabled_tick (d := d) e rfl (inRange_loadSub e h.range ?_) h, hvalue⟩
    rw [hvalue]
    exact hsub
  · obtain ⟨htabled, hload⟩ := h
    have harm := virtualSub_arm e htabled.range (by omega)
    refine ⟨tabled_tick (d := d) e rfl harm.1 htabled, ?_, fun k hk => hk.elim⟩
    show virtualSub (busTick d.1 e (.write .tsLoad)) ≡
      (sub : Int) - 1 + if d.1.gw.tsLoadPending then strobed d.1 e else 0 [ZMOD 48000]
    rw [harm.2, hload]

end Anchoring

/-! ## In step -/

/-- A context's phase is in step with the counter. -/
def InStep (b : Bus) (k : CtxId) : Prop :=
  ((b.gw.ctx k).phase : Int) ≡ b.gw.tsSub.toNat [ZMOD fpp (b.gw.ctx k).cfg]

/-- A due event of context `k` dates its packet to a multiple of the packet size. -/
def DatesMultiple (k : CtxId) (b : Bus) (e : Ambient) : Prop :=
  Packetizer.dueEvent b.gw (busInput b e .idle) k = true →
    let next := (busTick b e .idle).gw
    fpp (b.gw.ctx k).cfg ∣
      (Packetizer.windowStart (fpp (b.gw.ctx k).cfg) (next.tsSecEmit, next.tsSubEmit)).2.toNat

def wait (b : Bus) (e : Ambient) : Bus := busTick b e .idle

/-- A context is in step, so that every packet from now on is dated to a multiple of its size. -/
def Aligned (b : Bus) (k : CtxId) : Prop :=
  InStep b k ∧ ∀ es : List Ambient, Along wait (DatesMultiple k) b es

section Waiting

variable {b : Bus} {k : CtxId}

/-- What waiting keeps of a context in step. -/
structure Steady (k : CtxId) (b : Bus) : Prop where
  range : InRange b
  loaded : b.gw.tsLoadPending = false
  offset : b.csr.tsOffset = 0
  phase : (b.gw.ctx k).phase < fpp (b.gw.ctx k).cfg
  inStep : InStep b k

theorem virtualSub_loaded (h : b.gw.tsLoadPending = false) : virtualSub b = b.gw.tsSub.toNat := by
  rw [virtualSub, h]
  rfl

theorem inStep_iff_drift (h : b.gw.tsLoadPending = false) :
    InStep b k ↔ drift b k ≡ 0 [ZMOD fpp (b.gw.ctx k).cfg] := by
  rw [drift, virtualSub_loaded h, InStep, Int.modEq_iff_dvd, Int.modEq_zero_iff_dvd,
    ← Int.dvd_neg, Int.neg_sub]

theorem tsOffset_tick (b : Bus) (e : Ambient) (a : BusAccess) :
    (busTick b e a).csr.tsOffset = b.csr.tsOffset := by
  cases a with
  | idle => rfl
  | read => rfl
  | write w => cases w <;> rfl

theorem steady_wait (e : Ambient) (h : Steady k b) : Steady k (wait b e) := by
  have hno : flowCfgRe .idle = true → ∃ f, f ≠ k ∧ b.csr.ctxSelect = BitVec.ofNat 3 f.val :=
    fun hw => Bool.noConfusion hw
  have hcfg := (phase_tick e b hno).1
  have hphase := ((phase_tick e b hno).2 h.phase).1
  have hloaded : (wait b e).gw.tsLoadPending = false := by
    rw [wait, tsLoadPending_tick, h.loaded]
    simp [tsLoadRe]
  refine ⟨(virtualSub_tick (a := .idle) e h.range rfl).1, hloaded,
    (tsOffset_tick b e .idle).trans h.offset, ?_, ?_⟩
  · rw [wait, hcfg]
    exact hphase
  · have hdrift := drift_tick (d := (b, ⟨0, fun _ => 0⟩)) (a := .idle) e h.range rfl hno rfl h.phase
    rw [inStep_iff_drift hloaded, wait, hcfg]
    exact hdrift.trans ((inStep_iff_drift h.loaded).1 h.inStep)

/-- A packet whose last sample the counter has, at the end of a group, starts at a multiple. -/
theorem windowStart_multiple {n : Nat} (hn : 1 ≤ n) (hsecond : n ∣ 48000) {sec sub : Word}
    (hsub : sub.toNat < 48000) (hend : (n : Int) ∣ sub.toNat - (n - 1)) :
    n ∣ (Packetizer.windowStart n (sec, sub)).2.toNat := by
  have hle := Nat.le_of_dvd (by decide) hsecond
  have hcount : (Packetizer.Stamp.count (sec, sub) : Int) = sec.toNat * 48000 + sub.toNat := by
    rw [Packetizer.Stamp.count]
    push_cast
    rfl
  have hsecond' : (n : Int) ∣ 48000 := by exact_mod_cast hsecond
  have hstart := Packetizer.windowStart_stamp hn hle (Packetizer.Stamp.count (sec, sub))
  rw [Packetizer.stamp_count hsub] at hstart
  rw [hstart, ← Int.natCast_dvd_natCast, Packetizer.stamp_snd, hcount, add_sub_assoc, Int.emod_def]
  exact Int.dvd_sub (Int.dvd_add (hsecond'.mul_left _) hend) (hsecond'.mul_right _)

theorem steady_dates (e : Ambient) (h : Steady k b) : DatesMultiple k b e := by
  intro hdue
  have hpos := fpp_pos (b.gw.ctx k).cfg
  rw [Packetizer.dueEvent, Bool.and_eq_true] at hdue
  have hend : (b.gw.ctx k).phase = fpp (b.gw.ctx k).cfg - 1 := by
    have hdue' := hdue.2
    rw [Packetizer.due, Bool.and_eq_true, beq_iff_eq] at hdue'
    exact hdue'.2
  have hstrobe : Packetizer.dueStrobe b.gw (busInput b e .idle) = true := by
    rw [Packetizer.dueStrobe, hdue.1, Packetizer.anyDue, Bool.true_and, decide_eq_true_iff]
    exact ⟨k, hdue.2⟩
  have hsec : (busTick b e .idle).gw.tsSecEmit = b.gw.tsSec := if_pos hstrobe
  have hsub : (busTick b e .idle).gw.tsSubEmit = b.gw.tsSub := by
    show (if Packetizer.dueStrobe b.gw (busInput b e .idle) then
      b.gw.tsSub + b.csr.tsOffset else b.gw.tsSubEmit) = b.gw.tsSub
    rw [if_pos hstrobe, h.offset]
    exact BitVec.add_zero _
  dsimp only
  rw [hsec, hsub]
  refine windowStart_multiple (by omega) (fpp_dvd_subsecMax _) h.range.sub ?_
  have hstep := h.inStep
  rw [InStep, hend, Int.modEq_iff_dvd, Nat.cast_sub (by omega)] at hstep
  exact hstep

theorem Steady.aligned (h : Steady k b) : Aligned b k := by
  refine ⟨h.inStep, fun es => ?_⟩
  induction es generalizing b with
  | nil => trivial
  | cons e es ih => exact ⟨steady_dates e h, ih (steady_wait e h)⟩

end Waiting

/-! ## The firmware's operations -/

/-- What an anchor is computed from. -/
structure Anchor where
  time : Timestamp
  offset : Int
  inRange : 0 ≤ (anchorOf time offset).2 ∧ (anchorOf time offset).2 < 48000

/-- Offsets of up to a second leave the anchor among the samples of a second. -/
theorem anchorOf_inRange {t : Timestamp} {offset : Int} (ht : t.nanoseconds < 10 ^ 9)
    (hlow : -48000 ≤ offset) (hhigh : offset ≤ 48000) :
    0 ≤ (anchorOf t offset).2 ∧ (anchorOf t offset).2 < 48000 := by
  have hsub : subOfNs t.nanoseconds < 48000 := by
    rw [subOfNs, Nat.mod_eq_of_lt (by omega)]
    omega
  have hmax : subsecMax = 48000 := rfl
  simp only [anchorOf, hmax]
  split
  · dsimp only
    omega
  · split <;> dsimp only <;> omega

/-- The operations that seed phases or turn contexts off. -/
inductive FlowOp
  | bind (netIp : Ip) (f : CtxId) (s : FlowSlot)
  | unbind (f : CtxId)
  | anchor (a : Anchor)

namespace FlowOp

/-- The accesses of an operation, with the phase adjustment at its compiled-in value. -/
def thread (flows : CtxId → FlowSlot) : FlowOp → CsrThread
  | bind netIp f s => writeCtxThread netIp 2 f s.dst s.mac s.dport s.chans s.nslots s.fpp
  | unbind f => unbindThread f
  | anchor a => anchorThread 2 flows (anchorOf a.time a.offset).1 (anchorOf a.time a.offset).2

/-- The table after an operation. -/
def table (flows : CtxId → FlowSlot) : FlowOp → CtxId → FlowSlot
  | bind _ f s => Function.update flows f { s with inUse := true }
  | unbind f => Function.update flows f { flows f with inUse := false }
  | anchor _ => flows

end FlowOp

/-- The flow table, and the bus with the observer. -/
abbrev Deck := (CtxId → FlowSlot) × (Bus × Seed)

/-- What the rest of the system does during an operation, and when the next access happens. -/
abbrev Schedule := List (Ambient × Bool)

def Deck.boot : Deck := (fun _ => FlowSlot.free, Bus.reset, ⟨0, fun _ => 0⟩)

/-- An operation on a schedule. -/
abbrev seedPerform : Deck → FlowOp × Schedule → Deck :=
  perform FlowOp.thread FlowOp.table seedTick seedSense

/-- The operation has returned by the end of its schedule. -/
abbrev Returns : Deck → FlowOp × Schedule → Prop := Completes FlowOp.thread seedTick seedSense

/-- Where the latch of a context falls: a context that is seeded is latched two samples, modulo
its packet size, after the sample its seed is computed from; the others were in step before. -/
def LandsInStep (x : Deck) (op : FlowOp) (k : CtxId) (lead : Int) (size : Nat) : Prop :=
  match op with
  | .bind _ f _ => if k = f then lead ≡ 2 [ZMOD size] else drift x.2.1 k ≡ 0 [ZMOD size]
  | .unbind _ => drift x.2.1 k ≡ 0 [ZMOD size]
  | .anchor _ => lead ≡ 2 [ZMOD size]

/-- The bus is as the table says, and the offset register was never written. -/
structure OnTable (x : Deck) : Prop where
  tabled : Tabled x.1 x.2.1
  offset : x.2.1.csr.tsOffset = 0

section Operations

variable {x : Deck} {op : FlowOp} {cs : Schedule}

theorem tsOffset_run (t : CsrThread) (d : Bus × Seed) (cs : Schedule) :
    (run (cycle seedTick seedSense) (t, d) cs).2.1.csr.tsOffset = d.1.csr.tsOffset :=
  run_invariant (cycle seedTick seedSense)
    (P := fun x => x.2.1.csr.tsOffset = d.1.csr.tsOffset)
    (fun x _ hx => (tsOffset_tick x.2.1 _ _).trans hx) cs rfl

/-- What an operation leaves behind. -/
structure Performed (x : Deck) (op : FlowOp) (y : Deck) : Prop where
  onTable : OnTable y
  lands : ∀ k, (y.1 k).inUse = true → ∀ size : Nat, size = fpp (slotCfg (y.1 k)) →
    (drift y.2.1 k ≡ 0 [ZMOD size] ↔ LandsInStep x op k (y.2.2.lead k) size)

/-- A context seeded on latching is in step iff the latch came two samples later. -/
theorem SeededAt.lands {k : CtxId} {c : Byte} {d : Bus × Seed} (h : SeededAt k c d) :
    Firmware.drift d.1 k ≡ 0 [ZMOD fpp c] ↔ d.2.lead k ≡ 2 [ZMOD fpp c] := by
  have hzero : ∀ y : Int, 2 - y ≡ 0 [ZMOD fpp c] ↔ y ≡ 2 [ZMOD fpp c] := fun y => by
    rw [Int.modEq_zero_iff_dvd, Int.modEq_iff_dvd]
  exact ⟨fun hd => (hzero _).1 (h.drift.symm.trans hd), fun hl => h.drift.trans ((hzero _).2 hl)⟩

theorem performs_bind {netIp : Ip} {f : CtxId} {s : FlowSlot} (hx : OnTable x)
    (hop : Returns x (.bind netIp f s, cs)) :
    Performed x (.bind netIp f s) (seedPerform x (.bind netIp f s, cs)) := by
  obtain ⟨⟨helse, -⟩, hseeded⟩ := outline_run
    (writeCtx_outline (f := f) netIp s.dst s.mac s.dport s.chans s.nslots s.fpp)
    (hx.tabled.elsewhere f) cs (Along.of_forall (fun _ _ => trivial) _ _) hop
  have hself : slotCfg ((seedPerform x (.bind netIp f s, cs)).1 f) = flowCfg s.nslots s.fpp :=
    (congrArg slotCfg (Function.update_self f _ x.1)).trans rfl
  have hother : ∀ k, k ≠ f → (seedPerform x (.bind netIp f s, cs)).1 k = x.1 k :=
    fun k hk => Function.update_of_ne hk _ _
  refine ⟨⟨⟨helse.range, fun k => ?_, fun k hin => ?_⟩, (tsOffset_run _ _ cs).trans hx.offset⟩,
    fun k hin size hsize => ?_⟩
  · by_cases hk : k = f
    · rw [hk, hself]
      exact hseeded.cfg
    · rw [hother k hk]
      exact helse.cfg k hk
  · by_cases hk : k = f
    · rw [hk, hself]
      exact hseeded.phase
    · rw [hother k hk] at hin ⊢
      exact helse.phase k hk hin
  · by_cases hk : k = f
    · rw [hk, hself] at hsize
      rw [LandsInStep, if_pos hk, hsize, hk]
      exact hseeded.lands
    · rw [hother k hk] at hin hsize
      rw [LandsInStep, if_neg hk, hsize]
      have hdrift := helse.drift k hk hin
      exact ⟨hdrift.symm.trans, hdrift.trans⟩

theorem performs_unbind {f : CtxId} (hx : OnTable x) (hop : Returns x (.unbind f, cs)) :
    Performed x (.unbind f) (seedPerform x (.unbind f, cs)) := by
  obtain ⟨helse, hoff⟩ := outline_run (unbind_outline (f := f)) (hx.tabled.elsewhere f) cs
    (Along.of_forall (fun _ _ => trivial) _ _) hop
  have hself : ((seedPerform x (.unbind f, cs)).1 f).inUse = false :=
    (congrArg FlowSlot.inUse (Function.update_self f _ x.1)).trans rfl
  have hother : ∀ k, k ≠ f → (seedPerform x (.unbind f, cs)).1 k = x.1 k :=
    fun k hk => Function.update_of_ne hk _ _
  have hne : ∀ k, ((seedPerform x (.unbind f, cs)).1 k).inUse = true → k ≠ f := by
    rintro k hin rfl
    rw [hself] at hin
    cases hin
  refine ⟨⟨⟨helse.range, fun k => ?_, fun k hin => ?_⟩, (tsOffset_run _ _ cs).trans hx.offset⟩,
    fun k hin size hsize => ?_⟩
  · by_cases hk : k = f
    · rw [hk, slotCfg, if_neg (by rw [hself]; decide)]
      exact hoff
    · rw [hother k hk]
      exact helse.cfg k hk
  · have hk := hne k hin
    rw [hother k hk] at hin ⊢
    exact helse.phase k hk hin
  · have hk := hne k hin
    rw [hother k hk] at hin hsize
    rw [LandsInStep, hsize]
    have hdrift := helse.drift k hk hin
    exact ⟨hdrift.symm.trans, hdrift.trans⟩

theorem performs_anchor {a : Anchor} (hx : OnTable x) (hop : Returns x (.anchor a, cs)) :
    Performed x (.anchor a) (seedPerform x (.anchor a, cs)) := by
  have hsub : ((anchorOf a.time a.offset).2.toNat : Int) = (anchorOf a.time a.offset).2 :=
    Int.toNat_of_nonneg a.inRange.1
  have hlt : (anchorOf a.time a.offset).2.toNat < 48000 := by
    have hhigh := a.inRange.2
    omega
  have houtline : SeedOutline (AllSeeded x.1) (anchorThread 2 x.1 (anchorOf a.time a.offset).1
      (anchorOf a.time a.offset).2.toNat) (fun d => Tabled x.1 d.1) := anchor_outline _ hlt
  rw [hsub] at houtline
  obtain ⟨htabled, hseeded⟩ := outline_run houtline hx.tabled cs
    (Along.of_forall (fun _ _ => trivial) _ _) hop
  refine ⟨⟨htabled, (tsOffset_run _ _ cs).trans hx.offset⟩, fun k hin size hsize => ?_⟩
  rw [LandsInStep, hsize]
  exact (hseeded k hin).lands

theorem performs (hx : OnTable x) (hop : Returns x (op, cs)) :
    Performed x op (seedPerform x (op, cs)) := by
  cases op with
  | bind netIp f s => exact performs_bind hx hop
  | unbind f => exact performs_unbind hx hop
  | anchor a => exact performs_anchor hx hop

/-- A context whose load was adopted stays in step, and dates its packets so. -/
theorem OnTable.aligned_iff {y : Deck} {k : CtxId} (hy : OnTable y) (hin : (y.1 k).inUse = true)
    (hadopted : y.2.1.gw.tsLoadPending = false) :
    Aligned y.2.1 k ↔ drift y.2.1 k ≡ 0 [ZMOD fpp (y.2.1.gw.ctx k).cfg] := by
  have hphase := hy.tabled.phase k hin
  rw [← hy.tabled.cfg k] at hphase
  rw [← inStep_iff_drift hadopted]
  exact ⟨And.left, fun h => Steady.aligned ⟨hy.tabled.range, hadopted, hy.offset, hphase, h⟩⟩

theorem OnTable.inUse {y : Deck} {k : CtxId} (hy : OnTable y)
    (hbound : nslots (y.2.1.gw.ctx k).cfg ≠ 0) : (y.1 k).inUse = true := by
  rw [hy.tabled.cfg k, slotCfg] at hbound
  by_contra hfree
  rw [if_neg hfree] at hbound
  exact hbound rfl

end Operations

theorem onTable_boot : OnTable Deck.boot :=
  ⟨⟨⟨by decide, fun h => Bool.noConfusion h⟩, fun _ => rfl, fun _ h => Bool.noConfusion h⟩, rfl⟩

/-- After every history of operations, an operation that has returned, with no load pending any
more, leaves a bound context in step iff its latch landed so. -/
theorem seeding_in_step_iff (history : List (FlowOp × Schedule)) (op : FlowOp) (cs : Schedule)
    (k : CtxId) (hhistory : Along seedPerform Returns Deck.boot history)
    (hop : Returns (run seedPerform Deck.boot history) (op, cs))
    (hadopted :
      (seedPerform (run seedPerform Deck.boot history) (op, cs)).2.1.gw.tsLoadPending = false)
    (hbound :
      nslots ((seedPerform (run seedPerform Deck.boot history) (op, cs)).2.1.gw.ctx k).cfg ≠ 0) :
    let x := run seedPerform Deck.boot history
    let y := seedPerform x (op, cs)
    Aligned y.2.1 k ↔
      LandsInStep x op k (y.2.2.lead k) (fpp (y.2.1.gw.ctx k).cfg) := by
  have hx : OnTable (run seedPerform Deck.boot history) :=
    hhistory.invariant (fun x p hp hx => (performs hx hp).onTable) onTable_boot
  have hy := performs hx hop
  have hin := hy.onTable.inUse hbound
  dsimp only
  rw [hy.onTable.aligned_iff hin hadopted]
  exact hy.lands k hin _ (congrArg fpp (hy.onTable.tabled.cfg k))

/-- Binding context 0 out of reset, with a loop that no strobe interrupts. -/
def undisturbed (size : Fpp) : FlowOp × Schedule :=
  (.bind ⟨10, 0, 0, 1⟩ 0 { FlowSlot.free with fpp := size }, List.replicate 13 (Ambient.quiet, true))

/-- For a packet of two samples, two samples more make no difference. -/
theorem seeding_in_step_pair :
    Aligned (seedPerform Deck.boot (undisturbed ⟨2, by decide⟩)).2.1 0 := by
  have hdone : Returns Deck.boot (undisturbed ⟨2, by decide⟩) := by decide +kernel
  refine (seeding_in_step_iff [] (undisturbed ⟨2, by decide⟩).1 (undisturbed ⟨2, by decide⟩).2 0
    trivial hdone ?_ ?_).2 ?_
  · decide +kernel
  · decide +kernel
  · show (_ : Int) ≡ 2 [ZMOD _]
    decide +kernel

/-- Binding a context of 16 samples a packet, undisturbed, seeds it two samples ahead; so does
anchoring it then, once the load is adopted. -/
theorem seeding_two_ahead :
    let bind := undisturbed ⟨16, by decide⟩
    let anchor : FlowOp × Schedule :=
      (.anchor ⟨⟨0, 0⟩, 0, by decide⟩,
        List.replicate 6 (Ambient.quiet, true) ++ [(Ambient.tick, true)])
    let x := seedPerform Deck.boot bind
    let y := seedPerform x anchor
    (Returns Deck.boot bind ∧ x.2.1.gw.tsLoadPending = false ∧
        nslots (x.2.1.gw.ctx 0).cfg ≠ 0 ∧ ¬ InStep x.2.1 0) ∧
      Returns x anchor ∧ y.2.1.gw.tsLoadPending = false ∧
        nslots (y.2.1.gw.ctx 0).cfg ≠ 0 ∧ ¬ InStep y.2.1 0 := by
  simp only [InStep]
  decide +kernel

end Firmware
end InfernoFpga
