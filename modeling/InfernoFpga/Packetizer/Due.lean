import InfernoFpga.Packetizer.Frame
import Mathlib.Data.List.Chain

/-!
# Due — every due event is answered by one packet

A due event sets the context's `pend` bit and the last word of its packet clears it.  Two things
break the one-to-one answer: a context that completes a group while its previous one is still
pending, and an unbind that leaves the bit set.  Outside these the history of a context
alternates, and for bound contexts that stand still the first cannot happen as long as one walk
over all contexts fits into the group of each of them.
-/

namespace InfernoFpga
namespace Packetizer

open Lib

/-! ## Histories -/

/-- Context `k` completes its group on this cycle. -/
def dueEvent (s : State) (i : Input) (k : CtxId) : Bool := strobe i && due s k

/-- The last word of a packet of context `k` is accepted on this cycle. -/
def served (s : State) (i : Input) (k : CtxId) : Bool := serveNow s i && s.streamIdx == k

/-- Due events (`true`) and packets (`false`) of each context, in order; the packet that ends on
the cycle of a due comes first. -/
abbrev History := CtxId → List Bool

def History.next (s : State) (i : Input) (h : History) : History := fun k =>
  h k ++ (if served s i k then [false] else []) ++ (if dueEvent s i k then [true] else [])

/-- Each due event is followed by exactly one packet before the next, and no packet comes
without one. -/
def Alternates (l : List Bool) : Prop := List.IsChain (· ≠ ·) (false :: l)

instance (l : List Bool) : Decidable (Alternates l) :=
  inferInstanceAs (Decidable (List.IsChain _ _))

theorem alternates_concat {l : List Bool} {b : Bool} :
    Alternates (l ++ [b]) ↔ Alternates l ∧ l.getLastD false ≠ b := by
  rw [Alternates, Alternates, ← List.cons_append, List.isChain_append]
  cases l using List.reverseRecOn <;> simp [List.getLast?_cons]

/-- The packetizer with the history of its contexts. -/
def historied : State × History → Input → State × History := watch step History.next

/-- State and history after the inputs `is`, from reset. -/
def historyAfter (is : List Input) : State × History :=
  run historied (State.reset, fun _ => []) is

/-- No group is completed while the previous one is pending, unless its packet ends on this very
cycle; and no context is unbound with a due event to answer. -/
def DueSafe (s : State) (i : Input) : Prop :=
  (∀ k, dueEvent s i k = true → (s.ctx k).pend = false ∨ served s i k = true) ∧
    (i.flowCfgRe = true → nslots i.csr.flowCfg = 0 →
      dueEvent s i (ctxIndex i.csr.ctxSelect) = false ∧
        ((s.ctx (ctxIndex i.csr.ctxSelect)).pend = false ∨
          served s i (ctxIndex i.csr.ctxSelect) = true))

instance (s : State) (i : Input) : Decidable (DueSafe s i) :=
  inferInstanceAs (Decidable ((∀ _, _) ∧ (_ → _)))

/-- What a history says about the registers. -/
structure Balanced (s : State) (h : History) : Prop where
  alternates : ∀ k, Alternates (h k)
  pend : ∀ k, (h k).getLastD false = (s.ctx k).pend
  flight : inFlight s = true → (cur s).pend = true
  bound : ∀ k, (s.ctx k).pend = true → nslots (s.ctx k).cfg ≠ 0

section Balance

variable {s : State} {i : Input} {h : History}

theorem nextCtx_pend (s : State) (i : Input) (k : CtxId) :
    (nextCtx s i k).pend =
      if dueEvent s i k then true else if served s i k then false else (s.ctx k).pend := rfl

theorem served_iff {k : CtxId} :
    served s i k = true ↔ serveNow s i = true ∧ s.streamIdx = k := by
  simp [served]

theorem served_inFlight {k : CtxId} (hk : served s i k = true) :
    inFlight s = true ∧ s.streamIdx = k := by
  rcases served_iff.1 hk with ⟨hserve, hidx⟩
  exact ⟨by simp [inFlight, stream_of_serveNow hserve], hidx⟩

/-- Where only pending contexts are in flight, a packet is sent of a pending one. -/
theorem pend_of_served (hpend : inFlight s = true → (cur s).pend = true) {k : CtxId}
    (hk : served s i k = true) : (s.ctx k).pend = true := by
  rcases served_inFlight hk with ⟨hflight, rfl⟩
  exact hpend hflight

/-- A frame in flight was in flight before, or `CHECK` has just found its context pending. -/
theorem inFlight_step (hflight : inFlight (step s i) = true) :
    serveNow s i = false ∧ nextStreamIdx s i = s.streamIdx ∧
      (inFlight s = true ∨ (s.fsm = .check ∧ (cur s).pend = true)) := by
  cases hfsm : s.fsm with
  | idle => exact absurd (hflight.symm.trans (inFlight_of_leave (.inl hfsm))) (by decide)
  | skip => exact absurd (hflight.symm.trans (inFlight_of_leave (.inr (.inl hfsm)))) (by decide)
  | check =>
    refine ⟨serveNow_of_ne (by simp [hfsm]), nextStreamIdx_of_ne (by simp [hfsm])
      (advance_of_ne (by simp [hfsm]) (by simp [hfsm])), Or.inr ⟨rfl, ?_⟩⟩
    by_contra hpend
    have hskip : (step s i).fsm = .skip :=
      (nextFsm_check hfsm).trans (if_pos (by simp [Bool.eq_false_iff.2 hpend]))
    rw [inFlight, hskip] at hflight
    exact absurd hflight (by decide)
  | build =>
    exact ⟨serveNow_of_ne (by simp [hfsm]), nextStreamIdx_build hfsm,
      Or.inl (by simp [inFlight, hfsm])⟩
  | prefetch =>
    exact ⟨serveNow_of_ne (by simp [hfsm]), nextStreamIdx_of_ne (by simp [hfsm])
      (advance_of_ne (by simp [hfsm]) (by simp [hfsm])), Or.inl (by simp [inFlight, hfsm])⟩
  | stream =>
    cases hserve : serveNow s i with
    | true => exact absurd (hflight.symm.trans (inFlight_of_leave (.inr (.inr hserve)))) (by decide)
    | false =>
      exact ⟨rfl, nextStreamIdx_of_ne (by simp [hfsm]) (by simp [advance, hserve, hfsm]),
        Or.inl (by simp [inFlight, hfsm])⟩

/-- A context in flight is still pending on the next cycle. -/
theorem flight_step (h : inFlight s = true → (cur s).pend = true)
    (hflight : inFlight (step s i) = true) : (cur (step s i)).pend = true := by
  obtain ⟨hserve, hidx, hbefore⟩ := inFlight_step hflight
  have hpend : (cur s).pend = true := by
    rcases hbefore with hbefore | ⟨-, hpend⟩
    · exact h hbefore
    · exact hpend
  show (nextCtx s i (nextStreamIdx s i)).pend = true
  rw [hidx, nextCtx_pend]
  split
  · rfl
  · rw [served, hserve, Bool.false_and]
    exact hpend

/-- The history with the packet of this cycle, before its due event. -/
theorem Balanced.sent (hb : Balanced s h) (k : CtxId) :
    Alternates (h k ++ if served s i k then [false] else []) ∧
      (h k ++ if served s i k then [false] else []).getLastD false =
        (if served s i k then false else (s.ctx k).pend) := by
  cases hk : served s i k with
  | false => exact ⟨by simpa using hb.alternates k, by simpa using hb.pend k⟩
  | true =>
    have hlast := (hb.pend k).trans (pend_of_served hb.flight hk)
    refine ⟨alternates_concat.2 ⟨hb.alternates k, ?_⟩, List.getLastD_concat⟩
    rw [hlast]
    decide

/-- A context that is pending afterwards is bound afterwards. -/
theorem Balanced.bound_step (hb : Balanced s h) (hsafe : DueSafe s i) (k : CtxId)
    (hpend : ((step s i).ctx k).pend = true) : nslots ((step s i).ctx k).cfg ≠ 0 := by
  rw [step_ctx, nextCtx_pend] at hpend
  rw [step_ctx, nextCtx_cfg]
  by_cases hwrite : (i.flowCfgRe && ctxIndex i.csr.ctxSelect == k) = true
  · rw [if_pos hwrite]
    intro hzero
    rw [Bool.and_eq_true, beq_iff_eq] at hwrite
    obtain ⟨hdue, hrest⟩ := hsafe.2 hwrite.1 hzero
    rw [hwrite.2] at hdue hrest
    rw [hdue] at hpend
    rcases hrest with hfree | hsv
    · simp [hfree] at hpend
    · simp [hsv] at hpend
  · rw [if_neg hwrite]
    cases hdue : dueEvent s i k with
    | true =>
      simp only [dueEvent, due, Bool.and_eq_true, bne_iff_ne] at hdue
      exact hdue.2.1
    | false =>
      rw [hdue] at hpend
      cases hsv : served s i k with
      | true => simp [hsv] at hpend
      | false => exact hb.bound k (by simpa [hsv] using hpend)

theorem balanced_step (hb : Balanced s h) (hsafe : DueSafe s i) :
    Balanced (step s i) (History.next s i h) := by
  refine ⟨fun k => ?_, fun k => ?_, flight_step hb.flight, hb.bound_step hsafe⟩
  · obtain ⟨halt, hlast⟩ := hb.sent (i := i) k
    show Alternates (_ ++ if dueEvent s i k then [true] else [])
    cases hk : dueEvent s i k with
    | false => simpa using halt
    | true =>
      refine alternates_concat.2 ⟨halt, ?_⟩
      rw [hlast]
      rcases hsafe.1 k hk with hpend | hk'
      · simp [hpend]
      · simp [hk']
  · show (_ ++ if dueEvent s i k then [true] else []).getLastD false = (nextCtx s i k).pend
    rw [nextCtx_pend]
    cases hk : dueEvent s i k with
    | false => simpa using (hb.sent k).2
    | true => exact List.getLastD_concat

end Balance

theorem balanced_reset : Balanced State.reset fun _ => [] :=
  ⟨by decide, by decide, by decide, by decide⟩

/-! ## One walk over the contexts -/

/-- Cycles a walk spends on a context: skipped, or built and sent at one word per cycle. -/
def cost (cfg : Byte) : Nat := if nslots cfg = 0 then 2 else 3 + fTotal cfg + fLastIdx cfg

def cfgs (s : State) (k : CtxId) : Byte := (s.ctx k).cfg

/-- Cycles a walk spends on the first `n` contexts. -/
def before (cfg : CtxId → Byte) : Nat → Nat
  | 0 => 0
  | n + 1 => before cfg n + if h : n < 6 then cost (cfg ⟨n, h⟩) else 0

/-- Cycles of a whole walk, with the step out of `IDLE` and a last `SKIP` before it. -/
def walkTime (cfg : CtxId → Byte) : Nat := 2 + before cfg 6

section Walk

variable {cfg : CtxId → Byte}

theorem two_le_cost (c : Byte) : 2 ≤ cost c := by
  unfold cost
  split <;> omega

theorem before_succ (k : CtxId) : before cfg (k.val + 1) = before cfg k.val + cost (cfg k) := by
  simp [before]

theorem before_mono {m n : Nat} (h : m ≤ n) : before cfg m ≤ before cfg n := by
  induction n, h using Nat.le_induction with
  | base => exact le_rfl
  | succ n _ ih =>
    rw [before]
    omega

end Walk

/-- Cycles left in the builder's present state, and behind it for this context. -/
def remaining (s : State) : Nat :=
  match s.fsm with
  | .idle => 1
  | .skip => 1
  | .check => cost (cfgNow s)
  | .build => fTotal (cfgNow s) - s.byteIdx + 2 + fLastIdx (cfgNow s)
  | .prefetch => 2 + fLastIdx (cfgNow s)
  | .stream => 1 + fLastIdx (cfgNow s) - s.rdIdx

/-- The walk still comes to context `k`, or is at it. -/
def ahead (s : State) (k : CtxId) : Prop :=
  s.streamIdx.val < k.val ∨ (s.streamIdx = k ∧ s.fsm ≠ .skip)

instance (s : State) (k : CtxId) : Decidable (ahead s k) :=
  inferInstanceAs (Decidable (_ ∨ _))

/-- Cycles until the last word of the packet of a pending context `k` is accepted. -/
def distance (s : State) (k : CtxId) : Nat :=
  if s.fsm = .idle then 1 + before (cfgs s) (k.val + 1)
  else if ahead s k then
    remaining s + (before (cfgs s) (k.val + 1) - before (cfgs s) (s.streamIdx.val + 1))
  else
    remaining s + (before (cfgs s) 6 - before (cfgs s) (s.streamIdx.val + 1)) + 1 +
      before (cfgs s) (k.val + 1)

/-- The counters of the builder lie in the frame. -/
def Placed (s : State) : Prop := Admissible s ∧ ∃ f, Assembled s f

theorem placed_step {s : State} {i : Input} (h : Placed s) (hsafe : FrameSafe s i) :
    Placed (step s i) := by
  obtain ⟨hadm, f, hf⟩ := h
  exact ⟨admissible_step hadm hsafe, Frame.next s i f, assembled_step hf hadm hsafe⟩

section Distance

variable {s : State} {i : Input} {k : CtxId}

theorem cfgs_step (hcfg : i.flowCfgRe = false) : cfgs (step s i) = cfgs s := by
  funext k
  show (nextCtx s i k).cfg = (s.ctx k).cfg
  simp [nextCtx_cfg, hcfg]

/-- The builder stays with its context and gets a cycle further. -/
theorem distance_stay {s' : State} (hcfg : cfgs s' = cfgs s) (hidx : s'.streamIdx = s.streamIdx)
    (hidle : s.fsm ≠ .idle) (hidle' : s'.fsm ≠ .idle)
    (hskip : s.streamIdx = k → s.fsm ≠ .skip ∧ s'.fsm ≠ .skip)
    (hless : remaining s' + 1 ≤ remaining s) : distance s' k + 1 ≤ distance s k := by
  have hahead : ahead s' k ↔ ahead s k := by
    rw [ahead, ahead, hidx]
    refine or_congr Iff.rfl ⟨fun h => ⟨h.1, (hskip h.1).1⟩, fun h => ⟨h.1, (hskip h.1).2⟩⟩
  rw [distance, distance, if_neg hidle, if_neg hidle', hcfg, hidx]
  by_cases h : ahead s k
  · rw [if_pos h, if_pos (hahead.2 h)]
    omega
  · rw [if_neg h, if_neg fun h' => h (hahead.1 h')]
    omega

theorem distance_check {s' : State} (hfsm : s'.fsm = .check) :
    distance s' k =
      if s'.streamIdx.val ≤ k.val then
        before (cfgs s') (k.val + 1) - before (cfgs s') s'.streamIdx.val
      else before (cfgs s') 6 - before (cfgs s') s'.streamIdx.val + 1 +
        before (cfgs s') (k.val + 1) := by
  have hcost : before (cfgs s') (s'.streamIdx.val + 1) =
      before (cfgs s') s'.streamIdx.val + cost (cfgNow s') := before_succ s'.streamIdx
  have hrem : remaining s' = cost (cfgNow s') := by simp only [remaining, hfsm]
  have hahead : ahead s' k ↔ s'.streamIdx.val ≤ k.val := by
    simp only [ahead, hfsm, ne_eq, reduceCtorEq, not_false_eq_true, and_true, Fin.ext_iff]
    omega
  rw [distance, if_neg (by simp [hfsm]), hrem]
  by_cases h : s'.streamIdx.val ≤ k.val
  · have hle : before (cfgs s') (s'.streamIdx.val + 1) ≤ before (cfgs s') (k.val + 1) :=
      before_mono (by omega)
    rw [if_pos (hahead.2 h), if_pos h]
    omega
  · have hle : before (cfgs s') (s'.streamIdx.val + 1) ≤ before (cfgs s') 6 := before_mono (by omega)
    rw [if_neg fun h' => h (hahead.1 h'), if_neg h]
    omega

/-- The builder leaves a context that is not the end of the wait for `k`. -/
theorem distance_leave {s' : State} (hcfg : cfgs s' = cfgs s) (hidle : s.fsm ≠ .idle)
    (hrem : 1 ≤ remaining s) (hnot : s.streamIdx = k → s.fsm = .skip)
    (hnext : (s.streamIdx.val < 5 ∧ s'.fsm = .check ∧ s'.streamIdx.val = s.streamIdx.val + 1) ∨
      (s.streamIdx.val = 5 ∧ s'.fsm = .idle)) :
    distance s' k + 1 ≤ distance s k := by
  have hahead : ahead s k ↔ s.streamIdx.val < k.val := by
    refine ⟨fun h => ?_, Or.inl⟩
    rcases h with h | ⟨h, hskip⟩
    · exact h
    · exact absurd (hnot h) hskip
  have hself : distance s k =
      if s.streamIdx.val < k.val then
        remaining s + (before (cfgs s) (k.val + 1) - before (cfgs s) (s.streamIdx.val + 1))
      else remaining s + (before (cfgs s) 6 - before (cfgs s) (s.streamIdx.val + 1)) + 1 +
        before (cfgs s) (k.val + 1) := by
    rw [distance, if_neg hidle]
    exact if_congr hahead rfl rfl
  have hk := k.isLt
  rcases hnext with ⟨hlt, hfsm, hidx⟩ | ⟨hlast, hfsm⟩
  · rw [distance_check hfsm, hidx, hcfg, hself]
    by_cases h : s.streamIdx.val < k.val
    · rw [if_pos h, if_pos (by omega)]
      omega
    · rw [if_neg h, if_neg (by omega)]
      omega
  · rw [distance, if_pos hfsm, hcfg, hself, if_neg (by omega)]
    omega

theorem nextStreamIdx_advance (hidle : s.fsm ≠ .idle) (h : advance s i = true) :
    s.streamIdx.val < 5 ∧ (nextStreamIdx s i).val = s.streamIdx.val + 1 := by
  have hne : s.streamIdx ≠ 5 := by
    simp only [advance, Bool.and_eq_true, bne_iff_ne] at h
    exact h.2
  have hlt : s.streamIdx.val < 5 := by
    have := s.streamIdx.isLt
    have : s.streamIdx.val ≠ 5 := fun hval => hne (Fin.ext hval)
    omega
  rw [nextStreamIdx, walkStart_of_ne hidle, h]
  refine ⟨hlt, ?_⟩
  show (s.streamIdx + 1).val = _
  rw [Fin.val_add]
  show (s.streamIdx.val + 1) % 6 = _
  omega

/-- The builder is with a packet, or takes one up in this cycle. -/
def OnPacket (s : State) : Prop :=
  s.fsm = .check ∧ flowOff s = false ∧ (cur s).pend = true ∨ inFlight s = true

/-- Up to its last word a packet gets on by one cycle in each cycle. -/
theorem packet_step (h : Placed s) (hcfg : i.flowCfgRe = false) (hready : i.sourceReady = true)
    (hon : OnPacket s) (hserve : serveNow s i = false) :
    (step s i).streamIdx = s.streamIdx ∧ inFlight (step s i) = true ∧
      remaining (step s i) + 1 = remaining s := by
  obtain ⟨hadm, f, hf⟩ := h
  have hidx : (step s i).streamIdx = s.streamIdx := by
    refine nextStreamIdx_of_ne (fun hfsm => ?_) ?_
    · simp [OnPacket, inFlight, hfsm] at hon
    · cases hfsm : s.fsm <;> simp_all [OnPacket, inFlight, advance]
  have hsame : cfgNow (step s i) = cfgNow s := by
    show cfgs (step s i) (step s i).streamIdx = _
    rw [cfgs_step hcfg, hidx]
    rfl
  obtain ⟨half, hhalf, htotal, hshape⟩ := shape_of_le (hadm s.streamIdx)
  have htotal' : fTotal (cfgNow s) = 51 + 2 * half := htotal
  have hshape' : fLastIdx (cfgNow s) = 12 + half / 2 := hshape
  refine ⟨hidx, ?_⟩
  cases hfsm : s.fsm with
  | idle => simp [OnPacket, inFlight, hfsm] at hon
  | skip => simp [OnPacket, inFlight, hfsm] at hon
  | check =>
    have htake : flowOff s = false ∧ (cur s).pend = true := by
      simpa [OnPacket, inFlight, hfsm] using hon
    have hon : nslots (cfgNow s) ≠ 0 := by simpa [flowOff] using htake.1
    have hnext : (step s i).fsm = .build := by simp [nextFsm, hfsm, htake.1, htake.2]
    have hbyte : (step s i).byteIdx = 0 := by
      have hzero : s.byteIdx = 0 := by
        simp only [Assembled, hfsm] at hf
        exact hf.1
      simp [nextByteIdx, restart_of_ne, hfsm, hzero]
    refine ⟨by rw [inFlight, hnext]; rfl, ?_⟩
    simp only [remaining, hnext, hfsm, hsame, hbyte, cost, hon, if_false]
    omega
  | build =>
    have hbuilding : Building s f := by simpa only [Assembled, hfsm] using hf
    have hlt := hbuilding.lt
    cases hlast : isLast s with
    | false =>
      have hnext : (step s i).fsm = .build := by simp [nextFsm_build hfsm, hlast]
      refine ⟨by rw [inFlight, hnext]; rfl, ?_⟩
      simp only [remaining, hnext, hfsm, hsame, byteIdx_build hfsm hlast (by omega)]
      omega
    | true =>
      have hnext : (step s i).fsm = .prefetch := by simp [nextFsm_build hfsm, hlast]
      have hend : s.byteIdx + 1 = fTotal (cfgNow s) := by
        rw [isLast_eq (hadm s.streamIdx)] at hlast
        exact of_decide_eq_true hlast
      refine ⟨by rw [inFlight, hnext]; rfl, ?_⟩
      simp only [remaining, hnext, hfsm, hsame]
      omega
  | prefetch =>
    have hrd : s.rdIdx = 0 := by
      simp only [Assembled, hfsm] at hf
      exact hf.2
    have hnext : (step s i).fsm = .stream := by simp [nextFsm, hfsm]
    have hrd' : (step s i).rdIdx = 0 := by simp [nextRdIdx, hfsm, hrd]
    refine ⟨by rw [inFlight, hnext]; rfl, ?_⟩
    simp only [remaining, hnext, hfsm, hsame, hrd']
    omega
  | stream =>
    have hle : s.rdIdx ≤ fLastIdx (cfgNow s) := by
      simp only [Assembled, hfsm] at hf
      exact hf.2.le
    -- the MAC is ready, so only the last word could end the packet here
    have hlast : sourceLast s = false := by simpa [serveNow, hfsm, hready] using hserve
    have hne : s.rdIdx ≠ fLastIdx (cfgNow s) := by simpa [sourceLast, cfgNow] using hlast
    have hnext : (step s i).fsm = .stream := by simp [nextFsm_stream hfsm, hserve]
    have hwrap : (s.rdIdx + 1) % 512 = s.rdIdx + 1 := Nat.mod_eq_of_lt (by omega)
    have hrd : (step s i).rdIdx = s.rdIdx + 1 := by
      simp [nextRdIdx, hfsm, hready, hlast, hwrap]
    refine ⟨by rw [inFlight, hnext]; rfl, ?_⟩
    simp only [remaining, hnext, hfsm, hsame, hrd]
    omega

/-- One cycle brings a pending context one cycle closer to the end of its packet. -/
theorem distance_step (h : Placed s) (hcfg : i.flowCfgRe = false) (hready : i.sourceReady = true)
    (hpend : (s.ctx k).pend = true) (hbound : nslots (s.ctx k).cfg ≠ 0)
    (hserved : served s i k = false) : distance (step s i) k + 1 ≤ distance s k := by
  have hcfgs := cfgs_step (s := s) hcfg
  have hcost := two_le_cost (cfgNow s)
  have hpacket : OnPacket s → s.fsm ≠ .idle → s.fsm ≠ .skip → serveNow s i = false →
      distance (step s i) k + 1 ≤ distance s k := by
    intro hon hidle hskip hserve
    obtain ⟨hidx, hflight, hrem⟩ := packet_step h hcfg hready hon hserve
    have hin : (step s i).fsm ≠ .idle ∧ (step s i).fsm ≠ .skip := by
      constructor <;> intro hfsm <;> rw [inFlight, hfsm] at hflight <;> cases hflight
    exact distance_stay hcfgs hidx hidle hin.1 (fun _ => ⟨hskip, hin.2⟩) (Nat.le_of_eq hrem)
  cases hfsm : s.fsm with
  | idle =>
    have hany : anyPend s = true := decide_eq_true ⟨k, hpend⟩
    have hnext : (step s i).fsm = .check := by simp [nextFsm, hfsm, hany]
    have hidx : (step s i).streamIdx = 0 := by simp [nextStreamIdx, walkStart, hfsm, hany]
    have hzero : before (cfgs s) (0 : CtxId).val = 0 := rfl
    have hfirst : (0 : CtxId).val ≤ k.val := Nat.zero_le _
    rw [distance_check hnext, hidx, hcfgs, distance, if_pos hfsm, if_pos hfirst, hzero]
    omega
  | skip =>
    refine distance_leave hcfgs (by simp [hfsm]) (by simp [remaining, hfsm]) (fun _ => hfsm) ?_
    by_cases hend : s.streamIdx = 5
    · exact Or.inr ⟨by rw [hend]; rfl, by simp [nextFsm, hfsm, hend]⟩
    · obtain ⟨hlt, hidx⟩ := nextStreamIdx_advance (s := s) (i := i) (by simp [hfsm])
        (by simp [advance, hfsm, hend])
      exact Or.inl ⟨hlt, by simp [nextFsm, hfsm, hend], hidx⟩
  | check =>
    by_cases hskip : (flowOff s || !(cur s).pend) = true
    · -- a context with nothing to send: it is not `k`, which is bound and pending
      have hidx : (step s i).streamIdx = s.streamIdx := nextStreamIdx_of_ne (by simp [hfsm])
        (advance_of_ne (by simp [hfsm]) (by simp [hfsm]))
      have hnext : (step s i).fsm = .skip := by
        rw [step_fsm, nextFsm, hfsm]
        exact if_pos hskip
      have hother : s.streamIdx ≠ k := by
        rintro rfl
        have hp : (cur s).pend = true := hpend
        simp only [flowOff, hp, Bool.not_true, Bool.or_false, beq_iff_eq] at hskip
        exact hbound hskip
      refine distance_stay hcfgs hidx (by rw [hfsm]; decide) (by rw [hnext]; decide)
        (fun hk => absurd hk hother) ?_
      simp only [remaining, hnext, hfsm]
      omega
    · refine hpacket (.inl ⟨hfsm, ?_⟩) (by simp [hfsm]) (by simp [hfsm])
        (serveNow_of_ne (by simp [hfsm]))
      simpa using hskip
  | build =>
    exact hpacket (.inr (by simp [inFlight, hfsm])) (by simp [hfsm]) (by simp [hfsm])
      (serveNow_of_ne (by simp [hfsm]))
  | prefetch =>
    exact hpacket (.inr (by simp [inFlight, hfsm])) (by simp [hfsm]) (by simp [hfsm])
      (serveNow_of_ne (by simp [hfsm]))
  | stream =>
    cases hserve : serveNow s i with
    | false => exact hpacket (.inr (by simp [inFlight, hfsm])) (by simp [hfsm]) (by simp [hfsm]) hserve
    | true =>
      -- the last word of another context's packet
      have hother : s.streamIdx ≠ k := by
        intro hk
        simp [served, hserve, hk] at hserved
      have hle : s.rdIdx ≤ fLastIdx (cfgNow s) := by
        obtain ⟨-, f, hf⟩ := h
        simp only [Assembled, hfsm] at hf
        exact hf.2.le
      refine distance_leave hcfgs (by simp [hfsm]) ?_ (fun hk => absurd hk hother) ?_
      · simp only [remaining, hfsm]
        omega
      · by_cases hend : s.streamIdx = 5
        · exact Or.inr ⟨by rw [hend]; rfl, by simp [nextFsm_stream hfsm, hserve, hend]⟩
        · obtain ⟨hlt, hidx⟩ := nextStreamIdx_advance (s := s) (i := i) (by simp [hfsm])
            (by simp [advance, hserve, hend])
          exact Or.inl ⟨hlt, by simp [nextFsm_stream hfsm, hserve, hend], hidx⟩

theorem one_le_distance (h : Placed s) : 1 ≤ distance s k := by
  obtain ⟨-, f, hf⟩ := h
  have hrem : 1 ≤ remaining s := by
    have hcost := two_le_cost (cfgNow s)
    cases hfsm : s.fsm with
    | stream =>
      have hle : s.rdIdx ≤ fLastIdx (cfgNow s) := by
        simp only [Assembled, hfsm] at hf
        exact hf.2.le
      simp only [remaining, hfsm]
      omega
    | _ => simp only [remaining, hfsm]; omega
  rw [distance]
  split
  · omega
  · split <;> omega

/-- A frame in flight takes no longer than its context's share of the walk. -/
theorem remaining_le_cost (h : Placed s) (hflight : inFlight s = true → nslots (cfgNow s) ≠ 0) :
    remaining s ≤ cost (cfgNow s) := by
  obtain ⟨-, f, hf⟩ := h
  have hcost := two_le_cost (cfgNow s)
  have hshare : inFlight s = true →
      cost (cfgNow s) = 3 + fTotal (cfgNow s) + fLastIdx (cfgNow s) := fun hf =>
    if_neg (hflight hf)
  cases hfsm : s.fsm with
  | build =>
    have := hshare (by simp [inFlight, hfsm])
    simp only [remaining, hfsm]
    omega
  | prefetch =>
    have := hshare (by simp [inFlight, hfsm])
    simp only [remaining, hfsm]
    omega
  | stream =>
    have := hshare (by simp [inFlight, hfsm])
    simp only [remaining, hfsm]
    omega
  | _ => simp only [remaining, hfsm]; omega

/-- No wait is longer than a whole walk. -/
theorem distance_le (h : Placed s) (hflight : inFlight s = true → nslots (cfgNow s) ≠ 0) :
    distance s k ≤ walkTime (cfgs s) := by
  have hrem := remaining_le_cost h hflight
  have hself : before (cfgs s) (s.streamIdx.val + 1) =
      before (cfgs s) s.streamIdx.val + cost (cfgNow s) := before_succ s.streamIdx
  have hk := k.isLt
  have hj := s.streamIdx.isLt
  have hall : before (cfgs s) (k.val + 1) ≤ before (cfgs s) 6 := before_mono (by omega)
  have hwhole : before (cfgs s) (s.streamIdx.val + 1) ≤ before (cfgs s) 6 := before_mono (by omega)
  rw [distance, walkTime]
  split
  · omega
  · split
    · rename_i hahead
      have hle : s.streamIdx.val ≤ k.val := by
        rcases hahead with hlt | ⟨heq, -⟩
        · omega
        · rw [heq]
      have : before (cfgs s) (s.streamIdx.val + 1) ≤ before (cfgs s) (k.val + 1) :=
        before_mono (by omega)
      omega
    · rename_i hbehind
      by_cases heq : s.streamIdx = k
      · have hskip : s.fsm = .skip := by
          by_contra hne
          exact hbehind (Or.inr ⟨heq, hne⟩)
        have hone : remaining s = 1 := by simp only [remaining, hskip]
        rw [heq] at hwhole ⊢
        omega
      · have hlt : k.val < s.streamIdx.val := by
          have : s.streamIdx.val ≠ k.val := fun hval => heq (Fin.ext hval)
          have : ¬ s.streamIdx.val < k.val := fun hval => hbehind (Or.inl hval)
          omega
        have : before (cfgs s) (k.val + 1) ≤ before (cfgs s) s.streamIdx.val := before_mono (by omega)
        omega

end Distance

/-! ## Schedulability -/

/-- System cycles between two media strobes, at least. -/
def strobeGap : Nat := 1042

/-- The strobes among the inputs are at least `strobeGap` cycles apart, `since` cycles after the
last one before them. -/
def Spaced : Nat → List Input → Prop
  | _, [] => True
  | since, i :: is =>
      (i.sampleStrobe = true → strobeGap ≤ since) ∧
        Spaced (if i.sampleStrobe then 1 else since + 1) is

instance Spaced.decidable : ∀ (since : Nat) (is : List Input), Decidable (Spaced since is)
  | _, [] => inferInstanceAs (Decidable True)
  | since, i :: is =>
      have := Spaced.decidable (if i.sampleStrobe then 1 else since + 1) is
      inferInstanceAs (Decidable (_ ∧ Spaced _ is))

/-- One walk over all contexts fits into the group of every bound context. -/
def Schedulable (cfg : CtxId → Byte) : Prop :=
  ∀ k, nslots (cfg k) ≠ 0 → walkTime cfg ≤ strobeGap * fpp (cfg k)

instance (cfg : CtxId → Byte) : Decidable (Schedulable cfg) :=
  inferInstanceAs (Decidable (∀ _, _))

/-- The MAC takes a word per cycle and no context is rewritten. -/
def Steadfast (i : Input) : Prop := i.sourceReady = true ∧ i.flowCfgRe = false

instance (i : Input) : Decidable (Steadfast i) := inferInstanceAs (Decidable (_ ∧ _))

/-- A pending context has used no more of its group than the wait for its packet leaves. -/
structure Timed (s : State) (since : Nat) : Prop where
  phase : ∀ k, (s.ctx k).phase < fpp (s.ctx k).cfg
  meets : ∀ k, (s.ctx k).pend = true →
    distance s k + strobeGap * (s.ctx k).phase + since ≤ walkTime (cfgs s) + 1

section Schedule

variable {s : State} {i : Input} {h : History} {since : Nat}

theorem bound_inFlight (hb : Balanced s h) (hflight : inFlight s = true) :
    nslots (cfgNow s) ≠ 0 :=
  hb.bound s.streamIdx (hb.flight hflight)

/-- A group that is complete has left its context enough cycles for the packet before. -/
theorem dueSafe_of_timed (hp : Placed s) (hb : Balanced s h) (ht : Timed s since)
    (hsched : Schedulable (cfgs s)) (hi : Steadfast i)
    (hgap : i.sampleStrobe = true → strobeGap ≤ since) : DueSafe s i := by
  refine ⟨fun k hdue => ?_, fun hwrite => absurd hi.2 (by rw [hwrite]; decide)⟩
  by_contra hlost
  rw [not_or] at hlost
  have hpend : (s.ctx k).pend = true := by simpa using hlost.1
  have hserved : served s i k = false := by simpa using hlost.2
  have hmeets := ht.meets k hpend
  have hfit : walkTime (cfgs s) ≤ strobeGap * fpp (s.ctx k).cfg := hsched k (hb.bound k hpend)
  simp only [dueEvent, strobe, due, Bool.and_eq_true, beq_iff_eq] at hdue
  have hsince := hgap hdue.1.1
  have hphase := hdue.2.2
  have hfpp := fpp_pos (s.ctx k).cfg
  have hgroup : strobeGap * (s.ctx k).phase + strobeGap = strobeGap * fpp (s.ctx k).cfg := by
    rw [hphase, ← Nat.mul_succ]
    congr 1
    omega
  have hnext := distance_step hp hi.2 hi.1 hpend (hb.bound k hpend) hserved
  have hpos := one_le_distance (k := k) (placed_step (i := i) hp fun hw =>
    absurd hi.2 (by rw [hw]; decide))
  omega

theorem nextCtx_phase (hcfg : i.flowCfgRe = false) (k : CtxId) :
    (nextCtx s i k).phase =
      if strobe i then
        if (s.ctx k).phase = fpp (s.ctx k).cfg - 1 then 0 else ((s.ctx k).phase + 1) % 64
      else (s.ctx k).phase := by
  simp [nextCtx, nextPhase, hcfg]

/-- A strobe uses up a sample of the group, and the wait has become shorter by as much. -/
theorem meets_strobe {d d' p w : Nat} (hnext : d' + 1 ≤ d)
    (hmeets : d + strobeGap * p + since ≤ w + 1) (hsince : strobeGap ≤ since) :
    d' + strobeGap * (p + 1) + 1 ≤ w + 1 := by
  rw [Nat.mul_succ]
  omega

theorem timed_step (hp : Placed s) (hb : Balanced s h) (ht : Timed s since)
    (hsched : Schedulable (cfgs s)) (hi : Steadfast i)
    (hgap : i.sampleStrobe = true → strobeGap ≤ since) :
    Timed (step s i) (if i.sampleStrobe then 1 else since + 1) := by
  have hcfgs : cfgs (step s i) = cfgs s := cfgs_step hi.2
  have hcfg : ∀ k, (nextCtx s i k).cfg = (s.ctx k).cfg := fun k => congrFun hcfgs k
  have hsafe := dueSafe_of_timed hp hb ht hsched hi hgap
  refine ⟨fun k => ?_, fun k hpend => ?_⟩
  · have hphase := ht.phase k
    have hle := fpp_le (s.ctx k).cfg
    show (nextCtx s i k).phase < fpp (nextCtx s i k).cfg
    rw [hcfg, nextCtx_phase hi.2]
    split
    · split
      · omega
      · rw [Nat.mod_eq_of_lt (by omega)]
        omega
    · exact hphase
  · rw [hcfgs]
    have hpend' : (nextCtx s i k).pend = true := hpend
    rw [nextCtx_pend] at hpend'
    show distance (step s i) k + strobeGap * (nextCtx s i k).phase + _ ≤ _
    rw [nextCtx_phase hi.2]
    cases hdue : dueEvent s i k with
    | true =>
      have hp' : Placed (step s i) := placed_step hp fun hw => absurd hi.2 (by rw [hw]; decide)
      have hle := distance_le (k := k) hp' (bound_inFlight (balanced_step hb hsafe))
      rw [hcfgs] at hle
      simp only [dueEvent, strobe, due, Bool.and_eq_true, beq_iff_eq] at hdue
      rw [if_pos (by simp [strobe, hdue.1]), if_pos hdue.2.2, if_pos hdue.1.1]
      omega
    | false =>
      rw [hdue] at hpend'
      have hserved : served s i k = false := by
        by_contra hserved
        rw [Bool.not_eq_false] at hserved
        rw [hserved] at hpend'
        cases hpend'
      rw [hserved] at hpend'
      have hold : (s.ctx k).pend = true := hpend'
      have hbound := hb.bound k hold
      have hmeets := ht.meets k hold
      have hnext := distance_step hp hi.2 hi.1 hold hbound hserved
      cases hstrobe : strobe i with
      | false =>
        simp only [Bool.false_eq_true, if_false]
        split <;> omega
      | true =>
        have hsample : i.sampleStrobe = true := by
          simp only [strobe, Bool.and_eq_true] at hstrobe
          exact hstrobe.1
        have hphase : (s.ctx k).phase ≠ fpp (s.ctx k).cfg - 1 := by
          intro heq
          simp [dueEvent, due, hstrobe, hbound, heq] at hdue
        have hsince := hgap hsample
        have hlt := ht.phase k
        have hle := fpp_le (s.ctx k).cfg
        rw [if_pos rfl, if_neg hphase, if_pos hsample, Nat.mod_eq_of_lt (by omega)]
        exact meets_strobe hnext hmeets hsince

/-- Contexts at rest: nothing pending, the builder idle, every phase within its group. -/
structure Settled (s : State) : Prop where
  admissible : Admissible s
  idle : s.fsm = .idle
  free : ∀ k, (s.ctx k).pend = false
  phase : ∀ k, (s.ctx k).phase < fpp (s.ctx k).cfg

theorem Settled.placed (hs : Settled s) : Placed s :=
  ⟨hs.admissible, Frame.empty, by simp [Assembled, hs.idle]⟩

theorem Settled.balanced (hs : Settled s) : Balanced s fun _ => [] where
  alternates := fun _ => by decide
  pend := fun k => (hs.free k).symm
  flight := fun hflight => by simp [inFlight, hs.idle] at hflight
  bound := fun k hpend => by simp [hs.free k] at hpend

theorem Settled.timed (hs : Settled s) (since : Nat) : Timed s since :=
  ⟨hs.phase, fun k hpend => by simp [hs.free k] at hpend⟩

theorem dueSafe_run (is : List Input) :
    ∀ {s : State} {h : History} {since : Nat}, Placed s → Balanced s h → Timed s since →
      Schedulable (cfgs s) → (∀ i ∈ is, Steadfast i) → Spaced since is →
      Along step DueSafe s is := by
  induction is with
  | nil => exact fun _ _ _ _ _ _ => trivial
  | cons i is ih =>
    intro s h since hp hb ht hsched hsteady hspaced
    have hi : Steadfast i := hsteady i (by simp)
    have hsafe := dueSafe_of_timed hp hb ht hsched hi hspaced.1
    refine ⟨hsafe, ih (placed_step hp fun hw => absurd hi.2 (by rw [hw]; decide))
      (balanced_step hb hsafe) (timed_step hp hb ht hsched hi hspaced.1) ?_
      (fun j hj => hsteady j (by simp [hj])) hspaced.2⟩
    rw [cfgs_step hi.2]
    exact hsched

end Schedule

/-! ## Back to `IDLE` -/

/-- Cycles until a walk that finds nothing pending is over. -/
def walkLeft (s : State) : Nat :=
  match s.fsm with
  | .check => 2 * (6 - s.streamIdx.val)
  | .skip => 2 * (6 - s.streamIdx.val) - 1
  | _ => 0

/-- No frame in flight and nothing pending. -/
def AtRest (s : State) : Prop := inFlight s = false ∧ ∀ k, (s.ctx k).pend = false

/-- No context completes a group on this cycle. -/
def NoDue (s : State) (i : Input) : Prop := ∀ k, dueEvent s i k = false

instance (s : State) (i : Input) : Decidable (NoDue s i) := inferInstanceAs (Decidable (∀ _, _))

section Rest

variable {s : State} {i : Input}

theorem atRest_step (h : AtRest s) (hdue : NoDue s i) :
    AtRest (step s i) ∧ walkLeft (step s i) ≤ walkLeft s - 1 := by
  obtain ⟨hflight, hfree⟩ := h
  have hpend : ∀ k, ((step s i).ctx k).pend = false := by
    intro k
    rw [step_ctx, nextCtx_pend, hdue k, hfree k]
    simp
  have hcur : (cur s).pend = false := hfree s.streamIdx
  have hany : anyPend s = false := decide_eq_false (by simp [hfree])
  cases hfsm : s.fsm with
  | idle =>
    have hnext : (step s i).fsm = .idle := by simp [nextFsm, hfsm, hany]
    refine ⟨⟨by rw [inFlight, hnext]; rfl, hpend⟩, ?_⟩
    simp only [walkLeft, hnext, hfsm]
    omega
  | check =>
    have hnext : (step s i).fsm = .skip := by
      rw [step_fsm, nextFsm, hfsm]
      exact if_pos (by simp [hcur])
    have hidx : (step s i).streamIdx = s.streamIdx := nextStreamIdx_of_ne (by simp [hfsm])
      (advance_of_ne (by simp [hfsm]) (by simp [hfsm]))
    refine ⟨⟨by rw [inFlight, hnext]; rfl, hpend⟩, ?_⟩
    simp only [walkLeft, hnext, hfsm, hidx]
    exact le_rfl
  | skip =>
    by_cases hend : s.streamIdx = 5
    · have hnext : (step s i).fsm = .idle := by simp [nextFsm, hfsm, hend]
      refine ⟨⟨by rw [inFlight, hnext]; rfl, hpend⟩, ?_⟩
      simp only [walkLeft, hnext]
      omega
    · have hnext : (step s i).fsm = .check := by simp [nextFsm, hfsm, hend]
      obtain ⟨hlt, hidx⟩ := nextStreamIdx_advance (s := s) (i := i) (by simp [hfsm])
        (by simp [advance, hfsm, hend])
      have hidx' : (step s i).streamIdx.val = s.streamIdx.val + 1 := hidx
      refine ⟨⟨by rw [inFlight, hnext]; rfl, hpend⟩, ?_⟩
      simp only [walkLeft, hnext, hfsm, hidx']
      omega
  | build => simp [inFlight, hfsm] at hflight
  | prefetch => simp [inFlight, hfsm] at hflight
  | stream => simp [inFlight, hfsm] at hflight

theorem atRest_run (is : List Input) :
    ∀ {s : State}, AtRest s → Along step NoDue s is →
      AtRest (run step s is) ∧ walkLeft (run step s is) ≤ walkLeft s - is.length := by
  induction is with
  | nil => exact fun h _ => ⟨h, le_rfl⟩
  | cons i is ih =>
    intro s h hdue
    obtain ⟨hrest, hleft⟩ := atRest_step h hdue.1
    obtain ⟨hrest', hleft'⟩ := ih hrest hdue.2
    refine ⟨hrest', ?_⟩
    rw [run_cons, List.length_cons]
    omega

theorem walkLeft_le (s : State) : walkLeft s ≤ 12 := by
  have hj := s.streamIdx.isLt
  cases hfsm : s.fsm <;> simp only [walkLeft, hfsm] <;> omega

/-- A walk that finds nothing pending is over after twelve cycles. -/
theorem idle_of_atRest {is : List Input} (h : AtRest s) (hdue : Along step NoDue s is)
    (hlen : 12 ≤ is.length) : (run step s is).fsm = .idle := by
  obtain ⟨⟨hflight, -⟩, hleft⟩ := atRest_run is h hdue
  have hbound : walkLeft s ≤ 12 := walkLeft_le s
  have hzero : walkLeft (run step s is) = 0 := by omega
  generalize run step s is = s' at hflight hzero
  have hj := s'.streamIdx.isLt
  cases hfsm : s'.fsm with
  | idle => rfl
  | check =>
    simp only [walkLeft, hfsm] at hzero
    omega
  | skip =>
    simp only [walkLeft, hfsm] at hzero
    omega
  | build => simp [inFlight, hfsm] at hflight
  | prefetch => simp [inFlight, hfsm] at hflight
  | stream => simp [inFlight, hfsm] at hflight

end Rest

/-! ## A bit that nothing clears -/

/-- Every context is unbound, but the due event of context `k` is still pending. -/
structure Stranded (k : CtxId) (s : State) : Prop where
  unbound : ∀ j, nslots (s.ctx j).cfg = 0
  pend : (s.ctx k).pend = true
  flight : inFlight s = false

/-- The walk skips the unbound context and leaves its bit set. -/
theorem stranded_step {s : State} {i : Input} {k : CtxId} (h : Stranded k s)
    (hcfg : i.flowCfgRe = false) : Stranded k (step s i) ∧ ∀ j, dueEvent s i j = false := by
  have hdue : ∀ j, dueEvent s i j = false := fun j => by simp [dueEvent, due, h.unbound j]
  have hserved : ∀ j, served s i j = false := by
    intro j
    by_contra hsv
    have hflight := (served_inFlight (by simpa using hsv)).1
    rw [h.flight] at hflight
    cases hflight
  refine ⟨⟨fun j => ?_, ?_, ?_⟩, hdue⟩
  · rw [step_ctx, nextCtx_cfg, hcfg]
    simpa using h.unbound j
  · rw [step_ctx, nextCtx_pend, hdue k, hserved k]
    simpa using h.pend
  · by_contra hflight
    obtain ⟨-, -, hfrom⟩ := inFlight_step (by simpa using hflight)
    rcases hfrom with hbefore | ⟨hfsm, -⟩
    · rw [h.flight] at hbefore
      cases hbefore
    · have hoff : flowOff s = true := by simp [flowOff, cfgNow, cur, h.unbound]
      have hnext : (step s i).fsm = .skip := by
        rw [step_fsm, nextFsm, hfsm]
        exact if_pos (by simp [hoff])
      rw [inFlight, hnext] at hflight
      exact hflight rfl

theorem stranded_run {k : CtxId} (is : List Input) (hcfg : ∀ i ∈ is, i.flowCfgRe = false) :
    ∀ {p : State × History}, Stranded k p.1 →
      Stranded k (run historied p is).1 ∧ (run historied p is).2 k = p.2 k := by
  induction is with
  | nil => exact fun h => ⟨h, rfl⟩
  | cons i is ih =>
    intro p h
    obtain ⟨hnext, hdue⟩ := stranded_step h (hcfg i (by simp))
    obtain ⟨hend, hsame⟩ := ih (fun j hj => hcfg j (by simp [hj])) (p := historied p i) hnext
    refine ⟨hend, hsame.trans ?_⟩
    have hserved : served p.1 i k = false := by
      by_contra hsv
      have hflight := (served_inFlight (by simpa using hsv)).1
      rw [h.flight] at hflight
      cases hflight
    show p.2 k ++ _ ++ _ = p.2 k
    rw [hserved, hdue k]
    simp

/-! ## The due law -/

theorem balanced_run {is : List Input} :
    ∀ {p : State × History}, Balanced p.1 p.2 → Along step DueSafe p.1 is →
      Balanced (run historied p is).1 (run historied p is).2 := by
  induction is with
  | nil => exact fun h _ => h
  | cons i is ih => exact fun h hsafe => ih (p := historied _ i) (balanced_step h hsafe.1) hsafe.2

/-- (1) In every run from reset without a group completed while its context is pending and
without an unbind of a pending context, due events and packets of each context alternate, an
unbound context has nothing pending, and once nothing is pending the builder returns to `IDLE`
within twelve cycles and stays there until the next due event.  (2) From rest, with a MAC that
takes a word per cycle and strobes `strobeGap` cycles apart, contexts that are not rewritten
meet the condition for ever as long as one walk over all of them fits into each one's group. -/
theorem due_answered (is : List Input) (s : State) (js : List Input) :
    (Along step DueSafe State.reset is →
      (∀ k, Alternates ((historyAfter is).2 k) ∧
        (((historyAfter is).2 k).getLastD false = ((historyAfter is).1.ctx k).pend) ∧
        (nslots ((historyAfter is).1.ctx k).cfg = 0 →
          ((historyAfter is).1.ctx k).pend = false)) ∧
      ∀ ks, (∀ k, ((historyAfter is).1.ctx k).pend = false) →
        Along step NoDue (historyAfter is).1 ks → 12 ≤ ks.length →
        (run step (historyAfter is).1 ks).fsm = .idle) ∧
    (Settled s → Schedulable (cfgs s) → (∀ i ∈ js, Steadfast i) → Spaced strobeGap js →
      Along step DueSafe s js) := by
  refine ⟨fun hsafe => ?_, fun hs hsched hsteady hspaced => ?_⟩
  · have hb : Balanced (historyAfter is).1 (historyAfter is).2 :=
      balanced_run (p := (State.reset, fun _ => [])) balanced_reset hsafe
    refine ⟨fun k => ⟨hb.alternates k, hb.pend k, fun hzero => ?_⟩, fun ks hfree hdue hlen => ?_⟩
    · by_contra hpend
      exact hb.bound k (by simpa using hpend) hzero
    · have hflight : inFlight (historyAfter is).1 = false := by
        by_contra hflight
        have hpend := hb.flight (by simpa using hflight)
        rw [show (cur (historyAfter is).1).pend = false from hfree _] at hpend
        cases hpend
      exact idle_of_atRest ⟨hflight, hfree⟩ hdue hlen
  · exact dueSafe_run js hs.placed hs.balanced (hs.timed strobeGap) hsched hsteady hspaced

/-- A mono flow of 4 samples whose group is complete at the first strobe. -/
def answeredRun : List Input :=
  [Input.bind 0 0x51 3 0x80 0, Input.tick] ++ List.replicate 90 Input.quiet

theorem due_answered_mono :
    (historyAfter answeredRun).2 0 = [true, false] ∧ Alternates ((historyAfter answeredRun).2 0) ∧
      (run step (historyAfter answeredRun).1 (List.replicate 12 Input.quiet)).fsm = .idle ∧
      Along step DueSafe (step State.reset (Input.bind 0 0x51 3 0x80 0))
        (Input.tick :: List.replicate 90 Input.quiet) := by
  obtain ⟨hsafe, hhistory, hfree, hdue⟩ : Along step DueSafe State.reset answeredRun ∧
      (historyAfter answeredRun).2 0 = [true, false] ∧
      (∀ k, ((historyAfter answeredRun).1.ctx k).pend = false) ∧
      Along step NoDue (historyAfter answeredRun).1 (List.replicate 12 Input.quiet) := by
    decide +kernel
  have hrun := (due_answered answeredRun State.reset []).1 hsafe
  have hsettled : Settled (step State.reset (Input.bind 0 0x51 3 0x80 0)) :=
    ⟨by decide, by decide, by decide, by decide⟩
  exact ⟨hhistory, (hrun.1 0).1, hrun.2 _ hfree hdue (by simp),
    (due_answered [] _ _).2 hsettled (by decide) (by decide) (by decide)⟩

/-- The flow is unbound in the cycle after its group is complete. -/
def unboundRun (n : Nat) : List Input :=
  [Input.bind 0 0x51 3 0x80 0, Input.tick, Input.bind 0 0 0 0 0] ++ List.replicate n Input.quiet

/-- Its due event is never answered and never cancelled, and the builder leaves `IDLE` for ever
again although no context is bound. -/
theorem due_unanswered :
    dueEvent (step State.reset (Input.bind 0 0x51 3 0x80 0)) Input.tick 0 = true ∧
      ∀ n, Spaced strobeGap (unboundRun n) ∧ (∀ i ∈ unboundRun n, i.sourceReady = true) ∧
        (∀ k, nslots ((historyAfter (unboundRun n)).1.ctx k).cfg = 0) ∧
        (historyAfter (unboundRun n)).2 0 = [true] ∧
        ((historyAfter (unboundRun n)).1.ctx 0).pend = true ∧
        ((historyAfter (unboundRun n)).1.fsm = .idle →
          (step (historyAfter (unboundRun n)).1 Input.quiet).fsm = .check) := by
  refine ⟨by decide, fun n => ?_⟩
  have hstart : Stranded 0 (historyAfter (unboundRun 0)).1 ∧
      (historyAfter (unboundRun 0)).2 0 = [true] := ⟨⟨by decide, by decide, by decide⟩, by decide⟩
  have hsplit : historyAfter (unboundRun n) =
      run historied (historyAfter (unboundRun 0)) (List.replicate n Input.quiet) := by
    rw [historyAfter, unboundRun, run_append]
    rfl
  have hquiet : ∀ i ∈ List.replicate n Input.quiet, i = Input.quiet :=
    fun i hi => List.eq_of_mem_replicate hi
  obtain ⟨hend, hsame⟩ := stranded_run (List.replicate n Input.quiet)
    (fun i hi => by rw [hquiet i hi]; rfl) hstart.1
  rw [← hsplit] at hend hsame
  refine ⟨?_, ?_, hend.unbound, hsame.trans hstart.2, hend.pend, fun hidle => ?_⟩
  · have hspaced : ∀ m since, Spaced since (List.replicate m Input.quiet) := by
      intro m
      induction m with
      | zero => exact fun _ => trivial
      | succ m ih => exact fun since => ⟨by simp [Input.quiet], ih _⟩
    exact ⟨by decide, by decide, by decide, hspaced n _⟩
  · intro i hi
    simp only [unboundRun, List.mem_append, List.mem_cons, List.not_mem_nil, or_false] at hi
    rcases hi with (rfl | rfl | rfl) | hi
    · rfl
    · rfl
    · rfl
    · rw [hquiet i hi]
      rfl
  · have hany : anyPend (historyAfter (unboundRun n)).1 = true := decide_eq_true ⟨0, hend.pend⟩
    simp [nextFsm, hidle, hany]

end Packetizer
end InfernoFpga
