import InfernoFpga.Firmware.FlowIds

/-!
# Binds — what a bind does to the table

Whatever path a bind takes through the table (a context that already serves it, a free one, an
evicted one), it rewrites one slot and one context and returns that context's number.  The
lemmas here say so once, for both binds, so that no proof about the table opens them again.
-/

namespace InfernoFpga
namespace Firmware

open Lib
open Packetizer (CtxId)

/-! ## One slot and one context -/

/-- `t'` is `t` with slot and context `f` rewritten. -/
structure Rewrites (t t' : Tx) (f : CtxId) : Prop where
  flows : ∀ g, g ≠ f → t'.flows g = t.flows g
  contexts : ∀ g, g ≠ f → t'.gw.ctx g = t.gw.ctx g
  flowIp : t'.flowIp = t.flowIp
  mcastFpp : t'.mcastFpp = t.mcastFpp

namespace Rewrites

variable {t t' t'' : Tx} {f : CtxId}

theorem refl (t : Tx) (f : CtxId) : Rewrites t t f :=
  ⟨fun _ _ => rfl, fun _ _ => rfl, rfl, rfl⟩

theorem trans (h : Rewrites t t' f) (h' : Rewrites t' t'' f) : Rewrites t t'' f where
  flows := fun g hg => (h'.flows g hg).trans (h.flows g hg)
  contexts := fun g hg => (h'.contexts g hg).trans (h.contexts g hg)
  flowIp := h'.flowIp.trans h.flowIp
  mcastFpp := h'.mcastFpp.trans h.mcastFpp

/-- What live slots have of their own stays so, if the slot that is rewritten ends up dead or shares
it with no other. -/
theorem alone {live : FlowSlot → Bool} {R : FlowSlot → FlowSlot → Prop} (h : Rewrites t t' f)
    (halone : Alone (fun g => live (t.flows g)) fun a b => R (t.flows a) (t.flows b))
    (hnew : live (t'.flows f) = true → ∀ g, g ≠ f → live (t'.flows g) = true →
      ¬ R (t'.flows g) (t'.flows f) ∧ ¬ R (t'.flows f) (t'.flows g)) :
    Alone (fun g => live (t'.flows g)) fun a b => R (t'.flows a) (t'.flows b) := by
  refine halone.rewrite (fun g hg => ?_) (fun g k hg hk hsame => ?_) hnew
  · rw [h.flows g hg]
  · rwa [h.flows g hg, h.flows k hk] at hsame

end Rewrites

theorem rewrites_evict (t : Tx) (f : CtxId) : Rewrites t (evict t f) f where
  flows := fun _ hg => setFlow_other t _ (Ne.symm hg)
  contexts := fun _ _ => rfl
  flowIp := rfl
  mcastFpp := rfl

theorem rewrites_unbind (t : Tx) (f : CtxId) : Rewrites t (unbind t f) f := by
  unfold unbind
  split
  · refine ⟨fun g hg => setFlow_other t _ (Ne.symm hg), fun g hg => ?_, rfl, rfl⟩
    exact Gateware.writeFlowCfg_other
      ((Gateware.writeCtxSelect_index t.gw f).trans_ne (Ne.symm hg)) 0
  · exact Rewrites.refl t f

/-- A context that was asked to be released is not in use. -/
theorem inUse_unbind (t : Tx) (f : CtxId) : ((unbind t f).flows f).inUse = false := by
  unfold unbind
  split
  · simp only [setFlow_self]
  · exact eq_false_of_ne_true ‹_›

theorem rewrites_bindUnicastInto (t : Tx) (f : CtxId) (r : UnicastReq) (dmac : Mac)
    (now : UInt32) (reads : Nat → Nat × Nat) :
    Rewrites t (bindUnicastInto t f r dmac now reads) f where
  flows := fun _ hg => setFlow_other _ _ (Ne.symm hg)
  contexts := fun _ hg => writeCtx_other t f _ _ _ _ _ _ _ (Ne.symm hg)
  flowIp := rfl
  mcastFpp := rfl

theorem rewrites_bindMulticastInto (t : Tx) (f : CtxId) (extId : BitVec 16)
    (chans : Fin 8 → BitVec 16) (n : SlotCount) (now : UInt32) (reads : Nat → Nat × Nat) :
    Rewrites t (bindMulticastInto t f extId chans n now reads) f where
  flows := fun _ hg => setFlow_other _ _ (Ne.symm hg)
  contexts := fun _ hg => writeCtx_other t f _ _ _ _ _ _ _ (Ne.symm hg)
  flowIp := rfl
  mcastFpp := rfl

/-! ## Operations on the gateware alone -/

theorem flows_danteTxInit (t : Tx) : (danteTxInit t).flows = t.flows :=
  run_invariant bindFlow (P := fun t' => t'.flows = t.flows) (fun _ _ h => h)
    (List.finRange nFlows) rfl

theorem flows_reseedPhases (t : Tx) (sub : Nat) : (reseedPhases t sub).flows = t.flows := by
  refine run_invariant (reseedFlow sub) (P := fun t' => t'.flows = t.flows) (fun s f h => ?_)
    (List.finRange nFlows) rfl
  unfold reseedFlow
  simp only
  split
  · exact h
  · exact h

theorem flows_aafGwSet (t : Tx) (on : Bool) : (aafGwSet t on).flows = t.flows := by
  unfold aafGwSet
  split
  · exact flows_danteTxInit t
  · rfl

/-! ## Searching the table -/

section Find

variable {t : Tx} {p : FlowSlot → Bool} {f : CtxId}

theorem findFlow_some (h : findFlow t p = some f) : p (t.flows f) = true :=
  List.find?_some (p := fun i => p (t.flows i)) h

theorem findFlow_none (h : findFlow t p = none) (g : CtxId) : p (t.flows g) = false := by
  have hg := List.find?_eq_none.1 h g (List.mem_finRange g)
  exact eq_false_of_ne_true hg

/-- The search returns the first slot that qualifies. -/
theorem findFlow_least (h : findFlow t p = some f) {g : CtxId} (hg : g < f) :
    p (t.flows g) = false := by
  rw [findFlow, List.find?_eq_some_iff_getElem] at h
  obtain ⟨-, i, hi, hf, hbefore⟩ := h
  have hval : i = f.val := by
    rw [← hf, List.getElem_finRange]
    rfl
  have hbound : g.val < i := hval ▸ hg
  have hlen : g.val < (List.finRange nFlows).length := hbound.trans hi
  have hskip := hbefore g.val hbound
  rw [List.getElem_finRange] at hskip
  exact Bool.not_eq_true' _ ▸ hskip

theorem findFlow_eq_some (hp : p (t.flows f) = true) (hleast : ∀ g < f, p (t.flows g) = false) :
    findFlow t p = some f := by
  cases h : findFlow t p with
  | none => exact absurd (findFlow_none h f) (by rw [hp]; exact Bool.noConfusion)
  | some g =>
      rcases lt_trichotomy g f with hlt | heq | hgt
      · exact absurd (findFlow_some h) (by rw [hleast g hlt]; exact Bool.noConfusion)
      · rw [heq]
      · exact absurd (findFlow_least h hgt) (by rw [hp]; exact Bool.noConfusion)

end Find

/-! ## A unicast bind -/

/-- The slot a unicast request leaves behind. -/
structure Serves (s : FlowSlot) (r : UnicastReq) (dmac : Mac) (now : UInt32) : Prop where
  inUse : s.inUse = true
  peer : s.peer = r.peer
  dst : s.dst = r.dst
  dport : s.dport = r.dport
  nslots : s.nslots = r.nslots
  fpp : s.fpp = r.fpp
  mcast : s.mcast = false
  dmac : s.dmac = dmac
  lastMs : s.lastMs = now

theorem sameSocket_iff {r : UnicastReq} {s : FlowSlot} :
    sameSocket r s = true ↔
      s.inUse = true ∧ s.dport = r.dport ∧ s.peer = r.peer ∧ s.dst = r.dst := by
  simp only [sameSocket, Bool.and_eq_true, beq_iff_eq, and_assoc]

/-- The peer of a slot that is in use is kept, so it has to be the request's already. -/
theorem serves_bindUnicastInto {t : Tx} {f : CtxId} (r : UnicastReq) (dmac : Mac)
    (now : UInt32) (reads : Nat → Nat × Nat)
    (hpeer : (t.flows f).inUse = true → (t.flows f).peer = r.peer) :
    Serves ((bindUnicastInto t f r dmac now reads).flows f) r dmac now := by
  have hslot : (bindUnicastInto t f r dmac now reads).flows f =
      unicastSlot (t.flows f) r dmac now := setFlow_self _ _ _
  rw [hslot]
  refine ⟨rfl, ?_, rfl, rfl, rfl, rfl, rfl, rfl, rfl⟩
  unfold unicastSlot
  split
  · exact hpeer ‹_›
  · rfl

/-- A unicast bind rewrites the context it returns, which then serves the request. -/
structure UnicastBound (t : Tx) (r : UnicastReq) (dmac : Mac) (now : UInt32)
    (res : Tx × CtxId) : Prop where
  target : res.2 = unicastTarget t r now
  rewrites : Rewrites t res.1 res.2
  serves : Serves (res.1.flows res.2) r dmac now

theorem bindUnicast_bound (t : Tx) (r : UnicastReq) (dmac : Mac) (now : UInt32)
    (reads : Nat → Nat × Nat) : UnicastBound t r dmac now (bindUnicast t r dmac now reads) := by
  unfold bindUnicast
  cases hsame : findFlow t (sameSocket r) with
  | some f =>
      refine ⟨by simp only [unicastTarget, hsame], rewrites_bindUnicastInto t f r dmac now reads,
        serves_bindUnicastInto r dmac now reads fun _ => ?_⟩
      exact (sameSocket_iff.1 (findFlow_some hsame)).2.2.1
  | none =>
      cases hfree : findFlow t fun s => !s.inUse with
      | some f =>
          refine ⟨by simp only [unicastTarget, hsame, hfree],
            rewrites_bindUnicastInto t f r dmac now reads,
            serves_bindUnicastInto r dmac now reads fun huse => ?_⟩
          have hidle := findFlow_some hfree
          rw [huse] at hidle
          cases hidle
      | none =>
          refine ⟨by simp only [unicastTarget, hsame, hfree],
            (rewrites_evict t _).trans (rewrites_bindUnicastInto _ _ r dmac now reads),
            serves_bindUnicastInto r dmac now reads fun huse => ?_⟩
          -- an evicted slot is no longer in use
          simp [evict] at huse

/-! ## A multicast bind -/

/-- A multicast bind rewrites the context it returns, which then carries the group. -/
structure MulticastBound (t : Tx) (extId : BitVec 16) (n : SlotCount) (now : UInt32)
    (res : Tx × CtxId) : Prop where
  target : res.2 = multicastTarget t extId now
  rewrites : Rewrites t res.1 res.2
  inUse : (res.1.flows res.2).inUse = true
  mcast : (res.1.flows res.2).mcast = true
  extId : (res.1.flows res.2).extId = extId
  nslots : (res.1.flows res.2).nslots = n
  fpp : (res.1.flows res.2).fpp = t.mcastFpp
  lastMs : (res.1.flows res.2).lastMs = now

theorem multicastBound_into {t t₀ : Tx} {f : CtxId} (extId : BitVec 16)
    (chans : Fin 8 → BitVec 16) (n : SlotCount) (now : UInt32) (reads : Nat → Nat × Nat)
    (htarget : f = multicastTarget t extId now) (h : Rewrites t t₀ f) :
    MulticastBound t extId n now (bindMulticastInto t₀ f extId chans n now reads, f) := by
  have hslot : (bindMulticastInto t₀ f extId chans n now reads).flows f =
      multicastSlot t₀ f extId chans n now := setFlow_self _ _ _
  refine ⟨htarget, h.trans (rewrites_bindMulticastInto t₀ f extId chans n now reads), ?_, ?_, ?_,
    ?_, ?_, ?_⟩
  all_goals simp only [hslot, multicastSlot]
  exact h.mcastFpp

theorem bindMulticast_bound (t : Tx) (extId : BitVec 16) (chans : Fin 8 → BitVec 16)
    (n : SlotCount) (now : UInt32) (reads : Nat → Nat × Nat) :
    MulticastBound t extId n now (bindMulticast t extId chans n now reads) := by
  unfold bindMulticast
  cases hsame : findFlow t (sameId extId) with
  | some f =>
      exact multicastBound_into extId chans n now reads
        (by simp only [multicastTarget, hsame]) (Rewrites.refl t f)
  | none =>
      cases hfree : findFlow t fun s => !s.inUse with
      | some f =>
          exact multicastBound_into extId chans n now reads
            (by simp only [multicastTarget, hsame, hfree]) (Rewrites.refl t f)
      | none =>
          exact multicastBound_into extId chans n now reads
            (by simp only [multicastTarget, hsame, hfree]) (rewrites_unbind t _)

end Firmware
end InfernoFpga
