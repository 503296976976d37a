import InfernoFpga.Lib.Run
import InfernoFpga.Firmware.FlowTable

/-!
# FlowRefine — do the flow table and the contexts agree?

The same binding is kept twice, in `flows` and in the gateware's latches, and nothing reads the
latter back.  Binding and unbinding keep the two in step.  Two operations write one side only:
re-initialisation clears every context but no slot, and reseeding latches whatever channel map
was written last into every flow.
-/

namespace InfernoFpga
namespace Firmware

open Lib
open Packetizer (CtxId Word Byte ctxIndex nslots)

/-! ## The writes of one operation -/

section Writes

variable {g : Gateware} {f : CtxId}

theorem writeHeaderRegs_csr (g : Gateware) (dst : Ip) (dmac : Mac) (csum : BitVec 16) :
    (writeHeaderRegs g dst dmac csum).csr =
      { g.csr with
        dstIp := dst.word, ipCsum := csum, udpSport := dantePortMedia, dstMacHi := dmac.hi } :=
  rfl

theorem writeHeader_csr (g : Gateware) (dst : Ip) (dmac : Mac) (csum dport : BitVec 16) :
    (writeHeader g dst dmac csum dport).csr =
      { g.csr with
        dstIp := dst.word, ipCsum := csum, udpSport := dantePortMedia, dstMacHi := dmac.hi
        dstMacLo := dmac.lo, udpDport := dport } := by
  rw [writeHeader, Gateware.writeUdpDport_csr, Gateware.writeDstMacLo_csr, writeHeaderRegs_csr]

theorem writeHeader_self (h : ctxIndex g.csr.ctxSelect = f) (dst : Ip) (dmac : Mac)
    (csum dport : BitVec 16) :
    (writeHeader g dst dmac csum dport).ctx f =
      { g.ctx f with
        dip := dst.word, csum := csum, sport := dantePortMedia, dport := dport
        dmac := dmac.hi ++ dmac.lo } := by
  have hregs : ctxIndex (writeHeaderRegs g dst dmac csum).csr.ctxSelect = f := by
    rw [writeHeaderRegs_csr]
    exact h
  have hmac : ctxIndex ((writeHeaderRegs g dst dmac csum).writeDstMacLo
      dmac.lo).csr.ctxSelect = f := hregs
  rw [writeHeader, Gateware.writeUdpDport_self hmac, Gateware.writeDstMacLo_self hregs]
  rfl

theorem writeHeader_other {k : CtxId} (h : ctxIndex g.csr.ctxSelect ≠ k) (dst : Ip)
    (dmac : Mac) (csum dport : BitVec 16) :
    (writeHeader g dst dmac csum dport).ctx k = g.ctx k := by
  have hregs : ctxIndex (writeHeaderRegs g dst dmac csum).csr.ctxSelect ≠ k := by
    rw [writeHeaderRegs_csr]
    exact h
  have hmac : ctxIndex ((writeHeaderRegs g dst dmac csum).writeDstMacLo
      dmac.lo).csr.ctxSelect ≠ k := hregs
  rw [writeHeader, Gateware.writeUdpDport_other hmac, Gateware.writeDstMacLo_other hregs]
  rfl

/-- Latching the same configuration again changes nothing. -/
theorem writeFlowCfg_again (g : Gateware) (p q cfg : Byte) :
    (((g.writeFlowPhase p).writeFlowCfg cfg).writeFlowPhase q).writeFlowCfg cfg =
      (g.writeFlowPhase q).writeFlowCfg cfg := by
  have hctx : ∀ k, ((((g.writeFlowPhase p).writeFlowCfg cfg).writeFlowPhase q).writeFlowCfg
      cfg).ctx k = ((g.writeFlowPhase q).writeFlowCfg cfg).ctx k := by
    intro k
    have hfirst : ∀ phase, ctxIndex (g.writeFlowPhase phase).csr.ctxSelect =
        ctxIndex g.csr.ctxSelect := fun _ => rfl
    have hagain : ctxIndex (((g.writeFlowPhase p).writeFlowCfg cfg).writeFlowPhase
        q).csr.ctxSelect = ctxIndex g.csr.ctxSelect := rfl
    by_cases hk : ctxIndex g.csr.ctxSelect = k
    · rw [Gateware.writeFlowCfg_self (hagain.trans hk),
        Gateware.writeFlowCfg_self ((hfirst q).trans hk)]
      show { ((g.writeFlowPhase p).writeFlowCfg cfg).ctx k with
        cmlo := g.csr.chmapLo, cmhi := g.csr.chmapHi, cfg := cfg } = _
      rw [Gateware.writeFlowCfg_self ((hfirst p).trans hk)]
      rfl
    · rw [Gateware.writeFlowCfg_other (hagain.trans_ne hk),
        Gateware.writeFlowCfg_other ((hfirst q).trans_ne hk)]
      exact Gateware.writeFlowCfg_other ((hfirst p).trans_ne hk) cfg
  exact congrArg (Gateware.mk _) (funext hctx)

/-- Rewriting a context's configuration latches the channel map along with it. -/
theorem rewriteCfg_self (g : Gateware) (f : CtxId) (phase cfg : Byte) :
    (((g.writeCtxSelect f).writeFlowPhase phase).writeFlowCfg cfg).ctx f =
      { g.ctx f with cmlo := g.csr.chmapLo, cmhi := g.csr.chmapHi, cfg := cfg } :=
  Gateware.writeFlowCfg_self (g := (g.writeCtxSelect f).writeFlowPhase phase)
    (Gateware.writeCtxSelect_index g f) cfg

theorem rewriteCfg_other (g : Gateware) {f k : CtxId} (hk : f ≠ k) (phase cfg : Byte) :
    (((g.writeCtxSelect f).writeFlowPhase phase).writeFlowCfg cfg).ctx k = g.ctx k :=
  Gateware.writeFlowCfg_other (g := (g.writeCtxSelect f).writeFlowPhase phase)
    ((Gateware.writeCtxSelect_index g f).trans_ne hk) cfg

/-- However often the sample counter moves, the loop latches one configuration. -/
theorem seedLoop_eq (fpp adj : Nat) (cfg : Byte) (reads : Nat → Nat × Nat) (tries : Nat) :
    ∀ (k : Nat) (g : Gateware), ∃ phase,
      seedLoop fpp adj cfg reads (tries + 1) k g =
        (g.writeFlowPhase phase).writeFlowCfg cfg := by
  induction tries with
  | zero =>
      intro k g
      refine ⟨BitVec.ofNat 8 (((reads k).1 + adj) % 2 ^ 32 % fpp), ?_⟩
      simp only [seedLoop, ite_self]
  | succ n ih =>
      intro k g
      rw [seedLoop]
      split
      · exact ⟨_, rfl⟩
      · obtain ⟨phase, hphase⟩ := ih (k + 1) ((g.writeFlowPhase (BitVec.ofNat 8
          (((reads k).1 + adj) % 2 ^ 32 % fpp))).writeFlowCfg cfg)
        exact ⟨phase, by rw [hphase, writeFlowCfg_again]⟩

variable (t : Tx) (f : CtxId) (dst : Ip) (dmac : Mac) (dport : BitVec 16)
  (chans : Fin 8 → BitVec 16) (nslots fpp : Nat) (reads : Nat → Nat × Nat)

/-- `write_ctx` with its context selected and its channel map in the registers. -/
def ctxMap : Gateware :=
  (t.gw.writeCtxSelect f).writeChmap (chmapLo chans nslots) (chmapHi chans nslots)

/-- `write_ctx` up to its seqlock loop. -/
def ctxHeader : Gateware :=
  writeHeader (ctxMap t f chans nslots) dst dmac
    (ipHeaderChecksum t.netIp dst (ipTotal nslots fpp) danteTxIpTos danteTxIpTtl) dport

theorem writeCtx_eq : ∃ phase, writeCtx t f dst dmac dport chans nslots fpp reads =
    ((ctxHeader t f dst dmac dport chans nslots fpp).writeFlowPhase phase).writeFlowCfg
      (flowCfg nslots fpp) :=
  seedLoop_eq fpp t.phaseAdj (flowCfg nslots fpp) reads 7 0 _

theorem ctxMap_select : ctxIndex (ctxMap t f chans nslots).csr.ctxSelect = f :=
  Gateware.writeCtxSelect_index t.gw f

theorem ctxHeader_csr :
    ctxIndex (ctxHeader t f dst dmac dport chans nslots fpp).csr.ctxSelect = f ∧
      (ctxHeader t f dst dmac dport chans nslots fpp).csr.chmapLo = chmapLo chans nslots ∧
      (ctxHeader t f dst dmac dport chans nslots fpp).csr.chmapHi = chmapHi chans nslots := by
  rw [ctxHeader, writeHeader_csr]
  exact ⟨ctxMap_select t f chans nslots, rfl, rfl⟩

/-- `write_ctx` leaves the whole binding in its context … -/
theorem writeCtx_self : (writeCtx t f dst dmac dport chans nslots fpp reads).ctx f =
    binding t.netIp dst dmac dport chans nslots fpp := by
  obtain ⟨phase, h⟩ := writeCtx_eq t f dst dmac dport chans nslots fpp reads
  obtain ⟨hselect, hlo, hhi⟩ := ctxHeader_csr t f dst dmac dport chans nslots fpp
  have hctx : (ctxHeader t f dst dmac dport chans nslots fpp).ctx f = _ :=
    writeHeader_self (ctxMap_select t f chans nslots) dst dmac
      (ipHeaderChecksum t.netIp dst (ipTotal nslots fpp) danteTxIpTos danteTxIpTtl) dport
  rw [h]
  generalize ctxHeader t f dst dmac dport chans nslots fpp = g at hselect hlo hhi hctx
  have hcfg := Gateware.writeFlowCfg_self (g := g.writeFlowPhase phase) hselect
    (flowCfg nslots fpp)
  have hphase : (g.writeFlowPhase phase).ctx f = g.ctx f ∧
      (g.writeFlowPhase phase).csr.chmapLo = g.csr.chmapLo ∧
      (g.writeFlowPhase phase).csr.chmapHi = g.csr.chmapHi := ⟨rfl, rfl, rfl⟩
  rw [hcfg, hphase.1, hphase.2.1, hphase.2.2, hctx, hlo, hhi]
  rfl

/-- … and touches no other. -/
theorem writeCtx_other {k : CtxId} (hk : f ≠ k) :
    (writeCtx t f dst dmac dport chans nslots fpp reads).ctx k = t.gw.ctx k := by
  obtain ⟨phase, h⟩ := writeCtx_eq t f dst dmac dport chans nslots fpp reads
  obtain ⟨hselect, -, -⟩ := ctxHeader_csr t f dst dmac dport chans nslots fpp
  have hother := writeHeader_other (k := k)
    ((ctxMap_select t f chans nslots).trans_ne hk) dst dmac
    (ipHeaderChecksum t.netIp dst (ipTotal nslots fpp) danteTxIpTos danteTxIpTtl) dport
  have hcfg := Gateware.writeFlowCfg_other
    (g := (ctxHeader t f dst dmac dport chans nslots fpp).writeFlowPhase phase)
    (hselect.trans_ne hk) (flowCfg nslots fpp)
  rw [h, hcfg]
  exact hother

end Writes

/-! ## Agreement -/

/-- Slot `f` and context `f` tell the same story. -/
structure Agrees (t : Tx) (f : CtxId) : Prop where
  active : (t.flows f).inUse = true ↔ nslots (t.gw.ctx f).cfg ≠ 0
  binding : (t.flows f).inUse = true → t.gw.ctx f = (t.flows f).binding t.netIp

theorem nslots_flowCfg (n : SlotCount) (fpp : Nat) : nslots (flowCfg n fpp) = n := by
  obtain ⟨n, hn⟩ := n
  simp only [nslots, flowCfg, BitVec.toNat_ofNat]
  omega

theorem nslots_binding_ne_zero (netIp : Ip) (s : FlowSlot) :
    nslots (s.binding netIp).cfg ≠ 0 := by
  have h : nslots (s.binding netIp).cfg = s.nslots := nslots_flowCfg s.nslots s.fpp
  have hpos := s.nslots.2.1
  omega

theorem Agrees.of_binding {t : Tx} {f : CtxId} (huse : (t.flows f).inUse = true)
    (h : t.gw.ctx f = (t.flows f).binding t.netIp) : Agrees t f where
  active := by
    rw [h]
    exact ⟨fun _ => nslots_binding_ne_zero _ _, fun _ => huse⟩
  binding := fun _ => h

theorem Agrees.of_idle {t : Tx} {f : CtxId} (huse : (t.flows f).inUse = false)
    (h : nslots (t.gw.ctx f).cfg = 0) : Agrees t f where
  active := by simp [huse, h]
  binding := by simp [huse]

theorem Agrees.congr {t t' : Tx} {f : CtxId} (h : Agrees t f) (hflow : t'.flows f = t.flows f)
    (hctx : t'.gw.ctx f = t.gw.ctx f) (hip : t'.netIp = t.netIp) : Agrees t' f := by
  refine ⟨?_, ?_⟩
  · rw [hflow, hctx]
    exact h.active
  · rw [hflow, hctx, hip]
    exact h.binding

/-- Slots beyond the slot count have no entry in the map. -/
theorem binding_truncate (netIp dst : Ip) (dmac : Mac) (dport : BitVec 16)
    (chans : Fin 8 → BitVec 16) (n fpp : Nat) :
    binding netIp dst dmac dport (fun i => if i.val < n then chans i else 0) n fpp =
      binding netIp dst dmac dport chans n fpp := by
  have hentry : ∀ i, chmapEntry (fun i => if i.val < n then chans i else 0) n i =
      chmapEntry chans n i := by
    intro i
    by_cases hi : i.val < n
    · simp [chmapEntry, hi]
    · simp [chmapEntry, hi]
  simp only [binding, chmapLo, chmapHi, hentry]

/-! ## Every operation keeps the two in step -/

section Operations

variable {t : Tx} {f k : CtxId}

@[simp] theorem setFlow_self (t : Tx) (f : CtxId) (s : FlowSlot) :
    (setFlow t f s).flows f = s := by
  simp [setFlow]

theorem setFlow_other (t : Tx) (s : FlowSlot) (h : f ≠ k) :
    (setFlow t f s).flows k = t.flows k := by
  simp [setFlow, Function.update_of_ne (Ne.symm h)]

/-- A unicast bind latches the binding of the slot it leaves. -/
theorem context_bindUnicastInto (t : Tx) (f : CtxId) (r : UnicastReq) (dmac : Mac) (now : UInt32)
    (reads : Nat → Nat × Nat) :
    (bindUnicastInto t f r dmac now reads).gw.ctx f =
      ((bindUnicastInto t f r dmac now reads).flows f).binding t.netIp := by
  have hself : (bindUnicastInto t f r dmac now reads).flows f =
      unicastSlot (t.flows f) r dmac now := setFlow_self _ _ _
  rw [hself]
  refine (writeCtx_self t f r.dst dmac r.dport r.chans r.nslots r.fpp reads).trans ?_
  exact (binding_truncate t.netIp r.dst dmac r.dport r.chans r.nslots r.fpp).symm

theorem agrees_bindUnicastInto (h : ∀ k, k ≠ f → Agrees t k) (r : UnicastReq) (dmac : Mac)
    (now : UInt32) (reads : Nat → Nat × Nat) (k : CtxId) :
    Agrees (bindUnicastInto t f r dmac now reads) k := by
  by_cases hk : f = k
  · subst hk
    refine Agrees.of_binding ?_ (context_bindUnicastInto t f r dmac now reads)
    have hself : (bindUnicastInto t f r dmac now reads).flows f =
        unicastSlot (t.flows f) r dmac now := setFlow_self _ _ _
    rw [hself]
    rfl
  · exact (h k (Ne.symm hk)).congr (setFlow_other _ _ hk)
      (writeCtx_other t f r.dst dmac r.dport r.chans r.nslots r.fpp reads hk) rfl

theorem agrees_bindMulticastInto (h : ∀ k, k ≠ f → Agrees t k) (extId : BitVec 16)
    (chans : Fin 8 → BitVec 16) (n : SlotCount) (now : UInt32) (reads : Nat → Nat × Nat)
    (k : CtxId) : Agrees (bindMulticastInto t f extId chans n now reads) k := by
  by_cases hk : f = k
  · subst hk
    have hself : (bindMulticastInto t f extId chans n now reads).flows f =
        multicastSlot t f extId chans n now := setFlow_self _ _ _
    refine Agrees.of_binding ?_ ?_
    · rw [hself]
      rfl
    · rw [hself]
      refine (writeCtx_self t f (t.flowIp f) (netMcastMac (t.flowIp f)) dantePortMedia chans n
        t.mcastFpp reads).trans ?_
      exact (binding_truncate t.netIp (t.flowIp f) (netMcastMac (t.flowIp f)) dantePortMedia
        chans n t.mcastFpp).symm
  · exact (h k (Ne.symm hk)).congr (setFlow_other _ _ hk)
      (writeCtx_other t f (t.flowIp f) (netMcastMac (t.flowIp f)) dantePortMedia chans n
        t.mcastFpp reads hk) rfl

theorem agrees_unbind (h : ∀ k, Agrees t k) (f k : CtxId) : Agrees (unbind t f) k := by
  unfold unbind
  split
  · by_cases hk : f = k
    · subst hk
      refine Agrees.of_idle ?_ ?_
      · exact congrArg FlowSlot.inUse (setFlow_self t f _)
      · have hcfg := Gateware.writeFlowCfg_self (Gateware.writeCtxSelect_index t.gw f) 0
        simp only [hcfg]
        decide
    · refine (h k).congr (setFlow_other t _ hk) ?_ rfl
      exact Gateware.writeFlowCfg_other
        ((Gateware.writeCtxSelect_index t.gw f).trans_ne hk) 0
  · exact h k

theorem agrees_evict (h : ∀ k, Agrees t k) (f k : CtxId) (hk : k ≠ f) :
    Agrees (evict t f) k :=
  (h k).congr (setFlow_other t _ (Ne.symm hk)) rfl rfl

theorem agrees_bindUnicast (h : ∀ k, Agrees t k) (r : UnicastReq) (dmac : Mac) (now : UInt32)
    (reads : Nat → Nat × Nat) (k : CtxId) :
    Agrees (bindUnicast t r dmac now reads).1 k := by
  unfold bindUnicast
  split
  · exact agrees_bindUnicastInto (fun j _ => h j) r dmac now reads k
  split
  · exact agrees_bindUnicastInto (fun j _ => h j) r dmac now reads k
  · exact agrees_bindUnicastInto (fun j hj => agrees_evict h _ j hj) r dmac now reads k

theorem agrees_bindMulticast (h : ∀ k, Agrees t k) (extId : BitVec 16)
    (chans : Fin 8 → BitVec 16) (n : SlotCount) (now : UInt32) (reads : Nat → Nat × Nat)
    (k : CtxId) : Agrees (bindMulticast t extId chans n now reads).1 k := by
  unfold bindMulticast
  split
  · exact agrees_bindMulticastInto (fun j _ => h j) extId chans n now reads k
  split
  · exact agrees_bindMulticastInto (fun j _ => h j) extId chans n now reads k
  · exact agrees_bindMulticastInto (fun j _ => agrees_unbind h _ j) extId chans n now reads k

theorem agrees_dropAll (h : ∀ k, Agrees t k) : ∀ k, Agrees (dropAll t) k :=
  run_invariant unbind (P := fun t => ∀ k, Agrees t k) (fun _ f ht => agrees_unbind ht f)
    (List.finRange nFlows) h

/-- No flow is bound, on either side. -/
def Idle (t : Tx) : Prop := ∀ k, (t.flows k).inUse = false ∧ nslots (t.gw.ctx k).cfg = 0

theorem idle_bindFlow (h : Idle t) (f : CtxId) : Idle (bindFlow t f) := by
  intro k
  refine ⟨(h k).1, ?_⟩
  have hindex := Gateware.writeCtxSelect_index t.gw f
  have hheader : ctxIndex (writeHeader (t.gw.writeCtxSelect f) (t.flowIp f)
      (netMcastMac (t.flowIp f)) (ipHeaderChecksum t.netIp (t.flowIp f) 421 danteTxIpTos
      danteTxIpTtl) dantePortMedia).csr.ctxSelect = f := by
    rw [writeHeader_csr]
    exact hindex
  by_cases hk : f = k
  · subst hk
    have hcfg := Gateware.writeFlowCfg_self hheader 0
    simp only [bindFlow, hcfg]
    decide
  · have hcfg := Gateware.writeFlowCfg_other (hheader.trans_ne hk) 0
    simp only [bindFlow, hcfg, writeHeader_other (hindex.trans_ne hk)]
    exact (h k).2

theorem idle_init (h : Idle t) : Idle (danteTxInit t) := by
  have hshared : Idle (initShared t) := fun k => h k
  exact run_invariant bindFlow (P := Idle) (fun _ f ht => idle_bindFlow ht f)
    (List.finRange nFlows) hshared

theorem Idle.agrees (h : Idle t) (k : CtxId) : Agrees t k :=
  Agrees.of_idle (h k).1 (h k).2

theorem idle_of_agrees (h : ∀ k, Agrees t k) (hfree : ∀ k, (t.flows k).inUse = false) :
    Idle t := by
  intro k
  refine ⟨hfree k, ?_⟩
  by_contra hne
  have huse := (h k).active.2 hne
  rw [hfree k] at huse
  cases huse

/-- The channel-map registers hold the map of every bound flow. -/
def MapCurrent (t : Tx) : Prop :=
  ∀ k, (t.flows k).inUse = true →
    t.gw.csr.chmapLo = chmapLo (t.flows k).chans (t.flows k).nslots ∧
      t.gw.csr.chmapHi = chmapHi (t.flows k).chans (t.flows k).nslots

theorem agrees_reseedFlow (h : (∀ k, Agrees t k) ∧ MapCurrent t) (sub : Nat) (f : CtxId) :
    (∀ k, Agrees (reseedFlow sub t f) k) ∧ MapCurrent (reseedFlow sub t f) := by
  obtain ⟨hagree, hmap⟩ := h
  unfold reseedFlow
  simp only []
  split
  · rename_i huse
    refine ⟨fun k => ?_, hmap⟩
    by_cases hk : f = k
    · subst hk
      obtain ⟨hlo, hhi⟩ := hmap f huse
      refine Agrees.of_binding huse ?_
      refine (rewriteCfg_self t.gw f _ _).trans ?_
      rw [(hagree f).binding huse, hlo, hhi]
      rfl
    · exact (hagree k).congr rfl (rewriteCfg_other t.gw hk _ _) rfl
  · exact ⟨hagree, hmap⟩

theorem agrees_reseed (h : ∀ k, Agrees t k) (hmap : MapCurrent t) (sub : Nat) (k : CtxId) :
    Agrees (reseedPhases t sub) k :=
  (run_invariant (reseedFlow sub) (P := fun t => (∀ k, Agrees t k) ∧ MapCurrent t)
    (fun _ f ht => agrees_reseedFlow ht sub f) (List.finRange nFlows) ⟨h, hmap⟩).1 k

end Operations

/-! ## Runs -/

instance (t : Tx) : Decidable (MapCurrent t) :=
  inferInstanceAs (Decidable (∀ _, _ → _))

/-- Re-initialisation finds no flow bound, and a reseed finds every flow's channel map in the
channel-map registers. -/
def TxSafe (t : Tx) : TxOp → Prop
  | .init => ∀ k, (t.flows k).inUse = false
  | .talker true => ∀ k, (t.flows k).inUse = false
  | .reseed _ => MapCurrent t
  | _ => True

instance (t : Tx) : ∀ op, Decidable (TxSafe t op)
  | .init => inferInstanceAs (Decidable (∀ _, _))
  | .talker true => inferInstanceAs (Decidable (∀ _, _))
  | .talker false => inferInstanceAs (Decidable True)
  | .reseed _ => inferInstanceAs (Decidable (MapCurrent t))
  | .unicast _ _ _ _ => inferInstanceAs (Decidable True)
  | .multicast _ _ _ _ _ => inferInstanceAs (Decidable True)
  | .unbind _ => inferInstanceAs (Decidable True)
  | .dropAll => inferInstanceAs (Decidable True)
  | .setMcastFpp _ => inferInstanceAs (Decidable True)

theorem agrees_txStep {t : Tx} {op : TxOp} (hsafe : TxSafe t op) (h : ∀ k, Agrees t k) :
    ∀ k, Agrees (txStep t op) k := by
  cases op with
  | init => exact (idle_init (idle_of_agrees h hsafe)).agrees
  | unicast r dmac now reads =>
      cases dmac with
      | none => exact h
      | some dmac => exact agrees_bindUnicast h r dmac now reads
  | multicast extId chans n now reads => exact agrees_bindMulticast h extId chans n now reads
  | unbind f => exact agrees_unbind h f
  | dropAll => exact agrees_dropAll h
  | reseed sub => exact agrees_reseed h hsafe sub
  | talker on =>
      cases on with
      | true => exact (idle_init (idle_of_agrees h hsafe)).agrees
      | false => exact fun k => (h k).congr rfl rfl rfl
  | setMcastFpp fpp => exact fun k => (h k).congr rfl rfl rfl

theorem agrees_boot (netIp : Ip) (mac : Mac) (k : CtxId) : Agrees (Tx.boot netIp mac) k :=
  Agrees.of_idle rfl (by
    show nslots (0 : Byte) = 0
    decide)

/-- In every run of the flow operations in which the talker is only re-initialised with no flow
bound, and phases are only reseeded while the channel-map registers hold every bound flow's
map, the table and the contexts agree. -/
theorem flow_table_refines (netIp : Ip) (mac : Mac) (ops : List TxOp)
    (h : Along txStep TxSafe (Tx.boot netIp mac) ops) (f : CtxId) :
    Agrees (run txStep (Tx.boot netIp mac) ops) f :=
  Along.invariant (P := fun t => ∀ k, Agrees t k) (fun _ _ hsafe ht => agrees_txStep hsafe ht)
    h (agrees_boot netIp mac) f

/-! ## Two receivers -/

/-- A receiver at `169.254.1.host` asks for two channels from `ch` on. -/
def stereo (host : UInt8) (ch : BitVec 16) : TxOp :=
  .unicast
    { peer := ⟨169, 254, 1, host⟩, dst := ⟨169, 254, 1, host⟩, dport := 14400
      chans := fun i => if i.val = 0 then ch else if i.val = 1 then ch + 1 else 0
      nslots := ⟨2, two_slots⟩, fpp := ⟨16, sixteen_mem⟩ }
    (some ⟨2, 0, 0, 0, 1, host⟩) 0 (fun _ => (0, 0))

/-- The device of the examples, with its talker initialised and `ops` run on it. -/
def session (ops : List TxOp) : Tx :=
  run txStep (Tx.boot ⟨169, 254, 9, 200⟩ ⟨2, 0, 0, 0, 9, 200⟩) (.init :: ops)

theorem flow_table_refines_session :
    Agrees (session [stereo 10 1, .reseed 480, .unbind 0, stereo 11 3, .dropAll, .talker true]) 0 :=
  flow_table_refines ⟨169, 254, 9, 200⟩ ⟨2, 0, 0, 0, 9, 200⟩
    [.init, stereo 10 1, .reseed 480, .unbind 0, stereo 11 3, .dropAll, .talker true]
    (by decide) 0

/-- The console's talker command silences a flow that the table keeps as bound; and a reseed
with two receivers gives the first the channels of the second. -/
theorem flow_table_diverges :
    (((session [stereo 10 1, .talker true]).flows 0).inUse = true ∧
        nslots ((session [stereo 10 1, .talker true]).gw.ctx 0).cfg = 0) ∧
      (((session [stereo 10 1, stereo 11 3, .reseed 480]).flows 0).chans 0 = 1 ∧
        ((session [stereo 10 1, stereo 11 3, .reseed 480]).gw.ctx 0).cmlo = 0x8382) ∧
      ¬ Agrees (session [stereo 10 1, .talker true]) 0 ∧
      ¬ Agrees (session [stereo 10 1, stereo 11 3, .reseed 480]) 0 := by
  refine ⟨by decide, by decide, fun h => ?_, fun h => ?_⟩
  · exact absurd (h.active.1 (by decide)) (by decide)
  · exact absurd (h.binding (by decide)) (by decide)

end Firmware
end InfernoFpga
