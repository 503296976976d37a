import InfernoFpga.Firmware.Paths

/-!
# Shape — the shapes a context can be bound with

The packetizer emits a well-formed frame only for a payload that is a multiple of four bytes.
Nothing in the gateware refuses another one, so every path that binds a context has to check:
the flow-control port does, a 0x2201 request takes its packet size from a setting of the
diagnostic port instead.
-/

namespace InfernoFpga
namespace Firmware

open Lib
open Packetizer (CtxId)

/-! ## Bindable shapes -/

/-- What the packetizer needs of a bound context. -/
structure Bindable (s : FlowSlot) : Prop where
  slots : 1 ≤ s.nslots.val ∧ s.nslots.val ≤ 8
  table : s.fpp.val ∈ kFppTable
  divides : s.fpp.val ∣ 48000
  words : 4 ∣ s.nslots.val * s.fpp.val * bytesPerSamp

/-- Every context in use has a bindable shape. -/
def Shaped (flows : CtxId → FlowSlot) : Prop :=
  ∀ k, (flows k).inUse = true → Bindable (flows k)

theorem fpp_dvd (fpp : Fpp) : fpp.val ∣ 48000 := by
  have h : ∀ n ∈ kFppTable, n ∣ 48000 := by decide
  exact h fpp.val fpp.2

/-- Every packet size but 2 is a multiple of four. -/
theorem four_dvd_fpp {fpp : Nat} (h : fpp ∈ kFppTable) (hne : fpp ≠ 2) : 4 ∣ fpp := by
  have htable : ∀ n ∈ kFppTable, n ≠ 2 → 4 ∣ n := by decide
  exact htable fpp h hne

/-- Only two samples a packet with an odd slot count break the word grid. -/
theorem words_iff (n : Nat) (fpp : Fpp) :
    4 ∣ n * fpp.val * bytesPerSamp ↔ ¬ (fpp.val = 2 ∧ n % 2 = 1) := by
  by_cases htwo : fpp.val = 2
  · simp only [htwo, bytesPerSamp, true_and]
    omega
  · have hfour := four_dvd_fpp fpp.2 htwo
    exact ⟨fun _ h => htwo h.1, fun _ => 
      Nat.dvd_mul_right_of_dvd (Nat.dvd_mul_left_of_dvd hfour n) bytesPerSamp⟩

theorem bindable_iff (s : FlowSlot) :
    Bindable s ↔ ¬ (s.fpp.val = 2 ∧ s.nslots.val % 2 = 1) :=
  ⟨fun h => (words_iff _ _).1 h.words,
    fun h => ⟨s.nslots.2, s.fpp.2, fpp_dvd s.fpp, (words_iff _ _).2 h⟩⟩

/-! ## Every path keeps the shapes -/

/-- A packet size and a slot count that break the word grid. -/
def OddPair (fpp n : Nat) : Prop := fpp = 2 ∧ n % 2 = 1

theorem check_bind {p : FlowPolicy} {q : Datagram} {r : UnicastReq} (h : check p q = .bind r) :
    r.fpp.val = clampFpp p q.fpp ∧ r.nslots.val = q.nch ∧
      ¬ (clampFpp p q.fpp = 2 ∧ q.nch % 2 = 1) := by
  unfold check at h
  simp only at h
  split at h
  · cases h
  split at h
  · rename_i hfpp
    split at h
    · cases h
      exact ⟨rfl, rfl, hfpp.2⟩
    · cases h
  · cases h

/-- A rewritten table is shaped if the new slot is. -/
theorem shaped_rewrites {t t' : Tx} {f : CtxId} (h : Shaped t.flows) (hr : Rewrites t t' f)
    (hf : (t'.flows f).inUse = true → Bindable (t'.flows f)) : Shaped t'.flows := by
  intro k hk
  by_cases hkf : k = f
  · subst hkf
    exact hf hk
  · rw [hr.flows k hkf] at hk ⊢
    exact h k hk

theorem shaped_path : TablePath Shaped (fun _ r => ¬ OddPair r.fpp.val r.nslots.val)
    (fun size n => ¬ OddPair size.val n.val) where
  unbind := fun {t} f h => shaped_rewrites h (rewrites_unbind t f) fun huse => by
    rw [inUse_unbind] at huse
    cases huse
  unicast := fun {t r} dmac now reads h hr => by
    have hbound := bindUnicast_bound t r dmac now reads
    refine shaped_rewrites h hbound.rewrites fun _ => ?_
    rw [bindable_iff, hbound.serves.fpp, hbound.serves.nslots]
    exact hr
  multicast := fun {t} fid chans {n} now reads h hn => by
    have hbound := bindMulticast_bound t fid chans n now reads
    refine shaped_rewrites h hbound.rewrites fun _ => ?_
    rw [bindable_iff, hbound.fpp, hbound.nslots]
    exact hn

/-- Every group a 0x2201 request asks for has an even number of slots. -/
def EvenGroups (content : Mem) (clen : Nat) : Prop :=
  ∀ i < groupItems content clen,
    ((groupReq content clen i).all fun g => g.n.val % 2 == 0) = true

/-- A 0x2201 request that finds two samples a packet set asks for even slot counts only. -/
def ShapeSafe (d : FlowControl) : PortOp → Prop
  | .create content clen _ => d.tx.mcastFpp.val = 2 → EvenGroups content clen
  | _ => True


/-- The checks of the flow-control port, and the guard of a 0x2201 request, are what the shapes
need. -/
theorem ShapeSafe.pathSafe {d : FlowControl} {op : PortOp} (h : ShapeSafe d op) :
    PathSafe (fun _ r => ¬ OddPair r.fpp.val r.nslots.val)
      (fun size n => ¬ OddPair size.val n.val) d op := by
  cases op with
  | flows q now reads =>
      intro _ r hr _
      obtain ⟨hfpp, hslots, hodd⟩ := check_bind hr
      rw [hfpp, hslots]
      exact hodd
  | create content clen env =>
      rintro i hi g hg ⟨htwo, hodd⟩
      have heven := h htwo i hi
      rw [hg, Option.all_some, beq_iff_eq] at heven
      omega
  | stats q now reads => exact fun hodd => absurd hodd.2 (by decide)
  | init => trivial
  | delete content clen => trivial
  | latency => trivial
  | reseed sub => trivial
  | talker on => trivial
  | stack net => trivial

/-! ## Clamped requests -/

/-- A request whose packet size is clamped and that nothing else speaks against. -/
structure ClampedAsk (d : FlowControl) (q : Datagram) : Prop where
  handled : q.handled
  clamp : d.policy.fppClamp = true
  above : d.policy.fppMaxAccept.toNat < q.fpp
  rate : q.rate = d.policy.sampleRate.toNat
  bits : q.bits = d.policy.bitsPerSample.toNat
  slots : 1 ≤ q.nch ∧ q.nch ≤ 8
  receiver : arpResolve d.net q.dst ≠ none

/-- The request is accepted, and a context serves it with a supported packet size. -/
structure YieldsContext (d : FlowControl) (now : UInt32) (reads : Nat → Nat × Nat)
    (q : Datagram) : Prop where
  code : (decidedReply d now reads q).code = danteCodeOk
  context : ∃ f, ((flowsRx d now reads q).tx.flows f).inUse = true ∧
    ((flowsRx d now reads q).tx.flows f).peer = q.srcIp ∧
    ((flowsRx d now reads q).tx.flows f).dst = q.dst ∧
    ((flowsRx d now reads q).tx.flows f).dport = q.dport ∧
    ((flowsRx d now reads q).tx.flows f).nslots.val = q.nch ∧
    danteTxFppSupported d.policy ((flowsRx d now reads q).tx.flows f).fpp.val

/-- The limit that requests are clamped to is itself a size the request can have. -/
def Clampable (p : FlowPolicy) (nch : Nat) : Prop :=
  p.fppMaxAccept.toNat ∈ kFppTable ∧ ¬ (p.fppMaxAccept.toNat = 2 ∧ nch % 2 = 1)

section Clamp

variable {d : FlowControl} {q : Datagram}

theorem ClampedAsk.clampFpp (h : ClampedAsk d q) :
    clampFpp d.policy q.fpp = d.policy.fppMaxAccept.toNat := by
  rw [Firmware.clampFpp, if_pos ⟨h.clamp, h.above⟩]

theorem ClampedAsk.shape_iff (h : ClampedAsk d q) :
    (danteTxFppSupported d.policy (Firmware.clampFpp d.policy q.fpp) ∧
      ¬ (Firmware.clampFpp d.policy q.fpp = 2 ∧ q.nch % 2 = 1)) ↔
        Clampable d.policy q.nch := by
  rw [h.clampFpp]
  exact and_congr_left fun _ => and_iff_right le_rfl

theorem ClampedAsk.rates (h : ClampedAsk d q) :
    ¬ (q.rate ≠ d.policy.sampleRate.toNat ∨ q.bits ≠ d.policy.bitsPerSample.toNat) :=
  not_or.2 ⟨not_not.2 h.rate, not_not.2 h.bits⟩

/-- The checks of a clamped request come down to the limit. -/
theorem ClampedAsk.check_bind (h : ClampedAsk d q) (hc : Clampable d.policy q.nch) :
    ∃ r, check d.policy q = .bind r ∧ r.peer = q.srcIp ∧ r.dst = q.dst ∧ r.dport = q.dport ∧
      r.nslots.val = q.nch ∧ r.fpp.val = d.policy.fppMaxAccept.toNat := by
  unfold check
  simp only
  rw [if_neg h.rates, dif_pos (h.shape_iff.2 hc), dif_pos h.slots]
  exact ⟨_, rfl, rfl, rfl, rfl, rfl, h.clampFpp⟩

theorem ClampedAsk.check_refuse (h : ClampedAsk d q) (hc : ¬ Clampable d.policy q.nch) :
    check d.policy q = .refuse codeRateMismatch := by
  unfold check
  simp only
  rw [if_neg h.rates, dif_neg (mt h.shape_iff.1 hc)]

/-- A clamped request is served exactly if the limit is a size it can have. -/
theorem yieldsContext_iff (h : ClampedAsk d q) (now : UInt32) (reads : Nat → Nat × Nat) :
    YieldsContext d now reads q ↔ Clampable d.policy q.nch := by
  constructor
  · intro hy
    by_contra hc
    have hcode := hy.code
    rw [decidedReply, if_pos h.handled.2.2, h.check_refuse hc] at hcode
    cases hcode
  · intro hc
    obtain ⟨r, hr, hpeer, hdst, hport, hslots, hfpp⟩ := h.check_bind hc
    obtain ⟨dmac, hmac⟩ := Option.ne_none_iff_exists'.1 h.receiver
    rw [← hdst] at hmac
    have hbound := bindUnicast_bound d.synced r dmac now reads
    have htx : (flowsRx d now reads q).tx = (bindUnicast d.synced r dmac now reads).1 := by
      rw [tx_flowsRx, if_pos h.handled, hr]
      simp only [verdictTx, hmac]
    refine ⟨?_, (bindUnicast d.synced r dmac now reads).2, ?_⟩
    · rw [decidedReply, if_pos h.handled.2.2, hr]
      simp only [verdictReply, hmac, boundReply]
    · rw [htx]
      refine ⟨hbound.serves.inUse, hbound.serves.peer.trans hpeer, hbound.serves.dst.trans hdst,
        hbound.serves.dport.trans hport, (congrArg Subtype.val hbound.serves.nslots).trans hslots,
        ?_⟩
      rw [hbound.serves.fpp, hfpp]
      exact ⟨le_rfl, hc.1⟩

end Clamp

/-! ## Every run -/

/-- In every run in which no group with an odd slot count is created at two samples a packet,
every context in use has a bindable shape; and a clamped request is served exactly if the limit
is a size it can have. -/
theorem bindable_geometry (net : Net) (mac : Mac) (ops : List PortOp)
    (h : Along portStep ShapeSafe (FlowControl.boot net mac) ops) :
    Shaped (portsAfter net mac ops).tx.flows ∧
      ∀ now reads q, ClampedAsk (portsAfter net mac ops) q →
        (YieldsContext (portsAfter net mac ops) now reads q ↔
          Clampable (portsAfter net mac ops).policy q.nch) :=
  ⟨shaped_path.run (fun _ huse => Bool.noConfusion huse) (h.mono fun _ _ => ShapeSafe.pathSafe),
    fun now reads _ hask => yieldsContext_iff hask now reads⟩

/-! ## Settings that break a shape -/

instance (content : Mem) (clen : Nat) : Decidable (EvenGroups content clen) :=
  inferInstanceAs (Decidable (∀ i < _, _))

instance (d : FlowControl) : ∀ op, Decidable (ShapeSafe d op)
  | .create content clen _ => inferInstanceAs (Decidable (_ → EvenGroups content clen))
  | .init => inferInstanceAs (Decidable True)
  | .flows .. => inferInstanceAs (Decidable True)
  | .delete .. => inferInstanceAs (Decidable True)
  | .latency => inferInstanceAs (Decidable True)
  | .stats .. => inferInstanceAs (Decidable True)
  | .reseed .. => inferInstanceAs (Decidable True)
  | .talker .. => inferInstanceAs (Decidable True)
  | .stack .. => inferInstanceAs (Decidable True)

/-- A datagram with these bytes from a host on the link. -/
def knob (bytes : List UInt8) : PortOp :=
  .stats ⟨⟨169, 254, 1, 2⟩, 40000, fun k => bytes.getD k 0, bytes.length⟩ 0 fun _ => (0, 0)

/-- A 0x2201 request for group 32 on channels 1 to `n`. -/
def askGroup (n : UInt8) : PortOp :=
  .create (fun k => ([0, 1, 0, 14, 0, 32, 0, 2, 0, 0, 0, 0, 0, 0, 0, 0, 0, 0, 0, n,
    0, 1, 0, 2] : List UInt8).getD k 0) 24 fun _ => (0, fun _ => (0, 0))

/-- The same receiver as `heardOnce`, asking for 16 samples at its own address. -/
def ownRequest : Datagram :=
  { crossRequest with req := fun k => if k = 43 then 2 else crossRequest.req k }

def shapeSession (ops : List PortOp) : FlowControl :=
  portsAfter heardOnce.net ⟨2, 0, 0, 0, 9, 200⟩ ops

theorem bindable_geometry_session :
    Shaped (shapeSession [knob [0x4D, 0x32], askGroup 2, knob [0x58, 8], knob [0x43, 1]]).tx.flows :=
  (bindable_geometry heardOnce.net ⟨2, 0, 0, 0, 9, 200⟩
    [knob [0x4D, 0x32], askGroup 2, knob [0x58, 8], knob [0x43, 1]] (by decide)).1

/-- After `M2` a one-channel group is bound with six bytes of payload; and with the limit set to
10 and the clamp on, a request for 16 samples is clamped to 10 and refused for it. -/
theorem bindable_geometry_breaks :
    ¬ Shaped (shapeSession [knob [0x4D, 0x32], askGroup 1]).tx.flows ∧
      ClampedAsk (shapeSession [knob [0x58, 10], knob [0x43, 1], .stack heardOnce.net])
        ownRequest ∧
      ¬ YieldsContext (shapeSession [knob [0x58, 10], knob [0x43, 1], .stack heardOnce.net])
        0 (fun _ => (0, 0)) ownRequest := by
  have hask : ClampedAsk
      (shapeSession [knob [0x58, 10], knob [0x43, 1], .stack heardOnce.net]) ownRequest :=
    ⟨by decide, by decide, by decide, by decide, by decide, by decide, by decide⟩
  refine ⟨fun h => ?_, hask, ?_⟩
  · have hbind := h 0 (by decide)
    rw [bindable_iff] at hbind
    exact absurd hbind (by decide)
  · rw [yieldsContext_iff hask]
    rintro ⟨htable, -⟩
    exact absurd htable (by decide)

end Firmware
end InfernoFpga
