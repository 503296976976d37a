import InfernoFpga.Firmware.StepCount

/-!
# TalkerGate — when the talker is on

The main loop polls the gate of `dante_tx.c` while the console leaves the gateware talker in the
path, and holds the enable bit down while it does not.  The console's `'t'` and `'T'` act on the
same bit from outside the gate.
-/

namespace InfernoFpga
namespace Firmware

open Lib
open Packetizer (CtxId Word)
open Ptpv1 (Timestamp Servo Slave)

/-! ## The main loop around the gate -/

/-- A request to the flow table: everything but initialisation, which only the console asks for. -/
def TxOp.isRequest : TxOp → Bool
  | .init => false
  | .talker _ => false
  | _ => true

abbrev FlowRequest := { op : TxOp // op.isRequest = true }

/-- The device and `aaf_gw_enabled`. -/
structure Gated where
  device : Device
  gwEnabled : Bool

namespace Gated

variable (x : Gated)

/-- `talker_on`. -/
def talkerOn : Bool := x.device.talker.tx.talkerOn

/-- The enable bit of the packetizer. -/
def enable : Bool := x.device.talker.tx.gw.csr.enable

/-- `g_ptpv1.locked`. -/
def locked : Bool := x.device.slave.servo.locked

end Gated

/-- What happens around the gate: events of PTP, requests for flows, a runtime offset, one pass
of the main loop, and the console's `'t'` and `'T'`. -/
inductive GateEvent
  | ptp (e : Ptpv1.PtpEvent)
  | flows (op : FlowRequest)
  | tsOffset (v : Int) (t : Timestamp)
  | pass (i : TxPoll)
  | console (on : Bool)

def Gated.withTx (x : Gated) (f : Tx → Tx) : Gated :=
  { x with device := { x.device with talker := { x.device.talker with tx := f x.device.talker.tx } } }

def gateStep (x : Gated) : GateEvent → Gated
  | .ptp e => { x with device := deviceStep x.device (.ptp e) }
  | .flows op => { x with device := deviceStep x.device (.flows op.1) }
  | .tsOffset v t => { x with device := deviceStep x.device (.tsOffset v t) }
  | .pass i =>
      if x.gwEnabled then { x with device := deviceStep x.device (.poll i) }
      else if x.talkerOn then x.withTx fun t => { t with gw := t.gw.writeEnable false }
      else x
  | .console on => { x.withTx fun t => aafGwSet t on with gwEnabled := on }

/-- Before the main loop: `dante_tx_init`, then `aaf_gw_set(1)`. -/
def Gated.boot (uuid : Mac) (cfgAddend : Option Int) (netIp : Ip) (mac : Mac) : Gated :=
  ⟨Device.boot uuid cfgAddend (aafGwSet (danteTxInit (Tx.boot netIp mac)) true), true⟩

/-! ## What leaves the gate alone -/

/-- Neither `talker_on` nor the enable bit has changed. -/
def SameGate (t t' : Tx) : Prop :=
  t'.talkerOn = t.talkerOn ∧ t'.gw.csr.enable = t.gw.csr.enable

theorem SameGate.refl (t : Tx) : SameGate t t := ⟨rfl, rfl⟩

theorem SameGate.trans {t₁ t₂ t₃ : Tx} (h : SameGate t₁ t₂) (h' : SameGate t₂ t₃) :
    SameGate t₁ t₃ :=
  ⟨h'.1.trans h.1, h'.2.trans h.2⟩

theorem sameGate_foldl {f : Tx → CtxId → Tx} (hf : ∀ t c, SameGate t (f t c)) (t : Tx) :
    SameGate t ((List.finRange nFlows).foldl f t) :=
  run_invariant (P := fun t' => SameGate t t') f (fun t' c h => h.trans (hf t' c))
    (List.finRange nFlows) (SameGate.refl t)

theorem enable_seedLoop (fpp adj : Nat) (cfg : BitVec 8) (reads : Nat → Nat × Nat) :
    ∀ tries k g, (seedLoop fpp adj cfg reads tries k g).csr.enable = g.csr.enable
  | 0, _, _ => rfl
  | tries + 1, k, g => by
      rw [seedLoop]
      split
      · rfl
      · exact enable_seedLoop fpp adj cfg reads tries (k + 1) _

theorem enable_writeCtx (t : Tx) (f : CtxId) (dst : Ip) (dmac : Mac) (dport : BitVec 16)
    (chans : Fin 8 → BitVec 16) (nslots fpp : Nat) (reads : Nat → Nat × Nat) :
    (writeCtx t f dst dmac dport chans nslots fpp reads).csr.enable = t.gw.csr.enable :=
  enable_seedLoop _ _ _ _ _ _ _

theorem sameGate_unbind (t : Tx) (f : CtxId) : SameGate t (unbind t f) := by
  rw [unbind]
  split <;> exact ⟨rfl, rfl⟩

theorem sameGate_bindUnicastInto (t : Tx) (f : CtxId) (r : UnicastReq) (dmac : Mac) (now : UInt32)
    (reads : Nat → Nat × Nat) : SameGate t (bindUnicastInto t f r dmac now reads) :=
  ⟨rfl, enable_writeCtx _ _ _ _ _ _ _ _ _⟩

theorem sameGate_bindMulticastInto (t : Tx) (f : CtxId) (extId : BitVec 16)
    (chans : Fin 8 → BitVec 16) (n : SlotCount) (now : UInt32) (reads : Nat → Nat × Nat) :
    SameGate t (bindMulticastInto t f extId chans n now reads) :=
  ⟨rfl, enable_writeCtx _ _ _ _ _ _ _ _ _⟩

theorem sameGate_reseedPhases (t : Tx) (sub : Nat) : SameGate t (reseedPhases t sub) := by
  refine sameGate_foldl (fun t c => ?_) t
  simp only [reseedFlow]
  split <;> exact ⟨rfl, rfl⟩

theorem enable_reseedPhases (t : Tx) (sub : Nat) :
    (reseedPhases t sub).gw.csr.enable = t.gw.csr.enable := (sameGate_reseedPhases t sub).2

theorem sameGate_tsAnchor (k : Talker) (t : Timestamp) : SameGate k.tx (tsAnchor k t).tx :=
  ⟨tsAnchor_talkerOn k t, enable_reseedPhases _ _⟩

/-- A request for flows never touches the gate. -/
theorem sameGate_request (t : Tx) (op : FlowRequest) : SameGate t (txStep t op.1) := by
  obtain ⟨op, hop⟩ := op
  cases op with
  | init => cases hop
  | talker on => cases hop
  | unicast r dmac now reads =>
      cases dmac with
      | none => exact SameGate.refl t
      | some dmac =>
          simp only [txStep, bindUnicast]
          split
          · exact sameGate_bindUnicastInto _ _ _ _ _ _
          · split <;> exact sameGate_bindUnicastInto _ _ _ _ _ _
  | multicast extId chans n now reads =>
      simp only [txStep, bindMulticast]
      split
      · exact sameGate_bindMulticastInto _ _ _ _ _ _ _
      · split
        · exact sameGate_bindMulticastInto _ _ _ _ _ _ _
        · exact (sameGate_unbind t _).trans (sameGate_bindMulticastInto _ _ _ _ _ _ _)
  | unbind f => exact sameGate_unbind t f
  | dropAll => exact sameGate_foldl sameGate_unbind t
  | reseed sub => exact sameGate_reseedPhases t sub
  | setMcastFpp fpp => exact SameGate.refl t

/-- Initialisation holds `talker_on` off and leaves the enable bit as it is. -/
theorem gate_danteTxInit (t : Tx) :
    (danteTxInit t).talkerOn = false ∧ (danteTxInit t).gw.csr.enable = t.gw.csr.enable := by
  have hbind : ∀ t f, SameGate t (bindFlow t f) := fun t f => ⟨rfl, by
    simp only [bindFlow, Gateware.writeFlowCfg_csr, writeHeader, Gateware.writeUdpDport_csr,
      Gateware.writeDstMacLo_csr, writeHeaderRegs, Gateware.writeDstIp, Gateware.writeIpCsum,
      Gateware.writeUdpSport, Gateware.writeDstMacHi, Gateware.writeCtxSelect]⟩
  obtain ⟨hon, henable⟩ := sameGate_foldl hbind (initShared t)
  exact ⟨hon, henable⟩

/-! ## What a poll does to the gate -/

/-- The talker, anchored, is switched on. -/
def Talker.opened (k : Talker) : Talker :=
  { k with
    tx := { k.tx with gw := k.tx.gw.writeEnable true, talkerOn := true }
    enables := k.enables + 1 }

/-- The lock's time is kept. -/
structure KeepsLock (k k' : Talker) : Prop where
  lockSince : k'.lockSince = k.lockSince
  wasLocked : k'.wasLocked = k.wasLocked

theorem KeepsLock.trans {k₁ k₂ k₃ : Talker} (h : KeepsLock k₁ k₂) (h' : KeepsLock k₂ k₃) :
    KeepsLock k₁ k₃ :=
  ⟨h'.1.trans h.1, h'.2.trans h.2⟩

theorem keepsLock_followSteps (k : Talker) (s : Servo) (i : TxPoll) :
    KeepsLock k (followSteps k s i) := by
  simp only [followSteps]
  split <;> split <;> (try split) <;> exact ⟨rfl, rfl⟩

/-- The guard counts a bad reading, or forgets them, or anchors. -/
theorem guardPhase_cases (k : Talker) (i : TxPoll) :
    (∃ streak, guardPhase k i = { k with badStreak := streak }) ∨
      guardPhase k i = tsAnchor { k with badStreak := 0 } i.guardAnchorTime := by
  have hstreak : ∀ streak : UInt8,
      (if 2 ≤ streak then tsAnchor { k with badStreak := 0 } i.guardAnchorTime
        else { k with badStreak := streak }) = { k with badStreak := streak } ∨
      (if 2 ≤ streak then tsAnchor { k with badStreak := 0 } i.guardAnchorTime
        else { k with badStreak := streak }) = tsAnchor { k with badStreak := 0 } i.guardAnchorTime := by
    intro streak
    split
    · exact Or.inr rfl
    · exact Or.inl rfl
  exact (hstreak _).imp_left fun h => ⟨_, h⟩

theorem keepsLock_guardPhase (k : Talker) (i : TxPoll) : KeepsLock k (guardPhase k i) := by
  obtain ⟨streak, h⟩ | h := guardPhase_cases k i <;> rw [h] <;> exact ⟨rfl, rfl⟩

theorem keepsLock_switchTalker (k : Talker) (want : Bool) (i : TxPoll) :
    KeepsLock k (switchTalker k want i) := by
  simp only [switchTalker]
  split
  · exact ⟨rfl, rfl⟩
  · split <;> exact ⟨rfl, rfl⟩

theorem sameGate_followSteps (k : Talker) (s : Servo) (i : TxPoll) :
    SameGate k.tx (followSteps k s i).tx := by
  simp only [followSteps]
  split <;> split <;> (try split) <;>
    first | exact SameGate.refl _ | exact sameGate_tsAnchor _ _

theorem sameGate_guardPhase (k : Talker) (i : TxPoll) : SameGate k.tx (guardPhase k i).tx := by
  obtain ⟨streak, h⟩ | h := guardPhase_cases k i
  · rw [h]
    exact SameGate.refl _
  · rw [h]
    exact sameGate_tsAnchor { k with badStreak := 0 } _

/-- What the poll wants the talker to be. -/
def wanted (k : Talker) (s : Servo) (i : TxPoll) : Bool :=
  settled (noteLock k s i) s i &&
    decide (0 < danteTxActive (followSteps (noteLock k s i) s i).tx) && i.rateReady

/-- The talker as it meets the switch at the end of the poll. -/
def beforeSwitch (k : Talker) (s : Servo) (i : TxPoll) : Talker :=
  let k' := followSteps (noteLock k s i) s i
  if k'.tx.talkerOn && wanted k s i then guardPhase k' i else k'

theorem danteTxPoll_eq (k : Talker) (s : Servo) (i : TxPoll) :
    danteTxPoll k s i = switchTalker (beforeSwitch k s i) (wanted k s i) i := rfl

theorem beforeSwitch_spec (k : Talker) (s : Servo) (i : TxPoll) :
    SameGate k.tx (beforeSwitch k s i).tx ∧ KeepsLock (noteLock k s i) (beforeSwitch k s i) := by
  have hgate := sameGate_followSteps (noteLock k s i) s i
  have hlock := keepsLock_followSteps (noteLock k s i) s i
  simp only [beforeSwitch]
  split
  · exact ⟨SameGate.trans hgate (sameGate_guardPhase _ i), hlock.trans (keepsLock_guardPhase _ i)⟩
  · exact ⟨hgate, hlock⟩

/-- After a poll the talker is what the poll wanted, and so is the enable bit if the two agreed. -/
theorem gate_danteTxPoll (k : Talker) (s : Servo) (i : TxPoll)
    (h : k.tx.gw.csr.enable = k.tx.talkerOn) :
    (danteTxPoll k s i).tx.gw.csr.enable = (danteTxPoll k s i).tx.talkerOn := by
  obtain ⟨⟨hon, henable⟩, -⟩ := beforeSwitch_spec k s i
  rw [danteTxPoll_eq, switchTalker]
  split
  · rw [henable, hon, h]
  · split <;> rfl

theorem lock_danteTxPoll (k : Talker) (s : Servo) (i : TxPoll) :
    KeepsLock (noteLock k s i) (danteTxPoll k s i) := by
  rw [danteTxPoll_eq]
  exact (beforeSwitch_spec k s i).2.trans (keepsLock_switchTalker _ _ i)

/-- A talker that is off does not follow the step counter. -/
theorem followSteps_off {k : Talker} (s : Servo) (i : TxPoll) (hoff : k.tx.talkerOn = false) :
    (followSteps k s i).tx = k.tx ∧ (followSteps k s i).tsOffsetSamples = k.tsOffsetSamples := by
  simp only [followSteps]
  split <;> split <;> simp [hoff]

/-- What a poll that opens the gate has found, and the last thing it did before. -/
structure PollOpens (k : Talker) (s : Servo) (i : TxPoll) (since : UInt32) : Prop where
  locked : s.locked = true
  settled : ptpSettleMs ≤ (i.settleMs - since).toNat
  pathDelay : s.meanPathDelayNs ≠ 0
  phase : s.phaseSettled = true ∨ phaseSettleMaxMs ≤ (i.phaseMs - since).toNat
  active : 0 < danteTxActive k.tx
  rateReady : i.rateReady = true
  anchored : ∃ k' : Talker, k'.tx = k.tx ∧ k'.tsOffsetSamples = k.tsOffsetSamples ∧
    danteTxPoll k s i = (tsAnchor k' i.enableTime).opened

theorem pollOpens {k : Talker} {s : Servo} {i : TxPoll} (hoff : k.tx.talkerOn = false)
    (hon : (danteTxPoll k s i).tx.talkerOn = true) :
    PollOpens k s i (noteLock k s i).lockSince := by
  obtain ⟨htx, hoffset⟩ := followSteps_off (k := noteLock k s i) s i hoff
  have hbefore : beforeSwitch k s i = followSteps (noteLock k s i) s i := by
    have hstill : (followSteps (noteLock k s i) s i).tx.talkerOn = false := by rw [htx]; exact hoff
    simp only [beforeSwitch, hstill, Bool.false_and, Bool.false_eq_true, if_false]
  rw [danteTxPoll_eq, hbefore] at hon
  have hstill : (followSteps (noteLock k s i) s i).tx.talkerOn = false := by rw [htx]; exact hoff
  have hwant : wanted k s i = true := by
    cases hwant : wanted k s i with
    | true => rfl
    | false => simp [hwant, switchTalker, hstill] at hon
  have hopen : danteTxPoll k s i =
      (tsAnchor (followSteps (noteLock k s i) s i) i.enableTime).opened := by
    rw [danteTxPoll_eq, hbefore, hwant, switchTalker, if_neg (by simp [hstill]), if_pos rfl]
    rfl
  simp only [wanted, settled, htx, Bool.and_eq_true, Bool.or_eq_true, decide_eq_true_eq, bne_iff_ne,
    ne_eq] at hwant
  obtain ⟨⟨⟨⟨⟨hlocked, hphase⟩, hpath⟩, hsettled⟩, hactive⟩, hrate⟩ := hwant
  exact ⟨hlocked, hsettled, hpath, hphase, hactive, hrate, _, htx, hoffset, hopen⟩

/-! ## The enable bit -/

/-- `talker_on` is the enable bit. -/
def Matched (x : Gated) : Prop := x.enable = x.talkerOn

/-- The console acts on a talker that is off. -/
def ConsoleSafe (x : Gated) (e : GateEvent) : Prop :=
  ∀ on, e = .console on → x.talkerOn = false

/-- With the gateware out of the path the talker is off. -/
def Parked (x : Gated) : Prop := x.gwEnabled = false → x.talkerOn = false

theorem parked_gateStep {x : Gated} {e : GateEvent} (hp : Parked x) (h : Matched (gateStep x e)) :
    Parked (gateStep x e) := by
  cases e with
  | ptp e => exact hp
  | flows op =>
      intro hoff
      exact (sameGate_request _ op).1.trans (hp hoff)
  | tsOffset v t =>
      intro hoff
      exact (sameGate_tsAnchor _ t).1.trans (hp hoff)
  | pass i =>
      intro hoff
      cases hgw : x.gwEnabled with
      | true =>
          simp [gateStep, hgw] at hoff
      | false =>
          have hpark := hp hgw
          have hstep : gateStep x (.pass i) = x := by simp [gateStep, hgw, hpark]
          rw [hstep]
          exact hpark
  | console on =>
      intro hoff
      cases on with
      | true => cases hoff
      | false => exact h.symm

theorem matched_gateStep {x : Gated} {e : GateEvent} (hp : Parked x) (h : Matched x) :
    Matched (gateStep x e) ↔ ConsoleSafe x e := by
  have hcalm : (∀ on, e ≠ .console on) → Matched (gateStep x e) →
      (Matched (gateStep x e) ↔ ConsoleSafe x e) := fun he hm =>
    ⟨fun _ on hon => absurd hon (he on), fun _ => hm⟩
  cases e with
  | ptp e => exact hcalm (fun _ h => by cases h) h
  | flows op =>
      have hsame := sameGate_request x.device.talker.tx op
      exact hcalm (fun _ h => by cases h) ((hsame.2.trans h).trans hsame.1.symm)
  | tsOffset v t =>
      have hsame := sameGate_tsAnchor { x.device.talker with tsOffsetSamples := v } t
      exact hcalm (fun _ h => by cases h) ((hsame.2.trans h).trans hsame.1.symm)
  | pass i =>
      refine hcalm (fun _ h => by cases h) ?_
      cases hgw : x.gwEnabled with
      | true =>
          have hpoll := gate_danteTxPoll x.device.talker x.device.slave.servo i h
          simp only [gateStep, hgw, if_true]
          exact hpoll
      | false =>
          have hstep : gateStep x (.pass i) = x := by simp [gateStep, hgw, hp hgw]
          rw [hstep]
          exact h
  | console on =>
      cases on with
      | true =>
          obtain ⟨hoff, hkept⟩ := gate_danteTxInit x.device.talker.tx
          have hbit : Matched (gateStep x (.console true)) ↔ x.enable = false := by
            show (danteTxInit x.device.talker.tx).gw.csr.enable = (danteTxInit x.device.talker.tx).talkerOn ↔ _
            rw [hoff, hkept]
            rfl
          rw [hbit, h]
          exact ⟨fun hon _ _ => hon, fun hsafe => hsafe true rfl⟩
      | false =>
          have hbit : Matched (gateStep x (.console false)) ↔ x.talkerOn = false :=
            ⟨fun hon => hon.symm, fun hoff => hoff.symm⟩
          rw [hbit]
          exact ⟨fun hon _ _ => hon, fun hsafe => hsafe false rfl⟩

/-! ## The time of the lock -/

/-- The uptime of the first poll since which PTP has been locked at every moment. -/
def noteHeld (x : Gated) (e : GateEvent) (since : Option UInt32) : Option UInt32 :=
  if (gateStep x e).locked then
    match e with
    | .pass i => if x.gwEnabled then some (since.getD i.lockMs) else since
    | _ => since
  else none

/-- PTP gains lock only after the gate has seen it without. -/
def LockSeen (x : Gated) (e : GateEvent) : Prop :=
  x.locked = false → (gateStep x e).locked = true → x.device.talker.wasLocked = false

instance (x : Gated) (e : GateEvent) : Decidable (LockSeen x e) :=
  inferInstanceAs (Decidable (_ → _ → _))

/-- The gate's own record of the lock is the true one. -/
structure HeldSince (p : Gated × Option UInt32) : Prop where
  noted : p.2 ≠ none → p.1.device.talker.wasLocked = true
  since : p.1.locked = true → p.1.device.talker.wasLocked = true →
    p.2 = some p.1.device.talker.lockSince

/-- Between polls the record stands, as long as no lock is gained behind the gate's back. -/
theorem heldSince_between {x x' : Gated} {since : Option UInt32} (h : HeldSince (x, since))
    (hkept : KeepsLock x.device.talker x'.device.talker)
    (hseen : x.locked = false → x'.locked = true → x.device.talker.wasLocked = false) :
    HeldSince (x', if x'.locked then since else none) := by
  constructor
  · intro hsome
    rw [hkept.wasLocked]
    cases hl : x'.locked <;> simp only [hl, if_true, if_false, Bool.false_eq_true] at hsome
    · exact absurd rfl hsome
    · exact h.noted hsome
  · intro hl hwas
    rw [hkept.wasLocked] at hwas
    rw [hkept.lockSince, if_pos hl]
    cases hbefore : x.locked with
    | true => exact h.since hbefore hwas
    | false => exact absurd ((hseen hbefore hl).symm.trans hwas) Bool.false_ne_true

/-- A poll brings the record up to date. -/
theorem heldSince_poll {x : Gated} {since : Option UInt32} (h : HeldSince (x, since)) (i : TxPoll)
    (hl : x.locked = true) :
    some (since.getD i.lockMs) =
      some (noteLock x.device.talker x.device.slave.servo i).lockSince := by
  have hservo : x.device.slave.servo.locked = true := hl
  simp only [noteLock, hservo, Bool.true_and]
  cases hwas : x.device.talker.wasLocked with
  | true =>
      have hsince : since = some x.device.talker.lockSince := h.since hl hwas
      rw [hsince]
      rfl
  | false =>
      have hnone : since = none := by
        by_contra hsome
        exact absurd ((h.noted hsome).symm.trans hwas).symm Bool.false_ne_true
      rw [hnone]
      rfl

theorem heldSince_gateStep (p : Gated × Option UInt32) (e : GateEvent) (hseen : LockSeen p.1 e)
    (h : HeldSince p) : HeldSince (watch gateStep noteHeld p e) := by
  obtain ⟨x, since⟩ := p
  cases e with
  | ptp e => exact heldSince_between h ⟨rfl, rfl⟩ hseen
  | flows op => exact heldSince_between h ⟨rfl, rfl⟩ hseen
  | tsOffset v t => exact heldSince_between h ⟨rfl, rfl⟩ hseen
  | console on => exact heldSince_between h ⟨rfl, rfl⟩ hseen
  | pass i =>
      cases hgw : x.gwEnabled with
      | false =>
          have hkept : KeepsLock x.device.talker (gateStep x (.pass i)).device.talker := by
            simp only [gateStep, hgw, Bool.false_eq_true, if_false]
            split <;> exact ⟨rfl, rfl⟩
          have hnote : noteHeld x (.pass i) since =
              if (gateStep x (.pass i)).locked then since else none := by
            simp only [noteHeld, hgw, Bool.false_eq_true, if_false]
          rw [watch, hnote]
          exact heldSince_between h hkept hseen
      | true =>
          have hstep : gateStep x (.pass i) = { x with
              device := { x.device with
                talker := danteTxPoll x.device.talker x.device.slave.servo i } } := by
            simp only [gateStep, hgw, if_true, deviceStep]
          have hkept := lock_danteTxPoll x.device.talker x.device.slave.servo i
          have hlocked : (gateStep x (.pass i)).locked = x.locked := by rw [hstep]; rfl
          have hnote : noteHeld x (.pass i) since =
              if x.locked then some (since.getD i.lockMs) else none := by
            simp only [noteHeld, hlocked, hgw, if_true]
          rw [watch, hnote]
          constructor
          · intro hsome
            rw [hstep]
            cases hl : x.locked with
            | true => exact hkept.wasLocked.trans hl
            | false => simp [hl] at hsome
          · intro hl _
            simp only at hl
            rw [hlocked] at hl
            rw [if_pos hl, heldSince_poll h i hl, hstep]
            exact congrArg some hkept.lockSince.symm

/-! ## Runs -/

/-- The talker is switched on only by a poll that has found everything in order, the lock held
at every moment since an uptime that is long enough ago. -/
def Opens (p : Gated × Option UInt32) (e : GateEvent) : Prop :=
  p.1.talkerOn = false → (gateStep p.1 e).talkerOn = true →
    ∃ i since, e = .pass i ∧ p.1.gwEnabled = true ∧ noteHeld p.1 e p.2 = some since ∧
      PollOpens p.1.device.talker p.1.device.slave.servo i since

theorem opens_of_heldSince {p : Gated × Option UInt32} (h : HeldSince p) (e : GateEvent) :
    Opens p e := by
  obtain ⟨x, since⟩ := p
  intro hoff hon
  cases e with
  | ptp e => exact absurd (hoff.symm.trans hon) Bool.false_ne_true
  | flows op =>
      have hsame : (gateStep x (.flows op)).talkerOn = x.talkerOn := (sameGate_request _ op).1
      exact absurd ((hsame.trans hoff).symm.trans hon) Bool.false_ne_true
  | tsOffset v t =>
      have hsame : (gateStep x (.tsOffset v t)).talkerOn = x.talkerOn := (sameGate_tsAnchor _ t).1
      exact absurd ((hsame.trans hoff).symm.trans hon) Bool.false_ne_true
  | console on =>
      cases on with
      | true => exact absurd ((gate_danteTxInit x.device.talker.tx).1.symm.trans hon) Bool.false_ne_true
      | false => exact absurd (hoff.symm.trans hon) Bool.false_ne_true
  | pass i =>
      cases hgw : x.gwEnabled with
      | false =>
          have hstep : gateStep x (.pass i) = x := by
            have hoff' : x.talkerOn = false := hoff
            simp [gateStep, hgw, hoff']
          rw [hstep] at hon
          exact absurd (hoff.symm.trans hon) Bool.false_ne_true
      | true =>
          simp only [gateStep, hgw, if_true] at hon
          have hopens := pollOpens hoff hon
          have hl : x.locked = true := hopens.locked
          refine ⟨i, _, rfl, rfl, ?_, hopens⟩
          have hlocked : (gateStep x (.pass i)).locked = x.locked := by
            simp only [gateStep, hgw, if_true]
            rfl
          simp only [noteHeld, hlocked, hl, hgw, if_true]
          exact heldSince_poll h i hl

/-- Over any run from boot: `talker_on` is the enable bit at every moment exactly if the console
acts on a talker that is off only, and as long as PTP gains lock only after the gate has seen it
without, the talker is switched on only when everything is in order. -/
theorem talker_gate (uuid : Mac) (cfgAddend : Option Int) (netIp : Ip) (mac : Mac)
    (es : List GateEvent) :
    let x := Gated.boot uuid cfgAddend netIp mac
    ((∀ t ≤ es.length, Matched (moment gateStep x es t)) ↔ Along gateStep ConsoleSafe x es) ∧
    (Along gateStep LockSeen x es → Along (watch gateStep noteHeld) Opens (x, none) es) := by
  intro x
  have hoff : x.talkerOn = false := rfl
  refine ⟨?_, fun hseen => ?_⟩
  · have hbit : x.enable = false :=
      (gate_danteTxInit (danteTxInit (Tx.boot netIp mac))).2.trans
        (gate_danteTxInit (Tx.boot netIp mac)).2
    exact kept_iff_along (fun x e hp _ h => parked_gateStep hp h)
      (fun x e hp h => matched_gateStep hp h) es (fun _ => hoff) (hbit.trans hoff.symm)
  · have hstart : HeldSince (x, none) :=
      ⟨fun h => absurd rfl h, fun _ hwas => by cases hwas⟩
    have hwatched : Along (watch gateStep noteHeld) (fun p e => LockSeen p.1 e) (x, none) es :=
      along_watch hseen
    exact (hwatched.strengthen heldSince_gateStep hstart).mono fun p e h => opens_of_heldSince h.2 e

/-! ## The console on a talker that is on -/

open Ptpv1 in
/-- A warm boot locks: one path delay of 20 us, then offsets of zero after the grace time. -/
def lockingRun : List PtpEvent :=
  syncPair 1 ⟨100, 0⟩ ⟨100, 20000⟩ 1000 ++
    [.poll (Net.boot fun _ _ => 0) 1500 ⟨100, 500000000⟩,
      .rx (ptpMessage leaderA 3 ctrlDelayResp 0 (Mem.be32 100 ++ Mem.be32 500020000 ++ [0, 0] ++
        ourMac.bytes ++ Mem.be16 1 ++ Mem.be16 0)) ⟨100, 600000000⟩ 0 1501] ++
    (List.range 10).flatMap fun n => syncPair (2 * n + 5) ⟨101 + n, 0⟩ ⟨101 + n, 20000⟩ 30000

/-- A pass of the main loop at an uptime, with a media clock that is in step. -/
def passAt (ms : UInt32) (rateReady : Bool) : GateEvent :=
  .pass { lockMs := ms, phaseMs := ms, settleMs := ms, stepTime := ⟨120, 0⟩, guardTime := ⟨120, 0⟩
          guardAnchorTime := ⟨120, 0⟩, enableTime := ⟨120, 0⟩, emittedSec := 120, emittedSub := 0
          rateReady := rateReady }

/-- A receiver's flow of one channel. -/
def oneFlow : GateEvent :=
  .flows ⟨.unicast ⟨⟨10, 0, 0, 9⟩, ⟨10, 0, 0, 9⟩, 14336, fun _ => 1, ⟨1, one_slot⟩, ⟨16, sixteen_mem⟩⟩
    (some Ptpv1.leaderA) 31000 fun _ => (0, 0), rfl⟩

/-- The console's `'t'` on a talker that is on, and a pass that does not want it on. -/
def reinitialised : List GateEvent :=
  lockingRun.map .ptp ++
    [oneFlow, passAt 40000 true, passAt 70000 true, .console true, passAt 70001 false]

/-- The talker counts as off, and the packetizer is enabled. -/
theorem talker_unmatched :
    (run gateStep (Gated.boot Ptpv1.ourMac (some Ptpv1.baseAddendFull) ⟨10, 0, 0, 2⟩ Ptpv1.ourMac)
        reinitialised).talkerOn = false ∧
      (run gateStep (Gated.boot Ptpv1.ourMac (some Ptpv1.baseAddendFull) ⟨10, 0, 0, 2⟩ Ptpv1.ourMac)
        reinitialised).enable = true := by
  decide +kernel

/-- PTP loses its lock and gains it again while the console keeps the gate from being polled. -/
def relocked : List GateEvent :=
  lockingRun.map .ptp ++ [passAt 40000 true, .console false] ++
    ((List.range 8).flatMap fun n =>
      (Ptpv1.syncPair (2 * n + 25) ⟨160 + n, 0⟩ ⟨160 + n, 30000⟩ 60000).map .ptp) ++
    ((List.range 12).flatMap fun n =>
      (Ptpv1.syncPair (2 * n + 41) ⟨168 + n, 0⟩ ⟨168 + n, 20000⟩ 60500).map .ptp) ++
    [oneFlow, .console true, passAt 61000 true]

/-- The talker is on at uptime 61000, and no earlier poll has seen the lock it relies on. -/
theorem opened_unheld :
    ((run (watch gateStep noteHeld)
        (Gated.boot Ptpv1.ourMac (some Ptpv1.baseAddendFull) ⟨10, 0, 0, 2⟩ Ptpv1.ourMac, none)
        relocked).1.talkerOn,
      (run (watch gateStep noteHeld)
        (Gated.boot Ptpv1.ourMac (some Ptpv1.baseAddendFull) ⟨10, 0, 0, 2⟩ Ptpv1.ourMac, none)
        relocked).2) = (true, some 61000) := by
  decide +kernel

end Firmware
end InfernoFpga
