import InfernoFpga.Firmware.Paths

/-!
# FlowKeys — which context serves a unicast request?

A receiver keeps its flow alive by repeating the request, so the request has to find the context
it was given: `dante_tx_bind_unicast` looks for an active slot with the same peer, destination
and port.  It does not ask whether that slot still carries a unicast flow.  A slot that has
become multicast keeps the peer it served before, and can be found under a key that another
context serves.
-/

namespace InfernoFpga
namespace Firmware

open Lib
open Packetizer (CtxId)

/-! ## Keys -/

/-- The slot carries a unicast flow. -/
def FlowSlot.isUnicast (s : FlowSlot) : Bool := s.inUse && !s.mcast

/-- Two slots with the same peer, destination and port. -/
structure SameKey (s s' : FlowSlot) : Prop where
  peer : s.peer = s'.peer
  dst : s.dst = s'.dst
  dport : s.dport = s'.dport

/-- No two unicast contexts share a key. -/
def UniqueKeys (flows : CtxId → FlowSlot) : Prop :=
  ∀ f g, (flows f).isUnicast = true → (flows g).isUnicast = true →
    SameKey (flows f) (flows g) → f = g

/-- No multicast context stands before a unicast one that serves the request and can be mistaken
for it. -/
def KeyClear (flows : CtxId → FlowSlot) (r : UnicastReq) : Prop :=
  ∀ f g, sameSocket r (flows f) = true → (flows f).mcast = true →
    sameSocket r (flows g) = true → (flows g).mcast = false → g < f

theorem isUnicast_iff {s : FlowSlot} : s.isUnicast = true ↔ s.inUse = true ∧ s.mcast = false := by
  simp only [FlowSlot.isUnicast, Bool.and_eq_true, Bool.not_eq_true']

theorem sameKey_of_sameSocket {r : UnicastReq} {s s' : FlowSlot} (h : sameSocket r s = true)
    (h' : sameSocket r s' = true) : SameKey s s' := by
  rw [sameSocket_iff] at h h'
  exact ⟨h.2.2.1.trans h'.2.2.1.symm, h.2.2.2.trans h'.2.2.2.symm, h.2.1.trans h'.2.1.symm⟩

theorem Serves.sameSocket {s : FlowSlot} {r : UnicastReq} {dmac : Mac} {now : UInt32}
    (h : Serves s r dmac now) : sameSocket r s = true :=
  sameSocket_iff.2 ⟨h.inUse, h.dport, h.peer, h.dst⟩

/-- With unique keys and a clear request, the first slot found is the one that serves it. -/
theorem findFlow_unicast {t : Tx} {r : UnicastReq} {f : CtxId} (hkeys : UniqueKeys t.flows)
    (hclear : KeyClear t.flows r) (hf : sameSocket r (t.flows f) = true)
    (hmcast : (t.flows f).mcast = false) : findFlow t (sameSocket r) = some f := by
  refine findFlow_eq_some hf fun g hg => ?_
  by_contra hmatch
  rw [Bool.not_eq_false] at hmatch
  cases hgm : (t.flows g).mcast with
  | true => exact absurd (hclear g f hmatch hgm hf hmcast) (not_lt_of_gt hg)
  | false =>
      have heq := hkeys g f (isUnicast_iff.2 ⟨(sameSocket_iff.1 hmatch).1, hgm⟩)
        (isUnicast_iff.2 ⟨(sameSocket_iff.1 hf).1, hmcast⟩) (sameKey_of_sameSocket hmatch hf)
      exact absurd heq (ne_of_lt hg)

/-! ## Keys stay unique -/

/-- A slot that ends up not unicast adds no key. -/
theorem uniqueKeys_rewrites {t t' : Tx} {f : CtxId} (h : UniqueKeys t.flows)
    (hr : Rewrites t t' f) (hf : (t'.flows f).isUnicast = false) : UniqueKeys t'.flows := by
  refine hr.alone h fun hlive => ?_
  rw [hf] at hlive
  cases hlive

theorem unicastTarget_of_some {t : Tx} {r : UnicastReq} {f : CtxId} (now : UInt32)
    (h : findFlow t (sameSocket r) = some f) : unicastTarget t r now = f := by
  simp only [unicastTarget, h]

/-- A unicast context with the request's key is the one the request is bound to. -/
theorem unicastTarget_eq {t : Tx} {r : UnicastReq} {g : CtxId} (now : UInt32)
    (hkeys : UniqueKeys t.flows) (hclear : KeyClear t.flows r)
    (hg : sameSocket r (t.flows g) = true) (hmcast : (t.flows g).mcast = false) :
    unicastTarget t r now = g :=
  unicastTarget_of_some now (findFlow_unicast hkeys hclear hg hmcast)

theorem uniqueKeys_bindUnicast {t : Tx} {r : UnicastReq} (dmac : Mac) (now : UInt32)
    (reads : Nat → Nat × Nat) (h : UniqueKeys t.flows) (hclear : KeyClear t.flows r) :
    UniqueKeys (bindUnicast t r dmac now reads).1.flows := by
  have hbound := bindUnicast_bound t r dmac now reads
  generalize hres : bindUnicast t r dmac now reads = res at hbound
  -- another unicast context with the new key would have been the target itself
  have hother : ∀ g, g ≠ res.2 → (res.1.flows g).isUnicast = true →
      ¬ SameKey (res.1.flows g) (res.1.flows res.2) := by
    intro g hg huni hkey
    rw [hbound.rewrites.flows g hg] at huni hkey
    obtain ⟨huse, hmcast⟩ := isUnicast_iff.1 huni
    have hsocket : sameSocket r (t.flows g) = true := sameSocket_iff.2
      ⟨huse, hkey.dport.trans hbound.serves.dport, hkey.peer.trans hbound.serves.peer,
        hkey.dst.trans hbound.serves.dst⟩
    exact hg ((unicastTarget_eq now h hclear hsocket hmcast).symm.trans hbound.target.symm)
  exact hbound.rewrites.alone h fun _ g hg huni =>
    ⟨hother g hg huni, fun hkey => hother g hg huni ⟨hkey.peer.symm, hkey.dst.symm, hkey.dport.symm⟩⟩

theorem uniqueKeys_path : TablePath UniqueKeys KeyClear fun _ _ => True where
  unbind := fun {t} f h => by
    refine uniqueKeys_rewrites h (rewrites_unbind t f) ?_
    rw [FlowSlot.isUnicast, inUse_unbind, Bool.false_and]
  unicast := fun dmac now reads h hclear => uniqueKeys_bindUnicast dmac now reads h hclear
  multicast := fun {t} fid chans {n} now reads h _ => by
    have hbound := bindMulticast_bound t fid chans n now reads
    refine uniqueKeys_rewrites h hbound.rewrites ?_
    rw [FlowSlot.isUnicast, hbound.mcast, Bool.not_true, Bool.and_false]

/-! ## Repeating a request -/

/-- The request is accepted: checked, and its receiver's address is known. -/
structure Accepted (d : FlowControl) (q : Datagram) (r : UnicastReq) : Prop where
  handled : q.handled
  checked : check d.policy q = .bind r
  receiver : arpResolve d.net r.dst ≠ none

/-- The request refreshes context `f`: the answer names it, it still serves the request, and
neither the number of active flows nor any other context has changed. -/
structure Refreshed (d : FlowControl) (now : UInt32) (reads : Nat → Nat × Nat) (q : Datagram)
    (r : UnicastReq) (f : CtxId) : Prop where
  handle : (decidedReply d now reads q).content =
    Mem.be32 f.val ++ Mem.be16 (d.cookie + 1).toNat
  serves : sameSocket r ((flowsRx d now reads q).tx.flows f) = true ∧
    ((flowsRx d now reads q).tx.flows f).mcast = false
  active : danteTxActive (flowsRx d now reads q).tx = danteTxActive d.tx
  others : Rewrites d.tx (flowsRx d now reads q).tx f

/-- Whatever unicast context serves the request is refreshed by it. -/
def Refreshes (d : FlowControl) (now : UInt32) (reads : Nat → Nat × Nat) (q : Datagram) : Prop :=
  ∀ r f, Accepted d q r → sameSocket r (d.tx.flows f) = true → (d.tx.flows f).mcast = false →
    Refreshed d now reads q r f

section Repeat

variable {d : FlowControl} {q : Datagram} {r : UnicastReq}

theorem be32_ctx_inj : ∀ f g : CtxId, Mem.be32 f.val = Mem.be32 g.val → f = g := by decide

/-- What an accepted request does: the table, and the answer. -/
theorem Accepted.bound (h : Accepted d q r) (now : UInt32) (reads : Nat → Nat × Nat) :
    ∃ dmac, (flowsRx d now reads q).tx = (bindUnicast d.synced r dmac now reads).1 ∧
      (decidedReply d now reads q).content =
        Mem.be32 (bindUnicast d.synced r dmac now reads).2.val ++
          Mem.be16 (d.cookie + 1).toNat := by
  obtain ⟨dmac, hmac⟩ := Option.ne_none_iff_exists'.1 h.receiver
  refine ⟨dmac, ?_, ?_⟩
  · rw [tx_flowsRx, if_pos h.handled, h.checked]
    simp only [verdictTx, hmac]
  · rw [decidedReply, if_pos h.handled.2.2, h.checked]
    simp only [verdictReply, hmac, boundReply]
    rfl

/-- A rewritten slot that was and stays in use leaves the number of active flows as it was. -/
theorem danteTxActive_rewrites {t t' : Tx} {f : CtxId} (hr : Rewrites t t' f)
    (h : (t.flows f).inUse = true) (h' : (t'.flows f).inUse = true) :
    danteTxActive t' = danteTxActive t := by
  have huse : ∀ g, (t'.flows g).inUse = (t.flows g).inUse := by
    intro g
    by_cases hg : g = f
    · rw [hg, h, h']
    · rw [hr.flows g hg]
  simp only [danteTxActive, huse]

/-- Among unique keys, a request refreshes its own context exactly if no multicast context with
its key stands before it. -/
theorem refreshes_iff (hkeys : UniqueKeys d.tx.flows) (now : UInt32) (reads : Nat → Nat × Nat) :
    Refreshes d now reads q ↔ ∀ r, Accepted d q r → KeyClear d.tx.flows r := by
  constructor
  · intro h r hr f g hf hfm hg hgm
    obtain ⟨dmac, -, hreply⟩ := hr.bound now reads
    have hbound := bindUnicast_bound d.synced r dmac now reads
    -- the answer names the first slot found, and that is the unicast context `g`
    have hnamed : (bindUnicast d.synced r dmac now reads).2 = g := by
      refine be32_ctx_inj _ _ ?_
      have hcontent := hreply.symm.trans (h r g hr hg hgm).handle
      exact List.append_cancel_right hcontent
    obtain ⟨k, hk⟩ : ∃ k, findFlow d.synced (sameSocket r) = some k := by
      refine Option.ne_none_iff_exists'.1 fun hnone => ?_
      have hmiss : sameSocket r (d.tx.flows g) = false := findFlow_none hnone g
      rw [hg] at hmiss
      cases hmiss
    have hkg : k = g := by
      rw [← hnamed, hbound.target, unicastTarget_of_some now hk]
    subst hkg
    rcases lt_trichotomy k f with hlt | heq | hgt
    · exact hlt
    · rw [heq, hfm] at hgm
      cases hgm
    · have hmiss : sameSocket r (d.tx.flows f) = false := findFlow_least hk hgt
      rw [hf] at hmiss
      cases hmiss
  · intro h r f hr hf hfm
    obtain ⟨dmac, htx, hreply⟩ := hr.bound now reads
    have hbound := bindUnicast_bound d.synced r dmac now reads
    have htarget : (bindUnicast d.synced r dmac now reads).2 = f :=
      hbound.target.trans (unicastTarget_eq (t := d.synced) now hkeys (h r hr) hf hfm)
    rw [htarget] at hreply
    have hserves := hbound.serves
    have hsynced := hbound.rewrites
    rw [htarget, ← htx] at hserves hsynced
    have hrewrites : Rewrites d.tx (flowsRx d now reads q).tx f :=
      ⟨hsynced.flows, hsynced.contexts, hsynced.flowIp, hsynced.mcastFpp⟩
    exact
      { handle := hreply
        serves := ⟨hserves.sameSocket, hserves.mcast⟩
        active := danteTxActive_rewrites hrewrites (sameSocket_iff.1 hf).1 hserves.inUse
        others := hrewrites }

/-- A request whose receiver is unknown leaves table and gateware alone. -/
theorem tx_flowsRx_unresolved (now : UInt32) (reads : Nat → Nat × Nat)
    (hr : check d.policy q = .bind r) (h : arpResolve d.net r.dst = none) :
    (flowsRx d now reads q).tx = d.tx := by
  rw [tx_flowsRx, hr]
  simp only [verdictTx, h, ite_self]

end Repeat

/-! ## Every run -/

/-- An accepted unicast request finds no multicast context before the unicast one it belongs
to. -/
def KeySafe (d : FlowControl) : PortOp → Prop
  | .flows q _ _ => ∀ r, Accepted d q r → KeyClear d.tx.flows r
  | _ => True

theorem KeySafe.pathSafe {d : FlowControl} {op : PortOp} (h : KeySafe d op) :
    PathSafe KeyClear (fun _ _ => True) d op := by
  cases op with
  | flows q now reads => exact fun hq r hr hres => h r ⟨hq, hr, hres⟩
  | create content clen env => exact fun _ _ _ _ => trivial
  | stats q now reads => trivial
  | init => trivial
  | delete content clen => trivial
  | latency => trivial
  | reseed sub => trivial
  | talker on => trivial
  | stack net => trivial

/-- In every run whose accepted requests are not mistaken for a multicast context, unicast keys
are unique; repeating a request refreshes its own context exactly if no multicast context is
found under its key before; and a request with an unknown receiver changes nothing. -/
theorem unicast_keys (net : Net) (mac : Mac) (ops : List PortOp)
    (h : Along portStep KeySafe (FlowControl.boot net mac) ops) :
    UniqueKeys (portsAfter net mac ops).tx.flows ∧
      (∀ now reads q, Refreshes (portsAfter net mac ops) now reads q ↔
        ∀ r, Accepted (portsAfter net mac ops) q r →
          KeyClear (portsAfter net mac ops).tx.flows r) ∧
      ∀ now reads q r, check (portsAfter net mac ops).policy q = .bind r →
        arpResolve (portsAfter net mac ops).net r.dst = none →
        (flowsRx (portsAfter net mac ops) now reads q).tx = (portsAfter net mac ops).tx := by
  have hkeys : UniqueKeys (portsAfter net mac ops).tx.flows :=
    uniqueKeys_path.run (fun _ _ huse => Bool.noConfusion huse)
      (h.mono fun _ _ => KeySafe.pathSafe)
  exact ⟨hkeys, fun now reads _ => refreshes_iff hkeys now reads,
    fun now reads _ _ hr hres => tx_flowsRx_unresolved now reads hr hres⟩

/-! ## A slot found under a stale key -/

/-- Without multicast contexts there is nothing to mistake. -/
theorem keyClear_of_no_group {flows : CtxId → FlowSlot} (h : ∀ f, (flows f).mcast = false)
    (r : UnicastReq) : KeyClear flows r := by
  intro f g _ hf
  rw [h f] at hf
  cases hf

/-- The receiver at .2 asks for a mono flow to `dst`, port 4321. -/
def flowRequest (dst : Ip) : Datagram :=
  { crossRequest with req := fun k =>
      if k = 38 then 0x10 else if k = 39 then 0xE1
      else if 40 ≤ k ∧ k < 44 then dst.bytes.getD (k - 40) 0 else crossRequest.req k }

def askFlow (dst : Ip) : PortOp := .flows (flowRequest dst) 0 fun _ => (0, 0)

/-- Group 32 on channel 1 is created. -/
def makeGroup : PortOp :=
  .create (fun k => ([0, 1, 0, 14, 0, 32, 0, 2, 0, 0, 0, 0, 0, 0, 0, 0, 0, 0, 0, 1, 0, 1] :
    List UInt8).getD k 0) 22 fun _ => (0, fun _ => (0, 0))

def dropGroup : PortOp := .delete (fun k => ([0, 32] : List UInt8).getD k 0) 2

def keySession (ops : List PortOp) : FlowControl :=
  portsAfter heardOnce.net ⟨2, 0, 0, 0, 9, 200⟩ ops

theorem unicast_keys_session :
    UniqueKeys (keySession [askFlow ⟨169, 254, 1, 2⟩, askFlow ⟨169, 254, 1, 2⟩]).tx.flows :=
  (unicast_keys heardOnce.net ⟨2, 0, 0, 0, 9, 200⟩
    [askFlow ⟨169, 254, 1, 2⟩, askFlow ⟨169, 254, 1, 2⟩]
    ⟨fun r _ => keyClear_of_no_group (by decide +kernel) r,
      fun r _ => keyClear_of_no_group (by decide +kernel) r, trivial⟩).1

/-- The address of a group is not looked up. -/
theorem arpResolve_group (n : Net) {ip : Ip} (h : ip.isMcast = true) : arpResolve n ip ≠ none := by
  rw [arpResolve, if_pos h]
  exact Option.some_ne_none _

/-- The address of the first group of this device. -/
def firstGroup : Ip := ⟨239, 255, 9, 200⟩

/-- Slot 0 carries group 32, then a flow of .2, then the group again; slot 1 carries a flow of
.2 to the address of that group. -/
def staleKey : List PortOp :=
  [makeGroup, dropGroup, askFlow ⟨169, 254, 1, 2⟩, askFlow firstGroup, dropGroup, makeGroup]

/-- The request as it is bound. -/
def groupFlow : UnicastReq where
  peer := (flowRequest firstGroup).srcIp
  dst := (flowRequest firstGroup).dst
  dport := (flowRequest firstGroup).dport
  chans := (flowRequest firstGroup).chans
  nslots := ⟨(flowRequest firstGroup).nch, by decide⟩
  fpp := ⟨clampFpp heardOnce.policy (flowRequest firstGroup).fpp, by decide⟩

theorem accepted_groupFlow :
    Accepted (keySession staleKey) (flowRequest firstGroup) groupFlow where
  handled := by decide
  checked := by
    show check heardOnce.policy (flowRequest firstGroup) = .bind groupFlow
    rw [check, if_neg (by decide), dif_pos (by decide), dif_pos (by decide)]
    rfl
  receiver := arpResolve_group (keySession staleKey).net (by decide)

/-- The request of the flow in slot 1, repeated, takes over the group in slot 0, and then two
unicast contexts share its key. -/
theorem unicast_keys_stale :
    ¬ Refreshes (keySession staleKey) 0 (fun _ => (0, 0)) (flowRequest firstGroup) ∧
      ¬ UniqueKeys (keySession (staleKey ++ [askFlow firstGroup])).tx.flows := by
  constructor
  · intro h
    have hkept := (h groupFlow 1 accepted_groupFlow (by decide +kernel)
      (by decide +kernel)).others.flows 0 (by decide)
    have hgroup : ((keySession staleKey).tx.flows 0).mcast = true := by decide +kernel
    have htaken : ((flowsRx (keySession staleKey) 0 (fun _ => (0, 0))
        (flowRequest firstGroup)).tx.flows 0).mcast = false := by decide +kernel
    rw [hkept, hgroup] at htaken
    cases htaken
  · intro h
    have hsame := h 0 1 (by decide +kernel) (by decide +kernel)
      ⟨by decide +kernel, by decide +kernel, by decide +kernel⟩
    exact absurd hsame (by decide)

end Firmware
end InfernoFpga
