import InfernoFpga.Firmware.FlowRefine
import InfernoFpga.Lib.Keyed

/-!
# FlowIds — the ids flows are reported and deleted under

A flow is reported under its `ext_id`, or under its slot number plus one when that is zero; it
is deleted by `ext_id` only.  A unicast bind never resets `ext_id`, so a slot can report the id
of a flow it no longer carries, and slot numbers can collide with ids a controller chose.
-/

namespace InfernoFpga
namespace Firmware

open Lib
open Packetizer (CtxId)

/-! ## Reported ids and deletion -/

/-- The id of a slot with this `ext_id`. -/
def slotId (f : CtxId) (extId : BitVec 16) : BitVec 16 :=
  if extId ≠ 0 then extId else BitVec.ofNat 16 (f.val + 1)

/-- The id `dante_tx_flow_desc` reports for slot `f`. -/
def reportedId (t : Tx) (f : CtxId) : BitVec 16 := slotId f (t.flows f).extId

/-- `dante_tx_ctx_for_id`. -/
def ctxForId (t : Tx) (id : BitVec 16) : Option CtxId :=
  findFlow t fun s => s.inUse && s.extId == id

/-- One id of a 0x2202 request. -/
def deleteId (t : Tx) (id : BitVec 16) : Tx :=
  if id = 0 then t
  else match ctxForId t id with
    | some f => unbind t f
    | none => t

inductive IdOp
  /-- A request on port 4455. -/
  | unicast (r : UnicastReq) (dmac : Option Mac) (now : UInt32) (reads : Nat → Nat × Nat)
  /-- A descriptor of a 0x2201 request. -/
  | create (fid : BitVec 16) (chans : Fin 8 → BitVec 16) (n : SlotCount) (now : UInt32)
      (reads : Nat → Nat × Nat)
  /-- An id of a 0x2202 request. -/
  | delete (id : BitVec 16)
  | dropAll

def idStep (t : Tx) : IdOp → Tx
  | .unicast r dmac now reads => txStep t (.unicast r dmac now reads)
  | .create fid chans n now reads =>
      if fid = 0 then t else txStep t (.multicast fid chans n now reads)
  | .delete id => deleteId t id
  | .dropAll => dropAll t

/-! ## The slot a bind will use -/

def unicastTarget (t : Tx) (r : UnicastReq) (now : UInt32) : CtxId :=
  match findFlow t (sameSocket r) with
  | some f => f
  | none =>
      match findFlow t fun s => !s.inUse with
      | some f => f
      | none => unicastVictim t now

def multicastTarget (t : Tx) (fid : BitVec 16) (now : UInt32) : CtxId :=
  match findFlow t (sameId fid) with
  | some f => f
  | none =>
      match findFlow t fun s => !s.inUse with
      | some f => f
      | none => multicastVictim t now

/-- `t'` is `t` with slot `f` bound under `extId`. -/
structure BoundInto (t t' : Tx) (f : CtxId) (extId : BitVec 16) : Prop where
  others : ∀ g, g ≠ f → t'.flows g = t.flows g
  extId : (t'.flows f).extId = extId

theorem boundInto_unicastInto (t : Tx) (f : CtxId) (r : UnicastReq) (dmac : Mac)
    (now : UInt32) (reads : Nat → Nat × Nat) :
    BoundInto t (bindUnicastInto t f r dmac now reads) f (t.flows f).extId where
  others := fun _ hg => setFlow_other _ _ (Ne.symm hg)
  extId := by simp [bindUnicastInto, unicastSlot]

theorem boundInto_multicastInto (t : Tx) (f : CtxId) (fid : BitVec 16)
    (chans : Fin 8 → BitVec 16) (n : SlotCount) (now : UInt32) (reads : Nat → Nat × Nat) :
    BoundInto t (bindMulticastInto t f fid chans n now reads) f fid where
  others := fun _ hg => setFlow_other _ _ (Ne.symm hg)
  extId := by simp [bindMulticastInto, multicastSlot]

/-- What happens to slot `f` before the bind does not matter to the other slots. -/
theorem BoundInto.of_others {t t₀ t' : Tx} {f : CtxId} {extId : BitVec 16}
    (h : BoundInto t₀ t' f extId) (ht : ∀ g, g ≠ f → t₀.flows g = t.flows g) :
    BoundInto t t' f extId :=
  ⟨fun g hg => (h.others g hg).trans (ht g hg), h.extId⟩

theorem unbind_flows_other (t : Tx) {f g : CtxId} (hg : g ≠ f) :
    (unbind t f).flows g = t.flows g := by
  unfold unbind
  split
  · exact setFlow_other t _ (Ne.symm hg)
  · rfl

/-- A unicast bind keeps its slot's `ext_id`. -/
theorem bindUnicast_spec (t : Tx) (r : UnicastReq) (dmac : Mac) (now : UInt32)
    (reads : Nat → Nat × Nat) :
    BoundInto t (bindUnicast t r dmac now reads).1 (unicastTarget t r now)
      (t.flows (unicastTarget t r now)).extId := by
  unfold bindUnicast unicastTarget
  cases findFlow t (sameSocket r) with
  | some f => exact boundInto_unicastInto t f r dmac now reads
  | none =>
      cases findFlow t fun s => !s.inUse with
      | some f => exact boundInto_unicastInto t f r dmac now reads
      | none =>
          have hbound := boundInto_unicastInto (evict t (unicastVictim t now))
            (unicastVictim t now) r dmac now reads
          have hext : ((evict t (unicastVictim t now)).flows (unicastVictim t now)).extId =
              (t.flows (unicastVictim t now)).extId := by simp [evict]
          rw [hext] at hbound
          exact hbound.of_others fun g hg => setFlow_other t _ (Ne.symm hg)

theorem bindMulticast_spec (t : Tx) (fid : BitVec 16) (chans : Fin 8 → BitVec 16)
    (n : SlotCount) (now : UInt32) (reads : Nat → Nat × Nat) :
    BoundInto t (bindMulticast t fid chans n now reads).1 (multicastTarget t fid now) fid := by
  unfold bindMulticast multicastTarget
  cases findFlow t (sameId fid) with
  | some f => exact boundInto_multicastInto t f fid chans n now reads
  | none =>
      cases findFlow t fun s => !s.inUse with
      | some f => exact boundInto_multicastInto t f fid chans n now reads
      | none =>
          exact (boundInto_multicastInto _ _ fid chans n now reads).of_others
            fun g hg => unbind_flows_other t hg

/-! ## Distinct ids -/

/-- No two active flows are reported under one id. -/
def Distinct (t : Tx) : Prop :=
  ∀ f g, (t.flows f).inUse = true → (t.flows g).inUse = true →
    reportedId t f = reportedId t g → f = g

/-- No other active flow is reported under `id`. -/
def FreeFor (t : Tx) (f : CtxId) (id : BitVec 16) : Prop :=
  ∀ g, g ≠ f → (t.flows g).inUse = true → reportedId t g ≠ id

theorem Distinct.of_boundInto {t t' : Tx} {f : CtxId} {extId : BitVec 16} (hd : Distinct t)
    (h : BoundInto t t' f extId) (hfree : FreeFor t f (slotId f extId)) : Distinct t' := by
  have hother : ∀ g, g ≠ f → reportedId t' g = reportedId t g ∧
      (t'.flows g).inUse = (t.flows g).inUse := by
    intro g hg
    simp only [reportedId, h.others g hg, and_self]
  have hself : reportedId t' f = slotId f extId := congrArg (slotId f) h.extId
  have halone : Alone (fun g => (t.flows g).inUse) (fun a b => reportedId t a = reportedId t b) := hd
  refine halone.rewrite (f := f) (fun g hg => (hother g hg).2) (fun g k hg hk hsame => ?_)
    fun _ g hg huse => ?_
  · rwa [(hother g hg).1, (hother k hk).1] at hsame
  · rw [(hother g hg).2] at huse
    rw [(hother g hg).1, hself]
    exact ⟨hfree g hg huse, Ne.symm (hfree g hg huse)⟩

/-- Releasing a flow adds no id. -/
theorem unbind_fields (t : Tx) (f g : CtxId) :
    reportedId (unbind t f) g = reportedId t g ∧
      (((unbind t f).flows g).inUse = true → (t.flows g).inUse = true) := by
  by_cases hg : g = f
  · subst hg
    unfold unbind
    split
    · rename_i huse
      exact ⟨by simp [reportedId], fun _ => huse⟩
    · exact ⟨rfl, id⟩
  · simp only [reportedId, unbind_flows_other t hg, true_and]
    exact id

theorem Distinct.unbind {t : Tx} (hd : Distinct t) (f : CtxId) :
    Distinct (Firmware.unbind t f) := by
  intro a b ha hb hab
  rw [(unbind_fields t f a).1, (unbind_fields t f b).1] at hab
  exact hd a b ((unbind_fields t f a).2 ha) ((unbind_fields t f b).2 hb) hab

theorem Distinct.dropAll {t : Tx} (hd : Distinct t) : Distinct (Firmware.dropAll t) :=
  run_invariant Firmware.unbind (P := Distinct) (fun _ f h => h.unbind f)
    (List.finRange nFlows) hd

/-! ## Deletion by id -/

/-- Deleting `id` removes exactly the active flow reported under it, in the table and in the
gateware, and changes nothing if there is none. -/
structure DeletesExactly (t : Tx) (id : BitVec 16) : Prop where
  hit : ∀ f, (t.flows f).inUse = true → reportedId t f = id →
    ((deleteId t id).flows f).inUse = false ∧
      ∀ g, g ≠ f → (deleteId t id).flows g = t.flows g ∧
        (deleteId t id).gw.ctx g = t.gw.ctx g
  miss : (∀ f, (t.flows f).inUse = true → reportedId t f ≠ id) → deleteId t id = t

/-- No active flow is reported under `id` by its slot number only. -/
def Addressed (t : Tx) (id : BitVec 16) : Prop :=
  ∀ f, (t.flows f).inUse = true → reportedId t f = id → (t.flows f).extId = id

theorem ctxForId_some {t : Tx} {id : BitVec 16} {f : CtxId} (h : ctxForId t id = some f) :
    (t.flows f).inUse = true ∧ (t.flows f).extId = id := by
  have hp := List.find?_some h
  simpa using hp

theorem ctxForId_none {t : Tx} {id : BitVec 16} (h : ctxForId t id = none) (f : CtxId)
    (huse : (t.flows f).inUse = true) : (t.flows f).extId ≠ id := by
  have hp := List.find?_eq_none.1 h f (List.mem_finRange f)
  simpa [huse] using hp

theorem slotNumber_ne_zero (f : CtxId) : BitVec.ofNat 16 (f.val + 1) ≠ 0 := by
  revert f
  decide

theorem reportedId_ne_zero (t : Tx) (f : CtxId) : reportedId t f ≠ 0 := by
  unfold reportedId slotId
  split
  · assumption
  · exact slotNumber_ne_zero f

theorem reportedId_of_extId {t : Tx} {f : CtxId} {id : BitVec 16} (hid : id ≠ 0)
    (h : (t.flows f).extId = id) : reportedId t f = id := by
  rw [reportedId, slotId, h, if_pos hid]

/-- A delete that finds its flow by `ext_id`. -/
theorem deleteId_of_some {t : Tx} {id : BitVec 16} {f : CtxId} (hid : id ≠ 0)
    (h : ctxForId t id = some f) : deleteId t id = unbind t f := by
  simp only [deleteId, hid, if_false, h]

theorem deleteId_of_none {t : Tx} {id : BitVec 16} (h : ctxForId t id = none) :
    deleteId t id = t := by
  simp only [deleteId, h, ite_self]

theorem unbind_exact {t : Tx} {f : CtxId} (huse : (t.flows f).inUse = true) :
    ((unbind t f).flows f).inUse = false ∧
      ∀ g, g ≠ f → (unbind t f).flows g = t.flows g ∧ (unbind t f).gw.ctx g = t.gw.ctx g := by
  unfold unbind
  rw [if_pos huse]
  refine ⟨by simp, fun g hg => ⟨setFlow_other t _ (Ne.symm hg), ?_⟩⟩
  exact Gateware.writeFlowCfg_other
    ((Gateware.writeCtxSelect_index t.gw f).trans_ne (Ne.symm hg)) 0

theorem deletesExactly_of_addressed {t : Tx} {id : BitVec 16} (hd : Distinct t)
    (ha : Addressed t id) : DeletesExactly t id := by
  constructor
  · intro f huse hid
    have hne : id ≠ 0 := hid ▸ reportedId_ne_zero t f
    cases hctx : ctxForId t id with
    | none => exact absurd (ha f huse hid) (ctxForId_none hctx f huse)
    | some g =>
        obtain ⟨hguse, hgext⟩ := ctxForId_some hctx
        have hg : g = f :=
          hd g f hguse huse ((reportedId_of_extId hne hgext).trans hid.symm)
        subst hg
        rw [deleteId_of_some hne hctx]
        exact unbind_exact huse
  · intro hmiss
    by_cases hne : id = 0
    · simp [deleteId, hne]
    cases hctx : ctxForId t id with
    | none => exact deleteId_of_none hctx
    | some g =>
        obtain ⟨hguse, hgext⟩ := ctxForId_some hctx
        exact absurd (reportedId_of_extId hne hgext) (hmiss g hguse)

theorem addressed_of_deletesExactly {t : Tx} {id : BitVec 16} (hd : Distinct t)
    (h : DeletesExactly t id) : Addressed t id := by
  intro f huse hid
  have hne : id ≠ 0 := hid ▸ reportedId_ne_zero t f
  have hgone := (h.hit f huse hid).1
  cases hctx : ctxForId t id with
  | none =>
      rw [deleteId_of_none hctx, huse] at hgone
      cases hgone
  | some g =>
      obtain ⟨hguse, hgext⟩ := ctxForId_some hctx
      have hg : g = f :=
        hd g f hguse huse ((reportedId_of_extId hne hgext).trans hid.symm)
      exact hg ▸ hgext

/-! ## Runs -/

/-- A bind leads to an id that no other active flow is reported under. -/
def IdSafe (t : Tx) : IdOp → Prop
  | .unicast r (some _) now _ =>
      FreeFor t (unicastTarget t r now) (reportedId t (unicastTarget t r now))
  | .unicast _ none _ _ => True
  | .create fid _ _ now _ => FreeFor t (multicastTarget t fid now) fid
  | .delete _ => True
  | .dropAll => True

instance (t : Tx) (f : CtxId) (id : BitVec 16) : Decidable (FreeFor t f id) :=
  inferInstanceAs (Decidable (∀ _, _ → _ → _))

instance (t : Tx) : ∀ op, Decidable (IdSafe t op)
  | .unicast r (some _) now _ => inferInstanceAs (Decidable (FreeFor t (unicastTarget t r now) _))
  | .unicast _ none _ _ => inferInstanceAs (Decidable True)
  | .create fid _ _ now _ => inferInstanceAs (Decidable (FreeFor t (multicastTarget t fid now) _))
  | .delete _ => inferInstanceAs (Decidable True)
  | .dropAll => inferInstanceAs (Decidable True)

theorem distinct_idStep {t : Tx} {op : IdOp} (hsafe : IdSafe t op) (hd : Distinct t) :
    Distinct (idStep t op) := by
  cases op with
  | unicast r dmac now reads =>
      cases dmac with
      | none => exact hd
      | some dmac => exact hd.of_boundInto (bindUnicast_spec t r dmac now reads) hsafe
  | create fid chans n now reads =>
      show Distinct (if fid = 0 then t else (bindMulticast t fid chans n now reads).1)
      split
      · exact hd
      · rename_i hfid
        refine hd.of_boundInto (bindMulticast_spec t fid chans n now reads) ?_
        rw [slotId, if_pos hfid]
        exact hsafe
  | delete id =>
      show Distinct (deleteId t id)
      unfold deleteId
      split
      · exact hd
      · split
        · exact hd.unbind _
        · exact hd
  | dropAll => exact hd.dropAll

/-- The device after `dante_tx_init` and the operations `ops`. -/
def flowsAfter (netIp : Ip) (mac : Mac) (ops : List IdOp) : Tx :=
  run idStep (danteTxInit (Tx.boot netIp mac)) ops

theorem distinct_init (netIp : Ip) (mac : Mac) : Distinct (danteTxInit (Tx.boot netIp mac)) := by
  have hidle : Idle (danteTxInit (Tx.boot netIp mac)) :=
    idle_init (idle_of_agrees (agrees_boot netIp mac) fun _ => rfl)
  intro f g hf
  rw [(hidle f).1] at hf
  cases hf

/-- In every run whose binds never lead to an id another active flow is reported under, reported
ids stay distinct, and deleting an id does exactly what it says just if no flow is reported
under that id by its slot number alone. -/
theorem flow_ids_address (netIp : Ip) (mac : Mac) (ops : List IdOp)
    (h : Along idStep IdSafe (danteTxInit (Tx.boot netIp mac)) ops) :
    Distinct (flowsAfter netIp mac ops) ∧
      ∀ id, DeletesExactly (flowsAfter netIp mac ops) id ↔
        Addressed (flowsAfter netIp mac ops) id := by
  have hd : Distinct (flowsAfter netIp mac ops) :=
    Along.invariant (P := Distinct) (fun _ _ hsafe ht => distinct_idStep hsafe ht) h
      (distinct_init netIp mac)
  exact ⟨hd, fun id => ⟨addressed_of_deletesExactly hd, deletesExactly_of_addressed hd⟩⟩

/-! ## Stale and colliding ids -/

/-- Device Controller creates a two-channel multicast flow under `fid`. -/
def createId (fid : BitVec 16) (now : UInt32) : IdOp :=
  .create fid (fun i => if i.val < 2 then 1 else 0) ⟨2, two_slots⟩ now fun _ => (0, 0)

/-- A receiver at `169.254.1.host` asks for a flow. -/
def requestFrom (host : UInt8) (now : UInt32) : IdOp :=
  .unicast
    { peer := ⟨169, 254, 1, host⟩, dst := ⟨169, 254, 1, host⟩, dport := 14400
      chans := fun i => if i.val < 2 then 1 else 0, nslots := ⟨2, two_slots⟩
      fpp := ⟨16, sixteen_mem⟩ }
    (some ⟨2, 0, 0, 0, 1, host⟩) now fun _ => (0, 0)

def idSession (ops : List IdOp) : Tx := flowsAfter ⟨169, 254, 9, 200⟩ ⟨2, 0, 0, 0, 9, 200⟩ ops

theorem flow_ids_address_session :
    Distinct (idSession [createId 32 0, requestFrom 10 1, .delete 32, createId 33 2]) :=
  (flow_ids_address ⟨169, 254, 9, 200⟩ ⟨2, 0, 0, 0, 9, 200⟩
    [createId 32 0, requestFrom 10 1, .delete 32, createId 33 2] (by decide)).1

/-- A unicast flow cannot be deleted by the id it is reported under; a multicast flow created
under that number is reported under the same id; and a slot that carried multicast flow 32
reports 32 for the unicast flow it carries now, beside a new multicast flow 32. -/
theorem flow_ids_collide :
    (reportedId (idSession [requestFrom 10 0]) 0 = 1 ∧
        ((idSession [requestFrom 10 0, .delete 1]).flows 0).inUse = true) ∧
      (reportedId (idSession [requestFrom 10 0, createId 1 1]) 0 =
          reportedId (idSession [requestFrom 10 0, createId 1 1]) 1) ∧
      (reportedId (idSession [createId 32 0, .delete 32, requestFrom 10 1, createId 32 2]) 0 =
          reportedId (idSession [createId 32 0, .delete 32, requestFrom 10 1, createId 32 2]) 1) ∧
      ¬ DeletesExactly (idSession [requestFrom 10 0]) 1 ∧
      ¬ Distinct (idSession [requestFrom 10 0, createId 1 1]) ∧
      ¬ Distinct (idSession [createId 32 0, .delete 32, requestFrom 10 1, createId 32 2]) := by
  refine ⟨by decide, by decide, by decide, fun h => ?_, fun h => ?_, fun h => ?_⟩
  · exact absurd (h.hit 0 (by decide) (by decide)).1 (by decide)
  · exact absurd (h 0 1 (by decide) (by decide) (by decide)) (by decide)
  · exact absurd (h 0 1 (by decide) (by decide) (by decide)) (by decide)

end Firmware
end InfernoFpga
