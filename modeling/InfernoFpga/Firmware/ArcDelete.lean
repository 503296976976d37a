import InfernoFpga.Firmware.ArcSession
import Mathlib.Data.Fintype.Basic

/-!
# ArcDelete — deleting what is listed

A controller deletes flows by the ids it has been shown.  An id names a flow that was created under
it, and more than one if flows were bound unicast where a group had been; a request deletes as many
flows of an id as it names the id times.  A flow that is shown by its slot number has no id of its
own, and no request deletes it.
-/

namespace InfernoFpga
namespace Firmware

open Lib
open Packetizer (CtxId nslots)

/-! ## What a request deletes -/

/-- The ids from byte `i` of a request on. -/
def idsFrom (content : Mem) (clen i : Nat) : List (BitVec 16) :=
  (List.range ((clen - i) / 2)).map fun j => BitVec.ofNat 16 (Mem.rd16 content (i + 2 * j))

/-- The ids of a request 0x2202. -/
def Datagram.deletedIds (q : Datagram) : List (BitVec 16) := idsFrom q.content q.clen 0

theorem idsFrom_cons {content : Mem} {clen i : Nat} (h : i + 2 ≤ clen) :
    idsFrom content clen i =
      BitVec.ofNat 16 (Mem.rd16 content i) :: idsFrom content clen (i + 2) := by
  have hcount : (clen - i) / 2 = (clen - (i + 2)) / 2 + 1 := by omega
  rw [idsFrom, hcount, List.range_succ_eq_map, List.map_cons, List.map_map]
  refine congrArg₂ _ rfl (List.map_congr_left fun j _ => ?_)
  show BitVec.ofNat 16 (Mem.rd16 content (i + 2 * (j + 1))) = _
  rw [Nat.mul_succ, Nat.add_comm (2 * j), ← Nat.add_assoc]

/-- The loop of the request goes through all of them. -/
theorem deleteGroups_eq_run (content : Mem) (clen : Nat) : ∀ (fuel i : Nat) (t : Tx),
    clen ≤ i + fuel → deleteGroups content clen fuel i t = run deleteId t (idsFrom content clen i)
  | 0, i, t, hfuel => by
      have hnone : (clen - i) / 2 = 0 := by omega
      rw [deleteGroups, idsFrom, hnone]
      rfl
  | fuel + 1, i, t, hfuel => by
      rw [deleteGroups]
      split
      · rename_i hmore
        rw [deleteGroups_eq_run content clen fuel (i + 2) _ (by omega), idsFrom_cons hmore]
        rfl
      · have hnone : (clen - i) / 2 = 0 := by omega
        rw [idsFrom, hnone]
        rfl

/-! ## One id -/

/-- A flow that has an id of its own. -/
def Named (t : Tx) (f : CtxId) : Prop := (t.flows f).inUse = true ∧ (t.flows f).extId ≠ 0

instance (t : Tx) (f : CtxId) : Decidable (Named t f) := inferInstanceAs (Decidable (_ ∧ _))

/-- The flows that go by an id. -/
def flowsOf (t : Tx) (id : BitVec 16) : Finset CtxId :=
  Finset.univ.filter fun f => (t.flows f).inUse = true ∧ (t.flows f).extId = id

/-- A flow is gone: its slot is free and its context sends nothing. -/
structure Released (t : Tx) (f : CtxId) : Prop where
  free : (t.flows f).inUse = false
  silent : nslots (t.gw.ctx f).cfg = 0

/-- Table and gateware hold the flow as before. -/
structure SameFlow (t t' : Tx) (f : CtxId) : Prop where
  slot : t'.flows f = t.flows f
  ctx : t'.gw.ctx f = t.gw.ctx f

/-- What a request may have made of a flow. -/
def Deleted (t t' : Tx) (f : CtxId) : Prop := SameFlow t t' f ∨ (Named t f ∧ Released t' f)

section Step

variable {t : Tx}

theorem released_unbind {f : CtxId} (huse : (t.flows f).inUse = true) : Released (unbind t f) f where
  free := inUse_unbind t f
  silent := by
    rw [unbind, if_pos huse]
    simp only [Gateware.writeFlowCfg_self (Gateware.writeCtxSelect_index t.gw f) 0]
    decide

/-- An id releases a flow that goes by it, if there is one. -/
theorem deleteId_cases (t : Tx) (id : BitVec 16) :
    (deleteId t id = t ∧ ∀ f, Named t f → (t.flows f).extId ≠ id) ∨
      ∃ f, Named t f ∧ (t.flows f).extId = id ∧ deleteId t id = unbind t f := by
  by_cases hid : id = 0
  · subst hid
    exact .inl ⟨if_pos rfl, fun f hf => hf.2⟩
  · cases hctx : ctxForId t id with
    | none =>
        exact .inl ⟨deleteId_of_none hctx, fun f hf => ctxForId_none hctx f hf.1⟩
    | some f =>
        obtain ⟨huse, hext⟩ := ctxForId_some hctx
        exact .inr ⟨f, ⟨huse, hext ▸ hid⟩, hext, deleteId_of_some hid hctx⟩

end Step

/-! ## All of them -/

section Ids

variable {t t' : Tx}

theorem Deleted.same {f : CtxId} (h : Deleted t t' f) (hf : (t'.flows f).inUse = true) :
    SameFlow t t' f := by
  rcases h with hsame | ⟨-, hgone⟩
  · exact hsame
  · exact absurd (hgone.free.symm.trans hf) (by decide)

theorem deleted_deleteId (t' : Tx) (id : BitVec 16) (h : ∀ f, Deleted t t' f) (f : CtxId) :
    Deleted t (deleteId t' id) f := by
  rcases deleteId_cases t' id with ⟨hnone, -⟩ | ⟨g, hg, -, hgone⟩
  · rw [hnone]
    exact h f
  · have hsame := (h g).same hg.1
    rw [hgone]
    by_cases hf : f = g
    · subst hf
      exact .inr ⟨⟨hsame.slot ▸ hg.1, hsame.slot ▸ hg.2⟩, released_unbind hg.1⟩
    · obtain ⟨hslot, hctx⟩ := (unbind_exact hg.1).2 f hf
      rcases h f with hkept | ⟨hnamed, hfree, hsilent⟩
      · exact .inl ⟨hslot.trans hkept.slot, hctx.trans hkept.ctx⟩
      · exact .inr ⟨hnamed, hslot ▸ hfree, hctx ▸ hsilent⟩

/-- A flow is as it was, or it had an id of its own and is gone. -/
theorem deleted_run (t : Tx) (ids : List (BitVec 16)) : ∀ f, Deleted t (run deleteId t ids) f :=
  run_invariant deleteId (P := fun t' => ∀ f, Deleted t t' f) deleted_deleteId ids
    fun _ => .inl ⟨rfl, rfl⟩

/-- An id takes one of the flows that have ids of their own. -/
theorem takesOne_deleteId (t' : Tx) (id : BitVec 16) (h : ∀ f, Deleted t t' f) :
    TakesOne (fun f => (t.flows f).extId) id (Finset.univ.filter (Named t'))
      (Finset.univ.filter (Named (deleteId t' id))) := by
  have hext : ∀ {f}, Named t' f → (t'.flows f).extId = (t.flows f).extId := fun hf =>
    congrArg FlowSlot.extId ((h _).same hf.1).slot
  rcases deleteId_cases t' id with ⟨hnone, hother⟩ | ⟨f, hf, hid, hgone⟩
  · refine .inr ⟨fun f hf => ?_, by rw [hnone]⟩
    have hnamed := (Finset.mem_filter.1 hf).2
    exact fun heq => hother f hnamed ((hext hnamed).trans heq)
  · refine .inl ⟨f, Finset.mem_filter.2 ⟨Finset.mem_univ f, hf⟩, (hext hf).symm.trans hid, ?_⟩
    ext g
    rw [Finset.mem_erase, Finset.mem_filter, Finset.mem_filter, hgone]
    by_cases hg : g = f
    · subst hg
      have hfree := (released_unbind hf.1).free
      exact ⟨fun h => absurd (hfree.symm.trans h.2.1) (by decide), fun h => absurd rfl h.1⟩
    · have hslot := ((unbind_exact hf.1).2 g hg).1
      have hiff : Named (unbind t' f) g ↔ Named t' g := by rw [Named, Named, hslot]
      rw [hiff]
      exact ⟨fun h => ⟨hg, h⟩, fun h => h.2⟩

theorem flowsOf_subset (h : ∀ f, Deleted t t' f) (id : BitVec 16) : flowsOf t' id ⊆ flowsOf t id := by
  intro f hf
  obtain ⟨hmem, huse, hext⟩ := Finset.mem_filter.1 hf
  have hslot := ((h f).same huse).slot
  exact Finset.mem_filter.2 ⟨hmem, hslot ▸ huse, hslot ▸ hext⟩

theorem named_flowsOf (h : ∀ f, Deleted t t' f) {id : BitVec 16} (hid : id ≠ 0) :
    named (fun f => (t.flows f).extId) (Finset.univ.filter (Named t')) id = flowsOf t' id := by
  have hslot : ∀ f, (t'.flows f).inUse = true → t'.flows f = t.flows f :=
    fun f huse => ((h f).same huse).slot
  ext f
  rw [Finset.mem_filter, Finset.mem_filter, flowsOf, Finset.mem_filter]
  constructor
  · rintro ⟨⟨hmem, hlive⟩, hext⟩
    exact ⟨hmem, hlive.1, (congrArg FlowSlot.extId (hslot f hlive.1)).trans hext⟩
  · rintro ⟨hmem, huse, hext⟩
    exact ⟨⟨hmem, huse, hext ▸ hid⟩, (congrArg FlowSlot.extId (hslot f huse)).symm.trans hext⟩

/-- Of the flows of an id as many are left as there were, less the times the id was named. -/
theorem card_flowsOf_run (t : Tx) (ids : List (BitVec 16)) {id : BitVec 16} (hid : id ≠ 0) :
    (flowsOf (run deleteId t ids) id).card = (flowsOf t id).card - ids.count id := by
  have hstart : ∀ f, Deleted t t f := fun _ => .inl ⟨rfl, rfl⟩
  have hcount := card_named_run deleteId (fun t' => Finset.univ.filter (Named t'))
    (fun f => (t.flows f).extId) (fun t' => ∀ f, Deleted t t' f) deleted_deleteId
    takesOne_deleteId id ids hstart
  rw [named_flowsOf (deleted_run t ids) hid, named_flowsOf hstart hid] at hcount
  exact hcount

/-- A flow that is gone had an id the request named. -/
theorem extId_mem_of_gone (t : Tx) (ids : List (BitVec 16)) {f : CtxId} (hf : Named t f)
    (hgone : ((run deleteId t ids).flows f).inUse = false) : (t.flows f).extId ∈ ids := by
  by_contra hnot
  have hcard := card_flowsOf_run t ids hf.2
  rw [List.count_eq_zero.2 hnot, Nat.sub_zero] at hcard
  have hsame := Finset.eq_of_subset_of_card_le (flowsOf_subset (deleted_run t ids) _) hcard.ge
  have hmem : f ∈ flowsOf (run deleteId t ids) (t.flows f).extId :=
    hsame ▸ Finset.mem_filter.2 ⟨Finset.mem_univ f, hf.1, rfl⟩
  exact absurd (hgone.symm.trans (Finset.mem_filter.1 hmem).2.1) (by decide)

end Ids

/-! ## What a listing shows -/

/-- The id a flow is listed under. -/
def ArcItem.flowId? : ArcItem → Option Nat
  | .txFlow id .. => some id
  | _ => none

/-- The ids that a listing of all flows shows. -/
def listedIds (t : Tx) : List Nat :=
  ((List.finRange nFlows).filter fun f => (t.flows f).inUse).map fun f =>
    flowExtId (t.flows f) f.val

/-- The slot numbers of the flows that have no id of their own. -/
def slotNumbers (t : Tx) : List Nat :=
  ((List.finRange nFlows).filter fun f => (t.flows f).inUse && (t.flows f).extId == 0).map fun f =>
    f.val + 1

section Listing

variable {t : Tx}

theorem flowIds_itemsFrom (a : ArcState) :
    (ArcList.txFlows.itemsFrom a 1).filterMap ArcItem.flowId? = listedIds a.tx := by
  have hrange : List.range' 1 (nFlows + 1 - 1) =
      (List.finRange nFlows).map fun f => f.val + 1 := by decide
  rw [ArcList.itemsFrom, ArcList.limit, hrange, List.filterMap_map, List.filterMap_filterMap,
    listedIds, ← List.filterMap_eq_map, List.filterMap_filter]
  refine List.filterMap_congr fun f _ => ?_
  show ((danteTxFlowDesc a.tx f.val).map (txFlowOf a (f.val + 1))).bind ArcItem.flowId? = _
  rw [danteTxFlowDesc, dif_pos f.isLt]
  cases huse : (a.tx.flows f).inUse with
  | true => rfl
  | false => rfl

/-- One page holds them all. -/
theorem flows_listed (a : ArcState) {q : Datagram} (hstart : arcStart q = 1) :
    ∃ page, ArcList.txFlows.decode (arcReply a .txFlows q).buf = some page ∧
      page.items.filterMap ArcItem.flowId? = listedIds a.tx := by
  have hlen : (ArcList.txFlows.itemsFrom a (arcStart q)).length ≤ ArcList.txFlows.room := by
    rw [hstart]
    exact (List.length_filterMap_le ..).trans_eq (List.length_range' ..)
  refine ⟨_, (decode_arcReply a .txFlows q).1, ?_⟩
  dsimp only
  rw [List.take_of_length_le hlen, hstart]
  exact flowIds_itemsFrom a

/-- Every flow of an id is listed under it. -/
theorem card_flowsOf_le (t : Tx) {id : BitVec 16} (hid : id ≠ 0) :
    (flowsOf t id).card ≤ (listedIds t).count id.toNat := by
  let p := fun f : CtxId => decide ((t.flows f).inUse = true ∧ (t.flows f).extId = id)
  have hfinset : flowsOf t id = ((List.finRange nFlows).filter p).toFinset := by
    ext f
    simp [flowsOf, p]
  calc (flowsOf t id).card
      ≤ ((List.finRange nFlows).filter p).length := hfinset ▸ List.toFinset_card_le _
    _ = (List.finRange nFlows).countP p := List.countP_eq_length_filter.symm
    _ ≤ (listedIds t).count id.toNat := by
        rw [listedIds, List.count, List.countP_map, List.countP_filter]
        refine List.countP_mono_left fun f _ hf => ?_
        obtain ⟨huse, hext⟩ := of_decide_eq_true hf
        have hown : flowExtId (t.flows f) f.val = id.toNat := by
          rw [flowExtId, hext, if_neg hid]
        simp [hown, huse]

/-- Where no flow has an id of its own, slot numbers are all that is listed. -/
theorem listedIds_of_unnamed {t' : Tx} (h : ∀ f, Deleted t t' f) (hnone : ∀ f, ¬ Named t' f) :
    listedIds t' = slotNumbers t := by
  have hkept : ∀ f, (t'.flows f).inUse = ((t.flows f).inUse && (t.flows f).extId == 0) := by
    intro f
    rcases h f with hsame | ⟨hnamed, hgone⟩
    · rw [hsame.slot]
      have hf := hnone f
      rw [Named, hsame.slot] at hf
      cases huse : (t.flows f).inUse with
      | false => rfl
      | true =>
        have hext : (t.flows f).extId = 0 := not_not.1 fun hne => hf ⟨huse, hne⟩
        rw [hext]
        rfl
    · rw [hgone.free, beq_eq_false_iff_ne.2 hnamed.2, Bool.and_false]
  rw [listedIds, slotNumbers, List.filter_congr fun f _ => hkept f]
  refine List.map_congr_left fun f hf => ?_
  have huse : (t'.flows f).inUse = true := (hkept f).trans (List.mem_filter.1 hf).2
  have hext : (t'.flows f).extId = 0 := not_not.1 fun hne => hnone f ⟨huse, hne⟩
  rw [flowExtId, hext, if_pos rfl]
  exact Nat.mod_eq_of_lt (by omega)

end Listing

/-! ## In a session -/

/-- A request that is about neither flows nor the latency, which all flows share. -/
def Datagram.KeepsFlows (q : Datagram) : Prop :=
  q.opcode1 ≠ 0x2201 ∧ q.opcode1 ≠ 0x2202 ∧ q.opcode1 ≠ 0x1101

section Session

variable {s : ArcServer} {env : Moments} {q : Datagram}

theorem tx_settled (h : q.KeepsFlows) : (s.settled env q).tx = s.arc.tx := by
  obtain ⟨hcreate, hdelete, hlatency⟩ := h
  unfold ArcServer.settled
  split
  case h_1 hop => exact absurd hop hcreate
  case h_2 hop => exact absurd hop hdelete
  case h_3 =>
    rw [arcSubscribe]
    split
    · split <;> rfl
    · rfl
  case h_4 hop => exact absurd hop hlatency
  case h_5 => rfl

theorem tx_run : ∀ (es : List ArcEvent) (s : ArcServer), (∀ e ∈ es, e.Own) →
    (∀ q ∈ emitted arcStep asked s es, q.KeepsFlows) → (run arcStep s es).arc.tx = s.arc.tx
  | [], _, _, _ => rfl
  | e :: es, s, hes, hkeeps => by
      have hrest : (run arcStep (arcStep s e) es).arc.tx = (arcStep s e).arc.tx :=
        tx_run es (arcStep s e) (fun e' he' => hes e' (List.mem_cons_of_mem e he'))
          fun q hq => hkeeps q (List.mem_append_right _ hq)
      rw [run_cons, hrest]
      rcases arcStep_cases s (hes e List.mem_cons_self) with
        ⟨-, harc, -⟩ | ⟨s₁, env, q, hone, hq, harc, -, hstep⟩
      · rw [harc]
      · have hq' : q.KeepsFlows :=
          hkeeps q (List.mem_append_left _ (hone ▸ List.mem_singleton_self q))
        rw [hstep, (arc_arcRx s₁ env hq).1, tx_settled hq', harc]

/-- A request 0x2202 deletes its ids one after the other. -/
theorem tx_of_delete (hq : q.IsRequest) (hop : q.opcode1 = 0x2202) :
    (s.arcRx env q).arc.tx = run deleteId s.arc.tx q.deletedIds := by
  have hids := deleteGroups_eq_run q.content q.clen q.clen 0 s.arc.tx (Nat.le_add_left ..)
  rw [(arc_arcRx s env hq).1, ArcServer.settled, hop]
  exact hids

/-- A request that names every id as often as it is listed leaves no flow an id of its own. -/
theorem unnamed_of_listed {t : Tx} {ids : List (BitVec 16)}
    (h : ∀ id ∈ listedIds t, (listedIds t).count id ≤ (ids.map BitVec.toNat).count id)
    (f : CtxId) : ¬ Named (run deleteId t ids) f := by
  rintro ⟨huse, hext⟩
  set id := ((run deleteId t ids).flows f).extId
  have hmem : f ∈ flowsOf (run deleteId t ids) id :=
    Finset.mem_filter.2 ⟨Finset.mem_univ f, huse, rfl⟩
  -- the id of a flow that is left was listed more often than it was named
  have hleft : 0 < (flowsOf (run deleteId t ids) id).card := Finset.card_pos.2 ⟨f, hmem⟩
  rw [card_flowsOf_run t ids hext] at hleft
  have hlisted := card_flowsOf_le t hext
  have hin : id.toNat ∈ listedIds t := List.count_pos_iff.1 (by omega)
  have hnamed := h id.toNat hin
  rw [List.count_map_of_injective ids BitVec.toNat fun a b => BitVec.eq_of_toNat_eq] at hnamed
  omega

end Session

/-- Whatever a controller asks between the listing and the request, as long as it does not touch
the flows: a flow is as it was, in the table and in the gateware, or it had an id of its own that the
request names, and is gone from both; of every id as many flows go as the request names it times;
and if it names every id that was listed as often as it was listed, what a listing shows after it is
the slot numbers of the flows that had no id. -/
theorem listed_flows_deleted (s : ArcServer) (es : List ArcEvent) (hes : ∀ e ∈ es, e.Own)
    (hkeeps : ∀ q ∈ emitted arcStep asked s es, q.KeepsFlows) (env : Moments) (q : Datagram)
    (hq : q.IsRequest) (hop : q.opcode1 = 0x2202) :
    let t := s.arc.tx
    let s' := (run arcStep s es).arcRx env q
    (∀ f, SameFlow t s'.arc.tx f ∨
        Named t f ∧ (t.flows f).extId ∈ q.deletedIds ∧ Released s'.arc.tx f) ∧
      (∀ id, id ≠ 0 →
        (flowsOf s'.arc.tx id).card = (flowsOf t id).card - q.deletedIds.count id) ∧
      ∀ list : Datagram, list.Asks .txFlows → arcStart list = 1 →
        ∃ page page', ArcList.txFlows.decode ((s.answer env list).bytes list.req) = some page ∧
          ArcList.txFlows.decode ((s'.answer env list).bytes list.req) = some page' ∧
          ((∀ id ∈ page.items.filterMap ArcItem.flowId?,
              (page.items.filterMap ArcItem.flowId?).count id ≤
                (q.deletedIds.map BitVec.toNat).count id) →
            page'.items.filterMap ArcItem.flowId? = slotNumbers t) := by
  intro t s'
  have htx : s'.arc.tx = run deleteId t q.deletedIds := by
    rw [tx_of_delete hq hop, tx_run es s hes hkeeps]
  -- nothing between the listing and the request has touched the table
  have hdeleted := deleted_run t q.deletedIds
  refine ⟨fun f => ?_, fun id hid => ?_, fun list hlist hstart => ?_⟩
  · rw [htx]
    rcases hdeleted f with hsame | ⟨hnamed, hgone⟩
    · exact .inl hsame
    · exact .inr ⟨hnamed, extId_mem_of_gone t q.deletedIds hnamed hgone.free, hgone⟩
  · rw [htx]
    exact card_flowsOf_run t q.deletedIds hid
  · obtain ⟨page, hpage, hids⟩ := flows_listed s.arc hstart
    obtain ⟨page', hpage', hids'⟩ := flows_listed s'.arc hstart
    rw [answer_of_asks env hlist, answer_of_asks env hlist]
    refine ⟨page, page', hpage, hpage', fun hnamed => ?_⟩
    rw [hids] at hnamed
    rw [hids', htx]
    exact listedIds_of_unnamed hdeleted (unnamed_of_listed hnamed)

/-- The server with one group, created under the id 7. -/
def ArcServer.withGroup : ArcServer :=
  ArcServer.boot.withTx
    (bindMulticast arcBoot.tx 7 (fun _ => 1) ⟨1, one_slot⟩ 0 fun _ => (0, 0)).1

/-- A request to delete it. -/
def deleteRequest : Datagram := bareDatagram [0x28, 0x09, 0, 12, 0, 9, 0x22, 0x02, 0, 0, 0, 7]

theorem listed_flows_deleted_group :
    Named ArcServer.withGroup.arc.tx 0 ∧
      (flowsOf (ArcServer.withGroup.arcRx (fun _ => (0, fun _ => (0, 0))) deleteRequest).arc.tx
        7).card = 0 := by
  have hdeleted := (listed_flows_deleted ArcServer.withGroup []
    (fun _ h => absurd h List.not_mem_nil) (fun _ h => absurd h List.not_mem_nil)
    (fun _ => (0, fun _ => (0, 0))) deleteRequest (by decide) (by decide)).2.1 7 (by decide)
  have hcount : (flowsOf ArcServer.withGroup.arc.tx 7).card -
      deleteRequest.deletedIds.count 7 = 0 := by decide +kernel
  rw [hcount] at hdeleted
  exact ⟨by decide +kernel, hdeleted⟩

end Firmware
end InfernoFpga
