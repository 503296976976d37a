import InfernoFpga.Firmware.Paths

/-!
# CreatedGroups — is a flow that is reported as created still there?

A 0x2201 request creates its groups one after the other and reports all of them at the end.  With
every context taken, a bind evicts the oldest context, and nothing keeps it from evicting one that
an earlier descriptor of the same request was bound to.
-/

namespace InfernoFpga
namespace Firmware

open Lib
open Packetizer (CtxId)

/-! ## The request as a list of binds -/

/-- The descriptors the 0x2201 loop binds, from item `i` on, with room for `room` more ids. -/
def acceptedGroups (content : Mem) (clen : Nat) : Nat → Nat → Nat → List (Nat × GroupReq)
  | 0, _, _ => []
  | left + 1, i, room =>
      if room = 0 then []
      else if clen < 2 + i * 2 + 2 then []
      else match groupReq content clen i with
        | none => acceptedGroups content clen left (i + 1) room
        | some g => (i, g) :: acceptedGroups content clen left (i + 1) (room - 1)

/-- The descriptors of a whole request. -/
def requestGroups (content : Mem) (clen : Nat) : List (Nat × GroupReq) :=
  acceptedGroups content clen (groupItems content clen) 0 8

/-- Descriptor `g`, which is item `i`, is bound. -/
def bindGroup (env : Moments) (t : Tx) (ig : Nat × GroupReq) : Tx :=
  (bindMulticast t ig.2.fid ig.2.chans ig.2.n (env ig.1).1 (env ig.1).2).1

/-- Table and accepted ids at the end of a 0x2201 request. -/
def created (d : FlowControl) (content : Mem) (clen : Nat) (env : Moments) : Created :=
  createGroups content clen env (groupItems content clen) 0 (d.synced, [])

theorem createGroups_eq (content : Mem) (clen : Nat) (env : Moments) :
    ∀ (left i : Nat) (s : Created),
      createGroups content clen env left i s =
        (run (bindGroup env) s.1 (acceptedGroups content clen left i (8 - s.2.length)),
          s.2 ++ (acceptedGroups content clen left i (8 - s.2.length)).map fun ig => ig.2.fid)
  | 0, i, s => by simp only [createGroups, acceptedGroups, run_nil, List.map_nil, List.append_nil]
  | left + 1, i, s => by
      rw [createGroups, acceptedGroups]
      by_cases hfull : 8 ≤ s.2.length
      · have hroom : 8 - s.2.length = 0 := by omega
        rw [if_pos hfull, if_pos hroom, run_nil, List.map_nil, List.append_nil]
      have hroom : ¬ 8 - s.2.length = 0 := by omega
      rw [if_neg hfull, if_neg hroom]
      by_cases hend : clen < 2 + i * 2 + 2
      · rw [if_pos hend, if_pos hend, run_nil, List.map_nil, List.append_nil]
      rw [if_neg hend, if_neg hend, createGroups_eq content clen env left (i + 1), createGroup]
      cases hg : groupReq content clen i with
      | none => rfl
      | some g =>
          have hless : 8 - (s.2 ++ [g.fid]).length = 8 - s.2.length - 1 := by
            rw [List.length_append, List.length_singleton]
            omega
          simp only [hless, run_cons, List.map_cons, bindGroup, List.append_assoc,
            List.cons_append, List.nil_append]

theorem created_eq (d : FlowControl) (content : Mem) (clen : Nat) (env : Moments) :
    created d content clen env =
      (run (bindGroup env) d.synced (requestGroups content clen),
        (requestGroups content clen).map fun ig => ig.2.fid) := by
  rw [created, createGroups_eq]
  rfl

/-! ## What the reply lists -/

/-- The 16-bit fields of a run of bytes. -/
def fields16 : List UInt8 → List (BitVec 16)
  | hi :: lo :: bytes => BitVec.ofNat 16 (hi.toNat * 256 + lo.toNat) :: fields16 bytes
  | _ => []

/-- The flow ids a reply lists as created, behind their count and a zero. -/
def Reply.createdIds (r : Reply) : List (BitVec 16) :=
  if r.code = danteCodeOk then fields16 (r.content.drop 4) else []

theorem fields16_be16 (ids : List (BitVec 16)) :
    fields16 (ids.flatMap fun id => Mem.be16 id.toNat) = ids := by
  induction ids with
  | nil => rfl
  | cons id ids ih =>
    have hid : BitVec.ofNat 16 ((UInt8.ofNat (id.toNat / 256)).toNat * 256 +
        (UInt8.ofNat id.toNat).toNat) = id := by
      apply BitVec.eq_of_toNat_eq
      have hlt := id.isLt
      simp only [UInt8.toNat_ofNat', BitVec.toNat_ofNat]
      omega
    show BitVec.ofNat 16 ((UInt8.ofNat (id.toNat / 256)).toNat * 256 +
      (UInt8.ofNat id.toNat).toNat) ::
        fields16 (ids.flatMap fun id => Mem.be16 id.toNat) = id :: ids
    rw [hid, ih]

/-- The reply lists the ids that were accepted, and no others. -/
theorem createdIds_createdReply (ids : List (BitVec 16)) :
    (createdReply ids).createdIds = ids := by
  rw [createdReply, Reply.createdIds]
  split
  · rename_i hnone
    rw [hnone]
    rfl
  · show fields16 (ids.flatMap fun id => Mem.be16 id.toNat) = ids
    exact fields16_be16 ids

/-! ## A group that is there -/

/-- Slot and context `f` carry the group of a descriptor, on the context's own address. -/
structure GroupUp (t : Tx) (f : CtxId) (g : GroupReq) : Prop where
  inUse : (t.flows f).inUse = true
  mcast : (t.flows f).mcast = true
  extId : (t.flows f).extId = g.fid
  nslots : (t.flows f).nslots = g.n
  chans : (t.flows f).chans = fun c => if c.val < g.n.val then g.chans c else 0
  dst : (t.flows f).dst = t.flowIp f
  dport : (t.flows f).dport = dantePortMedia
  context : t.gw.ctx f = (t.flows f).binding t.netIp

/-- Two descriptors ask for the same channels in the same slots. -/
structure GroupReq.SameMap (g g' : GroupReq) : Prop where
  nslots : g.n = g'.n
  chans : ∀ c : Fin 8, c.val < g.n.val → g.chans c = g'.chans c

/-- Every id the reply lists was asked for, and what was asked for under it is there when the
reply is sent. -/
def CreatedTrue (d : FlowControl) (content : Mem) (clen : Nat) (env : Moments) : Prop :=
  ∀ fid ∈ (createdReply (created d content clen env).2).createdIds,
    (∃ ig ∈ requestGroups content clen, ig.2.fid = fid) ∧
      ∀ ig ∈ requestGroups content clen, ig.2.fid = fid →
        ∃ f, GroupUp (created d content clen env).1 f ig.2

/-- Descriptors that repeat an id repeat its channels. -/
def RepeatsAgree (gs : List (Nat × GroupReq)) : Prop :=
  ∀ ig ∈ gs, ∀ ig' ∈ gs, ig.2.fid = ig'.2.fid → ig.2.SameMap ig'.2

/-- The id is not in the table, no context is free, and the oldest context, which is then evicted,
carries group `fid`. -/
def Evicts (env : Moments) (t : Tx) (ig : Nat × GroupReq) (fid : BitVec 16) : Prop :=
  findFlow t (sameId ig.2.fid) = none ∧ findFlow t (fun s => !s.inUse) = none ∧
    sameId fid (t.flows (multicastVictim t (env ig.1).1)) = true

/-! ## Group ids are unique -/

/-- No two contexts carry a group under one id. -/
def UniqueGroups (flows : CtxId → FlowSlot) : Prop :=
  ∀ a b, (flows a).isGroup = true → (flows b).isGroup = true →
    (flows a).extId = (flows b).extId → a = b

theorem sameId_iff {fid : BitVec 16} {s : FlowSlot} :
    sameId fid s = true ↔ s.isGroup = true ∧ s.extId = fid := by
  simp only [sameId, FlowSlot.isGroup, Bool.and_eq_true, beq_iff_eq]

/-- A slot that ends up without a group adds no id. -/
theorem uniqueGroups_rewrites {t t' : Tx} {f : CtxId} (h : UniqueGroups t.flows)
    (hr : Rewrites t t' f) (hf : (t'.flows f).isGroup = false) : UniqueGroups t'.flows := by
  refine hr.alone (R := fun s s' => s.extId = s'.extId) h fun hlive => ?_
  rw [hf] at hlive
  cases hlive

/-- Another context with the id of a bind would have been its target. -/
theorem sameId_bindMulticast {t : Tx} (h : UniqueGroups t.flows) (fid : BitVec 16)
    (chans : Fin 8 → BitVec 16) (n : SlotCount) (now : UInt32) (reads : Nat → Nat × Nat)
    {g : CtxId} (hg : g ≠ (bindMulticast t fid chans n now reads).2) :
    sameId fid ((bindMulticast t fid chans n now reads).1.flows g) = false := by
  have hbound := bindMulticast_bound t fid chans n now reads
  rw [hbound.rewrites.flows g hg]
  by_contra hmatch
  rw [Bool.not_eq_false] at hmatch
  have hsame := hbound.target
  cases hfound : findFlow t (sameId fid) with
  | none => exact absurd (findFlow_none hfound g) (by rw [hmatch]; exact Bool.noConfusion)
  | some f =>
      rw [multicastTarget, hfound] at hsame
      have hf := sameId_iff.1 (findFlow_some hfound)
      have hgid := sameId_iff.1 hmatch
      exact hg ((h g f hgid.1 hf.1 (hgid.2.trans hf.2.symm)).trans hsame.symm)

theorem uniqueGroups_path : TablePath UniqueGroups (fun _ _ => True) fun _ _ => True where
  unbind := fun {t} f h => by
    refine uniqueGroups_rewrites h (rewrites_unbind t f) ?_
    rw [FlowSlot.isGroup, inUse_unbind, Bool.false_and]
  unicast := fun {t r} dmac now reads h _ => by
    have hbound := bindUnicast_bound t r dmac now reads
    refine uniqueGroups_rewrites h hbound.rewrites ?_
    rw [FlowSlot.isGroup, hbound.serves.mcast, Bool.and_false]
  multicast := fun {t} fid chans {n} now reads h _ => by
    have hbound := bindMulticast_bound t fid chans n now reads
    have halone := fun g => sameId_bindMulticast h fid chans n now reads (g := g)
    generalize bindMulticast t fid chans n now reads = res at hbound halone
    refine hbound.rewrites.alone (R := fun s s' => s.extId = s'.extId) h fun _ g hg hgroup => ?_
    -- a group under the id of the bind would have been its target
    have hne : (res.1.flows g).extId ≠ (res.1.flows res.2).extId := by
      intro hid
      have hsame := sameId_iff.2 ⟨hgroup, hid.trans hbound.extId⟩
      rw [halone g hg] at hsame
      cases hsame
    exact ⟨hne, hne.symm⟩

/-- Whatever the device has received, its group ids are unique. -/
theorem uniqueGroups_portsAfter (net : Net) (mac : Mac) (ops : List PortOp) :
    UniqueGroups (portsAfter net mac ops).tx.flows := by
  refine uniqueGroups_path.run (fun a b ha => ?_) (Along.of_forall (fun d op => ?_) ops _)
  · cases ha
  · cases op with
    | flows q now reads => exact fun _ _ _ _ => trivial
    | create content clen env => exact fun _ _ _ _ => trivial
    | _ => trivial

/-! ## Which ids are there at the end -/

section Present

variable {env : Moments} {t : Tx} {ig : Nat × GroupReq} {fid : BitVec 16} {f : CtxId}

/-- Some context carries group `fid`. -/
def Present (t : Tx) (fid : BitVec 16) : Prop := ∃ f, sameId fid (t.flows f) = true

/-- The context descriptor `ig` is bound to. -/
def groupTarget (env : Moments) (t : Tx) (ig : Nat × GroupReq) : CtxId :=
  multicastTarget t ig.2.fid (env ig.1).1

/-- A group in the context that is taken either has the descriptor's id or is evicted. -/
theorem evicts_of_target (hf : sameId fid (t.flows (groupTarget env t ig)) = true)
    (hne : fid ≠ ig.2.fid) : Evicts env t ig fid := by
  rw [groupTarget, multicastTarget] at hf
  split at hf
  · rename_i g hg
    exact absurd ((sameId_iff.1 hf).2.symm.trans (sameId_iff.1 (findFlow_some hg)).2) hne
  · rename_i hsame
    split at hf
    · rename_i g hg
      have hidle := findFlow_some hg
      have huse := (sameId_iff.1 hf).1
      rw [FlowSlot.isGroup, Bool.and_eq_true] at huse
      rw [huse.1] at hidle
      cases hidle
    · exact ⟨hsame, ‹_›, hf⟩

theorem groupTarget_of_evicts (h : Evicts env t ig fid) :
    groupTarget env t ig = multicastVictim t (env ig.1).1 := by
  simp only [groupTarget, multicastTarget, h.1, h.2.1]

theorem bindGroup_bound (env : Moments) (t : Tx) (ig : Nat × GroupReq) :
    Rewrites t (bindGroup env t ig) (groupTarget env t ig) ∧
      sameId ig.2.fid ((bindGroup env t ig).flows (groupTarget env t ig)) = true := by
  have hbound := bindMulticast_bound t ig.2.fid ig.2.chans ig.2.n (env ig.1).1 (env ig.1).2
  have htarget : _ = groupTarget env t ig := hbound.target
  rw [← htarget]
  refine ⟨hbound.rewrites, sameId_iff.2 ⟨?_, hbound.extId⟩⟩
  rw [FlowSlot.isGroup, Bool.and_eq_true]
  exact ⟨hbound.inUse, hbound.mcast⟩

/-- After a bind only the bound context carries the descriptor's id. -/
theorem groupTarget_unique (h : UniqueGroups t.flows)
    (hf : sameId ig.2.fid ((bindGroup env t ig).flows f) = true) : f = groupTarget env t ig := by
  by_contra hne
  have hbound := bindMulticast_bound t ig.2.fid ig.2.chans ig.2.n (env ig.1).1 (env ig.1).2
  have hother := sameId_bindMulticast h ig.2.fid ig.2.chans ig.2.n (env ig.1).1 (env ig.1).2
    (g := f) fun heq => hne (heq.trans hbound.target)
  have hboth : sameId ig.2.fid ((bindGroup env t ig).flows f) = false := hother
  rw [hf] at hboth
  cases hboth

/-- A context that carries another id after a bind carried it before. -/
theorem sameId_of_bindGroup (hne : fid ≠ ig.2.fid)
    (hf : sameId fid ((bindGroup env t ig).flows f) = true) :
    f ≠ groupTarget env t ig ∧ sameId fid (t.flows f) = true := by
  obtain ⟨hrewrites, hset⟩ := bindGroup_bound env t ig
  have hother : f ≠ groupTarget env t ig := by
    intro heq
    rw [heq] at hf
    exact hne ((sameId_iff.1 hf).2.symm.trans (sameId_iff.1 hset).2)
  rw [hrewrites.flows f hother] at hf
  exact ⟨hother, hf⟩

theorem bindGroup_setting (env : Moments) :
    Setting (bindGroup env) (fun ig => ig.2.fid) (Evicts env) (fun t => UniqueGroups t.flows)
      Present where
  inv := fun t ig h => uniqueGroups_path.multicast ig.2.fid ig.2.chans _ _ h trivial
  sets := fun t ig _ => ⟨_, (bindGroup_bound env t ig).2⟩
  keeps := by
    rintro t ig fid - ⟨f, hf⟩ hkept
    by_cases hid : fid = ig.2.fid
    · rw [hid]
      exact ⟨_, (bindGroup_bound env t ig).2⟩
    have hother : f ≠ groupTarget env t ig := fun heq =>
      hkept (evicts_of_target (by rwa [heq] at hf) hid)
    refine ⟨f, ?_⟩
    rw [(bindGroup_bound env t ig).1.flows f hother]
    exact hf
  loses := by
    rintro t ig fid hunique hevict ⟨f, hf⟩
    have hne : fid ≠ ig.2.fid := by
      rintro rfl
      exact absurd (findFlow_none hevict.1 _) (by rw [hevict.2.2]; exact Bool.noConfusion)
    obtain ⟨hother, hbefore⟩ := sameId_of_bindGroup hne hf
    have hgone := sameId_iff.1 hevict.2.2
    have hsame := sameId_iff.1 hbefore
    rw [groupTarget_of_evicts hevict] at hother
    exact hother (hunique _ _ hsame.1 hgone.1 (hsame.2.trans hgone.2.symm))
  others := by
    rintro t ig fid - hne habsent ⟨f, hf⟩
    exact habsent ⟨f, (sameId_of_bindGroup hne hf).2⟩

end Present

/-! ## What a context that carries an id holds -/

section Content

variable {env : Moments} {t : Tx} {ig : Nat × GroupReq} {f : CtxId}

theorem groupUp_bindMulticastInto (t₀ : Tx) (f : CtxId) (g : GroupReq) (now : UInt32)
    (reads : Nat → Nat × Nat) :
    GroupUp (bindMulticastInto t₀ f g.fid g.chans g.n now reads) f g := by
  have hslot : (bindMulticastInto t₀ f g.fid g.chans g.n now reads).flows f =
      multicastSlot t₀ f g.fid g.chans g.n now := setFlow_self _ _ _
  refine ⟨?_, ?_, ?_, ?_, ?_, ?_, ?_, ?_⟩
  all_goals rw [hslot]
  all_goals try rfl
  refine (writeCtx_self t₀ f (t₀.flowIp f) (netMcastMac (t₀.flowIp f)) dantePortMedia g.chans g.n
    t₀.mcastFpp reads).trans ?_
  exact (binding_truncate t₀.netIp (t₀.flowIp f) (netMcastMac (t₀.flowIp f)) dantePortMedia
    g.chans g.n t₀.mcastFpp).symm

/-- Whatever path it takes, a multicast bind ends in the writes of one context. -/
theorem bindMulticast_into (t : Tx) (fid : BitVec 16) (chans : Fin 8 → BitVec 16) (n : SlotCount)
    (now : UInt32) (reads : Nat → Nat × Nat) :
    ∃ t₀ f, bindMulticast t fid chans n now reads =
      (bindMulticastInto t₀ f fid chans n now reads, f) := by
  unfold bindMulticast
  split
  · exact ⟨t, _, rfl⟩
  split
  · exact ⟨t, _, rfl⟩
  · exact ⟨unbind t (multicastVictim t now), multicastVictim t now, rfl⟩

theorem groupUp_bindMulticast (t : Tx) (g : GroupReq) (now : UInt32) (reads : Nat → Nat × Nat) :
    GroupUp (bindMulticast t g.fid g.chans g.n now reads).1
      (bindMulticast t g.fid g.chans g.n now reads).2 g := by
  obtain ⟨t₀, f, heq⟩ := bindMulticast_into t g.fid g.chans g.n now reads
  rw [heq]
  exact groupUp_bindMulticastInto t₀ f g now reads

/-- A bind leaves its context with the group of the descriptor, channels and destination. -/
theorem groupUp_bindGroup (env : Moments) (t : Tx) (ig : Nat × GroupReq) :
    GroupUp (bindGroup env t ig) (groupTarget env t ig) ig.2 := by
  have hbound := bindMulticast_bound t ig.2.fid ig.2.chans ig.2.n (env ig.1).1 (env ig.1).2
  have htarget : _ = groupTarget env t ig := hbound.target
  rw [← htarget]
  exact groupUp_bindMulticast t ig.2 (env ig.1).1 (env ig.1).2

theorem netIp_bindGroup (env : Moments) (t : Tx) (ig : Nat × GroupReq) :
    (bindGroup env t ig).netIp = t.netIp := by
  rw [bindGroup, bindMulticast]
  split
  · rfl
  split
  · rfl
  · show (unbind t _).netIp = t.netIp
    rw [unbind]
    split <;> rfl

theorem GroupUp.isGroup {g : GroupReq} (h : GroupUp t f g) : (t.flows f).isGroup = true := by
  rw [FlowSlot.isGroup, h.inUse, h.mcast, Bool.and_true]

/-- A group in another context is left alone. -/
theorem GroupUp.bindGroup {g : GroupReq} (h : GroupUp t f g) (hf : f ≠ groupTarget env t ig) :
    GroupUp (bindGroup env t ig) f g := by
  obtain ⟨hrewrites, -⟩ := bindGroup_bound env t ig
  have hflow := hrewrites.flows f hf
  refine ⟨?_, ?_, ?_, ?_, ?_, ?_, ?_, ?_⟩
  all_goals rw [hflow]
  · exact h.inUse
  · exact h.mcast
  · exact h.extId
  · exact h.nslots
  · exact h.chans
  · rw [hrewrites.flowIp]
    exact h.dst
  · exact h.dport
  · rw [hrewrites.contexts f hf, netIp_bindGroup]
    exact h.context

theorem GroupUp.sameMap {g g' : GroupReq} (h : GroupUp t f g) (hid : g.fid = g'.fid)
    (hmap : g.SameMap g') : GroupUp t f g' := by
  refine ⟨h.inUse, h.mcast, h.extId.trans hid, h.nslots.trans hmap.nslots, ?_, h.dst, h.dport,
    h.context⟩
  rw [h.chans, ← hmap.nslots]
  funext c
  split
  · exact hmap.chans c ‹_›
  · rfl

/-- One context carries one channel map. -/
theorem GroupUp.agree {g g' : GroupReq} (h : GroupUp t f g) (h' : GroupUp t f g') :
    g.SameMap g' := by
  have hn : g.n = g'.n := h.nslots.symm.trans h'.nslots
  refine ⟨hn, fun c hc => ?_⟩
  have hmap := congrFun (h.chans.symm.trans h'.chans) c
  rwa [if_pos hc, if_pos (hn ▸ hc)] at hmap

/-- If repeated ids repeat their channels, whatever context carries the id of a descriptor that
was bound carries all it asked for. -/
theorem groupUp_run (env : Moments) :
    ∀ (later earlier : List (Nat × GroupReq)) {t : Tx}, RepeatsAgree (earlier ++ later) →
      UniqueGroups t.flows →
      (∀ ig ∈ earlier, ∀ f, sameId ig.2.fid (t.flows f) = true → GroupUp t f ig.2) →
      ∀ ig ∈ earlier ++ later, ∀ f,
        sameId ig.2.fid ((run (Firmware.bindGroup env) t later).flows f) = true →
        GroupUp (run (Firmware.bindGroup env) t later) f ig.2
  | [], earlier, t, _, _, hold => by
      rw [List.append_nil]
      exact hold
  | jg :: later, earlier, t, hagree, hunique, hold => by
      have hassoc : earlier ++ jg :: later = (earlier ++ [jg]) ++ later := by
        rw [List.append_assoc, List.singleton_append]
      rw [hassoc] at hagree ⊢
      refine groupUp_run env later (earlier ++ [jg]) hagree
        ((bindGroup_setting env).inv t jg hunique) fun ig hig f hf => ?_
      by_cases hid : ig.2.fid = jg.2.fid
      · rw [hid] at hf
        rw [groupTarget_unique hunique hf]
        exact (groupUp_bindGroup env t jg).sameMap hid.symm
          (hagree jg (by simp) ig (List.mem_append_left _ hig) hid.symm)
      · obtain ⟨hother, hbefore⟩ := sameId_of_bindGroup hid hf
        have hin : ig ∈ earlier := by
          rcases List.mem_append.1 hig with hin | hin
          · exact hin
          · exact absurd (by rw [List.mem_singleton.1 hin]) hid
        exact (hold ig hin f hbefore).bindGroup hother

end Content

/-! ## Is the reply true? -/

theorem createdTrue_iff_up (d : FlowControl) (content : Mem) (clen : Nat) (env : Moments) :
    CreatedTrue d content clen env ↔ ∀ ig ∈ requestGroups content clen,
      ∃ f, GroupUp (run (bindGroup env) d.synced (requestGroups content clen)) f ig.2 := by
  rw [CreatedTrue, createdIds_createdReply, created_eq]
  constructor
  · intro h ig hig
    exact (h ig.2.fid (List.mem_map_of_mem hig)).2 ig hig rfl
  · intro h fid hfid
    obtain ⟨ig, hig, hid⟩ := List.mem_map.1 hfid
    exact ⟨⟨ig, hig, hid⟩, fun jg hjg _ => h jg hjg⟩

theorem createdTrue_iff {d : FlowControl} (hunique : UniqueGroups d.tx.flows) (content : Mem)
    (clen : Nat) (env : Moments) :
    CreatedTrue d content clen env ↔
      RepeatsAgree (requestGroups content clen) ∧
        Spared (bindGroup env) (fun ig => ig.2.fid) (Evicts env) d.synced []
          (requestGroups content clen) := by
  rw [createdTrue_iff_up]
  have hnone : ∀ fid ∈ ([] : List (BitVec 16)),
      fid ∉ (requestGroups content clen).map (fun ig => ig.2.fid) → Present d.synced fid :=
    fun fid hfid => absurd hfid List.not_mem_nil
  have hpresent := (bindGroup_setting env).holds_iff_spared (requestGroups content clen)
    (s := d.synced) hunique hnone
  have hend : UniqueGroups (run (bindGroup env) d.synced (requestGroups content clen)).flows :=
    run_invariant (bindGroup env) (P := fun t => UniqueGroups t.flows)
      (bindGroup_setting env).inv _ hunique
  rw [← hpresent, List.nil_append]
  constructor
  · intro h
    refine ⟨fun ig hig jg hjg hid => ?_, fun fid hfid => ?_⟩
    · obtain ⟨f, hf⟩ := h ig hig
      obtain ⟨g, hg⟩ := h jg hjg
      have hsame : f = g := hend f g hf.isGroup hg.isGroup
        ((hf.extId.trans hid).trans hg.extId.symm)
      rw [← hsame] at hg
      exact hf.agree hg
    · obtain ⟨ig, hig, hid⟩ := List.mem_map.1 hfid
      obtain ⟨f, hf⟩ := h ig hig
      exact ⟨f, sameId_iff.2 ⟨hf.isGroup, hf.extId.trans hid⟩⟩
  · rintro ⟨hagree, hthere⟩ ig hig
    obtain ⟨f, hf⟩ := hthere ig.2.fid (List.mem_map_of_mem hig)
    exact ⟨f, groupUp_run env (requestGroups content clen) [] (t := d.synced) hagree hunique
      (fun jg hjg => absurd hjg List.not_mem_nil) ig hig f hf⟩

/-- In whatever state a 0x2201 request finds the device, all it reports as created is there
exactly if repeated ids repeat their channels and no descriptor evicts a group that an earlier
one created and no later one creates again. -/
theorem created_reply_true (net : Net) (mac : Mac) (ops : List PortOp) (content : Mem)
    (clen : Nat) (env : Moments) :
    CreatedTrue (portsAfter net mac ops) content clen env ↔
      RepeatsAgree (requestGroups content clen) ∧
        Spared (bindGroup env) (fun ig => ig.2.fid) (Evicts env) (portsAfter net mac ops).synced
          [] (requestGroups content clen) :=
  createdTrue_iff (uniqueGroups_portsAfter net mac ops) content clen env

/-- Seven groups of one channel, under the ids 1 to 7. -/
def sevenGroups : Mem := fun k =>
  ([0, 7] ++ ((List.range 7).flatMap fun i => Mem.be16 (26 + 18 * i)) ++
    (List.range 7).flatMap fun i => Mem.be16 (i + 1) ++ Mem.be16 2 ++ List.replicate 10 0 ++
      Mem.be16 1 ++ Mem.be16 (i + 1)).getD k 0

/-- The request at once, on a device nobody has subscribed to. -/
def createSeven : Created :=
  created (portsAfter heardOnce.net ⟨2, 0, 0, 0, 9, 200⟩ []) sevenGroups 142
    fun _ => (0, fun _ => (0, 0))

/-- There are six contexts: group 7 takes that of group 6, and the reply lists both. -/
theorem created_reply_false :
    (createdReply createSeven.2).createdIds = [1, 2, 3, 4, 5, 6, 7] ∧
      ((List.finRange nFlows).map fun f => (createSeven.1.flows f).extId) = [1, 2, 3, 4, 5, 7] ∧
      ¬ CreatedTrue (portsAfter heardOnce.net ⟨2, 0, 0, 0, 9, 200⟩ []) sevenGroups 142
        (fun _ => (0, fun _ => (0, 0))) := by
  have hids : (createdReply createSeven.2).createdIds = [1, 2, 3, 4, 5, 6, 7] := by
    rw [createdIds_createdReply]
    decide +kernel
  have htable : ((List.finRange nFlows).map fun f => (createSeven.1.flows f).extId) =
      [1, 2, 3, 4, 5, 7] := by decide +kernel
  refine ⟨hids, htable, fun h => ?_⟩
  have hlisted : (6 : BitVec 16) ∈ (createdReply createSeven.2).createdIds := by
    rw [hids]
    decide
  obtain ⟨⟨ig, hig, hid⟩, hup⟩ := h 6 hlisted
  obtain ⟨f, hf⟩ := hup ig hig hid
  have hmem : (6 : BitVec 16) ∈
      ((List.finRange nFlows).map fun f => (createSeven.1.flows f).extId) :=
    List.mem_map.2 ⟨f, List.mem_finRange f, hf.extId.trans hid⟩
  rw [htable] at hmem
  exact absurd hmem (by decide)

end Firmware
end InfernoFpga
