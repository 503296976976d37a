import InfernoFpga.Firmware.ArcAnswers
import InfernoFpga.Lib.Drain

/-!
# ArcSession — what a controller reads is what was set

Most requests only read.  Four of them write: a latency, a subscription, flows to create and flows to
delete.  Over a whole session, with anything else on the wire between them, what the lists and the
property table say is what was set last; and the flows a list shows can be deleted by what it shows
them under.
-/

namespace InfernoFpga
namespace Firmware

open Lib
open Mdns (Str dantePortArc)
open Packetizer (CtxId)

/-! ## What a request sets -/

namespace Datagram

variable (q : Datagram)

/-- The latency a request sets, if it sets one. -/
def setsLatency : Option UInt32 :=
  if q.IsRequest ∧ q.opcode1 = 0x1101 then q.latencySet else none

end Datagram

/-- An event that leaves the settings to the requests. -/
def ArcEvent.Own : ArcEvent → Prop
  | .others _ => False
  | _ => True

/-- The request an event brings to the server. -/
def asked (s : ArcServer) : ArcEvent → List Datagram
  | .frame f _ => (brings s.net f .arc).toList.filter fun q => decide q.IsRequest
  | _ => []

namespace ArcServer

variable (s : ArcServer) (env : Moments) (q : Datagram)

/-- The flows that are left when the descriptors of a request 0x2201 have been bound. -/
def createdTx : Tx := (createGroups q.content q.clen env (groupItems q.content q.clen) 0
  (s.synced, [])).1

/-- What a request makes of the settings; all but four only read. -/
def settled : ArcState :=
  match q.opcode1 with
  | 0x2201 => { s.arc with tx := s.createdTx env q }
  | 0x2202 => { s.arc with tx := deleteGroups q.content q.clen q.clen 0 s.arc.tx }
  | 0x3010 => arcSubscribe s.arc q
  | 0x1101 =>
      match q.latencySet with
      | none => s.arc
      | some v => (s.setLatency v).arc
  | _ => s.arc

end ArcServer

section Effect

variable {s : ArcServer} {env : Moments} {q : Datagram}

theorem arc_latencyCase (m : ArcMsg) : (s.latencyCase q m).1.arc =
    match q.latencySet with
    | none => s.arc
    | some v => (s.setLatency v).arc := by
  rw [ArcServer.latencyCase]
  cases q.latencySet with
  | none => rfl
  | some v => rfl

theorem arc_dispatch (m : ArcMsg) : (s.dispatch env q m).1.arc = s.settled env q := by
  unfold ArcServer.dispatch ArcServer.settled
  split
  case h_20 hop =>
    rw [hop]
    exact arc_latencyCase m
  case h_21 =>
    -- what is not known is only counted
    split
    case h_5 => rfl
    all_goals contradiction
  all_goals
    rename_i hop
    rw [hop]
    rfl

theorem body_latencyCase (m : ArcMsg) : (s.latencyCase q m).1.body = s.body := by
  rw [ArcServer.latencyCase]
  cases q.latencySet with
  | none => rfl
  | some v => rfl

/-- The property table is written to by its own request alone. -/
theorem body_dispatch (m : ArcMsg) : (s.dispatch env q m).1.body = s.body ∨
    (s.dispatch env q m).1.body = trackLatency s.body s.arc.latencyNs.toNat := by
  unfold ArcServer.dispatch
  split
  case h_12 => exact .inr rfl
  case h_20 => exact .inl (body_latencyCase m)
  all_goals exact .inl rfl

/-! ### One step -/

/-- Beyond the switch, the handler changes no setting. -/
theorem arc_arcRx (s : ArcServer) (env : Moments) (hq : q.IsRequest) :
    (s.arcRx env q).arc = s.settled env q ∧
      ((s.arcRx env q).body = s.body ∨
        (s.arcRx env q).body = trackLatency s.body s.arc.latencyNs.toNat) := by
  have hmirror : ∀ (s : ArcServer) (code : Nat), (s.mirror q code).arc = s.arc ∧
      (s.mirror q code).body = s.body := by
    intro s code
    rw [ArcServer.mirror]
    split
    · exact ⟨rfl, rfl⟩
    · exact ⟨rfl, rfl⟩
  rw [arcRx_of_request env hq]
  obtain ⟨harc, hbody⟩ := hmirror ((s.handled env q).1.commitReply q
    ((s.handled env q).2.1.finish (s.handled env q).2.2)) (s.handled env q).2.2
  rw [harc, hbody]
  exact ⟨arc_dispatch (s := s.countRx) (arcMsgBegin q.req),
    body_dispatch (s := s.countRx) (arcMsgBegin q.req)⟩

/-- A request sets the latency if it is the one that does. -/
theorem latency_settled (hq : q.IsRequest) :
    (s.settled env q).latencyNs = q.setsLatency.getD s.arc.latencyNs := by
  have hother : ∀ {op}, q.opcode1 = op → op ≠ 0x1101 → q.setsLatency = none :=
    fun heq hne => if_neg fun h => hne (heq.symm.trans h.2)
  unfold ArcServer.settled
  split
  case h_1 hop =>
    rw [hother hop (by decide)]
    rfl
  case h_2 hop =>
    rw [hother hop (by decide)]
    rfl
  case h_3 hop =>
    rw [hother hop (by decide), arcSubscribe]
    split
    · split <;> rfl
    · rfl
  case h_4 hop =>
    rw [Datagram.setsLatency, if_pos ⟨hq, hop⟩]
    cases q.latencySet with
    | none => rfl
    | some v => rfl
  case h_5 hop =>
    rw [Datagram.setsLatency, if_neg fun h => hop h.2]
    rfl

/-- A request sets the names of a receive channel if it is the one that does. -/
theorem subs_settled : channelFormat (s.settled env q) = channelFormat s.arc ∧
    ∀ idx, 1 ≤ idx ∧ idx ≤ danteRxChannels →
      (subName (s.settled env q).subTxName idx, subName (s.settled env q).subTxHost idx) =
        (q.sets idx).getD (subName s.arc.subTxName idx, subName s.arc.subTxHost idx) := by
  have hother : ∀ {op}, q.opcode1 = op → op ≠ opSubscribe → ∀ idx, q.sets idx = none :=
    fun heq hne idx => if_neg fun h => hne (heq.symm.trans h.1.2.2.1)
  unfold ArcServer.settled
  split
  case h_1 hop =>
    refine ⟨rfl, fun idx _ => ?_⟩
    rw [hother hop (by decide)]
    rfl
  case h_2 hop =>
    refine ⟨rfl, fun idx _ => ?_⟩
    rw [hother hop (by decide)]
    rfl
  -- the one request that sets a subscription
  case h_3 => exact arcSubscribe_spec s.arc q
  case h_4 hop =>
    have hset : ∀ idx, q.sets idx = none := hother hop (by decide)
    cases q.latencySet with
    | none => exact ⟨rfl, fun idx _ => by rw [hset]; rfl⟩
    | some v => exact ⟨rfl, fun idx _ => by rw [hset]; rfl⟩
  case h_5 hop =>
    refine ⟨rfl, fun idx _ => ?_⟩
    have hset : q.sets idx = none := if_neg fun h => ‹q.opcode1 = 0x3010 → False› h.1.2.2.1
    rw [hset]
    rfl

/-- An event either leaves the settings alone or is one request. -/
theorem arcStep_cases (s : ArcServer) {e : ArcEvent} (he : e.Own) :
    (asked s e = [] ∧ (arcStep s e).arc = s.arc ∧ (arcStep s e).body = s.body) ∨
      ∃ (s₁ : ArcServer) (env : Moments) (q : Datagram), asked s e = [q] ∧ q.IsRequest ∧
        s₁.arc = s.arc ∧ s₁.body = s.body ∧ arcStep s e = s₁.arcRx env q := by
  cases e with
  | others s' => exact absurd he id
  | stack op => exact .inl ⟨rfl, rfl, rfl⟩
  | frame f env =>
    rw [arcStep, asked]
    cases brings s.net f .arc with
    | none => exact .inl ⟨rfl, rfl, rfl⟩
    | some q =>
      by_cases hq : q.IsRequest
      · exact .inr ⟨s.received f, env, q, List.filter_cons_of_pos (decide_eq_true hq), hq, rfl, rfl,
          rfl⟩
      · refine .inl ⟨List.filter_cons_of_neg (by simpa using hq), ?_⟩
        dsimp only
        rw [arcRx_of_not env hq]
        exact ⟨rfl, rfl⟩

end Effect

/-! ## Sessions -/

/-- The last of the values that some of a list have. -/
theorem foldl_getD {α β : Type*} (f : α → Option β) (x : β) (as : List α) :
    as.foldl (fun x a => (f a).getD x) x = ((as.filterMap f).getLast?).getD x := by
  induction as generalizing x with
  | nil => rfl
  | cons a as ih =>
    rw [List.foldl_cons, ih, List.filterMap_cons]
    cases f a with
    | none => rfl
    | some y =>
      rw [List.getLast?_cons]
      rfl

/-- The latency that was set last, before or in the course of `qs`. -/
def lastLatency (v : UInt32) (qs : List Datagram) : UInt32 :=
  ((qs.filterMap Datagram.setsLatency).getLast?).getD v

section Session

variable {s : ArcServer} {es : List ArcEvent}

theorem latency_run (hes : ∀ e ∈ es, e.Own) :
    (run arcStep s es).arc.latencyNs =
      lastLatency s.arc.latencyNs (emitted arcStep asked s es) := by
  have hown : Along arcStep (fun _ e => e.Own) s es := Along.of_inputs hes
  have hreplay := @Along.replay ArcServer ArcEvent Datagram UInt32 arcStep (fun _ e => e.Own) s es
    asked (fun s => s.arc.latencyNs) (fun v q => q.setsLatency.getD v) (fun _ => True)
    (fun _ _ _ _ => trivial) (fun s e he _ => ?_) hown trivial
  · rw [lastLatency, ← foldl_getD]
    exact hreplay
  · rcases arcStep_cases s he with ⟨hnone, harc, -⟩ | ⟨s₁, env, q, hone, hq, harc, -, hstep⟩
    · rw [hnone, harc]
      rfl
    · rw [hone, hstep, (arc_arcRx s₁ env hq).1, latency_settled hq, harc]
      rfl

theorem subs_run (hes : ∀ e ∈ es, e.Own) :
    channelFormat (run arcStep s es).arc = channelFormat s.arc ∧
      ∀ idx, 1 ≤ idx ∧ idx ≤ danteRxChannels →
        (subName (run arcStep s es).arc.subTxName idx,
            subName (run arcStep s es).arc.subTxHost idx) =
          lastSet s.arc (emitted arcStep asked s es) idx := by
  have hown : Along arcStep (fun _ e => e.Own) s es := Along.of_inputs hes
  constructor
  · refine hown.invariant (P := fun s' => channelFormat s'.arc = channelFormat s.arc)
      (fun s' e he hs' => ?_) rfl
    rcases arcStep_cases s' he with ⟨-, harc, -⟩ | ⟨s₁, env, q, -, hq, harc, -, hstep⟩
    · rw [harc, hs']
    · rw [hstep, (arc_arcRx s₁ env hq).1, subs_settled.1, harc, hs']
  · intro idx hidx
    have hreplay := @Along.replay ArcServer ArcEvent Datagram (Str × Str) arcStep
      (fun _ e => e.Own) s es asked
      (fun s => (subName s.arc.subTxName idx, subName s.arc.subTxHost idx))
      (fun v q => (q.sets idx).getD v) (fun _ => True) (fun _ _ _ _ => trivial)
      (fun s e he _ => ?_) hown trivial
    · rw [lastSet, ← foldl_getD]
      exact hreplay
    · rcases arcStep_cases s he with ⟨hnone, harc, -⟩ | ⟨s₁, env, q, hone, hq, harc, -, hstep⟩
      · rw [hnone, harc]
        rfl
      · rw [hone, hstep, (arc_arcRx s₁ env hq).1, subs_settled.2 idx hidx, harc]
        rfl

theorem intact_run (hes : ∀ e ∈ es, e.Own) (hs : Intact s.body) :
    Intact (run arcStep s es).body := by
  have hown : Along arcStep (fun _ e => e.Own) s es := Along.of_inputs hes
  refine hown.invariant (P := fun s => Intact s.body) (fun s e he hs => ?_) hs
  rcases arcStep_cases s he with ⟨-, -, hbody⟩ | ⟨s₁, env, q, -, hq, -, hbody, hstep⟩
  · exact hbody ▸ hs
  · rw [← hbody] at hs
    rw [hstep]
    rcases (arc_arcRx s₁ env hq).2 with hsame | htracked
    · exact hsame ▸ hs
    · rw [htracked]
      exact (trackLatency_spec hs _).1

end Session

/-! ## Reading -/

section Reading

variable {s : ArcServer} {q : Datagram}

/-- The reply to an enumeration is its page. -/
theorem answer_of_asks {op : ArcList} (env : Moments) (h : q.Asks op) :
    (s.answer env q).bytes q.req = (arcReply s.arc op q).buf := by
  have hhandled : s.handled env q =
      (s.countRx, op.build s.arc (arcStart q) (arcMsgBegin q.req)) := by
    unfold ArcServer.handled ArcServer.dispatch
    rw [h.opcode1]
    cases op <;> rfl
  have hfinish := ((Begun.start q.req).build s.arc op (arcStart q)).finish
    (op.build s.arc (arcStart q) (arcMsgBegin q.req)).2
  rw [ArcServer.answer, hhandled]
  exact hfinish.1.symm

theorem answer_properties (env : Moments) (h : q.opcode1 = 0x1100) : s.answer env q =
    ⟨danteCodeOk, Mem.slice (trackLatency s.body s.arc.latencyNs.toNat) 0 arc1100Size⟩ := by
  unfold ArcServer.answer ArcServer.handled ArcServer.dispatch
  rw [h]
  rfl

/-- The property table reports the latency, as the configured one and as the present one. -/
theorem properties_report (env : Moments) (hbody : Intact s.body) (hq : q.IsRequest)
    (hop : q.opcode1 = 0x1100) :
    readProperty (bytesOf ((s.answer env q).bytes q.req)) 0x8205 =
        some s.arc.latencyNs.toNat ∧
      readProperty (bytesOf ((s.answer env q).bytes q.req)) 0x8301 =
        some s.arc.latencyNs.toNat := by
  have hreports : ReportsLatency ⟨s.body, s.arc.latencyNs⟩ (.arc q) := reports_of_intact hbody
  rw [answer_properties env hop]
  refine hreports _ ?_
  rw [arcRx1100, if_neg]
  rintro (hlen | hcode | hne)
  · exact Nat.not_lt.2 hq.1 hlen
  · exact hcode hq.2
  · exact hne hop

/-- The list of receive channels says what their subscriptions are. -/
theorem decode_rxChannels {a a' : ArcState} {sub : Nat → Str × Str}
    (hformat : channelFormat a' = channelFormat a)
    (hnames : ∀ idx, 1 ≤ idx ∧ idx ≤ danteRxChannels →
      (subName a'.subTxName idx, subName a'.subTxHost idx) = sub idx) (q : Datagram) :
    ArcList.rxChannels.decode (arcReply a' .rxChannels q).buf =
      some ⟨danteCodeOk, (List.range' (arcStart q) (danteRxChannels + 1 - arcStart q)).map
        fun idx => subscribed a idx (sub idx)⟩ := by
  have hstart := one_le_arcStart q
  have hlimit : ArcList.rxChannels.limit = danteRxChannels := rfl
  have hroom : ArcList.rxChannels.room = danteRxChannels := rfl
  have hitems : ArcList.rxChannels.itemsFrom a' (arcStart q) =
      (List.range' (arcStart q) (danteRxChannels + 1 - arcStart q)).map
        fun idx => subscribed a idx (sub idx) := by
    rw [ArcList.itemsFrom, ← List.filterMap_eq_map]
    refine List.filterMap_congr fun idx hidx => ?_
    obtain ⟨hlow, hhigh⟩ := List.mem_range'_1.1 hidx
    have hsub := hnames idx ⟨by omega, by omega⟩
    show some (rxChannelOf a' idx) = some _
    rw [rxChannelOf, hformat]
    exact congrArg (fun names => some (subscribed a idx names)) hsub
  have hlen : (ArcList.rxChannels.itemsFrom a' (arcStart q)).length ≤
      ArcList.rxChannels.room := by
    rw [hitems, List.length_map, List.length_range']
    omega
  rw [(decode_arcReply a' .rxChannels q).1, if_neg (Nat.not_lt.2 hlen),
    List.take_of_length_le hlen, hitems]

/-- The latency a flow is listed with. -/
def ArcItem.latency? : ArcItem → Option Nat
  | .txFlow _ _ _ _ _ _ _ _ _ _ _ latency => some latency
  | _ => none

/-- A flow is listed with the latency that is set, or with the one it has been raised to. -/
theorem latency_of_listed {a : ArcState} {start : Nat} {item : ArcItem}
    (h : item ∈ ArcList.txFlows.itemsFrom a start) :
    ∃ l, item.latency? = some l ∧ a.latencyNs.toNat ≤ l := by
  obtain ⟨idx, -, hitem⟩ := List.mem_filterMap.1 h
  obtain ⟨slot, -, rfl⟩ := Option.map_eq_some_iff.1 hitem
  refine ⟨flowLatency a, rfl, ?_⟩
  rw [flowLatency, danteTxLatencyEffective]
  split
  · exact Nat.le_max_right _ _
  · exact Nat.le_refl _

end Reading

/-- A request for a latency of 250 µs, from 169.254.1.1. -/
def latencyRequest : List UInt8 :=
  [2, 0, 0, 0, 0, 1, 2, 0, 0, 0, 0, 2, 0x08, 0x00,
    0x45, 0, 0, 68, 0, 0, 0, 0, 64, 17, 0, 0, 169, 254, 1, 1, 169, 254, 9, 200,
    0x30, 0x39, 0x11, 0x58, 0, 48, 0, 0, 0x28, 0x09, 0, 40, 0, 8, 0x11, 0x01, 0, 0] ++
    List.replicate 22 0 ++ [0, 0x03, 0xD0, 0x90, 0, 0x03, 0xD0, 0x90]

/-- A request for the property table. -/
def propertiesRequest : Datagram := bareDatagram [0x28, 0x09, 0, 10, 0, 9, 0x11, 0, 0, 0]

end Firmware
end InfernoFpga
