import InfernoFpga.Firmware.ArcProps
import InfernoFpga.Firmware.ArcRoundTrip
import InfernoFpga.Firmware.CreatedGroups
import InfernoFpga.Firmware.Exchange
import InfernoFpga.Firmware.Subscribe
import InfernoFpga.Mdns.Responder

/-!
# ArcServer — the routing server

Every request to port 4440 is answered, in one switch over its opcode: the lists, the subscriptions
and the property table, the flows a controller creates and deletes, the latency it sets, and an
error for what is not known.  The reply is begun before the switch, in the current transmit slot,
and committed behind it, so it counts on no case of the switch to transmit anything.
-/

namespace InfernoFpga
namespace Firmware

open Lib
open Mdns (Str ascii dantePortArc DanteDev Responder mdnsAnnounce)

/-! ## Constants and state -/

abbrev maxChannelsInFlow : Nat := 8
abbrev maxTxFlows : Nat := 32
abbrev maxRxFlows : Nat := 32
abbrev arcMirrorMax : Nat := 96
abbrev arcUnsupported : Nat := 0x22

/-- `dante_arc_stats_t`. -/
structure ArcStats where
  rx : UInt32
  tx : UInt32
  unknown : UInt32

/-- What `arc_rx` reads and writes. -/
structure ArcServer where
  arc : ArcState
  dev : DanteDev
  body : Mem
  devFlags0 : UInt8
  devFlags2 : UInt8
  routerVers : UInt16
  arcpVers : UInt16
  mirrorIp : Ip
  stats : ArcStats
  mdns : Responder
  net : Net

/-- `arc_1102_body`. -/
def arc1102Body : List UInt8 :=
  [ 0x00, 0x1f, 0x80, 0x20, 0x00, 0x01, 0x80, 0x21, 0x00, 0x03, 0x00, 0x22,
    0x00, 0x03, 0x00, 0x23, 0x00, 0x03, 0x00, 0x24, 0x00, 0x01, 0x80, 0x60,
    0x00, 0x03, 0x00, 0x62, 0x00, 0x03, 0x00, 0x63, 0x00, 0x01, 0x02, 0x01,
    0x00, 0x03, 0x82, 0x04, 0x00, 0x03, 0x82, 0x05, 0x00, 0x03, 0x02, 0x0a,
    0x00, 0x01, 0x02, 0x0b, 0x00, 0x01, 0x02, 0x10, 0x00, 0x03, 0x02, 0x11,
    0x00, 0x03, 0x02, 0x12, 0x00, 0x03, 0x02, 0x13, 0x00, 0x01, 0x02, 0x14,
    0x00, 0x01, 0x02, 0x22, 0x00, 0x03, 0x83, 0x01, 0x00, 0x03, 0x83, 0x06,
    0x00, 0x01, 0x83, 0x02, 0x00, 0x01, 0x83, 0x21, 0x00, 0x01, 0x03, 0x10,
    0x00, 0x01, 0x03, 0x11, 0x00, 0x01, 0x03, 0x12, 0x00, 0x01, 0x03, 0x03,
    0x00, 0x03, 0x83, 0xf0, 0x00, 0x01, 0x06, 0x01, 0x00, 0x01, 0x03, 0x09,
    0x00, 0x01, 0x02, 0x09, 0x00, 0x01 ]

/-! ## The cases of the switch -/

/-- `dante_msg_zeros`. -/
def ArcMsg.zeros (m : ArcMsg) (n : Nat) : ArcMsg := m.put (List.replicate n 0)

/-- A name in a field of 32 bytes, the last of them zero. -/
def ArcMsg.nameField (m : ArcMsg) (name : Str) : ArcMsg :=
  (m.put (name.take 31)).zeros (32 - (name.take 31).length)

/-- An empty page. -/
def emptyPage (m : ArcMsg) : ArcMsg :=
  let (m, pg) := pageBegin m 8 0
  pageEnd m pg

/-- The latency a request 0x1101 sets, if it is one the device takes: both copies the same, and in
range. -/
def Datagram.latencySet (q : Datagram) : Option UInt32 :=
  let v1 := Mem.rd32 q.content 22
  let v2 := Mem.rd32 q.content 26
  if q.clen < 30 then none
  else if v1 ≠ v2 ∨ v1 < 100000 ∨ 40000000 < v1 then none
  else some (UInt32.ofNat v1)

namespace ArcServer

variable (s : ArcServer)

/-- `OP_CHANNELS_AND_FLOWS_COUNT`. -/
def channelsAndFlowsCount (m : ArcMsg) : ArcMsg :=
  (m.put [s.devFlags0, s.devFlags2]).put (fieldBytes
    [danteTxChannels, danteRxChannels, 4, maxChannelsInFlow, 8, maxTxFlows, maxRxFlows,
      danteTxChannels + danteRxChannels, 1, 1, 0, 0, 0, 0, 0, 0])

/-- The fields of the header of `OP_GET_DEVICE_NAMES`, which are written last. -/
def deviceNamesHead (friendly factory board revision : Nat) : List (Nat × Nat) :=
  [(0, 0x001c), (2, 0x001c), (4, 0x0028), (6, board), (8, revision), (18, 0x0500),
    (20, friendly), (22, factory), (24, friendly), (30, 0x0a0a), (34, s.routerVers.toNat),
    (38, s.arcpVers.toNat), (40, 0x0204), (42, 0x1200), (44, 0x1004)]

/-- `OP_GET_DEVICE_NAMES`. -/
def getDeviceNames (m : ArcMsg) : ArcMsg :=
  let head := m.len
  let m := (m.zeros 48).zeros 2
  let friendly := m.here
  let m := m.nameField s.dev.name
  let factory := m.here
  let m := m.nameField s.dev.hostname
  let (m, board) := m.str (ascii "N-Series AoIP")
  let (m, revision) := m.str (ascii ":705")
  (s.deviceNamesHead friendly factory board revision).foldl
    (fun m field => m.store (head + field.1) (Mem.be16 field.2)) m

/-- The flow table, with the address of the board as it is now. -/
def synced : Tx := { s.arc.tx with netIp := s.net.ip }

def withTx (tx : Tx) : ArcServer := { s with arc := { s.arc with tx := tx } }

/-- The reply to 0x2201, after the loop over its descriptors. -/
def createFlows (env : Moments) (q : Datagram) (m : ArcMsg) : ArcServer × ArcMsg × Nat :=
  let (tx, accepted) :=
    createGroups q.content q.clen env (groupItems q.content q.clen) 0 (s.synced, [])
  let reply := createdReply accepted
  (s.withTx tx, m.put reply.content, reply.code)

/-- `OP_UNKNOWN_1100`: the table tracks the latency, and is sent as it is. -/
def getProperties (m : ArcMsg) : ArcServer × ArcMsg × Nat :=
  let body := trackLatency s.body s.arc.latencyNs.toNat
  ({ s with body := body }, m.put (Mem.slice body 0 arc1100Size), danteCodeOk)

/-- A latency that has been taken: published again, and all flows dropped if it is a new one. -/
def setLatency (v : UInt32) : ArcServer :=
  { s with
    arc := { s.arc with
      latencyNs := v
      tx := if v ≠ s.arc.latencyNs then dropAll s.arc.tx else s.arc.tx }
    mdns := mdnsAnnounce s.mdns }

/-- Request 0x1101; the reply echoes the content. -/
def latencyCase (q : Datagram) (m : ArcMsg) : ArcServer × ArcMsg × Nat :=
  match q.latencySet with
  | none => (s, m, arcUnsupported)
  | some v => (s.setLatency v, m.put (Mem.slice q.content 0 q.clen), danteCodeOk)

def countUnknown : ArcServer :=
  { s with stats := { s.stats with unknown := s.stats.unknown + 1 } }

/-- The switch: the state, the message and the result code. -/
def dispatch (env : Moments) (q : Datagram) (m : ArcMsg) : ArcServer × ArcMsg × Nat :=
  match q.opcode1 with
  | 0x1000 => (s, s.channelsAndFlowsCount m, danteCodeOk)
  | 0x1002 => (s, (m.str s.dev.name).1, danteCodeOk)
  | 0x1003 => (s, s.getDeviceNames m, danteCodeOk)
  | 0x2000 => (s, getTxChannels s.arc (arcStart q) m)
  | 0x2010 => (s, getTxFriendlyNames (arcStart q) m)
  | 0x3000 => (s, getRxChannels s.arc (arcStart q) m)
  | 0x2200 => (s, queryTxFlows s.arc (arcStart q) m)
  | 0x2201 => s.createFlows env q m
  | 0x2202 => (s.withTx (deleteGroups q.content q.clen q.clen 0 s.arc.tx), m, danteCodeOk)
  | 0x3200 => (s, emptyPage m, danteCodeOk)
  | 0x3300 => (s, m.put (fieldBytes [0x3800, 0x38fd, 0x38fe, 0x38ff]), danteCodeOk)
  | 0x1100 => s.getProperties m
  | 0x1102 => (s, m.put arc1102Body, danteCodeOk)
  | 0x3010 => ({ s with arc := arcSubscribe s.arc q }, m, danteCodeOk)
  | 0x3014 => (s, m, danteCodeOk)
  | 0x2320 => (s, m, 0x30)
  | 0x2204 => (s, emptyPage m, danteCodeOk)
  | 0x4100 => (s, m, 0x30)
  | 0x2032 => (s, m.put (Mem.be16 0), danteCodeOk)
  | 0x1101 => s.latencyCase q m
  | _ => (s.countUnknown, m, arcUnsupported)

/-! ## The handler -/

def countRx : ArcServer := { s with stats := { s.stats with rx := s.stats.rx + 1 } }

/-- From the commit of the reply to the end of the handler, the mirror apart. -/
def commitReply (q : Datagram) (m : ArcMsg) : ArcServer :=
  let (net, ok) := netUdpCommit (txStore s.net udpPayloadOff m.buf) q.srcIp q.srcPort dantePortArc
    m.len netTosBestEffort
  let tx := if ok then s.stats.tx + 1 else s.stats.tx
  { s with net := net, stats := { s.stats with tx := tx } }

/-- What the mirror sends: the result code, who asked, and the start of the request. -/
def mirrorCopy (q : Datagram) (code : Nat) : List UInt8 :=
  ascii "ARC1" ++ Mem.be16 code ++ q.srcIp.bytes ++
    Mem.slice q.req 0 (if arcMirrorMax < q.len then arcMirrorMax else q.len)

/-- The diagnostic copy of the request, after the reply. -/
def mirror (q : Datagram) (code : Nat) : ArcServer :=
  if s.mirrorIp.isZero then s
  else
    let copy := mirrorCopy q code
    { s with net := (netUdpCommit (txStore s.net udpPayloadOff copy) s.mirrorIp dantePortMirror
        dantePortArc copy.length netTosBestEffort).1 }

/-- `arc_rx`. -/
def arcRx (env : Moments) (q : Datagram) : ArcServer :=
  if q.len < danteHdrLen then s
  else if q.opcode2 ≠ 0 then s
  else
    let (s, m, code) := s.countRx.dispatch env q (arcMsgBegin q.req)
    (s.commitReply q (m.finish code)).mirror q code

end ArcServer

/-! ## The message is a reply under construction -/

/-- The header of a reply to `req`, with some content behind it. -/
def Begun (req : Mem) (m : ArcMsg) : Prop := ∃ content, m.buf = danteHeader req ++ content

/-- The reply a message is, when it is finished with that result code. -/
def ArcMsg.reply (m : ArcMsg) (code : Nat) : Reply := ⟨code, m.buf.drop danteHdrLen⟩

namespace Begun

variable {req : Mem} {m : ArcMsg}

theorem start (req : Mem) : Begun req (arcMsgBegin req) := ⟨[], (List.append_nil _).symm⟩

theorem put (h : Begun req m) (bs : List UInt8) : Begun req (m.put bs) := by
  obtain ⟨content, hbuf⟩ := h
  exact ⟨content ++ bs, by rw [ArcMsg.put, hbuf, List.append_assoc]⟩

/-- Writing behind the header leaves the header. -/
theorem store (h : Begun req m) {off : Nat} (hoff : danteHdrLen ≤ off) (bs : List UInt8) :
    Begun req (m.store off bs) := by
  obtain ⟨content, hbuf⟩ := h
  obtain ⟨k, rfl⟩ := Nat.exists_eq_add_of_le hoff
  have hhead : (danteHeader req).length = danteHdrLen := rfl
  refine ⟨content.take k ++ bs ++ m.buf.drop (danteHdrLen + k + bs.length), ?_⟩
  show overwrite m.buf (danteHdrLen + k) bs = _
  rw [overwrite, hbuf, ← hhead, List.take_length_add_append, List.append_assoc, List.append_assoc,
    List.append_assoc]

theorem len_le (h : Begun req m) : danteHdrLen ≤ m.len := by
  obtain ⟨content, hbuf⟩ := h
  rw [ArcMsg.len, hbuf, List.length_append]
  exact Nat.le_add_right _ _

/-- A finished message is the reply, byte for byte. -/
theorem finish (h : Begun req m) (code : Nat) :
    (m.finish code).buf = (m.reply code).bytes req ∧ (m.finish code).len = m.len := by
  obtain ⟨content, hbuf⟩ := h
  have hm : m = ⟨danteHeader req ++ content⟩ := by
    cases m
    exact congrArg ArcMsg.mk hbuf
  have hlen : m.len = danteHdrLen + content.length := by
    rw [hm, ArcMsg.len, List.length_append]
    rfl
  have hbytes : (m.finish code).buf = (Reply.mk code content).bytes req := by
    rw [ArcMsg.finish, hlen, hm]
    rfl
  have hreply : m.reply code = ⟨code, content⟩ := by rw [hm]; rfl
  refine ⟨hreply ▸ hbytes, ?_⟩
  rw [ArcMsg.len, hbytes, Reply.length_bytes, hlen]
  rfl

/-- Fields written one after the other, behind the header. -/
theorem fields (h : Begun req m) {head : Nat} (hhead : danteHdrLen ≤ head)
    (fs : List (Nat × Nat)) :
    Begun req (fs.foldl (fun m field => m.store (head + field.1) (Mem.be16 field.2)) m) := by
  induction fs generalizing m with
  | nil => exact h
  | cons field fs ih => exact ih (h.store (Nat.le_add_right_of_le hhead) (Mem.be16 field.2))

theorem pageEnd (h : Begun req m) {pg : Page} (hat : danteHdrLen < pg.itemsAt) :
    Begun req (Firmware.pageEnd m pg) := h.store (Nat.le_sub_one_of_lt hat) _

theorem pageBegin (h : Begun req m) (itemSize space : Nat) :
    Begun req (Firmware.pageBegin m itemSize space).1 ∧
      danteHdrLen < (Firmware.pageBegin m itemSize space).2.itemsAt := by
  refine ⟨(h.put _).put _, ?_⟩
  have hle := h.len_le
  show danteHdrLen < (m.put [_, 0]).len
  rw [len_put]
  exact Nat.lt_of_le_of_lt hle (Nat.lt_add_of_pos_right Nat.two_pos)

/-- The loop over a page keeps the header, if its items only append. -/
theorem pageLoop {σ : Type} {item : Nat → σ → ArcMsg → Option (σ × ArcMsg × List Nat)}
    (hitem : ∀ idx c m c' m' fields, item idx c m = some (c', m', fields) → Begun req m →
      Begun req m') (k : Nat) {idx : Nat} {c : σ} {pg : Page} (h : Begun req m)
    (hat : danteHdrLen < pg.itemsAt) :
    Begun req (Firmware.pageLoop item k idx c m pg).2.1 ∧
      danteHdrLen < (Firmware.pageLoop item k idx c m pg).2.2.itemsAt := by
  induction k generalizing idx c m pg with
  | zero => exact ⟨h, hat⟩
  | succ k ih =>
    rw [Firmware.pageLoop]
    by_cases hroom : pg.actual < pg.space
    · rw [if_pos hroom]
      cases hput : item idx c m with
      | none => exact ih h hat
      | some next =>
        obtain ⟨c', m', fields⟩ := next
        have hslot : danteHdrLen ≤ pageSlot pg := Nat.le_add_right_of_le (Nat.le_of_lt hat)
        have hstored := (hitem _ _ _ _ _ _ hput h).store hslot (fieldBytes fields)
        dsimp only
        split
        · exact ⟨hstored, hat⟩
        · exact ih hstored hat
    · rw [if_neg hroom]
      exact ⟨h, hat⟩

theorem arcPage {σ : Type} {item : Nat → σ → ArcMsg → Option (σ × ArcMsg × List Nat)}
    (hitem : ∀ idx c m c' m' fields, item idx c m = some (c', m', fields) → Begun req m →
      Begun req m') (c : σ) (itemSize space limit start : Nat) (h : Begun req m) :
    Begun req (Firmware.arcPage item c itemSize space limit start m).1 := by
  obtain ⟨hbegin, hat⟩ := h.pageBegin itemSize space
  obtain ⟨hloop, hat'⟩ :=
    @Begun.pageLoop req _ σ item hitem (limit + 1 - start) start c _ hbegin hat
  exact hloop.pageEnd hat'

theorem withCommon (s : ArcState) (common : Nat) (h : Begun req m) :
    Begun req (Firmware.withCommon s common m).2 := by
  unfold Firmware.withCommon
  split
  · exact h.put _
  · exact h

theorem putSubscription (txName txHost : Str) (h : Begun req m) :
    Begun req (Firmware.putSubscription txName txHost m).1 := by
  unfold Firmware.putSubscription
  split
  · exact h
  · dsimp only [ArcMsg.str]
    split
    · exact h.put _
    · exact (h.put _).put _

/-- The lists are replies under construction too. -/
theorem build (h : Begun req m) (s : ArcState) (op : ArcList) (start : Nat) :
    Begun req (op.build s start m).1 := by
  cases op with
  | txChannels =>
    refine h.arcPage (fun idx common m c' m' fields hput hm => ?_) 0 8 32 danteTxChannels start
    cases hput
    exact (hm.withCommon s common).put _
  | txFriendlyNames =>
    refine h.arcPage (fun idx pad m c' m' fields hput hm => ?_) false 6 32 danteTxChannels start
    cases hput
    cases pad with
    | true => exact hm.put _
    | false => exact (hm.put _).put _
  | rxChannels =>
    refine h.arcPage (fun idx common m c' m' fields hput hm => ?_) 0 20 danteRxChannels
      danteRxChannels start
    have hname := (hm.withCommon s common).put (rxChannelName idx ++ [0])
    have hlast : m' = (Firmware.putSubscription (subName s.subTxName idx)
        (subName s.subTxHost idx) ((Firmware.withCommon s common m).2.str (rxChannelName idx)).1).1 :=
      (congrArg (fun next => next.2.1) (Option.some.inj hput)).symm
    rw [hlast]
    exact hname.putSubscription (subName s.subTxName idx) (subName s.subTxHost idx)
  | txFlows =>
    refine h.arcPage (fun f u m c' m' fields hput hm => ?_) () 2 nFlows nFlows start
    unfold txFlowItem at hput
    split at hput
    · cases hput
    · cases hput
      exact ((((hm.put _).put _).put _).put _).put _

end Begun

/-! ## The sizes of replies -/

theorem len_zeros (m : ArcMsg) (n : Nat) : (m.zeros n).len = m.len + n := by
  rw [ArcMsg.zeros, len_put, List.length_replicate]

theorem len_nameField (m : ArcMsg) (name : Str) : (m.nameField name).len = m.len + 32 := by
  have htake := List.length_take_le 31 name
  rw [ArcMsg.nameField, len_zeros, len_put]
  omega

theorem len_str (m : ArcMsg) (name : Str) : (m.str name).1.len = m.len + (name.length + 1) := by
  show (m.put _).len = _
  rw [len_put, List.length_append, List.length_singleton]

/-- Fields that are written over what is there make nothing longer. -/
theorem len_fields {m : ArcMsg} {head : Nat} (fs : List (Nat × Nat))
    (hin : ∀ f ∈ fs, head + f.1 + 2 ≤ m.len) :
    (fs.foldl (fun m field => m.store (head + field.1) (Mem.be16 field.2)) m).len = m.len := by
  induction fs generalizing m with
  | nil => rfl
  | cons field fs ih =>
    have hlen : (m.store (head + field.1) (Mem.be16 field.2)).len = m.len :=
      length_overwrite (hin field List.mem_cons_self)
    rw [List.foldl_cons, ih fun f hf => ?_, hlen]
    rw [hlen]
    exact hin f (List.mem_cons_of_mem field hf)

theorem len_getDeviceNames (s : ArcServer) (req : Mem) :
    (s.getDeviceNames (arcMsgBegin req)).len = 143 := by
  have hbegin : (arcMsgBegin req).len = 10 := rfl
  rw [ArcServer.getDeviceNames]
  dsimp only
  have hlen : ((((((((arcMsgBegin req).zeros 48).zeros 2).nameField s.dev.name).nameField
      s.dev.hostname).str (ascii "N-Series AoIP")).1.str (ascii ":705")).1).len = 143 := by
    rw [len_str, len_str, len_nameField, len_nameField, len_zeros, len_zeros, hbegin]
    rfl
  rw [len_fields _ fun f hf => ?_, hlen]
  have hmem : f.1 ∈ [0, 2, 4, 6, 8, 18, 20, 22, 24, 30, 34, 38, 40, 42, 44] :=
    List.mem_map_of_mem (f := Prod.fst) hf
  have hall : ∀ off ∈ [0, 2, 4, 6, 8, 18, 20, 22, 24, 30, 34, 38, 40, 42, 44], off ≤ 44 := by
    decide
  have hoff := hall f.1 hmem
  rw [hlen, hbegin]
  omega

/-- A page stays below the soft limit. -/
theorem len_build (s : ArcState) (op : ArcList) (q : Datagram) :
    (op.build s (arcStart q) (arcMsgBegin q.req)).1.len < packetSizeSoftLimit := by
  have hfinish := ((Begun.start q.req).build s op (arcStart q)).finish
    (op.build s (arcStart q) (arcMsgBegin q.req)).2
  rw [← hfinish.2]
  exact (decode_arcReply s op q).2

/-- A request creates at most eight flows. -/
theorem length_createGroups (content : Mem) (clen : Nat) (env : Moments) :
    ∀ (left i : Nat) {c : Created}, c.2.length ≤ 8 →
      (createGroups content clen env left i c).2.length ≤ 8
  | 0, _, _, h => h
  | left + 1, i, c, h => by
      rw [createGroups]
      split
      · exact h
      rename_i hroom
      split
      · exact h
      refine length_createGroups content clen env left (i + 1) ?_
      rw [createGroup]
      split
      · exact h
      · rw [List.length_append, List.length_singleton]
        omega

theorem length_idBytes (ids : List (BitVec 16)) :
    (ids.flatMap fun fid => Mem.be16 fid.toNat).length = 2 * ids.length := by
  induction ids with
  | nil => rfl
  | cons id ids ih =>
    rw [List.flatMap_cons, List.length_append, length_be16, ih, List.length_cons]
    omega

theorem length_createdReply (ids : List (BitVec 16)) :
    (createdReply ids).content.length ≤ 4 + 2 * ids.length := by
  rw [createdReply]
  split
  · exact Nat.zero_le _
  · rw [List.length_append, List.length_append, length_idBytes]
    exact Nat.le_refl _

/-! ## The switch -/

namespace Datagram

variable (q : Datagram)

/-- A latency set that is taken, in a request that is longer than any reply can be. -/
def Overlong : Prop := q.opcode1 = 0x1101 ∧ q.latencySet ≠ none ∧ netMaxPayload < q.len

end Datagram

/-- What a case of the switch leaves to the rest of the handler. -/
structure Handled (s : ArcServer) (q : Datagram) (r : ArcServer × ArcMsg × Nat) : Prop where
  begun : Begun q.req r.2.1
  net : r.1.net = s.net
  mirrorIp : r.1.mirrorIp = s.mirrorIp
  overlong : q.Overlong ↔ netMaxPayload < r.2.1.len

section Switch

variable {s s' : ArcServer} {q : Datagram} {code : Nat}

/-- A case that appends a few bytes. -/
theorem Handled.put (bs : List UInt8) (hbs : danteHdrLen + bs.length ≤ netMaxPayload)
    (hnet : s'.net = s.net) (hmirror : s'.mirrorIp = s.mirrorIp) (hcase : ¬ q.Overlong) :
    Handled s q (s', (arcMsgBegin q.req).put bs, code) where
  begun := (Begun.start q.req).put bs
  net := hnet
  mirrorIp := hmirror
  overlong := by
    have hlen : ((arcMsgBegin q.req).put bs).len = danteHdrLen + bs.length := len_put _ bs
    dsimp only
    rw [hlen]
    exact ⟨fun h => absurd h hcase, fun h => absurd h (Nat.not_lt.2 hbs)⟩

theorem Handled.build (op : ArcList) (hcase : ¬ q.Overlong) :
    Handled s q (s, op.build s.arc (arcStart q) (arcMsgBegin q.req)) where
  begun := (Begun.start q.req).build s.arc op (arcStart q)
  net := rfl
  mirrorIp := rfl
  overlong := by
    have hlen := len_build s.arc op q
    have hsoft : packetSizeSoftLimit ≤ netMaxPayload := by decide
    exact ⟨fun h => absurd h hcase, fun h => absurd h (by dsimp only; omega)⟩

/-- A case of another opcode than that of the latency, whose message is short. -/
theorem Handled.short {m : ArcMsg} (n : Nat) (hbegun : Begun q.req m) (hlen : m.len = n)
    (hn : n ≤ netMaxPayload) (hnet : s'.net = s.net) (hmirror : s'.mirrorIp = s.mirrorIp)
    (hcase : ¬ q.Overlong) : Handled s q (s', m, code) :=
  ⟨hbegun, hnet, hmirror, fun h => absurd h hcase,
    fun h => absurd h (Nat.not_lt.2 (hlen.trans_le hn))⟩

theorem begun_getDeviceNames (s : ArcServer) (req : Mem) :
    Begun req (s.getDeviceNames (arcMsgBegin req)) := by
  have hzeros := ((Begun.start req).put (List.replicate 48 0)).put (List.replicate 2 0)
  have hnames : ∀ {m : ArcMsg} (name : Str), Begun req m → Begun req (m.nameField name) :=
    fun _ h => (h.put _).put _
  have hstrings := ((hnames s.dev.hostname (hnames s.dev.name hzeros)).put
    (ascii "N-Series AoIP" ++ [0])).put (ascii ":705" ++ [0])
  exact hstrings.fields (Nat.le_refl _) _

theorem handled_createFlows (env : Moments) (hcase : ¬ q.Overlong) :
    Handled s q (s.createFlows env q (arcMsgBegin q.req)) := by
  have hmax : netMaxPayload = 1400 := rfl
  have hids := length_createGroups q.content q.clen env (groupItems q.content q.clen) 0
    (c := (s.synced, [])) (Nat.zero_le _)
  have hhdr : danteHdrLen = 10 := rfl
  rw [ArcServer.createFlows]
  generalize createGroups q.content q.clen env (groupItems q.content q.clen) 0
    (s.synced, []) = c at hids
  have hreply := length_createdReply c.2
  exact Handled.put _ (by omega) rfl rfl hcase

theorem handled_latencyCase (hlen : danteHdrLen ≤ q.len) (hop : q.opcode1 = 0x1101) :
    Handled s q (s.latencyCase q (arcMsgBegin q.req)) := by
  have hbegin : (arcMsgBegin q.req).len = danteHdrLen := rfl
  have hmax : netMaxPayload = 1400 := rfl
  rw [ArcServer.latencyCase]
  cases hset : q.latencySet with
  | none =>
    exact Handled.short 10 (Begun.start q.req) rfl (by decide) rfl rfl fun h => h.2.1 hset
  | some v =>
    have hecho : ((arcMsgBegin q.req).put (Mem.slice q.content 0 q.clen)).len = q.len := by
      rw [len_put, Mem.length_slice, hbegin, Datagram.clen]
      omega
    refine ⟨(Begun.start q.req).put _, rfl, rfl, ?_⟩
    dsimp only
    rw [hecho]
    exact ⟨fun h => h.2.2, fun h => ⟨hop, by rw [hset]; exact Option.some_ne_none v, h⟩⟩

/-- Every case of the switch goes on building the reply, and nothing in it transmits. -/
theorem handled_dispatch (s : ArcServer) (env : Moments) (hlen : danteHdrLen ≤ q.len) :
    Handled s q (s.dispatch env q (arcMsgBegin q.req)) := by
  have hmax : netMaxPayload = 1400 := rfl
  have hbegin := Begun.start q.req
  have hcase : ∀ {op}, q.opcode1 = op → op ≠ 0x1101 → ¬ q.Overlong :=
    fun heq hne h => hne (heq.symm.trans h.1)
  unfold ArcServer.dispatch
  split
  · -- the counts
    rename_i hop
    exact Handled.short 44 ((hbegin.put _).put _) rfl (by decide) rfl rfl (hcase hop (by decide))
  · -- the name
    rename_i hop
    have hname : s.dev.name.1.length < 32 := s.dev.name.2.1
    have hhdr : danteHdrLen = 10 := rfl
    refine Handled.put (s.dev.name.1 ++ [0]) ?_ rfl rfl (hcase hop (by decide))
    rw [List.length_append, List.length_singleton]
    omega
  · -- the names
    rename_i hop
    exact Handled.short 143 (begun_getDeviceNames s q.req) (len_getDeviceNames s q.req) (by decide)
      rfl rfl (hcase hop (by decide))
  · rename_i hop
    exact Handled.build .txChannels (hcase hop (by decide))
  · rename_i hop
    exact Handled.build .txFriendlyNames (hcase hop (by decide))
  · rename_i hop
    exact Handled.build .rxChannels (hcase hop (by decide))
  · rename_i hop
    exact Handled.build .txFlows (hcase hop (by decide))
  · rename_i hop
    exact handled_createFlows env (hcase hop (by decide))
  · -- deleting flows
    rename_i hop
    exact Handled.short 10 hbegin rfl (by decide) rfl rfl (hcase hop (by decide))
  · -- the receive flows
    rename_i hop
    have hpage := hbegin.pageBegin 8 0
    exact Handled.short 12 (hpage.1.pageEnd hpage.2) rfl (by decide) rfl rfl
      (hcase hop (by decide))
  · rename_i hop
    exact Handled.short 18 (hbegin.put _) rfl (by decide) rfl rfl (hcase hop (by decide))
  · -- the properties
    rename_i hop
    refine Handled.put _ ?_ rfl rfl (hcase hop (by decide))
    rw [Mem.length_slice]
    decide
  · rename_i hop
    exact Handled.short 136 (hbegin.put _) rfl (by decide) rfl rfl (hcase hop (by decide))
  · -- a subscription
    rename_i hop
    exact Handled.short 10 hbegin rfl (by decide) rfl rfl (hcase hop (by decide))
  · rename_i hop
    exact Handled.short 10 hbegin rfl (by decide) rfl rfl (hcase hop (by decide))
  · rename_i hop
    exact Handled.short 10 hbegin rfl (by decide) rfl rfl (hcase hop (by decide))
  · -- the flow details
    rename_i hop
    have hpage := hbegin.pageBegin 8 0
    exact Handled.short 12 (hpage.1.pageEnd hpage.2) rfl (by decide) rfl rfl
      (hcase hop (by decide))
  · rename_i hop
    exact Handled.short 10 hbegin rfl (by decide) rfl rfl (hcase hop (by decide))
  · rename_i hop
    exact Handled.short 12 (hbegin.put _) rfl (by decide) rfl rfl (hcase hop (by decide))
  · rename_i hop
    exact handled_latencyCase hlen hop
  · -- what is not known
    rename_i hop
    exact Handled.short 10 hbegin rfl (by decide) rfl rfl fun h => hop h.1

end Switch

end Firmware
end InfernoFpga
