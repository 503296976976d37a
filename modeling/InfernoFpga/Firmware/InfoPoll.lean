import InfernoFpga.Lib.Run
import InfernoFpga.Lib.Timer
import InfernoFpga.Firmware.Exchange
import InfernoFpga.Firmware.Heartbeat

/-!
# InfoPoll — runs of the announcements and the heartbeat

Every datagram that `dante_info.c` builds is a whole message.  It carries the next number of the
device, or the number of the request it answers.  What a pass says leaves the board in that pass,
and the passes keep a schedule: a set of announcements every three seconds, a heartbeat every
second in the passes that announce nothing, across any number of wraps of the millisecond counter.
-/

namespace InfernoFpga
namespace Firmware

open Lib Lib.Records
open Lib.Timer (Ticking Ripe Spaced Unnamed due)
open Mdns (DanteDev)

/-! ## What one call says -/

/-- A datagram that is one message, with the number of the request it echoes or else with `seq`. -/
def Whole (seq : UInt16) (b : Built) : Prop :=
  ∃ h, readInfoHeader b.payload = some h ∧ h.vendor = vendorStr ∧
    h.seq = (b.echoes.getD seq).toNat

/-- A datagram that is one message of this device. -/
def Signed (s : Info) (b : Built) : Prop :=
  ∃ h, readInfoHeader b.payload = some h ∧ h.processId = s.processId.toNat ∧
    h.deviceId = s.dev.deviceId.toList

/-- The opcode of a datagram. -/
def opcodeOf (b : Built) : Option (List UInt8) :=
  (readInfoHeader b.payload).map InfoHeader.opcode

/-- From `s` to `s'` the datagrams `new` are built, each counted; the schedule and what the other
modules own stay. -/
structure Speaks (s s' : Info) (new : List Built) : Prop where
  built : s'.built = s.built ++ new
  seqnum : s'.seqnum = s.seqnum + UInt16.ofNat new.length
  whole : ∀ k b, new[k]? = some b → Whole (s.seqnum + UInt16.ofNat k) b
  signed : ∀ b ∈ new, Signed s b
  node : SameNode s.net s'.net
  dev : s'.dev = s.dev
  processId : s'.processId = s.processId
  ptp : s'.ptp = s.ptp
  nextHeartbeatMs : s'.nextHeartbeatMs = s.nextHeartbeatMs
  infoAnnounceNextMs : s'.infoAnnounceNextMs = s.infoAnnounceNextMs

/-- The frames that go out from `n` to `n'` carry the datagrams, in their order. -/
def GoesOut (n n' : Net) (new : List Built) : Prop :=
  ∃ frames, n'.sent = n.sent ++ frames ∧
    frames.map (fun f => captured f.bytes) =
      new.map fun b => some (n.ip, b.dport, b.payload)

section Steps

variable {s s' s'' : Info} {new new' : List Built}

theorem Signed.of_same {b : Built} (h : Signed s b) (hdev : s'.dev = s.dev)
    (hprocess : s'.processId = s.processId) : Signed s' b := by
  obtain ⟨head, hread, hid⟩ := h
  rw [← hdev, ← hprocess] at hid
  exact ⟨head, hread, hid⟩

theorem Speaks.refl (s : Info) : Speaks s s [] where
  built := (List.append_nil _).symm
  seqnum := (UInt16.add_zero _).symm
  whole := fun _ _ h => nomatch h
  signed := fun _ h => absurd h List.not_mem_nil
  node := SameNode.refl s.net
  dev := rfl
  processId := rfl
  ptp := rfl
  nextHeartbeatMs := rfl
  infoAnnounceNextMs := rfl

theorem Speaks.trans (h : Speaks s s' new) (h' : Speaks s' s'' new') :
    Speaks s s'' (new ++ new') where
  built := by rw [h'.built, h.built, List.append_assoc]
  seqnum := by
    rw [h'.seqnum, h.seqnum, List.length_append, UInt16.ofNat_add, UInt16.add_assoc]
  whole := by
    intro k b hk
    rcases Nat.lt_or_ge k new.length with hlt | hge
    · rw [List.getElem?_append_left hlt] at hk
      exact h.whole k b hk
    · rw [List.getElem?_append_right hge] at hk
      have hnum := h'.whole _ b hk
      rwa [h.seqnum, UInt16.add_assoc, ← UInt16.ofNat_add, Nat.add_sub_cancel' hge] at hnum
  signed := by
    intro b hb
    rcases List.mem_append.1 hb with hb | hb
    · exact h.signed b hb
    · exact (h'.signed b hb).of_same h.dev.symm h.processId.symm
  node := h.node.trans h'.node
  dev := h'.dev.trans h.dev
  processId := h'.processId.trans h.processId
  ptp := h'.ptp.trans h.ptp
  nextHeartbeatMs := h'.nextHeartbeatMs.trans h.nextHeartbeatMs
  infoAnnounceNextMs := h'.infoAnnounceNextMs.trans h.infoAnnounceNextMs

theorem GoesOut.refl (n : Net) : GoesOut n n [] := ⟨[], (List.append_nil _).symm, rfl⟩

theorem GoesOut.trans {n n' n'' : Net} (hip : n'.ip = n.ip) (h : GoesOut n n' new)
    (h' : GoesOut n' n'' new') : GoesOut n n'' (new ++ new') := by
  obtain ⟨frames, hsent, hread⟩ := h
  obtain ⟨frames', hsent', hread'⟩ := h'
  rw [hip] at hread'
  refine ⟨frames ++ frames', ?_, ?_⟩
  · rw [hsent', hsent, List.append_assoc]
  · rw [List.map_append, hread, hread', List.map_append]

end Steps

/-! ## One message -/

section Message

variable (s : Info) (startCode : Nat) (opcode : InfoOpcode) (content : List UInt8)
  (echoes : Option UInt16)

/-- A message of the device, built with its own number or with the one it echoes. -/
def message : List UInt8 :=
  putTotalLength (putHdrSeq s startCode opcode (echoes.getD s.seqnum) ++ content)

theorem whole_message (dst : Ip) (dport : Nat) (hcode : startCode < 2 ^ 16)
    (hlen : mcastHdrLen + content.length < 2 ^ 16) :
    Whole s.seqnum ⟨dst, dport, message s startCode opcode content echoes, echoes⟩ ∧
      opcodeOf ⟨dst, dport, message s startCode opcode content echoes, echoes⟩ =
        some opcode.toList := by
  have hread := (@readInfoHeader_putTotalLength s startCode opcode (echoes.getD s.seqnum) content
    hcode hlen).1
  exact ⟨⟨_, hread, rfl, rfl⟩, congrArg (Option.map InfoHeader.opcode) hread⟩

theorem speaks_commitInfo (dst : Ip) (dport : Nat) (hcode : startCode < 2 ^ 16)
    (hlen : mcastHdrLen + content.length < 2 ^ 16) :
    Speaks s (commitInfo s dst dport (message s startCode opcode content echoes) echoes).1
      [⟨dst, dport, message s startCode opcode content echoes, echoes⟩] where
  built := rfl
  seqnum := rfl
  whole := by
    intro k b hk
    cases k with
    | succ k => exact nomatch hk
    | zero =>
      rw [← Option.some.inj hk, show UInt16.ofNat 0 = 0 from rfl, UInt16.add_zero]
      exact (whole_message s startCode opcode content echoes dst dport hcode hlen).1
  signed := by
    intro b hb
    rw [List.mem_singleton.1 hb]
    exact ⟨_, (@readInfoHeader_putTotalLength s startCode opcode (echoes.getD s.seqnum) content
      hcode hlen).1, rfl, rfl⟩
  node := (SameNode.of_txStore ..).trans (sameNode_netUdpCommit ..)
  dev := rfl
  processId := rfl
  ptp := rfl
  nextHeartbeatMs := rfl
  infoAnnounceNextMs := rfl

/-- Counting a message changes a counter only. -/
theorem Speaks.counted {s s' : Info} {new : List Built} (h : Speaks s s' new) (stats : InfoStats) :
    Speaks s { s' with stats := stats } new :=
  ⟨h.built, h.seqnum, h.whole, h.signed, h.node, h.dev, h.processId, h.ptp, h.nextHeartbeatMs,
    h.infoAnnounceNextMs⟩

theorem speaks_commitCounted (dst : Ip) (dport : Nat) (hcode : startCode < 2 ^ 16)
    (hlen : mcastHdrLen + content.length < 2 ^ 16) :
    Speaks s (commitCounted s dst dport (message s startCode opcode content echoes) echoes)
      [⟨dst, dport, message s startCode opcode content echoes, echoes⟩] := by
  have hspeaks := speaks_commitInfo s startCode opcode content echoes dst dport hcode hlen
  unfold commitCounted
  dsimp only
  split
  · exact hspeaks.counted _
  · exact hspeaks

/-! ### On the wire -/

theorem length_message :
    (message s startCode opcode content echoes).length = mcastHdrLen + content.length :=
  length_putTotalLength s startCode opcode _ content

/-- A message for a group leaves at once, alone in its frame. -/
theorem goesOut_commitInfo {dst : Ip} (hgroup : dst.isMcast = true) (dport : UInt16)
    (hlen : mcastHdrLen + content.length ≤ netMaxPayload) :
    GoesOut s.net
      (commitInfo s dst dport.toNat (message s startCode opcode content echoes) echoes).1.net
      [⟨dst, dport.toNat, message s startCode opcode content echoes, echoes⟩] := by
  have hlength := length_message s startCode opcode content echoes
  have hhdr : mcastHdrLen = 32 := rfl
  have hoff : udpPayloadOff = 42 := rfl
  generalize message s startCode opcode content echoes = payload at hlength
  have hfit : payload.length ≤ netMaxPayload := hlength ▸ hlen
  obtain ⟨pad, hsize, -, hsent⟩ :=
    @netUdpCommit_group s.net dst dport payload 8700 netTosBestEffort hgroup hfit
  -- the header alone makes the frame long enough
  have hpad : pad = [] := List.length_eq_zero_iff.1 (by omega)
  subst hpad
  have hread := @captured_udpHeaders s.net dst dport 8700 netTosBestEffort payload
    (netMcastMac dst) [] hfit
  rw [List.append_nil] at hsent hread
  refine ⟨_, hsent, ?_⟩
  rw [List.map_singleton, List.map_singleton, hread]

theorem net_commitCounted (dst : Ip) (dport : Nat) (payload : List UInt8) :
    (commitCounted s dst dport payload echoes).net =
      (commitInfo s dst dport payload echoes).1.net := by
  unfold commitCounted
  dsimp only
  split <;> rfl

end Message

/-! ## What each function says -/

/-- Messages with these opcodes, none of which echoes a number, are built and leave the board. -/
def Heard (n n' : Net) (new : List Built) (opcodes : List InfoOpcode) : Prop :=
  GoesOut n n' new ∧ (∀ b ∈ new, b.echoes = none) ∧
    new.map opcodeOf = opcodes.map fun op => some op.toList

theorem Heard.refl (n : Net) : Heard n n [] [] :=
  ⟨GoesOut.refl n, fun _ h => absurd h List.not_mem_nil, rfl⟩

theorem Heard.trans {n n' n'' : Net} {new new' : List Built} {ops ops' : List InfoOpcode}
    (hip : n'.ip = n.ip) (h : Heard n n' new ops) (h' : Heard n' n'' new' ops') :
    Heard n n'' (new ++ new') (ops ++ ops') := by
  refine ⟨h.1.trans hip h'.1, ?_, ?_⟩
  · intro b hb
    rcases List.mem_append.1 hb with hb | hb
    · exact h.2.1 b hb
    · exact h'.2.1 b hb
  · rw [List.map_append, h.2.2, h'.2.2, List.map_append]

/-- The module says these messages to everyone. -/
def Announces (s s' : Info) (opcodes : List InfoOpcode) : Prop :=
  ∃ new, Speaks s s' new ∧ Heard s.net s'.net new opcodes

theorem Announces.refl (s : Info) : Announces s s [] := ⟨[], Speaks.refl s, Heard.refl s.net⟩

theorem Announces.trans {s s' s'' : Info} {ops ops' : List InfoOpcode} (h : Announces s s' ops)
    (h' : Announces s' s'' ops') : Announces s s'' (ops ++ ops') := by
  obtain ⟨new, hspeaks, hheard⟩ := h
  obtain ⟨new', hspeaks', hheard'⟩ := h'
  exact ⟨new ++ new', hspeaks.trans hspeaks', hheard.trans hspeaks.node.ip hheard'⟩

section Functions

variable (s : Info)

theorem infoMessage_eq (startCode : Nat) (opcode : InfoOpcode) (content : List UInt8) :
    infoMessage s startCode opcode content = message s startCode opcode content none := rfl

theorem dantePortInfo_eq : dantePortInfo = (8702 : UInt16).toNat := rfl

/-- A message that was built with the device's own number, and sent to a group. -/
theorem heard_message {n' : Net} {startCode : Nat} {opcode : InfoOpcode} {content : List UInt8}
    {dst : Ip} {dport : Nat} (hcode : startCode < 2 ^ 16)
    (hlen : mcastHdrLen + content.length < 2 ^ 16)
    (hout : GoesOut s.net n' [⟨dst, dport, message s startCode opcode content none, none⟩]) :
    Heard s.net n' [⟨dst, dport, message s startCode opcode content none, none⟩] [opcode] := by
  refine ⟨hout, fun b hb => ?_, ?_⟩
  · rw [List.mem_singleton.1 hb]
  · rw [List.map_singleton, List.map_singleton,
      (whole_message s startCode opcode content none dst dport hcode hlen).2]

theorem announces_own (opcode : InfoOpcode) (content : List UInt8)
    (hlen : mcastHdrLen + content.length ≤ netMaxPayload) :
    Announces s
      (commitCounted s grpDevinfo dantePortInfo (infoMessage s 0xFFFF opcode content) none)
      [opcode] := by
  have hmax : netMaxPayload = 1400 := rfl
  have hfit : mcastHdrLen + content.length < 2 ^ 16 := by omega
  rw [infoMessage_eq, dantePortInfo_eq]
  refine ⟨_, speaks_commitCounted s 0xFFFF opcode content none grpDevinfo _ (by decide) hfit,
    heard_message s (by decide) hfit ?_⟩
  rw [net_commitCounted]
  exact goesOut_commitInfo s 0xFFFF opcode content none rfl 8702 hlen

theorem length_clockStatsContent : (clockStatsContent s).length = 148 := by
  have hstep : ∀ (m : List UInt8) (p : Nat) (bs : List UInt8) (n : Nat), m.length = 148 →
      bs.length = n → p + n ≤ 148 → (overwrite m p bs).length = 148 := by
    intro m p bs n hm hbs hfit
    rw [length_overwrite (by rw [hm, hbs]; exact hfit), hm]
  have hid : s.dev.deviceId.toList.length = 8 := Vector.length_toList
  have hstatus := hstep clockStatsTmpl 2 [0x00, if s.ptp.servo.locked then 0x03 else 0x01] 2 rfl
    rfl (by decide)
  have hrate := hstep _ 8 (putS32 (servoPpb s.ptp)) 4 hstatus rfl (by decide)
  have hown := hstep _ 12 (s.mac.bytes ++ [0, 0]) 8 hrate rfl (by decide)
  have hmaster := hstep _ 20 (s.ptp.masterUuid.bytes ++ [0, 0]) 8 hown rfl (by decide)
  have hparent := hstep _ 28 (s.ptp.masterUuid.bytes ++ [0, 0]) 8 hmaster rfl (by decide)
  have hdevice := hstep _ 120 _ 8 hparent hid (by decide)
  have hleader := hstep _ 128 (eui64 s.ptp.masterUuid) 8 hdevice rfl (by decide)
  exact hstep _ 136 (eui64 s.ptp.masterUuid) 8 hleader rfl (by decide)

theorem length_networkInfoContent : (networkInfoContent s).length = 64 := rfl

/-- The set of announcements; there is nothing to say about a clock without a master. -/
def announcementOpcodes (haveMaster : Bool) : List InfoOpcode :=
  [infoOpcode 0x00 0x60, infoOpcode 0x00 0xc0, infoOpcode 0x00 0x11] ++
    (if haveMaster then [infoOpcode 0x00 0x20] else []) ++
    capsMessages.map fun m => infoOpcode m.1 m.2.1

theorem announces_sendClockStats :
    Announces s (sendClockStats s grpDevinfo dantePortInfo none)
      (if s.ptp.haveMaster then [infoOpcode 0x00 0x20] else []) := by
  rw [sendClockStats]
  split
  · refine announces_own s (infoOpcode 0x00 0x20) (clockStatsContent s) ?_
    rw [length_clockStatsContent]
    decide
  · exact Announces.refl s

theorem announces_sendCap (m : UInt8 × UInt8 × List UInt8)
    (hlen : mcastHdrLen + m.2.2.length ≤ netMaxPayload) :
    Announces s (sendCap grpDevinfo dantePortInfo s m) [infoOpcode m.1 m.2.1] := by
  have hmax : netMaxPayload = 1400 := rfl
  have hfit : mcastHdrLen + m.2.2.length < 2 ^ 16 := by omega
  rw [sendCap, infoMessage_eq, dantePortInfo_eq]
  exact ⟨_, speaks_commitInfo s 0xFFFF _ m.2.2 none grpDevinfo _ (by decide) hfit,
    heard_message s (by decide) hfit (goesOut_commitInfo s 0xFFFF _ m.2.2 none rfl 8702 hlen)⟩

/-- Any list of capability messages that fit. -/
theorem announces_sendCaps : ∀ (ms : List (UInt8 × UInt8 × List UInt8)) (s : Info),
    (∀ m ∈ ms, mcastHdrLen + m.2.2.length ≤ netMaxPayload) →
      Announces s (ms.foldl (sendCap grpDevinfo dantePortInfo) s)
        (ms.map fun m => infoOpcode m.1 m.2.1)
  | [], s, _ => Announces.refl s
  | m :: ms, s, h => by
      have hfirst := announces_sendCap s m (h m List.mem_cons_self)
      exact hfirst.trans (announces_sendCaps ms _ fun m' hm' => h m' (List.mem_cons_of_mem m hm'))

theorem announces_announceInfo :
    Announces s (announceInfo s) (announcementOpcodes s.ptp.haveMaster) := by
  have hdevice : Announces s (sendDeviceInfo s grpDevinfo dantePortInfo) _ :=
    announces_own s _ _ (by decide +kernel)
  unfold announceInfo
  dsimp only
  generalize sendDeviceInfo s grpDevinfo dantePortInfo = s₁ at hdevice ⊢
  have hproduct : Announces s₁ (sendProductInfo s₁ grpDevinfo dantePortInfo) _ :=
    announces_own s₁ _ _ (by decide +kernel)
  generalize sendProductInfo s₁ grpDevinfo dantePortInfo = s₂ at hproduct ⊢
  have hnetwork : Announces s₂ (sendNetworkInfo s₂ grpDevinfo dantePortInfo) _ :=
    announces_own s₂ _ _ (by rw [length_networkInfoContent]; decide)
  generalize sendNetworkInfo s₂ grpDevinfo dantePortInfo = s₃ at hnetwork ⊢
  have hfront := (hdevice.trans hproduct).trans hnetwork
  have hptp : s₃.ptp = s.ptp := by
    obtain ⟨new, hspeaks, -⟩ := hfront
    exact hspeaks.ptp
  have hclock := announces_sendClockStats s₃
  rw [hptp] at hclock
  exact (hfront.trans hclock).trans (announces_sendCaps capsMessages _ (by decide +kernel))

theorem announces_sendHeartbeat : Announces s (sendHeartbeat s) [heartbeatOpcode] := by
  have hmax : netMaxPayload = 1400 := rfl
  have hfit : mcastHdrLen + (heartbeatRecords s).flatten.length ≤ netMaxPayload := by
    rw [length_heartbeatRecords]
    decide
  have hlen : mcastHdrLen + (heartbeatRecords s).flatten.length < 2 ^ 16 := by omega
  have hmsg : heartbeat s = message s 0xFFFE heartbeatOpcode (heartbeatRecords s).flatten none := rfl
  have hport : dantePortHeartbeat = (8708 : UInt16).toNat := rfl
  have hspeaks := speaks_commitInfo s 0xFFFE heartbeatOpcode (heartbeatRecords s).flatten none
    grpHeartbeat dantePortHeartbeat (by decide) hlen
  have hout := @goesOut_commitInfo s 0xFFFE heartbeatOpcode (heartbeatRecords s).flatten none
    grpHeartbeat rfl 8708 hfit
  have hheard := heard_message s (by decide) hlen hout
  rw [← hmsg] at hspeaks hheard
  rw [← hport] at hheard
  refine ⟨[⟨grpHeartbeat, dantePortHeartbeat, heartbeat s, none⟩], ?_, ?_⟩
  · unfold sendHeartbeat
    dsimp only
    split
    · exact hspeaks.counted _
    · exact hspeaks
  · rw [net_sendHeartbeat]
    exact hheard

/-- Counting a request changes a counter only. -/
theorem Speaks.afterCount {s s' : Info} {new : List Built} {stats : InfoStats}
    (h : Speaks { s with stats := stats } s' new) : Speaks s s' new :=
  ⟨h.built, h.seqnum, h.whole, h.signed, h.node, h.dev, h.processId, h.ptp, h.nextHeartbeatMs,
    h.infoAnnounceNextMs⟩

/-- What the source promises of an answer: one datagram, or silence, and a number of another
device only in a clock report that goes to everyone. -/
def Answer (q : Datagram) (new : List Built) : Prop :=
  new.length ≤ 1 ∧ ∀ b ∈ new, b.echoes = none ∧ b.dst = q.srcIp ∧ b.dport = q.srcPort ∨
    b.echoes = some (requestSeq q) ∧ b.dst = grpDevinfo ∧ b.dport = dantePortInfo ∧
      opcodeOf b = some (replyOpcode q).toList

theorem answer_own {q : Datagram} {b : Built} (hecho : b.echoes = none) (hdst : b.dst = q.srcIp)
    (hport : b.dport = q.srcPort) : Answer q [b] := by
  refine ⟨le_refl 1, fun b' hb' => Or.inl ?_⟩
  rw [List.mem_singleton.1 hb']
  exact ⟨hecho, hdst, hport⟩

/-- A request is answered by at most one message. -/
theorem speaks_infoRx (q : Datagram) : ∃ new, Speaks s (infoRx s q) new ∧ Answer q new := by
  have hsilent : Answer q [] := ⟨Nat.zero_le 1, fun _ h => nomatch h⟩
  unfold infoRx
  split
  · exact ⟨[], Speaks.refl s, hsilent⟩
  dsimp only
  generalize { s.stats with rx := s.stats.rx + 1 } = stats
  have hown : ∀ (opcode : InfoOpcode) (content : List UInt8),
      mcastHdrLen + content.length < 2 ^ 16 → ∃ new, Speaks s (commitCounted
        { s with stats := stats } q.srcIp q.srcPort
          (message { s with stats := stats } 0xFFFF opcode content none) none) new ∧
        Answer q new := by
    intro opcode content hfit
    exact ⟨_, (speaks_commitCounted { s with stats := stats } 0xFFFF opcode content none q.srcIp
      q.srcPort (by decide) hfit).afterCount, answer_own rfl rfl rfl⟩
  split
  · exact hown (infoOpcode 0x00 0x60) deviceInfoContent (by decide +kernel)
  split
  · exact hown (infoOpcode 0x00 0xc0) productInfoContent (by decide +kernel)
  split
  · exact hown (infoOpcode 0x00 0x11) (networkInfoContent { s with stats := stats })
      (by rw [length_networkInfoContent]; decide)
  split
  · -- a clock report goes to everyone, under the number of the request
    unfold sendClockStats
    split
    · have hfit : mcastHdrLen + (clockStatsContent { s with stats := stats }).length < 2 ^ 16 := by
        rw [length_clockStatsContent]
        decide
      refine ⟨_, (speaks_commitCounted { s with stats := stats } 0xFFFF (replyOpcode q)
        (clockStatsContent { s with stats := stats }) (some (requestSeq q)) grpDevinfo
          dantePortInfo (by decide) hfit).afterCount, le_refl 1, fun b hb => Or.inr ?_⟩
      rw [List.mem_singleton.1 hb]
      exact ⟨rfl, rfl, rfl, (whole_message { s with stats := stats } 0xFFFF (replyOpcode q) _
        (some (requestSeq q)) grpDevinfo dantePortInfo (by decide) hfit).2⟩
    · exact ⟨[], (Speaks.refl { s with stats := stats }).afterCount, hsilent⟩
  · exact ⟨[], ((Speaks.refl s).counted stats).counted _, hsilent⟩

end Functions

/-! ## The machine -/

/-- What happens to the module: a pass of the main loop at a time since boot, a datagram to its
port, and anything the other modules do to what they own. -/
inductive InfoOp where
  | poll (ms : Int)
  | request (q : Datagram)
  | others (net : Net) (mac : Mac) (dev : DanteDev) (processId : UInt16) (ptp : Ptpv1.Slave)

/-- `gptp_uptime_ms`, as the passes read it. -/
def clockMs (ms : Int) : UInt32 := .ofBitVec (wrapped 32 ms)

def infoStep (s : Info) : InfoOp → Info
  | .poll ms => danteInfoPoll s (clockMs ms)
  | .request q => infoRx s q
  | .others net mac dev processId ptp =>
      { s with net := net, mac := mac, dev := dev, processId := processId, ptp := ptp }

/-- The module as `dante_info_init` leaves it at boot, whatever the other modules hold. -/
def Info.boot (net : Net) (mac : Mac) (dev : DanteDev) (processId : UInt16) (ptp : Ptpv1.Slave) :
    Info :=
  danteInfoInit
    { net := net, mac := mac, dev := dev, processId := processId, ptp := ptp
      stats := ⟨0, 0, 0, 0⟩, seqnum := 0, nextHeartbeatMs := 0, infoAnnounceNextMs := 0
      built := [] }

/-! ## One pass -/

/-- What a pass builds leaves the board in it. -/
def Pass (s s' : Info) (opcodes : List InfoOpcode) : Prop :=
  ∃ new, s'.built = s.built ++ new ∧ s'.seqnum = s.seqnum + UInt16.ofNat new.length ∧
    (∀ k b, new[k]? = some b → Whole (s.seqnum + UInt16.ofNat k) b) ∧
    Heard s.net s'.net new opcodes

theorem Announces.pass {s s' : Info} {ops : List InfoOpcode} (h : Announces s s' ops) :
    Pass s s' ops := by
  obtain ⟨new, hspeaks, hheard⟩ := h
  exact ⟨new, hspeaks.built, hspeaks.seqnum, hspeaks.whole, hheard⟩

/-- The two tests of the source are the test of one timer. -/
theorem due_iff (now next : UInt32) :
    due (w := 31) now.toBitVec next.toBitVec = true ↔ next = 0 ∨ reached now next = true := by
  have hzero : next.toBitVec = 0 ↔ next = 0 := by
    rw [← UInt32.toBitVec_inj]
    rfl
  rw [due, Bool.or_eq_true, decide_eq_true_iff, decide_eq_true_iff, hzero, reached,
    decide_eq_true_iff, UInt32.toBitVec_sub]

theorem toBitVec_announce (ms : Int) :
    (clockMs ms + infoAnnounceMs).toBitVec = wrapped 32 (ms + 3000) := by
  rw [UInt32.toBitVec_add, wrapped_add]
  rfl

theorem toBitVec_heartbeat (ms : Int) :
    (clockMs ms + heartbeatMs).toBitVec = wrapped 32 (ms + 1000) := by
  rw [UInt32.toBitVec_add, wrapped_add]
  rfl

/-- A pass announces, or else beats, or says nothing. -/
theorem danteInfoPoll_cases (s : Info) (ms : Int) :
    (due (w := 31) (wrapped 32 ms) s.infoAnnounceNextMs.toBitVec = true ∧
      Pass s (danteInfoPoll s (clockMs ms)) (announcementOpcodes s.ptp.haveMaster) ∧
      (danteInfoPoll s (clockMs ms)).infoAnnounceNextMs.toBitVec = wrapped 32 (ms + 3000) ∧
      (danteInfoPoll s (clockMs ms)).nextHeartbeatMs = s.nextHeartbeatMs) ∨
    due (w := 31) (wrapped 32 ms) s.infoAnnounceNextMs.toBitVec = false ∧
      (danteInfoPoll s (clockMs ms)).infoAnnounceNextMs = s.infoAnnounceNextMs ∧
      (due (w := 31) (wrapped 32 ms) s.nextHeartbeatMs.toBitVec = true ∧
          Pass s (danteInfoPoll s (clockMs ms)) [heartbeatOpcode] ∧
          (danteInfoPoll s (clockMs ms)).nextHeartbeatMs.toBitVec = wrapped 32 (ms + 1000) ∨
        due (w := 31) (wrapped 32 ms) s.nextHeartbeatMs.toBitVec = false ∧
          danteInfoPoll s (clockMs ms) = s) := by
  have hannounce := due_iff (clockMs ms) s.infoAnnounceNextMs
  have hbeat := due_iff (clockMs ms) s.nextHeartbeatMs
  rw [show (clockMs ms).toBitVec = wrapped 32 ms from rfl] at hannounce hbeat
  unfold danteInfoPoll
  split
  · -- the announcements are due, and the heartbeat is left to another pass
    rename_i h
    have hsays := announces_announceInfo s
    generalize announceInfo s = s₁ at hsays ⊢
    obtain ⟨new, hspeaks, hheard⟩ := hsays
    refine Or.inl ⟨hannounce.2 h, ⟨new, hspeaks.built, hspeaks.seqnum, hspeaks.whole, hheard⟩,
      toBitVec_announce ms, hspeaks.nextHeartbeatMs⟩
  rename_i h
  refine Or.inr ⟨Bool.eq_false_iff.2 fun hdue => h (hannounce.1 hdue), ?_⟩
  split
  · rename_i hquiet
    refine ⟨rfl, Or.inr ⟨Bool.eq_false_iff.2 fun hdue => ?_, rfl⟩⟩
    rcases hbeat.1 hdue with hzero | hreached
    · exact hquiet.1 hzero
    · rw [hquiet.2] at hreached
      cases hreached
  · -- the heartbeat is
    rename_i hloud
    have hdue : due (w := 31) (wrapped 32 ms) s.nextHeartbeatMs.toBitVec = true := by
      refine hbeat.2 ?_
      by_contra hnot
      rw [not_or] at hnot
      exact hloud ⟨hnot.1, Bool.not_eq_true _ ▸ hnot.2⟩
    have hsays := announces_sendHeartbeat { s with nextHeartbeatMs := clockMs ms + heartbeatMs }
    generalize sendHeartbeat { s with nextHeartbeatMs := clockMs ms + heartbeatMs } = s₁
      at hsays ⊢
    obtain ⟨new, hspeaks, hheard⟩ := hsays
    refine ⟨hspeaks.infoAnnounceNextMs, Or.inl ⟨hdue,
      ⟨new, hspeaks.built, hspeaks.seqnum, hspeaks.whole, hheard⟩, ?_⟩⟩
    rw [hspeaks.nextHeartbeatMs]
    exact toBitVec_heartbeat ms

/-- Every pass says the announcements, a heartbeat or nothing. -/
theorem pass_danteInfoPoll (s : Info) (ms : Int) :
    ∃ ops, (ops = announcementOpcodes s.ptp.haveMaster ∨ ops = [heartbeatOpcode] ∨ ops = []) ∧
      Pass s (danteInfoPoll s (clockMs ms)) ops := by
  rcases danteInfoPoll_cases s ms with ⟨-, hpass, -⟩ | ⟨-, -, ⟨-, hpass, -⟩ | ⟨-, hquiet⟩⟩
  · exact ⟨_, Or.inl rfl, hpass⟩
  · exact ⟨_, Or.inr (Or.inl rfl), hpass⟩
  · rw [hquiet]
    exact ⟨[], Or.inr (Or.inr rfl), (Announces.refl s).pass⟩

/-! ## Numbers -/

/-- From the start on: every datagram carries its place in the order of all of them, or echoes. -/
structure Numbered (s : Info) : Prop where
  next : s.seqnum = UInt16.ofNat s.built.length
  whole : ∀ k b, s.built[k]? = some b → Whole (UInt16.ofNat k) b

theorem Numbered.append {s s' : Info} {new : List Built} (h : Numbered s)
    (hbuilt : s'.built = s.built ++ new) (hnext : s'.seqnum = s.seqnum + UInt16.ofNat new.length)
    (hwhole : ∀ k b, new[k]? = some b → Whole (s.seqnum + UInt16.ofNat k) b) : Numbered s' where
  next := by rw [hnext, h.next, hbuilt, List.length_append, UInt16.ofNat_add]
  whole := by
    intro k b hk
    rw [hbuilt] at hk
    rcases Nat.lt_or_ge k s.built.length with hlt | hge
    · rw [List.getElem?_append_left hlt] at hk
      exact h.whole k b hk
    · rw [List.getElem?_append_right hge] at hk
      have hnum := hwhole _ b hk
      rwa [h.next, ← UInt16.ofNat_add, Nat.add_sub_cancel' hge] at hnum

theorem numbered_infoStep (s : Info) (op : InfoOp) (h : Numbered s) : Numbered (infoStep s op) := by
  cases op with
  | poll ms =>
    obtain ⟨opcodes, -, new, hbuilt, hnext, hwhole, -⟩ := pass_danteInfoPoll s ms
    exact h.append hbuilt hnext hwhole
  | request q =>
    obtain ⟨new, hspeaks, -⟩ := speaks_infoRx s q
    exact h.append hspeaks.built hspeaks.seqnum hspeaks.whole
  | others net mac dev processId ptp => exact ⟨h.next, h.whole⟩

theorem numbered_boot (net : Net) (mac : Mac) (dev : DanteDev) (processId : UInt16)
    (ptp : Ptpv1.Slave) : Numbered (Info.boot net mac dev processId ptp) :=
  ⟨rfl, fun _ _ h => nomatch h⟩

/-- Whatever passes, requests and other modules do, in any order: every datagram the module has
built is one message, with its number in the order of all of them, modulo `2 ^ 16`; only an answer
that reports the clock carries another, its request's, and goes to everyone.  A request is answered
by one datagram or by none. -/
theorem infoRun_numbered (net : Net) (mac : Mac) (dev : DanteDev) (processId : UInt16)
    (ptp : Ptpv1.Slave) (ops : List InfoOp) :
    let s := run infoStep (Info.boot net mac dev processId ptp) ops
    (∀ (k : Nat) (b : Built), s.built[k]? = some b → ∃ h, readInfoHeader b.payload = some h ∧
        h.vendor = vendorStr ∧ h.seq = (b.echoes.map UInt16.toNat).getD (k % 2 ^ 16)) ∧
      (∀ q, ∃ new, (infoRx s q).built = s.built ++ new ∧ Answer q new) ∧
      ∀ ms, ∃ new, (danteInfoPoll s (clockMs ms)).built = s.built ++ new ∧
        ∀ b ∈ new, b.echoes = none := by
  intro s
  have hnum : Numbered s :=
    run_invariant infoStep numbered_infoStep ops (numbered_boot net mac dev processId ptp)
  refine ⟨fun k b hk => ?_, fun q => ?_, fun ms => ?_⟩
  · obtain ⟨h, hread, hvendor, hseq⟩ := hnum.whole k b hk
    refine ⟨h, hread, hvendor, hseq.trans ?_⟩
    cases b.echoes with
    | none => exact UInt16.toNat_ofNat
    | some number => rfl
  · obtain ⟨new, hspeaks, hanswer⟩ := speaks_infoRx s q
    exact ⟨new, hspeaks.built, hanswer⟩
  · obtain ⟨opcodes, -, new, hbuilt, -, -, hheard⟩ := pass_danteInfoPoll s ms
    exact ⟨new, hbuilt, hheard.2.1⟩

/-! ## The schedule -/

/-- Does a pass begin with the first announcement? -/
def announces (new : List Built) : Bool :=
  (new.map opcodeOf).contains (some (infoOpcode 0x00 0x60).toList)

/-- Does a pass send a heartbeat? -/
def beats (new : List Built) : Bool := (new.map opcodeOf).contains (some heartbeatOpcode.toList)

/-- What an observer of the passes notes: when there was one, and of which sort. -/
structure Timeline where
  announcements : List Int
  heartbeats : List Int
  last : Option Int

def Timeline.start : Timeline := ⟨[], [], none⟩

def observePass (s : Info) (op : InfoOp) (t : Timeline) : Timeline :=
  match op with
  | .poll ms =>
      let new := (danteInfoPoll s (clockMs ms)).built.drop s.built.length
      { announcements := if announces new then t.announcements ++ [ms] else t.announcements
        heartbeats := if beats new then t.heartbeats ++ [ms] else t.heartbeats
        last := some ms }
  | _ => t

/-- The clock does not go back, and the main loop comes round within three seconds. -/
def InTime (p : Info × Timeline) : InfoOp → Prop
  | .poll ms => ∀ a, p.2.last = some a → a ≤ ms ∧ ms - a < 3000
  | _ => True

/-- After a pass at `a`.  The timer of the announcements was tested in it; that of the heartbeats
too, unless the pass announced, and then not long before. -/
structure OnTime (s : Info) (t : Timeline) (a : Int) : Prop where
  spacedAnnouncements : Spaced 31 3000 t.announcements
  spacedHeartbeats : Spaced 31 1000 t.heartbeats
  past : ∀ f, f ∈ t.announcements ∨ f ∈ t.heartbeats → f ≤ a
  announce : Ticking (w := 31) 3000 s.infoAnnounceNextMs.toBitVec t.announcements.getLast? a
  announced : t.announcements ≠ []
  heartbeat : ∃ b, Ticking (w := 31) 1000 s.nextHeartbeatMs.toBitVec t.heartbeats.getLast? b ∧
    (b = a ∧ t.heartbeats ≠ [] ∨ t.announcements.getLast? = some a ∧ b ≤ a ∧
      (a - b < 3000 ∨ ¬ Unnamed 31 (a + 3000) ∧ a - b < 6000))

/-- What holds of the module and its observer. -/
def Scheduled (p : Info × Timeline) : Prop :=
  match p.2.last with
  | none => p.2 = Timeline.start ∧ p.1.infoAnnounceNextMs = 0 ∧ p.1.nextHeartbeatMs = 0
  | some a => OnTime p.1 p.2 a

/-- A pass of a known sort, as the observer sees it. -/
theorem Pass.observe {s s' : Info} {ops : List InfoOpcode} (h : Pass s s' ops) :
    announces (s'.built.drop s.built.length) = ops.contains (infoOpcode 0x00 0x60) ∧
      beats (s'.built.drop s.built.length) = ops.contains heartbeatOpcode := by
  obtain ⟨new, hbuilt, -, -, -, -, hops⟩ := h
  have hmem : ∀ op : InfoOpcode,
      (ops.map fun op => some op.toList).contains (some op.toList) = ops.contains op := by
    intro op
    rw [Bool.eq_iff_iff, List.contains_iff_mem, List.contains_iff_mem, List.mem_map]
    constructor
    · rintro ⟨op', hop', heq⟩
      rwa [← Vector.toList_inj.1 (Option.some.inj heq)]
    · exact fun hop => ⟨op, hop, rfl⟩
  rw [hbuilt, List.drop_left, announces, beats, hops]
  exact ⟨hmem _, hmem _⟩

theorem announcementOpcodes_kinds : ∀ haveMaster,
    (announcementOpcodes haveMaster).contains (infoOpcode 0x00 0x60) = true ∧
      (announcementOpcodes haveMaster).contains heartbeatOpcode = false := by
  decide +kernel

section Steps

variable {s : Info} {t : Timeline} {a ms : Int}

theorem observe_announcement {haveMaster : Bool}
    (h : Pass s (danteInfoPoll s (clockMs ms)) (announcementOpcodes haveMaster)) :
    observePass s (.poll ms) t = ⟨t.announcements ++ [ms], t.heartbeats, some ms⟩ := by
  obtain ⟨hyes, hno⟩ := announcementOpcodes_kinds haveMaster
  simp only [observePass, h.observe, hyes, hno, if_true, if_false, Bool.false_eq_true]

theorem observe_heartbeat (h : Pass s (danteInfoPoll s (clockMs ms)) [heartbeatOpcode]) :
    observePass s (.poll ms) t = ⟨t.announcements, t.heartbeats ++ [ms], some ms⟩ := by
  have hno : [heartbeatOpcode].contains (infoOpcode 0x00 0x60) = false := by decide
  have hyes : [heartbeatOpcode].contains heartbeatOpcode = true := by decide
  simp only [observePass, h.observe, hyes, hno, if_true, if_false, Bool.false_eq_true]

theorem observe_quiet (h : danteInfoPoll s (clockMs ms) = s) :
    observePass s (.poll ms) t = ⟨t.announcements, t.heartbeats, some ms⟩ := by
  have hnone : announces [] = false ∧ beats [] = false := ⟨rfl, rfl⟩
  simp only [observePass, h, List.drop_length, hnone, if_false, Bool.false_eq_true]

/-- Only the two deadlines matter. -/
theorem Scheduled.congr {s' : Info} (h : Scheduled (s, t))
    (hannounce : s'.infoAnnounceNextMs = s.infoAnnounceNextMs)
    (hbeat : s'.nextHeartbeatMs = s.nextHeartbeatMs) : Scheduled (s', t) := by
  unfold Scheduled at h ⊢
  dsimp only at h ⊢
  split at h
  · exact ⟨h.1, hannounce.trans h.2.1, hbeat.trans h.2.2⟩
  · refine ⟨h.spacedAnnouncements, h.spacedHeartbeats, h.past, ?_, h.announced, ?_⟩
    · rw [hannounce]
      exact h.announce
    · rw [hbeat]
      exact h.heartbeat

/-- When the heartbeats' timer was last tested, at a pass that comes in time. -/
theorem OnTime.beatTested (h : OnTime s t a) (hat : a ≤ ms) (hgap : ms - a < 3000) :
    ∃ b, Ticking (w := 31) 1000 s.nextHeartbeatMs.toBitVec t.heartbeats.getLast? b ∧ b ≤ ms ∧
      ms - b < 9000 := by
  obtain ⟨b, hkept, ⟨rfl, -⟩ | ⟨-, hba, hnear | ⟨-, hnear⟩⟩⟩ := h.heartbeat
  · exact ⟨b, hkept, hat, by linarith⟩
  · exact ⟨b, hkept, hba.trans hat, by linarith⟩
  · exact ⟨b, hkept, hba.trans hat, by linarith⟩

/-- A pass that announces right after one that announced has a deadline to blame that the register
cannot name, so the heartbeats never wait for long. -/
theorem OnTime.beatWaits (h : OnTime s t a) (hat : a ≤ ms) (hgap : ms - a < 3000)
    (hdue : due (w := 31) (wrapped 32 ms) s.infoAnnounceNextMs.toBitVec = true) :
    ∃ b, Ticking (w := 31) 1000 s.nextHeartbeatMs.toBitVec t.heartbeats.getLast? b ∧ b ≤ ms ∧
      (ms - b < 3000 ∨ ¬ Unnamed 31 (ms + 3000) ∧ ms - b < 6000) := by
  obtain ⟨b, hkept, ⟨rfl, -⟩ | ⟨hlast, hba, hnear⟩⟩ := h.heartbeat
  · exact ⟨b, hkept, hat, Or.inl hgap⟩
  have hripe : Ripe 31 3000 a ms :=
    (h.announce.due_iff (by decide) hat (by linarith)).1 hdue a hlast
  have hun : Unnamed 31 (a + 3000) := by
    rcases hripe with hlate | hun
    · linarith
    · exact hun
  have hab : a - b < 3000 := by
    rcases hnear with hnear | ⟨hnot, -⟩
    · exact hnear
    · exact absurd hun hnot
  refine ⟨b, hkept, hba.trans hat, ?_⟩
  rcases hat.eq_or_lt with rfl | hlt
  · exact Or.inl hab
  · refine Or.inr ⟨fun hun' => ?_, by linarith⟩
    have hfar : (4294967296 : Int) ≤ ms + 3000 - (a + 3000) := hun.apart hun' (by linarith)
    linarith

/-- A pass that comes in time keeps the schedule. -/
theorem onTime_poll (h : OnTime s t a) (hat : a ≤ ms) (hgap : ms - a < 3000) :
    OnTime (danteInfoPoll s (clockMs ms)) (observePass s (.poll ms) t) ms := by
  have hpast : ∀ f, f ∈ t.announcements ∨ f ∈ t.heartbeats → f ≤ ms :=
    fun f hf => (h.past f hf).trans hat
  rcases danteInfoPoll_cases s ms with ⟨hdue, hpass, hannounce, hbeat⟩ |
    ⟨hnot, hannounce, ⟨hdue, hpass, hbeat⟩ | ⟨hnobeat, hsame⟩⟩
  · -- announced: the heartbeat's timer was not tested, and is as old as it was
    obtain ⟨b, hkept, hb, hnear⟩ := h.beatWaits hat hgap hdue
    rw [observe_announcement hpass]
    refine ⟨h.spacedAnnouncements.concat (fun f hf => hpast f (Or.inl hf))
      ((h.announce.due_iff (by decide) hat (by linarith)).1 hdue), h.spacedHeartbeats, ?_, ?_,
      by simp, b, by rw [hbeat]; exact hkept, Or.inr ⟨List.getLast?_concat, hb, hnear⟩⟩
    · rintro f (hf | hf)
      · rcases List.mem_append.1 hf with hf | hf
        · exact hpast f (Or.inl hf)
        · exact (List.mem_singleton.1 hf).le
      · exact hpast f (Or.inr hf)
    · rw [hannounce, List.getLast?_concat]
      exact Ticking.fired (by decide)
  · -- beaten: both were tested
    obtain ⟨b, hkept, hb, hnear⟩ := h.beatTested hat hgap
    rw [observe_heartbeat hpass]
    refine ⟨h.spacedAnnouncements, h.spacedHeartbeats.concat (fun f hf => hpast f (Or.inr hf))
      ((hkept.due_iff (by decide) hb (by linarith)).1 hdue), ?_, ?_, h.announced, ms, ?_,
      Or.inl ⟨rfl, by simp⟩⟩
    · rintro f (hf | hf)
      · exact hpast f (Or.inl hf)
      · rcases List.mem_append.1 hf with hf | hf
        · exact hpast f (Or.inr hf)
        · exact (List.mem_singleton.1 hf).le
    · rw [hannounce]
      exact (h.announce.waited (by decide) hat (by linarith) hnot).1
    · rw [hbeat, List.getLast?_concat]
      exact Ticking.fired (by decide)
  · obtain ⟨b, hkept, hb, hnear⟩ := h.beatTested hat hgap
    obtain ⟨hwaited, f, hlast, -⟩ := hkept.waited (by decide) hb (by linarith) hnobeat
    rw [observe_quiet hsame, hsame]
    refine ⟨h.spacedAnnouncements, h.spacedHeartbeats, hpast,
      (h.announce.waited (by decide) hat (by linarith) hnot).1, h.announced, ms, hwaited,
      Or.inl ⟨rfl, fun hnil => ?_⟩⟩
    rw [hnil] at hlast
    cases hlast

/-- The first pass announces. -/
theorem onTime_first (hannounce : s.infoAnnounceNextMs = 0) (hbeat : s.nextHeartbeatMs = 0) :
    OnTime (danteInfoPoll s (clockMs ms)) (observePass s (.poll ms) .start) ms := by
  have hdue : due (w := 31) (wrapped 32 ms) s.infoAnnounceNextMs.toBitVec = true := by
    rw [hannounce]
    rfl
  rcases danteInfoPoll_cases s ms with ⟨-, hpass, hnext, hsame⟩ | ⟨hnot, -⟩
  · rw [observe_announcement hpass]
    refine ⟨List.pairwise_singleton _ _, List.Pairwise.nil, ?_, ?_, by simp [Timeline.start], ms, ?_, ?_⟩
    · rintro f (hf | hf)
      · exact (List.mem_singleton.1 hf).le
      · exact absurd hf List.not_mem_nil
    · rw [hnext]
      exact Ticking.fired (by decide)
    · rw [hsame, hbeat]
      exact Ticking.start
    · exact Or.inr ⟨rfl, le_refl ms, Or.inl (by linarith)⟩
  · rw [hdue] at hnot
    cases hnot

theorem scheduled_infoStep (p : Info × Timeline) (op : InfoOp) (hin : InTime p op)
    (h : Scheduled p) : Scheduled (watch infoStep observePass p op) := by
  obtain ⟨s, t⟩ := p
  cases op with
  | poll ms =>
    have hgoal : OnTime (danteInfoPoll s (clockMs ms)) (observePass s (.poll ms) t) ms := by
      cases hlast : t.last with
      | none =>
        have hnone : t = .start ∧ s.infoAnnounceNextMs = 0 ∧ s.nextHeartbeatMs = 0 := by
          simpa only [Scheduled, hlast] using h
        rw [hnone.1]
        exact onTime_first hnone.2.1 hnone.2.2
      | some a =>
        have hsome : OnTime s t a := by simpa only [Scheduled, hlast] using h
        obtain ⟨hat, hgap⟩ := hin a hlast
        exact onTime_poll hsome hat hgap
    exact hgoal
  | request q =>
    obtain ⟨new, hspeaks, -⟩ := speaks_infoRx s q
    have hA : (infoRx s q).infoAnnounceNextMs = s.infoAnnounceNextMs := hspeaks.infoAnnounceNextMs
    have hB : (infoRx s q).nextHeartbeatMs = s.nextHeartbeatMs := hspeaks.nextHeartbeatMs
    exact h.congr hA hB
  | others net mac dev processId ptp => exact h.congr rfl rfl

end Steps

/-- As long as the uptime does not go back and the main loop comes round within three seconds,
whatever requests come and whatever the other modules do in between, across every wrap of the
counter: at every pass the last announcements are less than three seconds old, and the last
heartbeat less than one, unless the pass itself announced.  Neither comes early, but after a
deadline that falls on a wrap; and all that a pass says goes out in it. -/
theorem info_schedule (net : Net) (mac : Mac) (dev : DanteDev) (processId : UInt16)
    (ptp : Ptpv1.Slave) (ops : List InfoOp)
    (h : Along (watch infoStep observePass) InTime
      (Info.boot net mac dev processId ptp, Timeline.start) ops) :
    let p := run (watch infoStep observePass)
      (Info.boot net mac dev processId ptp, Timeline.start) ops
    (∀ a, p.2.last = some a → ∃ f ∈ p.2.announcements, f ≤ a ∧ a < f + 3000) ∧
      (∀ a, p.2.last = some a →
        a ∈ p.2.announcements ∨ ∃ f ∈ p.2.heartbeats, f ≤ a ∧ a < f + 1000) ∧
      p.2.announcements.Pairwise (fun f g => f + 3000 ≤ g ∨ (2 : Int) ^ 32 ∣ f + 3000) ∧
      p.2.heartbeats.Pairwise (fun f g => f + 1000 ≤ g ∨ (2 : Int) ^ 32 ∣ f + 1000) ∧
      ∀ ms, ∃ opcodes, Pass p.1 (danteInfoPoll p.1 (clockMs ms)) opcodes ∧
        (opcodes = announcementOpcodes p.1.ptp.haveMaster ∨ opcodes = [heartbeatOpcode] ∨
          opcodes = []) := by
  intro p
  have hsched : Scheduled p := h.invariant (fun p op => scheduled_infoStep p op) ⟨rfl, rfl, rfl⟩
  have hripe : ∀ {q f g : Int}, Ripe 31 q f g → f + q ≤ g ∨ (2 : Int) ^ 32 ∣ f + q :=
    fun hr => hr.imp_right Lib.Timer.unnamed_iff.1
  have hpasses : ∀ ms, ∃ opcodes, Pass p.1 (danteInfoPoll p.1 (clockMs ms)) opcodes ∧
      (opcodes = announcementOpcodes p.1.ptp.haveMaster ∨ opcodes = [heartbeatOpcode] ∨
        opcodes = []) := by
    intro ms
    obtain ⟨opcodes, hkind, hpass⟩ := pass_danteInfoPoll p.1 ms
    exact ⟨opcodes, hpass, hkind⟩
  cases hlast : p.2.last with
  | none =>
    have hstart : p.2 = .start := by
      have hnone := hsched
      simp only [Scheduled, hlast] at hnone
      exact hnone.1
    rw [hstart]
    refine ⟨?_, ?_, List.Pairwise.nil, List.Pairwise.nil, hpasses⟩
    · exact fun _ h => nomatch h
    · exact fun _ h => nomatch h
  | some a =>
    have honTime : OnTime p.1 p.2 a := by simpa only [Scheduled, hlast] using hsched
    have hrecent : ∀ {q b : Int} {next : BitVec 32} {fires : List Int},
        Ticking (w := 31) q next fires.getLast? b → fires ≠ [] → ∃ f ∈ fires, f ≤ b ∧ b < f + q := by
      intro q b next fires hkept hne
      rw [List.getLast?_eq_some_getLast hne] at hkept
      exact ⟨_, List.getLast_mem hne, hkept.2⟩
    refine ⟨fun a' ha' => ?_, fun a' ha' => ?_, honTime.spacedAnnouncements.imp hripe,
      honTime.spacedHeartbeats.imp hripe, hpasses⟩
    · rw [← Option.some.inj ha']
      exact hrecent honTime.announce honTime.announced
    · rw [← Option.some.inj ha']
      obtain ⟨b, hkept, ⟨rfl, hne⟩ | ⟨hnow, -⟩⟩ := honTime.heartbeat
      · exact Or.inr (hrecent hkept hne)
      · exact Or.inl (List.mem_of_getLast? hnow)

/-- A board that has heard no master yet. -/
def atBoot : Info :=
  Info.boot (Net.boot fun _ _ => 0) ⟨0, 0, 0, 0, 0, 0⟩ (Mdns.danteDevInit ⟨0, 0, 0, 0, 0, 0⟩) 0
    (Ptpv1.boot ⟨0, 0, 0, 0, 0, 0⟩ none)

/-- Two passes a second apart: the first announces. -/
theorem info_schedule_two :
    ∃ f ∈ (run (watch infoStep observePass) (atBoot, Timeline.start)
      [.poll 0, .poll 1000]).2.announcements, f ≤ 1000 ∧ 1000 < f + 3000 := by
  have hfirst : InTime (atBoot, Timeline.start) (.poll 0) := fun a h => nomatch h
  have hsecond : InTime (watch infoStep observePass (atBoot, .start) (.poll 0)) (.poll 1000) := by
    intro a h
    rw [← show (0 : Int) = a from Option.some.inj h]
    decide
  exact (info_schedule _ _ _ _ _ [.poll 0, .poll 1000] ⟨hfirst, hsecond, trivial⟩).1 1000 rfl

end Firmware
end InfernoFpga
