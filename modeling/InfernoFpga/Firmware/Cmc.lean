import InfernoFpga.Firmware.ArcServer
import InfernoFpga.Firmware.Info

/-!
# Cmc — the device advertisement

`dante_cmc.c` answers one question: who is this?  A controller asks it to confirm what it has learnt
from mDNS.  The answer names the device, the address it has now and the port its announcements come
from.
-/

namespace InfernoFpga
namespace Firmware

open Lib
open Mdns (DanteDev dantePortCmc)

abbrev opRequestDeviceAdvertisement : Nat := 0x1001

/-- `dante_cmc_stats_t`. -/
structure CmcStats where
  rx : UInt32
  tx : UInt32
  deriving DecidableEq

/-- `dante_cmc.c`, with the parts of `g_dante` and the stack it reads. -/
structure Cmc where
  net : Net
  dev : DanteDev
  processId : UInt16
  stats : CmcStats

namespace Cmc

variable (s : Cmc) (q : Datagram)

/-- The content of the answer. -/
def deviceAdvertisement : List UInt8 :=
  Mem.be16 s.processId.toNat ++ s.dev.deviceId.toList ++ fieldBytes [1, 0] ++ s.net.ip.bytes ++
    fieldBytes [dantePortInfoReq, 0]

/-- `cmc_rx`. -/
def cmcRx : Cmc :=
  if q.len < danteHdrLen then s
  else if q.opcode2 ≠ 0 then s
  else if q.opcode1 ≠ opRequestDeviceAdvertisement then s
  else
    let m := ((arcMsgBegin q.req).put s.deviceAdvertisement).finish danteCodeOk
    let (net, ok) := netUdpCommit (txStore s.net udpPayloadOff m.buf) q.srcIp q.srcPort dantePortCmc
      m.len netTosBestEffort
    { s with
        net := net
        stats := ⟨s.stats.rx + 1, if ok then s.stats.tx + 1 else s.stats.tx⟩ }

end Cmc

/-! ## Reading an advertisement -/

/-- What an advertisement says. -/
structure Advertisement where
  processId : Nat
  deviceId : List UInt8
  ip : List UInt8
  infoPort : Nat
  deriving DecidableEq

/-- The advertisement in an answer that is as long as it says. -/
def readAdvertisement (m : List UInt8) : Option Advertisement :=
  let p : Mem := fun k => m.getD k 0
  if m.length < 32 ∨ Mem.rd16 p 2 ≠ m.length ∨ Mem.rd16 p 8 ≠ danteCodeOk then none
  else some ⟨Mem.rd16 p 10, (m.drop 12).take 8, (m.drop 24).take 4, Mem.rd16 p 28⟩

/-- A question that is answered. -/
structure Datagram.AsksWho (q : Datagram) : Prop where
  len : danteHdrLen ≤ q.len
  opcode2 : q.opcode2 = 0
  opcode1 : q.opcode1 = opRequestDeviceAdvertisement

section Answer

variable (s : Cmc)

theorem length_deviceAdvertisement : s.deviceAdvertisement.length = 22 := by
  simp only [Cmc.deviceAdvertisement, List.length_append, length_be16, Vector.length_toList]
  rfl

/-- What the board is, is read from its answer. -/
theorem readAdvertisement_bytes (req : Mem) :
    readAdvertisement ((Reply.mk danteCodeOk s.deviceAdvertisement).bytes req) =
      some ⟨s.processId.toNat, s.dev.deviceId.toList, s.net.ip.bytes, dantePortInfoReq⟩ := by
  have hlength := Reply.length_bytes ⟨danteCodeOk, s.deviceAdvertisement⟩ req
  rw [Reply.totalLength, length_deviceAdvertisement] at hlength
  have hbytes : (Reply.mk danteCodeOk s.deviceAdvertisement).bytes req =
      Mem.slice req 0 2 ++ (Mem.be16 32 ++ (Mem.slice req 4 2 ++ (Mem.slice req 6 2 ++
        (Mem.be16 danteCodeOk ++ (Mem.be16 s.processId.toNat ++ (s.dev.deviceId.toList ++
          (fieldBytes [1, 0] ++ (s.net.ip.bytes ++ (Mem.be16 dantePortInfoReq ++
            Mem.be16 0))))))))) := by
    rw [Reply.bytes, Reply.totalLength, length_deviceAdvertisement]
    simp only [Cmc.deviceAdvertisement, List.append_assoc]
    rfl
  generalize (Reply.mk danteCodeOk s.deviceAdvertisement).bytes req = m at hlength hbytes ⊢
  -- each field, at its offset
  have hat := At.of_prefix (List.prefix_refl m)
  nth_rewrite 2 [hbytes] at hat
  obtain ⟨-, hat⟩ := At.append_iff.1 hat
  obtain ⟨htotal, hat⟩ := At.append_iff.1 hat
  obtain ⟨-, hat⟩ := At.append_iff.1 hat
  obtain ⟨-, hat⟩ := At.append_iff.1 hat
  obtain ⟨hcode, hat⟩ := At.append_iff.1 hat
  obtain ⟨hprocess, hat⟩ := At.append_iff.1 hat
  obtain ⟨hdevice, hat⟩ := At.append_iff.1 hat
  obtain ⟨-, hat⟩ := At.append_iff.1 hat
  obtain ⟨haddr, hat⟩ := At.append_iff.1 hat
  obtain ⟨hport, -⟩ := At.append_iff.1 hat
  have hid := hdevice.slice
  have hip := haddr.slice
  simp only [Mem.length_slice, length_be16, Vector.length_toList, Nat.zero_add, Nat.reduceAdd]
    at htotal hcode hprocess hid hip hport
  have hip4 : s.net.ip.bytes.length = 4 := rfl
  have hfields : (fieldBytes [1, 0]).length = 4 := rfl
  rw [hfields] at hip hport
  rw [hip4] at hip hport
  unfold readAdvertisement
  dsimp only
  rw [htotal.rd16 (by decide), hcode.rd16 (by decide), hprocess.rd16 s.processId.toNat_lt,
    hport.rd16 (by decide), if_neg (by rw [hlength]; decide), hid, hip]

variable {s : Cmc} {q : Datagram}

/-- Anything else is ignored. -/
theorem cmcRx_of_not (h : ¬ q.AsksWho) : s.cmcRx q = s := by
  rw [Cmc.cmcRx]
  split
  · rfl
  · rename_i hlen
    split
    · rfl
    · rename_i hcode
      exact if_pos fun hop => h ⟨Nat.not_lt.1 hlen, not_not.1 hcode, hop⟩

/-- The answer is the advertisement, sent to whoever asked. -/
theorem cmcRx_net (h : q.AsksWho) : (s.cmcRx q).net =
    (netUdpCommit (txStore s.net udpPayloadOff
        ((Reply.mk danteCodeOk s.deviceAdvertisement).bytes q.req)) q.srcIp q.srcPort
      (8800 : UInt16).toNat ((Reply.mk danteCodeOk s.deviceAdvertisement).bytes q.req).length
      netTosBestEffort).1 := by
  have hfinish := (((Begun.start q.req).put s.deviceAdvertisement).finish danteCodeOk).1
  have hreply : ((arcMsgBegin q.req).put s.deviceAdvertisement).reply danteCodeOk =
      ⟨danteCodeOk, s.deviceAdvertisement⟩ := rfl
  rw [hreply] at hfinish
  rw [Cmc.cmcRx, if_neg (Nat.not_lt.2 h.len), if_neg (not_not.2 h.opcode2),
    if_neg (not_not.2 h.opcode1), ← hfinish]
  rfl

theorem sameNode_cmcRx (s : Cmc) (q : Datagram) : SameNode s.net (s.cmcRx q).net := by
  by_cases h : q.AsksWho
  · rw [cmcRx_net h]
    exact (SameNode.of_txStore ..).trans (sameNode_netUdpCommit ..)
  · rw [cmcRx_of_not h]
    exact SameNode.refl _

/-- One frame hands the advertisement to the port that asked. -/
theorem cmcRx_answers {mac : Mac} {port : UInt16} (h : q.AsksWho)
    (hport : q.srcPort = port.toNat) (hsrc : arpResolve s.net q.srcIp = some mac) :
    ∃ bytes payload, (s.cmcRx q).net.sent = s.net.sent ++ [⟨s.net.txslot, bytes⟩] ∧
      Arrives bytes s.net.ip q.srcIp 8800 port payload ∧ readAdvertisement payload =
        some ⟨s.processId.toNat, s.dev.deviceId.toList, s.net.ip.bytes, dantePortInfoReq⟩ := by
  have hlen :
      ((Reply.mk danteCodeOk s.deviceAdvertisement).bytes q.req).length ≤ netMaxPayload := by
    rw [Reply.length_bytes, Reply.totalLength, length_deviceAdvertisement]
    decide
  obtain ⟨bytes, -, hsent, harrives⟩ :=
    netUdpCommit_arrives port 8800 netTosBestEffort hlen hsrc
  rw [cmcRx_net h, hport]
  exact ⟨bytes, _, hsent, harrives, readAdvertisement_bytes s q.req⟩

end Answer

end Firmware
end InfernoFpga
