import InfernoFpga.Firmware.NetTx

/-!
# DanteMsg — the framing of the control plane

A response is built in place, in the transmit slot its `begin` was called in, and is finished by
patching two fields of its header.  `DanteMsg` is the pointer into the slot and the bytes used;
`Reply` is the response as a value.
-/

namespace InfernoFpga
namespace Firmware

open Lib

abbrev danteHdrLen : Nat := 10
abbrev danteCodeOk : Nat := 1

/-! ## Requests -/

/-- A received datagram, as a port handler gets it. -/
structure Datagram where
  srcIp : Ip
  srcPort : Nat
  req : Mem
  len : Nat

namespace Datagram

variable (q : Datagram)

def opcode1 : Nat := Mem.rd16 q.req 6
def opcode2 : Nat := Mem.rd16 q.req 8

end Datagram

/-! ## Building a response -/

/-- `dante_msg_t`: `buf` is the payload area of the slot. -/
structure DanteMsg where
  slot : Fin 2
  len : Nat

/-- The header `dante_msg_begin` writes: length and opcode2 are still zero. -/
def danteHeader (req : Mem) : List UInt8 :=
  [req 0, req 1, 0, 0, req 4, req 5, req 6, req 7, 0, 0]

/-- `dante_msg_begin` on `net_udp_payload_buf()`. -/
def danteMsgBegin (n : Net) (req : Mem) : Net × DanteMsg :=
  (slotStore n n.txslot udpPayloadOff (danteHeader req), ⟨n.txslot, danteHdrLen⟩)

/-- `dante_msg_bytes`. -/
def danteMsgBytes (n : Net) (m : DanteMsg) (bs : List UInt8) : Net × DanteMsg :=
  (slotStore n m.slot (udpPayloadOff + m.len) bs, { m with len := m.len + bs.length })

def danteMsgU16 (n : Net) (m : DanteMsg) (v : Nat) : Net × DanteMsg :=
  danteMsgBytes n m (Mem.be16 v)

def danteMsgU32 (n : Net) (m : DanteMsg) (v : Nat) : Net × DanteMsg :=
  danteMsgBytes n m (Mem.be32 v)

def danteMsgPatchU16 (n : Net) (m : DanteMsg) (x v : Nat) : Net :=
  slotStore n m.slot (udpPayloadOff + x) (Mem.be16 v)

/-- `dante_msg_finish`. -/
def danteMsgFinish (n : Net) (m : DanteMsg) (opcode2 : Nat) : Net × Nat :=
  (danteMsgPatchU16 (danteMsgPatchU16 n m 2 m.len) m 8 opcode2, m.len)

/-- Finishing writes to no slot but the message's own. -/
theorem slots_danteMsgFinish_of_ne {s : Fin 2} (n : Net) {m : DanteMsg} (code : Nat)
    (h : s ≠ m.slot) : (danteMsgFinish n m code).1.slots s = n.slots s := by
  rw [danteMsgFinish, danteMsgPatchU16, slots_slotStore_of_ne h, danteMsgPatchU16,
    slots_slotStore_of_ne h]

/-! ## A response as a value -/

/-- The response to a request: its result code and its content. -/
structure Reply where
  code : Nat
  content : List UInt8
  deriving DecidableEq

namespace Reply

def totalLength (r : Reply) : Nat := danteHdrLen + r.content.length

/-- Start code, total length, sequence number, opcode, result code, content. -/
def bytes (r : Reply) (req : Mem) : List UInt8 :=
  Mem.slice req 0 2 ++ Mem.be16 r.totalLength ++ Mem.slice req 4 2 ++ Mem.slice req 6 2 ++
    Mem.be16 r.code ++ r.content

theorem length_bytes (r : Reply) (req : Mem) : (r.bytes req).length = r.totalLength := by
  simp only [bytes, List.length_append, Mem.length_slice, length_be16, totalLength]

end Reply

/-! ## The message buffer holds the response -/

/-- `content` has been appended to a response begun for `req`. -/
structure Building (n : Net) (m : DanteMsg) (req : Mem) (content : List UInt8) : Prop where
  len : m.len = danteHdrLen + content.length
  slot : ∃ base, n.slots m.slot = Mem.store base udpPayloadOff (danteHeader req ++ content)

namespace Building

variable {n : Net} {m : DanteMsg} {req : Mem} {content : List UInt8}

theorem begin (n : Net) (req : Mem) :
    Building (danteMsgBegin n req).1 (danteMsgBegin n req).2 req [] where
  len := rfl
  slot := ⟨n.slots n.txslot, by
    rw [List.append_nil]
    exact slots_slotStore_self n n.txslot udpPayloadOff (danteHeader req)⟩

theorem append (h : Building n m req content) (bs : List UInt8) :
    Building (danteMsgBytes n m bs).1 (danteMsgBytes n m bs).2 req (content ++ bs) where
  len := by
    show m.len + bs.length = _
    rw [h.len, List.length_append, Nat.add_assoc]
  slot := by
    obtain ⟨base, hbase⟩ := h.slot
    have hlen : udpPayloadOff + m.len = udpPayloadOff + (danteHeader req ++ content).length := by
      rw [h.len, List.length_append]
      rfl
    refine ⟨base, ?_⟩
    show (slotStore n m.slot (udpPayloadOff + m.len) bs).slots m.slot = _
    rw [slots_slotStore_self, hbase, hlen, Mem.store_append, List.append_assoc]

/-- Finishing patches the length and the result code into the header. -/
theorem finish (h : Building n m req content) (code : Nat) :
    (danteMsgFinish n m code).2 = (Reply.mk code content).totalLength ∧
      Mem.slice ((danteMsgFinish n m code).1.slots m.slot) udpPayloadOff m.len =
        (Reply.mk code content).bytes req := by
  obtain ⟨base, hbase⟩ := h.slot
  have hsplit : danteHeader req ++ content =
      [req 0, req 1] ++ [0, 0] ++ ([req 4, req 5, req 6, req 7, 0, 0] ++ content) := rfl
  have hpatch : ∀ len : List UInt8,
      [req 0, req 1] ++ len ++ ([req 4, req 5, req 6, req 7, 0, 0] ++ content) =
        ([req 0, req 1] ++ len ++ [req 4, req 5, req 6, req 7]) ++ [0, 0] ++ content := by
    intro len
    simp only [List.append_assoc, List.cons_append, List.nil_append]
  have hslot : (danteMsgFinish n m code).1.slots m.slot =
      Mem.store base udpPayloadOff ((Reply.mk code content).bytes req) := by
    show (danteMsgPatchU16 (danteMsgPatchU16 n m 2 m.len) m 8 code).slots m.slot = _
    rw [danteMsgPatchU16, slots_slotStore_self, danteMsgPatchU16, slots_slotStore_self, hbase,
      hsplit]
    rw [show udpPayloadOff + 2 = udpPayloadOff + [req 0, req 1].length from rfl,
      Mem.store_patch _ _ _ _ (by rfl), hpatch]
    rw [show udpPayloadOff + 8 = udpPayloadOff +
        ([req 0, req 1] ++ Mem.be16 m.len ++ [req 4, req 5, req 6, req 7]).length from rfl,
      Mem.store_patch _ _ _ _ (by rfl), h.len]
    rfl
  refine ⟨h.len, ?_⟩
  have hlen : m.len = ((Reply.mk code content).bytes req).length := by
    rw [h.len, Reply.length_bytes]
    rfl
  rw [hslot, hlen, Mem.slice_store_same]

end Building

end Firmware
end InfernoFpga
