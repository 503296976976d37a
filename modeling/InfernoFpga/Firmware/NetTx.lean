import InfernoFpga.Firmware.Net

/-!
# NetTx — what a committed datagram is on the wire

`net_udp_commit` writes 42 bytes of headers in front of a payload that already lies in the slot
and sends the slot.  The datagram a receiver reads from the frame is the slot's payload.
-/

namespace InfernoFpga
namespace Firmware

open Lib

/-! ## Reading a frame back -/

/-- The UDP length field of a frame without IP options. -/
def udpLength (bytes : List UInt8) : Nat :=
  (bytes.getD 38 0).toNat * 256 + (bytes.getD 39 0).toNat

/-- The UDP payload of a frame without IP options. -/
def udpPayload (bytes : List UInt8) : List UInt8 :=
  (bytes.drop udpPayloadOff).take (udpLength bytes - udpHdrLen)

theorem length_be16 (v : Nat) : (Mem.be16 v).length = 2 := rfl

theorem length_ipHeader (tos : UInt8) (totalLen ident : Nat) (ttl proto : UInt8) (src dst : Ip) :
    (ipHeader tos totalLen ident ttl proto src dst).length = 20 := rfl

/-- A 16-bit field is read back as it was written. -/
theorem be16_read {v : Nat} (h : v < 2 ^ 16) :
    ((Mem.be16 v).getD 0 0).toNat * 256 + ((Mem.be16 v).getD 1 0).toNat = v := by
  have hhi : (UInt8.ofNat (v / 256)).toNat = v / 256 % 256 := UInt8.toNat_ofNat'
  have hlo : (UInt8.ofNat v).toNat = v % 256 := UInt8.toNat_ofNat'
  show (UInt8.ofNat (v / 256)).toNat * 256 + (UInt8.ofNat v).toNat = v
  rw [hhi, hlo]
  omega

/-! ## The headers of a commit -/

section Headers

variable (n : Net) (dmac : Mac) (dst : Ip) (dport sport len : Nat) (tos : UInt8)

/-- The bytes in front of the UDP length field. -/
theorem udpHeaders_split : ∃ front, front.length = 38 ∧
    udpHeaders n dmac dst dport sport len tos =
      front ++ (Mem.be16 (udpHdrLen + len) ++ Mem.be16 0) := by
  refine ⟨_, ?_, List.append_assoc ..⟩
  simp only [List.length_append, length_be16, length_ipHeader]
  rfl

theorem length_udpHeaders :
    (udpHeaders n dmac dst dport sport len tos).length = udpPayloadOff := by
  obtain ⟨front, hfront, heq⟩ := udpHeaders_split n dmac dst dport sport len tos
  simp only [heq, List.length_append, hfront, length_be16]
  rfl

/-- The length field counts the header and the payload. -/
theorem udpLength_udpHeaders_append (rest : List UInt8) (h : udpHdrLen + len < 2 ^ 16) :
    udpLength (udpHeaders n dmac dst dport sport len tos ++ rest) = udpHdrLen + len := by
  obtain ⟨front, hfront, heq⟩ := udpHeaders_split n dmac dst dport sport len tos
  have hfield : ∀ k < 2, (front ++ (Mem.be16 (udpHdrLen + len) ++ Mem.be16 0) ++ rest).getD
      (38 + k) 0 = (Mem.be16 (udpHdrLen + len)).getD k 0 := by
    intro k hk
    rw [List.append_assoc, List.append_assoc, List.getD_append_right _ _ _ _ (by omega), hfront,
      Nat.add_sub_cancel_left, List.getD_append _ _ _ _ (by rw [length_be16]; exact hk)]
  rw [heq, udpLength, hfield 0 (by decide), hfield 1 (by decide)]
  exact be16_read h

/-- What follows the headers is the payload. -/
theorem udpPayload_udpHeaders_append (body pad : List UInt8) (hlen : body.length = len)
    (h : udpHdrLen + len < 2 ^ 16) :
    udpPayload (udpHeaders n dmac dst dport sport len tos ++ (body ++ pad)) = body := by
  rw [udpPayload, udpLength_udpHeaders_append _ _ _ _ _ _ _ _ h,
    ← length_udpHeaders n dmac dst dport sport len tos, List.drop_left,
    Nat.add_sub_cancel_left, ← hlen, List.take_left]

end Headers

/-! ## Slots -/

section Slots

variable (n : Net)

@[simp] theorem txslot_slotStore (s : Fin 2) (a : Nat) (bs : List UInt8) :
    (slotStore n s a bs).txslot = n.txslot := rfl

@[simp] theorem sent_slotStore (s : Fin 2) (a : Nat) (bs : List UInt8) :
    (slotStore n s a bs).sent = n.sent := rfl

@[simp] theorem slots_slotStore_self (s : Fin 2) (a : Nat) (bs : List UInt8) :
    (slotStore n s a bs).slots s = Mem.store (n.slots s) a bs :=
  Function.update_self ..

theorem slots_slotStore_of_ne {n : Net} {s s' : Fin 2} {a : Nat} {bs : List UInt8} (h : s' ≠ s) :
    (slotStore n s a bs).slots s' = n.slots s' :=
  Function.update_of_ne h ..

/-- There are two slots, and a frame moves on to the other one. -/
theorem slot_succ_ne (s : Fin 2) : s + 1 ≠ s := by
  revert s
  decide

/-- Writing to a slot resolves no address. -/
@[simp] theorem arpResolve_slotStore (s : Fin 2) (a : Nat) (bs : List UInt8) (ip : Ip) :
    arpResolve (slotStore n s a bs) ip = arpResolve n ip := rfl

end Slots

/-! ## Looking an address up -/

section Lookup

variable {n : Net} {ip : Ip}

theorem netArpLookup_hit {mac : Mac} (h : arpResolve n ip = some mac) :
    netArpLookup n ip = (n, some mac) := by
  simp only [netArpLookup, h]

theorem netArpLookup_miss_result (h : arpResolve n ip = none) : (netArpLookup n ip).2 = none := by
  simp only [netArpLookup, h]

/-- A miss transmits a request, which moves on to the other slot. -/
theorem netArpLookup_miss_txslot (h : arpResolve n ip = none) :
    (netArpLookup n ip).1.txslot = n.txslot + 1 := by
  simp only [netArpLookup, h]
  rfl

/-- A lookup writes to no slot but the current one. -/
theorem slots_netArpLookup {s : Fin 2} (h : s ≠ n.txslot) :
    (netArpLookup n ip).1.slots s = n.slots s := by
  cases hres : arpResolve n ip with
  | some mac => rw [netArpLookup_hit hres]
  | none =>
      simp only [netArpLookup, hres]
      exact slots_slotStore_of_ne h

/-- A lookup teaches the cache nothing. -/
theorem arpResolve_netArpLookup (n : Net) (ip x : Ip) :
    arpResolve (netArpLookup n ip).1 x = arpResolve n x := by
  cases h : arpResolve n ip with
  | some mac => rw [netArpLookup_hit h]
  | none =>
      simp only [netArpLookup, h]
      rfl

/-- A lookup only adds frames to the wire. -/
theorem sent_netArpLookup (n : Net) (ip : Ip) :
    ∃ frames, (netArpLookup n ip).1.sent = n.sent ++ frames := by
  cases h : arpResolve n ip with
  | some mac =>
      rw [netArpLookup_hit h]
      exact ⟨[], (List.append_nil _).symm⟩
  | none =>
      simp only [netArpLookup, h]
      exact ⟨_, rfl⟩

end Lookup

/-! ## Committing -/

section Commit

variable {n : Net} {dst : Ip} {dport sport len : Nat} {tos : UInt8}

/-- The frame of a commit: the headers, the payload from the slot, and the padding. -/
def commitFrame (n : Net) (dmac : Mac) (dst : Ip) (dport sport len : Nat) (tos : UInt8) :
    List UInt8 :=
  let head := udpHeaders n dmac dst dport sport len tos
  Mem.slice (Mem.store (txBuf n) 0 head) 0
    (if udpPayloadOff + len < 60 then 60 else udpPayloadOff + len)

/-- A commit to a resolved address sends the current slot. -/
theorem netUdpCommit_hit {dmac : Mac} (dport sport : Nat) (tos : UInt8) (hlen : len ≤ netMaxPayload)
    (h : arpResolve n dst = some dmac) :
    (netUdpCommit n dst dport sport len tos).2 = true ∧
      (netUdpCommit n dst dport sport len tos).1.sent =
        n.sent ++ [⟨n.txslot, commitFrame n dmac dst dport sport len tos⟩] := by
  have hfit : ¬ netMaxPayload < len := by omega
  simp only [netUdpCommit, hfit, if_false, netArpLookup_hit h, true_and]
  simp only [ethSend, txStore, slotStore, txBuf, commitFrame, Function.update_self]

theorem netUdpCommit_miss (h : arpResolve n dst = none) :
    (netUdpCommit n dst dport sport len tos).2 = false := by
  rw [netUdpCommit]
  split
  · rfl
  · have hnone := netArpLookup_miss_result h
    split
    · rfl
    · rename_i heq
      rw [heq] at hnone
      cases hnone

/-- A commit only adds frames to the wire. -/
theorem sent_netUdpCommit (n : Net) (dst : Ip) (dport sport len : Nat) (tos : UInt8) :
    ∃ frames, (netUdpCommit n dst dport sport len tos).1.sent = n.sent ++ frames := by
  obtain ⟨frames, hframes⟩ := sent_netArpLookup n dst
  rw [netUdpCommit]
  split
  · exact ⟨[], (List.append_nil _).symm⟩
  · split
    · rename_i heq
      rw [heq] at hframes
      exact ⟨frames, hframes⟩
    · rename_i heq
      rw [heq] at hframes
      refine ⟨frames ++ ?frame, ?_⟩
      rotate_left
      · rw [← List.append_assoc, ← hframes]
        rfl

/-- The frame of a commit: the headers, the payload and whatever pads the frame to its minimum. -/
theorem commitFrame_eq (n : Net) (dmac : Mac) (dst : Ip) (dport sport len : Nat) (tos : UInt8) :
    ∃ pad, udpPayloadOff + (len + pad.length) = max 60 (udpPayloadOff + len) ∧
      commitFrame n dmac dst dport sport len tos =
        udpHeaders n dmac dst dport sport len tos ++
          (Mem.slice (txBuf n) udpPayloadOff len ++ pad) := by
  obtain ⟨k, hk⟩ : ∃ k, (if udpPayloadOff + len < 60 then 60 else udpPayloadOff + len) =
      udpPayloadOff + (len + k) := by
    split
    · exact ⟨60 - (udpPayloadOff + len), by omega⟩
    · exact ⟨0, by omega⟩
  have hhead := length_udpHeaders n dmac dst dport sport len tos
  refine ⟨Mem.slice (txBuf n) (udpPayloadOff + len) k, ?_, ?_⟩
  · rw [Mem.length_slice, ← hk]
    split <;> omega
  · have hfront : Mem.slice (Mem.store (txBuf n) 0 (udpHeaders n dmac dst dport sport len tos)) 0
        udpPayloadOff = udpHeaders n dmac dst dport sport len tos := by
      rw [← hhead, Mem.slice_store_same]
    have hbody : Mem.slice (Mem.store (txBuf n) 0 (udpHeaders n dmac dst dport sport len tos))
        udpPayloadOff (len + k) =
          Mem.slice (txBuf n) udpPayloadOff len ++
            Mem.slice (txBuf n) (udpPayloadOff + len) k := by
      rw [Mem.slice_store_disjoint (Or.inr (by omega)), Mem.slice_append]
    rw [commitFrame, hk]
    calc Mem.slice (Mem.store (txBuf n) 0 (udpHeaders n dmac dst dport sport len tos)) 0
          (udpPayloadOff + (len + k))
        = _ ++ Mem.slice (Mem.store (txBuf n) 0 (udpHeaders n dmac dst dport sport len tos))
            udpPayloadOff (len + k) := by rw [Mem.slice_append, Nat.zero_add]
      _ = _ := by rw [hfront, hbody]

/-- The receiver reads the payload that lay in the slot. -/
theorem udpPayload_commitFrame (n : Net) (dmac : Mac) (dst : Ip) (dport sport : Nat)
    (tos : UInt8) (hlen : len ≤ netMaxPayload) :
    udpPayload (commitFrame n dmac dst dport sport len tos) =
      Mem.slice (txBuf n) udpPayloadOff len := by
  obtain ⟨pad, -, hframe⟩ := commitFrame_eq n dmac dst dport sport len tos
  rw [hframe]
  exact udpPayload_udpHeaders_append _ _ _ _ _ _ _ _ _ (Mem.length_slice _ _ _) (by
    simp only [netMaxPayload, udpHdrLen] at *
    omega)

end Commit

end Firmware
end InfernoFpga
