import Mathlib.Algebra.GroupWithZero.Nat

/-!
# Geometry — constants and per-flow shape of the Dante packetizer

The constants are those of the instance `avb_soc.py` builds: `DantePacketizer(channels=8,
samples_per_packet=16, streams=6, fifo_depth=256)`, with the six flow contexts of the default
`n_ctx`.  A context's shape is decoded from its latched `flow_cfg` byte: `[3:0]` is the slot
count and `[6:4]` an index into `FPP_TABLE`.
-/

namespace InfernoFpga
namespace Packetizer

abbrev Word := BitVec 32
abbrev Byte := BitVec 8

/-- Index of a flow context. -/
abbrev CtxId := Fin 6

instance CtxId.neZero : NeZero 6 := ⟨by decide⟩

/-! ## Constants -/

abbrev channels : Nat := 8
abbrev samplesPerPacket : Nat := 16
abbrev streams : Nat := 6

/-- `FRAME_SAMPLES`: ring entries of one 16-sample packet, the un-prime floor. -/
abbrev frameSamples : Nat := channels * samplesPerPacket

/-- `SRING_DEPTH`: the next power of two above `fifo_depth * channels`. -/
abbrev sringDepth : Nat := 2048

/-- `_center`: half the ring, the prime threshold. -/
abbrev center : Nat := sringDepth / 2

/-- `HDR_LEN`: Ethernet, IPv4, UDP and Dante headers. -/
abbrev hdrLen : Nat := 51

/-- `SUBSEC_MAX`: samples in a second. -/
abbrev subsecMax : Nat := 48000

/-- `FPP_TABLE`. -/
def fppTable (idx : Nat) : Nat :=
  match idx with
  | 0 => 8
  | 1 => 16
  | 2 => 24
  | 3 => 32
  | 4 => 60
  | 5 => 4
  | 6 => 2
  | _ => 48

/-! ## Shape of a flow, from its `flow_cfg` byte -/

/-- `cfg[0:4]`, the slot count. -/
def nslots (cfg : Byte) : Nat := cfg.toNat % 16

/-- `cfg[4:7]`. -/
def fppIdx (cfg : Byte) : Nat := cfg.toNat / 16 % 8

/-- Samples per packet of this flow. -/
def fpp (cfg : Byte) : Nat := fppTable (fppIdx cfg)

/-- `ns3`, a 6-bit signal. -/
def ns3 (cfg : Byte) : Nat := (nslots cfg + 2 * nslots cfg) % 2 ^ 6

/-- `pay_len`, the 11-bit shift-and-add form of `nslots * 3 * fpp`. -/
def payLen (cfg : Byte) : Nat :=
  let n := ns3 cfg
  let v := match fppIdx cfg with
    | 0 => n <<< 3
    | 1 => n <<< 4
    | 2 => (n <<< 4) + (n <<< 3)
    | 3 => n <<< 5
    | 4 => (n <<< 6) - (n <<< 2)
    | 5 => n <<< 2
    | 6 => n <<< 1
    | _ => (n <<< 5) + (n <<< 4)
  v % 2 ^ 11

/-- `f_total`: bytes of the frame, an 11-bit signal. -/
def fTotal (cfg : Byte) : Nat := (hdrLen + payLen cfg) % 2 ^ 11

/-- `f_last_idx`: index of the last 32-bit word of the frame, a 9-bit signal. -/
def fLastIdx (cfg : Byte) : Nat := (12 + payLen cfg / 4) % 2 ^ 9

/-- `f_ip_len` and `f_udp_len`. -/
def fIpLen (cfg : Byte) : BitVec 16 := BitVec.ofNat 16 (37 + payLen cfg)
def fUdpLen (cfg : Byte) : BitVec 16 := BitVec.ofNat 16 (17 + payLen cfg)

/-! ## Facts about shapes -/

theorem fpp_pos (cfg : Byte) : 2 ≤ fpp cfg := by
  unfold fpp fppTable
  split <;> omega

theorem fpp_le (cfg : Byte) : fpp cfg ≤ 60 := by
  unfold fpp fppTable
  split <;> omega

/-- Every supported `fpp` divides a second, so the pacing phase survives the `ts_sub` wrap. -/
theorem fpp_dvd_subsecMax (cfg : Byte) : fpp cfg ∣ subsecMax := by
  unfold fpp fppTable
  split <;> decide

theorem fpp_even (cfg : Byte) : 2 ∣ fpp cfg := by
  unfold fpp fppTable
  split <;> decide

/-- The multiplier-free payload length is the product, for every shape of at most 8 slots. -/
theorem payLen_eq {cfg : Byte} (h : nslots cfg ≤ 8) :
    payLen cfg = 3 * (nslots cfg * fpp cfg) := by
  revert cfg
  decide

theorem fTotal_eq {cfg : Byte} (h : nslots cfg ≤ 8) :
    fTotal cfg = hdrLen + 3 * (nslots cfg * fpp cfg) := by
  revert cfg
  decide

theorem fLastIdx_eq {cfg : Byte} (h : nslots cfg ≤ 8) :
    fLastIdx cfg = 12 + 3 * (nslots cfg * fpp cfg) / 4 := by
  revert cfg
  decide

/-- The frame, header included, never exceeds 1491 bytes. -/
theorem fTotal_le {cfg : Byte} (h : nslots cfg ≤ 8) : fTotal cfg ≤ 1491 := by
  revert cfg
  decide

end Packetizer
end InfernoFpga
