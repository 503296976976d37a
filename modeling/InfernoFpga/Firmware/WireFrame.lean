import InfernoFpga.Firmware.FlowRefine
import InfernoFpga.Firmware.Seeding
import InfernoFpga.Packetizer.Emission

/-!
# WireFrame — is a frame well formed on the wire?

A frame that the packetizer emits is judged as a receiver sees it: cut off the stream by `last`,
its bytes taken as `last_be` says, its two length fields and the header checksum that the firmware
computed for it.  Everything is as it should be but the last word, which is written as if two bytes
were left for it where three are: the frame is well formed exactly when the two bytes that suffer
are zero anyway.
-/

namespace InfernoFpga
namespace Firmware

open Lib
open Packetizer

/-! ## The header checksum -/

/-- The big-endian half word at `k`. -/
def halfAt (bytes : List Byte) (k : Nat) : Nat :=
  (bytes.getD k 0).toNat * 256 + (bytes.getD (k + 1) 0).toNat

/-- The sum of the ten half words of the IPv4 header. -/
def headerSum (bytes : List Byte) : Nat :=
  ((List.range 10).map fun k => halfAt bytes (14 + 2 * k)).sum

/-- The context holds a binding as `write_ctx` leaves it, and the shared registers are those that
`dante_tx_init` wrote. -/
def HeaderWritten (l : Latched) (csr : Csr) : Prop :=
  ∃ (netIp dst : Ip) (dmac : Mac) (dport : BitVec 16) (chans : Fin 8 → BitVec 16)
    (n : SlotCount) (size : Fpp), l = binding netIp dst dmac dport chans n size ∧
      csr.srcIp = netIp.word ∧ csr.ipTos = BitVec.ofNat 8 danteTxIpTos ∧
        csr.ipTtl = BitVec.ofNat 8 danteTxIpTtl

section Checksum

theorem carry_eq (sum : Nat) : carry sum = sum % 65536 + sum / 65536 := by
  rw [carry]
  split <;> omega

/-- A checksum added to the sum it complements gives all ones. -/
theorem carry_complement {sum : Nat} (h : sum < 2 ^ 31) :
    carry (carry (sum + (65535 - carry (carry sum)))) = 65535 := by
  have hle : carry (carry sum) < 2 ^ 16 := carry_carry_lt (by omega)
  have hfold : ∃ k, sum = 65535 * k + carry (carry sum) := by
    refine ⟨sum / 65536 + carry sum / 65536, ?_⟩
    have hinner := carry_eq sum
    have houter := carry_eq (carry sum)
    omega
  obtain ⟨k, hk⟩ := hfold
  have htotal : sum + (65535 - carry (carry sum)) = 65535 * (k + 1) := by omega
  rw [htotal, carry_eq, carry_eq]
  omega

theorem byteAt_halves (x : BitVec 16) :
    (byteAt x 1).toNat * 256 + (byteAt x 0).toNat = x.toNat := by
  have hlt := x.isLt
  simp only [byteAt, BitVec.extractLsb'_toNat, Nat.shiftRight_eq_div_pow]
  omega

theorem byteAt_ip (ip : Ip) :
    byteAt ip.word 3 = ip.a.toBitVec ∧ byteAt ip.word 2 = ip.b.toBitVec ∧
      byteAt ip.word 1 = ip.c.toBitVec ∧ byteAt ip.word 0 = ip.d.toBitVec := by
  obtain ⟨h₀, h₁, h₂, h₃⟩ := byteAt_append ip.a.toBitVec ip.b.toBitVec ip.c.toBitVec ip.d.toBitVec
  exact ⟨h₃, h₂, h₁, h₀⟩

theorem toNat_ip (ip : Ip) :
    (byteAt ip.word 3).toNat = ip.a.toNat ∧ (byteAt ip.word 2).toNat = ip.b.toNat ∧
      (byteAt ip.word 1).toNat = ip.c.toNat ∧ (byteAt ip.word 0).toNat = ip.d.toNat := by
  obtain ⟨h₃, h₂, h₁, h₀⟩ := byteAt_ip ip
  rw [h₃, h₂, h₁, h₀]
  exact ⟨rfl, rfl, rfl, rfl⟩

/-- The sum of the IPv4 header of a flow's packet, its checksum field left out. -/
def bareSum (src dst : Ip) (total : Nat) : Nat :=
  0x45B8 + total + 273 + (src.a.toNat * 256 + src.b.toNat) + (src.c.toNat * 256 + src.d.toNat) +
    (dst.a.toNat * 256 + dst.b.toNat) + (dst.c.toNat * 256 + dst.d.toNat)

theorem bareSum_lt (src dst : Ip) {total : Nat} (h : total < 2 ^ 16) :
    bareSum src dst total < 2 ^ 31 := by
  have h₁ := src.a.toNat_lt
  have h₂ := src.b.toNat_lt
  have h₃ := src.c.toNat_lt
  have h₄ := src.d.toNat_lt
  have h₅ := dst.a.toNat_lt
  have h₆ := dst.b.toNat_lt
  have h₇ := dst.c.toNat_lt
  have h₈ := dst.d.toNat_lt
  rw [bareSum]
  omega

theorem checksum_toNat (src dst : Ip) {total : Nat} (h : total < 2 ^ 16) :
    (ipHeaderChecksum src dst total danteTxIpTos danteTxIpTtl).toNat =
      65535 - carry (carry (bareSum src dst total)) := by
  have hcarry : carry (carry (bareSum src dst total)) < 2 ^ 16 :=
    carry_carry_lt ((bareSum_lt src dst h).trans (by decide))
  have hword : ipHeaderChecksum src dst total danteTxIpTos danteTxIpTtl =
      ~~~ BitVec.ofNat 16 (carry (carry (bareSum src dst total))) := rfl
  rw [hword, BitVec.toNat_not, BitVec.toNat_ofNat, Nat.mod_eq_of_lt hcarry]

/-- What the ten half words hold. -/
theorem headerSum_eq (c : Ctx) (csr : Csr) (rest : List Byte) :
    headerSum (headerFront c csr ++ rest) =
      0x4500 + csr.ipTos.toNat + (fIpLen c.cfg).toNat + (csr.ipTtl.toNat * 256 + 17) +
        c.csum.toNat + ((byteAt csr.srcIp 3).toNat * 256 + (byteAt csr.srcIp 2).toNat) +
        ((byteAt csr.srcIp 1).toNat * 256 + (byteAt csr.srcIp 0).toNat) +
        ((byteAt c.dip 3).toNat * 256 + (byteAt c.dip 2).toNat) +
        ((byteAt c.dip 1).toNat * 256 + (byteAt c.dip 0).toNat) := by
  have hlen := byteAt_halves (fIpLen c.cfg)
  have hcsum := byteAt_halves c.csum
  have h₀ : halfAt (headerFront c csr ++ rest) 14 =
      (0x45 : Byte).toNat * 256 + csr.ipTos.toNat := rfl
  have h₁ : halfAt (headerFront c csr ++ rest) 16 = (fIpLen c.cfg).toNat := hlen
  have h₂ : halfAt (headerFront c csr ++ rest) 18 =
      (0 : Byte).toNat * 256 + (0 : Byte).toNat := rfl
  have h₃ : halfAt (headerFront c csr ++ rest) 20 =
      (0 : Byte).toNat * 256 + (0 : Byte).toNat := rfl
  have h₄ : halfAt (headerFront c csr ++ rest) 22 =
      csr.ipTtl.toNat * 256 + (17 : Byte).toNat := rfl
  have h₅ : halfAt (headerFront c csr ++ rest) 24 = c.csum.toNat := hcsum
  have h₆ : halfAt (headerFront c csr ++ rest) 26 =
      (byteAt csr.srcIp 3).toNat * 256 + (byteAt csr.srcIp 2).toNat := rfl
  have h₇ : halfAt (headerFront c csr ++ rest) 28 =
      (byteAt csr.srcIp 1).toNat * 256 + (byteAt csr.srcIp 0).toNat := rfl
  have h₈ : halfAt (headerFront c csr ++ rest) 30 =
      (byteAt c.dip 3).toNat * 256 + (byteAt c.dip 2).toNat := rfl
  have h₉ : halfAt (headerFront c csr ++ rest) 32 =
      (byteAt c.dip 1).toNat * 256 + (byteAt c.dip 0).toNat := rfl
  have hzero : (0 : Byte).toNat = 0 := by decide
  have hversion : (0x45 : Byte).toNat = 0x45 := by decide
  have hproto : (17 : Byte).toNat = 17 := by decide
  have hrange : List.range 10 = [0, 1, 2, 3, 4, 5, 6, 7, 8, 9] := rfl
  simp only [headerSum, hrange, List.map_cons, List.map_nil, List.sum_cons, List.sum_nil,
    Nat.mul_zero, Nat.add_zero, Nat.reduceMul, Nat.reduceAdd, h₀, h₁, h₂, h₃, h₄, h₅, h₆, h₇, h₈, h₉,
    hzero, hversion, hproto]
  omega

/-- The IP length of a flow's packet, as the circuit has it and as the firmware sums it. -/
theorem fIpLen_flowCfg (n : SlotCount) (size : Fpp) :
    (fIpLen (flowCfg n size)).toNat = ipTotal n size := by
  have hn : nslots (flowCfg n size) = n := nslots_flowCfg n size
  have hle : nslots (flowCfg n size) ≤ 8 := hn.trans_le n.2.2
  have hpay := payLen_eq hle
  rw [fpp_flowCfg, hn] at hpay
  have hfpp := fpp_le (flowCfg n size)
  rw [fpp_flowCfg] at hfpp
  have hsmall : (n : Nat) * size ≤ 8 * 60 := Nat.mul_le_mul n.2.2 hfpp
  have hbytes : bytesPerSamp = 3 := rfl
  rw [fIpLen, hpay, ipTotal, BitVec.toNat_ofNat, hbytes]
  omega

/-- The checksum that the firmware wrote verifies for the header that goes out. -/
theorem headerSum_written {c : Ctx} {csr : Csr} (rest : List Byte)
    (h : HeaderWritten (latched c) csr) :
    carry (carry (headerSum (headerFront c csr ++ rest))) = 0xFFFF := by
  obtain ⟨netIp, dst, dmac, dport, chans, n, size, hbind, hsrc, htos, httl⟩ := h
  have hdip : c.dip = dst.word := congrArg Latched.dip hbind
  have hcfg : c.cfg = flowCfg n size := congrArg Latched.cfg hbind
  have hcsum : c.csum = ipHeaderChecksum netIp dst (ipTotal n size) danteTxIpTos danteTxIpTtl :=
    congrArg Latched.csum hbind
  have htotal : ipTotal n size < 2 ^ 16 := Nat.mod_lt _ (by decide)
  have hsum := checksum_toNat netIp dst htotal
  have hlt := bareSum_lt netIp dst htotal
  obtain ⟨hs₃, hs₂, hs₁, hs₀⟩ := toNat_ip netIp
  obtain ⟨hd₃, hd₂, hd₁, hd₀⟩ := toNat_ip dst
  have htos' : csr.ipTos.toNat = 0xB8 := by
    rw [htos]
    rfl
  have httl' : csr.ipTtl.toNat = 1 := by
    rw [httl]
    rfl
  rw [headerSum_eq, htos', httl', hsrc, hdip, hcfg, hcsum, fIpLen_flowCfg, hsum, hs₃, hs₂, hs₁, hs₀,
    hd₃, hd₂, hd₁, hd₀]
  refine (congrArg carry (congrArg carry ?_)).trans (carry_complement hlt)
  simp only [bareSum]
  omega

end Checksum

/-! ## Well-formed frames -/

/-- A frame as its receiver wants it.  `s` is the state it began in, `σ t` the one `t` cycles later
and `csr` the registers that all flows share. -/
structure WellFormed (s : State) (σ : Nat → State) (csr : Csr) (wire : List Beat) : Prop where
  one : cut Beat.last wire = [wire]
  ended : ∃ b, wire.getLast? = some b ∧ b.last = true
  length : (frameBytes wire).length = 51 + nslots (cfgNow s) * fpp (cfgNow s) * 3
  bytes : frameBytes wire = refFrame s σ csr
  ipLen : halfAt (frameBytes wire) 16 + 14 = (frameBytes wire).length
  udpLen : halfAt (frameBytes wire) 38 + 34 = (frameBytes wire).length
  checksum : HeaderWritten (latched (cur s)) csr →
    carry (carry (headerSum (frameBytes wire))) = 0xFFFF

/-- The last sample of a frame. -/
def lastSample (s : State) (σ : Nat → State) : Word :=
  refSample s σ (packetSamples (cfgNow s) - 1)

section Frames

variable {s : State} {σ : Nat → State} {csr : Csr} {build stall : List Input} {i : Input}

/-- The two length fields of the reference are those of a frame as long as it is. -/
theorem lengths_refFrame (hadm : Admissible s) :
    halfAt (refFrame s σ csr) 16 + 14 = (refFrame s σ csr).length ∧
      halfAt (refFrame s σ csr) 38 + 34 = (refFrame s σ csr).length := by
  have hpay : payLen (cfgNow s) = 3 * packetSamples (cfgNow s) := payLen_eq (hadm s.streamIdx)
  have hsmall : packetSamples (cfgNow s) ≤ 480 := packetSamples_le (hadm s.streamIdx)
  have hip : (fIpLen (cfgNow s)).toNat = 37 + 3 * packetSamples (cfgNow s) := by
    rw [fIpLen, hpay, BitVec.toNat_ofNat]
    omega
  have hudp : (fUdpLen (cfgNow s)).toNat = 17 + 3 * packetSamples (cfgNow s) := by
    rw [fUdpLen, hpay, BitVec.toNat_ofNat]
    omega
  have hlen := length_refFrame s σ csr
  obtain ⟨rest, hfront⟩ := refFrame_front s σ csr
  have h₁₆ : halfAt (headerFront (cur s) csr ++ rest) 16 = (fIpLen (cfgNow s)).toNat :=
    byteAt_halves (fIpLen (cfgNow s))
  have h₃₈ : halfAt (headerFront (cur s) csr ++ rest) 38 = (fUdpLen (cfgNow s)).toNat :=
    byteAt_halves (fUdpLen (cfgNow s))
  rw [← hfront] at h₁₆ h₃₈
  omega

/-- A frame that carries the bytes of the reference is well formed in every other respect. -/
theorem wellFormed_of_bytes {last : Nat} (hadm : Admissible s)
    (h : frameBytes (sentWords (refFrame s σ csr) last) = refFrame s σ csr) :
    WellFormed s σ csr (sentWords (refFrame s σ csr) last) := by
  obtain ⟨hip, hudp⟩ := @lengths_refFrame s σ csr hadm
  refine ⟨cut_sentWords _ _, ⟨_, List.getLast?_concat, rfl⟩, ?_, h, ?_, ?_, fun hwritten => ?_⟩
  · rw [h, length_refFrame, packetSamples, Nat.mul_comm 3]
  · rw [h]
    exact hip
  · rw [h]
    exact hudp
  · obtain ⟨rest, hfront⟩ := refFrame_front s σ csr
    rw [h, hfront]
    exact headerSum_written rest hwritten

/-- A frame is well formed iff the bytes that its last word loses are zero. -/
theorem wellFormed_sent_iff (hadm : Admissible s) (hbound : nslots (cfgNow s) ≠ 0)
    (hfour : 4 ∣ nslots (cfgNow s) * fpp (cfgNow s) * 3) :
    WellFormed s σ csr (sentWords (refFrame s σ csr) (fLastIdx (cfgNow s))) ↔
      byteAt (lastSample s σ) 2 = 0 ∧ byteAt (lastSample s σ) 1 = 0 := by
  have hpos : 1 ≤ packetSamples (cfgNow s) := packetSamples_pos hbound
  have hsamples : nslots (cfgNow s) * fpp (cfgNow s) = packetSamples (cfgNow s) := rfl
  have hidx : fLastIdx (cfgNow s) = 12 + 3 * packetSamples (cfgNow s) / 4 :=
    fLastIdx_eq (hadm s.streamIdx)
  rw [hsamples] at hfour
  have hlen : (refFrame s σ csr).length = 4 * fLastIdx (cfgNow s) + 3 := by
    rw [length_refFrame]
    omega
  have hmid : (refFrame s σ csr).getD (4 * fLastIdx (cfgNow s) + 1) 0 =
      byteAt (lastSample s σ) 2 := by
    have hpos₁ : 4 * fLastIdx (cfgNow s) + 1 = 51 + (3 * (packetSamples (cfgNow s) - 1) + 1) := by
      omega
    rw [hpos₁, getD_refFrame s σ csr (by omega), Nat.mul_add_div (by decide), Nat.mul_add_mod]
    rfl
  have hlow : (refFrame s σ csr).getD (4 * fLastIdx (cfgNow s) + 2) 0 =
      byteAt (lastSample s σ) 1 := by
    have hpos₂ : 4 * fLastIdx (cfgNow s) + 2 = 51 + (3 * (packetSamples (cfgNow s) - 1) + 2) := by
      omega
    rw [hpos₂, getD_refFrame s σ csr (by omega), Nat.mul_add_div (by decide), Nat.mul_add_mod]
    rfl
  rw [← hmid, ← hlow, ← frameBytes_eq_iff hlen]
  exact ⟨fun h => h.bytes, wellFormed_of_bytes hadm⟩

/-- The words of a frame, whatever the pattern of the MAC's ready signal. -/
theorem wellFormed_wire_iff {pre : List Input} (h : Begins (run step State.reset pre))
    (hfour : 4 ∣ nslots (cfgNow (run step State.reset pre)) *
      fpp (cfgNow (run step State.reset pre)) * 3)
    (hs : Stretch (run step State.reset pre) csr build stall i) :
    WellFormed (run step State.reset pre) (moment step (run step State.reset pre) build) csr
        (run tapStep (run step State.reset pre, Tap.empty) (build ++ stall ++ [i])).2.wire ↔
      byteAt (lastSample (run step State.reset pre)
          (moment step (run step State.reset pre) build)) 2 = 0 ∧
        byteAt (lastSample (run step State.reset pre)
          (moment step (run step State.reset pre) build)) 1 = 0 := by
  rw [wire_frame h (rewound_run pre) hs]
  exact wellFormed_sent_iff h.adm h.slots hfour

end Frames

/-! ## Emitted frames -/

/-- From any state that a run of the circuit reaches, with any shape, header, channel map and ring,
primed or not, and any pattern of the ready signal: the frame is well formed iff the middle and the
low byte sent of its last sample are zero.  When no context completes its group while it is built,
its header is that of the registers it began with and all its samples are of one window. -/
theorem emitted_wellFormed (pre : List Input) (csr : Csr) (build stall : List Input) (i : Input) :
    let s := run step State.reset pre
    let σ := moment step s build
    Begins s → 4 ∣ nslots (cfgNow s) * fpp (cfgNow s) * 3 → Stretch s csr build stall i →
      (WellFormed s σ csr (run tapStep (s, Tap.empty) (build ++ stall ++ [i])).2.wire ↔
        byteAt (lastSample s σ) 2 = 0 ∧ byteAt (lastSample s σ) 1 = 0) ∧
      ((∀ t < fTotal (cfgNow s), ∀ j, build[t]? = some j → dueStrobe (σ t) j = false) →
        refHeader s σ csr = header s { Input.quiet with csr := csr } ∧
          ∀ t ≤ fTotal (cfgNow s), (σ t).rdSnap = s.rdSnap) := by
  intro s σ h hfour hs
  exact ⟨wellFormed_wire_iff h hfour hs, steady_frame h (rewound_run pre) hs⟩

/-- Context 0 gets two slots of two samples, both on channel 0, and comes due at once. -/
def dueAtOnce : List Input := [Input.bind 0 0x62 1 0x8080 0, Input.tick, Input.quiet]

/-- A ring that is primed, each frame of it with one sample, before context 0 comes due. -/
def loudRing : List Input :=
  List.replicate 130 (Input.usb 0x40 0x12345678) ++ List.replicate 4 Input.tick ++ dueAtOnce

/-- The cycles of a frame of 63 bytes, to a MAC that is always ready. -/
theorem stretch_quiet {s : State} (htotal : fTotal (cfgNow s) = 63) (hlast : fLastIdx (cfgNow s) = 15) :
    Stretch s Input.quiet.csr (List.replicate 65 Input.quiet) (List.replicate 15 Input.quiet)
      Input.quiet where
  still := fun j hj => by
    rw [List.replicate_append_replicate] at hj
    rw [List.eq_of_mem_replicate hj]
    exact ⟨fun h => absurd h (by decide), fun h => absurd h (by decide), rfl, rfl, rfl, rfl, rfl⟩
  built := by rw [htotal, List.length_replicate]
  ready := by rw [hlast]; rfl
  done := rfl

theorem emitted_wellFormed_silent :
    let s := run step State.reset dueAtOnce
    WellFormed s (moment step s (List.replicate 65 Input.quiet)) Input.quiet.csr
      (run tapStep (s, Tap.empty) (List.replicate 65 Input.quiet ++ List.replicate 15 Input.quiet ++
        [Input.quiet])).2.wire :=
  ((emitted_wellFormed dueAtOnce Input.quiet.csr _ _ Input.quiet
      ⟨by decide +kernel, by decide +kernel, by decide +kernel, by decide +kernel⟩
      (by decide +kernel) (stretch_quiet (by decide +kernel) (by decide +kernel))).1).2
    (by decide +kernel)

/-- A frame whose last sample is not silent is not well formed. -/
theorem emitted_wellFormed_not :
    ¬ ∀ (pre : List Input) (csr : Csr) (build stall : List Input) (i : Input),
      let s := run step State.reset pre
      Begins s → 4 ∣ nslots (cfgNow s) * fpp (cfgNow s) * 3 → Stretch s csr build stall i →
        WellFormed s (moment step s build) csr
          (run tapStep (s, Tap.empty) (build ++ stall ++ [i])).2.wire := by
  intro hall
  have hbegins : Begins (run step State.reset loudRing) :=
    ⟨by decide +kernel, by decide +kernel, by decide +kernel, by decide +kernel⟩
  have hs := stretch_quiet (s := run step State.reset loudRing) (by decide +kernel)
    (by decide +kernel)
  have hframe := hall loudRing Input.quiet.csr _ _ Input.quiet hbegins (by decide +kernel) hs
  have hzero := ((wellFormed_wire_iff hbegins (by decide +kernel) hs).1 hframe).1
  exact absurd hzero (by decide +kernel)

end Firmware
end InfernoFpga
