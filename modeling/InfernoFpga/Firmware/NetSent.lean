import InfernoFpga.Firmware.NetRx
import InfernoFpga.Firmware.NetTx
import InfernoFpga.Lib.Checksum
import InfernoFpga.Lib.Run

/-!
# NetSent — what the stack emits

`net.c` emits ARP, and three kinds of IPv4 frames from three separate builders.  Each fills in a
header checksum over a header with its checksum field zero; the echo reply of `icmp_rx` fills in
a second one over a body of any length that lies in the slot at one offset and leaves from
another.  A frame is judged by what a receiver reads from it.
-/

namespace InfernoFpga
namespace Firmware

open Lib Lib.Checksum

/-! ## `net_checksum` is the ones'-complement checksum -/

/-- The summing loop adds the words as long as they fit its accumulator. -/
theorem sum16_eq : ∀ (data : List UInt8) {init : Nat}, init + wordSum data < 2 ^ 32 →
    sum16 data init = init + wordSum data
  | [], init, _ => (Nat.add_zero init).symm
  | [hi], init, h => by
      simp only [wordSum] at h
      simp only [sum16, wordSum]
      omega
  | hi :: lo :: rest, init, h => by
      rw [wordSum, ← Nat.add_assoc] at h
      have hfits := Nat.lt_of_le_of_lt (Nat.le_add_right _ (wordSum rest)) h
      rw [sum16, Nat.mod_eq_of_lt hfits, sum16_eq rest h, wordSum, Nat.add_assoc]

theorem endAround_carry (s : Nat) : endAround (carry s) = endAround s := by
  unfold carry
  split
  · rfl
  · rename_i hcarry
    have hpos : ¬ s % 65536 + s / 65536 = 0 := by omega
    have hs : ¬ s = 0 := by omega
    rw [endAround, endAround, if_neg hpos, if_neg hs]
    omega

/-- The carry loop ends with every carry brought around. -/
theorem carry_carry_eq {s : Nat} (h : s < 2 ^ 32) : carry (carry s) = endAround s := by
  have hlt := carry_carry_lt h
  calc carry (carry s)
      = endAround (carry (carry s)) := (endAround_of_le (by omega)).symm
    _ = endAround s := by rw [endAround_carry, endAround_carry]

/-- On data the accumulator has room for, `net_checksum` is the complement of the sum. -/
theorem netChecksum_eq {data : List UInt8} (h : data.length < 2 ^ 17) :
    netChecksum data 0 = 65535 - onesSum data := by
  have hle := wordSum_le data
  have hsum : sum16 data 0 = wordSum data := by
    rw [sum16_eq data (by omega), Nat.zero_add]
  rw [netChecksum, hsum, carry_carry_eq (by omega), onesSum_eq]

/-- A field filled in with `net_checksum` makes its block verify. -/
theorem verifies_netChecksum (front back : List UInt8)
    (heven : front.length % 2 = 0) (hlen : front.length + back.length + 2 < 2 ^ 17) :
    Verifies (front ++ Mem.be16 (netChecksum (front ++ Mem.be16 0 ++ back) 0) ++ back) := by
  rw [netChecksum_eq (by simp only [List.length_append, length_be16]; omega)]
  exact verifies_filled back heven

/-- The header of the UDP and ICMP builders. -/
theorem verifies_ipHeader (tos : UInt8) (totalLen ident : Nat) (ttl proto : UInt8)
    (src dst : Ip) : Verifies (ipHeader tos totalLen ident ttl proto src dst) := by
  have hfilled := verifies_netChecksum
    ([0x45, tos] ++ Mem.be16 totalLen ++ Mem.be16 ident ++ Mem.be16 0 ++ [ttl, proto])
    (src.bytes ++ dst.bytes) (by simp [length_be16]) (by simp [length_be16, Ip.bytes])
  simpa only [ipHeader, List.append_assoc] using hfilled

/-- The IP header of a membership report, with its Router Alert option. -/
def igmpHeader (n : Net) (group : Ip) : List UInt8 :=
  let ip := fun ck => [0x46, 0xC0] ++ Mem.be16 32 ++ Mem.be16 n.ipIdent.toNat ++ Mem.be16 0 ++
    [1, 2] ++ Mem.be16 ck ++ n.ip.bytes ++ group.bytes ++ Mem.be32 0x94040000
  ip (netChecksum (ip 0) 0)

theorem verifies_igmpHeader (n : Net) (group : Ip) : Verifies (igmpHeader n group) := by
  have hfilled := verifies_netChecksum
    ([0x46, 0xC0] ++ Mem.be16 32 ++ Mem.be16 n.ipIdent.toNat ++ Mem.be16 0 ++ [1, 2])
    (n.ip.bytes ++ group.bytes ++ Mem.be32 0x94040000)
    (by simp [length_be16]) (by simp [length_be16, Ip.bytes, Mem.be32])
  simpa only [igmpHeader, List.append_assoc] using hfilled

/-! ## Frames as a receiver reads them -/

/-- The bytes of a frame in a receive buffer. -/
def asReceived (bytes : List UInt8) : RxFrame where
  bytes := fun k => bytes.getD k 0
  len := bytes.length

theorem slice_asReceived (bytes : List UInt8) :
    Mem.slice (asReceived bytes).bytes 0 bytes.length = bytes := by
  apply List.ext_getElem
  · exact Mem.length_slice ..
  · intro k hk hk'
    rw [Mem.getElem_slice, Nat.zero_add]
    exact List.getD_eq_getElem _ _ hk'

/-- An IPv4 frame whose header, as long as it says it is, verifies. -/
structure Ipv4Sound (f : RxFrame) : Prop where
  etherType : f.etherType = ipv4Ethertype
  version : f.version = 4
  ihl : ipHdrLen ≤ f.ihl
  verifies : Verifies (Mem.slice f.bytes ethHdrLen f.ihl)

/-- The frames the stack may emit. -/
def Emittable (bytes : List UInt8) : Prop :=
  (asReceived bytes).etherType = arpEthertype ∨
    Ipv4Sound (asReceived bytes) ∧
      (asReceived bytes).proto ∈ [ipprotoIcmp, ipprotoIgmp, ipprotoUdp]

section Reading

variable {f : RxFrame} {n : Nat} {dmac smac : Mac} {hdr rest : List UInt8}

theorem Mac.length_bytes (m : Mac) : m.bytes.length = 6 := rfl

/-- The Ethernet header of a frame. -/
theorem etherType_of_slice {v : Nat} (hv : v < 2 ^ 16)
    (h : Mem.slice f.bytes 0 n = dmac.bytes ++ smac.bytes ++ Mem.be16 v ++ rest) :
    f.etherType = v := by
  have htype := Mem.slice_infix h
  rw [List.length_append, Mac.length_bytes, Mac.length_bytes, length_be16] at htype
  rw [RxFrame.etherType, Mem.rd16_of_be16 htype]
  exact Nat.mod_eq_of_lt hv

/-- The part of a frame behind the Ethernet header. -/
theorem slice_ip_of_slice {v : Nat}
    (h : Mem.slice f.bytes 0 n = dmac.bytes ++ smac.bytes ++ Mem.be16 v ++ (hdr ++ rest)) :
    Mem.slice f.bytes ethHdrLen hdr.length = hdr := by
  rw [← List.append_assoc] at h
  exact Mem.slice_infix h

/-- A header that verifies, of the length its first byte says, makes a sound frame. -/
theorem ipv4Sound_of_slice (first : UInt8)
    (h : Mem.slice f.bytes 0 n =
      dmac.bytes ++ smac.bytes ++ Mem.be16 ipv4Ethertype ++ (hdr ++ rest))
    (hfirst : hdr.getD 0 0 = first) (hversion : first.toNat / 16 = 4)
    (hlen : hdr.length = first.toNat % 16 * 4) (hmin : ipHdrLen ≤ first.toNat % 16 * 4)
    (hverifies : Verifies hdr) : Ipv4Sound f := by
  have hip := slice_ip_of_slice h
  have hpos : 0 < ipHdrLen := by decide
  have hbyte : f.bytes ethHdrLen = first := by
    rw [← hfirst, ← hip]
    exact (Mem.getD_slice (Nat.lt_of_lt_of_le hpos (hlen ▸ hmin)) 0).symm
  have hihl : f.ihl = hdr.length := by rw [RxFrame.ihl, hbyte, hlen]
  refine ⟨etherType_of_slice (by decide) h, ?_, ?_, ?_⟩
  · rw [RxFrame.version, hbyte, hversion]
  · rw [hihl, hlen]
    exact hmin
  · rw [hihl, hip]
    exact hverifies

/-- A byte of the IP header. -/
theorem byte_of_slice_ip {v k : Nat}
    (h : Mem.slice f.bytes 0 n = dmac.bytes ++ smac.bytes ++ Mem.be16 v ++ (hdr ++ rest))
    (hk : k < hdr.length) : f.bytes (ethHdrLen + k) = hdr.getD k 0 := by
  rw [← slice_ip_of_slice h]
  exact (Mem.getD_slice hk 0).symm

/-- What a receiver reads from a header without options. -/
theorem reads_ipHeader {tos ttl proto : UInt8} {totalLen ident : Nat} {src dst : Ip}
    (htotal : totalLen < 2 ^ 16)
    (h : Mem.slice f.bytes 0 n = dmac.bytes ++ smac.bytes ++ Mem.be16 ipv4Ethertype ++
      (ipHeader tos totalLen ident ttl proto src dst ++ rest)) :
    f.ihl = ipHdrLen ∧ f.total = totalLen ∧ f.proto = proto.toNat ∧ f.srcIp = src ∧
      f.dstIp = dst := by
  have hbyte : ∀ k < 20, f.bytes (ethHdrLen + k) =
      (ipHeader tos totalLen ident ttl proto src dst).getD k 0 :=
    fun k hk => byte_of_slice_ip h hk
  refine ⟨?_, ?_, ?_, ?_, ?_⟩
  · have hfirst : f.bytes ethHdrLen = 0x45 := hbyte 0 (by decide)
    rw [RxFrame.ihl, hfirst]
    rfl
  · rw [RxFrame.total, Mem.rd16, Nat.add_assoc, hbyte 2 (by decide), hbyte 3 (by decide)]
    exact be16_read htotal
  · rw [RxFrame.proto, hbyte 9 (by decide)]
    rfl
  · simp only [RxFrame.srcIp, Ip.read, Nat.add_assoc, Nat.reduceAdd]
    rw [hbyte 12 (by decide), hbyte 13 (by decide), hbyte 14 (by decide), hbyte 15 (by decide)]
    rfl
  · simp only [RxFrame.dstIp, Ip.read, Nat.add_assoc, Nat.reduceAdd]
    rw [hbyte 16 (by decide), hbyte 17 (by decide), hbyte 18 (by decide), hbyte 19 (by decide)]
    rfl

end Reading

/-! ## Sending -/

/-- `n'` has sent what `n` has, and further frames, all of them as `P` says. -/
def Sends (P : List UInt8 → Prop) (n n' : Net) : Prop :=
  ∃ frames : List Sent, n'.sent = n.sent ++ frames ∧ ∀ s ∈ frames, P s.bytes

namespace Sends

variable {P Q : List UInt8 → Prop} {n n' n'' : Net}

theorem of_sent_eq (h : n'.sent = n.sent) : Sends P n n' :=
  ⟨[], by rw [h, List.append_nil], fun _ hs => absurd hs List.not_mem_nil⟩

theorem refl (n : Net) : Sends P n n := of_sent_eq rfl

theorem trans (h : Sends P n n') (h' : Sends P n' n'') : Sends P n n'' := by
  obtain ⟨frames, hsent, hall⟩ := h
  obtain ⟨frames', hsent', hall'⟩ := h'
  refine ⟨frames ++ frames', by rw [hsent', hsent, List.append_assoc], fun s hs => ?_⟩
  rcases List.mem_append.1 hs with hs | hs
  · exact hall s hs
  · exact hall' s hs

theorem mono (h : Sends P n n') (hPQ : ∀ bytes, P bytes → Q bytes) : Sends Q n n' := by
  obtain ⟨frames, hsent, hall⟩ := h
  exact ⟨frames, hsent, fun s hs => hPQ s.bytes (hall s hs)⟩

/-- What all frames of a history satisfy stays true of it. -/
theorem all (h : Sends P n n') (hn : ∀ s ∈ n.sent, P s.bytes) : ∀ s ∈ n'.sent, P s.bytes := by
  obtain ⟨frames, hsent, hall⟩ := h
  intro s hs
  rw [hsent] at hs
  rcases List.mem_append.1 hs with hs | hs
  · exact hn s hs
  · exact hall s hs

/-- A frame whose first bytes were just stored at the start of the slot. -/
theorem ethSend {head : List UInt8} {len : Nat} (hlen : head.length ≤ max 60 len)
    (h : ∀ rest, P (head ++ rest)) : Sends P n (ethSend (txStore n 0 head) len) := by
  have hmax : (if len < 60 then 60 else len) = max 60 len := by
    split <;> omega
  refine ⟨[⟨n.txslot, Mem.slice (Mem.store (txBuf n) 0 head) 0 (max 60 len)⟩], ?_, ?_⟩
  · simp only [Firmware.ethSend, txStore, slotStore, txBuf, Function.update_self, hmax]
  · intro s hs
    rw [List.mem_singleton.1 hs, Mem.slice_store_front _ _ hlen]
    exact h _

end Sends

/-! ## The builders -/

theorem length_arpFrame (n : Net) (op : Nat) (targetIp : Ip) (targetMac : Mac) :
    (arpFrame n op targetIp targetMac).length = 60 := by
  unfold arpFrame
  split <;> split <;> rfl

def IsArp (bytes : List UInt8) : Prop := (asReceived bytes).etherType = arpEthertype

theorem isArp_arpFrame (n : Net) (op : Nat) (targetIp : Ip) (targetMac : Mac)
    (rest : List UInt8) : IsArp (arpFrame n op targetIp targetMac ++ rest) := by
  obtain ⟨dmac, more, heq⟩ : ∃ (dmac : Mac) (more : List UInt8),
      arpFrame n op targetIp targetMac ++ rest =
        dmac.bytes ++ n.mac.bytes ++ Mem.be16 arpEthertype ++ more := by
    refine ⟨if op = 1 then Mac.broadcast else targetMac, ?more, ?_⟩
    rotate_left
    · rw [apply_ite Mac.bytes, arpFrame]
      simp only [List.append_assoc]
      rfl
  have hread := slice_asReceived (arpFrame n op targetIp targetMac ++ rest)
  rw [heq] at hread ⊢
  exact etherType_of_slice (by decide) hread

theorem sends_arpSend (n : Net) (op : Nat) (targetIp : Ip) (targetMac : Mac) :
    Sends IsArp n (arpSend n op targetIp targetMac) := by
  have hlen : (arpFrame n op targetIp targetMac).length ≤ max 60 60 := by
    rw [length_arpFrame]
    decide
  have hsend : Sends IsArp n (ethSend (txStore n 0 (arpFrame n op targetIp targetMac)) 60) :=
    Sends.ethSend hlen (isArp_arpFrame n op targetIp targetMac)
  exact hsend.trans (Sends.of_sent_eq rfl)

/-- A lookup sends requests at most. -/
theorem sends_netArpLookup (n : Net) (ip : Ip) : Sends IsArp n (netArpLookup n ip).1 := by
  cases h : arpResolve n ip with
  | some mac =>
      rw [netArpLookup_hit h]
      exact Sends.refl n
  | none =>
      simp only [netArpLookup, h]
      exact sends_arpSend _ _ _ _

/-- What an IPv4 builder has to get right: the first byte of its header, the protocol, the
length the first byte promises, and the checksum. -/
theorem emittable_of_eq (first proto : UInt8) {bytes hdr rest : List UInt8} {dmac smac : Mac}
    (heq : bytes = dmac.bytes ++ smac.bytes ++ Mem.be16 ipv4Ethertype ++ (hdr ++ rest))
    (hfirst : hdr.getD 0 0 = first) (hversion : first.toNat / 16 = 4)
    (hlen : hdr.length = first.toNat % 16 * 4) (hmin : ipHdrLen ≤ first.toNat % 16 * 4)
    (hproto : hdr.getD 9 0 = proto) (hmem : proto.toNat ∈ [ipprotoIcmp, ipprotoIgmp, ipprotoUdp])
    (hverifies : Verifies hdr) : Emittable bytes := by
  have hread := slice_asReceived bytes
  rw [heq] at hread ⊢
  have hsound := ipv4Sound_of_slice first hread hfirst hversion hlen hmin hverifies
  have hten : 9 < ipHdrLen := by decide
  have hbyte := byte_of_slice_ip hread (Nat.lt_of_lt_of_le hten (hlen ▸ hmin))
  refine Or.inr ⟨hsound, ?_⟩
  rw [RxFrame.proto, hbyte, hproto]
  exact hmem

theorem length_igmpFrame (n : Net) (group : Ip) : (igmpFrame n group).length = 60 := rfl

theorem emittable_igmpFrame (n : Net) (group : Ip) (rest : List UInt8) :
    Emittable (igmpFrame n group ++ rest) := by
  obtain ⟨more, heq⟩ : ∃ more, igmpFrame n group ++ rest =
      (netMcastMac group).bytes ++ n.mac.bytes ++ Mem.be16 ipv4Ethertype ++
        (igmpHeader n group ++ more) := by
    refine ⟨?more, ?_⟩
    rotate_left
    · rw [igmpFrame, List.append_assoc, List.append_assoc, List.append_assoc]
      rfl
  exact emittable_of_eq 0x46 2 heq rfl (by decide) rfl (by decide) rfl (by decide)
    (verifies_igmpHeader n group)

theorem sends_igmpReport (n : Net) (group : Ip) : Sends Emittable n (igmpReport n group) := by
  have hlen : (igmpFrame n group).length ≤ max 60 (ethHdrLen + 24 + 8) := by
    rw [length_igmpFrame]
    decide
  have hsend := Sends.ethSend (n := n) hlen (emittable_igmpFrame n group)
  exact hsend.trans (Sends.of_sent_eq rfl)

/-- A query is answered by reports only. -/
theorem sends_igmpRx (n : Net) (p : Mem) (len : Nat) : Sends Emittable n (igmpRx n p len) := by
  have hstep : ∀ (n : Net) (g : Ip), Sends Emittable n
      (if (Ip.read p 4).isZero || g == Ip.read p 4 then igmpReport n g else n) := by
    intro n g
    split
    · exact sends_igmpReport n g
    · exact Sends.refl n
  have hfold : ∀ (groups : List Ip) (n : Net), Sends Emittable n (groups.foldl
      (fun n g => if (Ip.read p 4).isZero || g == Ip.read p 4 then igmpReport n g else n) n) := by
    intro groups
    induction groups with
    | nil => exact fun n => Sends.refl n
    | cons g groups ih => exact fun n => (hstep n g).trans (ih _)
  rw [igmpRx]
  split
  · exact Sends.refl n
  dsimp only
  split
  · exact Sends.of_sent_eq rfl
  · exact (Sends.of_sent_eq rfl).trans (hfold _ _)

/-- The headers of a commit, cut where a receiver cuts them. -/
theorem udpHeaders_append (n : Net) (dmac : Mac) (dst : Ip) (dport sport len : Nat) (tos : UInt8)
    (rest : List UInt8) :
    udpHeaders n dmac dst dport sport len tos ++ rest =
      dmac.bytes ++ n.mac.bytes ++ Mem.be16 ipv4Ethertype ++
        (ipHeader tos (ipHdrLen + udpHdrLen + len)
            (if tos = netTosAudio then 0 else n.ipIdent.toNat) (if dst.isMcast then 32 else 64)
            17 n.ip dst ++
          (Mem.be16 sport ++ (Mem.be16 dport ++ (Mem.be16 (udpHdrLen + len) ++
            (Mem.be16 0 ++ rest))))) := by
  simp only [udpHeaders]
  rw [List.append_assoc, List.append_assoc, List.append_assoc, List.append_assoc,
    List.append_assoc]

theorem emittable_udpHeaders (n : Net) (dmac : Mac) (dst : Ip) (dport sport len : Nat)
    (tos : UInt8) (rest : List UInt8) :
    Emittable (udpHeaders n dmac dst dport sport len tos ++ rest) :=
  emittable_of_eq 0x45 17 (udpHeaders_append n dmac dst dport sport len tos rest) rfl
    (by decide) (length_ipHeader ..) (by decide) rfl (by decide) (verifies_ipHeader ..)

/-- A commit sends ARP frames and frames that begin with its headers. -/
theorem Sends.netUdpCommit {P : List UInt8 → Prop} {dst : Ip} {dport sport len : Nat} {tos : UInt8}
    (n : Net) (harp : ∀ bytes, IsArp bytes → P bytes)
    (hudp : ∀ (n' : Net) (dmac : Mac) (rest : List UInt8),
      P (udpHeaders n' dmac dst dport sport len tos ++ rest)) :
    Sends P n (Firmware.netUdpCommit n dst dport sport len tos).1 := by
  have hlookup : Sends P n (netArpLookup n dst).1 := (sends_netArpLookup n dst).mono harp
  have hfits : ∀ (n' : Net) (dmac : Mac),
      (udpHeaders n' dmac dst dport sport len tos).length ≤
        max 60 (ethHdrLen + ipHdrLen + udpHdrLen + len) := by
    intro n' dmac
    rw [length_udpHeaders]
    exact Nat.le_trans (Nat.le_add_right _ len) (Nat.le_max_right ..)
  rw [Firmware.netUdpCommit]
  split
  · exact Sends.of_sent_eq rfl
  · split
    · rename_i heq
      rw [heq] at hlookup
      exact hlookup.trans (Sends.of_sent_eq rfl)
    · rename_i n' dmac heq
      rw [heq] at hlookup
      have hsend := Sends.ethSend (n := n') (hfits n' dmac) (hudp n' dmac)
      exact hlookup.trans (hsend.trans (Sends.of_sent_eq rfl))

theorem sends_netUdpCommit (n : Net) (dst : Ip) (dport sport len : Nat) (tos : UInt8) :
    Sends Emittable n (netUdpCommit n dst dport sport len tos).1 :=
  Sends.netUdpCommit n (fun _ => Or.inl) fun n' dmac rest =>
    emittable_udpHeaders n' dmac dst dport sport len tos rest

theorem sends_netUdpSend (n : Net) (dst : Ip) (dport sport : Nat) (payload : List UInt8)
    (tos : UInt8) : Sends Emittable n (netUdpSend n dst dport sport payload tos).1 := by
  have hlookup : Sends Emittable n (netArpLookup n dst).1 :=
    (sends_netArpLookup n dst).mono fun _ => Or.inl
  rw [netUdpSend]
  split
  · exact Sends.of_sent_eq rfl
  · split
    · rename_i heq
      rw [heq] at hlookup
      exact hlookup.trans (Sends.of_sent_eq rfl)
    · rename_i n' mac heq
      rw [heq] at hlookup
      have hstore : Sends Emittable n' (txStore n' udpPayloadOff payload) :=
        Sends.of_sent_eq rfl
      exact hlookup.trans (hstore.trans (sends_netUdpCommit _ _ _ _ _ _))

/-! ## The echo reply -/

/-- A reply from `src` to `dst` on a request with the bytes `req`: the identifier, the sequence
number and the data are everything behind the first four bytes. -/
structure EchoReply (src dst : Ip) (req : List UInt8) (f : RxFrame) : Prop where
  sound : Ipv4Sound f
  proto : f.proto = ipprotoIcmp
  srcIp : f.srcIp = src
  dstIp : f.dstIp = dst
  plen : f.plen = req.length
  type : (Mem.slice f.bytes f.pl f.plen).getD 0 0 = 0
  same : (Mem.slice f.bytes f.pl f.plen).drop 4 = req.drop 4
  verifies : Verifies (Mem.slice f.bytes f.pl f.plen)

/-- The body of the reply, with its checksum. -/
def echoBody (p : Mem) (len : Nat) (ck : Nat) : List UInt8 :=
  [0, p 1] ++ Mem.be16 ck ++ Mem.slice p 4 (len - 4)

/-- The checksum of the reply. -/
def echoChecksum (p : Mem) (len : Nat) : Nat := netChecksum (echoBody p len 0) 0

theorem length_echoBody (p : Mem) {len : Nat} (ck : Nat) (h : 8 ≤ len) :
    (echoBody p len ck).length = len := by
  simp only [echoBody, List.length_append, length_be16, Mem.length_slice, List.length_cons,
    List.length_nil]
  omega

theorem verifies_echoBody (p : Mem) {len : Nat} (h : len ≤ netMaxPayload) :
    Verifies (echoBody p len (echoChecksum p len)) := by
  have hmax : netMaxPayload = 1400 := rfl
  refine verifies_netChecksum [0, p 1] (Mem.slice p 4 (len - 4)) (by simp) ?_
  simp only [Mem.length_slice, List.length_cons, List.length_nil]
  omega

/-- The request in the slot, with its type and its checksum overwritten. -/
theorem store_echoBody (m p : Mem) {len : Nat} (h : 8 ≤ len) (a ck : Nat) :
    Mem.store (Mem.store (Mem.store m a (Mem.slice p 0 len)) a [0]) (a + 2) (Mem.be16 ck) =
      Mem.store m a (echoBody p len ck) := by
  have hcut : Mem.slice p 0 len =
      [] ++ [p 0] ++ ([p 1] ++ [p 2, p 3] ++ Mem.slice p 4 (len - 4)) := by
    obtain ⟨k, rfl⟩ := Nat.exists_eq_add_of_le (Nat.le_trans (by decide : 4 ≤ 8) h)
    rw [Mem.slice_append, Nat.add_sub_cancel_left]
    rfl
  rw [hcut]
  have htype := Mem.store_patch m a [] ([p 1] ++ [p 2, p 3] ++ Mem.slice p 4 (len - 4))
    (show [(0 : UInt8)].length = [p 0].length from rfl)
  have hck := Mem.store_patch m a [0, p 1] (Mem.slice p 4 (len - 4))
    (show (Mem.be16 ck).length = [p 2, p 3].length from rfl)
  exact (congrArg (fun m => Mem.store m (a + 2) (Mem.be16 ck)) htype).trans hck

/-- The stack with the reply built at the UDP payload offset. -/
def echoBuilt (n : Net) (p : Mem) (len : Nat) : Net :=
  let n := { n with stats := { n.stats with rxIcmp := n.stats.rxIcmp + 1 } }
  let n := txStore n udpPayloadOff (Mem.slice p 0 len)
  let n := txStore n udpPayloadOff [0]
  let n := txStore n (udpPayloadOff + 2) [0, 0]
  txStore n (udpPayloadOff + 2) (Mem.be16 (netChecksum (Mem.slice (txBuf n) udpPayloadOff len) 0))

/-- The reply moved down, wrapped and sent. -/
def echoSend (n : Net) (src : Ip) (dmac : Mac) (body : List UInt8) (len : Nat) : Net :=
  let n := txStore n (ethHdrLen + ipHdrLen) body
  let header := dmac.bytes ++ n.mac.bytes ++ Mem.be16 ipv4Ethertype ++
    ipHeader 0 (ipHdrLen + len) n.ipIdent.toNat 64 1 n.ip src
  let n := { txStore n 0 header with ipIdent := n.ipIdent + 1 }
  let n := ethSend n (ethHdrLen + ipHdrLen + len)
  { n with stats := { n.stats with txIcmp := n.stats.txIcmp + 1 } }

/-- An echo request the source answers. -/
structure Request (p : Mem) (len : Nat) : Prop where
  min : 8 ≤ len
  max : len ≤ netMaxPayload
  type : p 0 = 8

instance (p : Mem) (len : Nat) : Decidable (Request p len) :=
  decidable_of_iff (8 ≤ len ∧ len ≤ netMaxPayload ∧ p 0 = 8)
    ⟨fun ⟨hmin, hmax, htype⟩ => ⟨hmin, hmax, htype⟩, fun h => ⟨h.min, h.max, h.type⟩⟩

section Echo

variable {n : Net} {src : Ip} {p : Mem} {len : Nat}

theorem icmpRx_of_not_request (h : ¬ Request p len) : icmpRx n src p len = n := by
  rw [icmpRx]
  split
  · rfl
  · rename_i hreq
    have hlong : netMaxPayload < len := by
      by_contra hle
      exact h ⟨by omega, by omega, not_not.1 fun htype => hreq (Or.inr htype)⟩
    rw [if_pos hlong]

theorem icmpRx_of_request (h : Request p len) : icmpRx n src p len =
    match netArpLookup (echoBuilt n p len) src with
    | (n', none) => n'
    | (n', some dmac) =>
        echoSend n' src dmac (Mem.slice (txBuf (echoBuilt n p len)) udpPayloadOff len) len := by
  have hreq : ¬ (len < 8 ∨ p 0 ≠ 8) := by
    rintro (hlt | hne)
    · exact absurd h.min (Nat.not_le.2 hlt)
    · exact hne h.type
  rw [icmpRx, if_neg hreq, if_neg (Nat.not_lt.2 h.max)]
  rfl

/-- The checksum is the one the reply needs, and the slot holds the reply. -/
theorem txBuf_echoBuilt (h : Request p len) : txBuf (echoBuilt n p len) =
    Mem.store (txBuf n) udpPayloadOff (echoBody p len (echoChecksum p len)) := by
  have hzero := store_echoBody (txBuf n) p h.min udpPayloadOff 0
  have hread := Mem.slice_store_same (txBuf n) udpPayloadOff (echoBody p len 0)
  rw [length_echoBody p 0 h.min] at hread
  have hpatch := Mem.store_patch (txBuf n) udpPayloadOff [0, p 1] (Mem.slice p 4 (len - 4))
    (show (Mem.be16 (echoChecksum p len)).length = (Mem.be16 0).length from rfl)
  have hword : Mem.be16 0 = [0, 0] := rfl
  simp only [echoBuilt, txStore, slotStore, txBuf, Function.update_self] at *
  rw [← hword, hzero, hread]
  exact hpatch

/-- A body moved down from behind the UDP headers leaves behind the IP header. -/
theorem sent_echoSend (n : Net) (src : Ip) (dmac : Mac) (body : List UInt8) :
    ∃ rest, (echoSend n src dmac body body.length).sent = n.sent ++ [⟨n.txslot,
      dmac.bytes ++ n.mac.bytes ++ Mem.be16 ipv4Ethertype ++
        (ipHeader 0 (ipHdrLen + body.length) n.ipIdent.toNat 64 1 n.ip src ++
          (body ++ rest))⟩] := by
  obtain ⟨k, hk⟩ : ∃ k, (if ethHdrLen + ipHdrLen + body.length < 60 then 60
      else ethHdrLen + ipHdrLen + body.length) = ethHdrLen + ipHdrLen + (body.length + k) := by
    split
    · exact ⟨60 - (ethHdrLen + ipHdrLen + body.length), by omega⟩
    · exact ⟨0, by omega⟩
  obtain ⟨header, hheader⟩ : ∃ header, header = dmac.bytes ++ n.mac.bytes ++
      Mem.be16 ipv4Ethertype ++
        ipHeader 0 (ipHdrLen + body.length) n.ipIdent.toNat 64 1 n.ip src := ⟨_, rfl⟩
  have hlen : header.length = ethHdrLen + ipHdrLen := by
    rw [hheader]
    rfl
  have hsent : (echoSend n src dmac body body.length).sent = n.sent ++ [⟨n.txslot, Mem.slice
      (Mem.store (Mem.store (txBuf n) (ethHdrLen + ipHdrLen) body) 0 header) 0
      (ethHdrLen + ipHdrLen + (body.length + k))⟩] := by
    rw [hheader, ← hk]
    simp only [echoSend, ethSend, txStore, slotStore, txBuf, Function.update_self]
  have hslice : Mem.slice (Mem.store (Mem.store (txBuf n) (ethHdrLen + ipHdrLen) body) 0 header) 0
      (ethHdrLen + ipHdrLen + (body.length + k)) = header ++ (body ++
        Mem.slice (txBuf n) (ethHdrLen + ipHdrLen + body.length) k) := by
    rw [Mem.slice_store_front _ _ (by rw [hlen]; exact Nat.le_add_right _ _), hlen,
      Nat.zero_add, Nat.add_sub_cancel_left, Mem.slice_store_front _ _ (Nat.le_add_right _ _),
      Nat.add_sub_cancel_left]
  refine ⟨Mem.slice (txBuf n) (ethHdrLen + ipHdrLen + body.length) k, ?_⟩
  rw [hsent, hslice, hheader, List.append_assoc _ (ipHeader _ _ _ _ _ _ _)]

/-- A receiver finds the reply behind the header. -/
theorem echoReply_of_slice {f : RxFrame} {size ident : Nat} {dmac smac : Mac} {dst : Ip}
    {rest : List UInt8} (h : Request p len)
    (hread : Mem.slice f.bytes 0 size = dmac.bytes ++ smac.bytes ++ Mem.be16 ipv4Ethertype ++
      (ipHeader 0 (ipHdrLen + len) ident 64 1 src dst ++
        (echoBody p len (echoChecksum p len) ++ rest))) :
    EchoReply src dst (Mem.slice p 0 len) f := by
  have hmax := h.max
  have hhdr : ipHdrLen = 20 := rfl
  have hpayload : netMaxPayload = 1400 := rfl
  have hbody := length_echoBody p (echoChecksum p len) h.min
  obtain ⟨hihl, htotal, hproto, hsrc, hdst⟩ := reads_ipHeader (by omega) hread
  have hplen : f.plen = len := by
    rw [RxFrame.plen_of_le (by omega), hihl, htotal, Nat.add_sub_cancel_left]
  have hpart : Mem.slice f.bytes f.pl f.plen = echoBody p len (echoChecksum p len) := by
    have hcut := hread
    rw [← List.append_assoc, ← List.append_assoc] at hcut
    have hinfix := Mem.slice_infix hcut
    rw [hbody, Nat.zero_add] at hinfix
    rw [hplen, RxFrame.pl, hihl]
    exact hinfix
  refine
    { sound := ?_, proto := hproto, srcIp := hsrc, dstIp := hdst
      plen := by rw [hplen, Mem.length_slice], type := ?_, same := ?_, verifies := ?_ }
  · exact ipv4Sound_of_slice 0x45 hread rfl (by decide) (length_ipHeader ..) (by decide)
      (verifies_ipHeader ..)
  · rw [hpart]
    rfl
  · rw [hpart]
    obtain ⟨k, hk⟩ := Nat.exists_eq_add_of_le (Nat.le_trans (by decide : 4 ≤ 8) h.min)
    rw [hk, Mem.slice_append, echoBody, Nat.add_sub_cancel_left]
    rfl
  · rw [hpart]
    exact verifies_echoBody p hmax

/-- A request from a resolved address is answered with one reply. -/
theorem icmpRx_hit {dmac : Mac} (h : Request p len) (hres : arpResolve n src = some dmac) :
    ∃ bytes : List UInt8, (icmpRx n src p len).sent = n.sent ++ [⟨n.txslot, bytes⟩] ∧
      EchoReply n.ip src (Mem.slice p 0 len) (asReceived bytes) := by
  have hbuilt : netArpLookup (echoBuilt n p len) src = (echoBuilt n p len, some dmac) :=
    netArpLookup_hit hres
  have hbody := Mem.slice_store_same (txBuf n) udpPayloadOff (echoBody p len (echoChecksum p len))
  rw [length_echoBody p _ h.min] at hbody
  obtain ⟨rest, hsent⟩ := sent_echoSend (echoBuilt n p len) src dmac
    (echoBody p len (echoChecksum p len))
  rw [length_echoBody p _ h.min] at hsent
  refine ⟨dmac.bytes ++ n.mac.bytes ++ Mem.be16 ipv4Ethertype ++
    (ipHeader 0 (ipHdrLen + len) n.ipIdent.toNat 64 1 n.ip src ++
      (echoBody p len (echoChecksum p len) ++ rest)), ?_,
    echoReply_of_slice h (slice_asReceived _)⟩
  rw [icmpRx_of_request h, hbuilt, txBuf_echoBuilt h, hbody]
  exact hsent

/-- `icmp_rx` sends an address request at most, and on a hit the reply. -/
theorem sends_icmpRx (n : Net) (src : Ip) (p : Mem) (len : Nat) :
    Sends (fun bytes => IsArp bytes ∨ EchoReply n.ip src (Mem.slice p 0 len) (asReceived bytes))
      n (icmpRx n src p len) := by
  by_cases h : Request p len
  · cases hres : arpResolve n src with
    | some dmac =>
        obtain ⟨bytes, hsent, hreply⟩ := icmpRx_hit h hres
        refine ⟨[⟨n.txslot, bytes⟩], hsent, fun s hs => Or.inr ?_⟩
        rw [List.mem_singleton.1 hs]
        exact hreply
    | none =>
        have hmiss : (netArpLookup (echoBuilt n p len) src).2 = none :=
          netArpLookup_miss_result hres
        have hlookup := (sends_netArpLookup (echoBuilt n p len) src).mono
          (Q := fun bytes => IsArp bytes ∨
            EchoReply n.ip src (Mem.slice p 0 len) (asReceived bytes)) fun _ => Or.inl
        rw [icmpRx_of_request h]
        split
        · rename_i heq
          rw [heq] at hlookup
          exact (Sends.of_sent_eq rfl).trans hlookup
        · rename_i heq
          rw [heq] at hmiss
          cases hmiss
  · rw [icmpRx_of_not_request h]
    exact Sends.refl n

end Echo

end Firmware
end InfernoFpga
