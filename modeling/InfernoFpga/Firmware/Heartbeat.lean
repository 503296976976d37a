import InfernoFpga.Lib.Records
import InfernoFpga.Firmware.Info

/-!
# Heartbeat — what a receiver and the host tool read in a heartbeat

A heartbeat is a header and five records that carry their own length.  A receiver that walks them
finds each where it should be, whatever the clock has to report.  `tools/dante_latency.py` does not
walk: it scans every even offset of the datagram for something that looks like a latency block.
The header and the clock's measurements could look like one; they never do.
-/

namespace InfernoFpga
namespace Firmware

open Lib Lib.Records
open Mdns (Str ascii)

/-! ## A reader of messages -/

/-- The header of a message, its length apart. -/
structure InfoHeader where
  startCode : Nat
  seq : Nat
  processId : Nat
  deviceId : List UInt8
  vendor : List UInt8
  opcode : List UInt8
  deriving DecidableEq

/-- The header of a message that is as long as it says. -/
def readInfoHeader (m : List UInt8) : Option InfoHeader :=
  let p : Mem := fun k => m.getD k 0
  if m.length < mcastHdrLen ∨ Mem.rd16 p 2 ≠ m.length then none
  else
    some ⟨Mem.rd16 p 0, Mem.rd16 p 4, Mem.rd16 p 6, (m.drop 8).take 8, (m.drop 16).take 8,
      (m.drop 24).take 8⟩

def infoContent (m : List UInt8) : List UInt8 := m.drop mcastHdrLen

section Header

variable (s : Info) {startCode : Nat} {opcode : InfoOpcode} {seq : UInt16} {content : List UInt8}

theorem length_vendorStr : vendorStr.length = 8 := rfl

/-- A complete message: the length stands in the third and fourth byte. -/
theorem putTotalLength_eq (startCode : Nat) (opcode : InfoOpcode) (seq : UInt16)
    (content : List UInt8) :
    putTotalLength (putHdrSeq s startCode opcode seq ++ content) =
      Mem.be16 startCode ++ Mem.be16 (mcastHdrLen + content.length) ++ (Mem.be16 seq.toNat ++
        Mem.be16 s.processId.toNat ++ s.dev.deviceId.toList ++ vendorStr ++ opcode.toList ++
        content) := by
  have hsplit : putHdrSeq s startCode opcode seq ++ content =
      Mem.be16 startCode ++ Mem.be16 0 ++ (Mem.be16 seq.toNat ++ Mem.be16 s.processId.toNat ++
        s.dev.deviceId.toList ++ vendorStr ++ opcode.toList ++ content) := by
    simp only [putHdrSeq, List.append_assoc]
  have hlen : (putHdrSeq s startCode opcode seq ++ content).length =
      mcastHdrLen + content.length := by
    simp only [putHdrSeq, List.length_append, length_be16, Vector.length_toList]
    rfl
  rw [putTotalLength, hlen, hsplit]
  exact overwrite_append (Mem.be16 startCode) (Mem.be16 0) _ rfl

theorem length_putTotalLength (startCode : Nat) (opcode : InfoOpcode) (seq : UInt16)
    (content : List UInt8) :
    (putTotalLength (putHdrSeq s startCode opcode seq ++ content)).length =
      mcastHdrLen + content.length := by
  simp only [putTotalLength_eq, List.length_append, length_be16, Vector.length_toList,
    length_vendorStr, mcastHdrLen]
  omega

/-- A message is read back: its header, and its content behind it. -/
theorem readInfoHeader_putTotalLength (hcode : startCode < 2 ^ 16)
    (hlen : mcastHdrLen + content.length < 2 ^ 16) :
    readInfoHeader (putTotalLength (putHdrSeq s startCode opcode seq ++ content)) =
        some ⟨startCode, seq.toNat, s.processId.toNat, s.dev.deviceId.toList, vendorStr,
          opcode.toList⟩ ∧
      infoContent (putTotalLength (putHdrSeq s startCode opcode seq ++ content)) = content := by
  have hlength := length_putTotalLength s startCode opcode seq content
  have hmsg := putTotalLength_eq s startCode opcode seq content
  generalize putTotalLength (putHdrSeq s startCode opcode seq ++ content) = m at hlength hmsg ⊢
  -- each field, at its offset
  have hat : At m 0 (Mem.be16 startCode ++ (Mem.be16 (mcastHdrLen + content.length) ++
      (Mem.be16 seq.toNat ++ (Mem.be16 s.processId.toNat ++ (s.dev.deviceId.toList ++
        (vendorStr ++ (opcode.toList ++ content))))))) := by
    rw [hmsg]
    simp only [List.append_assoc]
    exact At.of_prefix List.prefix_rfl
  obtain ⟨hstart, hat⟩ := At.append_iff.1 hat
  obtain ⟨htotal, hat⟩ := At.append_iff.1 hat
  obtain ⟨hseq, hat⟩ := At.append_iff.1 hat
  obtain ⟨hprocess, hat⟩ := At.append_iff.1 hat
  obtain ⟨hdevice, hat⟩ := At.append_iff.1 hat
  obtain ⟨hvendor, hat⟩ := At.append_iff.1 hat
  obtain ⟨hopcode, hrest⟩ := At.append_iff.1 hat
  have hdev := hdevice.slice
  have hven := hvendor.slice
  have hop := hopcode.slice
  have hcontent := hrest.slice
  simp only [length_be16, length_vendorStr, Vector.length_toList, Nat.zero_add,
    Nat.reduceAdd] at hdev hven hop hcontent
  refine ⟨?_, ?_⟩
  · unfold readInfoHeader
    simp only []
    rw [hstart.rd16 hcode, show Mem.rd16 (fun k => m.getD k 0) 2 = _ from htotal.rd16 hlen,
      if_neg (by
        rw [hlength]
        exact fun h => h.elim (fun hlt => absurd hlt (by omega)) fun hne => hne rfl),
      show Mem.rd16 (fun k => m.getD k 0) 4 = _ from hseq.rd16 seq.toNat_lt,
      show Mem.rd16 (fun k => m.getD k 0) 6 = _ from hprocess.rd16 s.processId.toNat_lt, hdev,
      hven, hop]
  · have hall : (m.drop mcastHdrLen).length = content.length := by
      rw [List.length_drop, hlength, Nat.add_sub_cancel_left]
    rwa [← hall, List.take_length] at hcontent

end Header

/-! ## A reader of the records -/

/-- The length a record begins with. -/
def recordSize (bs : List UInt8) : Nat := Mem.rd16 (fun k => bs.getD k 0) 0

/-- A record, its length apart. -/
structure SubRecord where
  type : Nat
  contentLen : Nat
  seq : Nat
  body : List UInt8
  deriving DecidableEq

def readSubRecord (r : List UInt8) : SubRecord :=
  let p : Mem := fun k => r.getD k 0
  ⟨Mem.rd16 p 2, Mem.rd16 p 6, Mem.rd16 p 8, r.drop 12⟩

/-- The records of a message, walked from the end of its header. -/
def readRecords (m : List UInt8) : Option (List SubRecord) :=
  (walk recordSize m.length (infoContent m)).map (List.map readSubRecord)

/-- The body of the first record of a type. -/
def bodyOf (rs : List SubRecord) (type : Nat) : Option (List UInt8) :=
  (rs.find? fun r => r.type == type).map SubRecord.body

/-- What a heartbeat says of the clock: the pull of the servo, and the size of the offset and of
the path delay. -/
structure ClockReport where
  ppb : Int
  offset : Nat
  delay : Nat
  deriving DecidableEq

/-- The numbers in the bodies of the two records. -/
def clockReport (rate sync : List UInt8) : ClockReport :=
  let p : Mem := fun k => sync.getD k 0
  ⟨(Mem.rd32 (fun k => rate.getD k 0) 0 : Int).bmod (2 ^ 32), Mem.rd32 p 8, Mem.rd32 p 12⟩

def readClockReport (m : List UInt8) : Option ClockReport :=
  match readRecords m with
  | none => none
  | some rs =>
      match bodyOf rs 0x8001, bodyOf rs 0x8000 with
      | some rate, some sync => some (clockReport rate sync)
      | _, _ => none

/-- A record of another type is passed over. -/
theorem bodyOf_cons_of_ne {r : SubRecord} {r' : SubRecord} {rs : List SubRecord}
    (h : r.type ≠ r'.type) : bodyOf (r :: r' :: rs) r'.type = some r'.body := by
  rw [bodyOf, List.find?_cons_of_neg (by simpa using h), List.find?_cons_of_pos (by simp)]
  rfl

section Records

variable {length type contentLen seq : Nat} {body : List UInt8}

theorem length_subRecord (length type contentLen seq : Nat) (body : List UInt8) :
    (subRecord length type contentLen seq body).length = 12 + body.length := by
  rw [subRecord, List.length_append]
  rfl

/-- A record whose first field is its length can be walked over. -/
theorem selfDelimiting_subRecord (hlen : length = 12 + body.length) (hlt : length < 2 ^ 16) :
    SelfDelimiting recordSize (subRecord length type contentLen seq body) where
  ne_nil := by
    intro h
    exact absurd (congrArg List.length h) (by rw [length_subRecord]; simp)
  size := by
    intro rest
    have hat : At (subRecord length type contentLen seq body ++ rest) 0 (Mem.be16 length) :=
      At.of_prefix ((List.prefix_append _ _).trans (List.prefix_append _ _))
    rw [recordSize, hat.rd16 hlt, length_subRecord, hlen]

theorem readSubRecord_subRecord (htype : type < 2 ^ 16) (hcontent : contentLen < 2 ^ 16)
    (hseq : seq < 2 ^ 16) :
    readSubRecord (subRecord length type contentLen seq body) = ⟨type, contentLen, seq, body⟩ := by
  have hat : At (subRecord length type contentLen seq body) 0 (Mem.be16 length ++ (Mem.be16 type ++
      (Mem.be16 4 ++ (Mem.be16 contentLen ++ (Mem.be16 seq ++ (Mem.be16 0 ++ body)))))) :=
    At.of_prefix List.prefix_rfl
  obtain ⟨-, hat⟩ := At.append_iff.1 hat
  obtain ⟨ht, hat⟩ := At.append_iff.1 hat
  obtain ⟨-, hat⟩ := At.append_iff.1 hat
  obtain ⟨hc, hat⟩ := At.append_iff.1 hat
  obtain ⟨hs, -⟩ := At.append_iff.1 hat
  unfold readSubRecord
  simp only []
  rw [show Mem.rd16 (fun k => List.getD _ k 0) 2 = type from ht.rd16 htype,
    show Mem.rd16 (fun k => List.getD _ k 0) 6 = contentLen from hc.rd16 hcontent,
    show Mem.rd16 (fun k => List.getD _ k 0) 8 = seq from hs.rd16 hseq]
  rfl

end Records

/-! ## The records of a heartbeat -/

section Heartbeat

variable (s : Info)

theorem length_putS32 (v : Int) : (putS32 v).length = 4 := rfl

theorem length_be32 (v : Nat) : (Mem.be32 v).length = 4 := rfl

theorem selfDelimiting_heartbeatRecords :
    ∀ r ∈ heartbeatRecords s, SelfDelimiting recordSize r := by
  intro r hr
  simp only [heartbeatRecords, List.mem_cons, List.not_mem_nil, or_false] at hr
  rcases hr with rfl | rfl | rfl | rfl | rfl <;>
    exact selfDelimiting_subRecord rfl (by decide)

theorem length_heartbeatRecords : (heartbeatRecords s).flatten.length = 188 := by
  simp only [heartbeatRecords, frequencyRecord, syncRecord, peakRecord, latencyRecord, flowRecord,
    List.flatten_cons, List.flatten_nil, List.length_append, length_subRecord, length_putS32,
    length_be32, List.length_replicate, List.length_nil]
  rfl

/-- What a receiver reads in the records, in their order. -/
def heartbeatMeans : List SubRecord :=
  let seq := s.seqnum.toNat
  [⟨0x8001, 4, seq, putS32 (servoPpb s.ptp)⟩,
   ⟨0x8000, 4, seq, fieldBytes [0x0010, 0, 1, 0x0010] ++ Mem.be32 (reportedOffset s.ptp) ++
      Mem.be32 (reportedDelay s.ptp) ++ Mem.be32 0 ++ Mem.be32 0⟩,
   ⟨0x8002, 62, seq, fieldBytes [danteTxChannels, 0, danteRxChannels, 0, 24, 0] ++
      List.replicate 52 0⟩,
   ⟨0x8003, 20, seq, fieldBytes [danteRxChannels, 0, 0x0018, 0] ++ Mem.be32 48000 ++
      List.replicate 8 0⟩,
   ⟨0x8004, 16, seq, fieldBytes [danteRxChannels, 0, 0x0014, 0] ++ List.replicate 8 0⟩]

theorem readSubRecord_heartbeatRecords :
    (heartbeatRecords s).map readSubRecord = heartbeatMeans s := by
  have hseq := s.seqnum.toNat_lt
  simp only [heartbeatRecords, List.map_cons, List.map_nil, frequencyRecord, syncRecord,
    peakRecord, latencyRecord, flowRecord]
  rw [readSubRecord_subRecord (by decide) (by decide) hseq,
    readSubRecord_subRecord (by decide) (by decide) hseq,
    readSubRecord_subRecord (by decide) (by decide) hseq,
    readSubRecord_subRecord (by decide) (by decide) hseq,
    readSubRecord_subRecord (by decide) (by decide) hseq]
  rfl

theorem infoContent_heartbeat : infoContent (heartbeat s) = (heartbeatRecords s).flatten :=
  (readInfoHeader_putTotalLength s (by decide) (by rw [length_heartbeatRecords]; decide)).2

theorem length_heartbeat : (heartbeat s).length = 220 := by
  rw [heartbeat, infoMessage, length_putTotalLength, length_heartbeatRecords]

theorem readRecords_heartbeat : readRecords (heartbeat s) = some (heartbeatMeans s) := by
  have hfuel : (heartbeatRecords s).length ≤ (heartbeat s).length := by
    rw [length_heartbeat]
    exact (by decide : (5 : Nat) ≤ 220)
  rw [readRecords, infoContent_heartbeat,
    walk_flatten (selfDelimiting_heartbeatRecords s) _ hfuel, Option.map_some,
    readSubRecord_heartbeatRecords]

/-- A signed number is read back from its four bytes as far as 32 bits hold it. -/
theorem rd32_putS32 {m : List UInt8} {p : Nat} {v : Int} (h : At m p (putS32 v)) :
    (Mem.rd32 (fun k => m.getD k 0) p : Int).bmod (2 ^ 32) = v.bmod (2 ^ 32) := by
  have hpos : (0 : Int) ≤ v % 2 ^ 32 := Int.emod_nonneg v (by decide)
  have hlt : v % 2 ^ 32 < 2 ^ 32 := Int.emod_lt_of_pos v (by decide)
  rw [h.rd32 (by omega), Int.toNat_of_nonneg hpos]
  exact Int.emod_bmod v (2 ^ 32)

theorem reportedOffset_lt (ptp : Ptpv1.Slave) : reportedOffset ptp < 2 ^ 32 :=
  lt_of_le_of_lt (Nat.min_le_right _ _) (by decide)

theorem reportedDelay_lt (ptp : Ptpv1.Slave) : reportedDelay ptp < 2 ^ 32 :=
  lt_of_le_of_lt (Nat.min_le_right _ _) (by decide)

/-- What follows the six fields of the record of the clock. -/
def syncBody : List UInt8 :=
  fieldBytes [0x0010, 0, 1, 0x0010] ++ Mem.be32 (reportedOffset s.ptp) ++
    Mem.be32 (reportedDelay s.ptp) ++ Mem.be32 0 ++ Mem.be32 0

theorem clockReport_heartbeat : clockReport (putS32 (servoPpb s.ptp)) (syncBody s) =
    ⟨(servoPpb s.ptp).bmod (2 ^ 32), reportedOffset s.ptp, reportedDelay s.ptp⟩ := by
  have hrate : At (putS32 (servoPpb s.ptp)) 0 (putS32 (servoPpb s.ptp)) :=
    At.of_prefix List.prefix_rfl
  have hsync : At (syncBody s) 0 (fieldBytes [0x0010, 0, 1, 0x0010] ++
      (Mem.be32 (reportedOffset s.ptp) ++ (Mem.be32 (reportedDelay s.ptp) ++
        (Mem.be32 0 ++ Mem.be32 0)))) := by
    simp only [syncBody, List.append_assoc]
    exact At.of_prefix List.prefix_rfl
  obtain ⟨-, hsync⟩ := At.append_iff.1 hsync
  obtain ⟨hoffset, hsync⟩ := At.append_iff.1 hsync
  obtain ⟨hdelay, -⟩ := At.append_iff.1 hsync
  have hfields : (fieldBytes [0x0010, 0, 1, 0x0010]).length = 8 := rfl
  rw [Nat.zero_add, hfields] at hoffset hdelay
  rw [length_be32] at hdelay
  have hppb := rd32_putS32 hrate
  have hoff := hoffset.rd32 (reportedOffset_lt s.ptp)
  have hpd := hdelay.rd32 (reportedDelay_lt s.ptp)
  unfold clockReport
  dsimp only
  rw [hppb, hoff, hpd]

theorem readClockReport_heartbeat : readClockReport (heartbeat s) =
    some ⟨(servoPpb s.ptp).bmod (2 ^ 32), reportedOffset s.ptp, reportedDelay s.ptp⟩ := by
  have hrate : bodyOf (heartbeatMeans s) 0x8001 = some (putS32 (servoPpb s.ptp)) := rfl
  have hsync : bodyOf (heartbeatMeans s) 0x8000 = some (syncBody s) :=
    bodyOf_cons_of_ne (show (0x8001 : Nat) ≠ 0x8000 by decide)
  rw [readClockReport, readRecords_heartbeat]
  simp only [hrate, hsync]
  rw [clockReport_heartbeat]

end Heartbeat

/-! ## `tools/dante_latency.py` -/

/-- The sample rates a block may have. -/
def blockRates : List Nat := [44100, 48000, 88200, 96000, 176400, 192000]

/-- The test of one offset: a type and four fields that have to agree. -/
def latencyBlockAt (buf : List UInt8) (i : Nat) : Option (Nat × List Nat) :=
  let p : Mem := fun k => buf.getD k 0
  let flows := Mem.rd16 p (i + 12)
  if Mem.rd16 p (i + 2) ≠ 0x8003 then none
  else if 64 < flows then none
  else if Mem.rd16 p i ≠ 24 + flows * 4 ∨ Mem.rd16 p (i + 6) ≠ 12 + flows * 4 then none
  else if buf.length < i + 24 + flows * 4 then none
  else if Mem.rd32 p (i + 20) ∉ blockRates then none
  else some (Mem.rd32 p (i + 20), (List.range flows).map fun j => Mem.rd32 p (i + 24 + 4 * j))

/-- `find_latency_blocks`: every even offset with 24 bytes and one more behind it. -/
def findLatencyBlocks (buf : List UInt8) : List (Nat × List Nat) :=
  (List.range ((buf.length - 24 + 1) / 2)).filterMap fun k => latencyBlockAt buf (2 * k)

/-- What is known of a message rules out a block at an offset. -/
def rulesOut (shape : List (Option UInt8)) (i : Nat) : Bool :=
  (knownWord shape (i + 2)).any (· ≠ 0x8003) ||
  (knownWord shape (i + 12)).any (64 < ·) ||
  (knownWord shape i).any (· < 24) ||
  (knownWord shape (i + 6)).any (fun c => c < 12 || 268 < c) ||
  (match knownWord shape (i + 12), knownWord shape (i + 6) with
    | some flows, some c => c != 12 + flows * 4
    | _, _ => false) ||
  (match knownWord shape (i + 20), knownWord shape (i + 22) with
    | some hi, some lo => !blockRates.contains (hi * 65536 + lo)
    | _, _ => false)

theorem latencyBlockAt_of_rulesOut {shape : List (Option UInt8)} {buf : List UInt8} {i : Nat}
    (h : HasShape shape buf) (hout : rulesOut shape i = true) : latencyBlockAt buf i = none := by
  by_contra hsome
  -- a block that was found has passed all five tests
  unfold latencyBlockAt at hsome
  simp only [] at hsome
  split at hsome
  · exact hsome rfl
  split at hsome
  · exact hsome rfl
  split at hsome
  · exact hsome rfl
  split at hsome
  · exact hsome rfl
  split at hsome
  · exact hsome rfl
  rename_i htype hflows hlen _ hrate
  have hread : ∀ {k v : Nat}, knownWord shape k = some v →
      Mem.rd16 (fun a => buf.getD a 0) k = v := fun hk => h.rd16 hk
  unfold rulesOut at hout
  simp only [Bool.or_eq_true, Option.any_eq_true, decide_eq_true_eq] at hout
  -- the shape fixes a field, or a pair of them, that one of the tests reads
  rcases hout with ((((⟨v, hk, hv⟩ | ⟨v, hk, hv⟩) | ⟨v, hk, hv⟩) | ⟨v, hk, hv⟩) | hpair) | hpair
  · rw [hread hk] at htype
    exact htype hv
  · rw [hread hk] at hflows
    exact hflows hv
  · rw [hread hk] at hlen
    omega
  · rw [hread hk] at hlen
    omega
  · split at hpair
    · rename_i flows c hflow hc
      rw [hread hflow, hread hc] at hlen
      have hne : c ≠ 12 + flows * 4 := bne_iff_ne.1 hpair
      omega
    · cases hpair
  · split at hpair
    · rename_i hi lo hhi hlo
      rw [Mem.rd32, hread hhi, hread hlo, not_not] at hrate
      rw [List.contains_iff_mem.2 hrate] at hpair
      cases hpair
    · cases hpair

/-! ### A heartbeat under the tool -/

/-- The bytes of a heartbeat that are the same in all of them. -/
def heartbeatShape : List (Option UInt8) :=
  (Mem.be16 0xFFFE ++ Mem.be16 220).map some ++ List.replicate 12 none ++
    (vendorStr ++ heartbeatOpcode.toList ++ fieldBytes [16, 0x8001, 4, 4]).map some ++
    List.replicate 2 none ++ (Mem.be16 0).map some ++ List.replicate 4 none ++
    (fieldBytes [36, 0x8000, 4, 4]).map some ++ List.replicate 2 none ++
    (fieldBytes [0, 0x0010, 0, 1, 0x0010]).map some ++ List.replicate 8 none ++
    (Mem.be32 0 ++ Mem.be32 0 ++ fieldBytes [76, 0x8002, 4, 62]).map some ++
    List.replicate 2 none ++
    (fieldBytes [0, 48, 0, 2, 0, 24, 0] ++ List.replicate 52 0 ++
      fieldBytes [32, 0x8003, 4, 20]).map some ++ List.replicate 2 none ++
    (fieldBytes [0, 2, 0, 0x0018, 0] ++ Mem.be32 48000 ++ List.replicate 8 0 ++
      fieldBytes [28, 0x8004, 4, 16]).map some ++ List.replicate 2 none ++
    (fieldBytes [0, 2, 0, 0x0014, 0] ++ List.replicate 8 0).map some

/-- Whatever the clock reports, whoever the device is and whichever heartbeat it is, the known
bytes leave one offset for a block. -/
theorem rulesOut_heartbeatShape : ∀ k < 98, k ≠ 80 → rulesOut heartbeatShape (2 * k) = true := by
  decide +kernel

section Tool

variable (s : Info)

theorem heartbeat_eq : heartbeat s =
    (Mem.be16 0xFFFE ++ Mem.be16 220) ++
      (Mem.be16 s.seqnum.toNat ++ Mem.be16 s.processId.toNat ++ s.dev.deviceId.toList) ++
      (vendorStr ++ heartbeatOpcode.toList ++ fieldBytes [16, 0x8001, 4, 4]) ++
      Mem.be16 s.seqnum.toNat ++ Mem.be16 0 ++ putS32 (servoPpb s.ptp) ++
      fieldBytes [36, 0x8000, 4, 4] ++ Mem.be16 s.seqnum.toNat ++
      fieldBytes [0, 0x0010, 0, 1, 0x0010] ++
      (Mem.be32 (reportedOffset s.ptp) ++ Mem.be32 (reportedDelay s.ptp)) ++
      (Mem.be32 0 ++ Mem.be32 0 ++ fieldBytes [76, 0x8002, 4, 62]) ++ Mem.be16 s.seqnum.toNat ++
      (fieldBytes [0, 48, 0, 2, 0, 24, 0] ++ List.replicate 52 0 ++
        fieldBytes [32, 0x8003, 4, 20]) ++ Mem.be16 s.seqnum.toNat ++
      (fieldBytes [0, 2, 0, 0x0018, 0] ++ Mem.be32 48000 ++ List.replicate 8 0 ++
        fieldBytes [28, 0x8004, 4, 16]) ++ Mem.be16 s.seqnum.toNat ++
      (fieldBytes [0, 2, 0, 0x0014, 0] ++ List.replicate 8 0) := by
  rw [heartbeat, infoMessage, putTotalLength_eq, length_heartbeatRecords]
  simp only [heartbeatRecords, frequencyRecord, syncRecord, peakRecord, latencyRecord, flowRecord,
    subRecord, fieldBytes, List.flatten_cons, List.flatten_nil, List.flatMap_cons,
    List.flatMap_nil, List.append_assoc, List.append_nil]
  rfl

theorem hasShape_heartbeat : HasShape heartbeatShape (heartbeat s) := by
  rw [heartbeat_eq]
  have hids : HasShape (List.replicate 12 none)
      (Mem.be16 s.seqnum.toNat ++ Mem.be16 s.processId.toNat ++ s.dev.deviceId.toList) :=
    HasShape.unknown (by simp only [List.length_append, length_be16, Vector.length_toList])
  have hseq : HasShape (List.replicate 2 none) (Mem.be16 s.seqnum.toNat) := HasShape.unknown rfl
  have hppb : HasShape (List.replicate 4 none) (putS32 (servoPpb s.ptp)) := HasShape.unknown rfl
  have hclock : HasShape (List.replicate 8 none)
      (Mem.be32 (reportedOffset s.ptp) ++ Mem.be32 (reportedDelay s.ptp)) := HasShape.unknown rfl
  have hfront := ((((HasShape.known (Mem.be16 0xFFFE ++ Mem.be16 220)).append hids).append
    (.known (vendorStr ++ heartbeatOpcode.toList ++ fieldBytes [16, 0x8001, 4, 4]))).append
      hseq).append (.known (Mem.be16 0)) |>.append hppb
  have hsync := ((hfront.append (.known (fieldBytes [36, 0x8000, 4, 4]))).append hseq).append
    (.known (fieldBytes [0, 0x0010, 0, 1, 0x0010])) |>.append hclock
  have hpeaks := ((hsync.append (.known (Mem.be32 0 ++ Mem.be32 0 ++
    fieldBytes [76, 0x8002, 4, 62]))).append hseq).append (.known (fieldBytes
      [0, 48, 0, 2, 0, 24, 0] ++ List.replicate 52 0 ++ fieldBytes [32, 0x8003, 4, 20]))
  exact ((hpeaks.append hseq).append (.known (fieldBytes [0, 2, 0, 0x0018, 0] ++
    Mem.be32 48000 ++ List.replicate 8 0 ++ fieldBytes [28, 0x8004, 4, 16]))).append hseq |>.append
      (.known (fieldBytes [0, 2, 0, 0x0014, 0] ++ List.replicate 8 0))

/-- At its offset the latency record is a block of two flows. -/
theorem latencyBlockAt_heartbeat : latencyBlockAt (heartbeat s) 160 = some (48000, [0, 0]) := by
  have hword : ∀ k v, knownWord heartbeatShape k = some v →
      Mem.rd16 (fun a => (heartbeat s).getD a 0) k = v := fun _ _ hk => (hasShape_heartbeat s).rd16 hk
  have hlong : ∀ k hi lo, knownWord heartbeatShape k = some hi →
      knownWord heartbeatShape (k + 2) = some lo →
      Mem.rd32 (fun a => (heartbeat s).getD a 0) k = hi * 65536 + lo := by
    intro k hi lo hhi hlo
    rw [Mem.rd32, hword k hi hhi, hword (k + 2) lo hlo]
  unfold latencyBlockAt
  dsimp only
  rw [hword 160 32 (by decide +kernel), hword 162 0x8003 (by decide +kernel),
    hword 166 20 (by decide +kernel), hword 172 2 (by decide +kernel), length_heartbeat,
    hlong 180 0 48000 (by decide +kernel) (by decide +kernel)]
  rw [if_neg (by decide), if_neg (by decide), if_neg (by decide), if_neg (by decide),
    if_neg (by decide)]
  have hfirst := hlong 184 0 0 (by decide +kernel) (by decide +kernel)
  have hsecond := hlong 188 0 0 (by decide +kernel) (by decide +kernel)
  exact congrArg (fun l => some (48000, l)) (congrArg₂ (fun a b => [a, b]) hfirst hsecond)

/-- The tool finds the latency record of a heartbeat, and nothing else. -/
theorem findLatencyBlocks_heartbeat : findLatencyBlocks (heartbeat s) = [(48000, [0, 0])] := by
  have hscan : ∀ k ∈ List.range 98, latencyBlockAt (heartbeat s) (2 * k) =
      if k = 80 then some (48000, [0, 0]) else none := by
    intro k hk
    by_cases h80 : k = 80
    · rw [h80, if_pos rfl]
      exact latencyBlockAt_heartbeat s
    · rw [if_neg h80]
      exact latencyBlockAt_of_rulesOut (hasShape_heartbeat s)
        (rulesOut_heartbeatShape k (List.mem_range.1 hk) h80)
  rw [findLatencyBlocks, length_heartbeat]
  rw [List.filterMap_congr hscan]
  decide +kernel

end Tool

/-! ## On the wire -/

/-- `udp_payload` of the tool: sender, destination port, and all that follows the UDP header. -/
def captured (data : List UInt8) : Option (Ip × Nat × List UInt8) :=
  let f := asReceived data
  if data.length < ethHdrLen ∨ f.etherType ≠ ipv4Ethertype then none
  else if ((data.drop ethHdrLen).take f.ihl).length < ipHdrLen ∨ f.proto ≠ ipprotoUdp then none
  else if (data.drop f.pl).length < udpHdrLen then none
  else some (f.srcIp, f.dport, data.drop (f.pl + udpHdrLen))

section Wire

variable {n : Net} {dst : Ip} {dport sport : UInt16} {tos : UInt8} {payload : List UInt8}

/-- The tool takes a frame of the stack apart; padding stays behind the payload. -/
theorem captured_udpHeaders (dmac : Mac) (pad : List UInt8) (hlen : payload.length ≤ netMaxPayload) :
    captured (udpHeaders n dmac dst dport.toNat sport.toNat payload.length tos ++
        (payload ++ pad)) = some (n.ip, dport.toNat, payload ++ pad) := by
  have hmax : netMaxPayload = 1400 := rfl
  have heth : ethHdrLen = 14 := rfl
  have hip : ipHdrLen = 20 := rfl
  have hudp : udpHdrLen = 8 := rfl
  have hoff : udpPayloadOff = 42 := rfl
  have hhead := length_udpHeaders n dmac dst dport.toNat sport.toNat payload.length tos
  have hslice := slice_asReceived
    (udpHeaders n dmac dst dport.toNat sport.toNat payload.length tos ++ (payload ++ pad))
  have hsize : (udpHeaders n dmac dst dport.toNat sport.toNat payload.length tos ++
      (payload ++ pad)).length = udpPayloadOff + (payload.length + pad.length) := by
    rw [List.length_append, List.length_append, hhead]
  rw [hsize] at hslice
  obtain ⟨-, hdport, -, -⟩ := reads_udpHeaders hlen hslice
  rw [udpHeaders_append] at hslice
  obtain ⟨hihl, -, hproto, hsrc, -⟩ := reads_ipHeader (by omega) hslice
  have htype := etherType_of_slice (by decide) hslice
  rw [← udpHeaders_append] at hihl hproto hsrc htype
  have hdrop : (udpHeaders n dmac dst dport.toNat sport.toNat payload.length tos ++
      (payload ++ pad)).drop udpPayloadOff = payload ++ pad := by
    rw [← hhead, List.drop_left]
  -- from here on the frame is any bytes with these fields
  generalize udpHeaders n dmac dst dport.toNat sport.toNat payload.length tos ++
    (payload ++ pad) = data at *
  have hpl : (asReceived data).pl = ethHdrLen + ipHdrLen := by rw [RxFrame.pl, hihl]
  have hprot : (asReceived data).proto = ipprotoUdp := hproto
  unfold captured
  dsimp only
  rw [if_neg (by rw [hsize]; exact fun h => h.elim (fun hlt => absurd hlt (by omega)) (· htype)),
    if_neg (by
      rw [hihl, List.length_take, List.length_drop, hsize]
      exact fun h => h.elim (fun hlt => absurd hlt (by omega)) (· hprot)),
    if_neg (by rw [hpl, List.length_drop, hsize]; omega), hsrc, hdport, hpl, hdrop]

/-- A payload for a group leaves at once: a group's MAC is never looked up. -/
theorem netUdpCommit_group (sport : UInt16) (tos : UInt8) (hgroup : dst.isMcast = true)
    (hlen : payload.length ≤ netMaxPayload) :
    ∃ pad, udpPayloadOff + (payload.length + pad.length) =
        max 60 (udpPayloadOff + payload.length) ∧
      (netUdpCommit (txStore n udpPayloadOff payload) dst dport.toNat sport.toNat
          payload.length tos).2 = true ∧
      (netUdpCommit (txStore n udpPayloadOff payload) dst dport.toNat sport.toNat
          payload.length tos).1.sent = n.sent ++ [⟨n.txslot,
            udpHeaders n (netMcastMac dst) dst dport.toNat sport.toNat payload.length tos ++
              (payload ++ pad)⟩] := by
  have hres : arpResolve (txStore n udpPayloadOff payload) dst = some (netMcastMac dst) := by
    rw [arpResolve, if_pos hgroup]
  obtain ⟨hok, hsent⟩ := netUdpCommit_hit dport.toNat sport.toNat tos hlen hres
  obtain ⟨pad, hsize, hframe⟩ := commitFrame_txStore n (netMcastMac dst) dst dport.toNat
    sport.toNat tos payload
  rw [hframe] at hsent
  exact ⟨pad, hsize, hok, hsent⟩

end Wire

theorem net_sendHeartbeat (s : Info) : (sendHeartbeat s).net =
    (netUdpCommit (txStore s.net udpPayloadOff (heartbeat s)) grpHeartbeat dantePortHeartbeat
      dantePortInfoReq (heartbeat s).length netTosBestEffort).1 := by
  unfold sendHeartbeat commitInfo
  dsimp only
  split <;> rfl

/-- `send_heartbeat` puts one frame on the wire, and the tool takes the heartbeat from it. -/
theorem sent_sendHeartbeat (s : Info) : ∃ bytes,
    (sendHeartbeat s).net.sent = s.net.sent ++ [⟨s.net.txslot, bytes⟩] ∧
      captured bytes = some (s.net.ip, dantePortHeartbeat, heartbeat s) := by
  have hlen : (heartbeat s).length ≤ netMaxPayload := by
    rw [length_heartbeat]
    decide
  obtain ⟨pad, hsize, hok, hsent⟩ :=
    @netUdpCommit_group s.net grpHeartbeat 8708 (heartbeat s) 8700 netTosBestEffort rfl hlen
  have hpad : pad = [] := by
    rw [length_heartbeat] at hsize
    exact List.length_eq_zero_iff.1 (by omega)
  subst hpad
  have hread := @captured_udpHeaders s.net grpHeartbeat 8708 8700 netTosBestEffort (heartbeat s)
    (netMcastMac grpHeartbeat) [] hlen
  rw [List.append_nil] at hsent hread
  exact ⟨_, (congrArg Net.sent (net_sendHeartbeat s)).trans hsent, hread⟩

/-- Every heartbeat is one whole message.  A receiver reads its header and walks its records to
the end, and what they say of the clock is what the servo holds: the pull as far as 32 bits hold
it, and the sizes of the offset and of the path delay. -/
theorem heartbeat_whole (s : Info) :
    (∃ bytes, (sendHeartbeat s).net.sent = s.net.sent ++ [⟨s.net.txslot, bytes⟩] ∧
      captured bytes = some (s.net.ip, dantePortHeartbeat, heartbeat s)) ∧
      readInfoHeader (heartbeat s) = some ⟨0xFFFE, s.seqnum.toNat, s.processId.toNat,
        s.dev.deviceId.toList, vendorStr, heartbeatOpcode.toList⟩ ∧
      readRecords (heartbeat s) = some (heartbeatMeans s) ∧
      readClockReport (heartbeat s) =
        some ⟨(servoPpb s.ptp).bmod (2 ^ 32), reportedOffset s.ptp, reportedDelay s.ptp⟩ :=
  ⟨sent_sendHeartbeat s,
    (readInfoHeader_putTotalLength s (by decide) (by rw [length_heartbeatRecords]; decide)).1,
    readRecords_heartbeat s, readClockReport_heartbeat s⟩

/-- Whatever a heartbeat has to report, the tool takes it for a device with two received flows and
no latency: its scan of the captured frame yields the latency record, once, and nothing else. -/
theorem latency_tool_exact (s : Info) :
    ∃ bytes, (sendHeartbeat s).net.sent = s.net.sent ++ [⟨s.net.txslot, bytes⟩] ∧
      (captured bytes).map (fun c => (c.1, c.2.1, findLatencyBlocks c.2.2)) =
        some (s.net.ip, dantePortHeartbeat, [(48000, [0, 0])]) := by
  obtain ⟨bytes, hsent, hread⟩ := sent_sendHeartbeat s
  refine ⟨bytes, hsent, ?_⟩
  rw [hread, Option.map_some, findLatencyBlocks_heartbeat]

end Firmware
end InfernoFpga
