import InfernoFpga.Firmware.ArcPages

/-!
# ArcRoundTrip — an enumeration decodes to what the device has

Each of the four lists says what its items append; a page of any of them is then read back, and a
controller that asks on for as long as it is told that there is more has everything, once.
-/

namespace InfernoFpga
namespace Firmware

open Lib
open Mdns (Str ascii rd16 rd32 rd16_at rd32_at dantePortArc danteTxChannelName
  digits_danteTxChannelName digit_ne)

/-! ## Channels -/

section Channels

variable {s : ArcState} {off : Nat} {m : ArcMsg} {tail : List UInt8}

/-- Before the first item the tail is empty; from then on the common descriptor is in it, at
`common`. -/
def Described (s : ArcState) (off width : Nat) (n common : Nat) (tail : List UInt8) : Prop :=
  (common = 0 ∧ n = 0 ∧ tail = [] ∨
    common ≠ 0 ∧ common < 65536 ∧ ∃ j, common = off + j ∧ At tail j (commonDescriptor s)) ∧
  tail.length ≤ 16 + width * n

theorem length_commonDescriptor (s : ArcState) : (commonDescriptor s).length = 16 := rfl

theorem here_eq (hlen : m.len = off + tail.length) (hlt : off + tail.length < 65536) :
    m.here = off + tail.length := by
  rw [ArcMsg.here, hlen]
  exact Nat.mod_eq_of_lt hlt

/-- With the first item the common descriptor is put in front of it. -/
theorem withCommon_eq {width n common : Nat} (h : Described s off width n common tail)
    (hlen : m.len = off + tail.length) (hoff : 0 < off) (hlt : off + tail.length < 65536) :
    ∃ c' blob, withCommon s common m = (c', m.put blob) ∧ c' ≠ 0 ∧ c' < 65536 ∧
      (∃ j, c' = off + j ∧ At (tail ++ blob) j (commonDescriptor s)) ∧
      (tail ++ blob).length ≤ 16 + width * n := by
  obtain ⟨⟨rfl, rfl, rfl⟩ | ⟨hne, hsmall, j, hj, hat⟩, hsize⟩ := h
  · refine ⟨off, commonDescriptor s, ?_, Nat.ne_of_gt hoff, hlt, ⟨0, rfl, ?_⟩, ?_⟩
    · rw [withCommon, if_pos rfl, here_eq hlen hlt]
      rfl
    · exact At.of_append [] _
    · rw [List.nil_append, length_commonDescriptor]
      exact Nat.le_add_right _ _
  · refine ⟨common, [], ?_, hne, hsmall, ⟨j, hj, ?_⟩, ?_⟩
    · rw [withCommon, if_neg hne, ArcMsg.put, List.append_nil]
    · rw [List.append_nil]
      exact hat
    · rw [List.append_nil]
      exact hsize

/-- The format of a channel, wherever the tail has the common descriptor. -/
theorem readFormat_of_described {p : List UInt8} {c' j : Nat} (hc : c' = off + j)
    (hat : At tail j (commonDescriptor s)) (htail : At p off tail) :
    readFormat p c' = some (channelFormat s) := by
  rw [hc]
  exact readFormat_of_at (htail.sub hat)

theorem put_put (m : ArcMsg) (bs bs' : List UInt8) : (m.put bs).put bs' = m.put (bs ++ bs') := by
  rw [ArcMsg.put, ArcMsg.put, ArcMsg.put, List.append_assoc]

theorem len_put (m : ArcMsg) (bs : List UInt8) : (m.put bs).len = m.len + bs.length :=
  List.length_append

/-- The message and its tail grow together. -/
theorem len_put_tail {m : ArcMsg} {tail : List UInt8} {off : Nat} (h : m.len = off + tail.length)
    (bs : List UInt8) : (m.put bs).len = off + (tail ++ bs).length := by
  rw [len_put, h, List.length_append, Nat.add_assoc]

/-- What was appended last lies where the tail ended before. -/
theorem at_split {p tail blob blob' : List UInt8} {off : Nat}
    (h : At p off (tail ++ (blob ++ blob'))) :
    At p off (tail ++ blob) ∧ At p (off + (tail ++ blob).length) blob' := by
  rw [← List.append_assoc] at h
  exact At.append_iff.1 h

theorem length_withNul {name : Str} {k : Nat} (h : name.length ≤ k) :
    (name ++ [0]).length ≤ k + 1 := by
  rw [List.length_append]
  exact Nat.succ_le_succ h

theorem lists_txChannels (s : ArcState) :
    Lists (txChannelItem s) readTxChannel 8 32 danteTxChannels (Described s (tailAt 8 32) 4)
      (ArcList.txChannels.intended s) where
  skip := fun idx c m h => by cases h
  put := by
    intro idx c m tail n x hidx hlimit hn hx hlen hinv
    obtain rfl := Option.some.inj hx
    have hname := digits_danteTxChannelName idx
    have hshort := hname.short
    have hsize := hinv.2
    have hoff : tailAt 8 32 = 268 := rfl
    have hchan : danteTxChannels = 48 := rfl
    obtain ⟨c', blob, hcommon, hne, hsmall, ⟨j, hj, hat⟩, hgrown⟩ :=
      withCommon_eq hinv hlen (by decide) (by omega)
    have hhere := here_eq (len_put_tail hlen blob) (by omega)
    have hroom : tailAt 8 32 + (tail ++ blob).length < 65536 := by omega
    refine ⟨c', blob ++ (danteTxChannelName idx ++ [0]),
      [idx, 7, c', tailAt 8 32 + (tail ++ blob).length], ?_, rfl, ?_, .inr ⟨hne, hsmall, j, hj, ?_⟩,
      ?_⟩
    · simp only [txChannelItem, hcommon, ArcMsg.str, put_put, hhere]
    · -- what the slot means
      intro p at_ hslot htail
      have h0 : rd16 p at_ = idx := rd16_field hslot (k := 0) rfl (by omega)
      have h2 : rd16 p (at_ + 2) = 7 := rd16_field hslot (k := 1) rfl (by decide)
      have h4 : rd16 p (at_ + 4) = c' := rd16_field hslot (k := 2) rfl hsmall
      have h6 : rd16 p (at_ + 6) = tailAt 8 32 + (tail ++ blob).length :=
        rd16_field hslot (k := 3) rfl hroom
      have hstr := readStr_of_at (at_split htail).2 hname.noZero
      rw [← List.append_assoc] at htail
      have hformat := readFormat_of_described hj hat (At.append_iff.1 htail).1
      simp only [readTxChannel, h0, h2, h4, h6, hstr, hformat]
    · rw [← List.append_assoc]
      exact hat.keeps (Keeps.append 0 _ _) (Nat.zero_le j)
    · have hblob := length_withNul hshort
      rw [← List.append_assoc, List.length_append]
      omega
  short := by
    intro n c tail hn hinv
    have hsize := hinv.2
    have hoff : tailAt 8 32 = 268 := rfl
    have hsoft : packetSizeSoftLimit = 800 := rfl
    omega

/-- The friendly names begin with four zero bytes. -/
def Padded (n : Nat) (wrotePad : Bool) (tail : List UInt8) : Prop :=
  (wrotePad = false → n = 0 ∧ tail = []) ∧ tail.length ≤ 4 + 4 * n

theorem lists_txFriendlyNames (s : ArcState) :
    Lists txFriendlyItem readTxFriendly 6 32 danteTxChannels Padded
      (ArcList.txFriendlyNames.intended s) where
  skip := fun idx c m h => by cases h
  put := by
    intro idx c m tail n x hidx hlimit hn hx hlen hinv
    obtain rfl := Option.some.inj hx
    obtain ⟨hfirst, hsize⟩ := hinv
    have hname := digits_danteTxChannelName idx
    have hblob := length_withNul hname.short
    have hoff : tailAt 6 32 = 204 := rfl
    have hchan : danteTxChannels = 48 := rfl
    -- the padding, if it is still to be written
    obtain ⟨pad, hpad, hgrown⟩ : ∃ pad, (if c then m else m.put (Mem.be32 0)) = m.put pad ∧
        (tail ++ pad).length ≤ 4 + 4 * n := by
      cases c with
      | true =>
        refine ⟨[], ?_, ?_⟩
        · rw [if_pos rfl, ArcMsg.put, List.append_nil]
        · rw [List.append_nil]
          exact hsize
      | false =>
        obtain ⟨rfl, rfl⟩ := hfirst rfl
        exact ⟨Mem.be32 0, rfl, Nat.le_refl 4⟩
    have hhere := here_eq (len_put_tail hlen pad) (by omega)
    have hroom : tailAt 6 32 + (tail ++ pad).length < 65536 := by omega
    refine ⟨true, pad ++ (danteTxChannelName idx ++ [0]),
      [idx, idx, tailAt 6 32 + (tail ++ pad).length], ?_, rfl, ?_,
      ⟨fun hfalse => absurd hfalse (by decide), ?_⟩⟩
    · simp only [txFriendlyItem, hpad, ArcMsg.str, put_put, hhere]
    · intro p at_ hslot htail
      have h0 : rd16 p at_ = idx := rd16_field hslot (k := 0) rfl (by omega)
      have h2 : rd16 p (at_ + 2) = idx := rd16_field hslot (k := 1) rfl (by omega)
      have h4 : rd16 p (at_ + 4) = tailAt 6 32 + (tail ++ pad).length :=
        rd16_field hslot (k := 2) rfl hroom
      have hstr := readStr_of_at (at_split htail).2 hname.noZero
      rw [readTxFriendly, h0, h2, h4, hstr]
      rfl
    · rw [← List.append_assoc, List.length_append]
      omega
  short := by
    intro n c tail hn hinv
    have hsize := hinv.2
    have hoff : tailAt 6 32 = 204 := rfl
    have hsoft : packetSizeSoftLimit = 800 := rfl
    omega

/-! ## Subscriptions -/

/-- What a subscription appends can be read back: both names, or one, or none. -/
theorem putSubscription_eq {txName txHost : Str} (htx : (0 : UInt8) ∉ txName)
    (hhost : (0 : UInt8) ∉ txHost) (htxlen : txName.length ≤ 31) (hhostlen : txHost.length ≤ 31)
    {m : ArcMsg} (hpos : 0 < m.len) (hlt : m.len < 1024) :
    ∃ blob txOff hostOff, putSubscription txName txHost m =
        (m.put blob, txOff, hostOff, if txName = [] then 0 else subStatusPending) ∧
      blob.length ≤ 64 ∧ txOff < 65536 ∧ hostOff < 65536 ∧
      ∀ p, At p m.len blob → readStr? p txOff = some (named? txName) ∧
        readStr? p hostOff = some (named? (if txName = [] then [] else txHost)) := by
  have hnil : ∀ p : List UInt8, readStr? p 0 = some (named? []) := fun p => rfl
  by_cases hno : txName = []
  · refine ⟨[], 0, 0, ?_, by decide, by decide, by decide, fun p _ => ?_⟩
    · rw [putSubscription, if_pos hno, if_pos hno, ArcMsg.put, List.append_nil]
    · rw [if_pos hno, hno]
      exact ⟨hnil p, hnil p⟩
  have hhere : m.here = m.len := Nat.mod_eq_of_lt (by omega)
  have htxblob := length_withNul htxlen
  by_cases hnohost : txHost = []
  · refine ⟨txName ++ [0], m.len, 0, ?_, by omega, by omega, by decide, fun p hat => ⟨?_, ?_⟩⟩
    · simp only [putSubscription, if_neg hno, if_pos hnohost, ArcMsg.str, hhere]
    · exact readStr?_of_at htx (.inr ⟨hno, Nat.ne_of_gt hpos, hat⟩)
    · rw [if_neg hno, hnohost]
      exact hnil p
  · have hhostblob := length_withNul hhostlen
    have hhere' : (m.put (txName ++ [0])).here = m.len + (txName ++ [0]).length := by
      rw [ArcMsg.here, len_put]
      exact Nat.mod_eq_of_lt (by omega)
    refine ⟨(txName ++ [0]) ++ (txHost ++ [0]), m.len, m.len + (txName ++ [0]).length, ?_, ?_,
      by omega, by omega, fun p hat => ?_⟩
    · simp only [putSubscription, if_neg hno, if_neg hnohost, ArcMsg.str, hhere, hhere', put_put]
    · rw [List.length_append]
      omega
    · obtain ⟨hfirst, hsecond⟩ := At.append_iff.1 hat
      refine ⟨readStr?_of_at htx (.inr ⟨hno, Nat.ne_of_gt hpos, hfirst⟩), ?_⟩
      rw [if_neg hno]
      exact readStr?_of_at hhost (.inr ⟨hnohost, by omega, hsecond⟩)

theorem subName_spec (names : Fin danteRxChannels → SubName) (idx : Nat) :
    (0 : UInt8) ∉ subName names idx ∧ (subName names idx).length ≤ 31 := by
  rw [subName]
  split
  · rename_i h
    obtain ⟨hlen, hzero⟩ := (names ⟨idx - 1, h⟩).2
    exact ⟨hzero, Nat.le_of_lt_succ hlen⟩
  · exact ⟨List.not_mem_nil, Nat.zero_le _⟩

theorem rxChannelName_spec {idx : Nat} (h : idx < 10) :
    (0 : UInt8) ∉ rxChannelName idx ∧ (rxChannelName idx).length ≤ 3 := by
  refine ⟨fun hmem => ?_, Nat.le_refl 3⟩
  rcases List.mem_append.1 hmem with hmem | hmem
  · revert hmem
    decide
  · exact (digit_ne idx h).2 (List.mem_singleton.1 hmem).symm

theorem lists_rxChannels (s : ArcState) :
    Lists (rxChannelItem s) readRxChannel 20 danteRxChannels danteRxChannels
      (Described s (tailAt 20 danteRxChannels) 68) (ArcList.rxChannels.intended s) where
  skip := fun idx c m h => by cases h
  put := by
    intro idx c m tail n x hidx hlimit hn hx hlen hinv
    obtain rfl := Option.some.inj hx
    have hsize := hinv.2
    have hoff : tailAt 20 danteRxChannels = 52 := rfl
    have hchan : danteRxChannels = 2 := rfl
    obtain ⟨hnameZero, hnameLen⟩ := rxChannelName_spec (by omega : idx < 10)
    obtain ⟨htxZero, htxLen⟩ := subName_spec s.subTxName idx
    obtain ⟨hhostZero, hhostLen⟩ := subName_spec s.subTxHost idx
    have hblob := length_withNul hnameLen
    obtain ⟨c', blob, hcommon, hne, hsmall, ⟨j, hj, hat⟩, hgrown⟩ :=
      withCommon_eq hinv hlen (by decide) (by omega)
    have hhere := here_eq (len_put_tail hlen blob) (by omega)
    have hroom : tailAt 20 danteRxChannels + (tail ++ blob).length < 65536 := by omega
    -- the names of the subscription
    have hlong := len_put_tail hlen (blob ++ (rxChannelName idx ++ [0]))
    have hnamed : (tail ++ (blob ++ (rxChannelName idx ++ [0]))).length ≤ 20 + 68 * n := by
      rw [← List.append_assoc, List.length_append]
      omega
    obtain ⟨blob', txOff, hostOff, hsub, hsublen, htx, hhost, hread⟩ :=
      putSubscription_eq htxZero hhostZero htxLen hhostLen
        (m := m.put (blob ++ (rxChannelName idx ++ [0]))) (by omega) (by omega)
    refine ⟨c', blob ++ (rxChannelName idx ++ [0]) ++ blob',
      [idx, 6, c', txOff, hostOff, tailAt 20 danteRxChannels + (tail ++ blob).length,
        (if subName s.subTxName idx = [] then 0 else subStatusPending) / 65536,
        (if subName s.subTxName idx = [] then 0 else subStatusPending) % 65536, 0, 0],
      ?_, rfl, ?_, ⟨.inr ⟨hne, hsmall, j, hj, ?_⟩, ?_⟩⟩
    · simp only [rxChannelItem, hcommon, ArcMsg.str, put_put, hhere]
      simp only [hsub, put_put]
    · intro p at_ hslot htail
      have h0 : rd16 p at_ = idx := rd16_field hslot (k := 0) rfl (by omega)
      have h2 : rd16 p (at_ + 2) = 6 := rd16_field hslot (k := 1) rfl (by decide)
      have h4 : rd16 p (at_ + 4) = c' := rd16_field hslot (k := 2) rfl hsmall
      have h6 : rd16 p (at_ + 6) = txOff := rd16_field hslot (k := 3) rfl htx
      have h8 : rd16 p (at_ + 8) = hostOff := rd16_field hslot (k := 4) rfl hhost
      have h10 : rd16 p (at_ + 10) = tailAt 20 danteRxChannels + (tail ++ blob).length :=
        rd16_field hslot (k := 5) rfl hroom
      have h12 : rd32 p (at_ + 12) =
          if subName s.subTxName idx = [] then 0 else subStatusPending := by
        have hhi : rd16 p (at_ + 12) = _ := rd16_field hslot (k := 6) rfl (by split <;> decide)
        have hlo : rd16 p (at_ + 14) = _ := rd16_field hslot (k := 7) rfl (by split <;> decide)
        rw [rd32, hhi, hlo]
        split <;> rfl
      rw [← List.append_assoc] at htail
      obtain ⟨htail, hnames⟩ := At.append_iff.1 htail
      rw [← hlong] at hnames
      obtain ⟨htxName, htxHost⟩ := hread p hnames
      have hstr := readStr_of_at (at_split htail).2 hnameZero
      rw [← List.append_assoc] at htail
      have hformat := readFormat_of_described hj hat (At.append_iff.1 htail).1
      simp only [readRxChannel, h0, h2, h4, h6, h8, h10, h12, hstr, hformat, htxName, htxHost]
      rfl
    · rw [List.append_assoc, ← List.append_assoc tail]
      exact hat.keeps (Keeps.append 0 _ _) (Nat.zero_le j)
    · rw [← List.append_assoc tail, List.length_append]
      omega
  short := by
    intro n c tail hn hinv
    have hsize := hinv.2
    have hoff : tailAt 20 danteRxChannels = 52 := rfl
    have hchan : danteRxChannels = 2 := rfl
    have hsoft : packetSizeSoftLimit = 800 := rfl
    omega

end Channels

/-! ## Flows -/

section Flows

variable {s : ArcState} {slot : FlowSlot}

theorem processDigits_spec (divs : List Nat) (pid : Nat) (lead : Bool) :
    (0 : UInt8) ∉ processDigits divs pid lead ∧
      (processDigits divs pid lead).length ≤ divs.length := by
  induction divs generalizing lead with
  | nil => exact ⟨List.not_mem_nil, Nat.le_refl 0⟩
  | cons div divs ih =>
    rw [processDigits]
    split
    · obtain ⟨hzero, hlen⟩ := ih true
      have hdigit := (digit_ne (pid / div % 10) (Nat.mod_lt _ (by decide))).2
      exact ⟨List.not_mem_cons_of_ne_of_not_mem hdigit.symm hzero, Nat.succ_le_succ hlen⟩
    · obtain ⟨hzero, hlen⟩ := ih lead
      exact ⟨hzero, Nat.le_succ_of_le hlen⟩

theorem flowName_spec (s : ArcState) {f : Nat} (hf : f < 10) :
    (0 : UInt8) ∉ flowName s f ∧ (flowName s f).length ≤ 7 := by
  obtain ⟨hzero, hlen⟩ := processDigits_spec [10000, 1000, 100, 10, 1] s.processId.toNat false
  have hdigit := (digit_ne (f % 10) (Nat.mod_lt _ (by decide))).2
  have hname : flowName s f = Mdns.digit (f % 10) :: 95 ::
      processDigits [10000, 1000, 100, 10, 1] s.processId.toNat false := by
    rw [flowName, if_neg (by omega)]
    rfl
  rw [hname]
  refine ⟨List.not_mem_cons_of_ne_of_not_mem hdigit.symm
    (List.not_mem_cons_of_ne_of_not_mem (by decide) hzero), ?_⟩
  exact Nat.succ_le_succ (Nat.succ_le_succ hlen)

theorem flowLatency_lt (s : ArcState) : flowLatency s < 2 ^ 32 := by
  have hlat := s.latencyNs.toNat_lt
  rw [flowLatency, danteTxLatencyEffective]
  split
  · refine max_lt ?_ hlat
    cases hfind : stdLat.find? _ with
    | none => exact (by decide : 5000000 < 2 ^ 32)
    | some lat =>
      have hstd : ∀ lat ∈ stdLat, lat < 2 ^ 32 := by decide
      exact hstd lat (List.mem_of_find?_eq_some hfind)
  · exact hlat

theorem length_fieldBytes (fields : List Nat) : (fieldBytes fields).length = 2 * fields.length := by
  induction fields with
  | nil => rfl
  | cons v fields ih =>
    have hcons : fieldBytes (v :: fields) = Mem.be16 v ++ fieldBytes fields := rfl
    rw [hcons, List.length_append, ih, List.length_cons, Nat.mul_succ, Nat.add_comm]
    rfl

theorem length_flowChans (slot : FlowSlot) : (flowChans slot).length = slot.nslots.val := by
  have hn := slot.nslots.2.2
  rw [flowChans, List.length_map, List.length_take, List.length_finRange, Nat.min_eq_left hn]

theorem flowChans_lt (slot : FlowSlot) : ∀ v ∈ flowChans slot, v < 65536 := by
  intro v hv
  obtain ⟨c, -, rfl⟩ := List.mem_map.1 hv
  exact (slot.chans c).isLt

theorem length_flowDescriptor (s : ArcState) (slot : FlowSlot) (f sockOff namesOff : Nat) :
    (flowDescriptor s slot f sockOff namesOff).length = 20 + 2 * slot.nslots.val := by
  have hfields := length_fieldBytes (flowChans slot)
  rw [length_flowChans] at hfields
  simp only [flowDescriptor, List.length_append, hfields, length_be16, Mem.be32]
  omega

theorem flowExtId_lt (slot : FlowSlot) (f : Nat) : flowExtId slot f < 65536 := by
  rw [flowExtId]
  split
  · exact Nat.mod_lt _ (by decide)
  · exact slot.extId.isLt

/-- A flow is read from where its blocks lie. -/
theorem readTxFlow_of_at {p : List UInt8} {x f nameOff sockOff namesOff descrOff : Nat}
    (hf : f < 10) (hslot : At p x (fieldBytes [descrOff])) (hname : At p nameOff (flowName s f ++ [0]))
    (hsock : At p sockOff (flowSocket slot)) (hnames : At p namesOff (flowNames s nameOff))
    (hdescr : At p descrOff (flowDescriptor s slot (f - 1) sockOff namesOff))
    (hnameOff : nameOff < 65536) (hsockOff : sockOff < 65536) (hnamesOff : namesOff < 65536)
    (hdescrOff : descrOff < 65536) : readTxFlow p x = some (txFlowOf s f slot) := by
  have hn := slot.nslots.2.2
  have hbits := s.bitsPerSample.toNat_lt
  have hd : rd16 p x = descrOff := rd16_field hslot (k := 0) rfl hdescrOff
  -- all three blocks lie inside the packet
  have hend := hdescr.lt (List.append_ne_nil_of_right_ne_nil _ (List.cons_ne_nil _ _))
  rw [length_flowDescriptor] at hend
  have hsockEnd : sockOff + 8 ≤ p.length := hsock.lt (List.cons_ne_nil _ _)
  have hnamesEnd : namesOff + 20 ≤ p.length := hnames.lt (List.cons_ne_nil _ _)
  -- the descriptor
  obtain ⟨h, hfoot⟩ := At.append_iff.1 hdescr
  obtain ⟨h, hchans⟩ := At.append_iff.1 h
  obtain ⟨h, hsock16⟩ := At.append_iff.1 h
  obtain ⟨h, hns⟩ := At.append_iff.1 h
  obtain ⟨h, -⟩ := At.append_iff.1 h
  obtain ⟨h, hbits10⟩ := At.append_iff.1 h
  obtain ⟨h, -⟩ := At.append_iff.1 h
  obtain ⟨h, hrate⟩ := At.append_iff.1 h
  obtain ⟨hext, htype⟩ := At.append_iff.1 h
  have h0 : rd16 p descrOff = flowExtId slot (f - 1) :=
    (rd16_at hext).trans (Nat.mod_eq_of_lt (flowExtId_lt slot _))
  have h2 : rd16 p (descrOff + 2) = if slot.mcast then 2 else 0x11 :=
    (rd16_at htype).trans (Nat.mod_eq_of_lt (by split <;> decide))
  have h4 : rd32 p (descrOff + 4) = s.sampleRate.toNat := rd32_at hrate s.sampleRate.toNat_lt
  have h10 : rd16 p (descrOff + 10) = s.bitsPerSample.toNat :=
    (rd16_at hbits10).trans (Nat.mod_eq_of_lt (by omega))
  have h14 : rd16 p (descrOff + 14) = slot.nslots.val :=
    (rd16_at hns).trans (Nat.mod_eq_of_lt (by omega))
  have h16 : rd16 p (descrOff + 16) = sockOff :=
    (rd16_at hsock16).trans (Nat.mod_eq_of_lt hsockOff)
  have h18 : readFields p (descrOff + 18) slot.nslots.val = flowChans slot := by
    rw [← length_flowChans]
    exact readFields_of_at hchans (flowChans_lt slot)
  have hfoot' : rd16 p (descrOff + 18 + 2 * slot.nslots.val) = namesOff := by
    have hat := (rd16_at hfoot).trans (Nat.mod_eq_of_lt hnamesOff)
    simp only [List.length_append, length_be16, Mem.be32, length_fieldBytes, length_flowChans] at hat
    rw [← hat]
    congr 1
    omega
  -- the socket
  obtain ⟨h, haddr⟩ := At.append_iff.1 hsock
  obtain ⟨htransport, hport⟩ := At.append_iff.1 h
  have hs0 : rd16 p sockOff = 0x8002 := rd16_at htransport
  have hs2 : rd16 p (sockOff + 2) = slot.dport.toNat :=
    (rd16_at hport).trans (Nat.mod_eq_of_lt slot.dport.isLt)
  have hs4 : (p.drop (sockOff + 4)).take 4 = slot.dst.bytes := haddr.slice
  -- the names
  obtain ⟨h, -⟩ := At.append_iff.1 hnames
  obtain ⟨h, hlatency⟩ := At.append_iff.1 h
  obtain ⟨h, hlocal⟩ := At.append_iff.1 h
  obtain ⟨h, -⟩ := At.append_iff.1 h
  obtain ⟨h, hremoteFlow⟩ := At.append_iff.1 h
  obtain ⟨-, hremoteHost⟩ := At.append_iff.1 h
  have hn4 : rd16 p (namesOff + 4) = 0 := rd16_at hremoteHost
  have hn6 : rd16 p (namesOff + 6) = 0 := rd16_at hremoteFlow
  have hn10 : rd16 p (namesOff + 10) = nameOff :=
    (rd16_at hlocal).trans (Nat.mod_eq_of_lt hnameOff)
  have hn12 : rd32 p (namesOff + 12) = flowLatency s := rd32_at hlatency (flowLatency_lt s)
  have hstr := readStr_of_at hname (flowName_spec s hf).1
  have hnone : readStr? p 0 = some none := rfl
  simp only [readTxFlow, hd, h0, h2, h4, h10, h14, h16, h18, hfoot', hs0, hs2, hs4, hn4, hn6, hn10,
    hn12, hstr, hnone]
  rw [if_neg (by omega)]
  rfl

theorem lists_txFlows (s : ArcState) :
    Lists (txFlowItem s) readTxFlow 2 nFlows nFlows (fun n _ tail => tail.length ≤ 76 * n)
      (ArcList.txFlows.intended s) where
  skip := by
    intro f c m hnone
    have hdesc : danteTxFlowDesc s.tx (f - 1) = none := Option.map_eq_none_iff.1 hnone
    simp only [txFlowItem, hdesc]
  put := by
    intro f c m tail n x hidx hlimit hn hx hlen hinv
    obtain ⟨slot, hdesc, rfl⟩ := Option.map_eq_some_iff.1 hx
    have hoff : tailAt 2 nFlows = 24 := rfl
    have hflows : nFlows = 6 := rfl
    have hns := slot.nslots.2.2
    obtain ⟨-, hshort⟩ := flowName_spec s (by omega : f < 10)
    -- where the four parts begin
    let b1 := flowName s f ++ [0]
    have hname : b1.length ≤ 8 := length_withNul hshort
    let pad : List UInt8 := List.replicate ((4 - (m.put b1).len % 4) % 4) 0
    have hpad : pad.length ≤ 3 := by
      rw [List.length_replicate]
      omega
    have halign : (m.put b1).align4 = m.put (b1 ++ pad) := put_put m b1 pad
    have hb2 : (tail ++ (b1 ++ pad)).length ≤ 76 * n + 11 := by
      rw [List.length_append, List.length_append]
      omega
    have hnameOff := here_eq hlen (by omega)
    have hsockOff := here_eq (len_put_tail hlen (b1 ++ pad)) (by omega)
    have hb3 : (tail ++ (b1 ++ pad ++ flowSocket slot)).length ≤ 76 * n + 19 := by
      have hsock : (flowSocket slot).length = 8 := rfl
      rw [← List.append_assoc, List.length_append, hsock]
      omega
    have hnamesOff := here_eq (len_put_tail hlen (b1 ++ pad ++ flowSocket slot)) (by omega)
    have hb4 : (tail ++ (b1 ++ pad ++ flowSocket slot ++
        flowNames s (tailAt 2 nFlows + tail.length))).length ≤ 76 * n + 39 := by
      have hnames : (flowNames s (tailAt 2 nFlows + tail.length)).length = 20 := rfl
      rw [← List.append_assoc, List.length_append, hnames]
      omega
    have hdescrOff := here_eq (len_put_tail hlen (b1 ++ pad ++ flowSocket slot ++
      flowNames s (tailAt 2 nFlows + tail.length))) (by omega)
    have hdescr := length_flowDescriptor s slot (f - 1)
      (tailAt 2 nFlows + (tail ++ (b1 ++ pad)).length)
      (tailAt 2 nFlows + (tail ++ (b1 ++ pad ++ flowSocket slot)).length)
    refine ⟨(), b1 ++ pad ++ flowSocket slot ++ flowNames s (tailAt 2 nFlows + tail.length) ++
        flowDescriptor s slot (f - 1) (tailAt 2 nFlows + (tail ++ (b1 ++ pad)).length)
          (tailAt 2 nFlows + (tail ++ (b1 ++ pad ++ flowSocket slot)).length),
      [tailAt 2 nFlows + (tail ++ (b1 ++ pad ++ flowSocket slot ++
        flowNames s (tailAt 2 nFlows + tail.length))).length], ?_, rfl, ?_, ?_⟩
    · have hstr : m.str (flowName s f) = (m.put b1, tailAt 2 nFlows + tail.length) := by
        rw [ArcMsg.str, hnameOff]
      simp only [txFlowItem, hdesc, hstr, halign, hsockOff, put_put, hnamesOff, hdescrOff]
    · intro p at_ hslot htail
      obtain ⟨htail, hdescrAt⟩ := at_split htail
      obtain ⟨htail, hnamesAt⟩ := at_split htail
      obtain ⟨htail, hsockAt⟩ := at_split htail
      obtain ⟨htail, -⟩ := at_split htail
      obtain ⟨-, hnameAt⟩ := At.append_iff.1 htail
      exact readTxFlow_of_at (by omega) hslot hnameAt hsockAt hnamesAt hdescrAt (by omega)
        (by omega) (by omega) (by omega)
    · rw [← List.append_assoc, List.length_append, hdescr]
      omega
  short := by
    intro n c tail hn hinv
    have hoff : tailAt 2 nFlows = 24 := rfl
    have hflows : nFlows = 6 := rfl
    have hsoft : packetSizeSoftLimit = 800 := rfl
    omega

end Flows

/-! ## Every list -/

/-- A list either fits a page or has something at every index. -/
theorem ArcList.dense (s : ArcState) (op : ArcList) :
    op.limit ≤ op.room ∨ ∀ idx, op.intended s idx ≠ none := by
  cases op with
  | txChannels => exact .inr fun _ => Option.some_ne_none _
  | txFriendlyNames => exact .inr fun _ => Option.some_ne_none _
  | rxChannels => exact .inl (Nat.le_refl _)
  | txFlows => exact .inl (Nat.le_refl _)

theorem one_le_arcStart (q : Datagram) : 1 ≤ arcStart q := by
  have hpos : ∀ v : Nat, 1 ≤ if v = 0 then 1 else v := by
    intro v
    split <;> omega
  exact hpos _

/-- A reply decodes to the first page of what there is from the start index on. -/
theorem decode_arcReply (s : ArcState) (op : ArcList) (q : Datagram) :
    op.decode (arcReply s op q).buf =
        some ⟨if op.room < (op.itemsFrom s (arcStart q)).length then danteCodeMore
            else danteCodeOk, (op.itemsFrom s (arcStart q)).take op.room⟩ ∧
      (arcReply s op q).len < packetSizeSoftLimit := by
  have hstart := one_le_arcStart q
  have hdense := op.dense s
  cases op with
  | txChannels =>
    exact readPage_arcPage (lists_txChannels s) ⟨.inl ⟨rfl, rfl, rfl⟩, Nat.zero_le _⟩ (by decide)
      q.req hstart hdense rfl rfl
  | txFriendlyNames =>
    exact readPage_arcPage (lists_txFriendlyNames s) ⟨fun _ => ⟨rfl, rfl⟩, Nat.zero_le _⟩
      (by decide) q.req hstart hdense rfl rfl
  | rxChannels =>
    exact readPage_arcPage (lists_rxChannels s) ⟨.inl ⟨rfl, rfl, rfl⟩, Nat.zero_le _⟩ (by decide)
      q.req hstart hdense rfl rfl
  | txFlows =>
    exact readPage_arcPage (lists_txFlows s) (Nat.zero_le _) (by decide) q.req hstart hdense rfl rfl

/-! ## On the wire -/

/-- The reply goes out as one datagram. -/
theorem sent_arcRx (s : ArcState) (n : Net) {op : ArcList} {q : Datagram} {dmac : Mac}
    (hask : q.Asks op) (hmac : arpResolve n q.srcIp = some dmac) :
    ∃ n' frame, arcRx s n q = some n' ∧ n'.sent = n.sent ++ [⟨n.txslot, frame⟩] ∧
      udpPayload frame = (arcReply s op q).buf := by
  have hshort := (decode_arcReply s op q).2
  have hfind : (ArcList.all.find? fun op' => op'.opcode == q.opcode1) = some op := by
    rw [hask.opcode1]
    cases op <;> decide
  have hlen : (arcReply s op q).len ≤ netMaxPayload :=
    (Nat.le_of_lt hshort).trans (by decide)
  have hhit : arpResolve (txStore n udpPayloadOff (arcReply s op q).buf) q.srcIp = some dmac := by
    rw [txStore, arpResolve_slotStore]
    exact hmac
  have hsent := (netUdpCommit_hit q.srcPort dantePortArc netTosBestEffort hlen hhit).2
  refine ⟨_, _, ?_, hsent, ?_⟩
  · rw [arcRx, if_neg (Nat.not_lt.2 hask.len), if_neg (not_not.2 hask.opcode2), hfind]
    rfl
  · rw [udpPayload_commitFrame _ _ _ _ _ _ hlen]
    have hslot : txBuf (txStore n udpPayloadOff (arcReply s op q).buf) =
        Mem.store (txBuf n) udpPayloadOff (arcReply s op q).buf := by
      rw [txBuf, txStore, txslot_slotStore, slots_slotStore_self, txBuf]
    rw [hslot]
    exact Mem.slice_store_same _ _ _

/-! ## A controller -/

/-- A controller that asks on from where it left off, for as long as it is told that more items
remain; it gives up after `n` questions. -/
def followMore (ask : Nat → Option ArcPage) : Nat → Nat → Option (List ArcItem)
  | 0, _ => none
  | n + 1, start =>
      match ask start with
      | none => none
      | some page =>
          if page.code = danteCodeMore then
            (followMore ask n (start + page.items.length)).map (page.items ++ ·)
          else some page.items

theorem length_filterMap_of_some {α β : Type*} {f : α → Option β} (h : ∀ x, f x ≠ none)
    (l : List α) : (l.filterMap f).length = l.length := by
  induction l with
  | nil => rfl
  | cons x l ih =>
    obtain ⟨y, hy⟩ := Option.ne_none_iff_exists'.1 (h x)
    rw [List.filterMap_cons, hy, List.length_cons, ih, List.length_cons]

/-- What remains behind a full page is what there is from its end on. -/
theorem drop_itemsFrom (s : ArcState) (op : ArcList) {start : Nat} (hstart : 1 ≤ start)
    (hmore : op.room < (op.itemsFrom s start).length) :
    (op.itemsFrom s start).drop op.room = op.itemsFrom s (start + op.room) ∧
      start + op.room ≤ op.limit := by
  have hcount := List.length_filterMap_le (op.intended s)
    (List.range' start (op.limit + 1 - start))
  rw [List.length_range'] at hcount
  have hsome := (op.dense s).resolve_left fun hle => by
    rw [ArcList.itemsFrom] at hmore
    omega
  have hsplit : op.limit + 1 - start = op.room + (op.limit + 1 - (start + op.room)) := by
    rw [ArcList.itemsFrom] at hmore
    omega
  refine ⟨?_, by rw [ArcList.itemsFrom] at hmore; omega⟩
  rw [ArcList.itemsFrom, hsplit, ← List.range'_append_1, List.filterMap_append]
  have hfirst := length_filterMap_of_some hsome (List.range' start op.room)
  rw [List.length_range'] at hfirst
  rw [List.drop_left' hfirst]
  rfl

/-- The requests of a controller: each carries the start index it is for. -/
def Queries (op : ArcList) (query : Nat → Datagram) : Prop :=
  ∀ start, 1 ≤ start → start < 65536 → (query start).Asks op ∧ arcStart (query start) = start

/-- Two questions are enough for any list, and the controller has everything, in order. -/
theorem followMore_itemsFrom (s : ArcState) {op : ArcList} {query : Nat → Datagram}
    (hq : Queries op query) (n : Nat) :
    followMore (fun start => op.decode (arcReply s op (query start)).buf) (n + 2) 1 =
      some (op.itemsFrom s 1) := by
  have hlimit : op.limit ≤ 48 := by cases op <;> decide
  have hroom : op.limit ≤ 2 * op.room := by cases op <;> decide
  have hpage : ∀ start, 1 ≤ start → start < 65536 →
      op.decode (arcReply s op (query start)).buf =
        some ⟨if op.room < (op.itemsFrom s start).length then danteCodeMore else danteCodeOk,
          (op.itemsFrom s start).take op.room⟩ := by
    intro start hlo hhi
    have hdecode := (decode_arcReply s op (query start)).1
    rwa [(hq start hlo hhi).2] at hdecode
  -- a page that is the last one
  have hlast : ∀ k start, 1 ≤ start → start < 65536 →
      ¬ op.room < (op.itemsFrom s start).length →
        followMore (fun start => op.decode (arcReply s op (query start)).buf) (k + 1) start =
          some (op.itemsFrom s start) := by
    intro k start hlo hhi hend
    rw [followMore, hpage start hlo hhi, if_neg hend]
    simp only
    rw [if_neg (by decide), List.take_of_length_le (Nat.le_of_not_lt hend)]
  by_cases hmore : op.room < (op.itemsFrom s 1).length
  · obtain ⟨hdrop, hnext⟩ := drop_itemsFrom s op (Nat.le_refl 1) hmore
    have hcount : ((op.itemsFrom s 1).take op.room).length = op.room := by
      rw [List.length_take, Nat.min_eq_left (Nat.le_of_lt hmore)]
    have hend : ¬ op.room < (op.itemsFrom s (1 + op.room)).length := by
      have hle := List.length_filterMap_le (op.intended s)
        (List.range' (1 + op.room) (op.limit + 1 - (1 + op.room)))
      rw [List.length_range'] at hle
      rw [ArcList.itemsFrom]
      omega
    have hrest := hlast n (1 + op.room) (by omega) (by omega) hend
    rw [followMore, hpage 1 (Nat.le_refl 1) (by decide), if_pos hmore]
    simp only
    rw [if_pos trivial, hcount, hrest, Option.map_some, ← hdrop, List.take_append_drop]
  · exact hlast (n + 1) 1 (Nat.le_refl 1) (by decide) hmore

/-- The enumerations decode: every reply to the items it is about, within one datagram, and all
pages of a list together to everything the device has. -/
theorem arc_enumeration_decodes (s : ArcState) (op : ArcList) :
    (∀ q, op.decode (arcReply s op q).buf =
        some ⟨if op.room < (op.itemsFrom s (arcStart q)).length then danteCodeMore
          else danteCodeOk, (op.itemsFrom s (arcStart q)).take op.room⟩ ∧
      (arcReply s op q).len ≤ netMaxPayload) ∧
    (∀ n q dmac, q.Asks op → arpResolve n q.srcIp = some dmac →
      ∃ n' frame, arcRx s n q = some n' ∧ n'.sent = n.sent ++ [⟨n.txslot, frame⟩] ∧
        udpPayload frame = (arcReply s op q).buf) ∧
    ∀ query, Queries op query → ∀ n, 2 ≤ n →
      followMore (fun start => op.decode (arcReply s op (query start)).buf) n 1 =
        some (op.itemsFrom s 1) := by
  refine ⟨fun q => ⟨(decode_arcReply s op q).1, ?_⟩, fun n q dmac hask hmac =>
    sent_arcRx s n hask hmac, fun query hq n hn => ?_⟩
  · exact (Nat.le_of_lt (decode_arcReply s op q).2).trans (by decide)
  · obtain ⟨k, rfl⟩ := Nat.exists_eq_add_of_le' hn
    exact followMore_itemsFrom s hq k

/-! ## The transmit channels at boot -/

/-- A request for a list from `start` on. -/
def arcQuery (op : ArcList) (start : Nat) : Datagram :=
  { srcIp := ⟨169, 254, 1, 1⟩, srcPort := 1024
    req := fun k => ([0x28, 0x09, 0, 14, 0, 1] ++ Mem.be16 op.opcode ++ Mem.be16 0 ++
      [0, 1] ++ Mem.be16 start).getD k 0
    len := 14 }

theorem queries_arcQuery (op : ArcList) : Queries op (arcQuery op) := by
  intro start hlo hhi
  have hopcode : op.opcode < 2 ^ 16 := by cases op <;> decide
  have hlen : (arcQuery op start).len = 14 := rfl
  have hcode1 : Mem.rd16 (arcQuery op start).req 6 = op.opcode := be16_read hopcode
  have hcode2 : Mem.rd16 (arcQuery op start).req 8 = 0 := be16_read (by decide : 0 < 2 ^ 16)
  have hstart : Mem.rd16 (arcQuery op start).req (danteHdrLen + 2) = start := be16_read hhi
  have hfour : 4 ≤ 14 - danteHdrLen := by decide
  refine ⟨⟨(by decide : danteHdrLen ≤ 14), hcode2, hcode1⟩, ?_⟩
  simp only [arcStart, hlen, hstart, if_pos hfour]
  exact if_neg (Nat.ne_of_gt hlo)

/-- The state of the device as it starts. -/
def arcBoot : ArcState :=
  { sampleRate := 48000, bitsPerSample := 24, processId := 0
    tx := Tx.boot ⟨169, 254, 9, 200⟩ ⟨0x02, 0, 0, 0, 0, 0x42⟩
    latencyNs := 1000000, latencyAutoraise := false
    subTxName := fun _ => ⟨[], by decide⟩, subTxHost := fun _ => ⟨[], by decide⟩ }

theorem arc_enumeration_decodes_boot :
    followMore (fun start => ArcList.txChannels.decode
        (arcReply arcBoot .txChannels (arcQuery .txChannels start)).buf) 2 1 =
      some (ArcList.txChannels.itemsFrom arcBoot 1) ∧
    (ArcList.txChannels.itemsFrom arcBoot 1).length = 48 :=
  ⟨(arc_enumeration_decodes arcBoot .txChannels).2.2 _ (queries_arcQuery _) 2 (Nat.le_refl 2), rfl⟩

end Firmware
end InfernoFpga
