import InfernoFpga.Firmware.ArcRoundTrip
import InfernoFpga.Lib.Run

/-!
# Subscribe — the subscriptions a controller sets, and reads back

Request 0x3010 names a transmit channel and its host for one receive channel, by two offsets into
the request; request 0x3000 lists what is stored.  Whatever the offsets are, the handler reads
inside the request, and the list shows for each receive channel what the last request for it said.
-/

namespace InfernoFpga
namespace Firmware

open Lib
open Mdns (Str)

abbrev opSubscribe : Nat := 0x3010

/-! ## The request -/

/-- The loop of `sub_copy` from `n` on: the characters that are stored, and the offsets of the
request that are read.  The length of the request bounds its turns. -/
def subCopyLoop (q : Datagram) (off : Nat) : Nat → Nat → Str × List Nat
  | 0, _ => ([], [])
  | fuel + 1, n =>
      if q.len ≤ off + n then ([], [])
      else if q.req (off + n) = 0 ∨ danteMaxSubname - 1 ≤ n then ([], [off + n])
      else
        let (s, reads) := subCopyLoop q off fuel (n + 1)
        (q.req (off + n) :: s, [off + n, off + n] ++ reads)

/-- `sub_copy`, before it is stored. -/
def subCopyStr (q : Datagram) (off : Nat) : Str :=
  if off = 0 ∨ q.len ≤ off then [] else (subCopyLoop q off q.len 0).1

def subCopyReads (q : Datagram) (off : Nat) : List Nat :=
  if off = 0 ∨ q.len ≤ off then [] else (subCopyLoop q off q.len 0).2

theorem subCopyLoop_spec (q : Datagram) (off : Nat) : ∀ (fuel n : Nat),
    (0 : UInt8) ∉ (subCopyLoop q off fuel n).1 ∧
      (subCopyLoop q off fuel n).1.length ≤ danteMaxSubname - 1 - n ∧
      ∀ a ∈ (subCopyLoop q off fuel n).2, a < q.len
  | 0, n => ⟨List.not_mem_nil, Nat.zero_le _, List.forall_mem_nil _⟩
  | fuel + 1, n => by
      rw [subCopyLoop]
      split
      · exact ⟨List.not_mem_nil, Nat.zero_le _, List.forall_mem_nil _⟩
      rename_i hin
      split
      · refine ⟨List.not_mem_nil, Nat.zero_le _, fun a ha => ?_⟩
        rw [List.mem_singleton.1 ha]
        omega
      · rename_i hgoes
        obtain ⟨hne, hroom⟩ := not_or.1 hgoes
        obtain ⟨hzero, hlen, hreads⟩ := subCopyLoop_spec q off fuel (n + 1)
        refine ⟨fun hmem => ?_, ?_, fun a ha => ?_⟩
        · rcases List.mem_cons.1 hmem with heq | hmem
          · exact hne heq.symm
          · exact hzero hmem
        · rw [List.length_cons]
          omega
        · rcases List.mem_append.1 ha with hhere | hlater
          · have heq : a = off + n := by simpa using hhere
            omega
          · exact hreads a hlater

/-- `sub_copy`: what it stores fits the array, terminator included. -/
def subCopy (q : Datagram) (off : Nat) : SubName :=
  ⟨subCopyStr q off, by
    rw [subCopyStr]
    split
    · exact ⟨by decide, List.not_mem_nil⟩
    · obtain ⟨hzero, hlen, -⟩ := subCopyLoop_spec q off q.len 0
      exact ⟨Nat.lt_of_le_of_lt hlen (by decide), hzero⟩⟩

namespace Datagram

variable (q : Datagram)

/-- A field of the content. -/
def contentU16 (a : Nat) : Nat := Mem.rd16 q.req (danteHdrLen + a)

/-- A request for a subscription that is long enough to be looked at. -/
def Subscribes : Prop :=
  danteHdrLen ≤ q.len ∧ q.opcode2 = 0 ∧ q.opcode1 = opSubscribe ∧ 8 ≤ q.len - danteHdrLen

instance : Decidable q.Subscribes := inferInstanceAs (Decidable (_ ∧ _))

end Datagram

/-- `sub_tx_name[ch - 1] = …`, for a channel there is. -/
def setSubName (names : Fin danteRxChannels → SubName) (ch : Nat) (name : SubName) :
    Fin danteRxChannels → SubName :=
  fun i => if i.val + 1 = ch then name else names i

/-- The case 0x3010 of `arc_rx`. -/
def arcSubscribe (s : ArcState) (q : Datagram) : ArcState :=
  if q.Subscribes then
    if 1 ≤ q.contentU16 2 ∧ q.contentU16 2 ≤ danteRxChannels then
      { s with
        subTxName := setSubName s.subTxName (q.contentU16 2) (subCopy q (q.contentU16 4))
        subTxHost := setSubName s.subTxHost (q.contentU16 2) (subCopy q (q.contentU16 6)) }
    else s
  else s

/-- The offsets of a request that `arc_rx` reads on its way through that case, the mirror
included. -/
def subscribeReads (q : Datagram) : List Nat :=
  if q.len < danteHdrLen then []
  else if q.opcode2 ≠ 0 then [8, 9]
  else
    [8, 9, 6, 7] ++ List.range danteHdrLen ++ List.range (min q.len 96) ++
      if q.Subscribes then
        List.range' (danteHdrLen + 2) 6 ++
          if 1 ≤ q.contentU16 2 ∧ q.contentU16 2 ≤ danteRxChannels then
            subCopyReads q (q.contentU16 4) ++ subCopyReads q (q.contentU16 6)
          else []
      else []

/-! ## What a request says -/

namespace Datagram

variable (q : Datagram)

/-- The string at an offset of the request: up to a zero byte or the end; none at offset 0 and
outside. -/
def stringAt (off : Nat) : Str :=
  if off = 0 then [] else (Mem.slice q.req off (q.len - off)).takeWhile (· ≠ 0)

/-- What the request sets for receive channel `idx`, if it is for it. -/
def sets (idx : Nat) : Option (Str × Str) :=
  if q.Subscribes ∧ q.contentU16 2 = idx then
    some ((q.stringAt (q.contentU16 4)).take (danteMaxSubname - 1),
      (q.stringAt (q.contentU16 6)).take (danteMaxSubname - 1))
  else none

end Datagram

/-- The names that were last set for `idx`, behind those of `s`. -/
def lastSet (s : ArcState) (qs : List Datagram) (idx : Nat) : Str × Str :=
  ((qs.filterMap fun q => q.sets idx).getLast?).getD
    (subName s.subTxName idx, subName s.subTxHost idx)

/-- A receive channel with the subscription `sub`: none without the name of a transmit channel. -/
def subscribed (s : ArcState) (idx : Nat) (sub : Str × Str) : ArcItem :=
  .rxChannel idx 6 (channelFormat s) (rxChannelName idx) (named? sub.1)
    (named? (if sub.1 = [] then [] else sub.2)) (if sub.1 = [] then 0 else subStatusPending)

/-! ## Copying -/

theorem subCopyLoop_eq (q : Datagram) (off : Nat) : ∀ (fuel n : Nat), q.len ≤ fuel + (off + n) →
    (subCopyLoop q off fuel n).1 =
      ((Mem.slice q.req (off + n) (q.len - (off + n))).takeWhile (· ≠ 0)).take
        (danteMaxSubname - 1 - n)
  | 0, n, hfuel => by
      have hend : q.len - (off + n) = 0 := by omega
      rw [hend]
      exact List.take_nil.symm
  | fuel + 1, n, hfuel => by
      rw [subCopyLoop]
      split
      · rename_i hend
        rw [Nat.sub_eq_zero_of_le hend]
        exact List.take_nil.symm
      rename_i hin
      have hslice : Mem.slice q.req (off + n) (q.len - (off + n)) =
          q.req (off + n) :: Mem.slice q.req (off + (n + 1)) (q.len - (off + (n + 1))) := by
        rw [show q.len - (off + n) = 1 + (q.len - (off + (n + 1))) by omega, Mem.slice_append]
        rfl
      rw [hslice]
      split
      · rename_i hstop
        rcases hstop with hzero | hfull
        · rw [hzero]
          exact List.take_nil.symm
        · rw [Nat.sub_eq_zero_of_le hfull]
          rfl
      · rename_i hgoes
        obtain ⟨hne, hroom⟩ := not_or.1 hgoes
        have hrest := subCopyLoop_eq q off fuel (n + 1) (by omega)
        rw [List.takeWhile_cons_of_pos (by simpa using hne),
          show danteMaxSubname - 1 - n = danteMaxSubname - 1 - (n + 1) + 1 by omega,
          List.take_succ_cons, ← hrest]

/-- What is stored is the start of the string at the offset. -/
theorem subCopyStr_eq (q : Datagram) (off : Nat) :
    subCopyStr q off = (q.stringAt off).take (danteMaxSubname - 1) := by
  rw [subCopyStr, Datagram.stringAt]
  by_cases hzero : off = 0
  · rw [if_pos (Or.inl hzero), if_pos hzero]
    rfl
  · by_cases hout : q.len ≤ off
    · rw [if_pos (Or.inr hout), if_neg hzero, Nat.sub_eq_zero_of_le hout]
      rfl
    · rw [if_neg (not_or.2 ⟨hzero, hout⟩), if_neg hzero]
      exact subCopyLoop_eq q off q.len 0 (Nat.le_add_right _ _)

theorem subCopyReads_lt (q : Datagram) (off : Nat) : ∀ a ∈ subCopyReads q off, a < q.len := by
  rw [subCopyReads]
  split
  · exact List.forall_mem_nil _
  · exact (subCopyLoop_spec q off q.len 0).2.2

theorem subscribeReads_lt (q : Datagram) : ∀ a ∈ subscribeReads q, a < q.len := by
  have hhdr : danteHdrLen = 10 := rfl
  intro a ha
  rw [subscribeReads] at ha
  split at ha
  · cases ha
  split at ha
  · simp only [List.mem_cons, List.not_mem_nil, or_false] at ha
    omega
  rcases List.mem_append.1 ha with ha | ha
  · rcases List.mem_append.1 ha with ha | ha
    · rcases List.mem_append.1 ha with ha | ha
      · simp only [List.mem_cons, List.not_mem_nil, or_false] at ha
        omega
      · have hlt := List.mem_range.1 ha
        omega
    · have hlt := List.mem_range.1 ha
      omega
  · split at ha
    · rename_i hsub
      obtain ⟨hlen, -, -, hclen⟩ := hsub
      rcases List.mem_append.1 ha with ha | ha
      · have hrange := List.mem_range'_1.1 ha
        omega
      · split at ha
        · rcases List.mem_append.1 ha with ha | ha
          · exact subCopyReads_lt q _ a ha
          · exact subCopyReads_lt q _ a ha
        · cases ha
    · cases ha

/-! ## Setting -/

section Setting

variable {names : Fin danteRxChannels → SubName} {ch idx : Nat} {name : SubName}

/-- Setting one channel leaves the others alone. -/
theorem subName_setSubName (hidx : 1 ≤ idx ∧ idx ≤ danteRxChannels) :
    subName (setSubName names ch name) idx = if idx = ch then name.1 else subName names idx := by
  have hin : idx - 1 < danteRxChannels := by omega
  rw [subName, subName, dif_pos hin, dif_pos hin]
  show (if idx - 1 + 1 = ch then name else names ⟨idx - 1, hin⟩).1 = _
  rw [Nat.sub_add_cancel hidx.1]
  split <;> rfl

end Setting

/-- A request changes nothing but the subscription it is for. -/
theorem arcSubscribe_spec (s : ArcState) (q : Datagram) :
    channelFormat (arcSubscribe s q) = channelFormat s ∧
      ∀ idx, 1 ≤ idx ∧ idx ≤ danteRxChannels →
        (subName (arcSubscribe s q).subTxName idx, subName (arcSubscribe s q).subTxHost idx) =
          (q.sets idx).getD (subName s.subTxName idx, subName s.subTxHost idx) := by
  rw [arcSubscribe]
  by_cases hsub : q.Subscribes
  · rw [if_pos hsub]
    by_cases hch : 1 ≤ q.contentU16 2 ∧ q.contentU16 2 ≤ danteRxChannels
    · rw [if_pos hch]
      refine ⟨rfl, fun idx hidx => ?_⟩
      dsimp only
      rw [subName_setSubName hidx, subName_setSubName hidx, Datagram.sets]
      by_cases hmine : q.contentU16 2 = idx
      · rw [if_pos hmine.symm, if_pos hmine.symm, if_pos ⟨hsub, hmine⟩]
        show (subCopyStr q _, subCopyStr q _) = _
        rw [subCopyStr_eq, subCopyStr_eq]
        rfl
      · rw [if_neg (Ne.symm hmine), if_neg (Ne.symm hmine), if_neg fun h => hmine h.2]
        rfl
    · rw [if_neg hch]
      refine ⟨rfl, fun idx hidx => ?_⟩
      rw [Datagram.sets, if_neg]
      · rfl
      · rintro ⟨-, rfl⟩
        exact hch hidx
  · rw [if_neg hsub]
    refine ⟨rfl, fun idx _ => ?_⟩
    rw [Datagram.sets, if_neg fun h => hsub h.1]
    rfl

/-- What is stored after any requests. -/
theorem run_arcSubscribe : ∀ (qs : List Datagram) (s : ArcState),
    channelFormat (run arcSubscribe s qs) = channelFormat s ∧
      ∀ idx, 1 ≤ idx ∧ idx ≤ danteRxChannels →
        (subName (run arcSubscribe s qs).subTxName idx,
            subName (run arcSubscribe s qs).subTxHost idx) = lastSet s qs idx
  | [], s => ⟨rfl, fun _ _ => rfl⟩
  | q :: qs, s => by
      obtain ⟨hformat, hnames⟩ := run_arcSubscribe qs (arcSubscribe s q)
      obtain ⟨hsame, hset⟩ := arcSubscribe_spec s q
      refine ⟨hformat.trans hsame, fun idx hidx => ?_⟩
      rw [run_cons, hnames idx hidx, lastSet, lastSet, hset idx hidx, List.filterMap_cons]
      cases q.sets idx with
      | none => rfl
      | some sub =>
          rw [List.getLast?_cons]
          rfl

/-- After any requests with any contents, the list of receive channels decodes to what was last set
for each; and no request is read outside. -/
theorem subscriptions_round_trip (s : ArcState) (qs : List Datagram) :
    (∀ q, ArcList.rxChannels.decode
        (arcReply (run arcSubscribe s qs) .rxChannels q).buf =
      some ⟨danteCodeOk, (List.range' (arcStart q) (danteRxChannels + 1 - arcStart q)).map
        fun idx => subscribed s idx (lastSet s qs idx)⟩) ∧
      ∀ q ∈ qs, ∀ a ∈ subscribeReads q, a < q.len := by
  obtain ⟨hformat, hnames⟩ := run_arcSubscribe qs s
  refine ⟨fun q => ?_, fun q _ => subscribeReads_lt q⟩
  have hdecode := (decode_arcReply (run arcSubscribe s qs) .rxChannels q).1
  have hstart := one_le_arcStart q
  have hitems : ArcList.rxChannels.itemsFrom (run arcSubscribe s qs) (arcStart q) =
      (List.range' (arcStart q) (danteRxChannels + 1 - arcStart q)).map
        fun idx => subscribed s idx (lastSet s qs idx) := by
    rw [ArcList.itemsFrom, ← List.filterMap_eq_map]
    refine List.filterMap_congr fun idx hidx => ?_
    obtain ⟨hlow, hhigh⟩ := List.mem_range'_1.1 hidx
    have hlast := hnames idx ⟨by omega, by
      have hlimit : ArcList.rxChannels.limit = danteRxChannels := rfl
      omega⟩
    show some (rxChannelOf (run arcSubscribe s qs) idx) = some _
    rw [rxChannelOf, hformat]
    exact congrArg (fun sub => some (subscribed s idx sub)) hlast
  have hlen : (ArcList.rxChannels.itemsFrom (run arcSubscribe s qs) (arcStart q)).length ≤
      ArcList.rxChannels.room := by
    have hroom : ArcList.rxChannels.room = danteRxChannels := rfl
    rw [hitems, List.length_map, List.length_range']
    omega
  rw [hdecode, if_neg (Nat.not_lt.2 hlen), List.take_of_length_le hlen, hitems]

end Firmware
end InfernoFpga
