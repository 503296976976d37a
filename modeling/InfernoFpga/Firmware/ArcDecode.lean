import InfernoFpga.Firmware.Arc
import InfernoFpga.Lib.Paged
import InfernoFpga.Mdns.Decode

/-!
# ArcDecode — a reference decoder of the enumerations

A reply is decoded by the layout of the protocol: a header with the length and the result code, a
page with the number of its items, slots of a width that the request decides, and strings and
descriptors at absolute offsets, all of which have to lie inside the packet.
-/

namespace InfernoFpga
namespace Firmware

open Lib
open Mdns (Str rd16 rd32 rd16_at rd32_at danteTxChannelName)

/-! ## Strings and descriptors -/

/-- The string at an absolute offset, with its terminator inside the packet. -/
def readStr (m : List UInt8) (off : Nat) : Option Str :=
  if 0 ∈ m.drop off then some ((m.drop off).takeWhile (· ≠ 0)) else none

/-- A string that may be missing: offset 0 says it is. -/
def readStr? (m : List UInt8) (off : Nat) : Option (Option Str) :=
  if off = 0 then some none else (readStr m off).map some

/-- `CommonChannelsDescriptor`. -/
structure ChannelFormat where
  sampleRate : Nat
  unknown1 : UInt8
  unknown2 : UInt8
  bits1 : Nat
  unknown3 : Nat
  bits2 : Nat
  bits3 : Nat
  pcmType : Nat
  deriving DecidableEq, Repr

def readFormat (m : List UInt8) (off : Nat) : Option ChannelFormat :=
  if m.length < off + 16 then none
  else some
    { sampleRate := rd32 m off, unknown1 := m.getD (off + 4) 0, unknown2 := m.getD (off + 5) 0
      bits1 := rd16 m (off + 6), unknown3 := rd16 m (off + 8), bits2 := rd16 m (off + 10)
      bits3 := rd16 m (off + 12), pcmType := rd16 m (off + 14) }

/-! ## Items -/

/-- An item of a page, with everything its slot points at. -/
inductive ArcItem
  | txChannel (id unknown : Nat) (format : ChannelFormat) (name : Str)
  | txFriendly (id id' : Nat) (name : Str)
  | rxChannel (id unknown : Nat) (format : ChannelFormat) (name : Str) (txName txHost : Option Str)
      (status : Nat)
  | txFlow (id type sampleRate bits : Nat) (channels : List Nat) (transport port : Nat)
      (addr : List UInt8) (name : Str) (remoteHost remoteFlow : Option Str) (latency : Nat)
  deriving DecidableEq, Repr

def readTxChannel (m : List UInt8) (p : Nat) : Option ArcItem :=
  match readFormat m (rd16 m (p + 4)), readStr m (rd16 m (p + 6)) with
  | some format, some name => some (.txChannel (rd16 m p) (rd16 m (p + 2)) format name)
  | _, _ => none

def readTxFriendly (m : List UInt8) (p : Nat) : Option ArcItem :=
  (readStr m (rd16 m (p + 4))).map (.txFriendly (rd16 m p) (rd16 m (p + 2)))

def readRxChannel (m : List UInt8) (p : Nat) : Option ArcItem :=
  match readFormat m (rd16 m (p + 4)), readStr? m (rd16 m (p + 6)), readStr? m (rd16 m (p + 8)),
      readStr m (rd16 m (p + 10)) with
  | some format, some txName, some txHost, some name =>
      some (.rxChannel (rd16 m p) (rd16 m (p + 2)) format name txName txHost (rd32 m (p + 12)))
  | _, _, _, _ => none

/-- `n` numbers in a row. -/
def readFields (m : List UInt8) (off n : Nat) : List Nat :=
  (List.range n).map fun k => rd16 m (off + 2 * k)

/-- The slot points at a descriptor, which points at a socket and at a block of names. -/
def readTxFlow (m : List UInt8) (p : Nat) : Option ArcItem :=
  let d := rd16 m p
  let n := rd16 m (d + 14)
  let sock := rd16 m (d + 16)
  let names := rd16 m (d + 18 + 2 * n)
  if m.length < d + 20 + 2 * n ∨ m.length < sock + 8 ∨ m.length < names + 20 then none
  else
    match readStr? m (rd16 m (names + 4)), readStr? m (rd16 m (names + 6)),
        readStr m (rd16 m (names + 10)) with
    | some remoteHost, some remoteFlow, some name =>
        some (.txFlow (rd16 m d) (rd16 m (d + 2)) (rd32 m (d + 4)) (rd16 m (d + 10))
          (readFields m (d + 18) n) (rd16 m sock) (rd16 m (sock + 2))
          ((m.drop (sock + 4)).take 4) name remoteHost remoteFlow (rd32 m (names + 12)))
    | _, _, _ => none

/-! ## Pages -/

/-- A decoded page. -/
structure ArcPage where
  code : Nat
  items : List ArcItem
  deriving DecidableEq, Repr

/-- Where the slots of a page begin. -/
abbrev slotsAt : Nat := danteHdrLen + 2

/-- A reply: its length is that of the datagram, the slots it has room for lie inside it, and no
more of them are filled. -/
def readPage (read : List UInt8 → Nat → Option ArcItem) (size : Nat) (m : List UInt8) :
    Option ArcPage :=
  let space := (m.getD danteHdrLen 0).toNat
  let actual := (m.getD (danteHdrLen + 1) 0).toNat
  if rd16 m 2 ≠ m.length ∨ m.length < slotsAt + size * space ∨ space < actual then none
  else (readSlots read size m actual slotsAt).map fun items => ⟨rd16 m 8, items⟩

namespace ArcList

/-- How the items of a list are read. -/
def read : ArcList → List UInt8 → Nat → Option ArcItem
  | .txChannels => readTxChannel
  | .txFriendlyNames => readTxFriendly
  | .rxChannels => readRxChannel
  | .txFlows => readTxFlow

/-- The width of a slot. -/
def size : ArcList → Nat
  | .txChannels => 8
  | .txFriendlyNames => 6
  | .rxChannels => 20
  | .txFlows => 2

/-- A decoded reply. -/
def decode (op : ArcList) (m : List UInt8) : Option ArcPage := readPage op.read op.size m

end ArcList

/-! ## What the device has -/

section Intended

variable (s : ArcState)

/-- The format of every channel. -/
def channelFormat : ChannelFormat :=
  { sampleRate := s.sampleRate.toNat, unknown1 := 1, unknown2 := 1
    bits1 := s.bitsPerSample.toNat, unknown3 := 0x400, bits2 := s.bitsPerSample.toNat
    bits3 := s.bitsPerSample.toNat, pcmType := 0xE }

/-- A name that may be empty, which is to have none. -/
def named? (name : Str) : Option Str := if name = [] then none else some name

/-- A receive channel: subscribed when it has the name of a transmit channel. -/
def rxChannelOf (idx : Nat) : ArcItem :=
  let txName := subName s.subTxName idx
  let txHost := if txName = [] then [] else subName s.subTxHost idx
  .rxChannel idx 6 (channelFormat s) (rxChannelName idx) (named? txName) (named? txHost)
    (if txName = [] then 0 else subStatusPending)

/-- A bound flow. -/
def txFlowOf (f : Nat) (slot : FlowSlot) : ArcItem :=
  .txFlow (flowExtId slot (f - 1)) (if slot.mcast then 2 else 0x11) s.sampleRate.toNat
    s.bitsPerSample.toNat (flowChans slot) 0x8002 slot.dport.toNat slot.dst.bytes (flowName s f)
    none none (flowLatency s)

end Intended

namespace ArcList

/-- The last index of a list. -/
def limit : ArcList → Nat
  | .txChannels => danteTxChannels
  | .txFriendlyNames => danteTxChannels
  | .rxChannels => danteRxChannels
  | .txFlows => nFlows

/-- What the device has at an index, if anything. -/
def intended (s : ArcState) : ArcList → Nat → Option ArcItem
  | .txChannels, idx => some (.txChannel idx 7 (channelFormat s) (danteTxChannelName idx))
  | .txFriendlyNames, idx => some (.txFriendly idx idx (danteTxChannelName idx))
  | .rxChannels, idx => some (rxChannelOf s idx)
  | .txFlows, idx => (danteTxFlowDesc s.tx (idx - 1)).map (txFlowOf s idx)

/-- Everything the device has from `start` on, in order. -/
def itemsFrom (s : ArcState) (op : ArcList) (start : Nat) : List ArcItem :=
  (List.range' start (op.limit + 1 - start)).filterMap (op.intended s)

/-- The slots of a page. -/
def room : ArcList → Nat
  | .txChannels => 32
  | .txFriendlyNames => 32
  | .rxChannels => danteRxChannels
  | .txFlows => nFlows

end ArcList

/-! ## Reading what has been written -/

section Written

variable {m : List UInt8} {p : Nat}

theorem readStr_of_at {s : Str} (h : At m p (s ++ [0])) (hs : (0 : UInt8) ∉ s) :
    readStr m p = some s := by
  have hdrop : m.drop p = (s ++ [0]) ++ (m.drop p).drop (s ++ [0]).length := by
    have hsplit := List.take_append_drop (s ++ [0]).length (m.drop p)
    rw [h.slice] at hsplit
    exact hsplit.symm
  have hall : ∀ c ∈ s, (decide (c ≠ 0)) = true := fun c hc =>
    decide_eq_true fun h0 => hs (h0 ▸ hc)
  rw [readStr, hdrop, List.append_assoc, if_pos (by simp), List.takeWhile_append_of_pos hall]
  simp

/-- A missing name has offset 0, and no name lies there. -/
theorem readStr?_of_at {off : Nat} {s : Str} (hs : (0 : UInt8) ∉ s)
    (h : s = [] ∧ off = 0 ∨ s ≠ [] ∧ off ≠ 0 ∧ At m off (s ++ [0])) :
    readStr? m off = some (named? s) := by
  rw [readStr?, named?]
  rcases h with ⟨rfl, rfl⟩ | ⟨hne, hoff, hat⟩
  · rw [if_pos rfl, if_pos rfl]
  · rw [if_neg hoff, if_neg hne, readStr_of_at hat hs]
    rfl

/-- A field of a slot or of a descriptor. -/
theorem rd16_field {fields : List Nat} (h : At m p (fieldBytes fields)) {k v : Nat}
    (hk : fields[k]? = some v) (hv : v < 65536) : rd16 m (p + 2 * k) = v := by
  induction fields generalizing p k with
  | nil => cases hk
  | cons w fields ih =>
    have hsplit : At m p (Mem.be16 w ++ fieldBytes fields) := h
    obtain ⟨hfirst, hrest⟩ := At.append_iff.1 hsplit
    cases k with
    | zero =>
      obtain rfl : w = v := Option.some.inj hk
      exact (rd16_at hfirst).trans (Nat.mod_eq_of_lt hv)
    | succ k =>
      have hnext := ih hrest hk
      rw [Nat.mul_succ, Nat.add_comm (2 * k), ← Nat.add_assoc]
      exact hnext

theorem readFormat_of_at {s : ArcState} (h : At m p (commonDescriptor s)) :
    readFormat m p = some (channelFormat s) := by
  have hend := h.lt (List.cons_ne_nil _ _)
  have hsixteen : (commonDescriptor s).length = 16 := rfl
  have hrate := s.sampleRate.toNat_lt
  have hbits := s.bitsPerSample.toNat_lt
  obtain ⟨h, hpcm⟩ := At.append_iff.1 h
  obtain ⟨h, hbits3⟩ := At.append_iff.1 h
  obtain ⟨h, hbits2⟩ := At.append_iff.1 h
  obtain ⟨h, hunk⟩ := At.append_iff.1 h
  obtain ⟨h, hbits1⟩ := At.append_iff.1 h
  obtain ⟨hrate', hones⟩ := At.append_iff.1 h
  have h0 : rd32 m p = s.sampleRate.toNat := rd32_at hrate' hrate
  have h4 : m.getD (p + 4) 0 = 1 := hones.getD (k := 0) (by decide) 0
  have h5 : m.getD (p + 5) 0 = 1 := hones.getD (k := 1) (by decide) 0
  have h6 : rd16 m (p + 6) = s.bitsPerSample.toNat :=
    (rd16_at hbits1).trans (Nat.mod_eq_of_lt (by omega))
  have h8 : rd16 m (p + 8) = 0x400 := rd16_at hunk
  have h10 : rd16 m (p + 10) = s.bitsPerSample.toNat :=
    (rd16_at hbits2).trans (Nat.mod_eq_of_lt (by omega))
  have h12 : rd16 m (p + 12) = s.bitsPerSample.toNat :=
    (rd16_at hbits3).trans (Nat.mod_eq_of_lt (by omega))
  have h14 : rd16 m (p + 14) = 0xE := rd16_at hpcm
  rw [readFormat, if_neg (by omega), h0, h4, h5, h6, h8, h10, h12, h14]
  rfl

theorem readFields_of_at {fields : List Nat} (h : At m p (fieldBytes fields))
    (hlt : ∀ v ∈ fields, v < 65536) : readFields m p fields.length = fields := by
  induction fields generalizing p with
  | nil => rfl
  | cons v fields ih =>
    have hsplit : At m p (Mem.be16 v ++ fieldBytes fields) := h
    obtain ⟨hfirst, hrest⟩ := At.append_iff.1 hsplit
    have hv : rd16 m p = v :=
      (rd16_at hfirst).trans (Nat.mod_eq_of_lt (hlt v List.mem_cons_self))
    have htail := ih hrest fun x hx => hlt x (List.mem_cons_of_mem v hx)
    have hshift : ((fun k => rd16 m (p + 2 * k)) ∘ Nat.succ) = fun k => rd16 m (p + 2 + 2 * k) := by
      funext k
      rw [Function.comp_apply, Nat.mul_succ, Nat.add_comm (2 * k), ← Nat.add_assoc]
    rw [readFields, List.length_cons, List.range_succ_eq_map, List.map_cons, List.map_map, hshift,
      Nat.mul_zero, Nat.add_zero, hv]
    exact congrArg (v :: ·) htail

end Written

end Firmware
end InfernoFpga
