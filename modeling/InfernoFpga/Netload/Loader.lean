import InfernoFpga.Lib.Run
import InfernoFpga.Firmware.Net
import Mathlib.Logic.Function.Iterate

/-!
# Loader — the boot loader's image transfer over raw Ethernet

`netload` polls the MAC for frames of its own ethertype: START announces an image, DATA stores
the next chunk of it in the code RAM, EXEC checks the CRC and leaves the loop.  One step here is
one turn of that loop, with the frame that was pending or none.  The code RAM is addressed from
its base; unsigned 32-bit quantities are natural numbers with their wrap written out.
-/

namespace InfernoFpga
namespace Netload

open Lib
open Firmware (Mac)

/-! ## Constants -/

abbrev coderamSize : Nat := 0x18000
abbrev imgMagic : Nat := 0x494E464E
abbrev opStart : UInt8 := 1
abbrev opData : UInt8 := 2
abbrev opExec : UInt8 := 3
abbrev opAck : UInt8 := 0x80
abbrev opNak : UInt8 := 0x81
abbrev nlHdrLen : Nat := 28
abbrev nlEthertype : Nat := 0x88B5
abbrev nlMaxPayload : Nat := 1024
abbrev netloadWindowSpins : Nat := 4000000

/-- `our_mac`. -/
def ourMac : Mac := ⟨0x02, 0x00, 0x00, 0x00, 0x00, 0x42⟩

/-! ## CRC-32 -/

/-- One bit of the reflected polynomial. -/
def crcBit (crc : UInt32) : UInt32 := (crc >>> 1) ^^^ (0xEDB88320 &&& (0 - (crc &&& 1)))

def crcByte (crc : UInt32) (b : UInt8) : UInt32 := crcBit^[8] (crc ^^^ b.toUInt32)

/-- `crc32`, bit by bit. -/
def crc32 (bs : List UInt8) : UInt32 := ~~~ bs.foldl crcByte 0xFFFFFFFF

/-! ## Frames -/

/-- A received frame: its slot of the MAC, and the length the MAC reports. -/
structure Rx where
  slot : Mem
  len : Nat

namespace Rx

variable (f : Rx)

def op : UInt8 := f.slot 18
def arg0 : Nat := Mem.rd32 f.slot 20
def arg1 : Nat := Mem.rd32 f.slot 24

/-- A frame of this protocol, header and magic included. -/
def isNetload : Bool :=
  decide (nlHdrLen ≤ f.len) && Mem.rd16 f.slot 12 == nlEthertype &&
    Mem.rd32 f.slot 14 == imgMagic

/-- The payload length: the announced one, within the limit and within the frame. -/
def plen : Nat :=
  let avail := f.len - nlHdrLen
  let plen := if nlMaxPayload < f.arg1 then nlMaxPayload else f.arg1
  if avail < plen then avail else plen

def payload : List UInt8 := Mem.slice f.slot nlHdrLen f.plen

end Rx

/-- `nl_reply`: a zeroed minimum frame back to the sender, with `next_off` as its argument. -/
def nlReply (req : Rx) (op : UInt8) (nextOff : Nat) : List UInt8 :=
  (Mac.read req.slot 6).bytes ++ ourMac.bytes ++ Mem.be16 nlEthertype ++ Mem.be32 imgMagic ++
    [op, 0] ++ Mem.be32 nextOff ++ Mem.be32 0 ++ List.replicate 32 0

/-! ## The loop -/

/-- The locals of `netload` and the code RAM; `returned` once the loop is left. -/
structure Loader where
  coderam : Mem
  imgLen : Nat
  imgCrc : Nat
  nextOff : Nat
  started : Bool
  spins : Nat
  returned : Option Bool

def Loader.boot (ram : Mem) : Loader :=
  { coderam := ram, imgLen := 0, imgCrc := 0, nextOff := 0, started := false, spins := 0
    returned := none }

section Step

variable (s : Loader) (f : Rx)

/-- An image that fits the code RAM. -/
def acceptsStart : Bool := f.arg0 != 0 && !decide (coderamSize < f.arg0)

def start : Loader :=
  { s with imgLen := f.arg0, imgCrc := f.arg1, nextOff := 0, started := true }

/-- The chunk that is expected next, inside the image; the sum is taken in 32 bits. -/
def acceptsData : Bool :=
  f.plen != 0 && f.arg0 == s.nextOff && decide ((f.arg0 + f.plen) % 2 ^ 32 ≤ s.imgLen)

def storeData : Loader :=
  if acceptsData s f then
    { s with
      coderam := Mem.store s.coderam f.arg0 f.payload
      nextOff := (f.arg0 + f.plen) % 2 ^ 32 }
  else s

/-- The CRC over the image as it lies in the code RAM. -/
def storedCrc : Nat := (crc32 (Mem.slice s.coderam 0 s.imgLen)).toNat

/-- What is done with a frame of the protocol, and the reply. -/
def handle : Loader × Option (List UInt8) :=
  if f.op = opStart then
    if acceptsStart f then (start s f, some (nlReply f opAck 0))
    else (s, some (nlReply f opNak 0))
  else if f.op = opData ∧ s.started = true then
    (storeData s f, some (nlReply f opAck (storeData s f).nextOff))
  else if f.op = opExec ∧ s.started = true then
    if s.nextOff ≠ s.imgLen then (s, some (nlReply f opNak s.nextOff))
    else if storedCrc s ≠ s.imgCrc then
      ({ s with started := false }, some (nlReply f opNak s.nextOff))
    else ({ s with returned := some true }, some (nlReply f opAck s.imgLen))
  else (s, none)

end Step

/-- The window counts turns of the loop until a transfer has started. -/
def spin (s : Loader) : Loader :=
  if s.started then s else { s with spins := (s.spins + 1) % 2 ^ 32 }

def expired (s : Loader) : Bool := !s.started && decide (netloadWindowSpins < (spin s).spins)

/-- One turn of the loop: the state after it and the reply sent in it. -/
def poll (s : Loader) (rx : Option Rx) : Loader × Option (List UInt8) :=
  match s.returned with
  | some _ => (s, none)
  | none =>
      if expired s then ({ spin s with returned := some false }, none)
      else
        match rx with
        | none => (spin s, none)
        | some f => if f.isNetload then handle (spin s) f else (spin s, none)

def step (s : Loader) (rx : Option Rx) : Loader := (poll s rx).1

/-! ## What a turn does -/

/-- The frame that is handled on this turn. -/
def taken (s : Loader) (rx : Option Rx) : Option Rx :=
  if s.returned.isNone && !expired s then rx.filter Rx.isNetload else none

section Spec

variable {s : Loader} {rx : Option Rx} {f : Rx}

theorem poll_taken (h : taken s rx = some f) : poll s rx = handle (spin s) f := by
  simp only [taken, Bool.and_eq_true, Option.isNone_iff_eq_none, Bool.not_eq_true'] at h
  split at h
  · rename_i hopen
    obtain ⟨hrx, hnl⟩ : rx = some f ∧ f.isNetload = true := by
      simpa [Option.filter_eq_some_iff] using h
    simp only [poll, hopen.1, hopen.2, hrx, hnl, Bool.false_eq_true, if_false, if_true]
  · cases h

/-- Without a frame to handle the turn only counts, or leaves the loop. -/
theorem step_untaken (h : taken s rx = none) :
    ∃ spins returned, step s rx = { s with spins := spins, returned := returned } ∧
      (returned = some true → s.returned = some true) := by
  have hspin : ∃ spins, spin s = { s with spins := spins } := by
    unfold spin
    split
    · exact ⟨s.spins, rfl⟩
    · exact ⟨_, rfl⟩
  obtain ⟨spins, hspin⟩ := hspin
  unfold step poll
  cases hret : s.returned with
  | some b => exact ⟨s.spins, s.returned, rfl, fun hb => hret ▸ hb⟩
  | none =>
    cases hexp : expired s with
    | true => exact ⟨spins, some false, by simp [hspin], by simp⟩
    | false =>
      have hopen : rx.filter Rx.isNetload = none := by simpa [taken, hret, hexp] using h
      cases rx with
      | none => exact ⟨spins, s.returned, by simp [hspin], fun hb => hret ▸ hb⟩
      | some g =>
        have hnl : g.isNetload = false := by simpa [Option.filter] using hopen
        exact ⟨spins, s.returned, by simp [hspin, hnl], fun hb => hret ▸ hb⟩

end Spec

end Netload
end InfernoFpga
