import InfernoFpga.Netload.Loader

/-!
# Host — the sender of `tools/netload.py`

The sender works through START, DATA and EXEC, one frame at a time, and waits after each for a
reply or its time-out; a pass that fails is tried again from START, three times in all.  Console
output is left out, and whether a deadline has passed is part of the event.
-/

namespace InfernoFpga
namespace Netload

open Lib
open Firmware (Mac)

/-! ## Constants -/

abbrev chunkLen : Nat := 1024
abbrev passes : Nat := 3

/-! ## `binascii.crc32` -/

def shiftCrc (c : UInt32) : UInt32 :=
  if c &&& 1 = 1 then (0xEDB88320 : UInt32) ^^^ (c >>> 1) else c >>> 1

/-- An entry of the CRC table. -/
def crcTable (n : UInt8) : UInt32 := shiftCrc^[8] n.toUInt32

def updateCrc (c : UInt32) (b : UInt8) : UInt32 :=
  crcTable (c ^^^ b.toUInt32).toUInt8 ^^^ (c >>> 8)

/-- CRC-32, byte by byte off the table. -/
def binasciiCrc32 (data : List UInt8) : UInt32 :=
  data.foldl updateCrc (0xFFFFFFFF : UInt32) ^^^ (0xFFFFFFFF : UInt32)

/-! ## Frames -/

/-- `build`. -/
def build (srcMac dstMac : Mac) (op : UInt8) (arg0 arg1 : Nat) (payload : List UInt8) :
    List UInt8 :=
  dstMac.bytes ++ srcMac.bytes ++ Mem.be16 nlEthertype ++ Mem.be32 imgMagic ++ [op, 0] ++
    Mem.be32 arg0 ++ Mem.be32 arg1 ++ payload

/-- A loader's reply, taken apart. -/
structure Reply where
  op : UInt8
  arg0 : Nat
  mac : Mac
  deriving DecidableEq

/-- `parse_reply`. -/
def parseReply (frame : List UInt8) : Option Reply :=
  let m : Mem := fun k => frame.getD k 0
  if frame.length < nlHdrLen then none
  else if Mem.rd16 m 12 ≠ nlEthertype then none
  else if Mem.rd32 m 14 ≠ imgMagic then none
  else if m 18 ≠ opAck ∧ m 18 ≠ opNak then none
  else some ⟨m 18, Mem.rd32 m 20, Mac.read m 6⟩

/-! ## The sender -/

/-- An image `main` does not refuse. -/
abbrev Image := { bytes : List UInt8 // bytes ≠ [] ∧ bytes.length ≤ coderamSize }

/-- What a run of the sender is about. -/
structure Sender where
  image : Image
  srcMac : Mac
  retries : Nat

namespace Sender

variable (c : Sender)

def len : Nat := c.image.val.length

def crc : Nat := (binasciiCrc32 c.image.val).toNat

/-- `image[off:off + CHUNK]`. -/
def chunk (off : Nat) : List UInt8 := (c.image.val.drop off).take chunkLen

end Sender

inductive Stage
  | start
  | data (off attempt : Nat)
  | exec (attempt : Nat)
  /-- `main` has returned 0, or exited with a message. -/
  | ended (ok : Bool)
  deriving DecidableEq

structure Host where
  stage : Stage
  pass : Nat
  /-- `nonlocal_dst`. -/
  dst : Mac
  deriving DecidableEq

def Host.init : Host := { stage := .start, pass := 0, dst := Mac.broadcast }

section Passes

variable (c : Sender) (h : Host)

/-- A pass that failed is followed by another, up to `PASSES`. -/
def failPass : Host :=
  if h.pass + 1 < passes then { stage := .start, pass := h.pass + 1, dst := Mac.broadcast }
  else { h with stage := .ended false }

def enterExec : Host := if c.retries = 0 then failPass h else { h with stage := .exec 0 }

/-- The head of the DATA loop. -/
def enterData (off : Nat) : Host :=
  if off < c.len then if c.retries = 0 then failPass h else { h with stage := .data off 0 }
  else enterExec c h

/-- The head of the START loop, once its deadline may have passed. -/
def repeatStart (late : Bool) : Host :=
  if late then if h.pass = 0 then { h with stage := .ended false } else failPass h else h

/-- Another attempt of the stage, if there is one left. -/
def retry (stage : Nat → Stage) (attempt : Nat) : Host :=
  if attempt + 1 < c.retries then { h with stage := stage (attempt + 1) } else failPass h

/-- `wait_ack` has returned `None`. -/
def onTimeout (late : Bool) : Host :=
  match h.stage with
  | .start => repeatStart h late
  | .data off attempt => retry c h (.data off) attempt
  | .exec attempt => retry c h .exec attempt
  | .ended _ => h

/-- `wait_ack` has returned a reply. -/
def onReply (r : Reply) (late : Bool) : Host :=
  match h.stage with
  | .start => if r.op = opAck then enterData c { h with dst := r.mac } 0 else repeatStart h late
  | .data off attempt =>
      if r.op = opNak then failPass h
      else if r.arg0 = off + (c.chunk off).length then enterData c h r.arg0
      else if r.arg0 ≠ off then enterData c h r.arg0
      else retry c h (.data off) attempt
  | .exec _ => if r.op = opAck then { h with stage := .ended true } else failPass h
  | .ended _ => h

/-- The frame that is sent before the sender waits again. -/
def outgoing : Option (List UInt8) :=
  match h.stage with
  | .start => some (build c.srcMac Mac.broadcast opStart c.len c.crc [])
  | .data off _ =>
      some (build c.srcMac h.dst opData off (c.chunk off).length (c.chunk off))
  | .exec _ => some (build c.srcMac h.dst opExec 0 0 [])
  | .ended _ => none

end Passes

end Netload
end InfernoFpga
