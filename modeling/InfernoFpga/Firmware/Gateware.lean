import InfernoFpga.Packetizer.Machine
import Mathlib.Logic.Function.Basic

/-!
# Gateware — the packetizer's contexts as the CSR bus sees them

The per-context registers are write-only and indirect: `ctx_select` names the context, and three
of the CSRs (`flow_cfg`, `udp_dport`, `dst_mac_lo`) latch a group of registers into it when they
are written.  `latch_refines` ties this view to the circuit of `Packetizer.Machine`.
-/

namespace InfernoFpga
namespace Firmware

open Packetizer (CtxId Word Byte ctxIndex)

/-! ## Contexts and CSRs -/

/-- The latched binding of a context, without its running phase and pending bit. -/
structure Latched where
  dip : Word
  csum : BitVec 16
  sport : BitVec 16
  dport : BitVec 16
  dmac : BitVec 48
  cmlo : Word
  cmhi : Word
  cfg : Byte
  deriving DecidableEq

def Latched.reset : Latched :=
  { dip := 0, csum := 0, sport := 0, dport := 0, dmac := 0, cmlo := 0, cmhi := 0, cfg := 0 }

/-- The binding the circuit holds for a context. -/
def latched (c : Packetizer.Ctx) : Latched :=
  { dip := c.dip, csum := c.csum, sport := c.sport, dport := c.dport, dmac := c.dmac
    cmlo := c.cmlo, cmhi := c.cmhi, cfg := c.cfg }

structure Gateware where
  csr : Packetizer.Csr
  ctx : CtxId → Latched

namespace Gateware

/-- The gateware as it comes out of reset. -/
def reset : Gateware :=
  { csr := { Packetizer.Input.quiet.csr with enable := false }
    ctx := fun _ => Latched.reset }

/-- The latches that fire on write strobes of `udp_dport`, `dst_mac_lo` and `flow_cfg`. -/
def latch (g : Gateware) (dportRe macRe cfgRe : Bool) : Gateware :=
  { g with ctx := fun k =>
      let c := g.ctx k
      let sel := ctxIndex g.csr.ctxSelect == k
      { dip := if dportRe && sel then g.csr.dstIp else c.dip
        csum := if dportRe && sel then g.csr.ipCsum else c.csum
        sport := if dportRe && sel then g.csr.udpSport else c.sport
        dport := if dportRe && sel then g.csr.udpDport else c.dport
        dmac := if macRe && sel then g.csr.dstMacHi ++ g.csr.dstMacLo else c.dmac
        cmlo := if cfgRe && sel then g.csr.chmapLo else c.cmlo
        cmhi := if cfgRe && sel then g.csr.chmapHi else c.cmhi
        cfg := if cfgRe && sel then g.csr.flowCfg else c.cfg } }

/-- A cycle of the circuit latches what the bus view latches. -/
theorem latch_refines {s : Packetizer.State} {i : Packetizer.Input} {g : Gateware}
    (hctx : ∀ k, latched (s.ctx k) = g.ctx k) (hcsr : i.csr = g.csr) (k : CtxId) :
    latched ((Packetizer.step s i).ctx k) =
      (g.latch i.udpDportRe i.dstMacLoRe i.flowCfgRe).ctx k := by
  simp only [latch, ← hctx k, ← hcsr]
  rfl

/-! ## The writes the firmware makes -/

section Writes

variable (g : Gateware)

def writeCtxSelect (f : CtxId) : Gateware :=
  { g with csr := { g.csr with ctxSelect := BitVec.ofNat 3 f.val } }

def writeChmap (lo hi : Word) : Gateware :=
  { g with csr := { g.csr with chmapLo := lo, chmapHi := hi } }

def writeDstIp (v : Word) : Gateware := { g with csr := { g.csr with dstIp := v } }
def writeIpCsum (v : BitVec 16) : Gateware := { g with csr := { g.csr with ipCsum := v } }
def writeUdpSport (v : BitVec 16) : Gateware := { g with csr := { g.csr with udpSport := v } }
def writeDstMacHi (v : BitVec 16) : Gateware := { g with csr := { g.csr with dstMacHi := v } }

/-- Latches the MAC pair. -/
def writeDstMacLo (v : Word) : Gateware :=
  latch { g with csr := { g.csr with dstMacLo := v } } false true false

/-- Latches destination, checksum and ports. -/
def writeUdpDport (v : BitVec 16) : Gateware :=
  latch { g with csr := { g.csr with udpDport := v } } true false false

def writeFlowPhase (v : Byte) : Gateware := { g with csr := { g.csr with flowPhase := v } }

/-- Latches the channel map and the configuration. -/
def writeFlowCfg (v : Byte) : Gateware :=
  latch { g with csr := { g.csr with flowCfg := v } } false false true

def writeEnable (on : Bool) : Gateware := { g with csr := { g.csr with enable := on } }

end Writes

/-! ## What a write changes -/

section Lemmas

variable {g : Gateware} {f k : CtxId}

theorem ctxIndex_ofNat (f : CtxId) : ctxIndex (BitVec.ofNat 3 f.val) = f := by
  revert f
  decide

@[simp] theorem latch_csr (g : Gateware) (d m c : Bool) : (g.latch d m c).csr = g.csr := rfl

theorem writeFlowCfg_csr (g : Gateware) (cfg : Byte) :
    (g.writeFlowCfg cfg).csr = { g.csr with flowCfg := cfg } := rfl

theorem writeDstMacLo_csr (g : Gateware) (lo : Word) :
    (g.writeDstMacLo lo).csr = { g.csr with dstMacLo := lo } := rfl

theorem writeUdpDport_csr (g : Gateware) (dport : BitVec 16) :
    (g.writeUdpDport dport).csr = { g.csr with udpDport := dport } := rfl

@[simp] theorem writeCtxSelect_index (g : Gateware) (f : CtxId) :
    ctxIndex (g.writeCtxSelect f).csr.ctxSelect = f := ctxIndex_ofNat f

/-- A context that is not selected keeps its binding. -/
theorem latch_other (h : ctxIndex g.csr.ctxSelect ≠ k) (d m c : Bool) :
    (g.latch d m c).ctx k = g.ctx k := by
  have hsel : (ctxIndex g.csr.ctxSelect == k) = false := by simpa using h
  simp only [latch, hsel, Bool.and_false, Bool.false_eq_true, if_false]

theorem latch_self (h : ctxIndex g.csr.ctxSelect = f) (d m c : Bool) :
    (g.latch d m c).ctx f =
      { dip := if d then g.csr.dstIp else (g.ctx f).dip
        csum := if d then g.csr.ipCsum else (g.ctx f).csum
        sport := if d then g.csr.udpSport else (g.ctx f).sport
        dport := if d then g.csr.udpDport else (g.ctx f).dport
        dmac := if m then g.csr.dstMacHi ++ g.csr.dstMacLo else (g.ctx f).dmac
        cmlo := if c then g.csr.chmapLo else (g.ctx f).cmlo
        cmhi := if c then g.csr.chmapHi else (g.ctx f).cmhi
        cfg := if c then g.csr.flowCfg else (g.ctx f).cfg } := by
  have hsel : (ctxIndex g.csr.ctxSelect == f) = true := by simpa using h
  simp only [latch, hsel, Bool.and_true]

theorem writeFlowCfg_self (h : ctxIndex g.csr.ctxSelect = f) (cfg : Byte) :
    (g.writeFlowCfg cfg).ctx f =
      { g.ctx f with cmlo := g.csr.chmapLo, cmhi := g.csr.chmapHi, cfg := cfg } :=
  latch_self (g := { g with csr := { g.csr with flowCfg := cfg } }) h false false true

theorem writeFlowCfg_other (h : ctxIndex g.csr.ctxSelect ≠ k) (cfg : Byte) :
    (g.writeFlowCfg cfg).ctx k = g.ctx k :=
  latch_other (g := { g with csr := { g.csr with flowCfg := cfg } }) h false false true

theorem writeDstMacLo_self (h : ctxIndex g.csr.ctxSelect = f) (lo : Word) :
    (g.writeDstMacLo lo).ctx f = { g.ctx f with dmac := g.csr.dstMacHi ++ lo } :=
  latch_self (g := { g with csr := { g.csr with dstMacLo := lo } }) h false true false

theorem writeDstMacLo_other (h : ctxIndex g.csr.ctxSelect ≠ k) (lo : Word) :
    (g.writeDstMacLo lo).ctx k = g.ctx k :=
  latch_other (g := { g with csr := { g.csr with dstMacLo := lo } }) h false true false

theorem writeUdpDport_self (h : ctxIndex g.csr.ctxSelect = f) (dport : BitVec 16) :
    (g.writeUdpDport dport).ctx f =
      { g.ctx f with
        dip := g.csr.dstIp, csum := g.csr.ipCsum, sport := g.csr.udpSport, dport := dport } :=
  latch_self (g := { g with csr := { g.csr with udpDport := dport } }) h true false false

theorem writeUdpDport_other (h : ctxIndex g.csr.ctxSelect ≠ k) (dport : BitVec 16) :
    (g.writeUdpDport dport).ctx k = g.ctx k :=
  latch_other (g := { g with csr := { g.csr with udpDport := dport } }) h true false false

end Lemmas

end Gateware

end Firmware
end InfernoFpga
