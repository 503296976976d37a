import InfernoFpga.Lib.Thread
import InfernoFpga.Firmware.Talker

/-!
# Bus — the firmware's register accesses beside the running packetizer

`FlowTable` makes all writes of an operation at once.  Here the same functions are threads of
single CSR accesses, and the packetizer runs on between any two of them.  `writeCtx_now` and its
siblings say that a thread makes the writes of the operation it stands for.
-/

namespace InfernoFpga
namespace Firmware

open Lib
open Packetizer (CtxId Word Byte Csr Input ctxIndex step)
open Ptpv1 (Timestamp)

/-! ## Accesses -/

/-- The registers that binding a context and anchoring the clock write. -/
inductive CsrWrite
  | ctxSelect (f : CtxId)
  | chmapLo (v : Word)
  | chmapHi (v : Word)
  | dstIp (v : Word)
  | ipCsum (v : BitVec 16)
  | udpSport (v : BitVec 16)
  | dstMacHi (v : BitVec 16)
  | dstMacLo (v : Word)
  | udpDport (v : BitVec 16)
  | flowPhase (v : Byte)
  | flowCfg (v : Byte)
  | tsLoadSec (v : Word)
  | tsLoadSub (v : Word)
  | tsLoad

/-- The storages after a write. -/
def CsrWrite.store (csr : Csr) : CsrWrite → Csr
  | .ctxSelect f => { csr with ctxSelect := BitVec.ofNat 3 f.val }
  | .chmapLo v => { csr with chmapLo := v }
  | .chmapHi v => { csr with chmapHi := v }
  | .dstIp v => { csr with dstIp := v }
  | .ipCsum v => { csr with ipCsum := v }
  | .udpSport v => { csr with udpSport := v }
  | .dstMacHi v => { csr with dstMacHi := v }
  | .dstMacLo v => { csr with dstMacLo := v }
  | .udpDport v => { csr with udpDport := v }
  | .flowPhase v => { csr with flowPhase := v }
  | .flowCfg v => { csr with flowCfg := v }
  | .tsLoadSec v => { csr with tsLoadSec := v }
  | .tsLoadSub v => { csr with tsLoadSub := v }
  | .tsLoad => csr

abbrev BusAccess := Access CsrWrite

/-- Write strobes of the registers that trigger something. -/
def tsLoadRe : BusAccess → Bool
  | .write .tsLoad => true
  | _ => false

def udpDportRe : BusAccess → Bool
  | .write (.udpDport _) => true
  | _ => false

def dstMacLoRe : BusAccess → Bool
  | .write (.dstMacLo _) => true
  | _ => false

def flowCfgRe : BusAccess → Bool
  | .write (.flowCfg _) => true
  | _ => false

/-- What the rest of the system does on a cycle. -/
structure Ambient where
  sampleStrobe : Bool
  usbReadable : Bool
  usbSampleLo : Word
  usbSampleHi : BitVec 7
  sourceReady : Bool

/-- Nothing happens, and the MAC is ready. -/
def Ambient.quiet : Ambient :=
  { sampleStrobe := false, usbReadable := false, usbSampleLo := 0, usbSampleHi := 0
    sourceReady := true }

/-- A media strobe. -/
def Ambient.tick : Ambient := { Ambient.quiet with sampleStrobe := true }

/-! ## The packetizer on the bus -/

/-- The CSR storages and the circuit behind them. -/
structure Bus where
  csr : Csr
  gw : Packetizer.State

/-- The storages on a cycle with an access. -/
def accessed (csr : Csr) : BusAccess → Csr
  | .write w => w.store csr
  | _ => csr

/-- What the circuit sees of a cycle: a register's write strobe comes with its new value. -/
def busInput (b : Bus) (e : Ambient) (a : BusAccess) : Input :=
  { csr := accessed b.csr a
    tsLoadRe := tsLoadRe a
    udpDportRe := udpDportRe a
    dstMacLoRe := dstMacLoRe a
    flowCfgRe := flowCfgRe a
    sampleStrobe := e.sampleStrobe
    usbReadable := e.usbReadable
    usbSampleLo := e.usbSampleLo
    usbSampleHi := e.usbSampleHi
    sourceReady := e.sourceReady }

def busTick (b : Bus) (e : Ambient) (a : BusAccess) : Bus :=
  ⟨accessed b.csr a, step b.gw (busInput b e a)⟩

/-- `ts_now_sub`. -/
def tsNowSub (b : Bus) : Nat := b.gw.tsSub.toNat

/-- Both out of reset, with the talker on. -/
def Bus.reset : Bus := ⟨Input.quiet.csr, Packetizer.State.reset⟩

/-! ## The firmware's functions, one access at a time -/

abbrev CsrThread := Thread CsrWrite Nat

/-- The phase a seed `v` gives. -/
def phaseSeed (v adj fpp : Nat) : Byte := BitVec.ofNat 8 ((v + adj) % 2 ^ 32 % fpp)

/-- The seqlock loop of `write_ctx`. -/
def seedThread (fpp adj : Nat) (cfg : Byte) : Nat → CsrThread
  | 0 => .done
  | tries + 1 => .read fun s0 =>
      .write (.flowPhase (phaseSeed s0 adj fpp)) (.write (.flowCfg cfg)
        (.read fun s1 => if s1 = s0 then .done else seedThread fpp adj cfg tries))

/-- The register writes of `write_ctx` before the loop. -/
def ctxWrites (netIp : Ip) (f : CtxId) (dst : Ip) (dmac : Mac) (dport : BitVec 16)
    (chans : Fin 8 → BitVec 16) (nslots fpp : Nat) : List CsrWrite :=
  [.ctxSelect f, .chmapLo (chmapLo chans nslots), .chmapHi (chmapHi chans nslots),
    .dstIp dst.word,
    .ipCsum (ipHeaderChecksum netIp dst (ipTotal nslots fpp) danteTxIpTos danteTxIpTtl),
    .udpSport dantePortMedia, .dstMacHi dmac.hi, .dstMacLo dmac.lo, .udpDport dport]

/-- `write_ctx`. -/
def writeCtxThread (netIp : Ip) (adj : Nat) (f : CtxId) (dst : Ip) (dmac : Mac)
    (dport : BitVec 16) (chans : Fin 8 → BitVec 16) (nslots fpp : Nat) : CsrThread :=
  Thread.writes (ctxWrites netIp f dst dmac dport chans nslots fpp)
    (seedThread fpp adj (flowCfg nslots fpp) 8)

/-- The register writes of `dante_tx_unbind`. -/
def unbindThread (f : CtxId) : CsrThread := Thread.writes [.ctxSelect f, .flowCfg 0] .done

/-- `dante_tx_reseed_phases`, over the contexts of a list. -/
def reseedThread (adj : Nat) (flows : CtxId → FlowSlot) (sub : Nat) : List CtxId → CsrThread
  | [] => .done
  | f :: fs =>
      if (flows f).inUse then
        Thread.writes [.ctxSelect f,
          .flowPhase (BitVec.ofNat 8
            ((sub + adj + (flows f).fpp.val - 1) % 2 ^ 32 % (flows f).fpp.val)),
          .flowCfg (flowCfg (flows f).nslots (flows f).fpp)] (reseedThread adj flows sub fs)
      else reseedThread adj flows sub fs

/-- The register writes of `ts_anchor`, for an anchor that was computed. -/
def anchorThread (adj : Nat) (flows : CtxId → FlowSlot) (sec sub : Int) : CsrThread :=
  Thread.writes
    [.tsLoadSec (BitVec.ofInt 32 sec), .tsLoadSub (BitVec.ofInt 32 sub), .tsLoad]
    (reseedThread adj flows (sub % 2 ^ 32).toNat (List.finRange nFlows))

/-! ## All accesses at once -/

/-- A write as the bus view of `Gateware` makes it. -/
def CsrWrite.now (g : Gateware) : CsrWrite → Gateware
  | .ctxSelect f => g.writeCtxSelect f
  | .chmapLo v => { g with csr := { g.csr with chmapLo := v } }
  | .chmapHi v => { g with csr := { g.csr with chmapHi := v } }
  | .dstIp v => g.writeDstIp v
  | .ipCsum v => g.writeIpCsum v
  | .udpSport v => g.writeUdpSport v
  | .dstMacHi v => g.writeDstMacHi v
  | .dstMacLo v => g.writeDstMacLo v
  | .udpDport v => g.writeUdpDport v
  | .flowPhase v => g.writeFlowPhase v
  | .flowCfg v => g.writeFlowCfg v
  | .tsLoadSec v => { g with csr := { g.csr with tsLoadSec := v } }
  | .tsLoadSub v => { g with csr := { g.csr with tsLoadSub := v } }
  | .tsLoad => g

/-- All accesses of a thread at once, with the answers of its reads. -/
def now (answers : Nat → Nat) : CsrThread → Nat → Gateware → Gateware
  | .done, _, g => g
  | .write w rest, n, g => now answers rest n (w.now g)
  | .read rest, n, g => now answers (rest (answers n)) (n + 1) g

/-- A cycle with an access latches in the circuit what the bus view latches. -/
theorem latched_busTick {b : Bus} {g : Gateware} (hctx : ∀ k, latched (b.gw.ctx k) = g.ctx k)
    (hcsr : b.csr = g.csr) (e : Ambient) (w : CsrWrite) :
    (∀ k, latched ((busTick b e (.write w)).gw.ctx k) = (w.now g).ctx k) ∧
      (busTick b e (.write w)).csr = (w.now g).csr := by
  have hstore : (busTick b e (.write w)).csr = (w.now g).csr := by
    show w.store b.csr = (w.now g).csr
    rw [hcsr]
    cases w <;> rfl
  refine ⟨fun k => ?_, hstore⟩
  have hlatch := Gateware.latch_refines (s := b.gw) (i := busInput b e (.write w))
    (g := { g with csr := w.store b.csr }) hctx rfl k
  refine hlatch.trans ?_
  rw [hcsr]
  cases w <;> rfl

section Now

variable (answers : Nat → Nat)

theorem now_writes (ws : List CsrWrite) (t : CsrThread) (n : Nat) (g : Gateware) :
    now answers (Thread.writes ws t) n g =
      now answers t n (ws.foldl (fun g w => w.now g) g) := by
  induction ws generalizing g with
  | nil => rfl
  | cons w ws ih => exact ih (w.now g)

/-- The loop of single accesses makes the writes of the loop of pairs. -/
theorem seedThread_now (fpp adj : Nat) (cfg : Byte) :
    ∀ (tries n : Nat) (g : Gateware),
      now answers (seedThread fpp adj cfg tries) (2 * n) g =
        seedLoop fpp adj cfg (fun k => (answers (2 * k), answers (2 * k + 1))) tries n g
  | 0, _, _ => rfl
  | tries + 1, n, g => by
      have hrest := seedThread_now fpp adj cfg tries (n + 1)
      rw [seedLoop]
      dsimp only
      by_cases hsame : answers (2 * n + 1) = answers (2 * n)
      · rw [if_pos hsame, seedThread]
        simp only [now, hsame, if_true]
        rfl
      · rw [if_neg hsame, ← hrest, seedThread]
        simp only [now, hsame, if_false]
        rfl

theorem writeCtx_now (t : Tx) (f : CtxId) (dst : Ip) (dmac : Mac) (dport : BitVec 16)
    (chans : Fin 8 → BitVec 16) (nslots fpp : Nat) :
    now answers (writeCtxThread t.netIp t.phaseAdj f dst dmac dport chans nslots fpp) 0 t.gw =
      writeCtx t f dst dmac dport chans nslots fpp
        (fun k => (answers (2 * k), answers (2 * k + 1))) := by
  rw [writeCtxThread, now_writes, ← Nat.mul_zero 2, seedThread_now]
  rfl

theorem unbind_now (t : Tx) (f : CtxId) (hbound : (t.flows f).inUse = true) (n : Nat) :
    now answers (unbindThread f) n t.gw = (unbind t f).gw := by
  rw [unbind, if_pos hbound]
  rfl

theorem reseed_now (t : Tx) (sub : Nat) :
    ∀ (fs : List CtxId) (n : Nat) (g : Gateware),
      now answers (reseedThread t.phaseAdj t.flows sub fs) n g =
        (fs.foldl (reseedFlow sub) { t with gw := g }).gw
  | [], _, _ => rfl
  | f :: fs, n, g => by
      have hrest := reseed_now t sub fs n
      rw [List.foldl_cons, reseedThread]
      by_cases hbound : (t.flows f).inUse = true
      · rw [if_pos hbound, now_writes, hrest]
        exact congrArg (fun t' => (fs.foldl (reseedFlow sub) t').gw) (if_pos hbound).symm
      · rw [if_neg hbound, hrest]
        exact congrArg (fun t' => (fs.foldl (reseedFlow sub) t').gw) (if_neg hbound).symm

theorem anchor_now (k : Talker) (t : Timestamp) (n : Nat) :
    now answers (anchorThread k.tx.phaseAdj k.tx.flows (anchorOf t k.tsOffsetSamples).1
        (anchorOf t k.tsOffsetSamples).2) n k.tx.gw = (tsAnchor k t).tx.gw := by
  rw [anchorThread, now_writes, reseed_now]
  rfl

end Now

end Firmware
end InfernoFpga
