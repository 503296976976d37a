import InfernoFpga.Packetizer.Geometry
import Mathlib.Data.Fin.Basic
import Mathlib.Tactic.FinCases

/-!
# Machine — the packetizer as a synchronous circuit

`step` is one edge of `sys_clk`: every register of `DantePacketizer` gets its next value from
the registers and the inputs of the cycle.  A signal assigned in several places of the source
has one next-value function here, with the branches in the order that decides (the last
assignment wins, and an FSM's `NextValue` follows the plain `sync` statements).

Two points about what the memories return.  The read ports are registered by address, so a
read delivers the *present* contents at the address of the previous cycle; and an `Array`
indexed out of range selects its last element.
-/

namespace InfernoFpga
namespace Packetizer

/-! ## Inputs of a cycle -/

/-- The CSR storages the datapath reads. -/
structure Csr where
  enable : Bool
  ctxSelect : BitVec 3
  srcMacHi : BitVec 16
  srcMacLo : Word
  dstMacHi : BitVec 16
  dstMacLo : Word
  dstIp : Word
  ipCsum : BitVec 16
  udpSport : BitVec 16
  udpDport : BitVec 16
  srcIp : Word
  ipTos : Byte
  ipTtl : Byte
  tsOffset : Word
  tsLoadSec : Word
  tsLoadSub : Word
  chmapLo : Word
  chmapHi : Word
  flowCfg : Byte
  flowPhase : Byte

structure Input where
  csr : Csr
  /-- Write strobes of the four CSRs that trigger a latch. -/
  tsLoadRe : Bool
  udpDportRe : Bool
  dstMacLoRe : Bool
  flowCfgRe : Bool
  /-- `mcr.sample_strobe`, the media clock. -/
  sampleStrobe : Bool
  usbReadable : Bool
  usbSampleLo : Word
  /-- Channel number in the low six bits, the `first` marker above them. -/
  usbSampleHi : BitVec 7
  /-- Backpressure of the MAC. -/
  sourceReady : Bool

/-- A cycle in which nothing arrives: talker on, MAC ready, no CSR written. -/
def Input.quiet : Input :=
  { csr :=
      { enable := true, ctxSelect := 0, srcMacHi := 0, srcMacLo := 0, dstMacHi := 0
        dstMacLo := 0, dstIp := 0, ipCsum := 0, udpSport := 0, udpDport := 0, srcIp := 0
        ipTos := 0, ipTtl := 0, tsOffset := 0, tsLoadSec := 0, tsLoadSub := 0
        chmapLo := 0, chmapHi := 0, flowCfg := 0, flowPhase := 0 }
    tsLoadRe := false, udpDportRe := false, dstMacLoRe := false, flowCfgRe := false
    sampleStrobe := false, usbReadable := false, usbSampleLo := 0, usbSampleHi := 0
    sourceReady := true }

/-- A cycle that writes `flow_cfg` and `flow_phase` of one context. -/
def Input.bind (k : BitVec 3) (cfg phase : Byte) (lo hi : Word) : Input :=
  { Input.quiet with
    csr := { Input.quiet.csr with
      ctxSelect := k, flowCfg := cfg, flowPhase := phase, chmapLo := lo, chmapHi := hi }
    flowCfgRe := true }

/-- A cycle with a media strobe. -/
def Input.tick : Input := { Input.quiet with sampleStrobe := true }

/-- A cycle with a USB word: channel number and `first` marker in `hi`. -/
def Input.usb (hi : BitVec 7) (lo : Word) : Input :=
  { Input.quiet with usbReadable := true, usbSampleHi := hi, usbSampleLo := lo }

/-! ## Registers -/

/-- The latched binding of one flow context, its pacing phase and its pending-emit bit. -/
structure Ctx where
  dip : Word
  csum : BitVec 16
  sport : BitVec 16
  dport : BitVec 16
  dmac : BitVec 48
  cmlo : Word
  cmhi : Word
  cfg : Byte
  phase : Nat
  pend : Bool

inductive Fsm
  | idle
  | skip
  | check
  | build
  | prefetch
  | stream
  deriving DecidableEq, Repr

structure State where
  -- USB ingress
  sampVld : Bool
  sampLoR : Word
  sampHiR : BitVec 7
  started : Bool
  frameBase : Word
  rdAnchor : Word
  ring : Nat → Nat → BitVec 36
  writeDrops : Word
  -- media clock side
  rd : Word
  primed : Bool
  tsSec : Word
  tsSub : Word
  tsLoadPending : Bool
  sendReq : Bool
  rdSnap : Word
  tsSecEmit : Word
  tsSubEmit : Word
  underruns : Word
  ctx : CtxId → Ctx
  -- frame builder
  fsm : Fsm
  streamIdx : CtxId
  byteIdx : Nat
  bph : Nat
  csSlot : Nat
  csSamp : Nat
  pktPrimed : Bool
  wacc0 : Byte
  wacc1 : Byte
  wacc2 : Byte
  sampHold : Word
  ringAdr : Nat
  csMemD : Nat
  csVldD : Bool
  frameMem : Nat → Word
  frameAdr : Nat
  rdIdx : Nat
  pktCount : Word
  overruns : Word
  alignedOnce : Bool
  dbgTs : Word
  dbgSec : Word

/-- A context as it comes out of reset. -/
def Ctx.reset : Ctx :=
  { dip := 0, csum := 0, sport := 0, dport := 0, dmac := 0, cmlo := 0, cmhi := 0
    cfg := 0, phase := 0, pend := false }

def State.reset : State :=
  { sampVld := false, sampLoR := 0, sampHiR := 0, started := false
    frameBase := 0, rdAnchor := 0, ring := fun _ _ => 0, writeDrops := 0
    rd := 0, primed := false, tsSec := 0, tsSub := 0, tsLoadPending := false
    sendReq := false, rdSnap := 0, tsSecEmit := 0, tsSubEmit := 0, underruns := 0
    ctx := fun _ => Ctx.reset
    fsm := .idle, streamIdx := 0, byteIdx := 0, bph := 0, csSlot := 0, csSamp := 0
    pktPrimed := false, wacc0 := 0, wacc1 := 0, wacc2 := 0, sampHold := 0
    ringAdr := 0, csMemD := 0, csVldD := false, frameMem := fun _ => 0, frameAdr := 0
    rdIdx := 0, pktCount := 0, overruns := 0, alignedOnce := false, dbgTs := 0, dbgSec := 0 }

/-! ## Bit slices -/

/-- Byte `k` of a signal, `k = 0` the least significant. -/
def byteAt {w : Nat} (x : BitVec w) (k : Nat) : Byte := x.extractLsb' (8 * k) 8

/-- `packed`: the sample spread around the BRAM parity positions 8, 17, 26 and 35. -/
def packed (x : Word) : BitVec 36 :=
  0#1 ++ byteAt x 3 ++ 0#1 ++ byteAt x 2 ++ 0#1 ++ byteAt x 1 ++ 0#1 ++ byteAt x 0

/-- `samp_rd`: the four bytes of a ring entry without the parity dummies. -/
def unpacked (r : BitVec 36) : Word :=
  r.extractLsb' 27 8 ++ r.extractLsb' 18 8 ++ r.extractLsb' 9 8 ++ r.extractLsb' 0 8

/-! ## USB ingress and ring accounting -/

section Ring

variable (s : State) (i : Input)

def en : Bool := i.csr.enable

/-- `strobe`: a media sample tick while the talker is on. -/
def strobe : Bool := i.sampleStrobe && en i

def first : Bool := s.sampHiR.getLsbD 6
def chanNr : Nat := s.sampHiR.toNat % 64
def bundle : Nat := chanNr s / channels
def within : Nat := chanNr s % channels

/-- `level = wr - rd` in a signed 34-bit signal: the exact difference of the two registers. -/
def level : Int := (s.frameBase.toNat : Int) - (s.rd.toNat : Int)

def newBase : Word := s.frameBase + 8
def baseNow : Word := if s.sampVld && first s then newBase s else s.frameBase
def wrAddr : Word := baseNow s + BitVec.ofNat 32 (within s)
def haveSpace : Bool := decide (level s < (sringDepth : Int) - 2)
def doWrite : Bool := en i && s.sampVld && (s.started || first s) && haveSpace s

/-- A USB frame begins: the ch0 marker reaches the ingress register. -/
def frameBegin : Bool := s.sampVld && first s

/-- `block_level`, the input of the USB feedback servo: the ring fill on a scale of 0..128. -/
def blockLevel : Int :=
  if !en i then 64
  else if level s < 0 then 0
  else if level s / 16 > 128 then 128
  else level s / 16

def nextStarted : Bool :=
  if !en i then false else if frameBegin s then true else s.started

/-- The write grid advances one frame per `first`, whether or not the ring has space. -/
def nextFrameBase : Word :=
  if frameBegin s && (s.started || first s) then newBase s else s.frameBase

def nextRdAnchor : Word :=
  if !en i then newBase s
  else if !s.started && s.sampVld && first s then newBase s
  else s.rdAnchor

def nextRing (b a : Nat) : BitVec 36 :=
  if doWrite s i && bundle s == b && (wrAddr s).toNat % sringDepth == a then
    packed s.sampLoR
  else s.ring b a

def nextPrimed : Bool :=
  if !en i then false
  else if level s ≥ (center : Int) then true
  else if level s < (frameSamples : Int) then false
  else s.primed

end Ring

/-! ## Contexts: pacing phase, due and pending -/

section Contexts

variable (s : State) (i : Input)

/-- The array element an indirect CSR write goes to. -/
def ctxIndex (sel : BitVec 3) : CtxId :=
  if h : sel.toNat < 6 then ⟨sel.toNat, h⟩ else 5

/-- `due_arr[k]`: high on the sample where context `k` completes its group. -/
def due (k : CtxId) : Bool :=
  nslots (s.ctx k).cfg != 0 && (s.ctx k).phase == fpp (s.ctx k).cfg - 1

def anyDue : Bool := decide (∃ k, due s k = true)
def anyPend : Bool := decide (∃ k, (s.ctx k).pend = true)

/-- The context the builder is looking at. -/
def cur : Ctx := s.ctx s.streamIdx

def curFpp : Nat := fpp (cur s).cfg

/-- `source.last`. -/
def sourceLast : Bool := s.rdIdx == fLastIdx (cur s).cfg

/-- The last word of a frame is accepted by the MAC; the source's `serve_now`. -/
def serveNow : Bool := s.fsm == .stream && i.sourceReady && sourceLast s

/-- The builder leaves `IDLE` to walk the contexts. -/
def walkStart : Bool := s.fsm == .idle && anyPend s

/-- The walk goes on to the next context. -/
def advance : Bool := (s.fsm == .skip || serveNow s i) && s.streamIdx != 5

/-- Writing `flow_cfg` reloads the phase; a strobe counts it modulo the context's fpp. -/
def nextPhase (k : CtxId) : Nat :=
  let c := s.ctx k
  if i.flowCfgRe && i.csr.ctxSelect.toNat == k.val then i.csr.flowPhase.toNat % 64
  else if strobe i then
    if c.phase == fpp c.cfg - 1 then 0 else (c.phase + 1) % 64
  else c.phase

/-- Set wins over clear: a due that arrives as its context is served is kept. -/
def nextPend (k : CtxId) : Bool :=
  if strobe i && due s k then true
  else if serveNow s i && s.streamIdx == k then false
  else (s.ctx k).pend

def nextCtx (k : CtxId) : Ctx :=
  let c := s.ctx k
  let sel := ctxIndex i.csr.ctxSelect == k
  { dip := if i.udpDportRe && sel then i.csr.dstIp else c.dip
    csum := if i.udpDportRe && sel then i.csr.ipCsum else c.csum
    sport := if i.udpDportRe && sel then i.csr.udpSport else c.sport
    dport := if i.udpDportRe && sel then i.csr.udpDport else c.dport
    dmac := if i.dstMacLoRe && sel then i.csr.dstMacHi ++ i.csr.dstMacLo else c.dmac
    cmlo := if i.flowCfgRe && sel then i.csr.chmapLo else c.cmlo
    cmhi := if i.flowCfgRe && sel then i.csr.chmapHi else c.cmhi
    cfg := if i.flowCfgRe && sel then i.csr.flowCfg else c.cfg
    phase := nextPhase s i k
    pend := nextPend s i k }

end Contexts

/-! ## Timestamp counter and the emit latches -/

section Media

variable (s : State) (i : Input)

def nextTsLoadPending : Bool :=
  if strobe i && s.tsLoadPending then false
  else if i.tsLoadRe then true
  else s.tsLoadPending

def nextTsSec : Word :=
  if strobe i then
    if s.tsLoadPending then i.csr.tsLoadSec
    else if s.tsSub == BitVec.ofNat 32 (subsecMax - 1) then s.tsSec + 1
    else s.tsSec
  else s.tsSec

def nextTsSub : Word :=
  if strobe i then
    if s.tsLoadPending then i.csr.tsLoadSub
    else if s.tsSub == BitVec.ofNat 32 (subsecMax - 1) then 0
    else s.tsSub + 1
  else s.tsSub

/-- A strobe on which some context is due: `send_req` and the shared emit latches fire. -/
def dueStrobe : Bool := strobe i && anyDue s

/-- The anchor load of `IDLE` comes from the FSM and so overrides the per-strobe advance. -/
def nextRd : Word :=
  if walkStart s && !s.alignedOnce then s.rdAnchor
  else if strobe i && s.primed then s.rd + 8
  else s.rd

/-- `do_emit`. -/
def doEmit : Bool := s.sendReq && s.fsm == .idle

def nextAlignedOnce : Bool :=
  if !en i then false else if doEmit s then true else s.alignedOnce

end Media

/-! ## Frame builder -/

section Builder

variable (s : State) (i : Input)

def cfgNow : Byte := (cur s).cfg

/-- `_borrow`: the window of the packet starts in the previous second. -/
def borrow : Bool := decide (s.tsSubEmit.toNat < curFpp s - 1)

/-- `f_ts_sub` and `f_ts_sec`: the start of the window the packet covers. -/
def fTsSub : Word :=
  if borrow s then
    s.tsSubEmit + BitVec.ofNat 32 subsecMax - BitVec.ofNat 32 (curFpp s - 1)
  else s.tsSubEmit - BitVec.ofNat 32 (curFpp s - 1)

def fTsSec : Word := if borrow s then s.tsSecEmit - 1 else s.tsSecEmit

/-- `hb`: the 51 header bytes, first byte on the wire first. -/
def header : List Byte :=
  let c := cur s
  let srcMac : BitVec 48 := i.csr.srcMacHi ++ i.csr.srcMacLo
  let ipLen := fIpLen c.cfg
  let udpLen := fUdpLen c.cfg
  [ -- Ethernet
    byteAt c.dmac 5, byteAt c.dmac 4, byteAt c.dmac 3,
    byteAt c.dmac 2, byteAt c.dmac 1, byteAt c.dmac 0,
    byteAt srcMac 5, byteAt srcMac 4, byteAt srcMac 3,
    byteAt srcMac 2, byteAt srcMac 1, byteAt srcMac 0,
    0x08, 0x00,
    -- IPv4
    0x45, i.csr.ipTos, byteAt ipLen 1, byteAt ipLen 0,
    0x00, 0x00, 0x00, 0x00, i.csr.ipTtl, 17,
    byteAt c.csum 1, byteAt c.csum 0,
    byteAt i.csr.srcIp 3, byteAt i.csr.srcIp 2, byteAt i.csr.srcIp 1, byteAt i.csr.srcIp 0,
    byteAt c.dip 3, byteAt c.dip 2, byteAt c.dip 1, byteAt c.dip 0,
    -- UDP
    byteAt c.sport 1, byteAt c.sport 0, byteAt c.dport 1, byteAt c.dport 0,
    byteAt udpLen 1, byteAt udpLen 0, 0x00, 0x00,
    -- Dante
    0x02,
    byteAt (fTsSec s) 3, byteAt (fTsSec s) 2, byteAt (fTsSec s) 1, byteAt (fTsSec s) 0,
    byteAt (fTsSub s) 3, byteAt (fTsSub s) 2, byteAt (fTsSub s) 1, byteAt (fTsSub s) 0 ]

/-- `cur_byte`: a header byte, then the top three bytes of the held sample in turn. -/
def curByte : Byte :=
  if s.byteIdx < hdrLen then (header s i).getD (s.byteIdx % 64) (byteAt (fTsSub s) 0)
  else match s.bph with
    | 0 => byteAt s.sampHold 3
    | 1 => byteAt s.sampHold 2
    | 2 => byteAt s.sampHold 1
    | _ => 0

def isLast : Bool := s.byteIdx == (fTotal (cfgNow s) + 2047) % 2048
def flowOff : Bool := nslots (cfgNow s) == 0

/-- `cs_ent`: the channel-map entry of the slot being addressed. -/
def csEnt : Byte := byteAt ((cur s).cmhi ++ (cur s).cmlo) (min s.csSlot 7)

def csCh : Nat := (csEnt s).toNat % 64
def csVld : Bool := (csEnt s).getLsbD 7

/-- `f_base`: the window of the packet is the `fpp` frames behind the snapshot of `rd`. -/
def fBase : Word := s.rdSnap - BitVec.ofNat 32 (8 * curFpp s)

/-- `rdf`: ring address of slot `cs_slot` in frame `cs_samp` of the window. -/
def rdf : Word :=
  fBase s + BitVec.ofNat 32 (8 * s.csSamp) + BitVec.ofNat 32 (csCh s % 8)

/-- `samp_rd`: what the ring selected on the previous cycle delivers now. -/
def sampRd : Word := unpacked (s.ring (min s.csMemD 5) s.ringAdr)

/-- The sample taken for a slot: silence where the channel map has no entry. -/
def slotSample : Word := if s.csVldD then sampRd s else 0

/-- Slot index and sample index of the next sample, slot fastest. -/
def nxSlot : Nat :=
  if s.csSlot == (nslots (cfgNow s) + 15) % 16 then 0 else (s.csSlot + 1) % 16
def nxSamp : Nat :=
  if s.csSlot == (nslots (cfgNow s) + 15) % 16 then (s.csSamp + 1) % 256 else s.csSamp

/-- `BUILD` is at the last byte of a payload sample. -/
def sampleEnd : Bool := s.fsm == .build && decide (hdrLen ≤ s.byteIdx) && s.bph == 2

/-- `samp_hold` is loaded from the ring on this cycle. -/
def fetch : Bool :=
  s.fsm == .build && s.pktPrimed && (s.byteIdx == 1 || sampleEnd s)

/-- The read position steps to the next slot on this cycle. -/
def stepSlot : Bool :=
  s.fsm == .build && s.pktPrimed && (s.byteIdx == 0 || sampleEnd s)

/-- The walk is about to look at a context from its first byte. -/
def restart : Bool := walkStart s || advance s i

def nextFsm : Fsm :=
  match s.fsm with
  | .idle => if anyPend s then .check else .idle
  | .check => if flowOff s || !(cur s).pend then .skip else .build
  | .skip => if s.streamIdx != 5 then .check else .idle
  | .build => if isLast s then .prefetch else .build
  | .prefetch => .stream
  | .stream =>
      if serveNow s i then (if s.streamIdx != 5 then .check else .idle) else .stream

def nextStreamIdx : CtxId :=
  if walkStart s then 0 else if advance s i then s.streamIdx + 1 else s.streamIdx

def nextByteIdx : Nat :=
  if restart s i then 0
  else if s.fsm == .build && !isLast s then (s.byteIdx + 1) % 2048
  else s.byteIdx

def nextBph : Nat :=
  if restart s i then 0
  else if s.fsm == .build && decide (hdrLen ≤ s.byteIdx) then
    if s.bph == 2 then 0 else (s.bph + 1) % 4
  else s.bph

def nextCsSlot : Nat :=
  if restart s i then 0 else if stepSlot s then nxSlot s else s.csSlot

def nextCsSamp : Nat :=
  if restart s i then 0 else if stepSlot s then nxSamp s else s.csSamp

def nextSampHold : Word :=
  if s.fsm == .build then
    if s.pktPrimed then
      if fetch s then slotSample s else s.sampHold
    else 0
  else s.sampHold

/-- The word written on the last byte: `Cat(wacc[0:8], cur_byte, Constant(0, 8))`. -/
def lastWord : Word := 0#16 ++ curByte s i ++ s.wacc0

def fullWord : Word := curByte s i ++ s.wacc2 ++ s.wacc1 ++ s.wacc0

def nextFrameMem (a : Nat) : Word :=
  if s.fsm == .build && isLast s && a == fLastIdx (cfgNow s) then lastWord s i
  else if s.fsm == .build && !isLast s && s.byteIdx % 4 == 3 && a == s.byteIdx / 4 then
    fullWord s i
  else s.frameMem a

/-- `wacc` collects lanes 0..2 of the word in progress. -/
def nextWacc (lane : Nat) (old : Byte) : Byte :=
  if s.fsm == .build && s.byteIdx % 4 == lane then curByte s i else old

def nextRdIdx : Nat :=
  if s.fsm == .build && isLast s then 0
  else if s.fsm == .stream && i.sourceReady && !sourceLast s then (s.rdIdx + 1) % 512
  else s.rdIdx

/-- `rd_idx_next`, the address the frame memory registers. -/
def nextFrameAdr : Nat :=
  match s.fsm with
  | .prefetch => 0
  | .stream => if i.sourceReady then (s.rdIdx + 1) % 512 else s.rdIdx
  | _ => s.rdIdx

end Builder

/-! ## Output stream -/

section Output

variable (s : State)

def sourceValid : Bool := s.fsm == .stream
def sourceData : Word := s.frameMem s.frameAdr
def sourceLastBe : BitVec 4 := if sourceLast s then 0b0100 else 0xF

end Output

/-! ## One clock edge -/

def step (s : State) (i : Input) : State :=
  { sampVld := i.usbReadable
    sampLoR := if i.usbReadable then i.usbSampleLo else s.sampLoR
    sampHiR := if i.usbReadable then i.usbSampleHi else s.sampHiR
    started := nextStarted s i
    frameBase := nextFrameBase s
    rdAnchor := nextRdAnchor s i
    ring := nextRing s i
    writeDrops :=
      if en i && s.sampVld && (s.started || first s) && !haveSpace s then s.writeDrops + 1
      else s.writeDrops
    rd := nextRd s i
    primed := nextPrimed s i
    tsSec := nextTsSec s i
    tsSub := nextTsSub s i
    tsLoadPending := nextTsLoadPending s i
    sendReq := dueStrobe s i
    rdSnap := if dueStrobe s i then s.rd else s.rdSnap
    tsSecEmit := if dueStrobe s i then s.tsSec else s.tsSecEmit
    tsSubEmit := if dueStrobe s i then s.tsSub + i.csr.tsOffset else s.tsSubEmit
    underruns := if strobe i && !s.primed then s.underruns + 1 else s.underruns
    ctx := nextCtx s i
    fsm := nextFsm s i
    streamIdx := nextStreamIdx s i
    byteIdx := nextByteIdx s i
    bph := nextBph s i
    csSlot := nextCsSlot s i
    csSamp := nextCsSamp s i
    pktPrimed := if walkStart s then s.primed else s.pktPrimed
    wacc0 := nextWacc s i 0 s.wacc0
    wacc1 := nextWacc s i 1 s.wacc1
    wacc2 := nextWacc s i 2 s.wacc2
    sampHold := nextSampHold s
    ringAdr := (rdf s).toNat % sringDepth
    csMemD := csCh s / 8
    csVldD := csVld s
    frameMem := nextFrameMem s i
    frameAdr := nextFrameAdr s i
    rdIdx := nextRdIdx s i
    pktCount := if serveNow s i then s.pktCount + 1 else s.pktCount
    overruns := if s.sendReq && s.fsm != .idle then s.overruns + 1 else s.overruns
    alignedOnce := nextAlignedOnce s i
    dbgTs := if en i && doEmit s then s.tsSubEmit else s.dbgTs
    dbgSec := if en i && doEmit s then s.tsSecEmit else s.dbgSec }

section StepFields

variable (s : State) (i : Input)

@[simp] theorem step_started : (step s i).started = nextStarted s i := rfl
@[simp] theorem step_frameBase : (step s i).frameBase = nextFrameBase s := rfl
@[simp] theorem step_rdAnchor : (step s i).rdAnchor = nextRdAnchor s i := rfl
@[simp] theorem step_ring : (step s i).ring = nextRing s i := rfl
@[simp] theorem step_rd : (step s i).rd = nextRd s i := rfl
@[simp] theorem step_primed : (step s i).primed = nextPrimed s i := rfl
@[simp] theorem step_tsSec : (step s i).tsSec = nextTsSec s i := rfl
@[simp] theorem step_tsSub : (step s i).tsSub = nextTsSub s i := rfl
@[simp] theorem step_tsLoadPending : (step s i).tsLoadPending = nextTsLoadPending s i := rfl
@[simp] theorem step_sendReq : (step s i).sendReq = dueStrobe s i := rfl
@[simp] theorem step_ctx : (step s i).ctx = nextCtx s i := rfl
@[simp] theorem step_fsm : (step s i).fsm = nextFsm s i := rfl
@[simp] theorem step_streamIdx : (step s i).streamIdx = nextStreamIdx s i := rfl
@[simp] theorem step_byteIdx : (step s i).byteIdx = nextByteIdx s i := rfl
@[simp] theorem step_bph : (step s i).bph = nextBph s i := rfl
@[simp] theorem step_csSlot : (step s i).csSlot = nextCsSlot s i := rfl
@[simp] theorem step_csSamp : (step s i).csSamp = nextCsSamp s i := rfl
@[simp] theorem step_sampHold : (step s i).sampHold = nextSampHold s := rfl
@[simp] theorem step_frameMem : (step s i).frameMem = nextFrameMem s i := rfl
@[simp] theorem step_rdIdx : (step s i).rdIdx = nextRdIdx s i := rfl
@[simp] theorem step_frameAdr : (step s i).frameAdr = nextFrameAdr s i := rfl
@[simp] theorem step_alignedOnce : (step s i).alignedOnce = nextAlignedOnce s i := rfl

end StepFields

end Packetizer
end InfernoFpga
