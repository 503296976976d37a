import InfernoFpga.Firmware.Bus
import InfernoFpga.Firmware.FlowRefine
import InfernoFpga.Packetizer.Pacing
import InfernoFpga.Packetizer.Payload

/-!
# Rebind — frames while the firmware rewrites contexts

Binding, unbinding and evicting write a context one register at a time, while the builder reads
it at different states of a packet.  Nothing in the gateware keeps the two apart.  An observer
remembers what each context held when `flow_cfg` was last written to it; as long as nothing is
rewritten under a packet that is pending, every frame is made of one such binding.
-/

namespace InfernoFpga
namespace Firmware

open Lib
open Packetizer (CtxId Word Byte State Input Frame Fetch Fsm ctxIndex byteAt fpp nslots fIpLen
  fUdpLen fLastIdx packetSamples cur cfgNow inFlight served dueEvent step)

/-! ## What a binding says about a frame -/

/-- The header bytes that come from a binding, first byte first. -/
def macBytes (dmac : BitVec 48) : List (Option Byte) :=
  [some (byteAt dmac 5), some (byteAt dmac 4), some (byteAt dmac 3), some (byteAt dmac 2),
    some (byteAt dmac 1), some (byteAt dmac 0)]

def addrBytes (B : Latched) : List (Option Byte) :=
  [none, none, none, none, none, none, none, none, none, none,
    some (byteAt (fIpLen B.cfg) 1), some (byteAt (fIpLen B.cfg) 0),
    none, none, none, none, none, none,
    some (byteAt B.csum 1), some (byteAt B.csum 0),
    none, none, none, none,
    some (byteAt B.dip 3), some (byteAt B.dip 2), some (byteAt B.dip 1), some (byteAt B.dip 0),
    some (byteAt B.sport 1), some (byteAt B.sport 0), some (byteAt B.dport 1),
    some (byteAt B.dport 0)]

def lenBytes (cfg : Byte) : List (Option Byte) :=
  [some (byteAt (fUdpLen cfg) 1), some (byteAt (fUdpLen cfg) 0)]

def bindingBytes (B : Latched) : List (Option Byte) :=
  macBytes B.dmac ++ (addrBytes B ++ lenBytes B.cfg)

/-- Byte `j` of a header that the binding `B` gives. -/
def HeaderByte (B : Latched) (j : Nat) (b : Byte) : Prop :=
  ∀ v, (bindingBytes B).getD j none = some v → b = v

/-- The channel-map entry of a slot. -/
def mapEntry (B : Latched) (slot : Nat) : Byte := byteAt (B.cmhi ++ B.cmlo) slot

/-- The read of position `m` goes through the map of `B`: slot fastest. -/
def mapAddressing (B : Latched) : Packetizer.Addressing := fun m ring adr valid =>
  let e := mapEntry B (m % nslots B.cfg)
  ring = min (e.toNat % 64 / 8) 5 ∧ adr % 8 = e.toNat % 64 % 8 ∧ valid = e.getLsbD 7

/-- Bytes of a frame on the wire: the last word has three. -/
def octets (words : List Word) : Nat := 4 * (words.length - 1) + 3

/-- A frame and the log of its reads are made of the binding `B`. -/
structure Conforms (B : Latched) (words : List Word) (f : Frame) : Prop where
  octets : octets words = 51 + 3 * packetSamples B.cfg
  header : ∀ j, HeaderByte B j (Frame.wireByte words j)
  reads : Packetizer.FetchesMeet (mapAddressing B) f
  payload : ∀ j, 51 + j < 4 * (words.length - 1) →
    Frame.wireByte words (51 + j) = byteAt (f.sampleAt (j / 3)) (3 - j % 3)

section HeaderBytes

variable {R B : Latched} {j : Nat}

theorem getD_append_congr {l l' m m' : List (Option Byte)} (hlen : l'.length = l.length)
    (hl : j < l.length → l.getD j none = l'.getD j none)
    (hm : l.length ≤ j → m.getD (j - l.length) none = m'.getD (j - l.length) none) :
    (l ++ m).getD j none = (l' ++ m').getD j none := by
  rcases Nat.lt_or_ge j l.length with h | h
  · rw [List.getD_append _ _ _ _ h, List.getD_append _ _ _ _ (hlen ▸ h)]
    exact hl h
  · rw [List.getD_append_right _ _ _ _ h, List.getD_append_right _ _ _ _ (hlen ▸ h), hlen]
    exact hm h

/-- The header bytes of two bindings agree where their registers do. -/
theorem bindingBytes_congr (hcfg : R.cfg = B.cfg) (hmac : j < 6 → R.dmac = B.dmac)
    (haddr : j < 38 → R.dip = B.dip ∧ R.csum = B.csum ∧ R.sport = B.sport ∧ R.dport = B.dport) :
    (bindingBytes R).getD j none = (bindingBytes B).getD j none := by
  have hmacs : (macBytes R.dmac).length = 6 := rfl
  have haddrs : (addrBytes R).length = 32 := rfl
  refine getD_append_congr rfl (fun h => ?_) fun h => getD_append_congr rfl (fun h' => ?_)
    fun _ => ?_
  · rw [hmac (by omega)]
  · obtain ⟨hdip, hcsum, hsport, hdport⟩ := haddr (by omega)
    rw [addrBytes, addrBytes, hdip, hcsum, hsport, hdport, hcfg]
  · rw [hcfg]

/-- The header that the builder makes has the bytes of the registers it reads. -/
theorem header_bytes (s : State) (i : Input) :
    List.Forall₂ (fun o b => ∀ v, o = some v → b = v) (bindingBytes (latched (cur s)))
      ((Packetizer.header s i).take 40) := by
  have hsome : ∀ x v : Byte, some x = some v → x = v := fun _ _ h => Option.some.inj h
  have hnone : ∀ x v : Byte, none = some v → x = v := fun _ _ h => by cases h
  simp only [bindingBytes, macBytes, addrBytes, lenBytes, List.cons_append, List.nil_append,
    Packetizer.header, List.take_succ_cons, List.take_zero]
  repeat' apply List.Forall₂.cons
  all_goals first | exact hsome _ | exact hnone _ | exact List.Forall₂.nil

theorem headerByte_curByte {s : State} (i : Input) :
    HeaderByte (latched (cur s)) s.byteIdx (Packetizer.curByte s i) := by
  intro v hv
  have hlt : s.byteIdx < 40 := by
    by_contra hge
    rw [List.getD_eq_default _ _ (Nat.le_of_not_lt hge)] at hv
    cases hv
  have hheader : s.byteIdx < ((Packetizer.header s i).take 40).length := hlt
  have hhdr : s.byteIdx < Packetizer.hdrLen := Nat.lt_trans hlt (by decide)
  have hlength : (Packetizer.header s i).length = 51 := rfl
  have hcur : Packetizer.curByte s i = ((Packetizer.header s i).take 40).get ⟨_, hheader⟩ := by
    rw [Packetizer.curByte, if_pos hhdr, Nat.mod_eq_of_lt (by omega),
      List.getD_eq_getElem _ _ (by omega)]
    simp
  rw [hcur]
  refine (header_bytes s i).get hlt hheader v ?_
  rw [← hv, List.getD_eq_getElem _ _ hlt]
  rfl

end HeaderBytes

/-! ## The observer -/

/-- `flow_cfg` is written to a context on this cycle. -/
def commits (i : Input) (k : CtxId) : Bool := i.flowCfgRe && ctxIndex i.csr.ctxSelect == k

/-- What each context held when `flow_cfg` was last written to it, whether a due event was raised
since, and the frame in progress. -/
structure Commit where
  committed : CtxId → Latched
  fresh : CtxId → Bool
  frame : Frame

def Commit.next (b : Bus) (e : Ambient) (a : BusAccess) (g : Commit) : Commit :=
  let i := busInput b e a
  { committed := fun k =>
      if commits i k then latched ((busTick b e a).gw.ctx k) else g.committed k
    fresh := fun k => if commits i k then false else g.fresh k || dueEvent b.gw i k
    frame := Frame.next b.gw i g.frame }

/-- The bus with the observer. -/
def bindTick (d : Bus × Commit) (e : Ambient) (a : BusAccess) : Bus × Commit :=
  (busTick d.1 e a, Commit.next d.1 e a d.2)

def bindSense (d : Bus × Commit) : Nat := tsNowSub d.1

/-! ## When rewriting does no harm -/

/-- The frame under construction is that of context `k` and has its first `n` bytes. -/
def Past (s : State) (k : CtxId) (n : Nat) : Prop :=
  s.streamIdx = k ∧ (s.fsm = .build ∧ n ≤ s.byteIdx ∨ s.fsm = .prefetch ∨ s.fsm = .stream)

instance (s : State) (k : CtxId) (n : Nat) : Decidable (Past s k n) :=
  inferInstanceAs (Decidable (_ ∧ _))

/-- The header registers of a context hold the binding, or are not needed any more. -/
def HeaderKept (s : State) (k : CtxId) (B : Latched) : Prop :=
  ((s.ctx k).dmac = B.dmac ∨ Past s k 6) ∧
    (((s.ctx k).dip = B.dip ∧ (s.ctx k).csum = B.csum ∧ (s.ctx k).sport = B.sport ∧
      (s.ctx k).dport = B.dport) ∨ Past s k 38)

instance (s : State) (k : CtxId) (B : Latched) : Decidable (HeaderKept s k B) :=
  inferInstanceAs (Decidable (_ ∧ _))

/-- A configuration whose payload is a whole number of words. -/
def wholeWords : BusAccess → Bool
  | .write (.flowCfg v) => packetSamples v % 4 == 0
  | _ => true

/-- A cycle that rewrites nothing under a pending packet: `flow_cfg` is not written to its
context, and the header registers keep the binding until they have been read. -/
def Undisturbed (d : Bus × Commit) (e : Ambient) (a : BusAccess) : Prop :=
  wholeWords a = true ∧ ∀ k, Packetizer.nextPend d.1.gw (busInput d.1 e a) k = true →
    commits (busInput d.1 e a) k = false ∧ HeaderKept (busTick d.1 e a).gw k (d.2.committed k)

instance (d : Bus × Commit) (e : Ambient) (a : BusAccess) : Decidable (Undisturbed d e a) :=
  inferInstanceAs (Decidable (_ ∧ _))

/-- `flow_cfg` is only ever written with at most 8 slots. -/
def SlotsFit : CsrWrite → Prop
  | .flowCfg v => nslots v ≤ 8
  | _ => True

/-! ## The invariant -/

/-- Read and write pointers stay on frames of eight samples. -/
structure OnGrid (s : State) : Prop where
  base : s.frameBase.toNat % 8 = 0
  anchor : s.rdAnchor.toNat % 8 = 0
  rd : s.rd.toNat % 8 = 0
  snap : s.rdSnap.toNat % 8 = 0

/-- Whatever is pending, in construction or on the wire is made of a committed binding. -/
structure Atomic (d : Bus × Commit) : Prop where
  admissible : Packetizer.Admissible d.1.gw
  whole : ∀ k, packetSamples (d.1.gw.ctx k).cfg % 4 = 0
  map : ∀ k, (d.1.gw.ctx k).cfg = (d.2.committed k).cfg ∧
    (d.1.gw.ctx k).cmlo = (d.2.committed k).cmlo ∧ (d.1.gw.ctx k).cmhi = (d.2.committed k).cmhi
  pending : ∀ k, (d.1.gw.ctx k).pend = true →
    HeaderKept d.1.gw k (d.2.committed k) ∧ d.2.fresh k = true ∧ nslots (d.1.gw.ctx k).cfg ≠ 0
  flight : inFlight d.1.gw = true → (cur d.1.gw).pend = true
  assembled : Packetizer.Assembled d.1.gw d.2.frame
  bytes : inFlight d.1.gw = true →
    Packetizer.BytesMeet (HeaderByte (d.2.committed d.1.gw.streamIdx)) d.2.frame
  swept : Packetizer.Swept (mapAddressing (d.2.committed d.1.gw.streamIdx)) d.1.gw d.2.frame
  grid : OnGrid d.1.gw

section Grid

variable {s : State}

theorem toNat_add_eight {x : Word} (h : x.toNat % 8 = 0) : (x + 8).toNat % 8 = 0 := by
  have h8 : (8 : Word).toNat = 8 := rfl
  rw [BitVec.toNat_add, h8]
  omega

theorem onGrid_step (i : Input) (h : OnGrid s) : OnGrid (step s i) := by
  have hbase := toNat_add_eight h.base
  have hrd := toNat_add_eight h.rd
  refine ⟨?_, ?_, ?_, ?_⟩
  · rw [Packetizer.step_frameBase, Packetizer.nextFrameBase]
    split
    · exact hbase
    · exact h.base
  · rw [Packetizer.step_rdAnchor, Packetizer.nextRdAnchor]
    split
    · exact hbase
    · split
      · exact hbase
      · exact h.anchor
  · rw [Packetizer.step_rd, Packetizer.nextRd]
    split
    · exact h.anchor
    · split
      · exact hrd
      · exact h.rd
  · show (if Packetizer.dueStrobe s i then s.rd else s.rdSnap).toNat % 8 = 0
    split
    · exact h.rd
    · exact h.snap

/-- The address of a channel in the ring has the channel in its low digits. -/
theorem rdf_grid (h : OnGrid s) :
    (Packetizer.rdf s).toNat % Packetizer.sringDepth % 8 = Packetizer.csCh s % 8 := by
  have hfpp : 8 * Packetizer.curFpp s < 2 ^ 32 := by
    have hle := Packetizer.fpp_le (cur s).cfg
    have hcur : Packetizer.curFpp s = fpp (cur s).cfg := rfl
    omega
  have hsnap := h.snap
  have hdepth : Packetizer.sringDepth = 2048 := rfl
  rw [hdepth]
  simp only [Packetizer.rdf, Packetizer.fBase, BitVec.toNat_add, BitVec.toNat_sub,
    BitVec.toNat_ofNat]
  generalize Packetizer.csCh s = c
  omega

end Grid

/-! ## One cycle -/

section Step

variable {d : Bus × Commit} {e : Ambient} {a : BusAccess} {k : CtxId}

/-- A context that is not committed keeps its shape and map. -/
theorem shape_of_not_commits (h : commits (busInput d.1 e a) k = false) :
    ((busTick d.1 e a).gw.ctx k).cfg = (d.1.gw.ctx k).cfg ∧
      ((busTick d.1 e a).gw.ctx k).cmlo = (d.1.gw.ctx k).cmlo ∧
      ((busTick d.1 e a).gw.ctx k).cmhi = (d.1.gw.ctx k).cmhi := by
  have hnot : ¬ commits (busInput d.1 e a) k = true := by simp [h]
  exact ⟨if_neg hnot, if_neg hnot, if_neg hnot⟩

/-- A context that is committed takes the value written. -/
theorem cfg_of_commits (h : commits (busInput d.1 e a) k = true) :
    ∃ v, a = .write (.flowCfg v) ∧ ((busTick d.1 e a).gw.ctx k).cfg = v := by
  have hcfg : ((busTick d.1 e a).gw.ctx k).cfg = (busInput d.1 e a).csr.flowCfg := if_pos h
  rw [commits, Bool.and_eq_true] at h
  rw [hcfg]
  cases a with
  | idle => exact Bool.noConfusion h.1
  | read => exact Bool.noConfusion h.1
  | write w => cases w <;> first | exact ⟨_, rfl, rfl⟩ | exact Bool.noConfusion h.1

/-- What holds of every value written to `flow_cfg` holds of every configuration. -/
theorem cfgs_tick {P : Byte → Prop} (h : ∀ k, P (d.1.gw.ctx k).cfg)
    (hwrite : ∀ v, a = .write (.flowCfg v) → P v) :
    ∀ k, P ((busTick d.1 e a).gw.ctx k).cfg := by
  intro k
  cases hcommit : commits (busInput d.1 e a) k with
  | false =>
    rw [(shape_of_not_commits hcommit).1]
    exact h k
  | true =>
    obtain ⟨v, hv, hcfg⟩ := cfg_of_commits hcommit
    rw [hcfg]
    exact hwrite v hv

theorem committed_of_not (h : commits (busInput d.1 e a) k = false) :
    (bindTick d e a).2.committed k = d.2.committed k := by
  have hnot : ¬ commits (busInput d.1 e a) k = true := by simp [h]
  exact if_neg hnot

/-- Shape and map are those of the binding, committed or not on this cycle. -/
theorem map_tick (h : Atomic d) (k : CtxId) :
    ((bindTick d e a).1.gw.ctx k).cfg = ((bindTick d e a).2.committed k).cfg ∧
      ((bindTick d e a).1.gw.ctx k).cmlo = ((bindTick d e a).2.committed k).cmlo ∧
      ((bindTick d e a).1.gw.ctx k).cmhi = ((bindTick d e a).2.committed k).cmhi := by
  cases hcommit : commits (busInput d.1 e a) k with
  | false =>
    obtain ⟨hcfg, hlo, hhi⟩ := shape_of_not_commits hcommit
    rw [committed_of_not hcommit]
    exact ⟨hcfg.trans (h.map k).1, hlo.trans (h.map k).2.1, hhi.trans (h.map k).2.2⟩
  | true =>
    have hnew : (bindTick d e a).2.committed k = latched ((busTick d.1 e a).gw.ctx k) :=
      if_pos hcommit
    rw [hnew]
    exact ⟨rfl, rfl, rfl⟩

/-- A context that stays pending, or becomes so, is as it was committed. -/
theorem pending_tick (h : Atomic d) (hguard : Undisturbed d e a)
    (hpend : ((bindTick d e a).1.gw.ctx k).pend = true) :
    commits (busInput d.1 e a) k = false ∧
      HeaderKept (bindTick d e a).1.gw k ((bindTick d e a).2.committed k) ∧
      (bindTick d e a).2.fresh k = true ∧ nslots ((bindTick d e a).1.gw.ctx k).cfg ≠ 0 := by
  obtain ⟨hcommit, hheader⟩ := hguard.2 k hpend
  have hcfg := (shape_of_not_commits hcommit).1
  have hfresh : (bindTick d e a).2.fresh k =
      (d.2.fresh k || dueEvent d.1.gw (busInput d.1 e a) k) := by
    have hnot : ¬ commits (busInput d.1 e a) k = true := by simp [hcommit]
    exact if_neg hnot
  have hbefore : dueEvent d.1.gw (busInput d.1 e a) k = true ∨ (d.1.gw.ctx k).pend = true := by
    have hnext : (if dueEvent d.1.gw (busInput d.1 e a) k then true
        else if served d.1.gw (busInput d.1 e a) k then false else (d.1.gw.ctx k).pend) = true :=
      hpend
    split at hnext
    · rename_i hdue
      exact .inl hdue
    · split at hnext
      · cases hnext
      · exact .inr hnext
  refine ⟨hcommit, ?_, ?_, ?_⟩
  · rw [committed_of_not hcommit]
    exact hheader
  · rw [hfresh]
    rcases hbefore with hdue | hpend
    · rw [hdue, Bool.or_true]
    · rw [(h.pending k hpend).2.1, Bool.true_or]
  · rw [show ((bindTick d e a).1.gw.ctx k).cfg = _ from hcfg]
    rcases hbefore with hdue | hpend
    · rw [dueEvent, Packetizer.due, Bool.and_eq_true, Bool.and_eq_true, bne_iff_ne] at hdue
      exact hdue.2.1
    · exact (h.pending k hpend).2.2

/-- Unless the last word is accepted, the frame in flight keeps its shape. -/
theorem frameSafe_of_undisturbed (h : Atomic d) (hguard : Undisturbed d e a)
    (hslots : ∀ w, a = .write w → SlotsFit w)
    (hserve : Packetizer.serveNow d.1.gw (busInput d.1 e a) = false) :
    Packetizer.FrameSafe d.1.gw (busInput d.1 e a) := by
  intro hre
  refine ⟨?_, fun hflight hsame => ?_⟩
  · have hcommit : commits (busInput d.1 e a) (ctxIndex (busInput d.1 e a).csr.ctxSelect) = true := by
      rw [commits, hre, Bool.true_and, beq_self_eq_true]
    obtain ⟨v, rfl, -⟩ := cfg_of_commits hcommit
    exact hslots _ rfl
  · have hpend : Packetizer.nextPend d.1.gw (busInput d.1 e a) d.1.gw.streamIdx = true := by
      have hcur : (d.1.gw.ctx d.1.gw.streamIdx).pend = true := h.flight hflight
      simp [Packetizer.nextPend, hserve, hcur]
    have hcommit := (hguard.2 _ hpend).1
    rw [commits, hre, hsame] at hcommit
    simp at hcommit

/-- A header byte is built from registers that hold the binding. -/
theorem headerByte_build (h : Atomic d) (hfsm : d.1.gw.fsm = .build) :
    HeaderByte (d.2.committed d.1.gw.streamIdx) d.1.gw.byteIdx
      (Packetizer.curByte d.1.gw (busInput d.1 e a)) := by
  have hflight : inFlight d.1.gw = true := by simp [inFlight, hfsm]
  obtain ⟨⟨hmac, haddr⟩, -, -⟩ := h.pending _ (h.flight hflight)
  have hpast : ∀ n, Past d.1.gw d.1.gw.streamIdx n → n ≤ d.1.gw.byteIdx := by
    rintro n ⟨-, ⟨-, hn⟩ | hne | hne⟩
    · exact hn
    · rw [hfsm] at hne
      cases hne
    · rw [hfsm] at hne
      cases hne
  intro v hv
  refine headerByte_curByte (busInput d.1 e a) v ?_
  rw [← hv]
  refine bindingBytes_congr (h.map _).1 (fun hj => ?_) fun hj => ?_
  · exact hmac.resolve_right fun hp => absurd (hpast 6 hp) (by omega)
  · exact haddr.resolve_right fun hp => absurd (hpast 38 hp) (by omega)

/-- A position is addressed through the map of the binding. -/
theorem mapAddressing_now (h : Atomic d)
    (hslot : d.1.gw.csSlot = Packetizer.sweepPos d.1.gw % nslots (cfgNow d.1.gw))
    (hbound : nslots (cfgNow d.1.gw) ≠ 0) :
    (mapAddressing (d.2.committed d.1.gw.streamIdx)).now d.1.gw := by
  obtain ⟨hcfg, hlo, hhi⟩ := h.map d.1.gw.streamIdx
  have hle : nslots (cfgNow d.1.gw) ≤ 8 := h.admissible d.1.gw.streamIdx
  have hlt := Nat.mod_lt (Packetizer.sweepPos d.1.gw) (Nat.pos_of_ne_zero hbound)
  have hentry : mapEntry (d.2.committed d.1.gw.streamIdx)
      (Packetizer.sweepPos d.1.gw % nslots (d.2.committed d.1.gw.streamIdx).cfg) =
      Packetizer.csEnt d.1.gw := by
    rw [mapEntry, ← hcfg, ← hlo, ← hhi, Packetizer.csEnt]
    have hmin : min d.1.gw.csSlot 7 = Packetizer.sweepPos d.1.gw % nslots (cfgNow d.1.gw) := by
      rw [hslot]
      omega
    rw [hmin]
    rfl
  refine ⟨?_, ?_, ?_⟩ <;> rw [hentry]
  · rfl
  · exact rdf_grid h.grid
  · rfl

/-- What is in flight after a cycle was in flight before, or is just about to begin. -/
theorem flight_tick (h : Atomic d) (hguard : Undisturbed d e a)
    (hflight : inFlight (bindTick d e a).1.gw = true) :
    (bindTick d e a).1.gw.streamIdx = d.1.gw.streamIdx ∧
      (bindTick d e a).2.committed (bindTick d e a).1.gw.streamIdx =
        d.2.committed d.1.gw.streamIdx := by
  obtain ⟨-, hidx, -⟩ := Packetizer.inFlight_step (s := d.1.gw) (i := busInput d.1 e a) hflight
  have hidx' : (bindTick d e a).1.gw.streamIdx = d.1.gw.streamIdx := hidx
  have hpend := Packetizer.flight_step h.flight hflight
  have hpend' : ((bindTick d e a).1.gw.ctx (bindTick d e a).1.gw.streamIdx).pend = true := hpend
  rw [hidx'] at hpend' ⊢
  exact ⟨rfl, committed_of_not (pending_tick h hguard hpend').1⟩

theorem bytes_tick (h : Atomic d) (hguard : Undisturbed d e a)
    (hflight : inFlight (bindTick d e a).1.gw = true) :
    Packetizer.BytesMeet
      (HeaderByte ((bindTick d e a).2.committed (bindTick d e a).1.gw.streamIdx))
      (bindTick d e a).2.frame := by
  rw [(flight_tick h hguard hflight).2]
  obtain ⟨-, -, hbefore⟩ := Packetizer.inFlight_step (s := d.1.gw) (i := busInput d.1 e a) hflight
  refine Packetizer.bytesMeet_next ?_ fun hfsm => ?_
  · rcases hbefore with hbefore | ⟨hcheck, -⟩
    · exact h.bytes hbefore
    · -- a frame about to begin has no bytes yet
      have hstart := h.assembled
      rw [Packetizer.Assembled, hcheck] at hstart
      exact Packetizer.bytesMeet_nil hstart.2
  · rw [Packetizer.length_of_building h.assembled hfsm]
    exact headerByte_build h hfsm

theorem swept_tick (h : Atomic d) (hguard : Undisturbed d e a)
    (hslots : ∀ w, a = .write w → SlotsFit w) :
    Packetizer.Swept
      (mapAddressing ((bindTick d e a).2.committed (bindTick d e a).1.gw.streamIdx))
      (bindTick d e a).1.gw (bindTick d e a).2.frame := by
  have hbound : inFlight d.1.gw = true → nslots (cfgNow d.1.gw) ≠ 0 :=
    fun hflight => (h.pending _ (h.flight hflight)).2.2
  have hsame : Packetizer.Swept (mapAddressing (d.2.committed d.1.gw.streamIdx))
      (bindTick d e a).1.gw (bindTick d e a).2.frame := by
    cases hserve : Packetizer.serveNow d.1.gw (busInput d.1 e a) with
    | true => exact Packetizer.swept_served hserve
    | false =>
      refine Packetizer.swept_step h.swept h.assembled h.admissible
        (frameSafe_of_undisturbed h hguard hslots hserve) hbound fun hfsm _ hslot _ _ => ?_
      exact mapAddressing_now h hslot (hbound (by simp [inFlight, hfsm]))
  cases hflight : inFlight (bindTick d e a).1.gw with
  | false => exact hsame.of_not_inFlight hflight
  | true =>
    rw [(flight_tick h hguard hflight).2]
    exact hsame

/-- One undisturbed cycle. -/
theorem atomic_tick (h : Atomic d) (hguard : Undisturbed d e a)
    (hslots : ∀ w, a = .write w → SlotsFit w) : Atomic (bindTick d e a) where
  admissible := cfgs_tick (P := fun c => nslots c ≤ 8) h.admissible fun v hv => hslots _ hv
  whole := cfgs_tick (P := fun c => packetSamples c % 4 = 0) h.whole fun v hv => by
    have hwhole := hguard.1
    rw [hv] at hwhole
    exact beq_iff_eq.1 hwhole
  map := map_tick h
  pending := fun _ hpend => (pending_tick h hguard hpend).2
  flight := Packetizer.flight_step h.flight
  assembled := by
    cases hserve : Packetizer.serveNow d.1.gw (busInput d.1 e a) with
    | true => exact Packetizer.assembled_served hserve
    | false =>
      exact Packetizer.assembled_step h.assembled h.admissible
        (frameSafe_of_undisturbed h hguard hslots hserve)
  bytes := bytes_tick h hguard
  swept := swept_tick h hguard hslots
  grid := onGrid_step _ h.grid

/-- The frame whose last word is accepted on this cycle, if there is one, is made of its context's
binding, for a due event since that binding was committed. -/
def Emits (d : Bus × Commit) (e : Ambient) (a : BusAccess) : Prop :=
  ∀ k, served d.1.gw (busInput d.1 e a) k = true →
    Conforms (d.2.committed k) (Frame.packet d.1.gw d.2.frame) d.2.frame ∧ d.2.fresh k = true

theorem emits_of_atomic (h : Atomic d) : Emits d e a := by
  intro k hserved
  obtain ⟨hserve, rfl⟩ := Packetizer.served_iff.1 hserved
  obtain ⟨hflight, -⟩ := Packetizer.served_inFlight hserved
  have hfsm : d.1.gw.fsm = .stream := Packetizer.stream_of_serveNow hserve
  have hle : nslots (cfgNow d.1.gw) ≤ 8 := h.admissible d.1.gw.streamIdx
  have hcfg : cfgNow d.1.gw = (d.2.committed d.1.gw.streamIdx).cfg :=
    (h.map d.1.gw.streamIdx).1
  have hwords : (Frame.packet d.1.gw d.2.frame).length = fLastIdx (cfgNow d.1.gw) + 1 := by
    rw [(Packetizer.packet_eq hfsm h.assembled hserve).2, List.length_map, List.length_range]
  have hlast : fLastIdx (cfgNow d.1.gw) = 12 + 3 * packetSamples (cfgNow d.1.gw) / 4 :=
    Packetizer.fLastIdx_eq hle
  have hwhole : packetSamples (cfgNow d.1.gw) % 4 = 0 := h.whole d.1.gw.streamIdx
  have hsweep : Packetizer.Sweep (mapAddressing (d.2.committed d.1.gw.streamIdx)) d.1.gw
      d.2.frame := by
    have hswept := h.swept
    rw [Packetizer.Swept, hfsm] at hswept
    exact hswept
  refine ⟨⟨?_, fun j => ?_, hsweep.fetched, fun j hj => ?_⟩, (h.pending _ (h.flight hflight)).2.1⟩
  · rw [octets, hwords, ← hcfg, hlast]
    omega
  · intro v hv
    have hlt : j < 40 := by
      by_contra hge
      rw [List.getD_eq_default _ _ (Nat.le_of_not_lt hge)] at hv
      cases hv
    exact Packetizer.wireByte_meets hserve h.assembled (h.bytes hflight) h.admissible
      (by omega) v hv
  · rw [hwords, Nat.add_sub_cancel] at hj
    exact Packetizer.wireByte_payload hserve h.swept h.assembled h.admissible hj

end Step

/-! ## The firmware's operations -/

/-- Binding a context, over whatever it held, and turning it off. -/
inductive RebindOp
  | bind (f : CtxId) (s : FlowSlot)
  | unbind (f : CtxId)

namespace RebindOp

def code (netIp : Ip) (adj : Nat) (_ : CtxId → FlowSlot) : RebindOp → CsrThread
  | bind f s => writeCtxThread netIp adj f s.dst s.mac s.dport s.chans s.nslots s.fpp
  | unbind f => unbindThread f

/-- The table after an operation. -/
def table (flows : CtxId → FlowSlot) : RebindOp → CtxId → FlowSlot
  | bind f s => Function.update flows f { s with inUse := true }
  | unbind f => Function.update flows f { flows f with inUse := false }

end RebindOp

/-- A context holds the binding of its slot; that of a free slot is off. -/
def Holds (netIp : Ip) (s : FlowSlot) (B : Latched) : Prop :=
  if s.inUse then B = s.binding netIp else nslots B.cfg = 0

section Slots

variable {adj : Nat}

theorem only_seedThread {n : Nat} {cfg : Byte} (hcfg : nslots cfg ≤ 8) :
    ∀ tries, Thread.Only SlotsFit (seedThread n adj cfg tries)
  | 0 => trivial
  | tries + 1 => fun s0 => by
      refine ⟨trivial, hcfg, fun s1 => ?_⟩
      dsimp only
      split
      · trivial
      · exact only_seedThread hcfg tries

theorem only_code (netIp : Ip) (flows : CtxId → FlowSlot) (op : RebindOp) :
    Thread.Only SlotsFit (op.code netIp adj flows) := by
  cases op with
  | bind f s =>
    have hfit : nslots (flowCfg s.nslots s.fpp) ≤ 8 := by
      rw [nslots_flowCfg]
      exact s.nslots.2.2
    refine Thread.only_writes (only_seedThread hfit 8) fun w hw => ?_
    simp only [ctxWrites, List.mem_cons, List.not_mem_nil, or_false] at hw
    rcases hw with rfl | rfl | rfl | rfl | rfl | rfl | rfl | rfl | rfl <;> trivial
  | unbind f =>
    have hoff : nslots (0 : Byte) ≤ 8 := by decide
    exact ⟨trivial, hoff, trivial⟩

end Slots

/-! ## What an operation commits -/

section Commits

variable {Inv Q : Bus × Commit → Prop} {g : Gateware} {c : CtxId → Latched} {d : Bus × Commit}
  {f : CtxId} {T : Latched}

/-- Any cycle may happen. -/
def anyBind (_ : Bus × Commit) (_ : Ambient) (_ : BusAccess) : Prop := True

abbrev BindOutline (Inv Q : Bus × Commit → Prop) (t : CsrThread) (P : Bus × Commit → Prop) :
    Prop := Outline bindTick bindSense anyBind Inv Q t P

/-- Registers and storages are those of the bus view, and nothing but `c` was committed. -/
structure Mirrors (g : Gateware) (c : CtxId → Latched) (d : Bus × Commit) : Prop where
  csr : d.1.csr = g.csr
  ctx : ∀ k, latched (d.1.gw.ctx k) = g.ctx k
  committed : d.2.committed = c

/-- A write that commits nothing. -/
def quietWrite : CsrWrite → Bool
  | .flowCfg _ => false
  | _ => true

theorem latched_idle (b : Bus) (e : Ambient) (k : CtxId) :
    latched ((busTick b e .idle).gw.ctx k) = latched (b.gw.ctx k) := rfl

theorem mirrors_wait (e : Ambient) (h : Mirrors g c d) : Mirrors g c (bindTick d e .idle) :=
  ⟨h.csr, fun k => (latched_idle d.1 e k).trans (h.ctx k), h.committed⟩

theorem committed_quiet (e : Ambient) {w : CsrWrite} (hw : quietWrite w = true) :
    (bindTick d e (.write w)).2.committed = d.2.committed := by
  funext k
  refine committed_of_not ?_
  cases w <;> first | rfl | cases hw

theorem mirrors_write (e : Ambient) {w : CsrWrite} (hw : quietWrite w = true)
    (h : Mirrors g c d) : Mirrors (w.now g) c (bindTick d e (.write w)) := by
  obtain ⟨hctx, hcsr⟩ := latched_busTick h.ctx h.csr e w
  exact ⟨hcsr, hctx, (committed_quiet e hw).trans h.committed⟩

/-- Writes that commit nothing follow the bus view. -/
theorem writes_outline (hinv : ∀ d : Bus × Commit, d.2.committed = c → Inv d) {t : CsrThread} :
    ∀ {ws : List CsrWrite} {g : Gateware}, (∀ w ∈ ws, quietWrite w = true) →
      BindOutline Inv Q t (Mirrors (ws.foldl (fun g w => w.now g) g) c) →
      BindOutline Inv Q (Thread.writes ws t) (Mirrors g c)
  | [], _, _, h => h
  | w :: _, g, hws, h =>
      ⟨⟨fun d hd => hinv d hd.committed, fun _ e _ hd => mirrors_wait e hd⟩, Mirrors (w.now g) c,
        fun _ e _ hd => mirrors_write e (hws w (List.mem_cons_self ..)) hd,
        writes_outline hinv (fun w' hw' => hws w' (List.mem_cons_of_mem _ hw')) h⟩

/-- Writing `flow_cfg` to context `f` will commit `T`. -/
structure Loaded (f : CtxId) (cfg : Byte) (T : Latched) (b : Bus) : Prop where
  select : ctxIndex b.csr.ctxSelect = f
  value : { latched (b.gw.ctx f) with
    cmlo := b.csr.chmapLo, cmhi := b.csr.chmapHi, cfg := cfg } = T

theorem loaded_wait (e : Ambient) {cfg : Byte} (h : Loaded f cfg T d.1) :
    Loaded f cfg T (bindTick d e .idle).1 := by
  refine ⟨h.select, ?_⟩
  show { latched ((busTick d.1 e .idle).gw.ctx f) with
    cmlo := d.1.csr.chmapLo, cmhi := d.1.csr.chmapHi, cfg := cfg } = T
  rw [latched_idle]
  exact h.value

/-- Writing `flow_cfg` commits what was loaded, and a second time the same. -/
theorem loaded_commit (e : Ambient) (cfg : Byte) (h : Loaded f cfg T d.1) :
    Loaded f cfg T (bindTick d e (.write (.flowCfg cfg))).1 ∧
      (bindTick d e (.write (.flowCfg cfg))).2.committed = Function.update d.2.committed f T := by
  have hlatch := latched_busTick (g := ⟨d.1.csr, fun k => latched (d.1.gw.ctx k)⟩)
    (fun _ => rfl) rfl e (.flowCfg cfg)
  have hself : latched ((busTick d.1 e (.write (.flowCfg cfg))).gw.ctx f) = T := by
    rw [hlatch.1 f]
    show (Gateware.writeFlowCfg _ cfg).ctx f = T
    rw [Gateware.writeFlowCfg_self h.select]
    exact h.value
  refine ⟨⟨h.select, ?_⟩, ?_⟩
  · show { latched ((busTick d.1 e (.write (.flowCfg cfg))).gw.ctx f) with
      cmlo := d.1.csr.chmapLo, cmhi := d.1.csr.chmapHi, cfg := cfg } = T
    rw [hself, ← h.value]
  · funext k
    have hcommits : commits (busInput d.1 e (.write (.flowCfg cfg))) k = (f == k) := by
      rw [← h.select]
      rfl
    show (if commits (busInput d.1 e (.write (.flowCfg cfg))) k then
      latched ((busTick d.1 e (.write (.flowCfg cfg))).gw.ctx k) else d.2.committed k) = _
    rw [hcommits]
    by_cases hk : f = k
    · rw [← hk, if_pos (beq_self_eq_true f), Function.update_self]
      exact hself
    · rw [if_neg (by simpa using hk), Function.update_of_ne (Ne.symm hk)]

/-- The seqlock loop, however often it latches, commits one binding. -/
theorem seed_outline (n adj : Nat) (cfg : Byte)
    (hbefore : ∀ d : Bus × Commit, d.2.committed = c → Inv d)
    (hafter : ∀ d : Bus × Commit, d.2.committed = Function.update c f T → Inv d)
    (hdone : ∀ d : Bus × Commit, d.2.committed = Function.update c f T → Q d) (tries : Nat) :
    BindOutline Inv Q (seedThread n adj cfg (tries + 1))
      (fun d => Loaded f cfg T d.1 ∧
        (d.2.committed = c ∨ d.2.committed = Function.update c f T)) := by
  let Ready := fun d : Bus × Commit => Loaded f cfg T d.1 ∧
    (d.2.committed = c ∨ d.2.committed = Function.update c f T)
  let Latched := fun d : Bus × Commit => Loaded f cfg T d.1 ∧
    d.2.committed = Function.update c f T
  have hready : Stable bindTick anyBind Inv Ready :=
    ⟨fun d hd => hd.2.elim (hbefore d) (hafter d), fun d e _ hd => ⟨loaded_wait e hd.1, hd.2⟩⟩
  have hlatched : Stable bindTick anyBind Inv Latched :=
    ⟨fun d hd => hafter d hd.2, fun d e _ hd => ⟨loaded_wait e hd.1, hd.2⟩⟩
  -- a round from either point ends with the binding committed
  have hround : ∀ {rest : CsrThread} (v : Byte) (s0 : Nat),
      BindOutline Inv Q rest Latched →
      BindOutline Inv Q (.write (.flowPhase v) (.write (.flowCfg cfg)
        (.read fun s1 => if s1 = s0 then .done else rest))) Ready := by
    intro rest v s0 hrest
    refine ⟨hready, Ready, fun d e _ hd => ⟨⟨hd.1.select, hd.1.value⟩, ?_⟩, hready, Latched,
      fun d e _ hd => ?_, hlatched, fun _ => Latched, fun d e _ hd => ⟨⟨hd.1.select, hd.1.value⟩,
        hd.2⟩, fun s1 => ?_⟩
    · rw [committed_quiet e rfl]
      exact hd.2
    · obtain ⟨hloaded, hcommit⟩ := loaded_commit e cfg hd.1
      refine ⟨hloaded, hcommit.trans ?_⟩
      rcases hd.2 with hc | hc
      · rw [hc]
      · rw [hc, Function.update_idem]
    · dsimp only
      split
      · exact ⟨hlatched, fun d hd => hdone d hd.2⟩
      · exact hrest
  induction tries with
  | zero =>
    exact ⟨hready, fun _ => Ready, fun d e _ hd => ⟨⟨hd.1.select, hd.1.value⟩, hd.2⟩,
      fun s0 => hround _ s0 ⟨hlatched, fun d hd => hdone d hd.2⟩⟩
  | succ tries ih =>
    exact ⟨hready, fun _ => Ready, fun d e _ hd => ⟨⟨hd.1.select, hd.1.value⟩, hd.2⟩,
      fun s0 => hround _ s0 (ih.pre hlatched fun d hd => ⟨hd.1, .inr hd.2⟩)⟩

/-- `write_ctx` commits the binding of its arguments, and nothing else. -/
theorem bind_outline (netIp dst : Ip) (adj : Nat) (dmac : Mac) (dport : BitVec 16)
    (chans : Fin 8 → BitVec 16) (n size : Nat)
    (hbefore : ∀ d : Bus × Commit, d.2.committed = c → Inv d)
    (hafter : ∀ d : Bus × Commit, d.2.committed =
      Function.update c f (binding netIp dst dmac dport chans n size) → Inv d)
    (hdone : ∀ d : Bus × Commit, d.2.committed =
      Function.update c f (binding netIp dst dmac dport chans n size) → Q d) :
    BindOutline Inv Q (writeCtxThread netIp adj f dst dmac dport chans n size) (Mirrors g c) := by
  have hseed := seed_outline size adj (flowCfg n size) hbefore hafter hdone 7
  let t : Tx := { Tx.boot netIp ⟨0, 0, 0, 0, 0, 0⟩ with gw := g }
  have hheader : (ctxWrites netIp f dst dmac dport chans n size).foldl (fun g w => w.now g) g =
      ctxHeader t f dst dmac dport chans n size := rfl
  refine writes_outline hbefore (fun w hw => ?_) (hseed.pre ?_ fun d hd => ⟨⟨?_, ?_⟩, .inl hd.committed⟩)
  · simp only [ctxWrites, List.mem_cons, List.not_mem_nil, or_false] at hw
    rcases hw with rfl | rfl | rfl | rfl | rfl | rfl | rfl | rfl | rfl <;> rfl
  · exact ⟨fun d hd => hbefore d hd.committed, fun _ e _ hd => mirrors_wait e hd⟩
  · obtain ⟨hselect, -, -⟩ := ctxHeader_csr t f dst dmac dport chans n size
    rw [hd.csr, hheader]
    exact hselect
  · obtain ⟨-, hlo, hhi⟩ := ctxHeader_csr t f dst dmac dport chans n size
    have hctx : (ctxHeader t f dst dmac dport chans n size).ctx f = _ :=
      writeHeader_self (ctxMap_select t f chans n) dst dmac
        (ipHeaderChecksum t.netIp dst (ipTotal n size) danteTxIpTos danteTxIpTtl) dport
    rw [hd.csr, hd.ctx, hheader, hlo, hhi, hctx]
    rfl

/-- `dante_tx_unbind` turns the context off. -/
theorem off_outline (hbefore : ∀ d : Bus × Commit, d.2.committed = c → Inv d)
    (hafter : ∀ (d : Bus × Commit) (T : Latched), nslots T.cfg = 0 →
      d.2.committed = Function.update c f T → Inv d)
    (hdone : ∀ (d : Bus × Commit) (T : Latched), nslots T.cfg = 0 →
      d.2.committed = Function.update c f T → Q d) :
    BindOutline Inv Q (unbindThread f) (Mirrors g c) := by
  let Off := fun d : Bus × Commit => ∃ T, nslots T.cfg = 0 ∧
    d.2.committed = Function.update c f T
  have hmirrors : ∀ g, Stable bindTick anyBind Inv (Mirrors g c) := fun g =>
    ⟨fun d hd => hbefore d hd.committed, fun _ e _ hd => mirrors_wait e hd⟩
  refine ⟨hmirrors g, Mirrors ((CsrWrite.ctxSelect f).now g) c,
    fun d e _ hd => mirrors_write e rfl hd, hmirrors _, Off, fun d e _ hd => ?_,
    ⟨fun d ⟨T, hT, hd⟩ => hafter d T hT hd, fun _ _ _ hd => hd⟩, fun d ⟨T, hT, hd⟩ => hdone d T hT hd⟩
  have hselect : ctxIndex d.1.csr.ctxSelect = f := by
    rw [hd.csr]
    exact Gateware.writeCtxSelect_index g f
  obtain ⟨-, hcommit⟩ := loaded_commit e 0 ⟨hselect, rfl⟩
  refine ⟨_, ?_, hcommit.trans (by rw [hd.committed])⟩
  rfl

end Commits

/-! ## Runs -/

/-- The flow table, and the bus with the observer. -/
abbrev Bench := (CtxId → FlowSlot) × (Bus × Commit)

def Bench.boot : Bench :=
  (fun _ => FlowSlot.free, Bus.reset,
    { committed := fun _ => Latched.reset, fresh := fun _ => false, frame := Frame.empty })

/-- A cycle of an operation that meets the guard. -/
def CycleUndisturbed (x : CsrThread × (Bus × Commit)) (c : Ambient × Bool) : Prop :=
  Undisturbed x.2 c.1 (x.1.access c.2)

instance (x : CsrThread × (Bus × Commit)) (c : Ambient × Bool) :
    Decidable (CycleUndisturbed x c) :=
  inferInstanceAs (Decidable (Undisturbed _ _ _))

def CycleEmits (x : CsrThread × (Bus × Commit)) (c : Ambient × Bool) : Prop :=
  Emits x.2 c.1 (x.1.access c.2)

section Runs

variable (netIp : Ip) (adj : Nat)

/-- An operation on a schedule. -/
abbrev rebind : Bench → RebindOp × List (Ambient × Bool) → Bench :=
  perform (RebindOp.code netIp adj) RebindOp.table bindTick bindSense

/-- The cycles of an operation, from a state of the system. -/
def cyclesOf (G : CsrThread × (Bus × Commit) → Ambient × Bool → Prop) (x : Bench)
    (p : RebindOp × List (Ambient × Bool)) : Prop :=
  Along (cycle bindTick bindSense) G (p.1.code netIp adj x.1, x.2) p.2

instance (G : CsrThread × (Bus × Commit) → Ambient × Bool → Prop) [∀ y c, Decidable (G y c)]
    (x : Bench) (p : RebindOp × List (Ambient × Bool)) : Decidable (cyclesOf netIp adj G x p) :=
  inferInstanceAs (Decidable (Along _ _ _ _))

/-- An operation that returns, none of its cycles disturbing a packet. -/
def Peaceful (x : Bench) (p : RebindOp × List (Ambient × Bool)) : Prop :=
  Completes (RebindOp.code netIp adj) bindTick bindSense x p ∧
    cyclesOf netIp adj CycleUndisturbed x p

instance (x : Bench) (p : RebindOp × List (Ambient × Bool)) : Decidable (Peaceful netIp adj x p) :=
  inferInstanceAs (Decidable (_ ∧ _))

/-- Every context was last committed with the binding of its slot, as a whole. -/
def Committed (flows : CtxId → FlowSlot) (d : Bus × Commit) : Prop :=
  ∀ k, Holds netIp (flows k) (d.2.committed k)

variable {netIp adj} {x : Bench} {op : RebindOp} {cs : List (Ambient × Bool)}

/-- Undisturbed cycles keep the invariant, and what they emit conforms. -/
theorem atomic_run {t : CsrThread} {d : Bus × Commit} (h : Atomic d)
    (ht : Thread.Only SlotsFit t) (hguard : Along (cycle bindTick bindSense) CycleUndisturbed (t, d) cs) :
    Atomic (run (cycle bindTick bindSense) (t, d) cs).2 ∧
      Along (cycle bindTick bindSense) CycleEmits (t, d) cs := by
  have hstep : ∀ (y : CsrThread × (Bus × Commit)) (c : Ambient × Bool), CycleUndisturbed y c →
      Atomic y.2 ∧ Thread.Only SlotsFit y.1 →
        Atomic (cycle bindTick bindSense y c).2 ∧
          Thread.Only SlotsFit (cycle bindTick bindSense y c).1 :=
    fun y c hc hy => ⟨atomic_tick hy.1 hc fun _ hw => hy.2.access hw, hy.2.after _ _⟩
  refine ⟨(hguard.invariant hstep ⟨h, ht⟩).1, ?_⟩
  exact (hguard.strengthen hstep ⟨h, ht⟩).mono fun y c hy => emits_of_atomic hy.2.1

/-- A slot that an operation leaves alone. -/
theorem Holds.of_other {flows flows' : CtxId → FlowSlot} {c : CtxId → Latched} {f : CtxId}
    {T : Latched} (hc : ∀ k, Holds netIp (flows k) (c k)) (hT : Holds netIp (flows' f) T)
    (hother : ∀ k, k ≠ f → flows' k = flows k) (k : CtxId) :
    Holds netIp (flows' k) (Function.update c f T k) := by
  by_cases hk : k = f
  · rw [hk, Function.update_self]
    exact hT
  · rw [Function.update_of_ne hk, hother k hk]
    exact hc k

/-- However far an operation is, each context was committed as the table had it before or has it
after; once it has returned, as the table has it. -/
theorem committed_run (h : Committed netIp x.1 x.2) :
    (∀ k, Holds netIp (x.1 k)
        ((run (cycle bindTick bindSense) (op.code netIp adj x.1, x.2) cs).2.2.committed k) ∨
      Holds netIp (op.table x.1 k)
        ((run (cycle bindTick bindSense) (op.code netIp adj x.1, x.2) cs).2.2.committed k)) ∧
      (Completes (RebindOp.code netIp adj) bindTick bindSense x (op, cs) →
        Committed netIp (op.table x.1) (rebind netIp adj x (op, cs)).2) := by
  let Inv := fun d : Bus × Commit => ∀ k, Holds netIp (x.1 k) (d.2.committed k) ∨
    Holds netIp (op.table x.1 k) (d.2.committed k)
  have hbefore : ∀ d : Bus × Commit, d.2.committed = x.2.2.committed → Inv d := fun d hd k => by
    rw [hd]
    exact .inl (h k)
  have houtline : BindOutline Inv (Committed netIp (op.table x.1)) (op.code netIp adj x.1)
      (Mirrors ⟨x.2.1.csr, fun k => latched (x.2.1.gw.ctx k)⟩ x.2.2.committed) := by
    cases op with
    | bind f s =>
      have hslot : Holds netIp (Function.update x.1 f { s with inUse := true } f)
          (s.binding netIp) := by
        rw [Function.update_self, Holds, if_pos rfl]
        rfl
      have hpost : ∀ d : Bus × Commit,
          d.2.committed = Function.update x.2.2.committed f (s.binding netIp) →
            Committed netIp (RebindOp.table x.1 (.bind f s)) d := fun d hd k => by
        rw [hd]
        exact Holds.of_other h hslot (fun j hj => Function.update_of_ne hj _ _) k
      exact bind_outline netIp s.dst adj s.mac s.dport s.chans s.nslots s.fpp hbefore
        (fun d hd k => .inr (hpost d hd k)) hpost
    | unbind f =>
      have hpost : ∀ (d : Bus × Commit) (T : Latched), nslots T.cfg = 0 →
          d.2.committed = Function.update x.2.2.committed f T →
            Committed netIp (RebindOp.table x.1 (.unbind f)) d := fun d T hT hd k => by
        have hslot : Holds netIp (Function.update x.1 f { x.1 f with inUse := false } f) T := by
          rw [Function.update_self, Holds, if_neg Bool.false_ne_true]
          exact hT
        rw [hd]
        exact Holds.of_other h hslot (fun j hj => Function.update_of_ne hj _ _) k
      exact off_outline hbefore (fun d T hT hd k => .inr (hpost d T hT hd k)) hpost
  have hstart : Mirrors ⟨x.2.1.csr, fun k => latched (x.2.1.gw.ctx k)⟩ x.2.2.committed x.2 :=
    ⟨rfl, fun _ => rfl, rfl⟩
  have hrely : Along (cycle bindTick bindSense)
      (fun y (c : Ambient × Bool) => anyBind y.2 c.1 (y.1.access c.2))
      (op.code netIp adj x.1, x.2) cs :=
    Along.of_forall (fun _ _ => trivial) cs _
  exact ⟨outline_inv houtline hstart cs hrely, outline_run houtline hstart cs hrely⟩

end Runs

theorem atomic_boot : Atomic Bench.boot.2 where
  admissible := fun _ => (by decide : nslots (0 : Byte) ≤ 8)
  whole := fun _ => (by decide : packetSamples 0 % 4 = 0)
  map := fun _ => ⟨rfl, rfl, rfl⟩
  pending := fun _ h => Bool.noConfusion h
  flight := fun h => Bool.noConfusion h
  assembled := trivial
  bytes := fun h => Bool.noConfusion h
  swept := trivial
  grid := ⟨rfl, rfl, rfl, rfl⟩

theorem committed_boot (netIp : Ip) : Committed netIp Bench.boot.1 Bench.boot.2 := fun _ => rfl

/-- After every history of operations, and at every point of one more, if no cycle disturbs a
packet: each context was committed as a whole by an operation, and every frame is made of what its
context was committed with, for a due event raised since. -/
theorem rebind_atomic (netIp : Ip) (adj : Nat) (history : List (RebindOp × List (Ambient × Bool)))
    (op : RebindOp) (cs : List (Ambient × Bool))
    (hhistory : Along (rebind netIp adj) (Peaceful netIp adj) Bench.boot history)
    (hop : cyclesOf netIp adj CycleUndisturbed (run (rebind netIp adj) Bench.boot history)
      (op, cs)) :
    let x := run (rebind netIp adj) Bench.boot history
    let y := run (cycle bindTick bindSense) (op.code netIp adj x.1, x.2) cs
    (∀ k, Holds netIp (x.1 k) (y.2.2.committed k) ∨
      Holds netIp (op.table x.1 k) (y.2.2.committed k)) ∧
    cyclesOf netIp adj CycleEmits x (op, cs) := by
  have hx : Atomic (run (rebind netIp adj) Bench.boot history).2 ∧
      Committed netIp (run (rebind netIp adj) Bench.boot history).1
        (run (rebind netIp adj) Bench.boot history).2 :=
    hhistory.invariant (P := fun x => Atomic x.2 ∧ Committed netIp x.1 x.2)
      (fun x p hp hx => ⟨(atomic_run hx.1 (only_code netIp x.1 p.1) hp.2).1,
        (committed_run hx.2).2 hp.1⟩) ⟨atomic_boot, committed_boot netIp⟩
  exact ⟨(committed_run hx.2).1, (atomic_run hx.1 (only_code netIp _ op) hop).2⟩

/-- A flow of two slots and two samples a packet, to the host of one address. -/
def pairTo (host : UInt8) : FlowSlot :=
  { FlowSlot.free with
    dst := ⟨10, 0, 0, host⟩, dmac := ⟨2, 0, 0, 0, 0, host⟩, dport := 14336
    nslots := ⟨2, two_slots⟩, fpp := ⟨2, by decide⟩ }

/-- Enough cycles to bind a context, and two strobes that make it due. -/
def boundAndDue : List (Ambient × Bool) :=
  List.replicate 13 (Ambient.quiet, true) ++ [(Ambient.tick, true), (Ambient.tick, true)]

/-- A context is bound, becomes due and sends its packet, and nothing is rewritten meanwhile. -/
theorem rebind_atomic_packet :
    let op := RebindOp.bind 0 (pairTo 2)
    let cs := boundAndDue ++ List.replicate 90 (Ambient.quiet, true)
    let y := run (cycle bindTick bindSense)
      (op.code ⟨10, 0, 0, 1⟩ 2 Bench.boot.1, Bench.boot.2) cs
    (∀ k, Holds ⟨10, 0, 0, 1⟩ (Bench.boot.1 k) (y.2.2.committed k) ∨
        Holds ⟨10, 0, 0, 1⟩ (op.table Bench.boot.1 k) (y.2.2.committed k)) ∧
      cyclesOf ⟨10, 0, 0, 1⟩ 2 CycleEmits Bench.boot (op, cs) ∧ y.2.1.gw.pktCount = 1 := by
  have hguard : cyclesOf ⟨10, 0, 0, 1⟩ 2 CycleUndisturbed Bench.boot
      (.bind 0 (pairTo 2), boundAndDue ++ List.replicate 90 (Ambient.quiet, true)) := by
    decide +kernel
  obtain ⟨hholds, hemits⟩ := rebind_atomic ⟨10, 0, 0, 1⟩ 2 [] (.bind 0 (pairTo 2))
    (boundAndDue ++ List.replicate 90 (Ambient.quiet, true)) trivial hguard
  exact ⟨hholds, hemits, by decide +kernel⟩

/-- Rebinding a context whose frame has its first bytes: the frame goes to the old MAC and the
new address. -/
theorem rebind_mixes :
    let x := rebind ⟨10, 0, 0, 1⟩ 2 Bench.boot
      (.bind 0 (pairTo 2), boundAndDue ++ List.replicate 10 (Ambient.quiet, true))
    let y := run (cycle bindTick bindSense)
      (RebindOp.code ⟨10, 0, 0, 1⟩ 2 x.1 (.bind 0 (pairTo 3)), x.2)
      (List.replicate 9 (Ambient.quiet, true) ++ List.replicate 62 (Ambient.quiet, false))
    let words := Frame.packet y.2.1.gw y.2.2.frame
    served y.2.1.gw (busInput y.2.1 Ambient.quiet .idle) 0 = true ∧
      ¬ Conforms ((pairTo 2).binding ⟨10, 0, 0, 1⟩) words y.2.2.frame ∧
      ¬ Conforms ((pairTo 3).binding ⟨10, 0, 0, 1⟩) words y.2.2.frame := by
  intro x y words
  have hrun : served y.2.1.gw (busInput y.2.1 Ambient.quiet .idle) 0 = true ∧
      Frame.wireByte words 33 = 3 ∧ Frame.wireByte words 5 = 2 := by decide +kernel
  obtain ⟨hserved, haddr, hmac⟩ := hrun
  refine ⟨hserved, fun hconforms => ?_, fun hconforms => ?_⟩
  · have hold := hconforms.header 33 2 (by decide +kernel)
    rw [haddr] at hold
    exact absurd hold (by decide)
  · have hnew := hconforms.header 5 3 (by decide +kernel)
    rw [hmac] at hnew
    exact absurd hnew (by decide)

end Firmware
end InfernoFpga
