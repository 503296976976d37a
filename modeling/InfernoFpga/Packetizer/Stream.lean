import InfernoFpga.Lib.Segment
import InfernoFpga.Packetizer.Receiver
import InfernoFpga.Packetizer.Windows

/-!
# Stream — the packets of a context one after another

Many contexts share the builder and the wire.  What goes out for one of them is a stream all the
same: its windows follow each other without a gap, and a receiver that sorts the frames by their
addresses finds it in step.
-/

namespace InfernoFpga
namespace Packetizer

open Lib

/-! ## The wire -/

/-- A frame as the MAC took it. -/
structure OnAir where
  context : CtxId
  packet : Packet
  bytes : List Byte

/-- The packets in progress, the words of the frame under way, and the frames sent. -/
structure Air where
  dispatch : Dispatch
  wire : List Beat
  sent : List OnAir

namespace Air

def start (f : Frame) (t : Int) : Air := { dispatch := Dispatch.start f t, wire := [], sent := [] }

def next (s : State) (i : Input) (a : Air) : Air :=
  { dispatch := Dispatch.next s i a.dispatch
    wire :=
      if serveNow s i then []
      else if sourceValid s && i.sourceReady then a.wire ++ [beat s]
      else a.wire
    sent :=
      if serveNow s i then
        a.sent ++ [⟨s.streamIdx, Dispatch.packet s a.dispatch, frameBytes (a.wire ++ [beat s])⟩]
      else a.sent }

/-- The frames of one context. -/
def of (a : Air) (k : CtxId) : List OnAir := a.sent.filter fun x => x.context == k

end Air

/-- The packetizer and its wire. -/
def airStep : State × Air → Input → State × Air := watch step Air.next

/-- A cycle in which the firmware loads and binds nothing; the registers of every header read `c`. -/
structure Undisturbed (c : Csr) (i : Input) : Prop where
  calm : Calm i
  port : i.udpDportRe = false
  mac : i.dstMacLoRe = false
  header : SameHeader i.csr c

instance (csr c : Csr) : Decidable (SameHeader csr c) :=
  inferInstanceAs (Decidable (_ ∧ _ ∧ _ ∧ _ ∧ _))

instance (c : Csr) (i : Input) : Decidable (Undisturbed c i) :=
  decidable_of_iff (Calm i ∧ i.udpDportRe = false ∧ i.dstMacLoRe = false ∧ SameHeader i.csr c)
    ⟨fun ⟨hcalm, hport, hmac, hheader⟩ => ⟨hcalm, hport, hmac, hheader⟩,
      fun h => ⟨h.calm, h.port, h.mac, h.header⟩⟩

/-! ## The bytes of a frame -/

/-- A frame on the wire: its header, its timestamp, and the samples read for it up to the last
word. -/
structure OnAir.Formed (c : Csr) (b : Ctx) (first : Int) (x : OnAir) : Prop where
  binding : bound x.packet.binding = bound b
  slots : nslots b.cfg ≠ 0
  length : x.bytes.length = 4 * fLastIdx b.cfg + 3
  front : At x.bytes 0 (headerFront b c)
  stamp : At x.bytes 43 (stamp first).bytes
  body : ∀ m, 54 + 3 * m ≤ 4 * fLastIdx b.cfg →
    let v := x.packet.frame.sampleAt m
    At x.bytes (51 + 3 * m) [byteAt v 3, byteAt v 2, byteAt v 1]

section Formed

variable {c : Csr} {s : State} {a : Air} {i : Input} {f : Frame}

/-- The words taken for a frame are those of its bytes as they were built. -/
theorem bytes_served {wire : List Beat} (hserve : serveNow s i = true) (hasm : Assembled s f)
    (hwire : wire = f.beats.map Beat.inner) :
    frameBytes (wire ++ [beat s]) = frameBytes (sentWords f.bytes (fLastIdx (cfgNow s))) := by
  have hfsm : s.fsm = .stream := stream_of_serveNow hserve
  have hbuilt := (packet_eq hfsm hasm hserve).1
  have hsending : Sending s f := by
    rw [Assembled, hfsm] at hasm
    exact hasm.2
  have hlast : sourceLast s = true := by
    simp only [serveNow, Bool.and_eq_true] at hserve
    exact hserve.2
  have hend : s.rdIdx = fLastIdx (cfgNow s) := beq_iff_eq.1 hlast
  have hbeat : beat s = { data := s.frameMem (fLastIdx (cfgNow s)), last := true
                          lastBe := 0b0100 } := by
    rw [beat, sourceData, sourceLastBe, hlast, hsending.adr, hend]
    rfl
  have hinner : f.beats.map Beat.inner =
      (List.range (fLastIdx (cfgNow s))).map fun w => Beat.inner (Frame.word f.bytes w) := by
    rw [hsending.beats, hend, List.map_map]
    refine List.map_congr_left fun w hw => ?_
    rw [← hbuilt.words w (List.mem_range.1 hw)]
    rfl
  rw [hwire, hinner, hbeat, hbuilt.last, sentWords, hbuilt.length]

/-- Up to the last word the bytes of the frame are as they were built. -/
theorem getElem_sentWords (bytes : List Byte) {last j : Nat} (hj : j < 4 * last) :
    (frameBytes (sentWords bytes last))[j]? = some (bytes.getD j 0) := by
  rw [frameBytes_sentWords, List.getElem?_append_left (by simpa using hj), List.getElem?_map,
    List.getElem?_range hj]
  rfl

theorem length_sentWords (bytes : List Byte) (last : Nat) :
    (frameBytes (sentWords bytes last)).length = 4 * last + 3 := by
  rw [frameBytes_sentWords, List.length_append, List.length_map, List.length_range]
  rfl

/-- A header is longer than its last word is late. -/
theorem header_before_last {cfg : Byte} (hle : nslots cfg ≤ 8) (hbound : nslots cfg ≠ 0) :
    52 ≤ 4 * fLastIdx cfg := by
  have hpos := fpp_pos cfg
  have hpay : 2 ≤ nslots cfg * fpp cfg := by
    calc 2 ≤ fpp cfg := hpos
      _ ≤ nslots cfg * fpp cfg := Nat.le_mul_of_pos_left _ (Nat.pos_of_ne_zero hbound)
  rw [fLastIdx_eq hle]
  omega

end Formed

/-! ### The frame at the receiver -/

section Received

open DanteDecode

variable {c : Csr} {b : Ctx} {first : Int} {x : OnAir}

/-- The addresses of a stream. -/
def streamKey (c : Csr) (b : Ctx) : List Byte × List Byte :=
  ([byteAt c.srcIp 3, byteAt c.srcIp 2, byteAt c.srcIp 1, byteAt c.srcIp 0],
    [byteAt b.dip 3, byteAt b.dip 2, byteAt b.dip 1, byteAt b.dip 0])

namespace OnAir.Formed

theorem parsed (h : x.Formed c b first) (hle : nslots b.cfg ≤ 8) :
    parse x.bytes = some (some ⟨(streamKey c b).1, (streamKey c b).2, b.dport.toNat,
      x.bytes.drop 42⟩) ∧ (x.bytes.drop 42).getD 0 0 = 0x02 := by
  have hlong := header_before_last hle h.slots
  have hlen := h.length
  have hfront : x.bytes.take 43 = headerFront b c := h.front.slice
  exact parse_stream b c (by omega) hfront

theorem payload (h : x.Formed c b first) (hle : nslots b.cfg ≤ 8) :
    payloadOf x.bytes = x.bytes.drop 42 := by
  rw [payloadOf, (h.parsed hle).1]
  rfl

theorem timestamp_eq (h : x.Formed c b first) :
    timestamp (x.bytes.drop 42) = (Packetizer.stamp first).count := by
  have hslice : (x.bytes.drop 43).take 8 = (Packetizer.stamp first).bytes := h.stamp.slice
  have hsec : (x.bytes.drop 43).take 4 = (Packetizer.stamp first).bytes.take 4 := by
    rw [← hslice, List.take_take]
    rfl
  have hsub : (x.bytes.drop 47).take 4 = (Packetizer.stamp first).bytes.drop 4 := by
    rw [← hslice, List.drop_take, List.drop_drop]
  rw [timestamp, List.drop_drop, List.drop_drop, hsec, hsub]
  exact congr (congrArg (fun m n => m * 48000 + n) (unpackBe_word _)) (unpackBe_word _)

/-- The receiver's sample is the upper 24 bits of the one that was read. -/
theorem sample (h : x.Formed c b first) {m : Nat} (hm : 54 + 3 * m ≤ 4 * fLastIdx b.cfg) :
    (samples (x.bytes.drop 51)).getD m 0 = (x.packet.frame.sampleAt m).toInt / 256 := by
  have hlen := h.length
  have hbody := (h.body m hm).slice
  rw [getD_samples (by rw [List.length_drop]; omega)]
  refine sample24_word ?_
  rw [List.drop_drop]
  exact hbody

end OnAir.Formed

end Received

/-! ## The wire, cycle by cycle -/

/-- A byte in front of the timestamp. -/
def FrontByte (front : List Byte) (j : Nat) (b : Byte) : Prop := j < 43 → b = front.getD j 0

/-- The frames sent were formed from the bindings `bs`, and so is the one under way. -/
structure OnWire (c : Csr) (bs : CtxId → Ctx) (s : State) (a : Air) : Prop where
  bindings : ∀ k, bound (s.ctx k) = bound (bs k)
  wire : a.wire = if s.fsm = .stream then a.dispatch.frame.beats.map Beat.inner else []
  front : inFlight s = true →
    BytesMeet (FrontByte (headerFront (bs s.streamIdx) c)) a.dispatch.frame
  packets : a.dispatch.sent = a.sent.map OnAir.packet
  sent : ∀ x ∈ a.sent, ∃ w, x.packet.window = some w ∧ x.Formed c (bs x.context) w.first

section Wire

variable {c : Csr} {bs : CtxId → Ctx} {s : State} {a : Air} {i : Input} {w : Window}

theorem OnWire.cfg (h : OnWire c bs s a) (k : CtxId) : (s.ctx k).cfg = (bs k).cfg := by
  show (bound (s.ctx k)).cfg = (bound (bs k)).cfg
  rw [h.bindings k]

/-- The frame whose last word is taken. -/
theorem formed_served (hf : Followed s a.dispatch) (h : OnWire c bs s a)
    (hserve : serveNow s i = true) (hmade : a.dispatch.made s.streamIdx = some w) :
    OnAir.Formed c (bs s.streamIdx) w.first
      ⟨s.streamIdx, Dispatch.packet s a.dispatch, frameBytes (a.wire ++ [beat s])⟩ := by
  have hfsm : s.fsm = .stream := stream_of_serveNow hserve
  have hflight : inFlight s = true := by simp [inFlight, hfsm]
  have hbuilt := (packet_eq hfsm hf.assembled hserve).1
  have hbound : nslots (cfgNow s) ≠ 0 := hf.slots _ w hmade
  have hadm : nslots (cfgNow s) ≤ 8 := hf.admissible s.streamIdx
  have hcfg : fLastIdx (cfgNow s) = fLastIdx (bs s.streamIdx).cfg :=
    congrArg fLastIdx (h.cfg s.streamIdx)
  have hlong := header_before_last hadm hbound
  have hwire : a.wire = a.dispatch.frame.beats.map Beat.inner := by
    rw [h.wire, if_pos hfsm]
  have hbytes := bytes_served hserve hf.assembled hwire
  have hbyte : ∀ j, j < 4 * fLastIdx (cfgNow s) →
      (frameBytes (a.wire ++ [beat s]))[j]? = some (a.dispatch.frame.bytes.getD j 0) :=
    fun j hj => by rw [hbytes, getElem_sentWords _ hj]
  have hsweep : Sweep (windowAddress (cur s) w) s a.dispatch.frame := by
    have hswept := hf.swept hflight w hmade
    rwa [Swept, hfsm] at hswept
  obtain ⟨half, hhalf, htotal, hidx⟩ := shape_of_le hadm
  have htotal' : fTotal (cfgNow s) = 51 + 2 * half := htotal
  have hidx' : fLastIdx (cfgNow s) = 12 + half / 2 := hidx
  have hlen : a.dispatch.frame.bytes.length = fTotal (cfgNow s) := hbuilt.length
  refine ⟨h.bindings s.streamIdx, ?_, ?_, fun j hj => ?_, fun j hj => ?_, fun m hm j hj => ?_⟩
  · rw [← h.cfg s.streamIdx]
    exact hbound
  · rw [hbytes, length_sentWords, hcfg]
  · -- the header, from the binding and the shared registers
    have hj' : j < 43 := hj
    rw [Nat.zero_add, hbyte j (by omega), h.front hflight j (by omega) hj',
      List.getD_eq_getElem _ _ hj, List.getElem?_eq_getElem hj]
  · -- the timestamp, from the window
    have hj' : j < 8 := hj
    have hmeet := hf.header hflight w hmade (43 + j) (by omega) (by omega) (by omega)
    rw [hbyte (43 + j) (by omega), hmeet, Nat.add_sub_cancel_left, List.getD_eq_getElem _ _ hj,
      List.getElem?_eq_getElem hj]
  · -- the payload, from the reads
    have hj' : j < 3 := hj
    rw [← hcfg] at hm
    have hpay := hsweep.filled (3 * m + j) (by omega)
    have hmod : (3 * m + j) / 3 = m ∧ (3 * m + j) % 3 = j := by omega
    rw [hmod.1, hmod.2, ← Nat.add_assoc] at hpay
    rw [hbyte (51 + 3 * m + j) (by omega), hpay]
    rcases (by omega : j = 0 ∨ j = 1 ∨ j = 2) with rfl | rfl | rfl <;> rfl

theorem wire_step (h : OnWire c bs s a) :
    (Air.next s i a).wire = if (step s i).fsm = .stream then
      (Air.next s i a).dispatch.frame.beats.map Beat.inner else [] := by
  have hwire := h.wire
  cases hserve : serveNow s i with
  | true =>
    have hfsm : s.fsm = .stream := stream_of_serveNow hserve
    have hleft : (step s i).fsm ≠ .stream := by
      rw [step_fsm, nextFsm_stream hfsm, if_pos hserve]
      split <;> decide
    rw [if_neg hleft, Air.next, if_pos hserve]
  | false =>
    by_cases hfsm : s.fsm = .stream
    · have hstay : (step s i).fsm = .stream := by simp [nextFsm_stream hfsm, hserve]
      rw [if_pos hfsm] at hwire
      rw [if_pos hstay]
      have htap := wire_next (t := ⟨a.dispatch.frame, a.wire⟩) hserve (fun hno => absurd hfsm hno) hwire
      have hsame : (Air.next s i a).wire = (Tap.next s i ⟨a.dispatch.frame, a.wire⟩).wire := by
        simp [Air.next, Tap.next, hserve]
      exact hsame.trans htap
    · rw [if_neg hfsm] at hwire
      have hbeats : (Frame.next s i a.dispatch.frame).beats = [] := by simp [Frame.next, hfsm]
      have hnone : (Air.next s i a).wire = [] := by simp [Air.next, hserve, sourceValid, hfsm, hwire]
      rw [hnone]
      split
      · show [] = (Frame.next s i a.dispatch.frame).beats.map Beat.inner
        rw [hbeats]
        rfl
      · rfl

theorem front_step (hi : Undisturbed c i) (hf : Followed s a.dispatch) (h : OnWire c bs s a)
    (hflight : inFlight (step s i) = true) :
    BytesMeet (FrontByte (headerFront (bs (step s i).streamIdx) c))
      (Air.next s i a).dispatch.frame := by
  obtain ⟨-, hidx, -, hbefore⟩ := before_inFlight hf hflight
  rw [hidx]
  have hold : BytesMeet (FrontByte (headerFront (bs s.streamIdx) c)) a.dispatch.frame := by
    rcases hbefore with hbefore | ⟨-, hnone⟩
    · exact h.front hbefore
    · exact bytesMeet_nil hnone
  refine bytesMeet_next hold fun hfsm hlow => ?_
  rw [length_of_building hf.assembled hfsm] at hlow ⊢
  have hfront : (header s i).take 43 = headerFront (bs s.streamIdx) c := by
    rw [headerFront_eq, cur, h.bindings]
    exact headerFront_congr _ hi.header
  have hlen : ((header s i).take 43).length = 43 := rfl
  rw [curByte, if_pos (show s.byteIdx < 51 by omega), Nat.mod_eq_of_lt (by omega), ← hfront]
  nth_rewrite 1 [header_split]
  rw [List.getD_append _ _ _ _ (by omega), List.getD_eq_getElem _ _ (by omega),
    List.getD_eq_getElem _ _ (by omega)]

theorem onWire_step (hi : Undisturbed c i) (hf : Followed s a.dispatch)
    (hacc : Accounted s a.dispatch) (h : OnWire c bs s a) :
    OnWire c bs (step s i) (Air.next s i a) where
  bindings := fun k => by
    have hcfg : i.flowCfgRe = false := hi.calm.2.1
    rw [← h.bindings k]
    simp [bound, nextCtx, hi.port, hi.mac, hcfg]
  wire := wire_step h
  front := front_step hi hf h
  packets := by
    simp only [Air.next, Dispatch.next]
    cases serveNow s i with
    | false => exact h.packets
    | true =>
      rw [if_pos rfl, if_pos rfl, h.packets, List.map_append]
      rfl
  sent := fun x hx => by
    simp only [Air.next] at hx
    cases hserve : serveNow s i with
    | false =>
      rw [hserve] at hx
      exact h.sent x hx
    | true =>
      rw [hserve, if_pos rfl, List.mem_append, List.mem_singleton] at hx
      rcases hx with hx | rfl
      · exact h.sent x hx
      · have hflight := (served_inFlight (served_iff.2 ⟨hserve, rfl⟩)).1
        obtain ⟨w, hw⟩ := Option.ne_none_iff_exists'.1 (hacc.made _ (hacc.flight hflight))
        exact ⟨w, hw, formed_served hf h hserve hw⟩

end Wire

/-! ## The windows of a context -/

/-- The windows of context `k` follow each other from sample `first` on: those of the frames sent,
and the one it is due for. -/
structure Flowing (k : CtxId) (first : Int) (s : State) (a : Air) : Prop where
  phase : (s.ctx k).phase < fpp (s.ctx k).cfg
  group : a.dispatch.sample - (s.ctx k).phase =
    first + fpp (s.ctx k).cfg * (((a.of k).length : Int) + if (s.ctx k).pend then 1 else 0)
  made : (s.ctx k).pend = true → ∃ w, a.dispatch.made k = some w ∧
    w.first = first + fpp (s.ctx k).cfg * ((a.of k).length : Int)
  sent : ∀ (j : Nat) x, (a.of k)[j]? = some x → ∃ w, x.packet.window = some w ∧
    w.first = first + fpp (s.ctx k).cfg * j

section Timeline

variable {k : CtxId} {first : Int} {s : State} {a : Air} {i : Input}

/-- The windows that have gone out, one after the other. -/
theorem Flowing.starts (h : Flowing k first s a) :
    (a.of k).map (fun x => x.packet.window.map Window.first) =
      (List.range (a.of k).length).map fun j : Nat => some (first + fpp (s.ctx k).cfg * j) := by
  refine List.ext_getElem? fun j => ?_
  rw [List.getElem?_map, List.getElem?_map]
  cases hx : (a.of k)[j]? with
  | none =>
    have hend : (a.of k).length ≤ j := List.getElem?_eq_none_iff.1 hx
    rw [List.getElem?_eq_none (by rwa [List.length_range])]
    rfl
  | some x =>
    obtain ⟨w, hw, hfirst⟩ := h.sent j x hx
    rw [List.getElem?_range (List.getElem?_eq_some_iff.1 hx).1, Option.map_some, Option.map_some,
      hw, Option.map_some, hfirst]

theorem of_next : (Air.next s i a).of k = a.of k ++ if served s i k then
    [⟨s.streamIdx, Dispatch.packet s a.dispatch, frameBytes (a.wire ++ [beat s])⟩] else [] := by
  have hsent : (Air.next s i a).sent = a.sent ++ if serveNow s i then
      [⟨s.streamIdx, Dispatch.packet s a.dispatch, frameBytes (a.wire ++ [beat s])⟩] else [] := by
    rw [Air.next]
    cases serveNow s i with
    | false => exact (List.append_nil _).symm
    | true => rfl
  rw [Air.of, hsent, List.filter_append, served]
  cases serveNow s i with
  | false => rfl
  | true =>
    rw [if_pos rfl, List.filter_singleton, Bool.true_and, Air.of]
    cases s.streamIdx == k <;> rfl

theorem length_of_next :
    ((Air.next s i a).of k).length = (a.of k).length + if served s i k then 1 else 0 := by
  rw [of_next, List.length_append]
  cases served s i k <;> rfl

/-- The frame that goes out has the window that was made due. -/
theorem Flowing.sent_step (hflight : inFlight s = true → (cur s).pend = true)
    (h : Flowing k first s a) (j : Nat) (x : OnAir) (hx : ((Air.next s i a).of k)[j]? = some x) :
    ∃ w, x.packet.window = some w ∧ w.first = first + fpp (s.ctx k).cfg * j := by
  rw [of_next] at hx
  cases hserved : served s i k with
  | false =>
    rw [hserved, if_neg (by decide), List.append_nil] at hx
    exact h.sent j x hx
  | true =>
    rw [hserved, if_pos rfl] at hx
    by_cases hold : j < (a.of k).length
    · rw [List.getElem?_append_left hold] at hx
      exact h.sent j x hx
    · -- the new one is the last
      obtain ⟨w, hw, hfirst⟩ := h.made (pend_of_served hflight hserved)
      have hj : j = (a.of k).length := by
        have hlt := (List.getElem?_eq_some_iff.1 hx).1
        rw [List.length_append, List.length_singleton] at hlt
        omega
      rw [hj, List.getElem?_concat_length, Option.some.injEq] at hx
      refine ⟨w, ?_, by rw [hfirst, hj]⟩
      rw [← hx]
      show a.dispatch.made s.streamIdx = some w
      rw [(served_iff.1 hserved).2, hw]

/-- The group in progress: a due event ends it, and every other cycle stays in it. -/
theorem group_step (hi : Calm i) (hbound : nslots (s.ctx k).cfg ≠ 0)
    (hphase : (s.ctx k).phase < fpp (s.ctx k).cfg) :
    ((step s i).ctx k).phase < fpp (s.ctx k).cfg ∧
      (Air.next s i a).dispatch.sample - ((step s i).ctx k).phase =
        a.dispatch.sample - (s.ctx k).phase +
          if dueEvent s i k then (fpp (s.ctx k).cfg : Int) else 0 := by
  have hle := fpp_le (s.ctx k).cfg
  have hnext : ((step s i).ctx k).phase = if strobe i then
      if (s.ctx k).phase = fpp (s.ctx k).cfg - 1 then 0 else ((s.ctx k).phase + 1) % 64
      else (s.ctx k).phase := by
    rw [step_ctx, nextCtx_phase hi.2.1]
  have hsample : (Air.next s i a).dispatch.sample =
      if strobe i then a.dispatch.sample + 1 else a.dispatch.sample := rfl
  have hdue : due s k = decide ((s.ctx k).phase = fpp (s.ctx k).cfg - 1) := by
    rw [due, bne_iff_ne.2 hbound, Bool.true_and]
    rfl
  rw [hnext, hsample, dueEvent, hdue]
  cases strobe i with
  | false => exact ⟨hphase, (add_zero _).symm⟩
  | true =>
    simp only [if_true, Bool.true_and, decide_eq_true_iff]
    split
    · exact ⟨by omega, by omega⟩
    · rw [Nat.mod_eq_of_lt (by omega)]
      exact ⟨by omega, by omega⟩

theorem flowing_step (hi : Calm i) (hsafe : DueSafe s i)
    (hflight : inFlight s = true → (cur s).pend = true) (hbound : nslots (s.ctx k).cfg ≠ 0)
    (h : Flowing k first s a) : Flowing k first (step s i) (Air.next s i a) := by
  have hcfg : ((step s i).ctx k).cfg = (s.ctx k).cfg := (nextCtx_map hi.2.1 k).1
  obtain ⟨hphase, hgroup⟩ := group_step (a := a) hi hbound h.phase
  have hpend : ((step s i).ctx k).pend =
      if dueEvent s i k then true else if served s i k then false else (s.ctx k).pend := rfl
  have hmade : (Air.next s i a).dispatch.made k =
      if makesDue s i k then some (Dispatch.window s a.dispatch.sample k)
      else a.dispatch.made k := rfl
  have hwas := h.group
  have hsent := h.sent_step (i := i) hflight
  cases hdue : dueEvent s i k with
  | true =>
    -- a group ends: its window is made due, and the one before it is out or goes out now
    rw [hdue, if_pos rfl] at hpend hgroup
    have hlast : (Dispatch.window s a.dispatch.sample k).first =
        a.dispatch.sample - (s.ctx k).phase := by
      simp only [dueEvent, due, Bool.and_eq_true, beq_iff_eq] at hdue
      have hpos := fpp_pos (s.ctx k).cfg
      show a.dispatch.sample - ((fpp (s.ctx k).cfg : Int) - 1) = _
      omega
    have hmakes : makesDue s i k = true := by
      rw [makesDue, hdue, Bool.true_and]
      rcases hsafe.1 k hdue with hfree | hserved
      · rw [hfree]
        rfl
      · rw [hserved, Bool.or_true]
    rw [hmakes, if_pos rfl] at hmade
    have hlen : (((Air.next s i a).of k).length : Int) =
        ((a.of k).length : Int) + if (s.ctx k).pend then 1 else 0 := by
      rw [length_of_next]
      rcases hsafe.1 k hdue with hfree | hserved
      · have hno : served s i k = false := by
          cases hserved : served s i k with
          | false => rfl
          | true => exact absurd (pend_of_served hflight hserved) (by rw [hfree]; decide)
        rw [hno, hfree]
        simp
      · rw [hserved, pend_of_served hflight hserved]
        simp
    refine ⟨hcfg ▸ hphase, ?_, fun _ => ⟨_, hmade, ?_⟩, hcfg ▸ hsent⟩
    · rw [hgroup, hwas, hcfg, hpend, hlen, if_pos rfl, mul_add _ _ (1 : Int), mul_one, add_assoc]
    · rw [hlast, hwas, hcfg, hlen]
  | false =>
    -- the group goes on, whether or not the window before it is served
    rw [hdue, if_neg (by decide)] at hpend hgroup
    have hkeeps : makesDue s i k = false := by rw [makesDue, hdue, Bool.false_and]
    rw [hkeeps, if_neg (by decide)] at hmade
    rw [add_zero] at hgroup
    cases hserved : served s i k with
    | true =>
      have hone := pend_of_served hflight hserved
      rw [hserved, if_pos rfl] at hpend
      refine ⟨hcfg ▸ hphase, ?_, fun hno => ?_, hcfg ▸ hsent⟩
      · rw [hgroup, hwas, hcfg, hpend, hone, length_of_next, hserved]
        simp
      · rw [hpend] at hno
        cases hno
    | false =>
      rw [hserved, if_neg (by decide)] at hpend
      have hsame : (Air.next s i a).of k = a.of k := by
        rw [of_next, hserved, if_neg (by decide), List.append_nil]
      refine ⟨hcfg ▸ hphase, ?_, fun hyes => ?_, hcfg ▸ hsent⟩
      · rw [hgroup, hwas, hcfg, hpend, hsame]
      · rw [hpend] at hyes
        obtain ⟨w, hw, hfirst⟩ := h.made hyes
        exact ⟨w, hmade.trans hw, by rw [hfirst, hcfg, hsame]⟩

end Timeline

/-! ## Streams -/

/-- The talker in operation: from rest and in step with the media clock, with the contexts left
alone, strobes a sample period apart and a MAC that takes every word, and every walk in time. -/
structure Operating (c : Csr) (s : State) (is : List Input) : Prop where
  settled : Settled s
  aligned : Aligned s
  undisturbed : ∀ i ∈ is, Undisturbed c i
  ready : ∀ i ∈ is, i.sourceReady = true
  spaced : Spaced strobeGap is
  walk : ∃ g, (∀ k, nslots (s.ctx k).cfg ≠ 0 → g ∣ fpp (s.ctx k).cfg) ∧
    walkTime (cfgs s) ≤ strobeGap * g

/-- The number of the next sample, as the timestamp counter has it. -/
def sampleNow (s : State) : Int := Stamp.count (s.tsSec, s.tsSub)

/-- The first sample of the group in progress. -/
def groupStart (s : State) (k : CtxId) : Int := sampleNow s - (s.ctx k).phase

section Operation

variable {c : Csr} {s : State} {f : Frame} {is : List Input}

/-- In operation the latches are taken in time, and no group is completed over another. -/
theorem Operating.safe (h : Operating c s is) :
    Along step LatchSafe s is ∧ Along step DueSafe s is := by
  obtain ⟨g, hg, hwalk⟩ := h.walk
  have hsched : Schedulable (cfgs s) := fun k hbound =>
    hwalk.trans (Nat.mul_le_mul_left _ (Nat.le_of_dvd
      (Nat.lt_of_lt_of_le Nat.two_pos (fpp_pos (cfgs s k))) (hg k hbound)))
  refine ⟨latchSafe_run is h.settled.placed h.settled.balanced (h.settled.timed strobeGap)
    h.aligned hg hwalk (fun i hi => ⟨(h.undisturbed i hi).calm, h.ready i hi⟩) h.spaced, ?_⟩
  exact dueSafe_run is h.settled.placed h.settled.balanced (h.settled.timed strobeGap) hsched
    (fun i hi => ⟨h.ready i hi, (h.undisturbed i hi).calm.2.1⟩) h.spaced

/-- From rest and in step, with the contexts left alone and every latch taken in time. -/
structure Timely (c : Csr) (s : State) (is : List Input) : Prop where
  settled : Settled s
  aligned : Aligned s
  undisturbed : ∀ i ∈ is, Undisturbed c i
  latch : Along step LatchSafe s is
  due : Along step DueSafe s is

theorem Operating.timely (h : Operating c s is) : Timely c s is :=
  ⟨h.settled, h.aligned, h.undisturbed, h.safe.1, h.safe.2⟩

/-- The wire of a talker in operation. -/
structure Streaming (c : Csr) (s : State) (p : State × Air) : Prop where
  followed : Followed p.1 p.2.dispatch
  accounted : Accounted p.1 p.2.dispatch
  wire : OnWire c s.ctx p.1 p.2
  flowing : ∀ k, nslots (s.ctx k).cfg ≠ 0 → Flowing k (groupStart s k) p.1 p.2

theorem Streaming.next {p : State × Air} {i : Input} (hi : Undisturbed c i)
    (hlatch : LatchSafe p.1 i) (hdue : DueSafe p.1 i) (h : Streaming c s p) :
    Streaming c s (airStep p i) where
  followed := followed_step hi.calm hlatch h.followed
  accounted := accounted_step h.accounted
  wire := onWire_step hi h.followed h.accounted h.wire
  flowing := fun k hbound =>
    flowing_step hi.calm hdue h.followed.flight (by rwa [h.wire.cfg k]) (h.flowing k hbound)

theorem Timely.start (h : Timely c s is) (hreach : Reached s f) :
    Streaming c s (s, Air.start f (sampleNow s)) where
  followed :=
    { admissible := hreach.assembled.1
      assembled := hreach.assembled.2.1
      flight := hreach.assembled.2.2
      rest := hreach.rest
      loaded := h.aligned.loaded
      time := (stamp_count h.aligned.range).symm
      slots := fun _ _ hmade => by cases hmade
      waiting := fun _ _ _ hmade => by cases hmade
      header := fun _ _ hmade => by cases hmade
      swept := fun _ _ hmade => by cases hmade
      sent := fun _ hx => by cases hx }
  accounted := ⟨hreach.assembled.2.2, fun k hpend => by simp [h.settled.free k] at hpend,
    fun _ hx => by cases hx⟩
  wire :=
    { bindings := fun _ => rfl
      wire := by simp [Air.start, h.settled.idle]
      front := fun hflight => by simp [inFlight, h.settled.idle] at hflight
      packets := rfl
      sent := fun _ hx => by cases hx }
  flowing := fun k _ =>
    { phase := h.settled.phase k
      group := by simp [h.settled.free k, groupStart, Air.start, Air.of, Dispatch.start]
      made := fun hpend => by rw [h.settled.free k] at hpend; cases hpend
      sent := fun j x hx => by cases hx }

/-- What holds of the wire after any run in operation. -/
theorem Timely.streaming (h : Timely c s is) (hreach : Reached s f) :
    Streaming c s (Lib.run airStep (s, Air.start f (sampleNow s)) is) := by
  have hinputs : Along airStep (fun _ i => Undisturbed c i) (s, Air.start f (sampleNow s)) is :=
    Along.of_inputs h.undisturbed
  exact ((hinputs.and (along_watch h.latch)).and (along_watch h.due)).invariant
    (fun _ _ hi hp => hp.next hi.1.1 hi.1.2 hi.2) (h.start hreach)

/-- The receiver sorts the frames as the contexts sent them, where no two of those on the audio port
have one destination. -/
theorem filter_ofStream {bs : CtxId → Ctx} {x : State} {a : Air} {k : CtxId}
    (h : OnWire c bs x a) (hadm : Admissible x) (hport : (bs k).dport = 4321)
    (halone : ∀ j, nslots (bs j).cfg ≠ 0 → (bs j).dport = 4321 → (bs j).dip = (bs k).dip → j = k) :
    (a.sent.map OnAir.bytes).filter (DanteDecode.ofStream (streamKey c (bs k))) =
      (a.of k).map OnAir.bytes := by
  rw [List.filter_map, Air.of]
  refine congrArg _ (List.filter_congr fun y hy => ?_)
  obtain ⟨w, -, hformed⟩ := h.sent y hy
  have hle : nslots (bs y.context).cfg ≤ 8 := by
    rw [← h.cfg y.context]
    exact hadm y.context
  have hlong := header_before_last hle hformed.slots
  have hlen := hformed.length
  have hpay : decide (9 ≤ (y.bytes.drop 42).length) = true := by
    rw [List.length_drop, decide_eq_true_iff]
    omega
  have hof : (DanteDecode.ofStream (streamKey c (bs k)) ∘ OnAir.bytes) y =
      ((bs y.context).dport.toNat == 4321 && (streamKey c (bs y.context) == streamKey c (bs k))) := by
    rw [Function.comp_apply, DanteDecode.ofStream, (hformed.parsed hle).1]
    show (((bs y.context).dport.toNat == 4321 && decide (9 ≤ (y.bytes.drop 42).length)) && _) = _
    rw [hpay, Bool.and_true]
  have hnat : (4321 : BitVec 16).toNat = 4321 := rfl
  rw [hof, Bool.eq_iff_iff, Bool.and_eq_true, beq_iff_eq, beq_iff_eq, beq_iff_eq]
  constructor
  · rintro ⟨hdport, hkey⟩
    refine halone y.context hformed.slots (BitVec.eq_of_toNat_eq (hdport.trans hnat.symm)) ?_
    have hdst := congrArg Prod.snd hkey
    simp only [streamKey, List.cons.injEq, and_true] at hdst
    rw [← bytes_word (bs y.context).dip, ← bytes_word (bs k).dip, hdst.1, hdst.2.1, hdst.2.2.1,
      hdst.2.2.2]
  · rintro rfl
    exact ⟨by rw [hport, hnat], rfl⟩

/-- With contexts in step with the counter, the groups begin at multiples of their size. -/
theorem dvd_groupStart (h : Aligned s) {k : CtxId} (hbound : nslots (s.ctx k).cfg ≠ 0) :
    (fpp (s.ctx k).cfg : Int) ∣ groupStart s k := by
  have hsub : fpp (s.ctx k).cfg ∣ s.tsSub.toNat - s.tsSub.toNat % fpp (s.ctx k).cfg :=
    Nat.dvd_sub_mod _
  have hsec : (fpp (s.ctx k).cfg : Int) ∣ ((s.tsSec.toNat * 48000 : Nat) : Int) :=
    Int.natCast_dvd_natCast.2 ((fpp_dvd_subsecMax _).mul_left _)
  have hle := Nat.mod_le s.tsSub.toNat (fpp (s.ctx k).cfg)
  have hsplit : groupStart s k = ((s.tsSec.toNat * 48000 : Nat) : Int) +
      ((s.tsSub.toNat - s.tsSub.toNat % fpp (s.ctx k).cfg : Nat) : Int) := by
    show ((s.tsSec.toNat * 48000 + s.tsSub.toNat : Nat) : Int) - (s.ctx k).phase = _
    rw [h.phase k hbound]
    omega
  rw [hsplit]
  exact Int.dvd_add hsec (Int.natCast_dvd_natCast.2 hsub)

/-- The number of the next sample goes on with the strobes. -/
theorem sample_run (is : List Input) : ∀ p : State × Air,
    (Lib.run airStep p is).2.dispatch.sample =
      p.2.dispatch.sample + (is.countP fun i => strobe i : Nat) := by
  induction is with
  | nil => exact fun p => (Int.add_zero _).symm
  | cons i is ih =>
    intro p
    have hnext : (airStep p i).2.dispatch.sample =
        if strobe i then p.2.dispatch.sample + 1 else p.2.dispatch.sample := rfl
    rw [Lib.run_cons, ih, hnext, List.countP_cons]
    cases strobe i with
    | false => rfl
    | true =>
      rw [if_pos rfl, if_pos rfl, Nat.cast_add, add_assoc, add_comm 1]
      rfl

end Operation

/-- A context of two slots and two samples a packet, on the audio port. -/
def audioBound : State := run step State.reset
  [{ Input.quiet with csr := { Input.quiet.csr with udpDport := 4321 }, udpDportRe := true },
    Input.bind 0 0x62 0 0x8180 0]

/-- Two strobes, a sample period apart. -/
def onePeriod : List Input :=
  Input.tick :: (List.replicate 1041 Input.quiet ++ [Input.tick])

end Packetizer
end InfernoFpga
