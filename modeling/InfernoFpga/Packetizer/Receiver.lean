import InfernoFpga.Packetizer.Emission
import InfernoFpga.Packetizer.Pacing
import Mathlib.Logic.Function.Basic

/-!
# Receiver — the tool that reads streams off the wire

`tools/dante_decode.py` sorts the frames of a capture by source and destination and keeps a record
of each stream: how its timestamps go on from packet to packet, and what its samples are.
-/

namespace InfernoFpga
namespace Packetizer
namespace DanteDecode

/-! ## Fields of a frame -/

/-- `struct.unpack` of one big-endian field. -/
def unpackBe (bs : List Byte) : Nat := bs.foldl (fun n b => n * 256 + b.toNat) 0

structure Datagram where
  src : List Byte
  dst : List Byte
  dport : Nat
  payload : List Byte

/-- `parse`; `none` is the exception on a frame that ends where its IP header should begin. -/
def parse (data : List Byte) : Option (Option Datagram) :=
  if data.length < 14 ∨ (data.drop 12).take 2 ≠ [0x08, 0x00] then some none
  else data[14]?.map fun version =>
    let ihl := version.toNat % 16 * 4
    let ip := (data.drop 14).take ihl
    let udp := data.drop (14 + ihl)
    if ip.length < 20 ∨ ip.getD 9 0 ≠ 17 then none
    else if udp.length < 8 then none
    else some
      { src := (ip.drop 12).take 4
        dst := (ip.drop 16).take 4
        dport := unpackBe ((udp.drop 2).take 2)
        payload := udp.drop 8 }

/-! ## The record of a stream -/

structure Flow where
  n : Nat
  prev : Option Nat
  gaps : Nat
  dups : Nat
  steps : Int → Nat
  nonzero : Nat
  peak : Nat
  badConst : Nat
  firstTs : Option Nat
  lastTs : Option Nat

def Flow.empty : Flow := ⟨0, none, 0, 0, fun _ => 0, 0, 0, 0, none, none⟩

/-- The 24-bit big-endian sample at byte `i` of the body. -/
def sample24 (body : List Byte) (i : Nat) : Int :=
  let v := unpackBe ((body.drop i).take 3)
  if 0x800000 ≤ v then (v : Int) - 2 ^ 24 else v

def samples (body : List Byte) : List Int :=
  (List.range (body.length / 3)).map fun m => sample24 body (3 * m)

/-- `ts`, in samples. -/
def timestamp (pl : List Byte) : Nat :=
  unpackBe ((pl.drop 1).take 4) * 48000 + unpackBe ((pl.drop 5).take 4)

/-- The step from the last timestamp, once there is one. -/
def Flow.stepped (f : Flow) (ts : Nat) : Flow :=
  match f.prev with
  | none => f
  | some prev =>
    let d : Int := ts - prev
    { f with
      steps := Function.update f.steps d (f.steps d + 1)
      dups := if d = 0 then f.dups + 1 else f.dups
      gaps := if d < 0 then f.gaps + 1 else f.gaps }

/-- A packet of the stream. -/
def Flow.feed (f : Flow) (pl : List Byte) : Flow :=
  let ts := timestamp pl
  let f := f.stepped ts
  { f with
    badConst := if pl.getD 0 0 ≠ 0x02 then f.badConst + 1 else f.badConst
    n := f.n + 1
    firstTs := f.firstTs.or (some ts)
    lastTs := some ts
    prev := some ts
    nonzero := f.nonzero + (samples (pl.drop 9)).countP (· ≠ 0)
    peak := (samples (pl.drop 9)).foldl (fun p v => max p v.natAbs) f.peak }

/-! ## The capture -/

/-- `flows`, by source and destination. -/
abbrev Flows := List Byte × List Byte → Flow

/-- One frame of the capture. -/
def feed (flows : Flows) (data : List Byte) : Option Flows :=
  (parse data).map fun
    | none => flows
    | some p =>
      if p.dport ≠ 4321 ∨ p.payload.length < 9 then flows
      else Function.update flows (p.src, p.dst) ((flows (p.src, p.dst)).feed p.payload)

/-- `main`, as far as the end of the capture. -/
def decode (capture : List (List Byte)) : Option Flows :=
  capture.foldlM feed fun _ => Flow.empty

/-! ## What the fields say -/

theorem toNat_append_byte {w : Nat} (x : BitVec w) (b : Byte) :
    (x ++ b).toNat = x.toNat * 256 + b.toNat := by
  rw [BitVec.toNat_append, Nat.shiftLeft_eq, Nat.mul_comm,
    ← Nat.two_pow_add_eq_or_of_lt b.isLt, Nat.mul_comm]

theorem unpackBe_concat (bs : List Byte) (b : Byte) :
    unpackBe (bs ++ [b]) = unpackBe bs * 256 + b.toNat := List.foldl_concat _ _ _ _

/-- A word is unpacked from its bytes, … -/
theorem unpackBe_word (x : Word) :
    unpackBe [byteAt x 3, byteAt x 2, byteAt x 1, byteAt x 0] = x.toNat := by
  conv_rhs => rw [← bytes_word x]
  rw [toNat_append_byte, toNat_append_byte, toNat_append_byte]
  simp [unpackBe]

/-- … and a half word. -/
theorem unpackBe_half (x : BitVec 16) : unpackBe [byteAt x 1, byteAt x 0] = x.toNat := by
  have hsplit : byteAt x 1 ++ byteAt x 0 = x := by
    ext j hj
    simp [byteAt]
    grind
  conv_rhs => rw [← hsplit]
  rw [toNat_append_byte]
  simp [unpackBe]

/-- The upper three bytes of a word are a sample of 24 bits. -/
theorem sample24_word {body : List Byte} {i : Nat} {x : Word}
    (h : (body.drop i).take 3 = [byteAt x 3, byteAt x 2, byteAt x 1]) :
    sample24 body i = x.toInt / 256 := by
  have hword : unpackBe [byteAt x 3, byteAt x 2, byteAt x 1] * 256 + (byteAt x 0).toNat = x.toNat :=
    (unpackBe_concat _ _).symm.trans (unpackBe_word x)
  have hlow := (byteAt x 0).isLt
  have hx := x.isLt
  rw [sample24, h, BitVec.toInt_eq_toNat_cond]
  generalize unpackBe [byteAt x 3, byteAt x 2, byteAt x 1] = u at hword ⊢
  generalize (byteAt x 0).toNat = l at hword hlow
  generalize x.toNat = v at hword hx ⊢
  split
  · rename_i hhigh
    rw [if_neg (show ¬ 2 * v < 2 ^ 32 by omega)]
    omega
  · rename_i hlow
    rw [if_pos (show 2 * v < 2 ^ 32 by omega)]
    omega

/-- What the tool finds in the payload of a packet. -/
theorem getD_samples {body : List Byte} {m : Nat} (h : 3 * m + 3 ≤ body.length) :
    (samples body).getD m 0 = sample24 body (3 * m) := by
  have hm : m < body.length / 3 := by omega
  rw [samples, List.getD_eq_getElem _ _ (by simpa using hm), List.getElem_map, List.getElem_range]

/-- A frame with the header of a stream is a datagram of it. -/
theorem parse_stream (c : Ctx) (csr : Csr) {data : List Byte} (hlen : 43 ≤ data.length)
    (h : data.take 43 = headerFront c csr) :
    parse data = some (some
      { src := [byteAt csr.srcIp 3, byteAt csr.srcIp 2, byteAt csr.srcIp 1, byteAt csr.srcIp 0]
        dst := [byteAt c.dip 3, byteAt c.dip 2, byteAt c.dip 1, byteAt c.dip 0]
        dport := c.dport.toNat
        payload := data.drop 42 }) ∧ (data.drop 42).getD 0 0 = 0x02 := by
  obtain ⟨t, rfl⟩ : ∃ t, data = headerFront c csr ++ t :=
    ⟨data.drop 43, by rw [← h, List.take_append_drop]⟩
  have hport := unpackBe_half c.dport
  refine ⟨?_, rfl⟩
  have hlong : ¬ (headerFront c csr ++ t).length < 14 := by omega
  have hudp : ¬ ((headerFront c csr ++ t).drop 34).length < 8 := by
    rw [List.length_drop]
    omega
  have hversion : (headerFront c csr ++ t)[14]? = some 0x45 := rfl
  have htype : ¬ ((headerFront c csr ++ t).drop 12).take 2 ≠ [0x08, 0x00] := not_not.2 rfl
  rw [parse, if_neg (not_or.2 ⟨hlong, htype⟩), hversion]
  have hip : ¬ (((headerFront c csr ++ t).drop 14).take 20).length < 20 := Nat.lt_irrefl 20
  have hproto : ¬ (((headerFront c csr ++ t).drop 14).take 20).getD 9 0 ≠ 17 := not_not.2 rfl
  show some (if (((headerFront c csr ++ t).drop 14).take 20).length < 20 ∨
    (((headerFront c csr ++ t).drop 14).take 20).getD 9 0 ≠ 17 then none else
      if ((headerFront c csr ++ t).drop 34).length < 8 then none else _) = _
  rw [if_neg (not_or.2 ⟨hip, hproto⟩), if_neg hudp, ← hport]
  rfl

/-! ## A stream in step -/

/-- The record after `n` packets whose timestamps go on by `fpp` from sample `first`. -/
structure Flow.InStep (fpp : Nat) (first : Int) (n : Nat) (f : Flow) : Prop where
  count : f.n = n
  const : f.badConst = 0
  dups : f.dups = 0
  steps : ∀ d, f.steps d ≠ 0 → d = fpp ∨ d = fpp - countWrap
  gaps : 0 < n → (f.gaps : Int) = (first + fpp * (n - 1)) / countWrap - first / countWrap
  none : n = 0 → f.prev = none ∧ f.firstTs = none ∧ f.gaps = 0
  prev : 0 < n → f.prev = some (stamp (first + fpp * (n - 1))).count
  firstTs : 0 < n → f.firstTs = some (stamp first).count

theorem Flow.inStep_empty (fpp : Nat) (first : Int) : Flow.empty.InStep fpp first 0 where
  count := rfl
  const := rfl
  dups := rfl
  steps := fun _ h => absurd rfl h
  gaps := fun h => absurd h (Nat.lt_irrefl 0)
  none := fun _ => ⟨rfl, rfl, rfl⟩
  prev := fun h => absurd h (Nat.lt_irrefl 0)
  firstTs := fun h => absurd h (Nat.lt_irrefl 0)

/-- One step of `fpp` samples, as the counts show it. -/
theorem count_step {fpp : Nat} (hpos : 0 < fpp) (hlt : fpp < countWrap) (x : Int) :
    let d : Int := (stamp (x + fpp)).count - (stamp x).count
    d ≠ 0 ∧ (d = fpp ∨ d = fpp - countWrap) ∧
      (x + fpp) / countWrap = x / countWrap + if d < 0 then 1 else 0 := by
  have hW : countWrap = 206158430208000 := rfl
  rw [count_stamp, count_stamp, hW]
  rw [hW] at hlt
  dsimp only
  split <;> omega

/-- A packet that goes on in step. -/
theorem Flow.InStep.feed {fpp : Nat} {first : Int} {n : Nat} {f : Flow} {pl : List Byte}
    (h : f.InStep fpp first n) (hpos : 0 < fpp) (hlt : fpp < countWrap)
    (hts : timestamp pl = (stamp (first + fpp * n)).count) (hconst : pl.getD 0 0 = 0x02) :
    (f.feed pl).InStep fpp first (n + 1) := by
  have hlast : ((n + 1 : Nat) : Int) - 1 = n := by omega
  have hconst' : (if pl.getD 0 0 ≠ 0x02 then f.badConst + 1 else f.badConst) = 0 := by
    rw [if_neg (not_not.2 hconst), h.const]
  rcases Nat.eq_zero_or_pos n with hzero | hsome
  · -- the first packet of the stream makes no step
    obtain ⟨hprev, hfirst, hgaps⟩ := h.none hzero
    have hstepped : f.stepped (timestamp pl) = f := by rw [Flow.stepped, hprev]
    have hstart : first + fpp * (n : Int) = first := by rw [hzero]; simp
    refine ⟨?_, ?_, ?_, ?_, fun _ => ?_, fun hno => absurd hno (Nat.succ_ne_zero n), fun _ => ?_,
      fun _ => ?_⟩
    · exact congrArg (· + 1) ((congrArg Flow.n hstepped).trans h.count)
    · rw [Flow.feed, hstepped]
      exact hconst'
    · rw [Flow.feed, hstepped]
      exact h.dups
    · rw [Flow.feed, hstepped]
      exact h.steps
    · rw [Flow.feed, hstepped, hlast, hstart, sub_self]
      exact congrArg Nat.cast hgaps
    · rw [hlast, ← hts]
      rfl
    · rw [Flow.feed, hstepped]
      show f.firstTs.or (some (timestamp pl)) = _
      rw [hfirst, hts, hstart]
      rfl
  · -- any other steps by the packet size, or back at the wrap of the second
    obtain ⟨hne, hd, hwrap⟩ := count_step hpos hlt (first + fpp * ((n : Int) - 1))
    have hnext : first + fpp * ((n : Int) - 1) + fpp = first + fpp * n := by
      rw [mul_sub, mul_one, add_assoc, sub_add_cancel]
    rw [hnext] at hne hd hwrap
    have hprev := h.prev hsome
    have hgaps := h.gaps hsome
    have hstepped : f.stepped (timestamp pl) =
        let d : Int := (stamp (first + fpp * n)).count - (stamp (first + fpp * (n - 1))).count
        { f with
          steps := Function.update f.steps d (f.steps d + 1)
          dups := if d = 0 then f.dups + 1 else f.dups
          gaps := if d < 0 then f.gaps + 1 else f.gaps } := by
      rw [Flow.stepped, hprev, hts]
    generalize hstep : ((stamp (first + fpp * (n : Int))).count : Int) -
      (stamp (first + fpp * ((n : Int) - 1))).count = d at hne hd hwrap hstepped
    refine ⟨?_, ?_, ?_, fun e he => ?_, fun _ => ?_, fun hno => absurd hno (Nat.succ_ne_zero n),
      fun _ => ?_, fun _ => ?_⟩
    · rw [Flow.feed, hstepped]
      exact congrArg (· + 1) h.count
    · rw [Flow.feed, hstepped]
      exact hconst'
    · rw [Flow.feed, hstepped]
      exact (if_neg hne).trans h.dups
    · rw [Flow.feed, hstepped] at he
      by_cases hsame : e = d
      · exact hsame ▸ hd
      · exact h.steps e fun hno => he ((Function.update_of_ne hsame _ _).trans hno)
    · rw [Flow.feed, hstepped, hlast, hwrap]
      show ((if d < 0 then f.gaps + 1 else f.gaps : Nat) : Int) = _
      by_cases hneg : d < 0
      · rw [if_pos hneg, if_pos hneg, Nat.cast_succ, hgaps, sub_add_eq_add_sub]
      · rw [if_neg hneg, if_neg hneg, hgaps, add_zero]
    · rw [hlast, ← hts]
      rfl
    · rw [Flow.feed, hstepped]
      show f.firstTs.or (some (timestamp pl)) = _
      rw [h.firstTs hsome]
      rfl

/-! ## A stream among others -/

/-- The datagrams that `main` looks at. -/
def Datagram.audio (p : Datagram) : Bool := p.dport == 4321 && decide (9 ≤ p.payload.length)

/-- A frame of the stream from `key.1` to `key.2`. -/
def ofStream (key : List Byte × List Byte) (data : List Byte) : Bool :=
  (parse data).join.any fun p => p.audio && (p.src, p.dst) == key

def payloadOf (data : List Byte) : List Byte := ((parse data).join.map Datagram.payload).getD []

/-- A frame changes the record of its own stream. -/
theorem feed_record (flows : Flows) {data : List Byte} (h : parse data ≠ none)
    (key : List Byte × List Byte) :
    ∃ flows', feed flows data = some flows' ∧
      flows' key = if ofStream key data then (flows key).feed (payloadOf data) else flows key := by
  cases hparse : parse data with
  | none => exact absurd hparse h
  | some o =>
    cases o with
    | none =>
      have hno : ofStream key data = false := by rw [ofStream, hparse]; rfl
      exact ⟨flows, by rw [feed, hparse]; rfl, by rw [hno]; rfl⟩
    | some p =>
      have hof : ofStream key data = (p.audio && (p.src, p.dst) == key) := by
        rw [ofStream, hparse]
        rfl
      have hpay : payloadOf data = p.payload := by rw [payloadOf, hparse]; rfl
      by_cases haudio : p.dport ≠ 4321 ∨ p.payload.length < 9
      · have hno : p.audio = false := by
          rw [Datagram.audio, Bool.and_eq_false_iff, beq_eq_false_iff_ne, decide_eq_false_iff_not]
          exact haudio.imp id Nat.not_le.2
        refine ⟨flows, ?_, by rw [hof, hno]; rfl⟩
        rw [feed, hparse]
        exact congrArg some (if_pos haudio)
      · have hyes : p.audio = true := by
          rw [not_or, not_not, Nat.not_lt] at haudio
          rw [Datagram.audio, Bool.and_eq_true, beq_iff_eq, decide_eq_true_iff]
          exact haudio
        refine ⟨Function.update flows (p.src, p.dst) ((flows (p.src, p.dst)).feed p.payload), ?_, ?_⟩
        · rw [feed, hparse]
          exact congrArg some (if_neg haudio)
        · rw [hof, hyes, Bool.true_and, hpay]
          by_cases hkey : (p.src, p.dst) = key
          · rw [← hkey, Function.update_self, beq_self_eq_true, if_pos rfl]
          · rw [Function.update_of_ne (Ne.symm hkey), beq_eq_false_iff_ne.2 hkey]
            rfl

/-- The record of a stream whose packets come in step, whatever else is in the capture. -/
theorem inStep_decode (fpp : Nat) (first : Int) (hpos : 0 < fpp) (hlt : fpp < countWrap)
    (key : List Byte × List Byte) (capture : List (List Byte))
    (hparse : ∀ data ∈ capture, parse data ≠ none)
    (hstep : ∀ (j : Nat) data, (capture.filter (ofStream key))[j]? = some data →
      timestamp (payloadOf data) = (stamp (first + fpp * j)).count ∧
        (payloadOf data).getD 0 0 = 0x02) :
    ∃ flows, decode capture = some flows ∧
      (flows key).InStep fpp first (capture.filter (ofStream key)).length := by
  induction capture using List.reverseRecOn with
  | nil => exact ⟨_, rfl, Flow.inStep_empty fpp first⟩
  | append_singleton capture data ih =>
    rw [List.filter_append] at hstep ⊢
    obtain ⟨flows, hdecode, hin⟩ := ih
      (fun x hx => hparse x (List.mem_append_left _ hx))
      (fun j x hx => hstep j x (List.getElem?_append_left
        (List.getElem?_eq_some_iff.1 hx).1 ▸ hx))
    obtain ⟨flows', hfeed, hrecord⟩ := feed_record flows (hparse data (by simp)) key
    refine ⟨flows', ?_, ?_⟩
    · rw [decode, List.foldlM_append, show capture.foldlM feed _ = some flows from hdecode]
      exact (bind_pure (feed flows data)).trans hfeed
    · cases hof : ofStream key data with
      | false =>
        rw [hof] at hrecord
        rw [hrecord, List.filter_cons_of_neg (by rw [hof]; decide), List.filter_nil, List.append_nil]
        exact hin
      | true =>
        rw [hof] at hrecord
        rw [List.filter_cons_of_pos hof, List.filter_nil] at hstep ⊢
        obtain ⟨hts, hconst⟩ := hstep _ data List.getElem?_concat_length
        rw [hrecord, List.length_append, List.length_singleton]
        exact hin.feed hpos hlt hts hconst

end DanteDecode
end Packetizer
end InfernoFpga
