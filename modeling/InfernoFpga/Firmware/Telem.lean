import InfernoFpga.Lib.Ring
import InfernoFpga.Lib.Run
import InfernoFpga.Lib.Segment
import Mathlib.Algebra.Group.Int.Defs

/-!
# Telem — the telemetry ring and the host that drains it

Records are pushed into a ring, numbered from 1; the host asks for the number after the last one
it received, and gets up to sixteen records and the number of the oldest one left.  The host
accounts for every number, in order.  The device's own count of lost records does not: it counts
every record that is overwritten, also those the host has received.
-/

namespace InfernoFpga
namespace Firmware
namespace Telem

open Lib

abbrev telemRecBytes : Nat := 28
abbrev telemRingRecs : Nat := 96
abbrev telemMaxPerReply : Nat := 16

/-- `'TLM1'`. -/
abbrev tag : Nat := 0x544C4D31

/-! ## The device -/

/-- The arguments of a push, and the uptime it reads. -/
structure TelemData where
  tMs : UInt32
  type : UInt8
  flags : UInt8
  aux : UInt16
  v0 : Int32
  v1 : Int32
  v2 : Int32
  v3 : Int32
  deriving DecidableEq, Inhabited

/-- `telem_rec_t`. -/
structure TelemRec where
  seq : Nat
  data : TelemData
  deriving DecidableEq

def TelemRec.zero : TelemRec := ⟨0, ⟨0, 0, 0, 0, 0, 0, 0, 0⟩⟩

structure Device where
  ring : Nat → TelemRec
  nextSeq : Nat
  dropped : Nat

def Device.boot : Device := { ring := fun _ => TelemRec.zero, nextSeq := 1, dropped := 0 }

section Device

variable (t : Device)

/-- The record that the next push overwrites. -/
def overwritten : TelemRec := t.ring (t.nextSeq % telemRingRecs)

/-- `telem_push`. -/
def telemPush (d : TelemData) : Device :=
  { ring := Function.update t.ring (t.nextSeq % telemRingRecs) ⟨t.nextSeq, d⟩
    nextSeq := (t.nextSeq + 1) % 2 ^ 32
    dropped :=
      if (overwritten t).seq ≠ 0 ∧
          telemRingRecs ≤ (t.nextSeq + 2 ^ 32 - (overwritten t).seq) % 2 ^ 32 then
        (t.dropped + 1) % 2 ^ 32
      else t.dropped }

/-- The oldest number that is still in the ring. -/
def oldest : Nat := if telemRingRecs < t.nextSeq then t.nextSeq - telemRingRecs else 1

/-- The loop over the records; `fuel` bounds its turns. -/
def drainLoop : Nat → Nat → Nat → List TelemRec
  | 0, _, _ => []
  | fuel + 1, want, emitted =>
      if want < t.nextSeq ∧ emitted < telemMaxPerReply then
        if (t.ring (want % telemRingRecs)).seq ≠ want then drainLoop fuel (want + 1) emitted
        else t.ring (want % telemRingRecs) :: drainLoop fuel (want + 1) (emitted + 1)
      else []

/-- The number a request asks for. -/
def wanted (req : List UInt8) : Nat :=
  if 5 ≤ req.length then Mem.rd32 (fun k => req.getD k 0) 1 else 0

/-- The records of a reply; `want` grows to the end of the ring in every turn of the loop. -/
def drained (want : Nat) : List TelemRec :=
  let want := if want < oldest t then oldest t else want
  drainLoop t (t.nextSeq - want) want 0

def TelemRec.bytes (r : TelemRec) : List UInt8 :=
  Mem.be32 r.seq ++ Mem.be32 r.data.tMs.toNat ++
    Mem.be32 (r.data.type.toNat <<< 24 ||| r.data.flags.toNat <<< 16 ||| r.data.aux.toNat) ++
    Mem.be32 r.data.v0.toUInt32.toNat ++ Mem.be32 r.data.v1.toUInt32.toNat ++
    Mem.be32 r.data.v2.toUInt32.toNat ++ Mem.be32 r.data.v3.toUInt32.toNat

/-- `telem_rx`: the payload of the reply. -/
def telemRx (req : List UInt8) : List UInt8 :=
  Mem.be32 tag ++ Mem.be32 telemRecBytes ++ Mem.be32 (oldest t) ++ Mem.be32 t.nextSeq ++
    Mem.be32 t.dropped ++ (drained t (wanted req)).flatMap TelemRec.bytes

end Device

/-! ## The host -/

/-- A record as the host sees it. -/
structure HostRec where
  seq : Nat
  tMs : Nat
  type : Nat
  flags : Nat
  aux : Nat
  v0 : Int
  v1 : Int
  v2 : Int
  v3 : Int
  deriving DecidableEq

def s32 (v : Nat) : Int := if 2 ^ 31 ≤ v then (v : Int) - 2 ^ 32 else v

/-- What `drain` returns. -/
structure Reply where
  oldest : Nat
  nextSeq : Nat
  dropped : Nat
  recs : List HostRec
  deriving DecidableEq

/-- The record at an offset of the reply. -/
def unpackRec (m : Mem) (a : Nat) : HostRec :=
  { seq := Mem.rd32 m a
    tMs := Mem.rd32 m (a + 4)
    type := Mem.rd32 m (a + 8) >>> 24
    flags := Mem.rd32 m (a + 8) >>> 16 &&& 0xFF
    aux := Mem.rd32 m (a + 8) &&& 0xFFFF
    v0 := s32 (Mem.rd32 m (a + 12))
    v1 := s32 (Mem.rd32 m (a + 16))
    v2 := s32 (Mem.rd32 m (a + 20))
    v3 := s32 (Mem.rd32 m (a + 24)) }

/-- The reply, taken apart; `none` where the tool raises. -/
def parseReply (d : List UInt8) : Option Reply :=
  let m : Mem := fun k => d.getD k 0
  let recBytes := Mem.rd32 m 4
  let offs := (List.range ((d.length - 20) / recBytes)).map fun k => 20 + k * recBytes
  if d.length < 20 then none
  else if Mem.rd32 m 0 ≠ tag then none
  else if recBytes = 0 then none
  -- `struct.unpack` wants 28 bytes of every record
  else if offs.all fun a => decide (a + 28 ≤ d.length) then
    some ⟨Mem.rd32 m 8, Mem.rd32 m 12, Mem.rd32 m 16, offs.map (unpackRec m)⟩
  else none

/-- The request; a number of more than 32 bits cannot be packed. -/
def request (want : Nat) : Option (List UInt8) :=
  if want < 2 ^ 32 then some (0x74 :: Mem.be32 want) else none

/-- What the host knows of the stream, in order. -/
inductive Note
  | got (r : HostRec)
  /-- The numbers from `lo` up to `hi` are lost. -/
  | gap (lo hi : Nat)
  deriving DecidableEq

/-! ## Pushes and drains -/

inductive Event
  | push (d : TelemData)
  /-- The host asks; the reply may be lost. -/
  | drain (arrives : Bool)

def Event.isPush : Event → Bool
  | .push _ => true
  | .drain _ => false

/-- The ring, the host, and what has happened. -/
structure Session where
  device : Device
  /-- What the host asks for next. -/
  want : Nat
  notes : List Note
  /-- The records pushed so far; the first one has number 1. -/
  pushed : List TelemData
  /-- How many records were overwritten that the host had not received. -/
  lost : Nat

def Session.boot : Session :=
  { device := Device.boot, want := 0, notes := [], pushed := [], lost := 0 }

namespace Session

variable (s : Session)

/-- The numbers of the records the host has received. -/
def received : List Nat :=
  s.notes.filterMap fun note =>
    match note with
    | .got r => some r.seq
    | .gap _ _ => none

/-- The next push overwrites a record that the host has not received. -/
def Loses : Prop := (overwritten s.device).seq ≠ 0 ∧ (overwritten s.device).seq ∉ s.received

instance : Decidable (Loses s) := inferInstanceAs (Decidable (_ ∧ _))

def push (d : TelemData) : Session :=
  { s with
    device := telemPush s.device d
    pushed := s.pushed ++ [d]
    lost := if s.Loses then s.lost + 1 else s.lost }

/-- What `oldest` tells a host that has everything before `want`.  The tool prints this range, once
it has received anything at all. -/
def missing (oldest : Nat) : List Note :=
  if max s.want 1 < oldest then [.gap (max s.want 1) oldest] else []

/-- The host takes a reply: what is missing, then the records, asking next for the number after the
last one. -/
def hear (r : Reply) : Session :=
  { s with
    notes := s.notes ++ s.missing r.oldest ++ r.recs.map .got
    want := r.recs.foldl (fun _ x => x.seq + 1) s.want }

/-- A drain, from the request to the reply. -/
def drain (arrives : Bool) : Session :=
  match request s.want with
  | none => s
  | some req =>
      if arrives then
        match parseReply (telemRx s.device req) with
        | none => s
        | some r => s.hear r
      else s

end Session

def step (s : Session) : Event → Session
  | .push d => s.push d
  | .drain arrives => s.drain arrives

/-! ## The bytes of a reply -/

theorem length_be32 (v : Nat) : (Mem.be32 v).length = 4 := rfl

theorem length_bytes (r : TelemRec) : r.bytes.length = telemRecBytes := rfl

theorem s32_toNat (x : Int32) : s32 x.toUInt32.toNat = x.toInt := by
  have hcond := BitVec.toInt_eq_toNat_cond x.toBitVec
  have hbits : x.toUInt32.toNat = x.toBitVec.toNat := rfl
  have hint : x.toInt = x.toBitVec.toInt := rfl
  rw [hint, hcond, s32, hbits]
  split <;> split <;> omega

/-- The three fields of the packed word. -/
theorem packed_eq (a b : UInt8) (c : UInt16) :
    a.toNat <<< 24 ||| b.toNat <<< 16 ||| c.toNat =
      a.toNat * 2 ^ 24 + b.toNat * 2 ^ 16 + c.toNat := by
  have hb := b.toNat_lt
  have hc := c.toNat_lt
  have hlow : b.toNat <<< 16 ||| c.toNat = b.toNat * 2 ^ 16 + c.toNat := by
    rw [← Nat.shiftLeft_add_eq_or_of_lt hc, Nat.shiftLeft_eq]
  rw [Nat.or_assoc, hlow, ← Nat.shiftLeft_add_eq_or_of_lt (by omega), Nat.shiftLeft_eq]
  omega

/-- A record as it should arrive. -/
def TelemRec.seen (r : TelemRec) : HostRec :=
  { seq := r.seq
    tMs := r.data.tMs.toNat
    type := r.data.type.toNat
    flags := r.data.flags.toNat
    aux := r.data.aux.toNat
    v0 := r.data.v0.toInt
    v1 := r.data.v1.toInt
    v2 := r.data.v2.toInt
    v3 := r.data.v3.toInt }

/-- A record of the reply is read as it was written. -/
theorem unpackRec_bytes {d : List UInt8} {a : Nat} {r : TelemRec} (h : At d a r.bytes)
    (hseq : r.seq < 2 ^ 32) : unpackRec (fun k => d.getD k 0) a = r.seen := by
  obtain ⟨h, hv3⟩ := At.append_iff.1 h
  obtain ⟨h, hv2⟩ := At.append_iff.1 h
  obtain ⟨h, hv1⟩ := At.append_iff.1 h
  obtain ⟨h, hv0⟩ := At.append_iff.1 h
  obtain ⟨h, hpacked⟩ := At.append_iff.1 h
  obtain ⟨hnum, htime⟩ := At.append_iff.1 h
  have htype := r.data.type.toNat_lt
  have hflags := r.data.flags.toNat_lt
  have haux := r.data.aux.toNat_lt
  rw [packed_eq] at hpacked
  have hword : Mem.rd32 (fun k => d.getD k 0) (a + 8) =
      r.data.type.toNat * 2 ^ 24 + r.data.flags.toNat * 2 ^ 16 + r.data.aux.toNat :=
    hpacked.rd32 (by omega)
  have h3 : Mem.rd32 (fun k => d.getD k 0) (a + 24) = r.data.v3.toUInt32.toNat :=
    hv3.rd32 (UInt32.toNat_lt _)
  have h2 : Mem.rd32 (fun k => d.getD k 0) (a + 20) = r.data.v2.toUInt32.toNat :=
    hv2.rd32 (UInt32.toNat_lt _)
  have h1 : Mem.rd32 (fun k => d.getD k 0) (a + 16) = r.data.v1.toUInt32.toNat :=
    hv1.rd32 (UInt32.toNat_lt _)
  have h0 : Mem.rd32 (fun k => d.getD k 0) (a + 12) = r.data.v0.toUInt32.toNat :=
    hv0.rd32 (UInt32.toNat_lt _)
  have ht : Mem.rd32 (fun k => d.getD k 0) (a + 4) = r.data.tMs.toNat :=
    htime.rd32 (UInt32.toNat_lt _)
  have hmask : ∀ n : Nat, n &&& 0xFFFF = n % 2 ^ 16 := fun n => Nat.and_two_pow_sub_one_eq_mod n 16
  have hbyte : ∀ n : Nat, n &&& 0xFF = n % 2 ^ 8 := fun n => Nat.and_two_pow_sub_one_eq_mod n 8
  rw [unpackRec, hnum.rd32 hseq, ht, hword, h0, h1, h2, h3, s32_toNat, s32_toNat, s32_toNat,
    s32_toNat, hmask, hbyte, Nat.shiftRight_eq_div_pow, Nat.shiftRight_eq_div_pow]
  rw [TelemRec.seen, HostRec.mk.injEq]
  refine ⟨rfl, rfl, ?_, ?_, ?_, rfl, rfl, rfl, rfl⟩ <;> omega

/-- The records of a reply lie behind one another. -/
theorem at_records : ∀ (recs : List TelemRec) (front : List UInt8) {k : Nat} (hk : k < recs.length),
    At (front ++ recs.flatMap TelemRec.bytes) (front.length + k * telemRecBytes)
      (recs.get ⟨k, hk⟩).bytes
  | r :: recs, front, 0, _ => by
      rw [List.flatMap_cons, ← List.append_assoc, Nat.zero_mul, Nat.add_zero]
      exact (At.of_append front r.bytes).keeps (Keeps.append 0 _ _) (Nat.zero_le _)
  | r :: recs, front, k + 1, hk => by
      have hrest := at_records recs (front ++ r.bytes) (k := k) (Nat.lt_of_succ_lt_succ hk)
      rw [List.length_append, length_bytes, Nat.add_assoc, Nat.add_comm telemRecBytes,
        ← Nat.succ_mul, List.append_assoc, ← List.flatMap_cons] at hrest
      exact hrest

theorem length_records (recs : List TelemRec) :
    (recs.flatMap TelemRec.bytes).length = recs.length * telemRecBytes := by
  induction recs with
  | nil => rfl
  | cons r recs ih =>
      rw [List.flatMap_cons, List.length_append, length_bytes, ih, List.length_cons, Nat.succ_mul,
        Nat.add_comm]

/-- The tool takes a reply apart into what the device put in. -/
theorem parseReply_of_header {old next dropped : Nat} {recs : List TelemRec} (hold : old < 2 ^ 32)
    (hnext : next < 2 ^ 32) (hdropped : dropped < 2 ^ 32) (hrecs : ∀ r ∈ recs, r.seq < 2 ^ 32) :
    parseReply (Mem.be32 tag ++ Mem.be32 telemRecBytes ++ Mem.be32 old ++ Mem.be32 next ++
        Mem.be32 dropped ++ recs.flatMap TelemRec.bytes) =
      some ⟨old, next, dropped, recs.map TelemRec.seen⟩ := by
  set front := Mem.be32 tag ++ Mem.be32 telemRecBytes ++ Mem.be32 old ++ Mem.be32 next ++
    Mem.be32 dropped with hfront
  have hhead : At (front ++ recs.flatMap TelemRec.bytes) 0 front :=
    At.of_prefix (List.prefix_append _ _)
  rw [hfront] at hhead
  obtain ⟨h, hcount⟩ := At.append_iff.1 hhead
  obtain ⟨h, hnum⟩ := At.append_iff.1 h
  obtain ⟨h, hlow⟩ := At.append_iff.1 h
  obtain ⟨htag, hsize⟩ := At.append_iff.1 h
  rw [← hfront] at htag hsize hlow hnum hcount
  have hlen : (front ++ recs.flatMap TelemRec.bytes).length = 20 + recs.length * 28 := by
    rw [List.length_append, length_records]
    rfl
  have hdiv : (20 + recs.length * 28 - 20) / 28 = recs.length := by omega
  have hat := fun {k : Nat} (hk : k < recs.length) => at_records recs front hk
  generalize front ++ recs.flatMap TelemRec.bytes = d at *
  have hsize' : Mem.rd32 (fun k => d.getD k 0) 4 = 28 := hsize.rd32 (by decide)
  have htag' : Mem.rd32 (fun k => d.getD k 0) 0 = tag := htag.rd32 (by decide)
  rw [parseReply, hsize', hlen, hdiv, if_neg (by omega), if_neg (fun h => h htag'),
    if_neg (by decide), if_pos]
  · have hold' : Mem.rd32 (fun k => d.getD k 0) 8 = old := hlow.rd32 hold
    have hnext' : Mem.rd32 (fun k => d.getD k 0) 12 = next := hnum.rd32 hnext
    have hdropped' : Mem.rd32 (fun k => d.getD k 0) 16 = dropped := hcount.rd32 hdropped
    rw [hold', hnext', hdropped', Option.some_inj, Reply.mk.injEq]
    refine ⟨rfl, rfl, rfl, List.ext_getElem (by simp) fun k hk hk' => ?_⟩
    have hlt : k < recs.length := by simpa using hk'
    rw [List.getElem_map, List.getElem_map, List.getElem_range, List.getElem_map]
    exact unpackRec_bytes (hat hlt) (hrecs _ (List.getElem_mem hlt))
  · rw [List.all_eq_true]
    intro a ha
    obtain ⟨k, hk, rfl⟩ := List.mem_map.1 ha
    have hlt := List.mem_range.1 hk
    rw [decide_eq_true_eq]
    omega

/-! ## What the host can account for -/

/-- From number `n` up to `m` the notes account for every record once, in order: it was received as
it was pushed, or it is reported missing and no longer in the ring. -/
def Covers (pushed : List TelemData) (oldest : Nat) : Nat → List Note → Nat → Prop
  | n, [], m => n = m
  | n, .got r :: notes, m =>
      (∃ d, pushed[n - 1]? = some d ∧ r = TelemRec.seen ⟨n, d⟩) ∧
        Covers pushed oldest (n + 1) notes m
  | n, .gap lo hi :: notes, m => lo = n ∧ n < hi ∧ hi ≤ oldest ∧ Covers pushed oldest hi notes m

section Covers

variable {pushed : List TelemData} {old n m k : Nat} {notes notes' : List Note}

theorem Covers.append (h : Covers pushed old n notes m) (h' : Covers pushed old m notes' k) :
    Covers pushed old n (notes ++ notes') k := by
  induction notes generalizing n with
  | nil =>
      cases h
      exact h'
  | cons note notes ih =>
      cases note with
      | got r => exact ⟨h.1, ih h.2⟩
      | gap lo hi => exact ⟨h.1, h.2.1, h.2.2.1, ih h.2.2.2⟩

/-- Later pushes change nothing about earlier records. -/
theorem Covers.push (h : Covers pushed old n notes m) {old' : Nat} (hold : old ≤ old')
    (d : TelemData) : Covers (pushed ++ [d]) old' n notes m := by
  induction notes generalizing n with
  | nil => exact h
  | cons note notes ih =>
      cases note with
      | got r =>
          obtain ⟨⟨x, hx, hr⟩, hrest⟩ := h
          have hlt : n - 1 < pushed.length := (List.getElem?_eq_some_iff.1 hx).1
          exact ⟨⟨x, by rw [List.getElem?_append_left hlt, hx], hr⟩, ih hrest⟩
      | gap lo hi => exact ⟨h.1, h.2.1, Nat.le_trans h.2.2.1 hold, ih h.2.2.2⟩

/-- Consecutive records. -/
theorem Covers.records (entry : Nat → TelemRec) : ∀ (cnt n : Nat),
    (∀ x, n ≤ x → x < n + cnt → ∃ d, pushed[x - 1]? = some d ∧ entry x = ⟨x, d⟩) →
      Covers pushed old n (((List.range' n cnt).map entry).map fun r => .got r.seen) (n + cnt)
  | 0, n, _ => rfl
  | cnt + 1, n, h => by
      obtain ⟨d, hd, hrec⟩ := h n (Nat.le_refl n) (by omega)
      have hrest := Covers.records entry cnt (n + 1) fun x hx hlt => h x (by omega) (by omega)
      rw [show n + (cnt + 1) = n + 1 + cnt by omega]
      exact ⟨⟨d, hd, by rw [hrec]⟩, hrest⟩

end Covers

/-! ## The invariant -/

/-- The records with their numbers. -/
def numbered (pushed : List TelemData) : List TelemRec := pushed.mapIdx fun k d => ⟨k + 1, d⟩

structure Consistent (s : Session) : Prop where
  next : s.device.nextSeq = s.pushed.length + 1
  small : s.device.nextSeq < 2 ^ 32
  ring : Ring.Holds telemRingRecs 1 TelemRec.zero s.device.ring (numbered s.pushed)
  /-- Every record that is overwritten counts. -/
  dropped : s.device.dropped = s.pushed.length - telemRingRecs
  want : s.want ≤ s.device.nextSeq
  covers : Covers s.pushed (oldest s.device) 1 s.notes (max s.want 1)

theorem consistent_boot : Consistent Session.boot :=
  { next := rfl
    small := by decide
    ring := Ring.Holds.start _ _ _
    dropped := rfl
    want := Nat.zero_le _
    covers := rfl }

section Invariant

variable {s : Session}

theorem oldest_pos (t : Device) : 1 ≤ oldest t := by
  rw [oldest]
  split <;> omega

theorem length_numbered (pushed : List TelemData) : (numbered pushed).length = pushed.length :=
  List.length_mapIdx

/-- A record that is not yet overwritten. -/
theorem Consistent.entry (h : Consistent s) {n : Nat} (hlow : oldest s.device ≤ n)
    (hn : n < s.device.nextSeq) :
    ∃ d, s.pushed[n - 1]? = some d ∧ s.device.ring (n % telemRingRecs) = ⟨n, d⟩ := by
  have hnext := h.next
  have hpos := oldest_pos s.device
  have hold : s.device.nextSeq ≤ n + telemRingRecs := by
    rw [oldest] at hlow
    split at hlow <;> omega
  have hlt : n - 1 < s.pushed.length := by omega
  have hentry := h.ring.entry (k := n - 1) (by rw [length_numbered]; exact hlt)
    (by rw [length_numbered]; omega)
  refine ⟨s.pushed[n - 1], List.getElem?_eq_getElem hlt, ?_⟩
  rw [show 1 + (n - 1) = n by omega] at hentry
  rw [hentry]
  simp only [numbered, List.get_eq_getElem, List.getElem_mapIdx]
  rw [Nat.sub_add_cancel (by omega)]

/-- The record that the next push overwrites is the one pushed a round before. -/
theorem Consistent.overwritten_seq (h : Consistent s) :
    (overwritten s.device).seq =
      if telemRingRecs ≤ s.pushed.length then s.device.nextSeq - telemRingRecs else 0 := by
  have hnext := h.ring.next (by decide)
  rw [length_numbered, Nat.add_comm, ← h.next] at hnext
  rw [overwritten, hnext]
  split
  · rename_i hfull
    have hlt : s.pushed.length - telemRingRecs < (numbered s.pushed).length := by
      rw [length_numbered]
      exact Nat.sub_lt (Nat.lt_of_lt_of_le (by decide) hfull) (by decide)
    rw [List.getD_eq_getElem _ _ hlt]
    simp only [numbered, List.getElem_mapIdx]
    rw [h.next, Nat.succ_sub hfull]
  · rfl

/-! ## A drain -/

theorem drainLoop_eq {t : Device} : ∀ (fuel want emitted : Nat), fuel = t.nextSeq - want →
    (∀ n, want ≤ n → n < t.nextSeq → (t.ring (n % telemRingRecs)).seq = n) →
      drainLoop t fuel want emitted =
        (List.range' want (min fuel (telemMaxPerReply - emitted))).map fun n =>
          t.ring (n % telemRingRecs)
  | 0, want, emitted, _, _ => by
      rw [Nat.zero_min]
      rfl
  | fuel + 1, want, emitted, hfuel, hring => by
      rw [drainLoop]
      by_cases hroom : emitted < telemMaxPerReply
      · have hcnt : min (fuel + 1) (telemMaxPerReply - emitted) =
            min fuel (telemMaxPerReply - (emitted + 1)) + 1 := by omega
        rw [if_pos ⟨by omega, hroom⟩, if_neg (not_not.2 (hring want (Nat.le_refl _) (by omega))),
          hcnt, List.range'_succ, List.map_cons,
          drainLoop_eq fuel (want + 1) (emitted + 1) (by omega) fun n hn => hring n (by omega)]
      · have hcnt : min (fuel + 1) (telemMaxPerReply - emitted) = 0 := by omega
        rw [if_neg fun h => hroom h.2, hcnt]
        rfl

/-- The number the next reply starts with. -/
def head (s : Session) : Nat := max s.want (oldest s.device)

/-- How many records the next reply carries. -/
def batch (s : Session) : Nat := min (s.device.nextSeq - head s) telemMaxPerReply

theorem Consistent.oldest_le (h : Consistent s) : oldest s.device ≤ s.device.nextSeq := by
  have hnext := h.next
  rw [oldest]
  split <;> omega

theorem Consistent.drained_eq (h : Consistent s) :
    drained s.device s.want =
      (List.range' (head s) (batch s)).map fun n => s.device.ring (n % telemRingRecs) := by
  have hhead : (if s.want < oldest s.device then oldest s.device else s.want) = head s := by
    rw [head]
    split <;> omega
  rw [drained, hhead, drainLoop_eq _ _ _ rfl]
  · rfl
  · intro n hlow hn
    obtain ⟨d, -, hrec⟩ := h.entry (Nat.le_trans (Nat.le_max_right _ _) hlow) hn
    rw [hrec]

theorem wanted_request {want : Nat} (h : want < 2 ^ 32) :
    wanted (0x74 :: Mem.be32 want) = want := by
  have hat : At (0x74 :: Mem.be32 want) 1 (Mem.be32 want) := At.of_append [0x74] (Mem.be32 want)
  rw [wanted, if_pos (by simp [length_be32])]
  exact hat.rd32 h

theorem Consistent.drain_true (h : Consistent s) :
    s.drain true =
      s.hear ⟨oldest s.device, s.device.nextSeq, s.device.dropped,
        ((List.range' (head s) (batch s)).map fun n =>
          s.device.ring (n % telemRingRecs)).map TelemRec.seen⟩ := by
  have hwant : s.want < 2 ^ 32 := Nat.lt_of_le_of_lt h.want h.small
  have hold : oldest s.device < 2 ^ 32 := Nat.lt_of_le_of_lt h.oldest_le h.small
  have hdropped : s.device.dropped < 2 ^ 32 := by
    have hnext := h.next
    have hsmall := h.small
    rw [h.dropped]
    omega
  have hrecs : ∀ r ∈ (List.range' (head s) (batch s)).map fun n =>
      s.device.ring (n % telemRingRecs), r.seq < 2 ^ 32 := by
    intro r hr
    obtain ⟨n, hn, rfl⟩ := List.mem_map.1 hr
    obtain ⟨hlow, hhigh⟩ := List.mem_range'_1.1 hn
    have hlt : n < s.device.nextSeq := by
      rw [batch] at hhigh
      omega
    obtain ⟨d, -, hrec⟩ := h.entry (Nat.le_trans (Nat.le_max_right _ _) hlow) hlt
    rw [hrec]
    exact Nat.lt_trans hlt h.small
  have hparse := parseReply_of_header hold h.small hdropped hrecs
  rw [Session.drain, request, if_pos hwant]
  simp only [if_true]
  rw [telemRx, wanted_request hwant, h.drained_eq, hparse]

/-- Where the host stands after a reply of consecutive records. -/
theorem want_after (entry : Nat → TelemRec) : ∀ (cnt n want : Nat),
    (∀ x, n ≤ x → x < n + cnt → (entry x).seq = x) →
      (((List.range' n cnt).map entry).map TelemRec.seen).foldl (fun _ x => x.seq + 1) want =
        if cnt = 0 then want else n + cnt
  | 0, _, _, _ => rfl
  | cnt + 1, n, want, h => by
      have hrest := want_after entry cnt (n + 1) (n + 1) fun x hx hlt =>
        h x (by omega) (by omega)
      have hseq : (entry n).seen.seq = n := h n (Nat.le_refl n) (by omega)
      rw [List.range'_succ, List.map_cons, List.map_cons, List.foldl_cons, hseq, hrest,
        if_neg (Nat.succ_ne_zero cnt)]
      split <;> omega

/-- Behind the host's number stand the records of the next batch. -/
theorem Consistent.batch_entry (h : Consistent s) (n : Nat) (hlow : head s ≤ n)
    (hn : n < head s + batch s) :
    ∃ d, s.pushed[n - 1]? = some d ∧ s.device.ring (n % telemRingRecs) = ⟨n, d⟩ := by
  refine h.entry (Nat.le_trans (Nat.le_max_right _ _) hlow) ?_
  rw [batch] at hn
  omega

/-- After a reply the host stands behind the batch. -/
theorem Consistent.want_drain (h : Consistent s) :
    max (s.drain true).want 1 = head s + batch s := by
  have hpos := oldest_pos s.device
  have hwant := h.want
  have hnext := h.next
  have hafter : (s.drain true).want = if batch s = 0 then s.want else head s + batch s := by
    rw [h.drain_true]
    refine want_after _ (batch s) (head s) s.want fun n hlow hn => ?_
    rcases h.batch_entry n hlow hn with ⟨d, -, hrec⟩
    rw [hrec]
  have hmaxrep : telemMaxPerReply = 16 := rfl
  have hring : telemRingRecs = 96 := rfl
  have hdef : batch s = min (s.device.nextSeq - head s) telemMaxPerReply := rfl
  have holddef : oldest s.device =
      if telemRingRecs < s.device.nextSeq then s.device.nextSeq - telemRingRecs else 1 := rfl
  have hheaddef : head s = max s.want (oldest s.device) := rfl
  rw [hafter]
  split
  · -- nothing was left to send
    split at holddef <;> omega
  · omega

/-- What is noted as missing is what lies between the host's number and the batch. -/
theorem covers_missing (s : Session) :
    Covers s.pushed (oldest s.device) (max s.want 1) (s.missing (oldest s.device)) (head s) := by
  have hpos := oldest_pos s.device
  have hhead : max (max s.want 1) (oldest s.device) = head s := by
    rw [head]
    omega
  rw [Session.missing, ← hhead]
  split
  · rename_i hgap
    exact ⟨rfl, hgap, Nat.le_refl _, (Nat.max_eq_right (Nat.le_of_lt hgap)).symm⟩
  · rename_i hgap
    exact (Nat.max_eq_left (Nat.le_of_not_lt hgap)).symm

/-- An answered drain extends what the host accounts for by the next batch. -/
theorem Consistent.hear (h : Consistent s) :
    Consistent (s.drain true) ∧ (s.drain true).device = s.device ∧
      max (s.drain true).want 1 = head s + batch s := by
  have hmax := h.want_drain
  have hcovers : Covers s.pushed (oldest s.device) 1 (s.drain true).notes (head s + batch s) := by
    rw [h.drain_true, Session.hear]
    dsimp only
    rw [List.map_map]
    exact (h.covers.append (covers_missing s)).append
      (Covers.records _ (batch s) (head s) h.batch_entry)
  have hdevice : (s.drain true).device = s.device := by
    rw [h.drain_true]
    rfl
  have hpushed : (s.drain true).pushed = s.pushed := by
    rw [h.drain_true]
    rfl
  refine ⟨⟨?_, ?_, ?_, ?_, ?_, ?_⟩, hdevice, hmax⟩
  · rw [hdevice, hpushed]
    exact h.next
  · rw [hdevice]
    exact h.small
  · rw [hdevice, hpushed]
    exact h.ring
  · rw [hdevice, hpushed]
    exact h.dropped
  · have hle : head s ≤ s.device.nextSeq := Nat.max_le.2 ⟨h.want, h.oldest_le⟩
    rw [hdevice]
    rw [batch] at hmax
    omega
  · rw [hdevice, hpushed, hmax]
    exact hcovers

theorem Consistent.drain (h : Consistent s) (arrives : Bool) : Consistent (s.drain arrives) := by
  cases arrives with
  | true => exact h.hear.1
  | false =>
      rw [Session.drain]
      split
      · exact h
      · exact h

/-- A push short of the last number keeps the invariant, and counts if it overwrites a record. -/
theorem Consistent.push (h : Consistent s) (hsmall : s.device.nextSeq + 1 < 2 ^ 32)
    (d : TelemData) : Consistent (s.push d) := by
  have hnext := h.next
  have hring : telemRingRecs = 96 := rfl
  have hseq := h.overwritten_seq
  have hnum : (s.push d).device.nextSeq = s.device.nextSeq + 1 := Nat.mod_eq_of_lt hsmall
  have hlen : (s.push d).pushed.length = s.pushed.length + 1 := List.length_append
  have hold : oldest s.device ≤ oldest (s.push d).device := by
    rw [oldest, oldest, hnum]
    split <;> split <;> omega
  refine ⟨?_, ?_, ?_, ?_, ?_, ?_⟩
  · rw [hnum, hlen, hnext]
  · rw [hnum]
    exact hsmall
  · have hpush := h.ring.push ⟨s.device.nextSeq, d⟩
    rw [length_numbered, Nat.add_comm, ← hnext] at hpush
    have hlast : numbered (s.pushed ++ [d]) = numbered s.pushed ++ [⟨s.device.nextSeq, d⟩] := by
      rw [numbered, numbered, List.mapIdx_concat, hnext]
    show Ring.Holds telemRingRecs 1 TelemRec.zero _ (numbered (s.pushed ++ [d]))
    rw [hlast]
    exact hpush
  · have hdropped := h.dropped
    show (telemPush s.device d).dropped = _
    rw [hlen, telemPush]
    dsimp only
    rw [hseq, hdropped]
    split at hseq
    · rename_i hfull
      rw [if_pos hfull, if_pos (by omega)]
      omega
    · rename_i hfew
      rw [if_neg hfew, if_neg (by omega)]
      omega
  · have hwant := h.want
    show s.want ≤ _
    omega
  · exact h.covers.push hold d

theorem Consistent.step (h : Consistent s) {e : Event}
    (he : ∀ d, e = .push d → s.device.nextSeq + 1 < 2 ^ 32) : Consistent (step s e) := by
  cases e with
  | push d => exact h.push (he d rfl) d
  | drain arrives => exact h.drain arrives

/-- Answered drains in a row, with nothing pushed in between. -/
theorem Consistent.drains (h : Consistent s) : ∀ k : Nat,
    Consistent (run Telem.step s (List.replicate k (.drain true))) ∧
      (run Telem.step s (List.replicate k (.drain true))).device = s.device ∧
      min s.device.nextSeq (oldest s.device + telemMaxPerReply * k) ≤
        max (max (run Telem.step s (List.replicate k (.drain true))).want 1) (oldest s.device)
  | 0 => ⟨h, rfl, by rw [Nat.mul_zero]; omega⟩
  | k + 1 => by
      obtain ⟨hk, hdevice, hreach⟩ := h.drains k
      rw [List.replicate_succ', run_concat]
      generalize run Telem.step s (List.replicate k (.drain true)) = s' at hk hdevice hreach ⊢
      obtain ⟨hnext, hsame, hmax⟩ := hk.hear
      refine ⟨hnext, hsame.trans hdevice, ?_⟩
      have hrep : telemMaxPerReply = 16 := rfl
      have hcap := hnext.oldest_le
      show min s.device.nextSeq _ ≤ max (max (s'.drain true).want 1) _
      rw [hsame, hdevice] at hcap
      rw [hmax, head, batch, head, hdevice]
      rw [hrep] at hreach ⊢
      omega

theorem Consistent.catchesUp (h : Consistent s) :
    max (run Telem.step s (List.replicate 6 (.drain true))).want 1 = s.device.nextSeq := by
  obtain ⟨hk, hdevice, hreach⟩ := h.drains 5
  rw [List.replicate_succ', run_concat]
  generalize run Telem.step s (List.replicate 5 (.drain true)) = s' at hk hdevice hreach ⊢
  obtain ⟨hnext, hsame, hmax⟩ := hk.hear
  have hwant := hnext.want
  have hpos := h.next
  have holddef : oldest s.device =
      if telemRingRecs < s.device.nextSeq then s.device.nextSeq - telemRingRecs else 1 := rfl
  have hring : telemRingRecs = 96 := rfl
  have hrep : telemMaxPerReply = 16 := rfl
  have hcap := h.oldest_le
  rw [hsame, hdevice] at hwant
  rw [head, batch, head, hdevice, hrep] at hmax
  rw [hrep] at hreach
  show max (s'.drain true).want 1 = _
  rw [hmax]
  split at holddef <;> omega

end Invariant

/-! ## The stream -/

/-- What the host and the counter promise. -/
structure Accounted (s : Session) : Prop where
  covers : Covers s.pushed (oldest s.device) 1 s.notes (max s.want 1)
  /-- Six answered drains in a row bring the host up to date. -/
  catchesUp : max (run step s (List.replicate 6 (.drain true))).want 1 = s.device.nextSeq
  dropped : s.device.dropped = s.lost

/-- The step pushes no number past the last one, and overwrites no record the host has received. -/
def CountsRight (s : Session) : Event → Prop
  | .push _ => s.device.nextSeq + 1 < 2 ^ 32 ∧
      ((overwritten s.device).seq ≠ 0 → (overwritten s.device).seq ∉ s.received)
  | .drain _ => True

instance (s : Session) : ∀ e, Decidable (CountsRight s e)
  | .push _ => inferInstanceAs (Decidable (_ ∧ _))
  | .drain _ => inferInstanceAs (Decidable True)

section Stream

variable {s : Session}

/-- The host's part of the promise holds as long as the numbers last. -/
theorem accounted_iff (h : Consistent s) : Accounted s ↔ s.device.dropped = s.lost :=
  ⟨Accounted.dropped, fun hdropped => ⟨h.covers, h.catchesUp, hdropped⟩⟩

theorem accounted_boot : Accounted Session.boot := (accounted_iff consistent_boot).2 rfl

theorem lost_drain (arrives : Bool) : (s.drain arrives).lost = s.lost := by
  rw [Session.drain]
  split
  · rfl
  · split
    · split <;> rfl
    · rfl

/-- A drain leaves the ring alone. -/
theorem device_drain (arrives : Bool) : (s.drain arrives).device = s.device := by
  rw [Session.drain]
  split
  · rfl
  · split
    · split <;> rfl
    · rfl

/-- A host that can catch up has not seen the numbers wrap. -/
theorem small_of_accounted (h : Consistent s) {d : TelemData} (hnext : Accounted (s.push d)) :
    s.device.nextSeq + 1 < 2 ^ 32 := by
  have hcatch := hnext.catchesUp
  have hsmall := h.small
  have hnum : (s.push d).device.nextSeq = (s.device.nextSeq + 1) % 2 ^ 32 := rfl
  rw [hnum] at hcatch
  omega

theorem accounted_push_iff (h : Consistent s) (hacc : Accounted s)
    (hsmall : s.device.nextSeq + 1 < 2 ^ 32) (d : TelemData) :
    Accounted (s.push d) ↔
      ((overwritten s.device).seq ≠ 0 → (overwritten s.device).seq ∉ s.received) := by
  have hpush := h.push hsmall d
  have hdropped := hpush.dropped
  have hbefore := h.dropped.symm.trans hacc.dropped
  have hseq := h.overwritten_seq
  have hnext := h.next
  have hlen : (s.push d).pushed.length = s.pushed.length + 1 := List.length_append
  have hlost : (s.push d).lost = if s.Loses then s.lost + 1 else s.lost := rfl
  have hring : telemRingRecs = 96 := rfl
  rw [accounted_iff hpush, hdropped, hlen, hlost]
  split at hseq
  · -- the ring is full
    have hne : (overwritten s.device).seq ≠ 0 := by omega
    split
    · rename_i hloses
      exact iff_of_true (by omega) fun _ => hloses.2
    · rename_i hkeeps
      exact iff_of_false (by omega) fun hnot => hkeeps ⟨hne, hnot hne⟩
  · have hloses : ¬ s.Loses := fun hloses => hloses.1 hseq
    rw [if_neg hloses]
    exact iff_of_true (by omega) fun hne => absurd hseq hne

theorem accounted_step_iff (h : Consistent s) (hacc : Accounted s) (e : Event) :
    Accounted (step s e) ↔ CountsRight s e := by
  cases e with
  | push d =>
      constructor
      · intro hnext
        have hsmall := small_of_accounted h hnext
        exact ⟨hsmall, (accounted_push_iff h hacc hsmall d).1 hnext⟩
      · rintro ⟨hsmall, hnot⟩
        exact (accounted_push_iff h hacc hsmall d).2 hnot
  | drain arrives =>
      refine iff_of_true ((accounted_iff (h.drain arrives)).2 ?_) trivial
      rw [device_drain, lost_drain]
      exact hacc.dropped

theorem consistent_step (h : Consistent s) {e : Event} (hnext : Accounted (step s e)) :
    Consistent (step s e) :=
  h.step fun _ he => small_of_accounted h (he ▸ hnext)

end Stream

/-- The host accounts for every record and the counter for every loss, throughout a run, iff no push
overwrites a record that the host has received, and the numbers last. -/
theorem accounted_iff_countsRight (es : List Event) :
    (∀ t ≤ es.length, Accounted (moment step Session.boot es t)) ↔
      Along step CountsRight Session.boot es :=
  kept_iff_along (fun _ _ h _ hnext => consistent_step h hnext)
    (fun _ e h hacc => accounted_step_iff h hacc e) es consistent_boot accounted_boot

/-- The host accounts for every record as long as the numbers last, whatever the counter says. -/
theorem consistent_run : ∀ (es : List Event) {s : Session}, Consistent s →
    s.device.nextSeq + es.countP Event.isPush < 2 ^ 32 → Consistent (run step s es)
  | [], _, h, _ => h
  | .push d :: es, s, h, hes => by
      rw [List.countP_cons_of_pos rfl] at hes
      have hsmall : s.device.nextSeq + 1 < 2 ^ 32 := by omega
      have hnum : (step s (.push d)).device.nextSeq = s.device.nextSeq + 1 :=
        Nat.mod_eq_of_lt hsmall
      exact consistent_run es (h.push hsmall d) (by rw [hnum]; omega)
  | .drain arrives :: es, s, h, hes => by
      have hsame : (step s (.drain arrives)).device = s.device := device_drain arrives
      rw [List.countP_cons_of_neg (by simp [Event.isPush])] at hes
      exact consistent_run es (h.drain arrives) (by rw [hsame]; exact hes)

/-- A full ring that was drained, and one more push: nothing is lost, and one record is counted. -/
def drainedRun : List Event :=
  List.replicate telemRingRecs (.push TelemRec.zero.data) ++ List.replicate 6 (.drain true) ++
    [.push TelemRec.zero.data]

theorem dropped_counts_received :
    ¬ ∀ es t, t ≤ es.length → Accounted (moment step Session.boot es t) := by
  intro h
  have hdropped := (h drainedRun drainedRun.length (Nat.le_refl _)).dropped
  rw [moment_length] at hdropped
  revert hdropped
  decide +kernel

end Telem
end Firmware
end InfernoFpga
