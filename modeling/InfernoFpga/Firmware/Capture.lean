import InfernoFpga.Firmware.UdpRoundTrip
import InfernoFpga.Lib.Ring
import InfernoFpga.Lib.Run
import InfernoFpga.Lib.Segment

/-!
# Capture — the control-plane capture and the tool that fetches it

Every frame that passes the board in either direction is offered to a ring of 128 entries, which
keeps the start of the unicast ones that are worth it.  A datagram to port 7778 makes the board ship
the ring, two entries a datagram; the frames of the dump pass the same filter, and it keeps none of
them.  What the tool puts together is the end of what was kept.
-/

namespace InfernoFpga
namespace Firmware
namespace Capture

open Lib

abbrev capN : Nat := 128
abbrev capBytes : Nat := 256
abbrev capOutPort : UInt16 := 9997

/-! ## The filter -/

section Filter

variable (f : List UInt8)

/-- `14 + ihl`. -/
def udpOff : Nat := 14 + ((f.getD 14 0) &&& 0x0F).toNat * 4

/-- A 16-bit field of a frame. -/
def field (a : Nat) : Nat := Mem.rd16 (fun k => f.getD k 0) a

def isIpv4 : Bool := f.getD 12 0 == 0x08 && f.getD 13 0 == 0x00

/-- The ports of the control plane. -/
def controlPorts : List Nat := [4440, 8800, 8700, 4455, 319, 320]

def isArcPort : Bool := field f (udpOff f) == 4440 || field f (udpOff f + 2) == 4440

/-- `cap_is_control`. -/
def capIsControl : Bool :=
  if f.length < 42 then false
  else if !isIpv4 f then false
  else if f.getD 23 0 ≠ 17 then false
  else if f.length < udpOff f + 8 then false
  else if !controlPorts.any fun p =>
      field f (udpOff f) == p || field f (udpOff f + 2) == p then false
  else if isArcPort f && decide (udpOff f + 8 + 8 ≤ f.length) &&
      field f (udpOff f + 8 + 6) == 0x4100 then false
  else true

/-- The first test of `cap_record`: a request or reply of ARC opcode `0x4100`. -/
def isStorm : Bool :=
  decide (42 ≤ f.length) && isIpv4 f && f.getD 23 0 == 17 &&
    decide (udpOff f + 16 ≤ f.length) && isArcPort f && field f (udpOff f + 8 + 6) == 0x4100

def isUnicast : Bool := f.getD 0 0 &&& 0x01 == 0

/-- `cap_record` keeps the frame. -/
def capAccepts (dir : UInt8) : Bool :=
  if isStorm f then false
  else if f.length < 34 || !isIpv4 f then false
  else if !(dir == 0 && isUnicast f) && !capIsControl f then false
  else isUnicast f

end Filter

/-! ## The ring -/

/-- `cap_entry_t`; of `data`, the bytes that were stored. -/
structure CapEntry where
  tMs : UInt32
  dir : UInt8
  len : Nat
  caplen : Nat
  data : List UInt8
  deriving DecidableEq

def CapEntry.zero : CapEntry := ⟨0, 0, 0, 0, []⟩

structure Cap where
  ring : Nat → CapEntry
  head : Nat
  total : Nat
  wrapped : Bool

/-- `cap_reset`, and the state at boot. -/
def capReset : Cap := { ring := fun _ => CapEntry.zero, head := 0, total := 0, wrapped := false }

def capEntry (dir : UInt8) (f : List UInt8) (tMs : UInt32) : CapEntry :=
  { tMs := tMs
    dir := dir
    len := f.length % 2 ^ 16
    caplen := if f.length < capBytes then f.length else capBytes
    data := f.take capBytes }

/-- `cap_record`. -/
def capRecord (c : Cap) (dir : UInt8) (f : List UInt8) (tMs : UInt32) : Cap :=
  if capAccepts f dir then
    { ring := Function.update c.ring c.head (capEntry dir f tMs)
      head := (c.head + 1) % capN
      total := (c.total + 1) % 2 ^ 32
      wrapped := if (c.head + 1) % capN = 0 then true else c.wrapped }
  else c

/-! ## The dump -/

def CapEntry.bytes (e : CapEntry) : List UInt8 :=
  Mem.be32 e.tMs.toNat ++ [e.dir] ++ Mem.be16 e.len ++ Mem.be16 e.caplen ++ e.data.take e.caplen

section Dump

variable (c : Cap)

def start : Nat := if c.wrapped then c.head else 0
def count : Nat := if c.wrapped then capN else c.head

/-- The entries of the datagram that begins with entry `i`, of `count` from slot `start` on. -/
def shipped (start count i : Nat) : List CapEntry :=
  ((List.range 2).takeWhile fun k => decide (i + k < count)).map fun k =>
    c.ring ((start + i + k) % capN)

def datagram (start count i : Nat) : List UInt8 :=
  Mem.be32 c.total ++ Mem.be16 i ++ Mem.be16 count ++
    (shipped c start count i).flatMap CapEntry.bytes

end Dump

/-- The frames from `n` to `n'` pass `cap_record` on their way out. -/
def recordSent (c : Cap) (n n' : Net) (tMs : UInt32) : Cap :=
  (n'.sent.drop n.sent.length).foldl (fun c s => capRecord c 1 s.bytes tMs) c

/-- A payload is put into the current slot and committed. -/
def ship (n : Net) (dst : Ip) (payload : List UInt8) : Net :=
  (netUdpCommit (txStore n udpPayloadOff payload) dst capOutPort.toNat capOutPort.toNat
    payload.length netTosBestEffort).1

/-- One turn of the dump: datagram `j`, whose frame passes `cap_record` too. -/
def sendTurn (start count : Nat) (dst : Ip) (tMs : UInt32) (s : Cap × Net) (j : Nat) : Cap × Net :=
  let n' := ship s.2 dst (datagram s.1 start count (2 * j))
  (recordSent s.1 s.2 n' tMs, n')

/-- `cap_send_ring`. -/
def capSendRing (c : Cap) (n : Net) (dst : Ip) (tMs : UInt32) : Cap × Net :=
  (List.range ((count c + 1) / 2)).foldl (sendTurn (start c) (count c) dst tMs) (c, n)

/-- `cap_req_rx`. -/
def capReqRx (c : Cap) (n : Net) (src : Ip) (payload : List UInt8) (tMs : UInt32) : Cap × Net :=
  let s := capSendRing c n src tMs
  if 1 ≤ payload.length ∧ payload.getD 0 0 = 0x72 then (capReset, s.2) else s

/-! ## The tool -/

/-- An entry as the tool sees it. -/
structure HostEntry where
  tMs : Nat
  dir : Nat
  len : Nat
  data : List UInt8
  deriving DecidableEq

/-- The loop over a datagram from offset `o`; every turn reads nine bytes at least. -/
def fetchLoop (d : List UInt8) : Nat → Nat → Nat → (Nat → Option HostEntry) →
    Nat → Option HostEntry
  | 0, _, _, entries => entries
  | fuel + 1, o, n, entries =>
      let m : Mem := fun k => d.getD k 0
      if o + 9 ≤ d.length then
        if d.length < o + 9 + Mem.rd16 m (o + 7) then entries
        else
          fetchLoop d fuel (o + 9 + Mem.rd16 m (o + 7)) (n + 1)
            (Function.update entries n (some
              { tMs := Mem.rd32 m o
                dir := (m (o + 4)).toNat
                len := Mem.rd16 m (o + 5)
                data := (d.drop (o + 9)).take (Mem.rd16 m (o + 7)) }))
      else entries

/-- What a datagram adds to the entries. -/
def takeDatagram (entries : Nat → Option HostEntry) (d : List UInt8) : Nat → Option HostEntry :=
  if d.length < 8 then entries
  else fetchLoop d d.length 8 (Mem.rd16 (fun k => d.getD k 0) 4) entries

/-- The entries of `cap_fetch.py`, by index. -/
def capFetch (ds : List (List UInt8)) : Nat → Option HostEntry :=
  ds.foldl takeDatagram fun _ => none

/-! ## Runs -/

/-- A frame in a slot of the MAC; its length fits `len`. -/
structure SlotFrame where
  bytes : List UInt8
  fits : bytes.length < 2 ^ 16

/-- A frame that passes, and when. -/
structure Passing where
  dir : UInt8
  frame : SlotFrame
  tMs : UInt32

inductive Event
  | pass (p : Passing)
  /-- A request reaches the handler, with the stack as it is then. -/
  | request (n : Net) (src : Ip) (payload : List UInt8) (tMs : UInt32)
  /-- Key `z` of the console. -/
  | clear

def step (c : Cap) : Event → Cap
  | .pass p => capRecord c p.dir p.frame.bytes p.tMs
  | .request n src payload tMs => (capReqRx c n src payload tMs).1
  | .clear => capReset

/-- The frames kept since the ring was last cleared, by the console or by a request for it. -/
def keptStep (kept : List Passing) : Event → List Passing
  | .pass p => if capAccepts p.frame.bytes p.dir then kept ++ [p] else kept
  | .request _ _ payload _ => if 1 ≤ payload.length ∧ payload.getD 0 0 = 0x72 then [] else kept
  | .clear => []

def Passing.entry (p : Passing) : CapEntry := capEntry p.dir p.frame.bytes p.tMs

/-- A frame as the tool should show it: its true length, and its stored prefix. -/
def Passing.shown (p : Passing) : HostEntry :=
  { tMs := p.tMs.toNat
    dir := p.dir.toNat
    len := p.frame.bytes.length
    data := p.frame.bytes.take capBytes }

/-! ## What the ring holds -/

/-- The ring holds the end of what was kept. -/
structure Held (c : Cap) (kept : List Passing) : Prop where
  ring : Ring.Holds capN 0 CapEntry.zero c.ring (kept.map Passing.entry)
  head : c.head = kept.length % capN
  wrapped : c.wrapped = decide (capN ≤ kept.length)

theorem held_reset : Held capReset [] :=
  ⟨Ring.Holds.start _ _ _, rfl, rfl⟩

section Held

variable {c : Cap} {kept : List Passing}

theorem Held.record (h : Held c kept) (p : Passing) :
    Held (capRecord c p.dir p.frame.bytes p.tMs)
      (if capAccepts p.frame.bytes p.dir then kept ++ [p] else kept) := by
  rw [capRecord]
  split
  · have hpush := h.ring.push p.entry
    rw [List.length_map, Nat.zero_add, ← h.head] at hpush
    have hn : capN = 128 := rfl
    have hhead : (c.head + 1) % capN = (kept ++ [p]).length % capN := by
      rw [h.head, List.length_append, Nat.mod_add_mod]
      rfl
    refine ⟨?_, hhead, ?_⟩
    · rw [List.map_append]
      exact hpush
    · -- the head is back at 0 when a round is full
      show (if (c.head + 1) % capN = 0 then true else c.wrapped) = _
      rw [hhead, h.wrapped, List.length_append, List.length_singleton, hn]
      split
      · exact (decide_eq_true (by omega)).symm
      · rw [decide_eq_decide]
        omega
  · exact h

theorem Held.count_eq (h : Held c kept) : count c = min kept.length capN := by
  have hn : capN = 128 := rfl
  rw [count, h.wrapped, h.head]
  split
  · rename_i hfull
    have hle := of_decide_eq_true hfull
    omega
  · rename_i hfew
    have hlt := of_decide_eq_false (Bool.eq_false_iff.2 hfew)
    rw [Nat.mod_eq_of_lt (by omega)]
    omega

/-- From `start` on, the ring is the end of what was kept. -/
theorem Held.newest (h : Held c kept) :
    (List.range (count c)).map (fun i => c.ring ((start c + i) % capN)) =
      (kept.drop (kept.length - count c)).map Passing.entry := by
  have hn : capN = 128 := rfl
  have hcount := h.count_eq
  have hstart : start c % capN = (0 + ((kept.map Passing.entry).length - count c)) % capN := by
    rw [List.length_map, hcount, start, h.wrapped, h.head, hn]
    split
    · rename_i hfull
      have hle := of_decide_eq_true hfull
      omega
    · rename_i hfew
      have hlt := of_decide_eq_false (Bool.eq_false_iff.2 hfew)
      omega
  have hnewest := h.ring.newest (n := count c) (by omega) (by rw [List.length_map]; omega) hstart
  rw [hnewest, List.length_map, List.map_drop]

end Held

/-! ## A datagram, taken apart -/

/-- An entry as the tool sees it. -/
def CapEntry.seen (e : CapEntry) : HostEntry := ⟨e.tMs.toNat, e.dir.toNat, e.len, e.data⟩

/-- The stored bytes are counted. -/
structure CapEntry.Sound (e : CapEntry) : Prop where
  len : e.len < 2 ^ 16
  caplen : e.caplen = e.data.length
  stored : e.caplen ≤ capBytes

theorem Passing.sound_entry (p : Passing) : p.entry.Sound := by
  refine ⟨Nat.mod_lt _ (by decide), ?_, ?_⟩
  · show (if p.frame.bytes.length < capBytes then p.frame.bytes.length else capBytes) =
      (p.frame.bytes.take capBytes).length
    rw [List.length_take]
    split <;> omega
  · show (if p.frame.bytes.length < capBytes then p.frame.bytes.length else capBytes) ≤ capBytes
    split <;> omega

theorem Passing.seen_entry (p : Passing) : p.entry.seen = p.shown := by
  rw [Passing.entry, capEntry, CapEntry.seen, Passing.shown]
  dsimp only
  rw [Nat.mod_eq_of_lt p.frame.fits]

/-- The entries from index `n` on are those of `es`. -/
def patch (entries : Nat → Option HostEntry) (n : Nat) (es : List CapEntry) :
    Nat → Option HostEntry := fun k =>
  if n ≤ k ∧ k < n + es.length then (es[k - n]?).map CapEntry.seen else entries k

theorem patch_nil (entries : Nat → Option HostEntry) (n : Nat) : patch entries n [] = entries := by
  funext k
  rw [patch, if_neg]
  rintro ⟨hlow, hhigh⟩
  exact absurd hhigh (Nat.not_lt.2 hlow)

theorem patch_cons (entries : Nat → Option HostEntry) (n : Nat) (e : CapEntry)
    (es : List CapEntry) :
    patch (Function.update entries n (some e.seen)) (n + 1) es = patch entries n (e :: es) := by
  funext k
  rw [patch, patch, List.length_cons]
  by_cases hk : k = n
  · subst hk
    rw [if_neg (by omega), if_pos (by omega), Function.update_self, Nat.sub_self]
    rfl
  · by_cases hin : n + 1 ≤ k ∧ k < n + 1 + es.length
    · rw [if_pos hin, if_pos (by omega), show k - n = k - (n + 1) + 1 by omega]
      rfl
    · rw [if_neg hin, if_neg (by omega), Function.update_of_ne hk]

theorem length_entry {e : CapEntry} (h : e.Sound) : e.bytes.length = 9 + e.caplen := by
  rw [CapEntry.bytes, h.caplen, List.take_length, List.length_append]
  rfl

/-- An entry that lies at offset `o` is read there. -/
theorem fetchLoop_eq {d : List UInt8} : ∀ (es : List CapEntry) (fuel o n : Nat)
    (entries : Nat → Option HostEntry), es.length ≤ fuel → (∀ e ∈ es, e.Sound) →
      At d o (es.flatMap CapEntry.bytes) → d.length = o + (es.flatMap CapEntry.bytes).length →
        fetchLoop d fuel o n entries = patch entries n es
  | [], 0, _, n, entries, _, _, _, _ => (patch_nil entries n).symm
  | [], fuel + 1, o, n, entries, _, _, _, hlen => by
      have hend : d.length = o := hlen
      rw [fetchLoop, patch_nil]
      exact if_neg (by omega)
  | e :: es, fuel + 1, o, n, entries, hfuel, hsound, hat, hlen => by
      have he := hsound e List.mem_cons_self
      have hsize := length_entry he
      rw [List.flatMap_cons] at hat hlen
      obtain ⟨hentry, hrest⟩ := At.append_iff.1 hat
      rw [List.length_append] at hlen
      have hrec := fetchLoop_eq es fuel (o + e.bytes.length) (n + 1)
        (Function.update entries n (some e.seen)) (Nat.le_of_succ_le_succ hfuel)
        (fun x hx => hsound x (List.mem_cons_of_mem e hx)) hrest (by omega)
      obtain ⟨h, hdata⟩ := At.append_iff.1 hentry
      obtain ⟨h, hcaplen⟩ := At.append_iff.1 h
      obtain ⟨h, hlength⟩ := At.append_iff.1 h
      obtain ⟨htime, hdir⟩ := At.append_iff.1 h
      have hcl : Mem.rd16 (fun k => d.getD k 0) (o + 7) = e.caplen :=
        hcaplen.rd16 (Nat.lt_of_le_of_lt he.stored (by decide))
      have hln : Mem.rd16 (fun k => d.getD k 0) (o + 5) = e.len := hlength.rd16 he.len
      have ht : Mem.rd32 (fun k => d.getD k 0) o = e.tMs.toNat := htime.rd32 (UInt32.toNat_lt _)
      have hd : d.getD (o + 4) 0 = e.dir := hdir.getD (k := 0) Nat.zero_lt_one 0
      have hraw : (d.drop (o + 9)).take e.caplen = e.data := by
        have hslice := At.slice hdata
        rw [he.caplen, List.take_length] at hslice
        rw [he.caplen]
        exact hslice
      have hoff : o + 9 + e.caplen = o + e.bytes.length := by omega
      rw [fetchLoop]
      dsimp only
      rw [hcl, hln, ht, hd, hraw, hoff, if_pos (by omega), if_neg (by omega)]
      exact hrec.trans (patch_cons entries n e es)

/-! ## The tool puts the dump together -/

section Fetch

variable {c : Cap} {kept : List Passing}

/-- The entries that a dump ships, oldest first. -/
def dumped (c : Cap) (kept : List Passing) : List Passing := kept.drop (kept.length - count c)

theorem Held.length_dumped (h : Held c kept) : (dumped c kept).length = count c := by
  have hcount := h.count_eq
  rw [dumped, List.length_drop]
  omega

/-- A datagram ships two entries, or the last one. -/
theorem Held.shipped_eq (h : Held c kept) {i : Nat} (hi : i < count c) :
    shipped c (start c) (count c) i =
      (((dumped c kept).map Passing.entry).drop i).take 2 := by
  have hnewest := h.newest
  have hlen : ((List.range (count c)).map fun k => c.ring ((start c + k) % capN)).length =
      count c := by rw [List.length_map, List.length_range]
  rw [dumped, ← hnewest]
  have hfirst : ((List.range (count c)).map fun k => c.ring ((start c + k) % capN)).drop i =
      c.ring ((start c + i) % capN) ::
        ((List.range (count c)).map fun k => c.ring ((start c + k) % capN)).drop (i + 1) := by
    rw [List.drop_eq_getElem_cons (by rw [hlen]; exact hi), List.getElem_map, List.getElem_range]
  rw [hfirst, shipped, show List.range 2 = [0, 1] from rfl,
    List.takeWhile_cons_of_pos (by simpa using hi)]
  by_cases hlast : i + 1 < count c
  · rw [List.takeWhile_cons_of_pos (by simpa using hlast),
      List.drop_eq_getElem_cons (by rw [hlen]; exact hlast), List.getElem_map, List.getElem_range]
    rfl
  · rw [List.takeWhile_cons_of_neg (by simpa using hlast),
      List.drop_eq_nil_of_le (by rw [hlen]; omega)]
    rfl

theorem sound_shipped (h : Held c kept) {i : Nat} (hi : i < count c) :
    ∀ e ∈ shipped c (start c) (count c) i, e.Sound := by
  intro e he
  rw [h.shipped_eq hi] at he
  obtain ⟨p, -, rfl⟩ := List.mem_map.1 (List.mem_of_mem_drop (List.mem_of_mem_take he))
  exact p.sound_entry

/-- What a datagram adds to the tool's entries. -/
theorem Held.takeDatagram_eq (h : Held c kept) {i : Nat} (hi : i < count c)
    (entries : Nat → Option HostEntry) :
    takeDatagram entries (datagram c (start c) (count c) i) =
      patch entries i ((((dumped c kept).map Passing.entry).drop i).take 2) := by
  have hn : capN = 128 := rfl
  have hcount := h.count_eq
  have hat : At (datagram c (start c) (count c) i) 8
      ((shipped c (start c) (count c) i).flatMap CapEntry.bytes) :=
    At.of_append (Mem.be32 c.total ++ Mem.be16 i ++ Mem.be16 (count c)) _
  have hlen : (datagram c (start c) (count c) i).length =
      8 + ((shipped c (start c) (count c) i).flatMap CapEntry.bytes).length := by
    rw [datagram, List.length_append]
    rfl
  have hidx : At (datagram c (start c) (count c) i) 4 (Mem.be16 i) := by
    have hfront : At (datagram c (start c) (count c) i) 0
        (Mem.be32 c.total ++ Mem.be16 i ++ Mem.be16 (count c)) :=
      At.of_prefix (List.prefix_append _ _)
    exact (At.append_iff.1 (At.append_iff.1 hfront).1).2
  have hfew : (shipped c (start c) (count c) i).length ≤ 2 := by
    rw [h.shipped_eq hi]
    exact List.length_take_le _ _
  rw [takeDatagram, if_neg (by omega), hidx.rd16 (by omega), ← h.shipped_eq hi]
  exact fetchLoop_eq _ _ _ _ _ (by omega) (sound_shipped h hi) hat hlen

/-- The tool's entry `k` is the one that was shipped under that index. -/
def Fetched (c : Cap) (kept : List Passing) (k : Nat) (entries : Nat → Option HostEntry) : Prop :=
  entries k = ((dumped c kept)[k]?).map Passing.shown

theorem Held.fetched_patch (h : Held c kept) {i k : Nat} {entries : Nat → Option HostEntry}
    (hk : Fetched c kept k entries ∨ i ≤ k ∧ k < i + 2 ∧ k < count c) :
    Fetched c kept k (patch entries i ((((dumped c kept).map Passing.entry).drop i).take 2)) := by
  have hlen := h.length_dumped
  have hsize : ((((dumped c kept).map Passing.entry).drop i).take 2).length =
      min 2 (count c - i) := by
    rw [List.length_take, List.length_drop, List.length_map, hlen]
  rw [Fetched, patch, hsize]
  by_cases hin : i ≤ k ∧ k < i + min 2 (count c - i)
  · have hseen : CapEntry.seen ∘ Passing.entry = Passing.shown := funext Passing.seen_entry
    rw [if_pos hin, List.getElem?_take_of_lt (by omega), List.getElem?_drop, List.getElem?_map,
      Option.map_map, hseen, show i + (k - i) = k by omega]
  · rw [if_neg hin]
    rcases hk with hk | hk
    · exact hk
    · exact absurd hk (by omega)

/-- The datagrams of a dump. -/
def datagrams (c : Cap) : List (List UInt8) :=
  (List.range ((count c + 1) / 2)).map fun j => datagram c (start c) (count c) (2 * j)

/-- Whatever arrives of a dump, an entry that is there stays, and one that arrives is there. -/
theorem Held.fetched_foldl (h : Held c kept) {k : Nat} :
    ∀ (heard : List (List UInt8)) (entries : Nat → Option HostEntry),
      (∀ d ∈ heard, d ∈ datagrams c) →
      (Fetched c kept k entries ∨
        k < count c ∧ datagram c (start c) (count c) (2 * (k / 2)) ∈ heard) →
      Fetched c kept k (heard.foldl takeDatagram entries)
  | [], _, _, hk => hk.resolve_right fun hmem => absurd hmem.2 List.not_mem_nil
  | d :: heard, entries, hheard, hk => by
      obtain ⟨j, hj, rfl⟩ := List.mem_map.1 (hheard d List.mem_cons_self)
      have hlt : 2 * j < count c := by
        have hrange := List.mem_range.1 hj
        omega
      refine h.fetched_foldl heard _ (fun x hx => hheard x (List.mem_cons_of_mem _ hx)) ?_
      rw [h.takeDatagram_eq hlt]
      rcases hk with hk | ⟨hcount, hmem⟩
      · exact Or.inl (h.fetched_patch (Or.inl hk))
      · rcases List.mem_cons.1 hmem with heq | hmem
        · -- this is the datagram with entry `k`
          rw [← h.takeDatagram_eq hlt, ← heq, h.takeDatagram_eq (by omega)]
          exact Or.inl (h.fetched_patch (Or.inr ⟨by omega, by omega, hcount⟩))
        · exact Or.inr ⟨hcount, hmem⟩

/-- Once every datagram has arrived, in any order and however often, the tool has what was
shipped. -/
theorem Held.capFetch_eq (h : Held c kept) {heard : List (List UInt8)}
    (hheard : ∀ d, d ∈ heard ↔ d ∈ datagrams c) (k : Nat) :
    capFetch heard k = ((dumped c kept)[k]?).map Passing.shown := by
  refine h.fetched_foldl heard _ (fun d hd => (hheard d).1 hd) ?_
  by_cases hk : k < count c
  · refine Or.inr ⟨hk, (hheard _).2 (List.mem_map.2 ⟨k / 2, List.mem_range.2 (by omega), rfl⟩)⟩
  · left
    rw [Fetched, List.getElem?_eq_none (by rw [h.length_dumped]; omega)]
    rfl

end Fetch

/-! ## The dump on the wire -/

section Wire

variable {n : Net} {dst : Ip} {c : Cap}

/-- The filter keeps no outbound frame that is no control frame. -/
theorem capAccepts_out {f : List UInt8} (h : capIsControl f = false) : capAccepts f 1 = false := by
  rw [capAccepts]
  split
  · rfl
  · split
    · rfl
    · rw [h]
      rfl

theorem capAccepts_arp {f : List UInt8} (h : IsArp f) : capAccepts f 1 = false := by
  refine capAccepts_out ?_
  have hip : isIpv4 f = false := by
    rw [isIpv4, Bool.and_eq_false_iff]
    by_contra hboth
    simp only [not_or, Bool.not_eq_false, beq_iff_eq] at hboth
    have htype : (f.getD 12 0).toNat * 256 + (f.getD 13 0).toNat = arpEthertype := h
    rw [hboth.1, hboth.2] at htype
    exact absurd htype (by decide)
  rw [capIsControl, hip]
  split <;> rfl

/-- A datagram from and to port 9997 is no control frame. -/
theorem capAccepts_udpHeaders (n : Net) (dmac : Mac) (dst : Ip) (len : Nat) (tos : UInt8)
    (rest : List UInt8) :
    capAccepts (udpHeaders n dmac dst capOutPort.toNat capOutPort.toNat len tos ++ rest) 1 =
      false := by
  refine capAccepts_out ?_
  have hhead : At (udpHeaders n dmac dst capOutPort.toNat capOutPort.toNat len tos ++ rest) 0
      (udpHeaders n dmac dst capOutPort.toNat capOutPort.toNat len tos) :=
    At.of_prefix (List.prefix_append _ _)
  generalize
    udpHeaders n dmac dst capOutPort.toNat capOutPort.toNat len tos ++ rest = f at hhead ⊢
  obtain ⟨h, -⟩ := At.append_iff.1 hhead
  obtain ⟨h, -⟩ := At.append_iff.1 h
  obtain ⟨h, hdport⟩ := At.append_iff.1 h
  obtain ⟨h, hsport⟩ := At.append_iff.1 h
  obtain ⟨-, hip⟩ := At.append_iff.1 h
  have hihl : f.getD 14 0 = 0x45 := hip.getD (k := 0) (by rw [length_ipHeader]; decide) 0
  have hoff : udpOff f = 34 := by
    rw [udpOff, hihl]
    rfl
  have hsp : field f 34 = 9997 := hsport.rd16 (by decide)
  have hdp : field f 36 = 9997 := hdport.rd16 (by decide)
  have hports : (controlPorts.any fun p =>
      field f (udpOff f) == p || field f (udpOff f + 2) == p) = false := by
    rw [hoff, hsp, hdp]
    rfl
  rw [capIsControl, hports]
  split
  · rfl
  split
  · rfl
  split
  · rfl
  split
  · rfl
  · rfl

/-- A frame that the filter drops on its way out. -/
abbrev Unrecorded (bytes : List UInt8) : Prop := capAccepts bytes 1 = false

theorem sends_ship (n : Net) (dst : Ip) (payload : List UInt8) :
    Sends Unrecorded n (ship n dst payload) := by
  have hstore : Sends Unrecorded n (txStore n udpPayloadOff payload) := Sends.of_sent_eq rfl
  refine hstore.trans (Sends.netUdpCommit _ (fun _ => capAccepts_arp) fun n' dmac rest => ?_)
  exact capAccepts_udpHeaders n' dmac dst payload.length netTosBestEffort rest

theorem recordSent_eq {n' : Net} (c : Cap) (h : Sends Unrecorded n n') (tMs : UInt32) :
    recordSent c n n' tMs = c := by
  obtain ⟨frames, hsent, hall⟩ := h
  rw [recordSent, hsent, List.drop_left]
  clear hsent
  induction frames with
  | nil => rfl
  | cons s frames ih =>
      have hdrop : capRecord c 1 s.bytes tMs = c := by
        rw [capRecord, hall s List.mem_cons_self]
        rfl
      rw [List.foldl_cons, hdrop]
      exact ih fun x hx => hall x (List.mem_cons_of_mem s hx)

/-- Dumping does not alter the ring. -/
theorem sendTurns_cap (start count : Nat) (tMs : UInt32) : ∀ (js : List Nat) (n : Net),
    (js.foldl (sendTurn start count dst tMs) (c, n)).1 = c
  | [], _ => rfl
  | j :: js, n => by
      rw [List.foldl_cons, sendTurn]
      dsimp only
      rw [recordSent_eq c (sends_ship n dst _) tMs]
      exact sendTurns_cap start count tMs js _

theorem capSendRing_cap (c : Cap) (n : Net) (dst : Ip) (tMs : UInt32) :
    (capSendRing c n dst tMs).1 = c := sendTurns_cap _ _ tMs _ n

/-- A payload for a known address goes out as it is, and the address stays known. -/
theorem ship_hit {dmac : Mac} {payload : List UInt8} (hlen : payload.length ≤ netMaxPayload)
    (hres : arpResolve n dst = some dmac) :
    (∃ s : Sent, (ship n dst payload).sent = n.sent ++ [s] ∧ udpPayload s.bytes = payload) ∧
      arpResolve (ship n dst payload) dst = some dmac := by
  have hstored : arpResolve (txStore n udpPayloadOff payload) dst = some dmac := hres
  obtain ⟨-, hsent⟩ := netUdpCommit_hit capOutPort.toNat capOutPort.toNat netTosBestEffort hlen
    hstored
  refine ⟨⟨_, hsent, ?_⟩, ?_⟩
  · rw [udpPayload_commitFrame _ _ _ _ _ _ hlen]
    have hbuf : txBuf (txStore n udpPayloadOff payload) =
        Mem.store (txBuf n) udpPayloadOff payload := by
      simp only [txStore, slotStore, txBuf, Function.update_self]
    rw [hbuf, Mem.slice_store_same]
  · rw [ship, netUdpCommit, if_neg (by omega), netArpLookup_hit hstored]
    exact hres

/-- What a tool can read off the frames sent from `n` to `n'`. -/
def payloadsSent (n n' : Net) : List (List UInt8) :=
  (n'.sent.drop n.sent.length).map fun s => udpPayload s.bytes

/-- The frames of a dump carry its datagrams. -/
theorem sendTurns_sent {dmac : Mac} (start count : Nat) (tMs : UInt32) :
    ∀ (js : List Nat) (n : Net), arpResolve n dst = some dmac →
      (∀ j ∈ js, (datagram c start count (2 * j)).length ≤ netMaxPayload) →
      ∃ frames : List Sent,
        (js.foldl (sendTurn start count dst tMs) (c, n)).2.sent = n.sent ++ frames ∧
          (frames.map fun s => udpPayload s.bytes) =
            js.map fun j => datagram c start count (2 * j)
  | [], n, _, _ => ⟨[], (List.append_nil _).symm, rfl⟩
  | j :: js, n, hres, hlen => by
      obtain ⟨⟨s, hsent, hpayload⟩, hnext⟩ := ship_hit (hlen j List.mem_cons_self) hres
      obtain ⟨frames, hframes, hmap⟩ := sendTurns_sent start count tMs js
        (ship n dst (datagram c start count (2 * j))) hnext
        fun x hx => hlen x (List.mem_cons_of_mem j hx)
      refine ⟨s :: frames, ?_, ?_⟩
      · rw [List.foldl_cons, sendTurn]
        dsimp only
        rw [recordSent_eq c (sends_ship n dst _) tMs, hframes, hsent, List.append_assoc,
          List.singleton_append]
      · rw [List.map_cons, hpayload, hmap, List.map_cons]

theorem Held.length_datagram {kept : List Passing} (h : Held c kept) {i : Nat} (hi : i < count c) :
    (datagram c (start c) (count c) i).length ≤ netMaxPayload := by
  have hbound : ∀ es : List CapEntry, (∀ e ∈ es, e.Sound) →
      (es.flatMap CapEntry.bytes).length ≤ es.length * (9 + capBytes) := by
    intro es hes
    induction es with
    | nil => exact Nat.zero_le _
    | cons e es ih =>
        have he := hes e List.mem_cons_self
        have hrest := ih fun x hx => hes x (List.mem_cons_of_mem e hx)
        have hstored := he.stored
        rw [List.flatMap_cons, List.length_append, length_entry he, List.length_cons, Nat.succ_mul]
        omega
  have hfew : (shipped c (start c) (count c) i).length ≤ 2 := by
    rw [h.shipped_eq hi]
    exact List.length_take_le _ _
  have hbody := hbound _ (sound_shipped h hi)
  have hmul := Nat.mul_le_mul_right (9 + capBytes) hfew
  have hmax : netMaxPayload = 1400 := rfl
  have hsize : capBytes = 256 := rfl
  have hlen : (datagram c (start c) (count c) i).length =
      8 + ((shipped c (start c) (count c) i).flatMap CapEntry.bytes).length := by
    rw [datagram, List.length_append]
    rfl
  omega

/-- To a known address, a dump sends its datagrams. -/
theorem Held.payloadsSent_eq {kept : List Passing} (h : Held c kept) {dmac : Mac}
    (hres : arpResolve n dst = some dmac) (tMs : UInt32) :
    payloadsSent n (capSendRing c n dst tMs).2 = datagrams c := by
  obtain ⟨frames, hsent, hmap⟩ := sendTurns_sent (c := c) (start c) (count c) tMs
    (List.range ((count c + 1) / 2)) n hres fun j hj => h.length_datagram (by
      have hlt := List.mem_range.1 hj
      omega)
  rw [payloadsSent, capSendRing, hsent, List.drop_left]
  exact hmap

end Wire

/-! ## The requester -/

/-- An address that is learnt is known. -/
theorem arpResolve_arpLearn (n : Net) {ip : Ip} (mac : Mac) (hip : ip.isZero = false) :
    ∃ dmac, arpResolve (arpLearn n ip mac) ip = some dmac := by
  have hfound : ∀ (m : Net) (i : Fin arpCacheN), (m.arpCache i).valid = true →
      (m.arpCache i).ip = ip → ∃ dmac, arpResolve m ip = some dmac := by
    intro m i hvalid hmatch
    have hsome : (arpFind m ip).isSome := by
      rw [arpFind, List.find?_isSome]
      exact ⟨i, List.mem_finRange i, by simp [hvalid, hmatch]⟩
    obtain ⟨j, hj⟩ := Option.isSome_iff_exists.1 hsome
    rw [arpResolve]
    split
    · exact ⟨_, rfl⟩
    split
    · exact ⟨_, rfl⟩
    · exact ⟨_, by rw [hj]; rfl⟩
  rw [arpLearn]
  split
  · -- groups and broadcast need no entry
    rename_i hspecial
    rw [hip, Bool.or_false, Bool.or_eq_true] at hspecial
    rw [arpResolve]
    split
    · exact ⟨_, rfl⟩
    · rename_i hmcast
      rw [if_pos (hspecial.resolve_left hmcast)]
      exact ⟨_, rfl⟩
  · split
    · rename_i i hi
      have hentry := List.find?_some hi
      rw [Bool.and_eq_true, beq_iff_eq] at hentry
      refine hfound _ i ?_ ?_
      · simp only [Function.update_self]
        exact hentry.1
      · simp only [Function.update_self]
        exact hentry.2
    · refine hfound _ n.arpNext ?_ ?_ <;> simp only [Function.update_self]

theorem arpResolve_rxProto (n : Net) (f : RxFrame) (ip : Ip) :
    arpResolve (rxProto n f).net ip = arpResolve n ip := by
  rw [rxProto]
  split
  · rfl
  split
  · rfl
  split
  · split
    · rfl
    split <;> rfl
  · rfl

/-- Once a frame is taken, its sender is known. -/
theorem arpResolve_of_call {n : Net} {f : RxFrame} {c : Upcall}
    (h : (netRxFrame n f).call = some c) (hsrc : f.srcIp.isZero = false) :
    ∃ dmac, arpResolve (netRxFrame n f).net f.srcIp = some dmac := by
  unfold netRxFrame at h ⊢
  obtain ⟨hlen, h⟩ := RxResult.call_else rfl h
  obtain ⟨harp, h⟩ := RxResult.call_else rfl h
  obtain ⟨het, h⟩ := RxResult.call_else rfl h
  obtain ⟨hhdr, h⟩ := RxResult.call_else rfl h
  obtain ⟨hver, h⟩ := RxResult.call_else rfl h
  obtain ⟨hihl, h⟩ := RxResult.call_else rfl h
  obtain ⟨htotal, h⟩ := RxResult.call_else rfl h
  obtain ⟨hus, -⟩ := RxResult.call_else rfl h
  rw [if_neg hlen, if_neg harp, if_neg het, if_neg hhdr, if_neg hver, if_neg hihl, if_neg htotal,
    if_neg hus]
  dsimp only
  rw [arpResolve_rxProto]
  exact arpResolve_arpLearn _ f.srcMac hsrc

theorem src_of_call {n : Net} {f : RxFrame} {fn : Handler} {src dst : Ip} {sport off len : Nat}
    (h : (netRxFrame n f).call = some (.udp fn src dst sport off len)) : src = f.srcIp := by
  rw [netRxFrame_call_of_admitted (admitted_of_call h), upcall] at h
  split at h
  · cases h
  split at h
  · cases h
  split at h
  · obtain ⟨g, -, heq⟩ := Option.map_eq_some_iff.1 h
    cases heq
    rfl
  · cases h

/-! ## Round trip -/

/-- A request clears the ring if its payload says so, behind the dump. -/
theorem capReqRx_cap (c : Cap) (n : Net) (src : Ip) (payload : List UInt8) (tMs : UInt32) :
    (capReqRx c n src payload tMs).1 =
      if 1 ≤ payload.length ∧ payload.getD 0 0 = 0x72 then capReset else c := by
  rw [capReqRx]
  split
  · rfl
  · exact capSendRing_cap c n src tMs

theorem capReqRx_net (c : Cap) (n : Net) (src : Ip) (payload : List UInt8) (tMs : UInt32) :
    (capReqRx c n src payload tMs).2 = (capSendRing c n src tMs).2 := by
  rw [capReqRx]
  split <;> rfl

theorem Held.step {c : Cap} {kept : List Passing} (h : Held c kept) (e : Event) :
    Held (step c e) (keptStep kept e) := by
  cases e with
  | pass p => exact h.record p
  | request n src payload tMs =>
      rw [Capture.step, capReqRx_cap, keptStep]
      split
      · exact held_reset
      · exact h
  | clear => exact held_reset

theorem held_run : ∀ (evs : List Event) {c : Cap} {kept : List Passing}, Held c kept →
    Held (run step c evs) (evs.foldl keptStep kept)
  | [], _, _, h => h
  | e :: evs, _, _, h => held_run evs (h.step e)

/-- Whatever has passed the board, a request that reaches the handler is answered with the last 128
frames kept: the tool that hears the datagrams of the dump, in any order and however often, shows
them oldest first, each with its true length and stored prefix.  The dump leaves the ring as it
was; only a request for it clears the ring afterwards. -/
theorem capture_round_trip (evs : List Event) {n : Net} {f : RxFrame} {src dst : Ip}
    {sport off len : Nat}
    (hcall : (netRxFrame n f).call = some (.udp .cap src dst sport off len))
    (hsrc : src.isZero = false) (tMs : UInt32) :
    let c := run step capReset evs
    let kept := evs.foldl keptStep []
    let payload := Mem.slice f.bytes off len
    let answer := capReqRx c (netRxFrame n f).net src payload tMs
    (capSendRing c (netRxFrame n f).net src tMs).1 = c ∧
      answer.1 = (if 1 ≤ payload.length ∧ payload.getD 0 0 = 0x72 then capReset else c) ∧
      ∀ heard, (∀ d, d ∈ heard ↔ d ∈ payloadsSent (netRxFrame n f).net answer.2) →
        ∀ k, capFetch heard k =
          ((kept.drop (kept.length - min kept.length capN))[k]?).map Passing.shown := by
  intro c kept payload answer
  have hheld : Held c kept := held_run evs held_reset
  have hsame := src_of_call hcall
  obtain ⟨dmac, hres⟩ := arpResolve_of_call hcall (hsame ▸ hsrc)
  rw [← hsame] at hres
  refine ⟨capSendRing_cap c _ src tMs, capReqRx_cap c _ src payload tMs, ?_⟩
  intro heard hheard k
  have hsent := hheld.payloadsSent_eq hres tMs
  rw [← hheld.count_eq]
  refine hheld.capFetch_eq (fun d => ?_) k
  rw [hheard d, ← hsent, capReqRx_net]

/-- The stack with the capture bound. -/
def capBound : Net := (netUdpBind (Net.boot fun _ _ => 0) 7778 .cap).1

/-- A request of one byte, `?`, from 169.254.1.1. -/
def requestBytes : List UInt8 :=
  [2, 0, 0, 0, 0, 1, 2, 0, 0, 0, 0, 2, 0x08, 0x00,
    0x45, 0, 0, 29, 0, 0, 0, 0, 64, 17, 0, 0, 169, 254, 1, 1, 169, 254, 9, 200,
    0x30, 0x39, 0x1E, 0x62, 0, 9, 0, 0, 0x3F]

/-- The request itself is the first frame the ring keeps. -/
def requestPassing : Passing := ⟨0, ⟨requestBytes, by decide⟩, 7⟩

theorem capture_round_trip_request :
    capFetch (payloadsSent (netRxFrame capBound (asReceived requestBytes)).net
      (capReqRx (run step capReset [.pass requestPassing])
        (netRxFrame capBound (asReceived requestBytes)).net ⟨169, 254, 1, 1⟩
        (Mem.slice (asReceived requestBytes).bytes 42 1) 7).2) 0 =
      some requestPassing.shown := by
  have hcall : (netRxFrame capBound (asReceived requestBytes)).call =
      some (.udp .cap ⟨169, 254, 1, 1⟩ ⟨169, 254, 9, 200⟩ 0x3039 42 1) := by decide
  have hfetch := (capture_round_trip [.pass requestPassing] hcall (by decide) 7).2.2 _
    (fun d => Iff.rfl) 0
  have hkept : [Event.pass requestPassing].foldl keptStep [] = [requestPassing] := by
    rw [List.foldl_cons, keptStep, if_pos (by decide)]
    rfl
  rw [hkept] at hfetch
  exact hfetch

end Capture
end Firmware
end InfernoFpga
