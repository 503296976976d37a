import InfernoFpga.Firmware.DanteMsg
import InfernoFpga.Lib.Region
import InfernoFpga.Lib.Run

/-!
# ArcProps — the property table of the routing protocol

The reply to request 0x1100 is a byte image that is sent as it stands: a count, that many pairs of a
key and an entry, and behind them the values of those keys whose entry is an offset.  Values are
patched in the image, found by scanning it.  `kPiece` divides the image up; a patch that is
addressed to the right kind of key writes one piece, and `propSpec` says which.
-/

namespace InfernoFpga
namespace Firmware

open Lib

/-! ## The image -/

/-- `sizeof(arc_1100_body)`. -/
abbrev arc1100Size : Nat := 202

/-- `arc_1100_body`, as it is compiled in. -/
def arc1100Body : List UInt8 :=
  [ 0x24, 0x1f, 0x80, 0x20, 0x00, 0x9c, 0x80, 0x21, 0x00, 0xa0, 0x00, 0x22,
    0x00, 0x01, 0x00, 0x23, 0x00, 0x18, 0x00, 0x24, 0x00, 0x01, 0x80, 0x60,
    0x00, 0xb0, 0x00, 0x62, 0x00, 0x01, 0x00, 0x63, 0x00, 0x01, 0x02, 0x01,
    0x00, 0x01, 0x82, 0x04, 0x00, 0xb4, 0x82, 0x05, 0x00, 0xb8, 0x02, 0x0a,
    0x00, 0x00, 0x02, 0x0b, 0x00, 0x00, 0x02, 0x10, 0x00, 0x00, 0x02, 0x11,
    0x00, 0x00, 0x02, 0x12, 0x00, 0x30, 0x02, 0x13, 0x00, 0x00, 0x02, 0x14,
    0x00, 0x00, 0x02, 0x22, 0x13, 0x8c, 0x83, 0x01, 0x00, 0xbc, 0x83, 0x06,
    0x00, 0xc0, 0x83, 0x02, 0x00, 0xc4, 0x83, 0x21, 0x00, 0xc8, 0x03, 0x10,
    0x00, 0x10, 0x03, 0x11, 0x00, 0x10, 0x03, 0x12, 0x00, 0x30, 0x03, 0x03,
    0x00, 0x02, 0x83, 0xf0, 0x00, 0xcc, 0x06, 0x01, 0x00, 0x00, 0x03, 0x09,
    0x00, 0x03, 0x02, 0x09, 0x00, 0x01, 0x00, 0x00, 0x00, 0x00, 0x00, 0x00,
    0x00, 0x00, 0x00, 0x00, 0x00, 0x00, 0x00, 0x00, 0x00, 0x00, 0x00, 0x00,
    0x00, 0x00, 0x00, 0x00, 0xbb, 0x80, 0x00, 0x00, 0x00, 0x00, 0x00, 0x00,
    0x00, 0x00, 0x00, 0x00, 0x00, 0x00, 0x00, 0x00, 0x00, 0x00, 0xef, 0x45,
    0x00, 0x00, 0x00, 0x0f, 0x42, 0x40, 0x00, 0x07, 0xa1, 0x20, 0x00, 0x07,
    0xa1, 0x20, 0x00, 0x03, 0xd0, 0x90, 0x01, 0x35, 0xf1, 0xb4, 0x00, 0x1e,
    0x84, 0x80, 0x00, 0x00, 0x00, 0x05, 0x00, 0x00, 0x00, 0x00 ]

/-- The image the device boots with. -/
@[irreducible] def arc1100Boot : Mem := Mem.store (fun _ => 0) 0 arc1100Body

/-! ## Patching -/

/-- The loop over the entries, `n` of them being left from entry `i` on: where that of a key is. -/
def findEntry (body : Mem) (key : Nat) : Nat → Nat → Option Nat
  | 0, _ => none
  | n + 1, i =>
      let o := 2 + i * 4
      if arc1100Size < o + 4 then none
      else if Mem.rd16 body o = key then some o
      else findEntry body key n (i + 1)

/-- The entry of a key. -/
def entryOf (body : Mem) (key : Nat) : Option Nat := findEntry body key (body 1).toNat 0

/-- Bit 15 of a key: its entry is an offset. -/
def isOffsetKey (key : Nat) : Bool := key.testBit 15

/-- `arc_1100_patch`: nothing where it returns -1. -/
def arc1100Patch (body : Mem) (key val : Nat) : Option Mem :=
  if isOffsetKey key then none
  else (entryOf body key).map fun o => Mem.store body (o + 2) (Mem.be16 val)

/-- `arc_1100_patch_u32`, and `dante_arc_patch_1100_u32`, which also prints. -/
def arc1100PatchU32 (body : Mem) (key val : Nat) : Option Mem :=
  match entryOf body key with
  | none => none
  | some o =>
      let off := Mem.rd16 body (o + 2)
      if off < danteHdrLen then none
      else if arc1100Size < off - danteHdrLen + 4 then none
      else some (Mem.store body (off - danteHdrLen) (Mem.be32 val))

/-! ## The device -/

/-- The image and `g_latency_ns`. -/
structure Props where
  body : Mem
  latencyNs : UInt32

/-- What happens to the table: a datagram to the statistics port, a datagram to the routing
protocol's port, a new latency. -/
inductive PropEvent
  | stats (q : Datagram)
  | arc (q : Datagram)
  | latency (v : UInt32)

abbrev patchU32Bad : Nat := 0x424c4242
abbrev patchU32Ok : Nat := 0x424c424f
abbrev patchBad : Nat := 0x4b455242
abbrev patchOk : Nat := 0x4b45594f

/-- The result of a patch: the image, and the word of the reply. -/
def patched (x : Props) (r : Option Mem) (ok bad : Nat) : Props × Option Nat :=
  match r with
  | some body => ({ x with body := body }, some ok)
  | none => (x, some bad)

/-- The `B` and `K` requests of the statistics port. -/
def dstatsRxPatch (x : Props) (q : Datagram) : Props × Option Nat :=
  if 7 ≤ q.len ∧ q.req 0 = 0x42 then
    patched x (arc1100PatchU32 x.body (Mem.rd16 q.req 1) (Mem.rd32 q.req 3)) patchU32Ok patchU32Bad
  else if 5 ≤ q.len ∧ q.req 0 = 0x4B then
    patched x (arc1100Patch x.body (Mem.rd16 q.req 1) (Mem.rd16 q.req 3)) patchOk patchBad
  else (x, none)

/-- The image with the present latency in both current-latency properties. -/
def trackLatency (body : Mem) (ns : Nat) : Mem :=
  let body := (arc1100PatchU32 body 0x8205 ns).getD body
  (arc1100PatchU32 body 0x8301 ns).getD body

/-- `arc_rx` on request 0x1100: the state and the reply. -/
def arcRx1100 (x : Props) (q : Datagram) : Props × Option (List UInt8) :=
  if q.len < danteHdrLen ∨ q.opcode2 ≠ 0 ∨ q.opcode1 ≠ 0x1100 then (x, none)
  else
    let body := trackLatency x.body x.latencyNs.toNat
    ({ x with body := body },
      some ((Reply.mk danteCodeOk (Mem.slice body 0 arc1100Size)).bytes q.req))

def propStep (x : Props) : PropEvent → Props
  | .stats q => (dstatsRxPatch x q).1
  | .arc q => (arcRx1100 x q).1
  | .latency v => { x with latencyNs := v }

def Props.boot (latencyNs : UInt32) : Props := ⟨arc1100Boot, latencyNs⟩

/-! ## The pieces of the image -/

abbrev propCount : Nat := 31

abbrev PropId := Fin propCount

/-- Key and entry of a property in the image that is compiled in. -/
def kKey (i : PropId) : Nat := Mem.rd16 arc1100Boot (2 + i.val * 4)
def kEntry (i : PropId) : Nat := Mem.rd16 arc1100Boot (2 + i.val * 4 + 2)

/-- The entry count, the key of a property, its entry where that is an offset, its value. -/
inductive Piece
  | count
  | key (i : PropId)
  | offset (i : PropId)
  | value (i : PropId)
  deriving DecidableEq

/-- Where a piece lies.  The entry of an inline property is its value. -/
def kPiece : Piece → Region
  | .count => ⟨1, 1⟩
  | .key i => ⟨2 + i.val * 4, 2⟩
  | .offset i => ⟨2 + i.val * 4 + 2, if isOffsetKey (kKey i) then 2 else 0⟩
  | .value i =>
      if isOffsetKey (kKey i) then ⟨kEntry i - danteHdrLen, 4⟩ else ⟨2 + i.val * 4 + 2, 2⟩

/-- The bytes of every property's value. -/
abbrev Values := PropId → List UInt8

def values (body : Mem) : Values := fun i => Region.contents body (kPiece (.value i))

/-- The property with a key. -/
@[irreducible] def propOf (key : Nat) : Option PropId :=
  (List.finRange propCount).find? fun i => kKey i == key

theorem propOf_eq (key : Nat) :
    propOf key = (List.finRange propCount).find? fun i => kKey i == key := by
  unfold propOf
  rfl

theorem kKey_injective : ∀ i j, kKey i = kKey j → i = j := by decide +kernel

/-- All pieces of the image. -/
def kPieces : List Piece :=
  .count :: (List.finRange propCount).flatMap fun i => [.key i, .offset i, .value i]

theorem mem_kPieces (p : Piece) : p ∈ kPieces := by
  cases p <;> simp [kPieces]

theorem kPiece_apart : Region.Apart kPiece := by
  have hall : ∀ p ∈ kPieces, ∀ q ∈ kPieces, p ≠ q → Region.Disjoint (kPiece p) (kPiece q) := by
    decide +kernel
  exact fun p q => hall p (mem_kPieces p) q (mem_kPieces q)

/-- Offsets lead past the header, and leave room for a value. -/
theorem kEntry_range : ∀ i, isOffsetKey (kKey i) = true →
    danteHdrLen ≤ kEntry i ∧ kEntry i - danteHdrLen + 4 ≤ arc1100Size := by
  decide +kernel

/-! ## An image that is intact -/

/-- Count, keys and offsets are as they were compiled in. -/
structure Intact (body : Mem) : Prop where
  count : body 1 = 31
  keys : ∀ i : PropId, Mem.rd16 body (2 + i.val * 4) = kKey i
  offsets : ∀ i : PropId, isOffsetKey (kKey i) = true →
    Mem.rd16 body (2 + i.val * 4 + 2) = kEntry i

theorem intact_boot : Intact arc1100Boot := ⟨by decide +kernel, fun _ => rfl, fun _ _ => rfl⟩

section Intact

variable {body : Mem} {key val : Nat} {i : PropId}

/-- Writing a value leaves the image intact and the other values alone. -/
theorem intact_write (h : Intact body) (i : PropId) (bs : List UInt8) (hlen : bs.length = (kPiece (.value i)).len) :
    Intact (Region.write body (kPiece (.value i)) bs) ∧
      values (Region.write body (kPiece (.value i)) bs) = Function.update (values body) i bs := by
  have hwrite := Region.contents_write kPiece_apart body (.value i) hlen
  have hother : ∀ p, p ≠ .value i →
      Region.contents (Region.write body (kPiece (.value i)) bs) (kPiece p) =
        Region.contents body (kPiece p) := fun p hp =>
    (congrFun hwrite p).trans (Function.update_of_ne hp _ _)
  refine ⟨⟨?_, fun j => ?_, fun j hj => ?_⟩, funext fun j => ?_⟩
  · have hcount := hother .count (by simp)
    rw [← h.count]
    simpa [Region.contents, kPiece, Mem.slice] using hcount
  · exact (Mem.rd16_of_slice (hother (.key j) (by simp))).trans (h.keys j)
  · have hoff : (kPiece (.offset j)).len = 2 := if_pos hj
    have hslice := hother (.offset j) (by simp)
    simp only [Region.contents, hoff] at hslice
    exact (Mem.rd16_of_slice hslice).trans (h.offsets j hj)
  · have hvalue := congrFun hwrite (.value j)
    by_cases hj : j = i
    · rw [hj] at hvalue ⊢
      rw [Function.update_self] at hvalue ⊢
      exact hvalue
    · rw [Function.update_of_ne (fun heq => hj (Piece.value.inj heq))] at hvalue
      rw [Function.update_of_ne hj]
      exact hvalue

/-- The loop stops at the first entry with the key. -/
theorem findEntry_spec (body : Mem) (key : Nat) : ∀ n i, i + n ≤ 50 →
    (∀ o, findEntry body key n i = some o →
      ∃ j, i ≤ j ∧ j < i + n ∧ o = 2 + j * 4 ∧ Mem.rd16 body o = key) ∧
    (findEntry body key n i = none → ∀ j, i ≤ j → j < i + n → Mem.rd16 body (2 + j * 4) ≠ key)
  | 0, i, _ => ⟨fun o h => by (cases h), fun _ j hi hj => by omega⟩
  | n + 1, i, hroom => by
      obtain ⟨hsome, hnone⟩ := findEntry_spec body key n (i + 1) (by omega)
      have hsize : ¬ arc1100Size < 2 + i * 4 + 4 := by
        have : arc1100Size = 202 := rfl
        omega
      rw [findEntry]
      simp only [if_neg hsize]
      by_cases hkey : Mem.rd16 body (2 + i * 4) = key
      · rw [if_pos hkey]
        refine ⟨fun o ho => ⟨i, le_rfl, by omega, (Option.some.inj ho).symm, ?_⟩,
          fun h => by (cases h)⟩
        rw [← Option.some.inj ho]
        exact hkey
      · rw [if_neg hkey]
        refine ⟨fun o ho => ?_, fun hmiss j hi hj => ?_⟩
        · obtain ⟨j, hi, hj, hrest⟩ := hsome o ho
          exact ⟨j, by omega, by omega, hrest⟩
        · by_cases heq : j = i
          · rw [heq]
            exact hkey
          · exact hnone hmiss j (by omega) (by omega)

/-- In an intact image a key is found where its property is. -/
theorem entryOf_intact (h : Intact body) (key : Nat) :
    entryOf body key = (propOf key).map fun i => 2 + i.val * 4 := by
  have hcount : (body 1).toNat = propCount := by
    rw [h.count]
    rfl
  obtain ⟨hsome, hnone⟩ := findEntry_spec body key propCount 0 (by decide)
  rw [entryOf, hcount]
  cases hfind : findEntry body key propCount 0 with
  | none =>
    have hmiss : propOf key = none := by
      rw [propOf_eq, List.find?_eq_none]
      intro i _ hi
      rw [beq_iff_eq, ← h.keys i] at hi
      exact hnone hfind i.val (Nat.zero_le _) (by omega) hi
    rw [hmiss]
    rfl
  | some o =>
    obtain ⟨j, -, hj, ho, hkey⟩ := hsome o hfind
    have hkeys := h.keys ⟨j, by omega⟩
    rw [ho, hkeys] at hkey
    have hthere : propOf key = some ⟨j, by omega⟩ := by
      cases hprop : propOf key with
      | none =>
        rw [propOf_eq, List.find?_eq_none] at hprop
        exact absurd (beq_iff_eq.2 hkey) (hprop ⟨j, by omega⟩ (List.mem_finRange _))
      | some i =>
        rw [propOf_eq] at hprop
        have hi : kKey i = key := beq_iff_eq.1 (List.find?_some (p := fun i => kKey i == key) hprop)
        exact congrArg some (kKey_injective _ _ (hi.trans hkey.symm))
    rw [hthere, ho]
    rfl

theorem kKey_of_propOf (h : propOf key = some i) : kKey i = key := by
  rw [propOf_eq] at h
  exact beq_iff_eq.1 (List.find?_some (p := fun i => kKey i == key) h)

end Intact

/-! ## What a patch is meant to do -/

/-- Writing the value of the property with a key, where the key is of the right kind. -/
def Values.patch (v : Values) (key : Nat) (out : Bool) (bs : List UInt8) : Values :=
  match propOf key with
  | some i => if isOffsetKey key = out then Function.update v i bs else v
  | none => v

/-- The values after an event, and the latency. -/
def propSpec (v : Values) (latencyNs : UInt32) : PropEvent → Values
  | .stats q =>
      if 7 ≤ q.len ∧ q.req 0 = 0x42 then
        v.patch (Mem.rd16 q.req 1) true (Mem.be32 (Mem.rd32 q.req 3))
      else if 5 ≤ q.len ∧ q.req 0 = 0x4B then
        v.patch (Mem.rd16 q.req 1) false (Mem.be16 (Mem.rd16 q.req 3))
      else v
  | .arc q =>
      if q.len < danteHdrLen ∨ q.opcode2 ≠ 0 ∨ q.opcode1 ≠ 0x1100 then v
      else
        (v.patch 0x8205 true (Mem.be32 latencyNs.toNat)).patch 0x8301 true
          (Mem.be32 latencyNs.toNat)
  | .latency _ => v

/-- A 32-bit patch is not addressed to an inline property whose value would pass as an offset into
the image. -/
def PatchesOutOfLine (x : Props) : PropEvent → Prop
  | .stats q =>
      7 ≤ q.len → q.req 0 = 0x42 → ∀ i, kKey i = Mem.rd16 q.req 1 → isOffsetKey (kKey i) = false →
        Mem.rd16 x.body (2 + i.val * 4 + 2) < danteHdrLen ∨
          danteHdrLen + arc1100Size < Mem.rd16 x.body (2 + i.val * 4 + 2) + 4
  | .arc _ => True
  | .latency _ => True

instance (x : Props) : ∀ e, Decidable (PatchesOutOfLine x e)
  | .stats _ => inferInstanceAs (Decidable (_ → _ → ∀ _, _ → _ → _))
  | .arc _ => inferInstanceAs (Decidable True)
  | .latency _ => inferInstanceAs (Decidable True)

section Patching

variable {body : Mem} {key val : Nat}

/-- A 16-bit patch writes the value of an inline property. -/
theorem arc1100Patch_spec (h : Intact body) (key val : Nat) :
    Intact ((arc1100Patch body key val).getD body) ∧
      values ((arc1100Patch body key val).getD body) =
        (values body).patch key false (Mem.be16 val) := by
  cases hprop : propOf key with
  | none =>
    have hnone : arc1100Patch body key val = none := by
      rw [arc1100Patch, entryOf_intact h, hprop]
      split <;> rfl
    rw [hnone, Values.patch, hprop]
    exact ⟨h, rfl⟩
  | some i =>
    rw [Values.patch, hprop, arc1100Patch, entryOf_intact h, hprop]
    cases hkind : isOffsetKey key with
    | true => exact ⟨h, rfl⟩
    | false =>
      have hplace : kPiece (.value i) = ⟨2 + i.val * 4 + 2, 2⟩ := by
        rw [← kKey_of_propOf hprop] at hkind
        simp only [kPiece, hkind, Bool.false_eq_true, if_false]
      have hwrite := intact_write h i (Mem.be16 val) (by rw [hplace]; rfl)
      rw [hplace] at hwrite
      exact hwrite

/-- A 32-bit patch of an out-of-line property writes its value. -/
theorem arc1100PatchU32_outOfLine (h : Intact body) {i : PropId} (hprop : propOf key = some i)
    (hkind : isOffsetKey key = true) (val : Nat) :
    arc1100PatchU32 body key val =
      some (Region.write body (kPiece (.value i)) (Mem.be32 val)) := by
  have hkey := kKey_of_propOf hprop
  have hoff : isOffsetKey (kKey i) = true := by
    rw [hkey]
    exact hkind
  obtain ⟨hlow, hhigh⟩ := kEntry_range i hoff
  have hentry := h.offsets i hoff
  have hplace : kPiece (.value i) = ⟨kEntry i - danteHdrLen, 4⟩ := if_pos hoff
  rw [arc1100PatchU32, entryOf_intact h, hprop, hplace]
  simp only [Option.map_some, hentry, if_neg (Nat.not_lt.2 hlow), if_neg (Nat.not_lt.2 hhigh)]
  rfl

/-- A 32-bit patch writes the value of an out-of-line property, unless an inline value passes as
an offset. -/
theorem arc1100PatchU32_spec (h : Intact body) (key val : Nat)
    (hsafe : ∀ i, kKey i = key → isOffsetKey (kKey i) = false →
      Mem.rd16 body (2 + i.val * 4 + 2) < danteHdrLen ∨
        danteHdrLen + arc1100Size < Mem.rd16 body (2 + i.val * 4 + 2) + 4) :
    Intact ((arc1100PatchU32 body key val).getD body) ∧
      values ((arc1100PatchU32 body key val).getD body) =
        (values body).patch key true (Mem.be32 val) := by
  cases hprop : propOf key with
  | none =>
    have hnone : arc1100PatchU32 body key val = none := by
      rw [arc1100PatchU32, entryOf_intact h, hprop]
      rfl
    rw [hnone, Values.patch, hprop]
    exact ⟨h, rfl⟩
  | some i =>
    have hkey := kKey_of_propOf hprop
    cases hkind : isOffsetKey key with
    | true =>
      have hplace : (kPiece (.value i)).len = 4 := by
        rw [← hkey] at hkind
        simp only [kPiece, hkind, if_true]
      have hwrite := intact_write h i (Mem.be32 val) (by rw [hplace]; rfl)
      rw [arc1100PatchU32_outOfLine h hprop hkind, Values.patch, hprop]
      simp only [hkind, if_true]
      exact hwrite
    | false =>
      have hnone : arc1100PatchU32 body key val = none := by
        rw [arc1100PatchU32, entryOf_intact h, hprop]
        simp only [Option.map_some]
        rcases hsafe i hkey (by rw [hkey]; exact hkind) with hlow | hhigh
        · rw [if_pos hlow]
        · split
          · rfl
          · rw [if_pos (by omega)]
      rw [hnone, Values.patch, hprop]
      simp only [hkind]
      exact ⟨h, rfl⟩

/-- A patch writes no value but that of its own key. -/
theorem Values.patch_of_ne {v : Values} {out : Bool} {bs : List UInt8} {i : PropId}
    (h : kKey i ≠ key) : v.patch key out bs i = v i := by
  rw [Values.patch]
  cases hprop : propOf key with
  | none => rfl
  | some j =>
    have hne : i ≠ j := by
      rintro rfl
      exact h (kKey_of_propOf hprop)
    dsimp only
    split
    · exact Function.update_of_ne hne _ _
    · rfl

theorem Values.patch_self {v : Values} {bs : List UInt8} {i : PropId} (h : propOf key = some i) :
    v.patch key (isOffsetKey key) bs i = bs := by
  rw [Values.patch, h]
  simp only [if_true]
  exact Function.update_self i bs v

theorem trackLatency_spec (h : Intact body) (ns : Nat) :
    Intact (trackLatency body ns) ∧
      values (trackLatency body ns) =
        ((values body).patch 0x8205 true (Mem.be32 ns)).patch 0x8301 true (Mem.be32 ns) := by
  have hkind : ∀ key, isOffsetKey key = true → ∀ (body : Mem) (i : PropId), kKey i = key →
      isOffsetKey (kKey i) = false → Mem.rd16 body (2 + i.val * 4 + 2) < danteHdrLen ∨
        danteHdrLen + arc1100Size < Mem.rd16 body (2 + i.val * 4 + 2) + 4 := by
    intro key hkey body i heq hin
    rw [heq, hkey] at hin
    cases hin
  have hfirst := arc1100PatchU32_spec h 0x8205 ns (hkind _ (by decide) _)
  have hsecond := arc1100PatchU32_spec hfirst.1 0x8301 ns (hkind _ (by decide) _)
  exact ⟨hsecond.1, hsecond.2.trans (congrArg (fun v => Values.patch v _ _ _) hfirst.2)⟩

/-- An event does to the image what it is meant to do. -/
theorem propStep_spec {x : Props} {e : PropEvent} (he : PatchesOutOfLine x e)
    (h : Intact x.body) :
    Intact (propStep x e).body ∧
      values (propStep x e).body = propSpec (values x.body) x.latencyNs e := by
  have hpatched : ∀ (r : Option Mem) (ok bad : Nat), (patched x r ok bad).1.body = r.getD x.body :=
    fun r ok bad => by cases r <;> rfl
  cases e with
  | stats q =>
    simp only [propStep, dstatsRxPatch, propSpec]
    by_cases hlong : 7 ≤ q.len ∧ q.req 0 = 0x42
    · rw [if_pos hlong, if_pos hlong, hpatched]
      exact arc1100PatchU32_spec h _ _ (he hlong.1 hlong.2)
    · rw [if_neg hlong, if_neg hlong]
      by_cases hshort : 5 ≤ q.len ∧ q.req 0 = 0x4B
      · rw [if_pos hshort, if_pos hshort, hpatched]
        exact arc1100Patch_spec h _ _
      · rw [if_neg hshort, if_neg hshort]
        exact ⟨h, rfl⟩
  | arc q =>
    simp only [propStep, arcRx1100, propSpec]
    split
    · exact ⟨h, rfl⟩
    · exact trackLatency_spec h _
  | latency v => exact ⟨h, rfl⟩

end Patching

/-! ## What a controller reads -/

/-- A controller's reading of a property whose entry is an offset into the message. -/
def readProperty (msg : Mem) (key : Nat) : Option Nat :=
  (entryOf (fun a => msg (danteHdrLen + a)) key).map fun o =>
    Mem.rd32 msg (Mem.rd16 msg (danteHdrLen + o + 2))

/-- A datagram as a memory. -/
def bytesOf (bs : List UInt8) : Mem := fun a => bs.getD a 0

section Reading

variable {body : Mem} {q : Datagram} {key val : Nat} {i : PropId}

/-- The bytes of the image follow the header. -/
theorem bytesOf_reply (body : Mem) (q : Datagram) {a : Nat} (ha : a < arc1100Size) :
    bytesOf ((Reply.mk danteCodeOk (Mem.slice body 0 arc1100Size)).bytes q.req) (danteHdrLen + a) =
      body a := by
  have hhead : (Mem.slice q.req 0 2 ++
      Mem.be16 (Reply.mk danteCodeOk (Mem.slice body 0 arc1100Size)).totalLength ++
      Mem.slice q.req 4 2 ++ Mem.slice q.req 6 2 ++ Mem.be16 danteCodeOk).length = danteHdrLen := by
    simp only [List.length_append, Mem.length_slice, length_be16]
  rw [bytesOf, Reply.bytes, List.getD_append_right _ _ _ _ (by rw [hhead]; omega), hhead,
    Nat.add_sub_cancel_left, Mem.getD_slice ha, Nat.zero_add]

/-- A scan reads the image alone. -/
theorem findEntry_congr {b b' : Mem} (h : ∀ a < arc1100Size, b a = b' a) (key : Nat) :
    ∀ n i, findEntry b key n i = findEntry b' key n i
  | 0, _ => rfl
  | n + 1, i => by
      have hrest := findEntry_congr h key n (i + 1)
      rw [findEntry, findEntry, hrest]
      by_cases hend : arc1100Size < 2 + i * 4 + 4
      · rw [if_pos hend, if_pos hend]
      · have hread : Mem.rd16 b (2 + i * 4) = Mem.rd16 b' (2 + i * 4) := by
          rw [Mem.rd16, Mem.rd16, h _ (by omega), h _ (by omega)]
        rw [if_neg hend, if_neg hend, hread]

/-- A controller reads the value of an out-of-line property off the reply. -/
theorem readProperty_reply (h : Intact body) (hprop : propOf key = some i)
    (hkind : isOffsetKey key = true) (hvalue : values body i = Mem.be32 val) :
    readProperty
        (bytesOf ((Reply.mk danteCodeOk (Mem.slice body 0 arc1100Size)).bytes q.req)) key =
      some (val % 2 ^ 32) := by
  have hbytes := fun a (ha : a < arc1100Size) => bytesOf_reply body q ha
  generalize bytesOf ((Reply.mk danteCodeOk (Mem.slice body 0 arc1100Size)).bytes q.req) = msg at *
  have hoff : isOffsetKey (kKey i) = true := by
    rw [kKey_of_propOf hprop]
    exact hkind
  obtain ⟨hlow, hhigh⟩ := kEntry_range i hoff
  have hi := i.isLt
  have hsize : arc1100Size = 202 := rfl
  have hcard : propCount = 31 := rfl
  have hfind : entryOf (fun a => msg (danteHdrLen + a)) key = some (2 + i.val * 4) := by
    have hcount : msg (danteHdrLen + 1) = body 1 := hbytes 1 (by decide)
    rw [entryOf, hcount, findEntry_congr hbytes]
    exact (entryOf_intact h key).trans (by rw [hprop]; rfl)
  have hentry : Mem.rd16 msg (danteHdrLen + (2 + i.val * 4) + 2) = kEntry i := by
    rw [← h.offsets i hoff, Mem.rd16, Mem.rd16, Nat.add_assoc danteHdrLen,
      Nat.add_assoc danteHdrLen, hbytes _ (by omega), hbytes _ (by omega)]
  have hslice : Mem.slice msg (kEntry i) 4 = Mem.be32 val := by
    have hplace : kPiece (.value i) = ⟨kEntry i - danteHdrLen, 4⟩ := if_pos hoff
    rw [← hvalue, values, Region.contents, hplace]
    refine List.map_congr_left fun k hk => ?_
    have hk' : k < 4 := List.mem_range.1 hk
    have hsplit : kEntry i + k = danteHdrLen + (kEntry i - danteHdrLen + k) := by omega
    rw [hsplit, hbytes _ (by omega)]
  rw [readProperty, hfind, Option.map_some, hentry, Mem.rd32_of_be32 hslice]

end Reading

/-! ## Runs -/

/-- The event is a patch that is addressed to a key.  Request 0x1100 patches the two current-latency
properties itself. -/
def Addresses : PropEvent → Nat → Prop
  | .stats q, key =>
      (7 ≤ q.len ∧ q.req 0 = 0x42 ∨ 5 ≤ q.len ∧ q.req 0 = 0x4B) ∧ Mem.rd16 q.req 1 = key
  | .arc _, key => key = 0x8205 ∨ key = 0x8301
  | .latency _, _ => False

/-- A value that changes was patched under its own key. -/
def Isolated (x : Props) (e : PropEvent) : Prop :=
  ∀ i, values (propStep x e).body i ≠ values x.body i → Addresses e (kKey i)

/-- A reply reports the present latency under both keys. -/
def ReportsLatency (x : Props) : PropEvent → Prop
  | .arc q => ∀ r, (arcRx1100 x q).2 = some r →
      readProperty (bytesOf r) 0x8205 = some x.latencyNs.toNat ∧
        readProperty (bytesOf r) 0x8301 = some x.latencyNs.toNat
  | _ => True

section Steps

variable {x : Props} {e : PropEvent}

theorem isolated_of_intact (he : PatchesOutOfLine x e) (h : Intact x.body) : Isolated x e := by
  intro i hchange
  by_contra hother
  apply hchange
  rw [(propStep_spec he h).2]
  cases e with
  | stats q =>
    simp only [propSpec]
    split
    · rename_i hlong
      exact Values.patch_of_ne fun heq => hother ⟨Or.inl hlong, heq.symm⟩
    · split
      · rename_i hshort
        exact Values.patch_of_ne fun heq => hother ⟨Or.inr hshort, heq.symm⟩
      · rfl
  | arc q =>
    simp only [propSpec]
    split
    · rfl
    · rw [Values.patch_of_ne fun heq => hother (Or.inr heq),
        Values.patch_of_ne fun heq => hother (Or.inl heq)]
  | latency v => rfl

theorem reports_of_intact (h : Intact x.body) : ReportsLatency x e := by
  cases e with
  | stats q => trivial
  | latency v => trivial
  | arc q =>
    intro r hr
    obtain ⟨hintact, hvalues⟩ := trackLatency_spec h x.latencyNs.toNat
    have hfirst : propOf 0x8205 = some 10 := by
      rw [propOf_eq]
      decide +kernel
    have hsecond : propOf 0x8301 = some 19 := by
      rw [propOf_eq]
      decide +kernel
    have hlat : x.latencyNs.toNat % 2 ^ 32 = x.latencyNs.toNat :=
      Nat.mod_eq_of_lt x.latencyNs.toNat_lt
    have hvalue : values (trackLatency x.body x.latencyNs.toNat) 10 =
        Mem.be32 x.latencyNs.toNat ∧
        values (trackLatency x.body x.latencyNs.toNat) 19 = Mem.be32 x.latencyNs.toNat := by
      have hother : kKey 10 ≠ 0x8301 := by decide +kernel
      rw [hvalues, Values.patch_of_ne hother]
      exact ⟨Values.patch_self hfirst, Values.patch_self hsecond⟩
    rw [arcRx1100] at hr
    split at hr
    · cases hr
    · have hone := readProperty_reply (q := q) hintact hfirst (by decide) hvalue.1
      have htwo := readProperty_reply (q := q) hintact hsecond (by decide) hvalue.2
      rw [hlat] at hone htwo
      rw [← Option.some.inj hr]
      exact ⟨hone, htwo⟩

end Steps

/-- Along a run whose 32-bit patches are addressed to properties that are out of line, or are
refused, the table stays intact, values change under their own keys only, and every reply reports
the latency. -/
theorem property_table_kept (latencyNs : UInt32) (es : List PropEvent)
    (hes : Along propStep PatchesOutOfLine (Props.boot latencyNs) es) :
    (∀ t, Intact (moment propStep (Props.boot latencyNs) es t).body) ∧
      Along propStep (fun x e => Isolated x e ∧ ReportsLatency x e) (Props.boot latencyNs) es := by
  have hall := hes.strengthen (P := fun x => Intact x.body) (fun x e he h => (propStep_spec he h).1)
    intact_boot
  constructor
  · intro t
    have htake : Along propStep PatchesOutOfLine (Props.boot latencyNs) (es.take t) := by
      rw [← List.take_append_drop t es, Along.append_iff] at hes
      exact hes.1
    exact htake.invariant (P := fun x => Intact x.body) (fun x e he h => (propStep_spec he h).1)
      intact_boot
  · exact hall.mono fun x e h => ⟨isolated_of_intact h.1 h.2, reports_of_intact h.2⟩

/-- A datagram with these bytes. -/
def bareDatagram (bs : List UInt8) : Datagram := ⟨⟨10, 0, 0, 9⟩, 7776, bytesOf bs, bs.length⟩

/-- Patching an inline property, patching one out of line, a new latency, a request. -/
def tunedTable : List PropEvent :=
  [.stats (bareDatagram [0x4B, 0x02, 0x10, 0, 16]),
    .stats (bareDatagram [0x42, 0x83, 0x06, 0, 0x03, 0xD0, 0x90]), .latency 250000,
    .arc (bareDatagram [0x28, 0x09, 0, 10, 0, 1, 0x11, 0, 0, 0])]

theorem property_table_kept_tuned :
    (∀ t, Intact (moment propStep (Props.boot 1000000) tunedTable t).body) ∧
      Along propStep (fun x e => Isolated x e ∧ ReportsLatency x e) (Props.boot 1000000)
        tunedTable := by
  have hsafe : Along propStep PatchesOutOfLine (Props.boot 1000000) tunedTable := by
    decide +kernel
  exact property_table_kept 1000000 tunedTable hsafe

/-- A 32-bit patch of inline property 0x0023, whose value is 24, writes over its key. -/
theorem key_overwritten :
    let x := propStep (Props.boot 1000000) (.stats (bareDatagram [0x42, 0, 0x23, 0xFF, 0xFF, 0, 0]))
    Mem.rd16 (Props.boot 1000000).body 14 = 0x0023 ∧ Mem.rd16 x.body 14 = 0xFFFF ∧
      ¬ Intact x.body := by
  have hkey : Mem.rd16 (propStep (Props.boot 1000000)
      (.stats (bareDatagram [0x42, 0, 0x23, 0xFF, 0xFF, 0, 0]))).body 14 = 0xFFFF := by
    decide +kernel
  refine ⟨by decide +kernel, hkey, fun h => ?_⟩
  have hkeys := h.keys 3
  have hboot : kKey 3 = 0x0023 := by decide +kernel
  rw [hboot] at hkeys
  exact absurd (hkeys.symm.trans hkey) (by decide)

end Firmware
end InfernoFpga
