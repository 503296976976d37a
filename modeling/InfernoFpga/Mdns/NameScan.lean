import InfernoFpga.Lib.Loop
import InfernoFpga.Mdns.Name

/-!
# NameScan — `name_decode` on arbitrary messages

`nameDecode` says what `name_decode` returns.  Here its loop is followed turn by turn, with the
`uint32_t` offsets of the source, every byte of the message it reads and every store into the
buffer of its caller, so that it can be said of any message whether it stays inside both, and
which names it accepts.
-/

namespace InfernoFpga
namespace Mdns

open Lib

/-- `uint32_t`. -/
def u32 (n : Nat) : Nat := n % 2 ^ 32

/-- The locals of `name_decode`, the offsets of `msg` it has read and its stores into `out`. -/
structure Scan where
  off : Nat
  next : Nat
  jumps : Nat
  o : Nat
  reads : List Nat
  stores : List (Nat × UInt8)

namespace Scan

def start (off : Nat) : Scan := ⟨off, 0, 0, 0, [], []⟩

/-- `msg[i]`. -/
def read (s : Scan) (i : Nat) : Scan := { s with reads := s.reads ++ [i] }

/-- `off = n`. -/
def setOff (s : Scan) (n : Nat) : Scan := { s with off := n }

/-- `if (!next) next = n`. -/
def setNext (s : Scan) (n : Nat) : Scan :=
  { s with next := if s.next = 0 then n else s.next }

/-- `if (o < outlen - 1) out[o++] = c`. -/
def put (outlen : Nat) (s : Scan) (c : UInt8) : Scan :=
  if s.o < outlen - 1 then { s with o := s.o + 1, stores := s.stores ++ [(s.o, c)] } else s

/-- The separator in front of every label but the first. -/
def separate (outlen : Nat) (s : Scan) : Scan := if s.o = 0 then s else s.put outlen dot

/-- One character of a label, read only if there is room for it. -/
def copyChar (msg : List UInt8) (outlen : Nat) (s : Scan) (i : Nat) : Scan :=
  if s.o < outlen - 1 then (s.read (s.off + i)).put outlen (lc (msg.getD (s.off + i) 0)) else s

/-- A label of `l` bytes at `off`. -/
def label (msg : List UInt8) (outlen l : Nat) (s : Scan) : Scan :=
  ((List.range l).foldl (copyChar msg outlen) (s.separate outlen)).setOff (u32 (s.off + l))

/-- A pointer at `off`, with first byte `l`. -/
def jump (msg : List UInt8) (l : Nat) (s : Scan) : Scan :=
  let kept := (s.setNext (u32 (s.off + 2))).read (s.off + 1)
  { kept with off := l % 64 * 256 + (msg.getD (s.off + 1) 0).toNat, jumps := s.jumps + 1 }

/-- The terminator, and the offset returned. -/
def finish (outlen : Nat) (s : Scan) : Nat × Scan :=
  (if s.next = 0 then u32 (s.off + 1) else s.next,
    { s with stores := s.stores ++ [(if s.o < outlen then s.o else outlen - 1, 0)] })

/-- What follows a length byte that has been read: the end of the name, a pointer, an error or a
label. -/
def part (msg : List UInt8) (outlen l : Nat) (s : Scan) : Turn Scan (Nat × Scan) :=
  if l = 0 then .leave ((s.setNext (u32 (s.off + 1))).finish outlen)
  else if 192 ≤ l then
    if msg.length ≤ u32 (s.off + 1) then .leave (0, s)
    else if 8 < (s.jump msg l).jumps then .leave (0, s.jump msg l)
    else .again (s.jump msg l)
  else if 64 ≤ l then .leave (0, s)
  else
    let s := s.setOff (u32 (s.off + 1))
    if msg.length < u32 (s.off + l) then .leave (0, s) else .again (s.label msg outlen l)

/-- One turn of the loop of `name_decode`; it leaves with what is returned, 0 for an error. -/
def turn (msg : List UInt8) (outlen : Nat) (s : Scan) : Turn Scan (Nat × Scan) :=
  if s.off < msg.length then (s.read s.off).part msg outlen (msg.getD s.off 0).toNat
  else .leave (s.finish outlen)

/-- `name_decode`, with everything it touches. -/
def decode (msg : List UInt8) (off outlen : Nat) : Option (Nat × Scan) :=
  loop (turn msg outlen) (9 * (msg.length + 2)) (start off)

end Scan

/-! ## Names and their parts -/

/-- The zero byte that ends a name. -/
def RootAt (msg : List UInt8) (off : Nat) : Prop := msg[off]? = some 0

/-- A label of `l` bytes, wholly inside the message. -/
structure LabelAt (msg : List UInt8) (off l : Nat) : Prop where
  pos : 0 < l
  short : l < 64
  byte : msg[off]? = some (UInt8.ofNat l)
  inside : off + 1 + l ≤ msg.length

/-- A compression pointer to offset `t`, both bytes of it inside the message. -/
def PointerAt (msg : List UInt8) (off t : Nat) : Prop :=
  ∃ hi lo : UInt8, msg[off]? = some hi ∧ 192 ≤ hi.toNat ∧ msg[off + 1]? = some lo ∧
    t = hi.toNat % 64 * 256 + lo.toNat

/-- None of these: a reserved kind of label, or a part that does not fit. -/
structure NothingAt (msg : List UInt8) (off : Nat) : Prop where
  inside : off < msg.length
  noRoot : ¬ RootAt msg off
  noLabel : ∀ l, ¬ LabelAt msg off l
  noPointer : ∀ t, ¬ PointerAt msg off t

/-- At `off` stands a well-formed name over at most `j` pointers; just past it is `q`. -/
inductive WellFormed (msg : List UInt8) : Nat → Nat → Nat → Prop
  | root {j off : Nat} : RootAt msg off → WellFormed msg j off (off + 1)
  | label {j off l q : Nat} : LabelAt msg off l → WellFormed msg j (off + 1 + l) q →
      WellFormed msg j off q
  | pointer {j off t q : Nat} : PointerAt msg off t → WellFormed msg j t q →
      WellFormed msg (j + 1) off (off + 2)

/-- Labels and at most `j` pointers lead from `off` to where the message has no more bytes. -/
inductive RunsOff (msg : List UInt8) : Nat → Nat → Prop
  | past {j off : Nat} : msg.length ≤ off → RunsOff msg j off
  | label {j off l : Nat} : LabelAt msg off l → RunsOff msg j (off + 1 + l) → RunsOff msg j off
  | pointer {j off t : Nat} : PointerAt msg off t → RunsOff msg j t → RunsOff msg (j + 1) off

/-! ## What a turn touches -/

/-- Only bytes of the message have been read, only bytes of `out` have been written, and there is
room for the terminator. -/
structure Within (msg : List UInt8) (outlen : Nat) (s : Scan) : Prop where
  reads : ∀ i ∈ s.reads, i < msg.length
  stores : ∀ x ∈ s.stores, x.1 < outlen
  room : s.o < outlen

namespace Within

variable {msg : List UInt8} {outlen : Nat} {s : Scan}

theorem start (off : Nat) (h : 0 < outlen) : Within msg outlen (Scan.start off) where
  reads := fun _ hi => absurd hi List.not_mem_nil
  stores := fun _ hx => absurd hx List.not_mem_nil
  room := h

theorem read (h : Within msg outlen s) {i : Nat} (hi : i < msg.length) :
    Within msg outlen (s.read i) where
  reads := fun k hk => by
    rcases List.mem_append.1 hk with hk | hk
    · exact h.reads k hk
    · rwa [List.mem_singleton.1 hk]
  stores := h.stores
  room := h.room

theorem setOff (h : Within msg outlen s) (n : Nat) : Within msg outlen (s.setOff n) :=
  ⟨h.reads, h.stores, h.room⟩

theorem setNext (h : Within msg outlen s) (n : Nat) : Within msg outlen (s.setNext n) :=
  ⟨h.reads, h.stores, h.room⟩

theorem put (h : Within msg outlen s) (c : UInt8) : Within msg outlen (s.put outlen c) := by
  rw [Scan.put]
  split
  · rename_i hroom
    refine ⟨h.reads, fun x hx => ?_, by simp only; omega⟩
    rcases List.mem_append.1 hx with hx | hx
    · exact h.stores x hx
    · rw [List.mem_singleton.1 hx]
      exact h.room
  · exact h

theorem separate (h : Within msg outlen s) : Within msg outlen (s.separate outlen) := by
  rw [Scan.separate]
  split
  · exact h
  · exact h.put dot

theorem copyChar (h : Within msg outlen s) {i : Nat} (hi : s.off + i < msg.length) :
    Within msg outlen (s.copyChar msg outlen i) := by
  rw [Scan.copyChar]
  split
  · exact (h.read hi).put _
  · exact h

end Within

/-- Storing characters leaves the way through the message as it is. -/
structure SameWay (s s' : Scan) : Prop where
  off : s'.off = s.off
  next : s'.next = s.next
  jumps : s'.jumps = s.jumps

namespace SameWay

variable {msg : List UInt8} {outlen : Nat} {s s' s'' : Scan}

theorem refl (s : Scan) : SameWay s s := ⟨rfl, rfl, rfl⟩

theorem trans (h : SameWay s s') (h' : SameWay s' s'') : SameWay s s'' :=
  ⟨h'.off.trans h.off, h'.next.trans h.next, h'.jumps.trans h.jumps⟩

theorem put (c : UInt8) : SameWay s (s.put outlen c) := by
  rw [Scan.put]
  split
  · exact ⟨rfl, rfl, rfl⟩
  · exact refl s

theorem separate : SameWay s (s.separate outlen) := by
  rw [Scan.separate]
  split
  · exact refl s
  · exact put dot

theorem copyChar (i : Nat) : SameWay s (s.copyChar msg outlen i) := by
  rw [Scan.copyChar]
  split
  · have hread : SameWay s (s.read (s.off + i)) := ⟨rfl, rfl, rfl⟩
    exact hread.trans (put _)
  · exact refl s

theorem copy (l : List Nat) : SameWay s (l.foldl (Scan.copyChar msg outlen) s) := by
  induction l generalizing s with
  | nil => exact refl s
  | cons i l ih => exact (copyChar i).trans ih

end SameWay

namespace Within

variable {msg : List UInt8} {outlen : Nat} {s : Scan}

theorem copy {l : List Nat} (h : Within msg outlen s) (hl : ∀ i ∈ l, s.off + i < msg.length) :
    Within msg outlen (l.foldl (Scan.copyChar msg outlen) s) := by
  induction l generalizing s with
  | nil => exact h
  | cons i l ih =>
      have hfirst := h.copyChar (hl i List.mem_cons_self)
      refine ih hfirst fun k hk => ?_
      rw [(SameWay.copyChar i).off]
      exact hl k (List.mem_cons_of_mem i hk)

theorem label (h : Within msg outlen s) {l : Nat} (hl : s.off + l ≤ msg.length) :
    Within msg outlen (s.label msg outlen l) := by
  have hcopy : Within msg outlen
      ((List.range l).foldl (Scan.copyChar msg outlen) (s.separate outlen)) := by
    refine h.separate.copy fun i hi => ?_
    rw [SameWay.separate.off]
    have hlt := List.mem_range.1 hi
    omega
  exact hcopy.setOff _

theorem jump (h : Within msg outlen s) (l : Nat) (hin : s.off + 1 < msg.length) :
    Within msg outlen (s.jump msg l) := by
  have hread := (h.setNext (u32 (s.off + 2))).read hin
  exact ⟨hread.reads, hread.stores, hread.room⟩

theorem finish (h : Within msg outlen s) : Within msg outlen (s.finish outlen).2 := by
  refine ⟨h.reads, fun x hx => ?_, h.room⟩
  rcases List.mem_append.1 hx with hx | hx
  · exact h.stores x hx
  · rw [List.mem_singleton.1 hx]
    exact (if_pos h.room).trans_lt h.room

theorem part (h : Within msg outlen s) (l : Nat) (hmsg : msg.length + 64 ≤ 2 ^ 32)
    (hoff : s.off < msg.length) :
    (s.part msg outlen l).All (Within msg outlen) fun r => Within msg outlen r.2 := by
  have hone : u32 (s.off + 1) = s.off + 1 := Nat.mod_eq_of_lt (by omega)
  rw [Scan.part]
  split
  · exact (h.setNext _).finish
  split
  · rw [hone]
    split
    · exact h
    split
    · exact h.jump l (by omega)
    · exact h.jump l (by omega)
  split
  · exact h
  · have hpast := h.setOff (u32 (s.off + 1))
    have hend : u32 (u32 (s.off + 1) + l) = s.off + 1 + l := by
      rw [hone]
      exact Nat.mod_eq_of_lt (by omega)
    have hoff : (s.setOff (u32 (s.off + 1))).off = u32 (s.off + 1) := rfl
    simp only [hoff, hend]
    split
    · exact hpast
    · exact hpast.label (by rw [hoff, hone]; omega)

theorem turn (h : Within msg outlen s) (hmsg : msg.length + 64 ≤ 2 ^ 32) :
    (s.turn msg outlen).All (Within msg outlen) fun r => Within msg outlen r.2 := by
  rw [Scan.turn]
  split
  · rename_i hoff
    exact (h.read hoff).part _ hmsg hoff
  · exact h.finish

end Within

/-! ## What a turn does -/

section Turns

variable {msg : List UInt8} {outlen off l t : Nat} {s : Scan}

theorem RootAt.lt (h : RootAt msg off) : off < msg.length :=
  (List.getElem?_eq_some_iff.1 h).1

theorem RootAt.getD (h : RootAt msg off) : (msg.getD off 0).toNat = 0 := by
  rw [List.getD_eq_getElem?_getD, h]
  rfl

theorem LabelAt.getD (h : LabelAt msg off l) : (msg.getD off 0).toNat = l := by
  have hshort := h.short
  rw [List.getD_eq_getElem?_getD, h.byte, Option.getD_some, UInt8.toNat_ofNat']
  omega

/-- What its two bytes say. -/
theorem PointerAt.getD (h : PointerAt msg off t) :
    off + 1 < msg.length ∧ 192 ≤ (msg.getD off 0).toNat ∧
      t = (msg.getD off 0).toNat % 64 * 256 + (msg.getD (off + 1) 0).toNat := by
  obtain ⟨hi, lo, hhi, hbig, hlo, rfl⟩ := h
  rw [List.getD_eq_getElem?_getD, List.getD_eq_getElem?_getD, hhi, hlo]
  exact ⟨(List.getElem?_eq_some_iff.1 hlo).1, hbig, rfl⟩

theorem PointerAt.lt (h : PointerAt msg off t) : t + 1 < 2 ^ 32 := by
  have hlo := (msg.getD (off + 1) 0).toNat_lt
  have htarget := h.getD.2.2
  omega

/-- A well-formed name does not run off the message. -/
theorem WellFormed.not_runsOff {j q : Nat} (h : WellFormed msg j off q) : ¬ RunsOff msg j off := by
  induction h with
  | root h =>
      have hin := h.lt
      have hbyte := h.getD
      rintro (hpast | ⟨hl, -⟩ | ⟨hp, -⟩)
      · omega
      · have hpos := hl.pos
        have hl := hl.getD
        omega
      · have hbig := hp.getD.2.1
        omega
  | label h _ ih =>
      have hin := h.inside
      have hshort := h.short
      have hbyte := h.getD
      rintro (hpast | ⟨hl, hrest⟩ | ⟨hp, -⟩)
      · omega
      · rw [← hl.getD, hbyte] at hrest
        exact ih hrest
      · have hbig := hp.getD.2.1
        omega
  | pointer h _ ih =>
      obtain ⟨hin, hbig, ht⟩ := h.getD
      rintro (hpast | ⟨hl, -⟩ | ⟨hp, hrest⟩)
      · omega
      · have hshort := hl.short
        have hl := hl.getD
        omega
      · rw [hp.getD.2.2, ← ht] at hrest
        exact ih hrest

/-- What the first byte is, where nothing of a name stands. -/
theorem NothingAt.getD (h : NothingAt msg off) : (msg.getD off 0).toNat ≠ 0 ∧
    (192 ≤ (msg.getD off 0).toNat → msg.length ≤ off + 1) ∧
      ((msg.getD off 0).toNat < 64 → msg.length < off + 1 + (msg.getD off 0).toNat) := by
  have hget : msg[off]? = some (msg.getD off 0) := by
    rw [List.getElem?_eq_getElem h.inside, List.getD_eq_getElem _ _ h.inside]
  generalize msg.getD off 0 = b at hget
  have hzero : b.toNat ≠ 0 := fun h0 => by
    have hb : b = 0 := UInt8.toNat_inj.1 h0
    exact h.noRoot (by rw [RootAt, hget, hb])
  refine ⟨hzero, fun hbig => ?_, fun hshort => ?_⟩
  · by_contra hend
    have hlo := List.getElem?_eq_getElem (by omega : off + 1 < msg.length)
    exact h.noPointer _ ⟨b, _, hget, hbig, hlo, rfl⟩
  · by_contra hend
    refine h.noLabel b.toNat ⟨by omega, hshort, ?_, by omega⟩
    rw [hget, UInt8.ofNat_toNat]

/-- What can stand at an offset. -/
theorem part_cases (msg : List UInt8) (off : Nat) :
    msg.length ≤ off ∨ RootAt msg off ∨ (∃ l, LabelAt msg off l) ∨ (∃ t, PointerAt msg off t) ∨
      NothingAt msg off := by
  by_cases hlabel : ∃ l, LabelAt msg off l
  · exact .inr (.inr (.inl hlabel))
  by_cases hpointer : ∃ t, PointerAt msg off t
  · exact .inr (.inr (.inr (.inl hpointer)))
  by_cases hroot : RootAt msg off
  · exact .inr (.inl hroot)
  rcases Nat.lt_or_ge off msg.length with hin | hpast
  · exact .inr (.inr (.inr (.inr ⟨hin, hroot, not_exists.1 hlabel, not_exists.1 hpointer⟩)))
  · exact .inl hpast

theorem WellFormed.pos {j q : Nat} (h : WellFormed msg j off q) : 0 < q := by
  induction h with
  | root => exact Nat.succ_pos _
  | label _ _ ih => exact ih
  | pointer => exact Nat.succ_pos _

theorem WellFormed.lt {j q : Nat} (h : WellFormed msg j off q) : off < msg.length := by
  by_contra hpast
  exact h.not_runsOff (.past (by omega))

namespace Scan

theorem turn_past (h : msg.length ≤ s.off) : s.turn msg outlen = .leave (s.finish outlen) :=
  if_neg (by omega)

variable (outlen) in
theorem turn_root (h : RootAt msg s.off) : s.turn msg outlen =
    .leave (((s.read s.off).setNext (u32 (s.off + 1))).finish outlen) := by
  rw [turn, if_pos h.lt, h.getD]
  rfl

variable (msg outlen) in
theorem label_way (l : Nat) (s : Scan) :
    SameWay (s.setOff (u32 (s.off + l))) (s.label msg outlen l) := by
  have hcopy : SameWay s ((List.range l).foldl (copyChar msg outlen) (s.separate outlen)) :=
    SameWay.separate.trans (.copy _)
  exact ⟨rfl, hcopy.next, hcopy.jumps⟩

theorem turn_label_eq (hmsg : msg.length + 64 ≤ 2 ^ 32) (h : LabelAt msg s.off l) :
    s.turn msg outlen = .again (((s.read s.off).setOff (s.off + 1)).label msg outlen l) := by
  have hpos := h.pos
  have hshort := h.short
  have hin := h.inside
  have hone : u32 (s.off + 1) = s.off + 1 := Nat.mod_eq_of_lt (by omega)
  have hend : u32 (s.off + 1 + l) = s.off + 1 + l := Nat.mod_eq_of_lt (by omega)
  have hread : (s.read s.off).off = s.off := rfl
  have hpast : ((s.read s.off).setOff (s.off + 1)).off = s.off + 1 := rfl
  rw [turn, if_pos (by omega), h.getD, part, if_neg (by omega), if_neg (by omega),
    if_neg (by omega), hread, hone]
  simp only [hpast, hend]
  exact if_neg (by omega)

variable (outlen) in
/-- A label is passed; where it goes on is all that changes of the way. -/
theorem turn_label (hmsg : msg.length + 64 ≤ 2 ^ 32) (h : LabelAt msg s.off l) :
    ∃ s', s.turn msg outlen = .again s' ∧ s'.off = s.off + 1 + l ∧ s'.next = s.next ∧
      s'.jumps = s.jumps := by
  have hin := h.inside
  have hend : u32 (s.off + 1 + l) = s.off + 1 + l := Nat.mod_eq_of_lt (by omega)
  have hway := label_way msg outlen l ((s.read s.off).setOff (s.off + 1))
  exact ⟨_, turn_label_eq hmsg h, hway.off.trans hend, hway.next, hway.jumps⟩

variable (outlen) in
theorem turn_pointer_eq (hmsg : msg.length + 64 ≤ 2 ^ 32) (h : PointerAt msg s.off t) :
    s.turn msg outlen =
      if s.jumps < 8 then .again ((s.read s.off).jump msg (msg.getD s.off 0).toNat)
      else .leave (0, (s.read s.off).jump msg (msg.getD s.off 0).toNat) := by
  obtain ⟨hin, hbig, -⟩ := h.getD
  have hone : u32 (s.off + 1) = s.off + 1 := Nat.mod_eq_of_lt (by omega)
  have hread : (s.read s.off).off = s.off := rfl
  have hjumps : ((s.read s.off).jump msg (msg.getD s.off 0).toNat).jumps = s.jumps + 1 := rfl
  rw [turn, if_pos (by omega), part, if_neg (by omega), if_pos hbig, hread, hone,
    if_neg (by omega), hjumps]
  by_cases hmany : s.jumps < 8
  · rw [if_neg (by omega), if_pos hmany]
  · rw [if_pos (by omega), if_neg hmany]

theorem next_jump (hmsg : msg.length + 64 ≤ 2 ^ 32) (h : s.off < msg.length) :
    ((s.read s.off).jump msg l).next = if s.next = 0 then s.off + 2 else s.next := by
  have htwo : u32 (s.off + 2) = s.off + 2 := Nat.mod_eq_of_lt (by omega)
  show (if s.next = 0 then u32 (s.off + 2) else s.next) = _
  rw [htwo]

variable (outlen) in
/-- A pointer is followed, or is one too many. -/
theorem turn_pointer (hmsg : msg.length + 64 ≤ 2 ^ 32) (h : PointerAt msg s.off t) :
    ∃ s', s.turn msg outlen = (if s.jumps < 8 then .again s' else .leave (0, s')) ∧ s'.off = t ∧
      s'.next = (if s.next = 0 then s.off + 2 else s.next) ∧ s'.jumps = s.jumps + 1 := by
  obtain ⟨hin, -, ht⟩ := h.getD
  exact ⟨_, turn_pointer_eq outlen hmsg h, ht.symm, next_jump hmsg (by omega), rfl⟩

variable (outlen) in
/-- Anything else inside the message is an error. -/
theorem turn_else (hmsg : msg.length + 64 ≤ 2 ^ 32) (h : NothingAt msg s.off) :
    ∃ s', s.turn msg outlen = .leave (0, s') := by
  have hoff := h.inside
  obtain ⟨hzero, hbig, hshort⟩ := h.getD
  have hone : u32 (s.off + 1) = s.off + 1 := Nat.mod_eq_of_lt (by omega)
  have hread : (s.read s.off).off = s.off := rfl
  rw [turn, if_pos hoff, part, if_neg hzero, hread, hone]
  split
  · rename_i h192
    exact ⟨_, if_pos (hbig h192)⟩
  split
  · exact ⟨_, rfl⟩
  · rename_i h64
    have hend := hshort (by omega)
    have hbyte := (msg.getD s.off 0).toNat_lt
    have hwrap : u32 (s.off + 1 + (msg.getD s.off 0).toNat) =
        s.off + 1 + (msg.getD s.off 0).toNat := Nat.mod_eq_of_lt (by omega)
    have hpast : ((s.read s.off).setOff (s.off + 1)).off = s.off + 1 := rfl
    refine ⟨_, if_pos ?_⟩
    rw [hpast, hwrap]
    exact hend

/-- The bytes that are still in front, once for each pointer that may still be followed. -/
def fuel (msg : List UInt8) (s : Scan) : Nat :=
  (8 - s.jumps) * (msg.length + 2) + (msg.length + 1 - s.off)

theorem variant_turn (hmsg : msg.length + 64 ≤ 2 ^ 32) : Variant (turn msg outlen) (fuel msg) := by
  intro s
  rcases part_cases msg s.off with h | h | ⟨l, h⟩ | ⟨t, h⟩ | h
  · rw [turn_past h]
    trivial
  · rw [turn_root outlen h]
    trivial
  · obtain ⟨s', hturn, hoff, -, hjumps⟩ := turn_label outlen hmsg h
    have hin := h.inside
    rw [hturn]
    simp only [Turn.All, fuel, hjumps, hoff]
    omega
  · obtain ⟨s', hturn, -, -, hjumps⟩ := turn_pointer outlen hmsg h
    rw [hturn]
    split
    · -- one pointer fewer makes up for all the bytes gone over again
      have hleft : 8 - s.jumps = 8 - s'.jumps + 1 := by omega
      simp only [Turn.All, fuel, hleft, Nat.add_mul]
      omega
    · trivial
  · obtain ⟨s', hturn⟩ := turn_else outlen hmsg h
    rw [hturn]
    trivial

/-- `name_decode` returns, whatever the message. -/
theorem decode_eq_of_leaves {r : Nat × Scan} (hmsg : msg.length + 64 ≤ 2 ^ 32)
    (h : Leaves (turn msg outlen) (start off) r) : decode msg off outlen = some r := by
  refine (variant_turn hmsg).loop_eq_of_leaves ?_ h
  simp only [fuel, start]
  omega

theorem exists_decode (outlen off : Nat) (hmsg : msg.length + 64 ≤ 2 ^ 32) :
    ∃ r, decode msg off outlen = some r := by
  refine (variant_turn hmsg).exists_loop_eq ?_
  simp only [fuel, start]
  omega

/-! ## What a run comes to -/

variable (outlen) in
theorem finish_fst (h : s.off + 1 < 2 ^ 32) :
    (s.finish outlen).1 = if s.next = 0 then s.off + 1 else s.next := by
  show (if s.next = 0 then u32 (s.off + 1) else s.next) = _
  rw [u32, Nat.mod_eq_of_lt h]

variable (outlen) in
/-- A well-formed name is accepted, with the offset just past it. -/
theorem leaves_of_wellFormed {j q : Nat} (hmsg : msg.length + 64 ≤ 2 ^ 32)
    (h : WellFormed msg j off q) : ∀ {s : Scan}, s.off = off → s.jumps + j = 8 →
      ∃ s', Leaves (turn msg outlen) s (if s.next = 0 then q else s.next, s') := by
  induction h with
  | @root j off h =>
      rintro s rfl -
      have hin := h.lt
      have hone : u32 (s.off + 1) = s.off + 1 := Nat.mod_eq_of_lt (by omega)
      have hturn := turn_root outlen h
      rw [hone] at hturn
      have hret : (((s.read s.off).setNext (s.off + 1)).finish outlen).1 =
          if s.next = 0 then s.off + 1 else s.next := by
        rw [finish_fst outlen (by show s.off + 1 < _; omega)]
        show (if (if s.next = 0 then s.off + 1 else s.next) = 0 then s.off + 1
          else if s.next = 0 then s.off + 1 else s.next) = _
        split <;> rfl
      refine ⟨(((s.read s.off).setNext (s.off + 1)).finish outlen).2, ?_⟩
      rw [← hret]
      exact .now hturn
  | @label j off l q h _ ih =>
      rintro s rfl hjumps
      obtain ⟨s', hturn, hoff', hnext', hjumps'⟩ := turn_label outlen hmsg h
      obtain ⟨s'', hrest⟩ := ih hoff' (by omega)
      rw [hnext'] at hrest
      exact ⟨s'', .later hturn hrest⟩
  | @pointer j off t q h _ ih =>
      rintro s rfl hjumps
      obtain ⟨s', hturn, hoff', hnext', hjumps'⟩ := turn_pointer outlen hmsg h
      rw [if_pos (by omega)] at hturn
      obtain ⟨s'', hrest⟩ := ih hoff' (by omega)
      -- the first pointer has fixed where the caller goes on
      have hset : s'.next ≠ 0 := by
        rw [hnext']
        split <;> omega
      rw [if_neg hset, hnext'] at hrest
      exact ⟨s'', .later hturn hrest⟩

variable (outlen) in
/-- Where labels and pointers run off the message, some offset is returned all the same. -/
theorem leaves_of_runsOff {j : Nat} (hmsg : msg.length + 64 ≤ 2 ^ 32) (h : RunsOff msg j off) :
    ∀ {s : Scan}, s.off = off → off + 1 < 2 ^ 32 → s.jumps + j = 8 →
      ∃ r, r.1 ≠ 0 ∧ Leaves (turn msg outlen) s r := by
  induction h with
  | @past j off h =>
      rintro s rfl hoff -
      refine ⟨_, ?_, .now (turn_past h)⟩
      rw [finish_fst outlen hoff]
      split <;> omega
  | @label j off l h _ ih =>
      rintro s rfl hoff hjumps
      have hin := h.inside
      obtain ⟨s', hturn, hoff', -, hjumps'⟩ := turn_label outlen hmsg h
      obtain ⟨r, hret, hrest⟩ := ih hoff' (by omega) (by omega)
      exact ⟨r, hret, .later hturn hrest⟩
  | @pointer j off t h _ ih =>
      rintro s rfl hoff hjumps
      obtain ⟨s', hturn, hoff', -, hjumps'⟩ := turn_pointer outlen hmsg h
      rw [if_pos (by omega)] at hturn
      obtain ⟨r, hret, hrest⟩ := ih hoff' h.lt (by omega)
      exact ⟨r, hret, .later hturn hrest⟩

/-- Nothing else is accepted. -/
theorem accepted_of_leaves {r : Nat × Scan} (hmsg : msg.length + 64 ≤ 2 ^ 32)
    (h : Leaves (turn msg outlen) s r) (hret : r.1 ≠ 0) (hjumps : s.jumps ≤ 8) :
    (∃ q, WellFormed msg (8 - s.jumps) s.off q) ∨ RunsOff msg (8 - s.jumps) s.off := by
  induction h with
  | @now s r hleave =>
      rcases part_cases msg s.off with h | h | ⟨l, h⟩ | ⟨t, h⟩ | h
      · exact .inr (.past h)
      · exact .inl ⟨_, .root h⟩
      · obtain ⟨s', hturn, -⟩ := turn_label outlen hmsg h
        rw [hleave] at hturn
        cases hturn
      · obtain ⟨s', hturn, -⟩ := turn_pointer outlen hmsg h
        rw [hleave] at hturn
        split at hturn
        · cases hturn
        · cases hturn
          exact absurd rfl hret
      · obtain ⟨s', hturn⟩ := turn_else outlen hmsg h
        rw [hleave] at hturn
        cases hturn
        exact absurd rfl hret
  | @later s s' r hagain _ ih =>
      rcases part_cases msg s.off with h | h | ⟨l, h⟩ | ⟨t, h⟩ | h
      · exact .inr (.past h)
      · exact .inl ⟨_, .root h⟩
      · obtain ⟨s₁, hturn, hoff, -, hjumps'⟩ := turn_label outlen hmsg h
        rw [hagain] at hturn
        cases hturn
        rw [hoff, hjumps'] at ih
        rcases ih hret hjumps with ⟨q, hrest⟩ | hrest
        · exact .inl ⟨q, .label h hrest⟩
        · exact .inr (.label h hrest)
      · obtain ⟨s₁, hturn, hoff, -, hjumps'⟩ := turn_pointer outlen hmsg h
        rw [hagain] at hturn
        split at hturn
        · rename_i hfew
          cases hturn
          have hleft : 8 - s.jumps = 8 - s'.jumps + 1 := by omega
          rw [hoff] at ih
          rw [hleft]
          rcases ih hret (by omega) with ⟨q, hrest⟩ | hrest
          · exact .inl ⟨_, .pointer h hrest⟩
          · exact .inr (.pointer h hrest)
        · cases hturn
      · obtain ⟨s₁, hturn⟩ := turn_else outlen hmsg h
        rw [hagain] at hturn
        cases hturn

end Scan

end Turns

/-! ## Exact decoding -/

/-- What is asked of `name_decode`: that it returns, that it stays inside the message and inside
`out`, that it succeeds exactly on well-formed names, and that it returns where the name ends. -/
def DecodesExactly (msg : List UInt8) (off outlen : Nat) : Prop :=
  ∃ ret s, Scan.decode msg off outlen = some (ret, s) ∧
    (∀ i ∈ s.reads, i < msg.length) ∧ (∀ x ∈ s.stores, x.1 < outlen) ∧
    (ret ≠ 0 ↔ ∃ q, WellFormed msg 8 off q) ∧ ∀ q, WellFormed msg 8 off q → ret = q

section Exact

variable {msg : List UInt8} {off outlen : Nat}

/-- It never reads or writes anywhere else. -/
theorem within_of_leaves {r : Nat × Scan} (hmsg : msg.length + 64 ≤ 2 ^ 32) (hout : 0 < outlen)
    (h : Leaves (Scan.turn msg outlen) (Scan.start off) r) : Within msg outlen r.2 :=
  h.post (Q := fun r => Within msg outlen r.2) (fun _ hs => hs.turn hmsg) (Within.start off hout)

/-- It is exact unless labels and pointers run off the message; from the very last offset of all
the offset it would return is 0, the error. -/
theorem decodesExactly_iff (hmsg : msg.length + 64 ≤ 2 ^ 32) (hoff : off < 2 ^ 32)
    (hout : 0 < outlen) :
    DecodesExactly msg off outlen ↔ ¬ RunsOff msg 8 off ∨ off + 1 = 2 ^ 32 := by
  constructor
  · rintro ⟨ret, s, hdecode, -, -, hexact, -⟩
    by_contra hnot
    obtain ⟨hruns, hlast⟩ := not_or.1 hnot
    have hruns := not_not.1 hruns
    obtain ⟨r, hret, hleaves⟩ := Scan.leaves_of_runsOff outlen hmsg hruns
      (s := Scan.start off) rfl (by omega) rfl
    rw [Scan.decode_eq_of_leaves hmsg hleaves] at hdecode
    cases hdecode
    obtain ⟨q, hname⟩ := hexact.1 hret
    exact hname.not_runsOff hruns
  · intro hwhen
    obtain ⟨⟨ret, s⟩, hdecode⟩ := Scan.exists_decode outlen off hmsg
    have hleaves := leaves_of_loop hdecode
    have hwithin := within_of_leaves hmsg hout hleaves
    -- a well-formed name is accepted with its end
    have hend : ∀ q, WellFormed msg 8 off q → ret = q := by
      intro q hname
      obtain ⟨s', hleaves'⟩ := Scan.leaves_of_wellFormed outlen hmsg hname
        (s := Scan.start off) rfl rfl
      exact congrArg Prod.fst (hleaves.unique hleaves')
    refine ⟨ret, s, hdecode, hwithin.reads, hwithin.stores, ⟨fun hret => ?_, ?_⟩, hend⟩
    · rcases Scan.accepted_of_leaves hmsg hleaves hret (Nat.zero_le 8) with hname | hruns
      · exact hname
      · rcases hwhen with hnot | hlast
        · exact absurd hruns hnot
        · have hpast : msg.length ≤ (Scan.start off).off := by
            show msg.length ≤ off
            omega
          have hzero := hleaves.unique (.now (Scan.turn_past hpast))
          have hwrap : u32 (off + 1) = 0 := by rw [hlast]; rfl
          exact absurd ((congrArg Prod.fst hzero).trans hwrap) hret
    · rintro ⟨q, hname⟩
      rw [hend q hname]
      exact Nat.pos_iff_ne_zero.1 hname.pos

/-- A label `a`, the end of the name, and room for more. -/
theorem decodesExactly_label : DecodesExactly [1, 97, 0] 0 128 := by
  have hlabel : LabelAt [1, 97, 0] 0 1 := ⟨by decide, by decide, rfl, by decide⟩
  have hroot : RootAt [1, 97, 0] 2 := rfl
  exact (decodesExactly_iff (by decide) (by decide) (by decide)).2
    (.inl (WellFormed.label hlabel (.root hroot)).not_runsOff)

/-- A question whose name is a pointer to offset 255. -/
def strayQuestion : List UInt8 :=
  [0, 0, 0, 0, 0, 1, 0, 0, 0, 0, 0, 0, 192, 255, 0, 1, 0, 1]

/-- The name is read as empty, and the question goes on behind the pointer. -/
theorem strayQuestion_accepted : ¬ DecodesExactly strayQuestion 12 128 := by
  rintro ⟨ret, s, hdecode, -, -, hexact, -⟩
  have hret : (Scan.decode strayQuestion 12 128).map Prod.fst = some 14 := by decide +kernel
  rw [hdecode] at hret
  have h14 : ret = 14 := Option.some.inj hret
  obtain ⟨q, hname⟩ := hexact.1 (by omega)
  have hpointer : PointerAt strayQuestion 12 255 := ⟨192, 255, rfl, by decide, rfl, rfl⟩
  exact hname.not_runsOff (.pointer hpointer (.past (by decide)))

end Exact

/-! ## What is read -/

section Loop

variable {msg : List UInt8} {fuel off next jumps l t : Nat} {out : Str}

theorem nameDecodeLoop_end (h : msg.length ≤ off ∨ RootAt msg off) :
    nameDecodeLoop msg (fuel + 1) off next jumps out =
      some (if next = 0 then off + 1 else next, cstr out) := by
  rw [nameDecodeLoop]
  exact if_pos (h.imp id RootAt.getD)

theorem nameDecodeLoop_label (h : LabelAt msg off l) :
    nameDecodeLoop msg (fuel + 1) off next jumps out =
      nameDecodeLoop msg fuel (off + 1 + l) next jumps
        ((((msg.drop (off + 1)).take l).map lc).foldl putChar (putDot out)) := by
  have hpos := h.pos
  have hshort := h.short
  have hin := h.inside
  rw [nameDecodeLoop]
  simp only [h.getD]
  rw [if_neg (by omega), if_neg (by omega), if_neg (by omega), if_neg (by omega)]

theorem nameDecodeLoop_pointer (h : PointerAt msg off t) :
    nameDecodeLoop msg (fuel + 1) off next jumps out =
      if jumps < 8 then
        nameDecodeLoop msg fuel t (if next = 0 then off + 2 else next) (jumps + 1) out
      else none := by
  obtain ⟨hin, hbig, ht⟩ := h.getD
  rw [nameDecodeLoop]
  simp only [← ht]
  rw [if_neg (by omega), if_pos hbig]
  by_cases hmany : jumps < 8
  · rw [if_neg (by omega), if_pos hmany]
  · rw [if_pos (by omega), if_neg hmany]

theorem nameDecodeLoop_else (h : NothingAt msg off) :
    nameDecodeLoop msg (fuel + 1) off next jumps out = none := by
  have hin := h.inside
  obtain ⟨hzero, hbig, hshort⟩ := h.getD
  rw [nameDecodeLoop]
  simp only
  rw [if_neg (by omega)]
  split
  · rename_i h192
    exact if_pos (.inl (hbig h192))
  split
  · rfl
  · exact if_pos (hshort (by omega))

end Loop

namespace Scan

/-- The characters stored, in order. -/
def text (s : Scan) : Str := s.stores.map Prod.snd

/-- They lie one behind the other from the front of `out`. -/
def Aligned (s : Scan) : Prop := s.o = s.text.length

variable {msg : List UInt8} {s : Scan}

theorem text_snoc (s : Scan) (x : Nat × UInt8) :
    (s.stores ++ [x]).map Prod.snd = s.text ++ [x.2] := by
  rw [List.map_append]
  rfl

theorem put_text (h : s.Aligned) (c : UInt8) :
    (s.put qnameLen c).Aligned ∧ (s.put qnameLen c).text = putChar s.text c := by
  rw [put, putChar, ← h]
  split
  · refine ⟨?_, text_snoc s (s.o, c)⟩
    show s.o + 1 = ((s.stores ++ [(s.o, c)]).map Prod.snd).length
    rw [text_snoc, List.length_append, ← h]
    rfl
  · exact ⟨h, rfl⟩

theorem separate_text (h : s.Aligned) :
    (s.separate qnameLen).Aligned ∧ (s.separate qnameLen).text = putDot s.text := by
  have hnil : s.text = [] ↔ s.o = 0 := by rw [h, List.length_eq_zero_iff]
  rw [separate, putDot]
  by_cases hzero : s.o = 0
  · rw [if_pos hzero, if_pos (hnil.2 hzero)]
    exact ⟨h, rfl⟩
  · rw [if_neg hzero, if_neg (mt hnil.1 hzero)]
    exact put_text h dot

variable (msg) in
theorem copyChar_text (h : s.Aligned) (i : Nat) :
    (s.copyChar msg qnameLen i).Aligned ∧
      (s.copyChar msg qnameLen i).text = putChar s.text (lc (msg.getD (s.off + i) 0)) := by
  rw [copyChar]
  split
  · exact put_text (s := s.read (s.off + i)) h _
  · rename_i hfull
    rw [putChar, ← h, if_neg hfull]
    exact ⟨h, rfl⟩

variable (msg) in
theorem copy_text (h : s.Aligned) (l : List Nat) :
    (l.foldl (copyChar msg qnameLen) s).Aligned ∧
      (l.foldl (copyChar msg qnameLen) s).text =
        (l.map fun i => lc (msg.getD (s.off + i) 0)).foldl putChar s.text := by
  induction l generalizing s with
  | nil => exact ⟨h, rfl⟩
  | cons i l ih =>
      obtain ⟨halign, htext⟩ := copyChar_text msg h i
      have hrest := ih halign
      rw [(SameWay.copyChar i).off, htext] at hrest
      exact hrest

theorem range_label {off l : Nat} (h : off + l ≤ msg.length) :
    ((List.range l).map fun i => lc (msg.getD (off + i) 0)) =
      ((msg.drop off).take l).map lc := by
  refine List.ext_getElem (by simp; omega) fun i hi _ => ?_
  rw [List.length_map, List.length_range] at hi
  have hin : off + i < msg.length := by omega
  simp [List.getElem?_eq_getElem hin]

variable (msg) in
theorem label_text (h : s.Aligned) {l : Nat} (hl : s.off + l ≤ msg.length) :
    (s.label msg qnameLen l).Aligned ∧
      (s.label msg qnameLen l).text =
        (((msg.drop s.off).take l).map lc).foldl putChar (putDot s.text) := by
  obtain ⟨hsep, htext⟩ := separate_text h
  have hcopy := copy_text msg hsep (List.range l)
  rw [SameWay.separate.off, htext, range_label hl] at hcopy
  exact hcopy

/-- What the caller makes of the outcome: nothing of an error, else the C string in `out`. -/
def outcome (r : Nat × Scan) : Option (Nat × Str) :=
  if r.1 = 0 then none else some (r.1, cstr r.2.text)

theorem cstr_terminated (out : Str) : cstr (out ++ [0]) = cstr out := by
  induction out with
  | nil => rfl
  | cons c out ih =>
      rw [cstr, cstr, List.cons_append, List.takeWhile_cons, List.takeWhile_cons]
      split
      · exact congrArg (List.cons c) ih
      · rfl

theorem outcome_finish (outlen : Nat) (h : s.off + 1 < 2 ^ 32) : outcome (s.finish outlen) =
    some (if s.next = 0 then s.off + 1 else s.next, cstr s.text) := by
  have hret := finish_fst outlen h
  have hne : (s.finish outlen).1 ≠ 0 := by
    rw [hret]
    split <;> omega
  have htext : (s.finish outlen).2.text = s.text ++ [0] := text_snoc s _
  rw [outcome, if_neg hne, htext, cstr_terminated, hret]

/-- Turn by turn it is the decoder of the responder. -/
theorem loop_outcome (hmsg : msg.length + 64 ≤ 2 ^ 32) (fuel : Nat) :
    ∀ {s : Scan}, s.Aligned → s.off + 1 < 2 ^ 32 →
      (loop (turn msg qnameLen) fuel s).bind outcome =
        nameDecodeLoop msg fuel s.off s.next s.jumps s.text := by
  induction fuel with
  | zero => exact fun _ _ => rfl
  | succ fuel ih =>
      intro s halign hoff
      rcases part_cases msg s.off with h | h | ⟨l, h⟩ | ⟨t, h⟩ | h
      · rw [loop_leave (turn_past h), nameDecodeLoop_end (.inl h)]
        exact outcome_finish qnameLen hoff
      · have hone : u32 (s.off + 1) = s.off + 1 := Nat.mod_eq_of_lt hoff
        have hnext : ((s.read s.off).setNext (s.off + 1)).next =
            if s.next = 0 then s.off + 1 else s.next := rfl
        have hfin := outcome_finish qnameLen
          (s := (s.read s.off).setNext (s.off + 1)) hoff
        rw [loop_leave (turn_root qnameLen h), nameDecodeLoop_end (.inr h), hone]
        refine hfin.trans ?_
        rw [hnext]
        by_cases hset : s.next = 0
        · rw [if_pos hset, if_neg (Nat.succ_ne_zero _)]
          rfl
        · rw [if_neg hset, if_neg hset]
          rfl
      · have hin := h.inside
        have hend : u32 (s.off + 1 + l) = s.off + 1 + l := Nat.mod_eq_of_lt (by omega)
        have hway := label_way msg qnameLen l
          ((s.read s.off).setOff (s.off + 1))
        have htext := label_text msg (s := (s.read s.off).setOff (s.off + 1)) halign
          (l := l) hin
        have hoff' := hway.off.trans hend
        have hrest := ih htext.1 (by omega)
        rw [htext.2, hoff', hway.next, hway.jumps] at hrest
        rw [loop_again (turn_label_eq hmsg h), nameDecodeLoop_label h]
        exact hrest
      · obtain ⟨hin, -, ht⟩ := h.getD
        have htarget := h.lt
        rw [ht] at htarget
        have hrest := ih (s := (s.read s.off).jump msg (msg.getD s.off 0).toNat) halign htarget
        rw [next_jump hmsg (by omega)] at hrest
        have hturn := turn_pointer_eq qnameLen hmsg h
        rw [nameDecodeLoop_pointer h]
        by_cases hmany : s.jumps < 8
        · rw [if_pos hmany] at hturn ⊢
          rw [loop_again hturn, hrest, ht]
          rfl
        · rw [if_neg hmany] at hturn ⊢
          rw [loop_leave hturn]
          rfl
      · obtain ⟨s', hturn⟩ := turn_else qnameLen hmsg h
        rw [loop_leave hturn, nameDecodeLoop_else h]
        rfl

/-- `nameDecode` is what the source computes, for the buffer of the responder. -/
theorem nameDecode_eq {off : Nat} (hmsg : msg.length + 64 ≤ 2 ^ 32) (hoff : off + 1 < 2 ^ 32) :
    nameDecode msg off = (decode msg off qnameLen).bind outcome :=
  (loop_outcome hmsg (9 * (msg.length + 2)) (s := start off) rfl hoff).symm

end Scan

example : nameDecode strayQuestion 12 = some (14, []) := by decide +kernel

end Mdns
end InfernoFpga
