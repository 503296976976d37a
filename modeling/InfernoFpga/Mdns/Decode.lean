import InfernoFpga.Lib.Segment
import InfernoFpga.Mdns.Responder
import Mathlib.Data.List.TakeWhile

/-!
# Decode — a reference decoder of mDNS messages

`NameAt` says where a message holds which labels, and over how many compression pointers; it is
where the writer of a name and `nameDecode` meet.  On top of `nameDecode` stands a decoder of whole
messages: header counts, then record by record, each as long as its `rdlength` says.
-/

namespace InfernoFpga
namespace Mdns

open Lib

/-! ## Labels -/

/-- A label that a name can be made of. -/
structure Label (l : Str) : Prop where
  ne : l ≠ []
  short : l.length < 64
  noDot : dot ∉ l
  noZero : (0 : UInt8) ∉ l

/-- The text of a list of labels. -/
def dotted (ls : List Str) : Str := [dot].intercalate ls

@[simp] theorem dotted_nil : dotted [] = [] := rfl

@[simp] theorem dotted_singleton (l : Str) : dotted [l] = l := by
  simp [dotted]

theorem dotted_cons (l : Str) {ls : List Str} (h : ls ≠ []) :
    dotted (l :: ls) = l ++ dot :: dotted ls := by
  obtain ⟨l', ls', rfl⟩ := List.exists_cons_of_ne_nil h
  simp [dotted]

/-- Labels that make up a name. -/
def Labels (ls : List Str) : Prop := ∀ l ∈ ls, Label l

section Labels

variable {l : Str} {ls ls' : List Str}

theorem Labels.head (h : Labels (l :: ls)) : Label l := h l (List.mem_cons_self)

theorem Labels.tail (h : Labels (l :: ls)) : Labels ls := fun x hx => h x (List.mem_cons_of_mem l hx)

theorem dotted_ne_nil (h : Labels (l :: ls)) : dotted (l :: ls) ≠ [] := by
  cases ls with
  | nil =>
    rw [dotted_singleton]
    exact h.head.ne
  | cons l' ls =>
    rw [dotted_cons l (List.cons_ne_nil _ _)]
    exact List.append_ne_nil_of_left_ne_nil h.head.ne _

/-- The first label is what comes before the first dot. -/
theorem takeWhile_dotted (h : Label l) : (dotted (l :: ls)).takeWhile (· ≠ dot) = l := by
  have hall : ∀ c ∈ l, (decide (c ≠ dot)) = true := fun c hc =>
    decide_eq_true fun hdot => h.noDot (hdot ▸ hc)
  cases ls with
  | nil => rw [dotted_singleton, List.takeWhile_eq_self_iff.2 hall]
  | cons l' ls =>
    rw [dotted_cons l (List.cons_ne_nil _ _), List.takeWhile_append_of_pos hall]
    simp

/-- What follows it is the text of the others. -/
theorem tailName_dotted (h : Label l) : tailName (dotted (l :: ls)) = dotted ls := by
  have hall : ∀ c ∈ l, (decide (c ≠ dot)) = true := fun c hc =>
    decide_eq_true fun hdot => h.noDot (hdot ▸ hc)
  rw [tailName]
  cases ls with
  | nil =>
    rw [dotted_singleton, List.dropWhile_eq_nil_iff.2 hall]
    rfl
  | cons l' ls =>
    rw [dotted_cons l (List.cons_ne_nil _ _), List.dropWhile_append_of_pos hall]
    simp

/-- Two lists of labels with one text are the same. -/
theorem dotted_injective (h : Labels ls) (h' : Labels ls') (heq : dotted ls = dotted ls') :
    ls = ls' := by
  cases ls with
  | nil =>
    cases ls' with
    | nil => rfl
    | cons l' ls' => exact absurd heq.symm (dotted_ne_nil h')
  | cons l ls =>
    cases ls' with
    | nil => exact absurd heq (dotted_ne_nil h)
    | cons l' ls' =>
      rw [← List.splitOn_intercalate dot (fun x hx => (h x hx).noDot) (List.cons_ne_nil l ls),
        ← List.splitOn_intercalate dot (fun x hx => (h' x hx).noDot) (List.cons_ne_nil l' ls')]
      exact congrArg (List.splitOn dot) heq

theorem length_dotted_tail (h : Labels (l :: ls)) :
    (dotted ls).length < (dotted (l :: ls)).length := by
  have hpos := List.length_pos_iff.2 h.head.ne
  cases ls with
  | nil =>
    rw [dotted_singleton, dotted_nil]
    exact hpos
  | cons l' ls =>
    rw [dotted_cons l (List.cons_ne_nil _ _), List.length_append, List.length_cons]
    omega

/-- Every label takes at least a letter, and all but the last a dot. -/
theorem length_labels (h : Labels ls) : 2 * ls.length ≤ (dotted ls).length + 1 := by
  induction ls with
  | nil => exact Nat.zero_le _
  | cons l ls ih =>
    have hpos := List.length_pos_iff.2 h.head.ne
    have hrest := ih h.tail
    cases ls with
    | nil =>
      rw [dotted_singleton, List.length_singleton]
      omega
    | cons l' ls =>
      have hcount : (l :: l' :: ls).length = (l' :: ls).length + 1 := rfl
      have hsep : (dot :: dotted (l' :: ls)).length = (dotted (l' :: ls)).length + 1 := rfl
      rw [dotted_cons l (List.cons_ne_nil _ _), List.length_append, hcount, hsep]
      omega

end Labels

/-! ## Names in a message -/

/-- At `p` the message `m` holds the labels `ls`, over `j` pointers, in bytes up to `q`; nothing in
front of `lo` is read. -/
inductive NameAt (lo : Nat) (m : List UInt8) : Nat → List Str → Nat → Nat → Prop
  | root {p : Nat} : lo ≤ p → At m p [0] → NameAt lo m p [] 0 (p + 1)
  | label {p j q : Nat} {l : Str} {ls : List Str} : lo ≤ p → Label l →
      At m p (UInt8.ofNat l.length :: l) → NameAt lo m (p + 1 + l.length) ls j q →
        NameAt lo m p (l :: ls) j q
  | pointer {p t j q : Nat} {ls : List Str} : lo ≤ p → t < 0x4000 →
      At m p [UInt8.ofNat (0xC0 + t / 256 % 64), UInt8.ofNat t] → NameAt lo m t ls j q →
        NameAt lo m p ls (j + 1) (p + 2)

namespace NameAt

variable {lo p j q : Nat} {m m' : List UInt8} {ls : List Str}

theorem keeps (h : NameAt lo m p ls j q) (hk : Keeps lo m m') : NameAt lo m' p ls j q := by
  induction h with
  | root hp hat => exact .root hp (hat.keeps hk hp)
  | label hp hl hat _ ih => exact .label hp hl (hat.keeps hk hp) ih
  | pointer hp ht hat _ ih => exact .pointer hp ht (hat.keeps hk hp) ih

theorem labels (h : NameAt lo m p ls j q) : Labels ls := by
  induction h with
  | root => exact fun l hl => absurd hl List.not_mem_nil
  | label _ hl _ _ ih =>
    intro x hx
    rcases List.mem_cons.1 hx with rfl | hx
    · exact hl
    · exact ih x hx
  | pointer _ _ _ _ ih => exact ih

end NameAt

/-! ## Reading the name that is there -/

/-- One label more behind the text so far, in lower case. -/
def spellLabel (out l : Str) : Str := (if out = [] then [] else out ++ [dot]) ++ l.map lc

def spell (out : Str) (ls : List Str) : Str := ls.foldl spellLabel out

theorem lc_ne_zero {c : UInt8} (h : c ≠ 0) : lc c ≠ 0 := by
  intro hzero
  rw [lc] at hzero
  split at hzero
  · rename_i hupper
    have hlo := UInt8.le_iff_toNat_le.1 hupper.1
    have hhi := UInt8.le_iff_toNat_le.1 hupper.2
    have hsum := congrArg UInt8.toNat hzero
    rw [UInt8.toNat_add] at hsum
    have h32 : (32 : UInt8).toNat = 32 := rfl
    have h65 : (65 : UInt8).toNat = 65 := rfl
    have h90 : (90 : UInt8).toNat = 90 := rfl
    have h0 : (0 : UInt8).toNat = 0 := rfl
    omega
  · exact h hzero

theorem zero_notMem_map {l : Str} (h : (0 : UInt8) ∉ l) : (0 : UInt8) ∉ l.map lc := by
  intro hmem
  obtain ⟨c, hc, hzero⟩ := List.mem_map.1 hmem
  exact lc_ne_zero (fun h0 => h (h0 ▸ hc)) hzero

theorem length_spellLabel (out l : Str) : out.length ≤ (spellLabel out l).length := by
  rw [spellLabel]
  split
  · rename_i h
    rw [h]
    exact Nat.zero_le _
  · rw [List.length_append, List.length_append]
    omega

theorem length_spell (out : Str) (ls : List Str) : out.length ≤ (spell out ls).length := by
  induction ls generalizing out with
  | nil => exact Nat.le_refl _
  | cons l ls ih => exact (length_spellLabel out l).trans (ih (spellLabel out l))

theorem noZero_spellLabel {out l : Str} (hout : (0 : UInt8) ∉ out) (hl : (0 : UInt8) ∉ l) :
    (0 : UInt8) ∉ spellLabel out l := by
  have hlow := zero_notMem_map hl
  have hdot : (0 : UInt8) ≠ dot := by decide
  rw [spellLabel]
  split <;> simp_all

/-- While there is room, every character of a label is put. -/
theorem foldl_putChar (l out : Str) (h : out.length + l.length ≤ qnameLen - 1) :
    l.foldl putChar out = out ++ l := by
  induction l generalizing out with
  | nil => exact (List.append_nil _).symm
  | cons c l ih =>
    have hlen : (c :: l).length = l.length + 1 := rfl
    have hput : putChar out c = out ++ [c] := if_pos (by omega)
    rw [List.foldl_cons, hput, ih _ (by rw [List.length_append, List.length_singleton]; omega),
      List.append_assoc]
    rfl

theorem putDot_label (out l : Str) (h : (spellLabel out l).length ≤ qnameLen - 1) :
    (l.map lc).foldl putChar (putDot out) = spellLabel out l := by
  rw [spellLabel] at h ⊢
  rw [putDot]
  by_cases hnil : out = []
  · rw [if_pos hnil, if_pos hnil, foldl_putChar]
    · rw [hnil]
    · rw [if_pos hnil] at h
      rw [hnil]
      simpa using h
  · rw [if_neg hnil] at h ⊢
    rw [List.length_append, List.length_append, List.length_singleton] at h
    have hput : putChar out dot = out ++ [dot] := if_pos (by omega)
    rw [if_neg hnil, hput, foldl_putChar]
    rw [List.length_append, List.length_singleton]
    omega

/-- `name_decode` reads a name that is there, if it fits and the pointers are not too many. -/
theorem nameDecodeLoop_nameAt {lo p j q : Nat} {m : List UInt8} {ls : List Str}
    (h : NameAt lo m p ls j q) :
    ∀ {fuel next jumps : Nat} {out : Str}, ls.length + j < fuel → jumps + j ≤ 8 →
      (spell out ls).length ≤ qnameLen - 1 → (0 : UInt8) ∉ out →
      nameDecodeLoop m fuel p next jumps out =
        some (if next = 0 then q else next, spell out ls) := by
  induction h with
  | @root p hp hat =>
    intro fuel next jumps out hfuel _ _ hzero
    obtain ⟨fuel, rfl⟩ := Nat.exists_eq_succ_of_ne_zero (by omega : fuel ≠ 0)
    have hbyte : m.getD p 0 = 0 := hat.getD (k := 0) (by decide) 0
    have hstr : cstr out = out := by
      refine List.takeWhile_eq_self_iff.2 fun c hc => decide_eq_true fun h0 => hzero (h0 ▸ hc)
    rw [nameDecodeLoop, if_pos (.inr (by rw [hbyte]; rfl)), hstr]
    rfl
  | @label p j q l ls hp hl hat _ ih =>
    intro fuel next jumps out hfuel hjumps hroom hzero
    obtain ⟨fuel, rfl⟩ := Nat.exists_eq_succ_of_ne_zero (by omega : fuel ≠ 0)
    have hpos := List.length_pos_iff.2 hl.ne
    have hshort := hl.short
    have hbyte : (m.getD p 0).toNat = l.length := by
      have hget : m.getD p 0 = UInt8.ofNat l.length := hat.getD (k := 0) (by simp) 0
      rw [hget, UInt8.toNat_ofNat']
      omega
    have hend := hat.lt (List.cons_ne_nil _ _)
    rw [List.length_cons] at hend
    have hslice : (m.drop (p + 1)).take l.length = l := by
      have hat' : At m p ([UInt8.ofNat l.length] ++ l) := hat
      exact (At.append_iff.1 hat').2.slice
    have hput := putDot_label out l ((length_spell _ ls).trans hroom)
    rw [nameDecodeLoop]
    simp only [hbyte]
    rw [if_neg (by omega), if_neg (by omega), if_neg (by omega), if_neg (by omega), hslice, hput]
    exact ih (by rw [List.length_cons] at hfuel; omega) hjumps hroom
      (noZero_spellLabel hzero hl.noZero)
  | @pointer p t j q ls hp ht hat _ ih =>
    intro fuel next jumps out hfuel hjumps hroom hzero
    obtain ⟨fuel, rfl⟩ := Nat.exists_eq_succ_of_ne_zero (by omega : fuel ≠ 0)
    have hhi : (m.getD p 0).toNat = 0xC0 + t / 256 % 64 := by
      have hget : m.getD p 0 = UInt8.ofNat (0xC0 + t / 256 % 64) :=
        hat.getD (k := 0) (by simp) 0
      rw [hget, UInt8.toNat_ofNat']
      omega
    have hlo : (m.getD (p + 1) 0).toNat = t % 256 := by
      have hget : m.getD (p + 1) 0 = UInt8.ofNat t := hat.getD (k := 1) (by simp) 0
      rw [hget, UInt8.toNat_ofNat']
    have hend := hat.lt (List.cons_ne_nil _ _)
    have hlen : ([UInt8.ofNat (0xC0 + t / 256 % 64), UInt8.ofNat t] : List UInt8).length = 2 := rfl
    rw [hlen] at hend
    have htarget : (0xC0 + t / 256 % 64) % 64 * 256 + t % 256 = t := by omega
    rw [nameDecodeLoop]
    simp only [hhi, hlo, htarget]
    rw [if_neg (by omega), if_pos (by omega), if_neg (by omega)]
    rw [ih (by omega) (by omega) hroom hzero]
    by_cases hnext : next = 0
    · rw [if_pos hnext, if_neg (by omega)]
    · rw [if_neg hnext, if_neg hnext]

theorem spell_nil_dot {out : Str} (h : out ≠ []) {ls : List Str} (hne : ls ≠ []) :
    spell out ls = out ++ dot :: (dotted ls).map lc := by
  induction ls generalizing out with
  | nil => exact absurd rfl hne
  | cons l ls ih =>
    have hlabel : spellLabel out l = out ++ dot :: l.map lc := by
      rw [spellLabel, if_neg h, List.append_assoc]
      rfl
    have hdot : lc dot = dot := by decide
    cases ls with
    | nil =>
      rw [dotted_singleton]
      exact hlabel
    | cons l' ls =>
      have hne : spellLabel out l ≠ [] := by
        rw [hlabel]
        exact List.append_ne_nil_of_left_ne_nil h _
      have hrest := ih hne (List.cons_ne_nil _ _)
      rw [dotted_cons l (List.cons_ne_nil _ _), List.map_append, List.map_cons, hdot]
      show spell (spellLabel out l) (l' :: ls) = _
      rw [hrest, hlabel, List.append_assoc]
      rfl

/-- The labels spelled out are the text of the name, in lower case. -/
theorem spell_nil {ls : List Str} (h : Labels ls) : spell [] ls = (dotted ls).map lc := by
  cases ls with
  | nil => rfl
  | cons l ls =>
    have hlabel : spellLabel [] l = l.map lc := rfl
    have hdot : lc dot = dot := by decide
    cases ls with
    | nil =>
      rw [dotted_singleton]
      exact hlabel
    | cons l' ls =>
      have hne : l.map lc ≠ [] := fun hnil => h.head.ne (List.map_eq_nil_iff.1 hnil)
      rw [dotted_cons l (List.cons_ne_nil _ _), List.map_append, List.map_cons, hdot]
      show spell (spellLabel [] l) (l' :: ls) = _
      rw [hlabel, spell_nil_dot hne (List.cons_ne_nil _ _)]

/-- `name_decode` on a name that is there. -/
theorem nameDecode_nameAt {lo p j q : Nat} {m : List UInt8} {ls : List Str}
    (h : NameAt lo m p ls j q) (hm : 12 ≤ m.length) (hj : j ≤ 8)
    (hlen : (dotted ls).length ≤ qnameLen - 1) :
    nameDecode m p = some (q, (dotted ls).map lc) := by
  have hcount := length_labels h.labels
  have hroom : qnameLen - 1 = 127 := rfl
  have hspell := spell_nil h.labels
  have hloop := @nameDecodeLoop_nameAt lo p j q m ls h (9 * (m.length + 2)) 0 0 [] (by omega)
    (by omega) (by rw [hspell, List.length_map]; exact hlen) List.not_mem_nil
  rw [nameDecode, hloop, hspell]
  rfl

/-! ## Numbers in a message -/

def rd32 (msg : List UInt8) (off : Nat) : Nat := rd16 msg off * 65536 + rd16 msg (off + 2)

section Numbers

variable {m : List UInt8} {p v : Nat}

theorem rd16_at (h : At m p (Mem.be16 v)) : rd16 m p = v % 65536 := by
  have hread : Mem.rd16 (fun k => m.getD k 0) p = v % 2 ^ 16 := Mem.rd16_of_be16 h.slice_getD
  exact hread

theorem rd32_at (h : At m p (Mem.be32 v)) (hv : v < 2 ^ 32) : rd32 m p = v := At.rd32 h hv

end Numbers

/-! ## Records and messages -/

inductive RData
  | a (addr : List UInt8)
  | ptr (name : Str)
  | srv (priority weight port : Nat) (target : Str)
  | txt (text : List UInt8)
  deriving DecidableEq, Repr

/-- A resource record.  Names are in lower case, as `name_decode` leaves them. -/
structure Rr where
  owner : Str
  type : Nat
  cls : Nat
  ttl : Nat
  rdata : RData
  deriving DecidableEq, Repr

/-- A name that ends where the record does. -/
def readLastName (msg : List UInt8) (off stop : Nat) : Option Str :=
  match nameDecode msg off with
  | some (q, name) => if q = stop then some name else none
  | none => none

/-- The data of a record: `len` bytes from `off` on, all of them used. -/
def readRdata (msg : List UInt8) (type off len : Nat) : Option RData :=
  if type = dnsTA then
    if len = 4 then some (.a ((msg.drop off).take len)) else none
  else if type = dnsTPtr then (readLastName msg off (off + len)).map .ptr
  else if type = dnsTSrv then
    (readLastName msg (off + 6) (off + len)).map
      (.srv (rd16 msg off) (rd16 msg (off + 2)) (rd16 msg (off + 4)))
  else if type = dnsTTxt then some (.txt ((msg.drop off).take len))
  else none

/-- A record, and where the next one begins. -/
def readRr (msg : List UInt8) (off : Nat) : Option (Rr × Nat) :=
  match nameDecode msg off with
  | none => none
  | some (p, owner) =>
      let len := rd16 msg (p + 8)
      if msg.length < p + 10 + len then none
      else
        (readRdata msg (rd16 msg p) (p + 10) len).map fun rdata =>
          ({ owner := owner, type := rd16 msg p, cls := rd16 msg (p + 2), ttl := rd32 msg (p + 4)
             rdata := rdata }, p + 10 + len)

/-- A section of `n` records. -/
def readRrs (msg : List UInt8) : Nat → Nat → Option (List Rr × Nat)
  | 0, off => some ([], off)
  | n + 1, off =>
      match readRr msg off with
      | none => none
      | some (r, off) => (readRrs msg n off).map fun (rs, off) => (r :: rs, off)

structure Message where
  flags : Nat
  answers : List Rr
  authorities : List Rr
  additionals : List Rr
  deriving DecidableEq, Repr

/-- A message without questions: three sections as long as the header says, and nothing behind. -/
def readMessage (msg : List UInt8) : Option Message :=
  if msg.length < 12 ∨ rd16 msg 4 ≠ 0 then none
  else
    match readRrs msg (rd16 msg 6) 12 with
    | none => none
    | some (answers, off) =>
      match readRrs msg (rd16 msg 8) off with
      | none => none
      | some (authorities, off) =>
        match readRrs msg (rd16 msg 10) off with
        | none => none
        | some (additionals, off) =>
          if off = msg.length then
            some { flags := rd16 msg 2, answers := answers, authorities := authorities
                   additionals := additionals }
          else none

end Mdns
end InfernoFpga
