import InfernoFpga.Lib.Mem

/-!
# Name — the domain names of the mDNS responder

Names are C strings, held here without their terminator and dotted.  `nameDecode` reads one from
a message, following compression pointers; `namePut` writes one into the message being built,
pointing at an earlier name, or at an earlier suffix of one, wherever the message's small cache
has it.
-/

namespace InfernoFpga
namespace Mdns

open Lib

/-- A C string. -/
abbrev Str := List UInt8

/-- The bytes of a source literal. -/
def ascii (s : String) : Str := s.toList.map fun c => UInt8.ofNat c.toNat

/-- What a reader of a `char *` sees of a buffer: everything before the first zero. -/
def cstr (s : Str) : Str := s.takeWhile (· ≠ 0)

def dot : UInt8 := 46

/-! ## Comparing names -/

def lc (c : UInt8) : UInt8 := if 65 ≤ c ∧ c ≤ 90 then c + 32 else c

/-- `ieq`: equal up to case. -/
def ieq (a b : Str) : Bool := a.map lc == b.map lc

def hasSuffix (q suf : Str) : Bool :=
  decide (suf.length ≤ q.length) && ieq (q.drop (q.length - suf.length)) suf

/-! ## Reading a name -/

/-- The buffer a query's name is decoded into. -/
def qnameLen : Nat := 128

/-- `out[o++] = c`, while there is room for it and the terminator. -/
def putChar (out : Str) (c : UInt8) : Str :=
  if out.length < qnameLen - 1 then out ++ [c] else out

/-- The separator in front of every label but the first. -/
def putDot (out : Str) : Str := if out = [] then out else putChar out dot

/-- The loop of `name_decode`.  `next` is where the caller continues, once set; every turn either
passes a label or follows one of at most eight pointers. -/
def nameDecodeLoop (msg : List UInt8) : Nat → Nat → Nat → Nat → Str → Option (Nat × Str)
  | 0, _, _, _, _ => none
  | fuel + 1, off, next, jumps, out =>
      let l := (msg.getD off 0).toNat
      if msg.length ≤ off ∨ l = 0 then
        some (if next = 0 then off + 1 else next, cstr out)
      else if 192 ≤ l then
        if msg.length ≤ off + 1 ∨ 8 ≤ jumps then none
        else
          let target := l % 64 * 256 + (msg.getD (off + 1) 0).toNat
          nameDecodeLoop msg fuel target (if next = 0 then off + 2 else next) (jumps + 1) out
      else if 64 ≤ l then none
      else if msg.length < off + 1 + l then none
      else
        let label := ((msg.drop (off + 1)).take l).map lc
        nameDecodeLoop msg fuel (off + 1 + l) next jumps (label.foldl putChar (putDot out))

/-- `name_decode`: the offset just past the name, and the name in lower case. -/
def nameDecode (msg : List UInt8) (off : Nat) : Option (Nat × Str) :=
  nameDecodeLoop msg (9 * (msg.length + 2)) off 0 0 []

/-! ## Writing a name -/

def ncMax : Nat := 10
def ncName : Nat := 96

/-- A message under construction: its bytes, and the names it can point at. -/
structure Enc where
  buf : List UInt8
  nc : List (Str × Nat)

def ncFind (nc : List (Str × Nat)) (name : Str) : Option Nat :=
  (nc.find? fun x => x.1 == name).map Prod.snd

def ncAdd (nc : List (Str × Nat)) (name : Str) (off : Nat) : List (Str × Nat) :=
  if ncMax ≤ nc.length ∨ 0x3FFF < off then nc else nc ++ [(name.take (ncName - 1), off)]

namespace Enc

/-- `p[n++] = …`, for each of the bytes. -/
def put (e : Enc) (bs : List UInt8) : Enc := { e with buf := e.buf ++ bs }

/-- A compression pointer. -/
def putPointer (e : Enc) (off : Nat) : Enc :=
  e.put [UInt8.ofNat (0xC0 + off / 256 % 64), UInt8.ofNat off]

/-- `nc_add(name, n)`. -/
def remember (e : Enc) (name : Str) : Enc := { e with nc := ncAdd e.nc name e.buf.length }

/-- Bytes `lp` and `lp + 1` of the message, patched once the length between is known. -/
def patch16 (e : Enc) (lp v : Nat) : Enc :=
  { e with buf := (e.buf.set lp (UInt8.ofNat (v / 256))).set (lp + 1) (UInt8.ofNat v) }

end Enc

/-- The label at the front of a name, cut at 63. -/
def putLabel (e : Enc) (cur : Str) : Enc :=
  let l := (cur.takeWhile (· ≠ dot)).take 63
  e.put (UInt8.ofNat l.length :: l)

/-- What follows the first label and its dot. -/
def tailName (cur : Str) : Str := (cur.dropWhile (· ≠ dot)).drop 1

/-- The label loop of `name_put`.  From the second label on, the remainder may have been written
before; until it has, every remainder is remembered. -/
def namePutLoop : Nat → Bool → Str → Enc → Enc
  | 0, _, _, e => e
  | _ + 1, _, [], e => e.put [0]
  | fuel + 1, true, cur, e => namePutLoop fuel false (tailName cur) (putLabel e cur)
  | fuel + 1, false, cur, e =>
      match ncFind e.nc cur with
      | some off => e.putPointer off
      | none => namePutLoop fuel false (tailName cur) (putLabel (e.remember cur) cur)

/-- `name_put`: a pointer where the whole name has been written already. -/
def namePut (e : Enc) (name : Str) : Enc :=
  match ncFind e.nc name with
  | some off => e.putPointer off
  | none => namePutLoop (name.length + 1) true name (e.remember name)

/-! ## Size of a name -/

@[simp] theorem buf_put (e : Enc) (bs : List UInt8) : (e.put bs).buf = e.buf ++ bs := rfl

@[simp] theorem nc_put (e : Enc) (bs : List UInt8) : (e.put bs).nc = e.nc := rfl

@[simp] theorem buf_remember (e : Enc) (name : Str) : (e.remember name).buf = e.buf := rfl

@[simp] theorem length_patch16 (e : Enc) (lp v : Nat) :
    (e.patch16 lp v).buf.length = e.buf.length := by
  simp [Enc.patch16]

@[simp] theorem nc_patch16 (e : Enc) (lp v : Nat) : (e.patch16 lp v).nc = e.nc := rfl

@[simp] theorem nc_putLabel (e : Enc) (cur : Str) : (putLabel e cur).nc = e.nc := rfl

@[simp] theorem length_putPointer (e : Enc) (off : Nat) :
    (e.putPointer off).buf.length = e.buf.length + 2 := by
  simp [Enc.putPointer]

/-- A label and the rest of the name take the name's own length and one byte more, or two where
the name ends without another dot. -/
theorem length_putLabel_tail (e : Enc) (cur : Str) :
    (putLabel e cur).buf.length + (tailName cur).length ≤ e.buf.length + cur.length ∨
      (tailName cur = [] ∧ (putLabel e cur).buf.length ≤ e.buf.length + cur.length + 1) := by
  have hsplit : (cur.takeWhile (· ≠ dot)).length + (cur.dropWhile (· ≠ dot)).length =
      cur.length := by
    rw [← List.length_append, List.takeWhile_append_dropWhile]
  have hlabel : (putLabel e cur).buf.length ≤
      e.buf.length + 1 + (cur.takeWhile (· ≠ dot)).length := by
    simp only [putLabel, buf_put, List.length_append, List.length_cons, List.length_take]
    omega
  rcases hrest : cur.dropWhile (· ≠ dot) with _ | ⟨d, rest⟩
  · refine Or.inr ⟨by rw [tailName, hrest, List.drop_nil], ?_⟩
    rw [hrest, List.length_nil] at hsplit
    omega
  · left
    rw [hrest, List.length_cons] at hsplit
    have htail : (tailName cur).length = rest.length := by
      rw [tailName, hrest, List.drop_one, List.tail_cons]
    omega

theorem length_namePutLoop (fuel : Nat) (first : Bool) (cur : Str) (e : Enc) :
    (namePutLoop fuel first cur e).buf.length ≤
      e.buf.length + (if cur = [] then 1 else cur.length + 2) := by
  induction fuel generalizing first cur e with
  | zero => exact Nat.le_add_right ..
  | succ fuel ih =>
      -- one label, then the rest of the name
      have hlabel : ∀ e' : Enc, e'.buf = e.buf →
          (namePutLoop fuel false (tailName cur) (putLabel e' cur)).buf.length ≤
            e.buf.length + (cur.length + 2) := by
        intro e' hbuf
        have hrest := ih false (tailName cur) (putLabel e' cur)
        rcases length_putLabel_tail e' cur with hsize | ⟨hnil, hsize⟩
        · rw [hbuf] at hsize
          split at hrest <;> omega
        · rw [hbuf] at hsize
          rw [if_pos hnil] at hrest
          omega
      rcases cur with _ | ⟨c, rest⟩
      · cases first <;> simp [namePutLoop]
      · have hne : c :: rest ≠ [] := List.cons_ne_nil _ _
        rw [if_neg hne]
        cases first with
        | true => exact hlabel e rfl
        | false =>
            simp only [namePutLoop]
            split
            · rw [length_putPointer]
              simp
            · exact hlabel _ rfl

/-- A name takes at most two bytes more than its text. -/
theorem length_namePut (e : Enc) {name : Str} (h : name ≠ []) :
    (namePut e name).buf.length ≤ e.buf.length + name.length + 2 := by
  rw [namePut]
  split
  · rw [length_putPointer]
    omega
  · have hloop := length_namePutLoop (name.length + 1) true name (e.remember name)
    rw [if_neg h, buf_remember] at hloop
    omega

/-- A name in the cache takes two bytes. -/
theorem length_namePut_cached {e : Enc} {name : Str} (h : ncFind e.nc name ≠ none) :
    (namePut e name).buf.length = e.buf.length + 2 := by
  rw [namePut]
  split
  · exact length_putPointer ..
  · rename_i hnone
    exact absurd hnone h

/-! ## What the cache keeps -/

theorem ncFind_append_left {nc : List (Str × Nat)} {name : Str} (rest : List (Str × Nat))
    (h : ncFind nc name ≠ none) : ncFind (nc ++ rest) name = ncFind nc name := by
  rw [ncFind, ncFind, List.find?_append]
  cases hf : nc.find? fun x => x.1 == name with
  | none => exact absurd (by rw [ncFind, hf]; rfl) h
  | some x => rfl

theorem ncAdd_extends (nc : List (Str × Nat)) (name : Str) (off : Nat) :
    nc <+: ncAdd nc name off := by
  rw [ncAdd]
  split
  · exact List.prefix_rfl
  · exact List.prefix_append ..

/-- Names are only ever added to the cache. -/
theorem nc_namePutLoop_extends (fuel : Nat) (first : Bool) (cur : Str) (e : Enc) :
    e.nc <+: (namePutLoop fuel first cur e).nc := by
  induction fuel generalizing first cur e with
  | zero => exact List.prefix_rfl
  | succ fuel ih =>
      rcases cur with _ | ⟨c, rest⟩
      · cases first <;> exact List.prefix_rfl
      · cases first with
        | true => exact ih false _ (putLabel e (c :: rest))
        | false =>
            simp only [namePutLoop]
            split
            · exact List.prefix_rfl
            · exact (ncAdd_extends ..).trans
                (ih false _ (putLabel (e.remember (c :: rest)) (c :: rest)))

theorem nc_namePut_extends (e : Enc) (name : Str) : e.nc <+: (namePut e name).nc := by
  rw [namePut]
  split
  · exact List.prefix_rfl
  · exact (ncAdd_extends ..).trans (nc_namePutLoop_extends _ _ _ (e.remember name))

/-- A name once found stays found. -/
theorem ncFind_extends {nc nc' : List (Str × Nat)} {name : Str} (hpre : nc <+: nc')
    (h : ncFind nc name ≠ none) : ncFind nc' name ≠ none := by
  obtain ⟨rest, rfl⟩ := hpre
  rwa [ncFind_append_left rest h]

/-- With room in the cache, a name that has been written is found. -/
theorem ncFind_namePut_self {e : Enc} {name : Str} (hroom : e.nc.length < ncMax)
    (hoff : e.buf.length ≤ 0x3FFF) (hlen : name.length < ncName) :
    ncFind (namePut e name).nc name ≠ none := by
  cases hfind : ncFind e.nc name with
  | some off =>
      exact ncFind_extends (nc_namePut_extends e name) (by rw [hfind]; exact Option.some_ne_none _)
  | none =>
      have hadd : (e.remember name).nc = e.nc ++ [(name, e.buf.length)] := by
        have hfull : ¬ (ncMax ≤ e.nc.length ∨ 0x3FFF < e.buf.length) := by omega
        simp only [Enc.remember, ncAdd, if_neg hfull]
        rw [List.take_of_length_le (by omega)]
      have hself : ncFind (e.remember name).nc name ≠ none := by
        rw [hadd, ncFind, List.find?_append]
        cases e.nc.find? fun x => x.1 == name <;> simp
      simp only [namePut, hfind]
      exact ncFind_extends (nc_namePutLoop_extends _ _ _ _) hself

end Mdns
end InfernoFpga
