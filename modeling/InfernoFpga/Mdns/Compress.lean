import InfernoFpga.Mdns.Decode

/-!
# Compress — names written with back-pointers can be read back

The cache of a message names offsets that are not all written yet: `name_put` remembers a name, and
every remainder of it, before it writes the bytes.  But a remainder that is looked up is shorter than
everything still being written, so what is found is complete.  An entry of the cache is reached over
fewer pointers than entries lie before it, which keeps every name within the eight jumps that
`name_decode` allows.
-/

namespace InfernoFpga
namespace Mdns

open Lib

/-! ## Writers that only append -/

/-- A writer that appends, and takes nothing from a message but its length and its cache. -/
def Blind (f : Enc → Enc) : Prop :=
  ∀ e e' : Enc, e.buf.length = e'.buf.length → e.nc = e'.nc →
    ∃ data nc, f e = ⟨e.buf ++ data, nc⟩ ∧ f e' = ⟨e'.buf ++ data, nc⟩

namespace Blind

variable {f g : Enc → Enc}

theorem put (bs : List UInt8) : Blind fun e => e.put bs := fun e e' _ hnc =>
  ⟨bs, e.nc, rfl, by rw [hnc]; rfl⟩

theorem remember (name : Str) : Blind fun e => e.remember name := fun e e' hlen hnc =>
  ⟨[], ncAdd e.nc name e.buf.length, by simp [Enc.remember], by simp [Enc.remember, hlen, hnc]⟩

theorem comp (hf : Blind f) (hg : Blind g) : Blind fun e => g (f e) := fun e e' hlen hnc => by
  obtain ⟨data, nc, h, h'⟩ := hf e e' hlen hnc
  obtain ⟨data', nc', h₂, h₂'⟩ := hg ⟨e.buf ++ data, nc⟩ ⟨e'.buf ++ data, nc⟩
    (by rw [List.length_append, List.length_append, hlen]) rfl
  refine ⟨data ++ data', nc', ?_, ?_⟩
  · show g (f e) = _
    rw [h, h₂, List.append_assoc]
  · show g (f e') = _
    rw [h', h₂', List.append_assoc]

end Blind

theorem blind_putPointer (off : Nat) : Blind fun e => e.putPointer off := Blind.put _

theorem blind_putLabel (cur : Str) : Blind fun e => putLabel e cur := Blind.put _

theorem blind_namePutLoop (fuel : Nat) (first : Bool) (cur : Str) :
    Blind (namePutLoop fuel first cur) := by
  induction fuel generalizing first cur with
  | zero => exact fun e e' _ hnc => ⟨[], e.nc, by simp [namePutLoop], by simp [namePutLoop, hnc]⟩
  | succ fuel ih =>
    cases cur with
    | nil =>
      cases first
      · exact Blind.put [0]
      · exact Blind.put [0]
    | cons c rest =>
      cases first with
      | true => exact (blind_putLabel (c :: rest)).comp (ih false (tailName (c :: rest)))
      | false =>
        intro e e' hlen hnc
        simp only [namePutLoop, hnc]
        cases ncFind e'.nc (c :: rest) with
        | some off => exact blind_putPointer off e e' hlen hnc
        | none =>
          exact (((Blind.remember (c :: rest)).comp (blind_putLabel (c :: rest))).comp
            (ih false (tailName (c :: rest)))) e e' hlen hnc

/-- `name_put` is such a writer. -/
theorem blind_namePut (name : Str) : Blind fun e => namePut e name := by
  intro e e' hlen hnc
  simp only [namePut, hnc]
  cases ncFind e'.nc name with
  | some off => exact blind_putPointer off e e' hlen hnc
  | none =>
    exact ((Blind.remember name).comp (blind_namePutLoop (name.length + 1) true name)) e e' hlen hnc

theorem length_be16 (v : Nat) : (Mem.be16 v).length = 2 := rfl

/-- A length patched in later is as good as one written at once. -/
theorem putRdata_eq {f : Enc → Enc} (hf : Blind f) (e : Enc) :
    ∃ n, putRdata e f = f (e.put (Mem.be16 n)) ∧
      (putRdata e f).buf.length = e.buf.length + 2 + n := by
  obtain ⟨data, nc, hzero, -⟩ := hf (e.put [0, 0]) (e.put [0, 0]) rfl rfl
  have hlen : (f (e.put [0, 0])).buf.length = e.buf.length + 2 + data.length := by
    rw [hzero, List.length_append, buf_put, List.length_append]
    rfl
  obtain ⟨data', nc', hzero', hput⟩ := hf (e.put [0, 0]) (e.put (Mem.be16 data.length))
    (by simp [length_be16]) rfl
  have hsame : data' = data ∧ nc' = nc := by
    have heq := hzero'.symm.trans hzero
    simp only [Enc.mk.injEq, List.append_cancel_left_eq] at heq
    exact heq
  refine ⟨data.length, ?_, ?_⟩
  · rw [hput, hsame.1, hsame.2, putRdata, hlen, hzero]
    have hn : e.buf.length + 2 + data.length - (e.buf.length + 2) = data.length :=
      Nat.add_sub_cancel_left _ _
    simp only [Enc.patch16, hn, buf_put, List.append_assoc]
    congr 1
    rw [List.set_append_right _ _ (Nat.le_refl _), Nat.sub_self]
    simp only [List.cons_append, List.nil_append, List.set_cons_zero]
    rw [List.set_append_right _ _ (by omega), Nat.add_sub_cancel_left]
    rfl
  · rw [putRdata, length_patch16, hlen]

/-! ## One name -/

/-- Entry `x` of a cache points at its name, over at most `k` pointers. -/
def Points (m : List UInt8) (k : Nat) (x : Str × Nat) : Prop :=
  x.2 < 0x4000 ∧ ∃ ls j q, x.1 = dotted ls ∧ NameAt 12 m x.2 ls j q ∧ j ≤ k

namespace Points

variable {m m' : List UInt8} {k k' : Nat} {x : Str × Nat}

theorem keeps (h : Points m k x) (hk : Keeps 12 m m') : Points m' k x := by
  obtain ⟨hoff, ls, j, q, hname, hat, hj⟩ := h
  exact ⟨hoff, ls, j, q, hname, hat.keeps hk, hj⟩

theorem mono (h : Points m k x) (hle : k ≤ k') : Points m k' x := by
  obtain ⟨hoff, ls, j, q, hname, hat, hj⟩ := h
  exact ⟨hoff, ls, j, q, hname, hat, hj.trans hle⟩

end Points

/-- Whatever is found for a text of `n` bytes is complete, and below `B`: entries that are not are
still being written, and longer. -/
def Findable (B : Nat) (e : Enc) (n : Nat) : Prop :=
  ∀ x ∈ e.nc, (∃ k < B, Points e.buf k x) ∨ n < x.1.length

/-- The labels `ls` have been written behind `e`. -/
structure Written (B : Nat) (e e' : Enc) (ls : List Str) : Prop where
  pre : e.buf <+: e'.buf
  name : ∃ j ≤ B, NameAt 12 e'.buf e.buf.length ls j e'.buf.length
  cache : ∃ new, e'.nc = e.nc ++ new ∧ ∀ x ∈ new, Points e'.buf B x

section Names

variable {B : Nat} {e e' : Enc} {l : Str} {ls : List Str}

theorem putLabel_eq (h : Label l) (e : Enc) (ls : List Str) :
    putLabel e (dotted (l :: ls)) = e.put (UInt8.ofNat l.length :: l) := by
  have hshort := h.short
  rw [putLabel, takeWhile_dotted h, List.take_of_length_le (by omega)]

theorem length_putLabel (h : Label l) (e : Enc) (ls : List Str) :
    (putLabel e (dotted (l :: ls))).buf.length = e.buf.length + 1 + l.length := by
  rw [putLabel_eq h, buf_put, List.length_append, List.length_cons]
  omega

/-- What `remember` may have added. -/
theorem nc_remember (e : Enc) {name : Str} (hlen : name.length < ncName) :
    (e.remember name).nc = e.nc ∨
      e.buf.length < 0x4000 ∧ (e.remember name).nc = e.nc ++ [(name, e.buf.length)] := by
  simp only [Enc.remember, ncAdd]
  split
  · exact .inl rfl
  · rename_i hroom
    rw [List.take_of_length_le (by omega)]
    exact .inr ⟨by omega, rfl⟩

/-- A remembered name and its first label, in front of the rest of the name. -/
theorem Written.label (hl : Labels (l :: ls)) (hlen : (dotted (l :: ls)).length < ncName)
    (h12 : 12 ≤ e.buf.length)
    (h : Written B (putLabel (e.remember (dotted (l :: ls))) (dotted (l :: ls))) e' ls) :
    Written B e e' (l :: ls) := by
  obtain ⟨hpre, ⟨j, hj, hname⟩, new, hnew, hpoints⟩ := h
  have hlabel := length_putLabel hl.head (e.remember (dotted (l :: ls))) ls
  rw [putLabel_eq hl.head, buf_put, buf_remember] at hpre
  rw [hlabel, buf_remember] at hname
  have hat : At e'.buf e.buf.length (UInt8.ofNat l.length :: l) :=
    (At.of_append e.buf _).keeps (Keeps.of_prefix 12 hpre) h12
  have hwhole : NameAt 12 e'.buf e.buf.length (l :: ls) j e'.buf.length :=
    .label h12 hl.head hat hname
  refine ⟨(List.prefix_append _ _).trans hpre, ⟨j, hj, hwhole⟩, ?_⟩
  rw [nc_putLabel] at hnew
  rcases nc_remember e hlen with hsame | ⟨hoff, hadd⟩
  · exact ⟨new, by rw [hnew, hsame], hpoints⟩
  · refine ⟨(dotted (l :: ls), e.buf.length) :: new, ?_, fun x hx => ?_⟩
    · rw [hnew, hadd, List.append_assoc]
      rfl
    · rcases List.mem_cons.1 hx with rfl | hx
      · exact ⟨hoff, l :: ls, j, _, rfl, hwhole, hj⟩
      · exact hpoints x hx

/-- With a name remembered and its first label put, what is found for the rest is complete. -/
theorem Findable.label (hl : Labels (l :: ls)) (hlen : (dotted (l :: ls)).length < ncName)
    (h : Findable B e (dotted (l :: ls)).length) :
    Findable B (putLabel (e.remember (dotted (l :: ls))) (dotted (l :: ls)))
      (dotted ls).length := by
  have htail := length_dotted_tail hl
  have hkeeps : Keeps 12 e.buf (putLabel (e.remember (dotted (l :: ls))) (dotted (l :: ls))).buf := by
    rw [putLabel_eq hl.head, buf_put, buf_remember]
    exact Keeps.append 12 _ _
  intro x hx
  have hold : x ∈ e.nc → (∃ k < B, Points
      (putLabel (e.remember (dotted (l :: ls))) (dotted (l :: ls))).buf k x) ∨
        (dotted ls).length < x.1.length := fun hmem => by
    rcases h x hmem with ⟨k, hk, hpoints⟩ | hlong
    · exact .inl ⟨k, hk, hpoints.keeps hkeeps⟩
    · exact .inr (htail.trans hlong)
  rw [nc_putLabel] at hx
  rcases nc_remember e hlen with hsame | ⟨-, hadd⟩
  · rw [hsame] at hx
    exact hold hx
  · rw [hadd, List.mem_append, List.mem_singleton] at hx
    rcases hx with hx | rfl
    · exact hold hx
    · exact .inr htail

/-- What the cache finds is an entry of it. -/
theorem mem_of_ncFind {nc : List (Str × Nat)} {name : Str} {off : Nat}
    (h : ncFind nc name = some off) : (name, off) ∈ nc := by
  obtain ⟨x, hx, rfl⟩ := Option.map_eq_some_iff.1 h
  have htest := List.find?_some hx
  have hname : x.1 = name := beq_iff_eq.1 htest
  rw [← hname]
  exact List.mem_of_find?_eq_some hx

/-- A pointer to what was found. -/
theorem written_pointer (hl : Labels ls) (h12 : 12 ≤ e.buf.length)
    (hfind : Findable B e (dotted ls).length) {off : Nat}
    (hoff : ncFind e.nc (dotted ls) = some off) : Written B e (e.putPointer off) ls := by
  rcases hfind _ (mem_of_ncFind hoff) with ⟨k, hk, hlt, ls', j, q, hname, hat, hj⟩ | hlong
  · have hsame : ls = ls' := dotted_injective hl hat.labels hname
    have hlen : (e.putPointer off).buf.length = e.buf.length + 2 := length_putPointer ..
    refine ⟨List.prefix_append _ _, ⟨j + 1, by omega, ?_⟩, [], (List.append_nil _).symm,
      fun x hx => absurd hx List.not_mem_nil⟩
    rw [hlen, hsame]
    exact .pointer h12 hlt (At.of_append e.buf _) (hat.keeps (Keeps.append 12 _ _))
  · exact absurd hlong (Nat.lt_irrefl _)

/-- The label loop writes the labels that are left: the induction is on them, and the cache grows
by names that are complete at its end. -/
theorem namePutLoop_written (hl : Labels ls) (hlen : (dotted ls).length < ncName) {fuel : Nat}
    (hfuel : (dotted ls).length < fuel) (h12 : 12 ≤ e.buf.length)
    (hfind : Findable B e (dotted ls).length) :
    Written B e (namePutLoop fuel false (dotted ls) e) ls := by
  induction ls generalizing fuel e with
  | nil =>
    obtain ⟨fuel, rfl⟩ := Nat.exists_eq_succ_of_ne_zero (by omega : fuel ≠ 0)
    have hroot : namePutLoop (fuel + 1) false (dotted []) e = e.put [0] := by
      rw [dotted_nil, namePutLoop]
    rw [hroot]
    refine ⟨List.prefix_append _ _, ⟨0, Nat.zero_le _, ?_⟩, [], (List.append_nil _).symm,
      fun x hx => absurd hx List.not_mem_nil⟩
    rw [buf_put, List.length_append]
    exact .root h12 (At.of_append e.buf [0])
  | cons l ls ih =>
    obtain ⟨fuel, rfl⟩ := Nat.exists_eq_succ_of_ne_zero (by omega : fuel ≠ 0)
    have htail := length_dotted_tail hl
    obtain ⟨c, rest, hcur⟩ := List.exists_cons_of_ne_nil (dotted_ne_nil hl)
    cases hoff : ncFind e.nc (dotted (l :: ls)) with
    | some off =>
      have hloop : namePutLoop (fuel + 1) false (dotted (l :: ls)) e = e.putPointer off := by
        rw [hcur] at hoff ⊢
        simp only [namePutLoop, hoff]
      rw [hloop]
      exact written_pointer hl h12 hfind hoff
    | none =>
      have hloop : namePutLoop (fuel + 1) false (dotted (l :: ls)) e =
          namePutLoop fuel false (tailName (dotted (l :: ls)))
            (putLabel (e.remember (dotted (l :: ls))) (dotted (l :: ls))) := by
        rw [hcur] at hoff ⊢
        simp only [namePutLoop, hoff]
      rw [hloop, tailName_dotted hl.head]
      have hlabel := length_putLabel hl.head (e.remember (dotted (l :: ls))) ls
      rw [buf_remember] at hlabel
      exact (ih hl.tail (by omega) (by omega) (by omega) (hfind.label hl hlen)).label hl hlen h12

/-- `name_put` writes a name that can be read back. -/
theorem namePut_written (hl : Labels (l :: ls)) (hlen : (dotted (l :: ls)).length < ncName)
    (h12 : 12 ≤ e.buf.length) (hfind : Findable B e (dotted (l :: ls)).length) :
    Written B e (namePut e (dotted (l :: ls))) (l :: ls) := by
  have htail := length_dotted_tail hl
  obtain ⟨c, rest, hcur⟩ := List.exists_cons_of_ne_nil (dotted_ne_nil hl)
  rw [namePut]
  cases hoff : ncFind e.nc (dotted (l :: ls)) with
  | some off => exact written_pointer hl h12 hfind hoff
  | none =>
    have hloop : namePutLoop ((dotted (l :: ls)).length + 1) true (dotted (l :: ls))
          (e.remember (dotted (l :: ls))) =
        namePutLoop (dotted (l :: ls)).length false (tailName (dotted (l :: ls)))
          (putLabel (e.remember (dotted (l :: ls))) (dotted (l :: ls))) := by
      rw [hcur]
      rfl
    have hlabel := length_putLabel hl.head (e.remember (dotted (l :: ls))) ls
    rw [buf_remember] at hlabel
    show Written B e (namePutLoop ((dotted (l :: ls)).length + 1) true (dotted (l :: ls))
      (e.remember (dotted (l :: ls)))) (l :: ls)
    rw [hloop, tailName_dotted hl.head]
    exact (namePutLoop_written hl.tail (by omega) htail (by omega)
      (hfind.label hl hlen)).label hl hlen h12

end Names

/-! ## The cache of a message -/

theorem length_ncAdd {nc : List (Str × Nat)} (h : nc.length ≤ ncMax) (name : Str) (off : Nat) :
    (ncAdd nc name off).length ≤ ncMax := by
  rw [ncAdd]
  split
  · exact h
  · rw [List.length_append, List.length_singleton]
    omega

/-- The cache never outgrows its array. -/
theorem length_nc_namePutLoop (fuel : Nat) (first : Bool) (cur : Str) {e : Enc}
    (h : e.nc.length ≤ ncMax) : (namePutLoop fuel first cur e).nc.length ≤ ncMax := by
  induction fuel generalizing first cur e with
  | zero => exact h
  | succ fuel ih =>
    rcases cur with _ | ⟨c, rest⟩
    · cases first <;> exact h
    · cases first with
      | true => exact ih false _ h
      | false =>
        simp only [namePutLoop]
        split
        · exact h
        · exact ih false _ (length_ncAdd h _ _)

theorem length_nc_namePut (name : Str) {e : Enc} (h : e.nc.length ≤ ncMax) :
    (namePut e name).nc.length ≤ ncMax := by
  rw [namePut]
  split
  · exact h
  · exact length_nc_namePutLoop _ _ _ (length_ncAdd h _ _)

/-- Nothing shorter than what is in the cache is found. -/
theorem ncFind_of_longer {nc : List (Str × Nat)} {name : Str}
    (h : ∀ x ∈ nc, name.length < x.1.length) : ncFind nc name = none := by
  cases hfind : ncFind nc name with
  | none => rfl
  | some off => exact absurd (h _ (mem_of_ncFind hfind)) (Nat.lt_irrefl _)

/-- A name of which the cache has nothing is remembered with every remainder, while there is
room. -/
theorem count_namePutLoop {ls : List Str} (hl : Labels ls) (hlen : (dotted ls).length < ncName)
    {fuel : Nat} (hfuel : (dotted ls).length < fuel) {e : Enc}
    (hbuf : e.buf.length + 2 * (dotted ls).length < 0x4000)
    (hlong : ∀ x ∈ e.nc, (dotted ls).length < x.1.length) :
    min ncMax (e.nc.length + ls.length) ≤ (namePutLoop fuel false (dotted ls) e).nc.length := by
  induction ls generalizing fuel e with
  | nil =>
    obtain ⟨fuel, rfl⟩ := Nat.exists_eq_succ_of_ne_zero (by omega : fuel ≠ 0)
    exact Nat.min_le_right _ _
  | cons l ls ih =>
    obtain ⟨fuel, rfl⟩ := Nat.exists_eq_succ_of_ne_zero (by omega : fuel ≠ 0)
    have htail := length_dotted_tail hl
    have hlabel := length_putLabel hl.head (e.remember (dotted (l :: ls))) ls
    have hsize : l.length + (dotted ls).length ≤ (dotted (l :: ls)).length := by
      cases ls with
      | nil => rw [dotted_singleton, dotted_nil]; exact Nat.le_refl _
      | cons l' ls =>
        rw [dotted_cons l (List.cons_ne_nil _ _), List.length_append, List.length_cons]
        omega
    have hpos := List.length_pos_iff.2 hl.head.ne
    obtain ⟨c, rest, hcur⟩ := List.exists_cons_of_ne_nil (dotted_ne_nil hl)
    have hnone := ncFind_of_longer hlong
    have hloop : namePutLoop (fuel + 1) false (dotted (l :: ls)) e =
        namePutLoop fuel false (tailName (dotted (l :: ls)))
          (putLabel (e.remember (dotted (l :: ls))) (dotted (l :: ls))) := by
      rw [hcur] at hnone ⊢
      simp only [namePutLoop, hnone]
    have hcount : (l :: ls).length = ls.length + 1 := rfl
    rw [buf_remember] at hlabel
    rw [hloop, tailName_dotted hl.head]
    have hmore : min ncMax (e.nc.length + 1) ≤ (e.remember (dotted (l :: ls))).nc.length ∧
        ∀ x ∈ (e.remember (dotted (l :: ls))).nc, (dotted ls).length < x.1.length := by
      have hold : ∀ x ∈ e.nc, (dotted ls).length < x.1.length := fun x hx =>
        htail.trans (hlong x hx)
      simp only [Enc.remember, ncAdd]
      split
      · rename_i hfull
        exact ⟨by omega, hold⟩
      · rw [List.length_append, List.length_singleton, List.take_of_length_le (by omega)]
        refine ⟨Nat.min_le_right _ _, fun x hx => ?_⟩
        rw [List.mem_append, List.mem_singleton] at hx
        rcases hx with hx | rfl
        · exact hold x hx
        · exact htail
    have hrest := @ih hl.tail (by omega) fuel (by omega)
      (putLabel (e.remember (dotted (l :: ls))) (dotted (l :: ls))) (by omega) hmore.2
    rw [nc_putLabel] at hrest
    omega

/-- A message under construction whose cache can be relied on.  The first name, of three labels or
more, has no pointer; every entry behind its first three is reached over one pointer more at
most. -/
structure Sound (e : Enc) : Prop where
  len : 12 ≤ e.buf.length
  size : e.nc.length ≤ ncMax
  ranked : ∀ i x, e.nc[i]? = some x → Points e.buf (i - 2) x
  begun : e.nc = [] ∧ e.buf.length = 12 ∨ 3 ≤ e.nc.length

namespace Sound

variable {e : Enc} {l : Str} {ls : List Str}

theorem findable (h : Sound e) (n : Nat) : Findable (e.nc.length - 2) e n := by
  intro x hx
  obtain ⟨i, hi, hget⟩ := List.mem_iff_getElem.1 hx
  rcases h.begun with ⟨hnil, -⟩ | hthree
  · rw [hnil] at hx
    exact absurd hx List.not_mem_nil
  · exact .inl ⟨i - 2, by omega, h.ranked i x (by rw [List.getElem?_eq_getElem hi, hget])⟩

/-- Other bytes leave the cache alone. -/
theorem put (h : Sound e) (hne : e.nc ≠ []) (bs : List UInt8) : Sound (e.put bs) where
  len := by
    rw [buf_put, List.length_append]
    have hlen := h.len
    omega
  size := h.size
  ranked := fun i x hx => (h.ranked i x hx).keeps (Keeps.append 12 _ _)
  begun := .inr (h.begun.resolve_left fun hb => hne hb.1)

/-- A name: it can be read back, and unless it is a first name of two labels the cache stays
sound. -/
theorem namePut (h : Sound e) (hl : Labels (l :: ls)) (hlen : (dotted (l :: ls)).length < ncName) :
    Written (e.nc.length - 2) e (namePut e (dotted (l :: ls))) (l :: ls) ∧
      (3 ≤ (l :: ls).length ∨ e.nc ≠ [] →
        Sound (Mdns.namePut e (dotted (l :: ls))) ∧
          (Mdns.namePut e (dotted (l :: ls))).nc ≠ []) := by
  have hwritten := namePut_written hl hlen h.len (h.findable _)
  refine ⟨hwritten, fun hlong => ?_⟩
  obtain ⟨hpre, -, new, hnew, hpoints⟩ := hwritten
  have hthree : 3 ≤ (Mdns.namePut e (dotted (l :: ls))).nc.length := by
    rcases h.begun with ⟨hnil, hbuf⟩ | hthree
    · -- the first name of the message
      have hcount := hlong.resolve_right fun hne => hne hnil
      have hmiss : ncFind e.nc (dotted (l :: ls)) = none := by
        rw [hnil]
        rfl
      have hput : Mdns.namePut e (dotted (l :: ls)) =
          namePutLoop (dotted (l :: ls)).length false (dotted ls)
            (putLabel (e.remember (dotted (l :: ls))) (dotted (l :: ls))) := by
        obtain ⟨c, rest, hcur⟩ := List.exists_cons_of_ne_nil (dotted_ne_nil hl)
        have htext : tailName (dotted (l :: ls)) = dotted ls := tailName_dotted hl.head
        rw [Mdns.namePut, hmiss, ← htext, hcur]
        rfl
      have htail := length_dotted_tail hl
      have hlabel := length_putLabel hl.head (e.remember (dotted (l :: ls))) ls
      have hadd : (e.remember (dotted (l :: ls))).nc = [(dotted (l :: ls), 12)] := by
        have hroom : ¬ (ncMax ≤ e.nc.length ∨ 0x3FFF < e.buf.length) := by
          rw [hnil, hbuf]
          decide
        simp only [Enc.remember, ncAdd, if_neg hroom]
        rw [hnil, hbuf, List.take_of_length_le (by omega)]
        rfl
      rw [buf_remember, hbuf] at hlabel
      have hshort := hl.head.short
      have hname : ncName = 96 := rfl
      have hmax : ncMax = 10 := rfl
      have hgrow := count_namePutLoop hl.tail (by omega) htail
        (e := putLabel (e.remember (dotted (l :: ls))) (dotted (l :: ls))) (by omega) (by
          intro x hx
          rw [nc_putLabel, hadd, List.mem_singleton] at hx
          rw [hx]
          exact htail)
      rw [nc_putLabel, hadd, List.length_singleton] at hgrow
      rw [hput]
      rw [List.length_cons] at hcount
      omega
    · rw [hnew, List.length_append]
      omega
  refine ⟨⟨h.len.trans hpre.length_le, length_nc_namePut _ h.size, fun i x hx => ?_, .inr hthree⟩,
    fun hnil => ?_⟩
  · rw [hnew] at hx
    by_cases hi : i < e.nc.length
    · rw [List.getElem?_append_left hi] at hx
      exact (h.ranked i x hx).keeps (Keeps.of_prefix 12 hpre)
    · rw [List.getElem?_append_right (by omega)] at hx
      exact (hpoints x (List.mem_of_getElem? hx)).mono (by omega)
  · rw [hnil] at hthree
    exact absurd hthree (by decide)

end Sound

end Mdns
end InfernoFpga
