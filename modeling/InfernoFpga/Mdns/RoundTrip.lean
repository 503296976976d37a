import InfernoFpga.Mdns.Spelling

/-!
# RoundTrip — a response decodes to the records that were put into it

Each record, wherever it comes to lie and whatever of its names is left to a pointer, is read back
as it was meant; the counts in the header say how many there are.
-/

namespace InfernoFpga
namespace Mdns

open Lib
open Firmware

/-! ## One record -/

/-- What a record's head says, behind its owner. -/
def headBytes (type cls ttl n : Nat) : List UInt8 :=
  Mem.be16 type ++ Mem.be16 cls ++ Mem.be32 ttl ++ Mem.be16 n

/-- A record is read where its owner, its head and its data lie. -/
theorem readRr_of_at {m : List UInt8} {p q type cls ttl n : Nat} {owner : Str} {d : RData}
    (howner : nameDecode m p = some (q, owner)) (hhead : At m q (headBytes type cls ttl n))
    (htype : type < 65536) (hcls : cls < 65536) (httl : ttl < 2 ^ 32) (hn : n < 65536)
    (hend : q + 10 + n ≤ m.length) (hdata : readRdata m type (q + 10) n = some d) :
    readRr m p = some (⟨owner, type, cls, ttl, d⟩, q + 10 + n) := by
  obtain ⟨hhead, hlen⟩ := At.append_iff.1 hhead
  obtain ⟨hhead, httl'⟩ := At.append_iff.1 hhead
  obtain ⟨htype', hcls'⟩ := At.append_iff.1 hhead
  have h1 : rd16 m q = type := (rd16_at htype').trans (Nat.mod_eq_of_lt htype)
  have h2 : rd16 m (q + 2) = cls := (rd16_at hcls').trans (Nat.mod_eq_of_lt hcls)
  have h3 : rd32 m (q + 4) = ttl := rd32_at httl' httl
  have h4 : rd16 m (q + 8) = n := (rd16_at hlen).trans (Nat.mod_eq_of_lt hn)
  rw [readRr, howner]
  simp only [h1, h2, h3, h4]
  rw [if_neg (by omega), hdata]
  rfl

/-- `m` is what the message `e` becomes: longer, and with another header. -/
structure Becomes (e : Enc) (m : List UInt8) : Prop where
  keeps : Keeps 12 e.buf m
  length : e.buf.length ≤ m.length

theorem Becomes.of_prefix {e e' : Enc} {m : List UInt8} (h : Becomes e' m) (hpre : e.buf <+: e'.buf) :
    Becomes e m :=
  ⟨(Keeps.of_prefix 12 hpre).trans h.keeps hpre.length_le, hpre.length_le.trans h.length⟩

/-- A name is read back from whatever the message becomes. -/
theorem nameDecode_namePut {e : Enc} {k : Nat} {name : Str} {m : List UInt8} (hs : Sound e)
    (hspell : Spelled k name) (hm : Becomes (namePut e name) m) :
    nameDecode m e.buf.length = some ((namePut e name).buf.length, name.map lc) := by
  obtain ⟨l, ls, hl, rfl, hfit, -⟩ := hspell
  obtain ⟨⟨hpre, ⟨j, hj, hname⟩, -⟩, -⟩ := hs.namePut hl hfit
  have hmax : ncMax = 10 := rfl
  have hcache : ncName = 96 := rfl
  have hroom : qnameLen - 1 = 127 := rfl
  have hsize := hs.size
  have h12 := hs.len
  have hle := hpre.length_le.trans hm.length
  exact nameDecode_nameAt (hname.keeps hm.keeps) (by omega) (by omega) (by omega)

theorem prefix_namePut {e : Enc} {k : Nat} {name : Str} (hs : Sound e) (hspell : Spelled k name) :
    e.buf <+: (namePut e name).buf := by
  obtain ⟨l, ls, hl, rfl, hfit, -⟩ := hspell
  exact (hs.namePut hl hfit).1.pre

/-- From `e` to `e'` a message has grown by the record `r`. -/
structure Grown (e e' : Enc) (r : Rr) : Prop where
  pre : e.buf <+: e'.buf
  reads : ∀ m, Becomes e' m → readRr m e.buf.length = some (r, e'.buf.length)

/-- `f` appends `n` bytes to `e`, which as data of a record read `d`. -/
structure Appends (f : Enc → Enc) (e : Enc) (type n : Nat) (d : RData) : Prop where
  pre : e.buf <+: (f e).buf
  length : (f e).buf.length = e.buf.length + n
  reads : ∀ m, Becomes (f e) m → readRdata m type e.buf.length n = some d

/-- Owner, head and data make a record. -/
theorem grown_of_appends {f : Enc → Enc} {e : Enc} {owner : Str} {type cls ttl n k : Nat}
    {d : RData} (hs : Sound e) (hspell : Spelled k owner) (htype : type < 65536)
    (hcls : cls < 65536) (httl : ttl < 2 ^ 32) (hn : n < 65536)
    (h : Appends f ((putRrHead e owner type cls ttl).put (Mem.be16 n)) type n d) :
    Grown e (f ((putRrHead e owner type cls ttl).put (Mem.be16 n)))
      ⟨owner.map lc, type, cls, ttl, d⟩ := by
  have hpre := prefix_namePut hs hspell
  have h12 := hs.len
  have hle := hpre.length_le
  have hbuf : ((putRrHead e owner type cls ttl).put (Mem.be16 n)).buf =
      (namePut e owner).buf ++ headBytes type cls ttl n := by
    rw [buf_put, putRrHead, buf_put, List.append_assoc, headBytes]
  have hten : (headBytes type cls ttl n).length = 10 := rfl
  have hlong := h.length
  have hkept := h.pre
  rw [hbuf] at hkept
  rw [hbuf, List.length_append, hten] at hlong
  have hname := (List.prefix_append _ _).trans hkept
  refine ⟨hpre.trans hname, fun m hm => ?_⟩
  have hdata := h.reads m hm
  rw [hbuf, List.length_append, hten] at hdata
  have hhead : At m (namePut e owner).buf.length (headBytes type cls ttl n) :=
    ((At.of_append _ _).keeps (Keeps.of_prefix 12 hkept) (by omega)).keeps hm.keeps (by omega)
  have hlen := hm.length
  rw [hlong] at hlen ⊢
  exact readRr_of_at (nameDecode_namePut hs hspell (hm.of_prefix hname)) hhead htype hcls httl hn
    hlen hdata

/-- Behind a record's head the cache is sound, once there is one. -/
theorem sound_head {e : Enc} {owner : Str} (hs : Sound e) (hspell : Spelled 3 owner)
    (type cls ttl n : Nat) :
    Sound ((putRrHead e owner type cls ttl).put (Mem.be16 n)) ∧
      ((putRrHead e owner type cls ttl).put (Mem.be16 n)).nc ≠ [] := by
  obtain ⟨l, ls, hl, rfl, hfit, hk⟩ := hspell
  obtain ⟨hsound, hne⟩ := (hs.namePut hl hfit).2 (.inl hk)
  exact ⟨(hsound.put hne _).put hne _, hne⟩

theorem Sound.namePut_of_ne {e : Enc} {k : Nat} {name : Str} (hs : Sound e) (hne : e.nc ≠ [])
    (hspell : Spelled k name) : Sound (Mdns.namePut e name) := by
  obtain ⟨l, ls, hl, rfl, hfit, -⟩ := hspell
  exact ((hs.namePut hl hfit).2 (.inr hne)).1

theorem length_namePut_lt {e : Enc} {k : Nat} {name : Str} (hspell : Spelled k name) :
    (namePut e name).buf.length < e.buf.length + 98 := by
  obtain ⟨l, ls, hl, rfl, hfit, -⟩ := hspell
  have hlen := length_namePut e (dotted_ne_nil hl)
  have hcache : ncName = 96 := rfl
  omega

/-! ## The record builders -/

def ptrRr (svc inst : Str) : Rr := ⟨svc.map lc, dnsTPtr, dnsCIn, mdnsTtl, .ptr (inst.map lc)⟩

def srvRr (b : Board) (inst : Str) (port : Nat) : Rr :=
  ⟨inst.map lc, dnsTSrv, dnsCInFlush, mdnsTtlA, .srv 0 0 port (b.nHost.map lc)⟩

def txtRr (inst : Str) (text : List UInt8) : Rr :=
  ⟨inst.map lc, dnsTTxt, dnsCInFlush, mdnsTtlTxt, .txt text⟩

def hostRr (b : Board) : Rr := ⟨b.nHost.map lc, dnsTA, dnsCInFlush, mdnsTtlA, .a b.ip.bytes⟩

/-- A writer of record data: at most 64 KiB of it, read back as `d`. -/
structure Writes (f : Enc → Enc) (type : Nat) (d : RData) : Prop where
  blind : Blind f
  size : ∀ e, (f e).buf.length < e.buf.length + 65536
  pre : ∀ e, Sound e → e.nc ≠ [] → e.buf <+: (f e).buf
  sound : ∀ e, Sound e → e.nc ≠ [] → Sound (f e)
  reads : ∀ e n m, Sound e → e.nc ≠ [] → (f e).buf.length = e.buf.length + n →
    Becomes (f e) m → readRdata m type e.buf.length n = some d

/-- Such a writer completes a record and leaves the cache sound. -/
theorem Writes.grown {f : Enc → Enc} {e : Enc} {owner : Str} {type cls ttl : Nat} {d : RData}
    (hf : Writes f type d) (hs : Sound e) (hspell : Spelled 3 owner) (htype : type < 65536)
    (hcls : cls < 65536) (httl : ttl < 2 ^ 32) :
    Grown e (putRdata (putRrHead e owner type cls ttl) f) ⟨owner.map lc, type, cls, ttl, d⟩ ∧
      Sound (putRdata (putRrHead e owner type cls ttl) f) := by
  obtain ⟨n, hput, hlen⟩ := putRdata_eq hf.blind (putRrHead e owner type cls ttl)
  obtain ⟨hsound, hne⟩ := sound_head hs hspell type cls ttl n
  have hsize := hf.size ((putRrHead e owner type cls ttl).put (Mem.be16 n))
  have hhead : ((putRrHead e owner type cls ttl).put (Mem.be16 n)).buf.length =
      (putRrHead e owner type cls ttl).buf.length + 2 := by
    rw [buf_put, List.length_append, length_be16]
  rw [hput] at hlen
  have hlong : (f ((putRrHead e owner type cls ttl).put (Mem.be16 n))).buf.length =
      ((putRrHead e owner type cls ttl).put (Mem.be16 n)).buf.length + n := by
    rw [hlen, hhead]
  rw [hput]
  refine ⟨grown_of_appends hs hspell htype hcls httl (by omega) ?_, hf.sound _ hsound hne⟩
  exact ⟨hf.pre _ hsound hne, hlong, fun m hm => hf.reads _ n m hsound hne hlong hm⟩

section Builders

variable {b : Board} {e : Enc} {k : Nat}

theorem writes_ptr {inst : Str} (hspell : Spelled k inst) :
    Writes (fun e => namePut e inst) dnsTPtr (.ptr (inst.map lc)) where
  blind := blind_namePut inst
  size := fun e => (length_namePut_lt hspell).trans (Nat.add_lt_add_left (by decide) _)
  pre := fun e hs _ => prefix_namePut hs hspell
  sound := fun e hs hne => hs.namePut_of_ne hne hspell
  reads := by
    intro e n m hs _ hlen hm
    have hname := nameDecode_namePut hs hspell hm
    have hlast : readLastName m e.buf.length (e.buf.length + n) = some (inst.map lc) := by
      simp only [readLastName, hname, hlen, if_true]
    rw [readRdata, if_neg (by decide), if_pos rfl, hlast]
    rfl

theorem writes_srv (hspell : Spelled k b.nHost) {port : Nat} (hport : port < 65536) :
    Writes (fun e => namePut (e.put ([0, 0, 0, 0] ++ Mem.be16 port)) b.nHost) dnsTSrv
      (.srv 0 0 port (b.nHost.map lc)) where
  blind := (Blind.put _).comp (blind_namePut b.nHost)
  size := by
    intro e
    have hname := @length_namePut_lt (e.put ([0, 0, 0, 0] ++ Mem.be16 port)) k b.nHost hspell
    rw [buf_put, List.length_append] at hname
    have hsix : ([0, 0, 0, 0] ++ Mem.be16 port : List UInt8).length = 6 := rfl
    omega
  pre := fun e hs hne =>
    (List.prefix_append _ _).trans (prefix_namePut (hs.put hne _) hspell)
  sound := fun e hs hne => (hs.put hne _).namePut_of_ne hne hspell
  reads := by
    intro e n m hs hne hlen hm
    have hput := hs.put hne ([0, 0, 0, 0] ++ Mem.be16 port)
    have hpre := prefix_namePut hput hspell
    have h12 := hs.len
    have hname := nameDecode_namePut hput hspell hm
    have hsix : (e.put ([0, 0, 0, 0] ++ Mem.be16 port)).buf.length = e.buf.length + 6 := by
      rw [buf_put, List.length_append]
      rfl
    rw [hsix] at hname
    have hlast : readLastName m (e.buf.length + 6) (e.buf.length + n) = some (b.nHost.map lc) := by
      simp only [readLastName, hname, hlen, if_true]
    have hat : At m e.buf.length (Mem.be16 0 ++ Mem.be16 0 ++ Mem.be16 port) :=
      ((At.of_append e.buf _).keeps (Keeps.of_prefix 12 hpre) h12).keeps hm.keeps h12
    obtain ⟨hzeros, hport'⟩ := At.append_iff.1 hat
    obtain ⟨hprio, hweight⟩ := At.append_iff.1 hzeros
    have h1 : rd16 m e.buf.length = 0 := rd16_at hprio
    have h2 : rd16 m (e.buf.length + 2) = 0 := rd16_at hweight
    have h3 : rd16 m (e.buf.length + 4) = port :=
      (rd16_at hport').trans (Nat.mod_eq_of_lt hport)
    rw [readRdata, if_neg (by decide), if_neg (by decide), if_pos rfl, hlast, h1, h2, h3]
    rfl

theorem writes_txt {text : List UInt8} (hlen : text.length < 65536) :
    Writes (fun e => e.put text) dnsTTxt (.txt text) where
  blind := Blind.put text
  size := by
    intro e
    rw [buf_put, List.length_append]
    omega
  pre := fun e _ _ => List.prefix_append _ _
  sound := fun e hs hne => hs.put hne text
  reads := by
    intro e n m hs _ hsize hm
    have hat : At m e.buf.length text := (At.of_append e.buf text).keeps hm.keeps hs.len
    have hn : text.length = n := by
      rw [buf_put, List.length_append] at hsize
      omega
    rw [readRdata, if_neg (by decide), if_neg (by decide), if_neg (by decide), if_pos rfl, ← hn,
      hat.slice]

theorem putPtr_grown (hs : Sound e) {svc inst : Str} (hsvc : Spelled 3 svc)
    (hinst : Spelled k inst) :
    Grown e (putPtr e svc inst) (ptrRr svc inst) ∧ Sound (putPtr e svc inst) :=
  (writes_ptr hinst).grown hs hsvc (by decide) (by decide) (by decide)

theorem putSrv_grown (hs : Sound e) {inst : Str} {port : Nat} (hinst : Spelled 3 inst)
    (hhost : Spelled k b.nHost) (hport : port < 65536) :
    Grown e (putSrv b e inst port) (srvRr b inst port) ∧ Sound (putSrv b e inst port) :=
  (writes_srv hhost hport).grown hs hinst (by decide) (by decide) (by decide)

theorem putTxt_grown (hs : Sound e) {inst : Str} {text : List UInt8} (hinst : Spelled 3 inst)
    (hlen : text.length < 65536) :
    Grown e (putTxt e inst text) (txtRr inst text) ∧ Sound (putTxt e inst text) :=
  (writes_txt hlen).grown hs hinst (by decide) (by decide) (by decide)

/-- The address of the host: its owner may be the first name of the message, and has only two
labels. -/
theorem putA_grown (hs : Sound e) (hhost : Spelled k b.nHost) : Grown e (putA b e) (hostRr b) := by
  have hfour : Mem.be16 4 = [0, 4] := rfl
  have hput : putA b e = ((putRrHead e b.nHost dnsTA dnsCInFlush mdnsTtlA).put (Mem.be16 4)).put
      b.ip.bytes := by
    rw [putA, hfour, Enc.put, Enc.put, Enc.put, List.append_assoc]
  rw [hput]
  refine grown_of_appends (f := fun e => e.put b.ip.bytes) hs hhost (by decide) (by decide)
    (by decide) (by decide) ⟨List.prefix_append _ _, ?_, fun m hm => ?_⟩
  · rw [buf_put, List.length_append]
    rfl
  · have h12 := hs.len.trans (prefix_namePut hs hhost).length_le
    have hat : At m ((putRrHead e b.nHost dnsTA dnsCInFlush mdnsTtlA).put (Mem.be16 4)).buf.length
        b.ip.bytes := by
      refine (At.of_append _ _).keeps hm.keeps ?_
      rw [buf_put, putRrHead, buf_put, List.length_append, List.length_append]
      omega
    have hbytes : b.ip.bytes.length = 4 := rfl
    have hslice := hat.slice
    rw [hbytes] at hslice
    rw [readRdata, if_pos rfl, if_pos rfl, hslice]

end Builders

/-! ## The texts fit a record -/

/-- A text of at most `n` strings. -/
def Texts (n : Nat) (t : List UInt8) : Prop := t.length ≤ 256 * n

theorem Texts.append {n k : Nat} {t u : List UInt8} (h : Texts n t) (h' : Texts k u) :
    Texts (n + k) (t ++ u) := by
  rw [Texts] at *
  rw [List.length_append]
  omega

theorem texts_txtPut (s : Str) : Texts 1 (txtPut s) := by
  rw [Texts, txtPut, List.length_cons, List.length_take]
  omega

theorem texts_buildTxtChan (b : Board) (ch1 : Nat) : Texts 13 (buildTxtChan b ch1) := by
  refine (texts_txtPut _).append (texts_txtPut _) |>.append (texts_txtPut _)
    |>.append (texts_txtPut _) |>.append (texts_txtPut _) |>.append (texts_txtPut _)
    |>.append (texts_txtPut _) |>.append (texts_txtPut _) |>.append (texts_txtPut _)
    |>.append (texts_txtPut _) |>.append (texts_txtPut _) |>.append (?_ : Texts 1 _)
    |>.append (texts_txtPut _)
  -- the bundle the channel is in, if it is in one
  split
  · exact texts_txtPut _
  · exact Nat.zero_le _

theorem texts_buildTxtBund (b : Board) (b1 : Nat) : Texts 10 (buildTxtBund b b1) :=
  (texts_txtPut _).append (texts_txtPut _) |>.append (texts_txtPut _)
    |>.append (texts_txtPut _) |>.append (texts_txtPut _) |>.append (texts_txtPut _)
    |>.append (texts_txtPut _) |>.append (texts_txtPut _) |>.append (texts_txtPut _)
    |>.append (texts_txtPut _)

theorem texts_buildTxtCmc (b : Board) : Texts 8 (buildTxtCmc b) :=
  (texts_txtPut _).append (texts_txtPut _) |>.append (texts_txtPut _)
    |>.append (texts_txtPut _) |>.append (texts_txtPut _) |>.append (texts_txtPut _)
    |>.append (texts_txtPut _) |>.append (texts_txtPut _)

theorem texts_buildTxtArc : Texts 6 buildTxtArc :=
  (texts_txtPut _).append (texts_txtPut _) |>.append (texts_txtPut _)
    |>.append (texts_txtPut _) |>.append (texts_txtPut _) |>.append (texts_txtPut _)

theorem Texts.lt {n : Nat} {t : List UInt8} (h : Texts n t) (hn : n < 256) : t.length < 65536 := by
  rw [Texts] at h
  omega

/-! ## Every record of a response -/

/-- The text of a service instance. -/
def svcText (b : Board) (s : Svc) : List UInt8 := if s = .arc then buildTxtArc else buildTxtCmc b

def instText (b : Board) : Instance → List UInt8
  | .chan ch1 => buildTxtChan b ch1
  | .bund id => buildTxtBund b id

/-- The record an entry stands for. -/
def intendedRr (b : Board) : Entry → Rr
  | .services s => ptrRr nServices s.name
  | .svcPtr s => ptrRr s.name (b.svcInst s)
  | .svcSrv s => srvRr b (b.svcInst s) s.port
  | .svcTxt s => txtRr (b.svcInst s) (svcText b s)
  | .instPtr i => ptrRr i.svc.name (b.inst i)
  | .instSrv i => srvRr b (b.inst i) i.port
  | .instTxt i => txtRr (b.inst i) (instText b i)
  | .hostA => hostRr b

theorem length_svcText (b : Board) (s : Svc) : (svcText b s).length < 65536 := by
  rw [svcText]
  split
  · exact texts_buildTxtArc.lt (by decide)
  · exact (texts_buildTxtCmc b).lt (by decide)

theorem length_instText (b : Board) (i : Instance) : (instText b i).length < 65536 := by
  cases i with
  | chan ch1 => exact (texts_buildTxtChan b ch1).lt (by decide)
  | bund id => exact (texts_buildTxtBund b id).lt (by decide)

theorem Svc.port_lt (s : Svc) : s.port < 65536 := by
  cases s <;> decide

theorem Instance.port_lt (i : Instance) : i.port < 65536 := by
  cases i
  · exact (by decide : dantePortFlows < 65536)
  · exact dantePortMedia.isLt

/-- An entry is encoded as the record it stands for, and all but the host's address leave the cache
sound. -/
theorem encode_grown {b : Board} (hb : Named b) {e : Enc} (hs : Sound e) (x : Entry) :
    Grown e (encode b e x) (intendedRr b x) ∧ (x ≠ .hostA → Sound (encode b e x)) := by
  have hhost := spelled_nHost hb
  cases x with
  | services s =>
    have hput := putPtr_grown hs spelled_services (spelled_svc s)
    exact ⟨hput.1, fun _ => hput.2⟩
  | svcPtr s =>
    have hput := putPtr_grown hs (spelled_svc s) (spelled_svcInst hb s)
    exact ⟨hput.1, fun _ => hput.2⟩
  | svcSrv s =>
    have hput := putSrv_grown hs (spelled_svcInst hb s) hhost s.port_lt
    exact ⟨hput.1, fun _ => hput.2⟩
  | svcTxt s =>
    have hput := putTxt_grown hs (spelled_svcInst hb s) (length_svcText b s)
    exact ⟨hput.1, fun _ => hput.2⟩
  | instPtr i =>
    have hput := putPtr_grown hs (spelled_svc i.svc) (spelled_bInst hb i)
    exact ⟨hput.1, fun _ => hput.2⟩
  | instSrv i =>
    have hput := putSrv_grown hs (spelled_bInst hb i) hhost i.port_lt
    exact ⟨hput.1, fun _ => hput.2⟩
  | instTxt i =>
    have hput := putTxt_grown hs (spelled_bInst hb i) (length_instText b i)
    cases i with
    | chan ch1 => exact ⟨hput.1, fun _ => hput.2⟩
    | bund id => exact ⟨hput.1, fun _ => hput.2⟩
  | hostA => exact ⟨putA_grown hs hhost, fun hne => absurd rfl hne⟩

/-! ## A response under construction -/

theorem readRrs_concat {m : List UInt8} {r : Rr} {rs : List Rr} {n off mid stop : Nat}
    (h : readRrs m n off = some (rs, mid)) (hr : readRr m mid = some (r, stop)) :
    readRrs m (n + 1) off = some (rs ++ [r], stop) := by
  induction n generalizing off rs with
  | zero =>
    rw [readRrs, Option.some_inj, Prod.mk.injEq] at h
    obtain ⟨rfl, rfl⟩ := h
    rw [readRrs, hr]
    rfl
  | succ n ih =>
    rw [readRrs] at h
    rw [readRrs]
    cases hfirst : readRr m off with
    | none => simp only [hfirst] at h; cases h
    | some first =>
      obtain ⟨r₀, off'⟩ := first
      simp only [hfirst] at h
      cases hrest : readRrs m n off' with
      | none => simp only [hrest] at h; cases h
      | some rest =>
        obtain ⟨rs', mid'⟩ := rest
        simp only [hrest, Option.map_some, Option.some_inj, Prod.mk.injEq] at h
        obtain ⟨rfl, rfl⟩ := h
        simp only [ih hrest, Option.map_some]
        rfl

/-- Records read in a row are read in two sections, wherever the line between these falls. -/
theorem readRrs_split {m : List UInt8} {rs : List Rr} {n k off stop : Nat}
    (h : readRrs m (n + k) off = some (rs, stop)) :
    ∃ mid, readRrs m n off = some (rs.take n, mid) ∧ readRrs m k mid = some (rs.drop n, stop) := by
  induction n generalizing off rs with
  | zero =>
    rw [Nat.zero_add] at h
    exact ⟨off, rfl, h⟩
  | succ n ih =>
    rw [Nat.add_right_comm, readRrs] at h
    cases hfirst : readRr m off with
    | none => simp only [hfirst] at h; cases h
    | some first =>
      obtain ⟨r, off'⟩ := first
      simp only [hfirst] at h
      cases hrest : readRrs m (n + k) off' with
      | none => simp only [hrest] at h; cases h
      | some rest =>
        obtain ⟨rs', stop'⟩ := rest
        simp only [hrest, Option.map_some, Option.some_inj, Prod.mk.injEq] at h
        obtain ⟨rfl, rfl⟩ := h
        obtain ⟨mid, hleft, hright⟩ := ih hrest
        refine ⟨mid, ?_, hright⟩
        rw [readRrs, hfirst]
        simp only [hleft, Option.map_some]
        rfl

/-- What has been put into a message is there, behind a header that is still to be patched. -/
structure Holds (b : Board) (o : Out) : Prop where
  head : header <+: o.enc.buf
  answers : o.answers = (o.log.filter fun x => !x.isAdditional).length
  additional : o.additional = (o.log.filter Entry.isAdditional).length
  reads : ∀ m, Becomes o.enc m →
    readRrs m o.log.length 12 = some (o.log.map (intendedRr b), o.enc.buf.length)

theorem holds_empty (b : Board) : Holds b Out.empty :=
  ⟨List.prefix_rfl, rfl, rfl, fun _ _ => rfl⟩

theorem sound_empty : Sound Out.empty.enc :=
  ⟨by decide, by decide, fun i x hx => absurd hx (by simp [Out.empty]), .inl ⟨rfl, rfl⟩⟩

/-- One record more. -/
theorem Holds.emit {b : Board} (hb : Named b) {o : Out} (h : Holds b o) (hs : Sound o.enc)
    (x : Entry) : Holds b (emit b o x) := by
  obtain ⟨hgrown, -⟩ := encode_grown hb hs x
  refine ⟨h.head.trans hgrown.pre, ?_, ?_, fun m hm => ?_⟩
  · have hcount := h.answers
    simp only [Mdns.emit, List.filter_append, List.length_append]
    cases hx : x.isAdditional <;> simp [hx, hcount]
  · have hcount := h.additional
    simp only [Mdns.emit, List.filter_append, List.length_append]
    cases hx : x.isAdditional <;> simp [hx, hcount]
  · have hread := readRrs_concat (h.reads m (hm.of_prefix hgrown.pre)) (hgrown.reads m hm)
    rw [log_emit, List.length_append, List.length_singleton, List.map_append]
    exact hread

theorem emitAll_holds {b : Board} (hb : Named b) (xs : List Entry) {o : Out} (h : Holds b o)
    (hs : Sound o.enc) (hx : .hostA ∉ xs) :
    Holds b (emitAll b o xs) ∧ Sound (emitAll b o xs).enc := by
  induction xs generalizing o with
  | nil => exact ⟨h, hs⟩
  | cons x xs ih =>
    rw [List.mem_cons, not_or] at hx
    exact ih (h.emit hb hs x) ((encode_grown hb hs x).2 (Ne.symm hx.1)) hx.2

theorem chanPtrLoop_holds {b : Board} (hb : Named b) (k start : Nat) {o : Out} (h : Holds b o)
    (hs : Sound o.enc) :
    Holds b (chanPtrLoop b k start o).2 ∧ Sound (chanPtrLoop b k start o).2.enc := by
  induction k generalizing start o with
  | zero => exact ⟨h, hs⟩
  | succ k ih =>
    rw [chanPtrLoop]
    split
    · have hsound := (encode_grown hb hs (.instPtr (.chan
        ((start + (danteTxChannels - (k + 1))) % danteTxChannels + 1)))).2 (by simp)
      exact ih _ (h.emit hb hs _) hsound
    · exact ⟨h, hs⟩

theorem chanPtrs_holds {b : Board} (hb : Named b) (want : Wants) (start : Nat) {o : Out}
    (h : Holds b o) (hs : Sound o.enc) :
    Holds b (chanPtrs b want start o).2 ∧ Sound (chanPtrs b want start o).2.enc := by
  rw [chanPtrs]
  split
  · exact chanPtrLoop_holds hb _ _ h hs
  · exact ⟨h, hs⟩

/-- The records of one instance and those before it. -/
def bodyEntries (b : Board) (want : Wants) (idx : Nat) : List Entry :=
  (if .bundPtr ∈ want then b.groupIds.map fun id => .instPtr (.bund id) else []) ++
    (if .chanOne ∈ want then [.instSrv (.chan idx), .instTxt (.chan idx)] else []) ++
    (if .bundOne ∈ want then [.instSrv (.bund idx), .instTxt (.bund idx)] else [])

theorem tailEntries_eq (b : Board) (want : Wants) (idx : Nat) :
    tailEntries b want idx = bodyEntries b want idx ++ (if .a ∈ want then [.hostA] else []) := rfl

theorem hostA_notMem_deviceEntries (want : Wants) : .hostA ∉ deviceEntries want := by
  simp only [deviceEntries, List.mem_append]
  split_ifs <;> simp

theorem hostA_notMem_bodyEntries (b : Board) (want : Wants) (idx : Nat) :
    .hostA ∉ bodyEntries b want idx := by
  simp only [bodyEntries, List.mem_append]
  split_ifs <;> simp

/-- The whole message, but for its counts.  The host's address, which need not leave the cache
sound, is the last record. -/
theorem holds_unfinished {b : Board} (hb : Named b) (start idx : Nat) (want : Wants) :
    Holds b (emitAll b (chanPtrs b want start (emitAll b Out.empty (deviceEntries want))).2
      (tailEntries b want idx)) := by
  obtain ⟨hdev, hdevs⟩ := emitAll_holds hb (deviceEntries want) (holds_empty b) sound_empty
    (hostA_notMem_deviceEntries want)
  obtain ⟨hchan, hchans⟩ := chanPtrs_holds hb want start hdev hdevs
  obtain ⟨hbody, hbodys⟩ := emitAll_holds hb (bodyEntries b want idx) hchan hchans
    (hostA_notMem_bodyEntries b want idx)
  rw [tailEntries_eq, emitAll, List.foldl_append]
  split
  · exact hbody.emit hb hbodys .hostA
  · exact hbody

/-! ## The finished message -/

/-- The counts are patched into a header that was left blank. -/
theorem readMessage_finish {b : Board} {o : Out} (h : Holds b o) (ha : o.answers < 65536)
    (hadd : o.additional < 65536) :
    readMessage (finish o).enc.buf =
      some ⟨0x8400, (o.log.map (intendedRr b)).take o.answers, [],
        (o.log.map (intendedRr b)).drop o.answers⟩ := by
  obtain ⟨rest, hrest⟩ := h.head
  have hbuf : (finish o).enc.buf = (Mem.be16 0 ++ Mem.be16 0x8400 ++ Mem.be16 0 ++
      Mem.be16 o.answers ++ Mem.be16 0 ++ Mem.be16 o.additional) ++ rest := by
    simp only [finish, Enc.patch16, ← hrest]
    rfl
  have hbecomes : Becomes o.enc (finish o).enc.buf := by
    refine ⟨fun k hk hlt => ?_, ?_⟩
    · simp only [finish, Enc.patch16]
      rw [List.getElem?_set_ne (by omega), List.getElem?_set_ne (by omega),
        List.getElem?_set_ne (by omega), List.getElem?_set_ne (by omega)]
    · simp [finish]
  have hsum : o.answers + o.additional = o.log.length := by
    rw [h.answers, h.additional, Nat.add_comm]
    exact (List.length_eq_length_filter_add Entry.isAdditional).symm
  have hread := h.reads _ hbecomes
  rw [← hsum] at hread
  obtain ⟨mid, hans, hrec⟩ := readRrs_split hread
  have hlen : (finish o).enc.buf.length = o.enc.buf.length := by simp [finish]
  have h12 : 12 ≤ (finish o).enc.buf.length := by
    rw [hlen, ← hrest, List.length_append]
    exact Nat.le_add_right 12 _
  -- the six numbers of the header
  have hat : At (finish o).enc.buf 0 (Mem.be16 0 ++ Mem.be16 0x8400 ++ Mem.be16 0 ++
      Mem.be16 o.answers ++ Mem.be16 0 ++ Mem.be16 o.additional) := by
    rw [hbuf]
    exact At.of_prefix (List.prefix_append _ _)
  obtain ⟨hat, har'⟩ := At.append_iff.1 hat
  obtain ⟨hat, hns'⟩ := At.append_iff.1 hat
  obtain ⟨hat, han'⟩ := At.append_iff.1 hat
  obtain ⟨hat, hqd'⟩ := At.append_iff.1 hat
  obtain ⟨-, hflags'⟩ := At.append_iff.1 hat
  have hflags : rd16 (finish o).enc.buf 2 = 0x8400 := rd16_at hflags'
  have hqd : rd16 (finish o).enc.buf 4 = 0 := rd16_at hqd'
  have han : rd16 (finish o).enc.buf 6 = o.answers := (rd16_at han').trans (Nat.mod_eq_of_lt ha)
  have hns : rd16 (finish o).enc.buf 8 = 0 := rd16_at hns'
  have har : rd16 (finish o).enc.buf 10 = o.additional :=
    (rd16_at har').trans (Nat.mod_eq_of_lt hadd)
  rw [readMessage, hqd, if_neg (by omega), han, hans, hns, har]
  simp only [readRrs, hrec, hlen, if_true, hflags]

/-! ## What is in a response -/

/-- The answers among some entries. -/
def answersOf (xs : List Entry) : List Entry := xs.filter fun x => !x.isAdditional

def additionalsOf (xs : List Entry) : List Entry := xs.filter Entry.isAdditional

/-- Everything wanted, in order, with the `m` channel pointers there was room for. -/
def intendedLog (b : Board) (start idx m : Nat) (want : Wants) : List Entry :=
  deviceEntries want ++ ((chanSeq m 0 start).map (fun c => .instPtr (.chan c)) ++
    tailEntries b want idx)

theorem log_assemble_intended (b : Board) (start idx : Nat) (want : Wants) :
    ∃ m ≤ danteTxChannels, (.chanPtr ∉ want → m = 0) ∧
      (assemble b start idx want).2.log = intendedLog b start idx m want := by
  have hdev : (emitAll b Out.empty (deviceEntries want)).log = deviceEntries want :=
    log_emitAll b Out.empty _
  by_cases hwant : .chanPtr ∈ want
  · obtain ⟨m, hm, hlog, -⟩ :=
      chanPtrs_eq_chanSeq b want start (emitAll b Out.empty (deviceEntries want))
    refine ⟨m, hm, fun hnot => absurd hwant hnot, ?_⟩
    rw [log_assemble, hlog, hdev, intendedLog, List.append_assoc]
  · refine ⟨0, Nat.zero_le _, fun _ => rfl, ?_⟩
    rw [log_assemble, chanPtrs, if_neg hwant, hdev]
    rfl

/-- The records put in are few. -/
theorem length_intendedLog (b : Board) (start idx : Nat) {m : Nat} (hm : m ≤ danteTxChannels)
    (want : Wants) : (intendedLog b start idx m want).length < 65536 := by
  have hdev : (deviceEntries want).length ≤ 8 := by
    simp only [deviceEntries, List.length_append]
    split_ifs <;> simp
  have hids : b.groupIds.length ≤ nFlows := by
    rw [Board.groupIds, danteTxMcastIds, List.length_map, List.length_map]
    exact (List.length_filter_le _ _).trans (List.length_finRange).le
  have htail : (tailEntries b want idx).length ≤ nFlows + 5 := by
    simp only [tailEntries, List.length_append]
    split_ifs <;> simp <;> omega
  have hchan : danteTxChannels = 48 := rfl
  have hflows : nFlows = 6 := rfl
  rw [intendedLog, List.length_append, List.length_append, List.length_map, length_chanSeq]
  omega

theorem sections_append {xs ys : List Entry} (hx : ∀ x ∈ xs, x.isAdditional = false)
    (h : answersOf ys ++ additionalsOf ys = ys) :
    answersOf (xs ++ ys) ++ additionalsOf (xs ++ ys) = xs ++ ys := by
  have hans : answersOf xs = xs := List.filter_eq_self.2 fun x hmem => by simp [hx x hmem]
  have hadd : additionalsOf xs = [] := List.filter_eq_nil_iff.2 fun x hmem => by simp [hx x hmem]
  have hsplit : answersOf (xs ++ ys) = answersOf xs ++ answersOf ys := List.filter_append ..
  have hsplit' : additionalsOf (xs ++ ys) = additionalsOf xs ++ additionalsOf ys :=
    List.filter_append ..
  rw [hsplit, hsplit', hans, hadd, List.nil_append, List.append_assoc, h]

theorem answer_of_mem_deviceEntries (want : Wants) :
    ∀ x ∈ deviceEntries want, x.isAdditional = false := by
  intro x hx
  simp only [deviceEntries, List.mem_append] at hx
  rcases hx with (((((hx | hx) | hx) | hx) | hx) | hx) | hx <;>
    (split at hx <;> revert x <;> decide)

/-- Unless the records of a channel and of a bundle are both in it, a response has all its answers
in front. -/
theorem sections_intendedLog (b : Board) (start idx m : Nat) {want : Wants}
    (h : ¬ (.chanOne ∈ want ∧ .bundOne ∈ want)) :
    answersOf (intendedLog b start idx m want) ++ additionalsOf (intendedLog b start idx m want) =
      intendedLog b start idx m want := by
  refine sections_append (answer_of_mem_deviceEntries want) (sections_append (fun x hx => ?_) ?_)
  · obtain ⟨c, -, rfl⟩ := List.mem_map.1 hx
    rfl
  · rw [tailEntries, List.append_assoc, List.append_assoc]
    refine sections_append (fun x hx => ?_) ?_
    · split at hx
      · obtain ⟨id, -, rfl⟩ := List.mem_map.1 hx
        rfl
      · exact absurd hx List.not_mem_nil
    · by_cases hchan : .chanOne ∈ want
      · have hbund : .bundOne ∉ want := fun hmem => h ⟨hchan, hmem⟩
        rw [if_pos hchan, if_neg hbund]
        split <;> rfl
      · rw [if_neg hchan]
        split_ifs <;> rfl

/-- The records of `o` are what a reader of its bytes gets: all of them, in order, as many in each
section as were meant for it. -/
structure Decodes (b : Board) (o : Out) (msg : Message) : Prop where
  read : readMessage o.enc.buf = some msg
  flags : msg.flags = 0x8400
  records : msg.answers ++ msg.additionals = o.log.map (intendedRr b)
  authorities : msg.authorities = []
  answers : msg.answers.length = (answersOf o.log).length
  additionals : msg.additionals.length = (additionalsOf o.log).length

theorem decodes_finish {b : Board} {o : Out} (h : Holds b o) (hlen : o.log.length < 65536) :
    ∃ msg, Decodes b (finish o) msg := by
  have hans : o.answers = (answersOf o.log).length := h.answers
  have hadd : o.additional = (additionalsOf o.log).length := h.additional
  have hsum : o.log.length = o.additional + o.answers := by
    rw [hans, hadd]
    exact List.length_eq_length_filter_add Entry.isAdditional
  have hmap : (o.log.map (intendedRr b)).length = o.additional + o.answers := by
    rw [List.length_map, hsum]
  refine ⟨_, readMessage_finish h (by omega) (by omega), rfl, List.take_append_drop _ _, rfl, ?_, ?_⟩
  · rw [List.length_take, hmap, Nat.min_eq_left (Nat.le_add_left _ _), hans]
    rfl
  · rw [List.length_drop, hmap, Nat.add_sub_cancel, hadd]
    rfl

/-- Sections that were written one after the other are read as they were meant. -/
theorem Decodes.sections {b : Board} {o : Out} {msg : Message} (h : Decodes b o msg)
    (hsorted : answersOf o.log ++ additionalsOf o.log = o.log) :
    msg.answers = (answersOf o.log).map (intendedRr b) ∧
      msg.additionals = (additionalsOf o.log).map (intendedRr b) := by
  have hrecords := h.records
  rw [← hsorted, List.map_append] at hrecords
  refine List.append_inj hrecords ?_
  rw [h.answers, List.length_map]

/-- Every response that is sent decodes to the records that were wanted, in the order they were
wanted in; with at most one instance in it, each in its section. -/
theorem decodes_sendResponse {b : Board} (hb : Named b) (r : Responder) (n : Net) {want : Wants}
    (hwant : want ≠ []) :
    ∃ o msg, (sendResponse b r n want).1.responses = r.responses ++ [o] ∧
      (∃ m ≤ danteTxChannels, (.chanPtr ∉ want → m = 0) ∧
        o.log = intendedLog b r.chanPtrStart r.wantIdx m want) ∧
      Decodes b o msg ∧
      (¬ (.chanOne ∈ want ∧ .bundOne ∈ want) →
        msg.answers = (answersOf o.log).map (intendedRr b) ∧
          msg.additionals = (additionalsOf o.log).map (intendedRr b)) := by
  obtain ⟨m, hm, hnone, hlog⟩ := log_assemble_intended b r.chanPtrStart r.wantIdx want
  have hlen := length_intendedLog b r.chanPtrStart r.wantIdx hm want
  rw [← hlog] at hlen
  obtain ⟨msg, hmsg⟩ := decodes_finish (holds_unfinished hb r.chanPtrStart r.wantIdx want) hlen
  refine ⟨_, msg, (responses_sendResponse hwant).1, ⟨m, hm, hnone, hlog⟩, hmsg, fun hone => ?_⟩
  refine Decodes.sections hmsg ?_
  have hsorted := sections_intendedLog b r.chanPtrStart r.wantIdx m hone
  rwa [← hlog] at hsorted

/-! ## Two hosts -/

/-- The device with another host name, and no flow bound. -/
def boardOf (hostname : DevName) : Board :=
  { dev := { danteDevInit ⟨0x02, 0, 0, 0, 0, 0x42⟩ with hostname := hostname }
    ip := ⟨169, 254, 9, 200⟩
    tx := Tx.boot ⟨169, 254, 9, 200⟩ ⟨0x02, 0, 0, 0, 0, 0x42⟩
    latencyNs := 1000000
    latencyAutoraise := false
    fppAdvMax := 4 }

theorem decodes_sendResponse_arc :
    ∃ o msg, (sendResponse (boardOf ⟨ascii "N-Series-Switchover", by decide⟩) mdnsInit
          (Net.boot fun _ _ => 0) announceWants).1.responses = [o] ∧
      Decodes (boardOf ⟨ascii "N-Series-Switchover", by decide⟩) o msg ∧ msg.answers.length = 6 := by
  obtain ⟨o, msg, hsent, ⟨m, hm, hnone, hlog⟩, hmsg, -⟩ :=
    @decodes_sendResponse (boardOf ⟨ascii "N-Series-Switchover", by decide⟩)
      ⟨by decide, by decide⟩ mdnsInit (Net.boot fun _ _ => 0) announceWants (by decide)
  refine ⟨o, msg, hsent, hmsg, ?_⟩
  rw [hmsg.answers, hlog, hnone (by decide)]
  rfl

/-- A host without a name: the address of it cannot be read back. -/
theorem not_decodes_nameless :
    ¬ ∃ o msg, (sendResponse (boardOf ⟨[], by decide⟩) mdnsInit (Net.boot fun _ _ => 0)
          [.a]).1.responses = [o] ∧ Decodes (boardOf ⟨[], by decide⟩) o msg := by
  rintro ⟨o, msg, hsent, hmsg⟩
  rw [(responses_sendResponse (by decide)).1] at hsent
  obtain rfl : (assemble (boardOf ⟨[], by decide⟩) 0 0 [.a]).2 = o := by
    simpa [mdnsInit] using hsent
  have hnone : readMessage (assemble (boardOf ⟨[], by decide⟩) 0 0 [.a]).2.enc.buf = none := by
    decide +kernel
  have hread := hmsg.read
  rw [hnone] at hread
  cases hread

end Mdns
end InfernoFpga
