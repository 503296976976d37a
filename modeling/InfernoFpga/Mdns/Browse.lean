import InfernoFpga.Lib.Run
import InfernoFpga.Mdns.Query
import Mathlib.Tactic.Ring

/-!
# Browse — enumerating the channels over several responses

One response has room for about half of the channel pointers, so a cursor rotates through the
channels from response to response.  The cursor is advanced inside the loop that indexes from it:
the channels of one response are not consecutive, but a triangular number apart.
-/

namespace InfernoFpga
namespace Mdns

open Lib
open Firmware

/-! ## The channels of one response -/

/-- The `j`-th channel announced from turn `i` on: each turn moves on by one more than its own
index. -/
theorem getElem_chanSeq {m i start j : Nat} (h : j < (chanSeq m i start).length) :
    (chanSeq m i start)[j] =
      (start + ((j + 1) * i + j * (j + 3) / 2)) % danteTxChannels + 1 := by
  induction m generalizing i start j with
  | zero => cases h
  | succ m ih =>
      cases j with
      | zero => simp [chanSeq]
      | succ j =>
          have hrest := @ih (i + 1) ((start + i) % danteTxChannels + 1) j
            (by simpa [chanSeq] using h)
          -- the triangular number grows by the index of the turn
          have htri : (j + 1) * (j + 4) / 2 = j * (j + 3) / 2 + (j + 2) := by
            have : (j + 1) * (j + 4) = j * (j + 3) + (j + 2) * 2 := by ring
            rw [this, Nat.add_mul_div_right _ _ (by decide)]
          have hoff : (j + 2) * i + (j + 1) * (j + 4) / 2 =
              i + 1 + ((j + 1) * (i + 1) + j * (j + 3) / 2) := by
            rw [htri]
            ring
          calc (chanSeq (m + 1) i start)[j + 1]
              = ((start + i) % danteTxChannels + 1 +
                  ((j + 1) * (i + 1) + j * (j + 3) / 2)) % danteTxChannels + 1 := hrest
            _ = (start + ((j + 2) * i + (j + 1) * (j + 4) / 2)) % danteTxChannels + 1 := by
                rw [hoff, Nat.add_assoc, Nat.mod_add_mod, Nat.add_assoc start i,
                  Nat.add_assoc i 1]

/-- The channels whose pointers a response holds, in order. -/
def announced (o : Out) : List Nat := o.log.filterMap fun
  | .instPtr (.chan c) => some c
  | _ => none

theorem announced_of_log {o : Out} {cs : List Nat} {xs ys : List Entry}
    (h : o.log = xs ++ cs.map (fun c => .instPtr (.chan c)) ++ ys)
    (hxs : ∀ x ∈ xs, ∀ c, x ≠ .instPtr (.chan c)) (hys : ∀ x ∈ ys, ∀ c, x ≠ .instPtr (.chan c)) :
    announced o = cs := by
  have hnone : ∀ zs : List Entry, (∀ x ∈ zs, ∀ c, x ≠ .instPtr (.chan c)) →
      zs.filterMap (fun | .instPtr (.chan c) => some c | _ => none) = [] := by
    intro zs hzs
    refine List.filterMap_eq_nil_iff.2 fun x hx => ?_
    split
    · rename_i c
      exact absurd rfl (hzs _ hx c)
    · rfl
  rw [announced, h, List.filterMap_append, List.filterMap_append, hnone xs hxs, hnone ys hys,
    List.filterMap_map, List.nil_append, List.append_nil]
  exact List.filterMap_some

/-! ## Sizes of records -/

section Sizes

variable {b : Board} {e : Enc}

theorem length_putRrHead {name : Str} (h : name ≠ []) (type cls ttl : Nat) :
    (putRrHead e name type cls ttl).buf.length ≤ e.buf.length + name.length + 10 := by
  have hname := length_namePut e h
  have hrest : (putRrHead e name type cls ttl).buf.length = (namePut e name).buf.length + 8 := by
    rw [putRrHead, buf_put, List.length_append]
    rfl
  omega

theorem length_putRrHead_cached {name : Str} (h : ncFind e.nc name ≠ none)
    (type cls ttl : Nat) :
    (putRrHead e name type cls ttl).buf.length = e.buf.length + 10 := by
  rw [putRrHead, buf_put, List.length_append, length_namePut_cached h]
  rfl

theorem length_putRdata (f : Enc → Enc) :
    (putRdata e f).buf.length = (f (e.put [0, 0])).buf.length :=
  length_patch16 ..

theorem length_putPtr {svc inst : Str} (hsvc : svc ≠ []) (hinst : inst ≠ []) :
    (putPtr e svc inst).buf.length ≤ e.buf.length + svc.length + inst.length + 14 := by
  have hhead := length_putRrHead (e := e) hsvc dnsTPtr dnsCIn mdnsTtl
  have hdata := length_namePut ((putRrHead e svc dnsTPtr dnsCIn mdnsTtl).put [0, 0]) hinst
  rw [buf_put, List.length_append] at hdata
  rw [putPtr, length_putRdata]
  simp only [List.length_cons, List.length_nil] at hdata
  omega

theorem length_putPtr_cached {svc inst : Str} (hsvc : ncFind e.nc svc ≠ none) (hinst : inst ≠ []) :
    (putPtr e svc inst).buf.length ≤ e.buf.length + inst.length + 14 := by
  have hhead := length_putRrHead_cached (e := e) hsvc dnsTPtr dnsCIn mdnsTtl
  have hdata := length_namePut ((putRrHead e svc dnsTPtr dnsCIn mdnsTtl).put [0, 0]) hinst
  rw [buf_put, List.length_append] at hdata
  rw [putPtr, length_putRdata]
  simp only [List.length_cons, List.length_nil] at hdata
  omega

theorem length_putSrv_rdata (inst : Str) (hhost : b.nHost ≠ []) (port : Nat) :
    (putSrv b e inst port).buf.length ≤
      (putRrHead e inst dnsTSrv dnsCInFlush mdnsTtlA).buf.length + b.nHost.length + 10 := by
  have hdata := length_namePut (((putRrHead e inst dnsTSrv dnsCInFlush mdnsTtlA).put [0, 0]).put
    ([0, 0, 0, 0] ++ Mem.be16 port)) hhost
  have hport : (Mem.be16 port).length = 2 := rfl
  rw [buf_put, buf_put, List.length_append, List.length_append, List.length_append,
    hport] at hdata
  rw [putSrv, length_putRdata]
  simp only [List.length_cons, List.length_nil] at hdata
  omega

theorem length_putTxt_rdata (inst : Str) (text : List UInt8) :
    (putTxt e inst text).buf.length =
      (putRrHead e inst dnsTTxt dnsCInFlush mdnsTtlTxt).buf.length + 2 + text.length := by
  rw [putTxt, length_putRdata, buf_put, buf_put, List.length_append, List.length_append]
  rfl

end Sizes

/-! ## The names -/

theorem length_nHost (b : Board) : b.nHost.length ≤ 37 := by
  have hname := b.dev.hostname.2.1
  have hlocal : (ascii ".local").length = 6 := by decide
  simp only [Board.nHost, cat2, List.length_take, List.length_append, hlocal, danteMaxName]
    at hname ⊢
  omega

theorem nHost_ne_nil (b : Board) : b.nHost ≠ [] := by
  have hlocal : (ascii ".local").length = 6 := by decide
  have hlen : 0 < b.nHost.length := by
    simp only [Board.nHost, cat2, List.length_take, List.length_append, hlocal, danteMaxName]
    omega
  exact List.ne_nil_of_length_pos hlen

theorem length_svcName (s : Svc) : 24 ≤ s.name.length ∧ s.name.length ≤ 25 := by
  cases s <;> decide

theorem svcName_ne_nil (s : Svc) : s.name ≠ [] :=
  List.ne_nil_of_length_pos (Nat.lt_of_lt_of_le (by decide) (length_svcName s).1)

theorem length_svcInst (b : Board) (s : Svc) :
    0 < (b.svcInst s).length ∧ (b.svcInst s).length ≤ 32 + s.name.length := by
  have hname := b.dev.name.2.1
  have hsvc := length_svcName s
  simp only [Board.svcInst, cat2, List.length_take, List.length_append, List.length_cons,
    danteMaxName] at hname ⊢
  omega

theorem length_chanInst (b : Board) (ch1 : Nat) :
    0 < (b.chanInst ch1).length ∧ (b.chanInst ch1).length ≤ 60 := by
  have hname := b.dev.name.2.1
  have hsvc := length_svcName .chan
  have hat : (ascii "@").length = 1 := by decide
  have hlabel : (danteTxChannelName (ch1 % 2 ^ 16)).length ≤ 2 := by
    rw [danteTxChannelName]
    split <;> simp
  simp only [Board.chanInst, Board.instName, List.length_take, List.length_append,
    List.length_cons, List.length_nil, hat, danteMaxName, mdnsInstMax] at hname ⊢
  omega

/-! ## The records in front of the channel pointers -/

def encodeAll (b : Board) (e : Enc) (xs : List Entry) : Enc := xs.foldl (encode b) e

theorem enc_emitAll (b : Board) (o : Out) (xs : List Entry) :
    (emitAll b o xs).enc = encodeAll b o.enc xs := by
  induction xs generalizing o with
  | nil => rfl
  | cons x xs ih => exact ih (emit b o x)

theorem encodeAll_append (b : Board) (e : Enc) (xs ys : List Entry) :
    encodeAll b e (xs ++ ys) = encodeAll b (encodeAll b e xs) ys :=
  List.foldl_append ..

theorem encodeAll_ite (b : Board) (e : Enc) (p : Prop) [Decidable p] (x : Entry) :
    encodeAll b e (if p then [x] else []) = if p then encode b e x else e := by
  split <;> rfl

/-- A name that a pointer can be made to. -/
def Cached (e : Enc) (name : Str) : Prop := ncFind e.nc name ≠ none

/-- Room in the cache, at an offset a pointer can hold. -/
def Room (e : Enc) : Prop := e.nc.length < ncMax ∧ e.buf.length ≤ 0x3FFF

instance (e : Enc) : Decidable (Room e) := inferInstanceAs (Decidable (_ ∧ _))

theorem cached_putRrHead {e : Enc} {name : Str} (hroom : Room e) (hlen : name.length < ncName)
    (type cls ttl : Nat) : Cached (putRrHead e name type cls ttl) name :=
  ncFind_namePut_self hroom.1 hroom.2 hlen

theorem Cached.putRrHead {e : Enc} {name : Str} (h : Cached e name) (owner : Str)
    (type cls ttl : Nat) : Cached (putRrHead e owner type cls ttl) name :=
  ncFind_extends (nc_namePut_extends e owner) h

theorem Cached.putSrv {b : Board} {e : Enc} {name inst : Str} {port : Nat}
    (h : Cached (Mdns.putRrHead e inst dnsTSrv dnsCInFlush mdnsTtlA) name) :
    Cached (putSrv b e inst port) name :=
  ncFind_extends (nc_namePut_extends ..) h

theorem nc_encode_extends (b : Board) (e : Enc) (x : Entry) : e.nc <+: (encode b e x).nc := by
  -- a record is its owner's name and at most one name more
  have hone : ∀ owner : Str, e.nc <+: (namePut e owner).nc := nc_namePut_extends e
  have htwo : ∀ (owner name : Str) (e' : Enc), e'.nc = (namePut e owner).nc →
      e.nc <+: (namePut e' name).nc := by
    intro owner name e' hnc
    refine (hone owner).trans ?_
    rw [← hnc]
    exact nc_namePut_extends e' name
  cases x with
  | services s => exact htwo _ _ _ rfl
  | svcPtr s => exact htwo _ _ _ rfl
  | svcSrv s => exact htwo _ _ _ rfl
  | svcTxt s => exact hone _
  | instPtr i => exact htwo _ _ _ rfl
  | instSrv i => exact htwo _ _ _ rfl
  | instTxt i => cases i <;> exact hone _
  | hostA => exact hone _

theorem nc_encode_ite_extends (b : Board) (e : Enc) (p : Prop) [Decidable p] (x : Entry) :
    e.nc <+: (if p then encode b e x else e).nc := by
  split
  · exact nc_encode_extends b e x
  · exact List.prefix_rfl

section Costs

variable (b : Board)

/-- The two states the pointer record of a service can find the message in. -/
def afterServices : List Enc :=
  [Out.empty.enc, putPtr (putPtr Out.empty.enc nServices (Svc.name .arc)) nServices
    (Svc.name .cmc)]

theorem afterServices_room : ∀ e ∈ afterServices, e.buf.length ≤ 96 ∧ Room e ∧
    Room ((putRrHead e (Svc.name .arc) dnsTPtr dnsCIn mdnsTtl).put [0, 0]) := by
  decide +kernel

/-- Once the services are enumerated, their names need not be spelt again. -/
theorem afterServices_cases : ∀ e ∈ afterServices, e.buf.length ≤ 12 ∨
    (e.buf.length ≤ 96 ∧ ncFind e.nc (Svc.name .arc) ≠ none ∧
      ncFind e.nc (Svc.name .cmc) ≠ none) := by
  decide +kernel

theorem length_arcInst : 0 < (b.svcInst .arc).length ∧ (b.svcInst .arc).length ≤ 56 :=
  length_svcInst b .arc

theorem arcInst_ne_nil : b.svcInst .arc ≠ [] := List.ne_nil_of_length_pos (length_arcInst b).1

/-- The pointer record of a service: 24 bytes less where the service can be pointed at. -/
theorem cost_svcPtr {e : Enc} {s : Svc} (hs : s.name.length = 24) {k : Nat}
    (h : k = 94 ∨ (Cached e s.name ∧ k = 70)) :
    (encode b e (.svcPtr s)).buf.length ≤ e.buf.length + k := by
  have hlen := length_svcInst b s
  have hne : b.svcInst s ≠ [] := List.ne_nil_of_length_pos hlen.1
  rcases h with rfl | ⟨hcached, rfl⟩
  · have hptr := length_putPtr (e := e) (svcName_ne_nil s) hne
    exact hptr.trans (by omega)
  · have hptr := length_putPtr_cached (e := e) hcached hne
    exact hptr.trans (by omega)

/-- The pointer record writes the instance name for the first time. -/
theorem cached_arcPtr {e : Enc} (he : e ∈ afterServices) :
    Cached (encode b e (.svcPtr .arc)) (b.svcInst .arc) := by
  have hlen := length_arcInst b
  have hroom := (afterServices_room e he).2.2
  exact ncFind_namePut_self hroom.1 hroom.2 (by rw [ncName]; omega)

/-- The location record: 56 bytes less where the name can be pointed at. -/
theorem cost_arcSrv {e : Enc} {k : Nat} (h : (Cached e (b.svcInst .arc) ∧ k = 57) ∨
    (Room e ∧ k = 113)) :
    Cached (encode b e (.svcSrv .arc)) (b.svcInst .arc) ∧
      (encode b e (.svcSrv .arc)).buf.length ≤ e.buf.length + k := by
  have hlen := length_arcInst b
  have hhost := length_nHost b
  have hdata := length_putSrv_rdata (e := e) (b.svcInst .arc) (nHost_ne_nil b) dantePortArc
  rcases h with ⟨hcached, rfl⟩ | ⟨hroom, rfl⟩
  · refine ⟨Cached.putSrv (hcached.putRrHead _ _ _ _), hdata.trans ?_⟩
    rw [length_putRrHead_cached hcached]
    omega
  · have hhead := length_putRrHead (e := e) (arcInst_ne_nil b) dnsTSrv dnsCInFlush mdnsTtlA
    have hfit : (b.svcInst .arc).length < ncName := by rw [ncName]; omega
    refine ⟨Cached.putSrv (cached_putRrHead hroom hfit _ _ _), hdata.trans ?_⟩
    omega

theorem cost_arcTxt {e : Enc} {k : Nat} (h : (Cached e (b.svcInst .arc) ∧ k = 123) ∨
    (Room e ∧ k = 179)) : (encode b e (.svcTxt .arc)).buf.length ≤ e.buf.length + k := by
  have hlen := length_arcInst b
  have htext : buildTxtArc.length = 111 := by decide
  have hdata := length_putTxt_rdata (e := e) (b.svcInst .arc) buildTxtArc
  rw [htext] at hdata
  refine (Nat.le_of_eq hdata).trans ?_
  rcases h with ⟨hcached, rfl⟩ | ⟨hroom, rfl⟩
  · rw [length_putRrHead_cached hcached]
  · have hhead := length_putRrHead (e := e) (arcInst_ne_nil b) dnsTTxt dnsCInFlush mdnsTtlTxt
    omega

theorem cost_cmcSrv (e : Enc) :
    (encode b e (.svcSrv .cmc)).buf.length ≤ e.buf.length + 113 := by
  have hlen := length_svcInst b .cmc
  have hsvc : (Svc.name .cmc).length = 24 := by decide
  rw [hsvc] at hlen
  have hhost := length_nHost b
  have hdata := length_putSrv_rdata (e := e) (b.svcInst .cmc) (nHost_ne_nil b) dantePortCmc
  have hhead := length_putRrHead (e := e) (List.ne_nil_of_length_pos hlen.1) dnsTSrv dnsCInFlush
    mdnsTtlA
  exact hdata.trans (by omega)

theorem length_buildTxtCmc : (buildTxtCmc b).length = 135 := by
  have hid : (txtPutHexid b.dev.deviceId).length = 20 := by
    have hhex : (b.dev.deviceId.toList.flatMap fun v =>
        [hexDigit (v.toNat / 16), hexDigit (v.toNat % 16)]).length = 16 := by
      simp [List.length_flatMap]
    have hkey : (ascii "id=").length = 3 := by decide
    simp only [txtPutHexid, txtPut, List.length_cons, List.length_take, List.length_append, hkey,
      hhex]
    omega
  have hrest : (txtPut (ascii "process=0") ++ txtPut (ascii "cmcp_vers=1.2.0") ++
      txtPut (ascii "cmcp_min=1.0.0") ++ txtPut (ascii "server_vers=4.1.0") ++
      txtPut (ascii "channels=0x6000004d") ++ txtPut (ascii "mf=N-Series") ++
      txtPut (ascii "model=_00000000000000ff")).length = 115 := by decide +kernel
  simp only [List.length_append] at hrest
  simp only [buildTxtCmc, List.length_append, hid]
  omega

theorem cost_cmcTxt (e : Enc) :
    (encode b e (.svcTxt .cmc)).buf.length ≤ e.buf.length + 203 := by
  have hlen := length_svcInst b .cmc
  have hsvc : (Svc.name .cmc).length = 24 := by decide
  rw [hsvc] at hlen
  have hdata := length_putTxt_rdata (e := e) (b.svcInst .cmc) (buildTxtCmc b)
  rw [length_buildTxtCmc] at hdata
  have hhead := length_putRrHead (e := e) (List.ne_nil_of_length_pos hlen.1) dnsTTxt dnsCInFlush
    mdnsTtlTxt
  exact (Nat.le_of_eq hdata).trans (by omega)

theorem cost_chanPtr (e : Enc) (c : Nat) :
    (encode b e (.instPtr (.chan c))).buf.length ≤ e.buf.length + 99 := by
  have hlen := length_chanInst b c
  have hsvc : (Svc.name .chan).length = 25 := by decide
  have hptr := length_putPtr (e := e) (svcName_ne_nil .chan) (List.ne_nil_of_length_pos hlen.1)
  rw [hsvc] at hptr
  exact hptr.trans (by omega)

/-- The records in front of the channel pointers leave room for two of those. -/
theorem length_head (want : Wants) :
    (encodeAll b Out.empty.enc (deviceEntries want)).buf.length ≤ 732 := by
  simp only [deviceEntries, encodeAll_append, encodeAll_ite]
  -- enumeration
  have hsvc : encodeAll b Out.empty.enc
      (if .services ∈ want then [.services .arc, .services .cmc] else []) ∈ afterServices := by
    split
    · exact List.mem_cons_of_mem _ (List.mem_cons_self ..)
    · exact List.mem_cons_self ..
  generalize encodeAll b Out.empty.enc _ = e at hsvc
  have hroom := (afterServices_room e hsvc).2.1
  -- it is paid for by shorter pointer records
  obtain ⟨p, hp, harc, hcmc, hsize⟩ : ∃ p, 70 ≤ p ∧ (p = 94 ∨ (Cached e (Svc.name .arc) ∧ p = 70)) ∧
      (p = 94 ∨ (Cached e (Svc.name .cmc) ∧ p = 70)) ∧ e.buf.length + 2 * p ≤ 236 := by
    rcases afterServices_cases e hsvc with hshort | ⟨hlong, harc, hcmc⟩
    · exact ⟨94, by decide, Or.inl rfl, Or.inl rfl, by omega⟩
    · exact ⟨70, by decide, Or.inr ⟨harc, rfl⟩, Or.inr ⟨hcmc, rfl⟩, by omega⟩
  -- the first service: its name is written in full once
  obtain ⟨e₁, he₁, hptr⟩ : ∃ e₁, e₁ = (if .arcPtr ∈ want then encode b e (.svcPtr .arc) else e) ∧
      ((Cached e₁ (b.svcInst .arc) ∧ e₁.buf.length ≤ e.buf.length + p) ∨
        (Room e₁ ∧ e₁.buf.length ≤ e.buf.length)) := by
    refine ⟨_, rfl, ?_⟩
    split
    · exact Or.inl ⟨cached_arcPtr b hsvc, cost_svcPtr b (by decide) harc⟩
    · exact Or.inr ⟨hroom, Nat.le_refl _⟩
  obtain ⟨e₂, he₂, hsrv⟩ : ∃ e₂, e₂ = (if .arcSrv ∈ want then encode b e₁ (.svcSrv .arc) else e₁) ∧
      ((Cached e₂ (b.svcInst .arc) ∧ e₂.buf.length ≤ e.buf.length + (p + 57)) ∨
        (Room e₂ ∧ e₂.buf.length ≤ e.buf.length)) := by
    refine ⟨_, rfl, ?_⟩
    rcases hptr with ⟨hcached, hlen⟩ | ⟨hfresh, hlen⟩ <;> split
    · have hcost := cost_arcSrv b (Or.inl ⟨hcached, rfl⟩)
      exact Or.inl ⟨hcost.1, hcost.2.trans (by omega)⟩
    · exact Or.inl ⟨hcached, hlen.trans (by omega)⟩
    · have hcost := cost_arcSrv b (Or.inr ⟨hfresh, rfl⟩)
      exact Or.inl ⟨hcost.1, hcost.2.trans (by omega)⟩
    · exact Or.inr ⟨hfresh, hlen⟩
  obtain ⟨e₃, he₃, htxt⟩ : ∃ e₃, e₃ = (if .arcTxt ∈ want then encode b e₂ (.svcTxt .arc) else e₂) ∧
      e₃.buf.length ≤ e.buf.length + (p + 180) := by
    refine ⟨_, rfl, ?_⟩
    rcases hsrv with ⟨hcached, hlen⟩ | ⟨hfresh, hlen⟩ <;> split
    · exact (cost_arcTxt b (Or.inl ⟨hcached, rfl⟩)).trans (by omega)
    · exact hlen.trans (by omega)
    · exact (cost_arcTxt b (Or.inr ⟨hfresh, rfl⟩)).trans (by omega)
    · exact hlen.trans (by omega)
  have hkept : e.nc <+: e₃.nc := by
    rw [he₃, he₂, he₁]
    exact ((nc_encode_ite_extends ..).trans (nc_encode_ite_extends ..)).trans
      (nc_encode_ite_extends ..)
  rw [← he₁, ← he₂, ← he₃]
  -- the second service, as if only the name of the service could be pointed at
  have hite : ∀ (p : Prop) [Decidable p] (x : Entry) (e : Enc) (k : Nat),
      (encode b e x).buf.length ≤ e.buf.length + k →
      (if p then encode b e x else e).buf.length ≤ e.buf.length + k := by
    intro p _ x e k hk
    split
    · exact hk
    · exact Nat.le_add_right ..
  refine (hite _ _ _ _ (cost_cmcTxt b _)).trans ?_
  have hcmcSrv := hite (.cmcSrv ∈ want) _ _ _ (cost_cmcSrv b
    (if .cmcPtr ∈ want then encode b e₃ (.svcPtr .cmc) else e₃))
  have hcmc₃ : p = 94 ∨ (Cached e₃ (Svc.name .cmc) ∧ p = 70) :=
    hcmc.imp_right fun h => ⟨ncFind_extends hkept h.1, h.2⟩
  have hcmcPtr := hite (.cmcPtr ∈ want) _ _ _ (cost_svcPtr b (by decide) hcmc₃)
  omega

end Costs

/-! ## The channels of a browse response -/

/-- The pointers of `m` turns of the loop, from turn `i` on. -/
def chanPtrEntries (m i start : Nat) : List Entry :=
  (chanSeq m i start).map fun c => .instPtr (.chan c)

/-- Turns are taken as long as there is room for pointers of any length. -/
theorem chanPtrLoop_take (b : Board) (m : Nat) {k start : Nat} {o : Out} (hk : k ≤ danteTxChannels)
    (hm : m ≤ k) (hroom : o.enc.buf.length + 99 * m < mdnsSplitBytes + 99) :
    chanPtrLoop b k start o =
      chanPtrLoop b (k - m) (((chanSeq m (danteTxChannels - k) start).getLast?).getD start)
        (emitAll b o (chanPtrEntries m (danteTxChannels - k) start)) := by
  induction m generalizing k start o with
  | zero => rfl
  | succ m ih =>
      obtain ⟨k, rfl⟩ := Nat.exists_eq_add_one_of_ne_zero (by omega : k ≠ 0)
      let c := (start + (danteTxChannels - (k + 1))) % danteTxChannels + 1
      have hnext : danteTxChannels - (k + 1) + 1 = danteTxChannels - k := by omega
      have hseq : chanSeq (m + 1) (danteTxChannels - (k + 1)) start =
          c :: chanSeq m (danteTxChannels - k) c := by
        rw [chanSeq, hnext]
      have hcost := cost_chanPtr b o.enc c
      have hfirst : o.enc.buf.length < mdnsSplitBytes := by omega
      have hrest := @ih k c (emit b o (.instPtr (.chan c))) (by omega)
        (Nat.le_of_succ_le_succ hm) (by rw [enc_emit]; omega)
      rw [chanPtrLoop, if_pos hfirst, chanPtrEntries, hseq, List.getLast?_cons, Option.getD_some,
        List.map_cons, Nat.add_sub_add_right]
      exact hrest

/-- With a short message so far, the loop announces two channels at least. -/
theorem chanPtrLoop_two (b : Board) (start : Nat) {o : Out} (h : o.enc.buf.length ≤ 732) :
    ∃ m, (chanPtrLoop b danteTxChannels start o).2.log =
      o.log ++ (chanSeq (m + 2) 0 start).map (fun c => .instPtr (.chan c)) := by
  have hroom : o.enc.buf.length + 99 * 2 < mdnsSplitBytes + 99 :=
    Nat.lt_of_le_of_lt (Nat.add_le_add_right h _) (by decide)
  have htwo := @chanPtrLoop_take b 2 danteTxChannels start o (Nat.le_refl _) (by decide) hroom
  rcases chanPtrLoop_eq_chanSeq b (k := danteTxChannels - 2) (by decide)
      (((chanSeq 2 (danteTxChannels - danteTxChannels) start).getLast?).getD start)
      (emitAll b o (chanPtrEntries 2 (danteTxChannels - danteTxChannels) start)) with
    ⟨m, _, hlog, _⟩
  refine ⟨m, ?_⟩
  rw [htwo, hlog, log_emitAll, List.append_assoc]
  rfl

/-- A response to a browse query announces two channels at least. -/
theorem announced_assemble (b : Board) (start idx : Nat) {want : Wants} (h : .chanPtr ∈ want) :
    ∃ m, announced (assemble b start idx want).2 = chanSeq (m + 2) 0 start := by
  have hhead : (emitAll b Out.empty (deviceEntries want)).enc.buf.length ≤ 732 := by
    rw [enc_emitAll]
    exact length_head b want
  rcases chanPtrLoop_two b start hhead with ⟨m, hlog⟩
  have hall : (assemble b start idx want).2.log = deviceEntries want ++
      (chanSeq (m + 2) 0 start).map (fun c => .instPtr (.chan c)) ++ tailEntries b want idx := by
    rw [log_assemble, chanPtrs, if_pos h, hlog, log_emitAll]
    rfl
  refine ⟨m, announced_of_log hall ?_ ?_⟩
  · intro x hx c
    simp only [deviceEntries, List.mem_append] at hx
    rintro rfl
    rcases hx with (((((hx | hx) | hx) | hx) | hx) | hx) | hx <;> split at hx <;> simp at hx
  · intro x hx c
    simp only [tailEntries, List.mem_append] at hx
    rintro rfl
    rcases hx with ((hx | hx) | hx) | hx <;> split at hx <;> simp at hx

/-! ## Fair enumeration -/

/-- The channels of one response are consecutive from the cursor on, and the cursor is left at
the last of them. -/
structure FairResponse (start : Nat) (o : Out) (next : Nat) : Prop where
  nodup : (announced o).Nodup
  cyclic : ∀ j (h : j < (announced o).length),
    (announced o)[j] = (start + j) % danteTxChannels + 1
  resumes : ∀ c, (announced o).getLast? = some c → next % danteTxChannels = c % danteTxChannels

/-- One query, with the device as it is then. -/
def rxStep (s : Responder × Net) (q : Board × List UInt8) : Responder × Net :=
  mdnsRx q.1 s.1 s.2 q.2

/-- The response to a query, if there is one, is fair. -/
def FairStep (s : Responder × Net) (q : Board × List UInt8) : Prop :=
  ∀ o, (rxStep s q).1.responses = s.1.responses ++ [o] →
    FairResponse s.1.chanPtrStart o (rxStep s q).1.chanPtrStart

/-- If each response announces at least `k` channels, any `48 / k` consecutive ones, rounded up,
announce them all. -/
def Covers (k : Nat) (os : List Out) : Prop :=
  (∀ o ∈ os, k ≤ (announced o).length) →
    ∀ i, i + (danteTxChannels + k - 1) / k ≤ os.length →
      ∀ c, 1 ≤ c → c ≤ danteTxChannels →
        ∃ o ∈ (os.drop i).take ((danteTxChannels + k - 1) / k), c ∈ announced o

/-- The responses to a run of queries. -/
def replies (s : Responder × Net) (qs : List (Board × List UInt8)) : List Out :=
  (run rxStep s qs).1.responses.drop s.1.responses.length

structure FairEnumeration (s : Responder × Net) (qs : List (Board × List UInt8)) : Prop where
  fair : Along rxStep FairStep s qs
  covers : ∀ k, 0 < k → Covers k (replies s qs)

/-- A well-formed query that asks for the pointers of the channel service. -/
def Browse (q : Board × List UInt8) : Prop :=
  ∃ qs, Carries q.2 qs ∧ ∃ x ∈ qs, classify q.1 x.name = .svc .chan ∧ x.wants dnsTPtr = true

/-- A browse query is answered, with two channels at least. -/
theorem response_of_browse (s : Responder × Net) {q : Board × List UInt8} (h : Browse q) :
    ∃ o m, (rxStep s q).1.responses = s.1.responses ++ [o] ∧
      announced o = chanSeq (m + 2) 0 s.1.chanPtrStart := by
  rcases h with ⟨qs, hcarries, x, hx, hname, htype⟩
  have hmem : .chanPtr ∈ wantsOf q.1 qs := by
    refine mem_wantsOf.2 ⟨x, hx, ?_⟩
    rw [hname]
    simp [Target.bits, htype]
  have hloop := questionLoop_eq_foldl q.1 hcarries.2 ⟨[], s.1.wantIdx, s.1.stats.rxIgnored⟩
  have hsent : (rxStep s q).1.responses = s.1.responses ++
      [(assemble q.1 s.1.chanPtrStart (idxOf q.1 s.1.wantIdx qs) (wantsOf q.1 qs)).2] := by
    simp only [rxStep, mdnsRx, hcarries.1, if_true, hloop, want_foldl, wantIdx_foldl,
      List.nil_append]
    exact (responses_sendResponse (List.ne_nil_of_mem hmem)).1
  rcases announced_assemble q.1 s.1.chanPtrStart (idxOf q.1 s.1.wantIdx qs) hmem with ⟨m, hseq⟩
  exact ⟨_, m, hsent, hseq⟩

/-- No response to a browse query is fair: the second channel it announces is not the one after
the first. -/
theorem not_fairStep {s : Responder × Net} {q : Board × List UInt8} (h : Browse q) :
    ¬ FairStep s q := by
  intro hfair
  rcases response_of_browse s h with ⟨o, m, hsent, hseq⟩
  have hcyclic := (hfair o hsent).cyclic
  rw [hseq] at hcyclic
  have hone : 1 < (chanSeq (m + 2) 0 s.1.chanPtrStart).length := by
    rw [length_chanSeq]
    omega
  have htwo := (getElem_chanSeq hone).symm.trans (hcyclic 1 hone)
  simp only [danteTxChannels] at htwo
  omega

theorem browse_never_fair (s : Responder × Net) (qs : List (Board × List UInt8))
    (h : ∃ q ∈ qs, Browse q) : ¬ FairEnumeration s qs := by
  intro henum
  have hfair := henum.fair
  clear henum
  induction qs generalizing s with
  | nil =>
      rcases h with ⟨q, hq, _⟩
      cases hq
  | cons q qs ih =>
      rcases h with ⟨q', hq', hbrowse⟩
      rcases List.mem_cons.1 hq' with rfl | hrest
      · exact not_fairStep hbrowse hfair.1
      · exact ih (rxStep s q) ⟨q', hrest, hbrowse⟩ hfair.2

/-! ## The first browse -/

/-- A query for the channel service, as a browser sends it. -/
def browseQuery : Board × List UInt8 :=
  (boardAtBoot, queryMsg [(["_netaudio-chan", "_udp", "local"], dnsTPtr)])

theorem browse_browseQuery : Browse browseQuery :=
  ⟨[⟨Svc.name .chan, dnsTPtr⟩], by decide +kernel, _, List.mem_cons_self .., by decide +kernel,
    rfl⟩

theorem browse_never_fair_once :
    ¬ FairEnumeration (mdnsInit, Net.boot fun _ _ => 0) [browseQuery] :=
  browse_never_fair _ _ ⟨browseQuery, List.mem_cons_self .., browse_browseQuery⟩

/-- The first response after boot announces channel 1, then channel 3. -/
theorem browse_skips_channel_two :
    Browse browseQuery ∧
      (replies (mdnsInit, Net.boot fun _ _ => 0) [browseQuery]).map
        (fun o => (announced o).take 2) = [[1, 3]] ∧
      ¬ FairEnumeration (mdnsInit, Net.boot fun _ _ => 0) [browseQuery] := by
  refine ⟨browse_browseQuery, ?_, fun henum => not_fairStep browse_browseQuery henum.fair.1⟩
  rcases response_of_browse (mdnsInit, Net.boot fun _ _ => 0) browse_browseQuery with
    ⟨o, m, hsent, hseq⟩
  rw [replies, run_cons, run_nil, hsent, List.drop_left, List.map_singleton, hseq]
  rfl

end Mdns
end InfernoFpga
