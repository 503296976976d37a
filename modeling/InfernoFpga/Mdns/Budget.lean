import InfernoFpga.Firmware.NetTx
import InfernoFpga.Mdns.Browse
import InfernoFpga.Mdns.Bundle
import InfernoFpga.Mdns.RoundTrip

/-!
# Budget — which queries a response has room for

The size of a response is looked at in front of each channel pointer and nowhere else.  What is
appended afterwards — bundle pointers, the records of one instance, the host's address — has to
fit what is left; a response that has grown too long is dropped whole when it is committed.
-/

namespace InfernoFpga
namespace Mdns

open Lib
open Firmware

/-! ## Texts -/

theorem length_txtPut (s : Str) : (txtPut s).length ≤ s.length + 1 := by
  rw [txtPut, List.length_cons, List.length_take]
  omega

theorem length_decimal {v k : Nat} (hk : 0 < k) (hv : v < 10 ^ k) : (decimal v).length ≤ k := by
  rw [decimal, List.length_map]
  exact (Nat.length_toDigits_le_iff (by decide) hk).2 hv

theorem length_txtPutKvU (key : Str) {v k : Nat} (hk : 0 < k) (hv : v < 10 ^ k) :
    (txtPutKvU key v).length ≤ key.length + k + 1 := by
  have hput := length_txtPut (key ++ decimal v)
  have hdigits := length_decimal hk hv
  rw [List.length_append] at hput
  rw [txtPutKvU]
  omega

/-- The latency settings are of 32 bits. -/
def Board.Stored (b : Board) : Prop := b.latencyNs < 2 ^ 32

theorem Board.Stored.latency_lt {b : Board} (h : b.Stored) : b.latency < 2 ^ 32 := by
  have hset : b.latencyNs < 2 ^ 32 := h
  have hstd : ∀ p : Nat → Bool, (stdLat.find? p).getD 5000000 ≤ 5000000 := by
    intro p
    cases hfind : stdLat.find? p with
    | none => exact Nat.le_refl _
    | some lat =>
        have hall : ∀ lat ∈ stdLat, lat ≤ 5000000 := by decide
        exact hall lat (List.mem_of_find?_eq_some hfind)
  simp only [Board.latency, danteTxLatencyEffective]
  split
  · exact max_lt ((hstd _).trans_lt (by decide)) hset
  · exact hset

theorem length_fppText (v : Nat) : (fppText v).length ≤ 8 := by
  have hkey : (ascii "fpp=").length = 4 := by decide
  have htwo : (ascii ",2").length = 2 := by decide
  simp only [fppText, List.length_append, hkey, htwo]
  split <;> simp

theorem length_bundleText (bid pos : Nat) : (bundleText bid pos).length ≤ 6 := by
  have hkey : (ascii "b.").length = 2 := by decide
  have heq : (ascii "=").length = 1 := by decide
  simp only [bundleText, List.length_append, hkey, heq]
  split <;> simp

theorem length_octet (v : UInt8) : (octet v).length ≤ 3 := by
  simp only [octet, List.length_append]
  split <;> split <;> simp

theorem length_addrText (ip : Ip) : (addrText ip).length ≤ 19 := by
  have hkey : (ascii "a.0=").length = 4 := by decide
  have ha := length_octet ip.a
  have hb := length_octet ip.b
  have hc := length_octet ip.c
  have hd := length_octet ip.d
  simp only [addrText, List.length_append, List.length_cons, List.length_nil, hkey]
  omega

section Costs

variable {b : Board}

theorem length_buildTxtChan (hb : b.Stored) {ch1 : Nat} (hch : ch1 < 2 ^ 16) :
    (buildTxtChan b ch1).length ≤ 126 := by
  have hlit : (txtPut (ascii "txtvers=2") ++ txtPut (ascii "dbcp1=0x1200") ++
      txtPut (ascii "dbcp=0x1004") ++ txtPut (ascii "rate=48000") ++ txtPut (ascii "en=24") ++
      txtPut (ascii "pcm=3 4") ++ txtPut (ascii "enc=24") ++ txtPut (ascii "at2")).length = 71 := by
    decide +kernel
  have hid := length_txtPutKvU (ascii "id=") (k := 5) (by decide) (hch.trans (by decide))
  have hlatency := length_txtPutKvU (ascii "latency_ns=") (k := 10) (by decide)
    (hb.latency_lt.trans (by decide))
  have hnchan := length_txtPutKvU (ascii "nchan=") (v := 8) (k := 1) (by decide) (by decide)
  have hfpp := (length_txtPut (fppText b.fppAdvMax)).trans
    (Nat.succ_le_succ (length_fppText b.fppAdvMax))
  have hkeys : (ascii "id=").length = 3 ∧ (ascii "latency_ns=").length = 11 ∧
      (ascii "nchan=").length = 6 := by decide
  rw [hkeys.1] at hid
  rw [hkeys.2.1] at hlatency
  rw [hkeys.2.2] at hnchan
  simp only [List.length_append] at hlit
  rcases hcarrier : danteTxChanBundle b.tx (ch1 % 2 ^ 16) with _ | ⟨bid, pos⟩
  · simp only [buildTxtChan, hcarrier, List.length_append, List.length_nil]
    omega
  · have hbundle := (length_txtPut (bundleText bid.toNat pos)).trans
      (Nat.succ_le_succ (length_bundleText bid.toNat pos))
    simp only [buildTxtChan, hcarrier, List.length_append]
    omega

theorem length_buildTxtBund (hb : b.Stored) {id : Nat} (hid : id < 2 ^ 16) :
    (buildTxtBund b id).length ≤ 107 := by
  have hlit : (txtPut (ascii "txtvers=1") ++ txtPut (ascii "rate=48000") ++
      txtPut (ascii "enc=24") ++ txtPut (ascii "at2") ++
      txtPut (ascii "p.0=4321")).length = 41 := by
    decide +kernel
  have hid := length_txtPutKvU (ascii "id=") (k := 5) (by decide) (hid.trans (by decide))
  have hlatency := length_txtPutKvU (ascii "latency_ns=") (k := 10) (by decide)
    (hb.latency_lt.trans (by decide))
  have hfpp := length_txtPutKvU (ascii "fpp=") (v := b.tx.mcastFpp.val) (k := 2) (by decide)
    (by
      have hall : ∀ n ∈ kFppTable, n < 10 ^ 2 := by decide
      exact hall _ b.tx.mcastFpp.2)
  -- a group that is not found is published with eight channels
  have hslots :
      ((danteTxMcastById b.tx (BitVec.ofNat 16 id)).getD (⟨0, 0, 0, 0⟩, 8)).2 < 10 ^ 1 := by
    rw [danteTxMcastById]
    cases findFlow b.tx (sameId (BitVec.ofNat 16 id)) with
    | none => exact (by decide : 8 < 10 ^ 1)
    | some f => exact Nat.lt_of_le_of_lt (b.tx.flows f).nslots.2.2 (by decide)
  have hnchan := length_txtPutKvU (ascii "nchan=") (k := 1) (by decide) hslots
  have haddr := (length_txtPut _).trans (Nat.succ_le_succ (length_addrText
    ((danteTxMcastById b.tx (BitVec.ofNat 16 id)).getD (⟨0, 0, 0, 0⟩, 8)).1))
  have hkeys : (ascii "id=").length = 3 ∧ (ascii "latency_ns=").length = 11 ∧
      (ascii "nchan=").length = 6 ∧ (ascii "fpp=").length = 4 := by decide
  rw [hkeys.1] at hid
  rw [hkeys.2.1] at hlatency
  rw [hkeys.2.2.1] at hnchan
  rw [hkeys.2.2.2] at hfpp
  simp only [List.length_append] at hlit
  simp only [buildTxtBund, List.length_append]
  omega

/-! ## What a record takes at most -/

theorem length_bundInst (b : Board) (id : Nat) :
    0 < (b.bundInst id).length ∧ (b.bundInst id).length ≤ 61 := by
  have hname := b.dev.name.2.1
  have hsvc := length_svcName .bund
  have hat : (ascii "@").length = 1 := by decide
  have hlabel := (digits_bundLabel id).short
  simp only [Board.bundInst, Board.instName, List.length_take, List.length_append,
    List.length_cons, List.length_nil, hat, danteMaxName, mdnsInstMax] at hname ⊢
  omega

theorem length_inst (b : Board) (i : Instance) :
    0 < (b.inst i).length ∧ (b.inst i).length ≤ 61 := by
  cases i with
  | chan c => exact ⟨(length_chanInst b c).1, (length_chanInst b c).2.trans (by decide)⟩
  | bund id => exact length_bundInst b id

theorem inst_ne_nil (b : Board) (i : Instance) : b.inst i ≠ [] :=
  List.ne_nil_of_length_pos (length_inst b i).1

theorem cost_instPtr (b : Board) (e : Enc) (i : Instance) :
    (encode b e (.instPtr i)).buf.length ≤ e.buf.length + 100 := by
  have hlen := length_inst b i
  have hsvc := length_svcName i.svc
  have hptr := length_putPtr (e := e) (svcName_ne_nil i.svc) (inst_ne_nil b i)
  exact hptr.trans (by omega)

theorem cost_instSrv (b : Board) (e : Enc) (i : Instance) :
    (encode b e (.instSrv i)).buf.length ≤ e.buf.length + (b.inst i).length + 57 := by
  have hhost := length_nHost b
  have hdata := length_putSrv_rdata (e := e) (b.inst i) (nHost_ne_nil b) i.port
  have hhead := length_putRrHead (e := e) (inst_ne_nil b i) dnsTSrv dnsCInFlush mdnsTtlA
  exact hdata.trans (by omega)

theorem cost_hostA (b : Board) (e : Enc) :
    (encode b e .hostA).buf.length ≤ e.buf.length + 53 := by
  have hhost := length_nHost b
  have hhead := length_putRrHead (e := e) (nHost_ne_nil b) dnsTA dnsCInFlush mdnsTtlA
  have hdata : (encode b e .hostA).buf.length =
      (putRrHead e b.nHost dnsTA dnsCInFlush mdnsTtlA).buf.length + 6 := by
    rw [encode, putA, buf_put, List.length_append]
    rfl
  omega

/-- The location and the text of an instance. -/
theorem cost_instBoth (b : Board) (e : Enc) (i : Instance) :
    (encodeAll b e (instBoth i)).buf.length ≤
      e.buf.length + 2 * (b.inst i).length + (instText b i).length + 69 := by
  have hsrv := cost_instSrv b e i
  have hhead := length_putRrHead (e := encode b e (.instSrv i)) (inst_ne_nil b i) dnsTTxt
    dnsCInFlush mdnsTtlTxt
  have hdata := length_putTxt_rdata (e := encode b e (.instSrv i)) (b.inst i) (instText b i)
  have htxt : encodeAll b e (instBoth i) =
      putTxt (encode b e (.instSrv i)) (b.inst i) (instText b i) := by
    cases i <;> rfl
  rw [htxt]
  exact (Nat.le_of_eq hdata).trans (by omega)

theorem cost_chanOne (hb : b.Stored) {ch1 : Nat} (hch : ch1 < 2 ^ 16) (e : Enc) :
    (encodeAll b e (instBoth (.chan ch1))).buf.length ≤ e.buf.length + 315 := by
  have hlen : (b.inst (.chan ch1)).length ≤ 60 := (length_chanInst b ch1).2
  have htext : (instText b (.chan ch1)).length ≤ 126 := length_buildTxtChan hb hch
  exact (cost_instBoth b e (.chan ch1)).trans (by omega)

theorem cost_bundOne (hb : b.Stored) {id : Nat} (hid : id < 2 ^ 16) (e : Enc) :
    (encodeAll b e (instBoth (.bund id))).buf.length ≤ e.buf.length + 298 := by
  have hlen : (b.inst (.bund id)).length ≤ 61 := (length_bundInst b id).2
  have htext : (instText b (.bund id)).length ≤ 107 := length_buildTxtBund hb hid
  exact (cost_instBoth b e (.bund id)).trans (by omega)

/-- A bundle pointer for each of the groups. -/
theorem cost_bundPtrs (b : Board) (ids : List Nat) (e : Enc) :
    (encodeAll b e (ids.map fun id => .instPtr (.bund id))).buf.length ≤
      e.buf.length + 100 * ids.length := by
  induction ids generalizing e with
  | nil => exact Nat.le_refl _
  | cons id ids ih =>
      have hfirst := cost_instPtr b e (.bund id)
      have hrest := ih (encode b e (.instPtr (.bund id)))
      rw [List.length_cons]
      exact hrest.trans (by omega)

theorem cost_ite (b : Board) {p : Prop} [Decidable p] {xs : List Entry} {k : Nat}
    (h : p → ∀ e, (encodeAll b e xs).buf.length ≤ e.buf.length + k) (e : Enc) :
    (encodeAll b e (if p then xs else [])).buf.length ≤ e.buf.length + (if p then k else 0) := by
  split
  · rename_i hp
    exact h hp e
  · exact Nat.le_refl _

/-- What follows the channel pointers, for an index within its type. -/
theorem cost_tail (hb : b.Stored) {want : Wants} {idx : Nat}
    (hidx : .chanOne ∈ want ∨ .bundOne ∈ want → idx < 2 ^ 16) (e : Enc) :
    (encodeAll b e (tailEntries b want idx)).buf.length ≤ e.buf.length +
      (if .bundPtr ∈ want then 100 * b.groupIds.length else 0) +
      (if .chanOne ∈ want then 315 else 0) + (if .bundOne ∈ want then 298 else 0) + 53 := by
  have hptrs := cost_ite b (p := .bundPtr ∈ want) (fun _ => cost_bundPtrs b b.groupIds) e
  generalize he₁ : encodeAll b e (if .bundPtr ∈ want then
    b.groupIds.map fun id => .instPtr (.bund id) else []) = e₁ at hptrs
  have hchan := cost_ite b (fun h => cost_chanOne hb (hidx (Or.inl h))) e₁
  generalize he₂ : encodeAll b e₁
    (if .chanOne ∈ want then instBoth (.chan idx) else []) = e₂ at hchan
  have hbund := cost_ite b (fun h => cost_bundOne hb (hidx (Or.inr h))) e₂
  generalize he₃ : encodeAll b e₂
    (if .bundOne ∈ want then instBoth (.bund idx) else []) = e₃ at hbund
  have hhost : (encodeAll b e₃ (if .a ∈ want then [.hostA] else [])).buf.length ≤
      e₃.buf.length + (if .a ∈ want then 53 else 0) :=
    cost_ite b (fun _ => cost_hostA b) e₃
  have hall : encodeAll b e (tailEntries b want idx) =
      encodeAll b e₃ (if .a ∈ want then [.hostA] else []) := by
    rw [tailEntries, encodeAll_append, encodeAll_append, encodeAll_append, he₁, ← he₃, ← he₂]
    rfl
  have haddr : (if .a ∈ want then 53 else 0) ≤ 53 := by
    split <;> decide
  rw [hall]
  omega

end Costs

/-! ## What the channel pointers leave -/

/-- The loop writes its last pointer with fewer than 900 bytes in front of it. -/
theorem length_chanPtrLoop (b : Board) (k start : Nat) {o : Out} {n : Nat} (hn : 998 ≤ n)
    (h : o.enc.buf.length ≤ n) : (chanPtrLoop b k start o).2.enc.buf.length ≤ n := by
  induction k generalizing start o with
  | zero => exact h
  | succ k ih =>
      rw [chanPtrLoop]
      split
      · rename_i hroom
        have hcost := cost_chanPtr b o.enc ((start + (danteTxChannels - (k + 1))) %
          danteTxChannels + 1)
        rw [mdnsSplitBytes] at hroom
        refine ih _ ?_
        exact hcost.trans (by omega)
      · exact h

/-- The bytes a response can have in front of what is appended unchecked. -/
def headBytesMax (chanPtr : Bool) : Nat := if chanPtr then 998 else 732

theorem length_chanPtrs (b : Board) (want : Wants) (start : Nat) :
    (chanPtrs b want start (emitAll b Out.empty (deviceEntries want))).2.enc.buf.length ≤
      headBytesMax (decide (.chanPtr ∈ want)) := by
  have hhead := length_head b want
  rw [← enc_emitAll] at hhead
  rw [chanPtrs]
  split
  · rename_i hwant
    rw [headBytesMax, decide_eq_true hwant, if_pos rfl]
    exact length_chanPtrLoop b danteTxChannels start (Nat.le_refl _) (hhead.trans (by decide))
  · rename_i hwant
    rw [headBytesMax, decide_eq_false hwant]
    exact hhead

theorem length_assemble (b : Board) (start idx : Nat) (want : Wants) :
    (assemble b start idx want).2.enc.buf.length =
      (encodeAll b (chanPtrs b want start (emitAll b Out.empty (deviceEntries want))).2.enc
        (tailEntries b want idx)).buf.length := by
  rw [← enc_emitAll]
  simp only [assemble, finish, length_patch16]

/-! ## What a query demands -/

theorem mem_of_matchChanInst {b : Board} {q : Str} {c : Nat} (h : matchChanInst b q = some c) :
    c ∈ List.range' 1 danteTxChannels := by
  rw [matchChanInst] at h
  split at h
  · exact List.mem_of_find?_eq_some h
  · cases h

theorem mem_of_matchBundInst {b : Board} {q : Str} {id : Nat} (h : matchBundInst b q = some id) :
    id ∈ b.groupIds := by
  rw [matchBundInst] at h
  split at h
  · exact List.mem_of_find?_eq_some h
  · cases h

/-- The instance a question names is a channel of the device or one of its groups. -/
theorem exists_of_named {b : Board} {q : Question} {i : Instance} (h : named b q = some i) :
    (∃ c ∈ List.range' 1 danteTxChannels, i = .chan c) ∨ ∃ id ∈ b.groupIds, i = .bund id := by
  have hclass := named_eq_some.1 h
  cases hchan : matchChanInst b q.name with
  | some c =>
      simp only [classify, hchan] at hclass
      split_ifs at hclass
      exact Or.inl ⟨c, mem_of_matchChanInst hchan, (Target.inst.inj hclass).symm⟩
  | none =>
      simp only [classify, hchan] at hclass
      cases hbund : matchBundInst b q.name with
      | some id =>
          simp only [hbund] at hclass
          split_ifs at hclass
          exact Or.inr ⟨id, mem_of_matchBundInst hbund, (Target.inst.inj hclass).symm⟩
      | none =>
          simp only [hbund] at hclass
          split_ifs at hclass

theorem groupIds_lt {b : Board} {id : Nat} (h : id ∈ b.groupIds) : id < 2 ^ 16 := by
  rcases List.mem_map.1 h with ⟨v, _, rfl⟩
  exact v.isLt

theorem idx_lt_of_named {b : Board} {q : Question} {i : Instance} (h : named b q = some i) :
    i.idx < 2 ^ 16 := by
  rcases exists_of_named h with ⟨c, hc, rfl⟩ | ⟨id, hid, rfl⟩
  · have hrange := List.mem_range'_1.1 hc
    exact Nat.lt_of_lt_of_le hrange.2 (by decide)
  · exact groupIds_lt hid

/-- Where the records of an instance are wanted, the index is that of an instance. -/
theorem idxOf_lt {b : Board} {qs : List Question} (idx : Nat)
    (h : .chanOne ∈ wantsOf b qs ∨ .bundOne ∈ wantsOf b qs) : idxOf b idx qs < 2 ^ 16 := by
  have hasks : ∃ q ∈ qs, ∃ i, AsksFor b i q := by
    rcases h with h | h
    · rcases mem_wantsOf.1 h with ⟨q, hq, hbits⟩
      rcases bit_mem_bits (Or.inl rfl) hbits with ⟨i, _, hi⟩
      exact ⟨q, hq, i, hi⟩
    · rcases mem_wantsOf.1 h with ⟨q, hq, hbits⟩
      rcases bit_mem_bits (Or.inr rfl) hbits with ⟨i, _, hi⟩
      exact ⟨q, hq, i, hi⟩
  rcases hasks with ⟨q, hq, i, hi⟩
  rcases lastNamed_isSome hq hi.1 with ⟨j, hj⟩
  rcases List.mem_filterMap.1 (List.mem_of_getLast? hj) with ⟨q', _, hnamed⟩
  rw [idxOf, hj]
  exact idx_lt_of_named hnamed

theorem length_groupIds (b : Board) : b.groupIds.length ≤ nFlows := by
  rw [Board.groupIds, danteTxMcastIds, List.length_map, List.length_map]
  exact (List.length_filter_le _ _).trans_eq (List.length_finRange)

/-- A bundle can only be asked for while there is a group. -/
theorem groups_of_bundOne {b : Board} {qs : List Question} (h : .bundOne ∈ wantsOf b qs) :
    0 < b.groupIds.length := by
  rcases mem_wantsOf.1 h with ⟨q, _, hbits⟩
  rcases bit_mem_bits (Or.inr rfl) hbits with ⟨i, hbit, hasks⟩
  rcases exists_of_named hasks.1 with ⟨c, _, rfl⟩ | ⟨id, hid, rfl⟩
  · cases hbit
  · exact List.length_pos_of_mem hid

/-- What of a query makes its response long, beside the records of the device itself: the kinds of
channel and bundle records it wants, and how many multicast flows there are. -/
@[ext]
structure Demand where
  chanPtr : Bool
  bundPtr : Bool
  chanOne : Bool
  bundOne : Bool
  groups : Nat
  few : groups ≤ nFlows
  named : bundOne = true → 0 < groups

def demandOf (b : Board) (qs : List Question) : Demand where
  chanPtr := decide (.chanPtr ∈ wantsOf b qs)
  bundPtr := decide (.bundPtr ∈ wantsOf b qs)
  chanOne := decide (.chanOne ∈ wantsOf b qs)
  bundOne := decide (.bundOne ∈ wantsOf b qs)
  groups := b.groupIds.length
  few := length_groupIds b
  named := fun h => groups_of_bundOne (of_decide_eq_true h)

/-- The load on a response, in bundle pointers: the channel pointers, the records of a channel and
those of a bundle count for three each. -/
def Demand.load (d : Demand) : Nat :=
  (if d.bundPtr then d.groups else 0) +
    3 * (d.chanPtr.toNat + d.chanOne.toNat + d.bundOne.toNat)

/-- The response to a query. -/
def responseTo (b : Board) (r : Responder) (qs : List Question) : Out :=
  (assemble b r.chanPtrStart (idxOf b r.wantIdx qs) (wantsOf b qs)).2

/-- A response with a load of six at most is no longer than a payload can be. -/
theorem length_responseTo {b : Board} (hb : b.Stored) (r : Responder) {qs : List Question}
    (h : (demandOf b qs).load ≤ 6) : (responseTo b r qs).enc.buf.length ≤ netMaxPayload := by
  have hhead := length_chanPtrs b (wantsOf b qs) r.chanPtrStart
  have htail := cost_tail hb (@idxOf_lt b qs r.wantIdx)
    (chanPtrs b (wantsOf b qs) r.chanPtrStart
      (emitAll b Out.empty (deviceEntries (wantsOf b qs)))).2.enc
  have hfew := length_groupIds b
  rw [responseTo, length_assemble]
  show _ ≤ 1400
  simp only [demandOf, Demand.load, headBytesMax, nFlows] at h hhead hfew
  by_cases hc : .chanPtr ∈ wantsOf b qs <;> by_cases hp : .bundPtr ∈ wantsOf b qs <;>
    by_cases ho : .chanOne ∈ wantsOf b qs <;> by_cases hu : .bundOne ∈ wantsOf b qs <;>
    simp only [hc, hp, ho, hu, decide_true, decide_false, Bool.toNat_true, Bool.toNat_false,
      if_true, if_false, Bool.false_eq_true] at h hhead htail <;> omega

/-! ## The response to a message -/

/-- The longest Ethernet frame; a transmit slot holds one. -/
def ethFrameMax : Nat := 1514

/-- What a message is answered with leaves the board: no response is longer than a payload or the
transmit slot, and a query that matches anything is answered, with all of its response. -/
structure Leaves (b : Board) (r : Responder) (n : Net) (msg : List UInt8) : Prop where
  fits : ∀ o ∈ (mdnsRx b r n msg).1.responses.drop r.responses.length,
    o.enc.buf.length ≤ netMaxPayload ∧ udpPayloadOff + o.enc.buf.length ≤ ethFrameMax
  answered : ∀ qs ∈ queryOf msg, wantsOf b qs ≠ [] →
    (mdnsRx b r n msg).1.responses = r.responses ++ [responseTo b r qs] ∧
      ∃ f, (mdnsRx b r n msg).2.sent = n.sent ++ [f] ∧
        udpPayload f.bytes = (responseTo b r qs).enc.buf

/-- A message that carries a query is answered for its questions. -/
theorem mdnsRx_of_queryOf (b : Board) (r : Responder) (n : Net) {msg : List UInt8}
    {qs : List Question} (h : queryOf msg = some qs) :
    ∃ stats, mdnsRx b r n msg =
      sendResponse b { r with wantIdx := idxOf b r.wantIdx qs, stats := stats } n
        (wantsOf b qs) := by
  rw [queryOf] at h
  split at h
  · rename_i hquery
    have hloop := (questionLoop_eq b msg (rd16 msg 4) 12 ⟨[], r.wantIdx, r.stats.rxIgnored⟩).1 qs h
    let s := qs.foldl (Ask.question b) ⟨[], r.wantIdx, r.stats.rxIgnored⟩
    refine ⟨{ r.stats with rxQueries := r.stats.rxQueries + 1, rxIgnored := s.ignored }, ?_⟩
    simp only [mdnsRx, hquery, if_true, hloop, want_foldl, wantIdx_foldl, List.nil_append, s]
  · cases h

theorem responses_of_queryOf_none (b : Board) (r : Responder) (n : Net) {msg : List UInt8}
    (h : queryOf msg = none) : (mdnsRx b r n msg).1.responses = r.responses := by
  rw [queryOf] at h
  split at h
  · rename_i hquery
    have hloop := (questionLoop_eq b msg (rd16 msg 4) 12 ⟨[], r.wantIdx, r.stats.rxIgnored⟩).2 h
    simp [mdnsRx, hquery, hloop]
  · rename_i hquery
    rw [mdnsRx, if_neg hquery]

/-- A response that is short enough is sent as it stands. -/
theorem sent_sendResponse {b : Board} {r : Responder} {n : Net} {want : Wants} (hwant : want ≠ [])
    (hfit : (assemble b r.chanPtrStart r.wantIdx want).2.enc.buf.length ≤ netMaxPayload) :
    ∃ f, (sendResponse b r n want).2.sent = n.sent ++ [f] ∧
      udpPayload f.bytes = (assemble b r.chanPtrStart r.wantIdx want).2.enc.buf := by
  generalize ho : (assemble b r.chanPtrStart r.wantIdx want).2 = o at hfit
  have hmcast : arpResolve (txStore n udpPayloadOff o.enc.buf) mdnsGroup =
      some (netMcastMac mdnsGroup) := by
    rw [arpResolve, if_pos (by decide)]
  have hbuf : txBuf (txStore n udpPayloadOff o.enc.buf) =
      Mem.store (txBuf n) udpPayloadOff o.enc.buf := by
    simp only [txStore, slotStore, txBuf, Function.update_self]
  rcases netUdpCommit_hit mdnsPort mdnsPort netTosBestEffort hfit hmcast with ⟨hok, hsent⟩
  have hcommit : (sendResponse b r n want).2 = (netUdpCommit (txStore n udpPayloadOff o.enc.buf)
      mdnsGroup mdnsPort mdnsPort o.enc.buf.length netTosBestEffort).1 := by
    simp only [sendResponse, if_neg hwant, ho, hok, if_true]
  refine ⟨_, hcommit ▸ hsent, ?_⟩
  rw [udpPayload_commitFrame _ _ _ _ _ _ hfit, hbuf, Mem.slice_store_same]

/-- A query that a response has room for is answered. -/
theorem leaves_of_load {b : Board} (hb : b.Stored) (r : Responder) (n : Net) {msg : List UInt8}
    (h : ∀ qs ∈ queryOf msg, (demandOf b qs).load ≤ 6) : Leaves b r n msg := by
  cases hquery : queryOf msg with
  | none =>
      constructor
      · intro o ho
        rw [responses_of_queryOf_none b r n hquery, List.drop_length] at ho
        cases ho
      · intro qs hqs
        rw [hquery] at hqs
        cases hqs
  | some qs =>
      have hfit := length_responseTo hb r (h qs hquery)
      rcases mdnsRx_of_queryOf b r n hquery with ⟨stats, hrx⟩
      by_cases hwant : wantsOf b qs = []
      · constructor
        · intro o ho
          rw [hrx, sendResponse, if_pos hwant, List.drop_length] at ho
          cases ho
        · intro qs' hqs hne
          rw [hquery, Option.mem_some_iff] at hqs
          exact absurd (hqs ▸ hwant) hne
      · have hsent := (responses_sendResponse (b := b) (n := n)
          (r := { r with wantIdx := idxOf b r.wantIdx qs, stats := stats }) hwant).1
        rw [← hrx] at hsent
        constructor
        · intro o ho
          rw [hsent, List.drop_left, List.mem_singleton] at ho
          rw [ho]
          exact ⟨hfit, (Nat.add_le_add_left hfit _).trans (by decide)⟩
        · intro qs' hqs _
          rw [hquery, Option.mem_some_iff] at hqs
          rw [← hqs]
          refine ⟨hsent, ?_⟩
          rw [hrx]
          exact sent_sendResponse hwant hfit

end Mdns
end InfernoFpga
