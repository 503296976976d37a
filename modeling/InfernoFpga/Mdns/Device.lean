import InfernoFpga.Mdns.Announce
import InfernoFpga.Mdns.Bundle

/-!
# Device — what the records say of the device

The records that name services and hosts are where a controller learns which device this is, where
it is and where its servers are.  Every record of every response says the same of that.
-/

namespace InfernoFpga
namespace Mdns

open Lib
open Firmware

/-! ## Reading -/

/-- The value of a hexadecimal digit. -/
def hexValue (c : UInt8) : Nat := if c.toNat < 58 then c.toNat - 48 else c.toNat - 87

/-- Two digits make a byte. -/
def readHex : Str → List UInt8
  | hi :: lo :: rest => UInt8.ofNat (hexValue hi * 16 + hexValue lo) :: readHex rest
  | _ => []

/-- The device a text names behind `id=`. -/
def textId (t : List UInt8) : Option (List UInt8) :=
  ((txtStrings t).find? fun s => (ascii "id=").isPrefixOf s).map fun s => readHex (s.drop 3)

/-- Does a name end in a service? -/
def under (s : Svc) (owner : Str) : Bool := (dot :: s.name).isSuffixOf owner

theorem hexValue_hexDigit : ∀ v < 16, hexValue (hexDigit v) = v := by decide

theorem readHex_flatMap : ∀ bs : List UInt8,
    readHex (bs.flatMap fun v => [hexDigit (v.toNat / 16), hexDigit (v.toNat % 16)]) = bs
  | [] => rfl
  | b :: bs => by
      have hlt := b.toNat_lt
      have hhi := hexValue_hexDigit (b.toNat / 16) (by omega)
      have hlo := hexValue_hexDigit (b.toNat % 16) (Nat.mod_lt _ (by decide))
      -- the two digits of a byte are its quotient and remainder
      have hbyte : UInt8.ofNat (b.toNat / 16 * 16 + b.toNat % 16) = b := by
        rw [Nat.div_add_mod', UInt8.ofNat_toNat]
      show UInt8.ofNat (hexValue _ * 16 + hexValue _) :: readHex (bs.flatMap _) = b :: bs
      rw [hhi, hlo, hbyte, readHex_flatMap bs]

/-- The text of the CMC service names the device. -/
theorem textId_buildTxtCmc (b : Board) : textId (buildTxtCmc b) = some b.dev.deviceId.toList := by
  let hexid := ascii "id=" ++ b.dev.deviceId.toList.flatMap fun v =>
    [hexDigit (v.toNat / 16), hexDigit (v.toNat % 16)]
  have htexts : buildTxtCmc b = (hexid :: [ascii "process=0", ascii "cmcp_vers=1.2.0",
      ascii "cmcp_min=1.0.0", ascii "server_vers=4.1.0", ascii "channels=0x6000004d",
      ascii "mf=N-Series", ascii "model=_00000000000000ff"]).flatMap txtPut := by
    simp only [List.flatMap_cons, List.flatMap_nil, List.append_nil, buildTxtCmc, txtPutHexid,
      List.append_assoc, hexid]
  have hshort : hexid.length ≤ 255 := by
    have hid : b.dev.deviceId.toList.length = 8 := Vector.length_toList
    simp [hexid, hid]
    decide
  rw [textId, htexts, txtStrings_flatMap, List.map_cons, List.take_of_length_le hshort,
    List.find?_cons_of_pos, Option.map_some]
  · exact congrArg some (readHex_flatMap _)
  · exact List.isPrefixOf_iff_prefix.2 (List.prefix_append _ _)

/-- A name ends in one service at most. -/
theorem under_unique {s s' : Svc} {owner : Str} (h : under s owner = true)
    (h' : under s' owner = true) : s = s' := by
  have hends : ∀ s s' : Svc, (dot :: s.name) <:+ (dot :: s'.name) → s = s' := by
    intro s s'
    cases s <;> cases s' <;> decide
  have hs := List.isSuffixOf_iff_suffix.1 h
  have hs' := List.isSuffixOf_iff_suffix.1 h'
  rcases List.suffix_or_suffix_of_suffix hs hs' with hsub | hsub
  · exact hends s s' hsub
  · exact (hends s' s hsub).symm

/-! ## One record -/

/-- A record says of the device that it has this identity, this name and this address, and that its
servers are at their ports; pointers say nothing of that. -/
def SaysOf (dev : DanteDev) (ip : Ip) (r : Rr) : Prop :=
  match r.rdata with
  | .ptr _ => True
  | .a addr => r.owner = (dev.hostname ++ ascii ".local").map lc ∧ addr = ip.bytes
  | .srv _ _ port target => target = (dev.hostname ++ ascii ".local").map lc ∧
      ∀ s, s = .arc ∨ s = .cmc → under s r.owner = true →
        r.owner = (dev.name ++ dot :: s.name).map lc ∧ port = s.port
  | .txt text => under .cmc r.owner = true →
      r.owner = (dev.name ++ dot :: Svc.cmc.name).map lc ∧ textId text = some dev.deviceId.toList

section Names

variable (b : Board)

theorem nHost_eq : b.nHost = b.dev.hostname ++ ascii ".local" := by
  obtain ⟨hlen, -⟩ := b.dev.hostname.2
  have hlocal : (ascii ".local").length = 6 := rfl
  have hmax : danteMaxName = 32 := rfl
  refine cat2_eq ?_
  rw [List.length_append]
  omega

theorem svcInst_eq (s : Svc) : b.svcInst s = b.dev.name ++ dot :: s.name := by
  obtain ⟨hlen, -⟩ := b.dev.name.2
  have hsvc : s.name.length ≤ 26 := by cases s <;> decide
  have hmax : danteMaxName = 32 := rfl
  refine cat2_eq ?_
  rw [List.length_append, List.length_cons]
  omega

theorem under_of_suffix {s : Svc} {front owner : Str} (h : owner = front ++ dot :: s.name) :
    under s (owner.map lc) = true := by
  have hlower : (dot :: s.name).map lc = dot :: s.name := by cases s <;> decide
  rw [h, List.map_append, hlower]
  exact List.isSuffixOf_iff_suffix.2 (List.suffix_append _ _)

theorem under_svcInst (s : Svc) : under s ((b.svcInst s).map lc) = true :=
  under_of_suffix (svcInst_eq b s)

theorem under_inst (i : Instance) : under i.svc ((b.inst i).map lc) = true := by
  have htail : ∀ (label : Str) (s : Svc), label ++ instTail b s =
      (label ++ (ascii "@" ++ b.dev.name)) ++ dot :: s.name := fun label s => by
    simp only [instTail, List.append_assoc, List.singleton_append]
  cases i with
  | chan ch1 =>
    exact under_of_suffix ((instName_eq (digits_danteTxChannelName _).short .chan).trans
      (htail _ _))
  | bund id =>
    exact under_of_suffix ((instName_eq (digits_bundLabel id).short .bund).trans (htail _ _))

/-- The records of channels and bundles are not those of the two servers. -/
theorem not_under_inst (i : Instance) {s : Svc} (hs : s = .arc ∨ s = .cmc) :
    under s ((b.inst i).map lc) = false := by
  refine Bool.eq_false_iff.2 fun h => ?_
  have hsame := under_unique h (under_inst b i)
  rw [hsame] at hs
  cases i with
  | chan ch1 => exact hs.elim (fun h => nomatch h) fun h => nomatch h
  | bund id => exact hs.elim (fun h => nomatch h) fun h => nomatch h

end Names

/-- Every record that can be meant says so. -/
theorem saysOf_intendedRr (b : Board) (x : Entry) : SaysOf b.dev b.ip (intendedRr b x) := by
  have hhost : b.nHost.map lc = (b.dev.hostname ++ ascii ".local").map lc := by rw [nHost_eq]
  cases x with
  | services s => trivial
  | svcPtr s => trivial
  | instPtr i => trivial
  | hostA => exact ⟨hhost, rfl⟩
  | svcSrv s =>
    -- the owner is under one service only, and that is the one the record is of
    refine ⟨hhost, fun s' _ hunder => ?_⟩
    obtain rfl := under_unique hunder (under_svcInst b s)
    exact ⟨congrArg (List.map lc) (svcInst_eq b s'), rfl⟩
  | instSrv i =>
    -- channels and bundles are under services of their own
    refine ⟨hhost, fun s hs hunder => ?_⟩
    rw [show under s ((intendedRr b (.instSrv i)).owner) = false from not_under_inst b i hs]
      at hunder
    cases hunder
  | svcTxt s =>
    intro hunder
    obtain rfl := under_unique hunder (under_svcInst b s)
    exact ⟨congrArg (List.map lc) (svcInst_eq b .cmc), textId_buildTxtCmc b⟩
  | instTxt i =>
    intro hunder
    rw [show under .cmc ((intendedRr b (.instTxt i)).owner) = false from
      not_under_inst b i (.inr rfl)] at hunder
    cases hunder

/-! ## All that is said -/

/-- From `r` to `r'` some responses were sent; each can be read, and all its records say the same
of the device. -/
def TellsOf (b : Board) (r r' : Responder) : Prop :=
  ∃ os, r'.responses = r.responses ++ os ∧ ∀ o ∈ os, ∃ msg, readMessage o.enc.buf = some msg ∧
    ∀ x ∈ msg.answers ++ msg.additionals, SaysOf b.dev b.ip x

section Telling

variable {b : Board}

theorem TellsOf.refl (b : Board) (r : Responder) : TellsOf b r r :=
  ⟨[], (List.append_nil _).symm, fun _ h => absurd h List.not_mem_nil⟩

theorem TellsOf.trans {r r' r'' : Responder} (h : TellsOf b r r') (h' : TellsOf b r' r'') :
    TellsOf b r r'' := by
  obtain ⟨os, hos, hsays⟩ := h
  obtain ⟨os', hos', hsays'⟩ := h'
  refine ⟨os ++ os', by rw [hos', hos, List.append_assoc], fun o ho => ?_⟩
  rcases List.mem_append.1 ho with ho | ho
  · exact hsays o ho
  · exact hsays' o ho

theorem tellsOf_sendResponse (hb : Named b) (r : Responder) (n : Net) (want : Wants) :
    TellsOf b r (sendResponse b r n want).1 := by
  by_cases hwant : want = []
  · rw [sendResponse, if_pos hwant]
    exact TellsOf.refl b r
  · refine ⟨[_], (responses_sendResponse hwant).1, fun o ho => ?_⟩
    obtain ⟨msg, hmsg⟩ := decodes_assemble hb r.chanPtrStart r.wantIdx want
    rw [List.mem_singleton.1 ho]
    refine ⟨msg, hmsg.read, fun x hx => ?_⟩
    rw [hmsg.records] at hx
    obtain ⟨entry, -, rfl⟩ := List.mem_map.1 hx
    exact saysOf_intendedRr b entry

/-- Sending changes nothing of the node. -/
theorem sameNode_sendResponse (b : Board) (r : Responder) (n : Net) (want : Wants) :
    SameNode n (sendResponse b r n want).2 := by
  unfold sendResponse
  split
  · exact SameNode.refl n
  · dsimp only
    split
    · exact (SameNode.of_txStore ..).trans (sameNode_netUdpCommit ..)
    · exact (SameNode.of_txStore ..).trans (sameNode_netUdpCommit ..)

/-- What a call of the responder does, as far as others can see. -/
def Tells (b : Board) (s s' : Responder × Net) : Prop := TellsOf b s.1 s'.1 ∧ SameNode s.2 s'.2

theorem Tells.refl (b : Board) (s : Responder × Net) : Tells b s s :=
  ⟨TellsOf.refl b s.1, SameNode.refl s.2⟩

theorem Tells.trans {s s' s'' : Responder × Net} (h : Tells b s s') (h' : Tells b s' s'') :
    Tells b s s'' := ⟨h.1.trans h'.1, h.2.trans h'.2⟩

theorem tells_sendResponse (hb : Named b) (r : Responder) (n : Net) (want : Wants) :
    Tells b (r, n) (sendResponse b r n want) :=
  ⟨tellsOf_sendResponse hb r n want, sameNode_sendResponse b r n want⟩

/-- What is said counts from the responses there were. -/
theorem Tells.of_responses {r r' : Responder} {n : Net} {s : Responder × Net}
    (h : Tells b (r', n) s) (heq : r'.responses = r.responses) : Tells b (r, n) s := by
  obtain ⟨⟨os, hos, hsays⟩, hnode⟩ := h
  exact ⟨⟨os, by rw [hos, heq], hsays⟩, hnode⟩

theorem tells_mdnsRx (hb : Named b) (r : Responder) (n : Net) (msg : List UInt8) :
    Tells b (r, n) (mdnsRx b r n msg) := by
  unfold mdnsRx
  split
  · dsimp only
    split
    · exact (tells_sendResponse hb _ n _).of_responses rfl
    · exact Tells.refl b (r, n)
  · exact Tells.refl b (r, n)

theorem tells_resweep (hb : Named b) (r : Responder) (n : Net) :
    Tells b (r, n) (resweep b r n) := by
  unfold resweep
  split
  · exact Tells.refl b (r, n)
  · have hsent := tells_sendResponse hb
      { r with wantIdx := danteTxChannels - r.chanResweep + 1 } n [.chanOne]
    dsimp only at hsent ⊢
    generalize sendResponse b { r with wantIdx := danteTxChannels - r.chanResweep + 1 } n
      [.chanOne] = s at hsent ⊢
    exact hsent

theorem tells_mdnsPoll (hb : Named b) (r : Responder) (n : Net) (now : UInt32) :
    Tells b (r, n) (mdnsPoll b r n now) := by
  have hsweep := tells_resweep hb r n
  unfold mdnsPoll
  generalize resweep b r n = s at hsweep ⊢
  rcases s with ⟨r', n'⟩
  dsimp only
  split
  · exact hsweep
  · split
    · exact hsweep
    · have hannounced := tells_sendResponse hb r' n' announceWants
      generalize sendResponse b r' n' announceWants = s at hannounced ⊢
      exact hsweep.trans hannounced

end Telling

end Mdns
end InfernoFpga
